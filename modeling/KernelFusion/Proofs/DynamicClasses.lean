import KernelFusion.Proofs.TwoStreamEvents

/-!
What is provided for the classes of a dynamic operator.

A dynamic operator declares one kernel type, and every entry of its table has its own. Edges, barriers
and the kernel type of the launch follow the declared type, while the call follows the entry that is
chosen. Units of a domain that only the entry has are provided for as far as other operators take care
of them: one of that domain makes the launch have units of it, and a boundary in front of the call at
which they wait, or at which all units meet, holds them back until the producer has finished.

        producer ─ boundary ─ · · · ─ boundary ─ dynamic operator
                      └── one of these tells the domain ──┘
-/

namespace KernelFusion

open List

/-- Units of a domain that one block of a kernel takes. -/
def MixRecord.ratio (r : MixRecord) : Domain → UInt16
  | .cube => r.aicRatio
  | .vector => r.aivRatio

theorem MixRecord.ratio_pos_iff {kernelName : String} {t : KernelType} {d : Domain} :
    0 < (ofKernel kernelName t).ratio d ↔ d ∈ t.affinity.domains := by
  cases t <;> cases d <;> simp [ofKernel, ratio, KernelType.ratio, KernelType.affinity, Affinity.domains]

theorem Affinity.mem_domains_of_ne {a : Affinity} {d dp : Domain} (hne : dp ≠ d) (h : d ∉ a.domains) :
    dp ∈ a.domains := by
  revert hne h
  cases a <;> cases d <;> cases dp <;> decide

/-! ### The domains of a launch -/

namespace LaunchShape

/-- What the flags of operators without a domain can be. -/
def flagsWithout : Domain → List Nat
  | .cube => [1, 4, 5]
  | .vector => [2, 8, 10]

theorem or_mem_flagsWithout {d : Domain} :
    ∀ m ∈ flagsWithout d, ∀ n ∈ flagsWithout d, m ||| n ∈ flagsWithout d := by
  cases d <;> decide

theorem flag_mem_flagsWithout {t : KernelType} {d : Domain} (h : d ∉ t.affinity.domains) :
    t.flag ∈ flagsWithout d := by
  revert h
  cases t <;> cases d <;> decide

theorem flagsOf_mem_flagsWithout {ops : List Operator} {d : Domain} (hne : ops ≠ [])
    (h : ∀ o ∈ ops, d ∉ o.affinity.domains) : flagsOf ops ∈ flagsWithout d := by
  induction ops with
  | nil => exact absurd rfl hne
  | cons o ops ih =>
    have hflag := flag_mem_flagsWithout (h o List.mem_cons_self)
    rw [flagsOf, List.foldl_cons, Nat.zero_or, foldl_flags]
    by_cases hops : ops = []
    · simpa [hops, flagsOf] using hflag
    · exact or_mem_flagsWithout _ hflag _
        (ih hops fun o ho => h o (List.mem_cons_of_mem _ ho))

theorem not_mem_resolve {flags maxCube maxVector : Nat} {d : Domain} (h : flags ∈ flagsWithout d) :
    d ∉ (resolve flags maxCube maxVector).1.affinity.domains := by
  cases d <;> simp only [flagsWithout, List.mem_cons, List.not_mem_nil, or_false] at h <;>
    rcases h with rfl | rfl | rfl <;> simp [resolve, KernelType.affinity, Affinity.domains]

/-- A launch has units of exactly the domains that its operators declare. -/
theorem domain_mem_blocksOf_iff {ops : List Operator} (hne : ops ≠ []) {d : Domain} :
    d ∈ (blocksOf ops).1.affinity.domains ↔ ∃ o ∈ ops, d ∈ o.affinity.domains := by
  constructor
  · intro hd
    by_contra hnone
    have hwithout : ∀ o ∈ ops, d ∉ o.affinity.domains := fun o ho hod => hnone ⟨o, ho, hod⟩
    exact not_mem_resolve (flagsOf_mem_flagsWithout hne hwithout) hd
  · rintro ⟨o, ho, hod⟩
    exact domain_mem_blocksOf ho hod

end LaunchShape

/-- The domains that operators of a launch declare. -/
def Launch.Declares (l : Launch) (d : Domain) : Prop := ∃ o ∈ l.graph.operators, d ∈ o.affinity.domains

theorem Generator.launch_declares {r : Request} {l : Launch} (h : launch r = .ok l)
    (hne : l.graph.operators ≠ []) {d : Domain} :
    d ∈ l.shape.kernelType.affinity.domains ↔ l.Declares d := by
  obtain ⟨o, ops, _, _, haccepted, hshape⟩ := launch_eq_ok h
  have hops : l.graph.operators = ops := haccepted.spec.1
  rw [Launch.Declares, LaunchShape.of_eq_some hshape, hops]
  exact LaunchShape.domain_mem_blocksOf_iff (hops ▸ hne)

namespace SingleStream

open Schedule

variable {l : Launch} {p n x : Nat} {d dp : Domain} {s : Step} {b : Barrier}

/-! ### Between two calls -/

/-- The steps between the calls of an operator and of the next one. -/
def passage (l : Launch) (op : Nat) : List Step := trail l op ++ lead l (op + 1)

/-- The steps between the calls of operators `p` and `p + n + 1`. -/
def between (l : Launch) (p : Nat) : Nat → List Step
  | 0 => passage l p
  | n + 1 => between l p n ++ .invoke (p + n + 1) :: passage l (p + n + 1)

theorem blocks_eq_between : (List.range' p (n + 2)).flatMap (block l)
    = lead l p ++ .invoke p :: (between l p n ++ .invoke (p + n + 1) :: trail l (p + n + 1)) := by
  induction n with
  | zero => simp [List.range', block, between, passage]
  | succ n ih =>
    rw [List.range'_concat, List.flatMap_append, ih]
    simp [block, between, passage, Nat.add_assoc]

theorem exists_call_cut (hc : p + n + 1 < l.graph.size) : ∃ front back,
    steps l = front ++ .invoke p :: (between l p n ++ .invoke (p + n + 1) :: back) := by
  have hids : l.ids = List.range p ++ List.range' p (n + 2)
      ++ List.range' (p + n + 2) (l.graph.size - (p + n + 2)) := by
    obtain ⟨m, hm⟩ := Nat.exists_eq_add_of_lt hc
    have hrest : l.graph.size - (p + n + 2) = m := by omega
    have hsize : l.graph.size = p + (n + 2) + m := by omega
    rw [Launch.ids, hrest, hsize, List.range_eq_range', List.range_eq_range', ← List.range'_append_1,
      ← List.range'_append_1, Nat.zero_add, Nat.zero_add, Nat.add_assoc]
  refine ⟨openingSteps l ++ (List.range p).flatMap (block l) ++ lead l p, trail l (p + n + 1)
    ++ (List.range' (p + n + 2) (l.graph.size - (p + n + 2))).flatMap (block l) ++ closingSteps l, ?_⟩
  rw [steps, hids, List.flatMap_append, List.flatMap_append, blocks_eq_between]
  simp

theorem passage_sublist_between (hp : p ≤ x) (hx : x ≤ p + n) : passage l x <+ between l p n := by
  induction n with
  | zero =>
    obtain rfl : x = p := by omega
    exact List.Sublist.refl _
  | succ n ih =>
    by_cases hlast : x = p + n + 1
    · rw [hlast, between]
      exact (List.sublist_cons_self _ _).trans (List.sublist_append_right _ _)
    · exact (ih (by omega)).trans (List.sublist_append_left _ _)

/-- A step between two calls is another call or stands in one of the passages. -/
theorem mem_between (h : s ∈ between l p n) :
    (∃ op, s = .invoke op) ∨ ∃ x, p ≤ x ∧ x ≤ p + n ∧ s ∈ passage l x := by
  induction n with
  | zero => exact .inr ⟨p, Nat.le_refl _, Nat.le_refl _, h⟩
  | succ n ih =>
    rcases List.mem_append.mp h with hmem | hmem
    · exact (ih hmem).imp id fun ⟨x, hp, hx, hs⟩ => ⟨x, hp, by omega, hs⟩
    · rcases List.mem_cons.mp hmem with rfl | hmem
      · exact .inl ⟨_, rfl⟩
      · exact .inr ⟨p + n + 1, by omega, by omega, hmem⟩

/-! ### What a passage orders -/

theorem syncSteps_sublist_passage :
    syncSteps l x (x + 1) <+ passage l x := by
  have hlead : boundarySteps l x (x + 1) <+ lead l (x + 1) := by
    simp only [lead, Nat.succ_ne_zero, if_false, Nat.add_sub_cancel, List.append_assoc]
    exact (((List.sublist_append_left _ _).trans (List.sublist_append_right _ _)).trans
      (List.sublist_append_right _ _)).trans (List.sublist_cons_self _ _)
  exact ((syncSteps_sublist_boundarySteps _ _).trans hlead).trans (List.sublist_append_right _ _)

theorem wait_mem_passage {edge : Nat} {flag : Flag}
    (h : .wait edge d flag ∈ passage l x) : .wait edge d flag ∈ syncSteps l x (x + 1) := by
  by_contra hsync
  have hboundary : .wait edge d flag ∉ boundarySteps l x (x + 1) := by
    rw [boundarySteps_eq]
    split <;> split <;> simp [hsync]
  simp [passage, trail, lead, releaseSteps, debugSteps, resolveSteps, preloadSteps, mark,
    Step.beginOperator, hboundary] at h

theorem barrier_mem_passage (h : .barrier b ∈ passage l x) :
    (l.operator x).isDynamic = true ∨ l.options.debugSyncAll = true ∨
      .barrier b ∈ syncSteps l x (x + 1) ∨ l.events.sends x ≠ [] ∧ l.events.recvs (x + 1) ≠ [] := by
  by_contra hnone
  simp only [not_or] at hnone
  obtain ⟨hstatic, hdebug, hsync, hevents⟩ := hnone
  have hboundary : .barrier b ∉ boundarySteps l x (x + 1) := by
    rw [boundarySteps_eq]
    split
    · split <;> simp [hsync]
    · split
      · simp [hsync]
      · exact absurd ⟨‹_›, ‹_›⟩ hevents
  simp [passage, trail, lead, releaseSteps, debugSteps, resolveSteps, preloadSteps, mark,
    Step.beginOperator, hstatic, hdebug, hboundary] at h

/-- What tells units of a domain at the boundary behind an operator that the other domain is past it:
they wait there for the next operator, or all units meet, be it for a dynamic operator, for want of a
channel, or between a notification and a wait. -/
def Crosses (l : Launch) (op : Nat) (d : Domain) : Prop :=
  d ∈ (l.operator (op + 1)).affinity.domains ∨ (l.operator op).isDynamic = true ∨
  Channels.all.length < (Rules.crossing l.graph (op + 1)).length ∨
  l.events.sends op ≠ [] ∧ l.events.recvs (op + 1) ≠ []

/-- The first operator behind `p` that has a domain follows `p` or one without the domain. -/
theorem exists_first (hp : p ≤ x) (hd : d ∈ (l.operator (x + 1)).affinity.domains) :
    ∃ y, p ≤ y ∧ y ≤ x ∧ d ∈ (l.operator (y + 1)).affinity.domains ∧
      (y = p ∨ d ∉ (l.operator y).affinity.domains) := by
  induction x, hp using Nat.le_induction with
  | base => exact ⟨p, Nat.le_refl _, Nat.le_refl _, hd, .inl rfl⟩
  | succ x hp ih =>
    by_cases hprev : d ∈ (l.operator (x + 1)).affinity.domains
    · obtain ⟨y, hpy, hyx, hy⟩ := ih hprev
      exact ⟨y, hpy, by omega, hy⟩
    · exact ⟨x + 1, by omega, Nat.le_refl _, hd, .inr hprev⟩

section Accepted

variable {units : Units} {ops : List Operator} {fusion : Bool} (h : l.Accepted units ops fusion)
  (hmode : l.events.mode = .singleStream)
include h hmode

/-- Neighbours of different domains have a barrier and a signal between them. -/
theorem fences_neighbours (hx : x + 1 < l.graph.size) (hdp : dp ∈ (l.operator x).affinity.domains)
    (hd : d ∈ (l.operator (x + 1)).affinity.domains) (hne : dp ≠ d) :
    Fences (syncSteps l x (x + 1)) dp d := by
  obtain ⟨e, he, rfl, hec⟩ := h.joined hx (.inl (.inl hmode))
  obtain ⟨k, hk, hkp, _, hpair, hsignal⟩ := h.exists_cross he hdp (hec ▸ hd) hne
  have hexplicit : k.explicitSync = true := by simp_all [Edge.needsSignal]
  have hguards := guards_producer hk hexplicit
  rw [hkp, hpair] at hguards
  exact fences_syncSteps h hmode hx (.inr (.inr ⟨hguards, .inr hd⟩))

/-- Units of another domain learn that an operator has finished exactly where a boundary on the way
tells them. -/
theorem fences_between_iff (hcovered : l.Covered) (hc : p + n + 1 < l.graph.size)
    (hdp : dp ∈ (l.operator p).affinity.domains) (hd : d ∈ l.shape.kernelType.affinity.domains)
    (hne : dp ≠ d) : Fences (between l p n) dp d ↔ l.earlyStart = false ∨
      l.options.debugSyncAll = true ∨ ∃ x, p ≤ x ∧ x ≤ p + n ∧ Crosses l x d := by
  have hdp' := hcovered p (by omega) dp hdp
  constructor
  · intro hfences
    rcases hfences.cases with ⟨b, hscope, hmem⟩ | ⟨_, hdomain | ⟨edge, flag, hmem⟩⟩
    · obtain ⟨x, hpx, hxn, hmem⟩ := (mem_between hmem).resolve_left nofun
      rcases barrier_mem_passage hmem with hdynamic | hdebug | hsync | hevents
      · exact .inr (.inr ⟨x, hpx, hxn, .inr (.inl hdynamic)⟩)
      · exact .inr (.inl hdebug)
      · rcases barrier_mem_syncSteps hsync with ⟨_, hearly | hlength⟩ | ⟨_, hdomain, _⟩
        · exact .inl hearly
        · exact .inr (.inr ⟨x, hpx, hxn, .inr (.inr (.inl hlength))⟩)
        · cases hscope.symm.trans hdomain
      · exact .inr (.inr ⟨x, hpx, hxn, .inr (.inr (.inr hevents))⟩)
    · exact absurd hdomain hne
    · obtain ⟨x, hpx, hxn, hmem⟩ := (mem_between hmem).resolve_left nofun
      have hwaits := wait_mem_syncSteps h.linked (wait_mem_passage hmem)
      exact .inr (.inr ⟨x, hpx, hxn, .inl hwaits⟩)
  · have hsync : ∀ {x}, p ≤ x → x ≤ p + n → syncSteps l x (x + 1) <+ between l p n :=
      fun hpx hxn => (syncSteps_sublist_passage).trans (passage_sublist_between hpx hxn)
    rintro (hearly | hdebug | ⟨x, hpx, hxn, hd' | hdynamic | hlength | ⟨hsends, hrecvs⟩⟩)
    · exact (fences_syncSteps h hmode (by omega) (.inl hearly)).mono
        (hsync (Nat.le_refl p) (Nat.le_add_right p n))
    · have hmem : .barrier (.covering l.shape.kernelType) ∈ passage l p := by
        simp [passage, trail, debugSteps, hdebug]
      exact fences_covering
        ((passage_sublist_between (Nat.le_refl p) (Nat.le_add_right p n)).subset hmem) hdp' hd
    · -- Up to the first operator of the domain, all are of the other domain and stop at a boundary.
      obtain ⟨y, hpy, hyx, hy, hfirst⟩ := exists_first hpx hd'
      have hprev : dp ∈ (l.operator y).affinity.domains := by
        rcases hfirst with rfl | hnot
        · exact hdp
        · exact Affinity.mem_domains_of_ne hne hnot
      exact (fences_neighbours h hmode (by omega) hprev hy hne).mono (hsync hpy (by omega))
    · have hmem : .barrier (.full "reason4: all readers of the dynamic ready lock are done")
          ∈ passage l x := by simp [passage, trail, releaseSteps, hdynamic]
      exact fences_full rfl ((passage_sublist_between hpx hxn).subset hmem)
    · exact (fences_syncSteps h hmode (by omega) (.inr (.inl hlength))).mono (hsync hpx hxn)
    · have hboundary : .barrier (.covering l.shape.kernelType) ∈ boundarySteps l x (x + 1) := by
        simp [boundarySteps_eq, hsends, hrecvs]
      have hmem : .barrier (.covering l.shape.kernelType) ∈ passage l x := by
        simp [passage, lead, hboundary]
      exact fences_covering ((passage_sublist_between hpx hxn).subset hmem) hdp' hd

end Accepted

end SingleStream

/-! ### What an entry needs -/

namespace Launch

variable {l : Launch} {body : KernelBody} {stats : SyncStats} {c : Nat} {d : Domain}

/-- A kernel provides for work of an operator on a domain: it runs on units of the domain, and these come
to the call only when the work of every producer is done, on each of its domains. -/
structure Provided (l : Launch) (k : FusedKernel) (body : KernelBody) (c : Nat) (d : Domain) : Prop where
  units : 0 < k.record.ratio d
  ordered : ∀ e ∈ l.graph.edges, e.consumer = c → e.explicitSync = true →
    ∀ dp ∈ (l.operator e.producer).affinity.domains,
      body.Fenced (.invoke e.producer) dp (.invoke c) d

/-- Units of a domain come to operator `c` only behind operator `p`: `p` is of this domain alone, or all
units meet behind every operator, or a boundary on the way tells them. -/
def Reaches (l : Launch) (p c : Nat) (d : Domain) : Prop :=
  (∀ dp ∈ (l.operator p).affinity.domains, dp = d) ∨ l.earlyStart = false ∨
  l.options.debugSyncAll = true ∨ ∃ x, p ≤ x ∧ x < c ∧ SingleStream.Crosses l x d

/-- Work of an operator on a domain is provided for by what the operators declare. -/
def Reached (l : Launch) (c : Nat) (d : Domain) : Prop :=
  l.Declares d ∧ ∀ e ∈ l.graph.edges, e.consumer = c → e.explicitSync = true → l.Reaches e.producer c d

/-- Dynamic operators are scheduled on one stream only. -/
theorem mode_of_isDynamic (h : Generator.schedule l = .ok (body, stats))
    (hdynamic : (l.operator c).isDynamic = true) : l.events.mode = .singleStream := by
  cases hmode : l.events.mode with
  | singleStream => rfl
  | twoStream =>
    have hmem : l.operator c ∈ l.graph.operators := operator_mem (lt_size_of_isDynamic hdynamic)
    rw [static_of_schedule hmode h _ hmem] at hdynamic
    cases hdynamic

section Accepted

variable {units : Units} {ops : List Operator} {fusion : Bool} (h : l.Accepted units ops fusion)
  (hcovered : l.Covered) (hmode : l.events.mode = .singleStream)
include h hcovered hmode

theorem fenced_producer_iff {e : Edge} (he : e ∈ l.graph.edges) (hs : e.explicitSync = true)
    (hd : d ∈ l.shape.kernelType.affinity.domains) :
    (∀ dp ∈ (l.operator e.producer).affinity.domains, Schedule.Fenced (SingleStream.steps l)
      (.invoke e.producer) dp (.invoke e.consumer) d) ↔ l.Reaches e.producer e.consumer d := by
  have hc := (h.linked.ends e he).2
  obtain ⟨n, hn⟩ := Nat.exists_eq_add_of_lt (h.linked.forward e he)
  rw [hn] at hc ⊢
  obtain ⟨front, back, hcut⟩ := SingleStream.exists_call_cut hc
  simp only [hcut, Schedule.fenced_of_nodup (hcut ▸ SingleStream.nodup_events) rfl rfl]
  have hiff : ∀ dp ∈ (l.operator e.producer).affinity.domains, dp ≠ d →
      (Schedule.Fences (SingleStream.between l e.producer n) dp d ↔ _) := fun dp hdp hne =>
    SingleStream.fences_between_iff h hmode hcovered hc hdp hd hne
  constructor
  · intro hfences
    by_cases hsame : ∀ dp ∈ (l.operator e.producer).affinity.domains, dp = d
    · exact .inl hsame
    · push Not at hsame
      obtain ⟨dp, hdp, hne⟩ := hsame
      refine .inr (((hiff dp hdp hne).mp (hfences dp hdp)).imp id (Or.imp id ?_))
      rintro ⟨x, hpx, hxn, hcrosses⟩
      exact ⟨x, hpx, Nat.lt_succ_of_le hxn, hcrosses⟩
  · intro hreaches dp hdp
    by_cases hne : dp = d
    · subst hne
      have hguards := SingleStream.guards_domains h.linked he hs hdp
      have hnext : Schedule.Fences (SingleStream.syncSteps l e.producer (e.producer + 1)) dp dp :=
        SingleStream.fences_syncSteps h hmode (by omega) (.inr (.inr ⟨hguards, .inl rfl⟩))
      exact hnext.mono ((SingleStream.syncSteps_sublist_passage).trans
        (SingleStream.passage_sublist_between (Nat.le_refl _) (Nat.le_add_right _ n)))
    · refine (hiff dp hdp hne).mpr ((hreaches.resolve_left fun hsame => hne (hsame dp hdp)).imp id
        (Or.imp id ?_))
      rintro ⟨x, hpx, hxc, hcrosses⟩
      exact ⟨x, hpx, Nat.le_of_lt_succ hxc, hcrosses⟩

end Accepted

/-- CORRECT (exact condition): a dynamic operator is provided for on a domain of an entry exactly where
the declared types of the operators see to it. The type of the entry itself does not count. -/
theorem dynamic_entry_provided_iff {r : Request} (hl : Generator.launch r = .ok l)
    (hschedule : Generator.schedule l = .ok (body, stats)) (hdynamic : (l.operator c).isDynamic = true) :
    ∀ entry ∈ (l.operator c).tiling, ∀ d ∈ entry.kernelType.affinity.domains,
      Provided l (Generator.kernel l body stats) body c d ↔ l.Reached c d := by
  intro entry _ d _
  obtain ⟨units, ops, fusion, h, hcovered⟩ := Generator.launch_accepted hl
  have hmode := mode_of_isDynamic hschedule hdynamic
  have hmem := operator_mem (lt_size_of_isDynamic hdynamic)
  have hdeclares := Generator.launch_declares (d := d) hl (List.ne_nil_of_mem hmem)
  have hratio : 0 < (Generator.kernel l body stats).record.ratio d ↔ l.Declares d :=
    MixRecord.ratio_pos_iff.trans hdeclares
  rw [schedule_singleStream h.linked.toWellFormed hmode hschedule] at hratio ⊢
  constructor
  · rintro ⟨hunits, hordered⟩
    have hd := hdeclares.mpr (hratio.mp hunits)
    refine ⟨hratio.mp hunits, fun e he hc hs => ?_⟩
    subst hc
    exact (fenced_producer_iff h hcovered hmode he hs hd).mp (hordered e he rfl hs)
  · rintro ⟨hd, hreaches⟩
    refine ⟨hratio.mpr hd, fun e he hc hs => ?_⟩
    subst hc
    exact (fenced_producer_iff h hcovered hmode he hs (hdeclares.mpr hd)).mpr (hreaches e he rfl hs)

/-- An operator of cube units, then a dynamic one that declares both domains and runs on one of them. -/
def declaredRequest : Request :=
  .ofOperators "" [.onStream 0 "first" .aicOnly [] [],
    .choosing "second" .mixAic11 [⟨0, KernelType.aivOnly.name, ⟨some "second_vec", none⟩⟩]]

/-- The vector units of the entry wait for the cube units of the operator before. -/
theorem declaredRequest_provided : ∃ l body stats, Generator.launch declaredRequest = .ok l ∧
    Generator.schedule l = .ok (body, stats) ∧ (l.operator 1).isDynamic = true ∧
    (l.operator 1).tiling.map TilingEntry.kernelType = [.aivOnly] ∧
    (∃ e ∈ l.graph.edges, e.producer = 0 ∧ e.consumer = 1 ∧ e.explicitSync = true) ∧
    Provided l (Generator.kernel l body stats) body 1 .vector := by
  obtain ⟨l, body, stats, hl, hschedule, htest⟩ : ∃ l body stats,
      Generator.launch declaredRequest = .ok l ∧ Generator.schedule l = .ok (body, stats) ∧
      decide ((l.operator 1).isDynamic = true ∧
        (l.operator 1).tiling.map TilingEntry.kernelType = [.aivOnly] ∧
        (∃ e ∈ l.graph.edges, e.producer = 0 ∧ e.consumer = 1 ∧ e.explicitSync = true) ∧
        (∃ o ∈ l.graph.operators, Domain.vector ∈ o.affinity.domains) ∧
        Domain.vector ∈ (l.operator 1).affinity.domains ∧ ∀ e ∈ l.graph.edges, e.producer = 0) = true :=
    Generator.exists_schedule_of_test (by decide +kernel)
  obtain ⟨hdynamic, hentries, hedge, hdeclares, hdomain, hfirst⟩ := of_decide_eq_true htest
  obtain ⟨entry, hentry, htype⟩ : ∃ entry ∈ (l.operator 1).tiling, entry.kernelType = .aivOnly :=
    List.mem_map.mp (hentries ▸ List.mem_cons_self)
  refine ⟨l, body, stats, hl, hschedule, hdynamic, hentries, hedge,
    (dynamic_entry_provided_iff hl hschedule hdynamic entry hentry .vector (by rw [htype]; decide)).mpr
      ⟨hdeclares, fun e he _ _ => .inr (.inr (.inr ⟨0, ?_, Nat.one_pos, .inl hdomain⟩))⟩⟩
  rw [hfirst e he]

/-- A dynamic operator that declares cube units and has an entry for vector units. -/
def undeclaredRequest : Request :=
  .ofOperators ""
    [.choosing "only" .aicOnly [⟨0, KernelType.aivOnly.name, ⟨some "only_vec", none⟩⟩]]

/-- The request is accepted, and the launch has no units that could run the entry. -/
theorem undeclaredRequest_unprovided : ∃ l body stats,
    Generator.launch undeclaredRequest = .ok l ∧ Generator.schedule l = .ok (body, stats) ∧
    (l.operator 0).isDynamic = true ∧
    (l.operator 0).tiling.map TilingEntry.kernelType = [.aivOnly] ∧
    (Generator.kernel l body stats).record.ratio .vector = 0 ∧
    ¬Provided l (Generator.kernel l body stats) body 0 .vector := by
  obtain ⟨l, body, stats, hl, hschedule, htest⟩ : ∃ l body stats,
      Generator.launch undeclaredRequest = .ok l ∧ Generator.schedule l = .ok (body, stats) ∧
      decide ((l.operator 0).isDynamic = true ∧
        (l.operator 0).tiling.map TilingEntry.kernelType = [.aivOnly] ∧
        l.shape.kernelType = .mixAic10) = true :=
    Generator.exists_schedule_of_test (by decide +kernel)
  obtain ⟨hdynamic, hentries, htype⟩ := of_decide_eq_true htest
  have hratio : (Generator.kernel l body stats).record.ratio .vector = 0 := by
    rw [Generator.kernel, htype]
    rfl
  refine ⟨l, body, stats, hl, hschedule, hdynamic, hentries, hratio, fun hprovided => ?_⟩
  have hunits := hprovided.units
  rw [hratio] at hunits
  exact absurd hunits (by decide)

end Launch

end KernelFusion
