import KernelFusion.Proofs.TwoStreamCheck

/-!
Order of work along the dependencies of a two-stream schedule.

Within a domain, work of one operator comes before work of another if all units of the domain meet
between the two. Across the domains it takes a signal behind such a barrier, or a full barrier, that the
other domain reaches before it goes on. The n-th signal on a flag belongs to the n-th wait on it, and
the n-th full barrier of one list to the n-th of the other.

        cube     invoke p ── barrier ── signal
                                           ╲
        vector                              wait ── invoke c

Every dependency is ordered this way, with one exception: a mixed operator shares a domain with the one
that waits for it, and the edge between them, which leaves from the other domain, need not be signalled.
-/

namespace KernelFusion

open List

/-- Whether a step raises a flag. -/
def Step.isSignalOn (flag : Flag) : Step → Bool
  | .signal _ _ _ f => decide (f = flag)
  | _ => false

/-- Whether a step waits for a flag. -/
def Step.isWaitOn (flag : Flag) : Step → Bool
  | .wait _ _ f => decide (f = flag)
  | _ => false

namespace StreamSteps

/-- The steps at two positions belong together: as many of their kind come before each in its list. -/
structure Paired (source : List Step) (first : Step → Bool) (i : Nat) (target : List Step)
    (second : Step → Bool) (j : Nat) : Prop where
  left : ∃ s, source[i]? = some s ∧ first s = true
  right : ∃ s, target[j]? = some s ∧ second s = true
  rank : (source.take i).countP first = (target.take j).countP second

/-- `Precedes s dp p dc c`: the work of operator `p` on domain `dp` is done before the work of operator
`c` on domain `dc` begins. -/
inductive Precedes (s : StreamSteps) : Domain → Nat → Domain → Nat → Prop where
  | barrier {d : Domain} {p c : Nat} {b : Barrier} (hb : b.covers d = true)
      (horder : [.invoke p, .barrier b, .invoke c] <+ s.get d) : Precedes s d p d c
  | signal {dp dc : Domain} {p c i j : Nat} {b : Barrier} {flag : Flag} (hne : dp ≠ dc)
      (hb : b.covers dp = true) (hbehind : [.invoke p, .barrier b] <+ (s.get dp).take i)
      (hpaired : Paired (s.get dp) (Step.isSignalOn flag) i (s.get dc) (Step.isWaitOn flag) j)
      (hbefore : .invoke c ∈ (s.get dc).drop j) : Precedes s dp p dc c
  | meeting {dp dc : Domain} {p c i j : Nat} (hne : dp ≠ dc)
      (hbehind : .invoke p ∈ (s.get dp).take i)
      (hpaired : Paired (s.get dp) Step.isFullBarrier i (s.get dc) Step.isFullBarrier j)
      (hbefore : .invoke c ∈ (s.get dc).drop j) : Precedes s dp p dc c

theorem precedes_self {s : StreamSteps} {d : Domain} {p c : Nat} : s.Precedes d p d c ↔
    ∃ b : Barrier, b.covers d = true ∧ [.invoke p, .barrier b, .invoke c] <+ s.get d := by
  constructor
  · intro h
    cases h with
    | barrier hb horder => exact ⟨_, hb, horder⟩
    | signal hne => exact absurd rfl hne
    | meeting hne => exact absurd rfl hne
  · rintro ⟨b, hb, horder⟩
    exact .barrier hb horder

end StreamSteps

namespace Schedule

/-- Where two operators are called once, what stands between their calls is what is written there. -/
theorem mem_of_between {a c : Nat} {s : Step} {xs ys zs : List Step}
    (hn : (invocations (xs ++ .invoke a :: (ys ++ .invoke c :: zs))).Nodup)
    (h : [.invoke a, s, .invoke c] <+ xs ++ .invoke a :: (ys ++ .invoke c :: zs)) : s ∈ ys := by
  obtain ⟨i, k, j, hik, hkj, hi, hk, hj⟩ := exists_between_of_sublist h
  have hfirst : i = xs.length := invoke_position_unique hn hi (by simp)
  have hlast : j = xs.length + (ys.length + 1) := by
    refine invoke_position_unique hn hj ?_
    rw [List.getElem?_append_right (by omega)]
    simp
  obtain ⟨n, rfl⟩ : ∃ n, k = xs.length + (n + 1) := ⟨k - xs.length - 1, by omega⟩
  rw [List.getElem?_append_right (by omega), Nat.add_sub_cancel_left, List.getElem?_cons_succ,
    List.getElem?_append_left (by omega)] at hk
  exact List.mem_of_getElem? hk

end Schedule

namespace TwoStream

open Schedule StreamSteps Generator

variable {p : TwoStream} {d : Domain} {a c : Nat} {b : Barrier}

/-! ### Barriers between two calls -/

theorem barrier_mem_trail {op : Nat} (h : .barrier b ∈ p.trail d op) :
    p.launch.options.debugSyncAll = true ∨ p.guards d op = true := by
  by_contra hnone
  push Not at hnone
  simp [trail, handover, hnone.1, hnone.2] at h

theorem barrier_mem_lead {op : Nat} (h : .barrier b ∈ p.lead d op) :
    (p.launch.operator op).recvEvents ≠ [] := by
  intro hnone
  simp [lead, meeting, hnone, waitOf] at h

theorem exists_barrier_lead {op : Nat} (hop : op ∈ p.members d)
    (h : (p.launch.operator op).recvEvents ≠ []) :
    ∃ b : Barrier, b.covers d = true ∧ .barrier b ∈ p.lead d op := by
  obtain ⟨s, hs⟩ := List.exists_mem_of_ne_nil _ (meeting_ne_nil h)
  obtain ⟨b, rfl, _, hcovers⟩ := mem_meeting hs
  exact ⟨b, hcovers d (mem_members.mp hop).2, List.mem_append_right _ hs⟩

/-- The operators of a domain around and between two of them. -/
theorem members_split (ha : a ∈ p.members d) (hc : c ∈ p.members d) (hac : a < c) :
    ∃ front mid back, p.members d = front ++ a :: (mid ++ c :: back) ∧
      ∀ m ∈ mid, m ∈ p.members d ∧ a < m ∧ m < c := by
  have hinc : (p.members d).Pairwise (· < ·) := members_increasing
  obtain ⟨front, rest, hsplit⟩ := List.append_of_mem ha
  rw [hsplit] at hinc hc
  obtain ⟨_, hrest, hfront⟩ := List.pairwise_append.mp hinc
  have hmem : c ∈ rest := by
    rcases List.mem_append.mp hc with h | h
    · have := hfront c h a List.mem_cons_self
      omega
    · rcases List.mem_cons.mp h with rfl | h
      · omega
      · exact h
  obtain ⟨mid, back, rfl⟩ := List.append_of_mem hmem
  obtain ⟨hfirst, hrest⟩ := List.pairwise_cons.mp hrest
  refine ⟨front, mid, back, hsplit, fun m hm => ⟨?_, hfirst m (by simp [hm]), ?_⟩⟩
  · rw [hsplit]
    simp [hm]
  · exact (List.pairwise_append.mp hrest).2.2 m hm c List.mem_cons_self

/-- A step between two calls stands behind the first, in front of the second, or belongs to an operator
between them. -/
theorem mem_blocks_of_between (ha : a ∈ p.members d) (hc : c ∈ p.members d) (hac : a < c)
    (h : [.invoke a, .barrier b, .invoke c] <+ p.steps d) :
    (∃ q ∈ p.members d, a ≤ q ∧ q < c ∧ .barrier b ∈ p.trail d q) ∨
    ∃ m ∈ p.members d, a < m ∧ m ≤ c ∧ .barrier b ∈ p.lead d m := by
  obtain ⟨front, mid, back, hsplit, hmid⟩ := members_split ha hc hac
  have hn : (invocations ((p.steps d).filter Step.isSync)).Nodup := by
    rw [invocations, filterMap_filter_class invoked?_of_not_sync, ← invocations, invocations_steps]
    exact members_increasing.nodup
  have hsub := h.filter Step.isSync
  rw [sync_steps, hsplit] at hn hsub
  have hblocks : (front ++ a :: (mid ++ c :: back)).flatMap (p.block d)
      = (front.flatMap (p.block d) ++ p.lead d a) ++ .invoke a
        :: ((p.trail d a ++ mid.flatMap (p.block d) ++ p.lead d c) ++ .invoke c
          :: (p.trail d c ++ back.flatMap (p.block d))) := by
    simp [block]
  rw [hblocks] at hn hsub
  have hmem := mem_of_between hn hsub
  rw [List.append_assoc, List.mem_append, List.mem_append, List.mem_flatMap] at hmem
  rcases hmem with hbehind | ⟨m, hm, hblock⟩ | hfront
  · exact .inl ⟨a, ha, le_rfl, hac, hbehind⟩
  · obtain ⟨hmem, ham, hmc⟩ := hmid m hm
    rcases List.mem_append.mp hblock with hlead | htrail
    · exact .inr ⟨m, hmem, ham, hmc.le, hlead⟩
    · exact .inl ⟨m, hmem, ham.le, hmc, by simpa using htrail⟩
  · exact .inr ⟨c, hc, hac, le_rfl, hfront⟩

/-- A domain meets between two of its operators: always for debugging, or behind an operator that hands
something on, or in front of one that receives events. -/
def Guarded (p : TwoStream) (d : Domain) (a c : Nat) : Prop :=
  p.launch.options.debugSyncAll = true ∨
  (∃ q ∈ p.members d, a ≤ q ∧ q < c ∧ p.guards d q = true) ∨
  ∃ m ∈ p.members d, a < m ∧ m ≤ c ∧ (p.launch.operator m).recvEvents ≠ []

theorem precedes_self_iff (ha : a ∈ p.members d) (hc : c ∈ p.members d) (hac : a < c) :
    (streamSteps p).Precedes d a d c ↔ p.Guarded d a c := by
  have hcovers : (Barrier.domain d).covers d = true := by simp [Barrier.covers, Barrier.domain]
  rw [precedes_self, get_streamSteps]
  constructor
  · rintro ⟨b, _, horder⟩
    rcases mem_blocks_of_between ha hc hac horder with ⟨q, hq, haq, hqc, hb⟩ | ⟨m, hm, ham, hmc, hb⟩
    · rcases barrier_mem_trail hb with hdebug | hguard
      · exact .inl hdebug
      · exact .inr (.inl ⟨q, hq, haq, hqc, hguard⟩)
    · exact .inr (.inr ⟨m, hm, ham, hmc, barrier_mem_lead hb⟩)
  · rintro (hdebug | ⟨q, hq, haq, hqc, hguard⟩ | ⟨m, hm, ham, hmc, hrecv⟩)
    · exact ⟨_, hcovers, order_between ha ha hc le_rfl hac (by simp [trail, hdebug])⟩
    · exact ⟨_, hcovers, order_between ha hq hc haq hqc (mem_trail_of_guards hguard)⟩
    · obtain ⟨b, hb, hlead⟩ := exists_barrier_lead hm hrecv
      exact ⟨b, hb, order_between_lead ha hm hc ham hmc hlead⟩

/-! ### Signals and their waits -/

namespace Planned

variable (hp : p.Planned) {e : Edge}
include hp

theorem countP_signals {us : List Step} (hus : ∀ s ∈ us, s ∈ p.steps d) :
    us.countP (Step.isSignalOn (.ofStream d)) = (us.filterMap signalled?).length := by
  rw [List.length_filterMap_eq_countP]
  refine List.countP_congr fun s hs => ?_
  cases s with
  | signal edge producer pipe flag =>
    have hmem : (edge, flag) ∈ (p.steps d).filterMap signalled? :=
      List.mem_filterMap.mpr ⟨_, hus _ hs, rfl⟩
    have hflag : flag = .ofStream d := hp.signalled_flag hmem
    simp [Step.isSignalOn, signalled?, hflag]
  | _ => simp [Step.isSignalOn, signalled?]

theorem countP_waits {us : List Step} (hus : ∀ s ∈ us, s ∈ p.steps d.other) :
    us.countP (Step.isWaitOn (.ofStream d)) = (us.filterMap awaited?).length := by
  rw [List.length_filterMap_eq_countP]
  refine List.countP_congr fun s hs => ?_
  cases s with
  | wait edge consumer flag =>
    have hmem : (edge, flag) ∈ (p.steps d.other).filterMap awaited? :=
      List.mem_filterMap.mpr ⟨_, hus _ hs, rfl⟩
    have hflag : flag = .ofStream d := hp.awaited_flag hmem
    simp [Step.isWaitOn, awaited?, hflag]
  | _ => simp [Step.isWaitOn, awaited?]

theorem nodup_signals : (((p.steps d).filterMap signalled?).map Prod.fst).Nodup := by
  have hids : ((p.members d).flatMap (p.raised d)).Nodup := by
    have : Std.Irrefl fun a b : Edge => a.producer < b.producer := ⟨fun _ => lt_irrefl _⟩
    exact hp.raised_increasing.nodup
  rw [hp.signalled_steps, List.map_map]
  refine List.Nodup.map_on (fun k hk k' hk' hid => ?_) hids
  obtain ⟨_, _, hk⟩ := List.mem_flatMap.mp hk
  obtain ⟨_, _, hk'⟩ := List.mem_flatMap.mp hk'
  exact hp.linked.id_injective (mem_thinned (hp.mem_raised.mp hk).1).1
    (mem_thinned (hp.mem_raised.mp hk').1).1 hid

theorem signalled_eq_awaited : ((p.steps d).filterMap signalled?).map Prod.fst
    = ((p.steps d.other).filterMap awaited?).map Prod.fst := by
  rw [hp.signalled_steps, awaited_steps, hp.raised_eq_awaited, List.map_map, List.map_map]
  rfl

/-- The signal of an edge and the wait for it belong together: each is as far in its list as the edge
is among those that are signalled. -/
theorem paired {k : Edge} {us vs xs ys : List Step} (hsource : p.steps d = us ++ signalOf d k :: vs)
    (htarget : p.steps d.other = xs ++ waitOf d.other k :: ys) (hpair : k.pair.producer = d) :
    Paired (p.steps d) (Step.isSignalOn (.ofStream d)) us.length
      (p.steps d.other) (Step.isWaitOn (.ofStream d)) xs.length where
  left := ⟨signalOf d k, by simp [hsource], by simp [signalOf, Step.isSignalOn]⟩
  right := ⟨waitOf d.other k, by simp [htarget], by simp [waitOf, Step.isWaitOn, hpair]⟩
  rank := by
    have heq := hp.signalled_eq_awaited (d := d)
    have hn := hp.nodup_signals (d := d)
    have hus : ∀ s ∈ us, s ∈ p.steps d := by simp +contextual [hsource]
    have hxs : ∀ s ∈ xs, s ∈ p.steps d.other := by simp +contextual [htarget]
    have htake : (p.steps d).take us.length = us := by simp [hsource]
    have htake' : (p.steps d.other).take xs.length = xs := by simp [htarget]
    rw [htake, htake', hp.countP_signals hus, hp.countP_waits hxs]
    simp only [hsource, htarget, List.filterMap_append, List.map_append, signalOf, waitOf,
      List.filterMap_cons, signalled?, awaited?, List.map_cons] at heq hn
    simpa using length_eq_of_split heq hn

/-- Work of an edge that needs a signal is ordered across the domains. -/
theorem precedes_cross (he : e ∈ p.launch.graph.edges) (hs : e.needsSignal = true) :
    (streamSteps p).Precedes e.pair.producer e.producer e.pair.consumer e.consumer := by
  obtain ⟨k, hk, hpair, hsource, htarget⟩ := hp.order_cross he hs
  have hcross := (Edge.needsSignal_iff.mp hs).2
  have hother : e.pair.consumer = e.pair.producer.other := by
    rw [DomainPair.cross_producer.mp ⟨hcross, rfl⟩]
  obtain ⟨us, vs, hus, hbehind⟩ := exists_split_last [_, _] hsource
  obtain ⟨xs, ys, hxs, hbefore⟩ := exists_split_first htarget
  rw [hother] at hxs ⊢
  have hpaired := hp.paired hus hxs (by rw [hpair])
  refine .signal (i := us.length) (j := xs.length) (b := .domain e.pair.producer)
    (hother ▸ DomainPair.isCross_iff.mp hcross) (by simp [Barrier.covers, Barrier.domain]) ?_
    (by simpa using hpaired) ?_
  · simpa [hus] using hbehind
  · simpa [hxs] using List.mem_cons_of_mem _ (List.singleton_sublist.mp hbefore)

/-- A domain meets between the ends of an edge inside it. -/
theorem guarded_inside (he : e ∈ p.launch.graph.edges) (hs : e.explicitSync = true)
    (hpair : e.pair = ⟨d, d⟩) : p.Guarded d e.producer e.consumer := by
  have hmem := hp.producer_mem he
  rw [hpair] at hmem
  exact .inr (.inl ⟨e.producer, hmem, le_rfl, hp.linked.forward e he, hp.guards_inside he hs hpair⟩)

/-- A domain meets between the ends of an edge that leaves it: behind the sender of the edge that is
signalled for it. -/
theorem guarded_leaving (he : e ∈ p.launch.graph.edges) (hs : e.needsSignal = true) :
    p.Guarded e.pair.producer e.producer e.consumer := by
  obtain ⟨k, hk, hin⟩ := exists_thinned hp.linked.forward he hs
  have hmem := hp.producer_mem (mem_thinned hk).1
  have hguard := hp.guards_producer (hp.kept ▸ ((mem_keptEdges_cross hp.linked).mpr hk).1) (.inl rfl)
  have hforward := hp.linked.forward k (mem_thinned hk).1
  rw [hin.pair] at hmem hguard
  exact .inr (.inl ⟨k.producer, hmem, hin.starts, hforward.trans_le hin.ends, hguard⟩)

end Planned

section Accepted

variable {l : Launch} {units : Units} {ops : List Operator} {fusion : Bool} {e : Edge}
  (h : l.Accepted units ops fusion)
include h

/-- Two operators that share a domain and are joined have a barrier of the domain between them, unless
the first is mixed and the second is not. -/
theorem guarded_of_accepted (he : e ∈ l.graph.edges) (hs : e.explicitSync = true)
    (hd : d ∈ (l.operator e.producer).affinity.domains)
    (hd' : d ∈ (l.operator e.consumer).affinity.domains)
    (hmixed : (l.operator e.producer).affinity = .mixed → (l.operator e.consumer).affinity = .mixed) :
    Guarded ⟨l, keptEdges l.graph⟩ d e.producer e.consumer := by
  have hp : Planned ⟨l, keptEdges l.graph⟩ := ⟨h.linked, rfl⟩
  by_cases hboth : (l.operator e.consumer).affinity = .mixed
  · -- The consumer has the other domain as well, and with it an edge that leaves this one.
    have hother : d.other ∈ (l.operator e.consumer).affinity.domains := by
      rw [hboth]
      cases d <;> decide
    have hne : d ≠ d.other := by cases d <;> decide
    obtain ⟨k, hk, hkp, hkc, hpair, hsignal⟩ := h.exists_cross he hd hother hne
    have hguarded := hp.guarded_leaving hk hsignal
    rwa [hkp, hkc, hpair] at hguarded
  · -- Both have this domain alone.
    obtain ⟨hpd, hcd⟩ := DomainPair.between_domains _ _ _ (h.linked.pairs e he)
    have hproducer : e.pair.producer = d := Affinity.domain_unique (fun hm => hboth (hmixed hm)) hpd hd
    have hconsumer : e.pair.consumer = d := Affinity.domain_unique hboth hcd hd'
    exact hp.guarded_inside he hs (congrArg₂ DomainPair.mk hproducer hconsumer)

/-- CORRECT (exact condition): along every edge, work of the producer on each of its domains comes before
work of the consumer on each of its own, with one exception. On a domain that a mixed producer shares
with a consumer that is not mixed, this holds exactly where the domain meets between the two anyway. -/
theorem two_stream_order_iff (hstatic : ∀ o ∈ ops, o.isDynamic = false) (he : e ∈ l.graph.edges)
    (hs : e.explicitSync = true) {dp dc : Domain}
    (hdp : dp ∈ (l.operator e.producer).affinity.domains)
    (hdc : dc ∈ (l.operator e.consumer).affinity.domains) :
    ∃ p, plan l = .ok p ∧ ((streamSteps p).Precedes dp e.producer dc e.consumer ↔
      (dp = dc → (l.operator e.producer).affinity = .mixed →
        (l.operator e.consumer).affinity ≠ .mixed → p.Guarded dp e.producer e.consumer)) := by
  have hp : Planned ⟨l, keptEdges l.graph⟩ := ⟨h.linked, rfl⟩
  refine ⟨_, plan_static (h.spec.1.symm ▸ hstatic), ?_⟩
  by_cases hd : dp = dc
  · subst hd
    obtain ⟨hps, hcs⟩ := h.linked.ends e he
    rw [precedes_self_iff (mem_members.mpr ⟨hps, List.elem_eq_true_of_mem hdp⟩)
      (mem_members.mpr ⟨hcs, List.elem_eq_true_of_mem hdc⟩) (h.linked.forward e he)]
    refine ⟨fun hguarded _ _ _ => hguarded, fun hguarded => ?_⟩
    by_cases hone : (l.operator e.producer).affinity = .mixed ∧ (l.operator e.consumer).affinity ≠ .mixed
    · exact hguarded rfl hone.1 hone.2
    · exact guarded_of_accepted h he hs hdp hdc fun hm => by_contra fun hc => hone ⟨hm, hc⟩
  · refine ⟨fun _ heq => absurd heq hd, fun _ => ?_⟩
    obtain ⟨k, hk, hkp, hkc, hpair, hsignal⟩ := h.exists_cross he hdp hdc hd
    have hprecedes := hp.precedes_cross hk hsignal
    rwa [hkp, hkc, hpair] at hprecedes

end Accepted

theorem crossed_order_across : ∃ p, plan crossed = .ok p ∧
    (streamSteps p).Precedes .vector 0 .cube 3 := by
  have he : ⟨1, 0, 3, ⟨.vector, .cube⟩, .sequence, true⟩ ∈ crossed.graph.edges := by decide
  obtain ⟨p, hplan, hiff⟩ := two_stream_order_iff crossed_accepted (by decide) he rfl
    (show Domain.vector ∈ _ by decide) (show Domain.cube ∈ _ by decide)
  exact ⟨p, hplan, hiff.mpr fun hd => absurd hd (by decide)⟩

/-- The one edge into the last operator is not signalled, so that nothing orders what the mixed operator
does on cube units before it. -/
theorem crossed_unordered : crossed.Accepted ⟨24, 48⟩ crossed.graph.operators true ∧
    ∃ p, plan crossed = .ok p ∧ ∃ e ∈ crossed.graph.edges, e.explicitSync = true ∧
      Domain.cube ∈ (crossed.operator e.producer).affinity.domains ∧
      Domain.cube ∈ (crossed.operator e.consumer).affinity.domains ∧
      ¬ (streamSteps p).Precedes .cube e.producer .cube e.consumer := by
  refine ⟨crossed_accepted, _, plan_static (by decide), ⟨1, 0, 3, ⟨.vector, .cube⟩, .sequence, true⟩,
    by decide, rfl, by decide, by decide, fun h => ?_⟩
  obtain ⟨b, _, horder⟩ := precedes_self.mp h
  have hnone : ∀ s ∈ steps ⟨crossed, keptEdges crossed.graph⟩ .cube,
      (Step.isDomainBarrier s || Step.isFullBarrier s) = false := by decide
  have hbarrier := hnone (.barrier b) (horder.subset (by simp))
  simp [Step.isDomainBarrier, Step.isFullBarrier] at hbarrier

end TwoStream

end KernelFusion
