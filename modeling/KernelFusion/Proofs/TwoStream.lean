import KernelFusion.Proofs.Order
import KernelFusion.Proofs.Reduction
import KernelFusion.Schedule.StreamCheck

/-!
The form of a two-stream schedule.

The steps behind an operator are emitted with the operator that follows it on the domain, or at the end.
With comments and other steps left out, the list of a domain is a `flatMap` of blocks over its operators
again: waits and the barrier for received events, the call, then a barrier and signals.
-/

namespace KernelFusion

open List

/-- Whether a step has a part in the order of work: a call, a barrier, a signal or a wait. -/
def Step.isSync : Step → Bool
  | .barrier _ => true
  | .signal .. => true
  | .wait .. => true
  | .invoke _ => true
  | _ => false

namespace TwoStream

open Schedule

variable {p : TwoStream} {d : Domain} {op : Nat} {e : Edge}

/-! ### Blocks -/

/-- The edges that a domain signals behind an operator. -/
def raised (p : TwoStream) (d : Domain) (op : Nat) : List Edge :=
  (p.sends op).filter fun e => e.pair.isCross && decide (e.pair.producer = d)

/-- The edges that a domain waits for in front of an operator. -/
def awaited (p : TwoStream) (d : Domain) (op : Nat) : List Edge :=
  (p.recvs op).filter fun e => e.pair.isCross && decide (e.pair.consumer = d)

def signalOf (d : Domain) (e : Edge) : Step := .signal e.id d .mte3 (.ofStream d)

def waitOf (d : Domain) (e : Edge) : Step := .wait e.id d (.ofStream e.pair.producer)

/-- Whether a domain meets behind an operator. -/
def guards (p : TwoStream) (d : Domain) (op : Nat) : Bool :=
  !p.launch.isLast op
    && (p.touches op d || (!(p.launch.events.sends op).isEmpty && p.endsStream op))

/-- The barrier in front of an operator that receives events. -/
def meeting (p : TwoStream) (op : Nat) : List Step :=
  if (p.launch.operator op).recvEvents.isEmpty then []
  else (eventBarrier (p.launch.operator op)).filter Step.isSync

/-- The steps of an operator in front of its call. -/
def lead (p : TwoStream) (d : Domain) (op : Nat) : List Step :=
  (p.awaited d op).map (waitOf d) ++ p.meeting op

/-- What others wait for: a barrier with the signals behind it. -/
def handover (p : TwoStream) (d : Domain) (op : Nat) : List Step :=
  if p.guards d op then .barrier (.domain d) :: (p.raised d op).map (signalOf d) else []

/-- The steps of an operator behind its call. -/
def trail (p : TwoStream) (d : Domain) (op : Nat) : List Step :=
  (if p.launch.options.debugSyncAll then [.barrier (.domain d)] else []) ++ p.handover d op

def block (p : TwoStream) (d : Domain) (op : Nat) : List Step :=
  p.lead d op ++ .invoke op :: p.trail d op

theorem sync_recvSteps : (p.recvSteps op d).filter Step.isSync = (p.awaited d op).map (waitOf d) := by
  rw [recvSteps, List.filter_flatMap, List.map_eq_flatMap]
  rfl

theorem sync_signalSteps (es : List Edge) :
    (es.flatMap (p.signalSteps op d)).filter Step.isSync = es.map (signalOf d) := by
  rw [List.filter_flatMap, List.map_eq_flatMap]
  rfl

theorem sync_sendSteps : (p.sendSteps op d).filter Step.isSync = p.handover d op := by
  cases hlast : p.launch.isLast op with
  | true => simp [sendSteps, handover, guards, hlast]
  | false =>
    simp only [sendSteps, handover, guards, hlast, Bool.not_false, Bool.true_and, filter_ite,
      List.filter_append, sync_signalSteps]
    simp [guardSteps, raised, List.filter_cons, Step.isSync]

theorem sync_eventSteps : (p.eventSteps op d).filter Step.isSync = p.meeting op := by
  simp [eventSteps, meeting, filter_ite, Step.isSync]

theorem sync_debugSteps : (p.debugSteps d).filter Step.isSync
    = if p.launch.options.debugSyncAll then [.barrier (.domain d)] else [] := by
  simp [debugSteps, filter_ite, List.filter_cons, Step.isSync]

/-- What the operator before leaves to the steps of the next one. -/
def carried (p : TwoStream) (d : Domain) : Option Nat → List Step
  | some q => p.handover d q
  | none => []

theorem sync_boundary (prev : Option Nat) :
    (p.boundary prev op d).filter Step.isSync = p.carried d prev ++ p.lead d op := by
  cases prev with
  | none => simp [boundary, carried, lead, sync_recvSteps, sync_eventSteps]
  | some q =>
    simp [boundary, carried, lead, sync_recvSteps, sync_eventSteps, sync_sendSteps, filter_ite,
      Step.isSync]

theorem sync_operatorSteps (prev next : Option Nat) :
    (p.operatorSteps d prev op next).filter Step.isSync = p.carried d prev ++ p.lead d op
      ++ .invoke op :: ((p.debugSteps d).filter Step.isSync
        ++ if next.isNone then p.handover d op else []) := by
  have hpreload : (p.preloadSteps prev op next).filter Step.isSync = [] := by
    cases next <;> simp [preloadSteps, filter_ite, Step.isSync]
  simp [operatorSteps, hpreload, sync_boundary, filter_ite, finalSteps, sync_sendSteps, mark,
    List.filter_cons, Step.beginOperator, Step.isSync]

/-- Each call takes over what the operator before left to it. -/
theorem sync_operatorsSteps (prev : Option Nat) (op : Nat) (ops : List Nat) :
    (p.operatorsSteps d prev (op :: ops)).filter Step.isSync
      = p.carried d prev ++ (op :: ops).flatMap (p.block d) := by
  induction ops generalizing prev op with
  | nil =>
    simp [operatorsSteps, sync_operatorSteps, block, trail, sync_debugSteps]
  | cons next ops ih =>
    rw [operatorsSteps, List.filter_append, ih, sync_operatorSteps]
    simp [carried, block, trail, sync_debugSteps]

/-- The list of a domain is made of one block for every operator of it. -/
theorem sync_steps : (p.steps d).filter Step.isSync = (p.members d).flatMap (p.block d) := by
  have hpreload : (if p.launch.options.preload = .whole then [Step.preloadWhole] else []).filter
      Step.isSync = [] := by
    simp [filter_ite, Step.isSync]
  rw [steps, List.filter_append, hpreload, List.nil_append]
  cases p.members d with
  | nil => rfl
  | cons op ops => exact sync_operatorsSteps none op ops

/-! ### Barriers for received events -/

theorem eventBarrier_sync (o : Operator) : ∃ b : Barrier,
    (eventBarrier o).filter Step.isSync = [.barrier b] ∧
    b.scope = if o.affinity = .mixed then .full else .domain o.affinity.primary := by
  unfold eventBarrier
  split
  next hmixed => exact ⟨_, rfl, by simp [Barrier.full, hmixed]⟩
  next hone => exact ⟨_, rfl, (if_neg hone).symm⟩

/-- The barrier covers every domain of the operator, and is full for a mixed one only. -/
theorem mem_meeting {s : Step} (h : s ∈ p.meeting op) : ∃ b : Barrier, s = .barrier b ∧
    (b.scope = .full → (p.launch.operator op).affinity = .mixed) ∧
    ∀ d, (p.launch.operator op).affinity.contains d = true → b.covers d = true := by
  obtain ⟨b, hb, hscope⟩ := eventBarrier_sync (p.launch.operator op)
  simp only [meeting, hb] at h
  split at h
  · cases h
  refine ⟨b, List.mem_singleton.mp h, fun hfull => ?_, fun d hd => ?_⟩
  · by_contra hone
    rw [hscope, if_neg hone] at hfull
    cases hfull
  · revert hd
    rw [Barrier.covers, hscope]
    cases (p.launch.operator op).affinity <;> cases d <;> decide

theorem meeting_ne_nil (h : (p.launch.operator op).recvEvents ≠ []) : p.meeting op ≠ [] := by
  obtain ⟨b, hb, _⟩ := eventBarrier_sync (p.launch.operator op)
  simp [meeting, hb, h]

/-! ### Calls and full barriers -/

/-- What a projection that barriers have no part in sees of a list. -/
theorem filterMap_steps {α : Type} {f : Step → Option α}
    (hclass : ∀ s, Step.isSync s = false → f s = none) (hbarrier : ∀ b, f (.barrier b) = none) :
    (p.steps d).filterMap f = (p.members d).flatMap fun op =>
      (p.awaited d op).filterMap (f ∘ waitOf d) ++ ((f (.invoke op)).toList
        ++ if p.guards d op then (p.raised d op).filterMap (f ∘ signalOf d) else []) := by
  have hmeeting : ∀ op, (p.meeting op).filterMap f = [] := by
    intro op
    refine List.filterMap_eq_nil_iff.mpr fun s hs => ?_
    obtain ⟨b, rfl, _⟩ := mem_meeting hs
    exact hbarrier b
  rw [← filterMap_filter_class hclass, sync_steps, List.filterMap_flatMap]
  refine List.flatMap_congr fun op _ => ?_
  cases hinvoke : f (.invoke op) <;>
    simp [block, lead, trail, handover, hmeeting, hinvoke, hbarrier, filterMap_ite, List.filterMap_map]

theorem invoked?_of_not_sync (s : Step) (h : s.isSync = false) : s.invoked? = none := by
  cases s <;> simp_all [Step.isSync, Step.invoked?]

/-- A domain calls its operators once each, in the order of the request. -/
theorem invocations_steps : invocations (p.steps d) = p.members d := by
  have hwaits : ∀ op, (p.awaited d op).filterMap (Step.invoked? ∘ waitOf d) = [] :=
    fun op => List.filterMap_eq_nil_iff.mpr fun _ _ => rfl
  have hsignals : ∀ op, (p.raised d op).filterMap (Step.invoked? ∘ signalOf d) = [] :=
    fun op => List.filterMap_eq_nil_iff.mpr fun _ _ => rfl
  rw [invocations, filterMap_steps invoked?_of_not_sync fun _ => rfl]
  simp [hwaits, hsignals, Step.invoked?]

theorem full_block : (p.block d op).filter Step.isFullBarrier
    = (p.meeting op).filter Step.isFullBarrier := by
  have hlead : ((p.awaited d op).map (waitOf d)).filter Step.isFullBarrier = [] := by
    simp [waitOf, Step.isFullBarrier]
  have htrail : ((p.raised d op).map (signalOf d)).filter Step.isFullBarrier = [] := by
    simp [signalOf, Step.isFullBarrier]
  simp [block, lead, trail, handover, hlead, htrail, filter_ite, Step.isFullBarrier, Barrier.domain]

/-- Both domains reach the same full barriers: those in front of mixed operators, which both have. -/
theorem full_steps : (p.steps d).filter Step.isFullBarrier
    = p.launch.ids.flatMap fun op => (p.meeting op).filter Step.isFullBarrier := by
  have hclass : ∀ s, Step.isFullBarrier s = true → Step.isSync s = true := by
    intro s hs
    cases s <;> simp_all [Step.isSync, Step.isFullBarrier]
  rw [← filter_filter_class hclass, sync_steps, List.filter_flatMap]
  simp only [full_block]
  refine flatMap_filter_of_nil fun op _ hout => List.filter_eq_nil_iff.mpr fun s hs hfull => ?_
  obtain ⟨b, rfl, hmixed, _⟩ := mem_meeting hs
  rw [← Launch.operator, hmixed (of_decide_eq_true hfull)] at hout
  cases d <;> cases hout

/-! ### Plans -/

/-- A plan for a graph that orders its operators, with the edges that are left of it. -/
structure Planned (p : TwoStream) : Prop where
  linked : p.launch.graph.Linked
  kept : p.kept = keptEdges p.launch.graph

theorem plan_static {l : Launch} (h : ∀ o ∈ l.graph.operators, o.isDynamic = false) :
    plan l = .ok ⟨l, keptEdges l.graph⟩ := by
  have hfind : l.graph.operators.find? Operator.isDynamic = none :=
    List.find?_eq_none.mpr fun o ho => by simp [h o ho]
  rw [plan, hfind]

theorem mem_members : op ∈ p.members d ↔
    op < p.launch.graph.size ∧ (p.launch.operator op).affinity.contains d = true := by
  rw [members, mem_membersOf]
  rfl

theorem members_increasing : (p.members d).Pairwise (· < ·) := membersOf_increasing _ d

namespace Planned

variable (hp : p.Planned)
include hp

theorem mem_raised : e ∈ p.raised d op ↔
    e ∈ thinned p.launch.graph ∧ e.producer = op ∧ e.pair = ⟨d, d.other⟩ := by
  rw [← mem_keptEdges_cross hp.linked, ← hp.kept, ← DomainPair.cross_producer]
  simp only [raised, sends, List.mem_filter, beq_iff_eq, Bool.and_eq_true, decide_eq_true_eq]
  tauto

theorem mem_awaited : e ∈ p.awaited d op ↔
    e ∈ thinned p.launch.graph ∧ e.consumer = op ∧ e.pair = ⟨d.other, d⟩ := by
  rw [← mem_keptEdges_cross hp.linked, ← hp.kept, ← DomainPair.cross_consumer]
  simp only [awaited, recvs, List.mem_filter, beq_iff_eq, Bool.and_eq_true, decide_eq_true_eq]
  tauto

theorem producer_mem (he : e ∈ p.launch.graph.edges) : e.producer ∈ p.members e.pair.producer :=
  producer_mem_membersOf hp.linked he

theorem consumer_mem (he : e ∈ p.launch.graph.edges) : e.consumer ∈ p.members e.pair.consumer :=
  consumer_mem_membersOf hp.linked he

/-- A domain meets behind the sender of every edge that is kept and touches it. -/
theorem guards_producer (he : e ∈ p.kept) (hd : e.pair.producer = d ∨ e.pair.consumer = d) :
    p.guards d e.producer = true := by
  have hg := ((mem_keptEdges hp.linked).mp (hp.kept ▸ he)).1
  have hlast : e.producer + 1 ≠ p.launch.graph.size := by
    have := hp.linked.forward e hg
    have := (hp.linked.ends e hg).2
    omega
  have htouch : p.touches e.producer d = true :=
    List.any_eq_true.mpr ⟨e, List.mem_filter.mpr ⟨he, beq_self_eq_true _⟩, by simpa using hd⟩
  simp [guards, Launch.isLast, hlast, htouch]

theorem raised_guards (he : e ∈ p.raised d op) : p.guards d op = true := by
  obtain ⟨hr, rfl, hpair⟩ := hp.mem_raised.mp he
  exact hp.guards_producer (hp.kept ▸ ((mem_keptEdges_cross hp.linked).mpr hr).1) (.inl (by rw [hpair]))

/-! ### Signals and waits -/

/-- The signals of a domain, in order. -/
theorem signalled_steps : (p.steps d).filterMap StreamSteps.signalled?
    = ((p.members d).flatMap (p.raised d)).map fun e => (e.id, Flag.ofStream d) := by
  have hclass : ∀ s, Step.isSync s = false → StreamSteps.signalled? s = none := by
    intro s hs
    cases s <;> simp_all [Step.isSync, StreamSteps.signalled?]
  have hwaits : ∀ op, (p.awaited d op).filterMap (StreamSteps.signalled? ∘ waitOf d) = [] :=
    fun op => List.filterMap_eq_nil_iff.mpr fun _ _ => rfl
  have hsignals : ∀ op, (if p.guards d op then
      (p.raised d op).filterMap (StreamSteps.signalled? ∘ signalOf d) else [])
        = (p.raised d op).map fun e => (e.id, Flag.ofStream d) := by
    intro op
    cases hguard : p.guards d op with
    | true => exact congrFun List.filterMap_eq_map' _
    | false =>
      have hnone : p.raised d op = [] := by
        refine List.eq_nil_iff_forall_not_mem.mpr fun e he => ?_
        rw [hp.raised_guards he] at hguard
        cases hguard
      rw [hnone]
      rfl
  rw [filterMap_steps hclass fun _ => rfl, List.map_flatMap]
  simp [hwaits, hsignals, StreamSteps.signalled?]

end Planned

/-- The waits of a domain, in order. -/
theorem awaited_steps : (p.steps d).filterMap StreamSteps.awaited?
    = ((p.members d).flatMap (p.awaited d)).map fun e => (e.id, Flag.ofStream e.pair.producer) := by
  have hclass : ∀ s, Step.isSync s = false → StreamSteps.awaited? s = none := by
    intro s hs
    cases s <;> simp_all [Step.isSync, StreamSteps.awaited?]
  have hwaits : ∀ op, (p.awaited d op).filterMap (StreamSteps.awaited? ∘ waitOf d)
      = (p.awaited d op).map fun e => (e.id, Flag.ofStream e.pair.producer) :=
    fun op => congrFun List.filterMap_eq_map' _
  have hsignals : ∀ op, (p.raised d op).filterMap (StreamSteps.awaited? ∘ signalOf d) = [] :=
    fun op => List.filterMap_eq_nil_iff.mpr fun _ _ => rfl
  rw [filterMap_steps hclass fun _ => rfl, List.map_flatMap]
  simp [hwaits, hsignals, StreamSteps.awaited?]

namespace Planned

variable (hp : p.Planned)
include hp

theorem raised_unique {a b : Edge} (ha : a ∈ p.raised d op) (hb : b ∈ p.raised d op) : a = b := by
  obtain ⟨ha, hao, hap⟩ := hp.mem_raised.mp ha
  obtain ⟨hb, hbo, hbp⟩ := hp.mem_raised.mp hb
  have hpair := hap.trans hbp.symm
  have hsender := hao.trans hbo.symm
  exact hp.linked.unique a (mem_thinned ha).1 b (mem_thinned hb).1 hsender
    (thinned_sender hp.linked.forward ha hb hpair hsender) hpair

theorem awaited_unique {a b : Edge} (ha : a ∈ p.awaited d op) (hb : b ∈ p.awaited d op) : a = b := by
  obtain ⟨ha, hao, hap⟩ := hp.mem_awaited.mp ha
  obtain ⟨hb, hbo, hbp⟩ := hp.mem_awaited.mp hb
  have hpair := hap.trans hbp.symm
  have hreceiver := hao.trans hbo.symm
  exact hp.linked.unique a (mem_thinned ha).1 b (mem_thinned hb).1
    (thinned_receiver hp.linked.forward ha hb hpair hreceiver) hreceiver hpair

theorem nodup_kept : p.kept.Nodup := by
  rw [hp.kept]
  exact (List.Nodup.of_map _ hp.linked.nodup_ids).filter _

/-- The signals of a domain come in the order of their senders. -/
theorem raised_increasing :
    ((p.members d).flatMap (p.raised d)).Pairwise (·.producer < ·.producer) := by
  refine List.pairwise_flatMap.mpr ⟨fun op _ => ?_, members_increasing.imp ?_⟩
  · exact ((hp.nodup_kept.filter _).filter _).imp_of_mem fun ha hb hne =>
      absurd (hp.raised_unique ha hb) hne
  · intro x y hxy a ha b hb
    rw [(hp.mem_raised.mp ha).2.1, (hp.mem_raised.mp hb).2.1]
    exact hxy

/-- The waits of a domain come in the order of the senders too. -/
theorem awaited_increasing :
    ((p.members d).flatMap (p.awaited d)).Pairwise (·.producer < ·.producer) := by
  refine List.pairwise_flatMap.mpr ⟨fun op _ => ?_, members_increasing.imp ?_⟩
  · exact ((hp.nodup_kept.filter _).filter _).imp_of_mem fun ha hb hne =>
      absurd (hp.awaited_unique ha hb) hne
  · intro x y hxy a ha b hb
    obtain ⟨ha', hao, hap⟩ := hp.mem_awaited.mp ha
    obtain ⟨hb', hbo, hbp⟩ := hp.mem_awaited.mp hb
    exact (thinned_order hp.linked.forward ha' hb' (hap.trans hbp.symm)).mpr (by rwa [hao, hbo])

/-- What one domain signals in the order of the senders, the other awaits in the order of the
receivers: edges of a pair do not cross, so that the two orders are one. -/
theorem raised_eq_awaited (d : Domain) : (p.members d).flatMap (p.raised d)
    = (p.members d.other).flatMap (p.awaited d.other) := by
  have : Std.Irrefl fun a b : Edge => a.producer < b.producer := ⟨fun _ => lt_irrefl _⟩
  have : Std.Antisymm fun a b : Edge => a.producer < b.producer :=
    ⟨fun _ _ h h' => absurd h' (lt_asymm h)⟩
  have hother : d.other.other = d := by cases d <;> rfl
  refine hp.raised_increasing.eq_of_mem_iff hp.awaited_increasing fun e => ?_
  simp only [List.mem_flatMap, hp.mem_raised, hp.mem_awaited, hother]
  constructor
  · rintro ⟨_, _, he, rfl, hpair⟩
    have := hp.consumer_mem (mem_thinned he).1
    rw [hpair] at this
    exact ⟨e.consumer, this, he, rfl, hpair⟩
  · rintro ⟨_, _, he, rfl, hpair⟩
    have := hp.producer_mem (mem_thinned he).1
    rw [hpair] at this
    exact ⟨e.producer, this, he, rfl, hpair⟩

end Planned

/-! ### Order on a domain -/

theorem blocks_sublist (ops : List Nat) (hinc : ops.Pairwise (· < ·))
    (hops : ∀ op ∈ ops, op ∈ p.members d) : ops.flatMap (p.block d) <+ p.steps d :=
  ((sublist_of_increasing hinc members_increasing hops).flatMap _).trans
    (sync_steps ▸ List.filter_sublist)

theorem invoke_sublist_block : [.invoke op] <+ p.block d op :=
  List.singleton_sublist.mpr (by simp [block])

theorem trail_sublist_block : .invoke op :: p.trail d op <+ p.block d op :=
  List.sublist_append_right _ _

theorem lead_sublist_block : p.lead d op ++ [.invoke op] <+ p.block d op :=
  (List.Sublist.refl _).append (by simp)

/-- What stands behind an operator stands behind all operators before it. -/
theorem order_behind {a q : Nat} (ha : a ∈ p.members d) (hq : q ∈ p.members d) (haq : a ≤ q)
    {xs : List Step} (hxs : xs <+ p.trail d q) : .invoke a :: xs <+ p.steps d := by
  rcases eq_or_lt_of_le haq with rfl | hlt
  · refine Sublist.trans ?_ (blocks_sublist [a] (by simp) (by simpa using ha))
    simpa using (hxs.cons_cons _).trans trail_sublist_block
  · refine Sublist.trans ?_ (blocks_sublist [a, q] (by simpa using hlt) (by simp [ha, hq]))
    have hbehind : xs <+ p.block d q := (hxs.cons _).trans trail_sublist_block
    simpa using invoke_sublist_block.append hbehind

/-- What stands in front of an operator stands in front of all operators behind it. -/
theorem order_before {m c : Nat} (hm : m ∈ p.members d) (hc : c ∈ p.members d) (hmc : m ≤ c)
    {xs : List Step} (hxs : xs <+ p.lead d m) : xs ++ [.invoke c] <+ p.steps d := by
  rcases eq_or_lt_of_le hmc with rfl | hlt
  · refine Sublist.trans ?_ (blocks_sublist [m] (by simp) (by simpa using hm))
    simpa using (hxs.append_right _).trans lead_sublist_block
  · refine Sublist.trans ?_ (blocks_sublist [m, c] (by simpa using hlt) (by simp [hm, hc]))
    have hbefore : xs <+ p.block d m :=
      (hxs.trans (List.sublist_append_left _ _)).trans lead_sublist_block
    simpa using hbefore.append invoke_sublist_block

/-- What stands behind an operator stands in front of all operators behind it. -/
theorem order_between {a q c : Nat} (ha : a ∈ p.members d) (hq : q ∈ p.members d)
    (hc : c ∈ p.members d) (haq : a ≤ q) (hqc : q < c) {s : Step} (hs : s ∈ p.trail d q) :
    [.invoke a, s, .invoke c] <+ p.steps d := by
  have hbehind : [.invoke q, s] <+ p.block d q :=
    ((List.singleton_sublist.mpr hs).cons_cons _).trans trail_sublist_block
  rcases eq_or_lt_of_le haq with rfl | hlt
  · refine Sublist.trans ?_ (blocks_sublist [a, c] (by simpa using hqc) (by simp [ha, hc]))
    simpa using hbehind.append invoke_sublist_block
  · refine Sublist.trans ?_ (blocks_sublist [a, q, c] (by simp; omega) (by simp [ha, hq, hc]))
    have hstep : [s] <+ p.block d q := (List.sublist_cons_self _ _).trans hbehind
    simpa using invoke_sublist_block.append (hstep.append invoke_sublist_block)

/-- What stands in front of an operator stands behind all operators before it. -/
theorem order_between_lead {a m c : Nat} (ha : a ∈ p.members d) (hm : m ∈ p.members d)
    (hc : c ∈ p.members d) (ham : a < m) (hmc : m ≤ c) {s : Step} (hs : s ∈ p.lead d m) :
    [.invoke a, s, .invoke c] <+ p.steps d := by
  have hbefore : [s, .invoke m] <+ p.block d m :=
    ((List.singleton_sublist.mpr hs).append_right [.invoke m]).trans lead_sublist_block
  rcases eq_or_lt_of_le hmc with rfl | hlt
  · refine Sublist.trans ?_ (blocks_sublist [a, m] (by simpa using ham) (by simp [ha, hm]))
    simpa using invoke_sublist_block.append hbefore
  · refine Sublist.trans ?_ (blocks_sublist [a, m, c] (by simp; omega) (by simp [ha, hm, hc]))
    have hstep : [s] <+ p.block d m := (List.sublist_append_left [s] _).trans hbefore
    simpa using invoke_sublist_block.append (hstep.append invoke_sublist_block)

end TwoStream

end KernelFusion
