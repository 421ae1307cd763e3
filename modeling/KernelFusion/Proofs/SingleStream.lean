import KernelFusion.Schedule.SingleStream
import KernelFusion.Proofs.Order
import KernelFusion.Proofs.Rules

/-!
The form of a single-stream schedule.

Every boundary starts with no channel in use, so that it is never refused one and the steps of an operator
depend on the operator alone: the schedule is a `flatMap` of blocks, each with one call in it.
-/

namespace KernelFusion

open List

/-- Whether a step raises a flag or waits for one. -/
def Step.isFlag : Step → Bool
  | .signal .. => true
  | .wait .. => true
  | _ => false

/-- Whether a step is none of those that stand between neighbours. -/
def Step.isInner : Step → Bool
  | .comment _ => false
  | .barrier _ => false
  | .signal .. => false
  | .wait .. => false
  | .earlyStartSet _ => false
  | .earlyStartConfig _ => false
  | .earlyStartWait .. => false
  | .notify _ => false
  | .eventWait _ => false
  | _ => true

namespace SingleStream

open Schedule

variable {l : Launch}

/-! ### Blocks -/

/-- The signal of an edge on a channel. -/
def signalOf (a : Edge × Nat) : Step :=
  .signal a.1.id a.1.pair.producer (.draining a.1.pair.producer) (.channel a.2)

def waitOf (a : Edge × Nat) : Step := .wait a.1.id a.1.pair.consumer (.channel a.2)

/-- What the rules emit for the edges into an operator. -/
def crossSteps (l : Launch) (prev cur : Nat) : List Step :=
  ((Rules.granted l.graph cur).flatMap fun a => Rules.signalSteps a.1 a.2)
    ++ Rules.overflow l.graph cur
    ++ (if Rules.needsSync l.graph cur then handshake l prev cur else [])
    ++ (Rules.granted l.graph cur).flatMap fun a => Rules.waitSteps a.1 a.2

/-- Synchronization of two neighbours, starting with no channel in use. -/
def syncSteps (l : Launch) (prev cur : Nat) : List Step :=
  if l.earlyStart then Rules.domainBarriers l.graph prev ++ crossSteps l prev cur
  else Rules.fullBarrier

/-- The same together with outer events. -/
def boundarySteps (l : Launch) (prev cur : Nat) : List Step :=
  withEvents l prev cur (syncSteps l prev cur)

/-- The steps of an operator in front of its call. -/
def lead (l : Launch) (op : Nat) : List Step :=
  Step.beginOperator (l.operator op).name :: (resolveSteps l op ++ preloadSteps l op
    ++ (if op = 0 then [] else boundarySteps l (op - 1) op)
    ++ (if l.options.feedSyncAll then [.feedSyncInit op] else [])
    ++ mark l (profileEvent op) .subOperator true)

/-- The steps of an operator behind its call. -/
def trail (l : Launch) (op : Nat) : List Step :=
  releaseSteps l op ++ debugSteps l ++ mark l (profileEvent op) .subOperator false

def block (l : Launch) (op : Nat) : List Step := lead l op ++ .invoke op :: trail l op

/-- The steps of a schedule, one block for every operator. -/
def steps (l : Launch) : List Step := openingSteps l ++ l.ids.flatMap (block l) ++ closingSteps l

theorem sync_initial (hg : l.graph.WellFormed) (prev cur : Nat) :
    sync l (.initial l.earlyStart) prev cur = .ok (syncSteps l prev cur, .initial l.earlyStart) := by
  cases he : l.earlyStart with
  | false => simp [sync, syncSteps, he]
  | true =>
    simp [sync, syncSteps, crossSteps, he, Rules.producerSide_initial hg,
      Rules.consumerSide_granted hg, bind, Except.bind, pure, Except.pure]

theorem boundary_initial (hg : l.graph.WellFormed) (prev cur : Nat) :
    boundary l (.initial l.earlyStart) prev cur
      = .ok (boundarySteps l prev cur, .initial l.earlyStart) := by
  rw [boundary, sync_initial hg]
  rfl

theorem operatorSteps_initial (hg : l.graph.WellFormed) (op : Nat) :
    operatorSteps l (.initial l.earlyStart) op = .ok (block l op, .initial l.earlyStart) := by
  by_cases h0 : op = 0
  · simp [operatorSteps, block, lead, trail, h0, bind, Except.bind, pure, Except.pure]
  · simp [operatorSteps, block, lead, trail, h0, boundary_initial hg, bind, Except.bind, pure,
      Except.pure]

theorem operatorsSteps_initial (hg : l.graph.WellFormed) (ops : List Nat) :
    operatorsSteps l (.initial l.earlyStart) ops = .ok (ops.flatMap (block l)) := by
  induction ops with
  | nil => rfl
  | cons op ops ih =>
    rw [operatorsSteps, operatorSteps_initial hg]
    simp [ih, bind, Except.bind, pure, Except.pure]

/-- A schedule is always found, and it is made of one block for every operator. -/
theorem build_eq (hg : l.graph.WellFormed) : build l = .ok (steps l) := by
  rw [build, operatorsSteps_initial hg]
  rfl

/-! ### Steps at a boundary -/

theorem inner_syncSteps (prev cur : Nat) : (syncSteps l prev cur).filter Step.isInner = [] := by
  have hbarriers : (Rules.domainBarriers l.graph prev).filter Step.isInner = [] := by
    refine List.filter_eq_nil_iff.mpr fun s hs => ?_
    obtain ⟨d, _, rfl⟩ := List.mem_map.mp hs
    exact Bool.false_ne_true
  simp [syncSteps, crossSteps, filter_ite, hbarriers, Rules.overflow, Rules.overflowBarrier,
    Rules.fullBarrier, Rules.signalSteps, Rules.waitSteps, handshake, List.filter_flatMap, Step.isInner]

theorem inner_boundarySteps (prev cur : Nat) :
    (boundarySteps l prev cur).filter Step.isInner = [] := by
  simp only [boundarySteps, withEvents]
  split
  · simp [inner_syncSteps, Step.isInner]
  · simp [inner_syncSteps, filter_ite, Step.isInner]

/-! ### Calls -/

theorem invocations_boundarySteps (prev cur : Nat) :
    invocations (boundarySteps l prev cur) = [] := by
  have hinner : ∀ s : Step, s.isInner = false → s.invoked? = none := by
    intro s
    cases s <;> simp [Step.invoked?, Step.isInner]
  rw [invocations, ← filterMap_filter_class hinner, inner_boundarySteps, List.filterMap_nil]

theorem invocations_block (op : Nat) : invocations (block l op) = [op] := by
  have hboundary : (boundarySteps l (op - 1) op).filterMap Step.invoked? = [] :=
    invocations_boundarySteps _ _
  simp [invocations, block, lead, trail, hboundary, filterMap_ite, List.filterMap_cons, Step.invoked?,
    Step.beginOperator, resolveSteps, preloadSteps, releaseSteps, debugSteps, mark]

/-- Every operator is called once, in the order of the request. -/
theorem invocations_steps : invocations (steps l) = l.ids := by
  have hblocks : invocations (l.ids.flatMap (block l)) = l.ids := by
    rw [invocations, List.filterMap_flatMap]
    have : (fun op => (block l op).filterMap Step.invoked?) = fun op => [op] :=
      funext fun op => invocations_block op
    rw [this, List.flatMap_singleton']
  have hopening : invocations (openingSteps l) = [] := by
    simp [invocations, openingSteps, mark, filterMap_ite, List.filterMap_cons, Step.invoked?]
  have hclosing : invocations (closingSteps l) = [] := by
    simp [invocations, closingSteps, mark, filterMap_ite, List.filterMap_cons, Step.invoked?]
  simp only [invocations] at hblocks hopening hclosing
  simp [steps, invocations, hopening, hblocks, hclosing]

theorem nodup_invocations : (invocations (steps l)).Nodup :=
  invocations_steps ▸ List.nodup_range

theorem mem_invocations {op : Nat} (h : op < l.graph.size) :
    op ∈ invocations (steps l) := by
  rw [invocations_steps]
  exact List.mem_range.mpr h

/-! ### Flags -/

/-- The steps on flags at the boundary in front of an operator. -/
def flagSteps (g : Graph) (op : Nat) : List Step :=
  (Rules.granted g op).map signalOf ++ (Rules.granted g op).map waitOf

theorem flags_domainBarriers (g : Graph) (op : Nat) :
    (Rules.domainBarriers g op).filter Step.isFlag = [] := by
  refine List.filter_eq_nil_iff.mpr fun s hs => ?_
  obtain ⟨d, _, rfl⟩ := List.mem_map.mp hs
  exact Bool.false_ne_true

theorem flags_signalSteps (gs : List (Edge × Nat)) :
    (gs.flatMap fun a => Rules.signalSteps a.1 a.2).filter Step.isFlag = gs.map signalOf := by
  rw [List.filter_flatMap, List.map_eq_flatMap]
  rfl

theorem flags_waitSteps (gs : List (Edge × Nat)) :
    (gs.flatMap fun a => Rules.waitSteps a.1 a.2).filter Step.isFlag = gs.map waitOf := by
  rw [List.filter_flatMap, List.map_eq_flatMap]
  rfl

theorem flags_syncSteps (prev cur : Nat) : (syncSteps l prev cur).filter Step.isFlag
    = if l.earlyStart then flagSteps l.graph cur else [] := by
  cases he : l.earlyStart with
  | false => simp [syncSteps, he, Rules.fullBarrier, Step.isFlag]
  | true =>
    simp [syncSteps, crossSteps, he, flags_domainBarriers, flags_signalSteps, flags_waitSteps, flagSteps,
      filter_ite, Rules.overflow, Rules.overflowBarrier, handshake, Step.isFlag]

theorem flags_boundarySteps (prev cur : Nat) :
    (boundarySteps l prev cur).filter Step.isFlag
      = if l.earlyStart then flagSteps l.graph cur else [] := by
  simp only [boundarySteps, withEvents]
  split
  · simp [flags_syncSteps, Step.isFlag]
  · simp [flags_syncSteps, filter_ite, Step.isFlag]

theorem flags_block (op : Nat) : (block l op).filter Step.isFlag
    = if l.earlyStart = true ∧ op ≠ 0 then flagSteps l.graph op else [] := by
  by_cases h0 : op = 0
  · simp [h0, block, lead, trail, filter_ite, Step.isFlag, Step.beginOperator, resolveSteps,
      preloadSteps, releaseSteps, debugSteps, mark]
  · simp [h0, block, lead, trail, filter_ite, Step.isFlag, Step.beginOperator, resolveSteps,
      preloadSteps, releaseSteps, debugSteps, mark, flags_boundarySteps]

/-- The flags of a schedule are those of its boundaries. -/
theorem flags_steps (hf : ∀ e ∈ l.graph.edges, e.producer < e.consumer) :
    (steps l).filter Step.isFlag
      = if l.earlyStart then l.ids.flatMap (flagSteps l.graph) else [] := by
  have hopening : (openingSteps l).filter Step.isFlag = [] := by
    simp [openingSteps, mark, filter_ite, Step.isFlag]
  have hclosing : (closingSteps l).filter Step.isFlag = [] := by
    simp [closingSteps, mark, filter_ite, Step.isFlag]
  -- No edge ends at the first operator, which has no boundary in front of it.
  have hfirst : flagSteps l.graph 0 = [] := by
    have : Rules.crossing l.graph 0 = [] := by
      refine List.eq_nil_iff_forall_not_mem.mpr fun e he => ?_
      obtain ⟨he, hc, _⟩ := Rules.mem_crossing.mp he
      have := hf e he
      omega
    simp [flagSteps, Rules.granted, this]
  have hblock : ∀ op, (block l op).filter Step.isFlag
      = if l.earlyStart then flagSteps l.graph op else [] := by
    intro op
    rw [flags_block]
    by_cases h0 : op = 0
    · simp [h0, hfirst]
    · simp [h0]
  rw [steps, List.filter_append, List.filter_append, hopening, hclosing, List.filter_flatMap,
    List.nil_append, List.append_nil]
  simp only [hblock]
  split
  · rfl
  · simp

/-! ### Order of steps -/

/-- Blocks of increasing operators follow each other. -/
theorem blocks_sublist (ops : List Nat) (hinc : ops.Pairwise (· < ·))
    (hops : ∀ op ∈ ops, op < l.graph.size) : ops.flatMap (block l) <+ steps l := by
  have hsub : ops <+ l.ids :=
    sublist_of_increasing hinc List.pairwise_lt_range fun op hop => List.mem_range.mpr (hops op hop)
  rw [steps, List.append_assoc]
  exact ((hsub.flatMap _).trans (List.sublist_append_left _ _)).trans (List.sublist_append_right _ _)

theorem invoke_sublist_block (op : Nat) : [.invoke op] <+ block l op :=
  List.singleton_sublist.mpr (by simp [block])

theorem syncSteps_sublist_boundarySteps (prev cur : Nat) :
    syncSteps l prev cur <+ boundarySteps l prev cur := by
  simp only [boundarySteps, withEvents]
  split
  · exact List.sublist_append_left _ _
  · exact (List.sublist_append_right _ _).trans (List.sublist_append_left _ _)

theorem syncSteps_sublist_block {op : Nat} (hop : 0 < op) :
    syncSteps l (op - 1) op ++ [.invoke op] <+ block l op := by
  refine Sublist.append ?_ (by simp)
  refine (syncSteps_sublist_boundarySteps (op - 1) op).trans ?_
  simp only [lead, Nat.ne_of_gt hop, if_false, List.append_assoc]
  exact (((List.sublist_append_left _ _).trans (List.sublist_append_right _ _)).trans
    (List.sublist_append_right _ _)).trans (List.sublist_cons_self _ _)

/-- What is emitted for the edges into an operator stands between it and all operators before. -/
theorem order_before_consumer {p c : Nat} (hpc : p < c)
    (hc : c < l.graph.size) {xs : List Step} (hxs : xs <+ syncSteps l (c - 1) c) :
    [.invoke p] ++ xs ++ [.invoke c] <+ steps l := by
  refine Sublist.trans ?_ (blocks_sublist [p, c] (by simpa using hpc) (by simp; omega))
  simp only [List.flatMap_cons, List.flatMap_nil, List.append_nil, List.append_assoc]
  exact (invoke_sublist_block p).append
    ((hxs.append_right _).trans (syncSteps_sublist_block (by omega)))

/-- A barrier behind the producer comes before what is emitted for the edges into the consumer. -/
theorem order_behind_producer (he : l.earlyStart = true) {p c : Nat}
    (hpc : p < c) (hc : c < l.graph.size) {b : Step} (hb : b ∈ Rules.domainBarriers l.graph p)
    {xs : List Step} (hxs : xs <+ crossSteps l (c - 1) c) :
    [.invoke p, b] ++ xs ++ [.invoke c] <+ steps l := by
  have hsync : ∀ op, syncSteps l (op - 1) op
      = Rules.domainBarriers l.graph (op - 1) ++ crossSteps l (op - 1) op := by
    intro op
    rw [syncSteps, if_pos he]
  have hbp : [b] <+ Rules.domainBarriers l.graph p := List.singleton_sublist.mpr hb
  by_cases hnext : c = p + 1
  · -- Neighbours share one boundary, which has the barriers first.
    subst hnext
    have hboth : [b] ++ xs <+ syncSteps l (p + 1 - 1) (p + 1) := by
      rw [hsync]
      exact hbp.append hxs
    simpa using order_before_consumer hpc hc hboth
  · refine Sublist.trans ?_ (blocks_sublist [p, p + 1, c] (by simp; omega) (by simp; omega))
    simp only [List.flatMap_cons, List.flatMap_nil, List.append_nil]
    change [.invoke p] ++ ([b] ++ xs ++ [.invoke c]) <+ _
    rw [List.append_assoc [b]]
    refine (invoke_sublist_block p).append (Sublist.append ?_ ?_)
    · refine (hbp.trans ?_).trans (syncSteps_sublist_block (Nat.succ_pos p))
      rw [hsync, List.append_assoc]
      exact List.sublist_append_left _ _
    · refine Sublist.trans (Sublist.append_right ?_ _) (syncSteps_sublist_block (by omega))
      rw [hsync]
      exact hxs.trans (List.sublist_append_right _ _)

/-! ### What is emitted for an edge -/

theorem flags_sublist_crossSteps {prev cur : Nat} {a : Edge × Nat}
    (h : a ∈ Rules.granted l.graph cur) : [signalOf a, waitOf a] <+ crossSteps l prev cur := by
  have hsignal : [signalOf a]
      <+ (Rules.granted l.graph cur).flatMap fun a => Rules.signalSteps a.1 a.2 :=
    List.singleton_sublist.mpr (List.mem_flatMap.mpr ⟨a, h, by simp [Rules.signalSteps, signalOf]⟩)
  have hwait : [waitOf a]
      <+ (Rules.granted l.graph cur).flatMap fun a => Rules.waitSteps a.1 a.2 :=
    List.singleton_sublist.mpr (List.mem_flatMap.mpr ⟨a, h, by simp [Rules.waitSteps, waitOf]⟩)
  exact ((hsignal.trans (List.sublist_append_left _ _)).trans (List.sublist_append_left _ _)).append
    hwait

theorem crossSteps_sublist_syncSteps (he : l.earlyStart = true) (prev cur : Nat) :
    crossSteps l prev cur <+ syncSteps l prev cur := by
  rw [syncSteps, if_pos he]
  exact List.sublist_append_right _ _

theorem overflow_sublist_syncSteps (he : l.earlyStart = true) {prev cur : Nat}
    (h : Rules.overflow l.graph cur = [Rules.overflowBarrier]) :
    [Rules.overflowBarrier] <+ syncSteps l prev cur := by
  rw [← h]
  refine Sublist.trans ?_ (crossSteps_sublist_syncSteps he prev cur)
  exact ((List.sublist_append_right _ _).trans (List.sublist_append_left _ _)).trans
    (List.sublist_append_left _ _)

/-- Without the handshake all units meet at every boundary. -/
theorem exists_fullBarrier (he : l.earlyStart = false) (prev cur : Nat) :
    ∃ b : Barrier, b.scope = .full ∧ .barrier b ∈ syncSteps l prev cur :=
  ⟨.full "reason2: inter op barrier when EarlyStartDisable", rfl,
    by simp [syncSteps, he, Rules.fullBarrier]⟩

/-- A domain that is guarded behind an operator has a barrier there. -/
theorem exists_domainBarrier {g : Graph} {op : Nat} {d : Domain} (h : Rules.guards g op d = true) :
    ∃ b : Barrier, b.scope = .domain d ∧ .barrier b ∈ Rules.domainBarriers g op := by
  have hd : d ∈ Domain.all.filter (Rules.guards g op) :=
    List.mem_filter.mpr ⟨by cases d <;> decide, h⟩
  exact ⟨_, rfl, List.mem_map.mpr ⟨d, hd, rfl⟩⟩

theorem guards_producer {g : Graph} {e : Edge} (he : e ∈ g.edges) (hs : e.explicitSync = true) :
    Rules.guards g e.producer e.pair.producer = true :=
  List.any_eq_true.mpr ⟨e, Graph.mem_outgoing.mpr ⟨he, rfl⟩, by simp [hs]⟩

end SingleStream

end KernelFusion
