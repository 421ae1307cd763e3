import KernelFusion.Proofs.Connected
import KernelFusion.Proofs.Launch
import KernelFusion.Proofs.SingleStream

/-!
Changes of operators that no schedule sees.

Events, edges and steps are made from a few fields of an operator: its name and type, its blocks, stream
and events, whether it is dynamic and whether it claims to stay on its units. A change that keeps these is
neutral: it may be made before a stage or behind it.

        operators ──── events ──── graph ──── steps
            │                        │          ║
         f operators ── events ── f graph ──── steps

The number of variants is not among the fields. It takes part in one decision, whether two operators stay
on their units, and there only by being equal or not.
-/

namespace KernelFusion

/-! ### Operators -/

/-- A change of operators that keeps all that events, edges and steps are made from. -/
structure Operator.Neutral (f : Operator → Operator) : Prop where
  default : f default = default
  name (o : Operator) : (f o).name = o.name
  kernelType (o : Operator) : (f o).kernelType = o.kernelType
  blockCount (o : Operator) : (f o).blockCount = o.blockCount
  isDynamic (o : Operator) : (f o).isDynamic = o.isDynamic
  stream (o : Operator) : (f o).stream = o.stream
  sendEvents (o : Operator) : (f o).sendEvents = o.sendEvents
  recvEvents (o : Operator) : (f o).recvEvents = o.recvEvents
  unitLocal (o : Operator) : (f o).unitLocal = o.unitLocal

variable {f : Operator → Operator}

namespace Operator.Neutral

variable (hf : Neutral f) (o : Operator)
include hf

theorem affinity : (f o).affinity = o.affinity := by
  rw [Operator.affinity, hf.kernelType, ← Operator.affinity]

theorem eventDomain : (f o).eventDomain = o.eventDomain := by
  rw [Operator.eventDomain, hf.affinity, ← Operator.eventDomain]

theorem requiredUnits (d : Domain) : (f o).requiredUnits d = o.requiredUnits d := by
  unfold Operator.requiredUnits
  rw [hf.affinity, hf.kernelType, hf.blockCount]

end Operator.Neutral

namespace LaunchShape

variable (hf : Operator.Neutral f) (ops : List Operator)
include hf

theorem maxUnitsOf_map (d : Domain) : maxUnitsOf (ops.map f) d = maxUnitsOf ops d := by
  simp only [maxUnitsOf, List.foldl_map, hf.requiredUnits]

theorem flagsOf_map : flagsOf (ops.map f) = flagsOf ops := by
  simp only [flagsOf, List.foldl_map, hf.kernelType]

theorem blocksOf_map : blocksOf (ops.map f) = blocksOf ops := by
  rw [blocksOf, flagsOf_map hf, maxUnitsOf_map hf, maxUnitsOf_map hf, ← blocksOf]

end LaunchShape

/-! ### Events -/

namespace EventPlan

variable (hf : Operator.Neutral f) (ops : List Operator) (fusion : Bool)
include hf

theorem checkOwn_map (o : Operator) : checkOwn (f o) = checkOwn o := by
  simp only [checkOwn, refuse, hf.name, hf.sendEvents, hf.recvEvents]

theorem checkFirst_map : checkFirst (ops.map f) = checkFirst ops := by
  cases ops with
  | nil => rfl
  | cons o ops =>
    simp only [checkFirst, List.map_cons, List.head?_cons, refuse, hf.name, hf.recvEvents]

theorem checkLast_map : checkLast (ops.map f) = checkLast ops := by
  rw [checkLast, checkLast, List.getLast?_map]
  cases ops.getLast? with
  | none => rfl
  | some o => simp only [Option.map_some, refuse, hf.name, hf.sendEvents]

theorem checkNeighbours_map (a b : Operator) :
    checkNeighbours fusion (f a) (f b) = checkNeighbours fusion a b := by
  have hconnected : connected (f a) (f b) = connected a b := by
    simp only [connected, hf.sendEvents, hf.recvEvents]
  rw [checkNeighbours, checkNeighbours, hconnected, hf.name, hf.name, hf.stream, hf.stream]

theorem modeOf_map : modeOf fusion (ops.map f) = modeOf fusion ops := by
  induction ops with
  | nil => rfl
  | cons a ops ih =>
    cases ops with
    | nil => rfl
    | cons b rest =>
      rw [List.map_cons] at ih
      rw [List.map_cons, List.map_cons, modeOf, modeOf, ih, checkNeighbours_map hf]

theorem innerFrom_map (i j : Nat) (a : Operator) :
    innerFrom i (f a) j (ops.map f) = innerFrom i a j ops := by
  induction ops generalizing j with
  | nil => rfl
  | cons b ops ih =>
    have hwith : innerWith i (f a) j (f b) = innerWith i a j b := by
      simp only [innerWith, hf.name, hf.stream, hf.sendEvents, hf.recvEvents]
    rw [List.map_cons, innerFrom, innerFrom, ih, hwith]

theorem innerAll_map (i : Nat) : innerAll i (ops.map f) = innerAll i ops := by
  induction ops generalizing i with
  | nil => rfl
  | cons a ops ih => rw [List.map_cons, innerAll, innerAll, ih, innerFrom_map hf]

theorem analyze_map : analyze (ops.map f) fusion = analyze ops fusion := by
  have hown : (ops.map f).forM checkOwn = ops.forM checkOwn := by
    simp only [List.forM_eq_forM, List.forM_map, checkOwn_map hf]
  simp only [analyze, hown, checkFirst_map hf, checkLast_map hf, modeOf_map hf, innerAll_map hf,
    List.map_map, Function.comp_def, hf.sendEvents, hf.recvEvents]

end EventPlan

/-! ### Graphs -/

namespace Graph

variable {g : Graph} {s : EdgeSpec}

def mapOperators (f : Operator → Operator) (g : Graph) : Graph := { g with operators := g.operators.map f }

theorem size_mapOperators : (g.mapOperators f).size = g.size := List.length_map _

theorem operator_mapOperators (hf : Operator.Neutral f) (op : Nat) :
    (g.mapOperators f).operator op = f (g.operator op) := by
  rw [operator, operator, mapOperators, List.getD_eq_getElem?_getD, List.getD_eq_getElem?_getD,
    List.getElem?_map]
  cases g.operators[op]? with
  | none => exact hf.default.symm
  | some o => rfl

theorem hasDynamic_mapOperators (hf : Operator.Neutral f) :
    (g.mapOperators f).hasDynamic = g.hasDynamic := by
  simp only [hasDynamic, mapOperators, List.any_map, Function.comp_def, hf.isDynamic]

/-- Operators have the same number of variants behind a change if they had it before. -/
def SplitsKept (f : Operator → Operator) (g : Graph) : Prop :=
  ∀ a ∈ g.operators, ∀ b ∈ g.operators, (f a).split = (f b).split ↔ a.split = b.split

variable (hf : Operator.Neutral f)
include hf

theorem sameUnits_map (h : g.SplitsKept f) (hp : s.producer < g.size) (hc : s.consumer < g.size) :
    (g.mapOperators f).sameUnits s = g.sameUnits s := by
  have hsplit : decide ((f (g.operator s.producer)).split = (f (g.operator s.consumer)).split)
      = decide ((g.operator s.producer).split = (g.operator s.consumer).split) :=
    decide_eq_decide.mpr (h _ (operator_mem hp) _ (operator_mem hc))
  simp only [sameUnits, operator_mapOperators hf, hf.isDynamic, hf.affinity, hf.blockCount, hf.stream,
    hsplit]

theorem addEdge_map (h : g.SplitsKept f) :
    (g.mapOperators f).addEdge s = ((g.addEdge s).1.mapOperators f, (g.addEdge s).2) := by
  by_cases hp : g.size ≤ s.producer
  · simp [addEdge, size_mapOperators, hp]
  by_cases hc : g.size ≤ s.consumer
  · simp [addEdge, size_mapOperators, hp, hc]
  -- only now are both ends operators of the graph
  have hedge : ∀ pair, (g.mapOperators f).hasEdge s.producer s.consumer pair
      = g.hasEdge s.producer s.consumer pair := fun _ => rfl
  rw [addEdge, addEdge, size_mapOperators, if_neg hp, if_neg hp, if_neg hc, if_neg hc, hedge,
    sameUnits_map hf h (by omega) (by omega)]
  split <;> rfl

end Graph

/-! ### Edges -/

namespace EventPlan

variable {g : Graph} {p : EventPlan}

/-- The outcome of a round with its operators changed. -/
def mapRound (f : Operator → Operator) (r : Graph × Option Error) : Graph × Option Error :=
  (r.1.mapOperators f, r.2)

variable (hf : Operator.Neutral f)
include hf

theorem specs_map (a b : Nat) (origin : EdgeOrigin) (unitLocal : Bool) :
    specs (g.mapOperators f) a b origin unitLocal = specs g a b origin unitLocal := by
  simp only [specs, Graph.operator_mapOperators hf, hf.kernelType]

theorem predecessor?_map (mode : ScheduleMode) (op : Nat) :
    predecessor? mode (g.mapOperators f) op = predecessor? mode g op := by
  cases mode with
  | singleStream => rfl
  | twoStream => simp only [predecessor?, Graph.operator_mapOperators hf, hf.stream]

theorem sequenceSpecs_map : p.sequenceSpecs (g.mapOperators f) = p.sequenceSpecs g := by
  simp only [sequenceSpecs, predecessor?_map hf, specs_map hf, Graph.operator_mapOperators hf,
    hf.unitLocal, Graph.size_mapOperators]

theorem eventSpecs_map : p.eventSpecs (g.mapOperators f) = p.eventSpecs g := by
  simp only [eventSpecs, specs_map hf]

theorem handoffSpecs_map : p.handoffSpecs (g.mapOperators f) = p.handoffSpecs g := by
  have hoff : handsOff p (g.mapOperators f) = handsOff p g := by
    funext op
    simp only [handsOff, Graph.operator_mapOperators hf, hf.affinity, hf.stream]
    rfl
  simp only [handoffSpecs, specs_map hf, Graph.size_mapOperators, hoff]

theorem addAll_map (h : g.SplitsKept f) (ss : List EdgeSpec) :
    addAll (g.mapOperators f) ss = mapRound f (addAll g ss) := by
  induction ss generalizing g with
  | nil => rfl
  | cons s ss ih =>
    rw [addAll, addAll, Graph.addEdge_map hf h]
    rcases Graph.addEdge_cases g s with ⟨_, _, _, hs⟩ | ⟨_, err, hs⟩
    · rw [hs]
      exact ih h
    · rw [hs]
      rfl

theorem addMissing_map (h : g.SplitsKept f) (ss : List EdgeSpec) :
    addMissing (g.mapOperators f) ss = mapRound f (addMissing g ss) := by
  induction ss generalizing g with
  | nil => rfl
  | cons s ss ih =>
    have hedge : (g.mapOperators f).hasEdge s.producer s.consumer s.pair
        = g.hasEdge s.producer s.consumer s.pair := rfl
    rw [addMissing, addMissing, Graph.addEdge_map hf h, hedge]
    split
    · exact ih h
    · rcases Graph.addEdge_cases g s with ⟨_, _, _, hs⟩ | ⟨_, err, hs⟩
      · rw [hs]
        exact ih h
      · rw [hs]
        rfl

omit hf in
theorem andThen_map {r : Graph × Option Error} {next next' : Graph → Graph × Option Error}
    (h : r.1.SplitsKept f)
    (hnext : ∀ g : Graph, g.SplitsKept f → next' (g.mapOperators f) = mapRound f (next g)) :
    andThen (mapRound f r) next' = mapRound f (andThen r next) := by
  rcases r with ⟨g, _ | e⟩
  · exact hnext g h
  · rfl

/-- A plan gives changed operators the same edges. -/
theorem connect_map (h : g.SplitsKept f) : p.connect (g.mapOperators f) = mapRound f (p.connect g) := by
  rw [connect, connect, sequenceSpecs_map hf, addAll_map hf h]
  refine andThen_map (addAll_keeps (fun _ _ h => h) _ h) fun g h => ?_
  rw [eventSpecs_map hf, addMissing_map hf h]
  refine andThen_map (addMissing_keeps (fun _ _ h => h) _ h) fun g h => ?_
  rw [handoffSpecs_map hf, addAll_map hf h]

/-- Operators that are alike behind a change are connected alike. -/
theorem connect_congr {u : Units} {ops ops' : List Operator} (h : Graph.SplitsKept f ⟨u, ops, []⟩)
    (h' : Graph.SplitsKept f ⟨u, ops', []⟩) (hops : ops'.map f = ops.map f) :
    mapRound f (p.connect ⟨u, ops', []⟩) = mapRound f (p.connect ⟨u, ops, []⟩) := by
  have hmap : Graph.mapOperators f ⟨u, ops', []⟩ = Graph.mapOperators f ⟨u, ops, []⟩ := by
    rw [Graph.mapOperators, Graph.mapOperators, hops]
  rw [← connect_map hf h', ← connect_map hf h, hmap]

end EventPlan

/-! ### One stream -/

/-- A launch with its operators changed, and the rest of what its boundaries are made from as it was. -/
structure Launch.Mapped (f : Operator → Operator) (l l' : Launch) : Prop where
  neutral : Operator.Neutral f
  graph : l'.graph = l.graph.mapOperators f
  events : l'.events = l.events
  earlyStart : l'.earlyStart = l.earlyStart
  kernelType : l'.shape.kernelType = l.shape.kernelType

namespace Launch.Mapped

variable {l l' : Launch} (h : Launch.Mapped f l l')
include h

theorem operator (op : Nat) : l'.operator op = f (l.operator op) := by
  rw [Launch.operator, h.graph, Graph.operator_mapOperators h.neutral, ← Launch.operator]

theorem size : l'.graph.size = l.graph.size := by rw [h.graph, Graph.size_mapOperators]

theorem ids : l'.ids = l.ids := by rw [Launch.ids, h.size, ← Launch.ids]

end Launch.Mapped

theorem Rules.domainBarriers_map (hf : Operator.Neutral f) (g : Graph) (op : Nat) :
    domainBarriers (g.mapOperators f) op = domainBarriers g op := by
  have hguards : guards (g.mapOperators f) op = guards g op := by
    funext d
    simp only [guards, Graph.operator_mapOperators hf, hf.affinity]
    rfl
  simp only [domainBarriers, hguards, Graph.operator_mapOperators hf, hf.name]

namespace SingleStream

variable {l l' : Launch} (h : Launch.Mapped f l l')
include h

theorem syncSteps_mapped (prev cur : Nat) : syncSteps l' prev cur = syncSteps l prev cur := by
  have hhandshake : handshake l' prev cur = handshake l prev cur := by
    simp only [handshake, handshakeConfig, h.operator, h.neutral.kernelType]
  rw [syncSteps, syncSteps, crossSteps, crossSteps, hhandshake, h.earlyStart, h.graph,
    Rules.domainBarriers_map h.neutral]
  rfl

theorem boundarySteps_mapped (prev cur : Nat) : boundarySteps l' prev cur = boundarySteps l prev cur := by
  rw [boundarySteps, boundarySteps, syncSteps_mapped h, withEvents, withEvents, h.events, h.kernelType]

theorem resolveSteps_mapped (op : Nat) : resolveSteps l' op = resolveSteps l op := by
  rw [resolveSteps, resolveSteps, h.operator, h.neutral.isDynamic]

theorem releaseSteps_mapped (op : Nat) : releaseSteps l' op = releaseSteps l op := by
  rw [releaseSteps, releaseSteps, h.operator, h.neutral.isDynamic]

/-- With the same options, the steps are the same. -/
theorem steps_mapped (ho : l'.options = l.options) : steps l' = steps l := by
  have hpreload : ∀ op, preloadSteps l' op = preloadSteps l op := by
    intro op
    simp only [preloadSteps, ho, h.operator, h.neutral.isDynamic, h.size]
  have hdebug : debugSteps l' = debugSteps l := by rw [debugSteps, debugSteps, ho, h.kernelType]
  have hmark : mark l' = mark l := by
    funext event kind start
    rw [mark, mark, ho]
  have hblock : block l' = block l := by
    funext op
    simp only [block, lead, trail, boundarySteps_mapped h, resolveSteps_mapped h, releaseSteps_mapped h,
      hpreload, hdebug, hmark, ho, h.operator, h.neutral.name]
  rw [steps, steps, openingSteps, openingSteps, closingSteps, closingSteps, hmark, ho, hblock, h.ids]

end SingleStream

/-! ### Two streams -/

namespace TwoStream

variable (hf : Operator.Neutral f) (g : Graph)
include hf

theorem membersOf_map (d : Domain) : membersOf (g.mapOperators f) d = membersOf g d := by
  simp only [membersOf, Graph.size_mapOperators, Graph.operator_mapOperators hf, hf.affinity]

/-- Edges are thinned out by the places of operators alone. -/
theorem keptEdges_map : keptEdges (g.mapOperators f) = keptEdges g := by
  have hposition : position (g.mapOperators f) = position g := by
    funext d op
    rw [position, position, membersOf_map hf]
  have hreduce : reduce (g.mapOperators f) = reduce g := by
    simp only [reduce, keepLatest, keepEarliest, dropCrossed, isCrossed, keepOne, hposition]
    rfl
  rw [keptEdges, keptEdges, hreduce]
  rfl

end TwoStream

/-- A plan for changed operators that keeps the same edges. -/
structure TwoStream.Mapped (f : Operator → Operator) (p p' : TwoStream) : Prop where
  launch : Launch.Mapped f p.launch p'.launch
  kept : p'.kept = p.kept

theorem Launch.Mapped.plan {l l' : Launch} (h : Launch.Mapped f l l') :
    TwoStream.Mapped f ⟨l, TwoStream.keptEdges l.graph⟩ ⟨l', TwoStream.keptEdges l'.graph⟩ where
  launch := h
  kept := by
    simp only [h.graph, TwoStream.keptEdges_map h.neutral]

namespace TwoStream

variable {p p' : TwoStream} (h : TwoStream.Mapped f p p') (d : Domain) (op : Nat)
include h

theorem members_mapped : p'.members d = p.members d := by
  rw [members, members, h.launch.graph, membersOf_map h.launch.neutral]

theorem sends_mapped : p'.sends op = p.sends op := by rw [sends, sends, h.kept]

theorem recvs_mapped : p'.recvs op = p.recvs op := by rw [recvs, recvs, h.kept]

theorem endsStream_mapped : p'.endsStream op = p.endsStream op := by
  simp only [endsStream, h.launch.ids, h.launch.operator, h.launch.neutral.stream]

theorem notifies_mapped : p'.notifies op d = p.notifies op d := by
  have hdomain : p'.notifyDomain op = p.notifyDomain op := by
    simp only [notifyDomain, h.launch.operator, h.launch.neutral.affinity, h.launch.neutral.eventDomain,
      h.launch.size]
  rw [notifies, notifies, hdomain, h.launch.events]

theorem sendSteps_mapped : p'.sendSteps op d = p.sendSteps op d := by
  have hlast : p'.launch.isLast op = p.launch.isLast op := by
    rw [Launch.isLast, Launch.isLast, h.launch.size]
  have hguard : p'.guardSteps op d = p.guardSteps op d := by
    simp only [guardSteps, sendInfo, sends_mapped h, h.launch.operator, h.launch.neutral.name]
  have hsignal : p'.signalSteps op d = p.signalSteps op d := by
    funext e
    simp only [signalSteps, h.launch.operator, h.launch.neutral.name]
  have htouches : p'.touches op d = p.touches op d := by rw [touches, touches, sends_mapped h]
  rw [sendSteps, sendSteps, hlast, hguard, hsignal, htouches, sends_mapped h, endsStream_mapped h,
    members_mapped h, h.launch.events]

theorem recvSteps_mapped : p'.recvSteps op d = p.recvSteps op d := by
  have hwait : p'.waitSteps op d = p.waitSteps op d := by
    funext e
    simp only [waitSteps, h.launch.operator, h.launch.neutral.name]
  rw [recvSteps, recvSteps, hwait, recvs_mapped h]

theorem eventSteps_mapped : p'.eventSteps op d = p.eventSteps op d := by
  have hwaits : p'.waits op d = p.waits op d := by
    rw [waits, waits, h.launch.operator, h.launch.neutral.eventDomain, h.launch.events]
  have hbarrier : eventBarrier (p'.launch.operator op) = eventBarrier (p.launch.operator op) := by
    rw [h.launch.operator, eventBarrier, eventBarrier, h.launch.neutral.affinity]
  rw [eventSteps, eventSteps, hwaits, hbarrier, h.launch.operator, h.launch.neutral.recvEvents]

theorem boundary_mapped (prev : Option Nat) : p'.boundary prev op d = p.boundary prev op d := by
  cases prev with
  | none => simp only [boundary, recvSteps_mapped h, eventSteps_mapped h]
  | some q =>
    simp only [boundary, sendSteps_mapped h, recvSteps_mapped h, eventSteps_mapped h, notifies_mapped h]

theorem finalSteps_mapped : p'.finalSteps op d = p.finalSteps op d := by
  rw [finalSteps, finalSteps, sendSteps_mapped h, notifies_mapped h]

/-- With the same options, the steps of each domain are the same. -/
theorem steps_mapped (ho : p'.launch.options = p.launch.options) : p'.steps d = p.steps d := by
  have hpreload : p'.preloadSteps = p.preloadSteps := by
    funext prev op next
    simp only [preloadSteps, ho]
  have hdebug : p'.debugSteps d = p.debugSteps d := by rw [debugSteps, debugSteps, ho]
  have hmark : p'.mark = p.mark := by
    funext op start
    rw [mark, mark, ho]
  have hoperator : ∀ prev op next, p'.operatorSteps d prev op next = p.operatorSteps d prev op next := by
    intro prev op next
    simp only [operatorSteps, boundary_mapped h, finalSteps_mapped h, hpreload, hdebug, hmark, ho,
      h.launch.operator, h.launch.neutral.name]
  have hoperators : ∀ prev ops, p'.operatorsSteps d prev ops = p.operatorsSteps d prev ops := by
    intro prev ops
    induction ops generalizing prev with
    | nil => rfl
    | cons op ops ih => simp only [operatorsSteps, hoperator, ih]
  rw [steps, steps, ho, members_mapped h, hoperators]

end TwoStream

end KernelFusion
