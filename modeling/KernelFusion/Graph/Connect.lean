import KernelFusion.Graph.EventPlan
import KernelFusion.Graph.Store

/-!
The edges that a plan of events gives a graph: order on the streams, then inner events, then hand-offs
of outer events between streams.
-/

namespace KernelFusion.EventPlan

/-- The operator that an operator follows: its neighbour, or the last one before it on its stream. -/
def predecessor? (mode : ScheduleMode) (g : Graph) (op : Nat) : Option Nat :=
  match mode with
  | .singleStream => if op = 0 then none else some (op - 1)
  | .twoStream => (List.range op).reverse.find? fun p =>
      decide ((g.operator p).stream = (g.operator op).stream)

/-- One edge for each pair of domains between two operators. -/
def specs (g : Graph) (producer consumer : Nat) (origin : EdgeOrigin) (unitLocal : Bool) :
    List EdgeSpec :=
  (DomainPair.between (g.operator producer).kernelType (g.operator consumer).kernelType).map fun pair =>
    ⟨producer, consumer, pair, origin, unitLocal⟩

/-- Edges between neighbours on a stream. -/
def sequenceSpecs (p : EventPlan) (g : Graph) : List EdgeSpec :=
  (List.range g.size).flatMap fun op =>
    match predecessor? p.mode g op with
    | some producer => specs g producer op .sequence (g.operator op).unitLocal
    | none => []

/-- Edges of inner events. -/
def eventSpecs (p : EventPlan) (g : Graph) : List EdgeSpec :=
  p.inner.flatMap fun i => specs g i.sender i.receiver (.event i.event) false

/-- A mixed operator with outer events whose successor is on another stream and not yet behind it. -/
def handsOff (p : EventPlan) (g : Graph) (op : Nat) : Bool :=
  decide ((g.operator op).affinity = .mixed) && !(p.sends op).isEmpty
    && decide ((g.operator op).stream ≠ (g.operator (op + 1)).stream)
    && !(g.outgoing op).any fun e => e.consumer == op + 1

/-- Edges of hand-offs, which only two streams need. -/
def handoffSpecs (p : EventPlan) (g : Graph) : List EdgeSpec :=
  match p.mode with
  | .singleStream => []
  | .twoStream => ((List.range (g.size - 1)).filter (handsOff p g)).flatMap fun op =>
      specs g op (op + 1) .handoff false

/-- Adds edges one by one; at the first that is refused, the graph so far and why. -/
def addAll : Graph → List EdgeSpec → Graph × Option Error
  | g, [] => (g, none)
  | g, s :: ss => match g.addEdge s with
    | (g, .ok _) => addAll g ss
    | (g, .error e) => (g, some e)

/-- Adds the edges that are not there yet. -/
def addMissing : Graph → List EdgeSpec → Graph × Option Error
  | g, [] => (g, none)
  | g, s :: ss =>
    if g.hasEdge s.producer s.consumer s.pair then addMissing g ss
    else match g.addEdge s with
      | (g, .ok _) => addMissing g ss
      | (g, .error e) => (g, some e)

/-- Goes on with what was built unless it failed. -/
def andThen (r : Graph × Option Error) (next : Graph → Graph × Option Error) : Graph × Option Error :=
  match r with
  | (g, none) => next g
  | (g, some e) => (g, some e)

/-- The graph with its edges, or with those added before one was refused. -/
def connect (p : EventPlan) (g : Graph) : Graph × Option Error :=
  andThen (addAll g (p.sequenceSpecs g)) fun g =>
    andThen (addMissing g (p.eventSpecs g)) fun g =>
      addAll g (p.handoffSpecs g)

end KernelFusion.EventPlan
