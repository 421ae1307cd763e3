import KernelFusion.Graph.Operator

/-!
The dependency graph of a request: operators in the order in which they run, and edges between them.

The store only grows. Adding checks what it is given and never reorders; it answers with the position of
what was added or with an error, and with the graph behind the call. `Graph.order` tells whether all edges
point forward.
-/

namespace KernelFusion

/-- What is asked of a new edge. -/
structure EdgeSpec where
  producer : Nat
  consumer : Nat
  pair : DomainPair
  origin : EdgeOrigin
  /-- claim that both ends stay on the same units -/
  unitLocal : Bool

structure Graph where
  units : Units
  operators : List Operator
  edges : List Edge

namespace Graph

def empty (units : Units) : Graph := ⟨units, [], []⟩

def operator (g : Graph) (id : Nat) : Operator := g.operators.getD id default

def edge (g : Graph) (id : Nat) : Edge := g.edges.getD id default

def incoming (g : Graph) (id : Nat) : List Edge := g.edges.filter fun e => e.consumer == id

def outgoing (g : Graph) (id : Nat) : List Edge := g.edges.filter fun e => e.producer == id

def size (g : Graph) : Nat := g.operators.length

def hasDynamic (g : Graph) : Bool := g.operators.any Operator.isDynamic

/-- The domains of an operator have enough units for it. -/
def checkUnits (u : Units) (o : Operator) : Except Error Unit :=
  o.affinity.domains.forM fun d =>
    if u.get d < o.requiredUnits d then
      throw (.invalidOperator o.name (.tooFewUnits (o.requiredUnits d) d (u.get d)))
    else pure ()

/-- Adds an operator behind all others. -/
def addOperator (g : Graph) (o : Operator) : Graph × Except Error Nat :=
  if o.split = 0 then (g, .error (.invalidOperator o.name .zeroSplit))
  else if o.blockCount = 0 then (g, .error (.invalidOperator o.name .zeroBlocks))
  else match checkUnits g.units o with
    | .error e => (g, .error e)
    | .ok () => ({ g with operators := g.operators ++ [o] }, .ok g.size)

/-- Adds operators one by one; at the first that is refused, the graph so far and why. -/
def addOperators (g : Graph) : List Operator → Graph × Option Error
  | [] => (g, none)
  | o :: os => match g.addOperator o with
    | (g, .ok _) => g.addOperators os
    | (g, .error e) => (g, some e)

/-- Whether every unit runs its share of both operators one after the other: neighbours, static, of
one domain and stream, with equal block counts and splits. -/
def sameUnits (g : Graph) (s : EdgeSpec) : Bool :=
  let p := g.operator s.producer
  let c := g.operator s.consumer
  decide (s.consumer = s.producer + 1) && !s.pair.isCross && !p.isDynamic && !c.isDynamic
    && decide (p.affinity = c.affinity) && decide (p.affinity ≠ .mixed)
    && decide (p.affinity.primary = s.pair.producer) && decide (p.blockCount = c.blockCount)
    && decide (p.split = c.split) && decide (p.stream = c.stream)

/-- Whether there is an edge with these ends and this pair. -/
def hasEdge (g : Graph) (producer consumer : Nat) (pair : DomainPair) : Bool :=
  g.edges.any fun e => e.producer == producer && e.consumer == consumer && decide (e.pair = pair)

/-- Adds an edge. It needs no synchronization only if that is asked for and can be shown. -/
def addEdge (g : Graph) (s : EdgeSpec) : Graph × Except Error Nat :=
  if g.size ≤ s.producer then (g, .error (.malformedGraph (.unknownOperator s.producer)))
  else if g.size ≤ s.consumer then (g, .error (.malformedGraph (.unknownOperator s.consumer)))
  else if g.hasEdge s.producer s.consumer s.pair then
    (g, .error (.malformedGraph (.repeatedEdge s.producer s.consumer s.pair)))
  else
    let new : Edge := {
      id := g.edges.length
      producer := s.producer
      consumer := s.consumer
      pair := s.pair
      origin := s.origin
      explicitSync := !(s.unitLocal && g.sameUnits s) }
    ({ g with edges := g.edges ++ [new] }, .ok new.id)

/-- The operators in order, if every edge points forward. -/
def order (g : Graph) : Except Error (List Operator) :=
  match g.edges.find? fun e => decide (e.consumer ≤ e.producer) with
  | some e => .error (.malformedGraph
      (.backwardEdge e (g.operator e.producer).name (g.operator e.consumer).name))
  | none => .ok g.operators

end Graph

end KernelFusion
