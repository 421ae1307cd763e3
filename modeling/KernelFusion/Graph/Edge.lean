import KernelFusion.Machine.KernelType

/-!
Dependency edges between operators.

An edge says that work of the producer in one domain comes before work of the consumer in a domain.
Operators and edges are named by their positions.
-/

namespace KernelFusion

/-- The domains at the two ends of an edge. -/
structure DomainPair where
  producer : Domain
  consumer : Domain
  deriving DecidableEq, Inhabited

namespace DomainPair

def isCross (p : DomainPair) : Bool := decide (p.producer ≠ p.consumer)

def text (p : DomainPair) : String := s!"{p.producer.label}:{p.consumer.label}"

/-- The pairs that order one kernel type before another. A mixed operator contributes its pairs
across the domains only. -/
def between (producer consumer : KernelType) : List DomainPair :=
  match producer.affinity, consumer.affinity with
  | .mixed, .mixed => [⟨.cube, .vector⟩, ⟨.vector, .cube⟩]
  | .mixed, .cubeOnly => [⟨.vector, .cube⟩]
  | .mixed, .vectorOnly => [⟨.cube, .vector⟩]
  | .cubeOnly, .mixed => [⟨.cube, .vector⟩]
  | .vectorOnly, .mixed => [⟨.vector, .cube⟩]
  | p, c => [⟨p.primary, c.primary⟩]

end DomainPair

/-- Why an edge exists. -/
inductive EdgeOrigin where
  /-- order of neighbours on one stream -/
  | sequence
  /-- an event that one operator sends and a later one receives -/
  | event (id : UInt32)
  /-- a mixed operator hands its outgoing event on to its successor on another stream -/
  | handoff
  deriving DecidableEq, Inhabited

structure Edge where
  id : Nat
  producer : Nat
  consumer : Nat
  pair : DomainPair
  origin : EdgeOrigin
  /-- false only where both ends run on the same unit in program order -/
  explicitSync : Bool
  deriving DecidableEq, Inhabited

/-- Name of an operator in messages. -/
def operatorTag (id : Nat) : String := s!"#{id}"

def Edge.text (e : Edge) : String :=
  s!"{operatorTag e.producer} -> {operatorTag e.consumer} ({e.pair.text})"

/-- An edge that needs synchronization and crosses the domains. -/
def Edge.needsSignal (e : Edge) : Bool := e.explicitSync && e.pair.isCross

end KernelFusion
