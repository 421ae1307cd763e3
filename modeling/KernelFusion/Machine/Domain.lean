/-!
The two engine domains of the accelerator and the set of domains that an operator occupies.
-/

namespace KernelFusion

inductive Domain where | cube | vector
  deriving DecidableEq, Inhabited

namespace Domain

/-- Both domains, cube first. -/
def all : List Domain := [.cube, .vector]

/-- Test that holds only on units of this domain. -/
def guard : Domain → String
  | .cube => "ASCEND_IS_AIC"
  | .vector => "ASCEND_IS_AIV"

/-- Tag used in symbol names. -/
def arch : Domain → String
  | .cube => "aic"
  | .vector => "aiv"

/-- Three-letter tag of a domain. -/
def syncTag : Domain → String
  | .cube => "cub"
  | .vector => "vec"

/-- Word used in messages. -/
def label : Domain → String
  | .cube => "cube"
  | .vector => "vec"

def other : Domain → Domain
  | .cube => .vector
  | .vector => .cube

end Domain

/-- Which domains an operator occupies. -/
inductive Affinity where | cubeOnly | vectorOnly | mixed
  deriving DecidableEq, Inhabited

namespace Affinity

/-- Occupied domains in the order in which they are emitted. -/
def domains : Affinity → List Domain
  | .cubeOnly => [.cube]
  | .vectorOnly => [.vector]
  | .mixed => [.cube, .vector]

def contains (a : Affinity) (d : Domain) : Bool := a.domains.contains d

/-- The domain that is emitted first. -/
def primary : Affinity → Domain
  | .vectorOnly => .vector
  | .cubeOnly => .cube
  | .mixed => .cube

end Affinity

end KernelFusion
