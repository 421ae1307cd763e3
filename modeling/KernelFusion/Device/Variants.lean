import KernelFusion.Device.Code

/-!
Choice of the code variant that a unit runs.

An operator that was compiled in several variants has interchangeable copies of its code. A unit that
is one of the operator's blocks runs the copy given by its core number. `RoutingRule.route` is that
decision as a function; `Guarded.code` is the device code that makes it.
-/

namespace KernelFusion

/-- A unit as the choice sees it. -/
structure PhysicalUnit where
  domain : Domain
  blockIndex : Nat
  coreId : Nat
  deriving DecidableEq

inductive Route where
  /-- the unit runs nothing -/
  | skip
  | variant (i : Nat)
  deriving DecidableEq

/-- Which units run an operator in a domain, and in how many variants. -/
structure RoutingRule where
  domain : Domain
  blockCount : Nat
  split : Nat
  deriving DecidableEq

namespace RoutingRule

/-- A rule with at least one variant. -/
def make (domain : Domain) (blockCount split : Nat) : RoutingRule :=
  ⟨domain, blockCount, max split 1⟩

def route (r : RoutingRule) (u : PhysicalUnit) : Route :=
  if u.domain ≠ r.domain ∨ r.blockCount ≤ u.blockIndex then .skip
  else .variant (u.coreId % r.split)

end RoutingRule

/-! ### Device code -/

/-- A variant's statement with what follows it in every variant. -/
def variantBody (tail : Option Stmt) (s : Stmt) : Code := .stmts (s :: tail.toList)

/-- The branches for the variants from `i` on; the last one needs no test. -/
def variantArms (split : Nat) (tail : Option Stmt) : Nat → List Stmt → Arms
  | _, [] => .none
  | _, [s] => .otherwise (variantBody tail s)
  | i, s :: ss => .orWhen (.coreIs split i) (variantBody tail s) (variantArms split tail (i + 1) ss)

/-- The choice among the statements of all variants by the core number. -/
def variantChain (variants : List Stmt) (tail : Option Stmt) : Code :=
  match variants with
  | [] => .stmts tail.toList
  | [s] => variantBody tail s
  | s :: ss =>
    .line .readCore (.choose (.coreIs variants.length 0) (variantBody tail s)
      (variantArms variants.length tail 1 ss) .done)

/-- Statements for the blocks of an operator in a domain. -/
structure Guarded where
  domain : Domain
  index : BlockIndex
  limit : Limit
  /-- one statement for each variant -/
  variants : List Stmt
  /-- around the choice, on all units of the domain -/
  before : List Stmt
  after : List Stmt
  /-- behind the statement of every variant -/
  tail : Option Stmt
  /-- on the units that are no block of the operator -/
  complement : Option Stmt

namespace Guarded

def make (domain : Domain) (index : BlockIndex) (limit : Limit) (variants : List Stmt) : Guarded :=
  ⟨domain, index, limit, variants, [], [], none, none⟩

/-- The part on the units of the domain. -/
def gate (g : Guarded) : Code :=
  let chain := variantChain g.variants g.tail
  match g.complement with
  | some s => .either (.blockBelow g.index g.limit) chain (.stmt s)
  | none => .when (.blockBelow g.index g.limit) chain

/-- The whole; code that runs in that domain alone needs no test of the domain. -/
def code (g : Guarded) (arch : Option Domain) : Code :=
  let body := .stmts g.before ++ g.gate ++ .stmts g.after
  (if arch = some g.domain then body else .when (.onDomain g.domain) body) ++ .empty

end Guarded

end KernelFusion
