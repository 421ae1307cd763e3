import KernelFusion.Schedule.Check

/-!
The check that every ready lock has one writer at a time.

The lock of a dynamic operator is a slot of its own. The operator is resolved, called and gives the
lock back, each once and in this order, and all units meet between the call and the release.
-/

namespace KernelFusion.Ownership

/-- The operator has a ready lock of its own, other than those seen before. -/
def checkCell (t : Table) (seen : List Nat) (o : Operator) (op : Nat) : Except Error Nat :=
  match (t.operator op).dynamic with
  | none => .error (.unresolvedDynamic o.name .noCells)
  | some cells =>
    if seen.contains cells.readyLock then
      .error (.unresolvedDynamic o.name (.sharedSlot cells.readyLock))
    else if t.slots[cells.readyLock]? = some (.readyLock o.name) then .ok cells.readyLock
    else .error (.unresolvedDynamic o.name (.foreignSlot cells.readyLock))

/-- Whether a step is the given one in the life of an operator's lock. -/
def isStep (op : Nat) : LockStep → Step → Bool
  | .resolve, .dynamicResolve o => o == op
  | .invoke, .invoke o => o == op
  | .reset, .lockReset o => o == op
  | _, _ => false

/-- Position of a step that has to be there once. -/
def only (steps : List Step) (o : Operator) (op : Nat) (step : LockStep) : Except Error Nat :=
  match Schedule.positions (isStep op step) steps with
  | [i] => .ok i
  | [] => .error (.unresolvedDynamic o.name (.missingStep step))
  | is => .error (.unresolvedDynamic o.name (.repeatedStep is.length step))

def checkSteps (steps : List Step) (o : Operator) (op : Nat) : Except Error Unit := do
  let resolve ← only steps o op .resolve
  let invoke ← only steps o op .invoke
  let reset ← only steps o op .reset
  if ¬(resolve < invoke ∧ invoke < reset) then throw (.unresolvedDynamic o.name .outOfOrder)
  if !(Schedule.span steps invoke reset).any Step.isFullBarrier then
    throw (.unresolvedDynamic o.name .earlyReset)

/-- Checks operators that stand from a position on. -/
def checkFrom (t : Table) (steps : List Step) : List Nat → Nat → List Operator → Except Error Unit
  | _, _, [] => .ok ()
  | seen, op, o :: os =>
    if o.isDynamic then do
      let lock ← checkCell t seen o op
      checkSteps steps o op
      checkFrom t steps (lock :: seen) (op + 1) os
    else checkFrom t steps seen (op + 1) os

def check (g : Graph) (t : Table) (steps : List Step) : Except Error Unit :=
  checkFrom t steps [] 0 g.operators

end KernelFusion.Ownership
