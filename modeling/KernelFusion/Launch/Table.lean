import KernelFusion.Graph.EventPlan
import KernelFusion.Graph.Store
import KernelFusion.Launch.Slot

/-!
The parameter table of a launch.

Slot 0 is the controller. Behind it stand the arguments of all operators, their event locks, the
cells of the dynamic ones, the workspace, and the two profiling slots. The table also records, for
every operator, where its own slots are.
-/

namespace KernelFusion

/-- Cells of a dynamic operator. -/
structure DynamicSlots where
  tilingKey : Nat
  blockCount : Nat
  readyLock : Nat
  deriving DecidableEq

/-- Slots of an operator; locks are pairs of an event and its slot. -/
structure OperatorSlots where
  argsOffset : Nat
  notify : List (UInt32 × Nat)
  wait : List (UInt32 × Nat)
  dynamic : Option DynamicSlots
  deriving DecidableEq, Inhabited

structure Table where
  slots : List Slot
  operators : List OperatorSlots
  workspace : Option Nat
  profiling : Option Nat
  taskId : Option Nat
  deriving DecidableEq

namespace Table

/-- What one operator brings into the table. -/
structure Entry where
  name : String
  params : List String
  sends : List UInt32
  recvs : List UInt32
  isDynamic : Bool

/-- The entries of a graph's operators, with their outer events. -/
def entries (p : EventPlan) : Nat → List Operator → List Entry
  | _, [] => []
  | i, o :: os => ⟨o.name, o.params, p.sends i, p.recvs i, o.isDynamic⟩ :: entries p (i + 1) os

/-! ### Slots, class by class -/

def argumentSlots (e : Entry) : List Slot := e.params.map fun name => .argument e.name name

def lockSlots (e : Entry) : List Slot :=
  e.sends.map (fun id => .notifyLock e.name id) ++ e.recvs.map fun id => .waitLock e.name id

def dynamicSlots (e : Entry) : List Slot :=
  if e.isDynamic then [.tilingKey e.name, .blockCount e.name, .readyLock e.name] else []

/-! ### Where they are, from a slot on -/

def argumentBases : Nat → List Entry → List Nat
  | _, [] => []
  | base, e :: es => base :: argumentBases (base + e.params.length) es

def lockBases : Nat → List Entry → List (List (UInt32 × Nat) × List (UInt32 × Nat))
  | _, [] => []
  | base, e :: es =>
    (e.sends.zipIdx base, e.recvs.zipIdx (base + e.sends.length))
      :: lockBases (base + e.sends.length + e.recvs.length) es

def dynamicBases : Nat → List Entry → List (Option DynamicSlots)
  | _, [] => []
  | base, e :: es =>
    if e.isDynamic then some ⟨base, base + 1, base + 2⟩ :: dynamicBases (base + 3) es
    else none :: dynamicBases base es

/-- The slots of each operator from its three parts. -/
def operatorSlots : List Nat → List (List (UInt32 × Nat) × List (UInt32 × Nat)) →
    List (Option DynamicSlots) → List OperatorSlots
  | a :: as, l :: ls, d :: ds => ⟨a, l.1, l.2, d⟩ :: operatorSlots as ls ds
  | _, _, _ => []

/-- The table of a graph. -/
def assign (g : Graph) (p : EventPlan) (workspace profiling : Bool) : Table :=
  let es := entries p 0 g.operators
  let arguments := es.flatMap argumentSlots
  let locks := es.flatMap lockSlots
  let cells := es.flatMap dynamicSlots
  let lockBase := 1 + arguments.length
  let cellBase := lockBase + locks.length
  let workspaceBase := cellBase + cells.length
  let profilingBase := workspaceBase + (if workspace then 1 else 0)
  { slots := .syncController :: (arguments ++ locks ++ cells
      ++ (if workspace then [.workspace] else [])
      ++ (if profiling then [.profilingRegion, .taskId] else []))
    operators := operatorSlots (argumentBases 1 es) (lockBases lockBase es)
      (dynamicBases cellBase es)
    workspace := if workspace then some workspaceBase else none
    profiling := if profiling then some profilingBase else none
    taskId := if profiling then some (profilingBase + 1) else none }

/-! ### Reading the table -/

/-- The slot of the controller. -/
def controllerSlot : Nat := 0

def operator (t : Table) (op : Nat) : OperatorSlots := t.operators.getD op default

/-- Both profiling slots, if there are any. -/
def profilingSlots (t : Table) : Option (Nat × Nat) :=
  match t.profiling, t.taskId with
  | some region, some task => some (region, task)
  | _, _ => none

/-- Positions of the locks. -/
def lockPositions (t : Table) : List Nat :=
  (t.slots.zipIdx.filter fun s => s.1.isLock).map fun s => s.2

/-! ### The JSON form -/

def lockJson (l : UInt32 × Nat) : Json := .arr [.nat l.1.toNat, .nat l.2]

def cellsJson (d : DynamicSlots) : Json :=
  .record [("tiling_key", .nat d.tilingKey), ("block_count", .nat d.blockCount),
    ("ready_lock", .nat d.readyLock)]

def operatorJson (o : OperatorSlots) : Json :=
  .record [("args_offset", .nat o.argsOffset), ("notify", .arr (o.notify.map lockJson)),
    ("wait", .arr (o.wait.map lockJson)), ("dynamic", .optional cellsJson o.dynamic)]

def toJson (t : Table) : Json :=
  .record [("slots", .arr (t.slots.map Slot.toJson)), ("operators", .arr (t.operators.map operatorJson)),
    ("workspace", .optional .nat t.workspace), ("profiling", .optional .nat t.profiling),
    ("task_id", .optional .nat t.taskId)]

def print (t : Table) : String := t.toJson.pretty

end Table

end KernelFusion
