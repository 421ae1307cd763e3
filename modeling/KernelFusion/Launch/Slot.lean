import KernelFusion.Json.Decode
import KernelFusion.Json.Printer

/-!
What a slot of the parameter table holds.

Slots come in classes; a table lists them class by class. In JSON a slot is a record tagged by
`kind`.
-/

namespace KernelFusion

inductive Slot where
  | syncController
  | argument (operator name : String)
  | notifyLock (operator : String) (event : UInt32)
  | waitLock (operator : String) (event : UInt32)
  | tilingKey (operator : String)
  | blockCount (operator : String)
  | readyLock (operator : String)
  | workspace
  | profilingRegion
  | taskId
  deriving DecidableEq

namespace Slot

/-- Class of a slot; lower classes come first. -/
def rank : Slot → Nat
  | .syncController => 0
  | .argument .. => 1
  | .notifyLock .. => 2
  | .waitLock .. => 2
  | .tilingKey .. => 3
  | .blockCount .. => 3
  | .readyLock .. => 3
  | .workspace => 4
  | .profilingRegion => 5
  | .taskId => 6

/-- Whether the slot is a cell that is set once in a launch. -/
def isLock : Slot → Bool
  | .notifyLock .. => true
  | .waitLock .. => true
  | .readyLock .. => true
  | _ => false

def kind : Slot → String
  | .syncController => "sync_controller"
  | .argument .. => "operator_argument"
  | .notifyLock .. => "notify_lock"
  | .waitLock .. => "wait_lock"
  | .tilingKey .. => "dynamic_tiling_key"
  | .blockCount .. => "dynamic_block_count"
  | .readyLock .. => "dynamic_ready_lock"
  | .workspace => "workspace"
  | .profilingRegion => "profiling_region"
  | .taskId => "task_id"

/-- The members beside the kind. -/
def members : Slot → List (String × Json)
  | .argument operator name => [("operator", .text operator), ("name", .text name)]
  | .notifyLock operator event => [("operator", .text operator), ("event", .nat event.toNat)]
  | .waitLock operator event => [("operator", .text operator), ("event", .nat event.toNat)]
  | .tilingKey operator => [("operator", .text operator)]
  | .blockCount operator => [("operator", .text operator)]
  | .readyLock operator => [("operator", .text operator)]
  | _ => []

def toJson (s : Slot) : Json := .record (("kind", .text s.kind) :: s.members)

/-- A slot with no members of its own. Members that it does not know are passed over; an array of
fields has to be empty. -/
def plain? (s : Slot) : Json → Option Slot
  | .obj _ => some s
  | .arr [] => some s
  | _ => none

/-- A slot that names its operator only. -/
def named? (make : String → Slot) (v : Json) : Option Slot := do
  match ← v.fields? ["operator"] with
  | [operator] => return make (← Json.required Json.text? operator)
  | _ => none

/-- A lock of an operator's event. -/
def lock? (make : String → UInt32 → Slot) (v : Json) : Option Slot := do
  match ← v.fields? ["operator", "event"] with
  | [operator, event] =>
    return make (← Json.required Json.text? operator) (← Json.required Json.word32? event)
  | _ => none

def argument? (v : Json) : Option Slot := do
  match ← v.fields? ["operator", "name"] with
  | [operator, name] =>
    return .argument (← Json.required Json.text? operator) (← Json.required Json.text? name)
  | _ => none

/-- A slot of a kind from its other members. -/
def ofKind? (kind : String) (v : Json) : Option Slot :=
  match kind with
  | "sync_controller" => plain? .syncController v
  | "operator_argument" => argument? v
  | "notify_lock" => lock? .notifyLock v
  | "wait_lock" => lock? .waitLock v
  | "dynamic_tiling_key" => named? .tilingKey v
  | "dynamic_block_count" => named? .blockCount v
  | "dynamic_ready_lock" => named? .readyLock v
  | "workspace" => plain? .workspace v
  | "profiling_region" => plain? .profilingRegion v
  | "task_id" => plain? .taskId v
  | _ => none

def ofJson? (v : Json) : Option Slot := do
  let (kind, members) ← v.tagged? "kind"
  ofKind? kind members

def parse? (s : String) : Option Slot := Json.parse? s >>= ofJson?

end Slot

end KernelFusion
