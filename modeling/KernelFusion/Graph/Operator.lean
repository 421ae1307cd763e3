import KernelFusion.Request.Check
import KernelFusion.Request.Options

/-!
Operators as the graph holds them: a descriptor resolved against options and hardware.
-/

namespace KernelFusion

/-- Units of each domain that the hardware has. -/
structure Units where
  cube : Nat
  vector : Nat
  deriving DecidableEq

def Units.get (u : Units) : Domain → Nat
  | .cube => u.cube
  | .vector => u.vector

/-- The largest number that a count of units can have. -/
def maxUnits : Nat := UInt32.size - 1

/-- Twice a number of units, or the largest number. -/
def doubleUnits (n : Nat) : Nat := min (2 * n) maxUnits

/-- A tiling case with its kernel type resolved. -/
structure TilingEntry where
  key : Nat
  kernelType : KernelType
  functions : FunctionNames
  deriving DecidableEq, Inhabited

/-- How the code of an operator is chosen. -/
inductive Dispatch where
  | static
  /-- at launch, by the key of one of these entries -/
  | dynamic (table : List TilingEntry)
  deriving DecidableEq, Inhabited

/-- Flushes of the whole cache around a call. -/
structure CacheFlags where
  before : Bool
  after : Bool
  deriving DecidableEq, Inhabited

structure Operator where
  name : String
  kernelType : KernelType
  blockCount : Nat
  /-- number of code variants -/
  split : Nat
  dispatch : Dispatch
  stream : UInt32
  params : List String
  functions : FunctionNames
  textSize : TextSize
  sendEvents : List UInt32
  recvEvents : List UInt32
  earlyStart : EarlyStartFlags
  cache : CacheFlags
  withSyncAll : Bool
  dump : Bool
  debugBufSize : Nat
  debugOptions : String
  /-- hint that the work stays on the units of the operator before -/
  unitLocal : Bool
  deriving DecidableEq, Inhabited

namespace Operator

def affinity (o : Operator) : Affinity := o.kernelType.affinity

def isDynamic (o : Operator) : Bool :=
  match o.dispatch with
  | .static => false
  | .dynamic _ => true

def tiling (o : Operator) : List TilingEntry :=
  match o.dispatch with
  | .static => []
  | .dynamic table => table

/-- Units of a domain that the operator occupies. -/
def requiredUnits (o : Operator) (d : Domain) : Nat :=
  if o.affinity.contains d then
    match o.kernelType, d with
    | .mixAic12, .vector => doubleUnits o.blockCount
    | _, _ => o.blockCount
  else 0

/-- The domain whose block 0 handles the operator's outer events. -/
def eventDomain (o : Operator) : Domain :=
  match o.affinity with
  | .cubeOnly => .cube
  | .vectorOnly => .vector
  | .mixed => .vector

/-! ### From a descriptor -/

def checkSplit (o : OperatorDescriptor) (options : Options) : Except Error Unit :=
  match o.splitMode with
  | some split =>
    if split.toNat = options.splitMode then .ok ()
    else .error (.invalidOperator o.name (.splitDiffers split.toNat options.splitMode))
  | none => .ok ()

/-- Operators may take part in the handshake themselves only if it is enabled and they are static. -/
def checkEarlyStart (o : OperatorDescriptor) (options : Options) : Except Error Unit :=
  if o.earlyStart.set || o.earlyStart.wait then
    if !options.earlyStart.isEnabled then
      .error (.invalidOperator o.name (.earlyStartDisabled o.earlyStart.set o.earlyStart.wait))
    else if o.isDynamic then .error (.invalidOperator o.name .earlyStartOnDynamic)
    else .ok ()
  else .ok ()

def tilingEntry (operator : String) (c : TilingCase) : Except Error TilingEntry := do
  return ⟨c.tilingKey.toNat, ← resolveType operator c.kernelType, c.functions⟩

/-- Table entries in the order of their keys. -/
def sortEntries (entries : List TilingEntry) : List TilingEntry :=
  entries.mergeSort fun a b => decide (a.key ≤ b.key)

/-- A dynamic operator spans all units of its primary domain until it is resolved. -/
def dispatchOf (o : OperatorDescriptor) (t : KernelType) (units : Units) :
    Except Error (Dispatch × Nat) :=
  if o.isDynamic then do
    let entries ← o.tiling.mapM (tilingEntry o.name)
    return (.dynamic (sortEntries entries), units.get t.affinity.primary)
  else .ok (.static, o.blockDim.toNat)

/-- Flushes that the operator or the options ask for, unless one of them forbids them. -/
def cacheFlags (o : OperatorDescriptor) (options : Options) : CacheFlags :=
  let allowed := !(o.flushNever || options.flushNever.contains o.name)
  ⟨allowed && (o.flushBefore || options.flushBefore.contains o.name),
   allowed && (o.flushAfter || options.flushAfter.contains o.name)⟩

/-- Resolves the operator at a position of the request. -/
def ofDescriptor (options : Options) (units : Units) (index : Nat) (o : OperatorDescriptor) :
    Except Error Operator := do
  let kernelType ← o.resolvedType
  checkSplit o options
  checkEarlyStart o options
  let (dispatch, blockCount) ← dispatchOf o kernelType units
  return {
    name := o.name
    kernelType := kernelType
    blockCount := blockCount
    split := options.splitMode
    dispatch := dispatch
    stream := o.streamId
    params := o.params.map fun p => s!"{p}_{index}"
    functions := o.functions
    textSize := o.textSize
    sendEvents := o.sendEvents
    recvEvents := o.recvEvents
    earlyStart := if options.earlyStart.honorsFlags then o.earlyStart else ⟨false, false⟩
    cache := cacheFlags o options
    withSyncAll := o.withSyncAll
    dump := o.needsDump
    debugBufSize := o.debugBufSize.toNat
    debugOptions := o.debugOptions
    unitLocal := o.unitLocal }

/-- Resolves operators that stand from a position on. -/
def ofDescriptors (options : Options) (units : Units) :
    Nat → List OperatorDescriptor → Except Error (List Operator)
  | _, [] => .ok []
  | index, o :: os => do
    let first ← ofDescriptor options units index o
    return first :: (← ofDescriptors options units (index + 1) os)

end Operator

end KernelFusion
