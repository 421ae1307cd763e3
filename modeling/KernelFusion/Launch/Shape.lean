import KernelFusion.Graph.Operator

/-!
The shape of a launch: the kernel type and block count that cover all operators, and what the entry
point has to set up for them.
-/

namespace KernelFusion

structure LaunchShape where
  kernelType : KernelType
  blockDim : Nat
  maxCube : Nat
  maxVector : Nat
  /-- some operator dumps or logs -/
  dump : Bool
  /-- debug options of the operators that dump, each once, in the order of their first use -/
  debugOptions : List String
  debugBufSize : Nat
  /-- bytes of the area that feeds the operators' own barriers; zero without that feature -/
  feedSyncBytes : Nat
  operatorCount : Nat
  deriving DecidableEq

namespace LaunchShape

/-- Kernel type and block count from the types that occur, as an or of their flags, and the most
units that an operator needs in each domain. -/
def resolve (flags maxCube maxVector : Nat) : KernelType × Nat :=
  match flags with
  | 1 => (.mixAiv10, maxVector)
  | 4 => (.mixAiv10, maxVector)
  | 5 => (.mixAiv10, maxVector)
  | 2 => (.mixAic10, maxCube)
  | 8 => (.mixAic10, maxCube)
  | 10 => (.mixAic10, maxCube)
  | 16 => (.mixAic11, maxCube)
  | _ =>
    if maxVector ≤ maxCube then (.mixAic11, maxCube)
    else (.mixAic12, max maxCube ((maxVector + 1) / 2))

/-! ### The area for the operators' own barriers -/

/-- Bytes of a slice of that area before it is grown. -/
def feedBase : Nat := 512

/-- Bytes that every operator has to have in that area. -/
def feedPerOperator : Nat := 128

/-- Doubles a slice until `units` slices hold more than `needed` bytes. There is no result where they never
do: slices of no units hold nothing, however often they are doubled. -/
def growSlice (units needed slice : Nat) : Option Nat :=
  if h : units * slice ≤ needed then
    if pos : 0 < units * slice then growSlice units needed (2 * slice) else none
  else some slice
termination_by needed + 1 - units * slice
decreasing_by
  have double : units * (2 * slice) = 2 * (units * slice) := by
    rw [Nat.mul_left_comm]
  omega

/-- Units that share the area. -/
def feedUnits (t : KernelType) (blockDim : Nat) : Nat :=
  match t with
  | .mixAic12 => 2 * blockDim
  | _ => blockDim

/-- Bytes of the area for a launch. -/
def feedBytes (t : KernelType) (blockDim operators : Nat) : Option Nat :=
  (growSlice (feedUnits t blockDim) (operators * feedPerOperator) feedBase).map
    (feedUnits t blockDim * ·)

/-! ### The shape of a list of operators -/

/-- The most units of a domain that one operator needs. -/
def maxUnitsOf (ops : List Operator) (d : Domain) : Nat :=
  ops.foldl (fun n o => max n (o.requiredUnits d)) 0

def flagsOf (ops : List Operator) : Nat := ops.foldl (fun n o => n ||| o.kernelType.flag) 0

/-- Kernel type and block count of a list of operators. -/
def blocksOf (ops : List Operator) : KernelType × Nat :=
  resolve (flagsOf ops) (maxUnitsOf ops .cube) (maxUnitsOf ops .vector)

/-- The shape of a list of operators whose barriers are fed from so many bytes. -/
def fedBy (ops : List Operator) (feedSyncBytes : Nat) : LaunchShape :=
  let dumping := ops.filter Operator.dump
  { kernelType := (blocksOf ops).1
    blockDim := (blocksOf ops).2
    maxCube := maxUnitsOf ops .cube
    maxVector := maxUnitsOf ops .vector
    dump := !dumping.isEmpty
    debugOptions := (dumping.flatMap fun o => Text.entries ',' o.debugOptions).eraseDups
    debugBufSize := dumping.foldl (fun n o => max n o.debugBufSize) 0
    feedSyncBytes := feedSyncBytes
    operatorCount := ops.length }

/-- The shape of a list of operators, unless the area for their barriers has no size. -/
def of (ops : List Operator) (feedSyncAll : Bool) : Option LaunchShape :=
  if feedSyncAll then (feedBytes (blocksOf ops).1 (blocksOf ops).2 ops.length).map (fedBy ops)
  else some (fedBy ops 0)

/-- Whether the entry point binds a workspace. -/
def needsWorkspace (s : LaunchShape) : Bool := s.dump || decide (0 < s.feedSyncBytes)

/-- Bytes of a unit's dump area where no operator asks for a size. -/
def defaultDump : Nat := 1024 * 1024

def dumpSize (s : LaunchShape) : Nat := if 0 < s.debugBufSize then s.debugBufSize else defaultDump

/-- Whether an operator with a barrier of its own runs on fewer units than the launch has. -/
def feeds (s : LaunchShape) (o : Operator) : Bool :=
  if !o.withSyncAll then false
  else if s.blockDim = o.blockCount ∧ s.kernelType = o.kernelType then false
  else match s.kernelType with
    | .mixAic10 => decide (o.blockCount < s.blockDim)
    | .mixAiv10 => decide (o.blockCount < s.blockDim)
    | .mixAic11 => decide (o.blockCount < s.blockDim)
    | _ => match o.affinity with
      | .vectorOnly => decide (o.blockCount < doubleUnits s.blockDim)
      | _ => decide (o.blockCount < s.blockDim)

/-- Bytes of the whole workspace: the area for barriers, then a dump area for every unit. They are counted
in 64 bits, of which none shows that more would have been needed. -/
def workspaceBytes (s : LaunchShape) : UInt64 :=
  if s.dump then
    .ofNat s.feedSyncBytes
      + .ofNat s.dumpSize * .ofNat s.blockDim * .ofNat (s.kernelType.ratio.1 + s.kernelType.ratio.2)
  else .ofNat s.feedSyncBytes

end LaunchShape

end KernelFusion
