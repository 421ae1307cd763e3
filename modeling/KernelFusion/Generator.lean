import KernelFusion.Device.Source
import KernelFusion.Graph.Connect
import KernelFusion.Launch.Defines
import KernelFusion.Schedule.Ownership
import KernelFusion.Schedule.SingleStream
import KernelFusion.Schedule.TwoStream

/-!
From a request to a fused kernel.

A request is read, checked and resolved into a launch; the launch is scheduled; the schedule is
checked; only then is device code written. The same request always gives the same kernel.
-/

namespace KernelFusion

/-- All that a build needs of a fused kernel. -/
structure FusedKernel where
  kernelName : String
  entrySymbol : String
  source : String
  record : MixRecord
  table : Table
  defines : List String
  mode : ScheduleMode
  kernelType : KernelType
  blockDim : Nat
  /-- bytes that the host has to bind to the workspace slot -/
  workspaceBytes : UInt64
  sync : SyncStats

namespace Generator

/-- The hardware of a request, where options do not say otherwise. -/
def units (r : Request) (o : Options) : Units :=
  ⟨o.cubeUnits.getD r.hardware.cubeUnits.toNat, o.vectorUnits.getD r.hardware.vectorUnits.toNat⟩

/-- The graph of operators with their events. -/
def graph (u : Units) (ops : List Operator) (p : EventPlan) : Except Error Graph :=
  match EventPlan.andThen ((Graph.empty u).addOperators ops) p.connect with
  | (_, some e) => .error e
  | (g, none) => do
    let _ ← g.order
    return g

/-- Only a schedule on one stream uses the handshake. -/
def usesHandshake (o : Options) (p : EventPlan) : Bool :=
  o.earlyStart.isEnabled && decide (p.mode = .singleStream)

def launchOf (r : Request) (o : Options) (g : Graph) (p : EventPlan) (s : LaunchShape) : Launch where
  kernelName := r.kernelName
  options := o
  graph := g
  events := p
  table := .assign g p s.needsWorkspace o.profiling
  shape := s
  earlyStart := usesHandshake o p

/-- The shape of a launch. -/
def shape (ops : List Operator) (o : Options) : Except Error LaunchShape :=
  match LaunchShape.of ops o.feedSyncAll with
  | some s => .ok s
  | none => .error .unboundedSizing

/-- The launch of a request. -/
def launch (r : Request) : Except Error Launch := do
  let o ← Options.parse r.options
  r.check
  let ops ← Operator.ofDescriptors o (units r o) 0 r.operators
  let p ← EventPlan.analyze ops o.streamFusion
  let s ← shape ops o
  let g ← graph (units r o) ops p
  return launchOf r o g p s

/-- The step lists of a launch on two streams. -/
def streamSteps (p : TwoStream) : StreamSteps := ⟨p.steps .cube, p.steps .vector⟩

/-- The schedule of a launch, checked. -/
def schedule (l : Launch) : Except Error (KernelBody × SyncStats) :=
  match l.events.mode with
  | .singleStream => do
    let steps ← SingleStream.build l
    let sync ← Schedule.verify l.graph steps
    Ownership.check l.graph l.table steps
    return (.singleStream steps, sync)
  | .twoStream => do
    let steps := streamSteps (← TwoStream.plan l)
    let sync ← steps.verify l.graph
    return (.twoStream steps, sync)

/-- The kernel of a launch with its schedule. -/
def kernel (l : Launch) (body : KernelBody) (sync : SyncStats) : FusedKernel where
  kernelName := l.kernelName
  entrySymbol := Source.entrySymbol l.kernelName
  source := (Source.code l body).render
  record := .ofKernel (Source.entrySymbol l.kernelName) l.shape.kernelType
  table := l.table
  defines := l.defines
  mode := l.events.mode
  kernelType := l.shape.kernelType
  blockDim := l.shape.blockDim
  workspaceBytes := l.shape.workspaceBytes
  sync := sync

/-- The fused kernel of a request. -/
def generate (r : Request) : Except Error FusedKernel := do
  let l ← launch r
  let (body, sync) ← schedule l
  return kernel l body sync

end Generator

end KernelFusion
