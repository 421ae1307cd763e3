import KernelFusion.Schedule.Rules

/-!
The schedule of a launch on one stream.

For every operator: a dynamic one is resolved, instructions are loaded ahead, the boundary with the
operator before is synchronized, the operator is called, and the lock of a dynamic one is given
back.
-/

namespace KernelFusion.SingleStream

/-- Class of the operator before in bits 2 and 3, of this one in bits 0 and 1. -/
def handshakeConfig (prev cur : Operator) : Nat :=
  prev.kernelType.earlyStartClass * 4 + cur.kernelType.earlyStartClass

/-- The handshake between two neighbours. -/
def handshake (l : Launch) (prev cur : Nat) : List Step :=
  let config := handshakeConfig (l.operator prev) (l.operator cur)
  [.earlyStartSet prev, .earlyStartConfig config, .earlyStartWait cur config]

/-- Synchronization of two neighbours. -/
def sync (l : Launch) (r : Rules) (prev cur : Nat) : Except Error (List Step × Rules) :=
  if l.earlyStart then do
    let (sends, r) ← r.producerSide l.graph prev cur
    let (waits, r) := r.consumerSide l.graph cur
    return (sends ++ (if Rules.needsSync l.graph cur then handshake l prev cur else []) ++ waits, r)
  else .ok (Rules.fullBarrier, r)

/-- Steps between two neighbours together with their outer events. -/
def withEvents (l : Launch) (prev cur : Nat) (steps : List Step) : List Step :=
  let sends := !(l.events.sends prev).isEmpty
  let recvs := !(l.events.recvs cur).isEmpty
  if recvs && sends then
    steps ++ [.notify prev, .eventWait cur, .comment "// reason3: for continues notify/wait event",
      .barrier (.covering l.shape.kernelType)]
  else (if recvs then [.eventWait cur] else []) ++ steps ++ (if sends then [.notify prev] else [])

/-- Synchronization of two neighbours together with their outer events. -/
def boundary (l : Launch) (r : Rules) (prev cur : Nat) : Except Error (List Step × Rules) := do
  let (steps, r) ← sync l r prev cur
  return (withEvents l prev cur steps, r)

/-- Waits until a dynamic operator is chosen. The first operator has nothing before it that would
bring the units together. -/
def resolveSteps (l : Launch) (op : Nat) : List Step :=
  if (l.operator op).isDynamic then
    .dynamicResolve op ::
      (if op = 0 then
        [.pipeAll, .barrier (.full "reason3: dynamic gen_switch_case_block when no pre op")]
      else [])
  else []

/-- Loads instructions: of this operator where nothing did so before, and of the next one unless it
is chosen later. -/
def preloadSteps (l : Launch) (op : Nat) : List Step :=
  if l.options.preload = .perFunc then
    (if (l.operator op).isDynamic || op = 0 then [.preload op] else [])
      ++ (if op + 1 < l.graph.size && !(l.operator (op + 1)).isDynamic then [.preload (op + 1)] else [])
  else []

/-- Gives the lock back once all units are behind the call. -/
def releaseSteps (l : Launch) (op : Nat) : List Step :=
  if (l.operator op).isDynamic then
    [.barrier (.full "reason4: all readers of the dynamic ready lock are done"), .lockReset op]
  else []

/-- What the debug options ask for behind every operator. -/
def debugSteps (l : Launch) : List Step :=
  (if l.options.debugDcciAll then [.comment "// op end debug dcci all.", .cacheFlushAll] else [])
    ++ (if l.options.debugSyncAll then
      [.comment "// op end debug sync all.", .barrier (.covering l.shape.kernelType)] else [])

def mark (l : Launch) (event : Nat) (kind : ProfilingKind) (start : Bool) : List Step :=
  if l.options.profiling then [.profile event kind start] else []

/-- All steps of an operator. -/
def operatorSteps (l : Launch) (r : Rules) (op : Nat) : Except Error (List Step × Rules) := do
  let (between, r) ← if op = 0 then .ok ([], r) else boundary l r (op - 1) op
  return (Step.beginOperator (l.operator op).name :: (resolveSteps l op ++ preloadSteps l op ++ between
    ++ (if l.options.feedSyncAll then [.feedSyncInit op] else [])
    ++ mark l (profileEvent op) .subOperator true
    ++ .invoke op :: (releaseSteps l op ++ debugSteps l
      ++ mark l (profileEvent op) .subOperator false)), r)

/-- The steps of operators one after the other. -/
def operatorsSteps (l : Launch) : Rules → List Nat → Except Error (List Step)
  | _, [] => .ok []
  | r, op :: ops => do
    let (steps, r) ← operatorSteps l r op
    let rest ← operatorsSteps l r ops
    return steps ++ rest

def openingSteps (l : Launch) : List Step :=
  (if l.options.preload = .whole then [.preloadWhole] else []) ++ mark l 0 .kernel true

def closingSteps (l : Launch) : List Step :=
  [.clearWaitLocks, .instructionCacheEpilogue] ++ mark l 0 .kernel false

/-- The schedule. -/
def build (l : Launch) : Except Error (List Step) := do
  let between ← operatorsSteps l (.initial l.earlyStart) l.ids
  return openingSteps l ++ between ++ closingSteps l

end KernelFusion.SingleStream
