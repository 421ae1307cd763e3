import KernelFusion.Schedule.Step

/-!
The check of a single-stream schedule.

A walk over the steps follows the flags: a flag carries one edge at a time and is waited for by that
edge. Afterwards every edge that needs synchronization has to be realized, either by its signal and
its wait, in this order between the calls of its ends, or by a barrier there.
-/

namespace KernelFusion

/-- Counts of a schedule that was accepted. -/
structure SyncStats where
  fullBarriers : Nat
  domainBarriers : Nat
  signalPairs : Nat
  deriving DecidableEq

namespace Schedule

/-- Positions of the steps that satisfy a test. -/
def positions (test : Step → Bool) (steps : List Step) : List Nat :=
  (steps.zipIdx.filter fun s => test s.1).map Prod.snd

/-- The steps from one position up to another. -/
def span (steps : List Step) (first last : Nat) : List Step := (steps.take last).drop first

/-- Position of the first call of an operator. -/
def invocation (steps : List Step) (op : Nat) : Except Error Nat :=
  match steps.findIdx? (Step.isInvokeOf op) with
  | some i => .ok i
  | none => .error (.malformedGraph (.neverInvoked op))

/-! ### Flags -/

/-- The flags that are raised, each with its edge. -/
abbrev LiveFlags := List (Flag × Nat)

def holder (live : LiveFlags) (flag : Flag) : Option Nat :=
  (live.find? fun h => decide (h.1 = flag)).map Prod.snd

def follow (g : Graph) (live : LiveFlags) : Step → Except Error LiveFlags
  | .signal edge _ _ flag =>
    match holder live flag with
    | some held => .error (.unmatchedWait (g.edge edge) (.stillHeld flag (g.edge held)))
    | none => .ok ((flag, edge) :: live)
  | .wait edge _ flag =>
    match holder live flag with
    | some held =>
      if held = edge then .ok (live.filter fun h => decide (h.1 ≠ flag))
      else .error (.unmatchedWait (g.edge edge) (.carriesOther flag (g.edge held)))
    | none => .error (.unmatchedWait (g.edge edge) (.neverSignalled flag))
  | _ => .ok live

def followAll (g : Graph) : LiveFlags → List Step → Except Error LiveFlags
  | live, [] => .ok live
  | live, s :: ss => do followAll g (← follow g live s) ss

/-- The lowest of the flags that are raised. -/
def lowest (live : LiveFlags) : Option (Flag × Nat) :=
  live.find? fun h => live.all fun o => h.1.le o.1

/-- No flag is left raised. -/
def checkFlags (g : Graph) (steps : List Step) : Except Error Unit := do
  match lowest (← followAll g [] steps) with
  | some (flag, edge) => throw (.unmatchedWait (g.edge edge) (.neverConsumed flag))
  | none => return ()

/-! ### Edges -/

/-- A barrier that realizes an edge by itself. -/
def isBarrierFor (e : Edge) (s : Step) : Bool :=
  s.isFullBarrier || (!e.pair.isCross && s.meets e.pair.producer)

/-- Realization of an edge whose ends are called at `producer` and `consumer`. -/
def checkRealized (steps : List Step) (e : Edge) (producer consumer : Nat)
    (signals waits : List Nat) : Except Error Unit :=
  match signals, waits with
  | [s], [w] =>
    if producer < s ∧ s < w ∧ w < consumer then .ok ()
    else .error (.unmatchedWait e .outOfOrder)
  | [], [] =>
    if consumer < producer then .error (.reversedSpan e)
    else if (span steps producer consumer).any (isBarrierFor e) then .ok ()
    else .error (.unmatchedWait e .notRealized)
  | _, _ => .error (.unmatchedWait e .notOnce)

def checkEdge (steps : List Step) (e : Edge) : Except Error Unit :=
  let signals := positions (Step.isSignalOf e.id) steps
  let waits := positions (Step.isWaitOf e.id) steps
  if e.explicitSync then do
    let producer ← invocation steps e.producer
    let consumer ← invocation steps e.consumer
    checkRealized steps e producer consumer signals waits
  else if signals.isEmpty && waits.isEmpty then .ok ()
  else .error (.unmatchedWait e .signalOnUnitLocal)

def stats (steps : List Step) : SyncStats :=
  ⟨steps.countP Step.isFullBarrier, steps.countP Step.isDomainBarrier, steps.countP Step.isWait⟩

/-- Accepts a schedule that realizes every edge of the graph. -/
def verify (g : Graph) (steps : List Step) : Except Error SyncStats := do
  checkFlags g steps
  g.edges.forM (checkEdge steps)
  return stats steps

end Schedule

end KernelFusion
