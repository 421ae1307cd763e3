import KernelFusion.Schedule.Check

/-!
The check of a two-stream schedule.

Both lists reach the same number of full barriers. Each direction has one flag, and its waits follow
its signals in order. Every edge that needs synchronization is realized by a barrier, or by a signal
behind a barrier; the signal may be the one of another edge of the same pair.
-/

namespace KernelFusion

/-- The step lists of the two domains. -/
structure StreamSteps where
  cube : List Step
  vector : List Step

namespace StreamSteps

def get (s : StreamSteps) : Domain → List Step
  | .cube => s.cube
  | .vector => s.vector

def checkBarriers (s : StreamSteps) : Except Error Unit :=
  let cube := s.cube.countP Step.isFullBarrier
  let vector := s.vector.countP Step.isFullBarrier
  if cube = vector then .ok () else .error (.malformedGraph (.unequalBarriers cube vector))

/-! ### Signals and waits of a direction -/

/-- Edge and flag of a signal. -/
def signalled? : Step → Option (Nat × Flag)
  | .signal edge _ _ flag => some (edge, flag)
  | _ => none

/-- Edge and flag of a wait. -/
def awaited? : Step → Option (Nat × Flag)
  | .wait edge _ flag => some (edge, flag)
  | _ => none

/-- The edges that a domain signals, in order. -/
def signals (s : StreamSteps) (producer : Domain) : List Nat :=
  ((s.get producer).filterMap signalled?).map Prod.fst

/-- The edges that the other domain waits for on the flag of this one, in order. -/
def waits (s : StreamSteps) (producer : Domain) : List Nat :=
  (((s.get producer.other).filterMap awaited?).filter fun w =>
    decide (w.2 = Flag.ofStream producer)).map Prod.fst

/-- The edge at the first place where two sequences differ. -/
def firstDifference? : List Nat → List Nat → Option Nat
  | [], [] => none
  | [], w :: _ => some w
  | s :: _, [] => some s
  | s :: ss, w :: ws => if s = w then firstDifference? ss ws else some s

def checkDirection (g : Graph) (s : StreamSteps) (producer : Domain) : Except Error Unit :=
  let raised := (s.get producer).filterMap signalled?
  match raised.find? fun r => decide (r.2 ≠ Flag.ofStream producer) with
  | some (edge, flag) =>
    .error (.unmatchedWait (g.edge edge) (.wrongFlag flag (Flag.ofStream producer)))
  | none =>
    match firstDifference? (s.signals producer) (s.waits producer) with
    | some edge => .error (.unmatchedWait (g.edge edge) .orderDiffers)
    | none => .ok ()

/-! ### Edges -/

/-- Behind the producer's call, given the steps from there on, a domain barrier and then a signal of
the edge's pair whose wait stands before the consumer's call. -/
def isSignalled (g : Graph) (e : Edge) (behind before : List Step) : Bool :=
  behind.zipIdx.any fun (step, i) =>
    match signalled? step with
    | some (kept, _) =>
      decide ((g.edge kept).pair = e.pair) && (behind.take i).any (Step.meets e.pair.producer)
        && before.any (Step.isWaitOf kept)
    | none => false

def checkEdge (g : Graph) (s : StreamSteps) (e : Edge) : Except Error Unit := do
  let source := s.get e.pair.producer
  let target := s.get e.pair.consumer
  let producer ← Schedule.invocation source e.producer
  let consumer ← Schedule.invocation target e.consumer
  let covered :=
    if e.pair.isCross then isSignalled g e (source.drop producer) (target.take consumer)
    else decide (producer < consumer)
      && (Schedule.span source producer consumer).any (Step.meets e.pair.producer)
  if covered then return () else throw (.unmatchedWait e .notRealized)

def stats (s : StreamSteps) : SyncStats :=
  let steps := s.cube ++ s.vector
  ⟨steps.countP Step.isFullBarrier, steps.countP Step.isDomainBarrier,
    (s.signals .cube).length + (s.signals .vector).length⟩

/-- Accepts two lists that realize every edge of the graph. -/
def verify (g : Graph) (s : StreamSteps) : Except Error SyncStats := do
  s.checkBarriers
  Domain.all.forM (checkDirection g s)
  (g.edges.filter Edge.explicitSync).forM (checkEdge g s)
  return s.stats

end StreamSteps

end KernelFusion
