import KernelFusion.Graph.Operator

/-!
Events between operators.

An id that one operator sends and a later one receives is an inner event. Every other id is an outer
one and belongs to a task outside the fused kernel. Neighbours on different streams have to be
connected by an event, or the request has to allow two streams.
-/

namespace KernelFusion

inductive ScheduleMode where
  /-- each operator runs after the one before -/
  | singleStream
  /-- one function for each domain, ordered by signals only -/
  | twoStream
  deriving DecidableEq

structure InnerEvent where
  event : UInt32
  sender : Nat
  receiver : Nat
  deriving DecidableEq

structure EventPlan where
  mode : ScheduleMode
  inner : List InnerEvent
  /-- outer ids of every operator -/
  outerSends : List (List UInt32)
  outerRecvs : List (List UInt32)
  deriving DecidableEq

namespace EventPlan

def isInner (p : EventPlan) (event : UInt32) : Bool := p.inner.any fun i => i.event == event

def sends (p : EventPlan) (op : Nat) : List UInt32 := p.outerSends.getD op []

def recvs (p : EventPlan) (op : Nat) : List UInt32 := p.outerRecvs.getD op []

/-! ### What is refused -/

def refuse (o : Operator) (fault : EventFault) : Except Error Unit :=
  .error (.invalidEvent o.name fault)

/-- No operator receives what it sends. -/
def checkOwn (o : Operator) : Except Error Unit :=
  match o.sendEvents.find? fun id => o.recvEvents.contains id with
  | some id => refuse o (.sentAndReceived id)
  | none => .ok ()

def checkFirst (ops : List Operator) : Except Error Unit :=
  match ops.head? with
  | some o => if o.recvEvents.isEmpty then .ok () else refuse o .firstReceives
  | none => .ok ()

def checkLast (ops : List Operator) : Except Error Unit :=
  match ops.getLast? with
  | some o => if o.sendEvents.isEmpty then .ok () else refuse o .lastSends
  | none => .ok ()

/-- Whether the second operator receives an event of the first. -/
def connected (a b : Operator) : Bool := a.sendEvents.any fun id => b.recvEvents.contains id

/-- Neighbours on one stream that an event connects, or on two streams that none does. The second is
allowed with two streams, and then decides the mode. -/
def checkNeighbours (streamFusion : Bool) (a b : Operator) : Except Error ScheduleMode :=
  if a.stream = b.stream then
    if connected a b then .error (.invalidEvent b.name (.connectedOnStream a.name))
    else .ok .singleStream
  else if connected a b then .ok .singleStream
  else if streamFusion then .ok .twoStream
  else .error (.invalidEvent b.name (.unconnectedSwitch a.stream b.stream))

/-- The mode: two streams as soon as one pair of neighbours needs them. -/
def modeOf (streamFusion : Bool) : List Operator → Except Error ScheduleMode
  | a :: b :: rest => do
    let here ← checkNeighbours streamFusion a b
    let later ← modeOf streamFusion (b :: rest)
    return if here = .twoStream then .twoStream else later
  | _ => .ok .singleStream

/-! ### Inner events -/

/-- Events that a sender has in common with one later operator. -/
def innerWith (i : Nat) (a : Operator) (j : Nat) (b : Operator) : Except Error (List InnerEvent) :=
  match a.sendEvents.filter fun id => b.recvEvents.contains id with
  | [] => .ok []
  | id :: ids =>
    if a.stream = b.stream then .error (.invalidEvent b.name (.innerOnStream id a.name))
    else .ok ((id :: ids).map fun id => ⟨id, i, j⟩)

/-- Events of a sender with the operators from position `j` on. -/
def innerFrom (i : Nat) (a : Operator) : Nat → List Operator → Except Error (List InnerEvent)
  | _, [] => .ok []
  | j, b :: bs => do
    let here ← innerWith i a j b
    return here ++ (← innerFrom i a (j + 1) bs)

/-- Inner events among the operators from position `i` on. -/
def innerAll : Nat → List Operator → Except Error (List InnerEvent)
  | _, [] => .ok []
  | i, a :: rest => do
    let here ← innerFrom i a (i + 1) rest
    return here ++ (← innerAll (i + 1) rest)

/-- The ids that are no inner event. -/
def outer (inner : List InnerEvent) (ids : List UInt32) : List UInt32 :=
  ids.filter fun id => !inner.any fun i => i.event == id

/-- Sorts all events and picks the mode. -/
def analyze (ops : List Operator) (streamFusion : Bool) : Except Error EventPlan := do
  ops.forM checkOwn
  checkFirst ops
  checkLast ops
  let mode ← modeOf streamFusion ops
  let inner ← innerAll 0 ops
  return ⟨mode, inner, ops.map fun o => outer inner o.sendEvents,
    ops.map fun o => outer inner o.recvEvents⟩

end EventPlan

end KernelFusion
