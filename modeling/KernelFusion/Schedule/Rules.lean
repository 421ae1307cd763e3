import KernelFusion.Schedule.Channels
import KernelFusion.Schedule.Step

/-!
Which steps realize the edges at the boundary between two neighbours.

Rule 1: behind a producer with edges to be synchronized, a barrier over each domain that they leave
from; a mixed producer also guards the domain that they go to.
Rule 2: without the early-start handshake, a full barrier, and no other rule.
Rule 3: an edge across the domains is signalled at the boundary before its consumer (3.1) and waited
for right behind (3.2), on a channel that it holds in between. Edges for which no channel is left
share one full barrier.
-/

namespace KernelFusion

/-- The channels in use and the channel of every edge that is signalled and not yet waited for. -/
structure Rules where
  /-- whether rules 1 and 3 apply; otherwise rule 2 stands for all -/
  earlyStart : Bool
  channels : Channels
  pending : List (Nat × Nat)
  deriving DecidableEq

namespace Rules

def initial (earlyStart : Bool) : Rules := ⟨earlyStart, .none, []⟩

def inFlight (r : Rules) : Nat := r.channels.inFlight

/-- A boundary needs a handshake unless all edges into the operator stay on their units. -/
def needsSync (g : Graph) (op : Nat) : Bool :=
  (g.incoming op).isEmpty || (g.incoming op).any Edge.explicitSync

/-- Rule 2. -/
def fullBarrier : List Step :=
  [.comment "// begin inter ops barrier",
   .barrier (.full "reason2: inter op barrier when EarlyStartDisable")]

/-- Whether rule 1 guards a domain behind an operator. -/
def guards (g : Graph) (op : Nat) (d : Domain) : Bool :=
  (g.outgoing op).any fun e => e.explicitSync &&
    (decide (e.pair.producer = d)
      || (decide ((g.operator op).affinity = .mixed) && decide (e.pair.consumer = d)))

/-- Rule 1. -/
def domainBarriers (g : Graph) (op : Nat) : List Step :=
  (Domain.all.filter (guards g op)).map fun d =>
    .barrier ⟨.domain d, some s!"Rule 1 : sync all {d.arch} behind {(g.operator op).name}"⟩

def signalSteps (e : Edge) (channel : Nat) : List Step :=
  [.comment s!"// Rule 3.1 : send {e.pair.text} of {e.text} on flag {channel}",
   .signal e.id e.pair.producer (.draining e.pair.producer) (.channel channel)]

def waitSteps (e : Edge) (channel : Nat) : List Step :=
  [.comment s!"// Rule 3.2 : receive {e.pair.text} of {e.text} on flag {channel}",
   .wait e.id e.pair.consumer (.channel channel)]

/-- Notes that an edge is signalled on a channel. -/
def note (r : Rules) (e : Edge) (channel : Nat) (channels : Channels) : Rules :=
  { r with
    channels := channels
    pending := (e.id, channel) :: r.pending.filter fun p => p.1 != e.id }

/-- Signals edges one by one. The Boolean tells whether one of them found no channel; anything else that
goes wrong with a channel ends it. -/
def signalAll (r : Rules) : List Edge → Except Error (List Step × Rules × Bool)
  | [] => .ok ([], r, false)
  | e :: es =>
    match r.channels.acquire e with
    | (.ok channel, channels) => do
      let (steps, r, overflow) ← (r.note e channel channels).signalAll es
      return (signalSteps e channel ++ steps, r, overflow)
    | (.error (.channelExhausted _), channels) => do
      let (steps, r, _) ← { r with channels := channels }.signalAll es
      return (steps, r, true)
    | (.error err, _) => .error err

/-- The channel of an edge that is signalled, given back. -/
def settle (r : Rules) (e : Edge) : Option (Nat × Rules) :=
  (r.pending.find? fun p => p.1 == e.id).map fun p =>
    (p.2, { r with
      channels := (r.channels.release p.2).2
      pending := r.pending.filter fun q => q.1 != e.id })

/-- Waits for the edges that are signalled. -/
def waitAll (r : Rules) : List Edge → List Step × Rules
  | [] => ([], r)
  | e :: es =>
    match r.settle e with
    | some (channel, r) =>
      let (steps, r) := r.waitAll es
      (waitSteps e channel ++ steps, r)
    | none => r.waitAll es

def overflowBarrier : Step := .barrier (.full "reason5: more cross edges than free flags")

/-- Rule 1 behind `prev`, then rule 3.1 for the edges into `cur`. -/
def producerSide (r : Rules) (g : Graph) (prev cur : Nat) : Except Error (List Step × Rules) :=
  if r.earlyStart then do
    let (signals, r, overflow) ← r.signalAll ((g.incoming cur).filter Edge.needsSignal)
    return (domainBarriers g prev ++ signals ++ (if overflow then [overflowBarrier] else []), r)
  else .ok ([], r)

/-- Rule 3.2 for the edges into `cur`. -/
def consumerSide (r : Rules) (g : Graph) (cur : Nat) : List Step × Rules :=
  if r.earlyStart then r.waitAll ((g.incoming cur).filter Edge.needsSignal) else ([], r)

end Rules

end KernelFusion
