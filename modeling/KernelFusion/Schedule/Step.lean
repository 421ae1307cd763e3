import KernelFusion.Launch.Basic
import KernelFusion.Profiling.Record
import KernelFusion.Schedule.Flag

/-!
Steps of a schedule.

A schedule is the list of steps that an instruction stream carries out in order. It is built and
checked as data; only afterwards is it turned into device code.
-/

namespace KernelFusion

/-- The units that meet at a barrier: all of both domains, or all of one. -/
inductive Scope where
  | full
  | domain (d : Domain)
  deriving DecidableEq

structure Barrier where
  scope : Scope
  /-- comment beside the barrier -/
  reason : Option String
  deriving DecidableEq

namespace Barrier

def full (reason : String) : Barrier := ⟨.full, some reason⟩

def domain (d : Domain) : Barrier := ⟨.domain d, none⟩

/-- A barrier over all units that a kernel type runs on. -/
def covering (t : KernelType) : Barrier :=
  match t.affinity with
  | .mixed => ⟨.full, none⟩
  | a => domain a.primary

/-- Whether all units of a domain meet at the barrier. -/
def covers (b : Barrier) (d : Domain) : Bool := decide (b.scope = .full) || decide (b.scope = .domain d)

end Barrier

inductive Step where
  /-- a comment line with its slashes -/
  | comment (text : String)
  | pipeAll
  | barrier (b : Barrier)
  /-- raises a flag for an edge -/
  | signal (edge : Nat) (producer : Domain) (pipe : Pipe) (flag : Flag)
  /-- waits for the flag of an edge -/
  | wait (edge : Nat) (consumer : Domain) (flag : Flag)
  | preloadWhole
  | preload (op : Nat)
  /-- lets the next operator start on units that this one leaves idle -/
  | earlyStartSet (op : Nat)
  | earlyStartConfig (config : Nat)
  /-- waits for the operator before -/
  | earlyStartWait (op config : Nat)
  /-- sends the outer events of an operator -/
  | notify (op : Nat)
  /-- waits for the outer events of an operator -/
  | eventWait (op : Nat)
  /-- waits until a dynamic operator is chosen and reads the choice -/
  | dynamicResolve (op : Nat)
  | feedSyncInit (op : Nat)
  | profile (event : Nat) (kind : ProfilingKind) (start : Bool)
  | invoke (op : Nat)
  /-- gives the lock of a dynamic operator back -/
  | lockReset (op : Nat)
  | cacheFlushAll
  | clearWaitLocks
  | instructionCacheEpilogue
  deriving DecidableEq

namespace Step

/-- The operator that a step belongs to, if any. -/
def operator? : Step → Option Nat
  | .preload op => some op
  | .earlyStartSet op => some op
  | .earlyStartWait op _ => some op
  | .notify op => some op
  | .eventWait op => some op
  | .dynamicResolve op => some op
  | .feedSyncInit op => some op
  | .invoke op => some op
  | .lockReset op => some op
  | _ => none

def isFullBarrier : Step → Bool
  | .barrier b => decide (b.scope = .full)
  | _ => false

def isDomainBarrier : Step → Bool
  | .barrier b => !decide (b.scope = .full)
  | _ => false

/-- Whether all units of a domain meet at the step. -/
def meets (d : Domain) : Step → Bool
  | .barrier b => b.covers d
  | _ => false

def isSignalOf (edge : Nat) : Step → Bool
  | .signal e _ _ _ => e == edge
  | _ => false

def isWaitOf (edge : Nat) : Step → Bool
  | .wait e _ _ => e == edge
  | _ => false

def isWait : Step → Bool
  | .wait .. => true
  | _ => false

def isInvokeOf (op : Nat) : Step → Bool
  | .invoke o => o == op
  | _ => false

/-- The comment in front of an operator. -/
def beginOperator (name : String) : Step := .comment s!"//begin func call of sub operator {name}"

end Step

/-- Mark of an operator in the profile; zero is the whole kernel. -/
def profileEvent (op : Nat) : Nat := op + 1

end KernelFusion
