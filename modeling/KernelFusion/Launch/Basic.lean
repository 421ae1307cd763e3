import KernelFusion.Launch.Shape
import KernelFusion.Launch.Table

/-!
All that is known of a launch before it is scheduled.
-/

namespace KernelFusion

structure Launch where
  kernelName : String
  options : Options
  graph : Graph
  events : EventPlan
  table : Table
  shape : LaunchShape
  /-- whether neighbours use the early-start handshake; two streams never do -/
  earlyStart : Bool

namespace Launch

def operator (l : Launch) (op : Nat) : Operator := l.graph.operator op

/-- Positions of all operators. -/
def ids (l : Launch) : List Nat := List.range l.graph.size

def isLast (l : Launch) (op : Nat) : Bool := decide (op + 1 = l.graph.size)

/-- Whether the operator's own barrier is fed. -/
def feeds (l : Launch) (op : Nat) : Bool := l.options.feedSyncAll && l.shape.feeds (l.operator op)

end Launch

end KernelFusion
