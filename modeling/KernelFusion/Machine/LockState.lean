import KernelFusion.Error

/-!
The two states of a lock cell and the numbers that stand for them in memory.
-/

namespace KernelFusion

inductive LockState where | notReady | ready
  deriving DecidableEq

namespace LockState

def value : LockState → Nat
  | .notReady => 0
  | .ready => 1

def ofValue : Nat → Except Error LockState
  | 0 => .ok .notReady
  | 1 => .ok .ready
  | n => .error (.invalidLockState n)

end LockState

end KernelFusion
