/-!
Sums and products of 64 bits.
-/

namespace KernelFusion

/-- What a program does where a result needs more than 64 bits. -/
inductive Overflow where
  /-- it ends there -/
  | stops
  /-- it goes on with the lower 64 bits -/
  | wraps
  deriving DecidableEq

namespace Overflow

/-- A number as a result of 64 bits, where there is one. -/
def fit (v : Overflow) (n : Nat) : Option UInt64 :=
  match v with
  | .stops => if n < UInt64.size then some (.ofNat n) else none
  | .wraps => some (.ofNat n)

def add (v : Overflow) (a b : UInt64) : Option UInt64 := v.fit (a.toNat + b.toNat)

def mul (v : Overflow) (a b : UInt64) : Option UInt64 := v.fit (a.toNat * b.toNat)

end Overflow

end KernelFusion
