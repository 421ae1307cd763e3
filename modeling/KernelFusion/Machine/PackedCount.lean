import KernelFusion.Error

/-!
Kernel type and block count of a dynamic operator in one 64-bit word: the code of the type in the
high half, the count in the low half.
-/

namespace KernelFusion

structure PackedCount where
  kernelType : KernelType
  blocks : UInt32
  deriving DecidableEq

namespace PackedCount

/-- The word as a number below `2 ^ 64`. -/
def value (p : PackedCount) : Nat := p.kernelType.code * UInt32.size + p.blocks.toNat

def pack (p : PackedCount) : UInt64 := UInt64.ofNat p.value

/-- Takes a word apart; a high half that is no code is refused. -/
def unpack (word : UInt64) : Except Error PackedCount :=
  let code := word.toNat / UInt32.size
  match KernelType.ofCode? code with
  | some type => .ok ⟨type, UInt32.ofNat (word.toNat % UInt32.size)⟩
  | none => .error (.unsupportedKernelType code)

end PackedCount

end KernelFusion
