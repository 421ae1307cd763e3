import KernelFusion.Machine.Domain
import KernelFusion.Text.Blank

/-!
Kernel types: how a kernel was compiled, which fixes the domains it occupies and how many units of
each one block takes.

Every type has a code, which the runtime publishes, and a name, which requests use. Codes and names
outside the six known ones are refused.
-/

namespace KernelFusion

/-- The two ways to read the index of the running block: counted over vector units, or as the
hardware counts blocks. -/
inductive BlockIndex where | logical | hardware
  deriving DecidableEq

/-- The function that reads it. -/
def BlockIndex.function : BlockIndex → String
  | .logical => "AscendC::GetBlockIdx"
  | .hardware => "get_block_idx"

inductive KernelType where | aivOnly | aicOnly | mixAiv10 | mixAic10 | mixAic11 | mixAic12
  deriving DecidableEq, Inhabited

namespace KernelType

def all : List KernelType := [.aivOnly, .aicOnly, .mixAiv10, .mixAic10, .mixAic11, .mixAic12]

def code : KernelType → Nat
  | .aivOnly => 0
  | .aicOnly => 1
  | .mixAiv10 => 4
  | .mixAic10 => 5
  | .mixAic11 => 6
  | .mixAic12 => 7

def ofCode? (n : Nat) : Option KernelType := all.find? fun t => t.code == n

def name : KernelType → String
  | .aivOnly => "KERNEL_TYPE_AIV_ONLY"
  | .aicOnly => "KERNEL_TYPE_AIC_ONLY"
  | .mixAiv10 => "KERNEL_TYPE_MIX_AIV_1_0"
  | .mixAic10 => "KERNEL_TYPE_MIX_AIC_1_0"
  | .mixAic11 => "KERNEL_TYPE_MIX_AIC_1_1"
  | .mixAic12 => "KERNEL_TYPE_MIX_AIC_1_2"

/-- The type of that name; blanks around the name do not count. -/
def ofName? (s : String) : Option KernelType := all.find? fun t => t.name == Text.trim s

def affinity : KernelType → Affinity
  | .aivOnly => .vectorOnly
  | .mixAiv10 => .vectorOnly
  | .aicOnly => .cubeOnly
  | .mixAic10 => .cubeOnly
  | .mixAic11 => .mixed
  | .mixAic12 => .mixed

def isMixed (t : KernelType) : Bool := decide (t.affinity = .mixed)

/-- Index that gates units of a domain. Kernels of vector units alone count over those units; all
others count blocks. -/
def blockIndex (t : KernelType) (d : Domain) : BlockIndex :=
  match t.affinity, d with
  | .vectorOnly, .vector => .logical
  | _, _ => .hardware

/-- Class in the early-start handshake. -/
def earlyStartClass (t : KernelType) : Nat :=
  match t.affinity with
  | .cubeOnly => 0
  | .vectorOnly => 1
  | .mixed => 2

/-- One bit for each type. -/
def flag : KernelType → Nat
  | .aivOnly => 1
  | .aicOnly => 2
  | .mixAiv10 => 4
  | .mixAic10 => 8
  | .mixAic11 => 16
  | .mixAic12 => 32

/-- Cube and vector units of one block. -/
def ratio : KernelType → Nat × Nat
  | .aivOnly => (0, 1)
  | .mixAiv10 => (0, 1)
  | .aicOnly => (1, 0)
  | .mixAic10 => (1, 0)
  | .mixAic11 => (1, 1)
  | .mixAic12 => (1, 2)

end KernelType

end KernelFusion
