import KernelFusion.Machine.Domain

/-!
Hardware flags that carry a signal from one domain to the other, and the pipelines that raise them.
-/

namespace KernelFusion

/-- Pipeline that a message between units is issued from. -/
inductive Pipe where | fix | mte3 | all
  deriving DecidableEq

namespace Pipe

/-- The last pipeline through which a domain writes its results. -/
def draining : Domain → Pipe
  | .cube => .fix
  | .vector => .mte3

def text : Pipe → String
  | .fix => "PIPE_FIX"
  | .mte3 => "PIPE_MTE3"
  | .all => "PIPE_ALL"

end Pipe

/-- A flag: a numbered channel, or the one fixed flag of a direction in two-stream schedules. -/
inductive Flag where
  | channel (id : Nat)
  | aivToAic
  | aicToAiv
  deriving DecidableEq, Inhabited

namespace Flag

/-- The fixed flag for signals that `producer` raises. -/
def ofStream : Domain → Flag
  | .vector => .aivToAic
  | .cube => .aicToAiv

def text : Flag → String
  | .channel id => toString id
  | .aivToAic => "AscendC::SYNC_AIV_FLAG"
  | .aicToAiv => "AscendC::SYNC_AIC_AIV_FLAG"

/-- Channels by number, then the flag towards the cube domain, then the other one. -/
def le : Flag → Flag → Bool
  | .channel a, .channel b => decide (a ≤ b)
  | .channel _, _ => true
  | .aivToAic, .channel _ => false
  | .aivToAic, _ => true
  | .aicToAiv, .aicToAiv => true
  | .aicToAiv, _ => false

end Flag

end KernelFusion
