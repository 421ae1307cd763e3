import KernelFusion.Device.Code
import KernelFusion.Graph.Operator

/-!
The early-start handshake on the device: an operator lets the next one start on units that it leaves
idle, and the next one waits on the units that it does not run on itself.
-/

namespace KernelFusion

/-- The two sides of the handshake. -/
inductive HandshakeSide where
  | set
  | wait (config : Nat)
  deriving DecidableEq

namespace HandshakeSide

/-- Whether an operator takes part in the handshake by itself. -/
def isFlagged (o : Operator) : HandshakeSide → Bool
  | .set => o.earlyStart.set
  | .wait _ => o.earlyStart.wait

/-- The units of a domain that take part here: those that are no block of an operator that takes part
by itself, and otherwise all. -/
def units (s : HandshakeSide) (o : Operator) (d : Domain) : Cond :=
  if s.isFlagged o && o.affinity.contains d && !o.isDynamic then
    .blockFrom (o.kernelType.blockIndex d) o.blockCount
  else .always

def text (o : Operator) (d : Domain) : HandshakeSide → String
  | .set =>
    if o.affinity.contains d then "AscendC::SetNextTaskStart();"
    else match d with
      | .cube => "// AIV only, no complement early start set flag."
      | .vector => "// AIC only, no complement early start set flag."
  | .wait config => s!"AscendC::WaitPreTaskEndImpl<{config}>();"

def part (s : HandshakeSide) (o : Operator) (d : Domain) : Code :=
  .when (.onDomain d) (.when (s.units o d) (.text (s.text o d))) ++ .empty

/-- One side, the operator's primary domain first. -/
def code (s : HandshakeSide) (o : Operator) : Code :=
  s.part o o.affinity.primary ++ s.part o o.affinity.primary.other

end HandshakeSide

end KernelFusion
