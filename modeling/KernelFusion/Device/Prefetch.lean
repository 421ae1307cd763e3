import KernelFusion.Device.Variants
import KernelFusion.Graph.Operator

/-!
Loading instructions ahead of their use.
-/

namespace KernelFusion.Prefetch

/-- Bytes of code that one unit of loading covers. -/
def granule : Nat := 2048

/-- Bytes of an operator's code that are loaded at most. -/
def mostBytes : Nat := 16384

/-- Units for a code size, rounded up. -/
def units (size : Nat) : Nat := (min size mostBytes + granule - 1) / granule

/-- Units for code that is known only at launch. -/
def dynamicUnits : Domain → Nat
  | .vector => 8
  | .cube => 16

/-- Loads from the start of the kernel on. -/
def wholeKernel (units : Nat) : String := s!"AscendC::PreLoad({units});"

/-- Units of the whole kernel. -/
def wholeUnits : Nat := 8

/-- Loads statements of a domain on the blocks of an operator. -/
def guarded (o : Operator) (d : Domain) (arch : Option Domain) (variants : List Stmt) : Code :=
  (Guarded.make d (o.kernelType.blockIndex d) (.count o.blockCount) variants).code arch

/-- Loads a static operator in a domain. -/
def staticPart (o : Operator) (arch : Option Domain) (d : Domain) : Code :=
  match o.functions.get? d with
  | none => .done
  | some base =>
    let amount := units (o.textSize.get d)
    if amount = 0 ∨ (arch.isSome ∧ arch ≠ some d) then .done
    else guarded o d arch ((variantSymbols base o.split).map fun symbol => .prefetch symbol amount)

/-- Loads a static operator on the units that will run it. -/
def staticCode (o : Operator) (arch : Option Domain) : Code :=
  .concat (o.affinity.domains.map (staticPart o arch))

/-- Loads a dynamic operator from the addresses that were chosen. -/
def dynamicCode (o : Operator) (arch : Option Domain) : Code :=
  .concat (o.affinity.domains.map fun d =>
    guarded o d arch ((VariantRef.all o.split d).map fun v => .prefetchVariant v (dynamicUnits d)))

def code (o : Operator) (arch : Option Domain) : Code :=
  if o.isDynamic then dynamicCode o arch else staticCode o arch

end KernelFusion.Prefetch
