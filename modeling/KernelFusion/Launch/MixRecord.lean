import KernelFusion.Error
import KernelFusion.Json.Decode
import KernelFusion.Json.Printer
import KernelFusion.Machine.Bytes

/-!
The record that tells the launcher which domain drives a fused kernel and how many units of each
domain one block takes.

It has a JSON form and a fixed form of 16 bytes. The fixed form is two fields, each with a tag and a
length in front: the driving domain, then the two ratios. The kernel's name is not part of it.
-/

namespace KernelFusion

structure MixRecord where
  kernelName : String
  main : Domain
  aicRatio : UInt16
  aivRatio : UInt16
  deriving DecidableEq

namespace MixRecord

/-- The record of a kernel of a type. -/
def ofKernel (kernelName : String) (t : KernelType) : MixRecord where
  kernelName := kernelName
  main := t.affinity.primary
  aicRatio := UInt16.ofNat t.ratio.1
  aivRatio := UInt16.ofNat t.ratio.2

/-- Whether both domains take part in the launch. -/
def isMixed (r : MixRecord) : Bool := decide (0 < r.aicRatio) && decide (0 < r.aivRatio)

def mainCode : Domain → Nat
  | .cube => 1
  | .vector => 2

def ofMainCode : Nat → Except Error Domain
  | 1 => .ok .cube
  | 2 => .ok .vector
  | n => .error (.malformedMetadata (.unknownMain n))

def mainSymbol : Domain → String
  | .cube => "K_TYPE_MIX_AIC_MAIN"
  | .vector => "K_TYPE_MIX_AIV_MAIN"

def sectionSuffix : Domain → String
  | .cube => "mix_aic"
  | .vector => "mix_aiv"

def sectionName (r : MixRecord) : String := s!"{r.kernelName}_{sectionSuffix r.main}"

/-! ### The form of 16 bytes -/

def size : Nat := 16

/-- Tag and length in front of a field. Every field is four bytes long. -/
def header (tag : Nat) : List UInt8 := littleEndian 2 tag ++ littleEndian 2 4

def toBytes (r : MixRecord) : List UInt8 :=
  header 1 ++ littleEndian 4 (mainCode r.main)
    ++ header 2 ++ littleEndian 2 r.aicRatio.toNat ++ littleEndian 2 r.aivRatio.toNat

def checkHeader (bytes : List UInt8) (offset tag : Nat) : Except Error Unit :=
  let foundTag := fieldAt bytes offset 2
  let foundLength := fieldAt bytes (offset + 2) 2
  if foundTag = tag ∧ foundLength = 4 then .ok ()
  else .error (.malformedMetadata (.badHeader offset foundTag foundLength))

def ofBytes (kernelName : String) (bytes : List UInt8) : Except Error MixRecord := do
  if bytes.length ≠ size then
    throw (.malformedMetadata (.wrongLength bytes.length))
  checkHeader bytes 0 1
  let main ← ofMainCode (fieldAt bytes 4 4)
  checkHeader bytes 8 2
  return ⟨kernelName, main, UInt16.ofNat (fieldAt bytes 12 2), UInt16.ofNat (fieldAt bytes 14 2)⟩

/-! ### The JSON form -/

def mainName : Domain → String
  | .cube => "Aic"
  | .vector => "Aiv"

def ofMainName? : String → Option Domain
  | "Aic" => some .cube
  | "Aiv" => some .vector
  | _ => none

def toJson (r : MixRecord) : Json :=
  .record [("kernel_name", .text r.kernelName), ("main", .text (mainName r.main)),
    ("aic_ratio", .nat r.aicRatio.toNat), ("aiv_ratio", .nat r.aivRatio.toNat)]

def ofJson? (v : Json) : Option MixRecord := do
  match ← v.fields? ["kernel_name", "main", "aic_ratio", "aiv_ratio"] with
  | [name, main, aic, aiv] =>
    return {
      kernelName := ← Json.required Json.text? name
      main := ← Json.required (fun v => v.caseName? >>= ofMainName?) main
      aicRatio := ← Json.required Json.word16? aic
      aivRatio := ← Json.required Json.word16? aiv }
  | _ => none

def print (r : MixRecord) : String := r.toJson.pretty

def parse? (s : String) : Option MixRecord := Json.parse? s >>= ofJson?

end MixRecord

end KernelFusion
