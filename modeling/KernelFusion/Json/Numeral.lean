import KernelFusion.Text.Word

/-!
Numbers as they are written, and which of them double precision holds.

To be held, a number is taken apart into a significand of at most 64 bits and a power of ten. Digits
that find no room in the significand are dropped; in front of the point each of them raises the power.
Significand and power are rounded to double precision, then their product is, so next to the bound the
way in which a number is written decides, and not its value alone.
-/

namespace KernelFusion

/-- A number as it is written: a plain count, or digits with a sign, a fraction or an exponent. -/
inductive Numeral where
  | count (n : Nat)
  | scaled (negative : Bool) (whole fraction : List Char) (exponent : Int)
  deriving DecidableEq

namespace Numeral

/-- The value `significand * 10 ^ power`. -/
structure Scientific where
  significand : Nat
  power : Int
  deriving DecidableEq

/-- Appends digits to a number up to the first one that exceeds 64 bits. Gives the longer number and
how many digits were taken. -/
def gather (n : Nat) : List Char → Nat × Nat
  | [] => (n, 0)
  | c :: cs =>
    if 10 * n + Text.digitValue c < UInt64.size then
      let more := gather (10 * n + Text.digitValue c) cs
      (more.1, more.2 + 1)
    else (n, 0)

/-- What is kept of a number. Behind the point the significand is filled up once more. -/
def Scientific.ofDigits (whole fraction : List Char) (exponent : Int) : Scientific :=
  let inFront := gather 0 whole
  let behind := gather inFront.1 fraction
  { significand := behind.1
    power := exponent + ((whole.length : Int) - inFront.2) - behind.2 }

def scientific : Numeral → Scientific
  | .count n => .ofDigits (Nat.toDigits 10 n) [] 0
  | .scaled _ whole fraction exponent => .ofDigits whole fraction exponent

/-! ### Double precision -/

/-- The nearest number with at most 53 significant bits; of two equally near, the one whose last bit
is zero. -/
def roundDouble (n : Nat) : Nat :=
  let unit := Nat.pow 2 (n.log2 - 52)
  let steps := n / unit
  let rest := n % unit
  if 2 * rest < unit ∨ 2 * rest = unit ∧ steps % 2 = 0 then steps * unit else (steps + 1) * unit

/-- The least value that is rounded to infinity. -/
def doubleBound : Nat := Nat.pow 2 1024 - Nat.pow 2 970

/-- The highest power of ten in double precision. -/
def highestPower : Nat := 308

/-- Whether the product of significand and power stays finite; a number may always be too small. -/
def Scientific.isFinite (s : Scientific) : Bool :=
  if s.significand = 0 ∨ s.power < 0 then true
  else if highestPower < s.power.toNat then false
  else decide (roundDouble s.significand * roundDouble (Nat.pow 10 s.power.toNat) < doubleBound)

/-- Whether double precision holds the number. -/
def fitsDouble (n : Numeral) : Bool := n.scientific.isFinite

end Numeral

end KernelFusion
