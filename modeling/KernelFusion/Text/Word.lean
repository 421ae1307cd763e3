/-!
Identifiers and decimal numbers as they stand in option texts and requests, both in ASCII only.
-/

namespace KernelFusion.Text

def isLetter (c : Char) : Bool := c.isAlpha || c == '_'

/-- A letter or underscore, then letters, digits and underscores. -/
def isIdentifier (s : String) : Bool :=
  match s.toList with
  | [] => false
  | c :: cs => isLetter c && cs.all fun d => isLetter d || d.isDigit

def isDecimal (cs : List Char) : Bool := cs.all Char.isDigit

def digitValue (c : Char) : Nat := c.toNat - '0'.toNat

/-- Value of a run of decimal digits. -/
def decimalValue (cs : List Char) : Nat := Nat.ofDigitChars 10 cs 0

/-- A count of at most 64 bits, written in decimal digits after at most one plus sign. -/
def count64? (s : String) : Option UInt64 :=
  let digits := match s.toList with
    | '+' :: cs => cs
    | cs => cs
  if digits.isEmpty || !isDecimal digits then none
  else if decimalValue digits < UInt64.size then some (UInt64.ofNat (decimalValue digits))
  else none

/-- The text with ASCII capitals made small. -/
def lower (s : String) : String := String.ofList (s.toList.map Char.toLower)

end KernelFusion.Text
