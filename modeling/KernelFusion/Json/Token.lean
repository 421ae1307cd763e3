import KernelFusion.Json.Value
import KernelFusion.Text.Word

/-!
Tokens of a JSON text.

`Token.scan` reads strict JSON: no comments, no byte-order mark, no raw control characters in
strings, no leading zeros or plus signs in numbers. Blanks are space, tab, carriage return and line
feed.
-/

namespace KernelFusion.Json

inductive Token where
  | openArr | closeArr | openObj | closeObj | comma | colon
  | null
  | bool (b : Bool)
  | num (n : Numeral)
  | str (text : Option String)

/-! ### Strings -/

/-- One unit of a string body: a character that stands for itself, or a `\u` escape. -/
inductive StrUnit where
  | char (c : Char)
  | code (n : Nat)

def hexDigit? (c : Char) : Option Nat :=
  if c.isDigit then some (c.toNat - '0'.toNat)
  else if 'a' ≤ c ∧ c ≤ 'f' then some (c.toNat - 'a'.toNat + 10)
  else if 'A' ≤ c ∧ c ≤ 'F' then some (c.toNat - 'A'.toNat + 10)
  else none

def hexCode? (a b c d : Char) : Option Nat := do
  return (((← hexDigit? a) * 16 + (← hexDigit? b)) * 16 + (← hexDigit? c)) * 16 + (← hexDigit? d)

/-- The character of a short escape. -/
def shortEscape? : Char → Option Char
  | '"' => some '"'
  | '\\' => some '\\'
  | '/' => some '/'
  | 'b' => some '\x08'
  | 'f' => some '\x0c'
  | 'n' => some '\n'
  | 'r' => some '\r'
  | 't' => some '\t'
  | _ => none

/-- The units up to the closing quote, and what follows it. -/
def scanString : List Char → Option (List StrUnit × List Char)
  | [] => none
  | '"' :: rest => some ([], rest)
  | '\\' :: 'u' :: a :: b :: c :: d :: rest => do
    let n ← hexCode? a b c d
    let (units, rest) ← scanString rest
    return (.code n :: units, rest)
  | '\\' :: c :: rest => do
    let e ← shortEscape? c
    let (units, rest) ← scanString rest
    return (.char e :: units, rest)
  | c :: rest =>
    if c.toNat < 0x20 then none
    else do
      let (units, rest) ← scanString rest
      return (.char c :: units, rest)

def isHighSurrogate (n : Nat) : Bool := decide (0xD800 ≤ n) && decide (n ≤ 0xDBFF)

def isLowSurrogate (n : Nat) : Bool := decide (0xDC00 ≤ n) && decide (n ≤ 0xDFFF)

/-- The characters that the units denote; half of a surrogate pair denotes none. -/
def unitChars : List StrUnit → Option (List Char)
  | [] => some []
  | .char c :: us => (unitChars us).map (c :: ·)
  | .code hi :: .code lo :: us =>
    if isHighSurrogate hi then
      if isLowSurrogate lo then
        (unitChars us).map (Char.ofNat (0x10000 + (hi - 0xD800) * 0x400 + (lo - 0xDC00)) :: ·)
      else none
    else if isLowSurrogate hi then none
    else (unitChars (.code lo :: us)).map (Char.ofNat hi :: ·)
  | .code n :: us =>
    if isHighSurrogate n || isLowSurrogate n then none
    else (unitChars us).map (Char.ofNat n :: ·)

/-! ### Numbers -/

/-- A nonempty run of digits and what follows it. -/
def scanDigits (cs : List Char) : Option (List Char × List Char) :=
  match cs.takeWhile Char.isDigit with
  | [] => none
  | ds => some (ds, cs.dropWhile Char.isDigit)

/-- The whole part: a zero alone, or digits that do not start with zero. -/
def scanWhole : List Char → Option (List Char × List Char)
  | '0' :: rest => some (['0'], rest)
  | cs => scanDigits cs

/-- Digits after the point, if there is a point. -/
def scanFraction : List Char → Option (Option (List Char) × List Char)
  | '.' :: rest => (scanDigits rest).map fun p => (some p.1, p.2)
  | cs => some (none, cs)

/-- The exponent, if there is one. -/
def scanExponent : List Char → Option (Option Int × List Char)
  | c :: rest =>
    if c = 'e' || c = 'E' then
      match rest with
      | '-' :: rest => (scanDigits rest).map fun p => (some (-(Text.decimalValue p.1 : Int)), p.2)
      | '+' :: rest => (scanDigits rest).map fun p => (some (Text.decimalValue p.1 : Int), p.2)
      | rest => (scanDigits rest).map fun p => (some (Text.decimalValue p.1 : Int), p.2)
    else some (none, c :: rest)
  | [] => some (none, [])

/-- A number after its sign. -/
def scanNumber (negative : Bool) (cs : List Char) : Option (Numeral × List Char) := do
  let (whole, cs) ← scanWhole cs
  let (fraction, cs) ← scanFraction cs
  let (exponent, cs) ← scanExponent cs
  match negative, fraction, exponent with
  | false, none, none => return (.count (Text.decimalValue whole), cs)
  | _, _, _ => return (.scaled negative whole (fraction.getD []) (exponent.getD 0), cs)

/-! ### The whole text -/

def isSpace (c : Char) : Bool := c == ' ' || c == '\t' || c == '\r' || c == '\n'

/-- The token at the start of a text that does not start with a blank, and what follows it. -/
def scanToken : List Char → Option (Token × List Char)
  | '[' :: rest => some (.openArr, rest)
  | ']' :: rest => some (.closeArr, rest)
  | '\x7b' :: rest => some (.openObj, rest)
  | '\x7d' :: rest => some (.closeObj, rest)
  | ',' :: rest => some (.comma, rest)
  | ':' :: rest => some (.colon, rest)
  | 'n' :: 'u' :: 'l' :: 'l' :: rest => some (.null, rest)
  | 't' :: 'r' :: 'u' :: 'e' :: rest => some (.bool true, rest)
  | 'f' :: 'a' :: 'l' :: 's' :: 'e' :: rest => some (.bool false, rest)
  | '"' :: rest => (scanString rest).map fun p => (.str ((unitChars p.1).map String.ofList), p.2)
  | '-' :: rest => (scanNumber true rest).map fun p => (.num p.1, p.2)
  | cs => (scanNumber false cs).map fun p => (.num p.1, p.2)

/-- Tokens of a text of at most `fuel` characters. -/
def scanAll : Nat → List Char → Option (List Token)
  | _, [] => some []
  | 0, _ :: _ => none
  | fuel + 1, c :: cs =>
    if isSpace c then scanAll fuel cs
    else do
      let (token, rest) ← scanToken (c :: cs)
      return token :: (← scanAll fuel rest)

/-- Tokens of a text. Every token takes at least one character, so its length is fuel enough. -/
def Token.scan (cs : List Char) : Option (List Token) := scanAll cs.length cs

end KernelFusion.Json
