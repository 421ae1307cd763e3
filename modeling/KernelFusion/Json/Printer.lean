import KernelFusion.Json.Value

/-!
Writing JSON in its indented form: one item or member a line, two blanks a level, a blank behind the
colon, and `[]` for an empty array. Characters above the control range stand for themselves.
-/

namespace KernelFusion.Json

def hexDigit (n : Nat) : Char := if n < 10 then Char.ofNat (48 + n) else Char.ofNat (87 + n)

/-- How one character is written inside a string. -/
def escape (c : Char) : List Char :=
  if c = '"' then ['\\', '"']
  else if c = '\\' then ['\\', '\\']
  else if c = '\x08' then ['\\', 'b']
  else if c = '\x0c' then ['\\', 'f']
  else if c = '\n' then ['\\', 'n']
  else if c = '\r' then ['\\', 'r']
  else if c = '\t' then ['\\', 't']
  else if c.toNat < 0x20 then ['\\', 'u', '0', '0', hexDigit (c.toNat / 16), hexDigit (c.toNat % 16)]
  else [c]

/-- A string with its quotes. -/
def quote (s : String) : List Char := '"' :: (s.toList.flatMap escape ++ ['"'])

/-- A line feed and the indentation of a level. -/
def newLine (level : Nat) : List Char := '\n' :: List.replicate (2 * level) ' '

/-- A number; all but counts are written with an exponent. -/
def numeral : Numeral → List Char
  | .count n => Nat.toDigits 10 n
  | .scaled negative whole fraction exponent =>
    (if negative then ['-'] else []) ++ whole
      ++ (if fraction.isEmpty then [] else '.' :: fraction) ++ ['e'] ++ (toString exponent).toList

mutual

/-- A value whose first line is already indented. -/
def prettyChars (level : Nat) : Json → List Char
  | .null => "null".toList
  | .bool true => "true".toList
  | .bool false => "false".toList
  | .num n => numeral n
  | .str s => quote (s.getD "")
  | .arr [] => ['[', ']']
  | .arr (v :: vs) =>
    '[' :: (newLine (level + 1) ++ prettyChars (level + 1) v ++ prettyItems (level + 1) vs
      ++ newLine level ++ [']'])
  | .obj [] => ['\x7b', '\x7d']
  | .obj ((k, v) :: ms) =>
    '\x7b' :: (newLine (level + 1) ++ quote (k.getD "") ++ [':', ' '] ++ prettyChars (level + 1) v
      ++ prettyMembers (level + 1) ms ++ newLine level ++ ['\x7d'])

/-- The items behind the first one, each behind a comma. -/
def prettyItems (level : Nat) : List Json → List Char
  | [] => []
  | v :: vs => ',' :: (newLine level ++ prettyChars level v ++ prettyItems level vs)

/-- The members behind the first one, each behind a comma. -/
def prettyMembers (level : Nat) : List (Option String × Json) → List Char
  | [] => []
  | (k, v) :: ms =>
    ',' :: (newLine level ++ quote (k.getD "") ++ [':', ' '] ++ prettyChars level v
      ++ prettyMembers level ms)

end

def pretty (v : Json) : String := String.ofList (prettyChars 0 v)

end KernelFusion.Json
