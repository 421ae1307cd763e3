import KernelFusion.Json.Numeral

/-!
JSON values as they stand in a text.

Nothing is lost that a reader may ask for: members keep their order and may repeat, and a numeral
keeps whether it was written as a plain count. A string that holds half of a surrogate pair denotes
no text; such a string is still a value, so that it can be passed over.
-/

namespace KernelFusion

inductive Json where
  | null
  | bool (b : Bool)
  | num (n : Numeral)
  | str (text : Option String)
  | arr (items : List Json)
  | obj (members : List (Option String × Json))

namespace Json

/-- A string value that denotes `s`. -/
def text (s : String) : Json := .str (some s)

def nat (n : Nat) : Json := .num (.count n)

/-- An object whose member names are all given. -/
def record (members : List (String × Json)) : Json :=
  .obj (members.map fun m => (some m.1, m.2))

/-- The value if there is one, else `null`. -/
def optional {α : Type} (write : α → Json) : Option α → Json
  | none => .null
  | some a => write a

/-! ### Limits of a reader that keeps every value -/

mutual

/-- How deep arrays and objects are nested. -/
def depth : Json → Nat
  | .arr items => itemsDepth items + 1
  | .obj members => membersDepth members + 1
  | _ => 0

def itemsDepth : List Json → Nat
  | [] => 0
  | v :: vs => max (depth v) (itemsDepth vs)

def membersDepth : List (Option String × Json) → Nat
  | [] => 0
  | (_, v) :: ms => max (depth v) (membersDepth ms)

end

mutual

/-- Whether every string denotes a text and every number fits, all the way down. -/
def isWhole : Json → Bool
  | .str none => false
  | .num n => n.fitsDouble
  | .arr items => itemsWhole items
  | .obj members => membersWhole members
  | _ => true

def itemsWhole : List Json → Bool
  | [] => true
  | v :: vs => isWhole v && itemsWhole vs

def membersWhole : List (Option String × Json) → Bool
  | [] => true
  | (k, v) :: ms => k.isSome && isWhole v && membersWhole ms

end

end Json

end KernelFusion
