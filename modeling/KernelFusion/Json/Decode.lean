import KernelFusion.Json.Reader

/-!
From JSON values to typed data.

A record is written as an object, with its members in any order, or as the array of its fields in
their declared order. A member that is not declared is passed over; a declared one may stand only
once. Counts have to be plain counts within their range: no sign, fraction, exponent or quotes.
-/

namespace KernelFusion.Json

def text? : Json → Option String
  | .str s => s
  | _ => none

def bool? : Json → Option Bool
  | .bool b => some b
  | _ => none

/-- A plain count below `bound`. -/
def countBelow? (bound : Nat) : Json → Option Nat
  | .num (.count n) => if n < bound then some n else none
  | _ => none

def word16? (v : Json) : Option UInt16 := (v.countBelow? UInt16.size).map UInt16.ofNat

def word32? (v : Json) : Option UInt32 := (v.countBelow? UInt32.size).map UInt32.ofNat

def word64? (v : Json) : Option UInt64 := (v.countBelow? UInt64.size).map UInt64.ofNat

def list? {α : Type} (read : Json → Option α) : Json → Option (List α)
  | .arr items => items.mapM read
  | _ => none

/-- `null` for nothing. -/
def nullable? {α : Type} (read : Json → Option α) : Json → Option (Option α)
  | .null => some none
  | v => (read v).map some

/-- The name of a case without data: a string, or an object with that one member set to `null`. -/
def caseName? : Json → Option String
  | .str s => s
  | .obj [(k, .null)] => k
  | _ => none

/-- The members with their names, if all names are texts. -/
def named? (members : List (Option String × Json)) : Option (List (String × Json)) :=
  members.mapM fun m => m.1.map fun k => (k, m.2)

/-- The value of a member that may stand at most once. -/
def memberOnce? (members : List (String × Json)) (name : String) : Option (Option Json) :=
  match members.filter fun m => m.1 == name with
  | [] => some none
  | [m] => some (some m.2)
  | _ => none

/-- The values of the declared fields of a record, in their declared order. -/
def fields? (names : List String) : Json → Option (List (Option Json))
  | .obj members => do
    let members ← named? members
    names.mapM (memberOnce? members)
  | .arr items =>
    if items.length ≤ names.length then
      some (items.map some ++ List.replicate (names.length - items.length) none)
    else none
  | _ => none

/-- A field that has to be there. -/
def required {α : Type} (read : Json → Option α) : Option Json → Option α
  | some v => read v
  | none => none

/-- A field that may be left out. -/
def orElse {α : Type} (read : Json → Option α) (otherwise : α) : Option Json → Option α
  | some v => read v
  | none => some otherwise

/-- Nesting that a tagged record may have. -/
def taggedDepth : Nat := 127

/-- The tag of a tagged record and its other members as an object or array of their own. The whole
record is kept until the tag is known, so all of it has to be whole and not too deep. -/
def tagged? (tag : String) (v : Json) : Option (String × Json) :=
  if v.isWhole && decide (v.depth ≤ taggedDepth) then
    match v with
    | .obj members => do
      let names ← named? members
      let name ← required text? (← memberOnce? names tag)
      return (name, .obj (members.filter fun m => m.1 != some tag))
    | .arr (first :: rest) => do return (← text? first, .arr rest)
    | _ => none
  else none

end KernelFusion.Json
