import KernelFusion.Json.Token

/-!
Reading a JSON value from its tokens.

The reader is a stack machine: it takes one token at a time and holds the arrays and objects that are
still open, innermost first. So a value of any depth is read in one pass over its tokens.
-/

namespace KernelFusion.Json

/-- An open array or object with what it holds so far, last one first. An object waits for the value
of `key`. -/
inductive Frame where
  | arr (items : List Json)
  | obj (members : List (Option String × Json)) (key : Option String)

/-- What the reader expects next. -/
inductive Expect where
  /-- a value -/
  | value (stack : List Frame)
  /-- a first item or the end of the array -/
  | item (stack : List Frame)
  /-- a first member name or the end of the object -/
  | member (stack : List Frame)
  /-- a member name -/
  | name (members : List (Option String × Json)) (stack : List Frame)
  /-- the colon behind a member name -/
  | colon (members : List (Option String × Json)) (key : Option String) (stack : List Frame)
  /-- a comma, an end, or nothing more: a value is complete -/
  | next (value : Json) (stack : List Frame)

/-- A token where a value must start. -/
def startValue (stack : List Frame) : Token → Option Expect
  | .null => some (.next .null stack)
  | .bool b => some (.next (.bool b) stack)
  | .num n => some (.next (.num n) stack)
  | .str s => some (.next (.str s) stack)
  | .openArr => some (.item stack)
  | .openObj => some (.member stack)
  | _ => none

/-- A token behind a complete value. -/
def continueValue (v : Json) : List Frame → Token → Option Expect
  | .arr items :: stack, .comma => some (.value (.arr (v :: items) :: stack))
  | .arr items :: stack, .closeArr => some (.next (.arr (v :: items).reverse) stack)
  | .obj members key :: stack, .comma => some (.name ((key, v) :: members) stack)
  | .obj members key :: stack, .closeObj => some (.next (.obj ((key, v) :: members).reverse) stack)
  | _, _ => none

/-- Takes one token. -/
def Expect.take : Expect → Token → Option Expect
  | .value stack, t => startValue stack t
  | .item stack, .closeArr => some (.next (.arr []) stack)
  | .item stack, t => startValue (.arr [] :: stack) t
  | .member stack, .closeObj => some (.next (.obj []) stack)
  | .member stack, .str key => some (.colon [] key stack)
  | .member _, _ => none
  | .name members stack, .str key => some (.colon members key stack)
  | .name _ _, _ => none
  | .colon members key stack, .colon => some (.value (.obj members key :: stack))
  | .colon _ _ _, _ => none
  | .next v stack, t => continueValue v stack t

/-- Takes all tokens of a list. -/
def Expect.takeAll : Expect → List Token → Option Expect
  | e, [] => some e
  | e, t :: ts => match e.take t with
    | some e => e.takeAll ts
    | none => none

/-- The value that the tokens spell, if they spell exactly one. -/
def ofTokens? (ts : List Token) : Option Json :=
  match (Expect.value []).takeAll ts with
  | some (.next v []) => some v
  | _ => none

/-- Reads a JSON text. -/
def parse? (s : String) : Option Json := do ofTokens? (← Token.scan s.toList)

end KernelFusion.Json
