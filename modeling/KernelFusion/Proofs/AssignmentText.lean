import KernelFusion.Json.Token
import KernelFusion.Proofs.DeviceRun

/-!
What the text of an assignment says.

A text is cut into words and marks, which are read from left to right. What waits for an operand stands
on a stack: an open bracket, something in front of an operand, or an operator with what is left of it. An
operator takes up all before it that binds at least as tightly, so that `|` binds less than `&`, and `&`
less than a shift.

        read      stack               operand
        a                             a
        <<        a <<
        32        a <<                32
        |         (a << 32) |
        ( *       (a << 32) | ( *
        b         (a << 32) | (       *b
        )         (a << 32) |         *b
-/

namespace KernelFusion.Device

/-! ### Words and marks -/

inductive BitOp where | or | and | shiftLeft | shiftRight
  deriving DecidableEq

namespace BitOp

/-- How tightly an operator binds. -/
def level : BitOp → Nat
  | .or => 0
  | .and => 1
  | .shiftLeft => 2
  | .shiftRight => 2

/-- A shift by the width or more has no result. -/
def apply : BitOp → UInt64 → UInt64 → Option UInt64
  | .or, x, y => some (x ||| y)
  | .and, x, y => some (x &&& y)
  | .shiftLeft, x, y => if y.toNat < 64 then some (x <<< y) else none
  | .shiftRight, x, y => if y.toNat < 64 then some (x >>> y) else none

end BitOp

inductive Lexeme where
  | word (cs : List Char)
  | opening
  | closing
  | star
  | equals
  | semicolon
  | operator (op : BitOp)
  deriving DecidableEq

def Lexeme.ofChar? : Char → Option Lexeme
  | '(' => some .opening
  | ')' => some .closing
  | '*' => some .star
  | '=' => some .equals
  | ';' => some .semicolon
  | '|' => some (.operator .or)
  | '&' => some (.operator .and)
  | _ => none

/-- A word from its characters, last one first. -/
def finished (word : List Char) : List Lexeme := if word.isEmpty then [] else [.word word.reverse]

/-- Words and marks, from the characters of the word so far. -/
def lexemesFrom : List Char → List Char → Option (List Lexeme)
  | word, [] => some (finished word)
  | word, '<' :: '<' :: cs =>
    (lexemesFrom [] cs).map fun xs => finished word ++ .operator .shiftLeft :: xs
  | word, '>' :: '>' :: cs =>
    (lexemesFrom [] cs).map fun xs => finished word ++ .operator .shiftRight :: xs
  | word, c :: cs =>
    if Text.isLetter c || c.isDigit then lexemesFrom (c :: word) cs
    else if c = ' ' then (lexemesFrom [] cs).map (finished word ++ ·)
    else do
      let x ← Lexeme.ofChar? c
      return finished word ++ x :: (← lexemesFrom [] cs)

/-- The type of all variables. -/
def typeName : List Char := ['u', 'i', 'n', 't', '6', '4', '_', 't']

/-! ### Expressions -/

inductive Expr where
  | number (n : Nat)
  | name (x : String)
  /-- made a number of 64 bits -/
  | widened (e : Expr)
  /-- what a cell has -/
  | content (e : Expr)
  | binary (op : BitOp) (a b : Expr)
  deriving DecidableEq

/-- What waits for an operand. -/
inductive Waiting where
  | bracket
  /-- a bracket around the name of a type -/
  | typeBracket
  | widened
  | content
  | operator (a : Expr) (op : BitOp)

namespace Expr

/-- A number in decimal digits or, behind `0x`, in hexadecimal ones, or a name. Zero alone begins with a
zero. -/
def ofWord? : List Char → Option Expr
  | [] => none
  | ['0'] => some (.number 0)
  | '0' :: 'x' :: c :: cs =>
    ((c :: cs).foldlM (fun n c => (Json.hexDigit? c).map fun d => 16 * n + d) 0).map .number
  | '0' :: _ => none
  | c :: cs =>
    if Text.isLetter c then some (.name (String.ofList (c :: cs)))
    else if Text.isDecimal (c :: cs) then some (.number (Text.decimalValue (c :: cs))) else none

/-- An operand with all that stands right in front of it. -/
def complete : List Waiting → Expr → List Waiting × Option Expr
  | .widened :: waiting, e => complete waiting (.widened e)
  | .content :: waiting, e => complete waiting (.content e)
  | waiting, e => (waiting, some e)

/-- Takes up the operators that bind at least as tightly as a level. -/
def takeUp (level : Nat) : List Waiting → Expr → List Waiting × Expr
  | .operator a op :: waiting, e =>
    if level ≤ op.level then takeUp level waiting (.binary op a e) else (.operator a op :: waiting, e)
  | waiting, e => (waiting, e)

/-- Reads one word or mark, where an operand is expected or behind one. -/
def read : List Waiting × Option Expr → Lexeme → Option (List Waiting × Option Expr)
  | (waiting, none), .opening => some (.bracket :: waiting, none)
  | (waiting, none), .star => some (.content :: waiting, none)
  | (.typeBracket :: waiting, none), .closing => some (.widened :: waiting, none)
  | (waiting, none), .word cs =>
    match waiting with
    | .bracket :: outer =>
      if cs = typeName then some (.typeBracket :: outer, none) else (ofWord? cs).map (complete waiting)
    | _ => (ofWord? cs).map (complete waiting)
  | (waiting, some e), .closing =>
    match takeUp 0 waiting e with
    | (.bracket :: waiting, e) => some (complete waiting e)
    | _ => none
  | (waiting, some e), .operator op =>
    let (waiting, e) := takeUp op.level waiting e
    some (.operator e op :: waiting, none)
  | _, _ => none

def ofLexemes? (xs : List Lexeme) : Option Expr :=
  match xs.foldlM read ([], none) with
  | some (waiting, some e) =>
    match takeUp 0 waiting e with
    | ([], e) => some e
    | _ => none
  | _ => none

/-- Whether the value has 64 bits; a plain number has fewer. -/
def isWide : Expr → Bool
  | .number _ => false
  | .name _ => true
  | .widened _ => true
  | .content _ => true
  | .binary .or a b => a.isWide || b.isWide
  | .binary .and a b => a.isWide || b.isWide
  | .binary .shiftLeft a _ => a.isWide
  | .binary .shiftRight a _ => a.isWide

/-- The value, where it has 64 bits throughout. -/
def eval (site : Site) (s : State) : Expr → Option UInt64
  | .number n => if n < UInt32.size then some (UInt64.ofNat n) else none
  | .name x => s.word? x
  | .widened e => e.eval site s
  | .content (.name x) => site.read? s x
  | .content _ => none
  | .binary op a b =>
    if (binary op a b).isWide then do op.apply (← a.eval site s) (← b.eval site s) else none

end Expr

/-! ### Assignments -/

structure Assignment where
  target : String
  /-- whether the variable is declared -/
  isNew : Bool
  source : Expr
  deriving DecidableEq

namespace Assignment

def sourceOf? (xs : List Lexeme) : Option Expr :=
  if xs.getLast? = some .semicolon then Expr.ofLexemes? xs.dropLast else none

def ofLexemes? : List Lexeme → Option Assignment
  | .word cs :: .equals :: xs => (sourceOf? xs).map (⟨String.ofList cs, false, ·⟩)
  | .word type :: .word cs :: .equals :: xs =>
    if type = typeName then (sourceOf? xs).map (⟨String.ofList cs, true, ·⟩) else none
  | _ => none

def ofText? (text : String) : Option Assignment := (lexemesFrom [] text.toList).bind ofLexemes?

def exec (site : Site) (a : Assignment) (s : State) : Option State :=
  (a.source.eval site s).bind fun w =>
    if a.isNew then some (s.declare a.target (.word w)) else s.assign a.target (.word w)

end Assignment

end KernelFusion.Device

namespace KernelFusion

open Device

/-- On every unit, a statement does what its text says. -/
def Stmt.DoesAsWritten (st : Stmt) : Prop :=
  ∃ a, Assignment.ofText? st.render = some a ∧ ∀ site s, st.exec site s = a.exec site s

theorem toList_publish (code : Nat) : (Stmt.publish code).render.toList
    = "dy_block_num = ((uint64_t)".toList ++ Nat.toDigits 10 code
      ++ ") << 32 | (*blockNumAddr);".toList := by
  have hcode : Nat.toDigits 10 code = (toString code).toList := by simp
  rw [hcode, ← String.toList_append, ← String.toList_append]
  rfl

theorem ofText?_publish (t : KernelType) : Assignment.ofText? (Stmt.publish t.code).render
    = some ⟨"dy_block_num", false,
      .binary .or (.binary .shiftLeft (.widened (.number t.code)) (.number 32))
        (.content (.name "blockNumAddr"))⟩ := by
  -- The characters of both ends are found once and not again for each class.
  have hfront : "dy_block_num = ((uint64_t)".toList = _ := String.toList_ofList
  have hback : ") << 32 | (*blockNumAddr);".toList = _ := String.toList_ofList
  rw [Assignment.ofText?, toList_publish, hfront, hback]
  cases t <;> decide +kernel

theorem doesAsWritten_publish (t : KernelType) : (Stmt.publish t.code).DoesAsWritten := by
  have hcode : t.code < UInt32.size := by cases t <;> decide
  have hwidth : 32 < UInt32.size := by decide
  refine ⟨_, ofText?_publish t, fun site s => ?_⟩
  cases hcell : site.read? s "blockNumAddr" with
  | none => simp [Stmt.exec, Assignment.exec, Expr.eval, Expr.isWide, hcell]
  | some n => simp [Stmt.exec, Assignment.exec, Expr.eval, Expr.isWide, BitOp.apply, hcell, hcode, hwidth]

theorem doesAsWritten_unpackClass : Stmt.unpackClass.DoesAsWritten := by
  have hread : Assignment.ofText? Stmt.unpackClass.render
      = some ⟨"kernelType", true, .binary .shiftRight (.name "dy_block_num") (.number 32)⟩ := by
    decide +kernel
  have hwidth : 32 < UInt32.size := by decide
  refine ⟨_, hread, fun site s => ?_⟩
  cases hword : s.word? "dy_block_num" <;>
    simp [Stmt.exec, Assignment.exec, Expr.eval, Expr.isWide, BitOp.apply, hword, hwidth]

theorem doesAsWritten_unpackCount : Stmt.unpackCount.DoesAsWritten := by
  have hread : Assignment.ofText? Stmt.unpackCount.render
      = some ⟨"numBlocks", true, .binary .and (.name "dy_block_num") (.number 0xFFFFFFFF)⟩ := by
    decide +kernel
  refine ⟨_, hread, fun site s => ?_⟩
  cases hword : s.word? "dy_block_num" <;>
    simp [Stmt.exec, Assignment.exec, Expr.eval, Expr.isWide, BitOp.apply, hword]

end KernelFusion
