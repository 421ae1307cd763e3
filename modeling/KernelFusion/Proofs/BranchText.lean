import KernelFusion.Device.Variants
import KernelFusion.Text.Word
import Mathlib.Data.List.Basic

/-!
What a text with conditionals says.

A text is cut into words and marks, these into clauses at every `;` and every brace, and the clauses are
run in their order. A branch that is passed over is read and not run, with all blocks inside it; behind
its end it is known whether a branch of the conditional was run, which decides the next one.

        if (f() < 4) {        opening      if ( f ( ) < 4 )
            g(1);             statement    g ( 1 )
        } else {              closing, opening    else
            h();              statement    h ( )
        }                     closing

Only a part of the language is read: quotes, comments other than those to the end of a line, directives,
loops, jumps, and expressions that need to know which operator binds more tightly are refused. A statement
other than a declaration may change any variable, so that no variable is known behind it, or behind a
block that was run.
-/

namespace KernelFusion.Branching

/-! ### Words and marks -/

inductive Token where
  | word (cs : List Char)
  | mark (cs : List Char)
  deriving DecidableEq

/-- What a character stands behind. -/
inductive Place where
  | gap
  /-- a word that may go on -/
  | word (cs : List Char)
  /-- a mark that may go on -/
  | mark (cs : List Char)
  /-- the first slash of a comment -/
  | slash
  | comment
  deriving DecidableEq

def isWordChar (c : Char) : Bool := Text.isLetter c || c.isDigit || c == ':'

/-- Characters that run together to one mark. -/
def isMarkChar (c : Char) : Bool := ['=', '<', '>', '!', '%', '*', '&', '|', '+', '-', '.'].contains c

/-- Characters that are marks by themselves. -/
def isBracket (c : Char) : Bool := ['(', ')', '[', ']', '\x7b', '\x7d', ';', ','].contains c

namespace Place

/-- The place behind the first character after a gap, and what it ends. -/
def start (c : Char) : Option (List Token × Place) :=
  if isWordChar c then some ([], .word [c])
  else if isMarkChar c then some ([], .mark [c])
  else if isBracket c then some ([.mark [c]], .gap)
  else if c = ' ' ∨ c = '\n' then some ([], .gap)
  else if c = '/' then some ([], .slash)
  else none

/-- The place behind a character, and what ends there. A comment does not go on behind a line. -/
def next : Place → Char → Option (List Token × Place)
  | .gap, c => start c
  | .word cs, c =>
    if isWordChar c then some ([], .word (cs ++ [c]))
    else (start c).map fun r => (.word cs :: r.1, r.2)
  | .mark cs, c =>
    if isMarkChar c then some ([], .mark (cs ++ [c]))
    else (start c).map fun r => (.mark cs :: r.1, r.2)
  | .slash, c => if c = '/' then some ([], .comment) else none
  | .comment, c => if c = '\\' then none else some ([], if c = '\n' then .gap else .comment)

end Place

/-- Words and marks that end in a text, and the place behind it. -/
def tokensFrom : Place → List Char → Option (List Token × Place)
  | p, [] => some ([], p)
  | p, c :: cs => do
    let (ts, q) ← p.next c
    let (us, r) ← tokensFrom q cs
    return (ts ++ us, r)

/-! ### Clauses -/

/-- The words and marks of a statement, without the one that ends it. -/
abbrev Statement := List Token

inductive Clause where
  | statement (ts : Statement)
  /-- opens a block -/
  | opening (ts : List Token)
  | closing
  deriving DecidableEq

/-- Clauses, from what was read of the first one, and what is left over. -/
def clausesFrom : List Token → List Token → Option (List Clause × List Token)
  | read, [] => some ([], read)
  | read, t :: ts =>
    if t = .mark [';'] then (clausesFrom [] ts).map fun r => (.statement read :: r.1, r.2)
    else if t = .mark ['\x7b'] then (clausesFrom [] ts).map fun r => (.opening read :: r.1, r.2)
    else if t = .mark ['\x7d'] then
      if read = [] then (clausesFrom [] ts).map fun r => (.closing :: r.1, r.2) else none
    else clausesFrom (read ++ [t]) ts

/-- The clauses of a text in which nothing is begun and not ended. -/
def read? (text : String) : Option (List Clause) := do
  let (ts, p) ← tokensFrom .gap text.toList
  let (clauses, rest) ← clausesFrom [] ts
  if p = .gap ∧ rest = [] then some clauses else none

/-! ### Expressions -/

inductive BinaryOp where | remainder | less | equal
  deriving DecidableEq

namespace BinaryOp

def ofMark? : List Char → Option BinaryOp
  | ['%'] => some .remainder
  | ['<'] => some .less
  | ['=', '='] => some .equal
  | _ => none

def apply : BinaryOp → Nat → Nat → Option Nat
  | .remainder, x, y => if y = 0 then none else some (x % y)
  | .less, x, y => some (if x < y then 1 else 0)
  | .equal, x, y => some (if x = y then 1 else 0)

end BinaryOp

inductive Expr where
  | number (n : Nat)
  | name (x : List Char)
  /-- a call without arguments -/
  | call (f : List Char)
  /-- made a number of eight bits -/
  | narrowed (e : Expr)
  | binary (op : BinaryOp) (a b : Expr)
  deriving DecidableEq

/-- What waits for an operand. -/
inductive Waiting where
  | bracket
  /-- a bracket around the name of a type -/
  | typeBracket
  /-- the bracket behind the name of a function -/
  | callBracket (f : List Char)
  | narrowed
  | operator (a : Expr) (op : BinaryOp)

/-- The type of eight bits. -/
def narrowType : List Char := "uint8_t".toList

namespace Expr

/-- A number in decimal digits, or a name. Zero alone begins with a zero. -/
def ofWord? : List Char → Option Expr
  | [] => none
  | ['0'] => some (.number 0)
  | '0' :: _ => none
  | c :: cs =>
    if Text.isLetter c then some (.name (c :: cs))
    else if Text.isDecimal (c :: cs) then some (.number (Text.decimalValue (c :: cs))) else none

/-- An operand with the types in front of it. -/
def narrow : List Waiting → Expr → List Waiting × Expr
  | .narrowed :: waiting, e => narrow waiting (.narrowed e)
  | waiting, e => (waiting, e)

/-- An operand with the operator in front of it, if there is one. -/
def takeUp (waiting : List Waiting) (e : Expr) : List Waiting × Expr :=
  match narrow waiting e with
  | (.operator a op :: outer, e) => (outer, .binary op a e)
  | r => r

/-- Reads a word or mark, where an operand is expected or behind one. Two operators in one bracket are
refused. -/
def read : List Waiting × Option Expr → Token → Option (List Waiting × Option Expr)
  | (waiting, none), .mark ['('] => some (.bracket :: waiting, none)
  | (.typeBracket :: waiting, none), .mark [')'] => some (.narrowed :: waiting, none)
  | (.callBracket f :: waiting, none), .mark [')'] => some (waiting, some (.call f))
  | (.bracket :: waiting, none), .word cs =>
    if cs = narrowType then some (.typeBracket :: waiting, none)
    else (ofWord? cs).map fun e => (.bracket :: waiting, some e)
  | (waiting, none), .word cs => (ofWord? cs).map fun e => (waiting, some e)
  | (waiting, some (.name f)), .mark ['('] => some (.callBracket f :: waiting, none)
  | (waiting, some e), .mark [')'] =>
    match takeUp waiting e with
    | (.bracket :: outer, e) => some (outer, some e)
    | _ => none
  | (waiting, some e), .mark cs => do
    let op ← BinaryOp.ofMark? cs
    match narrow waiting e with
    | (.operator .. :: _, _) => none
    | (waiting, e) => some (.operator e op :: waiting, none)
  | _, _ => none

def ofTokens? (ts : List Token) : Option Expr :=
  match ts.foldlM read ([], none) with
  | some (waiting, some e) =>
    match takeUp waiting e with
    | ([], e) => some e
    | _ => none
  | _ => none

/-- The value, from those of the variables and what functions answer. -/
def eval (answer : List Char → Option Nat) (known : List (List Char × Nat)) : Expr → Option Nat
  | .number n => some n
  | .name x => known.lookup x
  | .call f => answer f
  | .narrowed e => (e.eval answer known).map (· % 256)
  | .binary op a b => do op.apply (← a.eval answer known) (← b.eval answer known)

end Expr

/-! ### Heads of blocks -/

/-- What a conditional tests. -/
inductive Test where
  | onDomain (d : Domain)
  | holds (e : Expr)
  deriving DecidableEq

/-- A word for the domain of the unit, or an expression in brackets. -/
def Test.ofTokens? : List Token → Option Test
  | [.word cs] =>
    if cs = "ASCEND_IS_AIC".toList then some (.onDomain .cube)
    else if cs = "ASCEND_IS_AIV".toList then some (.onDomain .vector) else none
  | .mark ['('] :: ts =>
    if ts.getLast? = some (.mark [')']) then (Expr.ofTokens? ts.dropLast).map .holds else none
  | _ => none

def Test.eval (domain : Domain) (answer : List Char → Option Nat) (known : List (List Char × Nat)) :
    Test → Option Bool
  | .onDomain d => some (decide (domain = d))
  | .holds e => (e.eval answer known).map (· != 0)

inductive Branch where
  /-- begins a conditional -/
  | first (c : Test)
  /-- goes on with one -/
  | next (c : Test)
  | last
  deriving DecidableEq

def Branch.ofTokens? : List Token → Option Branch
  | [.word ['e', 'l', 's', 'e']] => some .last
  | .word ['e', 'l', 's', 'e'] :: .word ['i', 'f'] :: ts => (Test.ofTokens? ts).map .next
  | .word ['i', 'f'] :: ts => (Test.ofTokens? ts).map .first
  | _ => none

/-! ### Statements -/

/-- Words that begin something other than a simple statement. -/
def keywords : List (List Char) :=
  ["if", "else", "for", "while", "do", "switch", "case", "default", "goto", "return", "break",
    "continue"].map String.toList

def Statement.isSimple : Statement → Bool
  | .word cs :: _ => !keywords.contains cs
  | _ => false

/-- The variable that a statement declares, and its value. -/
def Statement.declaration? : Statement → Option (List Char × Expr)
  | .word type :: .word x :: .mark ['='] :: ts =>
    if type = narrowType then (Expr.ofTokens? ts).map (x, ·) else none
  | _ => none

def Clause.statement? : Clause → Option Statement
  | .statement ts => if Statement.isSimple ts then some ts else none
  | _ => none

/-- The statements of a line that has nothing else. -/
def statements? (line : String) : Option (List Statement) :=
  (read? (line ++ "\n")).bind fun clauses => clauses.mapM Clause.statement?

/-! ### Running clauses on a unit -/

/-- A block that is open. -/
inductive Frame where
  | ran
  /-- a branch that is not run; whether one before it was -/
  | passed (taken : Bool)
  /-- inside of a branch that is not run -/
  | dead
  deriving DecidableEq

/-- Whether no further branch is run. -/
def Frame.taken : Frame → Bool
  | .passed taken => taken
  | _ => true

/-- The unit's domain, and what functions answer on it. -/
structure Machine where
  domain : Domain
  answer : List Char → Option Nat

structure State where
  /-- open blocks, the innermost first -/
  frames : List Frame
  /-- variables with their values -/
  known : List (List Char × Nat)
  /-- statements that were run -/
  trace : List Statement
  /-- right behind a block: whether no further branch is run -/
  behind : Option Bool

/-- Whether statements are run inside of these blocks. -/
def isActive : List Frame → Bool
  | [] => true
  | f :: _ => decide (f = .ran)

def Frame.ofTest (holds : Bool) : Frame := if holds then .ran else .passed false

namespace Machine

variable (u : Machine)

/-- What is known of variables behind a statement. -/
def learn (known : List (List Char × Nat)) (ts : Statement) : List (List Char × Nat) :=
  match ts.declaration?.bind fun p => (p.2.eval u.answer known).map fun v => (p.1, v % 256) with
  | some p => p :: known
  | none => []

/-- The frame of a block behind its head. -/
def enter (s : State) : Branch → Option Frame
  | .first c =>
    if isActive s.frames then (c.eval u.domain u.answer s.known).map Frame.ofTest else some .dead
  | .next c =>
    s.behind.bind fun taken =>
      if isActive s.frames then
        if taken then some (.passed true) else (c.eval u.domain u.answer s.known).map Frame.ofTest
      else some .dead
  | .last =>
    s.behind.map fun taken =>
      if isActive s.frames then (if taken then .passed true else .ran) else .dead

def run (s : State) : Clause → Option State
  | .statement ts =>
    if !ts.isSimple then none
    else if isActive s.frames then
      some { s with known := u.learn s.known ts, trace := s.trace ++ [ts], behind := none }
    else some { s with behind := none }
  | .opening ts => do
    let b ← Branch.ofTokens? ts
    let f ← u.enter s b
    return { s with frames := f :: s.frames, behind := none }
  | .closing =>
    match s.frames with
    | [] => none
    | f :: fs =>
      some { s with
        frames := fs
        known := if f = .ran then [] else s.known
        behind := some f.taken }

/-- The statements that a unit runs by a text, where no block is open before it or behind it. -/
def trace? (text : String) : Option (List Statement) := do
  let clauses ← read? text
  let s ← clauses.foldlM u.run ⟨[], [], [], none⟩
  if s.frames = [] then some s.trace else none

end Machine

/-! ### Texts behind one another -/

theorem tokensFrom_append {p q r : Place} {a b : List Char} {ts us : List Token}
    (ha : tokensFrom p a = some (ts, q)) (hb : tokensFrom q b = some (us, r)) :
    tokensFrom p (a ++ b) = some (ts ++ us, r) := by
  induction a generalizing p ts with
  | nil =>
    cases Option.some.inj ha
    exact hb
  | cons c a ih =>
    obtain ⟨⟨first, p'⟩, hnext, ha⟩ := Option.bind_eq_some_iff.mp ha
    obtain ⟨⟨rest, q'⟩, hrest, ha⟩ := Option.bind_eq_some_iff.mp ha
    cases Option.some.inj ha
    have htail := ih hrest
    simp only [List.cons_append, tokensFrom, hnext, htail, Option.bind_eq_bind, Option.bind_some,
      Option.pure_def, List.append_assoc]

theorem clausesFrom_append {read us vs : List Token} {x y : List Clause} {left over' : List Token}
    (hus : clausesFrom read us = some (x, left)) (hvs : clausesFrom left vs = some (y, over')) :
    clausesFrom read (us ++ vs) = some (x ++ y, over') := by
  induction us generalizing read x with
  | nil =>
    cases Option.some.inj hus
    exact hvs
  | cons t us ih =>
    rw [clausesFrom] at hus
    rw [List.cons_append, clausesFrom]
    -- the marks that end a clause, in the order of the definition, then a token inside of one
    split at hus
    next =>
      obtain ⟨⟨rest, left'⟩, hrest, hx⟩ := Option.map_eq_some_iff.mp hus
      cases hx
      rw [if_pos (by assumption), ih hrest]
      rfl
    split at hus
    next =>
      obtain ⟨⟨rest, left'⟩, hrest, hx⟩ := Option.map_eq_some_iff.mp hus
      cases hx
      rw [if_neg (by assumption), if_pos (by assumption), ih hrest]
      rfl
    split at hus
    next =>
      split at hus
      next =>
        obtain ⟨⟨rest, left'⟩, hrest, hx⟩ := Option.map_eq_some_iff.mp hus
        cases hx
        rw [if_neg (by assumption), if_neg (by assumption), if_pos (by assumption),
          if_pos (by assumption), ih hrest]
        rfl
      next => cases hus
    next =>
      rw [if_neg (by assumption), if_neg (by assumption), if_neg (by assumption)]
      exact ih hus

theorem read?_eq_some {text : String} {clauses : List Clause} : read? text = some clauses ↔
    ∃ ts, tokensFrom .gap text.toList = some (ts, .gap) ∧ clausesFrom [] ts = some (clauses, []) := by
  constructor
  · intro h
    obtain ⟨⟨ts, p⟩, htokens, h⟩ := Option.bind_eq_some_iff.mp h
    obtain ⟨⟨clauses', rest⟩, hclauses, h⟩ := Option.bind_eq_some_iff.mp h
    simp only [Option.ite_none_right_eq_some, Option.some.injEq] at h
    obtain ⟨⟨rfl, rfl⟩, rfl⟩ := h
    exact ⟨ts, htokens, hclauses⟩
  · rintro ⟨ts, htokens, hclauses⟩
    simp [read?, htokens, hclauses]

theorem read?_append {a b : String} {x y : List Clause} (ha : read? a = some x) (hb : read? b = some y) :
    read? (a ++ b) = some (x ++ y) := by
  obtain ⟨ts, hts, hx⟩ := read?_eq_some.mp ha
  obtain ⟨us, hus, hy⟩ := read?_eq_some.mp hb
  refine read?_eq_some.mpr ⟨ts ++ us, ?_, clausesFrom_append hx hy⟩
  rw [String.toList_append]
  exact tokensFrom_append hts hus

end KernelFusion.Branching
