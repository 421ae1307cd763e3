import KernelFusion.Proofs.BranchText
import KernelFusion.Proofs.CodePieces
import KernelFusion.Proofs.JsonText

/-!
What the lines of a guarded choice say.

Code is written piece by piece, each piece as a line. The line of a statement says the statement, a
condition in front of a block opens it under an expression, and so on: the clauses of the whole text are
those of its lines in their order, at every depth.
-/

namespace KernelFusion

namespace Branching

/-! ### Words -/

theorem toList_toString (n : Nat) : (toString n).toList = Nat.toDigits 10 n := by simp

theorem isLetter_of_isDigit {c : Char} (h : c.isDigit = true) : Text.isLetter c = false := by
  have hhigh : c.toNat ≤ 57 := (Char.isDigit_iff_toNat.mp h).2
  refine Bool.eq_false_iff.mpr fun hletter => ?_
  rcases Bool.or_eq_true_iff.mp hletter with halpha | hunder
  · rcases Bool.or_eq_true_iff.mp halpha with hupper | hlower
    · have hlow : 65 ≤ c.toNat := UInt32.le_iff_toNat_le.mp (of_decide_eq_true hupper).1
      omega
    · have hlow : 97 ≤ c.toNat :=
        UInt32.le_iff_toNat_le.mp (of_decide_eq_true (Bool.and_eq_true_iff.mp hlower).1)
      omega
  · rw [eq_of_beq hunder] at hhigh
    exact absurd hhigh (by decide)

theorem ofWord?_toDigits (n : Nat) : Expr.ofWord? (Nat.toDigits 10 n) = some (.number n) := by
  rcases Nat.eq_zero_or_pos n with rfl | hpos
  · rfl
  · obtain ⟨c, cs, hcs, hdigit, hzero⟩ := Json.exists_cons_toDigits n
    have hall : ∀ d ∈ Nat.toDigits 10 n, d.isDigit = true :=
      fun d hd => Nat.isDigit_of_mem_toDigits (by decide) (by decide) hd
    have hvalue : Text.decimalValue (Nat.toDigits 10 n) = n := by simp [Text.decimalValue]
    have hletter : Text.isLetter c = false := isLetter_of_isDigit hdigit
    have hdecimal : Text.isDecimal (c :: cs) = true := by
      rw [← hcs]
      exact List.all_eq_true.mpr hall
    rw [hcs] at hvalue ⊢
    rw [Expr.ofWord?]
    · simp [hletter, hdecimal, hvalue]
    all_goals
      intros
      simp_all

theorem tokensFrom_wordChars {cs : List Char} (h : ∀ c ∈ cs, isWordChar c = true) (word : List Char) :
    tokensFrom (.word word) cs = some ([], .word (word ++ cs)) := by
  induction cs generalizing word with
  | nil => simp [tokensFrom]
  | cons c cs ih =>
    obtain ⟨hc, hcs⟩ := List.forall_mem_cons.mp h
    simp [tokensFrom, Place.next, hc, ih hcs]

theorem tokensFrom_word {cs : List Char} (hne : cs ≠ []) (h : ∀ c ∈ cs, isWordChar c = true) :
    tokensFrom .gap cs = some ([], .word cs) := by
  cases cs with
  | nil => cases hne rfl
  | cons c cs =>
    obtain ⟨hc, hcs⟩ := List.forall_mem_cons.mp h
    simp [tokensFrom, Place.next, Place.start, hc, tokensFrom_wordChars hcs]

theorem tokensFrom_toDigits (n : Nat) :
    tokensFrom .gap (Nat.toDigits 10 n) = some ([], .word (Nat.toDigits 10 n)) := by
  refine tokensFrom_word Nat.toDigits_ne_nil fun d hd => ?_
  have hdigit : d.isDigit = true := Nat.isDigit_of_mem_toDigits (by decide) (by decide) hd
  simp [isWordChar, hdigit]

/-! ### Conditions -/

/-- The variable with the core number. -/
def coreWord : List Char := "coreid".toList

/-- Words and marks of the conditions of a choice. -/
def condTokens : Cond → List Token
  | .onDomain d => [.word d.guard.toList]
  | .blockBelow index (.count n) =>
    [.mark ['('], .word index.function.toList, .mark ['('], .mark [')'], .mark ['<'],
      .word (Nat.toDigits 10 n), .mark [')']]
  | .coreIs split remainder =>
    [.mark ['('], .mark ['('], .word coreWord, .mark ['%'], .word (Nat.toDigits 10 split), .mark [')'],
      .mark ['=', '='], .word (Nat.toDigits 10 remainder), .mark [')']]
  | _ => []

end Branching

open Branching

/-- A condition of a choice. -/
def Cond.Routes : Cond → Prop
  | .onDomain _ => True
  | .blockBelow _ (.count _) => True
  | .coreIs _ _ => True
  | _ => False

namespace Branching

/-- A condition in front of the brace that opens its block. -/
theorem tokensFrom_cond {c : Cond} (hc : c.Routes) :
    tokensFrom .gap (c.text ++ (" \x7b" ++ "\n")).toList = some (condTokens c ++ [.mark ['\x7b']], .gap) := by
  have hend : (")" ++ (" \x7b" ++ "\n")).toList = [')', ' ', '\x7b', '\n'] := by decide +kernel
  have hlast (ds : List Char) : tokensFrom (.word ds) [')', ' ', '\x7b', '\n']
      = some ([.word ds, .mark [')'], .mark ['\x7b']], .gap) := rfl
  cases c with
  | onDomain d => cases d <;> decide +kernel
  | blockBelow index limit =>
    cases limit with
    | runtime e => cases hc
    | count n =>
      have hfront : tokensFrom .gap ("(" ++ index.function ++ "() < ").toList
          = some ([.mark ['('], .word index.function.toList, .mark ['('], .mark [')'], .mark ['<']],
            .gap) := by
        cases index <;> decide +kernel
      have htokens := tokensFrom_append hfront (tokensFrom_append (tokensFrom_toDigits n) (hlast _))
      have htext : (Cond.blockBelow index (.count n)).text ++ (" \x7b" ++ "\n")
          = "(" ++ index.function ++ "() < " ++ (toString n ++ (")" ++ (" \x7b" ++ "\n"))) := by
        change "(" ++ index.function ++ "() < " ++ toString n ++ ")" ++ (" \x7b" ++ "\n") = _
        simp only [String.append_assoc]
      rw [htext, String.toList_append, String.toList_append (s := toString n), toList_toString, hend]
      exact htokens
  | coreIs split remainder =>
    have hfront : tokensFrom .gap "((coreid % ".toList
        = some ([.mark ['('], .mark ['('], .word coreWord, .mark ['%']], .gap) := by decide +kernel
    have hmiddle : ") == ".toList = [')', ' ', '=', '=', ' '] := String.toList_ofList
    have hback (ds : List Char) : tokensFrom (.word ds) [')', ' ', '=', '=', ' ']
        = some ([.word ds, .mark [')'], .mark ['=', '=']], .gap) := rfl
    have htokens := tokensFrom_append hfront (tokensFrom_append (tokensFrom_toDigits split)
      (tokensFrom_append (hback _) (tokensFrom_append (tokensFrom_toDigits remainder) (hlast _))))
    have htext : (Cond.coreIs split remainder).text ++ (" \x7b" ++ "\n")
        = "((coreid % " ++ (toString split ++ (") == " ++ (toString remainder
          ++ (")" ++ (" \x7b" ++ "\n"))))) := by
      change "((coreid % " ++ toString split ++ ") == " ++ toString remainder ++ ")"
        ++ (" \x7b" ++ "\n") = _
      simp only [String.append_assoc]
    rw [htext, String.toList_append, String.toList_append (s := toString split),
      String.toList_append (s := ") == "), String.toList_append (s := toString remainder),
      toList_toString, toList_toString, hmiddle, hend]
    exact htokens
  | _ => cases hc

theorem clausesFrom_condTokens (c : Cond) (front : List Token) :
    clausesFrom front (condTokens c ++ [.mark ['\x7b']]) = some ([.opening (front ++ condTokens c)], []) := by
  have hplain : ∀ ts : List Token, (∀ t ∈ ts, t ≠ .mark [';'] ∧ t ≠ .mark ['\x7b'] ∧ t ≠ .mark ['\x7d']) →
      ∀ front, clausesFrom front ts = some ([], front ++ ts) := by
    intro ts hts
    induction ts with
    | nil => simp [clausesFrom]
    | cons t ts ih =>
      obtain ⟨⟨h₁, h₂, h₃⟩, hts⟩ := List.forall_mem_cons.mp hts
      intro front
      rw [clausesFrom, if_neg h₁, if_neg h₂, if_neg h₃, ih hts, List.append_assoc, List.singleton_append]
  have hcond : ∀ t ∈ condTokens c, t ≠ .mark [';'] ∧ t ≠ .mark ['\x7b'] ∧ t ≠ .mark ['\x7d'] := by
    unfold condTokens
    split <;> simp
  exact clausesFrom_append (hplain _ hcond front) rfl

/-- A line that ends by opening a block under a condition. -/
theorem read?_head {front : String} {ts left : List Token} {x : List Clause} {c : Cond}
    (htokens : tokensFrom .gap front.toList = some (ts, .gap)) (hclauses : clausesFrom [] ts = some (x, left))
    (hc : c.Routes) :
    read? (front ++ (c.text ++ (" \x7b" ++ "\n"))) = some (x ++ [.opening (left ++ condTokens c)]) := by
  refine read?_eq_some.mpr ⟨ts ++ (condTokens c ++ [.mark ['\x7b']]), ?_, ?_⟩
  · rw [String.toList_append]
    exact tokensFrom_append htokens (tokensFrom_cond hc)
  · exact clausesFrom_append hclauses (clausesFrom_condTokens c left)

theorem statements?_eq_some {line : String} {sts : List Statement} (h : statements? line = some sts) :
    read? (line ++ "\n") = some (sts.map .statement) ∧ ∀ ts ∈ sts, ts.isSimple = true := by
  obtain ⟨clauses, hread, hmap⟩ := Option.bind_eq_some_iff.mp h
  have hall : clauses = sts.map .statement ∧ ∀ ts ∈ sts, ts.isSimple = true := by
    clear hread h
    induction clauses generalizing sts with
    | nil =>
      cases Option.some.inj hmap
      simp
    | cons clause clauses ih =>
      rw [List.mapM_cons] at hmap
      obtain ⟨ts, hts, hmap⟩ := Option.bind_eq_some_iff.mp hmap
      obtain ⟨rest, hrest, hmap⟩ := Option.bind_eq_some_iff.mp hmap
      cases Option.some.inj hmap
      obtain ⟨rfl, hsimple⟩ := ih hrest
      cases clause with
      | statement us =>
        simp only [Clause.statement?, Option.ite_none_right_eq_some, Option.some.injEq] at hts
        obtain ⟨hus, rfl⟩ := hts
        exact ⟨rfl, List.forall_mem_cons.mpr ⟨hus, hsimple⟩⟩
      | opening us => cases hts
      | closing => cases hts
  exact ⟨hall.1 ▸ hread, hall.2⟩

/-- A text as a line of its own says the same at every depth. -/
theorem read?_line {text : String} {x : List Clause} (h : read? (text ++ "\n") = some x) (w : Writer) :
    ∃ added, (w.line text).text = w.text ++ added ∧ read? added = some x := by
  refine ⟨Writer.indented w.depth text ++ "\n", ?_, ?_⟩
  · rw [Writer.line, String.append_assoc]
  · unfold Writer.indented
    split
    next hempty => rwa [← String.isEmpty_iff.mp hempty]
    next =>
      -- blanks before a line leave a gap, where reading begins
      have hblanks : ∀ n, tokensFrom .gap (List.replicate n ' ') = some ([], .gap) := by
        intro n
        induction n with
        | zero => rfl
        | succ n ih =>
          have hblank : Place.next .gap ' ' = some ([], .gap) := by decide
          simp [List.replicate_succ, tokensFrom, hblank, ih]
      have hindent : read? (Writer.indentation w.depth) = some [] := by
        refine read?_eq_some.mpr ⟨[], ?_, rfl⟩
        rw [Writer.indentation, String.toList_ofList]
        exact hblanks _
      rw [String.append_assoc]
      exact read?_append hindent h

end Branching

/-! ### Pieces -/

/-- The statements in the text of a statement. -/
def Stmt.statements (s : Stmt) : List Statement := (statements? s.render).getD []

/-- The text of a statement has only statements in it, or comments. -/
def Stmt.Readable (s : Stmt) : Prop := (statements? s.render).isSome = true

instance : DecidablePred Stmt.Readable := fun _ => inferInstanceAs (Decidable (_ = true))

theorem Stmt.Readable.spec {s : Stmt} (h : s.Readable) :
    read? (s.render ++ "\n") = some (s.statements.map .statement) ∧
      ∀ ts ∈ s.statements, ts.isSimple = true := by
  obtain ⟨sts, hsts⟩ := Option.isSome_iff_exists.mp h
  rw [statements, hsts]
  exact statements?_eq_some hsts

/-- The call of a function says one statement, if the name of the function is one word. -/
theorem Stmt.statements?_call {symbol : String} (hne : symbol.toList ≠ [])
    (hword : symbol.toList.all isWordChar = true) (hkeyword : symbol.toList ∉ keywords)
    (argsOffset : Nat) : statements? (Stmt.call symbol argsOffset).render
      = some [[.word symbol.toList, .mark ['('], .word (Nat.toDigits 10 argsOffset), .mark [')']]] := by
  have htext : (Stmt.call symbol argsOffset).render ++ "\n"
      = symbol ++ ("(" ++ (toString argsOffset ++ (");" ++ "\n"))) := by
    change symbol ++ "(" ++ toString argsOffset ++ ");" ++ "\n" = _
    simp only [String.append_assoc]
  have hbracket : "(".toList = ['('] := String.toList_ofList
  have hend : (");" ++ "\n").toList = [')', ';', '\n'] := by decide +kernel
  have hlist : ((Stmt.call symbol argsOffset).render ++ "\n").toList
      = symbol.toList ++ (['('] ++ (Nat.toDigits 10 argsOffset ++ [')', ';', '\n'])) := by
    rw [htext, String.toList_append, String.toList_append (s := "("),
      String.toList_append (s := toString argsOffset), toList_toString, hbracket, hend]
  have hopen (ds : List Char) : tokensFrom (.word ds) ['('] = some ([.word ds, .mark ['(']], .gap) := rfl
  have hclose (ds : List Char) : tokensFrom (.word ds) [')', ';', '\n']
      = some ([.word ds, .mark [')'], .mark [';']], .gap) := rfl
  have hsymbol := tokensFrom_word hne (List.all_eq_true.mp hword)
  have htokens := tokensFrom_append hsymbol (tokensFrom_append (hopen _)
    (tokensFrom_append (tokensFrom_toDigits argsOffset) (hclose _)))
  have hread : read? ((Stmt.call symbol argsOffset).render ++ "\n") = some [.statement
      [.word symbol.toList, .mark ['('], .word (Nat.toDigits 10 argsOffset), .mark [')']]] :=
    read?_eq_some.mpr ⟨_, hlist ▸ htokens, rfl⟩
  simp [statements?, hread, Clause.statement?, Statement.isSimple, hkeyword]

namespace Piece

/-- What the line of a piece says. -/
def clauses : Piece → List Clause
  | .line s => s.statements.map .statement
  | .branch c => [.opening (.word ['i', 'f'] :: condTokens c)]
  | .orBranch c => [.closing, .opening (.word ['e', 'l', 's', 'e'] :: .word ['i', 'f'] :: condTokens c)]
  | .otherwise => [.closing, .opening [.word ['e', 'l', 's', 'e']]]
  | .leave => [.closing]
  | _ => []

def Readable : Piece → Prop
  | .line s => s.Readable
  | .branch c => c.Routes
  | .orBranch c => c.Routes
  | .enter _ => False
  | _ => True

theorem read?_write {q : Piece} (h : q.Readable) (w : Writer) :
    ∃ added, (q.write w).text = w.text ++ added ∧ read? added = some q.clauses := by
  cases q with
  | line s => exact read?_line h.spec.1 w
  | blank => exact ⟨"\n", rfl, by decide +kernel⟩
  | enter head => cases h
  | branch c =>
    refine read?_line ?_ w
    have hif : tokensFrom .gap "if ".toList = some ([.word ['i', 'f']], .gap) := by decide +kernel
    have htext : "if " ++ c.text ++ " \x7b" ++ "\n" = "if " ++ (c.text ++ (" \x7b" ++ "\n")) := by
      simp only [String.append_assoc]
    exact htext ▸ read?_head hif rfl h
  | orBranch c =>
    refine read?_line ?_ w.lift
    have hif : tokensFrom .gap ("\x7d " ++ "else if ").toList = some ([.mark ['\x7d'],
        .word ['e', 'l', 's', 'e'], .word ['i', 'f']], .gap) := by decide +kernel
    have htext : "\x7d " ++ ("else if " ++ c.text) ++ " \x7b" ++ "\n"
        = "\x7d " ++ "else if " ++ (c.text ++ (" \x7b" ++ "\n")) := by
      simp only [String.append_assoc]
    exact htext ▸ read?_head hif rfl h
  | otherwise => exact read?_line (by decide +kernel) w.lift
  | leave => exact read?_line (by decide +kernel) w.lift

theorem read?_foldl {ps : List Piece} (h : ∀ q ∈ ps, q.Readable) (w : Writer) :
    ∃ added, (ps.foldl write w).text = w.text ++ added ∧ read? added = some (ps.flatMap clauses) := by
  induction ps generalizing w with
  | nil => exact ⟨"", by simp, rfl⟩
  | cons q ps ih =>
    obtain ⟨hq, hps⟩ := List.forall_mem_cons.mp h
    obtain ⟨first, hfirst, hread⟩ := read?_write hq w
    obtain ⟨rest, hrest, hread'⟩ := ih hps (q.write w)
    exact ⟨first ++ rest, by rw [List.foldl_cons, hrest, hfirst, String.append_assoc],
      read?_append hread hread'⟩

end Piece

end KernelFusion
