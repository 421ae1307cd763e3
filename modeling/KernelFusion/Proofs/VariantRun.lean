import KernelFusion.Proofs.PieceText

/-!
Running the clauses of a choice between variants.

A branch that is passed over changes nothing, whatever blocks it has inside. Of the branches of the
variants the one is run whose remainder is that of the core number. The last branch has no test: it is
reached when the remainder is none of those before, so that its own is the only one left.
-/

namespace KernelFusion

namespace Branching

/-! ### Conditions -/

theorem test_onDomain (d : Domain) : Test.ofTokens? (condTokens (.onDomain d)) = some (.onDomain d) := by
  cases d <;> decide +kernel

theorem readAll_cons {s s' : List Waiting × Option Expr} {t : Token} (h : Expr.read s t = some s')
    (ts : List Token) : (t :: ts).foldlM Expr.read s = ts.foldlM Expr.read s' := by
  rw [List.foldlM_cons, h]
  rfl

section Comparison

variable {a b c : List Char} {m n : Nat}

/-- A call is compared with a number, as in `a() < b`. -/
theorem ofTokens?_less (ha : Expr.ofWord? a = some (.name a)) (hb : Expr.ofWord? b = some (.number n)) :
    Expr.ofTokens? [.word a, .mark ['('], .mark [')'], .mark ['<'], .word b]
      = some (.binary .less (.call a) (.number n)) := by
  have hfirst : Expr.read ([], none) (.word a) = some ([], some (.name a)) :=
    congrArg (Option.map fun e => (([] : List Waiting), some e)) ha
  have hsecond : Expr.read ([.operator (.call a) .less], none) (.word b)
      = some ([.operator (.call a) .less], some (.number n)) :=
    congrArg (Option.map fun e => ([Waiting.operator (.call a) .less], some e)) hb
  rw [Expr.ofTokens?, readAll_cons hfirst, readAll_cons rfl, readAll_cons rfl, readAll_cons rfl,
    readAll_cons hsecond]
  rfl

/-- A remainder is compared with a number, as in `(a % b) == c`. -/
theorem ofTokens?_remainder (htype : a ≠ narrowType) (ha : Expr.ofWord? a = some (.name a))
    (hb : Expr.ofWord? b = some (.number m)) (hc : Expr.ofWord? c = some (.number n)) :
    Expr.ofTokens? [.mark ['('], .word a, .mark ['%'], .word b, .mark [')'], .mark ['=', '='], .word c]
      = some (.binary .equal (.binary .remainder (.name a) (.number m)) (.number n)) := by
  have hopen : Expr.read ([], none) (.mark ['(']) = some ([.bracket], none) := rfl
  have hfirst : Expr.read ([.bracket], none) (.word a) = some ([.bracket], some (.name a)) := by
    -- a word behind a bracket may also be the name of a type
    have hread : Expr.read ([.bracket], none) (.word a) = if a = narrowType then some ([.typeBracket], none)
        else (Expr.ofWord? a).map fun e => ([.bracket], some e) := rfl
    rw [hread, if_neg htype, ha]
    rfl
  have hsecond : Expr.read ([.operator (.name a) .remainder, .bracket], none) (.word b)
      = some ([.operator (.name a) .remainder, .bracket], some (.number m)) :=
    congrArg (Option.map fun e => ([Waiting.operator (.name a) .remainder, .bracket], some e)) hb
  have hthird (e : Expr) : Expr.read ([.operator e .equal], none) (.word c)
      = some ([.operator e .equal], some (.number n)) :=
    congrArg (Option.map fun r => ([Waiting.operator e .equal], some r)) hc
  rw [Expr.ofTokens?, readAll_cons hopen, readAll_cons hfirst, readAll_cons rfl, readAll_cons hsecond,
    readAll_cons rfl, readAll_cons rfl, readAll_cons (hthird _)]
  rfl

end Comparison

theorem test_blockBelow (index : BlockIndex) (n : Nat) :
    Test.ofTokens? (condTokens (.blockBelow index (.count n)))
      = some (.holds (.binary .less (.call index.function.toList) (.number n))) := by
  have hname : Expr.ofWord? index.function.toList = some (.name index.function.toList) := by
    cases index <;> decide +kernel
  exact congrArg (Option.map Test.holds) (ofTokens?_less hname (ofWord?_toDigits n))

theorem test_coreIs (split remainder : Nat) : Test.ofTokens? (condTokens (.coreIs split remainder))
    = some (.holds (.binary .equal (.binary .remainder (.name coreWord) (.number split))
      (.number remainder))) := by
  have hname : Expr.ofWord? coreWord = some (.name coreWord) := by decide +kernel
  have htype : coreWord ≠ narrowType := by decide +kernel
  exact congrArg (Option.map Test.holds)
    (ofTokens?_remainder htype hname (ofWord?_toDigits split) (ofWord?_toDigits remainder))

theorem exists_test {c : Cond} (hc : c.Routes) : ∃ t, Test.ofTokens? (condTokens c) = some t := by
  cases c with
  | onDomain d => exact ⟨_, test_onDomain d⟩
  | blockBelow index limit =>
    cases limit with
    | count n => exact ⟨_, test_blockBelow index n⟩
    | runtime e => cases hc
  | coreIs split remainder => exact ⟨_, test_coreIs split remainder⟩
  | _ => cases hc

theorem branch_first {ts : List Token} {t : Test} (h : Test.ofTokens? ts = some t) :
    Branch.ofTokens? (.word ['i', 'f'] :: ts) = some (.first t) := by
  simp [Branch.ofTokens?, h]

theorem branch_next {ts : List Token} {t : Test} (h : Test.ofTokens? ts = some t) :
    Branch.ofTokens? (.word ['e', 'l', 's', 'e'] :: .word ['i', 'f'] :: ts) = some (.next t) := by
  simp [Branch.ofTokens?, h]

/-! ### What is passed over -/

variable {u : Machine} {s : State}

theorem isActive_dead {base : List Frame} (hbase : isActive base = false) (n : Nat) :
    isActive (List.replicate n .dead ++ base) = false := by
  cases n with
  | zero => exact hbase
  | succ n => rfl

theorem run_statements_idle {sts : List Statement} (hsimple : ∀ ts ∈ sts, ts.isSimple = true)
    (hidle : isActive s.frames = false) :
    ∃ b, (sts.map .statement).foldlM u.run s = some { s with behind := b } := by
  induction sts generalizing s with
  | nil => exact ⟨s.behind, rfl⟩
  | cons ts sts ih =>
    obtain ⟨hts, hsimple⟩ := List.forall_mem_cons.mp hsimple
    have hrun : u.run s (.statement ts) = some { s with behind := none } := by
      simp [Machine.run, hts, hidle]
    rw [List.map_cons, List.foldlM_cons, hrun]
    exact ih hsimple hidle

theorem run_closing {f : Frame} {fs : List Frame} (hs : s.frames = f :: fs) : u.run s .closing
    = some ⟨fs, if f = .ran then [] else s.known, s.trace, some f.taken⟩ := by
  simp [Machine.run, hs]

/-- A piece inside of a branch that is not run opens and closes dead blocks, and does nothing else. -/
theorem run_piece_idle {q : Piece} {n k : Nat} {base : List Frame} (hq : q.Readable)
    (hlevel : q.level n = some k) (hbase : isActive base = false)
    (hs : s.frames = List.replicate n .dead ++ base) : ∃ b, q.clauses.foldlM u.run s
      = some { s with frames := List.replicate k .dead ++ base, behind := b } := by
  have hidle : isActive s.frames = false := hs ▸ isActive_dead hbase n
  cases q with
  | line st =>
    cases Option.some.inj hlevel
    obtain ⟨b, hrun⟩ := run_statements_idle (u := u) hq.spec.2 hidle
    exact ⟨b, hs ▸ hrun⟩
  | blank =>
    cases Option.some.inj hlevel
    exact ⟨s.behind, hs ▸ rfl⟩
  | enter head => cases hq
  | branch c =>
    cases Option.some.inj hlevel
    obtain ⟨t, ht⟩ := exists_test hq
    refine ⟨none, ?_⟩
    simp [Piece.clauses, Machine.run, branch_first ht, Machine.enter, hs, isActive_dead hbase,
      List.replicate_succ]
  | orBranch c =>
    cases n with
    | zero => cases hlevel
    | succ n =>
      cases Option.some.inj hlevel
      obtain ⟨t, ht⟩ := exists_test hq
      refine ⟨none, ?_⟩
      rw [List.replicate_succ, List.cons_append] at hs ⊢
      rw [Piece.clauses, List.foldlM_cons, run_closing hs]
      simp [Machine.run, branch_next ht, Machine.enter, isActive_dead hbase]
  | otherwise =>
    cases n with
    | zero => cases hlevel
    | succ n =>
      cases Option.some.inj hlevel
      refine ⟨none, ?_⟩
      rw [List.replicate_succ, List.cons_append] at hs ⊢
      rw [Piece.clauses, List.foldlM_cons, run_closing hs]
      simp [Machine.run, Branch.ofTokens?, Machine.enter, isActive_dead hbase]
  | leave =>
    cases n with
    | zero => cases hlevel
    | succ n =>
      cases Option.some.inj hlevel
      rw [List.replicate_succ, List.cons_append] at hs
      exact ⟨some true, by simp [Piece.clauses, run_closing hs, Frame.taken]⟩

theorem run_pieces_idle {ps : List Piece} {n k : Nat} {base : List Frame} (hps : ∀ q ∈ ps, q.Readable)
    (hlevel : ps.foldlM Piece.level n = some k) (hbase : isActive base = false)
    (hs : s.frames = List.replicate n .dead ++ base) : ∃ b, (ps.flatMap Piece.clauses).foldlM u.run s
      = some { s with frames := List.replicate k .dead ++ base, behind := b } := by
  induction ps generalizing s n with
  | nil =>
    cases Option.some.inj hlevel
    exact ⟨s.behind, hs ▸ rfl⟩
  | cons q ps ih =>
    obtain ⟨hq, hps⟩ := List.forall_mem_cons.mp hps
    obtain ⟨m, hlevel, hrest⟩ := Option.bind_eq_some_iff.mp hlevel
    obtain ⟨b, hfirst⟩ := run_piece_idle (u := u) hq hlevel hbase hs
    rw [List.flatMap_cons, List.foldlM_append, hfirst]
    exact ih hps hrest rfl

/-! ### What is run -/

/-- Clauses lead from a state to one with these blocks open, and statements are run on the way. -/
def Machine.Leads (u : Machine) (s : State) (clauses : List Clause) (frames : List Frame)
    (ran : List Statement) : Prop :=
  ∃ s', clauses.foldlM u.run s = some s' ∧ s'.frames = frames ∧ s'.trace = s.trace ++ ran

variable {x y : List Clause} {fs fs' base : List Frame} {ran ran' : List Statement} {f : Frame}

theorem Machine.Leads.append (h : u.Leads s x fs ran)
    (h' : ∀ s', s'.frames = fs → u.Leads s' y fs' ran') : u.Leads s (x ++ y) fs' (ran ++ ran') := by
  obtain ⟨s₁, hx, hfs, htrace⟩ := h
  obtain ⟨s₂, hy, hfs', htrace'⟩ := h' s₁ hfs
  refine ⟨s₂, ?_, hfs', by rw [htrace', htrace, List.append_assoc]⟩
  rw [List.foldlM_append, hx]
  exact hy

/-- From a state behind some clauses that run nothing. -/
theorem Machine.Leads.after {s' : State} (hx : x.foldlM u.run s = some s') (htrace : s'.trace = s.trace)
    (h : u.Leads s' y fs ran) : u.Leads s (x ++ y) fs ran := by
  obtain ⟨s₂, hy, hfs, htrace'⟩ := h
  refine ⟨s₂, ?_, hfs, by rw [htrace', htrace]⟩
  rw [List.foldlM_append, hx]
  exact hy

theorem leads_statements {sts : List Statement} (hsimple : ∀ ts ∈ sts, ts.isSimple = true)
    (hactive : isActive s.frames = true) : u.Leads s (sts.map .statement) s.frames sts := by
  induction sts generalizing s with
  | nil => exact ⟨s, rfl, rfl, by simp⟩
  | cons ts sts ih =>
    obtain ⟨hts, hsimple⟩ := List.forall_mem_cons.mp hsimple
    obtain ⟨s', hrun, hframes, htrace⟩ := ih (s := { s with
      known := u.learn s.known ts, trace := s.trace ++ [ts], behind := none }) hsimple hactive
    refine ⟨s', ?_, hframes, by simp [htrace]⟩
    have hfirst : u.run s (.statement ts) = some { s with
        known := u.learn s.known ts, trace := s.trace ++ [ts], behind := none } := by
      simp [Machine.run, hts, hactive]
    rw [List.map_cons, List.foldlM_cons, hfirst]
    exact hrun

/-! ### Lines -/

theorem readable_lines {ss : List Stmt} (hss : ∀ t ∈ ss, t.Readable) :
    ∀ q ∈ ss.map Piece.line, q.Readable := by
  intro q hq
  obtain ⟨t, ht, rfl⟩ := List.mem_map.mp hq
  exact hss t ht

theorem clauses_lines (ss : List Stmt) : (ss.map Piece.line).flatMap Piece.clauses
    = (ss.flatMap Stmt.statements).map .statement := by
  simp [Piece.clauses, List.flatMap_map, List.map_flatMap]

theorem simple_lines {ss : List Stmt} (hss : ∀ t ∈ ss, t.Readable) :
    ∀ ts ∈ ss.flatMap Stmt.statements, ts.isSimple = true := by
  intro ts hts
  obtain ⟨t, ht, hts⟩ := List.mem_flatMap.mp hts
  exact (hss t ht).spec.2 ts hts

theorem leads_lines {ss : List Stmt} (hss : ∀ t ∈ ss, t.Readable) (hactive : isActive s.frames = true) :
    u.Leads s ((ss.map Piece.line).flatMap Piece.clauses) s.frames (ss.flatMap Stmt.statements) := by
  rw [clauses_lines]
  exact leads_statements (simple_lines hss) hactive

/-! ### Blocks -/

theorem leads_leave (hs : s.frames = f :: fs) : u.Leads s Piece.leave.clauses fs [] :=
  ⟨_, by simp [Piece.clauses, run_closing hs]; rfl, rfl, by simp⟩

/-- Code is passed over. -/
theorem leads_idle {c : Code} (hc : ∀ q ∈ c.pieces, q.Readable) (hidle : isActive s.frames = false) :
    u.Leads s (c.pieces.flatMap Piece.clauses) s.frames [] := by
  obtain ⟨b, hrun⟩ := run_pieces_idle (u := u) (n := 0) hc (c.level_pieces 0) hidle rfl
  exact ⟨_, hrun, rfl, by simp⟩

theorem run_branch {c : Cond} {t : Test} {holds : Bool} (ht : Test.ofTokens? (condTokens c) = some t)
    (hactive : isActive s.frames = true) (heval : t.eval u.domain u.answer s.known = some holds) :
    (Piece.branch c).clauses.foldlM u.run s
      = some { s with frames := .ofTest holds :: s.frames, behind := none } := by
  simp [Piece.clauses, Machine.run, branch_first ht, Machine.enter, hactive, heval]

/-- Behind a branch that was passed over, and with none run before, the next condition is tested. -/
theorem run_orBranch {c : Cond} {t : Test} {holds : Bool} (ht : Test.ofTokens? (condTokens c) = some t)
    (hs : s.frames = .passed false :: base) (hactive : isActive base = true)
    (heval : t.eval u.domain u.answer s.known = some holds) : (Piece.orBranch c).clauses.foldlM u.run s
      = some { s with frames := .ofTest holds :: base, behind := none } := by
  rw [Piece.clauses, List.foldlM_cons, run_closing hs]
  simp [Machine.run, branch_next ht, Machine.enter, hactive, heval, Frame.taken]

theorem run_orBranch_taken {c : Cond} (hc : c.Routes) (hs : s.frames = f :: base) (hf : f.taken = true)
    (hactive : isActive base = true) : ∃ known, (Piece.orBranch c).clauses.foldlM u.run s
      = some ⟨.passed true :: base, known, s.trace, none⟩ := by
  obtain ⟨t, ht⟩ := exists_test hc
  refine ⟨if f = .ran then [] else s.known, ?_⟩
  rw [Piece.clauses, List.foldlM_cons, run_closing hs, hf]
  simp [Machine.run, branch_next ht, Machine.enter, hactive]

theorem run_otherwise (hs : s.frames = f :: base) (hactive : isActive base = true) :
    ∃ known, Piece.otherwise.clauses.foldlM u.run s
      = some ⟨(if f.taken then .passed true else .ran) :: base, known, s.trace, none⟩ := by
  refine ⟨if f = .ran then [] else s.known, ?_⟩
  rw [Piece.clauses, List.foldlM_cons, run_closing hs]
  simp [Machine.run, Branch.ofTokens?, Machine.enter, hactive]

/-! ### Variants -/

section Variants

variable {tail : Option Stmt} {split core : Nat} {st : Stmt} {ss : List Stmt}

/-- What a variant runs. -/
def bodyStatements (tail : Option Stmt) (st : Stmt) : List Statement :=
  (st :: tail.toList).flatMap Stmt.statements

theorem clauses_variantBody (tail : Option Stmt) (st : Stmt) :
    (variantBody tail st).pieces.flatMap Piece.clauses = (bodyStatements tail st).map .statement := by
  rw [pieces_variantBody]
  exact clauses_lines (st :: tail.toList)

theorem readable_body_lines (htail : ∀ t ∈ tail, t.Readable) (hst : st.Readable) :
    ∀ t ∈ st :: tail.toList, t.Readable :=
  List.forall_mem_cons.mpr ⟨hst, fun t ht => htail t (Option.mem_toList.mp ht)⟩

theorem simple_bodyStatements (htail : ∀ t ∈ tail, t.Readable) (hst : st.Readable) :
    ∀ ts ∈ bodyStatements tail st, ts.isSimple = true :=
  simple_lines (readable_body_lines htail hst)

/-- Clauses of the branches from one on. -/
def armClauses (split : Nat) (tail : Option Stmt) (i : Nat) (ss : List Stmt) : List Clause :=
  (variantArms split tail i ss).pieces.flatMap Piece.clauses

/-- Behind a branch that was run, none of the others is. -/
theorem leads_arms_taken (htail : ∀ t ∈ tail, t.Readable) (hss : ∀ t ∈ ss, t.Readable)
    (hs : s.frames = f :: base) (hf : f.taken = true) (hactive : isActive base = true) (i : Nat) :
    ∃ f', u.Leads s (armClauses split tail i ss) (f' :: base) [] := by
  induction ss generalizing i s f with
  | nil => exact ⟨f, s, rfl, hs, by simp⟩
  | cons st ss ih =>
    obtain ⟨hst, hss⟩ := List.forall_mem_cons.mp hss
    have hsimple := simple_bodyStatements htail hst
    cases ss with
    | nil =>
      obtain ⟨known, hrun⟩ := run_otherwise (u := u) hs hactive
      rw [hf, if_pos rfl] at hrun
      rw [armClauses, pieces_variantArms_last, List.flatMap_cons, clauses_variantBody]
      obtain ⟨b, hbody⟩ := run_statements_idle (u := u)
        (s := ⟨.passed true :: base, known, s.trace, none⟩) hsimple rfl
      exact ⟨_, .after hrun rfl ⟨_, hbody, rfl, by simp⟩⟩
    | cons t ss =>
      obtain ⟨known, hrun⟩ := run_orBranch_taken (u := u) (c := .coreIs split i) trivial hs hf hactive
      obtain ⟨b, hbody⟩ := run_statements_idle (u := u)
        (s := ⟨.passed true :: base, known, s.trace, none⟩) hsimple rfl
      obtain ⟨f', hrest⟩ := ih (s := ⟨.passed true :: base, known, s.trace, b⟩) hss rfl rfl (i + 1)
      rw [armClauses, pieces_variantArms_cons, List.cons_append, List.flatMap_cons,
        List.flatMap_append, clauses_variantBody]
      exact ⟨f', .after hrun rfl (.after hbody rfl hrest)⟩

theorem eval_coreIs (hknown : s.known.lookup coreWord = some core) (hsplit : 0 < split)
    (remainder : Nat) : (Test.holds (.binary .equal (.binary .remainder (.name coreWord) (.number split))
      (.number remainder))).eval u.domain u.answer s.known = some (decide (core % split = remainder)) := by
  have hne : split ≠ 0 := Nat.ne_of_gt hsplit
  by_cases h : core % split = remainder <;> simp [Test.eval, Expr.eval, hknown, BinaryOp.apply, hne, h]

/-- From inside a branch whose condition was tested: it is the one that is run, or one behind it is. -/
theorem leads_tested {i : Nat} (htail : ∀ t ∈ tail, t.Readable) (hst : st.Readable)
    (hss : ∀ t ∈ ss, t.Readable) (hs : s.frames = .ofTest (decide (core % split = i)) :: base)
    (hactive : isActive base = true) (hknown : s.known.lookup coreWord = some core)
    (hlow : i ≤ core % split)
    (hrest : i + 1 ≤ core % split → ∀ s', s'.frames = .passed false :: base →
      s'.known.lookup coreWord = some core → ∃ st', ss[core % split - (i + 1)]? = some st' ∧
        ∃ f', u.Leads s' (armClauses split tail (i + 1) ss) (f' :: base) (bodyStatements tail st')) :
    ∃ st', (st :: ss)[core % split - i]? = some st' ∧ ∃ f', u.Leads s
      ((bodyStatements tail st).map .statement ++ armClauses split tail (i + 1) ss) (f' :: base)
      (bodyStatements tail st') := by
  have hsimple := simple_bodyStatements htail hst
  by_cases hi : core % split = i
  · -- this variant is run, and all branches behind it are passed over
    rw [decide_eq_true hi] at hs
    have hran : isActive s.frames = true := by
      rw [hs]
      rfl
    obtain ⟨s', hbody, hframes, htrace⟩ := leads_statements (u := u) hsimple hran
    obtain ⟨f', s'', hlast, hframes', htrace'⟩ :
        ∃ f', u.Leads s' (armClauses split tail (i + 1) ss) (f' :: base) [] :=
      leads_arms_taken htail hss (hframes.trans hs) rfl hactive (i + 1)
    refine ⟨st, by rw [hi, Nat.sub_self]; rfl, f', s'', ?_, hframes', ?_⟩
    · rw [List.foldlM_append, hbody]
      exact hlast
    · rw [htrace', List.append_nil, htrace]
  · -- passed over: in what is left of the variants, the one to run is one place nearer
    rw [decide_eq_false hi] at hs
    have hnext : core % split - i = core % split - (i + 1) + 1 := by omega
    have hidle : isActive s.frames = false := by
      rw [hs]
      rfl
    obtain ⟨b, hbody⟩ := run_statements_idle (u := u) hsimple hidle
    obtain ⟨st', hget, f', hlast⟩ := hrest (by omega) { s with behind := b } hs hknown
    exact ⟨st', by rw [hnext, List.getElem?_cons_succ, hget], f', .after hbody rfl hlast⟩

/-- Behind branches whose remainders are below that of the core number, the branch with its remainder is
run. The last branch has no test, and only its remainder is left. -/
theorem leads_arms (htail : ∀ t ∈ tail, t.Readable) (hss : ∀ t ∈ ss, t.Readable)
    (hs : s.frames = .passed false :: base) (hactive : isActive base = true)
    (hknown : s.known.lookup coreWord = some core) (hsplit : 0 < split) {i : Nat}
    (hlow : i ≤ core % split) (hhigh : core % split < i + ss.length) :
    ∃ st, ss[core % split - i]? = some st ∧
      ∃ f', u.Leads s (armClauses split tail i ss) (f' :: base) (bodyStatements tail st) := by
  induction ss generalizing i s with
  | nil =>
    rw [List.length_nil] at hhigh
    omega
  | cons st ss ih =>
    obtain ⟨hst, hss⟩ := List.forall_mem_cons.mp hss
    rw [armClauses]
    cases ss with
    | nil =>
      -- no test: with one variant left, the bounds on the remainder leave only its own
      have hi : core % split - i = 0 := by
        rw [List.length_singleton] at hhigh
        omega
      obtain ⟨known, hrun⟩ := run_otherwise (u := u) hs hactive
      rw [pieces_variantArms_last, List.flatMap_cons, clauses_variantBody]
      exact ⟨st, by rw [hi]; rfl, .ran,
        .after hrun rfl (leads_statements (simple_bodyStatements htail hst) rfl)⟩
    | cons t ss =>
      have hrun := run_orBranch (u := u) (test_coreIs split i) hs hactive (eval_coreIs hknown hsplit i)
      rw [List.length_cons] at hhigh
      obtain ⟨st', hget, f', hlead⟩ := leads_tested (u := u)
        (s := { s with frames := .ofTest (decide (core % split = i)) :: base, behind := none })
        htail hst hss rfl hactive hknown hlow
        fun hnext s' hs' hknown' => ih hss hs' hknown' hnext (by omega)
      rw [pieces_variantArms_cons, List.cons_append, List.flatMap_cons, List.flatMap_append,
        clauses_variantBody]
      exact ⟨st', hget, f', .after hrun rfl hlead⟩

/-- Clauses of the choice between the variants. -/
def choiceClauses (tail : Option Stmt) (st : Stmt) (ss : List Stmt) : List Clause :=
  (Piece.branch (.coreIs (ss.length + 1) 0)).clauses
    ++ ((bodyStatements tail st).map .statement ++ armClauses (ss.length + 1) tail 1 ss
    ++ Piece.leave.clauses)

/-- Where the core number is known, the variant of its remainder is run, and no other. -/
theorem leads_choice (htail : ∀ t ∈ tail, t.Readable) (hst : st.Readable) (hss : ∀ t ∈ ss, t.Readable)
    (hactive : isActive s.frames = true) (hknown : s.known.lookup coreWord = some core) :
    ∃ st', (st :: ss)[core % (ss.length + 1)]? = some st' ∧
      u.Leads s (choiceClauses tail st ss) s.frames (bodyStatements tail st') := by
  have hpos : 0 < ss.length + 1 := Nat.succ_pos _
  have hbelow : core % (ss.length + 1) < ss.length + 1 := Nat.mod_lt _ hpos
  have hbranch := run_branch (u := u) (test_coreIs (ss.length + 1) 0) hactive (eval_coreIs hknown hpos 0)
  obtain ⟨st', hget, f', hlead⟩ := leads_tested (u := u)
    (s := { s with frames := .ofTest (decide (core % (ss.length + 1) = 0)) :: s.frames, behind := none })
    htail hst hss rfl hactive hknown (Nat.zero_le _)
    fun hnext s' hs' hknown' => leads_arms htail hss hs' hactive hknown' hpos hnext (by omega)
  refine ⟨st', hget, ?_⟩
  have hall := Machine.Leads.after hbranch rfl (hlead.append fun s' hs' => leads_leave hs')
  rwa [List.append_nil] at hall

/-- The word for the core number. -/
def coreFunction : List Char := "get_coreid".toList

theorem readable_readCore : Stmt.readCore.Readable := by decide +kernel

theorem run_readCore (hcore : u.answer coreFunction = some core) (hactive : isActive s.frames = true) :
    (Piece.line .readCore).clauses.foldlM u.run s = some { s with
      known := (coreWord, core % 256) :: s.known
      trace := s.trace ++ Stmt.readCore.statements
      behind := none } := by
  obtain ⟨ts, hts, hsimple, hdeclares⟩ : ∃ ts : Statement, Stmt.readCore.statements = [ts] ∧
      ts.isSimple = true ∧ ts.declaration? = some (coreWord, .narrowed (.call coreFunction)) :=
    ⟨[.word narrowType, .word coreWord, .mark ['='], .mark ['('], .word narrowType, .mark [')'],
      .word coreFunction, .mark ['('], .mark [')']], by decide +kernel, by decide +kernel,
      by decide +kernel⟩
  simp [Piece.clauses, hts, Machine.run, hsimple, hactive, Machine.learn, hdeclares, Expr.eval, hcore]

/-- The statement that reads the core number, if there is a choice. -/
def coreStatements (split : Nat) : List Statement := if split = 1 then [] else Stmt.readCore.statements

/-- A unit runs the variant of its core number, which has eight bits, and no other. -/
theorem leads_variantChain {variants : List Stmt} (hne : variants ≠ []) (htail : ∀ t ∈ tail, t.Readable)
    (hvariants : ∀ t ∈ variants, t.Readable) (hcore : u.answer coreFunction = some core)
    (hactive : isActive s.frames = true) :
    ∃ st, variants[core % 256 % variants.length]? = some st ∧
      u.Leads s ((variantChain variants tail).pieces.flatMap Piece.clauses) s.frames
        (coreStatements variants.length ++ bodyStatements tail st) := by
  cases variants with
  | nil => cases hne rfl
  | cons st ss =>
    obtain ⟨hst, hss⟩ := List.forall_mem_cons.mp hvariants
    have hsimple := simple_bodyStatements htail hst
    cases ss with
    | nil =>
      refine ⟨st, by simp [Nat.mod_one], ?_⟩
      rw [pieces_variantChain_one, clauses_variantBody]
      exact leads_statements hsimple hactive
    | cons t ss =>
      have hknown : List.lookup coreWord ((coreWord, core % 256) :: s.known) = some (core % 256) := by
        simp
      have hread := run_readCore hcore hactive
      obtain ⟨st', hget, s', hrun, hframes, htrace⟩ := leads_choice (u := u)
        (s := ⟨s.frames, (coreWord, core % 256) :: s.known, s.trace ++ Stmt.readCore.statements, none⟩)
        htail hst hss hactive hknown
      refine ⟨st', hget, s', ?_, hframes, ?_⟩
      · have hchain : (variantChain (st :: t :: ss) tail).pieces.flatMap Piece.clauses
            = (Piece.line .readCore).clauses ++ choiceClauses tail st (t :: ss) := by
          rw [pieces_variantChain_cons, choiceClauses, ← clauses_variantBody]
          simp only [List.cons_append, List.flatMap_cons, List.flatMap_append, List.flatMap_nil,
            List.append_nil, armClauses, List.append_assoc, List.length_cons]
        rw [hchain, List.foldlM_append, hread]
        exact hrun
      · rw [htrace]
        simp [coreStatements]

theorem readable_variantBody (htail : ∀ t ∈ tail, t.Readable) (hst : st.Readable) :
    ∀ q ∈ (variantBody tail st).pieces, q.Readable := by
  rw [pieces_variantBody]
  exact readable_lines (readable_body_lines htail hst)

theorem readable_variantArms (htail : ∀ t ∈ tail, t.Readable) (hss : ∀ t ∈ ss, t.Readable) (i : Nat) :
    ∀ q ∈ (variantArms split tail i ss).pieces, q.Readable := by
  induction ss generalizing i with
  | nil => simp
  | cons st ss ih =>
    obtain ⟨hst, hss⟩ := List.forall_mem_cons.mp hss
    have hbody := readable_variantBody htail hst
    cases ss with
    | nil => exact List.forall_mem_cons.mpr ⟨trivial, hbody⟩
    | cons t ss =>
      refine List.forall_mem_cons.mpr ⟨trivial, fun q hq => ?_⟩
      exact (List.mem_append.mp hq).elim (hbody q) (ih hss (i + 1) q)

theorem readable_variantChain (htail : ∀ t ∈ tail, t.Readable) (hss : ∀ t ∈ ss, t.Readable) :
    ∀ q ∈ (variantChain ss tail).pieces, q.Readable := by
  cases ss with
  | nil =>
    rw [pieces_variantChain_nil]
    exact readable_lines fun t ht => htail t (Option.mem_toList.mp ht)
  | cons st ss =>
    obtain ⟨hst, hss⟩ := List.forall_mem_cons.mp hss
    have hbody := readable_variantBody htail hst
    cases ss with
    | nil => exact hbody
    | cons t ss =>
      refine List.forall_mem_cons.mpr
        ⟨readable_readCore, List.forall_mem_cons.mpr ⟨trivial, fun q hq => ?_⟩⟩
      rcases List.mem_append.mp hq with hq | hq
      · exact (List.mem_append.mp hq).elim (hbody q) (readable_variantArms htail hss 1 q)
      · rw [List.mem_singleton.mp hq]
        trivial

end Variants

end Branching

end KernelFusion
