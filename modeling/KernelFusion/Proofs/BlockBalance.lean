import KernelFusion.Proofs.EmittedCode
import KernelFusion.Proofs.PlainCode

/-!
Blocks in written text.

The writer counts the blocks that are open, and indents by that number. Closing a block where none is open
leaves the count at zero and goes unnoticed, so that a mistake would show only as text with a brace too
many. There is none: of the calls of a step, each one that closes a block finds one open that the same
calls have opened, and the braces of the text move with the blocks of the code, piece by piece.
-/

namespace KernelFusion

namespace Text

/-- The number of open braces behind a character; none where one is closed and none is open. -/
def braceLevel (n : Nat) (c : Char) : Option Nat :=
  if c = '\x7b' then some (n + 1)
  else if c = '\x7d' then (if n = 0 then none else some (n - 1))
  else some n

/-- Reading a text changes the number of open braces. -/
def Moves (s : String) (n k : Nat) : Prop := s.toList.foldlM braceLevel n = some k

/-- Every brace is closed behind the place where it is opened. -/
def Balanced (s : String) : Prop := Moves s 0 0

variable {s a b : String} {n m k : Nat}

theorem Moves.append (ha : Moves a n m) (hb : Moves b m k) : Moves (a ++ b) n k := by
  have ha : a.toList.foldlM braceLevel n = some m := ha
  rw [Moves, String.toList_append, List.foldlM_append, ha]
  exact hb

theorem Plain.moves (h : Plain s) (n : Nat) : Moves s n n := by
  have hchars : ∀ cs : List Char, (∀ c ∈ cs, c ≠ '\x7b' ∧ c ≠ '\x7d') →
      cs.foldlM braceLevel n = some n := by
    intro cs hcs
    induction cs with
    | nil => rfl
    | cons c cs ih =>
      obtain ⟨⟨hopen, hclose⟩, hcs⟩ := List.forall_mem_cons.mp hcs
      simp [braceLevel, hopen, hclose, ih hcs]
  exact hchars _ h

theorem moves_opening (n : Nat) : Moves " \x7b" n (n + 1) := by
  simp [Moves, braceLevel]

theorem moves_closing (n : Nat) : Moves "\x7d" (n + 1) n := by
  simp [Moves, braceLevel]

theorem Moves.indented (h : Moves s n k) (depth : Nat) : Moves (Writer.indented depth s) n k := by
  unfold Writer.indented
  split
  next hempty => rwa [← String.isEmpty_iff.mp hempty]
  next =>
    refine .append (Plain.moves ?_ n) h
    refine plain_literal (List.all_eq_true.mpr fun c hc => ?_)
    rw [(List.mem_replicate.mp hc).2]
    decide

/-- A text that changes the number of open braces, as a line of its own. -/
theorem Moves.line (h : Moves s n k) (w : Writer) :
    ∃ added, (w.line s).text = w.text ++ added ∧ Moves added n k := by
  refine ⟨Writer.indented w.depth s ++ "\n", ?_, .append (h.indented w.depth) ?_⟩
  · rw [Writer.line, String.append_assoc]
  · exact Plain.moves (plain_literal (by decide)) k

end Text

open Text

/-! ### One piece, and a run of pieces -/

namespace Piece

variable {q : Piece} {n k : Nat}

/-- A piece appends text, and the braces of that text change with the blocks. -/
theorem moves_write (hplain : q.Plain) (hq : q.level n = some k) (w : Writer) :
    ∃ added, (q.write w).text = w.text ++ added ∧ Moves added n k := by
  have hhead {s : String} (hs : Text.Plain s) (n : Nat) : Moves (s ++ " \x7b") n (n + 1) :=
    (hs.moves n).append (moves_opening n)
  have hif {c : Cond} (hc : c.Plain) : Text.Plain s!"if {c.text}" :=
    .append (plain_literal (by decide)) (Cond.plain_text hc)
  have hresume {s : String} (hs : Text.Plain s) (n : Nat) :
      Moves ("\x7d " ++ s ++ " \x7b") (n + 1) (n + 1) := by
    have hclose : Moves "\x7d " (n + 1) n := by simp [Moves, braceLevel]
    exact (hclose.append (hs.moves n)).append (moves_opening n)
  cases q with
  | line s =>
    cases Option.some.inj hq
    exact (Text.Plain.moves (Stmt.plain_render hplain) n).line w
  | blank =>
    cases Option.some.inj hq
    exact ⟨"\n", rfl, Text.Plain.moves (plain_literal (by decide)) n⟩
  | enter h =>
    cases Option.some.inj hq
    exact (hhead (Head.plain_text hplain) n).line w
  | branch c =>
    cases Option.some.inj hq
    exact (hhead (hif hplain) n).line w
  | orBranch c =>
    cases n with
    | zero => cases hq
    | succ m =>
      cases Option.some.inj hq
      exact (hresume (.append (plain_literal (by decide)) (Cond.plain_text hplain)) _).line w.lift
  | otherwise =>
    cases n with
    | zero => cases hq
    | succ n =>
      cases Option.some.inj hq
      exact (hresume (plain_literal (by decide)) _).line w.lift
  | leave =>
    cases n with
    | zero => cases hq
    | succ n =>
      cases Option.some.inj hq
      exact (moves_closing _).line w.lift

theorem moves_foldl {ps : List Piece} (hplain : ∀ q ∈ ps, q.Plain) (hps : ps.foldlM level n = some k)
    (w : Writer) : ∃ added, (ps.foldl write w).text = w.text ++ added ∧ Moves added n k := by
  induction ps generalizing n w with
  | nil =>
    cases Option.some.inj hps
    exact ⟨"", by simp, Text.Plain.moves plain_nil _⟩
  | cons q ps ih =>
    obtain ⟨hq, hplain⟩ := List.forall_mem_cons.mp hplain
    obtain ⟨m, hlevel, hps⟩ := Option.bind_eq_some_iff.mp hps
    obtain ⟨first, hfirst, hmoves⟩ := moves_write hq hlevel w
    obtain ⟨rest, hrest, hmoves'⟩ := ih hplain hps (q.write w)
    exact ⟨first ++ rest, by rw [List.foldl_cons, hrest, hfirst, String.append_assoc],
      hmoves.append hmoves'⟩

end Piece

/-- What calls do to a writer if they keep to their own blocks. -/
structure Writer.KeepsBlocks (w : Writer) (calls : List WriterCall) : Prop where
  depth : (w.run calls).depth = w.depth
  appends : ∃ added, (w.run calls).text = w.text ++ added ∧ Balanced added
  /-- where a call closes a block, one is open that was not open before all calls -/
  closes : ∀ front c back, calls = front ++ c :: back → c.closes = true → w.depth < (w.run front).depth

theorem Emits.keepsBlocks {calls : List WriterCall} {c : Code} (h : Emits calls c) (hplain : c.Plain)
    (w : Writer) : w.KeepsBlocks calls := by
  refine ⟨Writer.depth_run (n := 0) rfl (h.level 0), ?_, fun front call back hcalls hcloses => ?_⟩
  · rw [h.writes w, c.write_eq_foldl w]
    exact Piece.moves_foldl hplain (c.level_pieces 0) w
  · -- the level in front of the call is what the writer's depth has gained so far
    have hlevel := h.level 0
    rw [hcalls, List.foldlM_append] at hlevel
    obtain ⟨n, hfront, hrest⟩ := Option.bind_eq_some_iff.mp hlevel
    obtain ⟨k, hcall, _⟩ := Option.bind_eq_some_iff.mp hrest
    have hopen : 0 < n := WriterCall.level_pos hcall hcloses
    have hdepth : (w.run front).depth = w.depth + n := Writer.depth_run rfl hfront
    omega

/-- CORRECT: the calls for steps of an accepted request keep to their own blocks, whatever the writer has
open: those of every list of steps whose comments have no braces, for all units or for those of a domain,
and those of the functions of every dynamic operator. What they write is the code of the kernel. -/
theorem Launch.code_keeps_blocks {r : Request} {l : Launch} (hl : Generator.launch r = .ok l) :
    (∀ arch ss, (∀ s ∈ ss, s.Plain) → ∀ w : Writer, w.KeepsBlocks (Emit.steps l arch ss)) ∧
    (∀ o ∈ l.graph.operators, o.isDynamic = true → ∀ w : Writer, w.KeepsBlocks (Emit.functions o)) ∧
    (∀ arch ss, ∀ w : Writer, w.run (Emit.steps l arch ss) = (Body.steps l arch ss).write w) ∧
    ∀ o, ∀ w : Writer, w.run (Emit.functions o) = (Dynamic.functions o).write w := by
  have hnames := Generator.launch_plainNames hl
  refine ⟨fun arch ss hss w => ?_, fun o ho _ w => ?_, fun arch ss => (Emit.emits_steps ss).writes,
    fun o => (Emit.emits_functions o).writes⟩
  · exact (Emit.emits_steps ss).keepsBlocks (Body.plain_steps hnames hss arch) w
  · obtain ⟨op, _, rfl⟩ := exists_operator ho
    exact (Emit.emits_functions _).keepsBlocks (Dynamic.plain_functions (hnames op)) w

/-- A dynamic operator in front of a static one. -/
def Launch.pickedRequest : Request :=
  .ofOperators "split-mode=2" [
    .choosing "pick" .mixAic11 [⟨7, KernelType.aivOnly.name, ⟨some "pick_vec", none⟩⟩],
    .onStream 0 "fixed" .mixAic11 [] []]

/-- Inside of three blocks, steps of a domain with a choice between two variants; and the functions of the
dynamic operator outside of all blocks. -/
theorem Launch.pickedRequest_keepsBlocks :
    ∃ l, Generator.launch pickedRequest = .ok l ∧ (l.operator 0).isDynamic = true ∧
      Writer.KeepsBlocks ⟨"void f() \x7b\n", 3⟩ (Emit.steps l (some .vector) [.comment "// next",
        .barrier (.full "for the next"), .preload 1, .invoke 1, .lockReset 0]) ∧
      (Writer.start 0).KeepsBlocks (Emit.functions (l.operator 0)) := by
  obtain ⟨l, hl, htest⟩ : ∃ l, Generator.launch pickedRequest = .ok l ∧
      (l.operator 0).isDynamic = true := Generator.exists_of_test (by decide +kernel)
  obtain ⟨hsteps, hfunctions, -⟩ := code_keeps_blocks hl
  refine ⟨l, hl, htest, hsteps _ _ (fun s hs => ?_) _, hfunctions _ ?_ htest _⟩
  · simp only [List.mem_cons, List.not_mem_nil, or_false] at hs
    rcases hs with rfl | rfl | rfl | rfl | rfl
    · exact plain_literal (by decide)
    · intro reason hreason
      cases hreason
      exact plain_literal (by decide)
    all_goals trivial
  · exact operator_mem (lt_size_of_isDynamic htest)

end KernelFusion
