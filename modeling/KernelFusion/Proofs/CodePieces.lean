import KernelFusion.Device.Source
import Mathlib.Data.List.Basic

/-!
Device code piece by piece.

Code is a tree of blocks, and its text is written from left to right: a line for each statement, for the
head and the end of each block, and for each further branch of a conditional. These pieces in their order
are all that the writer sees of the code.

        if (a) {              branch a
            f();                  line f
        } else if (b) {       orBranch b
            g();                  line g
        }                     leave
-/

namespace KernelFusion

/-- What is written as one line. -/
inductive Piece where
  | line (s : Stmt)
  | blank
  /-- opens a block other than a conditional -/
  | enter (h : Head)
  /-- opens a conditional -/
  | branch (c : Cond)
  /-- closes a branch of a conditional and opens one that is tested -/
  | orBranch (c : Cond)
  /-- closes a branch of a conditional and opens its last one -/
  | otherwise
  | leave

namespace Piece

def write (w : Writer) : Piece → Writer
  | .line s => w.line s.render
  | .blank => w.blank
  | .enter h => w.enter h.text
  | .branch c => w.enter s!"if {c.text}"
  | .orBranch c => w.resume s!"else if {c.text}"
  | .otherwise => w.resume "else"
  | .leave => w.leave

/-- The number of open blocks behind a piece; none where it closes a block and there is none. -/
def level : Nat → Piece → Option Nat
  | n, .line _ => some n
  | n, .blank => some n
  | n, .enter _ => some (n + 1)
  | n, .branch _ => some (n + 1)
  | 0, _ => none
  | n + 1, .leave => some n
  | n + 1, _ => some (n + 1)

end Piece

mutual

def Code.pieces : Code → List Piece
  | .done => []
  | .line s rest => .line s :: rest.pieces
  | .blank rest => .blank :: rest.pieces
  | .block h body rest => .enter h :: body.pieces ++ .leave :: rest.pieces
  | .choose c yes more rest => .branch c :: yes.pieces ++ more.pieces ++ .leave :: rest.pieces

def Arms.pieces : Arms → List Piece
  | .none => []
  | .otherwise no => .otherwise :: no.pieces
  | .orWhen c yes more => .orBranch c :: yes.pieces ++ more.pieces

end

mutual

/-- Code is written piece by piece. -/
theorem Code.write_eq_foldl (c : Code) (w : Writer) : c.write w = c.pieces.foldl Piece.write w := by
  match c with
  | .done => rfl
  | .line s rest => exact Code.write_eq_foldl rest _
  | .blank rest => exact Code.write_eq_foldl rest _
  | .block h body rest =>
    simp only [Code.write, Code.pieces, List.cons_append, List.foldl_cons, List.foldl_append,
      Code.write_eq_foldl body, Code.write_eq_foldl rest, Piece.write]
  | .choose c yes more rest =>
    simp only [Code.write, Code.pieces, List.cons_append, List.foldl_cons, List.foldl_append,
      Code.write_eq_foldl yes, Arms.write_eq_foldl more, Code.write_eq_foldl rest, Piece.write]

theorem Arms.write_eq_foldl (a : Arms) (w : Writer) : a.write w = a.pieces.foldl Piece.write w := by
  match a with
  | .none => rfl
  | .otherwise no => exact Code.write_eq_foldl no _
  | .orWhen c yes more =>
    simp only [Arms.write, Arms.pieces, List.cons_append, List.foldl_cons, List.foldl_append,
      Code.write_eq_foldl yes, Arms.write_eq_foldl more, Piece.write]

end

mutual

/-- Code closes the blocks that it opens, and no other. -/
theorem Code.level_pieces (c : Code) (n : Nat) : c.pieces.foldlM Piece.level n = some n := by
  match c with
  | .done => rfl
  | .line s rest => exact Code.level_pieces rest n
  | .blank rest => exact Code.level_pieces rest n
  | .block h body rest =>
    simp [Code.pieces, List.foldlM_append, Piece.level, Code.level_pieces body, Code.level_pieces rest]
  | .choose c yes more rest =>
    simp [Code.pieces, List.foldlM_append, Piece.level, Code.level_pieces yes, Arms.level_pieces more,
      Code.level_pieces rest]

/-- Further branches stay inside a block that is open. -/
theorem Arms.level_pieces (a : Arms) (n : Nat) : a.pieces.foldlM Piece.level (n + 1) = some (n + 1) := by
  match a with
  | .none => rfl
  | .otherwise no => exact Code.level_pieces no (n + 1)
  | .orWhen c yes more =>
    simp [Arms.pieces, List.foldlM_append, Piece.level, Code.level_pieces yes, Arms.level_pieces more]

end

namespace Code

/-! ### Lines of code that is put together -/

theorem append_assoc (a b c : Code) : a ++ b ++ c = a ++ (b ++ c) := by
  change (a.append b).append c = a.append (b.append c)
  cases a with
  | done => rfl
  | line s rest => exact congrArg (line s) (append_assoc rest b c)
  | blank rest => exact congrArg blank (append_assoc rest b c)
  | block h body rest => exact congrArg (block h body) (append_assoc rest b c)
  | choose d yes more rest => exact congrArg (choose d yes more) (append_assoc rest b c)

theorem linesAt_append (depth : Nat) (a b : Code) :
    (a ++ b).linesAt depth = a.linesAt depth ++ b.linesAt depth := by
  change (a.append b).linesAt depth = _
  cases a with
  | done => rfl
  | line s rest => exact congrArg (_ :: ·) (linesAt_append depth rest b)
  | blank rest => exact congrArg ("" :: ·) (linesAt_append depth rest b)
  | block h body rest =>
    have hrest : (rest.append b).linesAt depth = rest.linesAt depth ++ b.linesAt depth :=
      linesAt_append depth rest b
    simp [append, linesAt, hrest]
  | choose c yes more rest =>
    have hrest : (rest.append b).linesAt depth = rest.linesAt depth ++ b.linesAt depth :=
      linesAt_append depth rest b
    simp [append, linesAt, hrest]

theorem linesAt_concat (depth : Nat) (cs : List Code) :
    (concat cs).linesAt depth = cs.flatMap (linesAt depth) := by
  induction cs with
  | nil => rfl
  | cons c cs ih => exact (linesAt_append depth c (concat cs)).trans (by rw [ih, List.flatMap_cons])

theorem toLines_texts (ss : List String) : (texts ss).toLines = ss := by
  induction ss with
  | nil => rfl
  | cons s ss ih =>
    have hline : Writer.indented 0 s = s := by simp [Writer.indented, Writer.indentation]
    change Writer.indented 0 s :: (texts ss).toLines = _
    rw [hline, ih]

/-! ### Pieces of code that is put together -/

@[simp] theorem pieces_done : done.pieces = [] := rfl

@[simp] theorem pieces_empty : empty.pieces = [.blank] := rfl

@[simp] theorem pieces_append (a b : Code) : (a ++ b).pieces = a.pieces ++ b.pieces := by
  change (a.append b).pieces = _
  cases a with
  | done => rfl
  | line s rest =>
    have hrest : (rest.append b).pieces = rest.pieces ++ b.pieces := pieces_append rest b
    simp [append, pieces, hrest]
  | blank rest =>
    have hrest : (rest.append b).pieces = rest.pieces ++ b.pieces := pieces_append rest b
    simp [append, pieces, hrest]
  | block h body rest =>
    have hrest : (rest.append b).pieces = rest.pieces ++ b.pieces := pieces_append rest b
    simp [append, pieces, hrest]
  | choose c yes more rest =>
    have hrest : (rest.append b).pieces = rest.pieces ++ b.pieces := pieces_append rest b
    simp [append, pieces, hrest]

@[simp] theorem pieces_concat (cs : List Code) : (concat cs).pieces = cs.flatMap pieces := by
  induction cs with
  | nil => rfl
  | cons c cs ih => exact (pieces_append c (concat cs)).trans (by rw [ih, List.flatMap_cons])

@[simp] theorem pieces_stmts (ss : List Stmt) : (stmts ss).pieces = ss.map .line := by
  induction ss with
  | nil => rfl
  | cons s ss ih => exact congrArg (Piece.line s :: ·) ih

@[simp] theorem pieces_stmt (s : Stmt) : (stmt s).pieces = [.line s] := rfl

@[simp] theorem pieces_text (s : String) : (text s).pieces = [.line (.text s)] := rfl

@[simp] theorem pieces_texts (ss : List String) :
    (texts ss).pieces = ss.map fun s => .line (.text s) := by
  rw [texts, pieces_stmts, List.map_map]
  rfl

@[simp] theorem pieces_when (c : Cond) (yes : Code) :
    (when c yes).pieces = .branch c :: yes.pieces ++ [.leave] := by
  simp [when, pieces, Arms.pieces]

@[simp] theorem pieces_either (c : Cond) (yes no : Code) :
    (either c yes no).pieces = .branch c :: yes.pieces ++ .otherwise :: no.pieces ++ [.leave] := by
  simp [either, pieces, Arms.pieces]

@[simp] theorem pieces_block (h : Head) (body : Code) :
    (Code.block h body done).pieces = .enter h :: body.pieces ++ [.leave] := rfl

@[simp] theorem pieces_routine (r : Routine) (body : Code) :
    (routine r body).pieces = .enter (.routine r) :: body.pieces ++ [.leave] := rfl

end Code

section Variants

variable (split i : Nat) (tail : Option Stmt) (s t : Stmt) (ss : List Stmt)

@[simp] theorem pieces_variantBody :
    (variantBody tail s).pieces = .line s :: tail.toList.map .line := by
  simp [variantBody]

@[simp] theorem pieces_variantArms_nil : (variantArms split tail i []).pieces = [] := rfl

@[simp] theorem pieces_variantArms_last :
    (variantArms split tail i [s]).pieces = .otherwise :: (variantBody tail s).pieces := rfl

@[simp] theorem pieces_variantArms_cons : (variantArms split tail i (s :: t :: ss)).pieces
    = .orBranch (.coreIs split i) :: (variantBody tail s).pieces
      ++ (variantArms split tail (i + 1) (t :: ss)).pieces := rfl

@[simp] theorem pieces_variantChain_nil :
    (variantChain [] tail).pieces = tail.toList.map .line := Code.pieces_stmts _

@[simp] theorem pieces_variantChain_one :
    (variantChain [s] tail).pieces = (variantBody tail s).pieces := rfl

@[simp] theorem pieces_variantChain_cons : (variantChain (s :: t :: ss) tail).pieces
    = .line .readCore :: .branch (.coreIs (ss.length + 2) 0) :: (variantBody tail s).pieces
      ++ (variantArms (ss.length + 2) tail 1 (t :: ss)).pieces ++ [.leave] := rfl

end Variants

end KernelFusion
