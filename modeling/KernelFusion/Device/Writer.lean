import KernelFusion.Text.Fields

/-!
Lines of text with indentation.
-/

namespace KernelFusion

/-- Text written so far and the number of blocks that are open. -/
structure Writer where
  text : String
  depth : Nat
  deriving DecidableEq

namespace Writer

def start (depth : Nat) : Writer := ⟨"", depth⟩

/-- Four blanks for every open block. -/
def indentation (depth : Nat) : String := String.ofList (List.replicate (4 * depth) ' ')

/-- A text at a depth; an empty one has no indentation. -/
def indented (depth : Nat) (s : String) : String := if s.isEmpty then "" else indentation depth ++ s

/-- A line at the current depth. -/
def line (w : Writer) (s : String) : Writer :=
  { w with text := w.text ++ indented w.depth s ++ "\n" }

def lines (w : Writer) (ss : List String) : Writer := ss.foldl line w

def blank (w : Writer) : Writer := { w with text := w.text ++ "\n" }

def deepen (w : Writer) : Writer := { w with depth := w.depth + 1 }

/-- One block less; outside of all blocks nothing changes. -/
def lift (w : Writer) : Writer := { w with depth := w.depth - 1 }

/-- Opens a block behind a header. -/
def enter (w : Writer) (header : String) : Writer := (w.line (header ++ " \x7b")).deepen

/-- Closes a block. -/
def leave (w : Writer) : Writer := w.lift.line "\x7d"

/-- Closes a block and opens its continuation. -/
def resume (w : Writer) (middle : String) : Writer :=
  (w.lift.line ("\x7d " ++ middle ++ " \x7b")).deepen

/-- All lines of a text. -/
def block (w : Writer) (s : String) : Writer := w.lines (Text.lines s)

end Writer

end KernelFusion
