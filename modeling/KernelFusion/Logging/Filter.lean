import KernelFusion.Text.Alphanumeric
import KernelFusion.Text.Blank
import KernelFusion.Text.Fields
import KernelFusion.Text.Word

/-!
Which filter texts the log accepts.

A filter is a list of directives between commas. A directive is a level, or a target with a level
behind an equals sign; a span in brackets may stand in place of the target or behind it, and the level
may be left out. It is read one character at a time:

    start ──▶ target ──[──▶ span ──]──▶ closed
                │ =                      │ =
                └───────▶ level ◀────────┘
-/

namespace KernelFusion.Logging

/-- A level by its name, in any case, or by its number. -/
def isLevel (s : String) : Bool :=
  ["trace", "debug", "info", "warn", "error", "off"].contains (Text.lower s)
    || match Text.count64? s with
      | some n => decide (n ≤ 5)
      | none => false

/-- How far a directive has been read. -/
inductive Directive where
  | start
  /-- in a target, which may turn out to be a level alone -/
  | target
  | span
  /-- behind a span -/
  | closed
  /-- behind the equals sign, with what was read there, last one first -/
  | level (read : List Char)
  | refused
  deriving DecidableEq

namespace Directive

/-- Whether a target may start with the character. -/
def startsTarget (c : Char) : Bool := c == '-' || c == ':' || c == '_' || Text.isAlphanumeric c

/-- Reads one character. -/
def step : Directive → Char → Directive
  | .start, '[' => .span
  | .start, c => if startsTarget c then .target else .refused
  | .target, '=' => .level []
  | .target, '[' => .span
  | .target, _ => .target
  | .span, ']' => .closed
  | .span, _ => .span
  | .closed, '=' => .level []
  | .closed, _ => .refused
  | .level read, c => .level (c :: read)
  | .refused, _ => .refused

def read (cs : List Char) : Directive := cs.foldl step .start

/-- Blanks around a directive are passed over, but not where it ends in a level. -/
def accepts (cs : List Char) : Bool :=
  match read (Text.trimChars cs) with
  | .level letters =>
    decide (Text.trimChars cs = cs) && (letters.isEmpty || isLevel (String.ofList letters.reverse))
  | .refused => false
  | _ => true

end Directive

/-- Whether every directive of a filter is accepted; empty ones do not count. -/
def acceptsFilter (s : String) : Bool :=
  ((Text.splitChars ',' s.toList).filter fun p => !p.isEmpty).all Directive.accepts

end KernelFusion.Logging
