import KernelFusion.Error
import KernelFusion.Text.Fields
import KernelFusion.Text.Word

/-!
Fusion options, written as `key=value` segments between colons.

Blank segments and segments without an equals sign are passed over. Every other segment sets one
option; a key may be set once. `Options.parse` applies the segments left to right and stops at the
first one that is refused.
-/

namespace KernelFusion

/-- How instructions are loaded ahead. -/
inductive PreloadMode where
  /-- the whole kernel at entry -/
  | whole
  | none
  /-- the first operator at entry, then each operator one step ahead -/
  | perFunc
  deriving DecidableEq

/-- Handshake between neighbouring operators in place of a full barrier. -/
inductive EarlyStart where
  | disabled
  | enabled
  /-- enabled, but the flags of the operators themselves are not used -/
  | enabledNoSubKernel
  deriving DecidableEq

namespace EarlyStart

def isEnabled (m : EarlyStart) : Bool := decide (m ≠ .disabled)

/-- Whether the flags of the operators are used. -/
def honorsFlags (m : EarlyStart) : Bool := decide (m = .enabled)

end EarlyStart

structure Options where
  /-- alignment of the entry point in bytes; zero for none -/
  funcAlign : Nat
  preload : PreloadMode
  earlyStart : EarlyStart
  streamFusion : Bool
  debugDcciAll : Bool
  debugSyncAll : Bool
  feedSyncAll : Bool
  profiling : Bool
  /-- number of code variants of every operator -/
  splitMode : Nat
  cubeUnits : Option Nat
  vectorUnits : Option Nat
  compileOptions : List String
  /-- operators with a cache flush before, after, or never; in order and without repeats -/
  flushBefore : List String
  flushAfter : List String
  flushNever : List String
  strictScope : Option String
  deriving DecidableEq

namespace Options

def default : Options where
  funcAlign := 512
  preload := .perFunc
  earlyStart := .enabled
  streamFusion := false
  debugDcciAll := false
  debugSyncAll := false
  feedSyncAll := false
  profiling := false
  splitMode := 4
  cubeUnits := none
  vectorUnits := none
  compileOptions := []
  flushBefore := []
  flushAfter := []
  flushNever := []
  strictScope := none

instance : Inhabited Options := ⟨default⟩

/-- Largest number of code variants. -/
def maxSplit : Nat := 64

/-! ### Values -/

/-- A value and, where it is refused, why. -/
abbrev Checked := Except OptionFault

def number (value : String) : Checked Nat :=
  if !Text.isDecimal value.toList then .error (.notDigits value)
  else if Text.decimalValue value.toList < UInt32.size then .ok (Text.decimalValue value.toList)
  else .error (.outOfRange value)

/-- A number of units. -/
def units (value : String) : Checked Nat := do
  let n ← number value
  if n = 0 then throw .zeroUnits
  return n

/-- Whether a number is a power of two. -/
def isPowerOfTwo (n : Nat) : Bool := decide (Nat.pow 2 n.log2 = n)

/-- Zero, or a power of two from two on. -/
def alignment (value : String) : Checked Nat := do
  let n ← number value
  if n = 1 || (n != 0 && !isPowerOfTwo n) then throw (.badAlignment n)
  return n

def split (value : String) : Checked Nat := do
  let n ← number value
  if n = 0 || n > maxSplit then throw (.splitOutside maxSplit n)
  return n

def switch (value : String) : Checked Bool :=
  match value with
  | "0" => .ok false
  | "1" => .ok true
  | _ => .error (.notOneOf "0, 1" value)

def preloadMode (value : String) : Checked PreloadMode :=
  match value with
  | "max" => .ok .whole
  | "none" => .ok .none
  | "per-func" => .ok .perFunc
  | _ => .error (.notOneOf "max, none, per-func" value)

def earlyStartMode (value : String) : Checked EarlyStart :=
  match value with
  | "0" => .ok .disabled
  | "1" => .ok .enabled
  | "2" => .ok .enabledNoSubKernel
  | _ => .error (.notOneOf "0, 1, 2" value)

/-- Puts a name in its place among names in order. -/
def insertName (name : String) : List String → List String
  | [] => [name]
  | n :: ns =>
    if name = n then n :: ns else if name < n then name :: n :: ns else n :: insertName name ns

/-- The names between commas, in order and without repeats. -/
def nameSet (value : String) : List String := (Text.entries ',' value).foldr insertName []

/-! ### Segments -/

/-- Sets one option. -/
def set (o : Options) (key value : String) : Checked Options :=
  match key with
  | "func-align" => return { o with funcAlign := ← alignment value }
  | "preload-code" => return { o with preload := ← preloadMode value }
  | "early-start" => return { o with earlyStart := ← earlyStartMode value }
  | "stream-fusion" => return { o with streamFusion := ← switch value }
  | "debug-dcci-all" => return { o with debugDcciAll := ← switch value }
  | "debug-sync-all" => return { o with debugSyncAll := ← switch value }
  | "feed-sync-all" => return { o with feedSyncAll := ← switch value }
  | "profiling" => return { o with profiling := ← switch value }
  | "split-mode" => return { o with splitMode := ← split value }
  | "debug-aic-num" => return { o with cubeUnits := some (← units value) }
  | "debug-aiv-num" => return { o with vectorUnits := some (← units value) }
  | "compile-options" => return { o with compileOptions := Text.entries ',' value }
  | "dcci-before-kernel-start" => return { o with flushBefore := nameSet value }
  | "dcci-after-kernel-end" => return { o with flushAfter := nameSet value }
  | "dcci-disable-on-kernel" => return { o with flushNever := nameSet value }
  | "strict-scope-check" => return { o with strictScope := some value }
  | _ => throw .unknown

/-- Key and value of a segment, both trimmed; a segment without an equals sign has none. -/
def keyValue? (segment : String) : Option (String × String) :=
  (Text.splitFirst '=' segment.toList).map fun p =>
    (String.ofList (Text.trimChars p.1), String.ofList (Text.trimChars p.2))

/-- Applies one segment to the options, given the keys that are already set. -/
def applySegment (seen : List String) (o : Options) (segment : String) :
    Except Error (List String × Options) :=
  match keyValue? segment with
  | none => .ok (seen, o)
  | some (key, value) =>
    if key.isEmpty || value.isEmpty then .error (.invalidOption segment .incomplete)
    else if seen.contains key then .error (.invalidOption key .repeated)
    else match o.set key value with
      | .ok o => .ok (key :: seen, o)
      | .error fault => .error (.invalidOption key fault)

def applyAll : List String → Options → List String → Except Error Options
  | _, o, [] => .ok o
  | seen, o, segment :: rest => do
    let (seen, o) ← applySegment seen o segment
    applyAll seen o rest

/-- Reads an option text; the empty text gives the defaults. -/
def parse (s : String) : Except Error Options := applyAll [] default (Text.entries ':' s)

end Options

end KernelFusion
