import KernelFusion.Device.Writer
import KernelFusion.Machine.KernelType
import KernelFusion.Schedule.Flag

/-!
Device code as data: conditions, statements, and the blocks around them.

What decides which code a unit runs is kept apart from the text, so that it can be reasoned about;
all other statements are lines of text. `Code.write` turns code into text, and `Code.linesAt` into the
lines of that text; `Code.write_eq` says that the two agree.
-/

namespace KernelFusion

/-- Symbol of a code variant; the first variant has the bare name. -/
def variantSymbol (base : String) (i : Nat) : String :=
  if i = 0 then base else s!"{base}_split{i}"

/-- Symbols of all variants; there is always one. -/
def variantSymbols (base : String) (split : Nat) : List String :=
  (List.range (max split 1)).map (variantSymbol base)

/-- A code variant of a dynamic operator in a domain. -/
structure VariantRef where
  domain : Domain
  index : Nat
  deriving DecidableEq

namespace VariantRef

/-- Variable with the variant's address. -/
def address (v : VariantRef) : String := variantSymbol s!"{v.domain.arch}_func_addr" v.index

/-- Parameter that passes the address on. -/
def parameter (v : VariantRef) : String := variantSymbol s!"dy_{v.domain.arch}_func_ptr" v.index

/-- Pointer through which the variant is called. -/
def pointer (v : VariantRef) : String := variantSymbol s!"{v.domain.arch}_ptr" v.index

def all (split : Nat) (d : Domain) : List VariantRef := (List.range (max split 1)).map (⟨d, ·⟩)

end VariantRef

/-- The bound of a block index: a number, or an expression of the device. -/
inductive Limit where
  | count (n : Nat)
  | runtime (expression : String)
  deriving DecidableEq

def Limit.text : Limit → String
  | .count n => toString n
  | .runtime e => e

/-- What a conditional tests. -/
inductive Cond where
  | onDomain (d : Domain)
  | blockBelow (index : BlockIndex) (limit : Limit)
  | blockFrom (index : BlockIndex) (n : Nat)
  | firstBlock (index : BlockIndex)
  /-- the core number leaves this remainder -/
  | coreIs (split remainder : Nat)
  | keyIs (key : Nat)
  | keyBelow (key : Nat)
  /-- the class read from a packed count is one of these -/
  | classIn (codes : List Nat)
  | always
  | present (name : String)
  deriving DecidableEq

def Cond.text : Cond → String
  | .onDomain d => d.guard
  | .blockBelow index limit => s!"({index.function}() < {limit.text})"
  | .blockFrom index n => s!"({index.function}() >= {n})"
  | .firstBlock index => s!"({index.function}() == 0)"
  | .coreIs split remainder => s!"((coreid % {split}) == {remainder})"
  | .keyIs key => s!"(*tilingKeyAddr == {key})"
  | .keyBelow key => s!"(*tilingKeyAddr < {key})"
  | .classIn codes =>
    "(" ++ " || ".intercalate (codes.map fun code => s!"kernelType == {code}") ++ ")"
  | .always => "(true)"
  | .present name => s!"({name} != nullptr)"

inductive Stmt where
  | text (line : String)
  /-- names a cell of the parameter table -/
  | bindCell (cell expression : String) (isVolatile : Bool)
  /-- reads the core number, which has eight bits -/
  | readCore
  /-- calls a function with the place of its arguments in the parameter table -/
  | call (symbol : String) (argsOffset : Nat)
  /-- loads code ahead -/
  | prefetch (symbol : String) (units : Nat)
  /-- loads code ahead whose address is in a variable -/
  | prefetchVariant (v : VariantRef) (units : Nat)
  | setAddress (v : VariantRef) (symbol : String)
  /-- packs a class with the block count that the host gave -/
  | publish (code : Nat)
  /-- the class of a packed count -/
  | unpackClass
  /-- the blocks of a packed count -/
  | unpackCount
  | bindPointer (v : VariantRef)
  | callPointer (v : VariantRef)
  /-- makes an area of the workspace the current one: areas to skip, then a position -/
  | feedArea (skipped : Option Nat) (position : Nat)
  deriving DecidableEq

/-- Bytes of an area that feeds an operator's own barrier. -/
def feedStride : Nat := 64

/-- Makes an address of that part of the workspace the current one. -/
def feedTarget : String :=
  "AscendC::g_superKernelAutoSyncAllConfigGmAddr = AscendC::g_superKernelAutoSyncAllConfigGmBaseAddr"

def Stmt.render : Stmt → String
  | .text line => line
  | .bindCell cell expression isVolatile =>
    let qualifier := if isVolatile then "volatile " else ""
    s!"__gm__ {qualifier}uint64_t* {cell} = reinterpret_cast<__gm__ uint64_t*>({expression});"
  | .readCore => "uint8_t coreid = (uint8_t)get_coreid();"
  | .call symbol argsOffset => s!"{symbol}({argsOffset});"
  | .prefetch symbol units => s!"preload((const void *){symbol}, {units});"
  | .prefetchVariant v units => s!"preload((const void *){v.address}, {units});"
  | .setAddress v symbol => s!"{v.address} = (uint64_t)({symbol});"
  | .publish code => s!"dy_block_num = ((uint64_t){code}) << 32 | (*blockNumAddr);"
  | .unpackClass => "uint64_t kernelType = dy_block_num >> 32;"
  | .unpackCount => "uint64_t numBlocks = dy_block_num & 0xFFFFFFFF;"
  | .bindPointer v => s!"FuncType {v.pointer} = (FuncType)({v.parameter});"
  | .callPointer v => s!"{v.pointer}(args_offset);"
  | .feedArea none position => s!"{feedTarget} + {position} * {feedStride};"
  | .feedArea (some skipped) position =>
    s!"{feedTarget} + {skipped} * {feedStride} + {position} * {feedStride};"

/-- A parameter of a device function. -/
structure Parameter where
  type : String
  /-- what is stored in it is seen by the caller -/
  isReference : Bool
  name : String
  deriving DecidableEq

def Parameter.text (p : Parameter) : String :=
  let mark := if p.isReference then "&" else ""
  s!"{p.type}{mark} {p.name}"

/-- A device function whose parameters its body uses by name. -/
structure Routine where
  /-- what stands in front of the name -/
  kind : String
  name : String
  parameters : List Parameter
  deriving DecidableEq

def Routine.signature (r : Routine) : String :=
  let parameters := ", ".intercalate (r.parameters.map Parameter.text)
  s!"{r.kind} {r.name}({parameters})"

/-- What stands in front of a block other than a conditional. -/
inductive Head where
  | function (signature : String)
  | routine (r : Routine)
  /-- repeats until a cell has a value -/
  | spin (cell : String) (value : Nat)
  /-- repeats as often as a variable says -/
  | times (bound : String)
  deriving DecidableEq

def Head.text : Head → String
  | .function signature => signature
  | .routine r => r.signature
  | .spin cell value => s!"while(*{cell} != {value})"
  | .times bound => s!"for (size_t i = 0; i < {bound}; i++)"

mutual

/-- A sequence of lines and blocks. -/
inductive Code where
  | done
  | line (s : Stmt) (rest : Code)
  | blank (rest : Code)
  | block (h : Head) (body rest : Code)
  | choose (c : Cond) (yes : Code) (more : Arms) (rest : Code)

/-- The further branches of a conditional. -/
inductive Arms where
  | none
  | otherwise (no : Code)
  | orWhen (c : Cond) (yes : Code) (more : Arms)

end

mutual

def Code.write : Code → Writer → Writer
  | .done, w => w
  | .line s rest, w => rest.write (w.line s.render)
  | .blank rest, w => rest.write w.blank
  | .block h body rest, w => rest.write (body.write (w.enter h.text)).leave
  | .choose c yes more rest, w =>
    rest.write (more.write (yes.write (w.enter s!"if {c.text}"))).leave

def Arms.write : Arms → Writer → Writer
  | .none, w => w
  | .otherwise no, w => no.write (w.resume "else")
  | .orWhen c yes more, w => more.write (yes.write (w.resume s!"else if {c.text}"))

end

mutual

/-- The lines at a depth. A statement is one line, also if its text has line feeds. -/
def Code.linesAt (depth : Nat) : Code → List String
  | .done => []
  | .line s rest => Writer.indented depth s.render :: rest.linesAt depth
  | .blank rest => "" :: rest.linesAt depth
  | .block h body rest =>
    Writer.indented depth (h.text ++ " \x7b") :: body.linesAt (depth + 1)
      ++ Writer.indented depth "\x7d" :: rest.linesAt depth
  | .choose c yes more rest =>
    Writer.indented depth (s!"if {c.text}" ++ " \x7b") :: yes.linesAt (depth + 1)
      ++ more.linesAt depth ++ Writer.indented depth "\x7d" :: rest.linesAt depth

def Arms.linesAt (depth : Nat) : Arms → List String
  | .none => []
  | .otherwise no => Writer.indented depth "\x7d else \x7b" :: no.linesAt (depth + 1)
  | .orWhen c yes more =>
    Writer.indented depth ("\x7d " ++ s!"else if {c.text}" ++ " \x7b") :: yes.linesAt (depth + 1)
      ++ more.linesAt depth

end

/-! ### The two views agree -/

/-- The text of lines, each ended by a line feed. -/
def joinLines : List String → String
  | [] => ""
  | s :: ss => s ++ "\n" ++ joinLines ss

theorem joinLines_append (xs ys : List String) :
    joinLines (xs ++ ys) = joinLines xs ++ joinLines ys := by
  induction xs with
  | nil => simp [joinLines]
  | cons x xs ih => simp [joinLines, ih, String.append_assoc]

mutual

/-- Writing keeps the depth and appends the lines. -/
theorem Code.write_eq (c : Code) (w : Writer) :
    c.write w = ⟨w.text ++ joinLines (c.linesAt w.depth), w.depth⟩ := by
  match c with
  | .done => simp [Code.write, Code.linesAt, joinLines]
  | .line s rest =>
    simp [Code.write, Code.linesAt, joinLines, Writer.line, Code.write_eq rest, String.append_assoc]
  | .blank rest =>
    simp [Code.write, Code.linesAt, joinLines, Writer.blank, Code.write_eq rest, String.append_assoc]
  | .block h body rest =>
    simp [Code.write, Code.linesAt, joinLines, joinLines_append, Writer.enter, Writer.leave,
      Writer.deepen, Writer.lift, Writer.line, Code.write_eq body, Code.write_eq rest,
      String.append_assoc]
  | .choose c yes more rest =>
    simp [Code.write, Code.linesAt, joinLines, joinLines_append, Writer.enter, Writer.leave,
      Writer.deepen, Writer.lift, Writer.line, Code.write_eq yes,
      Arms.write_eq more w.depth, Code.write_eq rest, String.append_assoc]

/-- The branches stay inside the conditional's block. -/
theorem Arms.write_eq (a : Arms) (depth : Nat) (s : String) :
    a.write ⟨s, depth + 1⟩ = ⟨s ++ joinLines (a.linesAt depth), depth + 1⟩ := by
  match a with
  | .none => simp [Arms.write, Arms.linesAt, joinLines]
  | .otherwise no =>
    simp [Arms.write, Arms.linesAt, joinLines, Writer.resume, Writer.deepen, Writer.lift,
      Writer.line, Code.write_eq no, String.append_assoc]
  | .orWhen c yes more =>
    simp [Arms.write, Arms.linesAt, joinLines, joinLines_append, Writer.resume, Writer.deepen,
      Writer.lift, Writer.line, Code.write_eq yes, Arms.write_eq more depth, String.append_assoc]

end
namespace Code

def toLines (c : Code) : List String := c.linesAt 0

/-- The text at a depth. -/
def renderAt (c : Code) (depth : Nat) : String := (c.write (.start depth)).text

def render (c : Code) : String := c.renderAt 0

/-! ### Building code -/

def append : Code → Code → Code
  | .done, d => d
  | .line s rest, d => .line s (rest.append d)
  | .blank rest, d => .blank (rest.append d)
  | .block h body rest, d => .block h body (rest.append d)
  | .choose c yes more rest, d => .choose c yes more (rest.append d)

instance : Append Code := ⟨append⟩

def concat (cs : List Code) : Code := cs.foldr append .done

def stmts (ss : List Stmt) : Code := ss.foldr .line .done

def stmt (s : Stmt) : Code := .line s .done

def text (s : String) : Code := stmt (.text s)

def texts (ss : List String) : Code := stmts (ss.map .text)

def empty : Code := .blank .done

/-- A conditional with one branch. -/
def when (c : Cond) (yes : Code) : Code := .choose c yes .none .done

/-- A conditional with two branches. -/
def either (c : Cond) (yes no : Code) : Code := .choose c yes (.otherwise no) .done

def function (signature : String) (body : Code) : Code := .block (.function signature) body .done

def routine (r : Routine) (body : Code) : Code := .block (.routine r) body .done

end Code

end KernelFusion
