import KernelFusion.Proofs.ClearingRun
import KernelFusion.Proofs.UnitSupply

/-!
The areas of the workspace.

Four places compute sizes and offsets of it on their own: the bytes that the operators' barriers are fed
from, the blocks of operators and domains in them, the slices that units zero before anything else, and the
dump areas behind. Blocks do not overlap and end before the bytes do, the slices of all units are these bytes
and nothing else, and dump areas begin where they end.

        0             64 n          128 n           feed bytes           workspace bytes
        │ cube blocks │ vector blocks │               │ dump │ dump │ … │
        │ slice │ slice │ slice │ …           │ slice │

The host counts the whole in 64 bits, and the code has the size of a dump area in 32 bits, so that the dump
areas end with the workspace only as long as their size fits. What the code does with the workspace is read
from its lines.
-/

namespace KernelFusion

open Device LineText

/-! ### The slices that are zeroed -/

namespace Clearing

variable {blocks : Nat}

/-- The share of a unit is that of one of the units that share the bytes. -/
theorem share_of (t : KernelType) {share : Nat} (h : 0 < blocks) :
    (Clearing.of t (LaunchShape.feedUnits t blocks * share)).bytes / blocks = share := by
  cases t
  case mixAic12 =>
    rw [of, LaunchShape.feedUnits, Nat.mul_assoc, Nat.mul_div_cancel_left _ Nat.two_pos,
      Nat.mul_div_cancel_left _ h]
  all_goals exact Nat.mul_div_cancel_left _ h

/-- All units that share the bytes are those of the domain that clears. -/
theorem units_of (t : KernelType) (bytes : Nat) :
    blocks * t.unitsIn (Clearing.of t bytes).domain = LaunchShape.feedUnits t blocks := by
  cases t
  case mixAic12 => exact Nat.mul_comm _ _
  all_goals exact Nat.mul_one _

/-- The slices of one unit fill its share, and those of all units fill the bytes, each byte once. -/
theorem tiles_shares (n unit : Nat) :
    Tiles (unit * (512 * n)) ((unit + 1) * (512 * n)) (Area.row (512 * n * unit) 512 n) := by
  have hstop : (unit + 1) * (512 * n) = 512 * n * unit + n * 512 := by
    rw [Nat.succ_mul, Nat.mul_comm unit, Nat.mul_comm n 512]
  rw [hstop, Nat.mul_comm unit]
  exact tiles_row _ 512 n

theorem slice_of_mem {n unit : Nat} {a : Area} (ha : a ∈ Area.row (512 * n * unit) 512 n) :
    a.bytes = 512 ∧ 512 ∣ a.start := by
  obtain ⟨i, _, rfl⟩ := List.mem_map.mp ha
  have hshare : 512 ∣ 512 * n * unit := Nat.dvd_mul_right_of_dvd (Nat.dvd_mul_right 512 n) unit
  exact ⟨rfl, Nat.dvd_add hshare (Nat.dvd_mul_left 512 i)⟩

end Clearing

/-! ### The blocks of operators -/

/-- The word for the address of the current block. -/
def currentWord : List Char := "AscendC::g_superKernelAutoSyncAllConfigGmAddr".toList

/-- The word for the address of the bytes that barriers are fed from. -/
def baseWord : List Char := "AscendC::g_superKernelAutoSyncAllConfigGmBaseAddr".toList

/-- The area at an offset that was computed as one product, or as the sum of two. -/
def Area.ofFactors? : List Nat → Option Area
  | [n, size] => some ⟨n * size, size⟩
  | [skipped, stride, n, size] => some ⟨skipped * stride + n * size, size⟩
  | _ => none

/-- The area that the words of an assignment make the current one. -/
def Area.ofWords? : List (List Char) → Option Area
  | target :: base :: factors =>
    if target = currentWord ∧ base = baseWord then (factors.mapM number?).bind ofFactors? else none
  | _ => none

/-- The area that a line makes the current one. -/
def Area.ofLine? (line : List Char) : Option Area :=
  ((words? "# = # + # * #;".toList line).or (words? "# = # + # * # + # * #;".toList line)).bind ofWords?

/-- The area that a statement makes the current one, by its text. -/
def Stmt.area? (s : Stmt) : Option Area := Area.ofLine? s.render.toList

theorem Area.ofWords?_factors (factors : List Nat) :
    ofWords? (currentWord :: baseWord :: factors.map fun n => (toString n).toList) = ofFactors? factors := by
  have hnumbers : (factors.map fun n => (toString n).toList).mapM number? = some factors := by
    induction factors with
    | nil => rfl
    | cons n ns ih =>
      rw [List.map_cons, List.mapM_cons, number?_toString, ih]
      rfl
  rw [ofWords?, if_pos ⟨rfl, rfl⟩, hnumbers, Option.bind_some]

namespace Stmt

theorem tokens_feedTarget : tokens (feedTarget ++ " + ").toList
    = [.word currentWord, .mark ['='], .word baseWord, .mark ['+']] := by
  unfold feedTarget currentWord baseWord
  rw [String.toList_append]
  repeat rw [String.toList_ofList]
  decide

theorem endsOutside_feedTarget : endsOutside (feedTarget ++ " + ").toList = true := by
  rw [String.toList_append]
  exact endsOutside_append _ (by decide)

/-- The blocks of cube units are the first ones. -/
theorem area?_near (position : Nat) :
    (feedArea none position).area? = some ⟨position * feedStride, feedStride⟩ := by
  have htokens := tokens_joined (feedTarget ++ " + ") [toString position, toString feedStride] [" * ", ";"]
    (isWord_numbers [position, feedStride]) endsOutside_feedTarget (by decide)
  have hwords : words? "# = # + # * #;".toList (feedArea none position).render.toList
      = some [currentWord, baseWord, (toString position).toList, (toString feedStride).toList] := by
    change words? _ (joined (feedTarget ++ " + ") [toString position, toString feedStride]
      [" * ", ";"]).toList = _
    rewrite [words?, htokens, tokens_feedTarget]
    generalize toString position = p, toString feedStride = size
    repeat rewrite [String.toList_ofList]
    rfl
  rewrite [area?, Area.ofLine?, hwords, Option.some_or, Option.bind_some]
  exact Area.ofWords?_factors [position, feedStride]

/-- Those of vector units are behind them. -/
theorem area?_far (skipped position : Nat) : (feedArea (some skipped) position).area?
    = some ⟨skipped * feedStride + position * feedStride, feedStride⟩ := by
  have htokens := tokens_joined (feedTarget ++ " + ")
    [toString skipped, toString feedStride, toString position, toString feedStride] [" * ", " + ", " * ", ";"]
    (isWord_numbers [skipped, feedStride, position, feedStride]) endsOutside_feedTarget (by decide)
  have hline : (feedArea (some skipped) position).render = joined (feedTarget ++ " + ")
      [toString skipped, toString feedStride, toString position, toString feedStride]
      [" * ", " + ", " * ", ";"] := rfl
  have hnear : words? "# = # + # * #;".toList (feedArea (some skipped) position).render.toList = none := by
    rewrite [words?, hline, htokens, tokens_feedTarget]
    generalize toString skipped = s, toString position = p, toString feedStride = size
    repeat rewrite [String.toList_ofList]
    rfl
  have hfar : words? "# = # + # * # + # * #;".toList (feedArea (some skipped) position).render.toList
      = some [currentWord, baseWord, (toString skipped).toList, (toString feedStride).toList,
          (toString position).toList, (toString feedStride).toList] := by
    rewrite [words?, hline, htokens, tokens_feedTarget]
    generalize toString skipped = s, toString position = p, toString feedStride = size
    repeat rewrite [String.toList_ofList]
    rfl
  rewrite [area?, Area.ofLine?, hnear, hfar, Option.none_or, Option.bind_some]
  exact Area.ofWords?_factors [skipped, feedStride, position, feedStride]

end Stmt

/-- Whether a unit passes a test that needs no variable. -/
def Cond.passes (site : Site) (c : Cond) : Bool := decide (c.holds? site ⟨[], []⟩ = some true)

/-- Whether the block behind is run where it stands. -/
def Head.isLoop : Head → Bool
  | .function _ => false
  | .routine _ => false
  | .spin _ _ => true
  | .times _ => true

mutual

/-- The areas that a unit makes the current one, in order. Those of a loop are listed once. -/
def Code.areas (site : Site) : Code → List Area
  | .done => []
  | .line st rest => st.area?.toList ++ rest.areas site
  | .blank rest => rest.areas site
  | .block h body rest => (if h.isLoop then body.areas site else []) ++ rest.areas site
  | .choose c yes more rest =>
    (if c.passes site then yes.areas site else more.areas site) ++ rest.areas site

def Arms.areas (site : Site) : Arms → List Area
  | .none => []
  | .otherwise no => no.areas site
  | .orWhen c yes more => if c.passes site then yes.areas site else more.areas site

end

namespace Code

variable {site : Site}

theorem areas_append (a b : Code) : (a ++ b).areas site = a.areas site ++ b.areas site := by
  change (a.append b).areas site = _
  cases a with
  | done => rfl
  | line st rest =>
    rw [append, areas, areas, List.append_assoc]
    exact congrArg _ (areas_append rest b)
  | blank rest =>
    rw [append, areas, areas]
    exact areas_append rest b
  | block h body rest =>
    rw [append, areas, areas, List.append_assoc]
    exact congrArg _ (areas_append rest b)
  | choose c yes more rest =>
    rw [append, areas, areas, List.append_assoc]
    exact congrArg _ (areas_append rest b)

theorem areas_texts {lines : List String} (h : ∀ line ∈ lines, Area.ofLine? line.toList = none) :
    (texts lines).areas site = [] := by
  induction lines with
  | nil => rfl
  | cons text lines ih =>
    obtain ⟨htext, hlines⟩ := List.forall_mem_cons.mp h
    have harea : (Stmt.text text).area? = none := htext
    change (line (.text text) (texts lines)).areas site = []
    rw [areas, harea, ih hlines]
    rfl

theorem areas_when (c : Cond) (yes : Code) :
    (when c yes).areas site = if c.passes site then yes.areas site else [] := by
  rw [when, areas, Arms.areas, areas, List.append_nil]

end Code

theorem Body.areas_onDomain {arch : Option Domain} {site : Site} (harch : ∀ a ∈ arch, a = site.domain)
    (d : Domain) (c : Code) :
    (Body.onDomain arch d c).areas site = if site.domain = d then c.areas site else [] := by
  cases arch with
  | none =>
    have hpasses : (Cond.onDomain d).passes site = decide (site.domain = d) := by
      simp [Cond.passes, Cond.holds?]
    rw [onDomain, Code.areas_when, hpasses]
    simp only [decide_eq_true_eq]
  | some a =>
    obtain rfl : a = site.domain := harch a rfl
    rw [onDomain]
    split <;> rfl

namespace Launch

variable {l : Launch} {r : Request} {op : Nat} {site : Site}

/-- The block of an operator in a domain: those of cube units come first. -/
def feedArea (l : Launch) (d : Domain) (op : Nat) : Area :=
  match d with
  | .cube => ⟨op * feedStride, feedStride⟩
  | .vector => ⟨l.shape.operatorCount * feedStride + op * feedStride, feedStride⟩

/-- The blocks of all operators in both domains. -/
def feedAreas (l : Launch) : List Area :=
  Domain.all.flatMap fun d => (List.range l.graph.size).map (l.feedArea d)

/-- On the units of a domain, an operator that is fed makes its block in that domain the current one. -/
theorem areas_feedInit {arch : Option Domain} (harch : ∀ a ∈ arch, a = site.domain)
    (hfeeds : l.feeds op = true) : (Body.feedInit l arch op).areas site = [l.feedArea site.domain op] := by
  have htexts : ∀ line ∈ ["AscendC::g_superKernelAutoSyncAllSyncIdx = 0;",
      "AscendC::g_superKernelAutoSyncAllEnable = true;"], Area.ofLine? line.toList = none := by
    simp only [List.forall_mem_cons, Area.ofLine?, -String.reduceToList]
    repeat rw [String.toList_ofList]
    decide
  have hstmt (st : Stmt) : (Code.stmt st).areas site = st.area?.toList := List.append_nil _
  rw [Body.feedInit, if_pos hfeeds, Code.areas_append, Code.areas_append, Code.areas_texts htexts,
    Body.areas_onDomain harch, Body.areas_onDomain harch, hstmt, hstmt, Stmt.area?_near, Stmt.area?_far]
  cases site.domain <;> rfl

/-- The blocks fill the bytes that operators have to have. -/
theorem tiles_feedAreas (hcount : l.shape.operatorCount = l.graph.size) :
    Tiles 0 (l.graph.size * LaunchShape.feedPerOperator) l.feedAreas := by
  have hcube : (List.range l.graph.size).map (l.feedArea .cube) = Area.row 0 feedStride l.graph.size := by
    simp [Area.row, feedArea]
  have hvector : (List.range l.graph.size).map (l.feedArea .vector)
      = Area.row (l.graph.size * feedStride) feedStride l.graph.size := by
    simp [Area.row, feedArea, hcount]
  have hboth : l.feedAreas = Area.row 0 feedStride l.graph.size
      ++ Area.row (l.graph.size * feedStride) feedStride l.graph.size := by
    simp [feedAreas, Domain.all, hcube, hvector]
  have hsize : l.graph.size * LaunchShape.feedPerOperator
      = l.graph.size * feedStride + l.graph.size * feedStride := by
    rw [← Nat.mul_add]
    rfl
  rw [hboth, hsize]
  refine Tiles.append ?_ (tiles_row _ _ _)
  simpa using tiles_row 0 feedStride l.graph.size

theorem bytes_of_mem_feedAreas {a : Area} (ha : a ∈ l.feedAreas) : a.bytes = feedStride := by
  obtain ⟨d, _, ha⟩ := List.mem_flatMap.mp ha
  obtain ⟨op, _, rfl⟩ := List.mem_map.mp ha
  cases d <;> rfl

end Launch

/-! ### Dump areas -/

/-- The number of values of an unsigned type. -/
def valuesOf? (type : List Char) : Option Nat :=
  if type = "uint32_t".toList then some (2 ^ 32)
  else if type = "uint64_t".toList then some (2 ^ 64) else none

/-- The size of a dump area that a line declares: what its type keeps of the number. -/
def dumpSize? (line : List Char) : Option Nat :=
  match words? "constexpr # ASCENDC_DUMP_SIZE = #;".toList line with
  | some [type, n] => (number? n).bind fun size => (valuesOf? type).map (size % ·)
  | _ => none

/-- The byte of the workspace from which on a line has areas of that size given out, one for every unit. -/
def dumpStart? (line : List Char) : Option Nat :=
  match words? "AscendC::InitDump(#, workspace + #, ASCENDC_DUMP_SIZE);".toList line with
  | some [_, n] => number? n
  | _ => none

/-- The dump area of the first unit. -/
def dumpArea? (lines : List String) : Option Area :=
  (lines.findSome? fun line => dumpStart? line.toList).bind fun start =>
    (lines.findSome? fun line => dumpSize? line.toList).map fun size => ⟨start, size⟩

section DumpLines

variable (size start : Nat) (mixed : Bool)

theorem dumpSize?_line :
    dumpSize? (s!"constexpr uint32_t ASCENDC_DUMP_SIZE = {size};").toList = some (size % 2 ^ 32) := by
  have hform : fits "constexpr # ASCENDC_DUMP_SIZE = #;".toList "constexpr ".toList
      [" ASCENDC_DUMP_SIZE = ".toList, ";".toList] = true := by
    repeat rw [String.toList_ofList]
    decide
  have hwords := words?_joined "constexpr " ["uint32_t", toString size] [" ASCENDC_DUMP_SIZE = ", ";"] hform rfl
    (List.forall_mem_cons.mpr ⟨isWord_literal (by decide), isWord_numbers [size]⟩)
  have hline : s!"constexpr uint32_t ASCENDC_DUMP_SIZE = {size};"
      = joined "constexpr " ["uint32_t", toString size] [" ASCENDC_DUMP_SIZE = ", ";"] := by
    change "constexpr uint32_t ASCENDC_DUMP_SIZE = " ++ toString size ++ ";"
      = "constexpr " ++ "uint32_t" ++ " ASCENDC_DUMP_SIZE = " ++ toString size ++ ";"
    simp only [String.reduceAppend]
  rewrite [dumpSize?, hline, hwords]
  simp only [List.map_cons, List.map_nil, number?_toString, Option.bind_some, valuesOf?, if_pos,
    Option.map_some, -String.reduceToList]

theorem dumpStart?_line :
    dumpStart? (s!"AscendC::InitDump({mixed}, workspace + {start}, ASCENDC_DUMP_SIZE);").toList
      = some start := by
  have hform : fits "AscendC::InitDump(#, workspace + #, ASCENDC_DUMP_SIZE);".toList
      "AscendC::InitDump(".toList [", workspace + ".toList, ", ASCENDC_DUMP_SIZE);".toList] = true := by
    repeat rw [String.toList_ofList]
    decide
  have hword : IsWord (toString mixed).toList := by
    cases mixed with
    | false => exact isWord_literal (by decide)
    | true => exact isWord_literal (by decide)
  have hwords : words? "AscendC::InitDump(#, workspace + #, ASCENDC_DUMP_SIZE);".toList
      (s!"AscendC::InitDump({mixed}, workspace + {start}, ASCENDC_DUMP_SIZE);").toList
      = some [(toString mixed).toList, (toString start).toList] :=
    words?_joined "AscendC::InitDump(" [toString mixed, toString start]
      [", workspace + ", ", ASCENDC_DUMP_SIZE);"] hform rfl
      (List.forall_mem_cons.mpr ⟨hword, isWord_numbers [start]⟩)
  rewrite [dumpStart?, hwords]
  exact number?_toString start

/-- The line with the size gives no areas out. -/
theorem dumpStart?_sizeLine :
    dumpStart? (s!"constexpr uint32_t ASCENDC_DUMP_SIZE = {size};").toList = none := by
  have hfront : (endsOutside "constexpr uint32_t ASCENDC_DUMP_SIZE = ".toList
      && clashes (tokens "AscendC::InitDump(#, workspace + #, ASCENDC_DUMP_SIZE);".toList)
        (tokens "constexpr uint32_t ASCENDC_DUMP_SIZE = ".toList)) = true := by
    repeat rw [String.toList_ofList]
    decide
  change dumpStart? ("constexpr uint32_t ASCENDC_DUMP_SIZE = " ++ toString size ++ ";").toList = none
  rewrite [dumpStart?, String.append_assoc, words?_of_front hfront]
  rfl

end DumpLines

namespace LaunchShape

variable {s : LaunchShape}

/-- The units of a launch in both domains. -/
def unitCount (s : LaunchShape) : Nat :=
  s.blockDim * (s.kernelType.unitsIn .cube + s.kernelType.unitsIn .vector)

/-- Bytes of all areas together, however many. -/
def wholeBytes (s : LaunchShape) : Nat := s.feedSyncBytes + if s.dump then s.unitCount * s.dumpSize else 0

theorem toNat_workspaceBytes (s : LaunchShape) : s.workspaceBytes.toNat = s.wholeBytes % 2 ^ 64 := by
  have hunits : s.unitCount * s.dumpSize
      = s.dumpSize * s.blockDim * (s.kernelType.ratio.1 + s.kernelType.ratio.2) := by
    rw [unitCount, Nat.mul_comm, Nat.mul_assoc]
    rfl
  rw [workspaceBytes, wholeBytes, hunits]
  cases s.dump <;> simp

/-- The dump areas that the lines before all operators have given out, one for each unit. -/
def dumpAreas? (s : LaunchShape) : Option (List Area) :=
  (dumpArea? (Source.dumpLines s)).map fun a => Area.row a.start a.bytes s.unitCount

theorem dumpAreas?_eq (h : s.dump = true) :
    s.dumpAreas? = some (Area.row s.feedSyncBytes (s.dumpSize % 2 ^ 32) s.unitCount) := by
  have hstart : dumpStart? "#if defined ASCENDC_DUMP || defined ASCENDC_TIME_STAMP_ON".toList = none := by
    unfold dumpStart?
    repeat rw [String.toList_ofList]
    decide
  have hsize : dumpSize? "#if defined ASCENDC_DUMP || defined ASCENDC_TIME_STAMP_ON".toList = none := by
    unfold dumpSize?
    repeat rw [String.toList_ofList]
    decide
  have harea : dumpArea? (Source.dumpLines s) = some ⟨s.feedSyncBytes, s.dumpSize % 2 ^ 32⟩ := by
    rw [Source.dumpLines, if_pos h, dumpArea?]
    simp only [List.findSome?_cons, hstart, hsize, dumpStart?_sizeLine, dumpStart?_line, dumpSize?_line,
      Option.bind_some, Option.map_some]
  rw [dumpAreas?, harea, Option.map_some]

/-- As long as the host counts without a carry, the dump areas end with the workspace exactly if their size
has 32 bits. -/
theorem tiles_dumpAreas (hunits : 0 < s.unitCount) (h : s.dump = true) (hwhole : s.wholeBytes < 2 ^ 64) :
    Tiles s.feedSyncBytes s.workspaceBytes.toNat (Area.row s.feedSyncBytes (s.dumpSize % 2 ^ 32) s.unitCount)
      ↔ s.dumpSize < 2 ^ 32 := by
  have hends := tiles_row s.feedSyncBytes (s.dumpSize % 2 ^ 32) s.unitCount
  have hbytes : s.workspaceBytes.toNat = s.feedSyncBytes + s.unitCount * s.dumpSize := by
    rw [toNat_workspaceBytes, Nat.mod_eq_of_lt hwhole, wholeBytes, if_pos h]
  rw [hbytes]
  constructor
  · intro htiles
    have hsizes := Nat.mul_left_cancel hunits (Nat.add_left_cancel (htiles.unique hends))
    rw [hsizes]
    exact Nat.mod_lt _ (by decide)
  · intro hsmall
    rwa [Nat.mod_eq_of_lt hsmall] at hends ⊢

end LaunchShape

/-! ### The whole workspace -/

namespace Launch

variable {l : Launch} {r : Request}

/-- The areas that the code before all operators writes on a unit of a domain. -/
def zeroed (l : Launch) (chip : Chip) (d : Domain) (unit : Nat) : Option (List Area) :=
  (Source.clearing l).writes chip ⟨d, l.shape.blockDim, unit⟩

/-- The parts of the workspace of a launch that feeds the barriers of its operators. -/
structure WorkspaceLaidOut (l : Launch) : Prop where
  /-- the sizing ends, at as many bytes as it takes by doubling for more than 128 bytes of every operator -/
  sized : LaunchShape.feedBytes l.shape.kernelType l.shape.blockDim l.graph.size
      = some l.shape.feedSyncBytes ∧
    ∃ k, IsLeast {k | 128 * l.graph.size
        < LaunchShape.feedUnits l.shape.kernelType l.shape.blockDim * 512 * 2 ^ k} k ∧
      l.shape.feedSyncBytes = LaunchShape.feedUnits l.shape.kernelType l.shape.blockDim * 512 * 2 ^ k
  /-- every operator that is fed is given its block, on the units of each domain -/
  addressed : ∀ op (site : Site) (arch : Option Domain), (∀ a ∈ arch, a = site.domain) →
    l.feeds op = true → (Body.feedInit l arch op).areas site = [l.feedArea site.domain op]
  apart : l.feedAreas.Pairwise Area.Apart
  inside : ∀ a ∈ l.feedAreas, a.bytes = 64 ∧ a.stop ≤ l.shape.feedSyncBytes
  /-- the code that clears is part of the entry point, whatever is run behind it -/
  entered : ∀ body, ∃ before after, Source.entryBody l body = before ++ (Source.clearing l ++ after)
  /-- the units of one domain write slices of 512 bytes, all bytes once, and the other units write nothing -/
  cleared : ∀ chip : Chip, chip.CopiesSlices → ∃ d parts, (∀ unit, l.zeroed chip d unit = some (parts unit)) ∧
    (∀ unit, l.zeroed chip d.other unit = some []) ∧
    Tiles 0 l.shape.feedSyncBytes
      ((List.range (l.shape.blockDim * l.shape.kernelType.unitsIn d)).flatMap parts) ∧
    ∀ unit, ∀ a ∈ parts unit, a.bytes = 512 ∧ 512 ∣ a.start

theorem blockDim_pos (hl : Generator.launch r = .ok l) : 0 < l.shape.blockDim := by
  obtain ⟨ops, _, hcheck, hops, haccepted, _⟩ := Generator.launch_resolved hl
  have hne : l.graph.operators ≠ [] := by
    rw [haccepted.spec.1]
    exact Operator.ofDescriptors_ne_nil hops (Request.operators_ne_nil hcheck)
  have hop : 0 < l.graph.size := List.length_pos_iff.mpr hne
  have hneed : 0 < (l.operator 0).requiredUnits (l.operator 0).eventDomain := by
    have hblocks := blockCount_pos hl hop
    rw [Operator.requiredUnits_of_mem (l.operator 0).eventDomain_mem, doubleUnits, maxUnits, UInt32.size]
    split <;> omega
  exact Nat.pos_of_mul_pos_right (hneed.trans_le (requiredUnits_le hl hop _))

/-- What the shape of a launch has of its operators for the workspace. -/
theorem feed_of_launch (hl : Generator.launch r = .ok l) (hfeed : l.options.feedSyncAll = true) :
    l.shape.operatorCount = l.graph.size ∧
      LaunchShape.feedBytes l.shape.kernelType l.shape.blockDim l.graph.size = some l.shape.feedSyncBytes := by
  obtain ⟨ops, _, _, _, haccepted, hshape⟩ := Generator.launch_resolved hl
  rw [Graph.size, haccepted.spec.1]
  rw [hfeed, LaunchShape.of, if_pos rfl] at hshape
  obtain ⟨bytes, hbytes, heq⟩ := Option.map_eq_some_iff.mp hshape
  rw [← heq]
  exact ⟨rfl, hbytes⟩

theorem dumpLines_infix (l : Launch) : Source.dumpLines l.shape <:+: (Source.prologue l).toLines := by
  have hlines : (Source.prologue l).toLines = _ ++ _ ++ _ :=
    (Code.linesAt_append 0 _ _).trans (congrArg (· ++ _) (Code.linesAt_append 0 _ _))
  rw [hlines]
  refine List.infix_append_of_infix_left (List.infix_append_of_infix_left ?_)
  have htexts := Code.toLines_texts
  unfold Code.toLines at htexts
  rw [htexts]
  exact List.infix_append_of_infix_left (List.infix_append_of_infix_left (List.suffix_append _ _).isInfix)

theorem exists_entryBody (l : Launch) (body : KernelBody) :
    ∃ before after, Source.entryBody l body = before ++ (Source.clearing l ++ after) := by
  cases body with
  | singleStream steps => exact ⟨.done, _, Code.append_assoc _ _ _⟩
  | twoStream s =>
    refine ⟨Source.kernelMark l true, Source.domainCall l .cube s.cube ++ (Source.domainCall l .vector s.vector
      ++ (Body.clearLocks l ++ Source.kernelMark l false)), ?_⟩
    simp only [Source.entryBody, Code.append_assoc]

/-- The units of the domain that clears zero the bytes together. -/
theorem cleared (hfeed : l.options.feedSyncAll = true) (hblocks : 0 < l.shape.blockDim) {n : Nat}
    (hbytes : l.shape.feedSyncBytes
      = LaunchShape.feedUnits l.shape.kernelType l.shape.blockDim * (512 * n))
    {chip : Chip} (hchip : chip.CopiesSlices) : ∃ d parts, (∀ unit, l.zeroed chip d unit = some (parts unit)) ∧
      (∀ unit, l.zeroed chip d.other unit = some []) ∧
      Tiles 0 l.shape.feedSyncBytes
        ((List.range (l.shape.blockDim * l.shape.kernelType.unitsIn d)).flatMap parts) ∧
      ∀ unit, ∀ a ∈ parts unit, a.bytes = 512 ∧ 512 ∣ a.start := by
  have hcode : Source.clearing l = (Clearing.of l.shape.kernelType l.shape.feedSyncBytes).code := if_pos hfeed
  have hshare : (Clearing.of l.shape.kernelType l.shape.feedSyncBytes).bytes / l.shape.blockDim = 512 * n := by
    rw [hbytes, Clearing.share_of l.shape.kernelType hblocks]
  refine ⟨(Clearing.of l.shape.kernelType l.shape.feedSyncBytes).domain,
    fun unit => Area.row (512 * n * unit) 512 n, fun unit => ?_, fun unit => ?_, ?_, fun unit a ha => ?_⟩
  · rw [zeroed, hcode, Clearing.writes_own hchip rfl, hshare, Nat.mul_div_cancel_left n (by decide)]
  · rw [zeroed, hcode]
    refine Clearing.writes_other ?_
    cases (Clearing.of l.shape.kernelType l.shape.feedSyncBytes).domain <;> exact Domain.noConfusion
  · have htiles : Tiles 0 (0 + LaunchShape.feedUnits l.shape.kernelType l.shape.blockDim * (512 * n))
        ((List.range (LaunchShape.feedUnits l.shape.kernelType l.shape.blockDim)).flatMap
          fun unit => Area.row (512 * n * unit) 512 n) := by
      refine Tiles.flatMap_range fun unit _ => ?_
      rw [Nat.zero_add, Nat.zero_add]
      exact Clearing.tiles_shares n unit
    rw [Nat.zero_add, ← hbytes] at htiles
    rwa [Clearing.units_of]
  · exact Clearing.slice_of_mem ha

theorem workspaceLaidOut (hl : Generator.launch r = .ok l) (hfeed : l.options.feedSyncAll = true) :
    l.WorkspaceLaidOut := by
  obtain ⟨hcount, hfeedBytes⟩ := feed_of_launch hl hfeed
  obtain ⟨k, hleast, hbytes⟩ := LaunchShape.feedBytes_eq_some hfeedBytes
  have hslices : l.shape.feedSyncBytes
      = LaunchShape.feedUnits l.shape.kernelType l.shape.blockDim * (512 * 2 ^ k) :=
    hbytes.trans (Nat.mul_assoc _ _ _)
  have htiles : Tiles 0 (l.graph.size * LaunchShape.feedPerOperator) l.feedAreas := tiles_feedAreas hcount
  have hmore : l.graph.size * LaunchShape.feedPerOperator < l.shape.feedSyncBytes := by
    rw [hbytes, Nat.mul_comm]
    exact hleast.1
  exact {
    sized := ⟨hfeedBytes, k, hleast, hbytes⟩
    addressed := fun op site arch harch => areas_feedInit harch
    apart := htiles.apart
    inside := fun a ha => ⟨bytes_of_mem_feedAreas ha, (htiles.bounds ha).2.trans hmore.le⟩
    entered := l.exists_entryBody
    cleared := fun chip hchip => cleared hfeed (blockDim_pos hl) hslices hchip }

theorem unitCount_pos (hl : Generator.launch r = .ok l) : 0 < l.shape.unitCount := by
  refine Nat.mul_pos (blockDim_pos hl) ?_
  cases l.shape.kernelType <;> decide

/-- The workspace has a slot exactly if it has areas. -/
theorem workspace_isSome_iff (hl : Generator.launch r = .ok l) :
    l.table.workspace.isSome = true ↔ 0 < l.shape.wholeBytes := by
  have hslot : l.table.workspace.isSome = l.shape.needsWorkspace := by
    obtain ⟨_, _, _, _, _, _, _, _, _, _, _, rfl⟩ := Generator.launch_ok_iff.mp hl
    simp only [Generator.launchOf, Table.assign]
    split <;> simp_all
  have hdump : 0 < l.shape.dumpSize := by
    unfold LaunchShape.dumpSize
    split
    next hsize => exact hsize
    next => decide
  rw [hslot, LaunchShape.needsWorkspace, LaunchShape.wholeBytes]
  cases l.shape.dump with
  | false => simp
  | true =>
    have hareas := Nat.mul_pos (unitCount_pos hl) hdump
    simp only [Bool.true_or, if_true, true_iff]
    exact Nat.add_pos_right _ hareas

end Launch

namespace Generator

variable {r : Request} {k : FusedKernel}

/-- CORRECT: in the workspace of an accepted request that feeds barriers all parts fit; the table of any
accepted request has a slot for the workspace exactly if it has areas, whose bytes are counted in 64 bits; and
where these are enough the dump areas end with the workspace exactly if the size of one has 32 bits. -/
theorem workspace_fits (h : generate r = .ok k) : ∃ l body stats, launch r = .ok l ∧
    schedule l = .ok (body, stats) ∧ k = kernel l body stats ∧
    (l.options.feedSyncAll = true → l.WorkspaceLaidOut) ∧
    (k.table.workspace.isSome = true ↔ 0 < l.shape.wholeBytes) ∧
    k.workspaceBytes.toNat = l.shape.wholeBytes % 2 ^ 64 ∧
    (l.shape.dump = true → Source.dumpLines l.shape <:+: (Source.prologue l).toLines ∧
      ∃ areas, l.shape.dumpAreas? = some areas ∧
        Tiles l.shape.feedSyncBytes
          (l.shape.feedSyncBytes + l.shape.unitCount * (l.shape.dumpSize % 2 ^ 32)) areas ∧
        (l.shape.wholeBytes < 2 ^ 64 →
          (Tiles l.shape.feedSyncBytes k.workspaceBytes.toNat areas ↔ l.shape.dumpSize < 2 ^ 32))) := by
  obtain ⟨l, body, stats, hl, hschedule, rfl⟩ := generate_ok_iff.mp h
  refine ⟨l, body, stats, hl, hschedule, rfl, Launch.workspaceLaidOut hl, Launch.workspace_isSome_iff hl,
    l.shape.toNat_workspaceBytes, fun hdump => ⟨l.dumpLines_infix, _, LaunchShape.dumpAreas?_eq hdump,
      tiles_row _ _ _, LaunchShape.tiles_dumpAreas (Launch.unitCount_pos hl) hdump⟩⟩

/-- One block of cube units with a barrier of their own and messages, beside two blocks of both domains. -/
def fedRequest : Request :=
  .ofOperators "feed-sync-all=1" [{ OperatorDescriptor.onStream 0 "first" .aicOnly [] [] with
      blockDim := 1, withSyncAll := true, debugOptions := "printf" },
    { OperatorDescriptor.onStream 0 "second" .mixAic12 [] [] with blockDim := 2 }]

/-- A chip whose matrices are as large as their configuration says: repeats in the lower half, then blocks. -/
def regularChip : Chip := ⟨32, fun config => config % 2 ^ 16 * (config / 2 ^ 16) * 32⟩

/-- The four vector units zero the workspace, from which the first operator is fed, up to the dump areas. -/
theorem fedRequest_fits : ∃ k l areas d parts, generate fedRequest = .ok k ∧ launch fedRequest = .ok l ∧
    l.options.feedSyncAll = true ∧ l.shape.kernelType = .mixAic12 ∧ l.feeds 0 = true ∧
    k.table.workspace.isSome = true ∧ 0 < k.workspaceBytes.toNat ∧ l.WorkspaceLaidOut ∧
    (∀ unit, l.zeroed regularChip d unit = some (parts unit)) ∧
    Tiles 0 l.shape.feedSyncBytes
      ((List.range (l.shape.blockDim * l.shape.kernelType.unitsIn d)).flatMap parts) ∧
    l.shape.dumpAreas? = some areas ∧ Tiles l.shape.feedSyncBytes k.workspaceBytes.toNat areas := by
  obtain ⟨l, body, stats, hl, hschedule, htest⟩ : ∃ l body stats, launch fedRequest = .ok l ∧
      schedule l = .ok (body, stats) ∧ decide (l.options.feedSyncAll = true ∧
        l.shape.kernelType = .mixAic12 ∧ l.feeds 0 = true ∧ l.shape.dump = true ∧
        l.table.workspace.isSome = true ∧ l.shape.wholeBytes < 2 ^ 64 ∧ l.shape.dumpSize < 2 ^ 32) = true :=
    exists_schedule_of_test (by decide +kernel)
  obtain ⟨hfeed, htype, hfeeds, hdump, hslot, hwhole, hsize⟩ := of_decide_eq_true htest
  have hk : generate fedRequest = .ok (kernel l body stats) :=
    generate_ok_iff.mpr ⟨l, body, stats, hl, hschedule, rfl⟩
  obtain ⟨l', _, _, hl', _, _, hlaidOut, hiff, hbytes, hdumped⟩ := workspace_fits hk
  cases hl.symm.trans hl'
  obtain ⟨d, parts, hparts, _, htiles, _⟩ := (hlaidOut hfeed).cleared regularChip ⟨rfl, by decide⟩
  obtain ⟨_, areas, hareas, _, hends⟩ := hdumped hdump
  have hpos : 0 < (kernel l body stats).workspaceBytes.toNat := by
    rw [hbytes, Nat.mod_eq_of_lt hwhole]
    exact hiff.mp hslot
  exact ⟨_, l, areas, d, parts, hk, hl, hfeed, htype, hfeeds, hslot, hpos, hlaidOut hfeed, hparts, htiles,
    hareas, (hends hwhole).mpr hsize⟩

/-- An operator on one vector unit whose messages may take 4 GiB and 1 KiB. -/
def longMessages : Request :=
  .ofOperators "feed-sync-all=1" [{ OperatorDescriptor.onStream 0 "first" .aivOnly [] [] with
    blockDim := 1, debugOptions := "printf", debugBufSize := 4294968320 }]

/-- The code keeps 1 KiB of the size, so that its dump area ends long before the workspace does. -/
theorem longMessages_cut : ∃ k l, generate longMessages = .ok k ∧ launch longMessages = .ok l ∧
    l.shape.dump = true ∧ l.shape.dumpAreas? = some [⟨512, 1024⟩] ∧ l.shape.feedSyncBytes = 512 ∧
    k.workspaceBytes = 4294968832 ∧ ¬Tiles 512 k.workspaceBytes.toNat [⟨512, 1024⟩] := by
  obtain ⟨l, body, stats, hl, hschedule, htest⟩ : ∃ l body stats, launch longMessages = .ok l ∧
      schedule l = .ok (body, stats) ∧ decide (l.shape.dump = true ∧ l.shape.feedSyncBytes = 512 ∧
        l.shape.dumpSize = 4294968320 ∧ l.shape.unitCount = 1 ∧
        l.shape.workspaceBytes = 4294968832) = true :=
    exists_schedule_of_test (by decide +kernel)
  obtain ⟨hdump, hfeed, hsize, hunits, hbytes⟩ := of_decide_eq_true htest
  have hareas := LaunchShape.dumpAreas?_eq hdump
  rw [hfeed, hsize, hunits] at hareas
  have hk : (kernel l body stats).workspaceBytes = 4294968832 := hbytes
  refine ⟨_, l, generate_ok_iff.mpr ⟨l, body, stats, hl, hschedule, rfl⟩, hl, hdump, hareas, hfeed, hk, ?_⟩
  rw [hk]
  intro htiles
  have hend : Area.stop ⟨512, 1024⟩ = UInt64.toNat 4294968832 := htiles.2
  exact absurd hend (by decide)

end Generator

end KernelFusion
