import KernelFusion.Proofs.Options
import Mathlib.Algebra.Group.Nat.Defs
import Mathlib.Data.List.DropRight
import Mathlib.Logic.Function.Basic

/-!
Option texts as maps from keys to values.

Segments are applied from left to right, and the first that is refused ends it. Still their order does not
matter: a key is set once at most, whether a value is accepted depends on nothing but its key, and every key
has an option of its own. So a text is read as a map, and each option is looked up in it.

        text        split-mode=2 : note : profiling=1
        map         split-mode ↦ 2, profiling ↦ 1
        options     splitMode 2, profiling true, all others by default
-/

namespace KernelFusion

/-! ### Entries of a text -/

namespace Text

variable {sep : Char} {s e : String} {cs : List Char}

theorem splitChars_eq_splitOn (sep : Char) (cs : List Char) : splitChars sep cs = cs.splitOn sep := by
  induction cs with
  | nil => rfl
  | cons c cs ih =>
    rw [splitChars, ih, List.splitOn_cons_eq_if_modifyHead]
    by_cases hc : c = sep
    · rw [if_pos hc, if_pos (beq_iff_eq.mpr hc)]
    · rw [if_neg hc, if_neg (by simpa using hc)]
      cases hsplit : cs.splitOn sep with
      | nil => exact absurd hsplit (List.splitOn_ne_nil sep cs)
      | cons part parts => rfl

theorem splitFirst_eq_none (h : sep ∉ cs) : splitFirst sep cs = none := by
  induction cs with
  | nil => rfl
  | cons c cs ih =>
    rw [List.mem_cons, not_or] at h
    rw [splitFirst, if_neg (Ne.symm h.1), ih h.2]
    rfl

theorem trimChars_eq (cs : List Char) :
    trimChars cs = (cs.dropWhile isBlank).rdropWhile isBlank := rfl

theorem trimChars_isPrefix (cs : List Char) : trimChars cs <+: cs.dropWhile isBlank :=
  List.rdropWhile_prefix isBlank _

/-- Trimming from the right leaves the first character where it is, so no blank comes first after it. -/
theorem trimChars_trimChars (cs : List Char) : trimChars (trimChars cs) = trimChars cs := by
  have hfront : (trimChars cs).dropWhile isBlank = trimChars cs := by
    refine List.dropWhile_eq_self_iff.mpr fun hpos => ?_
    rw [(trimChars_isPrefix cs).getElem hpos]
    exact List.dropWhile_get_zero_not isBlank cs _
  rw [trimChars_eq (trimChars cs), hfront, trimChars_eq, List.rdropWhile_idempotent]

theorem trimChars_sublist (cs : List Char) : (trimChars cs).Sublist cs :=
  (trimChars_isPrefix cs).sublist.trans (List.dropWhile_sublist isBlank)

/-- A text that is not empty and neither begins nor ends with a blank. -/
structure IsEntry (e : String) : Prop where
  nonempty : e ≠ ""
  trimmed : trim e = e

theorem isEntry_of_mem_entries (h : e ∈ entries sep s) : IsEntry e := by
  obtain ⟨part, hpart, rfl⟩ := List.mem_map.mp h
  obtain ⟨hpart, hnonempty⟩ := List.mem_filter.mp hpart
  obtain ⟨cs, _, rfl⟩ := List.mem_map.mp hpart
  refine ⟨fun hempty => ?_, ?_⟩
  · rw [String.ofList_eq_empty_iff] at hempty
    simp [hempty] at hnonempty
  · rw [trim, String.toList_ofList, trimChars_trimChars]

/-- Parts that are joined by colons are found again. -/
theorem entries_join {segments : List String} (h : ∀ s ∈ segments, ':' ∉ s.toList) :
    entries ':' (":".intercalate segments) = (segments.map trim).filter fun e => !e.isEmpty := by
  cases hsegments : segments with
  | nil => rfl
  | cons s rest =>
    have hparts : splitChars ':' (":".intercalate segments).toList = segments.map String.toList := by
      rw [splitChars_eq_splitOn, String.toList_intercalate]
      exact List.splitOn_intercalate ':' (by simpa using h) (by simp [hsegments])
    rw [← hsegments, entries, hparts, List.map_map, List.filter_map, List.filter_map, List.map_map]
    have hempty : ((fun e : String => !e.isEmpty) ∘ trim)
        = (fun part : List Char => !part.isEmpty) ∘ trimChars ∘ String.toList := by
      funext s
      rw [Bool.eq_iff_iff]
      simp [trim]
    rw [hempty]
    rfl

end Text

namespace Options

variable {f : String → Option String} {key value : String} {o : Options}

/-! ### Options by a map -/

/-- What the value is read as, or the default where there is no value. -/
def taken {α : Type} (read : String → Checked α) (unset : α) (value : Option String) : α :=
  (value.bind fun v => (read v).toOption).getD unset

/-- The options by a map from keys to values, each from the value of its own key. -/
def reading (f : String → Option String) : Options where
  funcAlign := taken alignment default.funcAlign (f "func-align")
  preload := taken preloadMode default.preload (f "preload-code")
  earlyStart := taken earlyStartMode default.earlyStart (f "early-start")
  streamFusion := taken switch default.streamFusion (f "stream-fusion")
  debugDcciAll := taken switch default.debugDcciAll (f "debug-dcci-all")
  debugSyncAll := taken switch default.debugSyncAll (f "debug-sync-all")
  feedSyncAll := taken switch default.feedSyncAll (f "feed-sync-all")
  profiling := taken switch default.profiling (f "profiling")
  splitMode := taken split default.splitMode (f "split-mode")
  cubeUnits := (f "debug-aic-num").bind fun v => (units v).toOption
  vectorUnits := (f "debug-aiv-num").bind fun v => (units v).toOption
  compileOptions := ((f "compile-options").map (Text.entries ',')).getD []
  flushBefore := ((f "dcci-before-kernel-start").map nameSet).getD []
  flushAfter := ((f "dcci-after-kernel-end").map nameSet).getD []
  flushNever := ((f "dcci-disable-on-kernel").map nameSet).getD []
  strictScope := f "strict-scope-check"

theorem reading_none : reading (fun _ => none) = default := rfl

theorem bind_eq_map_const {α : Type} {x : Checked α} {g g' : α → Options} {o : Options}
    (h : ∀ a, x = .ok a → g a = o) :
    (do return g (← x)) = Except.map (fun _ => o) (do return g' (← x)) := by
  cases x with
  | error fault => rfl
  | ok a => exact congrArg Except.ok (h a rfl)

/-- To set an option is to put the value into the map. Whether it is accepted does not depend on the other
options. -/
theorem set_reading (f : String → Option String) (key value : String) :
    (reading f).set key value
      = (default.set key value).map fun _ => reading (Function.update f key (some value)) := by
  unfold set
  split
  case h_17 => rfl
  -- lists and names are taken as they are, all other values can be refused
  case h_12 | h_13 | h_14 | h_15 | h_16 => exact congrArg Except.ok (by simp [reading])
  all_goals exact bind_eq_map_const fun a ha => by simp [reading, taken, ha, Except.toOption]

/-! ### Values -/

/-- The form of the readers that refuse some numbers. -/
theorem not_of_number {p : Nat → Prop} [DecidablePred p] {fault : Nat → OptionFault} {n : Nat}
    (h : (do
      let n ← number value
      if p n then throw (fault n)
      return n : Checked Nat) = .ok n) : ¬ p n := by
  obtain ⟨m, _, h⟩ := bind_eq_ok.mp h
  by_cases hp : p m
  · simp [hp, bind, Except.bind, throw, throwThe, MonadExceptOf.throw] at h
  · obtain rfl : m = n := by simpa [hp, pure, Except.pure] using h
    exact hp

theorem units_pos {n : Nat} (h : units value = .ok n) : 1 ≤ n :=
  Nat.one_le_iff_ne_zero.mpr (not_of_number (p := (· = 0)) h)

theorem split_bounds {n : Nat} (h : split value = .ok n) : 1 ≤ n ∧ n ≤ 64 := by
  have hgood : ¬ (n = 0 || n > maxSplit) = true :=
    not_of_number (p := fun n => (n = 0 || n > maxSplit) = true) h
  rw [Bool.or_eq_true, decide_eq_true_eq, decide_eq_true_eq, not_or] at hgood
  exact ⟨Nat.one_le_iff_ne_zero.mpr hgood.1, Nat.not_lt.mp hgood.2⟩

theorem alignment_cases {n : Nat} (h : alignment value = .ok n) : n = 0 ∨ ∃ k, 1 ≤ k ∧ n = 2 ^ k := by
  have hgood : n ≠ 1 ∧ (n ≠ 0 → 2 ^ n.log2 = n) := by
    simpa [isPowerOfTwo] using
      not_of_number (p := fun n => (n = 1 || (n != 0 && !isPowerOfTwo n)) = true) h
  -- one is the only power of two with logarithm zero
  refine or_iff_not_imp_left.mpr fun hpos => ⟨n.log2, ?_, (hgood.2 hpos).symm⟩
  refine Nat.one_le_iff_ne_zero.mpr fun hzero => hgood.1 ?_
  rw [← hgood.2 hpos, hzero, Nat.pow_zero]

theorem mem_insertName {e name : String} {names : List String} (h : e ∈ insertName name names) :
    e = name ∨ e ∈ names := by
  induction names with
  | nil => simpa [insertName] using h
  | cons n ns ih =>
    rw [insertName] at h
    split at h
    · exact .inr h
    · split at h
      · exact List.mem_cons.mp h
      · rcases List.mem_cons.mp h with rfl | hrest
        · exact .inr List.mem_cons_self
        · exact (ih hrest).imp_right (List.mem_cons_of_mem n)

theorem mem_entries_of_mem_nameSet {e : String} (h : e ∈ nameSet value) : e ∈ Text.entries ',' value := by
  rw [nameSet] at h
  generalize Text.entries ',' value = names at h ⊢
  induction names with
  | nil => exact h
  | cons n ns ih => exact List.mem_cons.mpr ((mem_insertName h).imp_right ih)

/-- What every accepted text gives. -/
structure Sound (o : Options) : Prop where
  splitMode : 1 ≤ o.splitMode ∧ o.splitMode ≤ 64
  funcAlign : o.funcAlign = 0 ∨ ∃ k, 1 ≤ k ∧ o.funcAlign = 2 ^ k
  cubeUnits : ∀ n ∈ o.cubeUnits, 1 ≤ n
  vectorUnits : ∀ n ∈ o.vectorUnits, 1 ≤ n
  entries : ∀ e ∈ o.compileOptions ++ o.flushBefore ++ o.flushAfter ++ o.flushNever, Text.IsEntry e

/-- Defaults and values that are accepted have a property, so an option has it. -/
theorem taken_of {α : Type} {P : α → Prop} {read : String → Checked α} {unset : α} (hunset : P unset)
    (hread : ∀ v a, read v = .ok a → P a) (value : Option String) : P (taken read unset value) := by
  cases value with
  | none => exact hunset
  | some v =>
    cases hv : read v with
    | error fault => simpa [taken, hv, Except.toOption] using hunset
    | ok a => simpa [taken, hv, Except.toOption] using hread v a hv

theorem one_le_of_mem_units {n : Nat} {value : Option String}
    (h : n ∈ value.bind fun v => (units v).toOption) : 1 ≤ n := by
  obtain ⟨v, _, hv⟩ := Option.bind_eq_some_iff.mp h
  cases hunits : units v with
  | error fault => simp [hunits, Except.toOption] at hv
  | ok m =>
    obtain rfl : m = n := by simpa [hunits, Except.toOption] using hv
    exact units_pos hunits

theorem isEntry_of_mem {e : String} {value : Option String} {names : String → List String}
    (hnames : ∀ v, ∀ e ∈ names v, e ∈ Text.entries ',' v) (h : e ∈ (value.map names).getD []) :
    Text.IsEntry e := by
  cases value with
  | none => simp at h
  | some v => exact Text.isEntry_of_mem_entries (hnames v e h)

theorem sound_reading (f : String → Option String) : (reading f).Sound where
  splitMode := taken_of (by decide) (fun _ _ => split_bounds) _
  funcAlign :=
    taken_of (P := fun n => n = 0 ∨ ∃ k, 1 ≤ k ∧ n = 2 ^ k) (.inr ⟨9, by decide, by decide⟩)
      (fun _ _ => alignment_cases) _
  cubeUnits _ := one_le_of_mem_units
  vectorUnits _ := one_le_of_mem_units
  entries e he := by
    rw [List.mem_append, List.mem_append, List.mem_append] at he
    rcases he with ((he | he) | he) | he
    · exact isEntry_of_mem (fun _ _ => id) he
    all_goals exact isEntry_of_mem (fun _ _ => mem_entries_of_mem_nameSet) he

/-! ### Assignments as a map -/

/-- An assignment that is accepted on its own. -/
structure Usable (a : String × String) : Prop where
  key : a.1.isEmpty = false
  value : a.2.isEmpty = false
  accepted : (default.set a.1 a.2).isOk = true

/-- The map of a list of assignments; keys that it does not have are as in another map. -/
def overlay (as : List (String × String)) (f : String → Option String) (key : String) : Option String :=
  (as.lookup key).or (f key)

variable {as bs : List (String × String)} {seen : List String}

theorem lookup_eq_some_iff_mem (h : (as.map Prod.fst).Nodup) :
    as.lookup key = some value ↔ (key, value) ∈ as := by
  induction as with
  | nil => simp
  | cons a as ih =>
    obtain ⟨k, v⟩ := a
    obtain ⟨hnew, hrest⟩ := List.nodup_cons.mp h
    rw [List.lookup_cons, List.mem_cons, Prod.mk.injEq]
    cases hk : key == k with
    | true =>
      obtain rfl : key = k := beq_iff_eq.mp hk
      have hold : (key, value) ∉ as := fun hmem => hnew (List.mem_map.mpr ⟨_, hmem, rfl⟩)
      simp [hold, eq_comm]
    | false => simp [beq_eq_false_iff_ne.mp hk, ih hrest]

theorem overlay_cons (h : key ∉ as.map Prod.fst) :
    overlay as (Function.update f key (some value)) = overlay ((key, value) :: as) f := by
  funext k
  rw [overlay, overlay, List.lookup_cons]
  cases hk : k == key with
  | true =>
    obtain rfl : k = key := beq_iff_eq.mp hk
    have hnone : as.lookup k = none := by
      refine List.lookup_eq_none_iff.mpr fun a ha => bne_iff_ne.mpr ?_
      exact fun hkey => h (hkey ▸ List.mem_map_of_mem ha)
    simp [hnone]
  | false => rw [Function.update_of_ne (beq_eq_false_iff_ne.mp hk)]

/-- An assignment is carried out if it is accepted on its own and its key is new. -/
theorem assignAll_cons :
    assignAll seen (reading f) ((key, value) :: as) = some o ↔
      (Usable (key, value) ∧ key ∉ seen) ∧
        assignAll (key :: seen) (reading (Function.update f key (some value))) as = some o := by
  rw [assignAll, set_reading]
  constructor
  · intro h
    split at h
    · cases h
    case isFalse hgood =>
      rw [Bool.or_eq_true, Bool.or_eq_true, not_or, not_or, Bool.not_eq_true, Bool.not_eq_true,
        List.contains_iff_mem] at hgood
      obtain ⟨⟨hkey, hvalue⟩, hnew⟩ := hgood
      cases hset : default.set key value with
      | error fault =>
        rw [hset] at h
        cases h
      | ok _ =>
        rw [hset] at h
        exact ⟨⟨⟨hkey, hvalue, by rw [hset]; rfl⟩, hnew⟩, h⟩
  · rintro ⟨⟨⟨hkey, hvalue, hset⟩, hnew⟩, h⟩
    dsimp only at hkey hvalue hset
    rw [hkey, hvalue, if_neg (by simpa using hnew)]
    cases hok : default.set key value with
    | error fault =>
      rw [hok] at hset
      cases hset
    | ok _ => exact h

theorem assignAll_eq_some : assignAll seen (reading f) as = some o ↔
    (∀ a ∈ as, Usable a ∧ a.1 ∉ seen) ∧ (as.map Prod.fst).Nodup ∧ reading (overlay as f) = o := by
  induction as generalizing seen f with
  | nil =>
    have hoverlay : overlay [] f = f := rfl
    simp [assignAll, hoverlay]
  | cons a as ih =>
    obtain ⟨key, value⟩ := a
    rw [assignAll_cons, ih, List.forall_mem_cons, List.map_cons, List.nodup_cons]
    constructor
    · rintro ⟨hhead, htail, hnodup, hread⟩
      -- the rest is carried out with the key among those seen, so that it does not assign it again
      have hnew : key ∉ as.map Prod.fst := by
        intro hmem
        obtain ⟨a, ha, rfl⟩ := List.mem_map.mp hmem
        exact (htail a ha).2 List.mem_cons_self
      refine ⟨⟨hhead, fun a ha => ?_⟩, ⟨hnew, hnodup⟩, overlay_cons hnew ▸ hread⟩
      exact ⟨(htail a ha).1, List.not_mem_of_not_mem_cons (htail a ha).2⟩
    · rintro ⟨⟨hhead, htail⟩, ⟨hnew, hnodup⟩, hread⟩
      refine ⟨hhead, fun a ha => ⟨(htail a ha).1, ?_⟩, hnodup, overlay_cons hnew ▸ hread⟩
      refine List.not_mem_cons_of_ne_of_not_mem ?_ (htail a ha).2
      exact fun hkey => hnew (List.mem_map.mpr ⟨a, ha, hkey⟩)

/-- All assignments are accepted on their own, and no key is assigned twice. -/
structure Acceptable (as : List (String × String)) : Prop where
  usable : ∀ a ∈ as, Usable a
  once : (as.map Prod.fst).Nodup

theorem assignAll_default :
    assignAll [] default as = some o ↔ Acceptable as ∧ reading (as.lookup ·) = o := by
  have hoverlay : overlay as (fun _ => none) = fun key => as.lookup key := by
    funext key
    exact Option.or_none
  rw [← reading_none, assignAll_eq_some, hoverlay, ← and_assoc]
  refine and_congr_left fun _ => ?_
  constructor
  · rintro ⟨hall, honce⟩
    exact ⟨fun a ha => (hall a ha).1, honce⟩
  · rintro ⟨husable, honce⟩
    exact ⟨fun a ha => ⟨husable a ha, List.not_mem_nil⟩, honce⟩

theorem Acceptable.perm (h : Acceptable as) (hperm : bs.Perm as) : Acceptable bs where
  usable a ha := h.usable a (hperm.mem_iff.mp ha)
  once := (hperm.map Prod.fst).nodup_iff.mpr h.once

theorem assignAll_of_perm (hperm : bs.Perm as) (h : assignAll [] default as = some o) :
    assignAll [] default bs = some o := by
  obtain ⟨hacceptable, hread⟩ := assignAll_default.mp h
  have hbs : Acceptable bs := hacceptable.perm hperm
  have hlookup : (bs.lookup ·) = (as.lookup ·) := by
    funext key
    refine Option.ext fun value => ?_
    rw [lookup_eq_some_iff_mem hbs.once, lookup_eq_some_iff_mem hacceptable.once, hperm.mem_iff]
  exact assignAll_default.mpr ⟨hbs, hlookup ▸ hread⟩

theorem assignAll_perm (hperm : bs.Perm as) : assignAll [] default bs = assignAll [] default as :=
  Option.ext fun _ => ⟨assignAll_of_perm hperm.symm, assignAll_of_perm hperm⟩

/-! ### Texts -/

theorem parse_eq_ok_iff {s : String} :
    parse s = .ok o ↔ Acceptable (assignments s) ∧ reading ((assignments s).lookup ·) = o := by
  rw [← assignAll_default, assignments, ← applyAll_toOption, ← parse]
  cases parse s <;> simp [Except.toOption]

/-- Every text that is accepted gives options in their ranges. -/
theorem parse_sound {s : String} (h : parse s = .ok o) : o.Sound :=
  (parse_eq_ok_iff.mp h).2 ▸ sound_reading _

/-- Operators have at least one variant by every text that is accepted. -/
theorem parse_splitMode {s : String} (h : parse s = .ok o) : o.splitMode ≠ 0 :=
  Nat.one_le_iff_ne_zero.mp (parse_sound h).splitMode.1

/-- A segment that sets nothing: it is blank, or has no equals sign. -/
def isIdle (segment : String) : Bool := (Text.trim segment).isEmpty || !segment.toList.contains '='

theorem keyValue?_eq_none {segment : String} (h : '=' ∉ segment.toList) :
    keyValue? (Text.trim segment) = none := by
  have htrim : '=' ∉ Text.trimChars segment.toList := fun hmem =>
    h ((Text.trimChars_sublist _).subset hmem)
  rw [keyValue?, Text.trim, String.toList_ofList, Text.splitFirst_eq_none htrim]
  rfl

theorem applyAll_filter (seen : List String) (o : Options) (segments : List String) :
    applyAll seen o (segments.filter fun s => (keyValue? s).isSome) = applyAll seen o segments := by
  induction segments generalizing seen o with
  | nil => rfl
  | cons s segments ih =>
    cases hkey : keyValue? s with
    | none =>
      rw [List.filter_cons_of_neg (by simp [hkey]), ih, applyAll, applySegment, hkey]
      rfl
    | some a =>
      rw [List.filter_cons_of_pos (by simp [hkey]), applyAll, applyAll]
      cases applySegment seen o s with
      | error e => rfl
      | ok next => exact ih next.1 next.2

theorem filter_trim (segments : List String) :
    ((segments.map Text.trim).filter fun e => !e.isEmpty).filter (fun e => (keyValue? e).isSome)
      = ((segments.filter fun s => !isIdle s).map Text.trim).filter fun e => (keyValue? e).isSome := by
  rw [List.filter_filter, List.filter_map, List.filter_map, List.filter_filter]
  refine congrArg (List.map Text.trim) (List.filter_congr fun s _ => ?_)
  by_cases hequals : '=' ∈ s.toList
  · simp [isIdle, hequals]
  · simp [keyValue?_eq_none hequals]

/-- A joined text applies its segments, trimmed, as far as they are not idle. -/
theorem parse_join {segments : List String} (h : ∀ s ∈ segments, ':' ∉ s.toList) :
    parse (":".intercalate segments)
      = applyAll [] default ((segments.filter fun s => !isIdle s).map Text.trim) := by
  rw [parse, Text.entries_join h, ← applyAll_filter, filter_trim, applyAll_filter]

/-- CORRECT: segments that are joined by colons are accepted in any order or in none, with the same options,
and idle segments make no difference, not even for what is refused. Options that are accepted are in their
ranges. A text is accepted if all its assignments are and no key is assigned twice, and each option is then
what its key is assigned. -/
theorem parse_order_free :
    (∀ segments segments' : List String, (∀ s ∈ segments, ':' ∉ s.toList) → segments'.Perm segments →
      (parse (":".intercalate segments')).toOption = (parse (":".intercalate segments)).toOption) ∧
    (∀ segments segments' : List String, (∀ s ∈ segments ++ segments', ':' ∉ s.toList) →
      (segments'.filter fun s => !isIdle s) = (segments.filter fun s => !isIdle s) →
      parse (":".intercalate segments') = parse (":".intercalate segments)) ∧
    (∀ s o, parse s = .ok o → o.Sound) ∧
    ∀ s o, parse s = .ok o ↔ Acceptable (assignments s) ∧ reading ((assignments s).lookup ·) = o := by
  refine ⟨fun segments segments' h hperm => ?_, fun segments segments' h hsame => ?_,
    fun _ _ => parse_sound, fun _ _ => parse_eq_ok_iff⟩
  · have h' : ∀ s ∈ segments', ':' ∉ s.toList := fun s hs => h s (hperm.mem_iff.mp hs)
    rw [parse_join h, parse_join h', applyAll_toOption, applyAll_toOption]
    exact assignAll_perm (((hperm.filter _).map _).filterMap _)
  · rw [parse_join fun s hs => h s (List.mem_append_left _ hs),
      parse_join fun s hs => h s (List.mem_append_right _ hs), hsame]

/-- Three assignments and a note among them. -/
def notedSegments : List String :=
  ["split-mode=2", " note ", " profiling = 1", "dcci-before-kernel-start=b, a"]

theorem notedSegments_order_free :
    ((∀ s ∈ notedSegments, ':' ∉ s.toList) ∧ notedSegments.reverse.Perm notedSegments) ∧
    (parse (":".intercalate notedSegments.reverse)).toOption
      = (parse (":".intercalate notedSegments)).toOption ∧
    parse (":".intercalate (" " :: notedSegments)) = parse (":".intercalate notedSegments) ∧
    ∃ o, parse (":".intercalate notedSegments) = .ok o ∧ o.Sound ∧ o.flushBefore = ["a", "b"] := by
  have hsegments : ∀ s ∈ notedSegments, ':' ∉ s.toList := by decide
  have hperm : notedSegments.reverse.Perm notedSegments := List.reverse_perm notedSegments
  obtain ⟨hany, hidle, hsound, _⟩ := parse_order_free
  have hread : parse (":".intercalate notedSegments)
      = .ok { default with splitMode := 2, profiling := true, flushBefore := ["a", "b"] } := rfl
  exact ⟨⟨hsegments, hperm⟩, hany _ _ hsegments hperm, hidle _ _ (by decide) (by decide), _, hread,
    hsound _ _ hread, rfl⟩

end Options

end KernelFusion
