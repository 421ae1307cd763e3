import KernelFusion.Proofs.Store
import Mathlib.Data.List.Nodup

/-!
Tuning options in an option text.

A tuning option is about how the code of a kernel is laid out, watched or compiled. Assignments to such
options can be left out of a text: if they are accepted, the text is accepted or refused as without them,
and the other options come out the same.

        text      early-start=0 : profiling=1 : debug-aic-num=8 : split-mode=2
        others    early-start=0               : debug-aic-num=8
-/

namespace KernelFusion

namespace Options

/-! ### Assignments -/

/-- The keys and values that a text assigns, in order. -/
def assignments (s : String) : List (String × String) := (Text.entries ':' s).filterMap keyValue?

/-- Carries out assignments one by one, if none is refused. -/
def assignAll : List String → Options → List (String × String) → Option Options
  | _, o, [] => some o
  | seen, o, (key, value) :: rest =>
    if key.isEmpty || value.isEmpty || seen.contains key then none
    else (o.set key value).toOption.bind fun o => assignAll (key :: seen) o rest

theorem toOption_bind {α β : Type} (x : Except Error α) (f : α → Except Error β) :
    (x >>= f).toOption = x.toOption.bind fun a => (f a).toOption := by
  cases x <;> rfl

theorem applySegment_toOption (seen : List String) (o : Options) {segment key value : String}
    (h : keyValue? segment = some (key, value)) : (applySegment seen o segment).toOption
      = if key.isEmpty || value.isEmpty || seen.contains key then none
        else (o.set key value).toOption.map fun o => (key :: seen, o) := by
  rw [applySegment, h]
  dsimp only
  cases key.isEmpty || value.isEmpty with
  | true => rfl
  | false =>
    cases seen.contains key with
    | true => rfl
    | false => cases o.set key value <;> rfl

theorem applyAll_toOption (seen : List String) (o : Options) (segments : List String) :
    (applyAll seen o segments).toOption = assignAll seen o (segments.filterMap keyValue?) := by
  induction segments generalizing seen o with
  | nil => rfl
  | cons segment rest ih =>
    rw [applyAll, toOption_bind]
    cases hkey : keyValue? segment with
    | none =>
      rw [List.filterMap_cons_none hkey, applySegment, hkey]
      exact ih seen o
    | some assignment =>
      obtain ⟨key, value⟩ := assignment
      rw [List.filterMap_cons_some hkey, assignAll, applySegment_toOption seen o hkey]
      split
      · rfl
      · cases o.set key value with
        | error fault => rfl
        | ok o' => exact ih (key :: seen) o'

/-! ### Tuning options -/

def tuningKeys : List String :=
  ["preload-code", "profiling", "debug-dcci-all", "feed-sync-all", "func-align", "split-mode",
    "compile-options", "strict-scope-check", "dcci-before-kernel-start", "dcci-after-kernel-end",
    "dcci-disable-on-kernel"]

def isTuning (key : String) : Bool := tuningKeys.contains key

/-- The options with all tuning options at their defaults. -/
def untuned (o : Options) : Options :=
  { default with
    earlyStart := o.earlyStart, streamFusion := o.streamFusion, debugSyncAll := o.debugSyncAll
    cubeUnits := o.cubeUnits, vectorUnits := o.vectorUnits }

variable {o : Options} {key value : String}

theorem untuned_eq_iff {o' : Options} : o'.untuned = o.untuned ↔ o'.earlyStart = o.earlyStart ∧
    o'.streamFusion = o.streamFusion ∧ o'.debugSyncAll = o.debugSyncAll ∧
    o'.cubeUnits = o.cubeUnits ∧ o'.vectorUnits = o.vectorUnits := by
  simp [untuned]

/-- A tuning option is accepted by its value alone, and changes no other option. -/
theorem set_tuning (h : isTuning key = true) :
    (o.set key value).map untuned = (default.set key value).map fun _ => o.untuned := by
  simp only [isTuning, tuningKeys, List.contains_iff_mem, List.mem_cons, List.not_mem_nil, or_false] at h
  rcases h with rfl | rfl | rfl | rfl | rfl | rfl | rfl | rfl | rfl | rfl | rfl
  all_goals unfold set
  · cases preloadMode value <;> rfl
  · cases switch value <;> rfl
  · cases switch value <;> rfl
  · cases switch value <;> rfl
  · cases alignment value <;> rfl
  · cases split value <;> rfl
  all_goals rfl

/-- Any other option is set alike whatever the tuning options are. -/
theorem set_other (h : isTuning key = false) :
    (o.set key value).map untuned = o.untuned.set key value := by
  have hnot : ∀ k ∈ tuningKeys, key ≠ k := by
    rintro k hk rfl
    simp [isTuning, hk] at h
  unfold set
  split
  case h_3 => cases earlyStartMode value <;> rfl
  case h_4 => cases switch value <;> rfl
  case h_6 => cases switch value <;> rfl
  case h_10 => cases units value <;> rfl
  case h_11 => cases units value <;> rfl
  case h_17 => rfl
  all_goals exact absurd rfl (hnot _ (by decide))

/-! ### Leaving tuning options out -/

/-- Every tuning option is assigned once at most, and to a value that is accepted. -/
structure TuningAccepted (assignments : List (String × String)) : Prop where
  once : ((assignments.map Prod.fst).filter isTuning).Nodup
  accepted : ∀ a ∈ assignments, isTuning a.1 = true →
    a.2.isEmpty = false ∧ (default.set a.1 a.2).isOk = true

/-- The assignments to options that are no tuning options. -/
def others (assignments : List (String × String)) : List (String × String) :=
  assignments.filter fun a => !isTuning a.1

theorem TuningAccepted.tail {a : String × String} {as : List (String × String)}
    (h : TuningAccepted (a :: as)) : TuningAccepted as where
  once := h.once.sublist (((List.sublist_cons_self a as).map _).filter _)
  accepted b hb := h.accepted b (List.mem_cons_of_mem _ hb)

/-- No tuning option is assigned again. -/
theorem TuningAccepted.ne_of_mem {a b : String × String} {as : List (String × String)}
    (h : TuningAccepted (a :: as)) (hb : b ∈ as) (ht : isTuning b.1 = true) : b.1 ≠ a.1 := by
  intro heq
  have honce := h.once
  rw [List.map_cons, List.filter_cons_of_pos (heq ▸ ht)] at honce
  refine (List.nodup_cons.mp honce).1 (List.mem_filter.mpr ⟨?_, heq ▸ ht⟩)
  exact heq ▸ List.mem_map_of_mem hb

theorem ne_of_isTuning {key' : String} (h : isTuning key = false) (h' : isTuning key' = true) :
    key ≠ key' := by
  rintro rfl
  rw [h] at h'
  cases h'

theorem isEmpty_of_isTuning (h : isTuning key = true) : key.isEmpty = false := by
  have hnonempty : ∀ k ∈ tuningKeys, k.isEmpty = false := by decide
  exact hnonempty key (by simpa [isTuning] using h)

/-- An accepted assignment to a tuning option. -/
theorem exists_set_of_isTuning (o : Options) (h : isTuning key = true)
    (hok : (default.set key value).isOk = true) :
    ∃ o', o.set key value = .ok o' ∧ o'.untuned = o.untuned := by
  have hset : (o.set key value).map untuned = _ := set_tuning h
  cases hdefault : default.set key value with
  | error fault => simp [hdefault, Except.isOk, Except.toBool] at hok
  | ok _ =>
    rw [hdefault] at hset
    cases ho : o.set key value with
    | error fault => simp [ho, Except.map] at hset
    | ok o' => exact ⟨o', rfl, by simpa [ho, Except.map] using hset⟩

section Step

variable {as bs : List (String × String)} {seen rest : List String}

theorem assignAll_of_isTuning (h : isTuning key = true) (hvalue : value.isEmpty = false)
    (hok : (default.set key value).isOk = true) (hnew : key ∉ seen) : ∃ o', o'.untuned = o.untuned ∧
      assignAll seen o ((key, value) :: as) = assignAll (key :: seen) o' as := by
  obtain ⟨o', hset, huntuned⟩ := exists_set_of_isTuning o h hok
  refine ⟨o', huntuned, ?_⟩
  rw [assignAll, isEmpty_of_isTuning h, hvalue, List.contains_eq_mem, decide_eq_false hnew, hset]
  rfl

theorem assignAll_of_other (h : isTuning key = false) (hsame : key ∈ rest ↔ key ∈ seen)
    (hgo : ∀ o', (assignAll (key :: seen) o' as).map untuned = assignAll (key :: rest) o'.untuned bs) :
    (assignAll seen o ((key, value) :: as)).map untuned
      = assignAll rest o.untuned ((key, value) :: bs) := by
  have hcontains : rest.contains key = seen.contains key := by
    rw [List.contains_eq_mem, List.contains_eq_mem, decide_eq_decide.mpr hsame]
  rw [assignAll, assignAll, hcontains, ← set_other h]
  split
  · rfl
  · cases o.set key value with
    | error fault => rfl
    | ok o' => exact hgo o'

/-- `seen` are the keys set so far, and `rest` is the same without tuning options. -/
theorem assignAll_untuned (h : TuningAccepted as)
    (hseen : ∀ a ∈ as, isTuning a.1 = true → a.1 ∉ seen)
    (hrest : ∀ k, isTuning k = false → (k ∈ rest ↔ k ∈ seen)) :
    (assignAll seen o as).map untuned = assignAll rest o.untuned (others as) := by
  induction as generalizing seen rest o with
  | nil => rfl
  | cons a as ih =>
    obtain ⟨key, value⟩ := a
    have htail : TuningAccepted as := h.tail
    cases ht : isTuning key with
    | true =>
      -- the key is new among those seen, and none of those without tuning options
      obtain ⟨hvalue, hok⟩ := h.accepted _ List.mem_cons_self ht
      obtain ⟨o', huntuned, hstep⟩ := assignAll_of_isTuning (o := o) ht hvalue hok
        (hseen (key, value) List.mem_cons_self ht)
      have hskip : others ((key, value) :: as) = others as := List.filter_cons_of_neg (by simp [ht])
      rw [hskip, hstep, ← huntuned]
      refine ih htail (fun b hb htb => ?_) fun k hk => ?_
      · exact List.not_mem_cons_of_ne_of_not_mem (h.ne_of_mem hb htb)
          (hseen b (List.mem_cons_of_mem _ hb) htb)
      · rw [hrest k hk, List.mem_cons, or_iff_right (ne_of_isTuning hk ht)]
    | false =>
      have hkeep : others ((key, value) :: as) = (key, value) :: others as :=
        List.filter_cons_of_pos (by simp [ht])
      rw [hkeep]
      refine assignAll_of_other ht (hrest key ht) fun o' => ih htail (fun b hb htb => ?_) fun k hk => ?_
      · exact List.not_mem_cons_of_ne_of_not_mem (ne_of_isTuning ht htb).symm
          (hseen b (List.mem_cons_of_mem _ hb) htb)
      · rw [List.mem_cons, List.mem_cons, hrest k hk]

end Step

/-- A text is read as without its tuning options. -/
theorem parse_untuned {s : String} (h : TuningAccepted (assignments s)) :
    (parse s).toOption.map untuned = assignAll [] default (others (assignments s)) := by
  rw [parse, applyAll_toOption]
  exact assignAll_untuned h (by simp) (by simp)

/-- Texts that differ in tuning options are accepted together, and give the other options alike. -/
theorem parse_retuned {s s' : String} (h : TuningAccepted (assignments s))
    (h' : TuningAccepted (assignments s')) (hothers : others (assignments s') = others (assignments s))
    (ho : parse s = .ok o) : ∃ o', parse s' = .ok o' ∧ o'.untuned = o.untuned := by
  have hparse : (parse s').toOption.map untuned = some o.untuned := by
    rw [parse_untuned h', hothers, ← parse_untuned h, ho]
    rfl
  cases ho' : parse s' with
  | error e => simp [ho', Except.toOption] at hparse
  | ok o' => exact ⟨o', rfl, by simpa [ho', Except.toOption] using hparse⟩

end Options

end KernelFusion
