import KernelFusion.Proofs.TwoStreamOrder

/-!
Which waits of two lists have their signal, once the check of a two-stream schedule has accepted them.

The check compares, for each direction, all signals of one list with the waits of the other list on the
flag of that direction, and demands that the signals are on this flag. Hence the n-th signal and the n-th
wait on the flag belong to one edge. Waits on any other flag are not looked at: nothing raises their
flag, and the list that has one stops there for good.

        cube      signal e₁ ─── signal e₂
                        ╲             ╲
        vector           wait e₁       wait e₂ ─── wait e₂ on another flag ─── …
-/

namespace KernelFusion

open StreamSteps

/-- The edge for which a step raises a flag. -/
def Step.raises? (flag : Flag) : Step → Option Nat
  | .signal edge _ _ f => if f = flag then some edge else none
  | _ => none

/-- The edge for which a step waits on a flag. -/
def Step.awaits? (flag : Flag) : Step → Option Nat
  | .wait edge _ f => if f = flag then some edge else none
  | _ => none

theorem Step.isSome_raises? (flag : Flag) (s : Step) :
    (s.raises? flag).isSome = s.isSignalOn flag := by
  cases s with
  | signal edge producer pipe f => by_cases h : f = flag <;> simp [raises?, isSignalOn, h]
  | _ => rfl

theorem Step.isSome_awaits? (flag : Flag) (s : Step) : (s.awaits? flag).isSome = s.isWaitOn flag := by
  cases s with
  | wait edge consumer f => by_cases h : f = flag <;> simp [awaits?, isWaitOn, h]
  | _ => rfl

theorem Step.raises?_eq_some {flag : Flag} {s : Step} {edge : Nat} :
    s.raises? flag = some edge ↔ ∃ producer pipe, s = .signal edge producer pipe flag := by
  cases s with
  | signal edge' producer pipe f => by_cases h : f = flag <;> simp [raises?, h]
  | _ => simp [raises?]

theorem Step.awaits?_eq_some {flag : Flag} {s : Step} {edge : Nat} :
    s.awaits? flag = some edge ↔ ∃ consumer, s = .wait edge consumer flag := by
  cases s with
  | wait edge' consumer f => by_cases h : f = flag <;> simp [awaits?, h]
  | _ => simp [awaits?]

/-! ### Ranks -/

namespace Schedule

variable {α : Type} {f : Step → Option α} {steps : List Step} {s : Step} {a : α} {i j r : Nat}

/-- How many steps in front of a position are kept by a projection. -/
def rank (f : Step → Option α) (steps : List Step) (i : Nat) : Nat :=
  (steps.take i).countP fun s => (f s).isSome

/-- A step that a projection keeps is kept at its rank. -/
theorem getElem?_rank (hi : steps[i]? = some s) (hs : f s = some a) :
    (steps.filterMap f)[rank f steps i]? = some a := by
  obtain ⟨hlt, rfl⟩ := List.getElem?_eq_some_iff.mp hi
  have hcut : steps = steps.take i ++ steps[i] :: steps.drop (i + 1) := by
    rw [← List.drop_eq_getElem_cons hlt, List.take_append_drop]
  have hfront : rank f steps i = ((steps.take i).filterMap f).length :=
    List.length_filterMap_eq_countP.symm
  rw [hfront, hcut, List.filterMap_append, List.filterMap_cons_some hs, List.take_left' (by simp; omega),
    List.getElem?_append_right le_rfl, Nat.sub_self]
  rfl

/-- What a projection keeps at a rank comes from a step of this rank. -/
theorem exists_of_rank (h : (steps.filterMap f)[r]? = some a) :
    ∃ i s, steps[i]? = some s ∧ f s = some a ∧ rank f steps i = r := by
  induction steps generalizing r with
  | nil => cases h
  | cons s rest ih =>
    cases hs : f s with
    | none =>
      rw [List.filterMap_cons_none hs] at h
      obtain ⟨i, s', hi, hs', hrank⟩ := ih h
      exact ⟨i + 1, s', hi, hs', by simpa [rank, hs] using hrank⟩
    | some b =>
      rw [List.filterMap_cons_some hs] at h
      cases r with
      | zero =>
        cases Option.some.inj h
        exact ⟨0, s, rfl, hs, rfl⟩
      | succ r =>
        obtain ⟨i, s', hi, hs', hrank⟩ := ih h
        exact ⟨i + 1, s', hi, hs', by simpa [rank, hs] using hrank⟩

theorem rank_lt (hi : steps[i]? = some s) (hs : (f s).isSome = true) (hij : i < j) :
    rank f steps i < rank f steps j := by
  have hnext : rank f steps (i + 1) = rank f steps i + 1 := by
    rw [rank, List.take_add_one, hi, List.countP_append]
    simp [rank, hs]
  have hmono : rank f steps (i + 1) ≤ rank f steps j :=
    (List.take_prefix_take_left (by omega)).sublist.countP_le
  omega

/-- Two steps of one rank are the same. -/
theorem rank_injective {s' : Step} (hi : steps[i]? = some s) (hs : (f s).isSome = true)
    (hj : steps[j]? = some s') (hs' : (f s').isSome = true) (h : rank f steps i = rank f steps j) :
    i = j := by
  rcases Nat.lt_trichotomy i j with hlt | heq | hgt
  · have := rank_lt (f := f) hi hs hlt
    omega
  · exact heq
  · have := rank_lt (f := f) hj hs' hgt
    omega

end Schedule

namespace StreamSteps

open Schedule

variable {g : Graph} {s : StreamSteps} {d : Domain} {flag : Flag} {edge i j : Nat}

/-- The signal at position `i` of the list of `d` and the wait at position `j` of the other list are of
one edge and on one flag, and as many signals on the flag come before the one as waits on it before the
other. -/
structure Partners (s : StreamSteps) (d : Domain) (flag : Flag) (edge i j : Nat) : Prop where
  signal : ∃ producer pipe, (s.get d)[i]? = some (.signal edge producer pipe flag)
  wait : ∃ consumer, (s.get d.other)[j]? = some (.wait edge consumer flag)
  rank : ((s.get d).take i).countP (Step.isSignalOn flag)
    = ((s.get d.other).take j).countP (Step.isWaitOn flag)

theorem partners_iff : s.Partners d flag edge i j ↔
    (∃ a, (s.get d)[i]? = some a ∧ a.raises? flag = some edge) ∧
    (∃ b, (s.get d.other)[j]? = some b ∧ b.awaits? flag = some edge) ∧
    rank (Step.raises? flag) (s.get d) i = rank (Step.awaits? flag) (s.get d.other) j := by
  have hrank : ∀ (f : Step → Option Nat) (test : Step → Bool) (steps : List Step) (i : Nat),
      (∀ a, (f a).isSome = test a) → rank f steps i = (steps.take i).countP test := by
    intro f test steps i hf
    exact List.countP_congr fun a _ => by rw [hf]
  rw [hrank _ _ _ _ (Step.isSome_raises? flag), hrank _ _ _ _ (Step.isSome_awaits? flag)]
  simp only [Step.raises?_eq_some, Step.awaits?_eq_some]
  constructor
  · rintro ⟨⟨producer, pipe, hi⟩, ⟨consumer, hj⟩, h⟩
    exact ⟨⟨_, hi, producer, pipe, rfl⟩, ⟨_, hj, consumer, rfl⟩, h⟩
  · rintro ⟨⟨_, hi, producer, pipe, rfl⟩, ⟨_, hj, consumer, rfl⟩, h⟩
    exact ⟨⟨producer, pipe, hi⟩, ⟨consumer, hj⟩, h⟩

/-! ### What the check of a direction says -/

theorem eq_of_firstDifference? {xs ys : List Nat} (h : firstDifference? xs ys = none) : xs = ys := by
  induction xs generalizing ys with
  | nil =>
    cases ys with
    | nil => rfl
    | cons y ys => cases h
  | cons x xs ih =>
    cases ys with
    | nil => cases h
    | cons y ys =>
      rw [firstDifference?] at h
      split at h
      next hxy => rw [hxy, ih h]
      · cases h

theorem waits_eq_filterMap :
    s.waits d = (s.get d.other).filterMap (Step.awaits? (.ofStream d)) := by
  rw [waits]
  induction s.get d.other with
  | nil => rfl
  | cons a rest ih =>
    cases a with
    | wait edge consumer flag =>
      by_cases hflag : flag = .ofStream d
      · simpa [awaited?, Step.awaits?, hflag] using ih
      · simpa [awaited?, Step.awaits?, hflag] using ih
    | _ => exact ih

theorem signals_eq_filterMap
    (hflag : ∀ r ∈ (s.get d).filterMap signalled?, r.2 = .ofStream d) :
    s.signals d = (s.get d).filterMap (Step.raises? (.ofStream d)) := by
  rw [signals, List.map_filterMap]
  refine List.filterMap_congr fun a ha => ?_
  cases a with
  | signal edge producer pipe flag =>
    have hf : flag = .ofStream d := hflag (edge, flag) (List.mem_filterMap.mpr ⟨_, ha, rfl⟩)
    simp [signalled?, Step.raises?, hf]
  | _ => rfl

/-- A direction that is accepted has all its signals on its flag, and on this flag the other list waits
for the same edges in the same order. -/
theorem direction_accepted (h : checkDirection g s d = .ok ()) :
    (∀ r ∈ (s.get d).filterMap signalled?, r.2 = .ofStream d) ∧
    (s.get d).filterMap (Step.raises? (.ofStream d))
      = (s.get d.other).filterMap (Step.awaits? (.ofStream d)) := by
  rw [checkDirection] at h
  split at h
  · cases h
  next hfind =>
    have hflag : ∀ r ∈ (s.get d).filterMap signalled?, r.2 = .ofStream d := by
      intro r hr
      simpa using List.find?_eq_none.mp hfind r hr
    split at h
    · cases h
    next hsame =>
      refine ⟨hflag, ?_⟩
      rw [← signals_eq_filterMap hflag, ← waits_eq_filterMap]
      exact eq_of_firstDifference? hsame

theorem directions_of_verify {st : SyncStats} (h : s.verify g = .ok st) (d : Domain) :
    checkDirection g s d = .ok () := by
  obtain ⟨_, _, h⟩ := bind_eq_ok.mp h
  obtain ⟨_, hdirections, _⟩ := bind_eq_ok.mp h
  exact forM_ok_iff.mp hdirections d (by cases d <;> decide)

/-! ### Partners -/

theorem existsUnique_wait {a : Step}
    (hsame : (s.get d).filterMap (Step.raises? flag) = (s.get d.other).filterMap (Step.awaits? flag))
    (hi : (s.get d)[i]? = some a) (ha : a.raises? flag = some edge) :
    ∃! j, s.Partners d flag edge i j := by
  have hkept := getElem?_rank hi ha
  rw [hsame] at hkept
  obtain ⟨j, b, hj, hb, hrank⟩ := exists_of_rank hkept
  refine ⟨j, partners_iff.mpr ⟨⟨a, hi, ha⟩, ⟨b, hj, hb⟩, hrank.symm⟩, fun j' h' => ?_⟩
  obtain ⟨_, ⟨b', hj', hb'⟩, hrank'⟩ := partners_iff.mp h'
  exact rank_injective hj' (by rw [hb']; rfl) hj (by rw [hb]; rfl) (hrank'.symm.trans hrank.symm)

theorem existsUnique_signal {b : Step}
    (hsame : (s.get d).filterMap (Step.raises? flag) = (s.get d.other).filterMap (Step.awaits? flag))
    (hj : (s.get d.other)[j]? = some b) (hb : b.awaits? flag = some edge) :
    ∃! i, s.Partners d flag edge i j := by
  have hkept := getElem?_rank hj hb
  rw [← hsame] at hkept
  obtain ⟨i, a, hi, ha, hrank⟩ := exists_of_rank hkept
  refine ⟨i, partners_iff.mpr ⟨⟨a, hi, ha⟩, ⟨b, hj, hb⟩, hrank⟩, fun i' h' => ?_⟩
  obtain ⟨⟨a', hi', ha'⟩, _, hrank'⟩ := partners_iff.mp h'
  exact rank_injective hi' (by rw [ha']; rfl) hi (by rw [ha]; rfl) (hrank'.trans hrank.symm)

/-- CORRECT (exact condition): in two lists that the check accepts every signal has its one wait in the
other list, and a wait has its one signal there exactly if it is on the flag of that direction. -/
theorem wait_matched_iff {st : SyncStats} (h : s.verify g = .ok st) (d : Domain) :
    (∀ i edge producer pipe flag, (s.get d)[i]? = some (.signal edge producer pipe flag) →
      ∃! j, s.Partners d flag edge i j) ∧
    ∀ j edge consumer flag, (s.get d.other)[j]? = some (.wait edge consumer flag) →
      ((∃! i, s.Partners d flag edge i j) ↔ flag = .ofStream d) := by
  obtain ⟨hflag, hsame⟩ := direction_accepted (directions_of_verify h d)
  have hsignals : ∀ (i edge : Nat) producer pipe flag,
      (s.get d)[i]? = some (Step.signal edge producer pipe flag) → flag = Flag.ofStream d := by
    intro i edge producer pipe flag hi
    exact hflag (edge, flag) (List.mem_filterMap.mpr ⟨_, List.mem_of_getElem? hi, rfl⟩)
  refine ⟨fun i edge producer pipe flag hi => ?_, fun j edge consumer flag hj => ⟨?_, ?_⟩⟩
  · obtain rfl := hsignals i edge producer pipe flag hi
    exact existsUnique_wait hsame hi (Step.raises?_eq_some.mpr ⟨producer, pipe, rfl⟩)
  · rintro ⟨i, ⟨⟨producer, pipe, hi⟩, _, _⟩, _⟩
    exact hsignals i edge producer pipe flag hi
  · rintro rfl
    exact existsUnique_signal hsame hj (Step.awaits?_eq_some.mpr ⟨consumer, rfl⟩)

/-- An operator on cube units in front of one on vector units. -/
def handOver : Graph where
  units := ⟨24, 48⟩
  operators := [{ (default : Operator) with kernelType := .aicOnly },
    { (default : Operator) with kernelType := .aivOnly }]
  edges := [⟨0, 0, 1, ⟨.cube, .vector⟩, .sequence, true⟩]

/-- The two operators with a signal and its wait between them, and a second wait on a channel. -/
def strayWait : StreamSteps where
  cube := [.invoke 0, .barrier (.domain .cube), .signal 0 .cube .mte3 .aicToAiv]
  vector := [.wait 0 .vector .aicToAiv, .wait 0 .vector (.channel 5), .invoke 1]

theorem strayWait_first_matched : strayWait.verify handOver = .ok ⟨0, 1, 1⟩ ∧
    (∃! j, strayWait.Partners .cube .aicToAiv 0 2 j) ∧
    ∃! i, strayWait.Partners .cube .aicToAiv 0 i 0 := by
  have h : strayWait.verify handOver = .ok ⟨0, 1, 1⟩ := rfl
  obtain ⟨hsignals, hwaits⟩ := wait_matched_iff h .cube
  exact ⟨h, hsignals 2 0 .cube .mte3 .aicToAiv rfl, (hwaits 0 0 .vector .aicToAiv rfl).mpr rfl⟩

/-- The second wait is accepted, and no signal is on its flag. -/
theorem strayWait_second_unmatched : strayWait.verify handOver = .ok ⟨0, 1, 1⟩ ∧
    strayWait.vector[1]? = some (.wait 0 .vector (.channel 5)) ∧
    ¬∃ i, strayWait.Partners .cube (.channel 5) 0 i 1 := by
  refine ⟨rfl, rfl, ?_⟩
  rintro ⟨i, ⟨producer, pipe, hi⟩, _, _⟩
  have hmem : .signal 0 producer pipe (.channel 5) ∈ strayWait.cube := List.mem_of_getElem? hi
  simp [strayWait] at hmem

end StreamSteps

end KernelFusion
