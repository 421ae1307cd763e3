import KernelFusion.Schedule.Check
import Mathlib.Data.List.Flatten
import Mathlib.Data.List.NodupEquivFin
import Mathlib.Data.List.Perm.Subperm
import Mathlib.Data.List.Sort

/-!
Where steps stand in a schedule.

`xs <+ steps` says that the steps `xs` are carried out in this order, with anything in between. The
checks of a schedule look at positions instead; the lemmas here lead from the first form to the second.
A schedule that is put together operator by operator is a `flatMap` of blocks, and what several blocks
hold in order, the schedule holds in order.
-/

namespace KernelFusion

open List

/-- The operator that a step calls. -/
def Step.invoked? : Step → Option Nat
  | .invoke op => some op
  | _ => none

namespace Schedule

variable {steps : List Step} {test : Step → Bool}

/-- The operators that a schedule calls, in order. -/
def invocations (steps : List Step) : List Nat := steps.filterMap Step.invoked?

/-! ### Positions -/

theorem mem_positions {i : Nat} :
    i ∈ positions test steps ↔ ∃ s, steps[i]? = some s ∧ test s = true := by
  simp only [positions, List.mem_map, List.mem_filter, List.mem_zipIdx_iff_getElem?]
  constructor
  · rintro ⟨⟨s, j⟩, ⟨hs, ht⟩, rfl⟩
    exact ⟨s, hs, ht⟩
  · rintro ⟨s, hs, ht⟩
    exact ⟨(s, i), ⟨hs, ht⟩, rfl⟩

theorem length_positions : (positions test steps).length = (steps.filter test).length := by
  have hmap : (steps.zipIdx.filter fun s => test s.1).map Prod.fst = steps.filter test := by
    conv_rhs => rw [← List.zipIdx_map_fst 0 steps, List.filter_map]
    rfl
  rw [positions, List.length_map, ← hmap, List.length_map]

theorem positions_of_filter_nil (h : steps.filter test = []) : positions test steps = [] :=
  List.length_eq_zero_iff.mp (by rw [length_positions, h]; rfl)

/-- A step that passes a test alone has the only position. -/
theorem positions_of_filter_singleton {s : Step} (h : steps.filter test = [s]) :
    ∃ i, positions test steps = [i] ∧ steps[i]? = some s := by
  obtain ⟨i, hi⟩ := List.length_eq_one_iff.mp (show (positions test steps).length = 1 by
    rw [length_positions, h]; rfl)
  obtain ⟨s', hs', ht⟩ := mem_positions.mp (hi ▸ List.mem_singleton_self i)
  have hmem : s' ∈ steps.filter test := List.mem_filter.mpr ⟨List.mem_of_getElem? hs', ht⟩
  rw [h, List.mem_singleton] at hmem
  exact ⟨i, hi, hmem ▸ hs'⟩

theorem eq_of_positions {s : Step} {i j : Nat} (h : positions test steps = [i])
    (hj : steps[j]? = some s) (ht : test s = true) : j = i := by
  have hmem : j ∈ positions test steps := mem_positions.mpr ⟨s, hj, ht⟩
  rwa [h, List.mem_singleton] at hmem

/-- A test that only steps of a class pass looks at this class alone. -/
theorem filter_filter_class {cls : Step → Bool} (h : ∀ s, test s = true → cls s = true) :
    (steps.filter cls).filter test = steps.filter test := by
  rw [List.filter_filter]
  refine List.filter_congr fun s _ => ?_
  cases ht : test s with
  | false => rfl
  | true => rw [h s ht, Bool.and_self]

/-- A projection that is empty outside a class looks at this class alone. -/
theorem filterMap_filter_class {α : Type} {f : Step → Option α} {cls : Step → Bool}
    (h : ∀ s, cls s = false → f s = none) (steps : List Step) :
    (steps.filter cls).filterMap f = steps.filterMap f := by
  induction steps with
  | nil => rfl
  | cons s ss ih =>
    cases hs : cls s with
    | true => rw [List.filter_cons_of_pos hs, List.filterMap_cons, List.filterMap_cons, ih]
    | false =>
      rw [List.filter_cons_of_neg (by simp [hs]), List.filterMap_cons_none (h s hs), ih]

/-! ### From order to positions -/

theorem exists_lt_of_sublist {a b : Step} (h : [a, b] <+ steps) :
    ∃ i j : Nat, i < j ∧ steps[i]? = some a ∧ steps[j]? = some b := by
  obtain ⟨f, hf⟩ := List.sublist_iff_exists_orderEmbedding_getElem?_eq.mp h
  exact ⟨f 0, f 1, f.lt_iff_lt.mpr Nat.zero_lt_one, (hf 0).symm, (hf 1).symm⟩

theorem exists_between_of_sublist {a b c : Step} (h : [a, b, c] <+ steps) :
    ∃ i k j : Nat, i < k ∧ k < j ∧ steps[i]? = some a ∧ steps[k]? = some b ∧ steps[j]? = some c := by
  obtain ⟨f, hf⟩ := List.sublist_iff_exists_orderEmbedding_getElem?_eq.mp h
  exact ⟨f 0, f 1, f 2, f.lt_iff_lt.mpr Nat.zero_lt_one, f.lt_iff_lt.mpr Nat.one_lt_two,
    (hf 0).symm, (hf 1).symm, (hf 2).symm⟩

/-- Steps that stand alone for their tests are at positions in their order. -/
theorem position_lt {a b : Step} {other : Step → Bool} {i j : Nat} (h : [a, b] <+ steps)
    (hi : positions test steps = [i]) (ha : test a = true)
    (hj : positions other steps = [j]) (hb : other b = true) : i < j := by
  obtain ⟨i', j', hlt, hi', hj'⟩ := exists_lt_of_sublist h
  rw [eq_of_positions hi hi' ha, eq_of_positions hj hj' hb] at hlt
  exact hlt

theorem any_span {i j : Nat} :
    (span steps i j).any test = true ↔ ∃ k s, i ≤ k ∧ k < j ∧ steps[k]? = some s ∧ test s = true := by
  rw [span, List.any_eq_true]
  constructor
  · rintro ⟨s, hs, ht⟩
    obtain ⟨k, hk⟩ := List.getElem?_of_mem hs
    rw [List.getElem?_drop, List.getElem?_take] at hk
    split at hk
    · exact ⟨i + k, s, by omega, by assumption, hk, ht⟩
    · cases hk
  · rintro ⟨k, s, hik, hkj, hs, ht⟩
    refine ⟨s, List.mem_of_getElem? (i := k - i) ?_, ht⟩
    rw [List.getElem?_drop, List.getElem?_take_of_lt (by omega), ← hs]
    congr 1
    omega

/-- What stands between two lone steps is found in the span of their positions. -/
theorem any_span_of_sublist {a b c : Step} {first last : Step → Bool} {i j : Nat}
    (h : [a, b, c] <+ steps) (hi : positions first steps = [i]) (ha : first a = true)
    (hj : positions last steps = [j]) (hc : last c = true) (hb : test b = true) :
    (span steps i j).any test = true := by
  obtain ⟨i', k, j', hik, hkj, hi', hk, hj'⟩ := exists_between_of_sublist h
  rw [eq_of_positions hi hi' ha] at hik
  rw [eq_of_positions hj hj' hc] at hkj
  exact any_span.mpr ⟨k, b, by omega, hkj, hk, hb⟩

/-! ### Calls -/

theorem filter_isInvokeOf (op : Nat) (steps : List Step) :
    steps.filter (Step.isInvokeOf op) = ((invocations steps).filter (· == op)).map Step.invoke := by
  induction steps with
  | nil => rfl
  | cons s ss ih =>
    cases s with
    | invoke o =>
      by_cases ho : o = op
      · simpa [invocations, Step.invoked?, Step.isInvokeOf, ho] using ih
      · simpa [invocations, Step.invoked?, Step.isInvokeOf, ho] using ih
    | _ => simpa [invocations, List.filterMap_cons, Step.invoked?, Step.isInvokeOf] using ih

theorem filter_lone_invoke {op : Nat} (hn : (invocations steps).Nodup)
    (hop : op ∈ invocations steps) : steps.filter (Step.isInvokeOf op) = [.invoke op] := by
  rw [filter_isInvokeOf, List.filter_beq, List.count_eq_one_of_mem hn hop]
  rfl

/-- An operator among those that are called once each is called at one position. -/
theorem positions_invoke {op : Nat} (hn : (invocations steps).Nodup) (hop : op ∈ invocations steps) :
    ∃ i, positions (Step.isInvokeOf op) steps = [i] ∧ steps[i]? = some (.invoke op) :=
  positions_of_filter_singleton (filter_lone_invoke hn hop)

/-- Two positions of one call are the same. -/
theorem invoke_position_unique {op i j : Nat} (hn : (invocations steps).Nodup)
    (hi : steps[i]? = some (.invoke op)) (hj : steps[j]? = some (.invoke op)) : i = j := by
  have hop : op ∈ invocations steps := List.mem_filterMap.mpr ⟨_, List.mem_of_getElem? hi, rfl⟩
  obtain ⟨k, hk, _⟩ := positions_invoke hn hop
  have htest : Step.isInvokeOf op (.invoke op) = true := beq_self_eq_true op
  rw [eq_of_positions hk hi htest, eq_of_positions hk hj htest]

theorem invocation_of_positions {op i : Nat} (h : positions (Step.isInvokeOf op) steps = [i]) :
    invocation steps op = .ok i := by
  obtain ⟨s, hs, ht⟩ := mem_positions.mp (h ▸ List.mem_singleton_self i)
  obtain ⟨hlt, rfl⟩ := List.getElem?_eq_some_iff.mp hs
  have hfind : steps.findIdx? (Step.isInvokeOf op) = some i := by
    refine List.findIdx?_eq_some_iff_getElem.mpr ⟨hlt, ht, fun j hj hj' => ?_⟩
    have := eq_of_positions h (List.getElem?_eq_getElem (by omega)) hj'
    omega
  rw [invocation, hfind]

end Schedule

/-! ### Schedules made of blocks -/

theorem filter_ite {α : Type} (c : Prop) [Decidable c] (test : α → Bool) (xs ys : List α) :
    (if c then xs else ys).filter test = if c then xs.filter test else ys.filter test :=
  apply_ite (List.filter test) c xs ys

theorem filterMap_ite {α β : Type} (c : Prop) [Decidable c] (f : α → Option β) (xs ys : List α) :
    (if c then xs else ys).filterMap f = if c then xs.filterMap f else ys.filterMap f :=
  apply_ite (List.filterMap f) c xs ys

/-- Steps in order, cut in front of the last one. -/
theorem exists_split_last {α : Type} (xs : List α) {ys : List α} {x : α} (h : xs ++ [x] <+ ys) :
    ∃ us vs, ys = us ++ x :: vs ∧ xs <+ us := by
  obtain ⟨us, vs, rfl, hxs, hx⟩ := List.append_sublist_iff.mp h
  obtain ⟨ws, vs, rfl⟩ := List.append_of_mem (List.singleton_sublist.mp hx)
  exact ⟨us ++ ws, vs, by simp, hxs.trans (List.sublist_append_left _ _)⟩

/-- Steps in order, cut at the first one. -/
theorem exists_split_first {α : Type} {xs ys : List α} {x : α} (h : x :: xs <+ ys) :
    ∃ us vs, ys = us ++ x :: vs ∧ xs <+ vs := by
  obtain ⟨us, vs, rfl, hx, hxs⟩ := List.cons_sublist_iff.mp h
  obtain ⟨us, ws, rfl⟩ := List.append_of_mem hx
  exact ⟨us, ws ++ vs, by simp, hxs.trans (List.sublist_append_right _ _)⟩

/-- Two ways to cut a list at an element that it has once cut it at the same place. -/
theorem length_eq_of_split {α : Type} [DecidableEq α] {us vs xs ys : List α} {a : α}
    (h : us ++ a :: vs = xs ++ a :: ys) (hn : (us ++ a :: vs).Nodup) : us.length = xs.length := by
  have hu : a ∉ us := fun hmem => (List.nodup_append.mp hn).2.2 a hmem a List.mem_cons_self rfl
  have hx : a ∉ xs := fun hmem =>
    (List.nodup_append.mp (h ▸ hn)).2.2 a hmem a List.mem_cons_self rfl
  have hidx := congrArg (List.idxOf a) h
  rwa [List.idxOf_append_of_notMem hu, List.idxOf_append_of_notMem hx, List.idxOf_cons_self,
    List.idxOf_cons_self] at hidx

/-- Increasing numbers out of an increasing list stand in it in their order. -/
theorem sublist_of_increasing {xs ops : List Nat} (hx : xs.Pairwise (· < ·))
    (ho : ops.Pairwise (· < ·)) (h : ∀ x ∈ xs, x ∈ ops) : xs <+ ops :=
  List.sublist_of_subperm_of_pairwise (List.Nodup.subperm hx.nodup h) hx ho

/-- Blocks that are empty may be left out. -/
theorem flatMap_filter_of_nil {α β : Type} {xs : List α} {f : α → List β} {test : α → Bool}
    (h : ∀ x ∈ xs, test x = false → f x = []) : (xs.filter test).flatMap f = xs.flatMap f := by
  induction xs with
  | nil => rfl
  | cons x xs ih =>
    have ih := ih fun y hy => h y (List.mem_cons_of_mem _ hy)
    cases hx : test x with
    | true => rw [List.filter_cons_of_pos hx, List.flatMap_cons, List.flatMap_cons, ih]
    | false =>
      rw [List.filter_cons_of_neg (by simp [hx]), List.flatMap_cons, h x List.mem_cons_self hx, ih,
        List.nil_append]

/-- Only one block of a list has anything to say. -/
theorem flatMap_eq_of_unique {α β : Type} {xs : List α} {x : α} {f : α → List β} (hn : xs.Nodup)
    (hx : x ∈ xs) (h : ∀ y ∈ xs, y ≠ x → f y = []) : xs.flatMap f = f x := by
  obtain ⟨before, behind, rfl⟩ := List.append_of_mem hx
  have hne : ∀ y ∈ before ++ behind, y ≠ x := by
    rintro y hy rfl
    exact (List.nodup_middle.mp hn).notMem hy
  have hb : before.flatMap f = [] :=
    List.flatMap_eq_nil_iff.mpr fun y hy => h y (by simp [hy]) (hne y (by simp [hy]))
  have hc : behind.flatMap f = [] :=
    List.flatMap_eq_nil_iff.mpr fun y hy => h y (by simp [hy]) (hne y (by simp [hy]))
  rw [List.flatMap_append, List.flatMap_cons, hb, hc, List.nil_append, List.append_nil]

end KernelFusion
