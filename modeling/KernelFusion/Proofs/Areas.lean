import Mathlib.Order.Nat

/-!
Areas of bytes, and lists of areas that fill a range without gaps.
-/

namespace KernelFusion

structure Area where
  start : Nat
  bytes : Nat
  deriving DecidableEq

/-- The byte behind the last one. -/
def Area.stop (a : Area) : Nat := a.start + a.bytes

def Area.Holds (a : Area) (i : Nat) : Prop := a.start ≤ i ∧ i < a.stop

/-- No byte is in both areas. -/
def Area.Apart (a b : Area) : Prop := ∀ i, a.Holds i → ¬b.Holds i

/-- Areas of one size, one behind the other. -/
def Area.row (start bytes count : Nat) : List Area :=
  (List.range count).map fun i => ⟨start + i * bytes, bytes⟩

/-- Areas that go from a first byte up to another one, each beginning where the one before ends. -/
def Tiles : Nat → Nat → List Area → Prop
  | first, last, [] => first = last
  | first, last, a :: as => a.start = first ∧ Tiles a.stop last as

section Tiles

variable {first middle last start size n : Nat} {a : Area} {as bs : List Area}

theorem Tiles.append (h : Tiles first middle as) (h' : Tiles middle last bs) :
    Tiles first last (as ++ bs) := by
  induction as generalizing first with
  | nil =>
    cases h
    exact h'
  | cons a as ih => exact ⟨h.1, ih h.2⟩

theorem Tiles.le (h : Tiles first last as) : first ≤ last := by
  induction as generalizing first with
  | nil => exact h.le
  | cons a as ih =>
    obtain ⟨rfl, h⟩ := h
    exact (Nat.le_add_right _ _).trans (ih h)

theorem Tiles.unique {last' : Nat} (h : Tiles first last as) (h' : Tiles first last' as) : last = last' := by
  induction as generalizing first with
  | nil => exact h.symm.trans h'
  | cons a as ih => exact ih h.2 h'.2

theorem Tiles.bounds (h : Tiles first last as) (ha : a ∈ as) : first ≤ a.start ∧ a.stop ≤ last := by
  induction as generalizing first with
  | nil => cases ha
  | cons b as ih =>
    obtain ⟨rfl, h⟩ := h
    rcases List.mem_cons.mp ha with rfl | ha
    · exact ⟨le_rfl, h.le⟩
    · obtain ⟨hstart, hstop⟩ := ih h ha
      exact ⟨(Nat.le_add_right _ _).trans hstart, hstop⟩

theorem Tiles.apart (h : Tiles first last as) : as.Pairwise Area.Apart := by
  induction as generalizing first with
  | nil => exact .nil
  | cons a as ih =>
    obtain ⟨rfl, h⟩ := h
    refine .cons (fun b hb i ha hb' => ?_) (ih h)
    exact absurd (ha.2.trans_le (h.bounds hb).1) (Nat.not_lt.mpr hb'.1)

/-- Parts of one size that are tiled each. -/
theorem Tiles.flatMap_range {f : Nat → List Area}
    (h : ∀ i < n, Tiles (start + i * size) (start + (i + 1) * size) (f i)) :
    Tiles start (start + n * size) ((List.range n).flatMap f) := by
  induction n with
  | zero => simp [Tiles]
  | succ n ih =>
    rw [List.range_succ, List.flatMap_append, List.flatMap_singleton]
    exact (ih fun i hi => h i (hi.trans n.lt_succ_self)).append (h n n.lt_succ_self)

theorem tiles_row (start size n : Nat) : Tiles start (start + n * size) (Area.row start size n) := by
  have hparts : Area.row start size n = (List.range n).flatMap fun i => [⟨start + i * size, size⟩] :=
    List.map_eq_flatMap
  rw [hparts]
  refine Tiles.flatMap_range fun i _ => ⟨rfl, ?_⟩
  rw [Tiles, Area.stop, Nat.succ_mul, Nat.add_assoc]

theorem row_succ (start size n : Nat) :
    Area.row start size (n + 1) = Area.row start size n ++ [⟨start + n * size, size⟩] := by
  simp [Area.row, List.range_succ]

end Tiles

end KernelFusion
