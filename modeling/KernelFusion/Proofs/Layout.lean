import KernelFusion.Machine.Bytes
import Mathlib.Algebra.Group.Nat.Defs

/-!
Records in bytes: numbers one behind the other, each in a width of its own.

A record is written as a list of numbers and read number by number, each at its offset. The two agree as a
whole: bytes are a list of numbers written down exactly if there are as many of them as the widths add up
to, and each number is found at its offset.

        offset   0         w₁           w₁ + w₂
                 │ n₁ … w₁ │ n₂ …   w₂  │ n₃ …
-/

namespace KernelFusion

/-! ### Numbers as bytes -/

@[simp] theorem length_littleEndian (width n : Nat) : (littleEndian width n).length = width := by
  induction width generalizing n with
  | zero => rfl
  | succ width ih => rw [littleEndian, List.length_cons, ih]

theorem ofLittleEndian_lt (bytes : List UInt8) : ofLittleEndian bytes < 256 ^ bytes.length := by
  induction bytes with
  | nil => simp [ofLittleEndian]
  | cons b bytes ih =>
    have hb : b.toNat < 256 := b.toNat_lt
    rw [ofLittleEndian, List.length_cons, Nat.pow_succ]
    omega

theorem ofLittleEndian_littleEndian {width n : Nat} (h : n < 256 ^ width) :
    ofLittleEndian (littleEndian width n) = n := by
  induction width generalizing n with
  | zero =>
    rw [Nat.pow_zero, Nat.lt_one_iff] at h
    rw [h]
    rfl
  | succ width ih =>
    have hrest : n / 256 < 256 ^ width := by
      rw [Nat.pow_succ] at h
      omega
    have hbyte : (UInt8.ofNat (n % 256)).toNat = n % 256 := by simp
    rw [littleEndian, ofLittleEndian, ih hrest, hbyte]
    omega

theorem littleEndian_ofLittleEndian (bytes : List UInt8) :
    littleEndian bytes.length (ofLittleEndian bytes) = bytes := by
  induction bytes with
  | nil => rfl
  | cons b bytes ih =>
    have hb : b.toNat < 256 := b.toNat_lt
    have hlow : (b.toNat + 256 * ofLittleEndian bytes) % 256 = b.toNat := by omega
    have hrest : (b.toNat + 256 * ofLittleEndian bytes) / 256 = ofLittleEndian bytes := by omega
    rw [ofLittleEndian, List.length_cons, littleEndian, hlow, hrest, ih, UInt8.ofNat_toNat]

/-- Bytes are those of a number exactly if they are as many and give the number back. -/
theorem eq_littleEndian_iff {width n : Nat} (h : n < 256 ^ width) {bytes : List UInt8} :
    bytes = littleEndian width n ↔ bytes.length = width ∧ ofLittleEndian bytes = n := by
  constructor
  · rintro rfl
    exact ⟨length_littleEndian width n, ofLittleEndian_littleEndian h⟩
  · rintro ⟨rfl, rfl⟩
    exact (littleEndian_ofLittleEndian bytes).symm

theorem fieldAt_lt (bytes : List UInt8) (offset width : Nat) :
    fieldAt bytes offset width < 256 ^ width := by
  refine Nat.lt_of_lt_of_le (ofLittleEndian_lt _) (Nat.pow_le_pow_right (by decide) ?_)
  rw [List.length_take]
  exact Nat.min_le_left _ _

/-! ### Fields one behind the other -/

/-- Numbers one behind the other, each in its width. -/
def layout (fields : List (Nat × Nat)) : List UInt8 := fields.flatMap fun f => littleEndian f.1 f.2

theorem length_layout_cons (f : Nat × Nat) (fields : List (Nat × Nat)) :
    (layout (f :: fields)).length = f.1 + (layout fields).length := by
  simp [layout]

/-- Bytes hold the numbers of fields from an offset on. -/
def Holds (bytes : List UInt8) : Nat → List (Nat × Nat) → Prop
  | _, [] => True
  | offset, f :: fields => fieldAt bytes offset f.1 = f.2 ∧ Holds bytes (offset + f.1) fields

theorem drop_eq_layout_iff {bytes : List UInt8} {fields : List (Nat × Nat)} {offset : Nat}
    (hfit : ∀ f ∈ fields, f.2 < 256 ^ f.1) (hoffset : offset ≤ bytes.length) :
    bytes.drop offset = layout fields ↔
      bytes.length = offset + (layout fields).length ∧ Holds bytes offset fields := by
  induction fields generalizing offset with
  | nil =>
    simp only [layout, List.flatMap_nil, List.drop_eq_nil_iff, List.length_nil, Holds, and_true]
    omega
  | cons f fields ih =>
    obtain ⟨hf, hfields⟩ := List.forall_mem_cons.mp hfit
    have hsplit : bytes.drop offset = layout (f :: fields) ↔
        (bytes.drop offset).take f.1 = littleEndian f.1 f.2 ∧
          bytes.drop (offset + f.1) = layout fields := by
      rw [layout, List.flatMap_cons, ← layout, ← List.drop_drop]
      constructor
      · intro h
        rw [h]
        exact ⟨List.take_left' (length_littleEndian _ _), List.drop_left' (length_littleEndian _ _)⟩
      · rintro ⟨htake, hdrop⟩
        rw [← htake, ← hdrop, List.take_append_drop]
    rw [hsplit, eq_littleEndian_iff hf, length_layout_cons, Holds, fieldAt]
    have hlength : ((bytes.drop offset).take f.1).length = f.1 ↔ offset + f.1 ≤ bytes.length := by
      rw [List.length_take, List.length_drop]
      omega
    rw [hlength]
    constructor
    · rintro ⟨⟨hroom, hfield⟩, hrest⟩
      obtain ⟨hsum, hholds⟩ := (ih hfields hroom).mp hrest
      exact ⟨by omega, hfield, hholds⟩
    · rintro ⟨hsum, hfield, hholds⟩
      have hroom : offset + f.1 ≤ bytes.length := by omega
      exact ⟨⟨hroom, hfield⟩, (ih hfields hroom).mpr ⟨by omega, hholds⟩⟩

/-- Bytes are a layout exactly if they are as many and hold its numbers. -/
theorem eq_layout_iff {bytes : List UInt8} {fields : List (Nat × Nat)}
    (hfit : ∀ f ∈ fields, f.2 < 256 ^ f.1) :
    bytes = layout fields ↔ bytes.length = (layout fields).length ∧ Holds bytes 0 fields := by
  simpa using drop_eq_layout_iff hfit (Nat.zero_le bytes.length)

end KernelFusion
