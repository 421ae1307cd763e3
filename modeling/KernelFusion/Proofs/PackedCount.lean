import KernelFusion.Machine.PackedCount
import KernelFusion.Proofs.AssignmentText
import KernelFusion.Proofs.CodePieces
import KernelFusion.Proofs.Dispatch

/-!
The word that says how a dynamic operator is to run.

The host packs and unpacks it by arithmetic. The device writes it with a shift and an `or`, and reads it
with a shift and a mask. All of them put the class in the high half and the count in the low half:

        63 ········ 32   31 ········ 0
        class            count
-/

namespace KernelFusion

open Device

/-! ### Codes of classes -/

namespace KernelType

variable {n : Nat} {t : KernelType}

theorem code_lt (t : KernelType) : t.code < 8 := by cases t <;> decide

theorem ofCode?_eq_some : ofCode? n = some t ↔ n = t.code := by
  constructor
  · intro h
    have htest := List.find?_some h
    exact (beq_iff_eq.mp htest).symm
  · rintro rfl
    cases t <;> rfl

theorem ofCode?_eq_none : ofCode? n = none ↔ n ∉ [0, 1, 4, 5, 6, 7] := by
  rw [ofCode?, List.find?_eq_none]
  simp only [all, List.forall_mem_cons]
  simp only [code, beq_iff_eq, List.mem_cons, List.not_mem_nil, forall_false, implies_true, and_true,
    or_false]
  omega

end KernelType

namespace PackedCount

variable {p : PackedCount} {w : UInt64}

/-! ### The host -/

theorem toNat_pack (p : PackedCount) : p.pack.toNat = p.value := by
  have hcode := p.kernelType.code_lt
  have hblocks := p.blocks.toNat_lt
  have hvalue : p.value < UInt64.size := by
    simp only [value, UInt32.size, UInt64.size]
    omega
  rw [pack, UInt64.toNat_ofNat_of_lt' hvalue]

theorem toNat_high (w : UInt64) : (w >>> 32).toNat = w.toNat / UInt32.size := by
  rw [UInt64.toNat_shiftRight, Nat.shiftRight_eq_div_pow]
  rfl

/-- A word is what is packed from two parts exactly if these are its halves. -/
theorem eq_pack_iff : w = p.pack ↔
    w.toNat / UInt32.size = p.kernelType.code ∧ w.toNat % UInt32.size = p.blocks.toNat := by
  have hblocks := p.blocks.toNat_lt
  rw [← UInt64.toNat_inj, toNat_pack, value, UInt32.size]
  omega

/-- A word is unpacked to what is packed to it. -/
theorem unpack_eq_ok : unpack w = .ok p ↔ w = p.pack := by
  have hblocks : UInt32.ofNat (w.toNat % UInt32.size) = p.blocks ↔
      w.toNat % UInt32.size = p.blocks.toNat := by
    rw [← UInt32.toNat_inj, UInt32.toNat_ofNat_of_lt' (Nat.mod_lt _ (by decide))]
  obtain ⟨t, n⟩ := p
  rw [eq_pack_iff, ← KernelType.ofCode?_eq_some, ← hblocks, unpack]
  cases KernelType.ofCode? (w.toNat / UInt32.size) <;> simp

/-- The high halves that are codes. -/
def codes : List UInt64 := [0, 1, 4, 5, 6, 7]

theorem ofCode?_high : KernelType.ofCode? (w.toNat / UInt32.size) = none ↔ w >>> 32 ∉ codes := by
  rw [KernelType.ofCode?_eq_none, ← toNat_high]
  simp [codes, ← UInt64.toNat_inj]

theorem unpack_eq_error (h : w >>> 32 ∉ codes) :
    unpack w = .error (.unsupportedKernelType (w >>> 32).toNat) := by
  simp only [unpack, ofCode?_high.mpr h, toNat_high]

theorem exists_unpack_iff : (∃ p, unpack w = .ok p) ↔ w >>> 32 ∈ codes := by
  constructor
  · rintro ⟨p, hp⟩
    by_contra hcode
    rw [unpack_eq_error hcode] at hp
    cases hp
  · intro hcode
    obtain ⟨t, ht⟩ := Option.ne_none_iff_exists'.mp (mt ofCode?_high.mp (not_not.mpr hcode))
    exact ⟨_, by rw [unpack, ht]⟩

/-! ### The device -/

theorem toNat_toUInt64_lt (n : UInt32) : n.toUInt64.toNat < UInt32.size := by simpa using n.toNat_lt

theorem pack_eq_packed (t : KernelType) (n : UInt32) :
    pack ⟨t, n⟩ = Dynamic.packed t n.toUInt64 := by
  rw [← UInt64.toNat_inj, toNat_pack, Dynamic.toNat_packed (toNat_toUInt64_lt n)]
  simp [value]

theorem pack_high (t : KernelType) (n : UInt32) : pack ⟨t, n⟩ >>> 32 = UInt64.ofNat t.code := by
  have hclass : (Dynamic.packed t n.toUInt64 >>> 32).toNat = t.code :=
    Dynamic.packed_class (toNat_toUInt64_lt n)
  rw [pack_eq_packed, ← hclass, UInt64.ofNat_toNat]

theorem pack_low (t : KernelType) (n : UInt32) : pack ⟨t, n⟩ &&& 0xFFFFFFFF = n.toUInt64 := by
  rw [pack_eq_packed, ← UInt64.toNat_inj, Dynamic.packed_count (toNat_toUInt64_lt n)]

end PackedCount

/-- A function stands in the code with this body. -/
def Code.Defines (c : Code) (r : Routine) (body : Code) : Prop :=
  ∃ front back, c = front ++ Code.routine r body ++ back

namespace Dynamic

variable {o : Operator} {e : TilingEntry} {site : Site} {n : UInt32}

/-- The functions that are written for an operator have the bodies that choose and that call. -/
theorem functions_define (o : Operator) :
    (functions o).Defines (switchRoutine o) (switchBody o) ∧
    (functions o).Defines (callRoutine o) (callBody o) := by
  constructor
  · exact ⟨_, .empty ++ callFunction o, Code.append_assoc ..⟩
  · exact ⟨switchFunction o, .empty, (Code.append_assoc ..).symm⟩

/-- The function that chooses an entry leaves a word with its caller, behind the addresses. -/
def Publishes (o : Operator) (site : Site) (word : UInt64) : Prop :=
  ∀ start before, ∃ s addresses,
    (switchBody o).exec site ((switchRoutine o).frame (switchArguments o start before)) = some s ∧
    (switchRoutine o).stored s = some (addresses ++ [.word word])

/-- The function that calls takes a word apart, into a class and a count. -/
def TakesApart (o : Operator) (site : Site) (word code count : UInt64) : Prop :=
  ∀ callee offset, ∃ s,
    (callBody o).exec site ((callRoutine o).frame (callArguments o offset callee word)) = some s ∧
    s.word? "kernelType" = some code ∧ s.word? "numBlocks" = some count

theorem publishes_pack (htiled : Tiled o.tiling) (he : e ∈ o.tiling)
    (hlock : (site.cells .readyLock).toNat = LockState.ready.value)
    (hkey : (site.cells .tilingKey).toNat = e.key) (hcount : site.cells .blockCount = n.toUInt64) :
    Publishes o site (PackedCount.pack ⟨e.kernelType, n⟩) := by
  intro start before
  obtain ⟨s, hexec, hchosen⟩ := exec_switchBody htiled he hlock hkey start before
  have hstored := stored_chosen hchosen
  rw [hcount, ← PackedCount.pack_eq_packed] at hstored
  exact ⟨s, _, hexec, hstored⟩

theorem takesApart_pack (site : Site) (he : e ∈ o.tiling) (n : UInt32) :
    TakesApart o site (PackedCount.pack ⟨e.kernelType, n⟩) (UInt64.ofNat e.kernelType.code)
      n.toUInt64 := by
  intro callee offset
  obtain ⟨s, hexec, _, hbound⟩ := exec_callBody site callee offset he (PackedCount.toNat_toUInt64_lt n)
  obtain ⟨code, hcode, hcode'⟩ := hbound.code
  obtain ⟨count, hcount, hcount'⟩ := hbound.count
  obtain rfl := UInt64.toNat_inj.mp hcount'
  refine ⟨s, PackedCount.pack_eq_packed _ n ▸ hexec, ?_, hcount⟩
  rw [hcode, ← hcode', UInt64.ofNat_toNat]

end Dynamic

namespace PackedCount

/-- CORRECT (one format): the host unpacks every word that it packs, and no other. A word is refused exactly
if its high half is no code, and the error has that half. The text of each statement of the device says
what it does. In every launch the body of the function that chooses leaves the word that the host would
pack, whatever the count, and the body of the function that calls finds its two halves; both are the bodies
of the functions that are written. -/
theorem word_halves_exact :
    (∀ p, unpack (pack p) = .ok p) ∧
    (∀ w, ((∃ p, unpack w = .ok p) ↔ w >>> 32 ∈ codes) ∧ (∀ p, unpack w = .ok p → p.pack = w) ∧
      (w >>> 32 ∉ codes → unpack w = .error (.unsupportedKernelType (w >>> 32).toNat))) ∧
    (∀ t n, pack ⟨t, n⟩ = UInt64.ofNat t.code <<< 32 ||| n.toUInt64 ∧
      pack ⟨t, n⟩ >>> 32 = UInt64.ofNat t.code ∧ pack ⟨t, n⟩ &&& 0xFFFFFFFF = n.toUInt64) ∧
    (∀ t : KernelType, (Stmt.publish t.code).DoesAsWritten) ∧
    Stmt.unpackClass.DoesAsWritten ∧ Stmt.unpackCount.DoesAsWritten ∧
    (∀ o, (Dynamic.functions o).Defines (Dynamic.switchRoutine o) (Dynamic.switchBody o) ∧
      (Dynamic.functions o).Defines (Dynamic.callRoutine o) (Dynamic.callBody o)) ∧
    ∀ r l, Generator.launch r = .ok l → ∀ op, (l.operator op).isDynamic = true →
      ∀ e ∈ (l.operator op).tiling, ∀ site : Site,
        site.cells .readyLock = UInt64.ofNat LockState.ready.value →
        site.cells .tilingKey = UInt64.ofNat e.key →
        ∀ n : UInt32, site.cells .blockCount = n.toUInt64 →
          Dynamic.Publishes (l.operator op) site (pack ⟨e.kernelType, n⟩) ∧
          Dynamic.TakesApart (l.operator op) site (pack ⟨e.kernelType, n⟩)
            (UInt64.ofNat e.kernelType.code) n.toUInt64 := by
  refine ⟨fun p => unpack_eq_ok.mpr rfl, fun w => ⟨exists_unpack_iff, fun p hp => ?_, unpack_eq_error⟩,
    fun t n => ⟨pack_eq_packed t n, pack_high t n, pack_low t n⟩, doesAsWritten_publish,
    doesAsWritten_unpackClass, doesAsWritten_unpackCount, Dynamic.functions_define, ?_⟩
  · exact (unpack_eq_ok.mp hp).symm
  · intro r l hl op hdynamic e he site hlock hkey n hcount
    have htiled := Generator.launch_tiled hl hdynamic
    have hlock' : (site.cells .readyLock).toNat = LockState.ready.value := by rw [hlock]; rfl
    have hkey' : (site.cells .tilingKey).toNat = e.key := by
      rw [hkey, UInt64.toNat_ofNat_of_lt' (htiled.bounded e he)]
    exact ⟨Dynamic.publishes_pack htiled he hlock' hkey' hcount, Dynamic.takesApart_pack site he n⟩

/-- A unit for which the host has written the largest count. -/
def widestCount : Site :=
  { Launch.fourthCore with
    cells := fun
      | .tilingKey => 5
      | .blockCount => 0xFFFFFFFF
      | .readyLock => 1 }

/-- All bits of the low half are set, and none of them comes into the class. -/
theorem widestCount_carried : ∃ l, Generator.launch Launch.distinctRequest = .ok l ∧
    (l.operator 0).isDynamic = true ∧ Launch.distinctEntry ∈ (l.operator 0).tiling ∧
    Dynamic.Publishes (l.operator 0) widestCount 0x7FFFFFFFF ∧
    Dynamic.TakesApart (l.operator 0) widestCount 0x7FFFFFFFF 7 0xFFFFFFFF ∧
    unpack 0x7FFFFFFFF = .ok ⟨.mixAic12, 0xFFFFFFFF⟩ ∧
    unpack 0x2FFFFFFFF = .error (.unsupportedKernelType 2) := by
  obtain ⟨l, hl, htest⟩ : ∃ l, Generator.launch Launch.distinctRequest = .ok l ∧
      decide ((l.operator 0).isDynamic = true ∧ Launch.distinctEntry ∈ (l.operator 0).tiling) = true :=
    Generator.exists_of_test (by decide +kernel)
  obtain ⟨hdynamic, he⟩ := of_decide_eq_true htest
  obtain ⟨hround, hword, -, -, -, -, -, hrun⟩ := word_halves_exact
  obtain ⟨hpublish, happart⟩ := hrun _ l hl 0 hdynamic _ he widestCount rfl rfl 0xFFFFFFFF rfl
  refine ⟨l, hl, hdynamic, he, hpublish, happart, hround ⟨.mixAic12, 0xFFFFFFFF⟩, ?_⟩
  exact (hword 0x2FFFFFFFF).2.2 (by decide)

end PackedCount

end KernelFusion
