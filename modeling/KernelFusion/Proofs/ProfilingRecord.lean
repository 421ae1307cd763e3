import KernelFusion.Profiling.Record
import KernelFusion.Proofs.Layout

/-!
Profiling records in their 16 bytes.

The tag word has two forms. Reading tells them apart by the low byte, which is full in a task header and
clear in an event mark, and passes over the bits that no field has. So there are words that are read and
never written.

        bits     63 … 32     31 … 16     15 … 8            7 … 0
        header   task        –           unit              ff
        mark     event       –           –, stop, kind     00
-/

namespace KernelFusion

theorem ProfilingKind.ofCode?_eq_some {n : Nat} {kind : ProfilingKind} :
    ofCode? n = some kind ↔ n = kind.code := by
  constructor
  · intro h
    unfold ofCode? at h
    split at h <;> cases h <;> rfl
  · rintro rfl
    cases kind <;> rfl

theorem ProfilingKind.forall_iff {p : ProfilingKind → Prop} :
    (∀ kind, p kind) ↔ p .kernel ∧ p .notify ∧ p .subOperator ∧ p .wait := by
  constructor
  · exact fun h => ⟨h _, h _, h _, h _⟩
  · rintro ⟨hkernel, hnotify, hsub, hwait⟩ kind
    cases kind <;> assumption

namespace ProfilingRecord

variable {bytes : List UInt8} {r : ProfilingRecord} {word : Nat} {cycles : UInt64}

theorem tag_lt (r : ProfilingRecord) : r.tag < 256 ^ 8 := by
  cases r with
  | taskHeader id unit cycles =>
    have hid := id.toNat_lt
    have hunit := unit.toNat_lt
    simp only [tag, UInt32.size, UInt8.size]
    omega
  | event id kind stop cycles =>
    have hid := id.toNat_lt
    have hkind : kind.code < 16 := by cases kind <;> decide
    simp only [tag, UInt32.size, UInt8.size]
    split <;> omega

theorem eq_encode_iff : bytes = r.encode ↔
    bytes.length = 16 ∧ fieldAt bytes 0 8 = r.tag ∧ fieldAt bytes 8 8 = r.cycles.toNat := by
  have hencode : r.encode = layout [(8, r.tag), (8, r.cycles.toNat)] := by simp [encode, layout]
  have hfit : ∀ f ∈ [(8, r.tag), (8, r.cycles.toNat)], f.2 < 256 ^ f.1 := by
    rw [List.forall_mem_cons, List.forall_mem_singleton]
    exact ⟨r.tag_lt, r.cycles.toNat_lt⟩
  rw [hencode, eq_layout_iff hfit]
  simp [layout, Holds]

theorem ofNat_eq_id_iff {id : UInt32} (hword : word < 256 ^ 8) :
    UInt32.ofNat (word / UInt32.size) = id ↔ word / UInt32.size = id.toNat := by
  have hhigh : word / UInt32.size < UInt32.size := by
    rw [UInt32.size]
    omega
  rw [← UInt32.toNat_inj, UInt32.toNat_ofNat_of_lt' hhigh]

/-- A word is read as a task header exactly if its low byte is full. -/
theorem ofTag?_eq_taskHeader {id : UInt32} {unit : UInt8} {c : UInt64} (hword : word < 256 ^ 8) :
    ofTag? word cycles = some (.taskHeader id unit c) ↔ word % UInt8.size = 0xff ∧
      word / UInt32.size = id.toNat ∧ word / UInt8.size % UInt8.size = unit.toNat ∧ cycles = c := by
  have hunit : UInt8.ofNat (word / UInt8.size % UInt8.size) = unit ↔
      word / UInt8.size % UInt8.size = unit.toNat := by
    rw [← UInt8.toNat_inj, UInt8.toNat_ofNat_of_lt' (Nat.mod_lt _ (by decide))]
  unfold ofTag?
  split
  next hlow => simp [hlow, ofNat_eq_id_iff hword, hunit]
  next hlow => simp [hlow]

/-- Any other word is read as an event mark if bits 8 to 11 are the code of a kind. -/
theorem ofTag?_eq_event {id : UInt32} {kind : ProfilingKind} {stop : Bool} {c : UInt64}
    (hword : word < 256 ^ 8) : ofTag? word cycles = some (.event id kind stop c) ↔
      word % UInt8.size ≠ 0xff ∧ word / UInt32.size = id.toNat ∧ word / UInt8.size % 0x10 = kind.code ∧
      word / 0x1000 % 2 = stop.toNat ∧ cycles = c := by
  have hstop : decide (word / 0x1000 % 2 = 1) = stop ↔ word / 0x1000 % 2 = stop.toNat := by
    cases stop <;> simp
  unfold ofTag?
  split
  next hlow => simp [hlow]
  next hlow =>
    rw [Option.map_eq_some_iff]
    simp only [ProfilingKind.ofCode?_eq_some, event.injEq, ofNat_eq_id_iff hword, hstop]
    constructor
    · rintro ⟨k, hcode, hid, rfl, hlast, hcycles⟩
      exact ⟨hlow, hid, hcode, hlast, hcycles⟩
    · rintro ⟨_, hid, hcode, hlast, hcycles⟩
      exact ⟨kind, hcode, hid, rfl, hlast, hcycles⟩

/-- The tag of a mark as one sum. -/
theorem tag_event {id : UInt32} {kind : ProfilingKind} {stop : Bool} :
    (event id kind stop cycles).tag
      = id.toNat * UInt32.size + stop.toNat * 0x1000 + kind.code * UInt8.size := by
  cases stop <;> simp [tag]

/-- The tag of a record leads back to it. -/
theorem ofTag?_tag (r : ProfilingRecord) : ofTag? r.tag r.cycles = some r := by
  cases r with
  | taskHeader id unit cycles =>
    have hunit := unit.toNat_lt
    refine (ofTag?_eq_taskHeader (tag_lt _)).mpr ?_
    simp only [tag, UInt32.size, UInt8.size]
    exact ⟨by omega, by omega, by omega, rfl⟩
  | event id kind stop cycles =>
    have hkind : kind.code < 16 := by cases kind <;> decide
    have hstop := stop.toNat_lt
    refine (ofTag?_eq_event (tag_lt _)).mpr ?_
    rw [tag_event]
    simp only [UInt32.size, UInt8.size]
    exact ⟨by omega, by omega, by omega, by omega, rfl⟩

theorem ofTag?_eq_none : ofTag? word cycles = none ↔
    word % UInt8.size ≠ 0xff ∧ ∀ kind : ProfilingKind, word / UInt8.size % 0x10 ≠ kind.code := by
  unfold ofTag?
  split
  next hlow => simp [hlow]
  next hlow =>
    rw [Option.map_eq_none_iff, Option.eq_none_iff_forall_ne_some]
    simp only [Ne, ProfilingKind.ofCode?_eq_some, hlow, not_false_eq_true, true_and]

theorem cycles_of_ofTag? (hword : word < 256 ^ 8) (h : ofTag? word cycles = some r) :
    r.cycles = cycles := by
  cases r with
  | taskHeader id unit c =>
    obtain ⟨_, _, _, hcycles⟩ := (ofTag?_eq_taskHeader hword).mp h
    exact hcycles.symm
  | event id kind stop c =>
    obtain ⟨_, _, _, _, hcycles⟩ := (ofTag?_eq_event hword).mp h
    exact hcycles.symm

/-- A word that is read as a record is the record's tag exactly if the bits that reading passes over
are clear. -/
theorem tag_eq_iff (hword : word < 256 ^ 8) (h : ofTag? word cycles = some r) : word = r.tag ↔
    word % 0x100 = 0xff ∧ word / 0x10000 % 0x10000 = 0 ∨
    word % 0x100 = 0 ∧ word / 0x2000 % 0x80000 = 0 := by
  cases r with
  | taskHeader id unit c =>
    obtain ⟨hlow, hid, hunit, _⟩ := (ofTag?_eq_taskHeader hword).mp h
    simp only [tag, UInt32.size, UInt8.size] at *
    omega
  | event id kind stop c =>
    obtain ⟨hlow, hid, hcode, hstop, _⟩ := (ofTag?_eq_event hword).mp h
    rw [tag_event]
    simp only [UInt32.size, UInt8.size] at *
    omega

/-! The same by the bits of the tag word. -/

/-- The word in front of the cycle count. -/
def tagWord (bytes : List UInt8) : BitVec 64 := BitVec.ofNat 64 (fieldAt bytes 0 8)

theorem bits_eq_iff (hi lo : Nat) {k : Nat} (hk : k < 2 ^ (hi - lo + 1)) :
    (tagWord bytes).extractLsb hi lo = BitVec.ofNat _ k ↔
      fieldAt bytes 0 8 / 2 ^ lo % 2 ^ (hi - lo + 1) = k := by
  have hword : fieldAt bytes 0 8 < 2 ^ 64 := fieldAt_lt bytes 0 8
  rw [← BitVec.toNat_inj, BitVec.extractLsb_toNat, BitVec.toNat_ofNat, Nat.mod_eq_of_lt hk,
    Nat.shiftRight_eq_div_pow, tagWord, BitVec.toNat_ofNat, Nat.mod_eq_of_lt hword]

theorem lowByte_eq_iff {k : Nat} (hk : k < 0x100) :
    (tagWord bytes).extractLsb 7 0 = BitVec.ofNat 8 k ↔ fieldAt bytes 0 8 % 0x100 = k := by
  simpa using bits_eq_iff 7 0 hk

theorem decode_encode (r : ProfilingRecord) : decode r.encode = some r := by
  obtain ⟨_, htag, hcycles⟩ := eq_encode_iff.mp (Eq.refl r.encode)
  rw [decode, htag, hcycles, UInt64.ofNat_toNat, ofTag?_tag]

theorem decode_eq_none : decode bytes = none ↔ (tagWord bytes).extractLsb 7 0 ≠ 0xff#8 ∧
    (tagWord bytes).extractLsb 11 8 ∉ [0x0#4, 0x4#4, 0x8#4, 0xC#4] := by
  have hkind : ∀ kind : ProfilingKind, (tagWord bytes).extractLsb 11 8 = BitVec.ofNat 4 kind.code ↔
      fieldAt bytes 0 8 / UInt8.size % 0x10 = kind.code := fun kind =>
    bits_eq_iff 11 8 (by cases kind <;> decide)
  rw [decode, ofTag?_eq_none, Ne, Ne, ← lowByte_eq_iff (by decide)]
  simp only [Ne, ← hkind]
  simp [ProfilingKind.forall_iff, ProfilingKind.code]

theorem encode_eq_iff (hlength : bytes.length = 16) (h : decode bytes = some r) : r.encode = bytes ↔
    (tagWord bytes).extractLsb 7 0 = 0xff#8 ∧ (tagWord bytes).extractLsb 31 16 = 0#16 ∨
    (tagWord bytes).extractLsb 7 0 = 0x00#8 ∧ (tagWord bytes).extractLsb 31 13 = 0#19 := by
  have hword : fieldAt bytes 0 8 < 256 ^ 8 := fieldAt_lt bytes 0 8
  have hcount : fieldAt bytes 8 8 = r.cycles.toNat := by
    rw [cycles_of_ofTag? hword h, UInt64.toNat_ofNat_of_lt' (fieldAt_lt bytes 8 8)]
  have hheader : (tagWord bytes).extractLsb 31 16 = 0#16 ↔ _ := bits_eq_iff 31 16 (by decide)
  have hmark : (tagWord bytes).extractLsb 31 13 = 0#19 ↔ _ := bits_eq_iff 31 13 (by decide)
  rw [eq_comm, eq_encode_iff, tag_eq_iff hword h, lowByte_eq_iff (by decide), lowByte_eq_iff (by decide),
    hheader, hmark]
  simp only [hlength, hcount, true_and, and_true]
  rfl

/-- CORRECT: a record is read back as it was written, 16 bytes are refused exactly if the low byte of the
tag is not full and bits 8 to 11 are no kind, and what is read is written as the same bytes exactly if the
bits that no field has are clear: 16 to 31 in a task header, the low byte and 13 to 31 in an event mark. -/
theorem record_bytes_exact :
    (∀ r : ProfilingRecord, r.encode.length = 16 ∧ decode r.encode = some r) ∧
    ∀ bytes : List UInt8, bytes.length = 16 →
      (decode bytes = none ↔ (tagWord bytes).extractLsb 7 0 ≠ 0xff#8 ∧
        (tagWord bytes).extractLsb 11 8 ∉ [0x0#4, 0x4#4, 0x8#4, 0xC#4]) ∧
      ∀ r, decode bytes = some r → (r.encode = bytes ↔
        (tagWord bytes).extractLsb 7 0 = 0xff#8 ∧ (tagWord bytes).extractLsb 31 16 = 0#16 ∨
        (tagWord bytes).extractLsb 7 0 = 0x00#8 ∧ (tagWord bytes).extractLsb 31 13 = 0#19) := by
  constructor
  · intro r
    exact ⟨(eq_encode_iff.mp (Eq.refl r.encode)).1, decode_encode r⟩
  · intro bytes hlength
    exact ⟨decode_eq_none, fun r hr => encode_eq_iff hlength hr⟩

/-- A stop mark of the event 7 whose tag has further bits, which reading passes over. -/
def crowdedMark : List UInt8 := [0x12, 0xd8, 0, 0, 7, 0, 0, 0, 0x22, 0x11, 0, 0, 0, 0, 0, 0]

theorem crowdedMark_read : crowdedMark.length = 16 ∧
    decode crowdedMark = some (.event 7 .subOperator true 0x1122) ∧
    (event 7 .subOperator true 0x1122).encode ≠ crowdedMark := by
  have hlength : crowdedMark.length = 16 := rfl
  have hread : decode crowdedMark = some (.event 7 .subOperator true 0x1122) := by decide
  refine ⟨hlength, hread, fun hwritten => ?_⟩
  have hclear := ((record_bytes_exact.2 crowdedMark hlength).2 _ hread).mp hwritten
  revert hclear
  decide

end ProfilingRecord

end KernelFusion
