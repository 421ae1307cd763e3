import KernelFusion.Launch.MixRecord
import KernelFusion.Launch.Slot
import KernelFusion.Proofs.JsonText
import KernelFusion.Proofs.Tiling
import KernelFusion.Request.Wire

/-!
Records are read back as they were written.

A record is written with all its fields, each under a name of its own. So reading finds every field once,
and takes no field for another one and none by default. A slot is kept whole until its kind is known,
which its text has to allow: the counts in it are such that double precision holds them.

        record ── toJson ── plain value ── pretty ── text
           └── ofJson? ── fields by name ── parse? ───┘
-/

namespace KernelFusion

/-- A part that is read, and the rest behind it. -/
theorem bind_eq_some {α β : Type} {x : Option α} {a : α} {f : α → Option β} {b : β} (hx : x = some a)
    (h : f a = some b) : (x >>= f) = some b :=
  Option.bind_eq_some_iff.mpr ⟨a, hx, h⟩

/-! ### Counts in double precision -/

namespace Numeral

theorem le_ofDigitChars (cs : List Char) (n : Nat) : n ≤ Nat.ofDigitChars 10 cs n := by
  induction cs generalizing n with
  | nil => simp
  | cons c cs ih =>
    rw [Nat.ofDigitChars_cons]
    have hnext := ih (10 * n + (c.toNat - '0'.toNat))
    omega

/-- Digits of a number of 64 bits all find room. -/
theorem gather_eq {cs : List Char} {n : Nat} (h : Nat.ofDigitChars 10 cs n < UInt64.size) :
    gather n cs = (Nat.ofDigitChars 10 cs n, cs.length) := by
  induction cs generalizing n with
  | nil => simp [gather]
  | cons c cs ih =>
    rw [Nat.ofDigitChars_cons] at h ⊢
    have hroom : 10 * n + Text.digitValue c < UInt64.size := Nat.lt_of_le_of_lt (le_ofDigitChars cs _) h
    rw [gather, if_pos hroom]
    unfold Text.digitValue
    rw [ih h]
    rfl

theorem scientific_count {n : Nat} (h : n < UInt64.size) : (count n).scientific = ⟨n, 0⟩ := by
  have hvalue : Nat.ofDigitChars 10 (Nat.toDigits 10 n) 0 = n := by simp
  have hgather := gather_eq (hvalue.symm ▸ h)
  rw [hvalue] at hgather
  rw [scientific, Scientific.ofDigits, hgather]
  simp [gather]

/-- Rounding adds at most as much as there is. -/
theorem roundDouble_le {n : Nat} (h : 0 < n) : roundDouble n ≤ 2 * n := by
  have hunit : Nat.pow 2 (n.log2 - 52) ≤ n :=
    calc 2 ^ (n.log2 - 52) ≤ 2 ^ n.log2 := Nat.pow_le_pow_right (by decide) (Nat.sub_le _ _)
      _ ≤ n := Nat.log2_self_le (Nat.ne_of_gt h)
  have hsteps : n / Nat.pow 2 (n.log2 - 52) * Nat.pow 2 (n.log2 - 52) ≤ n := Nat.div_mul_le_self _ _
  unfold roundDouble
  dsimp only
  split
  · omega
  · rw [Nat.succ_mul]
    omega

/-- Double precision holds every count of 64 bits. -/
theorem fitsDouble_count {n : Nat} (h : n < UInt64.size) : (count n).fitsDouble = true := by
  rw [fitsDouble, scientific_count h, Scientific.isFinite]
  dsimp only
  split
  · rfl
  next hpos =>
    have hround : roundDouble n ≤ 2 * n := roundDouble_le (by omega)
    have hone : roundDouble (Nat.pow 10 (0 : Int).toNat) = 1 := by decide
    have hbound : 2 * UInt64.size ≤ doubleBound := by decide +kernel
    rw [if_neg (by decide), hone, Nat.mul_one]
    exact decide_eq_true (by omega)

end Numeral

namespace Json

/-! ### Values that can be kept -/

theorem itemsWhole_eq (vs : List Json) : itemsWhole vs = vs.all isWhole := by
  induction vs with
  | nil => rw [itemsWhole, List.all_nil]
  | cons v vs ih => rw [itemsWhole, ih, List.all_cons]

theorem membersWhole_eq (ms : List (Option String × Json)) :
    membersWhole ms = ms.all fun m => m.1.isSome && m.2.isWhole := by
  induction ms with
  | nil => rw [membersWhole, List.all_nil]
  | cons m ms ih => rw [membersWhole, ih, List.all_cons]

/-- Plain values are whole. -/
theorem Plain.isWhole {v : Json} (h : Plain v) : v.isWhole = true := by
  induction h with
  | nat hn => exact Numeral.fitsDouble_count hn
  | arr _ ih =>
    rw [Json.isWhole, itemsWhole_eq]
    exact List.all_eq_true.mpr ih
  | record _ ih =>
    rw [Json.record, Json.isWhole, membersWhole_eq, List.all_map]
    exact List.all_eq_true.mpr ih
  | _ => rfl

/-! ### Fields of a record -/

theorem named?_record (members : List (String × Json)) :
    named? (members.map fun m => (some m.1, m.2)) = some members := by
  have hnames : named? (members.map fun m => (some m.1, m.2)) = some (members.map id) :=
    mapM_map_eq_some fun m _ => rfl
  rw [hnames, List.map_id]

/-- Among members with names of their own, one has the name of a member. -/
theorem filter_name {members : List (String × Json)} (h : (members.map Prod.fst).Nodup)
    {m : String × Json} (hm : m ∈ members) : members.filter (fun m' => m'.1 == m.1) = [m] := by
  induction members with
  | nil => cases hm
  | cons x xs ih =>
    obtain ⟨hx, hxs⟩ := List.nodup_cons.mp h
    rcases List.mem_cons.mp hm with rfl | hm
    · have hrest : xs.filter (fun m' => m'.1 == m.1) = [] := by
        refine List.filter_eq_nil_iff.mpr fun m' hm' heq => hx ?_
        exact beq_iff_eq.mp heq ▸ List.mem_map_of_mem hm'
      rw [List.filter_cons, if_pos (beq_self_eq_true m.1), hrest]
    · have hne : ¬(x.1 == m.1) = true := fun heq => hx (beq_iff_eq.mp heq ▸ List.mem_map_of_mem hm)
      rw [List.filter_cons, if_neg hne]
      exact ih hxs hm

theorem memberOnce?_of_mem {members : List (String × Json)} (h : (members.map Prod.fst).Nodup)
    {m : String × Json} (hm : m ∈ members) : memberOnce? members m.1 = some (some m.2) := by
  rw [memberOnce?, filter_name h hm]

/-- A record has the fields with which it was written, if their names are distinct. -/
theorem fields?_record {members : List (String × Json)} {names : List String}
    (hnames : members.map Prod.fst = names) (h : names.Nodup) :
    (record members).fields? names = some (members.map fun m => some m.2) := by
  subst hnames
  rw [record, fields?, named?_record]
  exact mapM_map_eq_some fun m hm => memberOnce?_of_mem h hm

/-- A tagged record has its tag and the members beside it. -/
theorem tagged?_record {tag name : String} {members : List (String × Json)}
    (hplain : Plain (record ((tag, text name) :: members)))
    (hdepth : (record ((tag, text name) :: members)).depth ≤ taggedDepth)
    (hnodup : (tag :: members.map Prod.fst).Nodup) :
    tagged? tag (record ((tag, text name) :: members)) = some (name, record members) := by
  have hnames : (((tag, text name) :: members).map Prod.fst).Nodup := hnodup
  have htag : memberOnce? ((tag, text name) :: members) tag = some (some (text name)) :=
    memberOnce?_of_mem hnames List.mem_cons_self
  have hname : text? (text name) = some name := rfl
  have hothers : ∀ m ∈ members, m.1 ≠ tag :=
    fun m hm heq => (List.nodup_cons.mp hnodup).1 (heq ▸ List.mem_map_of_mem hm)
  have hfilter : ((members.map fun m => (some m.1, m.2)).filter fun m => m.1 != some tag)
      = members.map fun m => (some m.1, m.2) := by
    refine List.filter_eq_self.mpr fun m hm => ?_
    obtain ⟨m', hm', rfl⟩ := List.mem_map.mp hm
    simpa using hothers m' hm'
  unfold tagged?
  rw [if_pos (by simp [hplain.isWhole, hdepth])]
  dsimp only [record]
  rw [named?_record]
  simp [htag, required, hname, hfilter]

/-! ### Round trips -/

/-- What is written is plain, and is read back. -/
structure RoundTrips {α : Type} (write : α → Json) (read : Json → Option α) : Prop where
  plain : ∀ a, Plain (write a)
  back : ∀ a, read (write a) = some a

theorem roundTrips_text : RoundTrips text text? := ⟨.text, fun _ => rfl⟩

theorem roundTrips_bool : RoundTrips .bool bool? := ⟨.bool, fun _ => rfl⟩

/-- Numbers of a range that 64 bits cover. -/
theorem roundTrips_count {α : Type} {toNat : α → Nat} {ofNat : Nat → α} {bound : Nat}
    (hbound : bound ≤ UInt64.size) (hlt : ∀ a, toNat a < bound) (hof : ∀ a, ofNat (toNat a) = a) :
    RoundTrips (fun a => nat (toNat a)) fun v => (v.countBelow? bound).map ofNat where
  plain a := .nat (Nat.lt_of_lt_of_le (hlt a) hbound)
  back a := by rw [nat, countBelow?, if_pos (hlt a), Option.map_some, hof]

theorem roundTrips_word16 : RoundTrips (fun n : UInt16 => nat n.toNat) word16? :=
  roundTrips_count (by decide) UInt16.toNat_lt fun _ => UInt16.ofNat_toNat

theorem roundTrips_word32 : RoundTrips (fun n : UInt32 => nat n.toNat) word32? :=
  roundTrips_count (by decide) UInt32.toNat_lt fun _ => UInt32.ofNat_toNat

theorem roundTrips_word64 : RoundTrips (fun n : UInt64 => nat n.toNat) word64? :=
  roundTrips_count (Nat.le_refl _) UInt64.toNat_lt fun _ => UInt64.ofNat_toNat

namespace RoundTrips

variable {α : Type} {write : α → Json} {read : Json → Option α} (h : RoundTrips write read)
include h

/-- Lists are read item by item. -/
theorem list : RoundTrips (fun as => .arr (as.map write)) (list? read) where
  plain as := .arr fun v hv => by
    obtain ⟨a, _, rfl⟩ := List.mem_map.mp hv
    exact h.plain a
  back as := by
    have hback : (as.map write).mapM read = some (as.map id) := mapM_map_eq_some fun a _ => h.back a
    rw [List.map_id] at hback
    exact hback

/-- What may be left out is `null` then, which nothing else is written as. -/
theorem nullable (hnull : read .null = none) : RoundTrips (optional write) (nullable? read) where
  plain a := by
    cases a with
    | none => exact .null
    | some a => exact h.plain a
  back a := by
    cases a with
    | none => rfl
    | some a =>
      have hback := h.back a
      rw [optional, nullable?, hback]
      · rfl
      · intro hwrite
        rw [hwrite, hnull] at hback
        cases hback

/-- The text of what is written is read back. -/
theorem parse_pretty (a : α) : (Json.parse? (write a).pretty >>= read) = some a :=
  bind_eq_some (parse?_pretty (h.plain a)) (h.back a)

end RoundTrips

theorem roundTrips_symbol : RoundTrips (optional text) (nullable? text?) := roundTrips_text.nullable rfl

theorem roundTrips_split : RoundTrips (optional fun n : UInt32 => nat n.toNat) (nullable? word32?) :=
  roundTrips_word32.nullable rfl

end Json

/-! ### Records of the program -/

open Json

theorem HardwareProfile.roundTrips : RoundTrips toJson ofJson? where
  plain h := .record (by simp [roundTrips_word32.plain])
  back h := by
    refine bind_eq_some (fields?_record rfl (by decide)) ?_
    refine bind_eq_some (roundTrips_word32.back h.cubeUnits) ?_
    refine bind_eq_some (roundTrips_word32.back h.vectorUnits) ?_
    rfl

theorem TaskType.roundTrips : RoundTrips (fun t => text (name t)) ofJson? where
  plain t := .text _
  back t := by cases t <;> rfl

theorem FunctionNames.roundTrips : RoundTrips toJson ofJson? where
  plain f := .record (by simp [roundTrips_symbol.plain])
  back f := by
    refine bind_eq_some (fields?_record rfl (by decide)) ?_
    refine bind_eq_some (roundTrips_symbol.back f.vector) ?_
    refine bind_eq_some (roundTrips_symbol.back f.cube) ?_
    rfl

theorem TextSize.roundTrips : RoundTrips toJson ofJson? where
  plain t := .record (by simp [roundTrips_word64.plain])
  back t := by
    refine bind_eq_some (fields?_record rfl (by decide)) ?_
    refine bind_eq_some (roundTrips_word64.back t.vector) ?_
    refine bind_eq_some (roundTrips_word64.back t.cube) ?_
    rfl

theorem EarlyStartFlags.roundTrips : RoundTrips toJson ofJson? where
  plain e := .record (by simp [roundTrips_bool.plain])
  back e := by
    refine bind_eq_some (fields?_record rfl (by decide)) ?_
    refine bind_eq_some (roundTrips_bool.back e.set) ?_
    refine bind_eq_some (roundTrips_bool.back e.wait) ?_
    rfl

theorem TilingCase.roundTrips : RoundTrips toJson ofJson? where
  plain c := .record (by
    simp [roundTrips_word64.plain, roundTrips_text.plain, FunctionNames.roundTrips.plain])
  back c := by
    refine bind_eq_some (fields?_record rfl (by decide)) ?_
    refine bind_eq_some (roundTrips_word64.back c.tilingKey) ?_
    refine bind_eq_some (roundTrips_text.back c.kernelType) ?_
    refine bind_eq_some (FunctionNames.roundTrips.back c.functions) ?_
    rfl

theorem OperatorDescriptor.roundTrips : RoundTrips toJson ofJson? where
  plain o := .record (by
    simp [fieldNames, roundTrips_text.plain, roundTrips_bool.plain, roundTrips_word32.plain,
      roundTrips_word64.plain, roundTrips_text.list.plain, roundTrips_word32.list.plain,
      roundTrips_split.plain, FunctionNames.roundTrips.plain, TextSize.roundTrips.plain,
      EarlyStartFlags.roundTrips.plain, TilingCase.roundTrips.list.plain])
  back o := by
    refine bind_eq_some (fields?_record rfl (by decide)) ?_
    refine bind_eq_some (roundTrips_text.back o.name) ?_
    refine bind_eq_some (roundTrips_text.back o.kernelType) ?_
    refine bind_eq_some (roundTrips_word32.back o.blockDim) ?_
    refine bind_eq_some (TaskType.roundTrips.back o.taskType) ?_
    refine bind_eq_some (roundTrips_word32.back o.streamId) ?_
    refine bind_eq_some (roundTrips_text.list.back o.params) ?_
    refine bind_eq_some (FunctionNames.roundTrips.back o.functions) ?_
    refine bind_eq_some (TextSize.roundTrips.back o.textSize) ?_
    refine bind_eq_some (roundTrips_word32.list.back o.sendEvents) ?_
    refine bind_eq_some (roundTrips_word32.list.back o.recvEvents) ?_
    refine bind_eq_some (EarlyStartFlags.roundTrips.back o.earlyStart) ?_
    refine bind_eq_some (roundTrips_bool.back o.flushBefore) ?_
    refine bind_eq_some (roundTrips_bool.back o.flushAfter) ?_
    refine bind_eq_some (roundTrips_bool.back o.flushNever) ?_
    refine bind_eq_some (roundTrips_bool.back o.withSyncAll) ?_
    refine bind_eq_some (roundTrips_split.back o.splitMode) ?_
    refine bind_eq_some (roundTrips_text.back o.debugOptions) ?_
    refine bind_eq_some (roundTrips_word64.back o.debugBufSize) ?_
    refine bind_eq_some (roundTrips_bool.back o.unitLocal) ?_
    refine bind_eq_some (TilingCase.roundTrips.list.back o.tiling) ?_
    rfl

theorem Request.roundTrips : RoundTrips toJson ofJson? where
  plain r := .record (by
    simp [roundTrips_text.plain, HardwareProfile.roundTrips.plain, OperatorDescriptor.roundTrips.list.plain])
  back r := by
    refine bind_eq_some (fields?_record rfl (by decide)) ?_
    refine bind_eq_some (roundTrips_text.back r.kernelName) ?_
    refine bind_eq_some (roundTrips_text.back r.options) ?_
    refine bind_eq_some (HardwareProfile.roundTrips.back r.hardware) ?_
    refine bind_eq_some (OperatorDescriptor.roundTrips.list.back r.operators) ?_
    rfl

namespace MixRecord

theorem roundTrips_main :
    RoundTrips (fun d => text (mainName d)) (fun v => v.caseName? >>= ofMainName?) where
  plain d := .text _
  back d := by cases d <;> rfl

theorem roundTrips : RoundTrips toJson ofJson? where
  plain r := .record (by simp [roundTrips_text.plain, roundTrips_word16.plain])
  back r := by
    refine bind_eq_some (fields?_record rfl (by decide)) ?_
    refine bind_eq_some (roundTrips_text.back r.kernelName) ?_
    refine bind_eq_some (roundTrips_main.back r.main) ?_
    refine bind_eq_some (roundTrips_word16.back r.aicRatio) ?_
    refine bind_eq_some (roundTrips_word16.back r.aivRatio) ?_
    rfl

end MixRecord

namespace Slot

theorem named?_record (make : String → Slot) (operator : String) :
    named? make (record [("operator", text operator)]) = some (make operator) := by
  refine bind_eq_some (fields?_record rfl (by decide)) ?_
  refine bind_eq_some (roundTrips_text.back operator) ?_
  rfl

theorem lock?_record (make : String → UInt32 → Slot) (operator : String) (event : UInt32) :
    lock? make (record [("operator", text operator), ("event", nat event.toNat)])
      = some (make operator event) := by
  refine bind_eq_some (fields?_record rfl (by decide)) ?_
  refine bind_eq_some (roundTrips_text.back operator) ?_
  refine bind_eq_some (roundTrips_word32.back event) ?_
  rfl

theorem argument?_record (operator name : String) :
    argument? (record [("operator", text operator), ("name", text name)])
      = some (.argument operator name) := by
  refine bind_eq_some (fields?_record rfl (by decide)) ?_
  refine bind_eq_some (roundTrips_text.back operator) ?_
  refine bind_eq_some (roundTrips_text.back name) ?_
  rfl

/-- The members beside the kind give the slot back. -/
theorem ofKind?_record (s : Slot) : ofKind? s.kind (record s.members) = some s := by
  cases s with
  | argument operator name => exact argument?_record operator name
  | notifyLock operator event => exact lock?_record .notifyLock operator event
  | waitLock operator event => exact lock?_record .waitLock operator event
  | tilingKey operator => exact named?_record .tilingKey operator
  | blockCount operator => exact named?_record .blockCount operator
  | readyLock operator => exact named?_record .readyLock operator
  | _ => rfl

theorem plain_toJson (s : Slot) : Plain s.toJson := by
  refine .record ?_
  cases s <;> simp [members, roundTrips_text.plain, roundTrips_word32.plain]

theorem roundTrips : RoundTrips toJson ofJson? where
  plain := plain_toJson
  back s := by
    have hdepth : s.toJson.depth ≤ taggedDepth := by
      cases s <;> simp [toJson, members, record, depth, membersDepth, text, nat, taggedDepth]
    have hnames : ("kind" :: s.members.map Prod.fst).Nodup := by
      cases s <;> simp [members]
    refine bind_eq_some (tagged?_record s.plain_toJson hdepth hnames) ?_
    exact ofKind?_record s

end Slot

/-- CORRECT: requests, launch records and slots are read back from their texts, whatever they hold. A slot
has no text that the program lays down, so it is read back from its value as well. -/
theorem texts_read_back : (∀ r : Request, Request.parse? r.print = some r) ∧
    (∀ m : MixRecord, MixRecord.parse? m.print = some m) ∧
    ∀ s : Slot, Slot.ofJson? s.toJson = some s ∧ Slot.parse? s.toJson.pretty = some s := by
  refine ⟨?_, ?_, fun s => ⟨?_, ?_⟩⟩
  · exact Request.roundTrips.parse_pretty
  · exact MixRecord.roundTrips.parse_pretty
  · exact Slot.roundTrips.back s
  · exact Slot.roundTrips.parse_pretty s

end KernelFusion
