import KernelFusion.Profiling.Ring
import Mathlib.Tactic.Common

/-!
How far a unit writes into its profiling region.

A region is looked at when a task starts and behind every record, but not in front of one, and it counts
as full once the cursor is no longer below the end. So from the first call on it is switched off exactly if
it is not valid, and what it keeps is known: the records that are asked for first, up to the one that
reaches the end. That one may stand across the end, and a record before any task goes unchecked.

        0        16        32        48
        │ header │ record  │ record  │
                               ▲
                               capacity 40: the third record is kept as well

A region that is made for a number of records and starts with a task has neither: it keeps just that many.
Starting a task switches a region on again before it is looked at, but no call moves the cursor of a region
that has switched itself off, so that it stays as it is.

The cursor has 64 bits. Only a record across the end can overflow it; a program that goes on from there
writes into the front of the region once more.
-/

namespace KernelFusion

/-! ### Results of 64 bits -/

namespace Overflow

variable {v : Overflow} {n : Nat} {w : UInt64}

theorem fit_of_lt (v : Overflow) (h : n < UInt64.size) : v.fit n = some (.ofNat n) := by
  cases v with
  | stops => exact if_pos h
  | wraps => rfl

theorem toNat_of_fit (h : n < UInt64.size) (hw : v.fit n = some w) : w.toNat = n := by
  rw [fit_of_lt v h] at hw
  cases hw
  exact UInt64.toNat_ofNat_of_lt' h

/-- A program that stops at overflows has no result but the right one. -/
theorem lt_of_fit_stops (h : fit .stops n = some w) : n < UInt64.size := by
  by_contra hn
  rw [fit, if_neg hn] at h
  cases h

/-- A result without overflow is the result of a program that goes on as well. -/
theorem fit_wraps_of_stops (h : fit .stops n = some w) : fit .wraps n = some w := by
  rw [← h, fit_of_lt .stops (lt_of_fit_stops h)]
  rfl

end Overflow

namespace ProfilingRing

/-- A call of a unit on its region. -/
inductive Call where
  | init (taskId : UInt32) (unit : UInt8) (cycles : UInt64)
  | record (eventId : UInt32) (kind : ProfilingKind) (start : Bool) (cycles : UInt64)

namespace Call

/-- The record that a call asks for. -/
def wanted : Call → ProfilingRecord
  | .init taskId unit cycles => .taskHeader taskId unit cycles
  | .record eventId kind start cycles => .event eventId kind (!start) cycles

/-- Whether the call starts a task. -/
def isInit : Call → Bool
  | .init .. => true
  | .record .. => false

end Call

/-- The region behind a call. -/
def after (v : Overflow) (r : ProfilingRing) : Call → Option ProfilingRing
  | .init taskId unit cycles => r.init v taskId unit cycles
  | .record eventId kind start cycles => (r.record v eventId kind start cycles).map Prod.snd

/-- The region behind calls one after the other. -/
def afterAll (v : Overflow) (r : ProfilingRing) : List Call → Option ProfilingRing
  | [] => some r
  | c :: calls => (r.after v c).bind fun r => r.afterAll v calls

/-- Records that are written until the cursor is no longer below the end. -/
def room (r : ProfilingRing) : Nat :=
  if r.magic = goodMagic then (r.capacity.toNat - r.cursor.toNat + 15) / 16 else 0

variable {v : Overflow} {r r' : ProfilingRing} {x : ProfilingRecord} {c : Call} {calls : List Call}
  {cursor : UInt64}

theorem isValid_iff : r.isValid = true ↔ r.magic = goodMagic ∧ r.cursor.toNat < r.capacity.toNat := by
  simp [isValid, UInt64.lt_iff_toNat_lt]

theorem isValid_iff_room : r.isValid = true ↔ 0 < r.room := by
  rw [isValid_iff, room]
  by_cases hmagic : r.magic = goodMagic
  · simp only [hmagic, true_and, if_true]
    omega
  · simp [hmagic]

theorem room_of_invalid (h : r.isValid = false) : r.room = 0 :=
  Nat.eq_zero_of_not_pos fun hpos => by simp [isValid_iff_room.mpr hpos] at h

theorem room_written (x : ProfilingRecord) (h : cursor.toNat = r.cursor.toNat + 16) :
    (r.written x cursor).room = r.room - 1 := by
  simp only [room, written]
  by_cases hmagic : r.magic = goodMagic
  · simp only [hmagic, if_true]
    omega
  · simp [hmagic]

/-! ### One record -/

theorem push_cases (h : r.push v x = some r') :
    ∃ cursor, v.add r.cursor recordBytes = some cursor ∧ r' = r.written x cursor := by
  obtain ⟨cursor, hcursor, hr'⟩ := Option.map_eq_some_iff.mp h
  exact ⟨cursor, hcursor, hr'.symm⟩

/-- A cursor that does not overflow moves by one record. -/
theorem push_of_lt (v : Overflow) (x : ProfilingRecord) (h : r.cursor.toNat + 16 < UInt64.size) :
    ∃ cursor : UInt64, r.push v x = some (r.written x cursor) ∧ cursor.toNat = r.cursor.toNat + 16 := by
  refine ⟨.ofNat (r.cursor.toNat + 16), ?_, UInt64.toNat_ofNat_of_lt' h⟩
  have hadd : v.add r.cursor recordBytes = some (.ofNat (r.cursor.toNat + 16)) := v.fit_of_lt h
  rw [push, hadd]
  rfl

theorem push_stops (h : r.push .stops x = some r') :
    ∃ cursor : UInt64, r' = r.written x cursor ∧ cursor.toNat = r.cursor.toNat + 16 := by
  obtain ⟨cursor, hcursor, rfl⟩ := push_cases h
  exact ⟨cursor, rfl, Overflow.toNat_of_fit (Overflow.lt_of_fit_stops hcursor) hcursor⟩

/-! ### One call -/

/-- A region that is switched off exactly if it is not valid. -/
def Settled (r : ProfilingRing) : Prop := r.off = !r.isValid

theorem Settled.on (h : r.Settled) (hv : r.isValid = true) : r.off = false := by
  rw [h, hv]
  rfl

theorem Settled.off (h : r.Settled) (hv : r.isValid = false) : r.off = true := by
  rw [h, hv]
  rfl

theorem settled_written (h : r.off = false) (x : ProfilingRecord) (cursor : UInt64) :
    (r.written x cursor).Settled := by
  simp [Settled, written, h, isValid]

theorem settled_switchedOff (hv : r.isValid = false) : { r with off := true }.Settled :=
  (congrArg (! ·) hv).symm

/-- A task starts on a valid region, whatever it was before. -/
theorem after_init (hv : r.isValid = true) (hc : c.isInit = true) :
    r.after v c = { r with off := false }.push v c.wanted := by
  cases c with
  | init => exact if_pos hv
  | record => cases hc

theorem after_init_of_invalid (hv : r.isValid = false) (hc : c.isInit = true) :
    r.after v c = some { r with off := true } := by
  cases c with
  | init => exact if_neg (Bool.eq_false_iff.mp hv)
  | record => cases hc

/-- A region that is switched on keeps what is recorded, valid or not. -/
theorem after_record (h : r.off = false) (hc : c.isInit = false) : r.after v c = r.push v c.wanted := by
  cases c with
  | init => cases hc
  | record =>
    rw [after, record, if_neg (Bool.eq_false_iff.mp h), Option.map_map]
    exact Option.map_id'

theorem after_of_off (h : r.off = true) (hc : c.isInit = false) : r.after v c = some r := by
  cases c with
  | init => cases hc
  | record => simp [after, record, h]

theorem Settled.after_of_valid (h : r.Settled) (hv : r.isValid = true) :
    r.after v c = r.push v c.wanted := by
  have hon : r.off = false := h.on hv
  cases hc : c.isInit with
  | true => rw [after_init hv hc, ← hon]
  | false => exact after_record hon hc

theorem Settled.after_of_invalid (h : r.Settled) (hv : r.isValid = false) : r.after v c = some r := by
  have hoff : r.off = true := h.off hv
  cases hc : c.isInit with
  | true => rw [after_init_of_invalid hv hc, ← hoff]
  | false => exact after_of_off hoff hc

/-- All that a call can do: it writes a record into a region that is switched on, or none at all. -/
theorem after_cases (h : r.after v c = some r') :
    (∃ cursor, v.add r.cursor recordBytes = some cursor
      ∧ r' = { r with off := false }.written c.wanted cursor) ∨
    ((r.off = true ∨ r.isValid = false) ∧ r' = { r with off := true }) := by
  cases hc : c.isInit with
  | true =>
    cases hv : r.isValid with
    | true =>
      rw [after_init hv hc] at h
      exact .inl (push_cases h)
    | false =>
      rw [after_init_of_invalid hv hc] at h
      cases h
      exact .inr ⟨.inr rfl, rfl⟩
  | false =>
    cases hoff : r.off with
    | false =>
      rw [after_record hoff hc] at h
      rw [← hoff]
      exact .inl (push_cases h)
    | true =>
      rw [after_of_off hoff hc] at h
      cases h
      refine .inr ⟨.inl rfl, ?_⟩
      rw [← hoff]

theorem after_wraps_of_stops (h : r.after .stops c = some r') : r.after .wraps c = some r' := by
  have hpush : ∀ (s : ProfilingRing) (x : ProfilingRecord),
      s.push .stops x = some r' → s.push .wraps x = some r' := by
    intro s x hs
    obtain ⟨cursor, hcursor, rfl⟩ := push_cases hs
    have hadd : Overflow.wraps.add s.cursor recordBytes = some cursor :=
      Overflow.fit_wraps_of_stops hcursor
    rw [push, hadd]
    rfl
  cases hc : c.isInit with
  | true =>
    cases hv : r.isValid with
    | true =>
      rw [after_init hv hc] at h ⊢
      exact hpush _ _ h
    | false =>
      rw [after_init_of_invalid hv hc] at h ⊢
      exact h
  | false =>
    cases hoff : r.off with
    | false =>
      rw [after_record hoff hc] at h ⊢
      exact hpush _ _ h
    | true =>
      rw [after_of_off hoff hc] at h ⊢
      exact h

/-! ### Calls one after the other -/

theorem afterAll_cons (h : r.afterAll v (c :: calls) = some r') :
    ∃ s, r.after v c = some s ∧ s.afterAll v calls = some r' :=
  Option.bind_eq_some_iff.mp h

theorem afterAll_append (v : Overflow) (r : ProfilingRing) (calls more : List Call) :
    r.afterAll v (calls ++ more) = (r.afterAll v calls).bind fun s => s.afterAll v more := by
  induction calls generalizing r with
  | nil => rfl
  | cons c calls ih =>
    rw [List.cons_append, afterAll, afterAll, Option.bind_assoc]
    exact congrArg _ (funext ih)

theorem afterAll_wraps_of_stops (h : r.afterAll .stops calls = some r') :
    r.afterAll .wraps calls = some r' := by
  induction calls generalizing r with
  | nil => exact h
  | cons c calls ih =>
    obtain ⟨s, hs, hrest⟩ := afterAll_cons h
    rw [afterAll, after_wraps_of_stops hs]
    exact ih hrest

/-- A program that goes on at overflows has a result for all calls. -/
theorem exists_afterAll_wraps (r : ProfilingRing) (calls : List Call) :
    ∃ r', r.afterAll .wraps calls = some r' := by
  induction calls generalizing r with
  | nil => exact ⟨r, rfl⟩
  | cons c calls ih =>
    have hafter : ∃ s, r.after .wraps c = some s := by
      cases hc : c.isInit with
      | true =>
        cases hv : r.isValid with
        | true => exact ⟨_, after_init hv hc⟩
        | false => exact ⟨_, after_init_of_invalid hv hc⟩
      | false =>
        cases hoff : r.off with
        | false => exact ⟨_, after_record hoff hc⟩
        | true => exact ⟨r, after_of_off hoff hc⟩
    obtain ⟨s, hs⟩ := hafter
    obtain ⟨r', hr'⟩ := ih s
    exact ⟨r', by rw [afterAll, hs]; exact hr'⟩

/-- A call keeps at most one record and drops none. -/
theorem length_afterAll (h : r.afterAll v calls = some r') :
    r.records.length ≤ r'.records.length ∧ r'.records.length ≤ r.records.length + calls.length := by
  induction calls generalizing r with
  | nil =>
    cases h
    exact ⟨Nat.le_refl _, Nat.le_refl _⟩
  | cons c calls ih =>
    obtain ⟨s, hs, hrest⟩ := afterAll_cons h
    have hstep : r.records.length ≤ s.records.length ∧ s.records.length ≤ r.records.length + 1 := by
      rcases after_cases hs with ⟨cursor, -, rfl⟩ | ⟨-, rfl⟩
      · simp [written]
      · exact ⟨Nat.le_refl _, Nat.le_succ _⟩
    obtain ⟨hlow, hhigh⟩ := ih hrest
    rw [List.length_cons]
    omega

/-- Nothing is kept by a region that is settled and not valid. -/
theorem Settled.afterAll_of_invalid (h : r.Settled) (hv : r.isValid = false) (calls : List Call) :
    r.afterAll v calls = some r := by
  induction calls with
  | nil => rfl
  | cons c calls ih =>
    rw [afterAll, h.after_of_invalid hv]
    exact ih

/-! ### Records that are written without overflow -/

/-- The cursor goes up to the end in whole records. -/
structure Whole (r : ProfilingRing) : Prop where
  le : r.cursor.toNat ≤ r.capacity.toNat
  dvd : 16 ∣ r.capacity.toNat - r.cursor.toNat

/-- In whole records a valid region has room for one, and no cursor overflows. -/
theorem Whole.push (h : r.Whole) (hv : r.isValid = true) (v : Overflow) (x : ProfilingRecord) :
    ∃ cursor : UInt64, r.push v x = some (r.written x cursor) ∧ cursor.toNat = r.cursor.toNat + 16
      ∧ (r.written x cursor).Whole := by
  have hlt : r.cursor.toNat < r.capacity.toNat := (isValid_iff.mp hv).2
  have hend : r.cursor.toNat + 16 ≤ r.capacity.toNat := by
    have := h.dvd
    omega
  obtain ⟨cursor, hpush, hcursor⟩ := push_of_lt v x (Nat.lt_of_le_of_lt hend r.capacity.toNat_lt)
  refine ⟨cursor, hpush, hcursor, ?_, ?_⟩
  · change cursor.toNat ≤ r.capacity.toNat
    omega
  · change 16 ∣ r.capacity.toNat - cursor.toNat
    have := h.dvd
    omega

/-- No cursor overflows: the end is reached in whole records, or the program stops at overflows. -/
def Exact (v : Overflow) (r : ProfilingRing) : Prop := v = .stops ∨ r.Whole

theorem Exact.push (h : Exact v r) (hv : r.isValid = true) (hr' : r.push v x = some r') :
    ∃ cursor : UInt64, r' = r.written x cursor ∧ cursor.toNat = r.cursor.toNat + 16
      ∧ Exact v (r.written x cursor) := by
  rcases h with rfl | hwhole
  · obtain ⟨cursor, rfl, hcursor⟩ := push_stops hr'
    exact ⟨cursor, rfl, hcursor, .inl rfl⟩
  · obtain ⟨cursor, hpush, hcursor, hwhole'⟩ := hwhole.push hv v x
    rw [hpush] at hr'
    cases hr'
    exact ⟨cursor, rfl, hcursor, .inr hwhole'⟩

/-- A settled region keeps what is asked for first as long as there is room, and each call takes one record
of it. -/
theorem Settled.run (h : r.Settled) (hexact : Exact v r) (hrun : r.afterAll v calls = some r') :
    r'.records = r.records ++ (calls.take r.room).map Call.wanted
      ∧ r'.Settled ∧ r'.room = r.room - calls.length := by
  induction calls generalizing r with
  | nil =>
    cases hrun
    simp [h]
  | cons c calls ih =>
    cases hv : r.isValid with
    | false =>
      rw [h.afterAll_of_invalid hv] at hrun
      cases hrun
      simp [h, room_of_invalid hv]
    | true =>
      obtain ⟨s, hs, hrest⟩ := afterAll_cons hrun
      rw [h.after_of_valid hv] at hs
      obtain ⟨cursor, rfl, hcursor, hexact'⟩ := hexact.push hv hs
      obtain ⟨hrecords, hsettled, hroom⟩ := ih (settled_written (h.on hv) _ _) hexact' hrest
      obtain ⟨n, hn⟩ := Nat.exists_eq_succ_of_ne_zero (Nat.pos_iff_ne_zero.mp (isValid_iff_room.mp hv))
      rw [room_written _ hcursor, hn, Nat.succ_sub_one] at hrecords hroom
      refine ⟨?_, hsettled, ?_⟩
      · rw [hrecords, hn, List.take_succ_cons]
        simp [written]
      · rw [hroom, hn, List.length_cons, Nat.succ_eq_add_one, Nat.add_sub_add_right]

/-- Where the end is reached in whole records all calls have a result. -/
theorem Settled.exists_run (h : r.Settled) (hwhole : r.Whole) (v : Overflow) (calls : List Call) :
    ∃ r', r.afterAll v calls = some r' ∧ r'.Whole := by
  induction calls generalizing r with
  | nil => exact ⟨r, rfl, hwhole⟩
  | cons c calls ih =>
    cases hv : r.isValid with
    | false => exact ⟨r, h.afterAll_of_invalid hv _, hwhole⟩
    | true =>
      obtain ⟨cursor, hpush, -, hwhole'⟩ := hwhole.push hv v c.wanted
      obtain ⟨r', hrun, hend⟩ := ih (settled_written (h.on hv) c.wanted cursor) hwhole'
      refine ⟨r', ?_, hend⟩
      rw [afterAll, h.after_of_valid hv, hpush]
      exact hrun

/-- Overflow or not, a settled region keeps at least what there is room for: the cursor overflows with the
last record of the room only. -/
theorem Settled.room_le (h : r.Settled) (hrun : r.afterAll v calls = some r') :
    r.records.length + min r.room calls.length ≤ r'.records.length := by
  induction calls generalizing r with
  | nil =>
    cases hrun
    simp
  | cons c calls ih =>
    cases hv : r.isValid with
    | false =>
      rw [h.afterAll_of_invalid hv] at hrun
      cases hrun
      simp [room_of_invalid hv]
    | true =>
      obtain ⟨s, hs, hrest⟩ := afterAll_cons hrun
      rw [h.after_of_valid hv] at hs
      obtain ⟨cursor, hcursor, rfl⟩ := push_cases hs
      have hlength : (r.written c.wanted cursor).records.length = r.records.length + 1 := by
        simp [written]
      have hlow : r.records.length + 1 ≤ r'.records.length := hlength ▸ (length_afterAll hrest).1
      by_cases hlt : r.cursor.toNat + 16 < UInt64.size
      · have hnext := ih (settled_written (h.on hv) _ _) hrest
        rw [room_written _ (Overflow.toNat_of_fit hlt hcursor), hlength] at hnext
        rw [List.length_cons]
        omega
      · have hroom : r.room ≤ 1 := by
          have hsize : r.capacity.toNat < UInt64.size := r.capacity.toNat_lt
          rw [room, if_pos (isValid_iff.mp hv).1]
          omega
        omega

/-! ### The end of the region -/

/-- A number of records that stays within the region behind a header, and none where the header is
wrong. -/
def Within (magic cursor capacity : UInt64) (records : Nat) : Prop :=
  if magic = goodMagic ∧ cursor < capacity then
    cursor.toNat + recordBytes.toNat * records ≤ capacity.toNat
  else records = 0

section Header

variable {magic cursor capacity : UInt64}

theorem isValid_ofHeader :
    (ofHeader magic cursor capacity).isValid = true ↔ magic = goodMagic ∧ cursor < capacity := by
  rw [isValid, Bool.and_eq_true, decide_eq_true_iff, decide_eq_true_iff]
  rfl

theorem settled_ofHeader (h : magic = goodMagic ∧ cursor < capacity) :
    (ofHeader magic cursor capacity).Settled := by
  rw [Settled, isValid_ofHeader.mpr h]
  rfl

theorem room_ofHeader (h : magic = goodMagic) :
    (ofHeader magic cursor capacity).room = (capacity.toNat - cursor.toNat + 15) / 16 := if_pos h

/-- Behind a right header, without overflow, the records that are asked for are kept up to the one that
reaches the end. -/
theorem length_of_right_header (h : magic = goodMagic ∧ cursor < capacity)
    (hexact : Exact v (ofHeader magic cursor capacity))
    (hrun : (ofHeader magic cursor capacity).afterAll v calls = some r) :
    r.records.length = min ((capacity.toNat - cursor.toNat + 15) / 16) calls.length := by
  obtain ⟨hrecords, -⟩ := (settled_ofHeader h).run hexact hrun
  rw [hrecords, List.length_append, List.length_map, List.length_take, room_ofHeader h.1]
  exact Nat.zero_add _

/-- Behind a wrong header a task switches the region off at once. -/
theorem length_of_init (h : ¬(magic = goodMagic ∧ cursor < capacity))
    (hinit : ∀ c ∈ calls.head?, c.isInit = true)
    (hrun : (ofHeader magic cursor capacity).afterAll v calls = some r) : r.records.length = 0 := by
  have hv : (ofHeader magic cursor capacity).isValid = false :=
    Bool.eq_false_iff.mpr fun hv => h (isValid_ofHeader.mp hv)
  cases calls with
  | nil =>
    cases hrun
    rfl
  | cons c calls =>
    obtain ⟨s, hs, hrest⟩ := afterAll_cons hrun
    rw [after_init_of_invalid hv (hinit c rfl)] at hs
    cases hs
    rw [(settled_switchedOff hv).afterAll_of_invalid hv] at hrest
    cases hrest
    rfl

/-- A record in front of any task is kept behind any header. -/
theorem length_of_record (hc : c.isInit = false)
    (hrun : (ofHeader magic cursor capacity).afterAll v (c :: calls) = some r) :
    1 ≤ r.records.length := by
  obtain ⟨s, hs, hrest⟩ := afterAll_cons hrun
  rw [after_record rfl hc] at hs
  obtain ⟨cursor', -, rfl⟩ := push_cases hs
  exact (length_afterAll hrest).1

/-- Behind a wrong header, without overflow, no second record follows. -/
theorem length_of_wrong_header (h : ¬(magic = goodMagic ∧ cursor < capacity))
    (hrun : (ofHeader magic cursor capacity).afterAll .stops calls = some r) : r.records.length ≤ 1 := by
  by_cases hinit : ∀ c ∈ calls.head?, c.isInit = true
  · rw [length_of_init h hinit hrun]
    exact Nat.zero_le 1
  cases calls with
  | nil => exact absurd (by simp) hinit
  | cons c calls =>
    have hc : c.isInit = false := by simpa using hinit
    obtain ⟨s, hs, hrest⟩ := afterAll_cons hrun
    rw [after_record rfl hc] at hs
    obtain ⟨cursor', rfl, hcursor'⟩ := push_stops hs
    have hv : ((ofHeader magic cursor capacity).written c.wanted cursor').isValid = false := by
      refine Bool.eq_false_iff.mpr fun hv => h ?_
      obtain ⟨hmagic, hlt⟩ := isValid_iff.mp hv
      have hcursor : cursor'.toNat = cursor.toNat + 16 := hcursor'
      have hend : cursor'.toNat < capacity.toNat := hlt
      exact ⟨hmagic, UInt64.lt_iff_toNat_lt.mpr (by omega)⟩
    rw [(settled_written rfl _ _).afterAll_of_invalid hv] at hrest
    cases hrest
    exact Nat.le_refl _

theorem within_iff (hrun : (ofHeader magic cursor capacity).afterAll v calls = some r) :
    Within magic cursor capacity r.records.length ↔
      if magic = goodMagic ∧ cursor < capacity then
        recordBytes.toNat ∣ capacity.toNat - cursor.toNat
          ∨ cursor.toNat + recordBytes.toNat * calls.length ≤ capacity.toNat
      else ∀ c ∈ calls.head?, c.isInit = true := by
  have hbytes : recordBytes.toNat = 16 := rfl
  unfold Within
  by_cases h : magic = goodMagic ∧ cursor < capacity
  · have hlt : cursor.toNat < capacity.toNat := UInt64.lt_iff_toNat_lt.mp h.2
    rw [if_pos h, if_pos h, hbytes]
    constructor
    · intro hwithin
      have hkept := (settled_ofHeader h).room_le hrun
      rw [room_ofHeader h.1] at hkept
      change 0 + _ ≤ _ at hkept
      omega
    · rintro (hwhole | hfits)
      · have hlength := length_of_right_header h (.inr ⟨Nat.le_of_lt hlt, hwhole⟩) hrun
        omega
      · have hkept : r.records.length ≤ 0 + calls.length := (length_afterAll hrun).2
        omega
  · rw [if_neg h, if_neg h]
    constructor
    · intro hnone
      cases calls with
      | nil => simp
      | cons c calls =>
        cases hc : c.isInit with
        | true => simpa using hc
        | false =>
          have hone := length_of_record hc hrun
          omega
    · intro hinit
      exact length_of_init h hinit hrun

theorem within_but_one (hrun : (ofHeader magic cursor capacity).afterAll .stops calls = some r) :
    Within magic cursor capacity (r.records.length - 1) := by
  have hbytes : recordBytes.toNat = 16 := rfl
  unfold Within
  by_cases h : magic = goodMagic ∧ cursor < capacity
  · have hlt : cursor.toNat < capacity.toNat := UInt64.lt_iff_toNat_lt.mp h.2
    have hlength := length_of_right_header h (.inl rfl) hrun
    rw [if_pos h, hbytes]
    omega
  · have hone := length_of_wrong_header h hrun
    rw [if_neg h]
    omega

/-- CORRECT (exact condition): behind a right header, records stay in the region exactly if it is made for
whole records or all that is asked for fits; behind a wrong one, exactly if a task is started first. This
holds also where the cursor overflows. Where it does not, never more than one record is outside. -/
theorem records_within_iff (magic cursor capacity : UInt64) (calls : List Call) :
    (∀ v r, (ofHeader magic cursor capacity).afterAll v calls = some r →
      (Within magic cursor capacity r.records.length ↔
        if magic = goodMagic ∧ cursor < capacity then
          recordBytes.toNat ∣ capacity.toNat - cursor.toNat
            ∨ cursor.toNat + recordBytes.toNat * calls.length ≤ capacity.toNat
        else ∀ c ∈ calls.head?, c.isInit = true)) ∧
    (∀ r, (ofHeader magic cursor capacity).afterAll .stops calls = some r →
      Within magic cursor capacity (r.records.length - 1)
        ∧ (ofHeader magic cursor capacity).afterAll .wraps calls = some r) ∧
    ∃ r, (ofHeader magic cursor capacity).afterAll .wraps calls = some r := by
  refine ⟨?_, ?_, exists_afterAll_wraps _ calls⟩
  · intro v r hrun
    exact within_iff hrun
  · intro r hrun
    exact ⟨within_but_one hrun, afterAll_wraps_of_stops hrun⟩

/-- Where half a record is left, a whole one is written; and a record in front of any task is written behind
a wrong header as well. -/
theorem half_record_overruns :
    (∃ r, (ofHeader goodMagic 0 24).afterAll .stops [.init 1 0 0, .record 1 .subOperator true 10] = some r
      ∧ ¬Within goodMagic 0 24 r.records.length) ∧
    ∃ r, (ofHeader 0xdead 0 1024).afterAll .stops [.record 0 .kernel true 1] = some r
      ∧ ¬Within 0xdead 0 1024 r.records.length := by
  constructor
  · refine ⟨⟨goodMagic, 32, 24, true, [.taskHeader 1 0 0, .event 1 .subOperator false 10]⟩, by decide, ?_⟩
    rw [Within, if_pos (by decide)]
    decide
  · refine ⟨⟨0xdead, 16, 1024, true, [.event 0 .kernel false 1]⟩, by decide, ?_⟩
    rw [Within, if_neg (by decide)]
    decide

end Header

/-! ### Regions for whole records -/

theorem Settled.off_iff (h : r.Settled) : r.off = true ↔ r.room = 0 := by
  rw [h, Bool.not_eq_true', Bool.eq_false_iff, ne_eq, isValid_iff_room, Nat.pos_iff_ne_zero, not_not]

/-- A region holds the first `n` of the records that calls have asked for, keeps further ones while there
are fewer, and is switched off when there are `n`. -/
structure HoldsFirst (v : Overflow) (r : ProfilingRing) (n : Nat) (calls : List Call) : Prop where
  records : r.records = (calls.map Call.wanted).take n
  kept : ∀ eventId kind start cycles, ∃ next,
    r.record v eventId kind start cycles = some (decide (r.records.length < n), next)
  off : r.off = true ↔ r.records.length = n

theorem Settled.holdsFirst {n : Nat} (h : r.Settled) (hwhole : r.Whole)
    (hrecords : r.records = (calls.map Call.wanted).take n) (hroom : r.room = n - calls.length) :
    r.HoldsFirst v n calls := by
  have hlength : r.records.length = min n calls.length := by
    rw [hrecords, List.length_take, List.length_map]
  refine ⟨hrecords, ?_, ?_⟩
  · intro eventId kind start cycles
    cases hv : r.isValid with
    | false =>
      have hfull : ¬r.records.length < n := by
        have := room_of_invalid hv
        omega
      refine ⟨r, ?_⟩
      rw [record, if_pos (h.off hv), decide_eq_false hfull]
    | true =>
      have hfree : r.records.length < n := by
        have := isValid_iff_room.mp hv
        omega
      obtain ⟨cursor, hpush, -⟩ := hwhole.push hv v (.event eventId kind (!start) cycles)
      refine ⟨r.written (.event eventId kind (!start) cycles) cursor, ?_⟩
      rw [record, if_neg (Bool.eq_false_iff.mp (h.on hv)), hpush, decide_eq_true hfree]
      rfl
  · rw [h.off_iff, hroom, hlength]
    omega

/-- A region has the size that its records need if that is a number of 64 bits. -/
theorem ofCapacity_of_lt (v : Overflow) {n : UInt64} (h : n.toNat * 16 < UInt64.size) :
    ∃ capacity : UInt64, capacity.toNat = n.toNat * 16
      ∧ ofCapacity v n = some (ofHeader goodMagic 0 capacity) := by
  refine ⟨.ofNat (n.toNat * 16), UInt64.toNat_ofNat_of_lt' h, ?_⟩
  have hmul : v.mul n recordBytes = some (.ofNat (n.toNat * 16)) := v.fit_of_lt h
  rw [ofCapacity, hmul]
  rfl

theorem holdsFirst_of_size {capacity : UInt64} {n : Nat} (v : Overflow) (hsize : capacity.toNat = n * 16)
    (hc : c.isInit = true) (calls : List Call) :
    ∃ r, (ofHeader goodMagic 0 capacity).afterAll v (c :: calls) = some r
      ∧ r.HoldsFirst v n (c :: calls) := by
  have hroom : (ofHeader goodMagic 0 capacity).room = n := by
    rw [room_ofHeader rfl, hsize]
    change (n * 16 - 0 + 15) / 16 = n
    omega
  have hwhole : (ofHeader goodMagic 0 capacity).Whole :=
    ⟨Nat.zero_le _, n, hsize.trans (Nat.mul_comm n 16)⟩
  cases hv : (ofHeader goodMagic 0 capacity).isValid with
  | false =>
    -- a region for no records is switched off by the task
    have hzero : n = 0 := hroom ▸ room_of_invalid hv
    have hsettled := settled_switchedOff hv
    refine ⟨{ ofHeader goodMagic 0 capacity with off := true }, ?_, ?_⟩
    · rw [afterAll, after_init_of_invalid hv hc]
      exact hsettled.afterAll_of_invalid hv calls
    · refine hsettled.holdsFirst ⟨hwhole.le, hwhole.dvd⟩ ?_ ?_
      · rw [hzero, List.take_zero]
        rfl
      · rw [hzero, Nat.zero_sub]
        exact room_of_invalid hv
  | true =>
    have hstart := settled_ofHeader (isValid_ofHeader.mp hv)
    obtain ⟨r, hrun, hend⟩ := hstart.exists_run hwhole v (c :: calls)
    obtain ⟨hrecords, hsettled, hleft⟩ := hstart.run (.inr hwhole) hrun
    rw [hroom] at hrecords hleft
    exact ⟨r, hrun, hsettled.holdsFirst hend (hrecords.trans (List.map_take ..)) hleft⟩

/-! ### Switched off for good -/

/-- A region is switched on as long as it is valid. -/
def OnWhileValid (r : ProfilingRing) : Prop := r.off = true → r.isValid = false

theorem Settled.onWhileValid (h : r.Settled) : r.OnWhileValid := by
  intro hoff
  rw [h, Bool.not_eq_true'] at hoff
  exact hoff

theorem OnWhileValid.settled (h : r.OnWhileValid) (hoff : r.off = true) : r.Settled := by
  rw [Settled, hoff, h hoff]
  rfl

theorem OnWhileValid.step (h : r.OnWhileValid) (hr' : r.after v c = some r') : r'.OnWhileValid := by
  rcases after_cases hr' with ⟨cursor, -, rfl⟩ | ⟨hleft, rfl⟩
  · exact (settled_written rfl c.wanted cursor).onWhileValid
  · intro _
    rcases hleft with hoff | hv
    · exact h hoff
    · exact hv

theorem OnWhileValid.run (h : r.OnWhileValid) (hrun : r.afterAll v calls = some r') : r'.OnWhileValid := by
  induction calls generalizing r with
  | nil =>
    cases hrun
    exact h
  | cons c calls ih =>
    obtain ⟨s, hs, hrest⟩ := afterAll_cons hrun
    exact ih (h.step hs) hrest

/-- CORRECT: a region for `n` records, fewer than `2 ^ 60` so that their bytes are a number of 64 bits, on
which a task is started first holds the first `n` records that are asked for, and switches itself off with
the last of them. Whatever its header, a region that has switched itself off stays off and keeps its records,
also if tasks are started. -/
theorem holds_first_for_good :
    (∀ (v : Overflow) (n : UInt64) (taskId : UInt32) (unit : UInt8) (cycles : UInt64) (calls : List Call),
      n.toNat * recordBytes.toNat < UInt64.size →
      ∃ fresh r, ofCapacity v n = some fresh
        ∧ fresh.afterAll v (.init taskId unit cycles :: calls) = some r
        ∧ r.HoldsFirst v n.toNat (.init taskId unit cycles :: calls)) ∧
    ∀ (v : Overflow) (magic cursor capacity : UInt64) (calls more : List Call) (r : ProfilingRing),
      (ofHeader magic cursor capacity).afterAll v calls = some r → r.off = true →
      ∃ r', (ofHeader magic cursor capacity).afterAll v (calls ++ more) = some r'
        ∧ r'.off = true ∧ r'.records = r.records := by
  constructor
  · intro v n taskId unit cycles calls hn
    obtain ⟨capacity, hsize, hfresh⟩ := ofCapacity_of_lt v hn
    obtain ⟨r, hrun, hholds⟩ := holdsFirst_of_size (c := .init taskId unit cycles) v hsize rfl calls
    exact ⟨_, r, hfresh, hrun, hholds⟩
  · intro v magic cursor capacity calls more r hrun hoff
    have hstart : (ofHeader magic cursor capacity).OnWhileValid := fun h => by cases h
    have hvalid : r.OnWhileValid := hstart.run hrun
    refine ⟨r, ?_, hoff, rfl⟩
    rw [afterAll_append, hrun]
    exact (hvalid.settled hoff).afterAll_of_invalid (hvalid hoff) more

/-- A task with one record. -/
def recordedTask : List Call := [.init 1 0 0, .record 1 .subOperator true 10]

/-- What the task leaves of a region with half a record too little. -/
def halfRecorded : ProfilingRing :=
  ⟨goodMagic, 32, 24, true, [.taskHeader 1 0 0, .event 1 .subOperator false 10]⟩

/-- A region for three records holds two of a task; one that is left with half a record is switched off by
it, and another task does not change it. -/
theorem half_record_for_good :
    (∃ fresh r, ofCapacity .stops 3 = some fresh ∧ fresh.afterAll .stops recordedTask = some r
      ∧ r.HoldsFirst .stops 3 recordedTask) ∧
    (ofHeader goodMagic 0 24).afterAll .stops recordedTask = some halfRecorded ∧
    ∃ r', (ofHeader goodMagic 0 24).afterAll .stops (recordedTask ++ recordedTask) = some r'
      ∧ r'.off = true ∧ r'.records = halfRecorded.records :=
  ⟨holds_first_for_good.1 .stops 3 1 0 0 [.record 1 .subOperator true 10] (by decide), by decide,
    holds_first_for_good.2 .stops goodMagic 0 24 recordedTask recordedTask halfRecorded (by decide)
      (by decide)⟩

/-- A region for `2 ^ 60` records needs `2 ^ 64` bytes: it does not come into being, or it has none at all
and keeps no record. -/
theorem sixteen_exbibytes_keep_nothing :
    ofCapacity .stops 0x1000000000000000 = none ∧
    ∃ fresh r, ofCapacity .wraps 0x1000000000000000 = some fresh
      ∧ fresh.afterAll .wraps recordedTask = some r ∧ r.records = []
      ∧ ¬r.HoldsFirst .wraps 0x1000000000000000 recordedTask := by
  refine ⟨by decide, ofHeader goodMagic 0 0, ⟨goodMagic, 0, 0, true, []⟩, by decide, by decide, rfl, ?_⟩
  intro h
  have hrecords := h.records
  rw [List.take_of_length_le (by decide)] at hrecords
  cases hrecords

end ProfilingRing

end KernelFusion
