import KernelFusion.Proofs.OptionOrder
import KernelFusion.Proofs.Tiling
import Mathlib.Data.Set.Operations
import Mathlib.Order.Bounds.Defs

/-!
The size of the area that the operators' own barriers are fed from.

A slice for every unit is doubled until all slices together hold more than is needed. Slices of no units
hold nothing, so that the loop ends exactly if there is a unit. A list of operators has one exactly if one
of them has a block, and every operator of a checked request has one: there the loop always ends.

        units   slice 512, 1024, 2048, …          needed
          3           1536 ── 3072 ── 6144         5000     ends with slices of 2048
          0              0 ──    0 ──    0 ── …    5000     never ends
-/

namespace KernelFusion

/-! ### The loop -/

namespace LaunchShape

variable {units needed slice last : Nat}

/-- The rounds of the loop: it stops where `units` slices hold more than `needed`, and doubles the slice
and goes on where they do not. -/
inductive Doubled (units needed : Nat) : Nat → Nat → Prop
  | stop {slice : Nat} (h : needed < units * slice) : Doubled units needed slice slice
  | again {slice last : Nat} (h : units * slice ≤ needed) (rest : Doubled units needed (2 * slice) last) :
    Doubled units needed slice last

theorem double_mul (units slice : Nat) : units * (2 * slice) = 2 * (units * slice) := Nat.mul_left_comm ..

/-- A loop that stops has slices that hold something. -/
theorem Doubled.pos (h : Doubled units needed slice last) : 0 < units * slice := by
  induction h with
  | stop h => exact Nat.zero_lt_of_lt h
  | again _ _ ih =>
    rw [double_mul] at ih
    exact Nat.pos_of_mul_pos_left ih

/-- A slice is found exactly if the loop stops, and then it is the one that the loop stops with. -/
theorem growSlice_eq_some_iff : growSlice units needed slice = some last ↔ Doubled units needed slice last := by
  constructor
  · intro h
    fun_induction growSlice units needed slice with
    | case1 slice hle _ ih => exact .again hle (ih h)
    | case2 => cases h
    | case3 slice hle =>
      cases Option.some.inj h
      exact .stop (Nat.lt_of_not_le hle)
  · intro h
    induction h with
    | stop h => rw [growSlice, dif_neg (Nat.not_le_of_lt h)]
    | again hle rest ih =>
      have hpos : 0 < units * _ := (Doubled.again hle rest).pos
      rw [growSlice, dif_pos hle, dif_pos hpos, ih]

/-- Where the loop stops, the slice was doubled as often as is needed and no more. -/
theorem Doubled.least (h : Doubled units needed slice last) :
    ∃ k, last = slice * 2 ^ k ∧ IsLeast {k | needed < units * (slice * 2 ^ k)} k := by
  induction h with
  | @stop slice h =>
    refine ⟨0, by rw [Nat.pow_zero, Nat.mul_one], ?_, fun j _ => Nat.zero_le j⟩
    rw [Set.mem_ofPred_eq, Nat.pow_zero, Nat.mul_one]
    exact h
  | @again slice last h _ ih =>
    obtain ⟨k, rfl, hmore, hleast⟩ := ih
    have hdouble : ∀ j, slice * 2 ^ (j + 1) = 2 * slice * 2 ^ j := fun j => by
      rw [Nat.pow_succ', Nat.mul_left_comm, Nat.mul_assoc]
    refine ⟨k + 1, by rw [hdouble], ?_, fun j hj => ?_⟩
    · rw [Set.mem_ofPred_eq, hdouble]
      exact hmore
    · cases j with
      | zero =>
        rw [Set.mem_ofPred_eq, Nat.pow_zero, Nat.mul_one] at hj
        exact absurd h (Nat.not_le.mpr hj)
      | succ j =>
        rw [Set.mem_ofPred_eq, hdouble] at hj
        exact Nat.succ_le_succ (hleast hj)

/-- Slices that hold something grow beyond every need. -/
theorem exists_doubled (h : 0 < units * slice) : ∃ last, Doubled units needed slice last := by
  fun_induction growSlice units needed slice with
  | case1 slice hle hpos ih =>
    obtain ⟨last, hlast⟩ := ih (by rw [double_mul]; omega)
    exact ⟨last, .again hle hlast⟩
  | case2 slice _ hzero => exact absurd h hzero
  | case3 slice hle => exact ⟨slice, .stop (Nat.lt_of_not_le hle)⟩

/-- No slice is found exactly if there are no bytes in any number of slices. -/
theorem growSlice_eq_none_iff : growSlice units needed slice = none ↔ units * slice = 0 := by
  constructor
  · intro h
    refine Nat.eq_zero_of_not_pos fun hpos => ?_
    obtain ⟨last, hlast⟩ : ∃ last, Doubled units needed slice last := exists_doubled hpos
    rw [growSlice_eq_some_iff.mpr hlast] at h
    cases h
  · intro h
    cases hgrow : growSlice units needed slice with
    | none => rfl
    | some last => exact absurd (growSlice_eq_some_iff.mp hgrow).pos (by omega)

theorem feedUnits_eq_zero_iff (t : KernelType) {blocks : Nat} : feedUnits t blocks = 0 ↔ blocks = 0 := by
  cases t
  case mixAic12 =>
    rw [feedUnits]
    omega
  all_goals exact Iff.rfl

theorem feedBytes_eq_none_iff {t : KernelType} {blocks operators : Nat} :
    feedBytes t blocks operators = none ↔ blocks = 0 := by
  rw [feedBytes, Option.map_eq_none_iff, growSlice_eq_none_iff, Nat.mul_eq_zero, feedUnits_eq_zero_iff]
  simp [feedBase]

/-- The bytes are slices for all units, of the least size by doubling that is more than enough. -/
theorem feedBytes_eq_some {t : KernelType} {blocks operators bytes : Nat}
    (h : feedBytes t blocks operators = some bytes) :
    ∃ k, IsLeast {k | 128 * operators < feedUnits t blocks * 512 * 2 ^ k} k ∧
      bytes = feedUnits t blocks * 512 * 2 ^ k := by
  obtain ⟨last, hgrow, rfl⟩ := Option.map_eq_some_iff.mp h
  obtain ⟨k, rfl, hleast⟩ := (growSlice_eq_some_iff.mp hgrow).least
  refine ⟨k, ?_, (Nat.mul_assoc _ _ _).symm⟩
  simp only [Nat.mul_assoc, Nat.mul_comm 128]
  exact hleast

/-! ### Operators with blocks -/

variable {ops : List Operator} {o : Operator} {d : Domain} {n : Nat}

theorem foldl_max_le_iff {m : Nat} : ops.foldl (fun n o => max n (o.requiredUnits d)) m ≤ n ↔
    m ≤ n ∧ ∀ o ∈ ops, o.requiredUnits d ≤ n := by
  induction ops generalizing m with
  | nil => simp
  | cons o ops ih => rw [List.foldl_cons, ih, Nat.max_le, List.forall_mem_cons, and_assoc]

theorem maxUnitsOf_le_iff : maxUnitsOf ops d ≤ n ↔ ∀ o ∈ ops, o.requiredUnits d ≤ n := by
  rw [maxUnitsOf, foldl_max_le_iff]
  exact and_iff_right (Nat.zero_le n)

theorem requiredUnits_le_maxUnitsOf (h : o ∈ ops) : o.requiredUnits d ≤ maxUnitsOf ops d :=
  maxUnitsOf_le_iff.mp (Nat.le_refl _) o h

/-- The primary domain of an operator has a unit for every block. -/
theorem blockCount_le_primary (o : Operator) : o.blockCount ≤ o.requiredUnits o.affinity.primary := by
  unfold Operator.requiredUnits Operator.affinity
  cases o.kernelType <;> exact Nat.le_refl _

/-- A need in the primary domain of a type that occurs is one for blocks. -/
theorem resolve_pos {flags : Nat} {need : Domain → Nat} {t : KernelType} (h : t.flag ||| flags = flags)
    (hneed : 0 < need t.affinity.primary) : 0 < (resolve flags (need .cube) (need .vector)).2 := by
  revert h hneed
  unfold resolve
  split
  case h_8 =>
    intro _ hneed
    have hsome : 0 < need .cube ∨ 0 < need .vector := by
      cases hd : t.affinity.primary <;> rw [hd] at hneed
      · exact .inl hneed
      · exact .inr hneed
    split <;> dsimp only <;> omega
  all_goals
    intro h hneed
    cases t <;> first
      | exact hneed
      | exact absurd h (by decide)

/-- There are blocks exactly if an operator has one. -/
theorem blocksOf_eq_zero_iff : (blocksOf ops).2 = 0 ↔ ∀ o ∈ ops, o.blockCount = 0 := by
  constructor
  · intro hzero o ho
    refine Nat.eq_zero_of_not_pos fun hpos => ?_
    have hneed : 0 < maxUnitsOf ops o.affinity.primary :=
      (hpos.trans_le (blockCount_le_primary o)).trans_le (requiredUnits_le_maxUnitsOf ho)
    exact absurd hzero (resolve_pos (flag_or_flagsOf ho) hneed).ne'
  · intro hzero
    have hnone : ∀ d, maxUnitsOf ops d = 0 := by
      refine fun d => Nat.le_zero.mp (maxUnitsOf_le_iff.mpr fun o ho => ?_)
      unfold Operator.requiredUnits
      split
      · split <;> simp [hzero o ho, doubleUnits]
      · exact Nat.le_refl 0
    rw [blocksOf, hnone, hnone]
    unfold resolve
    split <;> rfl

/-- A list of operators has no shape exactly if barriers are to be fed and no operator has a block. -/
theorem of_eq_none_iff {feedSyncAll : Bool} :
    of ops feedSyncAll = none ↔ feedSyncAll = true ∧ ∀ o ∈ ops, o.blockCount = 0 := by
  cases feedSyncAll with
  | false => simp [of]
  | true => simp [of, feedBytes_eq_none_iff, blocksOf_eq_zero_iff]

theorem of_eq_some_of_block {feedSyncAll : Bool} (ho : o ∈ ops) (hblock : 0 < o.blockCount) :
    ∃ s, of ops feedSyncAll = some s := by
  refine Option.ne_none_iff_exists'.mp fun hnone => ?_
  exact absurd ((of_eq_none_iff.mp hnone).2 o ho) hblock.ne'

end LaunchShape

/-! ### Requests -/

theorem Request.operators_ne_nil {r : Request} (h : r.check = .ok ()) : r.operators ≠ [] := by
  rw [check] at h
  obtain ⟨_, h⟩ := refuse_eq_ok h
  obtain ⟨hempty, _⟩ := refuse_eq_ok h
  exact fun hnil => hempty (List.isEmpty_iff.mpr hnil)

theorem Request.hardware_pos {r : Request} (h : r.check = .ok ()) :
    r.hardware.cubeUnits ≠ 0 ∧ r.hardware.vectorUnits ≠ 0 := by
  rw [check] at h
  obtain ⟨_, h⟩ := refuse_eq_ok h
  obtain ⟨_, h⟩ := refuse_eq_ok h
  obtain ⟨hunits, _⟩ := refuse_eq_ok h
  simpa using hunits

theorem OperatorDescriptor.blockDim_pos {d : OperatorDescriptor} (h : d.check = .ok ())
    (hstatic : d.isDynamic = false) : d.blockDim ≠ 0 := by
  rw [check] at h
  obtain ⟨_, h⟩ := refuse_eq_ok h
  obtain ⟨t, _, h⟩ := bind_eq_ok.mp h
  obtain ⟨_, hdispatch, _⟩ := bind_eq_ok.mp h
  intro hzero
  rw [checkDispatch, hstatic, if_neg Bool.false_ne_true, if_pos hzero] at hdispatch
  cases hdispatch

namespace Operator

theorem ofDescriptors_ne_nil {options : Options} {u : Units} {index : Nat}
    {ds : List OperatorDescriptor} {ops : List Operator} (h : ofDescriptors options u index ds = .ok ops)
    (hne : ds ≠ []) : ops ≠ [] := by
  cases ds with
  | nil => exact absurd rfl hne
  | cons d ds =>
    obtain ⟨first, _, h⟩ := bind_eq_ok.mp h
    obtain ⟨rest, _, h⟩ := bind_eq_ok.mp h
    cases Except.ok.inj h
    exact List.cons_ne_nil first rest

/-- An operator has the blocks of its descriptor, which are checked, or spans all units of a domain. -/
theorem blockCount_pos {options : Options} {u : Units} {index : Nat} {d : OperatorDescriptor}
    {o : Operator} (hu : ∀ domain, 0 < u.get domain) (hcheck : d.check = .ok ())
    (h : ofDescriptor options u index d = .ok o) : 0 < o.blockCount := by
  obtain ⟨_, hdispatch, _⟩ := ofDescriptor_eq_ok h
  unfold dispatchOf at hdispatch
  split at hdispatch
  next =>
    obtain ⟨entries, _, heq⟩ := bind_eq_ok.mp hdispatch
    rw [← (Prod.mk.inj (Except.ok.inj heq)).2]
    exact hu _
  next hstatic =>
    rw [← (Prod.mk.inj (Except.ok.inj hdispatch)).2]
    have hblock := OperatorDescriptor.blockDim_pos hcheck (Bool.eq_false_iff.mpr hstatic)
    exact Nat.pos_of_ne_zero fun hzero => hblock (UInt32.toNat_inj.mp hzero)

end Operator

namespace Generator

variable {r : Request} {o : Options} {ops : List Operator}

theorem units_pos (ho : Options.parse r.options = .ok o) (hcheck : r.check = .ok ()) (d : Domain) :
    0 < (units r o).get d := by
  obtain ⟨hcube, hvector⟩ := Request.hardware_pos hcheck
  have hpos : ∀ {n : UInt32}, n ≠ 0 → 0 < n.toNat := fun hn =>
    Nat.pos_of_ne_zero fun hzero => hn (UInt32.toNat_inj.mp hzero)
  have hsound := Options.parse_sound ho
  cases d with
  | cube =>
    rw [units, Units.get]
    cases hc : o.cubeUnits with
    | none => exact hpos hcube
    | some n => exact hsound.cubeUnits n hc
  | vector =>
    rw [units, Units.get]
    cases hv : o.vectorUnits with
    | none => exact hpos hvector
    | some n => exact hsound.vectorUnits n hv

/-- The sizing loop ends for all operators that come from a request: the shape is always found. -/
theorem shape_found (ho : Options.parse r.options = .ok o) (hcheck : r.check = .ok ())
    (hops : Operator.ofDescriptors o (units r o) 0 r.operators = .ok ops) (feedSyncAll : Bool) :
    ∃ s, LaunchShape.of ops feedSyncAll = some s := by
  obtain ⟨op, hop⟩ := List.exists_mem_of_ne_nil _
    (Operator.ofDescriptors_ne_nil hops (Request.operators_ne_nil hcheck))
  obtain ⟨d, hd, i, hofDescriptor⟩ := Operator.ofDescriptors_mem hops hop
  exact LaunchShape.of_eq_some_of_block hop (Operator.blockCount_pos (units_pos ho hcheck)
    (Request.check_operators hcheck d hd) hofDescriptor)

end Generator

end KernelFusion
