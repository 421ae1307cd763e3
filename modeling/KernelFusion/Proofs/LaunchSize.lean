import KernelFusion.Proofs.DynamicClasses
import KernelFusion.Proofs.FeedSize
import KernelFusion.Proofs.StoreCalls

/-!
The units that a launch takes.

Every operator is checked against the hardware on its own. A launch covers all of them with blocks of
one kind, so in a domain it can take more units than any of its operators needs: where cube and vector
units come in one block, a domain that needs many blocks takes units of the other one as well. What is
taken is known from the largest need in each domain, without the flags of the kernel types.

        vector needs ≤ cube needs      blocks of 1 cube and 1 vector unit
        vector needs > cube needs      blocks of 1 cube and 2 vector units
-/

namespace KernelFusion

theorem Domain.forall_iff {p : Domain → Prop} : (∀ d, p d) ↔ p .cube ∧ p .vector := by
  constructor
  · intro h
    exact ⟨h .cube, h .vector⟩
  · rintro ⟨hcube, hvector⟩ d
    cases d
    · exact hcube
    · exact hvector

/-- Units of a domain in one block. -/
def KernelType.unitsIn (t : KernelType) : Domain → Nat
  | .cube => t.ratio.1
  | .vector => t.ratio.2

theorem MixRecord.toNat_ratio (kernelName : String) (t : KernelType) (d : Domain) :
    ((ofKernel kernelName t).ratio d).toNat = t.unitsIn d := by
  cases t <;> cases d <;> rfl

/-! ### Kernel type and blocks without flags -/

namespace LaunchShape

variable {ops : List Operator} {o : Operator} {d : Domain}

theorem flagsOf_not_mem_flagsWithout (h : o ∈ ops) (hd : d ∈ o.affinity.domains) :
    flagsOf ops ∉ flagsWithout d := by
  intro hflags
  have hcovers : d ∈ (resolve (flagsOf ops) 0 0).1.affinity.domains :=
    resolve_covers (flag_or_flagsOf h) hd
  exact not_mem_resolve hflags hcovers

/-- Where all operators have as many vector as cube units in a block, both domains need the same. -/
theorem maxVector_le_of_flagsOf (h : flagsOf ops = KernelType.mixAic11.flag) :
    maxUnitsOf ops .vector ≤ maxUnitsOf ops .cube := by
  refine maxUnitsOf_le_iff.mpr fun o ho => ?_
  have htype : o.kernelType = .mixAic11 := by
    have hflag := h ▸ flag_or_flagsOf ho
    revert hflag
    cases o.kernelType <;> decide
  have hsame : o.requiredUnits .vector = o.requiredUnits .cube := by
    simp [Operator.requiredUnits, Operator.affinity, htype, KernelType.affinity, Affinity.contains,
      Affinity.domains]
  exact hsame ▸ requiredUnits_le_maxUnitsOf ho

theorem resolve_of_both {flags maxCube maxVector : Nat} (hcube : flags ∉ flagsWithout .cube)
    (hvector : flags ∉ flagsWithout .vector)
    (hequal : flags = KernelType.mixAic11.flag → maxVector ≤ maxCube) :
    resolve flags maxCube maxVector = if maxVector ≤ maxCube then (.mixAic11, maxCube)
      else (.mixAic12, max maxCube ((maxVector + 1) / 2)) := by
  unfold resolve
  split <;> first
    | rfl
    | exact absurd (by decide) hcube
    | exact absurd (by decide) hvector
    | exact (if_pos (hequal rfl)).symm

/-- Kernel type and blocks of operators, from the domains that they declare and their largest needs. -/
def covering (ops : List Operator) : KernelType × Nat :=
  if ∀ o ∈ ops, .cube ∉ o.affinity.domains then (.mixAiv10, maxUnitsOf ops .vector)
  else if ∀ o ∈ ops, .vector ∉ o.affinity.domains then (.mixAic10, maxUnitsOf ops .cube)
  else if maxUnitsOf ops .vector ≤ maxUnitsOf ops .cube then (.mixAic11, maxUnitsOf ops .cube)
  else (.mixAic12, max (maxUnitsOf ops .cube) ((maxUnitsOf ops .vector + 1) / 2))

theorem blocksOf_eq_covering (hne : ops ≠ []) : blocksOf ops = covering ops := by
  unfold blocksOf covering
  by_cases hcube : ∀ o ∈ ops, .cube ∉ o.affinity.domains
  · rw [if_pos hcube]
    have hflags := flagsOf_mem_flagsWithout hne hcube
    simp only [flagsWithout, List.mem_cons, List.not_mem_nil, or_false] at hflags
    rcases hflags with h | h | h <;> rw [h] <;> rfl
  by_cases hvector : ∀ o ∈ ops, .vector ∉ o.affinity.domains
  · rw [if_neg hcube, if_pos hvector]
    have hflags := flagsOf_mem_flagsWithout hne hvector
    simp only [flagsWithout, List.mem_cons, List.not_mem_nil, or_false] at hflags
    rcases hflags with h | h | h <;> rw [h] <;> rfl
  · rw [if_neg hcube, if_neg hvector]
    push Not at hcube hvector
    obtain ⟨o, ho, hd⟩ := hcube
    obtain ⟨o', ho', hd'⟩ := hvector
    exact resolve_of_both (flagsOf_not_mem_flagsWithout ho hd) (flagsOf_not_mem_flagsWithout ho' hd')
      maxVector_le_of_flagsOf

theorem of_eq_covering {feedSyncAll : Bool} {s : LaunchShape} (hne : ops ≠ [])
    (h : of ops feedSyncAll = some s) :
    s.kernelType = (covering ops).1 ∧ s.blockDim = (covering ops).2 := by
  rw [of_eq_some h, ← blocksOf_eq_covering hne]
  exact ⟨rfl, rfl⟩

/-! ### Units of the hardware -/

/-- The hardware has the units for blocks that cover all operators. A block has one cube unit with one or
two vector units, so that the needs in each domain take units of the other as well. -/
def Resident (u : Units) (ops : List Operator) : Prop :=
  (∃ o ∈ ops, .cube ∈ o.affinity.domains) → (∃ o ∈ ops, .vector ∈ o.affinity.domains) →
    if maxUnitsOf ops .vector ≤ maxUnitsOf ops .cube then ∀ o ∈ ops, o.requiredUnits .cube ≤ u.vector
    else ∀ o ∈ ops, 2 * o.requiredUnits .cube ≤ u.vector ∧ o.requiredUnits .vector ≤ 2 * u.cube ∧
      o.requiredUnits .vector ≤ 2 * (u.vector / 2)

/-- Hardware with two vector units for each cube unit has the units for all operators that fit. -/
theorem resident_of_double {u : Units} (hu : u.vector = 2 * u.cube) (h : ∀ o ∈ ops, o.Fits u) :
    Resident u ops := by
  have hfits : ∀ o ∈ ops, o.requiredUnits .cube ≤ u.cube ∧ o.requiredUnits .vector ≤ u.vector :=
    fun o ho => ⟨(h o ho).units .cube, (h o ho).units .vector⟩
  intro _ _
  split
  · intro o ho
    have := hfits o ho
    omega
  · intro o ho
    have := hfits o ho
    omega

/-- The blocks that cover operators which all fit take no more than there is, if they are resident. -/
theorem covering_le_iff {u : Units} (h : ∀ o ∈ ops, o.Fits u) :
    (∀ d, (covering ops).2 * (covering ops).1.unitsIn d ≤ u.get d) ↔ Resident u ops := by
  have hcube : maxUnitsOf ops .cube ≤ u.cube := maxUnitsOf_le_iff.mpr fun o ho => (h o ho).units .cube
  have hvector : maxUnitsOf ops .vector ≤ u.vector :=
    maxUnitsOf_le_iff.mpr fun o ho => (h o ho).units .vector
  rw [Domain.forall_iff, covering]
  split
  next hnone =>
    refine iff_of_true ⟨Nat.zero_le _, by simpa [KernelType.unitsIn, KernelType.ratio, Units.get] using hvector⟩ ?_
    rintro ⟨o, ho, hd⟩
    exact absurd hd (hnone o ho)
  split
  next hnone =>
    refine iff_of_true ⟨by simpa [KernelType.unitsIn, KernelType.ratio, Units.get] using hcube, Nat.zero_le _⟩ ?_
    rintro _ ⟨o, ho, hd⟩
    exact absurd hd (hnone o ho)
  next hsome hsome' =>
    -- Both domains occur, so that what is asked of every operator is asked of the largest need.
    push Not at hsome hsome'
    rw [Resident, forall_prop_of_true hsome, forall_prop_of_true hsome']
    split
    next => simp [KernelType.unitsIn, KernelType.ratio, Units.get, hcube, maxUnitsOf_le_iff]
    next =>
      have htwice : (∀ o ∈ ops, 2 * o.requiredUnits .cube ≤ u.vector) ↔
          maxUnitsOf ops .cube ≤ u.vector / 2 := by
        rw [maxUnitsOf_le_iff]
        exact forall₂_congr fun o _ => by omega
      simp only [forall₂_and, htwice, ← maxUnitsOf_le_iff, KernelType.unitsIn, KernelType.ratio, Units.get]
      omega

end LaunchShape

/-! ### Kernels of accepted requests -/

/-- Units of a domain that the launch of a kernel takes. -/
def FusedKernel.unitsOf (k : FusedKernel) (d : Domain) : Nat := k.blockDim * (k.record.ratio d).toNat

/-- Operators are taken only if they fit. -/
theorem Launch.Accepted.fits {l : Launch} {u : Units} {ops : List Operator} {fusion : Bool}
    (h : l.Accepted u ops fusion) : ∀ o ∈ ops, o.Fits u := by
  obtain ⟨g, hadd, _⟩ := h.connected
  intro o ho
  exact Graph.admits_iff.mp ((Graph.addOperators_ok_iff.mp hadd).1 o ho)

namespace Generator

variable {r : Request} {l : Launch} {k : FusedKernel} {body : KernelBody} {stats : SyncStats}

/-- The shape of a launch covers operators that are its own and fit its hardware. -/
theorem launch_covering (h : launch r = .ok l) : ∃ ops, Options.parse r.options = .ok l.options ∧
    Operator.ofDescriptors l.options (units r l.options) 0 r.operators = .ok ops ∧
    l.graph.operators = ops ∧ (∀ o ∈ ops, o.Fits (units r l.options)) ∧
    l.shape.maxCube = LaunchShape.maxUnitsOf ops .cube ∧
    l.shape.maxVector = LaunchShape.maxUnitsOf ops .vector ∧
    (l.shape.kernelType, l.shape.blockDim) = LaunchShape.covering ops := by
  obtain ⟨ops, hparse, hcheck, hops, haccepted, hshape⟩ := launch_resolved h
  have hne : ops ≠ [] := Operator.ofDescriptors_ne_nil hops (Request.operators_ne_nil hcheck)
  refine ⟨ops, hparse, hops, haccepted.spec.1, haccepted.fits, ?_, ?_, ?_⟩
  · rw [LaunchShape.of_eq_some hshape, LaunchShape.fedBy]
  · rw [LaunchShape.of_eq_some hshape, LaunchShape.fedBy]
  · obtain ⟨htype, hblocks⟩ := LaunchShape.of_eq_covering hne hshape
    exact Prod.ext htype hblocks

theorem unitsOf_kernel (d : Domain) :
    (kernel l body stats).unitsOf d = l.shape.blockDim * l.shape.kernelType.unitsIn d := by
  rw [FusedKernel.unitsOf, kernel, MixRecord.toNat_ratio]

/-- CORRECT (exact condition): all operators of an accepted request fit the hardware, each on its own. The
launch that covers them fits it exactly if they are resident. -/
theorem kernel_resident_iff (h : generate r = .ok k) : ∃ o ops, Options.parse r.options = .ok o ∧
    Operator.ofDescriptors o (units r o) 0 r.operators = .ok ops ∧ (∀ op ∈ ops, op.Fits (units r o)) ∧
    ((∀ d, k.unitsOf d ≤ (units r o).get d) ↔ LaunchShape.Resident (units r o) ops) := by
  obtain ⟨l, body, stats, hl, _, rfl⟩ := generate_ok_iff.mp h
  obtain ⟨ops, hparse, hops, _, hfits, _, _, hcovering⟩ := launch_covering hl
  obtain ⟨htype, hblocks⟩ := Prod.mk.inj hcovering
  refine ⟨l.options, ops, hparse, hops, hfits, ?_⟩
  simp only [unitsOf_kernel, htype, hblocks]
  exact LaunchShape.covering_le_iff hfits

/-- Operators that need all units of the usual machine. -/
def fullRequest : Request :=
  .ofOperators "" [{ OperatorDescriptor.onStream 0 "first" .aicOnly [] [] with blockDim := 24 },
    { OperatorDescriptor.onStream 0 "second" .aivOnly [] [] with blockDim := 48 }]

/-- The launch takes every unit of the machine, and no more. -/
theorem fullRequest_resident : ∃ k o, generate fullRequest = .ok k ∧
    Options.parse fullRequest.options = .ok o ∧ units fullRequest o = ⟨24, 48⟩ ∧
    k.unitsOf .cube = 24 ∧ k.unitsOf .vector = 48 ∧ ∀ d, k.unitsOf d ≤ (units fullRequest o).get d := by
  obtain ⟨l, body, stats, hl, hschedule, htest⟩ : ∃ l body stats, launch fullRequest = .ok l ∧
      schedule l = .ok (body, stats) ∧ decide (units fullRequest l.options = ⟨24, 48⟩ ∧
        l.shape.kernelType = .mixAic12 ∧ l.shape.blockDim = 24) = true :=
    exists_schedule_of_test (by decide +kernel)
  obtain ⟨hunits, htype, hblocks⟩ := of_decide_eq_true htest
  have hk : generate fullRequest = .ok (kernel l body stats) :=
    generate_ok_iff.mpr ⟨l, body, stats, hl, hschedule, rfl⟩
  obtain ⟨o, ops, hparse, _, hfits, hiff⟩ := kernel_resident_iff hk
  obtain ⟨_, hoptions, _⟩ := launch_covering hl
  cases hoptions.symm.trans hparse
  refine ⟨_, _, hk, hparse, hunits, ?_, ?_, hiff.mpr (LaunchShape.resident_of_double ?_ hfits)⟩
  · rw [unitsOf_kernel, htype, hblocks]
    rfl
  · rw [unitsOf_kernel, htype, hblocks]
    rfl
  · simp [hunits]

/-- A machine with fewer than two vector units for each cube unit. -/
def narrowRequest : Request :=
  { Request.ofOperators "" [{ OperatorDescriptor.onStream 0 "first" .aicOnly [] [] with blockDim := 24 },
      { OperatorDescriptor.onStream 0 "second" .aivOnly [] [] with blockDim := 30 }] with
    hardware := ⟨24, 40⟩ }

/-- The request is accepted, and its launch takes 48 vector units where there are 40. -/
theorem narrowRequest_exceeds : ∃ k o, generate narrowRequest = .ok k ∧
    Options.parse narrowRequest.options = .ok o ∧ units narrowRequest o = ⟨24, 40⟩ ∧
    k.unitsOf .vector = 48 ∧ ¬∀ d, k.unitsOf d ≤ (units narrowRequest o).get d := by
  obtain ⟨l, body, stats, hl, hschedule, htest⟩ : ∃ l body stats, launch narrowRequest = .ok l ∧
      schedule l = .ok (body, stats) ∧ decide (units narrowRequest l.options = ⟨24, 40⟩ ∧
        l.shape.kernelType = .mixAic12 ∧ l.shape.blockDim = 24) = true :=
    exists_schedule_of_test (by decide +kernel)
  obtain ⟨hunits, htype, hblocks⟩ := of_decide_eq_true htest
  obtain ⟨_, hparse, _⟩ := launch_covering hl
  have hvector : (kernel l body stats).unitsOf .vector = 48 := by
    rw [unitsOf_kernel, htype, hblocks]
    rfl
  refine ⟨_, _, generate_ok_iff.mpr ⟨l, body, stats, hl, hschedule, rfl⟩, hparse, hunits, hvector, ?_⟩
  intro hall
  have hexceeds := hall .vector
  rw [hvector, hunits] at hexceeds
  exact absurd hexceeds (by decide)

end Generator

end KernelFusion
