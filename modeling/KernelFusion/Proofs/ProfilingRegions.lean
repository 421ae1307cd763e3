import KernelFusion.Proofs.UnitSupply

/-!
Which units have a profiling region of their own.

Vector units are numbered through all blocks, cube units from a fixed number on. Up to that number of
vector units, all regions are apart; with more of them, the first cube units share theirs.

        regions         0  1  …  49  50  51  …
        vector units    0  1  …  49  50  51
        cube units                    0   1  …
-/

namespace KernelFusion

/-- A unit of a launch, by its block and its number among those of its domain in the block. -/
structure LaunchUnit where
  domain : Domain
  block : Nat
  lane : Nat
  deriving DecidableEq

namespace FusedKernel

variable {k : FusedKernel} {u v : LaunchUnit}

/-- The launch of a kernel runs on the unit. -/
structure Runs (k : FusedKernel) (u : LaunchUnit) : Prop where
  block : u.block < k.blockDim
  lane : u.lane < (k.record.ratio u.domain).toNat

/-- The profiling region of a unit. -/
def region (k : FusedKernel) (u : LaunchUnit) : Nat :=
  profilingUnit u.domain u.block (k.record.ratio .vector).toNat u.lane

/-- No two units of a launch share a region. -/
def RegionsApart (k : FusedKernel) : Prop := ∀ u v, k.Runs u → k.Runs v → k.region u = k.region v → u = v

theorem region_of_vector (hd : u.domain = .vector) :
    k.region u = u.block * (k.record.ratio .vector).toNat + u.lane := by
  rw [region, hd]
  rfl

theorem region_of_cube (hd : u.domain = .cube) : k.region u = u.block + cubeUnitBase := by
  rw [region, hd]
  rfl

/-- Vector units are numbered through all blocks. -/
theorem Runs.region_lt (h : k.Runs u) (hd : u.domain = .vector) : k.region u < k.unitsOf .vector := by
  have hlane : u.lane < (k.record.ratio .vector).toNat := hd ▸ h.lane
  calc k.region u = u.block * (k.record.ratio .vector).toNat + u.lane := region_of_vector hd
    _ < (u.block + 1) * (k.record.ratio .vector).toNat := by rw [Nat.succ_mul]; omega
    _ ≤ k.unitsOf .vector := Nat.mul_le_mul_right _ h.block

theorem Runs.eq_of_vector (hu : k.Runs u) (hv : k.Runs v) (hdu : u.domain = .vector)
    (hdv : v.domain = .vector) (h : k.region u = k.region v) : u = v := by
  have hlu : u.lane < (k.record.ratio .vector).toNat := hdu ▸ hu.lane
  have hlv : v.lane < (k.record.ratio .vector).toNat := hdv ▸ hv.lane
  rw [region_of_vector hdu, region_of_vector hdv] at h
  have hlane : u.lane = v.lane :=
    calc u.lane = (u.block * (k.record.ratio .vector).toNat + u.lane) % (k.record.ratio .vector).toNat := by
          rw [Nat.mul_add_mod_of_lt hlu]
      _ = v.lane := by rw [h, Nat.mul_add_mod_of_lt hlv]
  have hblock : u.block = v.block := by
    rw [hlane] at h
    exact Nat.eq_of_mul_eq_mul_right (Nat.zero_lt_of_lt hlu) (Nat.add_right_cancel h)
  cases u
  cases v
  simp_all

/-- A block has one cube unit at most. -/
theorem Runs.eq_of_cube (hone : (k.record.ratio .cube).toNat ≤ 1) (hu : k.Runs u) (hv : k.Runs v)
    (hdu : u.domain = .cube) (hdv : v.domain = .cube) (h : k.region u = k.region v) : u = v := by
  have hlu : u.lane < (k.record.ratio .cube).toNat := hdu ▸ hu.lane
  have hlv : v.lane < (k.record.ratio .cube).toNat := hdv ▸ hv.lane
  rw [region_of_cube hdu, region_of_cube hdv] at h
  have hblock : u.block = v.block := Nat.add_right_cancel h
  have hlane : u.lane = v.lane := by omega
  cases u
  cases v
  simp_all

/-- Every number below that of all vector units is the region of one. -/
theorem exists_vector_unit {n : Nat} (h : n < k.unitsOf .vector) :
    ∃ u, k.Runs u ∧ u.domain = .vector ∧ k.region u = n := by
  have hratio : 0 < (k.record.ratio .vector).toNat :=
    Nat.pos_of_ne_zero fun hzero => by simp [unitsOf, hzero] at h
  refine ⟨⟨.vector, n / (k.record.ratio .vector).toNat, n % (k.record.ratio .vector).toNat⟩,
    ⟨?_, Nat.mod_lt n hratio⟩, rfl, ?_⟩
  · exact (Nat.div_lt_iff_lt_mul hratio).mpr h
  · rw [region_of_vector rfl]
    exact Nat.div_add_mod' n _

/-- Regions are apart if there are no cube units, or the vector units stay below the first of them. -/
theorem regionsApart_iff (hone : (k.record.ratio .cube).toNat ≤ 1) :
    k.RegionsApart ↔ k.record.ratio .cube = 0 ∨ k.unitsOf .vector ≤ cubeUnitBase := by
  constructor
  · intro hapart
    by_contra hshared
    push Not at hshared
    obtain ⟨hcube, hmany⟩ := hshared
    obtain ⟨u, hu, hdomain, hregion⟩ := exists_vector_unit hmany
    have hlane : 0 < (k.record.ratio .cube).toNat :=
      Nat.pos_of_ne_zero fun hzero => hcube (UInt16.toNat_inj.mp hzero)
    have hfirst : k.Runs ⟨.cube, 0, 0⟩ := ⟨Nat.zero_lt_of_lt hu.block, hlane⟩
    have hsame : k.region u = k.region ⟨.cube, 0, 0⟩ := by
      rw [hregion, region_of_cube rfl, Nat.zero_add]
    rw [hapart u ⟨.cube, 0, 0⟩ hu hfirst hsame] at hdomain
    cases hdomain
  · intro hfew u v hu hv h
    -- a cube unit is a unit of the launch only if the launch has cube units at all
    have hbelow : ∀ w, k.Runs w → w.domain = .cube → k.unitsOf .vector ≤ cubeUnitBase := by
      intro w hw hd
      refine hfew.resolve_left fun hzero => ?_
      have hlane := hw.lane
      rw [hd, hzero] at hlane
      exact absurd hlane (Nat.not_lt_zero _)
    cases hdu : u.domain <;> cases hdv : v.domain
    · exact hu.eq_of_cube hone hv hdu hdv h
    · have := hbelow u hu hdu
      have := hv.region_lt hdv
      rw [region_of_cube hdu] at h
      omega
    · have := hbelow v hv hdv
      have := hu.region_lt hdu
      rw [region_of_cube hdv] at h
      omega
    · exact hu.eq_of_vector hv hdu hdv h

end FusedKernel

namespace Generator

variable {r : Request} {k : FusedKernel}

theorem ratio_cube_le (h : generate r = .ok k) : (k.record.ratio .cube).toNat ≤ 1 := by
  obtain ⟨l, body, stats, _, _, rfl⟩ := generate_ok_iff.mp h
  rw [kernel, MixRecord.toNat_ratio]
  exact KernelType.unitsIn_cube_le _

/-- CORRECT (exact condition): no two units of the launch of an accepted request share a profiling region,
exactly if it runs on vector units alone or on no more of them than there are numbers in front of the cube
units. -/
theorem regions_apart_iff (h : generate r = .ok k) :
    k.RegionsApart ↔ k.record.ratio .cube = 0 ∨ k.unitsOf .vector ≤ cubeUnitBase :=
  FusedKernel.regionsApart_iff (ratio_cube_le h)

/-- No request for a machine of usual size has a region that is shared: the blocks that cover its operators
have at most two vector units for each cube unit, or one more than there are. -/
theorem regionsApart_of_units (h : generate r = .ok k) {o : Options} (ho : Options.parse r.options = .ok o)
    (hcube : 2 * (units r o).cube ≤ cubeUnitBase) (hvector : (units r o).vector ≤ cubeUnitBase) :
    k.RegionsApart := by
  refine (FusedKernel.regionsApart_iff (ratio_cube_le h)).mpr ?_
  obtain ⟨l, body, stats, hl, _, rfl⟩ := generate_ok_iff.mp h
  obtain ⟨ops, hparse, _, _, hfits, _, _, hcovering⟩ := launch_covering hl
  obtain rfl := Except.ok.inj (ho.symm.trans hparse)
  have htype : l.shape.kernelType = (LaunchShape.covering ops).1 := congrArg Prod.fst hcovering
  have hblocks : l.shape.blockDim = (LaunchShape.covering ops).2 := congrArg Prod.snd hcovering
  have hmaxCube : LaunchShape.maxUnitsOf ops .cube ≤ (units r l.options).cube :=
    LaunchShape.maxUnitsOf_le_iff.mpr fun o ho => (hfits o ho).units .cube
  have hmaxVector : LaunchShape.maxUnitsOf ops .vector ≤ (units r l.options).vector :=
    LaunchShape.maxUnitsOf_le_iff.mpr fun o ho => (hfits o ho).units .vector
  refine .inr ?_
  rw [unitsOf_kernel, htype, hblocks, LaunchShape.covering]
  simp only [cubeUnitBase] at hcube hvector ⊢
  split_ifs <;> simp only [KernelType.unitsIn, KernelType.ratio] <;> omega

/-- Mixed operators with two vector units in a block, profiled, on a machine that they fill. -/
def profiledRequest (blocks : UInt32) : Request :=
  { Request.ofOperators "profiling=1"
      [{ OperatorDescriptor.onStream 0 "first" .mixAic12 [] [] with blockDim := blocks }] with
    hardware := ⟨blocks, 2 * blocks⟩ }

/-- With 50 vector units, the last region of them is in front of the first cube unit. -/
theorem profiledRequest_apart : ∃ k, generate (profiledRequest 25) = .ok k ∧ k.table.profiling = some 1 ∧
    k.unitsOf .cube = 25 ∧ k.unitsOf .vector = 50 ∧ k.RegionsApart := by
  obtain ⟨l, body, stats, hl, hschedule, htest⟩ : ∃ l body stats, launch (profiledRequest 25) = .ok l ∧
      schedule l = .ok (body, stats) ∧ decide (l.table.profiling = some 1 ∧
        l.shape.kernelType = .mixAic12 ∧ l.shape.blockDim = 25) = true :=
    exists_schedule_of_test (by decide +kernel)
  obtain ⟨hprofiling, htype, hblocks⟩ := of_decide_eq_true htest
  have hk : generate (profiledRequest 25) = .ok (kernel l body stats) :=
    generate_ok_iff.mpr ⟨l, body, stats, hl, hschedule, rfl⟩
  have hvector : (kernel l body stats).unitsOf .vector = 50 := by
    rw [unitsOf_kernel, htype, hblocks]
    rfl
  refine ⟨_, hk, hprofiling, ?_, hvector, (regions_apart_iff hk).mpr (.inr hvector.le)⟩
  rw [unitsOf_kernel, htype, hblocks]
  rfl

/-- With 52 of them, the first vector unit of the last block shares its region with the first cube unit. -/
theorem profiledRequest_shared : ∃ k, generate (profiledRequest 26) = .ok k ∧ k.table.profiling = some 1 ∧
    k.Runs ⟨.cube, 0, 0⟩ ∧ k.Runs ⟨.vector, 25, 0⟩ ∧
    k.region ⟨.cube, 0, 0⟩ = k.region ⟨.vector, 25, 0⟩ := by
  obtain ⟨l, body, stats, hl, hschedule, htest⟩ : ∃ l body stats, launch (profiledRequest 26) = .ok l ∧
      schedule l = .ok (body, stats) ∧ decide (l.table.profiling = some 1 ∧
        l.shape.kernelType = .mixAic12 ∧ l.shape.blockDim = 26) = true :=
    exists_schedule_of_test (by decide +kernel)
  obtain ⟨hprofiling, htype, hblocks⟩ := of_decide_eq_true htest
  have hdim : (kernel l body stats).blockDim = 26 := hblocks
  have hratio : ∀ d, ((kernel l body stats).record.ratio d).toNat = KernelType.mixAic12.unitsIn d := by
    intro d
    rw [kernel, MixRecord.toNat_ratio, htype]
  refine ⟨_, generate_ok_iff.mpr ⟨l, body, stats, hl, hschedule, rfl⟩, hprofiling, ⟨?_, ?_⟩, ⟨?_, ?_⟩, ?_⟩
  · rw [hdim]
    decide
  · rw [hratio]
    decide
  · rw [hdim]
    decide
  · rw [hratio]
    decide
  · rw [FusedKernel.region_of_cube rfl, FusedKernel.region_of_vector rfl, hratio]
    rfl

end Generator

end KernelFusion
