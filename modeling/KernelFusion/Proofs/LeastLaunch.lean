import KernelFusion.Proofs.UnitSupply
import Mathlib.Order.Bounds.Defs

/-!
The least launch that covers all operators.

Blocks of one kind stand for all operators of a request, so that a block count covers them if the units
of its blocks are enough for the largest need in each domain. The kernel type is chosen first, from the
domains that occur and from the two largest needs; the block count is then the least that covers.

        needs     cube 3, vector 7
        blocks of 1 cube and 2 vector units
                  3 have 3 and 6     too few
                  4 have 4 and 8

Blocks are counted before the area that barriers are fed from is sized. Where there are none, the sizing
never ends, and with it the launch has no shape at all.
-/

namespace KernelFusion.LaunchShape

variable {ops : List Operator} {t : KernelType} {b : Nat}

/-- Blocks of a kernel type have units for every operator. -/
def Covers (ops : List Operator) (t : KernelType) (b : Nat) : Prop :=
  ∀ o ∈ ops, ∀ d, o.requiredUnits d ≤ b * t.unitsIn d

theorem covers_iff : Covers ops t b ↔ ∀ d, maxUnitsOf ops d ≤ b * t.unitsIn d := by
  simp only [maxUnitsOf_le_iff]
  exact ⟨fun h d o ho => h o ho d, fun h o ho d => h d o ho⟩

theorem covering_covers (ops : List Operator) : Covers ops (covering ops).1 (covering ops).2 :=
  covers_iff.mpr (maxUnitsOf_le_covering ops)

/-- Fewer blocks of the same kind miss the need that decides their number. -/
theorem covering_le_of_covers (h : Covers ops (covering ops).1 b) : (covering ops).2 ≤ b := by
  have hcube := covers_iff.mp h .cube
  have hvector := covers_iff.mp h .vector
  revert hcube hvector
  unfold covering
  repeat' split
  all_goals
    simp only [KernelType.unitsIn, KernelType.ratio]
    omega

/-- The block counts that have units for every operator, by the record of a kernel. -/
def enough (ops : List Operator) (r : MixRecord) : Set Nat :=
  {b | ∀ o ∈ ops, o.requiredUnits .cube ≤ b * r.aicRatio.toNat ∧
    o.requiredUnits .vector ≤ b * r.aivRatio.toNat}

theorem mem_enough {kernelName : String} : b ∈ enough ops (.ofKernel kernelName t) ↔ Covers ops t b := by
  have hcube : (MixRecord.ofKernel kernelName t).aicRatio.toNat = t.unitsIn .cube :=
    MixRecord.toNat_ratio kernelName t .cube
  have hvector : (MixRecord.ofKernel kernelName t).aivRatio.toNat = t.unitsIn .vector :=
    MixRecord.toNat_ratio kernelName t .vector
  simp only [enough, Set.mem_ofPred_eq, hcube, hvector, Covers, Domain.forall_iff]

/-- A shape has the least blocks, of exactly the domains that occur. -/
theorem isLeast_of_eq_some {feedSyncAll : Bool} {s : LaunchShape} (hne : ops ≠ [])
    (h : of ops feedSyncAll = some s) (kernelName : String) :
    IsLeast (enough ops (.ofKernel kernelName s.kernelType)) s.blockDim ∧
    ∀ d, 0 < (MixRecord.ofKernel kernelName s.kernelType).ratio d ↔ ∃ o ∈ ops, d ∈ o.affinity.domains := by
  obtain ⟨htype, hblocks⟩ := of_eq_covering hne h
  refine ⟨⟨?_, ?_⟩, fun d => ?_⟩
  · rw [mem_enough, htype, hblocks]
    exact covering_covers ops
  · intro b hb
    rw [mem_enough, htype] at hb
    rw [hblocks]
    exact covering_le_of_covers hb
  · rw [MixRecord.ratio_pos_iff, ← domain_mem_blocksOf_iff hne, blocksOf_eq_covering hne, htype]

/-- Units that the area for barriers is shared by. -/
def sharers (ops : List Operator) : Nat := feedUnits (blocksOf ops).1 (blocksOf ops).2

/-- CORRECT (exact condition): where barriers are not fed or an operator has a block, there is a launch of
the least block count that has units for every operator, with the units in a block that the record of the
kernel gives; and a block has units of exactly the domains that occur. Otherwise the area that barriers are
fed from is doubled without end, and there is no launch. -/
theorem blockDim_isLeast (hne : ops ≠ []) (feedSyncAll : Bool) (kernelName : String) :
    ((feedSyncAll = true → ∃ o ∈ ops, 0 < o.blockCount) → ∃ s, of ops feedSyncAll = some s ∧
      IsLeast (enough ops (.ofKernel kernelName s.kernelType)) s.blockDim ∧
      ∀ d, 0 < (MixRecord.ofKernel kernelName s.kernelType).ratio d ↔
        ∃ o ∈ ops, d ∈ o.affinity.domains) ∧
    (feedSyncAll = true → (∀ o ∈ ops, o.blockCount = 0) → of ops feedSyncAll = none ∧
      ¬∃ slice, Doubled (sharers ops) (ops.length * feedPerOperator) feedBase slice) := by
  constructor
  · intro hblock
    have hfound : of ops feedSyncAll ≠ none := by
      intro hnone
      obtain ⟨hfeed, hzero⟩ := of_eq_none_iff.mp hnone
      obtain ⟨o, ho, hpos⟩ := hblock hfeed
      exact absurd (hzero o ho) hpos.ne'
    obtain ⟨s, hs⟩ := Option.ne_none_iff_exists'.mp hfound
    exact ⟨s, hs, isLeast_of_eq_some hne hs kernelName⟩
  · intro hfeed hzero
    refine ⟨of_eq_none_iff.mpr ⟨hfeed, hzero⟩, ?_⟩
    rintro ⟨slice, hloop⟩
    have hsharers : sharers ops = 0 := (feedUnits_eq_zero_iff _).mpr (blocksOf_eq_zero_iff.mpr hzero)
    have hpos := hloop.pos
    rw [hsharers, Nat.zero_mul] at hpos
    exact absurd hpos (Nat.lt_irrefl 0)

/-- Operators of both domains, of which none needs as many units as the launch has. -/
def uneven : List Operator :=
  [{ Operator.onStream 0 "mixed" .mixAic12 [] [] with blockCount := 3 },
    { Operator.onStream 0 "vector" .aivOnly [] [] with blockCount := 7 }]

/-- Three blocks are enough for the cube units of one operator, and not for the vector units of the
other. -/
theorem uneven_least : ∃ s, of uneven true = some s ∧ s.kernelType = .mixAic12 ∧
    IsLeast (enough uneven (.ofKernel "fused" .mixAic12)) 4 ∧
    3 ∉ enough uneven (.ofKernel "fused" .mixAic12) := by
  have hblock : true = true → ∃ o ∈ uneven, 0 < o.blockCount := fun _ =>
    ⟨_, List.mem_cons_self, Nat.succ_pos 2⟩
  obtain ⟨s, hs, hleast, _⟩ :=
    (blockDim_isLeast (show uneven ≠ [] by simp [uneven]) true "fused").1 hblock
  have hshape : (blocksOf uneven).1 = .mixAic12 ∧ (blocksOf uneven).2 = 4 := by decide
  have htype : s.kernelType = .mixAic12 := by
    rw [of_eq_some hs]
    exact hshape.1
  have hdim : s.blockDim = 4 := by
    rw [of_eq_some hs]
    exact hshape.2
  rw [htype, hdim] at hleast
  exact ⟨s, hs, htype, hleast, fun hthree => absurd (hleast.2 hthree) (by decide)⟩

/-- An operator of vector units that has no block. -/
def blockless : List Operator := [{ Operator.onStream 0 "idle" .aivOnly [] [] with blockCount := 0 }]

/-- With barriers to be fed there is no launch, of the least block count or of any other. -/
theorem blockless_unbounded : blockless ≠ [] ∧ ¬∃ s, of blockless true = some s ∧
    IsLeast (enough blockless (.ofKernel "fused" s.kernelType)) s.blockDim := by
  refine ⟨List.cons_ne_nil _ _, ?_⟩
  rintro ⟨s, hs, _⟩
  have hnone : of blockless true = none := of_eq_none_iff.mpr ⟨rfl, by simp [blockless]⟩
  rw [hnone] at hs
  cases hs

end KernelFusion.LaunchShape
