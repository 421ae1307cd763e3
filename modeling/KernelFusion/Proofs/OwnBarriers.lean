import Mathlib.Algebra.Group.Nat.Defs
import KernelFusion.Proofs.UnitSupply

/-!
Operators whose own barrier is fed.

An operator may have a barrier of its own, over all units of its domains. Those that are no blocks of the
operator do not come to it, and have to be counted in for them: its barrier is fed. Whether there are such
units is decided from the kernel types and the block counts alone. It is the case exactly if the index by
which the operator lets units through goes beyond its block count somewhere in the launch.

        blocks of the launch            0    1    2
        4 vector units                  xx   xx   ··      index by units, below 6
        3 blocks of both domains        xx   xx   xx      index by blocks, below 3
-/

namespace KernelFusion

open Device

namespace LaunchShape

variable {s : LaunchShape} {ops : List Operator} {o : Operator} {d : Domain} {n : Nat} {kernelName : String}

/-! ### Units of a launch -/

/-- The units of a domain in a launch, block by block. The record says how many of them a block has. -/
def sitesIn (s : LaunchShape) (kernelName : String) (d : Domain) : List Site :=
  (List.range s.blockDim).flatMap fun block =>
    (List.range ((MixRecord.ofKernel kernelName s.kernelType).ratio d).toNat).map
      (Site.inBlock d ((MixRecord.ofKernel kernelName s.kernelType).ratio d).toNat block)

/-- The launch has a unit of a domain of the operator that its test does not let through. -/
def LeavesOut (s : LaunchShape) (kernelName : String) (o : Operator) : Prop :=
  ∃ d ∈ o.affinity.domains, ∃ site ∈ s.sitesIn kernelName d,
    o.blockCount ≤ site.blockIndex (o.kernelType.blockIndex d)

theorem mem_sitesIn {site : Site} : site ∈ s.sitesIn kernelName d ↔ ∃ block < s.blockDim,
    ∃ lane < s.kernelType.unitsIn d, Site.inBlock d (s.kernelType.unitsIn d) block lane = site := by
  simp only [sitesIn, MixRecord.toNat_ratio, List.mem_flatMap, List.mem_map, List.mem_range]

/-- By blocks, all units of the last block are the farthest. -/
theorem exists_hardware_iff : (∃ site ∈ s.sitesIn kernelName d, n ≤ site.blockIndex .hardware) ↔
    0 < s.kernelType.unitsIn d ∧ n < s.blockDim := by
  constructor
  · rintro ⟨site, hsite, hn⟩
    obtain ⟨block, hblock, lane, hlane, rfl⟩ := mem_sitesIn.mp hsite
    exact ⟨Nat.zero_lt_of_lt hlane, hn.trans_lt hblock⟩
  · rintro ⟨hunits, hn⟩
    exact ⟨_, mem_sitesIn.mpr ⟨n, hn, 0, hunits, rfl⟩, le_rfl⟩

/-- By units, the numbers are those below the number of all units. -/
theorem exists_logical_iff : (∃ site ∈ s.sitesIn kernelName d, n ≤ site.blockIndex .logical) ↔
    n < s.blockDim * s.kernelType.unitsIn d := by
  have hnumbers : (s.sitesIn kernelName d).map (fun site => site.blockIndex .logical)
      = List.range (s.blockDim * s.kernelType.unitsIn d) := by
    rw [← range_mul, sitesIn, List.map_flatMap]
    simp only [List.map_map, Function.comp_def, Site.inBlock, MixRecord.toNat_ratio]
  have hexists : (∃ site ∈ s.sitesIn kernelName d, n ≤ site.blockIndex .logical) ↔
      ∃ i ∈ (s.sitesIn kernelName d).map (fun site => site.blockIndex .logical), n ≤ i := by
    simp only [List.mem_map, exists_exists_and_eq_and]
  rw [hexists, hnumbers]
  constructor
  · rintro ⟨i, hi, hn⟩
    exact hn.trans_lt (List.mem_range.mp hi)
  · intro hn
    exact ⟨n, List.mem_range.mpr hn, le_rfl⟩

/-! ### How far the index of an operator goes -/

/-- The end of the numbers that units read as the index of an operator's blocks. -/
def reach (s : LaunchShape) (o : Operator) : Nat :=
  if o.affinity = .vectorOnly then s.blockDim * s.kernelType.unitsIn .vector else s.blockDim

theorem unitsIn_pos_iff {t : KernelType} : 0 < t.unitsIn d ↔ d ∈ t.affinity.domains := by
  cases t <;> cases d <;> decide

theorem reach_of_logical (hd : d ∈ o.affinity.domains) (h : o.kernelType.blockIndex d = .logical) :
    s.reach o = s.blockDim * s.kernelType.unitsIn d := by
  have hvector : o.affinity = .vectorOnly ∧ d = .vector := by
    revert h
    unfold Operator.affinity
    cases o.kernelType <;> cases d <;> decide
  rw [reach, if_pos hvector.1, hvector.2]

theorem reach_of_hardware (hd : d ∈ o.affinity.domains) (h : o.kernelType.blockIndex d = .hardware) :
    s.reach o = s.blockDim := by
  have hcube : o.affinity ≠ .vectorOnly := by
    revert hd h
    unfold Operator.affinity
    cases o.kernelType <;> cases d <;> decide
  exact if_neg hcube

theorem leavesOut_iff (hcovers : ∀ d ∈ o.affinity.domains, d ∈ s.kernelType.affinity.domains) :
    s.LeavesOut kernelName o ↔ o.blockCount < s.reach o := by
  have hdomain : ∀ d ∈ o.affinity.domains, ((∃ site ∈ s.sitesIn kernelName d,
      o.blockCount ≤ site.blockIndex (o.kernelType.blockIndex d)) ↔ o.blockCount < s.reach o) := by
    intro d hd
    cases hindex : o.kernelType.blockIndex d with
    | logical => rw [exists_logical_iff, reach_of_logical hd hindex]
    | hardware =>
      rw [exists_hardware_iff, reach_of_hardware hd hindex]
      exact and_iff_right (unitsIn_pos_iff.mpr (hcovers d hd))
  constructor
  · rintro ⟨d, hd, hsite⟩
    exact (hdomain d hd).mp hsite
  · intro h
    exact ⟨o.eventDomain, o.eventDomain_mem, (hdomain _ o.eventDomain_mem).mpr h⟩

/-! ### What is decided from types and counts -/

/-- In a launch of the operator's own type all blocks have as many units as the operator counts on. -/
theorem reach_of_same (h : s.kernelType = o.kernelType) : s.reach o = s.blockDim := by
  unfold reach Operator.affinity
  rw [h]
  cases o.kernelType <;> simp [KernelType.affinity, KernelType.unitsIn, KernelType.ratio]

theorem reach_of_one (h : s.kernelType.unitsIn .vector = 1) : s.reach o = s.blockDim := by
  rw [reach, h, Nat.mul_one, ite_self]

/-- The types that a launch can have. -/
def launchTypes : List KernelType := [.mixAiv10, .mixAic10, .mixAic11, .mixAic12]

/-- The decision is by the end of the index, where twice the blocks are a number of units. -/
theorem feeds_iff (htype : s.kernelType ∈ launchTypes)
    (hcovers : ∀ d ∈ o.affinity.domains, d ∈ s.kernelType.affinity.domains)
    (hdouble : s.kernelType = .mixAic12 → 2 * s.blockDim ≤ maxUnits) :
    s.feeds o = true ↔ o.withSyncAll = true ∧ o.blockCount < s.reach o := by
  unfold feeds
  cases o.withSyncAll with
  | false => simp
  | true =>
    by_cases hsame : s.blockDim = o.blockCount ∧ s.kernelType = o.kernelType
    · rw [reach_of_same hsame.2]
      simp [hsame]
    · simp only [Bool.not_true, Bool.false_eq_true, if_false, if_neg hsame, true_and]
      cases ht : s.kernelType with
      | aivOnly => simp [ht, launchTypes] at htype
      | aicOnly => simp [ht, launchTypes] at htype
      | mixAiv10 => rw [reach_of_one (by rw [ht]; rfl), decide_eq_true_iff]
      | mixAic11 => rw [reach_of_one (by rw [ht]; rfl), decide_eq_true_iff]
      | mixAic10 =>
        -- the launch has no vector units, so that the operator does not count them
        have hcube : o.affinity ≠ .vectorOnly := by
          intro hvector
          rw [ht, hvector] at hcovers
          exact absurd (hcovers .vector (by decide)) (by decide)
        rw [reach, if_neg hcube, decide_eq_true_iff]
      | mixAic12 =>
        have hexact : doubleUnits s.blockDim = s.blockDim * s.kernelType.unitsIn .vector := by
          rw [doubleUnits, Nat.min_eq_left (hdouble ht), ht]
          exact Nat.mul_comm _ _
        unfold reach
        cases o.affinity <;> simp [hexact]

/-! ### Launches that cover operators -/

theorem blocksOf_mem_launchTypes (ops : List Operator) : (blocksOf ops).1 ∈ launchTypes := by
  unfold blocksOf resolve
  split <;> first
    | simp [launchTypes]; done
    | split <;> simp [launchTypes]

theorem requiredUnits_le_double (o : Operator) (d : Domain) : o.requiredUnits d ≤ 2 * o.blockCount := by
  by_cases hd : d ∈ o.affinity.domains
  · rw [Operator.requiredUnits_of_mem hd, doubleUnits]
    split <;> omega
  · rw [Operator.requiredUnits_of_not_mem hd]
    exact Nat.zero_le _

theorem requiredUnits_cube_le (o : Operator) : o.requiredUnits .cube ≤ o.blockCount := by
  by_cases hd : .cube ∈ o.affinity.domains
  · simp [Operator.requiredUnits_of_mem hd]
  · rw [Operator.requiredUnits_of_not_mem hd]
    exact Nat.zero_le _

/-- Blocks of two vector units are no more than the largest operator has blocks. -/
theorem blockDim_le (h : (covering ops).1 = .mixAic12) (hn : ∀ o ∈ ops, o.blockCount ≤ n) :
    (covering ops).2 ≤ n := by
  have hcube : maxUnitsOf ops .cube ≤ n :=
    maxUnitsOf_le_iff.mpr fun o ho => (requiredUnits_cube_le o).trans (hn o ho)
  have hvector : maxUnitsOf ops .vector ≤ 2 * n :=
    maxUnitsOf_le_iff.mpr fun o ho =>
      (requiredUnits_le_double o .vector).trans (Nat.mul_le_mul_left 2 (hn o ho))
  revert h
  unfold covering
  split_ifs <;> intro h
  · cases h
  · cases h
  · cases h
  · simp only
    omega

theorem feeds_iff_of_eq_some {feedSyncAll : Bool} {s : LaunchShape} (hs : of ops feedSyncAll = some s)
    (kernelName : String) (hblocks : ∀ o ∈ ops, o.blockCount < 2 ^ 31) (ho : o ∈ ops) :
    s.feeds o = true ↔ o.withSyncAll = true ∧ s.LeavesOut kernelName o := by
  obtain ⟨htype, hdim⟩ := of_eq_covering (List.ne_nil_of_mem ho) hs
  have hshape := of_eq_some hs
  have hcovers : ∀ d ∈ o.affinity.domains, d ∈ s.kernelType.affinity.domains := by
    intro d hd
    rw [hshape]
    exact domain_mem_blocksOf ho hd
  have hlaunch : s.kernelType ∈ launchTypes := by
    rw [hshape]
    exact blocksOf_mem_launchTypes ops
  rw [leavesOut_iff hcovers]
  refine feeds_iff hlaunch hcovers fun htwo => ?_
  have hle : (covering ops).2 ≤ 2 ^ 31 - 1 :=
    blockDim_le (htype ▸ htwo) fun o ho => Nat.le_sub_one_of_lt (hblocks o ho)
  calc 2 * s.blockDim = 2 * (covering ops).2 := by rw [hdim]
    _ ≤ 2 * (2 ^ 31 - 1) := Nat.mul_le_mul_left 2 hle
    _ ≤ maxUnits := by decide

/-- CORRECT: a list of operators has a shape unless barriers are to be fed and no operator has a block. In its
shape, the barrier of an operator is fed exactly if the operator has one and the launch has a unit of its
domains that it leaves out. -/
theorem feeds_iff_leavesOut (feedSyncAll : Bool) (kernelName : String)
    (hblocks : ∀ o ∈ ops, o.blockCount < 2 ^ 31) :
    ((∃ s, of ops feedSyncAll = some s) ↔ feedSyncAll = false ∨ ∃ o ∈ ops, o.blockCount ≠ 0) ∧
    ∀ s, of ops feedSyncAll = some s → ∀ o ∈ ops,
      (s.feeds o = true ↔ o.withSyncAll = true ∧ s.LeavesOut kernelName o) := by
  refine ⟨?_, fun s hs o ho => feeds_iff_of_eq_some hs kernelName hblocks ho⟩
  rw [← Option.ne_none_iff_exists', Ne, of_eq_none_iff, not_and_or, Bool.not_eq_true]
  simp only [not_forall, exists_prop]

/-- An operator with a barrier of its own. -/
def barrierOn (t : KernelType) (blocks : Nat) : Operator :=
  { (default : Operator) with kernelType := t, blockCount := blocks, withSyncAll := true }

/-- Four vector units, beside three blocks of one cube and two vector units. -/
def besideBlocks : List Operator := [barrierOn .aivOnly 4, barrierOn .mixAic12 3]

/-- The launch has six vector units, of which the first operator leaves two out and is fed; the second one
leaves none out and is not. -/
theorem besideBlocks_fed : ∃ s, of besideBlocks true = some s ∧ s.kernelType = .mixAic12 ∧
    s.blockDim = 3 ∧ s.LeavesOut "fused" (barrierOn .aivOnly 4) ∧
    ¬s.LeavesOut "fused" (barrierOn .mixAic12 3) := by
  have hblocks : ∀ o ∈ besideBlocks, o.blockCount < 2 ^ 31 := by
    simp [besideBlocks, barrierOn]
  have hfirst : barrierOn .aivOnly 4 ∈ besideBlocks := by simp [besideBlocks]
  have hsecond : barrierOn .mixAic12 3 ∈ besideBlocks := by simp [besideBlocks]
  have hs : of besideBlocks true = some (fedBy besideBlocks 3072) := by decide +kernel
  obtain ⟨-, hfeeds⟩ := feeds_iff_leavesOut true "fused" hblocks
  have hvector := hfeeds _ hs _ hfirst
  have hmixed := hfeeds _ hs _ hsecond
  refine ⟨_, hs, by decide, by decide, (hvector.mp (by decide)).2, fun hout => ?_⟩
  exact absurd (hmixed.mpr ⟨rfl, hout⟩) (by decide)

end LaunchShape

end KernelFusion
