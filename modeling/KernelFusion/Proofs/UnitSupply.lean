import KernelFusion.Proofs.Dispatch
import KernelFusion.Proofs.LaunchSize

/-!
The units that come to the call of an operator.

A launch runs the units of all its blocks, and the code of an operator lets those through whose index is
below its block count. Operators of vector units alone count through all vector units; all others count
blocks, so that each of their blocks comes with as many units as the launch has in a block. An operator
that was compiled for two vector units in a block misses every second one where blocks have but one.

        blocks of the launch     0    1    2    …
        vector units             ··   ··   ··        index by units   0 1   2 3   4 5
                                                     index by blocks  0 0   1 1   2 2
-/

namespace KernelFusion

open Device

/-! ### What an operator needs -/

theorem Operator.requiredUnits_of_mem {o : Operator} {d : Domain} (h : d ∈ o.affinity.domains) :
    o.requiredUnits d = if o.kernelType = .mixAic12 ∧ d = .vector then doubleUnits o.blockCount
      else o.blockCount := by
  have hcontains : o.affinity.contains d = true := List.contains_iff_mem.mpr h
  unfold requiredUnits
  rw [if_pos hcontains]
  cases o.kernelType <;> cases d <;> rfl

/-- Units are counted through only by operators of vector units alone. -/
theorem KernelType.cube_mem_of_hardware {t : KernelType} {d : Domain} (hd : d ∈ t.affinity.domains)
    (h : t.blockIndex d = .hardware) : .cube ∈ t.affinity.domains := by
  revert hd h
  unfold blockIndex
  cases t.affinity <;> cases d <;> decide

theorem KernelType.vector_of_logical {t : KernelType} {d : Domain} (h : t.blockIndex d = .logical) :
    d = .vector ∧ t ≠ .mixAic12 := by
  revert h
  cases t <;> cases d <;> decide

theorem KernelType.unitsIn_cube_le (t : KernelType) : t.unitsIn .cube ≤ 1 := by
  cases t <;> decide

namespace LaunchShape

variable {ops : List Operator} {o : Operator} {d : Domain}

theorem maxUnitsOf_eq_zero (h : ∀ o ∈ ops, d ∉ o.affinity.domains) : maxUnitsOf ops d = 0 := by
  refine Nat.le_zero.mp (maxUnitsOf_le_iff.mpr fun o ho => ?_)
  rw [Operator.requiredUnits_of_not_mem (h o ho)]

/-- The blocks have units for the largest need in each domain. -/
theorem maxUnitsOf_le_covering (ops : List Operator) (d : Domain) :
    maxUnitsOf ops d ≤ (covering ops).2 * (covering ops).1.unitsIn d := by
  revert d
  rw [Domain.forall_iff, covering]
  split
  next hnone => simp [KernelType.unitsIn, KernelType.ratio, maxUnitsOf_eq_zero hnone]
  split
  next hnone => simp [KernelType.unitsIn, KernelType.ratio, maxUnitsOf_eq_zero hnone]
  split
  next hle => simpa [KernelType.unitsIn, KernelType.ratio] using hle
  next => simp only [KernelType.unitsIn, KernelType.ratio]; omega

/-- Vector units in a block that has units of both domains for one operator. -/
theorem unitsIn_covering_of_mixed (h : o ∈ ops) (hmixed : o.affinity = .mixed) :
    (covering ops).1.unitsIn .vector = if maxUnitsOf ops .vector ≤ maxUnitsOf ops .cube then 1 else 2 := by
  have hdomains : ∀ d, d ∈ o.affinity.domains := by
    rw [hmixed]
    intro d
    cases d <;> decide
  rw [covering, if_neg fun hnone => hnone o h (hdomains .cube),
    if_neg fun hnone => hnone o h (hdomains .vector)]
  split <;> rfl

end LaunchShape

/-! ### The units of a launch -/

/-- Units that a launch of a kernel runs on. Each block has its units of every domain, which read the
number of the block; and vector units are counted through. -/
structure FusedKernel.RunsOn (k : FusedKernel) (sites : List Site) : Prop where
  blocks : ∀ d, ((sites.filter fun site => site.domain = d).map fun site => site.blockIndex .hardware).Perm
    ((List.range k.blockDim).flatMap fun block => List.replicate (k.record.ratio d).toNat block)
  lanes : ((sites.filter fun site => site.domain = .vector).map fun site => site.blockIndex .logical).Perm
    (List.range (k.unitsOf .vector))

/-- Units by the number of their block, where all blocks have the same number of units. -/
theorem countP_blocks_below (n m k : Nat) : ((List.range n).flatMap fun b => List.replicate k b).countP
    (fun i => decide (i < m)) = k * min n m := by
  induction n with
  | zero => simp
  | succ n ih =>
    rw [List.range_succ, List.flatMap_append, List.countP_append, ih]
    by_cases h : n < m
    · have hall : min n m = n ∧ min (n + 1) m = n + 1 := by omega
      rw [hall.1, hall.2, Nat.mul_succ]
      simp [h, List.countP_replicate]
    · have hnone : min n m = m ∧ min (n + 1) m = m := by omega
      rw [hnone.1, hnone.2]
      simp [h, List.countP_replicate]

theorem countP_range (n m : Nat) : (List.range n).countP (fun i => decide (i < m)) = min n m := by
  have hblocks := countP_blocks_below n m 1
  simpa [List.replicate_one, List.flatMap_singleton'] using hblocks

namespace FusedKernel.RunsOn

variable {k : FusedKernel} {sites : List Site} (h : k.RunsOn sites)
include h

/-- Units of a domain whose index is below a bound. -/
theorem countP_below (d : Domain) (n : Nat) :
    sites.countP (fun site => decide (site.domain = d) && decide (site.blockIndex .hardware < n))
      = (k.record.ratio d).toNat * min k.blockDim n := by
  rw [← countP_blocks_below, ← (h.blocks d).countP_eq, List.countP_map, List.countP_filter]
  exact List.countP_congr fun site _ => by simp [and_comm]

theorem countP_lanes_below (n : Nat) : sites.countP (fun site => decide (site.domain = .vector) &&
    decide (site.blockIndex .logical < n)) = min (k.unitsOf .vector) n := by
  rw [← countP_range, ← h.lanes.countP_eq, List.countP_map, List.countP_filter]
  exact List.countP_congr fun site _ => by simp [and_comm]

end FusedKernel.RunsOn

theorem range_mul (n k : Nat) :
    ((List.range n).flatMap fun b => (List.range k).map fun i => b * k + i) = List.range (n * k) := by
  induction n with
  | zero => simp
  | succ n ih =>
    rw [List.range_succ, List.flatMap_append, ih, Nat.succ_mul, List.range_add]
    simp

/-- A unit of a block that has `ratio` units of its domain. -/
def Device.Site.inBlock (d : Domain) (ratio block lane : Nat) : Site where
  domain := d
  blockIndex := fun
    | .hardware => block
    | .logical => block * ratio + lane
  coreId := 0
  cells _ := 0

namespace FusedKernel

variable (k : FusedKernel) (d : Domain)

/-- The units of a domain, block by block. -/
def sitesIn : List Site :=
  (List.range k.blockDim).flatMap fun block =>
    (List.range (k.record.ratio d).toNat).map (Site.inBlock d (k.record.ratio d).toNat block)

def sites : List Site := k.sitesIn .cube ++ k.sitesIn .vector

theorem domain_of_mem_sitesIn {site : Site} (h : site ∈ k.sitesIn d) : site.domain = d := by
  simp only [sitesIn, List.mem_flatMap, List.mem_map] at h
  obtain ⟨block, _, lane, _, rfl⟩ := h
  rfl

theorem filter_sites : k.sites.filter (fun site => site.domain = d) = k.sitesIn d := by
  have hin : ∀ d', (k.sitesIn d').filter (fun site => site.domain = d)
      = if d' = d then k.sitesIn d' else [] := by
    intro d'
    split
    next heq =>
      subst heq
      exact List.filter_eq_self.mpr fun site hsite => decide_eq_true (k.domain_of_mem_sitesIn d' hsite)
    next hne =>
      refine List.filter_eq_nil_iff.mpr fun site hsite => ?_
      simpa [k.domain_of_mem_sitesIn d' hsite] using hne
  rw [sites, List.filter_append, hin, hin]
  cases d <;> simp

/-- Every kernel has units that a launch of it runs on. -/
theorem runsOn_sites : k.RunsOn k.sites where
  blocks d := by
    rw [filter_sites, sitesIn, List.map_flatMap]
    simp only [List.map_map, Function.comp_def, Site.inBlock, List.map_const', List.length_range]
    exact .refl _
  lanes := by
    rw [filter_sites, sitesIn, List.map_flatMap, unitsOf, ← range_mul]
    simp only [List.map_map, Function.comp_def, Site.inBlock]
    exact .refl _

end FusedKernel

/-! ### Calls of static operators -/

/-- The steps that units of a domain run. -/
def KernelBody.stepsOn : KernelBody → Domain → List Step
  | .singleStream steps, _ => steps
  | .twoStream s, d => s.get d

/-- The domain alone that these steps are written for. -/
def KernelBody.arch : KernelBody → Domain → Option Domain
  | .singleStream _, _ => none
  | .twoStream _, d => some d

theorem KernelBody.arch_mem {body : KernelBody} {d : Domain} : ∀ a ∈ body.arch d, a = d := by
  cases body <;> simp [arch, eq_comm]

namespace Launch

variable {r : Request} {l : Launch} {body : KernelBody} {stats : SyncStats} {op : Nat} {site : Site}
variable {d : Domain}

/-- The calls that a unit makes by the steps of an operator, with no variables around. -/
def callsOn (l : Launch) (body : KernelBody) (op : Nat) (site : Site) : Option (List Call) :=
  ((Body.steps l (body.arch site.domain) ((body.stepsOn site.domain).filter (Step.isInvokeOf op))).exec
    site ⟨[], []⟩).map State.calls

/-- The unit passes the guard of the operator in its domain, and comes to a call. -/
def passes (l : Launch) (body : KernelBody) (op : Nat) (site : Site) : Bool :=
  (l.callsOn body op site).any fun calls => !calls.isEmpty

/-- Static operators have functions for all their domains. -/
theorem callable_of_static (hl : Generator.launch r = .ok l) (hop : op < l.graph.size)
    (hstatic : (l.operator op).isDynamic = false) :
    ∀ d ∈ (l.operator op).affinity.domains, ∃ base, (l.operator op).functions.get? d = some base := by
  obtain ⟨options, ops, hcheck, hops, haccepted, _⟩ := Generator.launch_eq_ok hl
  have hmem : l.operator op ∈ ops := haccepted.spec.1 ▸ operator_mem hop
  obtain ⟨d, hd, i, hofDescriptor⟩ := Operator.ofDescriptors_mem hops hmem
  obtain ⟨hstatic', htype, hfunctions⟩ := Operator.ofDescriptor_static hofDescriptor hstatic
  rw [hfunctions]
  exact checkFunctions_ok
    (OperatorDescriptor.check_static (Request.check_operators hcheck d hd) hstatic' htype)

/-- On every domain of it, an operator is called by one step. -/
theorem filter_stepsOn (hl : Generator.launch r = .ok l)
    (hschedule : Generator.schedule l = .ok (body, stats)) (hop : op < l.graph.size)
    (hd : d ∈ (l.operator op).affinity.domains) :
    (body.stepsOn d).filter (Step.isInvokeOf op) = [.invoke op] := by
  obtain ⟨_, ops, _, _, haccepted, _⟩ := Generator.launch_eq_ok hl
  cases hmode : l.events.mode with
  | singleStream =>
    rw [schedule_singleStream haccepted.linked.toWellFormed hmode hschedule, KernelBody.stepsOn]
    exact Schedule.filter_lone_invoke SingleStream.nodup_invocations
      (SingleStream.mem_invocations hop)
  | twoStream =>
    rw [schedule_twoStream hmode hschedule, KernelBody.stepsOn]
    have hsteps : (Generator.streamSteps ⟨l, TwoStream.keptEdges l.graph⟩).get d
        = TwoStream.steps ⟨l, TwoStream.keptEdges l.graph⟩ d := by
      cases d <;> rfl
    rw [hsteps]
    refine Schedule.filter_lone_invoke ?_ ?_
    · rw [TwoStream.invocations_steps]
      exact TwoStream.members_increasing.imp Nat.ne_of_lt
    · rw [TwoStream.invocations_steps, TwoStream.mem_members]
      exact ⟨hop, List.contains_iff_mem.mpr hd⟩

theorem passes_eq (hl : Generator.launch r = .ok l)
    (hschedule : Generator.schedule l = .ok (body, stats)) (hop : op < l.graph.size)
    (hstatic : (l.operator op).isDynamic = false)
    (hd : site.domain ∈ (l.operator op).affinity.domains) : l.passes body op site
      = decide (site.blockIndex ((l.operator op).kernelType.blockIndex site.domain)
          < (l.operator op).blockCount) := by
  have harch : ∀ a ∈ body.arch site.domain, a = site.domain := KernelBody.arch_mem
  have hexec := Body.exec_callStatic harch (callable_of_static hl hop hstatic)
    (l.table.operator op).argsOffset (l.feeds op) ⟨[], []⟩
  have hinvoke : Body.step l (body.arch site.domain) (.invoke op) = Body.callStatic (l.operator op)
      (l.table.operator op).argsOffset (l.feeds op) (body.arch site.domain) := by
    rw [Body.step, Body.invoke]
    exact if_neg (by simp [hstatic])
  rw [passes, callsOn, filter_stepsOn hl hschedule hop hd, Body.steps, List.map_singleton,
    Code.exec_concat_cons, hinvoke, hexec]
  unfold Site.variant?
  rw [Operator.affinity] at hd
  by_cases hlt : site.blockIndex ((l.operator op).kernelType.blockIndex site.domain)
      < (l.operator op).blockCount
  · simp [calling, hd, hlt]
  · simp [calling, hd, hlt]

/-- The units of a domain that come to the call of an operator. -/
def supply (l : Launch) (body : KernelBody) (op : Nat) (sites : List Site) (d : Domain) : Nat :=
  sites.countP fun site => decide (site.domain = d) && l.passes body op site

/-- The units of a launch are enough for the need of every operator in each domain. -/
theorem requiredUnits_le (hl : Generator.launch r = .ok l) (hop : op < l.graph.size) (d : Domain) :
    (l.operator op).requiredUnits d ≤ l.shape.blockDim * l.shape.kernelType.unitsIn d := by
  obtain ⟨ops, _, _, hgraph, _, _, _, hcovering⟩ := Generator.launch_covering hl
  obtain ⟨htype, hblocks⟩ := Prod.mk.inj hcovering
  have hmem : l.operator op ∈ ops := hgraph ▸ operator_mem hop
  rw [htype, hblocks]
  exact (LaunchShape.requiredUnits_le_maxUnitsOf hmem).trans (LaunchShape.maxUnitsOf_le_covering ops d)

theorem blockCount_pos (hl : Generator.launch r = .ok l) (hop : op < l.graph.size) :
    0 < (l.operator op).blockCount := by
  obtain ⟨ops, _, _, hgraph, hfits, _⟩ := Generator.launch_covering hl
  exact (hfits _ (hgraph ▸ operator_mem hop)).blocks

/-- Blocks have one or two vector units as the largest needs tell, if an operator is on both domains. -/
theorem unitsIn_vector_of_mixed (hl : Generator.launch r = .ok l) (hop : op < l.graph.size)
    (hmixed : (l.operator op).affinity = .mixed) : l.shape.kernelType.unitsIn .vector
      = if l.shape.maxVector ≤ l.shape.maxCube then 1 else 2 := by
  obtain ⟨ops, _, _, hgraph, _, hcube, hvector, hcovering⟩ := Generator.launch_covering hl
  rw [(Prod.mk.inj hcovering).1, hcube, hvector]
  exact LaunchShape.unitsIn_covering_of_mixed (hgraph ▸ operator_mem hop) hmixed

section Supply

variable (hl : Generator.launch r = .ok l) (hschedule : Generator.schedule l = .ok (body, stats))
  (hop : op < l.graph.size) (hstatic : (l.operator op).isDynamic = false)
  (hd : d ∈ (l.operator op).affinity.domains) {sites : List Site}
include hl hschedule hop hstatic hd

theorem supply_eq_countP (sites : List Site) : l.supply body op sites d
    = sites.countP fun site => decide (site.domain = d) && decide
        (site.blockIndex ((l.operator op).kernelType.blockIndex d) < (l.operator op).blockCount) := by
  refine List.countP_congr fun site _ => ?_
  by_cases hsite : site.domain = d
  · subst hsite
    rw [passes_eq hl hschedule hop hstatic hd]
  · simp [hsite]

variable (hsites : (Generator.kernel l body stats).RunsOn sites)
include hsites

/-- Where an operator counts blocks, each of its blocks comes with all units of the domain. -/
theorem supply_of_hardware (hindex : (l.operator op).kernelType.blockIndex d = .hardware) :
    l.supply body op sites d = l.shape.kernelType.unitsIn d * (l.operator op).blockCount := by
  have hcube : .cube ∈ (l.operator op).affinity.domains := KernelType.cube_mem_of_hardware hd hindex
  have hblocks : (l.operator op).blockCount ≤ l.shape.blockDim :=
    calc (l.operator op).blockCount = (l.operator op).requiredUnits .cube := by
          simp [Operator.requiredUnits_of_mem hcube]
      _ ≤ l.shape.blockDim * l.shape.kernelType.unitsIn .cube := requiredUnits_le hl hop .cube
      _ ≤ l.shape.blockDim * 1 := Nat.mul_le_mul_left _ l.shape.kernelType.unitsIn_cube_le
      _ = l.shape.blockDim := Nat.mul_one _
  rw [supply_eq_countP hl hschedule hop hstatic hd, hindex, hsites.countP_below, Generator.kernel,
    MixRecord.toNat_ratio, Nat.min_eq_right hblocks]

/-- Where an operator counts units, as many come as it counts. -/
theorem supply_of_logical (hindex : (l.operator op).kernelType.blockIndex d = .logical) :
    l.supply body op sites d = (l.operator op).blockCount := by
  obtain ⟨rfl, htype⟩ := KernelType.vector_of_logical hindex
  have hunits := requiredUnits_le hl hop .vector
  rw [Operator.requiredUnits_of_mem hd, if_neg fun h => htype h.1] at hunits
  rw [supply_eq_countP hl hschedule hop hstatic hd, hindex, hsites.countP_lanes_below,
    Generator.unitsOf_kernel, Nat.min_eq_right hunits]

end Supply

/-- An operator that was compiled for two vector units in a block has them, if the launch has such blocks.
Its need would have to be cut off at the largest number otherwise. -/
def Supplied (l : Launch) (op : Nat) (d : Domain) : Prop :=
  (l.operator op).kernelType = .mixAic12 → d = .vector →
    l.shape.maxCube < l.shape.maxVector ∨ maxUnits ≤ (l.operator op).blockCount

/-- CORRECT (exact condition): as many units of a launch come to the call of a static operator as it needs
in a domain, exactly if it is supplied there. -/
theorem requiredUnits_le_supply_iff (hl : Generator.launch r = .ok l)
    (hschedule : Generator.schedule l = .ok (body, stats)) (hop : op < l.graph.size)
    (hstatic : (l.operator op).isDynamic = false) (hd : d ∈ (l.operator op).affinity.domains)
    {sites : List Site} (hsites : (Generator.kernel l body stats).RunsOn sites) :
    (l.operator op).requiredUnits d ≤ l.supply body op sites d ↔ l.Supplied op d := by
  have hpos := blockCount_pos hl hop
  have hneed := requiredUnits_le hl hop d
  rw [Operator.requiredUnits_of_mem hd] at hneed ⊢
  cases hindex : (l.operator op).kernelType.blockIndex d with
  | logical =>
    obtain ⟨_, htype⟩ := KernelType.vector_of_logical hindex
    rw [supply_of_logical hl hschedule hop hstatic hd hsites hindex, if_neg fun h => htype h.1]
    exact iff_of_true le_rfl fun h => absurd h htype
  | hardware =>
    rw [supply_of_hardware hl hschedule hop hstatic hd hsites hindex]
    by_cases htwo : (l.operator op).kernelType = .mixAic12 ∧ d = .vector
    · obtain ⟨htype, rfl⟩ := htwo
      have hmixed : (l.operator op).affinity = .mixed := by rw [Operator.affinity, htype]; rfl
      rw [if_pos ⟨htype, rfl⟩, unitsIn_vector_of_mixed hl hop hmixed, Supplied, forall_prop_of_true htype,
        forall_prop_of_true rfl, doubleUnits]
      split <;> omega
    · -- The need is that of the blocks, and there is at least one unit in each.
      rw [if_neg htwo] at hneed ⊢
      refine iff_of_true (Nat.le_mul_of_pos_left _ ?_) fun htype hvector => absurd ⟨htype, hvector⟩ htwo
      exact Nat.pos_of_ne_zero fun hzero => by rw [hzero] at hneed; omega

/-- An operator of four blocks with two vector units each, beside one of cube units. -/
def pairRequest (cubeBlocks : UInt32) : Request :=
  .ofOperators "" [{ OperatorDescriptor.onStream 0 "first" .mixAic12 [] [] with blockDim := 4 },
    { OperatorDescriptor.onStream 0 "second" .aicOnly [] [] with blockDim := cubeBlocks }]

/-- Beside four blocks of cube units, blocks have two vector units and eight of them come to the call. -/
theorem pairRequest_supplied : ∃ l body stats, Generator.launch (pairRequest 4) = .ok l ∧
    Generator.schedule l = .ok (body, stats) ∧ (l.operator 0).requiredUnits .vector = 8 ∧
    (l.operator 0).requiredUnits .vector
      ≤ l.supply body 0 (Generator.kernel l body stats).sites .vector := by
  obtain ⟨l, body, stats, hl, hschedule, htest⟩ : ∃ l body stats,
      Generator.launch (pairRequest 4) = .ok l ∧ Generator.schedule l = .ok (body, stats) ∧
      decide (0 < l.graph.size ∧ (l.operator 0).isDynamic = false ∧
        .vector ∈ (l.operator 0).affinity.domains ∧ (l.operator 0).requiredUnits .vector = 8 ∧
        l.shape.maxCube < l.shape.maxVector) = true :=
    Generator.exists_schedule_of_test (by decide +kernel)
  obtain ⟨hop, hstatic, hd, hneed, hlt⟩ := of_decide_eq_true htest
  exact ⟨l, body, stats, hl, hschedule, hneed, (requiredUnits_le_supply_iff hl hschedule hop hstatic hd
    (FusedKernel.runsOn_sites _)).mpr fun _ _ => .inl hlt⟩

/-- Beside eight blocks of cube units, blocks have one vector unit and only four come to the call. -/
theorem pairRequest_starved : ∃ l body stats, Generator.launch (pairRequest 8) = .ok l ∧
    Generator.schedule l = .ok (body, stats) ∧ (l.operator 0).requiredUnits .vector = 8 ∧
    l.supply body 0 (Generator.kernel l body stats).sites .vector = 4 := by
  obtain ⟨l, body, stats, hl, hschedule, htest⟩ : ∃ l body stats,
      Generator.launch (pairRequest 8) = .ok l ∧ Generator.schedule l = .ok (body, stats) ∧
      decide (0 < l.graph.size ∧ (l.operator 0).isDynamic = false ∧
        .vector ∈ (l.operator 0).affinity.domains ∧ (l.operator 0).requiredUnits .vector = 8 ∧
        (l.operator 0).kernelType.blockIndex .vector = .hardware ∧
        l.shape.kernelType.unitsIn .vector = 1 ∧ (l.operator 0).blockCount = 4) = true :=
    Generator.exists_schedule_of_test (by decide +kernel)
  obtain ⟨hop, hstatic, hd, hneed, hindex, hunits, hblocks⟩ := of_decide_eq_true htest
  refine ⟨l, body, stats, hl, hschedule, hneed, ?_⟩
  rw [supply_of_hardware hl hschedule hop hstatic hd (FusedKernel.runsOn_sites _) hindex, hunits, hblocks]

end Launch

end KernelFusion
