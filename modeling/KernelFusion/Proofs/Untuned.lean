import KernelFusion.Proofs.FeedSize
import KernelFusion.Proofs.Neutral

/-!
What tuning options leave of a launch.

Two fields of an operator come from tuning options: the number of its variants and its cache flushes.
`untuned` gives them, and what depends on them, one fixed value. Requests that differ in tuning options
have launches that differ in those fields only:

        request ──── options ──── operators ──── graph ──── launch
                        │             │            │           │
                     untuned       untuned      untuned     untuned

Both fields are outside of what events, edges and steps are made from. The number of variants takes part
in one decision all the same, and all operators of a request have the same number, so it never decides.
-/

namespace KernelFusion

/-! ### Operators -/

namespace Operator

/-- The operator without what comes from tuning options. -/
def untuned (o : Operator) : Operator := { o with split := 0, cache := ⟨false, false⟩ }

theorem neutral_untuned : Neutral untuned where
  default := rfl
  name _ := rfl
  kernelType _ := rfl
  blockCount _ := rfl
  isDynamic _ := rfl
  stream _ := rfl
  sendEvents _ := rfl
  recvEvents _ := rfl
  unitLocal _ := rfl

variable {o o' : Options} {u : Units} {d : OperatorDescriptor} {ds : List OperatorDescriptor}
  {ops : List Operator} {index : Nat}

/-- A descriptor resolved by options that differ in tuning only. -/
theorem ofDescriptor_retuned (u : Units) (index : Nat) (h : o'.untuned = o.untuned)
    (hd : d.splitMode = none) :
    ofDescriptor o' u index d = (ofDescriptor o u index d).map fun op =>
      { op with split := o'.splitMode, cache := cacheFlags d o' } := by
  have hearly : o'.earlyStart = o.earlyStart := (Options.untuned_eq_iff.mp h).1
  have hsplit : ∀ options, checkSplit d options = .ok () := fun options => by simp [checkSplit, hd]
  have hcheck : checkEarlyStart d o' = checkEarlyStart d o := by simp [checkEarlyStart, hearly]
  simp only [ofDescriptor, hsplit, hcheck, hearly]
  cases d.resolvedType with
  | error e => rfl
  | ok t =>
    cases checkEarlyStart d o with
    | error e => rfl
    | ok _ =>
      simp only [bind, Except.bind]
      cases dispatchOf d t u <;> rfl

theorem ofDescriptors_retuned (h : o'.untuned = o.untuned) (hds : ∀ d ∈ ds, d.splitMode = none)
    (hops : ofDescriptors o u index ds = .ok ops) :
    ∃ ops', ofDescriptors o' u index ds = .ok ops' ∧ ops'.map untuned = ops.map untuned := by
  induction ds generalizing index ops with
  | nil =>
    cases Except.ok.inj hops
    exact ⟨[], rfl, rfl⟩
  | cons d ds ih =>
    obtain ⟨hd, hds⟩ := List.forall_mem_cons.mp hds
    obtain ⟨op, hop, hops⟩ := bind_eq_ok.mp hops
    obtain ⟨rest, hrest, hops⟩ := bind_eq_ok.mp hops
    cases Except.ok.inj hops
    obtain ⟨rest', hrest', huntuned⟩ := ih hds hrest
    refine ⟨{ op with split := o'.splitMode, cache := cacheFlags d o' } :: rest', ?_, ?_⟩
    · rw [ofDescriptors, ofDescriptor_retuned u index h hd, hop, hrest']
      rfl
    · rw [List.map_cons, List.map_cons, huntuned]
      rfl

/-- All operators of a request have the number of variants that the options give. -/
theorem split_ofDescriptors (hops : ofDescriptors o u index ds = .ok ops) :
    ∀ op ∈ ops, op.split = o.splitMode := by
  induction ds generalizing index ops with
  | nil =>
    cases Except.ok.inj hops
    simp
  | cons d ds ih =>
    obtain ⟨op, hop, hops⟩ := bind_eq_ok.mp hops
    obtain ⟨rest, hrest, hops⟩ := bind_eq_ok.mp hops
    cases Except.ok.inj hops
    obtain ⟨_, _, _, hsplit⟩ := ofDescriptor_eq_ok hop
    exact List.forall_mem_cons.mpr ⟨hsplit, ih hrest⟩

end Operator

/-! ### Graphs -/

namespace Graph

variable {g : Graph}

def untuned (g : Graph) : Graph := { g with operators := g.operators.map Operator.untuned }

@[simp] theorem untuned_edges : g.untuned.edges = g.edges := rfl

theorem Admits.retuned {u : Units} {o o' : Operator} (h : Admits u o) (heq : o'.untuned = o.untuned)
    (hs : o'.split ≠ 0) : Admits u o' where
  split := hs
  blocks := by
    have hblocks : o'.untuned.blockCount = o.untuned.blockCount := congrArg Operator.blockCount heq
    exact fun hzero => h.blocks (hblocks ▸ hzero)
  units := by
    have hunits : checkUnits u o'.untuned = checkUnits u o.untuned := congrArg (checkUnits u) heq
    exact hunits.trans h.units

/-- All operators have one number of variants. -/
def OneSplit (g : Graph) : Prop := ∃ n, ∀ o ∈ g.operators, o.split = n

/-- Where all operators have one number of variants, it never decides whether two of them stay on their
units. -/
theorem OneSplit.splitsKept (h : g.OneSplit) : g.SplitsKept Operator.untuned := by
  obtain ⟨n, hn⟩ := h
  intro a ha b hb
  exact iff_of_true rfl ((hn a ha).trans (hn b hb).symm)

end Graph

/-! ### Launches -/

theorem LaunchShape.fedBy_untuned (ops : List Operator) (bytes : Nat) :
    fedBy (ops.map Operator.untuned) bytes = fedBy ops bytes := by
  have hdump : (ops.map Operator.untuned).filter Operator.dump
      = (ops.filter Operator.dump).map Operator.untuned := List.filter_map
  simp only [fedBy, blocksOf_map Operator.neutral_untuned, maxUnitsOf_map Operator.neutral_untuned,
    hdump, List.isEmpty_map, List.flatMap_map, List.foldl_map, List.length_map]
  rfl

/-- The launch without what comes from tuning options. -/
def Launch.untuned (l : Launch) : Launch where
  kernelName := l.kernelName
  options := l.options.untuned
  graph := l.graph.untuned
  events := l.events
  table := .assign l.graph.untuned l.events false false
  shape := { l.shape with feedSyncBytes := 0 }
  earlyStart := l.earlyStart

/-- Requests without splits of their own that differ in tuning options only, all of them accepted. -/
structure Request.Retuned (r r' : Request) : Prop where
  kernelName : r'.kernelName = r.kernelName
  hardware : r'.hardware = r.hardware
  operators : r'.operators = r.operators
  splits : ∀ d ∈ r.operators, d.splitMode = none
  accepted : Options.TuningAccepted (Options.assignments r.options)
  accepted' : Options.TuningAccepted (Options.assignments r'.options)
  others : Options.others (Options.assignments r'.options)
    = Options.others (Options.assignments r.options)

theorem Request.Retuned.symm {r r' : Request} (h : r.Retuned r') : r'.Retuned r where
  kernelName := h.kernelName.symm
  hardware := h.hardware.symm
  operators := h.operators.symm
  splits := h.operators ▸ h.splits
  accepted := h.accepted'
  accepted' := h.accepted
  others := h.others.symm

namespace Generator

variable {u : Units} {ops ops' : List Operator} {p : EventPlan} {g : Graph} {n n' : Nat}

theorem graph_retuned (hops : ops'.map Operator.untuned = ops.map Operator.untuned)
    (hs : ∀ op ∈ ops, op.split = n) (hs' : ∀ op ∈ ops', op.split = n') (hn' : n' ≠ 0)
    (h : graph u ops p = .ok g) : ∃ g', graph u ops' p = .ok g' ∧ g'.untuned = g.untuned := by
  obtain ⟨hadd, hconnect, hforward⟩ := graph_ok_iff.mp h
  obtain ⟨hadmits, _⟩ := Graph.addOperators_ok_iff.mp hadd
  -- both graphs are connected as the untuned one is
  have hround : EventPlan.mapRound Operator.untuned (p.connect ⟨u, ops', []⟩) = (g.untuned, none) := by
    rw [EventPlan.connect_congr Operator.neutral_untuned (Graph.OneSplit.splitsKept ⟨n, hs⟩)
      (Graph.OneSplit.splitsKept ⟨n', hs'⟩) hops, hconnect]
    rfl
  have hg : (p.connect ⟨u, ops', []⟩).1.untuned = g.untuned := congrArg Prod.fst hround
  have hnone : (p.connect ⟨u, ops', []⟩).2 = none := congrArg Prod.snd hround
  have hedges : (p.connect ⟨u, ops', []⟩).1.untuned.edges = g.untuned.edges := by rw [hg]
  refine ⟨_, graph_ok_iff.mpr ⟨Graph.addOperators_ok_iff.mpr ⟨?_, rfl⟩, Prod.ext rfl hnone, ?_⟩, hg⟩
  · intro o' ho'
    obtain ⟨o, ho, heq⟩ := List.mem_map.mp (hops ▸ List.mem_map_of_mem ho')
    exact (hadmits o ho).retuned heq.symm (hs' o' ho' ▸ hn')
  · rw [← Graph.untuned_edges, hedges]
    exact hforward

/-- Requests that differ in tuning options are taken together, and have the same untuned launch. -/
theorem launch_retuned {r r' : Request} {l : Launch} (h : r.Retuned r') (hl : launch r = .ok l) :
    ∃ l', launch r' = .ok l' ∧ l'.untuned = l.untuned := by
  obtain ⟨o, ops, p, s, g, ho, hcheck, hops, hplan, hs, hgraph, rfl⟩ := launch_ok_iff.mp hl
  obtain ⟨o', ho', hoptions⟩ := Options.parse_retuned h.accepted h.accepted' h.others ho
  obtain ⟨hearly, hfusion, -, hcube, hvector⟩ := Options.untuned_eq_iff.mp hoptions
  have hunits : units r' o' = units r o := by simp only [units, h.hardware, hcube, hvector]
  obtain ⟨ops', hops', hmap⟩ := Operator.ofDescriptors_retuned hoptions h.splits hops
  have hplan' : EventPlan.analyze ops' o'.streamFusion = .ok p := by
    rw [← EventPlan.analyze_map Operator.neutral_untuned, hmap,
      EventPlan.analyze_map Operator.neutral_untuned, hfusion, hplan]
  obtain ⟨g', hgraph', hg⟩ := graph_retuned hmap (Operator.split_ofDescriptors hops)
    (Operator.split_ofDescriptors hops') (Options.parse_splitMode ho') hgraph
  have hcheck' : r'.check = .ok () := by
    rw [← hcheck, Request.check, Request.check, h.kernelName, h.hardware, h.operators]
  rw [← hunits] at hops' hgraph'
  rw [← h.operators] at hops'
  -- `feed-sync-all` asks for an area of which operators of a request always have a size
  obtain ⟨s', hs'⟩ := shape_found ho' hcheck' hops' o'.feedSyncAll
  refine ⟨launchOf r' o' g' p s', ?_, ?_⟩
  · exact launch_ok_iff.mpr ⟨o', ops', p, s', g', ho', hcheck', hops', hplan', hs', hgraph', rfl⟩
  · have hhandshake : usesHandshake o' p = usesHandshake o p := by
      rw [usesHandshake, usesHandshake, hearly]
    -- the size of that area is all of the shape that depends on the option
    have hshape : { s' with feedSyncBytes := 0 } = { s with feedSyncBytes := 0 } := by
      rw [LaunchShape.of_eq_some hs', LaunchShape.of_eq_some hs, ← LaunchShape.fedBy_untuned ops', hmap,
        LaunchShape.fedBy_untuned]
      rfl
    simp only [Launch.untuned, launchOf, hoptions, hg, h.kernelName, hhandshake, hshape]

end Generator

end KernelFusion
