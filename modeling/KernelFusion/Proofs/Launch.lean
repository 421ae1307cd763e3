import KernelFusion.Generator
import KernelFusion.Proofs.Connect

/-!
What a request that is accepted leaves to the scheduler.

Its events and its graph come from operators that were accepted, and its kernel type is mixed unless all
operators are of one domain. So a barrier over the whole launch is met by the units of every operator.
-/

namespace KernelFusion

/-! ### The kernel type of a launch -/

namespace LaunchShape

variable {ops : List Operator} {o : Operator}

theorem foldl_flags (n : Nat) : ops.foldl (fun n o => n ||| o.kernelType.flag) n = n ||| flagsOf ops := by
  induction ops generalizing n with
  | nil => simp [flagsOf]
  | cons o ops ih =>
    rw [flagsOf, List.foldl_cons, List.foldl_cons, ih, ih (0 ||| o.kernelType.flag), Nat.zero_or,
      Nat.or_assoc]

/-- Every type that occurs has its bit in the flags. -/
theorem flag_or_flagsOf (h : o ∈ ops) : o.kernelType.flag ||| flagsOf ops = flagsOf ops := by
  obtain ⟨front, back, rfl⟩ := List.append_of_mem h
  have hsplit : flagsOf (front ++ o :: back)
      = flagsOf front ||| (o.kernelType.flag ||| flagsOf back) := by
    rw [flagsOf, List.foldl_append, List.foldl_cons, foldl_flags, ← flagsOf, Nat.or_assoc]
  rw [hsplit, ← Nat.or_assoc, ← Nat.or_assoc, ← Nat.or_assoc, Nat.or_comm o.kernelType.flag,
    Nat.or_assoc (flagsOf front), Nat.or_self]

/-- A launch is of one domain only if all types that occur are. -/
theorem resolve_covers {flags maxCube maxVector : Nat} {t : KernelType}
    (h : t.flag ||| flags = flags) {d : Domain} (hd : d ∈ t.affinity.domains) :
    d ∈ (resolve flags maxCube maxVector).1.affinity.domains := by
  revert h hd
  unfold resolve
  split
  case h_8 =>
    intro _ _
    split <;> dsimp only <;> cases d <;> decide
  all_goals dsimp only; cases t <;> cases d <;> decide

theorem domain_mem_blocksOf (h : o ∈ ops) {d : Domain} (hd : d ∈ o.affinity.domains) :
    d ∈ (blocksOf ops).1.affinity.domains :=
  resolve_covers (flag_or_flagsOf h) hd

/-- Only the area for barriers can be missing; everything else of a shape is known from the operators. -/
theorem of_eq_some {feedSyncAll : Bool} {s : LaunchShape} (h : of ops feedSyncAll = some s) :
    s = fedBy ops s.feedSyncBytes := by
  rw [of] at h
  split at h
  · obtain ⟨bytes, _, rfl⟩ := Option.map_eq_some_iff.mp h
    rfl
  · cases Option.some.inj h
    rfl

end LaunchShape

/-! ### From a request -/

theorem Graph.operator_mem {g : Graph} {op : Nat} (h : op < g.size) : g.operator op ∈ g.operators := by
  rw [operator, List.getD_eq_getElem?_getD, List.getElem?_eq_getElem h]
  exact List.getElem_mem h

theorem Launch.operator_mem {l : Launch} {op : Nat} (h : op < l.graph.size) :
    l.operator op ∈ l.graph.operators :=
  Graph.operator_mem h

theorem Launch.exists_operator {l : Launch} {o : Operator} (ho : o ∈ l.graph.operators) :
    ∃ op < l.graph.size, l.operator op = o := by
  obtain ⟨op, hop, rfl⟩ := List.mem_iff_getElem.mp ho
  refine ⟨op, hop, ?_⟩
  rw [operator, Graph.operator, List.getD_eq_getElem?_getD, List.getElem?_eq_getElem hop, Option.getD_some]

theorem Launch.lt_size_of_isDynamic {l : Launch} {op : Nat} (h : (l.operator op).isDynamic = true) :
    op < l.graph.size := by
  by_contra hop
  have hnone : l.graph.operators[op]? = none := List.getElem?_eq_none (Nat.le_of_not_lt hop)
  rw [operator, Graph.operator, List.getD_eq_getElem?_getD, hnone] at h
  cases h

/-- The kernel type of a launch has all domains of its operators. -/
def Launch.Covered (l : Launch) : Prop :=
  ∀ op < l.graph.size, ∀ d ∈ (l.operator op).affinity.domains, d ∈ l.shape.kernelType.affinity.domains

/-- Two rounds on a graph go through if both do. -/
theorem EventPlan.andThen_eq_none {r : Graph × Option Error} {next : Graph → Graph × Option Error}
    {g : Graph} (h : andThen r next = (g, none)) : ∃ g₀, r = (g₀, none) ∧ next g₀ = (g, none) := by
  rcases r with ⟨g₀, _ | e⟩
  · exact ⟨g₀, rfl, h⟩
  · cases h

namespace Generator

/-- A graph is taken if its operators are, its edges are, and all of them point forward. -/
theorem graph_ok_iff {u : Units} {ops : List Operator} {p : EventPlan} {g : Graph} :
    graph u ops p = .ok g ↔ (Graph.empty u).addOperators ops = (⟨u, ops, []⟩, none) ∧
      p.connect ⟨u, ops, []⟩ = (g, none) ∧ ∀ e ∈ g.edges, e.producer < e.consumer := by
  rw [graph]
  constructor
  · intro h
    split at h
    · cases h
    next g' hboth =>
      obtain ⟨_, horder, h⟩ := bind_eq_ok.mp h
      cases Except.ok.inj h
      obtain ⟨g₀, hadd, hconnect⟩ := EventPlan.andThen_eq_none hboth
      cases Graph.addOperators_eq_ok hadd
      exact ⟨hadd, hconnect, Graph.order_forward horder⟩
  · rintro ⟨hadd, hconnect, hforward⟩
    rw [hadd, EventPlan.andThen, hconnect]
    exact bind_eq_ok.mpr ⟨_, Graph.order_of_forward hforward, rfl⟩

theorem shape_ok_iff {ops : List Operator} {o : Options} {s : LaunchShape} :
    shape ops o = .ok s ↔ LaunchShape.of ops o.feedSyncAll = some s := by
  rw [shape]
  cases LaunchShape.of ops o.feedSyncAll <;> simp

/-- The stages of a launch. -/
theorem launch_ok_iff {r : Request} {l : Launch} : launch r = .ok l ↔ ∃ o ops p s g,
    Options.parse r.options = .ok o ∧ r.check = .ok () ∧
    Operator.ofDescriptors o (units r o) 0 r.operators = .ok ops ∧
    EventPlan.analyze ops o.streamFusion = .ok p ∧ LaunchShape.of ops o.feedSyncAll = some s ∧
    graph (units r o) ops p = .ok g ∧ l = launchOf r o g p s := by
  constructor
  · intro h
    obtain ⟨o, hparse, h⟩ := bind_eq_ok.mp h
    obtain ⟨_, hcheck, h⟩ := bind_eq_ok.mp h
    obtain ⟨ops, hops, h⟩ := bind_eq_ok.mp h
    obtain ⟨p, hplan, h⟩ := bind_eq_ok.mp h
    obtain ⟨s, hshape, h⟩ := bind_eq_ok.mp h
    obtain ⟨g, hgraph, h⟩ := bind_eq_ok.mp h
    exact ⟨o, ops, p, s, g, hparse, hcheck, hops, hplan, shape_ok_iff.mp hshape, hgraph,
      (Except.ok.inj h).symm⟩
  · rintro ⟨o, ops, p, s, g, hparse, hcheck, hops, hplan, hshape, hgraph, rfl⟩
    simp only [launch, hparse, hcheck, hops, hplan, shape_ok_iff.mpr hshape, hgraph, bind, Except.bind]
    rfl

/-- The options of a launch are those of its request, and with them everything else of it is known. -/
theorem launch_resolved {r : Request} {l : Launch} (h : launch r = .ok l) : ∃ ops,
    Options.parse r.options = .ok l.options ∧ r.check = .ok () ∧
    Operator.ofDescriptors l.options (units r l.options) 0 r.operators = .ok ops ∧
    l.Accepted (units r l.options) ops l.options.streamFusion ∧
    LaunchShape.of ops l.options.feedSyncAll = some l.shape := by
  obtain ⟨o, ops, p, s, g, hparse, hcheck, hops, hplan, hshape, hgraph, rfl⟩ := launch_ok_iff.mp h
  obtain ⟨hadd, hconnect, _⟩ := graph_ok_iff.mp hgraph
  exact ⟨ops, hparse, hcheck, hops, ⟨hplan, _, hadd, by rw [launchOf, hconnect]⟩, hshape⟩

/-- A launch comes from operators that pass the checks of the request, and its shape covers them. -/
theorem launch_eq_ok {r : Request} {l : Launch} (h : launch r = .ok l) : ∃ o ops,
    r.check = .ok () ∧ Operator.ofDescriptors o (units r o) 0 r.operators = .ok ops ∧
    l.Accepted (units r o) ops o.streamFusion ∧ LaunchShape.of ops o.feedSyncAll = some l.shape := by
  obtain ⟨ops, _, hcheck, hops, haccepted, hshape⟩ := launch_resolved h
  exact ⟨l.options, ops, hcheck, hops, haccepted, hshape⟩

/-- The launch of an accepted request. -/
theorem launch_accepted {r : Request} {l : Launch} (h : launch r = .ok l) :
    ∃ units ops fusion, l.Accepted units ops fusion ∧ l.Covered := by
  obtain ⟨o, ops, _, _, haccepted, hshape⟩ := launch_eq_ok h
  refine ⟨_, _, _, haccepted, fun op hop d hd => ?_⟩
  have hmem : l.operator op ∈ ops := haccepted.spec.1 ▸ Launch.operator_mem hop
  rw [LaunchShape.of_eq_some hshape]
  exact LaunchShape.domain_mem_blocksOf hmem hd

theorem launch_wellFormed {r : Request} {l : Launch} (h : launch r = .ok l) : l.graph.WellFormed := by
  obtain ⟨_, _, _, haccepted, _⟩ := launch_accepted h
  exact haccepted.linked.toWellFormed

theorem generate_ok_iff {r : Request} {k : FusedKernel} : generate r = .ok k ↔ ∃ l body stats,
    launch r = .ok l ∧ schedule l = .ok (body, stats) ∧ k = kernel l body stats := by
  constructor
  · intro h
    obtain ⟨l, hl, h⟩ := bind_eq_ok.mp h
    obtain ⟨⟨body, stats⟩, hschedule, h⟩ := bind_eq_ok.mp h
    exact ⟨l, body, stats, hl, hschedule, (Except.ok.inj h).symm⟩
  · rintro ⟨l, body, stats, hl, hschedule, rfl⟩
    exact bind_eq_ok.mpr ⟨l, hl, bind_eq_ok.mpr ⟨_, hschedule, rfl⟩⟩

/-- Running a computation and testing its result. -/
theorem exists_of_test {α : Type} {x : Except Error α} {test : α → Bool}
    (h : x.toOption.any test = true) : ∃ a, x = .ok a ∧ test a = true := by
  cases x with
  | error e => cases h
  | ok a => exact ⟨a, rfl, h⟩

theorem exists_schedule_of_test {r : Request} {test : Launch → Bool}
    (h : (launch r).toOption.any (fun l => (schedule l).toOption.isSome && test l) = true) :
    ∃ l body stats, launch r = .ok l ∧ schedule l = .ok (body, stats) ∧ test l = true := by
  obtain ⟨l, hl, htest⟩ := exists_of_test h
  obtain ⟨hschedule, htest⟩ := Bool.and_eq_true_iff.mp htest
  cases hs : schedule l with
  | error e => simp [hs, Except.toOption] at hschedule
  | ok s => exact ⟨l, s.1, s.2, hl, hs, htest⟩

end Generator

/-- A static operator of eight blocks, as a request has it. -/
def OperatorDescriptor.onStream (stream : UInt32) (name : String) (t : KernelType)
    (sends recvs : List UInt32) : OperatorDescriptor :=
  { (default : OperatorDescriptor) with
    name := name, kernelType := t.name, blockDim := 8, streamId := stream
    functions := ⟨some s!"{name}_vec", some s!"{name}_cube"⟩, sendEvents := sends, recvEvents := recvs }

/-- A dynamic operator that declares a type, as a request has it. -/
def OperatorDescriptor.choosing (name : String) (t : KernelType) (cases : List TilingCase) :
    OperatorDescriptor :=
  { (default : OperatorDescriptor) with
    name := name, kernelType := t.name, taskType := .dynamic, tiling := cases }

/-- A request for a machine of the usual size. -/
def Request.ofOperators (options : String) (ops : List OperatorDescriptor) : Request :=
  ⟨"fused", options, default, ops⟩

end KernelFusion
