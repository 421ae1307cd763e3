import KernelFusion.Device.Variants
import KernelFusion.Proofs.Store

/-!
The store of operators and edges under any sequence of calls.

A call adds one operator or one edge, or it is refused and adds nothing. What the store promises holds
before the first call, and every call keeps it: operators fit the hardware; edges are named by their
positions, join operators that exist, and are all different; and an edge is free of synchronization only
where both of its ends send every unit the same way.

        empty ─ call ─ call ─ refused ─ call ─ …
        sound   sound   sound   same      sound
-/

namespace KernelFusion

/-! ### Operators that fit the hardware -/

/-- An operator that the hardware has the units for. -/
structure Operator.Fits (u : Units) (o : Operator) : Prop where
  split : 1 ≤ o.split
  blocks : 1 ≤ o.blockCount
  units : ∀ d, o.requiredUnits d ≤ u.get d

theorem Operator.requiredUnits_of_not_mem {o : Operator} {d : Domain} (h : d ∉ o.affinity.domains) :
    o.requiredUnits d = 0 := by
  have hcontains : o.affinity.contains d = false := by
    rw [Affinity.contains, List.contains_eq_mem]
    exact decide_eq_false h
  simp [requiredUnits, hcontains]

namespace Graph

variable {g g' : Graph} {s : EdgeSpec} {e : Edge} {o : Operator} {u : Units}

theorem checkUnits_ok_iff : checkUnits u o = .ok () ↔ ∀ d, o.requiredUnits d ≤ u.get d := by
  have hcheck : ∀ d, (if u.get d < o.requiredUnits d then
      throw (.invalidOperator o.name (.tooFewUnits (o.requiredUnits d) d (u.get d))) else pure () :
        Except Error Unit) = .ok () ↔ o.requiredUnits d ≤ u.get d := by
    intro d
    by_cases hd : u.get d < o.requiredUnits d
    · simp [hd, throw, throwThe, MonadExceptOf.throw]
    · simp [hd, Nat.le_of_not_lt hd, pure, Except.pure]
  rw [checkUnits, forM_ok_iff]
  constructor
  · intro h d
    by_cases hd : d ∈ o.affinity.domains
    · exact (hcheck d).mp (h d hd)
    · rw [Operator.requiredUnits_of_not_mem hd]
      exact Nat.zero_le _
  · intro h d _
    exact (hcheck d).mpr (h d)

theorem admits_iff : Admits u o ↔ o.Fits u := by
  constructor
  · rintro ⟨hsplit, hblocks, hunits⟩
    exact ⟨Nat.pos_of_ne_zero hsplit, Nat.pos_of_ne_zero hblocks, checkUnits_ok_iff.mp hunits⟩
  · rintro ⟨hsplit, hblocks, hunits⟩
    exact ⟨Nat.ne_of_gt hsplit, Nat.ne_of_gt hblocks, checkUnits_ok_iff.mpr hunits⟩

end Graph

/-! ### Operators on the same units -/

/-- The rule that sends units to the variants of an operator in a domain. -/
def Operator.routing (o : Operator) (d : Domain) : RoutingRule := .make d o.blockCount o.split

/-- Two static operators of one stream and one domain that send every unit the same way: both pass it
over, or both run it on the same variant. -/
structure Operator.SharesUnits (p c : Operator) : Prop where
  static : p.isDynamic = false ∧ c.isDynamic = false
  stream : p.stream = c.stream
  affinity : p.affinity = c.affinity
  single : p.affinity ≠ .mixed
  routes : ∀ d u, (p.routing d).route u = (c.routing d).route u
  index : ∀ d, p.kernelType.blockIndex d = c.kernelType.blockIndex d

namespace Graph

variable {g g' : Graph} {s : EdgeSpec} {e : Edge} {o : Operator}

/-- What the check of an edge that claims to need no synchronization comes down to. -/
theorem sharesUnits_of_sameUnits (h : g.sameUnits s = true) : s.consumer = s.producer + 1 ∧
    (g.operator s.producer).SharesUnits (g.operator s.consumer) := by
  simp only [sameUnits, Bool.and_eq_true, decide_eq_true_eq, Bool.not_eq_true'] at h
  obtain ⟨⟨⟨⟨⟨⟨⟨⟨⟨hnext, _⟩, hp⟩, hc⟩, haffinity⟩, hsingle⟩, _⟩, hblocks⟩, hsplit⟩, hstream⟩ := h
  refine ⟨hnext, ⟨hp, hc⟩, hstream, haffinity, hsingle, fun d u => ?_, fun d => ?_⟩
  · rw [Operator.routing, Operator.routing, hblocks, hsplit]
  · -- The index depends on the domains of the kernel type alone.
    unfold Operator.affinity at haffinity
    unfold KernelType.blockIndex
    rw [haffinity]

/-! ### What the store promises -/

structure Sound (g : Graph) : Prop extends WellFormed g where
  distinct : g.edges.Pairwise fun a b =>
    ¬(a.producer = b.producer ∧ a.consumer = b.consumer ∧ a.pair = b.pair)
  fits : ∀ o ∈ g.operators, o.Fits g.units
  shared : ∀ e ∈ g.edges, e.explicitSync = false → e.consumer = e.producer + 1 ∧
    (g.operator e.producer).SharesUnits (g.operator e.consumer)

theorem empty_sound (units : Units) : (empty units).Sound where
  toWellFormed := empty_wellFormed units
  distinct := List.Pairwise.nil
  fits := by simp [empty]
  shared := by simp [empty]

theorem operator_of_lt {op : Nat} (h : op < g.size) :
    (g.pushOperator o).operator op = g.operator op := by
  rw [operator, operator, List.getD_eq_getElem?_getD, List.getD_eq_getElem?_getD]
  exact congrArg (·.getD default) (List.getElem?_append_left h)

theorem Sound.pushOperator (h : g.Sound) (ho : o.Fits g.units) : (g.pushOperator o).Sound := by
  refine ⟨h.toWellFormed.pushOperator o, h.distinct, ?_, ?_⟩
  · intro o' ho'
    rcases List.mem_append.mp ho' with ho' | ho'
    · exact h.fits o' ho'
    · rw [List.mem_singleton.mp ho']
      exact ho
  · -- Operators keep their positions, so the ends of an edge are what they were.
    intro e he hs
    obtain ⟨hp, hc⟩ := h.ends e he
    rw [operator_of_lt hp, operator_of_lt hc]
    exact h.shared e he hs

theorem Sound.push (h : g.Sound) (hp : s.producer < g.size) (hc : s.consumer < g.size)
    (hnew : g.hasEdge s.producer s.consumer s.pair = false) : (g.push s).Sound := by
  refine ⟨h.toWellFormed.push hp hc, ?_, h.fits, ?_⟩
  · refine List.pairwise_append.mpr ⟨h.distinct, List.pairwise_singleton _ _, ?_⟩
    intro a ha b hb hsame
    cases List.mem_singleton.mp hb
    have hedge : g.hasEdge s.producer s.consumer s.pair = true := hasEdge_iff.mpr ⟨a, ha, hsame⟩
    rw [hnew] at hedge
    cases hedge
  · intro e he hs
    rcases mem_push.mp he with he | rfl
    · exact h.shared e he hs
    · simp only [newEdge, Bool.not_eq_false', Bool.and_eq_true] at hs
      exact sharesUnits_of_sameUnits hs.2

/-! ### Calls -/

/-- What the store can be asked for. -/
inductive Call where
  | operator (o : Operator)
  | edge (s : EdgeSpec)

namespace Call

variable {c : Call}

/-- The graph behind a call, and the position of what was added or why nothing was. -/
def attempt (g : Graph) : Call → Graph × Except Error Nat
  | .operator o => g.addOperator o
  | .edge s => g.addEdge s

/-- What is asked of a call: an operator fits, and an edge is new and joins operators that exist. -/
def Valid (g : Graph) : Call → Prop
  | .operator o => o.Fits g.units
  | .edge s => s.producer < g.size ∧ s.consumer < g.size ∧
      ∀ e ∈ g.edges, ¬(e.producer = s.producer ∧ e.consumer = s.consumer ∧ e.pair = s.pair)

/-- The graph with one thing more at its end. -/
def extend (g : Graph) : Call → Graph
  | .operator o => g.pushOperator o
  | .edge s => g.push s

/-- The position of the next thing of the same kind. -/
def place (g : Graph) : Call → Nat
  | .operator _ => g.size
  | .edge _ => g.edges.length

theorem hasEdge_eq_false_iff : g.hasEdge s.producer s.consumer s.pair = false ↔
    ∀ e ∈ g.edges, ¬(e.producer = s.producer ∧ e.consumer = s.consumer ∧ e.pair = s.pair) := by
  rw [← Bool.not_eq_true, hasEdge_iff]
  push Not
  rfl

/-- A call that is valid adds what it asks for, and one that is not adds nothing. -/
theorem attempt_cases (g : Graph) (c : Call) :
    (c.Valid g ∧ c.attempt g = (c.extend g, .ok (c.place g))) ∨
    (¬c.Valid g ∧ ∃ err, c.attempt g = (g, .error err)) := by
  cases c with
  | operator o =>
    have hcases := addOperator_cases g o
    rwa [admits_iff] at hcases
  | edge s =>
    have hcases := addEdge_cases g s
    rw [hasEdge_eq_false_iff] at hcases
    rcases hcases with ⟨hp, hc, hnew, hadd⟩ | hrefused
    · exact .inl ⟨⟨hp, hc, hnew⟩, hadd⟩
    · exact .inr hrefused

theorem sound_extend (hg : g.Sound) (h : c.Valid g) : (c.extend g).Sound := by
  cases c with
  | operator o => exact hg.pushOperator h
  | edge s =>
    obtain ⟨hp, hc, hnew⟩ := h
    exact hg.push hp hc (hasEdge_eq_false_iff.mpr hnew)

end Call

/-- The store behind a call. -/
def after (g : Graph) (c : Call) : Graph := (c.attempt g).1

/-- The store behind calls, with nothing in it before the first of them. -/
def store (units : Units) (cs : List Call) : Graph := cs.foldl after (empty units)

/-- What every call that is valid keeps, all calls keep. -/
theorem foldl_after_keeps {motive : Graph → Prop}
    (hstep : ∀ (g : Graph) (c : Call), motive g → c.Valid g → motive (c.extend g)) (cs : List Call)
    (hg : motive g) : motive (cs.foldl after g) := by
  induction cs generalizing g with
  | nil => exact hg
  | cons c cs ih =>
    rw [List.foldl_cons]
    apply ih
    rcases Call.attempt_cases g c with ⟨hvalid, hc⟩ | ⟨-, err, hc⟩
    · rw [after, hc]
      exact hstep g c hg hvalid
    · rw [after, hc]
      exact hg

/-- CORRECT: behind any calls the store is sound. A further call is taken exactly if it is valid, and
then adds what it asks for and nothing else, and answers with its position; otherwise it answers with an
error and changes nothing. -/
theorem store_sound (units : Units) (cs : List Call) :
    (store units cs).units = units ∧ (store units cs).Sound ∧ ∀ c : Call,
      (c.Valid (store units cs) →
        c.attempt (store units cs) = (c.extend (store units cs), .ok (c.place (store units cs))) ∧
        (store units cs).after c = c.extend (store units cs)) ∧
      (¬c.Valid (store units cs) → ∃ err, c.attempt (store units cs) = (store units cs, .error err) ∧
        (store units cs).after c = store units cs) := by
  refine ⟨?_, ?_, fun c => ?_⟩
  · refine foldl_after_keeps (motive := fun g => g.units = units) ?_ cs rfl
    intro g c hg _
    cases c <;> exact hg
  · refine foldl_after_keeps ?_ cs (empty_sound units)
    intro g c hg hvalid
    exact Call.sound_extend hg hvalid
  · rcases Call.attempt_cases (store units cs) c with ⟨hvalid, hc⟩ | ⟨hinvalid, err, hc⟩
    · refine ⟨fun _ => ⟨hc, ?_⟩, fun hnot => absurd hvalid hnot⟩
      rw [after, hc]
    · refine ⟨fun hv => absurd hv hinvalid, fun _ => ⟨err, hc, ?_⟩⟩
      rw [after, hc]

end Graph

end KernelFusion
