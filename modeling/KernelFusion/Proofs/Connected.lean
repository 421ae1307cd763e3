import KernelFusion.Proofs.Connect

/-!
The edges of a plan order its operators.

Each operator stays behind the one that it follows, and a receiver behind its sender. An edge that two
rounds ask for is added by the first of them only, so that an inner event may be left to an edge of the
sequence. No edge between two streams is ever free of synchronization, and an inner event is always
between two streams.
-/

namespace KernelFusion

/-! ### Between two streams -/

namespace Graph

variable {g : Graph} {s : EdgeSpec}

/-- Edges between two streams are synchronized. -/
def StreamsApart (g : Graph) : Prop := ∀ e ∈ g.edges,
  (g.operator e.producer).stream ≠ (g.operator e.consumer).stream → e.explicitSync = true

theorem newEdge_explicit_of_streams
    (h : (g.operator s.producer).stream ≠ (g.operator s.consumer).stream) :
    (g.newEdge s).explicitSync = true := by
  simp [newEdge, sameUnits, h]

theorem StreamsApart.push (h : g.StreamsApart) (s : EdgeSpec) : (g.push s).StreamsApart := by
  intro e he hstreams
  rcases mem_push.mp he with he | rfl
  · exact h e he hstreams
  · exact newEdge_explicit_of_streams hstreams

theorem Linked.pairwise_distinct (h : g.Linked) : g.edges.Pairwise fun a b =>
    ¬(a.producer = b.producer ∧ a.consumer = b.consumer ∧ a.pair = b.pair) := by
  refine (List.Nodup.of_map _ h.nodup_ids).imp_of_mem fun ha hb hne => ?_
  rintro ⟨hp, hc, hpair⟩
  exact hne (h.unique _ ha _ hb hp hc hpair)

end Graph

namespace EventPlan

/-! ### A whole round -/

variable {motive : Graph → Prop} {g : Graph} {p : EventPlan}

/-- What every new edge keeps, rounds keep, whether or not they come to their end. -/
theorem addAll_keeps (hpush : ∀ g s, motive g → motive (g.push s)) (ss : List EdgeSpec)
    (h : motive g) : motive (addAll g ss).1 := by
  induction ss generalizing g with
  | nil => exact h
  | cons s ss ih =>
    rw [addAll]
    rcases Graph.addEdge_cases g s with ⟨_, _, _, hs⟩ | ⟨_, err, hs⟩
    · rw [hs]
      exact ih (hpush g s h)
    · rw [hs]
      exact h

theorem addMissing_keeps (hpush : ∀ g s, motive g → motive (g.push s)) (ss : List EdgeSpec)
    (h : motive g) : motive (addMissing g ss).1 := by
  induction ss generalizing g with
  | nil => exact h
  | cons s ss ih =>
    rw [addMissing]
    split
    · exact ih h
    · rcases Graph.addEdge_cases g s with ⟨_, _, _, hs⟩ | ⟨_, err, hs⟩
      · rw [hs]
        exact ih (hpush g s h)
      · rw [hs]
        exact h

theorem andThen_keeps {r : Graph × Option Error} {next : Graph → Graph × Option Error}
    (h : motive r.1) (hnext : ∀ g, motive g → motive (next g).1) : motive (andThen r next).1 := by
  rcases r with ⟨g, _ | e⟩
  · exact hnext g h
  · exact h

theorem connect_keeps (hpush : ∀ g s, motive g → motive (g.push s)) (h : motive g) :
    motive (p.connect g).1 :=
  andThen_keeps (addAll_keeps hpush _ h) fun _ h =>
    andThen_keeps (addMissing_keeps hpush _ h) fun _ h => addAll_keeps hpush _ h

/-! ### Inner events -/

variable {ops : List Operator} {fusion : Bool} {inner : List InnerEvent} {x : InnerEvent} {i k : Nat}
  {a b : Operator}

/-- The ends of an inner event are on two streams. -/
theorem Analyzed.inner_streams (h : Analyzed g.operators fusion p) (hx : x ∈ p.inner) :
    (g.operator x.sender).stream ≠ (g.operator x.receiver).stream := by
  obtain ⟨hlt, ⟨a, ha, hs⟩, ⟨b, hb, hr⟩⟩ := h.mem_inner.mp hx
  have hstreams : a.stream ≠ b.stream := h.apart hlt ha hb ⟨x.event, hs, hr⟩
  simpa [Graph.operator, List.getD_eq_getElem?_getD, ha, hb] using hstreams

/-! ### The operator that another one follows -/

/-- Some operator has to run before this one. -/
def HasEarlier (mode : ScheduleMode) (g : Graph) (op : Nat) : Prop :=
  match mode with
  | .singleStream => 0 < op
  | .twoStream => ∃ q < op, (g.operator q).stream = (g.operator op).stream

/-- The last one of those: the neighbour, or the latest one on the same stream. -/
def Follows (mode : ScheduleMode) (g : Graph) (q op : Nat) : Prop :=
  match mode with
  | .singleStream => q + 1 = op
  | .twoStream => q < op ∧ (g.operator q).stream = (g.operator op).stream ∧
      ∀ k, q < k → k < op → (g.operator k).stream ≠ (g.operator op).stream

theorem find?_reverse_range {test : Nat → Bool} {n q : Nat}
    (h : (List.range n).reverse.find? test = some q) :
    q < n ∧ test q = true ∧ ∀ k, q < k → k < n → test k = false := by
  induction n with
  | zero => cases h
  | succ n ih =>
    rw [List.range_succ, List.reverse_append, List.reverse_singleton, List.singleton_append,
      List.find?_cons] at h
    split at h
    next htest =>
      cases Option.some.inj h
      exact ⟨Nat.lt_succ_self _, htest, fun k hk hk' => by omega⟩
    next htest =>
      obtain ⟨hlt, hq, hnone⟩ := ih h
      refine ⟨Nat.lt_succ_of_lt hlt, hq, fun k hk hk' => ?_⟩
      rcases Nat.lt_succ_iff_lt_or_eq.mp hk' with hk' | rfl
      · exact hnone k hk hk'
      · exact htest

/-- Whoever has an operator before it follows one, and the plan finds it. -/
theorem exists_predecessor {mode : ScheduleMode} {op : Nat} (h : HasEarlier mode g op) :
    ∃ q, Follows mode g q op ∧ predecessor? mode g op = some q := by
  cases mode with
  | singleStream =>
    have hop : 0 < op := h
    exact ⟨op - 1, Nat.sub_add_cancel hop, by simp [predecessor?, Nat.ne_of_gt hop]⟩
  | twoStream =>
    obtain ⟨q, hq, hstream⟩ := h
    cases hfound : predecessor? .twoStream g op with
    | none =>
      have := List.find?_eq_none.mp hfound q (by simpa using hq)
      exact absurd hstream (by simpa using this)
    | some q' =>
      obtain ⟨hlt, hsame, hlatest⟩ := find?_reverse_range hfound
      refine ⟨q', ⟨hlt, of_decide_eq_true hsame, fun k hk hk' => ?_⟩, rfl⟩
      exact of_decide_eq_false (hlatest k hk hk')

/-! ### The graph of a plan -/

/-- A graph with the edges that its events ask for, none of them twice. -/
structure Connected (p : EventPlan) (g : Graph) : Prop where
  unique : g.edges.Pairwise fun a b =>
    ¬(a.producer = b.producer ∧ a.consumer = b.consumer ∧ a.pair = b.pair)
  domains : ∀ e ∈ g.edges, e.pair.producer ∈ (g.operator e.producer).affinity.domains ∧
    e.pair.consumer ∈ (g.operator e.consumer).affinity.domains
  sequence : ∀ op < g.size, HasEarlier p.mode g op → ∃ q, Follows p.mode g q op ∧
    ∀ pair ∈ g.pairs q op, ∃ e ∈ g.edges, e.producer = q ∧ e.consumer = op ∧ e.pair = pair
  inner : ∀ x ∈ p.inner, ∀ pair ∈ g.pairs x.sender x.receiver, ∃ e ∈ g.edges,
    e.producer = x.sender ∧ e.consumer = x.receiver ∧ e.pair = pair ∧ e.explicitSync = true
  handoff : p.mode = .twoStream → ∀ op, op + 1 < g.size → (g.operator op).affinity = .mixed →
    p.sends op ≠ [] → (g.operator op).stream ≠ (g.operator (op + 1)).stream → Joined g op (op + 1)

theorem specs_subset_eventSpecs (hx : x ∈ p.inner) :
    ∀ s ∈ specs g x.sender x.receiver (.event x.event) false, s ∈ p.eventSpecs g :=
  fun _ hs => List.mem_flatMap.mpr ⟨x, hx, hs⟩

theorem Extends.keeps {g' : Graph} {ss : List EdgeSpec} {q c : Nat} {pair : DomainPair}
    (h : Extends g ss g') (hedge : g.hasEdge q c pair = true) : g'.hasEdge q c pair = true :=
  (h.hasEdge q c pair).mpr (.inl hedge)

theorem Extends.hasEdge_of_specs {g' : Graph} {ss : List EdgeSpec} {q c : Nat} {o : EdgeOrigin}
    {u : Bool} (h : Extends g ss g') (hss : ∀ s ∈ specs g q c o u, s ∈ ss) {pair : DomainPair}
    (hpair : pair ∈ g.pairs q c) : g'.hasEdge q c pair = true :=
  (h.hasEdge q c pair).mpr (.inr ⟨⟨q, c, pair, o, u⟩, hss _ (mem_specs.mpr ⟨hpair, rfl⟩), rfl, rfl, rfl⟩)

theorem predecessor?_congr {g' : Graph} (h : g'.operators = g.operators) (mode : ScheduleMode)
    (op : Nat) : predecessor? mode g' op = predecessor? mode g op := by
  have hoperator : g'.operator = g.operator := funext fun q => by simp only [Graph.operator, h]
  unfold predecessor?
  rw [hoperator]

/-- CORRECT: the edges of an accepted plan are all taken, order its operators, and are the ones that
its streams and events ask for. -/
theorem connect_connected (h : analyze ops fusion = .ok p) (hops : g.operators = ops)
    (hedges : g.edges = []) : ∃ g', p.connect g = (g', none) ∧ g'.operators = ops ∧
      g'.order = .ok ops ∧ p.Connected g' := by
  subst hops
  have hplan := analyzed h
  obtain ⟨g₁, g₂, g₃, hconnect, hext₁, hext₂, hext₃⟩ := connect_rounds hedges hplan.bounds
  have hops₁ : g₁.operators = g.operators := hext₁.operators
  have hops₃ : g₃.operators = g.operators := by rw [hext₃.operators, hext₂.operators, hops₁]
  have hlinked : g₃.Linked := hext₃.linked
  have hsize : g₃.size = g.size := congrArg List.length hops₃
  have hoperator : ∀ q, g₃.operator q = g.operator q := fun q => by simp only [Graph.operator, hops₃]
  have happart : g₃.StreamsApart := by
    have hnone : g.StreamsApart := by simp [Graph.StreamsApart, hedges]
    have hkept := connect_keeps (p := p) (fun _ s hg => hg.push s) hnone
    rwa [hconnect] at hkept
  have hordered : g₃.order = .ok g.operators := hops₃ ▸ Graph.order_of_forward hlinked.forward
  refine ⟨g₃, hconnect, hops₃, hordered, hlinked.pairwise_distinct, fun e he => ?_, ?_, ?_, ?_⟩
  · exact DomainPair.between_domains _ _ _ (hlinked.pairs e he)
  · intro op hop hearlier
    obtain ⟨q, hfollows, hq⟩ := exists_predecessor hearlier
    rw [predecessor?_congr hops₃] at hq
    refine ⟨q, hfollows, fun pair hpair => Graph.hasEdge_iff.mp ?_⟩
    rw [pairs_congr hops₃] at hpair
    have hedge := hext₁.hasEdge_of_specs (specs_subset_sequenceSpecs (hsize ▸ hop) hq) hpair
    exact hext₃.keeps (hext₂.keeps hedge)
  · intro x hx pair hpair
    rw [pairs_congr hops₃, ← pairs_congr hops₁] at hpair
    have hedge := hext₂.hasEdge_of_specs (specs_subset_eventSpecs hx) hpair
    obtain ⟨e, he, hsender, hreceiver, hpair⟩ := Graph.hasEdge_iff.mp (hext₃.keeps hedge)
    refine ⟨e, he, hsender, hreceiver, hpair, happart e he ?_⟩
    rw [hsender, hreceiver, hoperator, hoperator]
    exact hplan.inner_streams hx
  · intro _ op hop hmixed hsends _
    rw [hoperator] at hmixed
    exact connect_joined hedges hplan.bounds hconnect (hsize ▸ hop) (.inr ⟨hmixed, hsends⟩)

/-- Two streams with an inner event, and a mixed operator that hands an outer one over. -/
def crossing : List Operator :=
  [.onStream 0 "a" .mixAic11 [7, 9] [], .onStream 1 "b" .aivOnly [] [], .onStream 0 "c" .aivOnly [] [],
    .onStream 1 "d" .aivOnly [] [7]]

def crossingPlan : EventPlan := ⟨.twoStream, [⟨7, 0, 3⟩], [[9], [], [], []], [[], [], [], []]⟩

theorem crossing_connected : analyze crossing true = .ok crossingPlan ∧
    ∃ g', crossingPlan.connect ⟨⟨24, 48⟩, crossing, []⟩ = (g', none) ∧ g'.order = .ok crossing ∧
      crossingPlan.Connected g' ∧
      ∃ e ∈ g'.edges, e.producer = 0 ∧ e.consumer = 3 ∧ e.explicitSync = true := by
  have h : analyze crossing true = .ok crossingPlan := rfl
  obtain ⟨g', hconnect, hops, horder, hconnected⟩ :=
    connect_connected (g := ⟨⟨24, 48⟩, crossing, []⟩) h rfl rfl
  have hpair : ⟨.cube, .vector⟩ ∈ g'.pairs 0 3 := by
    simp only [Graph.pairs, Graph.operator, hops]
    decide
  obtain ⟨e, he, hsender, hreceiver, _, hsync⟩ :=
    hconnected.inner ⟨7, 0, 3⟩ (by decide) ⟨.cube, .vector⟩ hpair
  exact ⟨h, g', hconnect, horder, hconnected, e, he, hsender, hreceiver, hsync⟩

end EventPlan

end KernelFusion
