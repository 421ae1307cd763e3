import KernelFusion.Graph.Connect
import KernelFusion.Launch.Basic
import KernelFusion.Proofs.EventPlan

/-!
The graph that a plan of events makes of accepted operators.

Edges come in three rounds, each a list of specifications. A round adds all of them (`Extends`) and
keeps the graph linked. A round also asks for all pairs of two operators or for none, so that in the end
two operators that are joined at all are joined by every pair of theirs (`Complete`). Neighbours on one
stream are always joined.
-/

namespace KernelFusion

namespace EventPlan

/-! ### One round of specifications -/

variable {g : Graph} {ss : List EdgeSpec} {s : EdgeSpec}

/-- Not the same ends and pair. -/
def Distinct (a b : EdgeSpec) : Prop :=
  ¬(a.producer = b.producer ∧ a.consumer = b.consumer ∧ a.pair = b.pair)

/-- A graph that has grown by edges for all specifications of a list. -/
structure Extends (g : Graph) (ss : List EdgeSpec) (g' : Graph) : Prop where
  linked : g'.Linked
  operators : g'.operators = g.operators
  hasEdge : ∀ p c pair, g'.hasEdge p c pair = true ↔ g.hasEdge p c pair = true ∨
    ∃ s ∈ ss, s.producer = p ∧ s.consumer = c ∧ s.pair = pair

theorem Extends.nil (h : g.Linked) : Extends g [] g := ⟨h, rfl, by simp⟩

theorem Extends.cons {g' : Graph} (h : Extends (g.push s) ss g') : Extends g (s :: ss) g' where
  linked := h.linked
  operators := h.operators
  hasEdge := by
    intro p c pair
    rw [h.hasEdge, Graph.hasEdge_push, or_assoc]
    simp

/-- A specification whose edge is there already adds nothing. -/
theorem Extends.skip {g' : Graph} (h : Extends g ss g')
    (hs : g.hasEdge s.producer s.consumer s.pair = true) : Extends g (s :: ss) g' where
  linked := h.linked
  operators := h.operators
  hasEdge := by
    intro p c pair
    rw [h.hasEdge]
    constructor
    · rintro (hg | ⟨s', hs', hk⟩)
      · exact .inl hg
      · exact .inr ⟨s', List.mem_cons_of_mem _ hs', hk⟩
    · rintro (hg | ⟨s', hs', hk⟩)
      · exact .inl hg
      · rcases List.mem_cons.mp hs' with rfl | hs'
        · obtain ⟨rfl, rfl, rfl⟩ := hk
          exact .inl hs
        · exact .inr ⟨s', hs', hk⟩

theorem takes_push {t : EdgeSpec} (h : g.Takes t) : (g.push s).Takes t :=
  ⟨h.forward, h.within, h.pair⟩

theorem addAll_extends (h : g.Linked) (ht : ∀ s ∈ ss, g.Takes s)
    (hnew : ∀ s ∈ ss, g.hasEdge s.producer s.consumer s.pair = false) (hd : ss.Pairwise Distinct) :
    ∃ g', addAll g ss = (g', none) ∧ Extends g ss g' := by
  induction ss generalizing g with
  | nil => exact ⟨g, rfl, .nil h⟩
  | cons s ss ih =>
    have hts := ht s List.mem_cons_self
    have hns := hnew s List.mem_cons_self
    obtain ⟨hds, hd⟩ := List.pairwise_cons.mp hd
    have hnew' : ∀ t ∈ ss, (g.push s).hasEdge t.producer t.consumer t.pair = false := by
      intro t ht'
      rw [Bool.eq_false_iff]
      intro htrue
      rcases Graph.hasEdge_push.mp htrue with hg | hk
      · rw [hnew t (List.mem_cons_of_mem _ ht')] at hg
        cases hg
      · exact hds t ht' hk
    obtain ⟨g', hadd, hext⟩ := ih (h.push hts hns)
      (fun t ht' => takes_push (ht t (List.mem_cons_of_mem _ ht'))) hnew' hd
    refine ⟨g', ?_, hext.cons⟩
    rw [addAll, Graph.addEdge_of_new (Nat.lt_trans hts.forward hts.within) hts.within hns]
    exact hadd

theorem addMissing_extends (h : g.Linked) (ht : ∀ s ∈ ss, g.Takes s) :
    ∃ g', addMissing g ss = (g', none) ∧ Extends g ss g' := by
  induction ss generalizing g with
  | nil => exact ⟨g, rfl, .nil h⟩
  | cons s ss ih =>
    have hts := ht s List.mem_cons_self
    have ht' : ∀ t ∈ ss, g.Takes t := fun t htm => ht t (List.mem_cons_of_mem _ htm)
    cases hs : g.hasEdge s.producer s.consumer s.pair with
    | true =>
      obtain ⟨g', hadd, hext⟩ := ih h ht'
      exact ⟨g', by rw [addMissing, hs]; exact hadd, hext.skip hs⟩
    | false =>
      obtain ⟨g', hadd, hext⟩ := ih (h.push hts hs) fun t htm => takes_push (ht' t htm)
      refine ⟨g', ?_, hext.cons⟩
      rw [addMissing, hs, Graph.addEdge_of_new (Nat.lt_trans hts.forward hts.within) hts.within hs]
      exact hadd

/-! ### All pairs of two operators, or none -/

/-- Operators that are joined are joined by all pairs of theirs. -/
def Complete (g : Graph) : Prop :=
  ∀ p c pair, g.hasEdge p c pair = true → ∀ other ∈ g.pairs p c, g.hasEdge p c other = true

/-- Specifications that ask for all pairs of the operators that they join. -/
def Closed (g : Graph) (ss : List EdgeSpec) : Prop :=
  ∀ s ∈ ss, ∀ pair ∈ g.pairs s.producer s.consumer,
    ∃ t ∈ ss, t.producer = s.producer ∧ t.consumer = s.consumer ∧ t.pair = pair

theorem mem_specs {p c : Nat} {o : EdgeOrigin} {u : Bool} : s ∈ specs g p c o u ↔
    s.pair ∈ g.pairs p c ∧ s = ⟨p, c, s.pair, o, u⟩ := by
  simp only [specs, Graph.pairs, List.mem_map]
  constructor
  · rintro ⟨pair, hpair, rfl⟩
    exact ⟨hpair, rfl⟩
  · rintro ⟨hpair, hs⟩
    exact ⟨s.pair, hpair, hs.symm⟩

theorem specs_ends {p c : Nat} {o : EdgeOrigin} {u : Bool} (h : s ∈ specs g p c o u) :
    s.producer = p ∧ s.consumer = c := by
  rw [(mem_specs.mp h).2]
  exact ⟨rfl, rfl⟩

theorem specs_takes {p c : Nat} {o : EdgeOrigin} {u : Bool} (hpc : p < c) (hc : c < g.size) :
    ∀ s ∈ specs g p c o u, g.Takes s := by
  intro s hs
  obtain ⟨hpair, hs⟩ := mem_specs.mp hs
  rw [hs]
  exact ⟨hpc, hc, hpair⟩

theorem specs_closed (p c : Nat) (o : EdgeOrigin) (u : Bool) : Closed g (specs g p c o u) := by
  intro s hs pair hpair
  obtain ⟨_, hs⟩ := mem_specs.mp hs
  rw [hs] at hpair ⊢
  exact ⟨⟨p, c, pair, o, u⟩, mem_specs.mpr ⟨hpair, rfl⟩, rfl, rfl, rfl⟩

theorem specs_distinct (p c : Nat) (o : EdgeOrigin) (u : Bool) :
    (specs g p c o u).Pairwise Distinct := by
  refine List.pairwise_map.mpr ((DomainPair.between_nodup _ _).imp ?_)
  rintro a b hab ⟨_, _, hpair⟩
  exact hab hpair

theorem closed_flatMap {α : Type} {xs : List α} {f : α → List EdgeSpec}
    (h : ∀ x ∈ xs, Closed g (f x)) : Closed g (xs.flatMap f) := by
  intro s hs pair hpair
  obtain ⟨x, hx, hs⟩ := List.mem_flatMap.mp hs
  obtain ⟨t, ht, hk⟩ := h x hx s hs pair hpair
  exact ⟨t, List.mem_flatMap.mpr ⟨x, hx, ht⟩, hk⟩

theorem pairs_congr {g' : Graph} (h : g'.operators = g.operators) (p c : Nat) :
    g'.pairs p c = g.pairs p c := by
  simp only [Graph.pairs, Graph.operator, h]

theorem Extends.complete {g' : Graph} (h : Extends g ss g') (hg : Complete g) (hs : Closed g ss) :
    Complete g' := by
  intro p c pair he other hother
  rw [pairs_congr h.operators] at hother
  rw [h.hasEdge] at he ⊢
  rcases he with he | ⟨s, hsm, rfl, rfl, rfl⟩
  · exact .inl (hg p c pair he other hother)
  · exact .inr (hs s hsm other hother)

/-! ### The three rounds -/

variable {p : EventPlan}

theorem predecessor?_lt {mode : ScheduleMode} {op q : Nat} (h : predecessor? mode g op = some q) :
    q < op := by
  cases mode with
  | singleStream =>
    simp only [predecessor?] at h
    split at h
    · cases h
    · cases Option.some.inj h
      omega
  | twoStream =>
    have := List.mem_of_find?_eq_some h
    simpa using this

theorem mem_sequenceSpecs (h : s ∈ p.sequenceSpecs g) : ∃ op q, op < g.size ∧
    predecessor? p.mode g op = some q ∧ s ∈ specs g q op .sequence (g.operator op).unitLocal := by
  obtain ⟨op, hop, hs⟩ := List.mem_flatMap.mp h
  rw [List.mem_range] at hop
  cases hq : predecessor? p.mode g op with
  | none => simp [hq] at hs
  | some q => exact ⟨op, q, hop, hq, by simpa [hq] using hs⟩

theorem sequenceSpecs_takes : ∀ s ∈ p.sequenceSpecs g, g.Takes s := by
  intro s hs
  obtain ⟨op, q, hop, hq, hs⟩ := mem_sequenceSpecs hs
  exact specs_takes (predecessor?_lt hq) hop s hs

theorem sequenceSpecs_closed : Closed g (p.sequenceSpecs g) := by
  refine closed_flatMap fun op _ => ?_
  cases predecessor? p.mode g op with
  | none => simp [Closed]
  | some q => exact specs_closed q op .sequence _

theorem sequenceSpecs_distinct : (p.sequenceSpecs g).Pairwise Distinct := by
  refine List.pairwise_flatMap.mpr ⟨fun op _ => ?_, List.pairwise_lt_range.imp ?_⟩
  · cases predecessor? p.mode g op with
    | none => exact List.Pairwise.nil
    | some q => exact specs_distinct q op .sequence _
  · -- Specifications of two operators differ in the consumer.
    rintro a b hab x hx y hy ⟨_, hc, _⟩
    cases ha : predecessor? p.mode g a with
    | none => simp [ha] at hx
    | some q =>
      cases hb : predecessor? p.mode g b with
      | none => simp [hb] at hy
      | some r =>
        simp only [ha] at hx
        simp only [hb] at hy
        rw [(specs_ends hx).2, (specs_ends hy).2] at hc
        omega

theorem eventSpecs_takes (h : ∀ x ∈ p.inner, x.sender < x.receiver ∧ x.receiver < g.size) :
    ∀ s ∈ p.eventSpecs g, g.Takes s := by
  intro s hs
  obtain ⟨x, hx, hs⟩ := List.mem_flatMap.mp hs
  exact specs_takes (h x hx).1 (h x hx).2 s hs

theorem eventSpecs_closed : Closed g (p.eventSpecs g) :=
  closed_flatMap fun x _ => specs_closed x.sender x.receiver (.event x.event) false

theorem mem_handoffSpecs (h : s ∈ p.handoffSpecs g) :
    ∃ op, op + 1 < g.size ∧ handsOff p g op = true ∧ s ∈ specs g op (op + 1) .handoff false := by
  unfold handoffSpecs at h
  cases hm : p.mode with
  | singleStream => simp [hm] at h
  | twoStream =>
    rw [hm] at h
    obtain ⟨op, hop, hs⟩ := List.mem_flatMap.mp h
    obtain ⟨hlt, hoff⟩ := List.mem_filter.mp hop
    rw [List.mem_range] at hlt
    exact ⟨op, by omega, hoff, hs⟩

theorem handoffSpecs_takes : ∀ s ∈ p.handoffSpecs g, g.Takes s := by
  intro s hs
  obtain ⟨op, hop, _, hs⟩ := mem_handoffSpecs hs
  exact specs_takes (Nat.lt_succ_self op) hop s hs

theorem handoffSpecs_new :
    ∀ s ∈ p.handoffSpecs g, g.hasEdge s.producer s.consumer s.pair = false := by
  intro s hs
  obtain ⟨op, _, hoff, hs⟩ := mem_handoffSpecs hs
  obtain ⟨hp, hc⟩ := specs_ends hs
  rw [hp, hc, Bool.eq_false_iff]
  intro hedge
  obtain ⟨e, he, hep, hec, _⟩ := Graph.hasEdge_iff.mp hedge
  have hany : ((g.outgoing op).any fun e => e.consumer == op + 1) = true :=
    List.any_eq_true.mpr ⟨e, Graph.mem_outgoing.mpr ⟨he, hep⟩, beq_iff_eq.mpr hec⟩
  simp [handsOff, hany] at hoff

theorem handoffSpecs_closed : Closed g (p.handoffSpecs g) := by
  unfold handoffSpecs
  cases p.mode with
  | singleStream => simp [Closed]
  | twoStream => exact closed_flatMap fun op _ => specs_closed op (op + 1) .handoff false

theorem handoffSpecs_distinct : (p.handoffSpecs g).Pairwise Distinct := by
  unfold handoffSpecs
  cases p.mode with
  | singleStream => exact List.Pairwise.nil
  | twoStream =>
    refine List.pairwise_flatMap.mpr ⟨fun op _ => specs_distinct op (op + 1) .handoff false,
      (List.pairwise_lt_range.filter _).imp ?_⟩
    rintro a b hab x hx y hy ⟨hp, _, _⟩
    rw [(specs_ends hx).1, (specs_ends hy).1] at hp
    omega

/-- No edge of a plan is refused: each round adds all of its own. -/
theorem connect_rounds (hg : g.edges = [])
    (h : ∀ x ∈ p.inner, x.sender < x.receiver ∧ x.receiver < g.size) :
    ∃ g₁ g₂ g₃, p.connect g = (g₃, none) ∧ Extends g (p.sequenceSpecs g) g₁ ∧
      Extends g₁ (p.eventSpecs g₁) g₂ ∧ Extends g₂ (p.handoffSpecs g₂) g₃ := by
  have hlinked : g.Linked := by
    refine ⟨⟨by simp [hg], by simp [hg]⟩, ?_, ?_, ?_, ?_⟩ <;> simp [hg]
  have hnone : ∀ a b pair, g.hasEdge a b pair = false := by simp [Graph.hasEdge, hg]
  obtain ⟨g₁, h₁, hext₁⟩ := addAll_extends hlinked (sequenceSpecs_takes (p := p))
    (fun _ _ => hnone _ _ _) sequenceSpecs_distinct
  have hsize₁ : g₁.size = g.size := by simp [Graph.size, hext₁.operators]
  obtain ⟨g₂, h₂, hext₂⟩ := addMissing_extends hext₁.linked
    (eventSpecs_takes (p := p) (by rw [hsize₁]; exact h))
  obtain ⟨g₃, h₃, hext₃⟩ := addAll_extends hext₂.linked (handoffSpecs_takes (p := p))
    handoffSpecs_new handoffSpecs_distinct
  exact ⟨g₁, g₂, g₃, by simp [connect, andThen, h₁, h₂, h₃], hext₁, hext₂, hext₃⟩

/-- The graph of a plan is linked and complete. -/
theorem connect_linked (hg : g.edges = [])
    (h : ∀ x ∈ p.inner, x.sender < x.receiver ∧ x.receiver < g.size) :
    ∃ g', p.connect g = (g', none) ∧ g'.operators = g.operators ∧ g'.Linked ∧ Complete g' := by
  have hcomplete : Complete g := by simp [Complete, Graph.hasEdge, hg]
  obtain ⟨g₁, g₂, g₃, hconnect, hext₁, hext₂, hext₃⟩ := connect_rounds hg h
  refine ⟨g₃, hconnect, ?_, hext₃.linked, ?_⟩
  · rw [hext₃.operators, hext₂.operators, hext₁.operators]
  · exact hext₃.complete (hext₂.complete (hext₁.complete hcomplete sequenceSpecs_closed)
      eventSpecs_closed) handoffSpecs_closed

/-! ### Neighbours -/

/-- Some edge leads from one operator to the other. -/
def Joined (g : Graph) (a b : Nat) : Prop := ∃ e ∈ g.edges, e.producer = a ∧ e.consumer = b

theorem joined_iff {a b : Nat} : Joined g a b ↔ ∃ pair, g.hasEdge a b pair = true := by
  simp only [Graph.hasEdge_iff]
  exact ⟨fun ⟨e, he, ha, hb⟩ => ⟨e.pair, e, he, ha, hb, rfl⟩,
    fun ⟨_, e, he, ha, hb, _⟩ => ⟨e, he, ha, hb⟩⟩

theorem Extends.joined {g' : Graph} {a b : Nat} (h : Extends g ss g') (hg : Joined g a b) :
    Joined g' a b := by
  obtain ⟨pair, hedge⟩ := joined_iff.mp hg
  exact joined_iff.mpr ⟨pair, (h.hasEdge a b pair).mpr (.inl hedge)⟩

/-- Two operators are joined by a round that asks for their edges. -/
theorem Extends.joined_of_specs {g' : Graph} {a b : Nat} {o : EdgeOrigin} {u : Bool}
    (h : Extends g ss g') (hss : ∀ s ∈ specs g a b o u, s ∈ ss) : Joined g' a b := by
  obtain ⟨pair, hpair⟩ := List.exists_mem_of_ne_nil _
    (DomainPair.between_ne_nil (g.operator a).kernelType (g.operator b).kernelType)
  have hs : ⟨a, b, pair, o, u⟩ ∈ ss := hss _ (mem_specs.mpr ⟨hpair, rfl⟩)
  exact joined_iff.mpr ⟨pair, (h.hasEdge a b pair).mpr (.inr ⟨_, hs, rfl, rfl, rfl⟩)⟩

theorem specs_subset_sequenceSpecs {op q : Nat} (hop : op < g.size)
    (hq : predecessor? p.mode g op = some q) :
    ∀ s ∈ specs g q op .sequence (g.operator op).unitLocal, s ∈ p.sequenceSpecs g :=
  fun _ hs => List.mem_flatMap.mpr ⟨op, List.mem_range.mpr hop, by simpa [hq] using hs⟩

theorem specs_subset_handoffSpecs {op : Nat} (hop : op + 1 < g.size) (hmode : p.mode = .twoStream)
    (hoff : handsOff p g op = true) :
    ∀ s ∈ specs g op (op + 1) .handoff false, s ∈ p.handoffSpecs g := by
  intro s hs
  rw [handoffSpecs, hmode]
  exact List.mem_flatMap.mpr ⟨op, List.mem_filter.mpr ⟨List.mem_range.mpr (by omega), hoff⟩, hs⟩

/-- On one stream an operator follows its neighbour, in both modes. -/
theorem predecessor?_succ {mode : ScheduleMode} {op : Nat}
    (h : mode = .singleStream ∨ (g.operator op).stream = (g.operator (op + 1)).stream) :
    predecessor? mode g (op + 1) = some op := by
  cases mode with
  | singleStream => simp [predecessor?]
  | twoStream =>
    have hstream : (g.operator op).stream = (g.operator (op + 1)).stream := h.resolve_left nofun
    simp [predecessor?, List.range_succ, hstream]

/-- A neighbour is joined to the operator before it: on one stream always, and on another one where
outer events are handed over. -/
theorem connect_joined {g' : Graph} (hg : g.edges = [])
    (h : ∀ x ∈ p.inner, x.sender < x.receiver ∧ x.receiver < g.size) (hconnect : p.connect g = (g', none))
    {op : Nat} (hop : op + 1 < g.size)
    (hjoin : (p.mode = .singleStream ∨ (g.operator op).stream = (g.operator (op + 1)).stream) ∨
      ((g.operator op).affinity = .mixed ∧ p.sends op ≠ [])) : Joined g' op (op + 1) := by
  obtain ⟨g₁, g₂, g₃, hrounds, hext₁, hext₂, hext₃⟩ := connect_rounds hg h
  obtain ⟨rfl, _⟩ := Prod.mk.inj (hconnect.symm.trans hrounds)
  by_cases hnext : p.mode = .singleStream ∨ (g.operator op).stream = (g.operator (op + 1)).stream
  · have hfirst := hext₁.joined_of_specs (specs_subset_sequenceSpecs hop (predecessor?_succ hnext))
    exact hext₃.joined (hext₂.joined hfirst)
  · obtain ⟨hmixed, hsends⟩ := hjoin.resolve_left hnext
    obtain ⟨hmode, hstream⟩ := not_or.mp hnext
    by_cases hsecond : Joined g₂ op (op + 1)
    · exact hext₃.joined hsecond
    · have hops : g₂.operators = g.operators := hext₂.operators.trans hext₁.operators
      have hsize : op + 1 < g₂.size := by simpa [Graph.size, hops] using hop
      have htwo : p.mode = .twoStream := by cases hm : p.mode <;> simp_all
      have hnone : ((g₂.outgoing op).any fun e => e.consumer == op + 1) = false := by
        rw [Bool.eq_false_iff]
        intro hany
        obtain ⟨e, he, hc⟩ := List.any_eq_true.mp hany
        obtain ⟨he, hp⟩ := Graph.mem_outgoing.mp he
        exact hsecond ⟨e, he, hp, beq_iff_eq.mp hc⟩
      have hoff : handsOff p g₂ op = true := by
        have hoperator : ∀ q, g₂.operator q = g.operator q := fun q => by simp [Graph.operator, hops]
        simp [handsOff, hoperator, hmixed, hsends, hstream, hnone]
      exact hext₃.joined_of_specs (specs_subset_handoffSpecs hsize htwo hoff)

end EventPlan

/-! ### Accepted operators -/

namespace Launch

/-- A launch whose events and graph come from operators that are accepted. Its options, its shape and
its table are free. -/
structure Accepted (l : Launch) (units : Units) (ops : List Operator) (fusion : Bool) : Prop where
  analyzed : EventPlan.analyze ops fusion = .ok l.events
  connected : ∃ g, (Graph.empty units).addOperators ops = (g, none) ∧ l.graph = (l.events.connect g).1

namespace Accepted

variable {l : Launch} {units : Units} {ops : List Operator} {fusion : Bool}

/-- The graph is the one that its plan makes of the operators. -/
theorem exists_connect (h : l.Accepted units ops fusion) : ∃ g : Graph, g.operators = ops ∧
    g.edges = [] ∧ (∀ x ∈ l.events.inner, x.sender < x.receiver ∧ x.receiver < g.size) ∧
    l.events.connect g = (l.graph, none) := by
  obtain ⟨g, hadd, hg⟩ := h.connected
  have hops := Graph.addOperators_eq_ok hadd
  have hbounds : ∀ x ∈ l.events.inner, x.sender < x.receiver ∧ x.receiver < g.size := by
    intro x hx
    have := (EventPlan.analyzed h.analyzed).bounds x hx
    simpa [hops, Graph.size, Graph.empty] using this
  have hedges : g.edges = [] := by simp [hops, Graph.empty]
  obtain ⟨g', hconnect, _⟩ := EventPlan.connect_linked hedges hbounds
  exact ⟨g, by simp [hops, Graph.empty], hedges, hbounds, by rw [hg, hconnect]⟩

theorem spec (h : l.Accepted units ops fusion) :
    l.graph.operators = ops ∧ l.graph.Linked ∧ EventPlan.Complete l.graph := by
  obtain ⟨g, hops, hedges, hbounds, hconnect⟩ := h.exists_connect
  obtain ⟨g', hconnect', hops', hlinked, hcomplete⟩ := EventPlan.connect_linked hedges hbounds
  obtain ⟨rfl, _⟩ := Prod.mk.inj (hconnect.symm.trans hconnect')
  exact ⟨hops'.trans hops, hlinked, hcomplete⟩

theorem linked (h : l.Accepted units ops fusion) : l.graph.Linked := h.spec.2.1

/-- Two operators that are joined are joined by every pair of theirs, and across the domains always
with synchronization. -/
theorem exists_cross (h : l.Accepted units ops fusion) {e : Edge} (he : e ∈ l.graph.edges)
    {dp dc : Domain} (hp : dp ∈ (l.operator e.producer).affinity.domains)
    (hc : dc ∈ (l.operator e.consumer).affinity.domains) (hne : dp ≠ dc) :
    ∃ k ∈ l.graph.edges, k.producer = e.producer ∧ k.consumer = e.consumer ∧ k.pair = ⟨dp, dc⟩ ∧
      k.needsSignal = true := by
  have hpair : ⟨dp, dc⟩ ∈ l.graph.pairs e.producer e.consumer :=
    DomainPair.cross_mem_between _ _ dp hp dc hc hne
  have hedge := h.spec.2.2 _ _ _ (Graph.hasEdge_iff.mpr ⟨e, he, rfl, rfl, rfl⟩) _ hpair
  obtain ⟨k, hk, hkp, hkc, hkpair⟩ := Graph.hasEdge_iff.mp hedge
  have hcross : k.pair.isCross = true := by
    rw [hkpair]
    exact DomainPair.isCross_iff.mpr hne
  exact ⟨k, hk, hkp, hkc, hkpair, by simp [Edge.needsSignal, hcross, h.linked.explicit k hk hcross]⟩

theorem recvs_bounds (h : l.Accepted units ops fusion) {op : Nat} (hr : l.events.recvs op ≠ []) :
    0 < op ∧ op < l.graph.size := by
  rw [Graph.size, h.spec.1]
  exact (EventPlan.analyzed h.analyzed).recvs_bounds hr

theorem sends_bounds (h : l.Accepted units ops fusion) {op : Nat} (hs : l.events.sends op ≠ []) :
    op + 1 < l.graph.size := by
  rw [Graph.size, h.spec.1]
  exact (EventPlan.analyzed h.analyzed).sends_bounds hs

/-- Neighbours are joined on one stream, and where a mixed operator has outer events to send. -/
theorem joined (h : l.Accepted units ops fusion) {op : Nat} (hop : op + 1 < l.graph.size)
    (hjoin : (l.events.mode = .singleStream ∨ (l.operator op).stream = (l.operator (op + 1)).stream) ∨
      ((l.operator op).affinity = .mixed ∧ l.events.sends op ≠ [])) :
    ∃ e ∈ l.graph.edges, e.producer = op ∧ e.consumer = op + 1 := by
  obtain ⟨g, hops, hedges, hbounds, hconnect⟩ := h.exists_connect
  have hsame : l.graph.operators = g.operators := h.spec.1.trans hops.symm
  simp only [operator, Graph.operator, Graph.size, hsame] at hop hjoin
  exact EventPlan.connect_joined hedges hbounds hconnect hop hjoin

end Accepted

/-- A launch of operators with their events, by default options on a small machine. -/
def ofOperators (ops : List Operator) (plan : EventPlan) (earlyStart : Bool) : Launch :=
  let g := (plan.connect ⟨⟨24, 48⟩, ops, []⟩).1
  ⟨"fused", default, g, plan, .assign g plan false false, .fedBy ops 0, earlyStart⟩

end Launch

end KernelFusion
