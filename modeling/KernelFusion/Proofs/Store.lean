import KernelFusion.Graph.Store
import Mathlib.Data.List.Nodup

/-!
What the store of operators and edges keeps.

Edges are named by their positions and join operators that exist (`WellFormed`). A graph that orders its
operators (`Linked`) has forward edges besides, each of a pair that its ends call for, at most one of
each, and free of synchronization only inside a domain. Both survive every edge that is added.
-/

namespace KernelFusion

/-- A sequence of two computations succeeds if both do. -/
theorem bind_eq_ok {ε α β : Type} {x : Except ε α} {f : α → Except ε β} {b : β} :
    (x >>= f) = .ok b ↔ ∃ a, x = .ok a ∧ f a = .ok b := by
  cases x with
  | error e => simp [bind, Except.bind]
  | ok a => simp [bind, Except.bind]

theorem forM_ok_iff {α : Type} {xs : List α} {f : α → Except Error Unit} :
    xs.forM f = .ok () ↔ ∀ x ∈ xs, f x = .ok () := by
  induction xs with
  | nil => simp [pure, Except.pure]
  | cons x xs ih =>
    rw [List.forM_eq_forM, List.forM_cons, bind_eq_ok, List.forall_mem_cons, ← ih]
    exact ⟨fun ⟨_, hx, hxs⟩ => ⟨hx, hxs⟩, fun ⟨hx, hxs⟩ => ⟨(), hx, hxs⟩⟩

theorem forM_eq_ok {α : Type} {xs : List α} {f : α → Except Error Unit}
    (h : ∀ x ∈ xs, f x = .ok ()) : xs.forM f = .ok () :=
  forM_ok_iff.mpr h

/-! ### The pairs between two kernel types -/

/-- Only a mixed operator has two domains. -/
theorem Affinity.domain_unique {t : Affinity} (h : t ≠ .mixed) {d d' : Domain} (hd : d ∈ t.domains)
    (hd' : d' ∈ t.domains) : d = d' := by
  cases t with
  | mixed => exact absurd rfl h
  | cubeOnly => rw [List.mem_singleton.mp hd, List.mem_singleton.mp hd']
  | vectorOnly => rw [List.mem_singleton.mp hd, List.mem_singleton.mp hd']

namespace DomainPair

theorem between_domains (t u : KernelType) : ∀ pair ∈ between t u,
    pair.producer ∈ t.affinity.domains ∧ pair.consumer ∈ u.affinity.domains := by
  cases t <;> cases u <;> decide

theorem between_ne_nil (t u : KernelType) : between t u ≠ [] := by
  cases t <;> cases u <;> decide

theorem between_nodup (t u : KernelType) : (between t u).Nodup := by
  cases t <;> cases u <;> decide

/-- Every way to leave one type and enter another across the domains has its pair. -/
theorem cross_mem_between (t u : KernelType) : ∀ dp ∈ t.affinity.domains, ∀ dc ∈ u.affinity.domains,
    dp ≠ dc → ⟨dp, dc⟩ ∈ between t u := by
  cases t <;> cases u <;> decide

/-- A mixed operator is joined to others across the domains only. -/
theorem between_mixed (t u : KernelType) (h : t.affinity = .mixed) :
    ∀ pair ∈ between t u, pair.isCross = true := by
  revert h
  cases t <;> cases u <;> decide

theorem isCross_iff {pair : DomainPair} : pair.isCross = true ↔ pair.producer ≠ pair.consumer := by
  simp [isCross]

/-- One end of a pair across the domains fixes the other. -/
theorem cross_producer {pair : DomainPair} {d : Domain} :
    (pair.isCross = true ∧ pair.producer = d) ↔ pair = ⟨d, d.other⟩ := by
  rcases pair with ⟨dp, dc⟩
  cases dp <;> cases dc <;> cases d <;> decide

theorem cross_consumer {pair : DomainPair} {d : Domain} :
    (pair.isCross = true ∧ pair.consumer = d) ↔ pair = ⟨d.other, d⟩ := by
  rcases pair with ⟨dp, dc⟩
  cases dp <;> cases dc <;> cases d <;> decide

end DomainPair

namespace Graph

variable {g : Graph} {s : EdgeSpec} {e : Edge}

/-- Edges are named by their positions and join operators of the graph. -/
structure WellFormed (g : Graph) : Prop where
  ids : g.edges.map Edge.id = List.range g.edges.length
  ends : ∀ e ∈ g.edges, e.producer < g.size ∧ e.consumer < g.size

namespace WellFormed

theorem nodup_ids (h : g.WellFormed) : (g.edges.map Edge.id).Nodup := h.ids ▸ List.nodup_range

theorem id_injective (h : g.WellFormed) {e e' : Edge} (he : e ∈ g.edges) (he' : e' ∈ g.edges)
    (hid : e.id = e'.id) : e = e' :=
  List.inj_on_of_nodup_map h.nodup_ids he he' hid

theorem edge_id (h : g.WellFormed) (he : e ∈ g.edges) : g.edge e.id = e := by
  obtain ⟨i, hi⟩ := List.getElem?_of_mem he
  have hlt : i < g.edges.length := (List.getElem?_eq_some_iff.mp hi).1
  have hid : some e.id = some i := by
    rw [← List.getElem?_range hlt, ← h.ids, List.getElem?_map, hi]
    rfl
  rw [edge, Option.some.inj hid, List.getD_eq_getElem?_getD, hi]
  rfl

end WellFormed

theorem mem_incoming {op : Nat} : e ∈ g.incoming op ↔ e ∈ g.edges ∧ e.consumer = op := by
  simp [incoming]

theorem mem_outgoing {op : Nat} : e ∈ g.outgoing op ↔ e ∈ g.edges ∧ e.producer = op := by
  simp [outgoing]

theorem hasEdge_iff {p c : Nat} {pair : DomainPair} : g.hasEdge p c pair = true ↔
    ∃ e ∈ g.edges, e.producer = p ∧ e.consumer = c ∧ e.pair = pair := by
  simp [hasEdge, and_assoc]

/-- All edges point forward where the order of the operators stands. -/
theorem order_forward {ops : List Operator} (h : g.order = .ok ops) :
    ∀ e ∈ g.edges, e.producer < e.consumer := by
  intro e he
  by_contra hback
  have hfind : (g.edges.find? fun e => decide (e.consumer ≤ e.producer)) ≠ none := by
    intro hnone
    have := List.find?_eq_none.mp hnone e he
    simp only [decide_eq_true_eq] at this
    omega
  rw [order] at h
  split at h
  · cases h
  · contradiction

theorem order_of_forward (h : ∀ e ∈ g.edges, e.producer < e.consumer) : g.order = .ok g.operators := by
  have hnone : (g.edges.find? fun e => decide (e.consumer ≤ e.producer)) = none := by
    refine List.find?_eq_none.mpr fun e he => ?_
    simpa using h e he
  rw [order, hnone]

/-! ### Adding to a graph -/

/-- The edge that is added for a specification. -/
def newEdge (g : Graph) (s : EdgeSpec) : Edge where
  id := g.edges.length
  producer := s.producer
  consumer := s.consumer
  pair := s.pair
  origin := s.origin
  explicitSync := !(s.unitLocal && g.sameUnits s)

/-- The graph with one more edge. -/
def push (g : Graph) (s : EdgeSpec) : Graph := { g with edges := g.edges ++ [g.newEdge s] }

@[simp] theorem push_operators : (g.push s).operators = g.operators := rfl

@[simp] theorem push_operator (op : Nat) : (g.push s).operator op = g.operator op := rfl

@[simp] theorem push_size : (g.push s).size = g.size := rfl

theorem mem_push : e ∈ (g.push s).edges ↔ e ∈ g.edges ∨ e = g.newEdge s := by
  simp [push]

theorem hasEdge_push {p c : Nat} {pair : DomainPair} : (g.push s).hasEdge p c pair = true ↔
    g.hasEdge p c pair = true ∨ (s.producer = p ∧ s.consumer = c ∧ s.pair = pair) := by
  simp [hasEdge_iff, mem_push, or_and_right, exists_or, newEdge]

theorem addEdge_of_new (hp : s.producer < g.size) (hc : s.consumer < g.size)
    (hn : g.hasEdge s.producer s.consumer s.pair = false) :
    g.addEdge s = (g.push s, .ok g.edges.length) := by
  rw [addEdge, if_neg (by omega), if_neg (by omega), hn]
  rfl

/-- An edge is added if it is new and joins operators of the graph; otherwise nothing is. -/
theorem addEdge_cases (g : Graph) (s : EdgeSpec) :
    (s.producer < g.size ∧ s.consumer < g.size ∧ g.hasEdge s.producer s.consumer s.pair = false ∧
      g.addEdge s = (g.push s, .ok g.edges.length)) ∨
    (¬(s.producer < g.size ∧ s.consumer < g.size ∧ g.hasEdge s.producer s.consumer s.pair = false) ∧
      ∃ err, g.addEdge s = (g, .error err)) := by
  by_cases hp : s.producer < g.size
  · by_cases hc : s.consumer < g.size
    · cases hn : g.hasEdge s.producer s.consumer s.pair with
      | false => exact .inl ⟨hp, hc, rfl, addEdge_of_new hp hc hn⟩
      | true =>
        refine .inr ⟨by simp, .malformedGraph (.repeatedEdge s.producer s.consumer s.pair), ?_⟩
        rw [addEdge, if_neg (by omega), if_neg (by omega), hn, if_pos rfl]
    · refine .inr ⟨fun h => hc h.2.1, .malformedGraph (.unknownOperator s.consumer), ?_⟩
      rw [addEdge, if_neg (by omega), if_pos (by omega)]
  · refine .inr ⟨fun h => hp h.1, .malformedGraph (.unknownOperator s.producer), ?_⟩
    rw [addEdge, if_pos (by omega)]

theorem empty_wellFormed (units : Units) : (empty units).WellFormed where
  ids := rfl
  ends := by simp [empty]

theorem WellFormed.push (h : g.WellFormed) (hp : s.producer < g.size) (hc : s.consumer < g.size) :
    (g.push s).WellFormed where
  ids := by simp [Graph.push, newEdge, h.ids, List.range_succ]
  ends := by
    intro e he
    rcases mem_push.mp he with he | rfl
    · exact h.ends e he
    · exact ⟨hp, hc⟩

/-- What is asked of an operator that is added. -/
structure Admits (u : Units) (o : Operator) : Prop where
  split : o.split ≠ 0
  blocks : o.blockCount ≠ 0
  units : checkUnits u o = .ok ()

/-- The graph with one more operator. -/
def pushOperator (g : Graph) (o : Operator) : Graph := { g with operators := g.operators ++ [o] }

/-- An operator is added if it is admitted; otherwise nothing is. -/
theorem addOperator_cases (g : Graph) (o : Operator) :
    (Admits g.units o ∧ g.addOperator o = (g.pushOperator o, .ok g.size)) ∨
    (¬Admits g.units o ∧ ∃ err, g.addOperator o = (g, .error err)) := by
  by_cases hs : o.split = 0
  · refine .inr ⟨fun h => h.split hs, .invalidOperator o.name .zeroSplit, ?_⟩
    rw [addOperator, if_pos hs]
  by_cases hb : o.blockCount = 0
  · refine .inr ⟨fun h => h.blocks hb, .invalidOperator o.name .zeroBlocks, ?_⟩
    rw [addOperator, if_neg hs, if_pos hb]
  cases hunits : checkUnits g.units o with
  | ok _ =>
    refine .inl ⟨⟨hs, hb, hunits⟩, ?_⟩
    rw [addOperator, if_neg hs, if_neg hb, hunits]
    rfl
  | error err =>
    refine .inr ⟨fun h => ?_, err, ?_⟩
    · rw [h.units] at hunits
      cases hunits
    · rw [addOperator, if_neg hs, if_neg hb, hunits]

theorem addOperators_ok_iff {ops : List Operator} {g' : Graph} : g.addOperators ops = (g', none) ↔
    (∀ o ∈ ops, Admits g.units o) ∧ g' = { g with operators := g.operators ++ ops } := by
  induction ops generalizing g with
  | nil => simp [addOperators, eq_comm]
  | cons o os ih =>
    rw [addOperators, List.forall_mem_cons]
    rcases addOperator_cases g o with ⟨hadmits, hadd⟩ | ⟨hrefused, err, hadd⟩
    · rw [hadd]
      simp [ih, hadmits, pushOperator]
    · rw [hadd]
      simp [hrefused]

theorem addOperators_eq_ok {ops : List Operator} {g' : Graph} (h : g.addOperators ops = (g', none)) :
    g' = { g with operators := g.operators ++ ops } :=
  (addOperators_ok_iff.mp h).2

/-- Operators are only added, so that what edges join is still there. -/
theorem WellFormed.pushOperator (h : g.WellFormed) (o : Operator) : (g.pushOperator o).WellFormed := by
  refine ⟨h.ids, fun e he => ?_⟩
  have := h.ends e he
  simp only [Graph.pushOperator, size, List.length_append] at this ⊢
  omega

/-! ### Graphs that order their operators -/

/-- The pairs of domains between two operators of a graph. -/
def pairs (g : Graph) (p c : Nat) : List DomainPair :=
  DomainPair.between (g.operator p).kernelType (g.operator c).kernelType

structure Linked (g : Graph) : Prop extends WellFormed g where
  forward : ∀ e ∈ g.edges, e.producer < e.consumer
  pairs : ∀ e ∈ g.edges, e.pair ∈ g.pairs e.producer e.consumer
  explicit : ∀ e ∈ g.edges, e.pair.isCross = true → e.explicitSync = true
  unique : ∀ e ∈ g.edges, ∀ e' ∈ g.edges, e.producer = e'.producer → e.consumer = e'.consumer →
    e.pair = e'.pair → e = e'

/-- A specification that a graph takes: forward, between its operators, of a pair of theirs. -/
structure Takes (g : Graph) (s : EdgeSpec) : Prop where
  forward : s.producer < s.consumer
  within : s.consumer < g.size
  pair : s.pair ∈ g.pairs s.producer s.consumer

theorem newEdge_explicit (h : s.pair.isCross = true) : (g.newEdge s).explicitSync = true := by
  simp [newEdge, sameUnits, h]

theorem Linked.push (h : g.Linked) (ht : g.Takes s)
    (hn : g.hasEdge s.producer s.consumer s.pair = false) : (g.push s).Linked where
  toWellFormed := h.toWellFormed.push (Nat.lt_trans ht.forward ht.within) ht.within
  forward := by
    intro e he
    rcases mem_push.mp he with he | rfl
    · exact h.forward e he
    · exact ht.forward
  pairs := by
    intro e he
    rcases mem_push.mp he with he | rfl
    · exact h.pairs e he
    · exact ht.pair
  explicit := by
    intro e he
    rcases mem_push.mp he with he | rfl
    · exact h.explicit e he
    · exact newEdge_explicit
  unique := by
    have hnew : ∀ e ∈ g.edges, e.producer = s.producer → e.consumer = s.consumer →
        e.pair ≠ s.pair := by
      intro e he hp hc hpair
      have := hasEdge_iff.mpr ⟨e, he, hp, hc, hpair⟩
      rw [hn] at this
      cases this
    intro e he e' he' hp hc hpair
    rcases mem_push.mp he with he | rfl <;> rcases mem_push.mp he' with he' | rfl
    · exact h.unique e he e' he' hp hc hpair
    · exact absurd hpair (hnew e he hp hc)
    · exact absurd hpair.symm (hnew e' he' hp.symm hc.symm)
    · rfl

end Graph

end KernelFusion
