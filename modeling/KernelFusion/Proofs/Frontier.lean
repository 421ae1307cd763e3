import KernelFusion.Proofs.Connected
import KernelFusion.Proofs.Reduction

/-!
The edges that are signalled are the narrowest ones.

Three passes thin the edges out one after the other, and an edge for which another one was dropped may
itself be dropped later. What is left does not depend on that: it is every edge that has no other one of
its pair within it.

        0 ───────────────▶ 3        crossed by 1 → 2
             1 ──────────▶ 3        1 has an earlier receiver
        0 ─────────▶ 2              2 has a later sender
             1 ────▶ 2              kept
-/

namespace KernelFusion

instance (k e : Edge) : Decidable (k.Within e) :=
  decidable_of_iff (k.pair = e.pair ∧ e.producer ≤ k.producer ∧ k.consumer ≤ e.consumer)
    ⟨fun h => ⟨h.1, h.2.1, h.2.2⟩, fun h => ⟨h.pair, h.starts, h.ends⟩⟩

namespace Graph

variable {g : Graph}

/-- No other edge that is synchronized lies within this one. -/
def Narrowest (g : Graph) (e : Edge) : Prop :=
  ∀ o ∈ g.edges, o.explicitSync = true → o.Within e → o = e

instance (g : Graph) (e : Edge) : Decidable (g.Narrowest e) :=
  inferInstanceAs (Decidable (∀ o ∈ g.edges, o.explicitSync = true → o.Within e → o = e))

/-- Every edge that needs a signal has one of these within it. -/
def Covered (g : Graph) (ks : List Edge) : Prop :=
  ∀ e ∈ g.edges, e.needsSignal = true → ∃ k ∈ ks, k.Within e

end Graph

namespace TwoStream

variable {g : Graph} {e k a b : Edge}

/-- The three passes are three tests of the same edges. -/
theorem thinned_eq_filter (g : Graph) : ∃ keep, thinned g = g.edges.filter keep := by
  simp only [thinned, uncrossed, narrowest, List.filter_filter]
  exact ⟨_, rfl⟩

section Linked

variable (hg : g.Linked)
include hg

/-- A kept edge has the ends of every kept edge within it. -/
theorem ends_of_within (hk : k ∈ thinned g) (he : e ∈ thinned g) (h : k.Within e) :
    k.producer = e.producer ∧ k.consumer = e.consumer := by
  have hstarts : k.producer = e.producer := by
    refine le_antisymm (not_lt.mp fun hlt => ?_) h.starts
    exact absurd (thinned_ends hg.forward he hk h.pair.symm hlt) (not_lt.mpr h.ends)
  exact ⟨hstarts, thinned_sender hg.forward hk he h.pair hstarts⟩

theorem eq_of_within (hk : k ∈ thinned g) (he : e ∈ thinned g) (h : k.Within e) : k = e := by
  obtain ⟨hstarts, hends⟩ := ends_of_within hg hk he h
  exact hg.unique k (mem_thinned hk).1 e (mem_thinned he).1 hstarts hends h.pair

theorem thinned_covers : g.Covered (thinned g) := fun _ he hs => exists_thinned hg.forward he hs

/-- Between a kept edge and any edge within it lies a kept one, so all three have the same ends. -/
theorem narrowest_of_mem (he : e ∈ thinned g) : g.Narrowest e := by
  intro o ho hsync hoe
  have hs : o.needsSignal = true := by
    obtain ⟨_, hcross⟩ := Edge.needsSignal_iff.mp (mem_thinned he).2
    exact Edge.needsSignal_iff.mpr ⟨hsync, hoe.pair ▸ hcross⟩
  obtain ⟨k, hk, hko⟩ := thinned_covers hg o ho hs
  obtain rfl := eq_of_within hg hk he (hko.trans hoe)
  refine hg.unique o ho k (mem_thinned hk).1 ?_ ?_ hoe.pair
  · exact le_antisymm hko.starts hoe.starts
  · exact le_antisymm hoe.ends hko.ends

theorem mem_thinned_iff :
    e ∈ thinned g ↔ e ∈ g.edges ∧ e.needsSignal = true ∧ g.Narrowest e := by
  constructor
  · intro he
    obtain ⟨hmem, hs⟩ := mem_thinned he
    exact ⟨hmem, hs, narrowest_of_mem hg he⟩
  · rintro ⟨hmem, hs, hnarrow⟩
    obtain ⟨k, hk, hke⟩ := thinned_covers hg e hmem hs
    obtain ⟨hkmem, hks⟩ := mem_thinned hk
    obtain rfl := hnarrow k hkmem (Edge.needsSignal_iff.mp hks).1 hke
    exact hk

theorem thinned_eq_narrowest :
    thinned g = g.edges.filter fun e => e.needsSignal && decide (g.Narrowest e) := by
  obtain ⟨keep, hkeep⟩ := thinned_eq_filter g
  rw [hkeep]
  refine List.filter_congr fun e he => Bool.eq_iff_iff.mpr ?_
  have hiff := mem_thinned_iff hg (e := e)
  rw [hkeep, List.mem_filter, and_iff_right he, and_iff_right he] at hiff
  simpa using hiff

/-- Edges that cover all others contain the kept ones. -/
theorem mem_of_covered {ks : List Edge} (hks : ∀ k ∈ ks, k ∈ g.edges ∧ k.needsSignal = true)
    (hcover : g.Covered ks) (he : e ∈ thinned g) : e ∈ ks := by
  obtain ⟨hmem, hs⟩ := mem_thinned he
  obtain ⟨k, hk, hke⟩ := hcover e hmem hs
  obtain ⟨hkmem, hkneeds⟩ := hks k hk
  obtain rfl := narrowest_of_mem hg he k hkmem (Edge.needsSignal_iff.mp hkneeds).1 hke
  exact hk

theorem eq_of_shared_end (ha : a ∈ thinned g) (hb : b ∈ thinned g) (hpair : a.pair = b.pair)
    (h : a.producer = b.producer ∨ a.consumer = b.consumer) : a = b := by
  refine hg.unique a (mem_thinned ha).1 b (mem_thinned hb).1 ?_ ?_ hpair
  · exact h.elim id (thinned_receiver hg.forward ha hb hpair)
  · exact h.elim (thinned_sender hg.forward ha hb hpair) id

end Linked

/-- CORRECT: in the graph of an accepted plan, the edges that are signalled are exactly those across the
domains with no other one of their pair within them. So those of a pair come in one order at both ends and
share none, each dropped edge has a kept one within it, and whatever covers all edges has all kept ones. -/
theorem reduce_frontier {ops : List Operator} {fusion : Bool} {p : EventPlan}
    (h : EventPlan.analyze ops fusion = .ok p) (hops : g.operators = ops) (hedges : g.edges = []) :
    ∃ g' kept, p.connect g = (g', none) ∧ g'.operators = ops ∧ reduce g' = kept.map Edge.id ∧
      kept = g'.edges.filter (fun e => e.explicitSync && e.pair.isCross && decide (g'.Narrowest e)) ∧
      (∀ a ∈ kept, ∀ b ∈ kept, a.pair = b.pair →
        (a.producer < b.producer ↔ a.consumer < b.consumer) ∧
        (a.producer = b.producer ∨ a.consumer = b.consumer → a = b)) ∧
      g'.Covered kept ∧
      ∀ ks : List Edge, (∀ k ∈ ks, k ∈ g'.edges ∧ k.needsSignal = true) → g'.Covered ks →
        ∀ k ∈ kept, k ∈ ks := by
  subst hops
  obtain ⟨g', hconnect, hops, hlinked, _⟩ :=
    EventPlan.connect_linked hedges (EventPlan.analyzed h).bounds
  refine ⟨g', thinned g', hconnect, hops, reduce_eq hlinked, thinned_eq_narrowest hlinked,
    fun a ha b hb hpair => ⟨?_, ?_⟩, thinned_covers hlinked,
    fun ks hks hcover k hk => mem_of_covered hlinked hks hcover hk⟩
  · exact thinned_order hlinked.forward ha hb hpair
  · exact eq_of_shared_end hlinked ha hb hpair

/-- Two streams of a vector and a cube operator, with events between the streams. -/
def nested : List Operator :=
  [.onStream 0 "a" .aivOnly [7] [], .onStream 1 "b" .aivOnly [9] [], .onStream 1 "c" .aicOnly [] [7],
    .onStream 0 "d" .aicOnly [] [9]]

def nestedPlan : EventPlan :=
  ⟨.twoStream, [⟨7, 0, 2⟩, ⟨9, 1, 3⟩], [[], [], [], []], [[], [], [], []]⟩

/-- Each pass drops one of four edges, and the one that is left covers them all. -/
theorem nested_frontier : EventPlan.analyze nested true = .ok nestedPlan ∧
    ∃ g' kept, nestedPlan.connect ⟨⟨24, 48⟩, nested, []⟩ = (g', none) ∧
      g'.edges.map (fun e => (e.producer, e.consumer)) = [(1, 2), (0, 3), (0, 2), (1, 3)] ∧
      reduce g' = [0] ∧ kept.map Edge.id = [0] ∧ g'.Covered kept := by
  have h : EventPlan.analyze nested true = .ok nestedPlan := rfl
  obtain ⟨g', kept, hconnect, _, hreduce, _, _, hcover, _⟩ :=
    reduce_frontier (g := ⟨⟨24, 48⟩, nested, []⟩) h rfl rfl
  obtain rfl : (nestedPlan.connect ⟨⟨24, 48⟩, nested, []⟩).1 = g' := by rw [hconnect]
  have hone : reduce (nestedPlan.connect ⟨⟨24, 48⟩, nested, []⟩).1 = [0] := by decide
  exact ⟨h, _, kept, hconnect, by decide, hone, hreduce ▸ hone, hcover⟩

end TwoStream

end KernelFusion
