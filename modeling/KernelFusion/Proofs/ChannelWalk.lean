import KernelFusion.Proofs.EventPlan
import KernelFusion.Proofs.SingleStream
import KernelFusion.Proofs.StoreCalls

/-!
Channels along all boundaries of a graph.

The rules keep the channels in use and the edges that hold them from one boundary to the next. Both are
empty again behind every boundary: what the signals take, the waits in front of the same operator give
back. So each boundary has all channels to hand out, and edges of different boundaries never compete.

        free ── signals ── 1 … n in use ── waits ── free ── signals ── …
             in front of operator 1                   operator 2
-/

namespace KernelFusion

theorem Graph.store_wellFormed (units : Units) (cs : List Call) : (store units cs).WellFormed := by
  refine (foldl_after_keeps (motive := Sound) ?_ cs (empty_sound units)).toWellFormed
  intro g c hg hc
  exact Call.sound_extend hg hc

namespace Rules

variable {g : Graph} {op : Nat}

/-! ### One boundary after the other -/

/-- What is done in front of an operator: the steps for both of its neighbours, and the state behind
each of the two. -/
structure Visit where
  op : Nat
  sends : List Step
  held : Rules
  waits : List Step
  left : Rules

/-- The boundary in front of an operator. -/
def visit (g : Graph) (r : Rules) (op : Nat) : Except Error Visit := do
  let (sends, held) ← r.producerSide g (op - 1) op
  let (waits, left) := held.consumerSide g op
  return ⟨op, sends, held, waits, left⟩

/-- Boundaries one after the other, each in the state that the one before leaves. -/
def walk (g : Graph) : Rules → List Nat → Except Error (List Visit)
  | _, [] => .ok []
  | r, op :: ops => do
    let v ← visit g r op
    let vs ← walk g v.left ops
    return v :: vs

/-- All boundaries of a graph with the handshake. -/
def visits (g : Graph) : Except Error (List Visit) :=
  walk g (initial true) (List.range' 1 (g.size - 1))

/-! ### What a boundary does -/

/-- The edges into an operator that get a channel, with their channels: the first ones, in the order of
the edges, from the lowest channel on. -/
def numbered (g : Graph) (op : Nat) : List (Edge × Nat) := ((crossing g op).take 8).zipIdx 1

/-- Channels are in use at one boundary only. -/
structure Visit.Settles (v : Visit) (g : Graph) : Prop where
  /-- edges are taken by their names -/
  order : ((crossing g v.op).map Edge.id).Pairwise (· < ·)
  signals : v.sends.filter Step.isFlag = (numbered g v.op).map SingleStream.signalOf
  /-- all units meet behind the signals if some edge has no channel, and only then -/
  overflow : ∃ front,
    v.sends = front ++ (if 8 < (crossing g v.op).length then [overflowBarrier] else []) ∧
    ∀ s ∈ front, s.isFullBarrier = false
  waits : v.waits.filter Step.isFlag = (numbered g v.op).map SingleStream.waitOf
  held : v.held.inFlight = min (crossing g v.op).length 8
  left : v.left.inFlight = 0

theorem zip_range' {α : Type} (xs : List α) (k n : Nat) :
    xs.zip (List.range' k n) = (xs.take n).zipIdx k := by
  induction xs generalizing k n with
  | nil => simp
  | cons x xs ih =>
    cases n with
    | zero => simp
    | succ n => simp [List.range'_succ, ih]

theorem granted_eq_numbered : granted g op = numbered g op :=
  zip_range' (crossing g op) 1 8

theorem crossing_increasing (hg : g.WellFormed) (op : Nat) :
    ((crossing g op).map Edge.id).Pairwise (· < ·) := by
  have hids : (g.edges.map Edge.id).Pairwise (· < ·) := hg.ids ▸ List.pairwise_lt_range
  exact hids.sublist ((List.filter_sublist.trans List.filter_sublist).map _)

theorem inFlight_holding (gs : List (Edge × Nat)) : (holding gs).inFlight = gs.length := by
  simp [holding, inFlight, Channels.inFlight]

/-- What is done in front of an operator if no channel is in use. -/
def fresh (g : Graph) (op : Nat) : Visit :=
  ⟨op, domainBarriers g (op - 1) ++ ((granted g op).flatMap fun a => signalSteps a.1 a.2)
      ++ overflow g op,
    holding (granted g op), (granted g op).flatMap fun a => waitSteps a.1 a.2, initial true⟩

theorem visit_initial (hg : g.WellFormed) (op : Nat) :
    visit g (initial true) op = .ok (fresh g op) := by
  simp [visit, fresh, producerSide_initial hg, consumerSide_granted hg, bind, Except.bind, pure,
    Except.pure]

theorem fresh_settles (hg : g.WellFormed) (op : Nat) : (fresh g op).Settles g := by
  rw [fresh]
  have hoverflow : (overflow g op).filter Step.isFlag = [] := by
    rw [overflow]
    split <;> simp [overflowBarrier, Step.isFlag]
  constructor
  case order => exact crossing_increasing hg op
  case signals =>
    simp only [List.filter_append, SingleStream.flags_domainBarriers, SingleStream.flags_signalSteps,
      hoverflow, granted_eq_numbered, List.nil_append, List.append_nil]
  case overflow =>
    refine ⟨_, rfl, fun s hs => ?_⟩
    have hnone : (domainBarriers g (op - 1) ++ (granted g op).flatMap fun a => signalSteps a.1 a.2).any
        Step.isFullBarrier = false := by
      rw [List.any_append, full_domainBarriers, full_signalSteps, Bool.or_self]
    exact Bool.eq_false_iff.mpr (List.any_eq_false.mp hnone s hs)
  case waits => rw [SingleStream.flags_waitSteps, granted_eq_numbered]
  case held =>
    rw [inFlight_holding, granted, List.length_zip]
    rfl
  case left => rfl

/-! ### All boundaries -/

/-- Every boundary starts as the first one does. -/
theorem walk_initial (hg : g.WellFormed) (ops : List Nat) :
    walk g (initial true) ops = .ok (ops.map (fresh g)) := by
  induction ops with
  | nil => rfl
  | cons op ops ih =>
    have hleft : walk g (fresh g op).left ops = .ok (ops.map (fresh g)) := ih
    simp [walk, visit_initial hg, hleft, bind, Except.bind, pure, Except.pure]

/-- A channel is asked for in vain only if none is free. -/
theorem acquire_ok_or_exhausted (c : Channels) (e : Edge) :
    (∃ n rest, c.acquire e = (.ok n, rest)) ∨ c.acquire e = (.error (.channelExhausted e), c) := by
  unfold Channels.acquire
  split
  · exact .inl ⟨_, _, rfl⟩
  · exact .inr rfl

/-- CORRECT: in every graph the boundaries all go through. Each one signals the first edges that cross
the domains on channels 1, 2, … as far as there are channels, and waits for the same edges on the same
channels. No channel stays in use behind it, and to find none free is the only thing that can go wrong. -/
theorem channels_settled (units : Units) (cs : List Graph.Call) :
    (∃ vs, visits (Graph.store units cs) = .ok vs ∧
      vs.map Visit.op = List.range' 1 ((Graph.store units cs).size - 1) ∧
      ∀ v ∈ vs, v.Settles (Graph.store units cs)) ∧
    ∀ (c : Channels) (e : Edge),
      (∃ n rest, c.acquire e = (.ok n, rest)) ∨ c.acquire e = (.error (.channelExhausted e), c) := by
  have hg := Graph.store_wellFormed units cs
  refine ⟨⟨_, walk_initial hg _, ?_, ?_⟩, acquire_ok_or_exhausted⟩
  · rw [List.map_map]
    exact List.map_id _
  · intro v hv
    obtain ⟨op, _, rfl⟩ := List.mem_map.mp hv
    exact fresh_settles hg op

/-- Five mixed operators that a sixth one depends on across both pairs of domains. -/
def crowded : List Graph.Call :=
  List.replicate 6 (.operator (.onStream 0 "mixed" .mixAic11 [] []))
    ++ (List.range 5).flatMap fun op =>
      [.edge ⟨op, 5, ⟨.cube, .vector⟩, .sequence, false⟩,
        .edge ⟨op, 5, ⟨.vector, .cube⟩, .sequence, false⟩]

/-- Ten edges meet eight channels at the last boundary. -/
theorem crowded_settled : ∃ vs, visits (Graph.store ⟨24, 48⟩ crowded) = .ok vs ∧ ∃ v ∈ vs, v.op = 5 ∧
    (crossing (Graph.store ⟨24, 48⟩ crowded) 5).length = 10 ∧
    v.Settles (Graph.store ⟨24, 48⟩ crowded) ∧ v.held.inFlight = 8 ∧
    .barrier (.full "reason5: more cross edges than free flags") ∈ v.sends := by
  obtain ⟨⟨vs, hvs, hops, hsettles⟩, _⟩ := channels_settled ⟨24, 48⟩ crowded
  have hlength : (crossing (Graph.store ⟨24, 48⟩ crowded) 5).length = 10 := by decide +kernel
  have hmem : 5 ∈ vs.map Visit.op := by
    rw [hops]
    decide +kernel
  obtain ⟨v, hv, hop⟩ := List.mem_map.mp hmem
  have hv' := hsettles v hv
  obtain ⟨front, hsends, _⟩ := hv'.overflow
  rw [hop, hlength] at hsends
  refine ⟨vs, hvs, v, hv, hop, hlength, hv', ?_, ?_⟩
  · simp [hv'.held, hop, hlength]
  · rw [hsends]
    exact List.mem_append_right _ List.mem_cons_self

end Rules

end KernelFusion
