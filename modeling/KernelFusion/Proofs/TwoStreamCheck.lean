import KernelFusion.Generator
import KernelFusion.Proofs.Connect
import KernelFusion.Proofs.TwoStream

/-!
The check accepts every two-stream schedule that is planned.

Both domains have the same full barriers. Signals and waits of a direction are the same edges in the
same order. An edge inside a domain has the barrier behind its sender; an edge across the domains has
the barrier and the signal of the edge within it that was left.
-/

namespace KernelFusion

open List

namespace StreamSteps

open Schedule

theorem firstDifference?_self (xs : List Nat) : firstDifference? xs xs = none := by
  induction xs with
  | nil => rfl
  | cons x xs ih => rw [firstDifference?, if_pos rfl, ih]

/-- A barrier and a signal behind the producer, with the wait in front of the consumer, realize an edge
of the signal's pair. -/
theorem isSignalled_of_sublist {g : Graph} {e : Edge} {source target : List Step} {b : Barrier}
    {edge i j : Nat} {dp dc : Domain} {pipe : Pipe} {flag flag' : Flag}
    (hsource : [.invoke e.producer, .barrier b, .signal edge dp pipe flag] <+ source)
    (hi : positions (Step.isInvokeOf e.producer) source = [i])
    (htarget : [.wait edge dc flag', .invoke e.consumer] <+ target)
    (hj : positions (Step.isInvokeOf e.consumer) target = [j])
    (hb : b.covers e.pair.producer = true) (hpair : (g.edge edge).pair = e.pair) :
    isSignalled g e (source.drop i) (target.take j) = true := by
  obtain ⟨i', k, s, hik, hks, hi', hk, hs⟩ := exists_between_of_sublist hsource
  rw [eq_of_positions hi hi' (by simp [Step.isInvokeOf])] at hik
  have hsignal : (source.drop i)[s - i]? = some (.signal edge dp pipe flag) := by
    rw [List.getElem?_drop, ← hs]
    congr 1
    omega
  have hbarrier : ((source.drop i).take (s - i)).any (Step.meets e.pair.producer) = true := by
    rw [List.take_drop]
    exact any_span.mpr ⟨k, .barrier b, hik.le, by omega, hk, hb⟩
  have hwait : (target.take j).any (Step.isWaitOf edge) = true := by
    obtain ⟨w, j', hwj, hw, hj'⟩ := exists_lt_of_sublist htarget
    rw [eq_of_positions hj hj' (by simp [Step.isInvokeOf])] at hwj
    exact any_span.mpr ⟨w, _, Nat.zero_le w, hwj, hw, by simp [Step.isWaitOf]⟩
  refine List.any_eq_true.mpr ⟨(.signal edge dp pipe flag, s - i),
    List.mem_zipIdx_iff_getElem?.mpr hsignal, ?_⟩
  simp [signalled?, hpair, hbarrier, hwait]

end StreamSteps

namespace TwoStream

open Schedule StreamSteps Generator

variable {p : TwoStream} {d : Domain} {e : Edge}

@[simp] theorem get_streamSteps : (streamSteps p).get d = p.steps d := by cases d <;> rfl

theorem countP_full :
    (p.steps .cube).countP Step.isFullBarrier = (p.steps .vector).countP Step.isFullBarrier := by
  rw [List.countP_eq_length_filter, List.countP_eq_length_filter, full_steps, full_steps]

theorem positions_member {op : Nat} (h : op ∈ p.members d) :
    ∃ i, positions (Step.isInvokeOf op) (p.steps d) = [i] := by
  have hn : (invocations (p.steps d)).Nodup := invocations_steps ▸ members_increasing.nodup
  obtain ⟨i, hi, _⟩ := positions_invoke hn (invocations_steps ▸ h)
  exact ⟨i, hi⟩

theorem mem_trail_of_guards {op : Nat} (h : p.guards d op = true) :
    .barrier (.domain d) ∈ p.trail d op := by
  simp [trail, handover, h]

namespace Planned

variable (hp : p.Planned)
include hp

theorem signals_eq : (streamSteps p).signals d = ((p.members d).flatMap (p.raised d)).map Edge.id := by
  rw [signals, get_streamSteps, hp.signalled_steps, List.map_map]
  rfl

/-- All signals of a domain are on its flag. -/
theorem signalled_flag {r : Nat × Flag} (h : r ∈ (p.steps d).filterMap signalled?) :
    r.2 = .ofStream d := by
  rw [hp.signalled_steps] at h
  obtain ⟨e, _, rfl⟩ := List.mem_map.mp h
  rfl

/-- All waits of a domain are on the flag of the other one. -/
theorem awaited_flag {w : Nat × Flag} (h : w ∈ (p.steps d.other).filterMap awaited?) :
    w.2 = .ofStream d := by
  rw [awaited_steps] at h
  obtain ⟨e, he, rfl⟩ := List.mem_map.mp h
  obtain ⟨op, _, he⟩ := List.mem_flatMap.mp he
  rw [(hp.mem_awaited.mp he).2.2]
  cases d <;> rfl

theorem waits_eq : (streamSteps p).waits d
    = ((p.members d.other).flatMap (p.awaited d.other)).map Edge.id := by
  rw [StreamSteps.waits, get_streamSteps,
    List.filter_eq_self.mpr fun w hw => decide_eq_true (hp.awaited_flag hw), awaited_steps, List.map_map]
  rfl

theorem signals_eq_waits (d : Domain) : (streamSteps p).signals d = (streamSteps p).waits d := by
  rw [hp.signals_eq, hp.waits_eq, hp.raised_eq_awaited]

theorem checkDirection_steps (d : Domain) :
    checkDirection p.launch.graph (streamSteps p) d = .ok () := by
  have hflags : ((p.steps d).filterMap signalled?).find?
      (fun r => decide (r.2 ≠ Flag.ofStream d)) = none := by
    refine List.find?_eq_none.mpr fun r hr => ?_
    simp [hp.signalled_flag hr]
  simp only [checkDirection, get_streamSteps, hflags, ← hp.signals_eq_waits, firstDifference?_self]

/-! ### Edges -/

/-- An edge across the domains has a signal behind its sender whose wait is in front of its receiver. -/
theorem order_cross (he : e ∈ p.launch.graph.edges) (hs : e.needsSignal = true) :
    ∃ k ∈ thinned p.launch.graph, k.pair = e.pair ∧
      [.invoke e.producer, .barrier (.domain e.pair.producer), signalOf e.pair.producer k]
        <+ p.steps e.pair.producer ∧
      [waitOf e.pair.consumer k, .invoke e.consumer] <+ p.steps e.pair.consumer := by
  obtain ⟨k, hk, hin⟩ := exists_thinned hp.linked.forward he hs
  have hcross := (Edge.needsSignal_iff.mp hs).2
  have hraised : k ∈ p.raised e.pair.producer k.producer :=
    hp.mem_raised.mpr ⟨hk, rfl, hin.pair.trans (DomainPair.cross_producer.mp ⟨hcross, rfl⟩)⟩
  have hawaited : k ∈ p.awaited e.pair.consumer k.consumer :=
    hp.mem_awaited.mpr ⟨hk, rfl, hin.pair.trans (DomainPair.cross_consumer.mp ⟨hcross, rfl⟩)⟩
  have hsignal : [.barrier (.domain e.pair.producer), signalOf e.pair.producer k]
      <+ p.trail e.pair.producer k.producer := by
    rw [trail, handover, if_pos (hp.raised_guards hraised)]
    exact ((List.singleton_sublist.mpr (List.mem_map_of_mem hraised)).cons_cons _).trans
      (List.sublist_append_right _ _)
  have hwait : [waitOf e.pair.consumer k] <+ p.lead e.pair.consumer k.consumer :=
    (List.singleton_sublist.mpr (List.mem_map_of_mem hawaited)).trans (List.sublist_append_left _ _)
  have hsender := hp.producer_mem (mem_thinned hk).1
  have hreceiver := hp.consumer_mem (mem_thinned hk).1
  rw [hin.pair] at hsender hreceiver
  have hbefore := order_before hreceiver (hp.consumer_mem he) hin.ends hwait
  exact ⟨k, hk, hin.pair, order_behind (hp.producer_mem he) hsender hin.starts hsignal, hbefore⟩

/-- A domain meets behind the sender of every edge inside it. -/
theorem guards_inside (he : e ∈ p.launch.graph.edges) (hs : e.explicitSync = true)
    (hpair : e.pair = ⟨d, d⟩) : p.guards d e.producer = true := by
  have hkept : e ∈ p.kept := by
    rw [hp.kept, mem_keptEdges hp.linked]
    exact ⟨he, hs, .inl (by simp [hpair, DomainPair.isCross])⟩
  exact hp.guards_producer hkept (.inl (by rw [hpair]))

/-- An edge inside a domain has a barrier between its ends. -/
theorem order_inside (he : e ∈ p.launch.graph.edges) (hs : e.explicitSync = true)
    (hpair : e.pair = ⟨d, d⟩) :
    [.invoke e.producer, .barrier (.domain d), .invoke e.consumer] <+ p.steps d := by
  have hproducer := hp.producer_mem he
  have hconsumer := hp.consumer_mem he
  rw [hpair] at hproducer hconsumer
  exact order_between hproducer hproducer hconsumer le_rfl (hp.linked.forward e he)
    (mem_trail_of_guards (hp.guards_inside he hs hpair))

theorem checkEdge_steps (he : e ∈ p.launch.graph.edges) (hs : e.explicitSync = true) :
    StreamSteps.checkEdge p.launch.graph (streamSteps p) e = .ok () := by
  obtain ⟨i, hi⟩ := positions_member (hp.producer_mem he)
  obtain ⟨j, hj⟩ := positions_member (hp.consumer_mem he)
  simp only [StreamSteps.checkEdge, get_streamSteps, invocation_of_positions hi,
    invocation_of_positions hj, bind, Except.bind]
  cases hcross : e.pair.isCross with
  | true =>
    obtain ⟨k, hk, hpair, hsource, htarget⟩ :=
      hp.order_cross he (Edge.needsSignal_iff.mpr ⟨hs, hcross⟩)
    have hedge : (p.launch.graph.edge k.id).pair = e.pair := by
      rw [hp.linked.edge_id (mem_thinned hk).1, hpair]
    rw [if_pos rfl, isSignalled_of_sublist hsource hi htarget hj (by simp [Barrier.covers, Barrier.domain])
      hedge]
    rfl
  | false =>
    obtain ⟨dp, dc, hpair, rfl⟩ : ∃ dp dc, e.pair = ⟨dp, dc⟩ ∧ dp = dc :=
      ⟨_, _, rfl, by simpa [DomainPair.isCross] using hcross⟩
    have horder := hp.order_inside he hs hpair
    simp only [hpair] at hi hj ⊢
    have hspan : (span (p.steps dp) i j).any (Step.meets dp) = true :=
      any_span_of_sublist horder hi (by simp [Step.isInvokeOf]) hj (by simp [Step.isInvokeOf])
        (by simp [Step.meets, Barrier.covers, Barrier.domain])
    have hlt : i < j :=
      position_lt (((List.sublist_cons_self _ _).cons_cons _).trans horder) hi
        (by simp [Step.isInvokeOf]) hj (by simp [Step.isInvokeOf])
    simp [hspan, hlt, pure, Except.pure]

theorem verify_streams : (streamSteps p).verify p.launch.graph = .ok (streamSteps p).stats := by
  have hbarriers : (streamSteps p).checkBarriers = .ok () := by
    simp only [checkBarriers, streamSteps, countP_full, if_true]
  have hedges : (p.launch.graph.edges.filter Edge.explicitSync).forM
      (StreamSteps.checkEdge p.launch.graph (streamSteps p)) = .ok () := by
    refine forM_eq_ok fun e he => ?_
    obtain ⟨he, hs⟩ := List.mem_filter.mp he
    exact hp.checkEdge_steps he hs
  have hdirections : Domain.all.forM (checkDirection p.launch.graph (streamSteps p)) = .ok () :=
    forM_eq_ok fun d _ => hp.checkDirection_steps d
  simp only [StreamSteps.verify, hbarriers, hdirections, hedges, bind, Except.bind]
  rfl

end Planned

/-- CORRECT: static operators that are accepted can be planned on two streams, whatever the options, and
the check accepts the plan. Each domain calls its operators once in order, both reach the same number of
full barriers, and what one domain signals the other awaits in the same order. -/
theorem two_stream_accepted {l : Launch} {units : Units} {ops : List Operator} {fusion : Bool}
    (h : l.Accepted units ops fusion) (hstatic : ∀ o ∈ ops, o.isDynamic = false) :
    ∃ p, plan l = .ok p ∧
      (∀ d, invocations (p.steps d)
        = (List.range ops.length).filter fun op => (l.operator op).affinity.contains d) ∧
      (p.steps .cube).countP Step.isFullBarrier = (p.steps .vector).countP Step.isFullBarrier ∧
      (∀ d, (streamSteps p).signals d = (streamSteps p).waits d) ∧
      (streamSteps p).verify l.graph = .ok (streamSteps p).stats := by
  have hops := h.spec.1
  have hp : Planned ⟨l, keptEdges l.graph⟩ := ⟨h.linked, rfl⟩
  refine ⟨_, plan_static (hops.symm ▸ hstatic), fun d => ?_, countP_full, hp.signals_eq_waits,
    hp.verify_streams⟩
  rw [invocations_steps, members, membersOf, Graph.size, hops]
  rfl

/-- A mixed operator in front of one on cube units, with two operators of another stream between them
whose signal makes its own one needless. -/
def crossed : Launch :=
  .ofOperators
    [.onStream 0 "mixed" .mixAic11 [] [], .onStream 1 "vector" .aivOnly [] [],
      .onStream 1 "cube" .aicOnly [] [], .onStream 0 "last" .aicOnly [] []]
    ⟨.twoStream, [], [[], [], [], []], [[], [], [], []]⟩ false

theorem crossed_accepted : crossed.Accepted ⟨24, 48⟩ crossed.graph.operators true :=
  ⟨rfl, _, rfl, rfl⟩

theorem crossed_realized : crossed.events.mode = .twoStream ∧
    (reduce crossed.graph).length < crossed.graph.edges.length ∧
    ∃ p, plan crossed = .ok p ∧ invocations (p.steps .cube) = [0, 2, 3] ∧
      (streamSteps p).verify crossed.graph = .ok (streamSteps p).stats := by
  obtain ⟨p, hplan, hcalls, _, _, hverify⟩ := two_stream_accepted crossed_accepted (by decide)
  exact ⟨rfl, by decide, p, hplan, hcalls .cube, hverify⟩

end TwoStream

end KernelFusion
