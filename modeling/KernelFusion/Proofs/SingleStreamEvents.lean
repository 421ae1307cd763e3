import KernelFusion.Proofs.Fence
import KernelFusion.Proofs.Launch
import KernelFusion.Proofs.SingleStreamOrder

/-!
Outer events in a single-stream schedule.

The wait for the outer events of an operator stands in front of the synchronization with the operator
before it, and the notification of an operator behind the synchronization with the next one. Neither
has a barrier of its own, so that both hold for other units than block 0 only as far as the boundary has
the barriers and signals for it. Where a notification and a wait meet at one boundary, a barrier over
the whole launch follows the wait.

        event wait ── synchronization ── call           no events sent before
        synchronization ── notify ── event wait ── barrier ── call
-/

namespace KernelFusion

open List

/-- Whether a step calls an operator or handles its outer events. -/
def Step.isEvent : Step → Bool
  | .notify _ => true
  | .eventWait _ => true
  | .invoke _ => true
  | _ => false

theorem Operator.eventDomain_mem (o : Operator) : o.eventDomain ∈ o.affinity.domains := by
  unfold Operator.eventDomain
  cases o.affinity <;> decide

namespace SingleStream

open Schedule

variable {l : Launch} {prev cur op : Nat} {d dp dc : Domain} {b : Barrier}

/-! ### Where events stand -/

theorem boundarySteps_eq : boundarySteps l prev cur =
    if l.events.recvs cur = [] then
      syncSteps l prev cur ++ if l.events.sends prev = [] then [] else [.notify prev]
    else if l.events.sends prev = [] then .eventWait cur :: syncSteps l prev cur
    else syncSteps l prev cur ++ [.notify prev, .eventWait cur,
      .comment "// reason3: for continues notify/wait event",
      .barrier (.covering l.shape.kernelType)] := by
  simp only [boundarySteps, withEvents]
  by_cases hr : l.events.recvs cur = [] <;> by_cases hs : l.events.sends prev = [] <;> simp [hr, hs]

/-- The events at the boundary in front of an operator, and its call. -/
def eventSteps (l : Launch) (op : Nat) : List Step :=
  (if op = 0 ∨ l.events.sends (op - 1) = [] then [] else [.notify (op - 1)])
    ++ (if op = 0 ∨ l.events.recvs op = [] then [] else [.eventWait op]) ++ [.invoke op]

theorem events_syncSteps : (syncSteps l prev cur).filter Step.isEvent = [] := by
  have hbarriers : (Rules.domainBarriers l.graph prev).filter Step.isEvent = [] := by
    refine List.filter_eq_nil_iff.mpr fun s hs => ?_
    obtain ⟨d, _, rfl⟩ := List.mem_map.mp hs
    exact Bool.false_ne_true
  simp [syncSteps, crossSteps, hbarriers, filter_ite, Rules.overflow, Rules.overflowBarrier,
    Rules.fullBarrier, Rules.signalSteps, Rules.waitSteps, handshake, List.filter_flatMap, Step.isEvent]

theorem events_boundarySteps : (boundarySteps l prev cur).filter Step.isEvent
    = (if l.events.sends prev = [] then [] else [.notify prev])
      ++ if l.events.recvs cur = [] then [] else [.eventWait cur] := by
  rw [boundarySteps_eq]
  by_cases hr : l.events.recvs cur = [] <;> by_cases hs : l.events.sends prev = [] <;>
    simp [hr, hs, events_syncSteps, List.filter_cons, Step.isEvent]

theorem events_block :
    (block l op).filter Step.isEvent = eventSteps l op := by
  by_cases h0 : op = 0
  · simp [h0, eventSteps, block, lead, trail, filter_ite, List.filter_cons, Step.isEvent,
      Step.beginOperator, resolveSteps, preloadSteps, releaseSteps, debugSteps, mark]
  · simp [h0, eventSteps, block, lead, trail, filter_ite, List.filter_cons, Step.isEvent,
      Step.beginOperator, resolveSteps, preloadSteps, releaseSteps, debugSteps, mark,
      events_boundarySteps]

theorem events_steps :
    (steps l).filter Step.isEvent = l.ids.flatMap (eventSteps l) := by
  have hopening : (openingSteps l).filter Step.isEvent = [] := by
    simp [openingSteps, mark, filter_ite, Step.isEvent]
  have hclosing : (closingSteps l).filter Step.isEvent = [] := by
    simp [closingSteps, mark, filter_ite, Step.isEvent]
  rw [steps, List.filter_append, List.filter_append, hopening, hclosing, List.filter_flatMap,
    List.nil_append, List.append_nil]
  simp only [events_block]

/-- The boundary that a step on events stands at. -/
def boundaryOf : Step → Nat
  | .notify op => op + 1
  | .eventWait op => op
  | .invoke op => op
  | _ => 0

/-- Every call and every step on events stands once. -/
theorem nodup_events : ((steps l).filter Step.isEvent).Nodup := by
  rw [events_steps]
  refine nodup_blocks List.nodup_range (fun op => ?_) boundaryOf fun op s hs => ?_
  · unfold eventSteps
    split <;> split <;> simp
  · simp only [eventSteps, List.mem_append, List.mem_singleton] at hs
    rcases hs with (hs | hs) | rfl
    · split at hs
      · cases hs
      · obtain rfl := List.mem_singleton.mp hs
        simp only [boundaryOf]
        omega
    · split at hs
      · cases hs
      · obtain rfl := List.mem_singleton.mp hs
        rfl
    · rfl

/-! ### What a boundary orders -/

/-- The barriers of a boundary. -/
theorem barrier_mem_syncSteps (h : .barrier b ∈ syncSteps l prev cur) :
    b.scope = .full ∧ (l.earlyStart = false ∨
      Channels.all.length < (Rules.crossing l.graph cur).length) ∨
    ∃ d, b.scope = .domain d ∧ Rules.guards l.graph prev d = true := by
  cases hearly : l.earlyStart with
  | false =>
    simp [syncSteps, hearly, Rules.fullBarrier] at h
    exact .inl ⟨by rw [h, Barrier.full], .inl rfl⟩
  | true =>
    rw [syncSteps, if_pos hearly] at h
    rcases List.mem_append.mp h with hdomain | hcross
    · obtain ⟨d, hd, hb⟩ := List.mem_map.mp hdomain
      obtain rfl := Step.barrier.inj hb
      exact .inr ⟨d, rfl, (List.mem_filter.mp hd).2⟩
    · have hover : .barrier b ∈ Rules.overflow l.graph cur := by
        simpa [crossSteps, Rules.signalSteps, Rules.waitSteps, handshake] using hcross
      rw [Rules.overflow] at hover
      split at hover
      next hlength =>
        obtain rfl := Step.barrier.inj (List.mem_singleton.mp hover)
        exact .inl ⟨rfl, .inr hlength⟩
      · cases hover

/-- Steps whose barriers are all those of a boundary fence only by its full barrier or by one that guards
the domain in front. -/
theorem fence_cases {steps : List Step} (h : Fences steps dp dc)
    (hsync : ∀ b, .barrier b ∈ steps → .barrier b ∈ syncSteps l prev cur) :
    l.earlyStart = false ∨ Channels.all.length < (Rules.crossing l.graph cur).length ∨
    Rules.guards l.graph prev dp = true ∧ (dp = dc ∨ ∃ edge flag, .wait edge dc flag ∈ steps) := by
  rcases h.cases with ⟨b, hscope, hmem⟩ | ⟨⟨b, hscope, hmem⟩, hwait⟩
  · rcases barrier_mem_syncSteps (hsync b hmem) with ⟨_, hfull⟩ | ⟨d, hdomain, _⟩
    · exact hfull.imp id .inl
    · cases hscope.symm.trans hdomain
  · rcases barrier_mem_syncSteps (hsync b hmem) with ⟨hfull, _⟩ | ⟨d, hdomain, hguards⟩
    · cases hscope.symm.trans hfull
    · cases hscope.symm.trans hdomain
      exact .inr (.inr ⟨hguards, hwait⟩)

/-- Only domains of the next operator wait at a boundary. -/
theorem wait_mem_syncSteps (hg : l.graph.Linked) {edge : Nat} {flag : Flag}
    (h : .wait edge d flag ∈ syncSteps l prev cur) : d ∈ (l.operator cur).affinity.domains := by
  have hflag : .wait edge d flag ∈ (syncSteps l prev cur).filter Step.isFlag :=
    List.mem_filter.mpr ⟨h, rfl⟩
  rw [flags_syncSteps] at hflag
  split at hflag
  · rcases List.mem_append.mp hflag with hs | hw
    · obtain ⟨a, _, ha⟩ := List.mem_map.mp hs
      cases ha
    · obtain ⟨a, hgranted, ha⟩ := List.mem_map.mp hw
      obtain ⟨he, rfl, _⟩ := mem_granted hgranted
      obtain ⟨_, rfl, _⟩ := Step.wait.inj ha
      exact (DomainPair.between_domains _ _ _ (hg.pairs a.1 he)).2
  · cases hflag

/-- Rule 1 guards domains of the producer only. -/
theorem domain_of_guards (hg : l.graph.Linked) (h : Rules.guards l.graph op d = true) :
    d ∈ (l.operator op).affinity.domains := by
  obtain ⟨e, hout, hguards⟩ := List.any_eq_true.mp h
  obtain ⟨he, rfl⟩ := Graph.mem_outgoing.mp hout
  simp only [Bool.and_eq_true, Bool.or_eq_true, decide_eq_true_eq] at hguards
  rcases hguards.2 with rfl | ⟨hmixed, _⟩
  · exact (DomainPair.between_domains _ _ _ (hg.pairs e he)).1
  · rw [Launch.operator, hmixed]
    cases d <;> decide

section Accepted

variable {units : Units} {ops : List Operator} {fusion : Bool} (h : l.Accepted units ops fusion)
  (hmode : l.events.mode = .singleStream)
include h hmode

/-- A boundary that has a full barrier fences, and one that guards a domain does so for this domain and
for those of the next operator, to which the barrier is signalled. -/
theorem fences_syncSteps (hop : op + 1 < l.graph.size)
    (hfence : l.earlyStart = false ∨
      Channels.all.length < (Rules.crossing l.graph (op + 1)).length ∨
      Rules.guards l.graph op dp = true ∧ (dp = dc ∨ dc ∈ (l.operator (op + 1)).affinity.domains)) :
    Fences (syncSteps l op (op + 1)) dp dc := by
  cases hearly : l.earlyStart with
  | false =>
    obtain ⟨b, hb, hmem⟩ := exists_fullBarrier hearly op (op + 1)
    exact fences_full hb hmem
  | true =>
    have hoverflow : Rules.overflow l.graph (op + 1) = [Rules.overflowBarrier] →
        Fences (syncSteps l op (op + 1)) dp dc := fun hover =>
      fences_full rfl (List.singleton_sublist.mp (overflow_sublist_syncSteps hearly hover))
    rcases hfence.resolve_left (by simp [hearly]) with hlength | ⟨hguard, hdomain⟩
    · exact hoverflow (if_pos hlength)
    obtain ⟨b, hb, hmem⟩ := exists_domainBarrier hguard
    by_cases hd : dp = dc
    · subst hd
      refine fences_domain hb ?_
      rw [syncSteps, if_pos hearly]
      exact List.mem_append_left _ hmem
    · -- The neighbours are joined, so that the edge of this pair is among those to be signalled.
      obtain ⟨e, he, rfl, hec⟩ := h.joined hop (.inl (.inl hmode))
      obtain ⟨k, hk, _, hkc, hpair, hsignal⟩ := h.exists_cross he (domain_of_guards h.linked hguard)
        (hec ▸ hdomain.resolve_left hd) hd
      rcases grantOf_cases h.linked.toWellFormed hk hsignal with ⟨channel, hgranted, _⟩ | ⟨_, hover⟩
      · rw [hkc, hec] at hgranted
        have hflags : [signalOf (k, channel), waitOf (k, channel)]
            <+ crossSteps l e.producer (e.producer + 1) := flags_sublist_crossSteps hgranted
        have hsync : [.barrier b, signalOf (k, channel), waitOf (k, channel)]
            <+ syncSteps l e.producer (e.producer + 1) := by
          rw [syncSteps, if_pos hearly]
          exact (List.singleton_sublist.mpr hmem).append hflags
        rw [signalOf, waitOf, hpair] at hsync
        exact ⟨_, .signal hb, hsync⟩
      · exact hoverflow (by rw [← hec, ← hkc, hover])

end Accepted

/-! ### Waits -/

/-- The steps between the wait for an operator's events and its call. -/
def gate (l : Launch) (op : Nat) : List Step :=
  (if l.events.sends (op - 1) = [] then syncSteps l (op - 1) op
    else [.comment "// reason3: for continues notify/wait event",
      .barrier (.covering l.shape.kernelType)])
  ++ (if l.options.feedSyncAll then [.feedSyncInit op] else [])
  ++ mark l (profileEvent op) .subOperator true

theorem exists_wait_cut (hop : op + 1 < l.graph.size)
    (hr : l.events.recvs (op + 1) ≠ []) : ∃ front back : List Step,
      steps l = front ++ .eventWait (op + 1) :: (gate l (op + 1) ++ .invoke (op + 1) :: back) := by
  obtain ⟨before, after, hids⟩ := List.append_of_mem (List.mem_range.mpr hop)
  let early := openingSteps l ++ before.flatMap (block l)
    ++ Step.beginOperator (l.operator (op + 1)).name
      :: (resolveSteps l (op + 1) ++ preloadSteps l (op + 1))
  let late := trail l (op + 1) ++ after.flatMap (block l) ++ closingSteps l
  by_cases hs : l.events.sends op = []
  · refine ⟨early, late, ?_⟩
    rw [steps, Launch.ids, hids]
    simp [early, late, block, lead, gate, boundarySteps_eq, hr, hs]
  · refine ⟨early ++ syncSteps l op (op + 1) ++ [.notify op], late, ?_⟩
    rw [steps, Launch.ids, hids]
    simp [early, late, block, lead, gate, boundarySteps_eq, hr, hs]

theorem barrier_mem_gate (hs : l.events.sends op = []) (h : .barrier b ∈ gate l (op + 1)) :
    .barrier b ∈ syncSteps l op (op + 1) := by
  simpa [gate, hs, mark] using h

/-- What holds all units back until block 0 has seen the events of an operator: a full barrier at the
boundary in front of it, the barrier behind a notification and a wait, or a barrier of the domain that
waits. -/
def Gated (l : Launch) (op : Nat) : Prop :=
  l.earlyStart = false ∨ Channels.all.length < (Rules.crossing l.graph op).length ∨
  l.events.sends (op - 1) ≠ [] ∨
  Rules.guards l.graph (op - 1) (l.operator op).eventDomain = true

theorem fences_gate_iff {units : Units} {ops : List Operator} {fusion : Bool}
    (h : l.Accepted units ops fusion) (hcovered : l.Covered) (hmode : l.events.mode = .singleStream)
    (hop : op + 1 < l.graph.size) (hd : d ∈ (l.operator (op + 1)).affinity.domains) :
    Fences (gate l (op + 1)) (l.operator (op + 1)).eventDomain d ↔ Gated l (op + 1) := by
  have hevent := (l.operator (op + 1)).eventDomain_mem
  rw [Gated, Nat.add_sub_cancel]
  by_cases hs : l.events.sends op = []
  · constructor
    · intro hfences
      rcases fence_cases hfences fun b => barrier_mem_gate hs with hearly | hlength | ⟨hguards, _⟩
      · exact .inl hearly
      · exact .inr (.inl hlength)
      · exact .inr (.inr (.inr hguards))
    · intro hgated
      have hsync : Fences (syncSteps l op (op + 1)) (l.operator (op + 1)).eventDomain d := by
        refine fences_syncSteps h hmode hop (hgated.imp id (Or.imp id fun hlast => ?_))
        exact ⟨hlast.resolve_left (by simp [hs]), .inr hd⟩
      refine hsync.mono ?_
      rw [gate, Nat.add_sub_cancel, if_pos hs, List.append_assoc]
      exact List.sublist_append_left _ _
  · refine ⟨fun _ => .inr (.inr (.inl hs)), fun _ => ?_⟩
    have hmem : .barrier (.covering l.shape.kernelType) ∈ gate l (op + 1) := by simp [gate, hs]
    exact fences_covering hmem (hcovered _ hop _ hevent) (hcovered _ hop _ hd)

/-- CORRECT (exact condition): no unit starts an operator before block 0 has seen its outer events
exactly where the boundary in front of the operator gates it. -/
theorem event_wait_gates_iff {r : Request} (hl : Generator.launch r = .ok l)
    (hmode : l.events.mode = .singleStream) (hr : l.events.recvs op ≠ [])
    (hd : d ∈ (l.operator op).affinity.domains) :
    Fenced (steps l) (.eventWait op) (l.operator op).eventDomain (.invoke op) d ↔ Gated l op := by
  obtain ⟨units, ops, fusion, h, hcovered⟩ := Generator.launch_accepted hl
  have hg := h.linked.toWellFormed
  obtain ⟨hpos, hop⟩ := h.recvs_bounds hr
  obtain ⟨op, rfl⟩ := Nat.exists_eq_add_one.mpr hpos
  obtain ⟨front, back, hcut⟩ := exists_wait_cut hop hr
  rw [hcut, fenced_of_nodup (hcut ▸ nodup_events) rfl rfl]
  exact fences_gate_iff h hcovered hmode hop hd

/-- An operator of vector units, then a mixed one that receives an event from outside. -/
def gatedRequest : Request :=
  .ofOperators "" [.onStream 0 "first" .aivOnly [] [], .onStream 0 "second" .mixAic11 [] [5]]

theorem gatedRequest_gates : ∃ l, Generator.launch gatedRequest = .ok l ∧
    l.events.mode = .singleStream ∧ l.events.recvs 1 = [5] ∧ (l.operator 1).affinity = .mixed ∧
    Fenced (steps l) (.eventWait 1) .vector (.invoke 1) .cube := by
  obtain ⟨l, hl, htest⟩ : ∃ l, Generator.launch gatedRequest = .ok l ∧
      decide (l.events.mode = .singleStream ∧ l.events.recvs 1 = [5] ∧
        (l.operator 1).affinity = .mixed ∧ Rules.guards l.graph 0 .vector = true) = true :=
    Generator.exists_of_test (by decide +kernel)
  obtain ⟨hmode, hrecvs, hmixed, hguards⟩ := of_decide_eq_true htest
  have hevent : (l.operator 1).eventDomain = .vector := by rw [Operator.eventDomain, hmixed]
  have hiff := event_wait_gates_iff hl hmode (by rw [hrecvs]; nofun)
    (show Domain.cube ∈ (l.operator 1).affinity.domains by rw [hmixed]; decide)
  rw [hevent] at hiff
  exact ⟨l, hl, hmode, hrecvs, hmixed, hiff.mpr (.inr (.inr (.inr (by rwa [hevent]))))⟩

/-- An operator of cube units, then one of vector units that receives an event from outside. -/
def ungatedRequest : Request :=
  .ofOperators "" [.onStream 0 "first" .aicOnly [] [], .onStream 0 "second" .aivOnly [] [5]]

/-- The one barrier of the schedule is for cube units, so that vector units do not wait for the block
that waits for the event. -/
theorem ungatedRequest_races : ∃ l, Generator.launch ungatedRequest = .ok l ∧
    l.events.mode = .singleStream ∧ l.events.recvs 1 = [5] ∧ (l.operator 1).affinity = .vectorOnly ∧
    ¬Fenced (steps l) (.eventWait 1) (l.operator 1).eventDomain (.invoke 1) .vector := by
  obtain ⟨l, hl, htest⟩ : ∃ l, Generator.launch ungatedRequest = .ok l ∧
      decide (l.events.mode = .singleStream ∧ l.events.recvs 1 = [5] ∧
        (l.operator 1).affinity = .vectorOnly ∧ ∀ s ∈ steps l, s.meets .vector = false) = true :=
    Generator.exists_of_test (by decide +kernel)
  obtain ⟨hmode, hrecvs, hvector, hnone⟩ := of_decide_eq_true htest
  refine ⟨l, hl, hmode, hrecvs, hvector, fun hfenced => ?_⟩
  rw [Operator.eventDomain, hvector] at hfenced
  rcases hfenced.fences.cases with ⟨b, hb, hmem⟩ | ⟨⟨b, hb, hmem⟩, _⟩
  · simpa [Step.meets, Barrier.covers, hb] using hnone _ hmem
  · simpa [Step.meets, Barrier.covers, hb] using hnone _ hmem

/-! ### Notifications -/

/-- The steps between the call of an operator and the notification of its events. -/
def wake (l : Launch) (op : Nat) : List Step :=
  trail l op ++ Step.beginOperator (l.operator (op + 1)).name
    :: (resolveSteps l (op + 1) ++ preloadSteps l (op + 1) ++ syncSteps l op (op + 1))

theorem exists_notify_cut (hop : op + 1 < l.graph.size)
    (hs : l.events.sends op ≠ []) :
    ∃ front back : List Step, steps l = front ++ .invoke op :: (wake l op ++ .notify op :: back) := by
  obtain ⟨before, after, hids⟩ := exists_split_next (List.pairwise_lt_range (n := l.graph.size))
    (List.mem_range.mpr (by omega)) (List.mem_range.mpr hop)
  have hnotify : ∃ rest, boundarySteps l op (op + 1) = syncSteps l op (op + 1) ++ .notify op :: rest := by
    rw [boundarySteps_eq]
    by_cases hr : l.events.recvs (op + 1) = []
    · exact ⟨[], by simp [hr, hs]⟩
    · rw [if_neg hr, if_neg hs]
      exact ⟨_, rfl⟩
  obtain ⟨rest, hboundary⟩ := hnotify
  refine ⟨openingSteps l ++ before.flatMap (block l) ++ lead l op, rest
    ++ (if l.options.feedSyncAll then [.feedSyncInit (op + 1)] else [])
    ++ mark l (profileEvent (op + 1)) .subOperator true ++ .invoke (op + 1) :: trail l (op + 1)
    ++ after.flatMap (block l) ++ closingSteps l, ?_⟩
  rw [steps, Launch.ids, hids]
  have hlead : lead l (op + 1) = Step.beginOperator (l.operator (op + 1)).name
      :: (resolveSteps l (op + 1) ++ preloadSteps l (op + 1)
        ++ (syncSteps l op (op + 1) ++ .notify op :: rest)
        ++ (if l.options.feedSyncAll then [.feedSyncInit (op + 1)] else [])
        ++ mark l (profileEvent (op + 1)) .subOperator true) := by
    rw [lead, if_neg (Nat.succ_ne_zero op), Nat.add_sub_cancel, hboundary]
  simp [block, hlead, wake]

theorem barrier_mem_wake (h : .barrier b ∈ wake l op) :
    (l.operator op).isDynamic = true ∨ l.options.debugSyncAll = true ∨
      .barrier b ∈ syncSteps l op (op + 1) := by
  by_contra hnone
  obtain ⟨hstatic, hdebug, hsync⟩ : ¬(l.operator op).isDynamic = true ∧
      ¬l.options.debugSyncAll = true ∧ .barrier b ∉ syncSteps l op (op + 1) := by tauto
  simp [wake, trail, releaseSteps, debugSteps, resolveSteps, preloadSteps, mark, Step.beginOperator,
    hstatic, hdebug, hsync] at h

theorem wait_mem_wake {edge : Nat} {flag : Flag} (h : .wait edge d flag ∈ wake l op) :
    .wait edge d flag ∈ syncSteps l op (op + 1) := by
  simpa [wake, trail, releaseSteps, debugSteps, resolveSteps, preloadSteps, mark, Step.beginOperator]
    using h

/-- What brings the work of a domain to an end before block 0 notifies others of it: a full barrier at
the boundary behind the operator, the barrier behind a dynamic one or for debugging, or a barrier of the
domain that block 0 takes part in or that the next operator makes its domain wait for. -/
def Settled (l : Launch) (op : Nat) (d : Domain) : Prop :=
  l.earlyStart = false ∨ Channels.all.length < (Rules.crossing l.graph (op + 1)).length ∨
  (l.operator op).isDynamic = true ∨ l.options.debugSyncAll = true ∨
  Rules.guards l.graph op d = true ∧
    (d = (l.operator op).eventDomain ∨
      (l.operator op).eventDomain ∈ (l.operator (op + 1)).affinity.domains)

section Notify

variable {units : Units} {ops : List Operator} {fusion : Bool} (h : l.Accepted units ops fusion)
  (hcovered : l.Covered) (hmode : l.events.mode = .singleStream)
include h hcovered hmode

theorem fences_wake_iff (hop : op + 1 < l.graph.size) (hd : d ∈ (l.operator op).affinity.domains) :
    Fences (wake l op) d (l.operator op).eventDomain ↔ Settled l op d := by
  constructor
  · intro hfences
    by_cases hstatic : (l.operator op).isDynamic = true ∨ l.options.debugSyncAll = true
    · exact .inr (.inr (hstatic.imp id .inl))
    · have hsync : ∀ b, .barrier b ∈ wake l op → .barrier b ∈ syncSteps l op (op + 1) :=
        fun b hmem => (or_assoc.mpr (barrier_mem_wake hmem)).resolve_left hstatic
      rcases fence_cases hfences hsync with hearly | hlength | ⟨hguards, hwait⟩
      · exact .inl hearly
      · exact .inr (.inl hlength)
      · refine .inr (.inr (.inr (.inr ⟨hguards, hwait.imp id ?_⟩)))
        rintro ⟨edge, flag, hmem⟩
        exact wait_mem_syncSteps h.linked (wait_mem_wake hmem)
  · have hsync : syncSteps l op (op + 1) <+ wake l op :=
      (((List.sublist_append_right _ _).trans (List.sublist_cons_self _ _)).trans
        (List.sublist_append_right _ _))
    rintro (hearly | hlength | hdynamic | hdebug | hguards)
    · exact (fences_syncSteps h hmode hop (.inl hearly)).mono hsync
    · exact (fences_syncSteps h hmode hop (.inr (.inl hlength))).mono hsync
    · have hmem : .barrier (.full "reason4: all readers of the dynamic ready lock are done")
          ∈ wake l op := by simp [wake, trail, releaseSteps, hdynamic]
      exact fences_full rfl hmem
    · have hmem : .barrier (.covering l.shape.kernelType) ∈ wake l op := by
        simp [wake, trail, debugSteps, hdebug]
      have hlt : op < l.graph.size := Nat.lt_of_succ_lt hop
      exact fences_covering hmem (hcovered op hlt d hd)
        (hcovered op hlt _ (l.operator op).eventDomain_mem)
    · exact (fences_syncSteps h hmode hop (.inr (.inr hguards))).mono hsync

/-- Block 0 notifies others only when a domain has finished, exactly where its work is settled. -/
theorem fenced_notify_iff (hs : l.events.sends op ≠ []) (hd : d ∈ (l.operator op).affinity.domains) :
    Fenced (steps l) (.invoke op) d (.notify op) (l.operator op).eventDomain ↔ Settled l op d := by
  have hg := h.linked.toWellFormed
  have hop := h.sends_bounds hs
  obtain ⟨front, back, hcut⟩ := exists_notify_cut hop hs
  rw [hcut, fenced_of_nodup (hcut ▸ nodup_events) rfl rfl]
  exact fences_wake_iff h hcovered hmode hop hd

end Notify

end SingleStream

end KernelFusion
