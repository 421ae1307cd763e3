import KernelFusion.Proofs.Interleaving
import KernelFusion.Proofs.SingleStreamEvents

/-!
Outer events in a two-stream schedule, and notifications in either.

The notification of an operator is emitted with the operator that follows it on the domain: behind what
the operator hands over, and behind the waits of its successor.

        call ── barrier ── signals ── waits of the next ── notify ── next event wait ── next call

The barrier is there for edges that are kept, or at the end of a stream. A mixed operator that has
events to send always keeps its edge to the next one, and notifies from the domain where that one waits
for it.
-/

namespace KernelFusion

open List

namespace TwoStream

open Schedule StreamSteps Generator

variable {p : TwoStream} {d : Domain} {op : Nat}

/-! ### Where events stand -/

/-- What is notified behind an operator on a domain. -/
def notifySteps (p : TwoStream) (d : Domain) (op : Nat) : List Step :=
  if p.notifies op d then [.notify op] else []

/-- The call of an operator on a domain with its events. -/
def eventsOf (p : TwoStream) (d : Domain) (op : Nat) : List Step :=
  (if (p.launch.operator op).recvEvents ≠ [] ∧ p.waits op d = true then [.eventWait op] else [])
    ++ .invoke op :: p.notifySteps d op

/-- What the operator before leaves to notify. -/
def owed (p : TwoStream) (d : Domain) : Option Nat → List Step
  | some q => p.notifySteps d q
  | none => []

theorem events_sendSteps : (p.sendSteps op d).filter Step.isEvent = [] := by
  simp [sendSteps, guardSteps, signalSteps, filter_ite, List.filter_flatMap, Step.isEvent]

theorem events_recvSteps : (p.recvSteps op d).filter Step.isEvent = [] := by
  simp [recvSteps, waitSteps, List.filter_flatMap, Step.isEvent]

theorem events_eventBarrier (o : Operator) : (eventBarrier o).filter Step.isEvent = [] := by
  unfold eventBarrier
  cases o.affinity <;> rfl

theorem events_boundary (prev : Option Nat) : (p.boundary prev op d).filter Step.isEvent
    = p.owed d prev ++ if (p.launch.operator op).recvEvents ≠ [] ∧ p.waits op d = true
      then [.eventWait op] else [] := by
  have hevents : (p.eventSteps op d).filter Step.isEvent
      = if (p.launch.operator op).recvEvents ≠ [] ∧ p.waits op d = true then [.eventWait op] else [] := by
    by_cases hr : (p.launch.operator op).recvEvents = []
    · simp [eventSteps, hr]
    · by_cases hw : p.waits op d = true <;>
        simp [eventSteps, hr, hw, events_eventBarrier, List.filter_cons, Step.isEvent]
  cases prev with
  | none => simp [boundary, owed, events_recvSteps, hevents]
  | some q =>
    simp [boundary, owed, notifySteps, events_sendSteps, events_recvSteps, hevents, filter_ite,
      List.filter_cons, Step.isEvent]

theorem events_operatorSteps (prev next : Option Nat) :
    (p.operatorSteps d prev op next).filter Step.isEvent = p.owed d prev
      ++ (if (p.launch.operator op).recvEvents ≠ [] ∧ p.waits op d = true then [.eventWait op] else [])
      ++ .invoke op :: if next.isNone then p.notifySteps d op else [] := by
  have hpreload : (p.preloadSteps prev op next).filter Step.isEvent = [] := by
    cases next <;> simp [preloadSteps, filter_ite, Step.isEvent]
  simp [operatorSteps, hpreload, events_boundary, filter_ite, finalSteps, events_sendSteps, debugSteps,
    notifySteps, mark, List.filter_cons, Step.beginOperator, Step.isEvent]

theorem events_operatorsSteps (prev : Option Nat) (op : Nat) (ops : List Nat) :
    (p.operatorsSteps d prev (op :: ops)).filter Step.isEvent
      = p.owed d prev ++ (op :: ops).flatMap (p.eventsOf d) := by
  induction ops generalizing prev op with
  | nil => simp [operatorsSteps, events_operatorSteps, eventsOf]
  | cons next ops ih =>
    rw [operatorsSteps, List.filter_append, ih, events_operatorSteps]
    simp [owed, eventsOf]

theorem events_steps : (p.steps d).filter Step.isEvent = (p.members d).flatMap (p.eventsOf d) := by
  have hpreload : (if p.launch.options.preload = .whole then [Step.preloadWhole] else []).filter
      Step.isEvent = [] := by
    simp [filter_ite, Step.isEvent]
  rw [steps, List.filter_append, hpreload, List.nil_append]
  cases p.members d with
  | nil => rfl
  | cons op ops => exact events_operatorsSteps none op ops

/-- Every call and every step on events stands once in a list. -/
theorem nodup_events : ((p.steps d).filter Step.isEvent).Nodup := by
  rw [events_steps]
  refine nodup_blocks members_increasing.nodup (fun op => ?_) (fun s => s.operator?.getD 0)
    fun op s hs => ?_
  · unfold eventsOf notifySteps
    split <;> split <;> simp
  · simp only [eventsOf, notifySteps, List.mem_append, List.mem_cons] at hs
    rcases hs with hs | rfl | hs
    · split at hs
      · obtain rfl := List.mem_singleton.mp hs
        rfl
      · cases hs
    · rfl
    · split at hs
      · obtain rfl := List.mem_singleton.mp hs
        rfl
      · cases hs

/-! ### Notifications -/

/-- The waits of the operator that follows on a domain. -/
def followed (p : TwoStream) (d : Domain) (after : List Nat) : List Step :=
  after.head?.toList.flatMap fun next => (p.awaited d next).map (waitOf d)

/-- The steps of an operator in front of its call, as they are emitted. -/
def opening (p : TwoStream) (d : Domain) (prev : Option Nat) (op : Nat) (next : Option Nat) : List Step :=
  Step.beginOperator (p.launch.operator op).name :: (p.preloadSteps prev op next
    ++ p.boundary prev op d ++ (if p.launch.options.feedSyncAll then [.feedSyncInit op] else [])
    ++ p.mark op true)

/-- Between the call of an operator and its notification stands what it hands over, and then what the
next one waits for. -/
theorem exists_cut_operatorsSteps (hn : p.notifies op d = true) (before after : List Nat)
    (prev : Option Nat) : ∃ front mid back : List Step, p.operatorsSteps d prev (before ++ op :: after)
      = front ++ .invoke op :: (mid ++ .notify op :: back) ∧
      mid.filter Step.isSync = p.trail d op ++ p.followed d after := by
  have hmark : ∀ start, (p.mark op start).filter Step.isSync = [] := by
    simp [mark, filter_ite, Step.isSync]
  induction before generalizing prev with
  | nil =>
    cases after with
    | nil =>
      refine ⟨p.opening d prev op none, p.debugSteps d ++ p.mark op false ++ p.sendSteps op d, [], ?_, ?_⟩
      · simp [operatorsSteps, operatorSteps, opening, finalSteps, hn]
      · simp [hmark, sync_debugSteps, sync_sendSteps, trail, followed]
    | cons next after =>
      have hpreload : (p.preloadSteps (some op) next after.head?).filter Step.isSync = [] := by
        cases after.head? <;> simp [preloadSteps, filter_ite, Step.isSync]
      refine ⟨p.opening d prev op (some next), p.debugSteps d ++ p.mark op false
        ++ Step.beginOperator (p.launch.operator next).name
          :: (p.preloadSteps (some op) next after.head? ++ p.sendSteps op d ++ p.recvSteps next d),
        p.eventSteps next d ++ (if p.launch.options.feedSyncAll then [.feedSyncInit next] else [])
          ++ p.mark next true ++ .invoke next :: (p.debugSteps d ++ p.mark next false
            ++ (if after.head?.isNone then p.finalSteps next d else []))
          ++ p.operatorsSteps d (some next) after, ?_, ?_⟩
      · simp [operatorsSteps, operatorSteps, opening, boundary, hn]
      · simp [hmark, hpreload, sync_debugSteps, sync_sendSteps, sync_recvSteps, trail, followed,
          Step.beginOperator, Step.isSync]
  | cons first before ih =>
    obtain ⟨front, mid, back, hcut, hmid⟩ := ih (some first)
    refine ⟨p.operatorSteps d prev first (before ++ op :: after).head? ++ front, mid, back, ?_, hmid⟩
    rw [List.cons_append, operatorsSteps, hcut, List.append_assoc]

theorem exists_notify_cut (hn : p.notifies op d = true) {before after : List Nat}
    (hsplit : p.members d = before ++ op :: after) : ∃ front mid back : List Step,
      p.steps d = front ++ .invoke op :: (mid ++ .notify op :: back) ∧
      mid.filter Step.isSync = p.trail d op ++ p.followed d after := by
  obtain ⟨front, mid, back, hcut, hmid⟩ := exists_cut_operatorsSteps hn before after none
  refine ⟨(if p.launch.options.preload = .whole then [.preloadWhole] else []) ++ front, mid, back, ?_,
    hmid⟩
  rw [steps, hsplit, hcut, List.append_assoc]

/-- A domain that notifies of its own work meets before exactly where it meets behind the operator. -/
theorem fenced_notify_self (hn : p.notifies op d = true) (hop : op ∈ p.members d) :
    (streamSteps p).Fenced (.invoke op) d (.notify op) d ↔
      p.launch.options.debugSyncAll = true ∨ p.guards d op = true := by
  obtain ⟨before, after, hsplit⟩ := List.append_of_mem hop
  obtain ⟨front, mid, back, hcut, hmid⟩ := exists_notify_cut hn hsplit
  have hbetween : ∀ b : Barrier,
      [.invoke op, .barrier b, .notify op] <+ p.steps d ↔ .barrier b ∈ p.trail d op := by
    intro b
    have hmem : .barrier b ∈ mid ↔ .barrier b ∈ p.trail d op ++ p.followed d after := by
      rw [← hmid, List.mem_filter]
      simp [Step.isSync]
    have hwaits : .barrier b ∉ p.followed d after := by simp [followed, waitOf]
    have hn : ((front ++ .invoke op :: (mid ++ .notify op :: back)).filter Step.isEvent).Nodup :=
      hcut ▸ nodup_events
    have hiff : .invoke op :: ([.barrier b] ++ [.notify op])
        <+ front ++ .invoke op :: (mid ++ .notify op :: back) ↔ [.barrier b] <+ mid :=
      sublist_between_iff_of_nodup hn rfl rfl
    rw [List.singleton_sublist, hmem, List.mem_append, or_iff_left hwaits, ← hcut] at hiff
    exact hiff
  rw [fenced_self, get_streamSteps]
  constructor
  · rintro ⟨b, _, horder⟩
    exact barrier_mem_trail ((hbetween b).mp horder)
  · intro hmeets
    refine ⟨.domain d, by simp [Barrier.covers, Barrier.domain], (hbetween _).mpr ?_⟩
    rcases hmeets with hdebug | hguards
    · simp [trail, hdebug]
    · exact mem_trail_of_guards hguards

/-- A mixed operator notifies from a domain of the next one. -/
theorem notifyDomain_mem_next (hmixed : (p.launch.operator op).affinity = .mixed)
    (hop : op + 1 < p.launch.graph.size) :
    p.notifyDomain op ∈ (p.launch.operator (op + 1)).affinity.domains := by
  unfold notifyDomain
  cases (p.launch.operator (op + 1)).affinity <;>
    simp [hmixed, hop, Operator.eventDomain, Affinity.domains]

theorem notifyDomain_mem : p.notifyDomain op ∈ (p.launch.operator op).affinity.domains := by
  unfold notifyDomain
  split
  next h => simp [h.1, Affinity.domains]
  · exact (p.launch.operator op).eventDomain_mem

/-- Steps of two domains are ordered by a barrier and an edge that is signalled behind it. -/
theorem Planned.fenced_cross (hp : p.Planned) {k : Edge} {first last : Step}
    (hsource : [first, .barrier (.domain d), signalOf d k] <+ p.steps d)
    (htarget : [waitOf d.other k, last] <+ p.steps d.other) (hpair : k.pair.producer = d) :
    (streamSteps p).Fenced first d last d.other := by
  obtain ⟨us, vs, hus, hbehind⟩ := exists_split_last [_, _] hsource
  obtain ⟨xs, ys, hxs, hbefore⟩ := exists_split_first htarget
  have hpaired := hp.paired hus hxs hpair
  refine .signal (i := us.length) (j := xs.length) (b := .domain d) (by cases d <;> decide)
    (by simp [Barrier.covers, Barrier.domain]) ?_ (by simpa using hpaired) ?_
  · simpa [hus] using hbehind
  · simpa [hxs] using List.mem_cons_of_mem _ (List.singleton_sublist.mp hbefore)

section Accepted

variable {l : Launch} {units : Units} {ops : List Operator} {fusion : Bool}
  (h : l.Accepted units ops fusion)
include h

/-- The edge of a mixed operator that has events to send to the next one is kept. -/
theorem exists_kept_next (hs : l.events.sends op ≠ []) (hmixed : (l.operator op).affinity = .mixed)
    (hop : op + 1 < l.graph.size) (hd : d.other ∈ (l.operator (op + 1)).affinity.domains) :
    ∃ k ∈ thinned l.graph, k.producer = op ∧ k.consumer = op + 1 ∧ k.pair = ⟨d, d.other⟩ := by
  obtain ⟨e, he, rfl, hec⟩ := h.joined hop (.inr ⟨hmixed, hs⟩)
  have hdp : d ∈ (l.operator e.producer).affinity.domains := by
    rw [hmixed]
    cases d <;> decide
  obtain ⟨e', he', hep', hec', hpair', hsignal'⟩ :=
    h.exists_cross he hdp (hec ▸ hd) (by cases d <;> decide)
  obtain ⟨k, hk, hin⟩ := exists_thinned h.linked.forward he' hsignal'
  have hforward := h.linked.forward k (mem_thinned hk).1
  have hstarts := hin.starts
  have hends := hin.ends
  exact ⟨k, hk, by omega, by omega, hin.pair.trans hpair'⟩

/-- Where a mixed operator is notified of from the other domain, that domain waits for the edge that is
kept before it notifies. -/
theorem fenced_notify_across (hs : l.events.sends op ≠ []) (hop : op + 1 < l.graph.size)
    (hmixed : (l.operator op).affinity = .mixed)
    (hn : notifyDomain ⟨l, keptEdges l.graph⟩ op = d.other) :
    (streamSteps ⟨l, keptEdges l.graph⟩).Fenced (.invoke op) d (.notify op) d.other ∧
      guards ⟨l, keptEdges l.graph⟩ d op = true := by
  have hp : Planned ⟨l, keptEdges l.graph⟩ := ⟨h.linked, rfl⟩
  have hmember : ∀ d', op ∈ members ⟨l, keptEdges l.graph⟩ d' := by
    intro d'
    refine mem_members.mpr ⟨Nat.lt_of_succ_lt hop, ?_⟩
    rw [hmixed]
    cases d' <;> decide
  have hnext : d.other ∈ (l.operator (op + 1)).affinity.domains :=
    hn ▸ notifyDomain_mem_next hmixed hop
  obtain ⟨k, hk, hkp, hkc, hpair⟩ := exists_kept_next h hs hmixed hop hnext
  have hraised : k ∈ raised ⟨l, keptEdges l.graph⟩ d op := hp.mem_raised.mpr ⟨hk, hkp, hpair⟩
  have hawaited : k ∈ awaited ⟨l, keptEdges l.graph⟩ d.other (op + 1) :=
    hp.mem_awaited.mpr ⟨hk, hkc, by rw [Domain.other_other, hpair]⟩
  have hguards := hp.raised_guards hraised
  have hsource : [.invoke op, .barrier (.domain d), signalOf d k]
      <+ steps ⟨l, keptEdges l.graph⟩ d := by
    refine order_behind (hmember d) (hmember d) le_rfl (Sublist.trans ?_ (sublist_append_right _ _))
    rw [handover, if_pos hguards]
    exact (List.singleton_sublist.mpr (List.mem_map_of_mem hraised)).cons_cons _
  have htarget : [waitOf d.other k, .notify op] <+ steps ⟨l, keptEdges l.graph⟩ d.other := by
    obtain ⟨before, after, hsplit⟩ := exists_split_next members_increasing (hmember d.other)
      (mem_members.mpr ⟨hop, List.elem_eq_true_of_mem hnext⟩)
    obtain ⟨front, mid, back, hcut, hmid⟩ := exists_notify_cut (by simp [notifies, hs, hn]) hsplit
    have hwait : waitOf d.other k ∈ mid := by
      refine (List.mem_filter.mp (hmid ▸ List.mem_append_right _ ?_)).1
      simpa [followed] using List.mem_map_of_mem hawaited
    rw [hcut]
    refine Sublist.trans ?_ ((sublist_cons_self _ _).trans (sublist_append_right _ _))
    exact (List.singleton_sublist.mpr hwait).append (List.singleton_sublist.mpr List.mem_cons_self)
  exact ⟨hp.fenced_cross hsource htarget (by rw [hpair]), hguards⟩

/-- Block 0 notifies others only when a domain has finished, exactly where the domain meets behind the
operator. -/
theorem fenced_notify_iff (hs : l.events.sends op ≠ []) (hd : d ∈ (l.operator op).affinity.domains) :
    (streamSteps ⟨l, keptEdges l.graph⟩).Fenced (.invoke op) d (.notify op)
        (notifyDomain ⟨l, keptEdges l.graph⟩ op) ↔
      l.options.debugSyncAll = true ∨ guards ⟨l, keptEdges l.graph⟩ d op = true := by
  have hop := h.sends_bounds hs
  rcases Domain.eq_or_eq_other d (notifyDomain ⟨l, keptEdges l.graph⟩ op) with hn | hn
  · rw [hn]
    exact fenced_notify_self (by simp [notifies, hs, hn])
      (mem_members.mpr ⟨Nat.lt_of_succ_lt hop, List.elem_eq_true_of_mem hd⟩)
  · have hmixed : (l.operator op).affinity = .mixed := by
      by_contra hone
      have hsame : notifyDomain ⟨l, keptEdges l.graph⟩ op = d :=
        Affinity.domain_unique hone notifyDomain_mem hd
      exact Domain.other_ne d (hn.symm.trans hsame)
    obtain ⟨hfenced, hguards⟩ := fenced_notify_across h hs hop hmixed hn
    rw [hn]
    exact iff_of_true hfenced (.inr hguards)

end Accepted

theorem plan_eq_ok {l : Launch} (h : plan l = .ok p) : p = ⟨l, keptEdges l.graph⟩ := by
  unfold plan at h
  split at h
  · cases h
  · exact (Except.ok.inj h).symm

end TwoStream

/-! ### Both modes -/

/-- The domain that a step makes wait for another one. -/
def Step.waiter? : Step → Option Domain
  | .wait _ d _ => some d
  | _ => none

/-- `Fenced` of a schedule in either mode. -/
def KernelBody.Fenced : KernelBody → Step → Domain → Step → Domain → Prop
  | .singleStream steps => Schedule.Fenced steps
  | .twoStream steps => steps.Fenced

namespace Launch

variable {l : Launch} {body : KernelBody} {stats : SyncStats} {op : Nat} {d : Domain}

/-- The domain whose block 0 notifies others of an operator. -/
def notifier (l : Launch) (op : Nat) : Domain :=
  match l.events.mode with
  | .singleStream => (l.operator op).eventDomain
  | .twoStream => TwoStream.notifyDomain ⟨l, TwoStream.keptEdges l.graph⟩ op

/-- The work of an operator on a domain is brought to an end before its notification. On two streams
this takes the barrier behind the operator, or the one for debugging. -/
def Settled (l : Launch) (op : Nat) (d : Domain) : Prop :=
  match l.events.mode with
  | .singleStream => SingleStream.Settled l op d
  | .twoStream => l.options.debugSyncAll = true ∨
      TwoStream.guards ⟨l, TwoStream.keptEdges l.graph⟩ d op = true

theorem schedule_singleStream (hg : l.graph.WellFormed) (hmode : l.events.mode = .singleStream)
    (h : Generator.schedule l = .ok (body, stats)) : body = .singleStream (SingleStream.steps l) := by
  rw [Generator.schedule, hmode] at h
  obtain ⟨steps, hbuild, h⟩ := bind_eq_ok.mp h
  cases Except.ok.inj ((SingleStream.build_eq hg).symm.trans hbuild)
  obtain ⟨_, _, h⟩ := bind_eq_ok.mp h
  obtain ⟨_, _, h⟩ := bind_eq_ok.mp h
  exact (Prod.mk.inj (Except.ok.inj h)).1.symm

theorem schedule_twoStream (hmode : l.events.mode = .twoStream)
    (h : Generator.schedule l = .ok (body, stats)) :
    body = .twoStream (Generator.streamSteps ⟨l, TwoStream.keptEdges l.graph⟩) := by
  rw [Generator.schedule, hmode] at h
  obtain ⟨p, hplan, h⟩ := bind_eq_ok.mp h
  obtain ⟨_, _, h⟩ := bind_eq_ok.mp h
  rw [← TwoStream.plan_eq_ok hplan]
  exact (Prod.mk.inj (Except.ok.inj h)).1.symm

/-- Dynamic operators have no schedule on two streams. -/
theorem static_of_schedule (hmode : l.events.mode = .twoStream)
    (h : Generator.schedule l = .ok (body, stats)) : ∀ o ∈ l.graph.operators, o.isDynamic = false := by
  rw [Generator.schedule, hmode] at h
  obtain ⟨p, hplan, _⟩ := bind_eq_ok.mp h
  intro o ho
  rw [TwoStream.plan] at hplan
  split at hplan
  · cases hplan
  next hnone => simpa using List.find?_eq_none.mp hnone o ho

/-- CORRECT (exact condition): the outer events of an operator are raised only when a domain of it has
finished, exactly where the work on the domain is settled behind the operator. -/
theorem notify_settled_iff {r : Request} (hl : Generator.launch r = .ok l)
    (hschedule : Generator.schedule l = .ok (body, stats)) (hs : l.events.sends op ≠ [])
    (hd : d ∈ (l.operator op).affinity.domains) :
    body.Fenced (.invoke op) d (.notify op) (l.notifier op) ↔ l.Settled op d := by
  obtain ⟨units, ops, fusion, h, hcovered⟩ := Generator.launch_accepted hl
  cases hmode : l.events.mode with
  | singleStream =>
    rw [schedule_singleStream h.linked.toWellFormed hmode hschedule, notifier, Settled, hmode]
    exact SingleStream.fenced_notify_iff h hcovered hmode hs hd
  | twoStream =>
    rw [schedule_twoStream hmode hschedule, notifier, Settled, hmode]
    exact TwoStream.fenced_notify_iff h hs hd

/-- Two mixed operators on one stream, of which the first notifies others. -/
def settledRequest : Request :=
  .ofOperators "" [.onStream 0 "first" .mixAic11 [5] [], .onStream 0 "second" .mixAic11 [] []]

/-- A mixed operator that notifies others, and one of cube units on another stream. -/
def handoffRequest : Request :=
  .ofOperators "stream-fusion=1"
    [.onStream 0 "first" .mixAic11 [5] [], .onStream 1 "second" .aicOnly [] []]

theorem settledRequest_notifies :
    (∃ l body stats, Generator.launch settledRequest = .ok l ∧
      Generator.schedule l = .ok (body, stats) ∧ l.events.mode = .singleStream ∧ l.events.sends 0 = [5] ∧
      body.Fenced (.invoke 0) .cube (.notify 0) .vector) ∧
    ∃ l body stats, Generator.launch handoffRequest = .ok l ∧
      Generator.schedule l = .ok (body, stats) ∧ l.events.mode = .twoStream ∧ l.events.sends 0 = [5] ∧
      body.Fenced (.invoke 0) .vector (.notify 0) .cube := by
  constructor
  · obtain ⟨l, body, stats, hl, hschedule, htest⟩ : ∃ l body stats,
        Generator.launch settledRequest = .ok l ∧ Generator.schedule l = .ok (body, stats) ∧
        decide (l.events.mode = .singleStream ∧ l.events.sends 0 = [5] ∧
          (l.operator 0).affinity = .mixed ∧ (l.operator 1).affinity = .mixed ∧
          l.notifier 0 = .vector ∧ Rules.guards l.graph 0 .cube = true) = true :=
      Generator.exists_schedule_of_test (by decide +kernel)
    obtain ⟨hmode, hsends, hfirst, hsecond, hnotifier, hguards⟩ := of_decide_eq_true htest
    have hiff := notify_settled_iff hl hschedule (by rw [hsends]; nofun)
      (show Domain.cube ∈ (l.operator 0).affinity.domains by rw [hfirst]; decide)
    have hnext : (l.operator 0).eventDomain ∈ (l.operator 1).affinity.domains := by
      rw [Operator.eventDomain, hfirst, hsecond]
      decide
    refine ⟨l, body, stats, hl, hschedule, hmode, hsends, hnotifier ▸ hiff.mpr ?_⟩
    rw [Settled, hmode]
    exact .inr (.inr (.inr (.inr ⟨hguards, .inr hnext⟩)))
  · obtain ⟨l, body, stats, hl, hschedule, htest⟩ : ∃ l body stats,
        Generator.launch handoffRequest = .ok l ∧ Generator.schedule l = .ok (body, stats) ∧
        decide (l.events.mode = .twoStream ∧ l.events.sends 0 = [5] ∧
          (l.operator 0).affinity = .mixed ∧ l.notifier 0 = .cube ∧
          TwoStream.guards ⟨l, TwoStream.keptEdges l.graph⟩ .vector 0 = true) = true :=
      Generator.exists_schedule_of_test (by decide +kernel)
    obtain ⟨hmode, hsends, hfirst, hnotifier, hguards⟩ := of_decide_eq_true htest
    have hiff := notify_settled_iff hl hschedule (by rw [hsends]; nofun)
      (show Domain.vector ∈ (l.operator 0).affinity.domains by rw [hfirst]; decide)
    refine ⟨l, body, stats, hl, hschedule, hmode, hsends, hnotifier ▸ hiff.mpr ?_⟩
    rw [Settled, hmode]
    exact .inr hguards

/-- A mixed operator that notifies others, and one of cube units on the same stream. -/
def unsettledRequest : Request :=
  .ofOperators "" [.onStream 0 "first" .mixAic11 [5] [], .onStream 0 "second" .aicOnly [] []]

/-- Vector units notify others, and no signal tells them that the cube units have finished. -/
theorem unsettledRequest_races : ∃ l body stats, Generator.launch unsettledRequest = .ok l ∧
    Generator.schedule l = .ok (body, stats) ∧ l.events.sends 0 = [5] ∧
    Domain.cube ∈ (l.operator 0).affinity.domains ∧
    ¬body.Fenced (.invoke 0) .cube (.notify 0) (l.notifier 0) := by
  obtain ⟨l, body, stats, hl, hschedule, htest⟩ : ∃ l body stats,
      Generator.launch unsettledRequest = .ok l ∧ Generator.schedule l = .ok (body, stats) ∧
      decide (l.events.mode = .singleStream ∧ l.events.sends 0 = [5] ∧
        Domain.cube ∈ (l.operator 0).affinity.domains ∧ l.notifier 0 = .vector ∧
        ∀ s ∈ SingleStream.steps l, s.isFullBarrier = false ∧ s.waiter? ≠ some .vector) = true :=
    Generator.exists_schedule_of_test (by decide +kernel)
  obtain ⟨hmode, hsends, hcube, hnotifier, hnone⟩ := of_decide_eq_true htest
  refine ⟨l, body, stats, hl, hschedule, hsends, hcube, fun hfenced => ?_⟩
  rw [schedule_singleStream (Generator.launch_wellFormed hl) hmode hschedule, hnotifier] at hfenced
  rcases hfenced.fences.cases with ⟨b, hb, hmem⟩ | ⟨_, hdomain | ⟨edge, flag, hmem⟩⟩
  · simpa [Step.isFullBarrier, hb] using (hnone _ hmem).1
  · cases hdomain
  · exact (hnone _ hmem).2 rfl

end Launch

end KernelFusion
