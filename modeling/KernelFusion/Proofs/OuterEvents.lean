import KernelFusion.Proofs.TwoStreamEvents
import KernelFusion.Proofs.TwoStreamProgress

/-!
Outer events are waited for and notified of once in a launch.

Left with calls and steps on events, a list is a `flatMap` over the operators that it calls. Between a
call and the steps on events around it stands no other call:

        [event wait] call [notify] │ [event wait] call [notify] │ …

On one stream all operators are in one list. On two streams a mixed operator is in both, and one domain
of it waits and one notifies; the other one learns of the wait at the barrier in front of the call.
-/

namespace KernelFusion

open List

namespace Schedule

variable {steps : List Step} {ops : List Nat} {waits notifies : Nat → Bool} {op : Nat}

/-! ### Calls and their events -/

/-- A call with the steps on events around it. -/
def framed (waits notifies : Nat → Bool) (op : Nat) : List Step :=
  (if waits op then [.eventWait op] else []) ++ .invoke op :: if notifies op then [.notify op] else []

/-- A list that calls these operators, each with its steps on events. -/
structure Framed (steps : List Step) (ops : List Nat) (waits notifies : Nat → Bool) : Prop where
  nodup : (steps.filter Step.isEvent).Nodup
  events : steps.filter Step.isEvent = ops.flatMap (framed waits notifies)

/-- The second step comes behind the first, with no call in between. -/
def Spans (steps : List Step) (first last : Step) : Prop :=
  ∃ front mid back, steps = front ++ first :: (mid ++ last :: back) ∧ invocations mid = []

theorem invocations_of_no_event (h : steps.filter Step.isEvent = []) : invocations steps = [] := by
  refine List.filterMap_eq_nil_iff.mpr fun s hs => ?_
  have hevent := List.filter_eq_nil_iff.mp h s hs
  cases s <;> first | rfl | exact absurd rfl hevent

/-- Neighbours among the steps on events are calls apart from each other by nothing. -/
theorem spans_of_adjacent {first last : Step} (us vs : List Step)
    (h : steps.filter Step.isEvent = us ++ first :: last :: vs) : Spans steps first last := by
  obtain ⟨front, rest, rfl, _, hrest⟩ := List.filter_eq_append_iff.mp h
  obtain ⟨skipped, rest', rfl, _, _, hrest'⟩ := List.filter_eq_cons_iff.mp hrest
  obtain ⟨mid, back, rfl, hmid, _, _⟩ := List.filter_eq_cons_iff.mp hrest'
  refine ⟨front ++ skipped, mid, back, by simp, invocations_of_no_event ?_⟩
  exact List.filter_eq_nil_iff.mpr hmid

namespace Framed

variable (h : Framed steps ops waits notifies)
include h

theorem mem_iff {s : Step} (hs : s.isEvent = true) :
    s ∈ steps ↔ ∃ q ∈ ops, s ∈ framed waits notifies q := by
  rw [← List.mem_flatMap, ← h.events, List.mem_filter, and_iff_left hs]

theorem mem_notify : .notify op ∈ steps ↔ op ∈ ops ∧ notifies op = true := by
  rw [h.mem_iff rfl]
  constructor
  · rintro ⟨q, hq, hmem⟩
    obtain ⟨hn, rfl⟩ : notifies q = true ∧ op = q := by simpa [framed] using hmem
    exact ⟨hq, hn⟩
  · rintro ⟨hop, hn⟩
    exact ⟨op, hop, by simp [framed, hn]⟩

theorem mem_eventWait : .eventWait op ∈ steps ↔ op ∈ ops ∧ waits op = true := by
  rw [h.mem_iff rfl]
  constructor
  · rintro ⟨q, hq, hmem⟩
    obtain ⟨hw, rfl⟩ : waits q = true ∧ op = q := by simpa [framed] using hmem
    exact ⟨hq, hw⟩
  · rintro ⟨hop, hw⟩
    exact ⟨op, hop, by simp [framed, hw]⟩

/-- A step on events stands once, or not at all. -/
theorem count_eq {s : Step} (hs : s.isEvent = true) {present : Prop} [Decidable present]
    (hmem : s ∈ steps ↔ present) : steps.count s = if present then 1 else 0 := by
  rw [← List.count_filter hs, h.nodup.count]
  simp [hs, hmem]

theorem spans_notify (hmem : .notify op ∈ steps) : Spans steps (.invoke op) (.notify op) := by
  obtain ⟨hop, hn⟩ := h.mem_notify.mp hmem
  obtain ⟨before, after, rfl⟩ := List.append_of_mem hop
  refine spans_of_adjacent (before.flatMap (framed waits notifies)
    ++ if waits op then [.eventWait op] else []) (after.flatMap (framed waits notifies)) ?_
  rw [h.events]
  simp [framed, hn]

theorem spans_eventWait (hmem : .eventWait op ∈ steps) : Spans steps (.eventWait op) (.invoke op) := by
  obtain ⟨hop, hw⟩ := h.mem_eventWait.mp hmem
  obtain ⟨before, after, rfl⟩ := List.append_of_mem hop
  refine spans_of_adjacent (before.flatMap (framed waits notifies))
    ((if notifies op then [.notify op] else []) ++ after.flatMap (framed waits notifies)) ?_
  rw [h.events]
  simp [framed, hw]

end Framed

end Schedule

/-! ### One stream -/

namespace SingleStream

open Schedule

variable {l : Launch}

/-- Waits and notifications at boundaries, told by the operators that they belong to. -/
theorem flatMap_eventSteps (hfirst : l.events.recvs 0 = []) (n : Nat) :
    (List.range (n + 1)).flatMap (eventSteps l)
        ++ (if l.events.sends n = [] then [] else [.notify n])
      = (List.range (n + 1)).flatMap (framed (fun op => !(l.events.recvs op).isEmpty)
        fun op => !(l.events.sends op).isEmpty) := by
  induction n with
  | zero =>
    by_cases hs : l.events.sends 0 = [] <;> simp [eventSteps, framed, hfirst, hs]
  | succ n ih =>
    rw [List.range_succ, List.flatMap_append, List.flatMap_append, ← ih, List.flatMap_singleton,
      List.flatMap_singleton]
    by_cases hs : l.events.sends n = [] <;> by_cases hs' : l.events.sends (n + 1) = [] <;>
      by_cases hr : l.events.recvs (n + 1) = [] <;> simp [eventSteps, framed, hs, hs', hr]

variable {units : Units} {ops : List Operator} {fusion : Bool} (h : l.Accepted units ops fusion)
include h

theorem steps_framed : Framed (steps l) l.ids
    (fun op => !(l.events.recvs op).isEmpty) fun op => !(l.events.sends op).isEmpty where
  nodup := nodup_events
  events := by
    have hfirst : l.events.recvs 0 = [] := by
      by_contra hr
      exact Nat.lt_irrefl 0 (h.recvs_bounds hr).1
    rw [events_steps, Launch.ids]
    cases hsize : l.graph.size with
    | zero => rfl
    | succ n =>
      have hlast : l.events.sends n = [] := by
        by_contra hs
        have := h.sends_bounds hs
        omega
      rw [← flatMap_eventSteps hfirst, if_pos hlast, List.append_nil]

theorem count_notify (op : Nat) :
    (steps l).count (.notify op) = if l.events.sends op ≠ [] then 1 else 0 := by
  refine (steps_framed h).count_eq rfl ?_
  rw [(steps_framed h).mem_notify, Bool.not_eq_true', List.isEmpty_eq_false_iff]
  refine and_iff_right_of_imp fun hs => List.mem_range.mpr ?_
  exact Nat.lt_of_succ_lt (h.sends_bounds hs)

theorem count_eventWait (op : Nat) :
    (steps l).count (.eventWait op) = if l.events.recvs op ≠ [] then 1 else 0 := by
  refine (steps_framed h).count_eq rfl ?_
  rw [(steps_framed h).mem_eventWait, Bool.not_eq_true', List.isEmpty_eq_false_iff]
  exact and_iff_right_of_imp fun hr => List.mem_range.mpr (h.recvs_bounds hr).2

end SingleStream

/-! ### Two streams -/

/-- The units of an operator meet in front of its call, behind the wait for its events, with no other
call in between. Those of a mixed operator meet at full barriers that belong together: as many are in
front of each. -/
def StreamSteps.MeetsBefore (s : StreamSteps) (op : Nat) (a : Affinity) : Prop :=
  ∃ n, ∀ d ∈ a.domains, ∃ front mid back b,
    s.get d = front ++ .barrier b :: (mid ++ .invoke op :: back) ∧ Schedule.invocations mid = [] ∧
    (.eventWait op ∈ s.get d → .eventWait op ∈ front) ∧
    b.scope = (if a = .mixed then .full else .domain d) ∧
    (a = .mixed → front.countP Step.isFullBarrier = n)

namespace TwoStream

open Schedule StreamSteps Generator

variable {p : TwoStream} {l : Launch} {d : Domain} {op : Nat} {units : Units} {ops : List Operator}
  {fusion : Bool}

/-- Outer events are among those that the operator names. -/
theorem recvEvents_ne_nil (h : l.Accepted units ops fusion) (hr : l.events.recvs op ≠ []) :
    (l.operator op).recvEvents ≠ [] := by
  obtain ⟨id, hid⟩ := List.exists_mem_of_ne_nil _ hr
  obtain ⟨b, hb, hrecv⟩ := ((EventPlan.analyzed h.analyzed).mem_recvs.mp hid).1
  have hoperator : l.operator op = b := by
    rw [Launch.operator, Graph.operator, h.spec.1, List.getD_eq_getElem?_getD, hb]
    rfl
  rw [hoperator]
  exact List.ne_nil_of_mem hrecv

theorem steps_framed (h : l.Accepted units ops fusion) (hp : p.launch = l) :
    Framed (p.steps d) (p.members d) (p.waits · d) (p.notifies · d) where
  nodup := nodup_events
  events := by
    subst hp
    rw [events_steps]
    refine List.flatMap_congr fun op _ => ?_
    have hnamed : ((p.launch.operator op).recvEvents ≠ [] ∧ p.waits op d = true) ↔ p.waits op d = true := by
      refine and_iff_right_of_imp fun hw => recvEvents_ne_nil h ?_
      rw [waits, Bool.and_eq_true, Bool.not_eq_true', List.isEmpty_eq_false_iff] at hw
      exact hw.1
    simp only [eventsOf, framed, notifySteps, hnamed]

/-- What stands in front of a call on a domain. -/
theorem exists_boundary_cut (before after : List Nat) (prev : Option Nat) : ∃ front back : List Step,
    p.operatorsSteps d prev (before ++ op :: after) = front ++ (p.eventSteps op d
      ++ (if p.launch.options.feedSyncAll then [.feedSyncInit op] else []) ++ p.mark op true)
      ++ .invoke op :: back := by
  induction before generalizing prev with
  | nil =>
    obtain ⟨early, hboundary⟩ : ∃ early, p.boundary prev op d = early ++ p.eventSteps op d := ⟨_, rfl⟩
    refine ⟨Step.beginOperator (p.launch.operator op).name
        :: (p.preloadSteps prev op after.head? ++ early),
      p.debugSteps d ++ p.mark op false ++ (if after.head?.isNone then p.finalSteps op d else [])
        ++ p.operatorsSteps d (some op) after, ?_⟩
    simp [operatorsSteps, operatorSteps, hboundary]
  | cons first before ih =>
    obtain ⟨front, back, hcut⟩ := ih (some first)
    refine ⟨p.operatorSteps d prev first (before ++ op :: after).head? ++ front, back, ?_⟩
    rw [List.cons_append, operatorsSteps, hcut]
    simp only [List.append_assoc]

theorem primary_mem (a : Affinity) : a.primary ∈ a.domains := by
  cases a <;> decide

theorem eventBarrier_eq (o : Operator) : ∃ (early : List Step) (b : Barrier),
    eventBarrier o = early ++ [.barrier b] ∧
    b.scope = if o.affinity = .mixed then .full else .domain o.affinity.primary := by
  unfold eventBarrier
  split
  next hmixed => exact ⟨[], _, rfl, by simp [Barrier.full, hmixed]⟩
  next hone => exact ⟨[_], _, rfl, (if_neg hone).symm⟩

/-- The barrier for received events in the list of a domain. -/
theorem exists_barrier_cut (hop : op ∈ p.members d) (hr : (p.launch.operator op).recvEvents ≠ []) :
    ∃ (front mid back : List Step) (b : Barrier),
      p.steps d = front ++ .barrier b :: (mid ++ .invoke op :: back) ∧
      invocations mid = [] ∧ (p.waits op d = true → .eventWait op ∈ front) ∧
      b.scope = if (p.launch.operator op).affinity = .mixed then .full
        else .domain (p.launch.operator op).affinity.primary := by
  obtain ⟨before, after, hsplit⟩ := List.append_of_mem hop
  obtain ⟨front, back, hcut⟩ : ∃ front back, p.operatorsSteps d none (before ++ op :: after) = _ :=
    exists_boundary_cut before after none
  obtain ⟨early, b, hbarrier, hscope⟩ := eventBarrier_eq (p.launch.operator op)
  refine ⟨(if p.launch.options.preload = .whole then [.preloadWhole] else []) ++ front
      ++ (if p.waits op d then [.eventWait op] else [])
      ++ Step.comment "// two stream when has wait event, add sync by current operator kernel type" :: early,
    (if p.launch.options.feedSyncAll then [.feedSyncInit op] else []) ++ p.mark op true, back, b,
    ?_, ?_, ?_, hscope⟩
  · rw [steps, hsplit, hcut]
    simp [eventSteps, hr, hbarrier]
  · refine invocations_of_no_event ?_
    simp [mark, filter_ite, Step.isEvent]
  · intro hw
    simp [hw]

/-- The n-th full barrier of a list stands in front of the n-th mixed operator that receives events. -/
theorem countP_front {front mid back : List Step} {b : Barrier}
    (hcut : p.steps d = front ++ .barrier b :: (mid ++ .invoke op :: back))
    (hmid : invocations mid = []) (hb : b.scope = .full) :
    front.countP Step.isFullBarrier = p.joined.countP (· < op) := by
  have hfull : Step.isFullBarrier (.barrier b) = true := by simp [Step.isFullBarrier, hb]
  obtain ⟨q, hheld⟩ := exists_held hcut.symm (by simp [hfull])
  have hnext := hheld.next
  rw [invocations, List.filterMap_append, ← invocations, hmid] at hnext
  cases Option.some.inj hnext
  exact hheld.barriers hfull

theorem meetsBefore (h : p.launch.Accepted units ops fusion) (hr : p.launch.events.recvs op ≠ []) :
    (streamSteps p).MeetsBefore op (p.launch.operator op).affinity := by
  refine ⟨p.joined.countP (· < op), fun d hd => ?_⟩
  have hop : op ∈ p.members d :=
    mem_members.mpr ⟨(h.recvs_bounds hr).2, List.elem_eq_true_of_mem hd⟩
  obtain ⟨front, mid, back, b, hcut, hmid, hwait, hscope⟩ := exists_barrier_cut hop (recvEvents_ne_nil h hr)
  rw [get_streamSteps]
  refine ⟨front, mid, back, b, hcut, hmid, fun hmem => ?_, ?_, fun hmixed => ?_⟩
  · exact hwait ((steps_framed h rfl).mem_eventWait.mp hmem).2
  · rw [hscope]
    split
    · rfl
    next hone =>
      rw [Affinity.domain_unique hone hd (primary_mem _)]
  · exact countP_front hcut hmid (by rw [hscope, if_pos hmixed])

/-- One of the two domains notifies of outer events. -/
theorem count_notify (h : p.launch.Accepted units ops fusion) (op : Nat) :
    (p.steps d).count (.notify op)
      = if p.launch.events.sends op ≠ [] ∧ p.notifyDomain op = d then 1 else 0 := by
  refine (steps_framed h rfl).count_eq rfl ?_
  rw [(steps_framed h rfl).mem_notify, notifies, Bool.and_eq_true, Bool.not_eq_true',
    List.isEmpty_eq_false_iff, decide_eq_true_iff]
  refine and_iff_right_of_imp ?_
  rintro ⟨hs, hd⟩
  refine mem_members.mpr ⟨?_, ?_⟩
  · exact Nat.lt_of_succ_lt (h.sends_bounds hs)
  · exact hd ▸ List.elem_eq_true_of_mem notifyDomain_mem

/-- One of the two domains waits for outer events. -/
theorem count_eventWait (h : p.launch.Accepted units ops fusion) (op : Nat) :
    (p.steps d).count (.eventWait op)
      = if p.launch.events.recvs op ≠ [] ∧ (p.launch.operator op).eventDomain = d then 1 else 0 := by
  refine (steps_framed h rfl).count_eq rfl ?_
  rw [(steps_framed h rfl).mem_eventWait, waits, Bool.and_eq_true, Bool.not_eq_true',
    List.isEmpty_eq_false_iff, decide_eq_true_iff]
  refine and_iff_right_of_imp ?_
  rintro ⟨hr, hd⟩
  refine mem_members.mpr ⟨(h.recvs_bounds hr).2, ?_⟩
  exact hd ▸ List.elem_eq_true_of_mem (p.launch.operator op).eventDomain_mem

end TwoStream

/-! ### Both modes -/

namespace KernelBody

/-- The lists of steps of a schedule: one, or one for each domain. -/
def lists : KernelBody → List (List Step)
  | .singleStream steps => [steps]
  | .twoStream s => [s.cube, s.vector]

theorem count_singleStream (steps : List Step) (s : Step) :
    (singleStream steps).lists.flatten.count s = steps.count s := by
  simp [lists]

/-- A step that one of the two domains has. -/
theorem count_twoStream {p : TwoStream} {s : Step} {present : Prop} [Decidable present] {holder : Domain}
    (h : ∀ d, (p.steps d).count s = if present ∧ holder = d then 1 else 0) :
    (twoStream (Generator.streamSteps p)).lists.flatten.count s = if present then 1 else 0 := by
  have hsum : (twoStream (Generator.streamSteps p)).lists.flatten.count s
      = (p.steps .cube).count s + (p.steps .vector).count s := by
    simp [lists, Generator.streamSteps]
  rw [hsum, h, h]
  cases holder <;> simp

end KernelBody

namespace Launch

open Schedule

variable {l : Launch} {body : KernelBody} {stats : SyncStats} {units : Units} {ops : List Operator}
  {fusion : Bool}

theorem exists_framed (h : l.Accepted units ops fusion)
    (hschedule : Generator.schedule l = .ok (body, stats)) :
    ∀ steps ∈ body.lists, ∃ called waits notifies, Framed steps called waits notifies := by
  intro steps hsteps
  cases hmode : l.events.mode with
  | singleStream =>
    rw [schedule_singleStream h.linked.toWellFormed hmode hschedule] at hsteps
    obtain rfl := List.mem_singleton.mp hsteps
    exact ⟨_, _, _, SingleStream.steps_framed h⟩
  | twoStream =>
    rw [schedule_twoStream hmode hschedule, KernelBody.lists, List.mem_pair] at hsteps
    rcases hsteps with rfl | rfl
    · exact ⟨_, _, _, TwoStream.steps_framed h rfl⟩
    · exact ⟨_, _, _, TwoStream.steps_framed h rfl⟩

/-- CORRECT: in all lists together an operator with outer events to send notifies of them once, behind
its call and in front of the next one; an operator with outer events to receive waits for them once, in
front of its call and behind the one before; and no other operator does either. On two streams all units
of an operator that waits meet between its wait and its call. -/
theorem outer_events_once {r : Request} (hl : Generator.launch r = .ok l)
    (hschedule : Generator.schedule l = .ok (body, stats)) (op : Nat) :
    body.lists.flatten.count (.notify op) = (if l.events.sends op ≠ [] then 1 else 0) ∧
    body.lists.flatten.count (.eventWait op) = (if l.events.recvs op ≠ [] then 1 else 0) ∧
    (∀ steps ∈ body.lists,
      (.notify op ∈ steps → Spans steps (.invoke op) (.notify op)) ∧
      (.eventWait op ∈ steps → Spans steps (.eventWait op) (.invoke op))) ∧
    ∀ s, body = .twoStream s → l.events.recvs op ≠ [] → s.MeetsBefore op (l.operator op).affinity := by
  obtain ⟨units, ops, fusion, h, _⟩ := Generator.launch_accepted hl
  have hspans : ∀ steps ∈ body.lists,
      (.notify op ∈ steps → Spans steps (.invoke op) (.notify op)) ∧
      (.eventWait op ∈ steps → Spans steps (.eventWait op) (.invoke op)) := by
    intro steps hsteps
    obtain ⟨_, _, _, hframed⟩ := exists_framed h hschedule steps hsteps
    exact ⟨hframed.spans_notify, hframed.spans_eventWait⟩
  cases hmode : l.events.mode with
  | singleStream =>
    obtain rfl := schedule_singleStream h.linked.toWellFormed hmode hschedule
    refine ⟨?_, ?_, hspans, by simp⟩
    · rw [KernelBody.count_singleStream, SingleStream.count_notify h]
    · rw [KernelBody.count_singleStream, SingleStream.count_eventWait h]
  | twoStream =>
    obtain rfl := schedule_twoStream hmode hschedule
    refine ⟨?_, ?_, hspans, fun s hs hr => ?_⟩
    · exact KernelBody.count_twoStream fun d => TwoStream.count_notify h op
    · exact KernelBody.count_twoStream fun d => TwoStream.count_eventWait h op
    · obtain rfl := KernelBody.twoStream.inj hs
      exact TwoStream.meetsBefore (p := ⟨l, TwoStream.keptEdges l.graph⟩) h hr

/-- Two mixed operators on two streams, of which the first notifies and the second waits. -/
def exchangeRequest : Request :=
  .ofOperators "stream-fusion=1"
    [.onStream 0 "first" .mixAic11 [5] [], .onStream 1 "second" .mixAic11 [] [6]]

theorem exchangeRequest_once : ∃ l body stats s, Generator.launch exchangeRequest = .ok l ∧
    Generator.schedule l = .ok (body, stats) ∧ body = .twoStream s ∧
    body.lists.flatten.count (.notify 0) = 1 ∧ body.lists.flatten.count (.eventWait 1) = 1 ∧
    s.MeetsBefore 1 .mixed := by
  obtain ⟨l, body, stats, hl, hschedule, htest⟩ : ∃ l body stats,
      Generator.launch exchangeRequest = .ok l ∧ Generator.schedule l = .ok (body, stats) ∧
      decide (l.events.mode = .twoStream ∧ l.events.sends 0 = [5] ∧ l.events.recvs 1 = [6] ∧
        (l.operator 1).affinity = .mixed) = true :=
    Generator.exists_schedule_of_test (by decide +kernel)
  obtain ⟨hmode, hsends, hrecvs, hmixed⟩ := of_decide_eq_true htest
  have hbody := schedule_twoStream hmode hschedule
  obtain ⟨hnotify, _⟩ := outer_events_once hl hschedule 0
  obtain ⟨_, hwait, _, hmeets⟩ := outer_events_once hl hschedule 1
  rw [hsends] at hnotify
  rw [hrecvs] at hwait hmeets
  exact ⟨l, body, stats, _, hl, hschedule, hbody, hnotify, hwait, hmixed ▸ hmeets _ hbody (by simp)⟩

end Launch

end KernelFusion
