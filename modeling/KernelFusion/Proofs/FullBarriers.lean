import KernelFusion.Proofs.DynamicClasses

/-!
Where all units of a single-stream launch meet.

Without the handshake all units meet between any two calls, and no step signals or waits. With it there
are five places that could make them meet, and each has its own cause.

        call ── release ── debugging ── resolve ── signals ── overflow ── waits ── events ── call
                dynamic    covering     first                  channels            covering
                operator   barrier      only                   run out             barrier

A barrier over the whole launch is a full one only if the launch has units of both domains, and the
barrier behind a dynamic operator that comes first stands in front of all calls.
-/

namespace KernelFusion

open List

/-- Whether a step signals or waits, for an edge or for a neighbour. -/
def Step.isPointToPoint : Step → Bool
  | .signal .. => true
  | .wait .. => true
  | .earlyStartSet _ => true
  | .earlyStartConfig _ => true
  | .earlyStartWait _ _ => true
  | _ => false

theorem Barrier.full_covering (t : KernelType) :
    decide ((Barrier.covering t).scope = .full) = t.isMixed := by
  cases t <;> rfl

theorem KernelType.isMixed_iff {t : KernelType} : t.isMixed = true ↔ t = .mixAic11 ∨ t = .mixAic12 := by
  cases t <;> decide

theorem any_ite {α : Type} (c : Prop) [Decidable c] (test : α → Bool) (xs ys : List α) :
    (if c then xs else ys).any test = if c then xs.any test else ys.any test :=
  apply_ite (List.any · test) c xs ys

/-- All units meet between the calls of two operators. -/
def Schedule.MeetBetween (steps : List Step) (p c : Nat) : Prop :=
  ∃ b : Barrier, b.scope = .full ∧ [.invoke p, .barrier b, .invoke c] <+ steps

namespace SingleStream

open Schedule

variable {l : Launch} {prev cur op : Nat}

/-! ### Full barriers from one call to the next -/

theorem full_syncSteps : (syncSteps l prev cur).any Step.isFullBarrier
    = (!l.earlyStart || decide (8 < (Rules.crossing l.graph cur).length)) := by
  cases hearly : l.earlyStart with
  | false => simp [syncSteps, hearly, Rules.fullBarrier, Step.isFullBarrier, Barrier.full]
  | true =>
    rw [syncSteps, if_pos hearly, crossSteps]
    simp only [List.any_append, Rules.full_domainBarriers, Rules.full_signalSteps, Rules.full_waitSteps]
    simp [any_ite, Rules.overflow, Rules.overflowBarrier, Channels.all, handshake, Step.isFullBarrier,
      Barrier.full]

theorem full_boundarySteps :
    (boundarySteps l prev cur).any Step.isFullBarrier = ((syncSteps l prev cur).any Step.isFullBarrier ||
      (decide (l.events.sends prev ≠ [] ∧ l.events.recvs cur ≠ []) && l.shape.kernelType.isMixed)) := by
  rw [boundarySteps_eq]
  by_cases hr : l.events.recvs cur = [] <;> by_cases hs : l.events.sends prev = [] <;>
    simp [hr, hs, Barrier.full_covering, Step.isFullBarrier]

theorem full_lead (op : Nat) : (lead l (op + 1)).any Step.isFullBarrier
    = (boundarySteps l op (op + 1)).any Step.isFullBarrier := by
  simp [lead, any_ite, Step.beginOperator, resolveSteps, preloadSteps, mark, Step.isFullBarrier]

theorem full_trail : (trail l op).any Step.isFullBarrier
    = ((l.operator op).isDynamic || (l.options.debugSyncAll && l.shape.kernelType.isMixed)) := by
  simp [trail, any_ite, releaseSteps, debugSteps, mark, Barrier.full_covering, Step.isFullBarrier,
    Barrier.full]

/-- All units meet between two neighbours exactly if the steps between their calls make them. -/
theorem meetBetween_iff (hop : op + 1 < l.graph.size) :
    MeetBetween (steps l) op (op + 1) ↔ (passage l op).any Step.isFullBarrier = true := by
  obtain ⟨front, back, hcut⟩ := exists_call_cut (n := 0) hop
  have hbarrier : ∀ b : Barrier,
      [.invoke op, .barrier b, .invoke (op + 1)] <+ steps l ↔ .barrier b ∈ passage l op := by
    -- Each call stands once, so that only the passage lies between them.
    intro b
    rw [← List.singleton_sublist, hcut]
    change Step.invoke op :: ([Step.barrier b] ++ [Step.invoke (op + 0 + 1)]) <+ _ ↔ _
    exact sublist_between_iff_of_nodup (hcut ▸ nodup_events) rfl rfl
  simp only [MeetBetween, hbarrier, List.any_eq_true]
  constructor
  · rintro ⟨b, hb, hmem⟩
    exact ⟨.barrier b, hmem, by simp [Step.isFullBarrier, hb]⟩
  · rintro ⟨s, hs, hfull⟩
    cases s with
    | barrier b => exact ⟨b, by simpa [Step.isFullBarrier] using hfull, hs⟩
    | _ => cases hfull

/-- What makes all units meet behind an operator where the handshake is used: the operator is dynamic,
more edges across the domains enter the next one than there are channels, or the launch has units of both
domains and a barrier that covers it, be it for debugging or between a notification and a wait. -/
def Meets (l : Launch) (op : Nat) : Prop :=
  (l.operator op).isDynamic = true ∨ 8 < (Rules.crossing l.graph (op + 1)).length ∨
  (l.options.debugSyncAll = true ∧
    (l.shape.kernelType = .mixAic11 ∨ l.shape.kernelType = .mixAic12)) ∨
  (l.events.sends op ≠ [] ∧ l.events.recvs (op + 1) ≠ [] ∧
    (l.shape.kernelType = .mixAic11 ∨ l.shape.kernelType = .mixAic12))

theorem full_passage_iff (op : Nat) :
    (passage l op).any Step.isFullBarrier = true ↔ l.earlyStart = false ∨ Meets l op := by
  rw [passage, List.any_append, full_trail, full_lead, full_boundarySteps, full_syncSteps, Meets]
  simp only [← KernelType.isMixed_iff, Bool.or_eq_true, Bool.and_eq_true, Bool.not_eq_true',
    decide_eq_true_eq]
  tauto

/-! ### A schedule without the handshake -/

section Plain

variable (he : l.earlyStart = false)
include he

theorem plain_boundarySteps : (boundarySteps l prev cur).filter Step.isPointToPoint = [] := by
  have hsync : syncSteps l prev cur = Rules.fullBarrier := by simp [syncSteps, he]
  rw [boundarySteps_eq, hsync, Rules.fullBarrier]
  split <;> split <;> simp [Step.isPointToPoint]

theorem plain_block : (block l op).filter Step.isPointToPoint = [] := by
  simp [block, lead, trail, filter_ite, plain_boundarySteps he, Step.beginOperator, resolveSteps,
    preloadSteps, releaseSteps, debugSteps, mark, Step.isPointToPoint]

/-- Without the handshake nothing but barriers synchronizes. -/
theorem plain_steps : ∀ s ∈ steps l, s.isPointToPoint = false := by
  have hblocks : (l.ids.flatMap (block l)).filter Step.isPointToPoint = [] := by
    simp only [List.filter_flatMap, plain_block he, List.flatMap_eq_nil_iff, implies_true]
  have hsteps : (steps l).filter Step.isPointToPoint = [] := by
    simp [steps, List.filter_append, hblocks, openingSteps, closingSteps, filter_ite, mark,
      Step.isPointToPoint]
  intro s hs
  simpa using List.filter_eq_nil_iff.mp hsteps s hs

end Plain

/-! ### Accepted requests -/

theorem earlyStart_of_launch {r : Request} (h : Generator.launch r = .ok l)
    (hmode : l.events.mode = .singleStream) : l.earlyStart = l.options.earlyStart.isEnabled := by
  obtain ⟨o, ops, p, s, g, _, _, _, _, _, _, rfl⟩ := Generator.launch_ok_iff.mp h
  have hplan : p.mode = .singleStream := hmode
  simp [Generator.launchOf, Generator.usesHandshake, hplan]

theorem mode_of_singleStream {list : List Step} {stats : SyncStats}
    (h : Generator.schedule l = .ok (.singleStream list, stats)) : l.events.mode = .singleStream := by
  cases hmode : l.events.mode with
  | singleStream => rfl
  | twoStream => cases Launch.schedule_twoStream hmode h

/-- CORRECT: in a single-stream schedule without the handshake all units meet between any two neighbours,
and nothing signals or waits. With the handshake they meet exactly where a dynamic operator, a lack of
channels, or a barrier over a launch of both domains makes them. -/
theorem full_barrier_between_iff {r : Request} {list : List Step} {stats : SyncStats}
    (hl : Generator.launch r = .ok l)
    (hschedule : Generator.schedule l = .ok (.singleStream list, stats)) :
    (l.options.earlyStart.isEnabled = false →
      (∀ op, op + 1 < l.graph.size → MeetBetween list op (op + 1)) ∧
      ∀ s ∈ list, s.isPointToPoint = false) ∧
    (l.options.earlyStart.isEnabled = true →
      ∀ op, op + 1 < l.graph.size → (MeetBetween list op (op + 1) ↔ Meets l op)) := by
  obtain ⟨units, ops, fusion, h, _⟩ := Generator.launch_accepted hl
  have hg := h.linked.toWellFormed
  have hmode := mode_of_singleStream hschedule
  obtain rfl := KernelBody.singleStream.inj (Launch.schedule_singleStream hg hmode hschedule)
  rw [← earlyStart_of_launch hl hmode]
  constructor
  · intro hearly
    refine ⟨fun op hop => ?_, plain_steps hearly⟩
    exact (meetBetween_iff hop).mpr ((full_passage_iff op).mpr (.inl hearly))
  · intro hearly op hop
    rw [meetBetween_iff hop, full_passage_iff, hearly]
    simp

/-- Operators of cube, vector and cube units, where the first notifies and the second waits. -/
def relayRequest (options : String) : Request :=
  .ofOperators options [.onStream 0 "first" .aicOnly [5] [], .onStream 0 "second" .aivOnly [] [6],
    .onStream 0 "third" .aicOnly [] []]

/-- With the handshake all units meet where events are exchanged, and not behind it. Without it they
meet there as well. -/
theorem relayRequest_meets :
    (∃ l list stats, Generator.launch (relayRequest "") = .ok l ∧
      Generator.schedule l = .ok (.singleStream list, stats) ∧
      MeetBetween list 0 1 ∧ ¬MeetBetween list 1 2) ∧
    ∃ l list stats, Generator.launch (relayRequest "early-start=0") = .ok l ∧
      Generator.schedule l = .ok (.singleStream list, stats) ∧
      MeetBetween list 1 2 ∧ ∀ s ∈ list, s.isPointToPoint = false := by
  constructor
  · obtain ⟨l, body, stats, hl, hschedule, htest⟩ : ∃ l body stats,
        Generator.launch (relayRequest "") = .ok l ∧ Generator.schedule l = .ok (body, stats) ∧
        decide (l.events.mode = .singleStream ∧ l.options.earlyStart.isEnabled = true ∧ l.graph.size = 3 ∧
          l.events.sends 0 = [5] ∧ l.events.recvs 1 = [6] ∧ l.shape.kernelType = .mixAic11 ∧
          (l.operator 1).isDynamic = false ∧ (Rules.crossing l.graph 2).length = 1 ∧
          l.options.debugSyncAll = false ∧ l.events.recvs 2 = []) = true :=
      Generator.exists_schedule_of_test (by decide +kernel)
    obtain ⟨hmode, hearly, hsize, hsends, hrecvs, htype, hstatic, hcrossing, hdebug, hnone⟩ :=
      of_decide_eq_true htest
    obtain rfl := Launch.schedule_singleStream (Generator.launch_wellFormed hl) hmode hschedule
    have hiff := (full_barrier_between_iff hl hschedule).2 hearly
    refine ⟨l, _, stats, hl, hschedule, (hiff 0 (by omega)).mpr ?_, fun hmeet => ?_⟩
    · simp [Meets, hsends, hrecvs, htype]
    · simpa [Meets, hstatic, hcrossing, hdebug, hnone] using (hiff 1 (by omega)).mp hmeet
  · obtain ⟨l, body, stats, hl, hschedule, htest⟩ : ∃ l body stats,
        Generator.launch (relayRequest "early-start=0") = .ok l ∧
        Generator.schedule l = .ok (body, stats) ∧
        decide (l.events.mode = .singleStream ∧ l.options.earlyStart.isEnabled = false ∧
          l.graph.size = 3) = true :=
      Generator.exists_schedule_of_test (by decide +kernel)
    obtain ⟨hmode, hearly, hsize⟩ := of_decide_eq_true htest
    obtain rfl := Launch.schedule_singleStream (Generator.launch_wellFormed hl) hmode hschedule
    obtain ⟨hmeets, hplain⟩ := (full_barrier_between_iff hl hschedule).1 hearly
    exact ⟨l, _, stats, hl, hschedule, hmeets 1 (by omega), hplain⟩

end SingleStream

end KernelFusion
