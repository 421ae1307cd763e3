import KernelFusion.Schedule.StreamCheck
import Mathlib.Logic.Function.Basic

/-!
Two processes that carry out the lists of a two-stream schedule, in any interleaving.

A signal puts its edge at the end of the queue of its flag. A wait takes the first edge out of the queue
of its flag and blocks while there is none. At a full barrier each process waits for the other. All other
steps a process takes on its own; outer events are taken to arrive.

        cube      ── signal ──▶ e₂ e₁ ──▶ wait ──      vector
                  ── full barrier ◀──▶ full barrier ──

Where the waits of each process are the signals of the other in the same order, a wait always takes its
own edge, and nothing is left in the queues when both processes are through.
-/

namespace KernelFusion

open StreamSteps

@[simp] theorem Domain.other_other (d : Domain) : d.other.other = d := by cases d <;> rfl

@[simp] theorem Domain.other_ne (d : Domain) : d.other ≠ d := by cases d <;> decide

@[simp] theorem Domain.ne_other (d : Domain) : d ≠ d.other := by cases d <;> decide

theorem Domain.eq_or_eq_other (d d' : Domain) : d' = d ∨ d' = d.other := by
  cases d <;> cases d' <;> simp [Domain.other]

@[simp] theorem Flag.ofStream_inj {d d' : Domain} : ofStream d = ofStream d' ↔ d = d' := by
  cases d <;> cases d' <;> decide

@[simp] theorem Flag.channel_ne_ofStream (n : Nat) (d : Domain) : channel n ≠ ofStream d := by
  cases d <;> simp [ofStream]

/-- Whether a process takes a step on its own. -/
def Step.isLocal : Step → Bool
  | .signal .. => false
  | .wait .. => false
  | .barrier b => decide (b.scope ≠ .full)
  | _ => true

namespace Schedule

/-- The edges that a list signals, in order. -/
def signalIds (steps : List Step) : List Nat := (steps.filterMap signalled?).map Prod.fst

/-- The edges that a list waits for, in order. -/
def waitIds (steps : List Step) : List Nat := (steps.filterMap awaited?).map Prod.fst

@[simp] theorem signalIds_nil : signalIds [] = [] := rfl

@[simp] theorem waitIds_nil : waitIds [] = [] := rfl

@[simp] theorem signalIds_append (xs ys : List Step) :
    signalIds (xs ++ ys) = signalIds xs ++ signalIds ys := by
  simp [signalIds]

@[simp] theorem waitIds_append (xs ys : List Step) : waitIds (xs ++ ys) = waitIds xs ++ waitIds ys := by
  simp [waitIds]

/-- A step that a process takes on its own leaves the queues and the other process alone. -/
theorem local_neutral {s : Step} (h : s.isLocal = true) :
    signalIds [s] = [] ∧ waitIds [s] = [] ∧ [s].countP Step.isFullBarrier = 0 := by
  cases s <;> simp_all [signalIds, waitIds, signalled?, awaited?, Step.isLocal, Step.isFullBarrier]

end Schedule

open Schedule

/-- A list that is carried out up to some point. -/
structure Progress where
  done : List Step
  rest : List Step

/-- Goes past the next step. -/
def Progress.next (p : Progress) : Progress := ⟨p.done ++ p.rest.take 1, p.rest.drop 1⟩

/-- How far the two processes are and what their queues hold. -/
structure Interleaving where
  process : Domain → Progress
  queue : Flag → List Nat

namespace Interleaving

def start (s : StreamSteps) : Interleaving := ⟨fun d => ⟨[], s.get d⟩, fun _ => []⟩

/-- A process goes past its next step. -/
def advance (m : Interleaving) (d : Domain) : Interleaving :=
  { m with process := Function.update m.process d (m.process d).next }

def enqueue (m : Interleaving) (flag : Flag) (edge : Nat) : Interleaving :=
  { m with queue := Function.update m.queue flag (m.queue flag ++ [edge]) }

/-- Takes out the first edge, whichever it is. -/
def dequeue (m : Interleaving) (flag : Flag) : Interleaving :=
  { m with queue := Function.update m.queue flag (m.queue flag).tail }

inductive Move (m : Interleaving) : Interleaving → Prop where
  | own {d : Domain} {s : Step} {ss : List Step} (hs : (m.process d).rest = s :: ss)
      (hlocal : s.isLocal = true) : Move m (m.advance d)
  | signal {d producer : Domain} {edge : Nat} {pipe : Pipe} {flag : Flag} {ss : List Step}
      (hs : (m.process d).rest = .signal edge producer pipe flag :: ss) :
      Move m ((m.advance d).enqueue flag edge)
  | wait {d consumer : Domain} {edge : Nat} {flag : Flag} {ss : List Step}
      (hs : (m.process d).rest = .wait edge consumer flag :: ss) (hq : m.queue flag ≠ []) :
      Move m ((m.advance d).dequeue flag)
  | meet {b b' : Barrier} {cs vs : List Step} (hc : (m.process .cube).rest = .barrier b :: cs)
      (hb : b.scope = .full) (hv : (m.process .vector).rest = .barrier b' :: vs)
      (hb' : b'.scope = .full) : Move m ((m.advance .cube).advance .vector)

/-- The states that some interleaving of the two lists comes to. -/
inductive Reachable (s : StreamSteps) : Interleaving → Prop where
  | start : Reachable s (start s)
  | next {m m' : Interleaving} (h : Reachable s m) (hmove : Move m m') : Reachable s m'

/-- Both processes are through. -/
def IsFinal (m : Interleaving) : Prop := ∀ d, (m.process d).rest = []

/-! ### One step -/

variable {m m' : Interleaving} {d : Domain} {s : Step} {ss : List Step}

@[simp] theorem advance_queue : (m.advance d).queue = m.queue := rfl

@[simp] theorem enqueue_process (flag : Flag) (edge : Nat) :
    (m.enqueue flag edge).process = m.process := rfl

@[simp] theorem dequeue_process (flag : Flag) : (m.dequeue flag).process = m.process := rfl

theorem done_advance (hs : (m.process d).rest = s :: ss) (d' : Domain) :
    ((m.advance d).process d').done = (m.process d').done ++ if d' = d then [s] else [] := by
  by_cases h : d' = d
  · subst h
    simp [advance, Progress.next, hs]
  · simp [advance, h]

theorem rest_advance_of_ne {d' : Domain} (h : d' ≠ d) :
    ((m.advance d).process d').rest = (m.process d').rest := by
  simp [advance, h]

/-- Going on moves a step from what is to do to what is done. -/
theorem advance_list (d' : Domain) : ((m.advance d).process d').done ++ ((m.advance d).process d').rest
    = (m.process d').done ++ (m.process d').rest := by
  by_cases h : d' = d
  · subst h
    simp [advance, Progress.next, -List.drop_one]
  · simp [advance, h]

end Interleaving

/-! ### What a run keeps -/

/-- The signals of each process and the waits of the other are the same edges in the same order, on the
flag of the direction. -/
structure StreamSteps.Matched (s : StreamSteps) : Prop where
  signals : ∀ d edge producer pipe flag,
    .signal edge producer pipe flag ∈ s.get d → flag = .ofStream d
  waits : ∀ d edge consumer flag, .wait edge consumer flag ∈ s.get d → flag = .ofStream d.other
  order : ∀ d, waitIds (s.get d) = signalIds (s.get d.other)

namespace Interleaving

/-- What holds of every state that is reached: a queue holds what was signalled and not yet awaited, and
both processes are past as many full barriers. -/
structure Consistent (s : StreamSteps) (m : Interleaving) : Prop where
  list : ∀ d, (m.process d).done ++ (m.process d).rest = s.get d
  queue : ∀ d, waitIds (m.process d).done ++ m.queue (.ofStream d.other)
    = signalIds (m.process d.other).done
  unused : ∀ n, m.queue (.channel n) = []
  barriers : (m.process .cube).done.countP Step.isFullBarrier
    = (m.process .vector).done.countP Step.isFullBarrier

theorem Consistent.start (s : StreamSteps) : Consistent s (start s) where
  list _ := rfl
  queue _ := rfl
  unused _ := rfl
  barriers := rfl

section

variable {s : StreamSteps} {m m' : Interleaving} {d : Domain} {ss : List Step}
  (h : Consistent s m) (hs : s.Matched)
include h

theorem Consistent.mem {step : Step} (hrest : (m.process d).rest = step :: ss) : step ∈ s.get d := by
  rw [← h.list d, hrest]
  simp

include hs

/-- The edge that a wait takes out of the queue is its own. -/
theorem Consistent.own {edge held : Nat} {consumer : Domain} {flag : Flag} {q : List Nat}
    (hrest : (m.process d).rest = .wait edge consumer flag :: ss) (hq : m.queue flag = held :: q) :
    held = edge := by
  have hflag := hs.waits d edge consumer flag (h.mem hrest)
  have horder := hs.order d
  have hqueue := h.queue d
  rw [← hflag, hq] at hqueue
  rw [← h.list d, ← h.list d.other, hrest, signalIds_append, ← hqueue, waitIds_append,
    List.append_assoc, List.append_cancel_left_eq] at horder
  exact (List.cons.inj horder).1.symm

theorem Consistent.next (hmove : Move m m') : Consistent s m' := by
  cases hmove with
  | @own d step ss hrest hlocal =>
    obtain ⟨hsignal, hwait, hfull⟩ := local_neutral hlocal
    refine ⟨fun d' => (advance_list d').trans (h.list d'), fun d' => ?_, h.unused, ?_⟩
    · simpa [done_advance hrest, apply_ite signalIds, apply_ite waitIds, hsignal, hwait]
        using h.queue d'
    · simpa [done_advance hrest, apply_ite (List.countP _), hfull] using h.barriers
  | @signal d producer edge pipe flag ss hrest =>
    have hflag := hs.signals d edge producer pipe flag (h.mem hrest)
    have hsignal : signalIds [.signal edge producer pipe flag] = [edge] := rfl
    have hwait : waitIds [.signal edge producer pipe flag] = [] := rfl
    rw [hflag] at hrest hsignal hwait
    refine ⟨fun d' => (advance_list d').trans (h.list d'), fun d' => ?_, fun n => ?_, ?_⟩
    · rcases Domain.eq_or_eq_other d d' with rfl | rfl
      · simpa [done_advance hrest, enqueue, hflag, hwait] using h.queue d'
      · have hqueue := h.queue d.other
        rw [Domain.other_other] at hqueue
        simp [done_advance hrest, enqueue, hflag, hsignal, ← hqueue]
    · simpa [enqueue, hflag] using h.unused n
    · simpa [done_advance hrest, apply_ite (List.countP _), Step.isFullBarrier] using h.barriers
  | @wait d consumer edge flag ss hrest hq =>
    obtain ⟨held, q, hheld⟩ := List.exists_cons_of_ne_nil hq
    have hown := h.own hs hrest hheld
    have hflag := hs.waits d edge consumer flag (h.mem hrest)
    have hsignal : signalIds [.wait edge consumer flag] = [] := rfl
    have hwait : waitIds [.wait edge consumer flag] = [edge] := rfl
    rw [hflag] at hrest hheld hsignal hwait
    refine ⟨fun d' => (advance_list d').trans (h.list d'), fun d' => ?_, fun n => ?_, ?_⟩
    · rcases Domain.eq_or_eq_other d d' with rfl | rfl
      · simpa [done_advance hrest, dequeue, hflag, hwait, hheld, hown] using h.queue d'
      · simpa [done_advance hrest, dequeue, hflag, hsignal] using h.queue d.other
    · simpa [dequeue, hflag] using h.unused n
    · simpa [done_advance hrest, apply_ite (List.countP _), Step.isFullBarrier] using h.barriers
  | @meet b b' cs vs hc hb hv hb' =>
    have hv' : ((m.advance .cube).process .vector).rest = .barrier b' :: vs := by
      rw [rest_advance_of_ne (by decide), hv]
    have hsignal : ∀ b : Barrier, signalIds [.barrier b] = [] := fun _ => rfl
    have hwait : ∀ b : Barrier, waitIds [.barrier b] = [] := fun _ => rfl
    refine ⟨fun d' => ((advance_list d').trans (advance_list d')).trans (h.list d'), fun d' => ?_,
      h.unused, ?_⟩
    · simpa [done_advance hv', done_advance hc, apply_ite signalIds, apply_ite waitIds, hsignal, hwait]
        using h.queue d'
    · simpa [done_advance hv', done_advance hc, Step.isFullBarrier, hb, hb'] using h.barriers

/-- When both processes are through, nothing is left in the queues. -/
theorem Consistent.drained (hfinal : m.IsFinal) (flag : Flag) : m.queue flag = [] := by
  have hdone : ∀ d, (m.process d).done = s.get d := by
    intro d
    rw [← h.list d, hfinal d, List.append_nil]
  have hstream : ∀ d, m.queue (.ofStream d) = [] := by
    intro d
    have hqueue := h.queue d.other
    rw [hdone, hdone, hs.order, Domain.other_other] at hqueue
    exact List.append_right_eq_self.mp hqueue
  cases flag with
  | channel n => exact h.unused n
  | aivToAic => exact hstream .vector
  | aicToAiv => exact hstream .cube

end

theorem Reachable.consistent {s : StreamSteps} {m : Interleaving} (hs : s.Matched)
    (h : Reachable s m) : Consistent s m := by
  induction h with
  | start => exact .start s
  | next _ hmove ih => exact ih.next hs hmove

/-! ### Processes that cannot go on -/

/-- A process that does not go on without the other. -/
inductive Stuck (m : Interleaving) (d : Domain) : Prop where
  | through (hs : (m.process d).rest = [])
  | waiting {consumer : Domain} {edge : Nat} {flag : Flag} {ss : List Step}
      (hs : (m.process d).rest = .wait edge consumer flag :: ss) (hq : m.queue flag = [])
  | meeting {b : Barrier} {ss : List Step} (hs : (m.process d).rest = .barrier b :: ss)
      (hb : b.scope = .full)

theorem stuck_of_no_move {m : Interleaving} (h : ¬∃ m', Move m m') (d : Domain) : Stuck m d := by
  cases hrest : (m.process d).rest with
  | nil => exact .through hrest
  | cons s ss =>
    cases hlocal : s.isLocal with
    | true => exact absurd ⟨_, .own hrest hlocal⟩ h
    | false =>
      cases s with
      | signal edge producer pipe flag => exact absurd ⟨_, .signal hrest⟩ h
      | wait edge consumer flag =>
        exact .waiting hrest (by_contra fun hq => h ⟨_, .wait hrest hq⟩)
      | barrier b => exact .meeting hrest (by simpa [Step.isLocal] using hlocal)
      | _ => cases hlocal

end Interleaving

end KernelFusion
