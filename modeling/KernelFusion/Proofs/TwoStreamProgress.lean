import KernelFusion.Proofs.Interleaving
import KernelFusion.Proofs.TwoStreamOrder

/-!
Two-stream schedules do not get stuck.

A process that cannot go on stands in front of an operator, with all its earlier operators behind it, or
it is through. It waits for an edge of an earlier operator, whose signal the other process has raised
unless it stands in front of a still earlier operator; and at a full barrier it is past as many of them as
the other. So neither process can be ahead of the other, and where both stand in front of one operator,
they meet.
-/

namespace KernelFusion

open List

/-- The place where a list that is made of blocks is cut lies in one block. -/
theorem exists_split_flatMap {α β : Type} {xs : List α} {f : α → List β} {us vs : List β} {b : β}
    (h : us ++ b :: vs = xs.flatMap f) : ∃ front x back as bs, xs = front ++ x :: back ∧
      f x = as ++ b :: bs ∧ us = front.flatMap f ++ as ∧ vs = bs ++ back.flatMap f := by
  induction xs generalizing us with
  | nil => simp at h
  | cons x xs ih =>
    rw [List.flatMap_cons] at h
    rcases List.append_eq_append_iff.mp h with ⟨as, hx, htail⟩ | ⟨as, hus, htail⟩
    · cases as with
      | nil =>
        have hcut : [] ++ b :: vs = xs.flatMap f := by simpa using htail
        obtain ⟨front, y, back, as, bs, rfl, hy, hus, hvs⟩ := ih hcut
        exact ⟨x :: front, y, back, as, bs, rfl, hy, by simp [hus, hx], hvs⟩
      | cons b' bs =>
        obtain ⟨rfl, hvs⟩ := List.cons.inj htail
        exact ⟨[], x, xs, us, bs, rfl, hx, by simp, hvs⟩
    · obtain ⟨front, y, back, as', bs, rfl, hy, has, hvs⟩ := ih htail.symm
      exact ⟨x :: front, y, back, as', bs, rfl, hy, by simp [hus, has], hvs⟩

/-- What is asked of a state of two processes. A full barrier belongs to the operator whose call follows
it. -/
structure Interleaving.Sound (m : Interleaving) : Prop where
  live : m.IsFinal ∨ ∃ m', Interleaving.Move m m'
  own : ∀ d edge consumer flag ss held q, (m.process d).rest = .wait edge consumer flag :: ss →
    m.queue flag = held :: q → held = edge
  together : ∀ b b' cs vs, (m.process .cube).rest = .barrier b :: cs → b.scope = .full →
    (m.process .vector).rest = .barrier b' :: vs → b'.scope = .full →
    (m.process .cube).done.countP Step.isFullBarrier
      = (m.process .vector).done.countP Step.isFullBarrier ∧
    ∃ op, (Schedule.invocations cs).head? = some op ∧ (Schedule.invocations vs).head? = some op
  drained : m.IsFinal → ∀ flag, m.queue flag = []

namespace TwoStream

open Schedule StreamSteps Generator Interleaving

variable {p : TwoStream} {d : Domain} {op : Nat} {done ss : List Step} {s : Step}

/-! ### Where a process stands -/

/-- All operators of a domain in front of some place are done, with what they leave to others. -/
def Past (p : TwoStream) (d : Domain) (done : List Step) (op : Nat) : Prop :=
  ((p.members d).filter (· < op)).flatMap (p.block d) <+: done.filter Step.isSync

theorem members_filter_lt {front back : List Nat} (h : p.members d = front ++ op :: back) :
    (p.members d).filter (· < op) = front := by
  have hinc : (p.members d).Pairwise (· < ·) := members_increasing
  rw [h] at hinc ⊢
  obtain ⟨_, hrest, hfront⟩ := List.pairwise_append.mp hinc
  have hback := (List.pairwise_cons.mp hrest).1
  rw [List.filter_append, List.filter_eq_self.mpr, List.filter_eq_nil_iff.mpr, List.append_nil]
  · intro q hq
    rcases List.mem_cons.mp hq with rfl | hq
    · simp
    · have := hback q hq
      simp only [decide_eq_true_eq]
      omega
  · intro q hq
    simpa using hfront q hq op List.mem_cons_self

theorem past_through (h : done = p.steps d) : Past p d done p.launch.graph.size := by
  have hall : (p.members d).filter (· < p.launch.graph.size) = p.members d :=
    List.filter_eq_self.mpr fun q hq => by simpa using (mem_members.mp hq).1
  rw [Past, hall, h]
  exact sync_steps (p := p) ▸ List.prefix_rfl

/-- What a process has signalled when it is past an operator. -/
theorem Past.signal (hp : p.Planned) (h : Past p d done op) {e : Edge}
    (he : e ∈ p.raised d e.producer) (hq : e.producer ∈ p.members d) (hlt : e.producer < op) :
    signalOf d e ∈ done := by
  have hblock : signalOf d e ∈ p.block d e.producer := by
    simp only [block, trail, handover, hp.raised_guards he, if_true, List.mem_append, List.mem_cons,
      List.mem_map]
    exact .inr (.inr (.inr (.inr ⟨e, he, rfl⟩)))
  have hmem := h.subset (List.mem_flatMap.mpr ⟨_, List.mem_filter.mpr ⟨hq, by simpa using hlt⟩, hblock⟩)
  exact List.mem_of_mem_filter hmem

/-! ### Full barriers -/

/-- Whether both domains meet in front of an operator. -/
def meets (p : TwoStream) (op : Nat) : Bool := (p.meeting op).any Step.isFullBarrier

/-- The operators in front of which both domains meet. -/
def joined (p : TwoStream) : List Nat := p.launch.ids.filter p.meets

theorem mixed_of_meets (h : p.meets op = true) : (p.launch.operator op).affinity = .mixed := by
  obtain ⟨s, hs, hfull⟩ := List.any_eq_true.mp h
  obtain ⟨b, rfl, hmixed, _⟩ := mem_meeting hs
  exact hmixed (by simpa [Step.isFullBarrier] using hfull)

theorem countP_block : (p.block d op).countP Step.isFullBarrier = if p.meets op then 1 else 0 := by
  obtain ⟨b, hb, _⟩ := eventBarrier_sync (p.launch.operator op)
  rw [List.countP_eq_length_filter, full_block, meets, meeting]
  split
  · rfl
  · rw [hb]
    cases hfull : Step.isFullBarrier (.barrier b) <;> simp [hfull]

theorem countP_blocks (ops : List Nat) :
    (ops.flatMap (p.block d)).countP Step.isFullBarrier = ops.countP p.meets := by
  induction ops with
  | nil => rfl
  | cons op ops ih => rw [List.flatMap_cons, List.countP_append, countP_block, ih, List.countP_cons,
      Nat.add_comm]

/-- The full barriers in front of an operator are those of the earlier operators, on each domain. -/
theorem countP_meets_lt : ((p.members d).filter (· < op)).countP p.meets
    = p.joined.countP (· < op) := by
  rw [joined, members, membersOf, List.countP_filter, List.countP_filter, List.countP_filter]
  refine List.countP_congr fun q _ => ?_
  have hmixed : p.meets q = true → (p.launch.operator q).affinity.contains d = true := by
    intro h
    rw [mixed_of_meets h]
    cases d <;> rfl
  simp only [Bool.and_eq_true]
  tauto

theorem joined_countP_lt {a c : Nat} (ha : a ∈ p.joined) (hac : a < c) :
    p.joined.countP (· < a) < p.joined.countP (· < c) := by
  obtain ⟨front, back, hsplit⟩ := List.append_of_mem ha
  have hmono : ∀ xs : List Nat, xs.countP (· < a) ≤ xs.countP (· < c) := fun xs =>
    List.countP_mono_left fun q _ hq => by simp only [decide_eq_true_eq] at hq ⊢; omega
  have hfront := hmono front
  have hback := hmono back
  simp only [hsplit, List.countP_append, List.countP_cons, hac, decide_true, if_true, lt_irrefl,
    decide_false, Bool.false_eq_true, if_false]
  omega

theorem countP_sync (steps : List Step) :
    (steps.filter Step.isSync).countP Step.isFullBarrier = steps.countP Step.isFullBarrier := by
  rw [List.countP_eq_length_filter, List.countP_eq_length_filter, filter_filter_class]
  intro s hs
  cases s <;> simp_all [Step.isSync, Step.isFullBarrier]

theorem Past.barriers (h : Past p d done op) :
    p.joined.countP (· < op) ≤ done.countP Step.isFullBarrier := by
  rw [← countP_sync done, ← countP_meets_lt (d := d), ← countP_blocks (d := d)]
  exact h.sublist.countP_le

/-! ### Processes that are held up -/

/-- A process at a wait or a full barrier stands in front of an operator. -/
structure Held (p : TwoStream) (d : Domain) (done : List Step) (s : Step) (ss : List Step) (op : Nat) :
    Prop where
  member : op ∈ p.members d
  past : Past p d done op
  lead : s ∈ p.lead d op
  next : (invocations ss).head? = some op
  barriers : s.isFullBarrier = true → done.countP Step.isFullBarrier = p.joined.countP (· < op)

theorem blocking_of_mem_trail (h : s ∈ .invoke op :: p.trail d op) :
    (s.isWait || s.isFullBarrier) = false := by
  simp only [trail, handover, List.mem_cons, List.mem_append] at h
  rcases h with rfl | h | h
  · rfl
  · split at h
    · rw [List.mem_singleton.mp h]
      rfl
    · cases h
  · split at h
    · rcases List.mem_cons.mp h with rfl | h
      · rfl
      · obtain ⟨e, _, rfl⟩ := List.mem_map.mp h
        rfl
    · cases h

theorem invocations_lead : invocations (p.lead d op) = [] := by
  refine List.filterMap_eq_nil_iff.mpr fun s hs => ?_
  rcases List.mem_append.mp hs with hs | hs
  · obtain ⟨e, _, rfl⟩ := List.mem_map.mp hs
    rfl
  · obtain ⟨b, rfl, _⟩ := mem_meeting hs
    rfl

/-- A blocking step of a block is in front of the call. -/
theorem exists_split_lead {as bs : List Step} (hblock : p.block d op = as ++ s :: bs)
    (hs : (s.isWait || s.isFullBarrier) = true) :
    ∃ cs, p.lead d op = as ++ s :: cs ∧ bs = cs ++ .invoke op :: p.trail d op := by
  have hnot : s ∉ .invoke op :: p.trail d op := by
    intro hmem
    rw [blocking_of_mem_trail hmem] at hs
    cases hs
  rcases List.append_eq_append_iff.mp hblock with ⟨cs, _, htail⟩ | ⟨cs, hlead, htail⟩
  · rw [htail] at hnot
    simp at hnot
  · cases cs with
    | nil =>
      rw [List.nil_append] at htail
      exact absurd (htail ▸ List.mem_cons_self) hnot
    | cons s' cs =>
      obtain ⟨rfl, hbs⟩ := List.cons.inj htail
      exact ⟨cs, hlead, hbs⟩

theorem exists_held (hlist : done ++ s :: ss = p.steps d)
    (hs : (s.isWait || s.isFullBarrier) = true) : ∃ op, Held p d done s ss op := by
  have hsync : s.isSync = true := by cases s <;> simp_all [Step.isSync, Step.isWait, Step.isFullBarrier]
  have hcut : done.filter Step.isSync ++ s :: ss.filter Step.isSync
      = (p.members d).flatMap (p.block d) := by
    rw [← sync_steps, ← hlist, List.filter_append, List.filter_cons_of_pos hsync]
  obtain ⟨front, op, back, as, bs, hsplit, hblock, hdone, hrest⟩ := exists_split_flatMap hcut
  obtain ⟨cs, hlead, rfl⟩ := exists_split_lead hblock hs
  have hnone : invocations cs = [] := by
    have hall : invocations (p.lead d op) = [] := invocations_lead
    rw [hlead, invocations, List.filterMap_append, List.append_eq_nil_iff, List.filterMap_cons] at hall
    split at hall
    · exact hall.2
    · exact absurd hall.2 (List.cons_ne_nil _ _)
  refine ⟨op, ⟨by simp [hsplit], ?_, by simp [hlead], ?_, fun hfull => ?_⟩⟩
  · rw [Past, members_filter_lt hsplit, hdone]
    exact List.prefix_append _ _
  · rw [invocations, ← filterMap_filter_class invoked?_of_not_sync, hrest]
    rw [invocations] at hnone
    simp [hnone, Step.invoked?]
  · -- A block has one full barrier at most, so that none comes before this one.
    have hone : (p.block d op).countP Step.isFullBarrier = if p.meets op then 1 else 0 := countP_block
    rw [hblock, List.countP_append, List.countP_cons_of_pos hfull] at hone
    rw [← countP_sync, hdone, List.countP_append, countP_blocks, ← members_filter_lt hsplit,
      countP_meets_lt]
    split at hone <;> omega

theorem Held.mem_joined (h : Held p d done s ss op) (hs : s.isFullBarrier = true) : op ∈ p.joined := by
  have hmeeting : s ∈ p.meeting op := by
    refine (List.mem_append.mp h.lead).resolve_left fun hwait => ?_
    obtain ⟨e, _, rfl⟩ := List.mem_map.mp hwait
    cases hs
  exact List.mem_filter.mpr ⟨List.mem_range.mpr (mem_members.mp h.member).1,
    List.any_eq_true.mpr ⟨s, hmeeting, hs⟩⟩

theorem Held.exists_awaited {edge : Nat} {consumer : Domain} {flag : Flag}
    (h : Held p d done (.wait edge consumer flag) ss op) : ∃ e ∈ p.awaited d op, e.id = edge := by
  rcases List.mem_append.mp h.lead with hs | hs
  · obtain ⟨e, he, heq⟩ := List.mem_map.mp hs
    exact ⟨e, he, (Step.wait.inj heq).1⟩
  · obtain ⟨b, hb, _⟩ := mem_meeting hs
    cases hb

/-! ### Every state that is reached -/

theorem Planned.matched (hp : p.Planned) : (streamSteps p).Matched where
  signals d edge producer pipe flag h := by
    rw [get_streamSteps] at h
    exact hp.signalled_flag (r := (edge, flag)) (List.mem_filterMap.mpr ⟨_, h, rfl⟩)
  waits d edge consumer flag h := by
    rw [get_streamSteps, ← Domain.other_other d] at h
    exact hp.awaited_flag (w := (edge, flag)) (List.mem_filterMap.mpr ⟨_, h, rfl⟩)
  order d := by
    have heq := hp.signalled_eq_awaited (d := d.other)
    rw [Domain.other_other] at heq
    rw [get_streamSteps, get_streamSteps]
    exact heq.symm

theorem Planned.nodup_waitIds (hp : p.Planned) : (waitIds (p.steps d)).Nodup := by
  have horder := hp.matched.order d
  rw [get_streamSteps, get_streamSteps] at horder
  rw [horder]
  exact hp.nodup_signals

section Run

variable {m : Interleaving} (hp : p.Planned) (hm : Consistent (streamSteps p) m)
include hm

theorem list_eq (d : Domain) : (m.process d).done ++ (m.process d).rest = p.steps d := by
  rw [← get_streamSteps, hm.list]

theorem barriers_eq (d : Domain) : (m.process d).done.countP Step.isFullBarrier
    = (m.process d.other).done.countP Step.isFullBarrier := by
  cases d with
  | cube => exact hm.barriers
  | vector => exact hm.barriers.symm

/-- A process at a full barrier does not stand in front of an earlier operator than the other one. -/
theorem le_of_meeting {b : Barrier} {op' : Nat}
    (h : Held p d (m.process d).done (.barrier b) ss op) (hb : b.scope = .full)
    (hother : Past p d.other (m.process d.other).done op') : op' ≤ op := by
  have hfull : Step.isFullBarrier (.barrier b) = true := by simp [Step.isFullBarrier, hb]
  by_contra hlt
  have hcount := joined_countP_lt (h.mem_joined hfull) (not_le.mp hlt)
  have hmine := h.barriers hfull
  have htheirs := hother.barriers
  rw [← barriers_eq hm d] at htheirs
  omega

/-- Where both processes are at a full barrier, they stand in front of the same operator. -/
theorem eq_of_meeting {b b' : Barrier} {cs vs : List Step} {a c : Nat}
    (ha : Held p .cube (m.process .cube).done (.barrier b) cs a) (hb : b.scope = .full)
    (hc : Held p .vector (m.process .vector).done (.barrier b') vs c) (hb' : b'.scope = .full) : a = c :=
  le_antisymm (le_of_meeting (d := .vector) hm hc hb' ha.past)
    (le_of_meeting (d := .cube) hm ha hb hc.past)

/-- Both processes come to the full barrier of an operator at the same time. -/
theorem together {b b' : Barrier} {cs vs : List Step} (hcs : (m.process .cube).rest = .barrier b :: cs)
    (hb : b.scope = .full) (hvs : (m.process .vector).rest = .barrier b' :: vs) (hb' : b'.scope = .full) :
    ∃ op, (invocations cs).head? = some op ∧ (invocations vs).head? = some op := by
  have hcube := list_eq hm .cube
  have hvector := list_eq hm .vector
  rw [hcs] at hcube
  rw [hvs] at hvector
  obtain ⟨a, ha⟩ := exists_held hcube (by simp [Step.isFullBarrier, hb])
  obtain ⟨c, hc⟩ := exists_held hvector (by simp [Step.isFullBarrier, hb'])
  have heq := eq_of_meeting hm ha hb hc hb'
  exact ⟨a, ha.next, heq ▸ hc.next⟩

include hp

/-- A process that waits in vain stands in front of a later operator than the other one. -/
theorem lt_of_waiting {edge op' : Nat} {consumer : Domain} {flag : Flag}
    (hrest : (m.process d).rest = .wait edge consumer flag :: ss)
    (h : Held p d (m.process d).done (.wait edge consumer flag) ss op) (hq : m.queue flag = [])
    (hother : Past p d.other (m.process d.other).done op') : op' < op := by
  by_contra hle
  obtain ⟨e, he, rfl⟩ := h.exists_awaited
  obtain ⟨hkept, hconsumer, hpair⟩ := hp.mem_awaited.mp he
  have hraised : e ∈ p.raised d.other e.producer :=
    hp.mem_raised.mpr ⟨hkept, rfl, by rw [hpair, Domain.other_other]⟩
  have hmem := hp.producer_mem (mem_thinned hkept).1
  rw [hpair] at hmem
  have hforward := hp.linked.forward e (mem_thinned hkept).1
  -- The other process has raised the signal, and nobody but this wait takes it.
  have hsignal : e.id ∈ signalIds (m.process d.other).done :=
    List.mem_map.mpr ⟨_, List.mem_filterMap.mpr ⟨_, hother.signal hp hraised hmem (by omega), rfl⟩, rfl⟩
  have hflag := hp.matched.waits d _ _ _ (hm.mem hrest)
  have hqueue := hm.queue d
  rw [← hflag, hq, List.append_nil] at hqueue
  have hnodup := hp.nodup_waitIds (d := d)
  rw [← list_eq hm d, hrest, waitIds_append] at hnodup
  exact (List.nodup_append.mp hnodup).2.2 e.id (hqueue ▸ hsignal) e.id List.mem_cons_self rfl

/-- Where a process stands that cannot go on, and how it relates to the other. -/
theorem exists_past_of_stuck (hstuck : Stuck m d) :
    ∃ op, Past p d (m.process d).done op ∧
      (((m.process d).rest = [] ∧ op = p.launch.graph.size) ∨
      (op < p.launch.graph.size ∧
        ∀ op', Past p d.other (m.process d.other).done op' → op' ≤ op ∧ (op' = op →
          ∃ b ss, (m.process d).rest = .barrier b :: ss ∧ b.scope = .full))) := by
  have hlist := list_eq hm d
  cases hstuck with
  | through hs =>
    rw [hs, List.append_nil] at hlist
    exact ⟨_, past_through hlist, .inl ⟨hs, rfl⟩⟩
  | waiting hs hq =>
    rw [hs] at hlist
    obtain ⟨op, hheld⟩ := exists_held hlist rfl
    refine ⟨op, hheld.past, .inr ⟨(mem_members.mp hheld.member).1, fun op' hother => ?_⟩⟩
    have hlt := lt_of_waiting hp hm hs hheld hq hother
    exact ⟨hlt.le, fun heq => absurd heq hlt.ne⟩
  | meeting hs hb =>
    rw [hs] at hlist
    obtain ⟨op, hheld⟩ := exists_held hlist (by simp [Step.isFullBarrier, hb])
    exact ⟨op, hheld.past, .inr ⟨(mem_members.mp hheld.member).1, fun op' hother =>
      ⟨le_of_meeting hm hheld hb hother, fun _ => ⟨_, _, hs, hb⟩⟩⟩⟩

/-- Some process can go on, or both are through. -/
theorem live : m.IsFinal ∨ ∃ m', Move m m' := by
  by_contra hnone
  push Not at hnone
  obtain ⟨hfinal, hmove⟩ := hnone
  have hstuck := stuck_of_no_move (m := m) (by simpa using hmove)
  obtain ⟨a, ha, hcube⟩ := exists_past_of_stuck hp hm (hstuck .cube)
  obtain ⟨c, hc, hvector⟩ := exists_past_of_stuck hp hm (hstuck .vector)
  rcases hcube with ⟨hcube, rfl⟩ | ⟨hlt, hcube⟩ <;> rcases hvector with ⟨hvector, rfl⟩ | ⟨hlt', hvector⟩
  · exact hfinal fun d => by cases d <;> assumption
  · have := (hvector _ ha).1
    omega
  · have := (hcube _ hc).1
    omega
  · have heq := le_antisymm (hcube _ hc).1 (hvector _ ha).1
    obtain ⟨b, cs, hcs, hb⟩ := (hcube _ hc).2 heq
    obtain ⟨b', vs, hvs, hb'⟩ := (hvector _ ha).2 heq.symm
    exact hmove _ (.meet hcs hb hvs hb')

end Run

/-- CORRECT: whatever the interleaving of the two lists, no state that is reached is stuck. A wait takes
its own edge out of the queue, the processes meet at the same barrier of the same operator, and nothing is
left in the queues at the end. -/
theorem two_stream_deadlock_free {l : Launch} {units : Units} {ops : List Operator} {fusion : Bool}
    (h : l.Accepted units ops fusion) (hstatic : ∀ o ∈ ops, o.isDynamic = false) :
    ∃ p, plan l = .ok p ∧ ∀ m, Reachable (streamSteps p) m → m.Sound := by
  have hp : Planned ⟨l, keptEdges l.graph⟩ := ⟨h.linked, rfl⟩
  refine ⟨_, plan_static (h.spec.1.symm ▸ hstatic), fun m hreach => ?_⟩
  have hm := hreach.consistent hp.matched
  exact {
    live := live hp hm
    own := fun _ _ _ _ _ _ _ hrest hq => hm.own hp.matched hrest hq
    together := fun _ _ _ _ hcs hb hvs hb' => ⟨hm.barriers, together hm hcs hb hvs hb'⟩
    drained := hm.drained hp.matched }

/-- An operator on vector units whose event a mixed one receives, with signals in both directions. -/
def relay : Launch :=
  .ofOperators
    [.onStream 0 "first" .aivOnly [1] [], .onStream 1 "mixed" .mixAic11 [] [1],
      .onStream 0 "cube" .aicOnly [] [], .onStream 1 "vector" .aivOnly [] []]
    ⟨.twoStream, [⟨1, 0, 1⟩], [[], [], [], []], [[], [], [], []]⟩ false

theorem relay_sound : relay.Accepted ⟨24, 48⟩ relay.graph.operators true ∧
    ∃ p, plan relay = .ok p ∧ (p.steps .cube).countP Step.isFullBarrier = 1 ∧
      (∀ d, ((streamSteps p).signals d).length = 1) ∧
      ∀ m, Reachable (streamSteps p) m → m.Sound := by
  have h : relay.Accepted ⟨24, 48⟩ relay.graph.operators true := ⟨rfl, _, rfl, rfl⟩
  obtain ⟨p, hplan, hsound⟩ := two_stream_deadlock_free h (by decide)
  have hp : p = ⟨relay, keptEdges relay.graph⟩ :=
    Except.ok.inj (hplan.symm.trans (plan_static (by decide)))
  subst hp
  exact ⟨h, _, hplan, by decide, fun d => by cases d <;> decide, hsound⟩

end TwoStream

end KernelFusion
