import KernelFusion.Graph.EventPlan
import KernelFusion.Proofs.Store

/-!
Where the events that operators name end up in a plan.

A send and a later receive of one id make an inner event, each such pair one of its own. Outer events are
told by the id alone: an id that is an inner event of any two operators is outer to none. So an id that
is used again can be lost, as the second 7 below: it has no receiver behind it, and it is not outer
because of the first.

        a         b         c         d
     send 7    recv 7    send 7
        └─ inner ─┘         └─ neither
-/

namespace KernelFusion

/-- A static operator of one block. -/
def Operator.onStream (stream : UInt32) (name : String) (t : KernelType) (sends recvs : List UInt32) :
    Operator :=
  { (default : Operator) with
    name := name, kernelType := t, blockCount := 1, split := 1, stream := stream
    sendEvents := sends, recvEvents := recvs }

namespace EventPlan

variable {ops : List Operator} {fusion : Bool} {p : EventPlan} {a b : Operator} {id : UInt32}

/-! ### What operators name -/

def Sends (ops : List Operator) (id : UInt32) (i : Nat) : Prop :=
  ∃ a, ops[i]? = some a ∧ id ∈ a.sendEvents

def Receives (ops : List Operator) (id : UInt32) (j : Nat) : Prop :=
  ∃ b, ops[j]? = some b ∧ id ∈ b.recvEvents

/-- Operator `j` receives what operator `i`, before it, sends. -/
structure Matches (ops : List Operator) (id : UInt32) (i j : Nat) : Prop where
  forward : i < j
  sends : Sends ops id i
  receives : Receives ops id j

/-- Some operator receives the id from one before it. -/
def Matched (ops : List Operator) (id : UInt32) : Prop := ∃ i j, Matches ops id i j

/-- A send that nobody behind receives, of an id that is matched elsewhere. -/
def StraySend (ops : List Operator) (id : UInt32) (i : Nat) : Prop :=
  Matched ops id ∧ ∀ j, ¬Matches ops id i j

/-- A receive of what nobody before sends, of an id that is matched elsewhere. -/
def StrayReceive (ops : List Operator) (id : UInt32) (j : Nat) : Prop :=
  Matched ops id ∧ ∀ i, ¬Matches ops id i j

/-! ### Inner events -/

variable {inner : List InnerEvent} {i j k : Nat}

/-- The second operator receives an event of the first. -/
def Shares (a b : Operator) : Prop := ∃ id ∈ a.sendEvents, id ∈ b.recvEvents

/-- An event of two operators leads from one stream to another. -/
def Apart (a b : Operator) : Prop := Shares a b → a.stream ≠ b.stream

/-- The events that a later operator receives from a sender, in the sender's order. -/
def between (x y : Operator × Nat) : List InnerEvent :=
  (x.1.sendEvents.filter fun id => y.1.recvEvents.contains id).map fun id => ⟨id, x.2, y.2⟩

/-- All events from an operator to a later one: by sender, then by receiver. -/
def pairings (ops : List (Operator × Nat)) : List InnerEvent :=
  ops.flatMap fun x => (ops.filter fun y => x.2 < y.2).flatMap (between x)

theorem innerWith_ok_iff :
    innerWith i a j b = .ok inner ↔ Apart a b ∧ inner = between (a, i) (b, j) := by
  have hshares : Shares a b ↔ (a.sendEvents.filter fun id => b.recvEvents.contains id) ≠ [] := by
    simp [Shares, List.filter_eq_nil_iff]
  unfold innerWith between Apart
  rw [hshares]
  cases a.sendEvents.filter fun id => b.recvEvents.contains id with
  | nil => simp [eq_comm]
  | cons id ids => by_cases hstream : a.stream = b.stream <;> simp [hstream, eq_comm]

theorem innerFrom_ok_iff : innerFrom i a k ops = .ok inner ↔
    (∀ b ∈ ops, Apart a b) ∧ inner = (ops.zipIdx k).flatMap (between (a, i)) := by
  induction ops generalizing k inner with
  | nil => simp [innerFrom, eq_comm]
  | cons b ops ih =>
    rw [innerFrom, bind_eq_ok, List.forall_mem_cons, List.zipIdx_cons, List.flatMap_cons]
    constructor
    · rintro ⟨here, hhere, h⟩
      obtain ⟨later, hlater, h⟩ := bind_eq_ok.mp h
      cases Except.ok.inj h
      obtain ⟨hb, rfl⟩ := innerWith_ok_iff.mp hhere
      obtain ⟨hops, rfl⟩ := ih.mp hlater
      exact ⟨⟨hb, hops⟩, rfl⟩
    · rintro ⟨⟨hb, hops⟩, rfl⟩
      exact ⟨_, innerWith_ok_iff.mpr ⟨hb, rfl⟩, bind_eq_ok.mpr ⟨_, ih.mpr ⟨hops, rfl⟩, rfl⟩⟩

/-- The first operator is before all others and behind none. -/
theorem pairings_cons : pairings ((a :: ops).zipIdx k)
    = (ops.zipIdx (k + 1)).flatMap (between (a, k)) ++ pairings (ops.zipIdx (k + 1)) := by
  have hbehind : ∀ x ∈ ops.zipIdx (k + 1), k < x.2 := by
    intro x hx
    have := List.le_snd_of_mem_zipIdx hx
    omega
  have hfirst : (ops.zipIdx (k + 1)).filter (fun y => k < y.2) = ops.zipIdx (k + 1) :=
    List.filter_eq_self.mpr fun y hy => decide_eq_true (hbehind y hy)
  rw [pairings, pairings, List.zipIdx_cons, List.flatMap_cons]
  congr 1
  · simp [hfirst]
  · refine List.flatMap_congr fun x hx => ?_
    have hnot : ¬x.2 < k := Nat.lt_asymm (hbehind x hx)
    rw [List.filter_cons_of_neg (by simpa using hnot)]

theorem innerAll_ok_iff : innerAll k ops = .ok inner ↔
    ops.Pairwise Apart ∧ inner = pairings (ops.zipIdx k) := by
  induction ops generalizing k inner with
  | nil => simp [innerAll, pairings, eq_comm]
  | cons a ops ih =>
    rw [innerAll, bind_eq_ok, List.pairwise_cons, pairings_cons]
    constructor
    · rintro ⟨here, hhere, h⟩
      obtain ⟨later, hlater, h⟩ := bind_eq_ok.mp h
      cases Except.ok.inj h
      obtain ⟨ha, rfl⟩ := innerFrom_ok_iff.mp hhere
      obtain ⟨hops, rfl⟩ := ih.mp hlater
      exact ⟨⟨ha, hops⟩, rfl⟩
    · rintro ⟨⟨ha, hops⟩, rfl⟩
      exact ⟨_, innerFrom_ok_iff.mpr ⟨ha, rfl⟩, bind_eq_ok.mpr ⟨_, ih.mpr ⟨hops, rfl⟩, rfl⟩⟩

theorem mem_pairings : ⟨id, i, j⟩ ∈ pairings ops.zipIdx ↔ Matches ops id i j := by
  simp only [pairings, between, List.mem_flatMap, List.mem_filter, List.mem_map,
    List.mem_zipIdx_iff_getElem?, List.contains_iff_mem, decide_eq_true_eq]
  constructor
  · rintro ⟨⟨a, i'⟩, ha, ⟨b, j'⟩, ⟨hb, hlt⟩, id', ⟨hs, hr⟩, heq⟩
    cases heq
    exact ⟨hlt, ⟨a, ha, hs⟩, ⟨b, hb, hr⟩⟩
  · rintro ⟨hlt, ⟨a, ha, hs⟩, ⟨b, hb, hr⟩⟩
    exact ⟨(a, i), ha, (b, j), ⟨hb, hlt⟩, id, ⟨hs, hr⟩, rfl⟩

/-! ### An accepted plan -/

theorem checkFirst_ok_iff : checkFirst ops = .ok () ↔ ∀ o ∈ ops.head?, o.recvEvents = [] := by
  unfold checkFirst
  cases ops.head? with
  | none => simp
  | some o => by_cases ho : o.recvEvents = [] <;> simp [ho, refuse]

theorem checkLast_ok_iff : checkLast ops = .ok () ↔ ∀ o ∈ ops.getLast?, o.sendEvents = [] := by
  unfold checkLast
  cases ops.getLast? with
  | none => simp
  | some o => by_cases ho : o.sendEvents = [] <;> simp [ho, refuse]

/-- What the parts of a plan are, and what its operators have passed. -/
structure Analyzed (ops : List Operator) (fusion : Bool) (p : EventPlan) : Prop where
  first : checkFirst ops = .ok ()
  last : checkLast ops = .ok ()
  mode : modeOf fusion ops = .ok p.mode
  inner : innerAll 0 ops = .ok p.inner
  outerSends : p.outerSends = ops.map fun o => outer p.inner o.sendEvents
  outerRecvs : p.outerRecvs = ops.map fun o => outer p.inner o.recvEvents

theorem analyzed (h : analyze ops fusion = .ok p) : Analyzed ops fusion p := by
  obtain ⟨_, _, h⟩ := bind_eq_ok.mp h
  obtain ⟨_, hfirst, h⟩ := bind_eq_ok.mp h
  obtain ⟨_, hlast, h⟩ := bind_eq_ok.mp h
  obtain ⟨_, hmode, h⟩ := bind_eq_ok.mp h
  obtain ⟨_, hinner, h⟩ := bind_eq_ok.mp h
  cases Except.ok.inj h
  exact ⟨hfirst, hlast, hmode, hinner, rfl, rfl⟩

namespace Analyzed

/-- The inner events are the pairs of a send and a later receive. -/
theorem mem_inner (h : Analyzed ops fusion p) : ⟨id, i, j⟩ ∈ p.inner ↔ Matches ops id i j := by
  rw [(innerAll_ok_iff.mp h.inner).2, mem_pairings]

/-- Their ends are on two streams. -/
theorem apart (h : Analyzed ops fusion p) (hlt : i < j) (ha : ops[i]? = some a) (hb : ops[j]? = some b) :
    Apart a b := by
  obtain ⟨hi, rfl⟩ := List.getElem?_eq_some_iff.mp ha
  obtain ⟨hj, rfl⟩ := List.getElem?_eq_some_iff.mp hb
  exact List.pairwise_iff_getElem.mp (innerAll_ok_iff.mp h.inner).1 i j hi hj hlt

/-- Inner events go from an operator to a later one. -/
theorem bounds (h : Analyzed ops fusion p) :
    ∀ x ∈ p.inner, x.sender < x.receiver ∧ x.receiver < ops.length := by
  intro x hx
  obtain ⟨hlt, _, b, hb, _⟩ := h.mem_inner.mp hx
  exact ⟨hlt, (List.getElem?_eq_some_iff.mp hb).1⟩

/-- A send to a later operator, as the plan has it. -/
theorem exists_receiver (h : Analyzed ops fusion p) :
    (∃ j, i < j ∧ ⟨id, i, j⟩ ∈ p.inner) ↔ ∃ j, Matches ops id i j := by
  simp only [h.mem_inner]
  exact ⟨fun ⟨j, _, hj⟩ => ⟨j, hj⟩, fun ⟨j, hj⟩ => ⟨j, hj.forward, hj⟩⟩

theorem exists_sender (h : Analyzed ops fusion p) :
    (∃ i, i < j ∧ ⟨id, i, j⟩ ∈ p.inner) ↔ ∃ i, Matches ops id i j := by
  simp only [h.mem_inner]
  exact ⟨fun ⟨i, _, hi⟩ => ⟨i, hi⟩, fun ⟨i, hi⟩ => ⟨i, hi.forward, hi⟩⟩

/-- Outer ids are those that no two operators share. -/
theorem mem_outer (h : Analyzed ops fusion p) {ids : List UInt32} :
    id ∈ outer p.inner ids ↔ id ∈ ids ∧ ¬Matched ops id := by
  have hinner : (p.inner.any fun x => x.event == id) = true ↔ Matched ops id := by
    rw [List.any_eq_true]
    constructor
    · rintro ⟨⟨event, i, j⟩, hx, hevent⟩
      obtain rfl := beq_iff_eq.mp hevent
      exact ⟨i, j, h.mem_inner.mp hx⟩
    · rintro ⟨i, j, hmatch⟩
      exact ⟨⟨id, i, j⟩, h.mem_inner.mpr hmatch, beq_self_eq_true id⟩
  rw [outer, List.mem_filter, ← hinner, Bool.not_eq_true', Bool.not_eq_true]

theorem mem_sends (h : Analyzed ops fusion p) :
    id ∈ p.sends i ↔ Sends ops id i ∧ ¬Matched ops id := by
  rw [sends, h.outerSends, List.getD_eq_getElem?_getD, List.getElem?_map]
  cases hi : ops[i]? with
  | none => simp [Sends, hi]
  | some a => simp [Sends, hi, h.mem_outer]

theorem mem_recvs (h : Analyzed ops fusion p) :
    id ∈ p.recvs j ↔ Receives ops id j ∧ ¬Matched ops id := by
  rw [recvs, h.outerRecvs, List.getD_eq_getElem?_getD, List.getElem?_map]
  cases hj : ops[j]? with
  | none => simp [Receives, hj]
  | some b => simp [Receives, hj, h.mem_outer]

/-- The first operator has no outer events to receive. -/
theorem recvs_bounds (h : Analyzed ops fusion p) (hr : p.recvs j ≠ []) : 0 < j ∧ j < ops.length := by
  obtain ⟨id, hid⟩ := List.exists_mem_of_ne_nil _ hr
  obtain ⟨b, hb, hrecv⟩ := (h.mem_recvs.mp hid).1
  refine ⟨Nat.pos_of_ne_zero ?_, (List.getElem?_eq_some_iff.mp hb).1⟩
  rintro rfl
  have hnone := checkFirst_ok_iff.mp h.first b (by rw [List.head?_eq_getElem?, hb]; rfl)
  simp [hnone] at hrecv

/-- The last operator has no outer events to send. -/
theorem sends_bounds (h : Analyzed ops fusion p) (hs : p.sends i ≠ []) : i + 1 < ops.length := by
  obtain ⟨id, hid⟩ := List.exists_mem_of_ne_nil _ hs
  obtain ⟨a, ha, hsend⟩ := (h.mem_sends.mp hid).1
  have hi : i < ops.length := (List.getElem?_eq_some_iff.mp ha).1
  refine Nat.lt_of_le_of_ne hi fun hlen => ?_
  have hnone := checkLast_ok_iff.mp h.last a
    (by rw [List.getLast?_eq_getElem?, ← hlen, Nat.add_sub_cancel, ha]; rfl)
  simp [hnone] at hsend

end Analyzed

/-- CORRECT: no event is both inner and outer to an operator that names it, and it is one of the two
unless the id is matched elsewhere and not here. -/
theorem event_sorted_iff (h : analyze ops fusion = .ok p) :
    (∀ id i, Sends ops id i →
      ¬((∃ j, i < j ∧ ⟨id, i, j⟩ ∈ p.inner) ∧ id ∈ p.sends i) ∧
      ((∃ j, i < j ∧ ⟨id, i, j⟩ ∈ p.inner) ∨ id ∈ p.sends i ↔ ¬StraySend ops id i)) ∧
    ∀ id j, Receives ops id j →
      ¬((∃ i, i < j ∧ ⟨id, i, j⟩ ∈ p.inner) ∧ id ∈ p.recvs j) ∧
      ((∃ i, i < j ∧ ⟨id, i, j⟩ ∈ p.inner) ∨ id ∈ p.recvs j ↔ ¬StrayReceive ops id j) := by
  have h := analyzed h
  constructor
  · intro id i hs
    rw [h.exists_receiver, h.mem_sends]
    refine ⟨fun ⟨⟨j, hj⟩, _, houter⟩ => houter ⟨i, j, hj⟩, ?_⟩
    simp only [StraySend, hs, true_and, not_and, not_forall, not_not]
    tauto
  · intro id j hr
    rw [h.exists_sender, h.mem_recvs]
    refine ⟨fun ⟨⟨i, hi⟩, _, houter⟩ => houter ⟨i, j, hi⟩, ?_⟩
    simp only [StrayReceive, hr, true_and, not_and, not_forall, not_not]
    tauto

/-- An event that connects two streams, and its id sent once more behind the receiver. -/
def reused : List Operator :=
  [.onStream 0 "a" .aivOnly [7, 9] [], .onStream 1 "b" .aivOnly [] [7], .onStream 1 "c" .aivOnly [7] [],
    .onStream 1 "d" .aivOnly [] []]

def reusedPlan : EventPlan := ⟨.singleStream, [⟨7, 0, 1⟩], [[9], [], [], []], [[], [], [], []]⟩

theorem reused_sorted : analyze reused false = .ok reusedPlan ∧
    (Sends reused 9 0 ∧ 9 ∈ reusedPlan.sends 0 ∧ ¬StraySend reused 9 0) ∧
    Receives reused 7 1 ∧ (∃ i, i < 1 ∧ ⟨7, i, 1⟩ ∈ reusedPlan.inner) ∧ ¬StrayReceive reused 7 1 := by
  have h : analyze reused false = .ok reusedPlan := rfl
  have hs : Sends reused 9 0 := ⟨_, rfl, by decide⟩
  have hr : Receives reused 7 1 := ⟨_, rfl, by decide⟩
  have houter : 9 ∈ reusedPlan.sends 0 := by decide
  have hinner : ∃ i, i < 1 ∧ ⟨7, i, 1⟩ ∈ reusedPlan.inner := ⟨0, by decide, by decide⟩
  exact ⟨h, ⟨hs, houter, ((event_sorted_iff h).1 9 0 hs).2.mp (.inr houter)⟩, hr, hinner,
    ((event_sorted_iff h).2 7 1 hr).2.mp (.inl hinner)⟩

/-- The second send is no event of the plan. -/
theorem reused_send_lost : analyze reused false = .ok reusedPlan ∧ Sends reused 7 2 ∧
    ¬((∃ j, 2 < j ∧ ⟨7, 2, j⟩ ∈ reusedPlan.inner) ∨ 7 ∈ reusedPlan.sends 2) :=
  ⟨rfl, ⟨_, rfl, by decide⟩, by simp [reusedPlan, sends]⟩

end EventPlan

end KernelFusion
