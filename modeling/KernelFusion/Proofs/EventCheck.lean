import KernelFusion.Proofs.EventPlan

/-!
Which events are accepted, and what plan they give.

Events are checked in several scans: each operator alone, the first and the last one, neighbours, and
every sender with every operator behind it. Only the scan of neighbours picks the mode. What a sender
and a receiver must not do is tested by two of the scans, so that the whole comes down to one condition
on pairs, one on neighbours, and one for each operator.

        own ids ─ first ─ last ─ neighbours ─ pairs
                                     │          │
                                    mode   inner events
-/

namespace KernelFusion.EventPlan

variable {ops : List Operator} {fusion : Bool} {p : EventPlan} {a b : Operator}

/-! ### Operators on their own -/

theorem checkOwn_ok_iff : checkOwn a = .ok () ↔ ∀ id ∈ a.sendEvents, id ∉ a.recvEvents := by
  unfold checkOwn
  cases hfind : a.sendEvents.find? fun id => a.recvEvents.contains id with
  | none => simpa using hfind
  | some id =>
    have hrecv : id ∈ a.recvEvents := by simpa using List.find?_some hfind
    simp only [refuse, reduceCtorEq, false_iff]
    intro hown
    exact hown id (List.mem_of_find?_eq_some hfind) hrecv

/-! ### Pairs of operators -/

/-- Operators on two streams that no event connects. -/
def Loose (a b : Operator) : Prop := a.stream ≠ b.stream ∧ ¬Shares a b

/-- Two operators that stand side by side. -/
def Neighbours (ops : List Operator) (a b : Operator) : Prop := [a, b] <:+: ops

theorem connected_iff : connected a b = true ↔ Shares a b := by
  simp [connected, Shares]

theorem neighbours_cons_cons {x y : Operator} :
    Neighbours (x :: y :: ops) a b ↔ (a = x ∧ b = y) ∨ Neighbours (y :: ops) a b := by
  rw [Neighbours, List.infix_cons_iff, List.cons_prefix_cons, List.cons_prefix_cons]
  simp [Neighbours]

theorem exists_neighbours_cons_cons {R : Operator → Operator → Prop} {x y : Operator} :
    (∃ a b, Neighbours (x :: y :: ops) a b ∧ R a b) ↔
      R x y ∨ ∃ a b, Neighbours (y :: ops) a b ∧ R a b := by
  simp only [neighbours_cons_cons]
  constructor
  · rintro ⟨a, b, ⟨rfl, rfl⟩ | hab, hR⟩
    · exact .inl hR
    · exact .inr ⟨a, b, hab, hR⟩
  · rintro (hR | ⟨a, b, hab, hR⟩)
    · exact ⟨x, y, .inl ⟨rfl, rfl⟩, hR⟩
    · exact ⟨a, b, .inr hab, hR⟩

theorem forall_neighbours_cons_cons {R : Operator → Operator → Prop} {x y : Operator} :
    (∀ a b, Neighbours (x :: y :: ops) a b → R a b) ↔
      R x y ∧ ∀ a b, Neighbours (y :: ops) a b → R a b := by
  simp only [neighbours_cons_cons]
  constructor
  · intro h
    exact ⟨h x y (.inl ⟨rfl, rfl⟩), fun a b hab => h a b (.inr hab)⟩
  · rintro ⟨hxy, hrest⟩ a b (⟨rfl, rfl⟩ | hab)
    · exact hxy
    · exact hrest a b hab

theorem not_neighbours_of_length (h : ops.length ≤ 1) : ¬Neighbours ops a b := by
  intro hab
  have hlength := hab.length_le
  simp only [List.length_cons, List.length_nil] at hlength
  omega

/-! ### Neighbours and the mode -/

theorem exists_mode (loose : Prop) : ∃ m : ScheduleMode, m = .twoStream ↔ loose := by
  by_cases h : loose
  · exact ⟨.twoStream, by simp [h]⟩
  · exact ⟨.singleStream, by simp [h]⟩

theorem mode_eq {m n : ScheduleMode} (h : m = .twoStream ↔ n = .twoStream) : m = n := by
  cases m <;> cases n <;> simp_all

theorem mode_or {m n : ScheduleMode} :
    (if m = .twoStream then .twoStream else n) = .twoStream ↔ m = .twoStream ∨ n = .twoStream := by
  cases m <;> simp

theorem checkNeighbours_ok_iff {m : ScheduleMode} : checkNeighbours fusion a b = .ok m ↔
    Apart a b ∧ (Loose a b → fusion = true) ∧ (m = .twoStream ↔ Loose a b) := by
  unfold checkNeighbours Apart Loose
  rw [← connected_iff]
  by_cases hstream : a.stream = b.stream <;> cases connected a b <;> cases fusion <;>
    cases m <;> simp [hstream]

/-- Neighbours pass if each pair does; the mode is that of two streams if one pair is loose. -/
theorem modeOf_ok_iff {m : ScheduleMode} : modeOf fusion ops = .ok m ↔
    (∀ a b, Neighbours ops a b → Apart a b) ∧
    ((∃ a b, Neighbours ops a b ∧ Loose a b) → fusion = true) ∧
    (m = .twoStream ↔ ∃ a b, Neighbours ops a b ∧ Loose a b) := by
  fun_induction modeOf fusion ops generalizing m with
  | case1 a b rest ih =>
    rw [forall_neighbours_cons_cons, exists_neighbours_cons_cons]
    constructor
    · intro h
      obtain ⟨here, hhere, h⟩ := bind_eq_ok.mp h
      obtain ⟨later, hlater, h⟩ := bind_eq_ok.mp h
      cases Except.ok.inj h
      obtain ⟨hapart, hfusion, hhere⟩ := checkNeighbours_ok_iff.mp hhere
      obtain ⟨haparts, hfusions, hlater⟩ := ih.mp hlater
      refine ⟨⟨hapart, haparts⟩, fun h => h.elim hfusion hfusions, ?_⟩
      rw [mode_or, hhere, hlater]
    · -- The modes of this pair and of the rest are not given; each is the one that its pairs call for.
      rintro ⟨⟨hapart, haparts⟩, hfusion, hmode⟩
      obtain ⟨here, hhere⟩ := exists_mode (Loose a b)
      obtain ⟨later, hlater⟩ := exists_mode (∃ x y, Neighbours (b :: rest) x y ∧ Loose x y)
      refine bind_eq_ok.mpr ⟨here, checkNeighbours_ok_iff.mpr ⟨hapart, fun h => hfusion (.inl h), hhere⟩,
        bind_eq_ok.mpr ⟨later, ih.mpr ⟨haparts, fun h => hfusion (.inr h), hlater⟩, ?_⟩⟩
      refine congrArg Except.ok (mode_eq ?_)
      rw [mode_or, hhere, hlater, hmode]
  | case2 ops hshort =>
    have hlength : ops.length ≤ 1 := by
      rcases ops with _ | ⟨x, _ | ⟨y, rest⟩⟩
      · simp
      · simp
      · exact absurd rfl (hshort x y rest)
    cases m <;> simp [not_neighbours_of_length hlength]

/-! ### All checks together -/

theorem apart_of_neighbours (h : ops.Pairwise Apart) (hab : Neighbours ops a b) : Apart a b := by
  have hpair : [a, b].Pairwise Apart := h.sublist hab.sublist
  simpa using hpair

theorem analyze_eq_ok : analyze ops fusion = .ok p ↔
    (∀ o ∈ ops, checkOwn o = .ok ()) ∧ Analyzed ops fusion p := by
  constructor
  · intro h
    obtain ⟨_, hown, _⟩ := bind_eq_ok.mp h
    exact ⟨forM_ok_iff.mp hown, analyzed h⟩
  · rintro ⟨hown, hfirst, hlast, hmode, hinner, hsends, hrecvs⟩
    refine bind_eq_ok.mpr ⟨(), forM_ok_iff.mpr hown, ?_⟩
    refine bind_eq_ok.mpr ⟨(), hfirst, bind_eq_ok.mpr ⟨(), hlast, ?_⟩⟩
    refine bind_eq_ok.mpr ⟨_, hmode, bind_eq_ok.mpr ⟨_, hinner, ?_⟩⟩
    rw [← hsends, ← hrecvs]
    rfl

/-- What is asked of the events of a request. -/
structure ValidEvents (ops : List Operator) (fusion : Bool) : Prop where
  own : ∀ o ∈ ops, ∀ id ∈ o.sendEvents, id ∉ o.recvEvents
  first : ∀ o ∈ ops.head?, o.recvEvents = []
  last : ∀ o ∈ ops.getLast?, o.sendEvents = []
  /-- an event of an operator and a later one leads from one stream to another -/
  apart : ops.Pairwise Apart
  /-- neighbours on two streams are connected, unless two streams are allowed -/
  connected : fusion = true ∨ ∀ a b, Neighbours ops a b → a.stream ≠ b.stream → Shares a b

theorem ValidEvents.of_checks (hown : ∀ o ∈ ops, checkOwn o = .ok ()) (h : Analyzed ops fusion p) :
    ValidEvents ops fusion where
  own o ho := checkOwn_ok_iff.mp (hown o ho)
  first := checkFirst_ok_iff.mp h.first
  last := checkLast_ok_iff.mp h.last
  apart := (innerAll_ok_iff.mp h.inner).1
  connected := by
    obtain ⟨_, hfusion, _⟩ := modeOf_ok_iff.mp h.mode
    by_contra hnone
    push Not at hnone
    obtain ⟨hoff, a, b, hab, hloose⟩ := hnone
    exact hoff (hfusion ⟨a, b, hab, hloose⟩)

/-- Events that are valid pass every check. -/
theorem ValidEvents.exists_plan (h : ValidEvents ops fusion) : ∃ p, analyze ops fusion = .ok p := by
  obtain ⟨m, hm⟩ := exists_mode (∃ a b, Neighbours ops a b ∧ Loose a b)
  have hfusion : (∃ a b, Neighbours ops a b ∧ Loose a b) → fusion = true := by
    rintro ⟨a, b, hab, hstream, hshares⟩
    rcases h.connected with hon | hall
    · exact hon
    · exact absurd (hall a b hab hstream) hshares
  -- The scan of neighbours asks nothing of their events that the scan of all pairs does not.
  have hmode : modeOf fusion ops = .ok m :=
    modeOf_ok_iff.mpr ⟨fun a b hab => apart_of_neighbours h.apart hab, hfusion, hm⟩
  have hinner : innerAll 0 ops = .ok (pairings ops.zipIdx) := innerAll_ok_iff.mpr ⟨h.apart, rfl⟩
  have hplan : Analyzed ops fusion ⟨m, pairings ops.zipIdx,
      ops.map fun o => outer (pairings ops.zipIdx) o.sendEvents,
      ops.map fun o => outer (pairings ops.zipIdx) o.recvEvents⟩ :=
    ⟨checkFirst_ok_iff.mpr h.first, checkLast_ok_iff.mpr h.last, hmode, hinner, rfl, rfl⟩
  exact ⟨_, analyze_eq_ok.mpr ⟨fun o ho => checkOwn_ok_iff.mpr (h.own o ho), hplan⟩⟩

/-- CORRECT: events are accepted exactly if they are valid. Then the mode is that of two streams exactly
if some neighbours on two streams are not connected, and the inner events are all sends with a later
receive of the same id, by sender, then by receiver, then in the order in which they are sent. -/
theorem analyze_accepts_iff (ops : List Operator) (fusion : Bool) :
    ((∃ p, analyze ops fusion = .ok p) ↔ ValidEvents ops fusion) ∧
    ∀ p, analyze ops fusion = .ok p →
      (p.mode = .twoStream ↔ ∃ a b, Neighbours ops a b ∧ a.stream ≠ b.stream ∧ ¬Shares a b) ∧
      (∀ id i j, ⟨id, i, j⟩ ∈ p.inner ↔ Matches ops id i j) ∧ p.inner = pairings ops.zipIdx := by
  constructor
  · constructor
    · rintro ⟨p, hp⟩
      obtain ⟨hown, hplan⟩ := analyze_eq_ok.mp hp
      exact .of_checks hown hplan
    · exact ValidEvents.exists_plan
  · intro p hp
    have hplan := analyzed hp
    exact ⟨(modeOf_ok_iff.mp hplan.mode).2.2, fun id i j => hplan.mem_inner,
      (innerAll_ok_iff.mp hplan.inner).2⟩

/-- A sender whose events go to two streams, which nothing connects with each other. -/
def scattered : List Operator :=
  [.onStream 0 "a" .aivOnly [8, 7] [], .onStream 1 "b" .aicOnly [] [7],
    .onStream 2 "c" .aivOnly [] [7, 8]]

theorem scattered_accepted : ∃ p, analyze scattered true = .ok p ∧ ValidEvents scattered true ∧
    p.mode = .twoStream ∧ p.inner = [⟨7, 0, 1⟩, ⟨8, 0, 2⟩, ⟨7, 0, 2⟩] := by
  obtain ⟨p, hp⟩ : ∃ p, analyze scattered true = .ok p := ⟨_, rfl⟩
  obtain ⟨hiff, hplan⟩ := analyze_accepts_iff scattered true
  obtain ⟨hmode, _, hinner⟩ := hplan p hp
  have hswitch : ∃ a b, Neighbours scattered a b ∧ a.stream ≠ b.stream ∧ ¬Shares a b :=
    ⟨_, _, List.suffix_cons _ _ |>.isInfix, by decide, by simp [Shares, Operator.onStream]⟩
  exact ⟨p, hp, hiff.mp ⟨p, hp⟩, hmode.mpr hswitch, hinner.trans (by decide)⟩

end KernelFusion.EventPlan
