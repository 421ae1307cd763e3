import KernelFusion.Proofs.Connect
import KernelFusion.Proofs.Launch
import KernelFusion.Proofs.Ownership

/-!
Dynamic operators of a single-stream schedule share one set of variables.

Resolving an operator writes its choice over the one before. Loading its instructions and calling it use
what the variables then have, whosever it is.

        resolve 0    preload 0    call 0    release 0    resolve 1    preload 1    call 1    release 1
        └────────── choice of 0 ──────────────────────┘  └────────── choice of 1 ─────────────────────
-/

namespace KernelFusion

open List

/-! ### The shared variables -/

namespace Step

/-- Whether a step writes a choice or may use one. -/
def isChoice : Step → Bool
  | .dynamicResolve _ => true
  | .preload _ => true
  | .invoke _ => true
  | _ => false

/-- The operator whose choice the variables have behind a step. -/
def chosenAfter (chosen : Option Nat) : Step → Option Nat
  | .dynamicResolve op => some op
  | _ => chosen

/-- The operator whose choice a step has to find in the variables. -/
def uses? (l : Launch) : Step → Option Nat
  | .preload op => if (l.operator op).isDynamic then some op else none
  | .invoke op => if (l.operator op).isDynamic then some op else none
  | _ => none

end Step

namespace Schedule

variable {l : Launch} {chosen : Option Nat} {xs ys : List Step} {s : Step} {op : Nat}

/-- The operator whose choice the variables have behind some steps. -/
def chosenBy (xs : List Step) : Option Nat := xs.foldl Step.chosenAfter none

/-- Every step that uses a choice finds that of its own operator, from what the variables have at first. -/
def OwnChoices (l : Launch) : Option Nat → List Step → Prop
  | _, [] => True
  | chosen, s :: ss => (∀ op ∈ s.uses? l, chosen = some op) ∧ OwnChoices l (s.chosenAfter chosen) ss

theorem ownChoices_append : OwnChoices l chosen (xs ++ ys) ↔
    OwnChoices l chosen xs ∧ OwnChoices l (xs.foldl Step.chosenAfter chosen) ys := by
  induction xs generalizing chosen with
  | nil => simp [OwnChoices]
  | cons s ss ih => rw [List.cons_append, OwnChoices, OwnChoices, ih, List.foldl_cons, and_assoc]

theorem ownChoices_of_forall (hkeeps : ∀ s ∈ xs, s.chosenAfter chosen = chosen)
    (huses : ∀ s ∈ xs, ∀ op ∈ s.uses? l, chosen = some op) : OwnChoices l chosen xs := by
  induction xs with
  | nil => trivial
  | cons s ss ih =>
    have hrest := ih (fun s' hs => hkeeps s' (List.mem_cons_of_mem _ hs)) fun s' hs =>
      huses s' (List.mem_cons_of_mem _ hs)
    refine ⟨huses s List.mem_cons_self, ?_⟩
    rwa [hkeeps s List.mem_cons_self]

/-- Other steps leave the variables alone. -/
theorem ownChoices_filter :
    OwnChoices l chosen (xs.filter Step.isChoice) ↔ OwnChoices l chosen xs := by
  induction xs generalizing chosen with
  | nil => rfl
  | cons s ss ih =>
    cases hs : s.isChoice with
    | true => rw [List.filter_cons_of_pos hs, OwnChoices, OwnChoices, ih]
    | false =>
      have huses : s.uses? l = none := by cases s <;> simp_all [Step.isChoice, Step.uses?]
      have hkeeps : s.chosenAfter chosen = chosen := by
        cases s <;> simp_all [Step.isChoice, Step.chosenAfter]
      rw [List.filter_cons_of_neg (by simp [hs]), OwnChoices, huses, hkeeps, ih]
      simp

theorem ownChoices_of_filter (h : xs.filter Step.isChoice = []) : OwnChoices l chosen xs :=
  ownChoices_filter.mp (h ▸ trivial)

theorem OwnChoices.chosenBy_eq (h : OwnChoices l none (xs ++ s :: ys)) (hs : s.uses? l = some op) :
    chosenBy xs = some op :=
  (ownChoices_append.mp h).2.1 op hs

end Schedule

namespace SingleStream

open Schedule

variable {l : Launch} {op : Nat}

/-! ### Choices of a schedule -/

theorem choices_boundarySteps (prev cur : Nat) :
    (boundarySteps l prev cur).filter Step.isChoice = [] := by
  have hinner : ∀ s : Step, s.isChoice = true → s.isInner = true := by
    intro s
    cases s <;> simp [Step.isChoice, Step.isInner]
  rw [← filter_filter_class hinner, inner_boundarySteps, List.filter_nil]

/-- The steps of an operator on the shared variables. -/
def choiceSteps (l : Launch) (op : Nat) : List Step :=
  (if (l.operator op).isDynamic then [.dynamicResolve op] else []) ++ preloadSteps l op ++ [.invoke op]

theorem choices_block (op : Nat) :
    (block l op).filter Step.isChoice = choiceSteps l op := by
  cases hd : (l.operator op).isDynamic <;>
    simp [block, lead, trail, filter_ite, List.filter_cons, Step.isChoice, Step.beginOperator,
      resolveSteps, preloadSteps, releaseSteps, debugSteps, mark, choices_boundarySteps, choiceSteps,
      hd]

/-- Of the dynamic operators only the one that is called is loaded ahead; the next has yet to be resolved. -/
theorem loaded_or_called {s : Step} (hs : s ∈ preloadSteps l op ++ [.invoke op]) :
    ∃ q, (s = .preload q ∨ s = .invoke q) ∧ ((l.operator q).isDynamic = true → q = op) := by
  simp only [preloadSteps, List.mem_append, List.mem_ite_nil_right, List.mem_singleton] at hs
  rcases hs with ⟨_, ⟨_, rfl⟩ | ⟨hnext, rfl⟩⟩ | rfl
  · exact ⟨op, .inl rfl, fun _ => rfl⟩
  · exact ⟨op + 1, .inl rfl, fun hd => by simp [hd] at hnext⟩
  · exact ⟨op, .inr rfl, fun _ => rfl⟩

/-- An operator is resolved before its choice is used. -/
theorem ownChoices_block (op : Nat) (chosen : Option Nat) :
    OwnChoices l chosen (block l op) := by
  have hkeeps : ∀ c, ∀ s ∈ preloadSteps l op ++ [.invoke op], s.chosenAfter c = c := by
    intro c s hs
    obtain ⟨q, rfl | rfl, _⟩ := loaded_or_called hs <;> rfl
  have huses : ∀ s ∈ preloadSteps l op ++ [.invoke op], ∀ q ∈ s.uses? l,
      (l.operator q).isDynamic = true ∧ q = op := by
    intro s hs q hq
    obtain ⟨p, rfl | rfl, hp⟩ := loaded_or_called hs <;>
    · simp only [Step.uses?, Option.mem_def, Option.ite_none_right_eq_some, Option.some.injEq] at hq
      obtain ⟨hd, rfl⟩ := hq
      exact ⟨hd, hp hd⟩
  rw [← ownChoices_filter, choices_block, choiceSteps, List.append_assoc]
  cases hd : (l.operator op).isDynamic with
  | false =>
    refine ownChoices_of_forall (hkeeps chosen) fun s hs q hq => ?_
    obtain ⟨hdynamic, rfl⟩ := huses s hs q hq
    rw [hd] at hdynamic
    cases hdynamic
  | true =>
    refine ⟨by simp [Step.uses?], ownChoices_of_forall (hkeeps (some op)) fun s hs q hq => ?_⟩
    obtain ⟨_, rfl⟩ := huses s hs q hq
    rfl

theorem ownChoices_blocks (ops : List Nat) (chosen : Option Nat) :
    OwnChoices l chosen (ops.flatMap (block l)) := by
  induction ops generalizing chosen with
  | nil => trivial
  | cons op ops ih =>
    rw [List.flatMap_cons, ownChoices_append]
    exact ⟨ownChoices_block op chosen, ih _⟩

theorem ownChoices_steps : OwnChoices l none (steps l) := by
  have hopening : (openingSteps l).filter Step.isChoice = [] := by
    simp [openingSteps, mark, filter_ite, Step.isChoice]
  have hclosing : (closingSteps l).filter Step.isChoice = [] := by
    simp [closingSteps, mark, filter_ite, Step.isChoice]
  rw [steps, ownChoices_append, ownChoices_append]
  exact ⟨⟨ownChoices_of_filter hopening, ownChoices_blocks _ _⟩, ownChoices_of_filter hclosing⟩

/-! ### From a choice to the lock -/

/-- The steps between the choice of a dynamic operator and its call. -/
def approach (l : Launch) (op : Nat) : List Step :=
  (resolveSteps l op).tail ++ preloadSteps l op
    ++ (if op = 0 then [] else boundarySteps l (op - 1) op)
    ++ (if l.options.feedSyncAll then [.feedSyncInit op] else [])
    ++ mark l (profileEvent op) .subOperator true

theorem locks_approach (op : Nat) :
    (approach l op).filter Step.isLock = [] := by
  cases hd : (l.operator op).isDynamic <;>
    simp [approach, resolveSteps, hd, filter_ite, preloadSteps, mark, locks_boundarySteps, Step.isLock]

theorem dynamicResolve_notMem_approach (op other : Nat) :
    .dynamicResolve other ∉ approach l op := fun hmem =>
  List.filter_eq_nil_iff.mp (locks_approach op) _ hmem rfl

theorem exists_full_approach (hd : (l.operator 0).isDynamic = true) :
    ∃ b : Barrier, b.scope = .full ∧ .barrier b ∈ approach l 0 :=
  ⟨.full "reason3: dynamic gen_switch_case_block when no pre op", rfl,
    by simp [approach, resolveSteps, hd]⟩

section Dynamic

variable (hd : (l.operator op).isDynamic = true)
include hd

theorem exists_choice_cut : ∃ (front back : List Step) (b : Barrier), b.scope = .full ∧ steps l = front
    ++ .dynamicResolve op :: (approach l op ++ .invoke op :: .barrier b :: .lockReset op :: back) := by
  obtain ⟨before, after, hids⟩ :=
    List.append_of_mem (List.mem_range.mpr (Launch.lt_size_of_isDynamic hd))
  refine ⟨openingSteps l ++ before.flatMap (block l) ++ [Step.beginOperator (l.operator op).name],
    debugSteps l ++ mark l (profileEvent op) .subOperator false ++ after.flatMap (block l)
      ++ closingSteps l, .full "reason4: all readers of the dynamic ready lock are done", rfl, ?_⟩
  rw [steps, Launch.ids, hids]
  simp [block, lead, trail, approach, resolveSteps, releaseSteps, hd]

theorem count_lock {s : Step} (hs : s ∈ lockSteps l op) : (steps l).count s = 1 := by
  have hop := Launch.lt_size_of_isDynamic hd
  simp only [lockSteps, hd, if_true, List.mem_cons, List.not_mem_nil, or_false] at hs
  rw [List.count, List.countP_eq_length_filter]
  rcases hs with rfl | rfl <;>
  · rw [filter_lockSteps hop (by simp [Step.isLock]) fun q hq => by
      simp [lockSteps, filter_ite, hq]]
    simp [lockSteps, hd]

theorem count_invoke : (steps l).count (.invoke op) = 1 := by
  have hop := mem_invocations (Launch.lt_size_of_isDynamic hd)
  have htest : (· == Step.invoke op) = Step.isInvokeOf op := by
    funext s
    cases s <;> simp [Step.isInvokeOf]
  rw [List.count, List.countP_eq_length_filter, htest, filter_lone_invoke nodup_invocations hop]
  rfl

end Dynamic

/-- CORRECT: in every single-stream schedule, a dynamic operator is resolved, called and released once
each, in this order. None other is resolved between its choice and its call, where the first operator has a
full barrier. Right behind the call all units meet, and then the lock is given back. So whatever uses the
choice of the operator finds it in the shared variables. -/
theorem dynamic_choice_kept (hg : l.graph.WellFormed) (hd : (l.operator op).isDynamic = true) :
    ∃ steps, build l = .ok steps ∧
    steps.count (.dynamicResolve op) = 1 ∧ steps.count (.invoke op) = 1 ∧
    steps.count (.lockReset op) = 1 ∧
    (∃ (front middle back : List Step) (b : Barrier),
      steps = front ++ .dynamicResolve op ::
        (middle ++ .invoke op :: .barrier b :: .lockReset op :: back) ∧
      b.scope = .full ∧ (∀ other, .dynamicResolve other ∉ middle) ∧
      (op = 0 → ∃ b : Barrier, b.scope = .full ∧ .barrier b ∈ middle)) ∧
    ∀ front s back, steps = front ++ s :: back → s.uses? l = some op → chosenBy front = some op := by
  have hlocks : lockSteps l op = [.dynamicResolve op, .lockReset op] := by simp [lockSteps, hd]
  obtain ⟨front, back, b, hb, hcut⟩ := exists_choice_cut hd
  refine ⟨steps l, build_eq hg, count_lock hd (by simp [hlocks]), count_invoke hd,
    count_lock hd (by simp [hlocks]),
    ⟨front, approach l op, back, b, hcut, hb, dynamicResolve_notMem_approach op, ?_⟩, ?_⟩
  · rintro rfl
    exact exists_full_approach hd
  · intro front s back hsteps hs
    have hown := ownChoices_steps (l := l)
    rw [hsteps] at hown
    exact hown.chosenBy_eq hs

/-- Two dynamic operators next to each other, with events in between and instructions loaded ahead. -/
def neighbours : Launch :=
  .ofOperators
    (List.replicate 2 { (default : Operator) with kernelType := .mixAic11, dispatch := .dynamic [] })
    ⟨.singleStream, [], [[1], []], [[], [2]]⟩ true

theorem neighbours_kept : neighbours.graph.WellFormed ∧ (neighbours.operator 1).isDynamic = true ∧
    ∃ steps, build neighbours = .ok steps ∧
      steps.filter Step.isChoice = [.dynamicResolve 0, .preload 0, .invoke 0,
        .dynamicResolve 1, .preload 1, .invoke 1] ∧
      steps.count (.dynamicResolve 1) = 1 ∧
      ∀ front back, steps = front ++ .invoke 1 :: back → chosenBy front = some 1 := by
  have hg : neighbours.graph.WellFormed := ⟨by decide +kernel, by decide +kernel⟩
  have hd : (neighbours.operator 1).isDynamic = true := by decide +kernel
  obtain ⟨list, hbuild, hone, -, -, -, hkept⟩ := dynamic_choice_kept hg hd
  obtain rfl := Except.ok.inj ((build_eq hg).symm.trans hbuild)
  exact ⟨hg, hd, _, hbuild, by decide +kernel, hone,
    fun front back hcut => hkept front _ back hcut (by simp [Step.uses?, hd])⟩

end SingleStream

end KernelFusion
