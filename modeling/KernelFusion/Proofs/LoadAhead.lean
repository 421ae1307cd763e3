import KernelFusion.Proofs.DynamicState
import KernelFusion.Proofs.TwoStreamEvents

/-!
Instructions that are loaded function by function.

An operator is loaded in front of the call before its own, so that its instructions arrive during that
call. The first operator of a list has no call before it. A dynamic one is not yet chosen there, and is
loaded behind its choice instead. Either way the loads come in the order of the calls:

        0  static                  load 0   load 1   call 0
        1  static                                    call 1
        2  dynamic     resolve 2   load 2   load 3   call 2
        3  static                                    call 3
-/

namespace KernelFusion

open List

/-- The operator that a step loads. -/
def Step.loaded? : Step → Option Nat
  | .preload op => some op
  | _ => none

namespace Schedule

variable {steps : List Step} {op : Nat}

/-- The operators that a schedule loads, in order. -/
def loads (steps : List Step) : List Nat := steps.filterMap Step.loaded?

/-- An operator is loaded once, in front of its only call. -/
structure LoadedOnce (steps : List Step) (op : Nat) : Prop where
  load : steps.count (.preload op) = 1
  call : steps.count (.invoke op) = 1
  order : [.preload op, .invoke op] <+ steps

/-- Steps of a kind are counted by what they are about. -/
theorem count_of_projection {f : Step → Option Nat} {make : Nat → Step}
    (hf : ∀ s op, f s = some op ↔ s = make op) : steps.count (make op) = (steps.filterMap f).count op := by
  induction steps with
  | nil => rfl
  | cons s ss ih =>
    by_cases hs : s = make op
    · rw [hs, List.count_cons_self, ih, List.filterMap_cons_some ((hf _ op).mpr rfl),
        List.count_cons_self]
    · rw [List.count_cons_of_ne hs, ih]
      cases hother : f s with
      | none => rw [List.filterMap_cons_none hother]
      | some q =>
        have hne : q ≠ op := fun h => hs ((hf s op).mp (h ▸ hother))
        rw [List.filterMap_cons_some hother, List.count_cons_of_ne hne]

theorem count_preload : steps.count (.preload op) = (loads steps).count op :=
  count_of_projection fun s op => by cases s <;> simp [Step.loaded?]

theorem count_invoke : steps.count (.invoke op) = (invocations steps).count op :=
  count_of_projection fun s op => by cases s <;> simp [Step.invoked?]

/-- Other steps load nothing. -/
theorem loads_choices (steps : List Step) : loads (steps.filter Step.isChoice) = loads steps :=
  filterMap_filter_class (fun s hs => by cases s <;> simp_all [Step.isChoice, Step.loaded?]) steps

theorem loads_append (xs ys : List Step) : loads (xs ++ ys) = loads xs ++ loads ys :=
  List.filterMap_append

/-- Where operators are loaded and called once each, the order is all that is left to see. -/
theorem LoadedOnce.of_order {ops : List Nat} (hops : ops.Nodup) (hop : op ∈ ops)
    (hloads : loads steps = ops) (hcalls : invocations steps = ops)
    (horder : [.preload op, .invoke op] <+ steps) : LoadedOnce steps op where
  load := by rw [count_preload, hloads, List.count_eq_one_of_mem hops hop]
  call := by rw [count_invoke, hcalls, List.count_eq_one_of_mem hops hop]
  order := horder

end Schedule

open Schedule

/-! ### One stream -/

namespace SingleStream

variable {l : Launch} {op : Nat}

theorem choices_steps :
    (steps l).filter Step.isChoice = l.ids.flatMap (choiceSteps l) := by
  have hopening : (openingSteps l).filter Step.isChoice = [] := by
    simp [openingSteps, mark, filter_ite, Step.isChoice]
  have hclosing : (closingSteps l).filter Step.isChoice = [] := by
    simp [closingSteps, mark, filter_ite, Step.isChoice]
  rw [steps, List.filter_append, List.filter_append, hopening, hclosing, List.nil_append,
    List.append_nil, List.filter_flatMap]
  exact List.flatMap_congr fun op _ => choices_block op

/-- What neighbours do in order is done in order in the schedule. -/
theorem sublist_steps (ops : List Nat) {xs : List Step}
    (hops : ops.Pairwise (· < ·)) (hsize : ∀ op ∈ ops, op < l.graph.size)
    (hxs : xs <+ ops.flatMap (choiceSteps l)) : xs <+ steps l := by
  have hids : ops <+ l.ids := sublist_of_increasing hops List.pairwise_lt_range fun op hop =>
    List.mem_range.mpr (hsize op hop)
  calc xs <+ ops.flatMap (choiceSteps l) := hxs
    _ <+ l.ids.flatMap (choiceSteps l) := List.Sublist.flatMap hids _
    _ = (steps l).filter Step.isChoice := (choices_steps).symm
    _ <+ steps l := List.filter_sublist

/-- What an operator loads of itself. -/
def ownLoads (l : Launch) (op : Nat) : List Nat :=
  if (l.operator op).isDynamic || op = 0 then [op] else []

/-- What is loaded of an operator by the one before it. -/
def earlyLoads (l : Launch) (op : Nat) : List Nat :=
  if 0 < op ∧ op < l.graph.size ∧ (l.operator op).isDynamic = false then [op] else []

/-- Every operator is loaded by exactly one of the two. -/
theorem earlyLoads_append_ownLoads (hop : op < l.graph.size) :
    earlyLoads l op ++ ownLoads l op = [op] := by
  unfold earlyLoads ownLoads
  cases hd : (l.operator op).isDynamic with
  | true => simp
  | false =>
    rcases Nat.eq_zero_or_pos op with rfl | hpos
    · simp
    · simp [hpos, hop, Nat.ne_of_gt hpos]

section PerFunction

variable (hp : l.options.preload = .perFunc)
include hp

theorem preloadSteps_eq (op : Nat) : preloadSteps l op
    = (ownLoads l op).map Step.preload ++ (earlyLoads l (op + 1)).map Step.preload := by
  have hearly : earlyLoads l (op + 1)
      = if op + 1 < l.graph.size && !(l.operator (op + 1)).isDynamic then [op + 1] else [] := by
    simp [earlyLoads]
  rw [preloadSteps, if_pos hp, hearly, ownLoads]
  split <;> split <;> rfl

theorem loads_choiceSteps (op : Nat) :
    loads (choiceSteps l op) = ownLoads l op ++ earlyLoads l (op + 1) := by
  have hmap : ∀ ops : List Nat, loads (ops.map Step.preload) = ops := fun ops => by
    rw [loads, List.filterMap_map]
    exact List.filterMap_some
  have hresolve : loads (if (l.operator op).isDynamic then [.dynamicResolve op] else []) = [] := by
    simp [loads, filterMap_ite, Step.loaded?]
  rw [choiceSteps, loads_append, loads_append, hresolve, preloadSteps_eq hp, loads_append, hmap, hmap]
  simp [loads, Step.loaded?]

/-- In front of an operator all operators before it are loaded, and this one if it was known. -/
theorem loads_front {n : Nat} (hn : n ≤ l.graph.size) :
    (List.range n).flatMap (fun op => loads (choiceSteps l op)) = List.range n ++ earlyLoads l n := by
  induction n with
  | zero => simp [earlyLoads]
  | succ n ih =>
    -- what was loaded early of `n` and what `n` loads of itself are together `n`, once
    rw [List.range_succ, List.flatMap_append, ih (by omega), List.flatMap_singleton,
      loads_choiceSteps hp, List.append_assoc, ← List.append_assoc (earlyLoads l n),
      earlyLoads_append_ownLoads hn, List.append_assoc]

/-- Operators are loaded once each, in the order in which they are called. -/
theorem loads_steps : loads (steps l) = l.ids := by
  have hend : earlyLoads l l.graph.size = [] := by simp [earlyLoads]
  rw [← loads_choices, choices_steps, loads, List.filterMap_flatMap]
  exact (loads_front hp le_rfl).trans (by rw [hend, List.append_nil, Launch.ids])

theorem order_dynamic (hd : (l.operator op).isDynamic = true) :
    [.dynamicResolve op, .preload op, .invoke op] <+ steps l := by
  refine sublist_steps [op] (List.pairwise_singleton _ _) ?_ ?_
  · simpa using Launch.lt_size_of_isDynamic hd
  · simp [choiceSteps, preloadSteps_eq hp, ownLoads, hd]

theorem order_first (hsize : 0 < l.graph.size) :
    [.preload 0, .invoke 0] <+ steps l := by
  refine sublist_steps [0] (List.pairwise_singleton _ _) (by simpa using hsize) ?_
  rw [List.flatMap_singleton, choiceSteps, preloadSteps_eq hp, List.append_assoc, List.append_assoc]
  refine List.Sublist.trans ?_ (List.sublist_append_right _ _)
  simp [ownLoads]

/-- A static operator is loaded before the call in front of its own. -/
theorem order_static (hop : op + 1 < l.graph.size)
    (hd : (l.operator (op + 1)).isDynamic = false) :
    [.preload (op + 1), .invoke op, .invoke (op + 1)] <+ steps l := by
  have hload : [.preload (op + 1), .invoke op] <+ choiceSteps l op := by
    have hearly : earlyLoads l (op + 1) = [op + 1] := by simp [earlyLoads, hop, hd]
    rw [choiceSteps, preloadSteps_eq hp, hearly, ← List.append_assoc, List.append_assoc]
    exact List.sublist_append_right _ _
  have hcall : [.invoke (op + 1)] <+ choiceSteps l (op + 1) := List.sublist_append_right _ _
  refine sublist_steps [op, op + 1] (by simp) ?_ ?_
  · simp only [List.forall_mem_cons, List.not_mem_nil, false_imp_iff, implies_true, and_true]
    omega
  · simpa using hload.append hcall

theorem loadedOnce (hop : op < l.graph.size) : LoadedOnce (steps l) op := by
  refine .of_order List.nodup_range (List.mem_range.mpr hop) (loads_steps hp)
    (invocations_steps) ?_
  cases hd : (l.operator op).isDynamic with
  | true => exact (List.sublist_cons_self _ _).trans (order_dynamic hp hd)
  | false =>
    cases op with
    | zero => exact order_first hp hop
    | succ op =>
      exact ((List.sublist_cons_self _ _).cons_cons _).trans (order_static hp hop hd)

end PerFunction

end SingleStream

/-! ### Two streams -/

namespace TwoStream

variable {p : TwoStream} {d : Domain} {op : Nat}

theorem choices_sendSteps (op : Nat) : (p.sendSteps op d).filter Step.isChoice = [] := by
  have hsignals : ∀ es : List Edge, (es.flatMap (p.signalSteps op d)).filter Step.isChoice = [] := by
    intro es
    rw [List.filter_flatMap, List.flatMap_eq_nil_iff]
    exact fun e _ => rfl
  simp [sendSteps, filter_ite, hsignals, guardSteps, Step.isChoice]

theorem choices_eventSteps : (p.eventSteps op d).filter Step.isChoice = [] := by
  have hbarrier : (eventBarrier (p.launch.operator op)).filter Step.isChoice = [] := by
    unfold eventBarrier
    split <;> rfl
  simp [eventSteps, filter_ite, hbarrier, Step.isChoice]

theorem choices_boundary (prev : Option Nat) : (p.boundary prev op d).filter Step.isChoice = [] := by
  have hwaits : (p.recvSteps op d).filter Step.isChoice = [] := by
    rw [recvSteps, List.filter_flatMap, List.flatMap_eq_nil_iff]
    exact fun e _ => rfl
  cases prev <;>
    simp [boundary, hwaits, choices_sendSteps, choices_eventSteps, filter_ite, Step.isChoice]

theorem choices_operatorSteps (prev next : Option Nat) :
    (p.operatorSteps d prev op next).filter Step.isChoice
      = p.preloadSteps prev op next ++ [.invoke op] := by
  have hpreload : (p.preloadSteps prev op next).filter Step.isChoice = p.preloadSteps prev op next := by
    cases next <;> simp [preloadSteps, filter_ite, List.filter_cons, Step.isChoice]
  simp [operatorSteps, hpreload, choices_boundary, filter_ite, List.filter_cons, finalSteps,
    choices_sendSteps, debugSteps, mark, Step.beginOperator, Step.isChoice]

/-- The load of the first operator of a list. -/
def firstLoad (ops : List Nat) : List Step := (ops.head?.map Step.preload).toList

/-- Loads and calls of operators that follow another one: each call behind the load of the next. -/
def loadsAndCalls : List Nat → List Step
  | [] => []
  | op :: ops => firstLoad ops ++ .invoke op :: loadsAndCalls ops

theorem loads_loadsAndCalls (ops : List Nat) : loads (firstLoad ops ++ loadsAndCalls ops) = ops := by
  have hfirst : ∀ ops, loads (firstLoad ops) = ops.head?.toList := by
    intro ops
    cases ops <;> rfl
  induction ops with
  | nil => rfl
  | cons op ops ih =>
    have hrest : loads (loadsAndCalls (op :: ops)) = loads (firstLoad ops ++ loadsAndCalls ops) := by
      simp [loadsAndCalls, loads, List.filterMap_cons, Step.loaded?]
    rw [loads_append, hrest, ih, hfirst]
    rfl

/-- The operators behind the first ones keep their order. -/
theorem loadsAndCalls_append (front ops : List Nat) :
    loadsAndCalls ops <+ loadsAndCalls (front ++ ops) := by
  induction front with
  | nil => exact List.Sublist.refl _
  | cons op front ih =>
    exact ih.trans ((List.sublist_cons_self _ _).trans (List.sublist_append_right _ _))

section PerFunction

variable (hp : p.launch.options.preload = .perFunc)
include hp

theorem choices_operatorsSteps (prev : Option Nat) (ops : List Nat) :
    (p.operatorsSteps d prev ops).filter Step.isChoice
      = (if prev.isNone then firstLoad ops else []) ++ loadsAndCalls ops := by
  -- only the first operator of a stream loads itself: `prev` says whether one has gone before
  induction ops generalizing prev with
  | nil => cases prev <;> rfl
  | cons op ops ih =>
    have hloads : p.preloadSteps prev op ops.head?
        = (if prev.isNone then [.preload op] else []) ++ firstLoad ops := by
      cases ops <;> simp [preloadSteps, hp, firstLoad]
    rw [operatorsSteps, List.filter_append, choices_operatorSteps, ih, hloads]
    cases prev <;> simp [firstLoad, loadsAndCalls]

theorem choices_steps : (p.steps d).filter Step.isChoice
    = firstLoad (p.members d) ++ loadsAndCalls (p.members d) := by
  have hnone : ¬p.launch.options.preload = .whole := by simp [hp]
  rw [steps, if_neg hnone, List.nil_append, choices_operatorsSteps hp]
  rfl

theorem loads_steps : loads (p.steps d) = p.members d := by
  rw [← loads_choices, choices_steps hp, loads_loadsAndCalls]

/-- An operator is loaded before the call in front of its own. -/
theorem order_ahead {q : Nat} {front back : List Nat} (hmembers : p.members d = front ++ q :: op :: back) :
    [.preload op, .invoke q, .invoke op] <+ p.steps d := by
  have hcalls : [.preload op, .invoke q, .invoke op] <+ loadsAndCalls (q :: op :: back) :=
    (((List.singleton_sublist.mpr (List.mem_append_right _ List.mem_cons_self)).cons_cons _).cons_cons _)
  calc [.preload op, .invoke q, .invoke op]
      <+ loadsAndCalls (q :: op :: back) := hcalls
    _ <+ loadsAndCalls (front ++ q :: op :: back) := loadsAndCalls_append _ _
    _ <+ firstLoad (p.members d) ++ loadsAndCalls (p.members d) :=
      hmembers ▸ List.sublist_append_right _ _
    _ = (p.steps d).filter Step.isChoice := (choices_steps hp).symm
    _ <+ p.steps d := List.filter_sublist

theorem order_first {back : List Nat} (hmembers : p.members d = op :: back) :
    [.preload op, .invoke op] <+ p.steps d := by
  have hcall : [.invoke op] <+ loadsAndCalls (op :: back) :=
    List.singleton_sublist.mpr (List.mem_append_right _ List.mem_cons_self)
  calc [.preload op, .invoke op]
      <+ firstLoad (p.members d) ++ loadsAndCalls (p.members d) := by
        rw [hmembers]
        exact hcall.cons_cons _
    _ = (p.steps d).filter Step.isChoice := (choices_steps hp).symm
    _ <+ p.steps d := List.filter_sublist

theorem loadedOnce (hop : op ∈ p.members d) : LoadedOnce (p.steps d) op := by
  refine .of_order members_increasing.nodup hop (loads_steps hp) invocations_steps ?_
  obtain ⟨front, back, hmembers⟩ := List.append_of_mem hop
  rcases List.eq_nil_or_concat front with rfl | ⟨front, q, rfl⟩
  · exact order_first hp hmembers
  · rw [List.concat_eq_append, List.append_assoc] at hmembers
    exact ((List.sublist_cons_self _ _).cons_cons _).trans (order_ahead hp hmembers)

end PerFunction

end TwoStream

/-! ### Both modes -/

namespace Launch

variable {l : Launch} {body : KernelBody} {stats : SyncStats}

/-- CORRECT: where functions are loaded one by one, every operator of a schedule is loaded once, before its
call. On one stream a static operator other than the first is loaded before the call in front of its own,
and a dynamic one behind its choice. On two streams every operator of a domain but the first is loaded
before the call in front of its own. -/
theorem loads_once_ahead {r : Request} (hl : Generator.launch r = .ok l)
    (hschedule : Generator.schedule l = .ok (body, stats)) (hp : l.options.preload = .perFunc) :
    (∀ steps, body = .singleStream steps → ∀ op < l.graph.size, LoadedOnce steps op ∧
      ((l.operator op).isDynamic = true →
        steps.count (.dynamicResolve op) = 1 ∧ [.dynamicResolve op, .preload op] <+ steps) ∧
      ((l.operator op).isDynamic = false → 0 < op → [.preload op, .invoke (op - 1)] <+ steps)) ∧
    ∀ streams, body = .twoStream streams → ∃ p, TwoStream.plan l = .ok p ∧ ∀ d,
      (∀ op ∈ p.members d, LoadedOnce (streams.get d) op) ∧
      ∀ front q op back, p.members d = front ++ q :: op :: back →
        [.preload op, .invoke q] <+ streams.get d := by
  obtain ⟨units, ops, fusion, haccepted, _⟩ := Generator.launch_accepted hl
  have hg : l.graph.WellFormed := haccepted.linked.toWellFormed
  cases hmode : l.events.mode with
  | singleStream =>
    obtain rfl := schedule_singleStream hg hmode hschedule
    refine ⟨fun steps hsteps op hop => ?_, by simp⟩
    obtain rfl := KernelBody.singleStream.inj hsteps
    refine ⟨SingleStream.loadedOnce hp hop, fun hd => ⟨?_, ?_⟩, fun hd hpos => ?_⟩
    · exact SingleStream.count_lock hd (by simp [SingleStream.lockSteps, hd])
    · exact (List.sublist_append_left [_, _] [_]).trans (SingleStream.order_dynamic hp hd)
    · obtain ⟨op, rfl⟩ := Nat.exists_eq_add_of_lt hpos
      rw [Nat.zero_add] at hop hd ⊢
      exact (List.sublist_append_left [_, _] [_]).trans (SingleStream.order_static hp hop hd)
  | twoStream =>
    have hstatic := static_of_schedule hmode hschedule
    obtain rfl := schedule_twoStream hmode hschedule
    refine ⟨by simp, fun streams hstreams => ⟨_, TwoStream.plan_static hstatic, fun d => ?_⟩⟩
    obtain rfl := KernelBody.twoStream.inj hstreams
    have hget : (Generator.streamSteps ⟨l, TwoStream.keptEdges l.graph⟩).get d
        = TwoStream.steps ⟨l, TwoStream.keptEdges l.graph⟩ d := by
      cases d <;> rfl
    rw [hget]
    refine ⟨fun op hop => TwoStream.loadedOnce hp hop, fun front q op back hmembers => ?_⟩
    exact (List.sublist_append_left [_, _] [_]).trans (TwoStream.order_ahead hp hmembers)

/-- A dynamic operator between two static ones. -/
def alternatingRequest : Request :=
  .ofOperators "" [.onStream 0 "first" .aivOnly [] [],
    .choosing "second" .aicOnly [⟨3, KernelType.aicOnly.name, ⟨none, some "second_cube"⟩⟩],
    .onStream 0 "third" .mixAic11 [] []]

/-- The dynamic operator is loaded behind its choice, and the one behind it before its call. Of two
operators of the cube domain on two streams, the second is loaded before the call of the first. -/
theorem alternatingRequest_loaded :
    (∃ l steps stats, Generator.launch alternatingRequest = .ok l ∧
      Generator.schedule l = .ok (.singleStream steps, stats) ∧ (l.operator 1).isDynamic = true ∧
      [.dynamicResolve 1, .preload 1] <+ steps ∧ LoadedOnce steps 2 ∧
      [.preload 2, .invoke 1] <+ steps) ∧
    ∃ l streams stats, Generator.launch handoffRequest = .ok l ∧
      Generator.schedule l = .ok (.twoStream streams, stats) ∧
      LoadedOnce (streams.get .cube) 0 ∧ [.preload 1, .invoke 0] <+ streams.get .cube := by
  constructor
  · obtain ⟨l, body, stats, hl, hschedule, htest⟩ : ∃ l body stats,
        Generator.launch alternatingRequest = .ok l ∧ Generator.schedule l = .ok (body, stats) ∧
        decide (l.events.mode = .singleStream ∧ l.options.preload = .perFunc ∧ l.graph.size = 3 ∧
          (l.operator 1).isDynamic = true ∧ (l.operator 2).isDynamic = false) = true :=
      Generator.exists_schedule_of_test (by decide +kernel)
    obtain ⟨hmode, hp, hsize, hdynamic, hstatic⟩ := of_decide_eq_true htest
    have hbody := schedule_singleStream (Generator.launch_wellFormed hl) hmode hschedule
    have hloads := (loads_once_ahead hl hschedule hp).1 _ hbody
    obtain ⟨-, hsecond, -⟩ := hloads 1 (by omega)
    obtain ⟨honce, -, hthird⟩ := hloads 2 (by omega)
    rw [hbody] at hschedule
    exact ⟨l, _, stats, hl, hschedule, hdynamic, (hsecond hdynamic).2, honce,
      hthird hstatic (by decide)⟩
  · obtain ⟨l, body, stats, hl, hschedule, htest⟩ : ∃ l body stats,
        Generator.launch handoffRequest = .ok l ∧ Generator.schedule l = .ok (body, stats) ∧
        decide (l.events.mode = .twoStream ∧ l.options.preload = .perFunc ∧
          TwoStream.members ⟨l, TwoStream.keptEdges l.graph⟩ .cube = [0, 1]) = true :=
      Generator.exists_schedule_of_test (by decide +kernel)
    obtain ⟨hmode, hp, hmembers⟩ := of_decide_eq_true htest
    obtain ⟨p, hplan, hlists⟩ :=
      (loads_once_ahead hl hschedule hp).2 _ (schedule_twoStream hmode hschedule)
    obtain rfl := TwoStream.plan_eq_ok hplan
    obtain ⟨honce, hahead⟩ := hlists .cube
    rw [schedule_twoStream hmode hschedule] at hschedule
    exact ⟨l, _, stats, hl, hschedule, honce 0 (by rw [hmembers]; decide), hahead [] 0 1 [] hmembers⟩

end Launch

end KernelFusion
