import KernelFusion.Schedule.Ownership
import KernelFusion.Proofs.SingleStream

/-!
Every ready lock has one writer at a time.

In the table the cells of dynamic operators follow each other, so that each lock is a slot of its own.
In a single-stream schedule an operator is resolved and gives its lock back in its own block, with a
meeting of all units in between.
-/

namespace KernelFusion

open List

/-! ### Locks in the table -/

namespace Table

variable {p : EventPlan} {ops : List Operator} {es : List Entry}

theorem entries_getElem? (first i : Nat) : (entries p first ops)[i]? = ops[i]?.map fun o =>
    ⟨o.name, o.params, p.sends (first + i), p.recvs (first + i), o.isDynamic⟩ := by
  induction ops generalizing first i with
  | nil => rfl
  | cons o os ih =>
    cases i with
    | zero => rfl
    | succ i =>
      rw [entries, List.getElem?_cons_succ, List.getElem?_cons_succ, ih, Nat.add_right_comm,
        Nat.add_assoc]

theorem length_argumentBases (base : Nat) : (argumentBases base es).length = es.length := by
  induction es generalizing base with
  | nil => rfl
  | cons e es ih => simp [argumentBases, ih]

theorem length_lockBases (base : Nat) : (lockBases base es).length = es.length := by
  induction es generalizing base with
  | nil => rfl
  | cons e es ih => simp [lockBases, ih]

theorem length_dynamicBases (base : Nat) : (dynamicBases base es).length = es.length := by
  induction es generalizing base with
  | nil => rfl
  | cons e es ih =>
    rw [dynamicBases]
    split <;> simp [ih]

theorem operatorSlots_dynamic {as : List Nat} {ls : List (List (UInt32 × Nat) × List (UInt32 × Nat))}
    {ds : List (Option DynamicSlots)} (ha : as.length = ds.length) (hl : ls.length = ds.length) :
    (operatorSlots as ls ds).map OperatorSlots.dynamic = ds := by
  induction ds generalizing as ls with
  | nil =>
    cases List.length_eq_zero_iff.mp ha
    rfl
  | cons d ds ih =>
    obtain ⟨a, as, rfl⟩ := List.exists_cons_of_length_eq_add_one ha
    obtain ⟨x, ls, rfl⟩ := List.exists_cons_of_length_eq_add_one hl
    simp only [List.length_cons, Nat.add_right_cancel_iff] at ha hl
    rw [operatorSlots, List.map_cons, ih ha hl]

/-- Cells of a dynamic entry: behind the base, its lock at its place among all cells. -/
theorem dynamicBases_lock (base : Nat) {i : Nat} {e : Entry} (he : es[i]? = some e)
    (hd : e.isDynamic = true) : ∃ cells, (dynamicBases base es)[i]? = some (some cells) ∧
      base ≤ cells.readyLock ∧
      (es.flatMap dynamicSlots)[cells.readyLock - base]? = some (.readyLock e.name) := by
  induction es generalizing base i with
  | nil => cases he
  | cons e' es ih =>
    cases i with
    | zero =>
      cases Option.some.inj he
      refine ⟨⟨base, base + 1, base + 2⟩, by simp [dynamicBases, hd], by simp, ?_⟩
      simp [dynamicSlots, hd]
    | succ i =>
      rw [List.getElem?_cons_succ] at he
      rw [dynamicBases, List.flatMap_cons]
      split
      · obtain ⟨cells, hcells, hle, hslot⟩ := ih (base + 3) he
        refine ⟨cells, hcells, by omega, ?_⟩
        have hlen : (dynamicSlots e').length = 3 := by simp [dynamicSlots, *]
        rw [List.getElem?_append_right (by omega), hlen, Nat.sub_sub, hslot]
      · obtain ⟨cells, hcells, hle, hslot⟩ := ih base he
        refine ⟨cells, hcells, hle, ?_⟩
        have hnil : dynamicSlots e' = [] := by simp [dynamicSlots, *]
        rw [hnil, List.nil_append, hslot]

theorem dynamicBases_bound {base i : Nat} {cells : DynamicSlots}
    (h : (dynamicBases base es)[i]? = some (some cells)) : base + 2 ≤ cells.readyLock := by
  induction es generalizing base i with
  | nil => cases h
  | cons e es ih =>
    rw [dynamicBases] at h
    split at h
    · cases i with
      | zero =>
        cases Option.some.inj (Option.some.inj h)
        exact Nat.le_refl _
      | succ i =>
        have := ih h
        omega
    · cases i with
      | zero => cases Option.some.inj h
      | succ i => exact ih h

/-- Locks of later entries are later slots. -/
theorem dynamicBases_increasing {base i j : Nat} {cells cells' : DynamicSlots} (hij : i < j)
    (hi : (dynamicBases base es)[i]? = some (some cells))
    (hj : (dynamicBases base es)[j]? = some (some cells')) : cells.readyLock < cells'.readyLock := by
  induction es generalizing base i j with
  | nil => cases hi
  | cons e es ih =>
    obtain ⟨j, rfl⟩ : ∃ k, j = k + 1 := ⟨j - 1, by omega⟩
    rw [dynamicBases] at hi hj
    split at hi
    · rw [if_pos (by assumption), List.getElem?_cons_succ] at hj
      cases i with
      | zero =>
        cases Option.some.inj (Option.some.inj hi)
        have := dynamicBases_bound hj
        simp only
        omega
      | succ i => exact ih (by omega) hi hj
    · rw [if_neg (by assumption), List.getElem?_cons_succ] at hj
      cases i with
      | zero => cases Option.some.inj hi
      | succ i => exact ih (by omega) hi hj

variable {g : Graph} {workspace profiling : Bool}

/-- The slot of the first cell of a dynamic operator. -/
def cellBase (g : Graph) (p : EventPlan) : Nat :=
  1 + ((entries p 0 g.operators).flatMap argumentSlots).length
    + ((entries p 0 g.operators).flatMap lockSlots).length

theorem assign_operators_dynamic : (assign g p workspace profiling).operators.map OperatorSlots.dynamic
    = dynamicBases (cellBase g p) (entries p 0 g.operators) :=
  operatorSlots_dynamic (by simp [length_argumentBases, length_dynamicBases])
    (by simp [length_lockBases, length_dynamicBases])

theorem assign_cell {i : Nat} {s : Slot}
    (h : ((entries p 0 g.operators).flatMap dynamicSlots)[i]? = some s) :
    (assign g p workspace profiling).slots[cellBase g p + i]? = some s := by
  have hlt := (List.getElem?_eq_some_iff.mp h).1
  simp only [assign, cellBase]
  rw [Nat.add_assoc, Nat.add_assoc, Nat.add_comm 1, List.getElem?_cons_succ, List.append_assoc,
    List.append_assoc, List.append_assoc, List.getElem?_append_right (by omega),
    List.getElem?_append_right (by omega), List.getElem?_append_left (by omega), ← h]
  congr 1
  omega

theorem operator_dynamic {op : Nat} {cells : DynamicSlots} :
    ((assign g p workspace profiling).operator op).dynamic = some cells ↔
      (dynamicBases (cellBase g p) (entries p 0 g.operators))[op]? = some (some cells) := by
  have hmap : (assign g p workspace profiling).operators.map OperatorSlots.dynamic = _ :=
    assign_operators_dynamic
  rw [← hmap, List.getElem?_map, operator, List.getD_eq_getElem?_getD]
  cases (assign g p workspace profiling).operators[op]? with
  | none => simp [default, instInhabitedOperatorSlots.default]
  | some slots => simp

/-- A dynamic operator has cells, and its lock is a slot that bears its name. -/
theorem assign_lock {op : Nat} {o : Operator} (ho : g.operators[op]? = some o)
    (hd : o.isDynamic = true) :
    ∃ cells, ((assign g p workspace profiling).operator op).dynamic = some cells ∧
      (assign g p workspace profiling).slots[cells.readyLock]? = some (.readyLock o.name) := by
  have he : (entries p 0 g.operators)[op]? = _ := entries_getElem? 0 op
  rw [ho] at he
  obtain ⟨cells, hcells, hle, hslot⟩ := dynamicBases_lock (cellBase g p) he hd
  refine ⟨cells, operator_dynamic.mpr hcells, ?_⟩
  rw [← assign_cell hslot, Nat.add_sub_cancel' hle]

theorem assign_increasing {i j : Nat} {cells cells' : DynamicSlots} (hij : i < j)
    (hi : ((assign g p workspace profiling).operator i).dynamic = some cells)
    (hj : ((assign g p workspace profiling).operator j).dynamic = some cells') :
    cells.readyLock < cells'.readyLock :=
  dynamicBases_increasing hij (operator_dynamic.mp hi) (operator_dynamic.mp hj)

end Table

/-! ### Locks in the schedule -/

/-- Whether a step takes a lock or gives it back. -/
def Step.isLock : Step → Bool
  | .dynamicResolve _ => true
  | .lockReset _ => true
  | _ => false

namespace SingleStream

variable {l : Launch}

theorem locks_boundarySteps (prev cur : Nat) :
    (boundarySteps l prev cur).filter Step.isLock = [] := by
  have hinner : ∀ s : Step, s.isLock = true → s.isInner = true := by
    intro s
    cases s <;> simp [Step.isLock, Step.isInner]
  rw [← Schedule.filter_filter_class hinner, inner_boundarySteps, List.filter_nil]

/-- The steps of an operator's lock. -/
def lockSteps (l : Launch) (op : Nat) : List Step :=
  if (l.operator op).isDynamic then [.dynamicResolve op, .lockReset op] else []

theorem locks_block (op : Nat) :
    (block l op).filter Step.isLock = lockSteps l op := by
  cases hd : (l.operator op).isDynamic <;>
    simp [block, lead, trail, filter_ite, List.filter_cons, Step.isLock, Step.beginOperator,
      resolveSteps, preloadSteps, releaseSteps, debugSteps, mark, locks_boundarySteps, lockSteps, hd]

theorem locks_steps :
    (steps l).filter Step.isLock = l.ids.flatMap (lockSteps l) := by
  have hopening : (openingSteps l).filter Step.isLock = [] := by
    simp [openingSteps, mark, filter_ite, Step.isLock]
  have hclosing : (closingSteps l).filter Step.isLock = [] := by
    simp [closingSteps, mark, filter_ite, Step.isLock]
  rw [steps, List.filter_append, List.filter_append, hopening, hclosing, List.filter_flatMap,
    List.nil_append, List.append_nil]
  simp only [locks_block]

/-- The steps of a dynamic operator that its lock depends on, in their order. -/
theorem lock_order (op : Nat) (hd : (l.operator op).isDynamic = true) : ∃ b : Barrier,
    b.scope = .full ∧ [.dynamicResolve op, .invoke op, .barrier b, .lockReset op] <+ block l op := by
  have hresolve : [.dynamicResolve op] <+ lead l op :=
    List.singleton_sublist.mpr (by simp [lead, resolveSteps, hd])
  refine ⟨.full "reason4: all readers of the dynamic ready lock are done", rfl, ?_⟩
  refine hresolve.append (Sublist.cons_cons _ ?_)
  simp [trail, releaseSteps, hd]

end SingleStream

namespace Ownership

open Schedule

variable {t : Table} {steps : List Step}

/-- Operators whose locks are slots of their own, each behind those before, and whose steps are in
order pass the check. -/
theorem checkFrom_ok {seen : List Nat} {first : Nat} {os : List Operator}
    (hlock : ∀ i o, os[i]? = some o → o.isDynamic = true → ∃ cells,
      (t.operator (first + i)).dynamic = some cells ∧
      t.slots[cells.readyLock]? = some (.readyLock o.name) ∧ ∀ lock ∈ seen, lock < cells.readyLock)
    (hinc : ∀ i j cells cells', i < j → (t.operator i).dynamic = some cells →
      (t.operator j).dynamic = some cells' → cells.readyLock < cells'.readyLock)
    (hsteps : ∀ i o, os[i]? = some o → o.isDynamic = true →
      checkSteps steps o (first + i) = .ok ()) :
    checkFrom t steps seen first os = .ok () := by
  induction os generalizing seen first with
  | nil => rfl
  | cons o os ih =>
    have hshift : ∀ i, first + (i + 1) = first + 1 + i := fun i => by omega
    have hsteps' : ∀ i o, os[i]? = some o → o.isDynamic = true →
        checkSteps steps o (first + 1 + i) = .ok () := by
      intro i o' ho' hd
      rw [← hshift]
      exact hsteps (i + 1) o' ho' hd
    cases hd : o.isDynamic with
    | false =>
      rw [checkFrom, hd, if_neg Bool.false_ne_true]
      refine ih (fun i o' ho' hd' => ?_) hsteps'
      rw [← hshift]
      exact hlock (i + 1) o' ho' hd'
    | true =>
      obtain ⟨cells, hcells, hslot, hseen⟩ := hlock 0 o rfl hd
      have hnew : cells.readyLock ∉ seen := fun hmem => Nat.lt_irrefl _ (hseen _ hmem)
      have hcell : checkCell t seen o first = .ok cells.readyLock := by
        rw [Nat.add_zero] at hcells
        simp [checkCell, hcells, hslot, hnew]
      rw [checkFrom, hd, if_pos rfl, hcell]
      have hfirst := hsteps 0 o rfl hd
      rw [Nat.add_zero] at hfirst
      simp only [bind, Except.bind, hfirst]
      refine ih (fun i o' ho' hd' => ?_) hsteps'
      rw [← hshift]
      obtain ⟨cells', hcells', hslot', hseen'⟩ := hlock (i + 1) o' ho' hd'
      refine ⟨cells', hcells', hslot', fun lock hmem => ?_⟩
      rcases List.mem_cons.mp hmem with rfl | hmem
      · exact hinc _ _ _ _ (by omega) hcells hcells'
      · exact hseen' lock hmem

theorem isStep_invoke (op : Nat) : isStep op .invoke = Step.isInvokeOf op := by
  funext s
  cases s <;> rfl

/-- A dynamic operator that is resolved, called and gives its lock back once each, in this order, with
a meeting of all units in front of the last. -/
theorem checkSteps_ok {o : Operator} {op : Nat} {b : Barrier}
    (hresolve : steps.filter (isStep op .resolve) = [.dynamicResolve op])
    (hinvoke : steps.filter (isStep op .invoke) = [.invoke op])
    (hreset : steps.filter (isStep op .reset) = [.lockReset op]) (hb : b.scope = .full)
    (horder : [.dynamicResolve op, .invoke op, .barrier b, .lockReset op] <+ steps) :
    checkSteps steps o op = .ok () := by
  obtain ⟨i, hi, _⟩ := positions_of_filter_singleton hresolve
  obtain ⟨j, hj, _⟩ := positions_of_filter_singleton hinvoke
  obtain ⟨k, hk, _⟩ := positions_of_filter_singleton hreset
  have hself : (op == op) = true := beq_self_eq_true op
  have hij : i < j := position_lt ((List.prefix_append [_, _] [_, _]).sublist.trans horder)
    hi hself hj hself
  have hspan : (span steps j k).any Step.isFullBarrier = true :=
    any_span_of_sublist ((List.sublist_cons_self _ _).trans horder) hj hself hk hself
      (by simp [Step.isFullBarrier, hb])
  have hjk : j < k := by
    obtain ⟨_, _, _, _, _⟩ := any_span.mp hspan
    omega
  simp [checkSteps, only, hi, hj, hk, hij, hjk, hspan, bind, Except.bind, pure,
    Except.pure]

end Ownership

namespace SingleStream

open Schedule Ownership

variable {l : Launch}

theorem filter_lockSteps {op : Nat} (hop : op < l.graph.size)
    {test : Step → Bool} (htest : ∀ s, test s = true → s.isLock = true)
    (hother : ∀ q ≠ op, (lockSteps l q).filter test = []) :
    (steps l).filter test = (lockSteps l op).filter test := by
  rw [← filter_filter_class htest, locks_steps, List.filter_flatMap]
  exact flatMap_eq_of_unique List.nodup_range (List.mem_range.mpr hop) fun q _ hq => hother q hq

theorem checkSteps_steps {op : Nat} (hop : op < l.graph.size)
    (hd : (l.operator op).isDynamic = true) (o : Operator) : checkSteps (steps l) o op = .ok () := by
  obtain ⟨b, hb, horder⟩ := lock_order op hd
  have hblock : block l op <+ steps l := by
    simpa using blocks_sublist [op] (List.pairwise_singleton _ _) (by simpa using hop)
  refine checkSteps_ok ?_ ?_ ?_ hb (horder.trans hblock)
  · rw [filter_lockSteps hop (fun s hs => by cases s <;> simp_all [isStep, Step.isLock])
      fun q hq => ?_]
    · simp [lockSteps, hd, isStep]
    · simp [lockSteps, filter_ite, isStep, hq]
  · rw [isStep_invoke]
    exact filter_lone_invoke (nodup_invocations) (mem_invocations hop)
  · rw [filter_lockSteps hop (fun s hs => by cases s <;> simp_all [isStep, Step.isLock])
      fun q hq => ?_]
    · simp [lockSteps, hd, isStep]
    · simp [lockSteps, filter_ite, isStep, hq]

/-- Every lock of a single-stream schedule has one writer at a time, whatever events the table is
made for. -/
theorem ownership_steps (p : EventPlan) (workspace profiling : Bool) :
    Ownership.check l.graph (.assign l.graph p workspace profiling) (steps l) = .ok () := by
  refine checkFrom_ok (fun i o ho hd => ?_) (fun i j cells cells' => Table.assign_increasing)
    fun i o ho hd => ?_
  · obtain ⟨cells, hcells, hslot⟩ := Table.assign_lock (p := p) ho hd
    rw [Nat.zero_add]
    exact ⟨cells, hcells, hslot, by simp⟩
  · have hoperator : l.operator i = o := by
      rw [Launch.operator, Graph.operator, List.getD_eq_getElem?_getD, ho]
      rfl
    rw [Nat.zero_add]
    exact checkSteps_steps (List.getElem?_eq_some_iff.mp ho).1 (hoperator ▸ hd) o

end SingleStream

end KernelFusion
