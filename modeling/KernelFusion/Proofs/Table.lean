import KernelFusion.Proofs.Ownership

/-!
The parameter table names every slot once.

    slots   ctl │ args 0 args 1 … │ locks 0 locks 1 … │ cells 0 cells 1 … │ ws │ region task
            0     1                 1 + |args|          1 + |args| + |locks|
    record i        └ args i ─────────── locks i ───────── cells i ┘

A record gathers what its operator has in three classes, and each class was laid out in a pass of its
own. The records are followed entry by entry, with the three places where the next one starts.
-/

namespace KernelFusion

open List

/-- What a record says of the table, slots with their indices. -/
def OperatorSlots.claims (r : OperatorSlots) (o : Operator) : List (Slot × Nat) :=
  (o.params.map fun name => Slot.argument o.name name).zipIdx r.argsOffset
    ++ r.notify.map (fun lock => (.notifyLock o.name lock.1, lock.2))
    ++ r.wait.map (fun lock => (.waitLock o.name lock.1, lock.2))
    ++ r.dynamic.toList.flatMap fun cells => [(.tilingKey o.name, cells.tilingKey),
      (.blockCount o.name, cells.blockCount), (.readyLock o.name, cells.readyLock)]

/-- The record of an operator that sends and receives these outer events. -/
structure OperatorSlots.Records (r : OperatorSlots) (o : Operator) (sends recvs : List UInt32) : Prop where
  notify : r.notify.map Prod.fst = sends
  wait : r.wait.map Prod.fst = recvs
  dynamic : r.dynamic.isSome = o.isDynamic
  /-- the cells follow each other -/
  cells : ∀ cells ∈ r.dynamic,
    cells.blockCount = cells.tilingKey + 1 ∧ cells.readyLock = cells.tilingKey + 2

namespace Table

/-- What a table says of its slots behind the controller, operator by operator. -/
def claims (t : Table) (ops : List Operator) : List (Slot × Nat) :=
  (List.zipWith OperatorSlots.claims t.operators ops).flatten
    ++ t.workspace.toList.map (fun i => (.workspace, i))
    ++ t.profiling.toList.map (fun i => (.profilingRegion, i))
    ++ t.taskId.toList.map fun i => (.taskId, i)

/-- A table of a graph whose slots stand class by class, each claimed once and by what it holds. -/
structure Partitions (t : Table) (g : Graph) (p : EventPlan) (withWorkspace withProfiling : Bool) :
    Prop where
  ordered : t.slots.Pairwise fun a b => a.rank ≤ b.rank
  controller : t.slots.head? = some .syncController
  claimed : t.claims g.operators ~ t.slots.tail.zipIdx 1
  length : t.operators.length = g.operators.length
  records : ∀ i o, g.operators[i]? = some o →
    ∃ r : OperatorSlots, t.operators[i]? = some r ∧ r.Records o (p.sends i) (p.recvs i)
  workspace : t.workspace.isSome = withWorkspace
  profiling : t.profiling.isSome = withProfiling
  taskId : t.taskId.isSome = withProfiling

/-! ### Entry by entry -/

variable {p : EventPlan} {ops : List Operator} {es : List Entry}

/-- The cells of an entry from a slot on. -/
def cellsFrom (base : Nat) (e : Entry) : Option DynamicSlots :=
  if e.isDynamic then some ⟨base, base + 1, base + 2⟩ else none

/-- The record of an entry whose arguments, locks and cells start at these slots. -/
def record (a l c : Nat) (e : Entry) : OperatorSlots :=
  ⟨a, e.sends.zipIdx l, e.recvs.zipIdx (l + e.sends.length), cellsFrom c e⟩

def records (a l c : Nat) (es : List Entry) : List OperatorSlots :=
  operatorSlots (argumentBases a es) (lockBases l es) (dynamicBases c es)

theorem dynamicBases_cons (c : Nat) (e : Entry) :
    dynamicBases c (e :: es) = cellsFrom c e :: dynamicBases (c + (dynamicSlots e).length) es := by
  rw [dynamicBases, cellsFrom, dynamicSlots]
  split <;> rfl

/-- One entry moves the three places by what it has there. -/
theorem records_cons (a l c : Nat) (e : Entry) : records a l c (e :: es)
    = record a l c e :: records (a + (argumentSlots e).length) (l + (lockSlots e).length)
        (c + (dynamicSlots e).length) es := by
  have hlocks : (lockSlots e).length = e.sends.length + e.recvs.length := by simp [lockSlots]
  have hargs : (argumentSlots e).length = e.params.length := by simp [argumentSlots]
  rw [records, argumentBases, lockBases, dynamicBases_cons, operatorSlots, hargs, hlocks, ← Nat.add_assoc]
  rfl

theorem length_records (a l c : Nat) : (records a l c es).length = es.length := by
  induction es generalizing a l c with
  | nil => rfl
  | cons e es ih => rw [records_cons, List.length_cons, List.length_cons, ih]

theorem records_getElem? {i : Nat} {e : Entry} (a l c : Nat) (he : es[i]? = some e) :
    ∃ a' l' c', (records a l c es)[i]? = some (record a' l' c' e) := by
  induction es generalizing a l c i with
  | nil => cases he
  | cons e' es ih =>
    rw [records_cons]
    cases i with
    | zero =>
      cases Option.some.inj he
      exact ⟨a, l, c, rfl⟩
    | succ i => exact ih _ _ _ he

theorem record_records (a l c : Nat) (o : Operator) (sends recvs : List UInt32) :
    (record a l c ⟨o.name, o.params, sends, recvs, o.isDynamic⟩).Records o sends recvs where
  notify := List.zipIdx_map_fst ..
  wait := List.zipIdx_map_fst ..
  dynamic := by cases hd : o.isDynamic <;> simp [record, cellsFrom]
  cells := by
    intro cells hcells
    simp only [record, cellsFrom] at hcells
    split at hcells
    · cases Option.some.inj hcells
      exact ⟨rfl, rfl⟩
    · cases hcells

/-- A record claims the three runs of slots that its entry has. -/
theorem claims_record (a l c : Nat) (o : Operator) (sends recvs : List UInt32) :
    let e : Entry := ⟨o.name, o.params, sends, recvs, o.isDynamic⟩
    (record a l c e).claims o
      = (argumentSlots e).zipIdx a ++ (lockSlots e).zipIdx l ++ (dynamicSlots e).zipIdx c := by
  intro e
  have hcells : (cellsFrom c e).toList.flatMap (fun cells => [(Slot.tilingKey o.name, cells.tilingKey),
      (.blockCount o.name, cells.blockCount), (.readyLock o.name, cells.readyLock)])
      = (dynamicSlots e).zipIdx c := by
    cases hd : o.isDynamic <;> simp [e, cellsFrom, dynamicSlots, hd]
  simp only [OperatorSlots.claims, record, hcells]
  simp only [e, argumentSlots, lockSlots, List.zipIdx_append, List.zipIdx_map, List.length_map,
    List.append_assoc]
  rfl

/-- Three runs in front of three runs, regrouped class by class. -/
theorem append_three_perm {x y z xs ys zs rest : List (Slot × Nat)} (h : rest ~ xs ++ ys ++ zs) :
    x ++ y ++ z ++ rest ~ x ++ xs ++ (y ++ ys) ++ (z ++ zs) := by
  refine List.perm_iff_count.mpr fun s => ?_
  have hcount := List.perm_iff_count.mp h s
  simp only [List.count_append] at hcount ⊢
  omega

/-- All records together claim the slots of the three classes. -/
theorem claims_records (first a l c : Nat) :
    (List.zipWith OperatorSlots.claims (records a l c (entries p first ops)) ops).flatten
      ~ ((entries p first ops).flatMap argumentSlots).zipIdx a
        ++ ((entries p first ops).flatMap lockSlots).zipIdx l
        ++ ((entries p first ops).flatMap dynamicSlots).zipIdx c := by
  induction ops generalizing first a l c with
  | nil => exact Perm.refl _
  | cons o os ih =>
    rw [entries, records_cons, List.zipWith_cons_cons, List.flatten_cons, claims_record]
    simp only [List.flatMap_cons, List.zipIdx_append]
    exact append_three_perm (ih ..)

/-! ### The classes -/

theorem rank_argument {s : Slot} (h : s ∈ es.flatMap argumentSlots) : s.rank = 1 := by
  obtain ⟨e, _, hs⟩ := List.mem_flatMap.mp h
  obtain ⟨_, _, rfl⟩ := List.mem_map.mp hs
  rfl

theorem rank_lock {s : Slot} (h : s ∈ es.flatMap lockSlots) : s.rank = 2 := by
  obtain ⟨e, _, hs⟩ := List.mem_flatMap.mp h
  rcases List.mem_append.mp hs with hs | hs <;>
  · obtain ⟨_, _, rfl⟩ := List.mem_map.mp hs
    rfl

theorem rank_cell {s : Slot} (h : s ∈ es.flatMap dynamicSlots) : s.rank = 3 := by
  obtain ⟨e, _, hs⟩ := List.mem_flatMap.mp h
  rw [dynamicSlots] at hs
  split at hs
  · simp only [List.mem_cons, List.not_mem_nil, or_false] at hs
    rcases hs with rfl | rfl | rfl <;> rfl
  · cases hs

/-- Slots that stand class by class, from a class on. -/
structure OrderedFrom (n : Nat) (slots : List Slot) : Prop where
  bound : ∀ s ∈ slots, n ≤ s.rank
  sorted : slots.Pairwise fun a b => a.rank ≤ b.rank

theorem OrderedFrom.append {n m : Nat} {xs ys : List Slot} (hx : ∀ s ∈ xs, s.rank = n)
    (hy : OrderedFrom m ys) (h : n ≤ m) : OrderedFrom n (xs ++ ys) where
  bound := by
    intro s hs
    rcases List.mem_append.mp hs with hs | hs
    · exact (hx s hs).ge
    · exact h.trans (hy.bound s hs)
  sorted := by
    refine List.pairwise_append.mpr ⟨?_, hy.sorted, fun a ha b hb => ?_⟩
    · exact List.pairwise_of_forall_mem_list fun a ha b hb => by rw [hx a ha, hx b hb]
    · exact (hx a ha).le.trans (h.trans (hy.bound b hb))

variable {g : Graph} {workspace profiling : Bool}

theorem assign_ordered :
    (assign g p workspace profiling).slots.Pairwise fun a b => a.rank ≤ b.rank := by
  have hprofiling : OrderedFrom 5 (if profiling then [.profilingRegion, .taskId] else []) := by
    cases profiling <;> constructor <;> simp [Slot.rank]
  have hworkspace : ∀ s ∈ (if workspace then [.workspace] else [] : List Slot), s.rank = 4 := by
    cases workspace <;> simp [Slot.rank]
  have hbehind := OrderedFrom.append hworkspace hprofiling (by decide)
  have hcells : OrderedFrom 3 ((entries p 0 g.operators).flatMap dynamicSlots ++ _) :=
    .append (fun _ => rank_cell) hbehind (by decide)
  have hlocks : OrderedFrom 2 ((entries p 0 g.operators).flatMap lockSlots ++ _) :=
    .append (fun _ => rank_lock) hcells (by decide)
  have harguments : OrderedFrom 1 ((entries p 0 g.operators).flatMap argumentSlots ++ _) :=
    .append (fun _ => rank_argument) hlocks (by decide)
  simp only [assign, List.append_assoc]
  exact List.pairwise_cons.mpr ⟨fun _ _ => Nat.zero_le _, harguments.sorted⟩

/-! ### The table -/

theorem assign_operators : (assign g p workspace profiling).operators
    = records 1 (1 + ((entries p 0 g.operators).flatMap argumentSlots).length) (cellBase g p)
        (entries p 0 g.operators) := rfl

theorem assign_claimed : (assign g p workspace profiling).claims g.operators
    ~ (assign g p workspace profiling).slots.tail.zipIdx 1 := by
  rw [claims, assign_operators, List.append_assoc, List.append_assoc]
  simp only [assign, List.tail_cons]
  rw [List.append_assoc _ (if workspace then _ else _), List.zipIdx_append]
  refine Perm.append ?_ (.of_eq ?_)
  · rw [List.zipIdx_append, List.zipIdx_append, List.length_append, ← Nat.add_assoc, ← cellBase]
    exact claims_records ..
  · simp only [List.length_append, ← Nat.add_assoc]
    cases workspace <;> cases profiling <;> rfl

theorem assign_records {i : Nat} {o : Operator} (ho : g.operators[i]? = some o) :
    ∃ r, (assign g p workspace profiling).operators[i]? = some r ∧
      r.Records o (p.sends i) (p.recvs i) := by
  have he : (entries p 0 g.operators)[i]? = _ := entries_getElem? 0 i
  rw [ho, Nat.zero_add] at he
  obtain ⟨a, l, c, hr⟩ := records_getElem? _ _ _ he
  exact ⟨_, hr, record_records ..⟩

theorem length_entries (first : Nat) : (entries p first ops).length = ops.length := by
  induction ops generalizing first with
  | nil => rfl
  | cons o os ih => rw [entries, List.length_cons, List.length_cons, ih]

/-- CORRECT: the table of any graph and any events is a partition, and the flags add slots behind all
others and leave the records alone. -/
theorem assign_partitions (g : Graph) (p : EventPlan) (workspace profiling : Bool) :
    (assign g p workspace profiling).Partitions g p workspace profiling ∧
    (assign g p false false).slots <+: (assign g p workspace profiling).slots ∧
    (assign g p false false).operators = (assign g p workspace profiling).operators := by
  refine ⟨⟨assign_ordered, rfl, assign_claimed, ?_, fun i o => assign_records, ?_, ?_, ?_⟩, ?_, rfl⟩
  · rw [assign_operators, length_records, length_entries]
  · cases workspace <;> rfl
  · cases profiling <;> rfl
  · cases profiling <;> rfl
  · simp [assign, List.append_assoc]

/-- Two operators that have slots of every class. -/
def packedGraph : Graph :=
  ⟨⟨1, 2⟩, [{ (default : Operator) with name := "sender", params := ["x", "y"] },
    { (default : Operator) with name := "chosen", params := ["x"], dispatch := .dynamic [] }], []⟩

def packedPlan : EventPlan := ⟨.singleStream, [], [[7], []], [[], [9]]⟩

theorem assign_partitions_packed :
    (assign packedGraph packedPlan true true).slots.map Slot.rank = [0, 1, 1, 1, 2, 2, 3, 3, 3, 4, 5, 6] ∧
    (assign packedGraph packedPlan true true).Partitions packedGraph packedPlan true true :=
  ⟨by decide, (assign_partitions packedGraph packedPlan true true).1⟩

end Table

end KernelFusion
