import KernelFusion.Device.Emit
import KernelFusion.Proofs.CodePieces

/-!
Calls of a writer, and the code that they write.

Calls are a flat list, in which nothing pairs the beginning of a block with its end. `Emits` says that a list
of calls writes what a tree of code says, and that it closes the blocks that it opens and no other; it is
kept by all ways in which calls are put together. So each list of `Emit` is compared with its code part by
part, in the shape of its definition.

        .enter "if (a)"       level 0 ⟶ 1
        .line "f();"                1
        .resume "else"              1     stays inside: the same block goes on
        .leave                      1 ⟶ 0
-/

namespace KernelFusion

namespace WriterCall

/-- Whether a block is closed first. -/
def closes : WriterCall → Bool
  | .resume _ => true
  | .leave => true
  | _ => false

/-- The number of open blocks behind a call; none where it closes a block and there is none. -/
def level : Nat → WriterCall → Option Nat
  | n, .line _ => some n
  | n, .blank => some n
  | n, .enter _ => some (n + 1)
  | 0, _ => none
  | n + 1, .resume _ => some (n + 1)
  | n + 1, .leave => some n

variable {c : WriterCall} {n k : Nat} {w : Writer}

/-- The writer counts the blocks that are open, on top of those that were open before. -/
theorem depth_apply {start : Nat} (hw : w.depth = start + n) (hc : c.level n = some k) :
    (c.apply w).depth = start + k := by
  cases c <;> cases n <;> simp [level] at hc <;>
    simp [apply, Writer.line, Writer.blank, Writer.enter, Writer.deepen, Writer.resume, Writer.lift,
      Writer.leave, hw, ← hc] <;> omega

theorem level_pos (hc : c.level n = some k) (hcloses : c.closes = true) : 0 < n := by
  cases n with
  | zero => cases c <;> simp_all [level, closes]
  | succ n => exact Nat.succ_pos n

end WriterCall

namespace Writer

variable {calls more : List WriterCall} {n k : Nat}

@[simp] theorem run_nil (w : Writer) : w.run [] = w := rfl

@[simp] theorem run_cons (w : Writer) (c : WriterCall) (calls : List WriterCall) :
    w.run (c :: calls) = (c.apply w).run calls := rfl

@[simp] theorem run_append (w : Writer) (calls more : List WriterCall) :
    w.run (calls ++ more) = (w.run calls).run more := List.foldl_append

theorem depth_run {w : Writer} {start : Nat} (hw : w.depth = start + n)
    (hcalls : calls.foldlM WriterCall.level n = some k) : (w.run calls).depth = start + k := by
  induction calls generalizing n w with
  | nil =>
    cases Option.some.inj hcalls
    exact hw
  | cons c calls ih =>
    obtain ⟨m, hc, hrest⟩ := Option.bind_eq_some_iff.mp hcalls
    exact ih (WriterCall.depth_apply hw hc) hrest

/-- A line that begins with four blanks stands where a line stands one block further in. -/
theorem indented_blanks (depth : Nat) {s : String} (hs : s.isEmpty = false) :
    indented depth ("    " ++ s) = indented (depth + 1) s := by
  have hne : ("    " ++ s).isEmpty = false := by
    rw [Bool.eq_false_iff, Ne, String.isEmpty_iff] at hs ⊢
    intro hall
    exact hs (String.append_eq_empty_iff.mp hall).2
  have hblanks : indentation (depth + 1) = indentation depth ++ "    " := by
    rw [indentation, indentation, ← String.ofList_append, Nat.mul_add, List.replicate_add]
    rfl
  simp [indented, hs, hne, hblanks, String.append_assoc]

/-- A loop with a single line in it, given by lines alone. -/
theorem lines_eq_block (w : Writer) (head : String) {s : String} (hs : s.isEmpty = false) :
    ((w.line (head ++ " \x7b")).line ("    " ++ s)).line "\x7d" = ((w.enter head).line s).leave := by
  simp only [enter, leave, line, deepen, lift, indented_blanks _ hs, Nat.add_sub_cancel]

end Writer

/-- Calls write what the code says, and close the blocks that they open and no other. -/
structure Emits (calls : List WriterCall) (c : Code) : Prop where
  writes : ∀ w : Writer, w.run calls = c.write w
  level : ∀ n, calls.foldlM WriterCall.level n = some n

/-- Calls inside of a conditional go on with its further branches. -/
structure EmitsArms (calls : List WriterCall) (a : Arms) : Prop where
  writes : ∀ w : Writer, w.run calls = a.write w
  level : ∀ n, calls.foldlM WriterCall.level (n + 1) = some (n + 1)

namespace Emits

variable {calls more : List WriterCall} {c d : Code}

theorem done : Emits [] .done := ⟨fun _ => rfl, fun _ => rfl⟩

theorem append (hc : Emits calls c) (hd : Emits more d) : Emits (calls ++ more) (c ++ d) := by
  constructor
  · intro w
    rw [Writer.run_append, hc.writes, hd.writes, Code.write_eq_foldl, Code.write_eq_foldl,
      Code.write_eq_foldl, Code.pieces_append, List.foldl_append]
  · intro n
    rw [List.foldlM_append, hc.level]
    exact hd.level n

theorem blank : Emits [.blank] .empty := ⟨fun _ => rfl, fun _ => rfl⟩

theorem text (s : String) : Emits [.line s] (.text s) := ⟨fun _ => rfl, fun _ => rfl⟩

theorem stmt (s : Stmt) : Emits [.line s.render] (.stmt s) := ⟨fun _ => rfl, fun _ => rfl⟩

theorem stmts (ss : List Stmt) : Emits (Emit.stmts ss) (.stmts ss) := by
  induction ss with
  | nil => exact done
  | cons s ss ih => exact (stmt s).append ih

theorem texts (ss : List String) : Emits (Emit.lines ss) (.texts ss) := by
  induction ss with
  | nil => exact done
  | cons s ss ih => exact (text s).append ih

theorem flatMap {α : Type} {f : α → List WriterCall} {g : α → Code} {xs : List α}
    (h : ∀ x ∈ xs, Emits (f x) (g x)) : Emits (xs.flatMap f) (.concat (xs.map g)) := by
  induction xs with
  | nil => exact done
  | cons x xs ih =>
    obtain ⟨hx, hxs⟩ := List.forall_mem_cons.mp h
    exact hx.append (ih hxs)

theorem block (h : Head) (hc : Emits calls c) :
    Emits (.enter h.text :: calls ++ [.leave]) (.block h c .done) := by
  constructor
  · intro w
    rw [List.cons_append, Writer.run_cons, Writer.run_append, hc.writes]
    rfl
  · intro n
    rw [List.cons_append, List.foldlM_cons, WriterCall.level, Option.bind_eq_bind, Option.bind_some,
      List.foldlM_append, hc.level]
    rfl

theorem choose (t : Cond) {further : Arms} (hc : Emits calls c) (hmore : EmitsArms more further) :
    Emits (Emit.test t :: calls ++ more ++ [.leave]) (.choose t c further .done) := by
  constructor
  · intro w
    rw [List.cons_append, List.cons_append, Writer.run_cons, Writer.run_append, Writer.run_append, hc.writes,
      hmore.writes]
    rfl
  · intro n
    rw [List.cons_append, List.cons_append, List.foldlM_cons, Emit.test, WriterCall.level,
      Option.bind_eq_bind, Option.bind_some, List.foldlM_append, List.foldlM_append, hc.level]
    simp only [Option.bind_eq_bind, Option.bind_some]
    rw [hmore.level]
    rfl

end Emits

namespace EmitsArms

variable {calls more : List WriterCall} {c : Code} {a : Arms}

theorem none : EmitsArms [] .none := ⟨fun _ => rfl, fun _ => rfl⟩

theorem otherwise (hc : Emits calls c) : EmitsArms (Emit.otherwise :: calls) (.otherwise c) := by
  constructor
  · intro w
    rw [Writer.run_cons, hc.writes]
    rfl
  · intro n
    exact hc.level (n + 1)

theorem orWhen (t : Cond) (hc : Emits calls c) (ha : EmitsArms more a) :
    EmitsArms (Emit.orTest t :: calls ++ more) (.orWhen t c a) := by
  constructor
  · intro w
    rw [List.cons_append, Writer.run_cons, Writer.run_append, hc.writes, ha.writes]
    rfl
  · intro n
    have hbody : (calls ++ more).foldlM WriterCall.level (n + 1) = some (n + 1) := by
      rw [List.foldlM_append, hc.level]
      exact ha.level n
    exact hbody

end EmitsArms

namespace Emits

variable {calls more : List WriterCall} {c d : Code}

theorem when (t : Cond) (hc : Emits calls c) : Emits (Emit.test t :: calls ++ [.leave]) (.when t c) := by
  have h := hc.choose t .none
  rwa [List.append_nil] at h

theorem whenBoth (t u : Cond) (hc : Emits calls c) :
    Emits (Emit.test t :: Emit.test u :: calls ++ [.leave, .leave]) (.when t (.when u c)) := by
  have h := (hc.when u).when t
  rwa [List.cons_append, List.append_assoc] at h

theorem either (t : Cond) (hc : Emits calls c) (hd : Emits more d) :
    Emits (Emit.test t :: calls ++ Emit.otherwise :: more ++ [.leave]) (.either t c d) :=
  hc.choose t (.otherwise hd)

end Emits

namespace Emit

/-! ### Choices among variants -/

/-- The branches of the variants from `i` on, which end the choice. -/
theorem emits_branches (split : Nat) (tail : Option Stmt) (ss : List Stmt) (i : Nat) (hi : 0 < i)
    (hsplit : i + ss.length = split) :
    EmitsArms ((ss.zipIdx i).flatMap fun v => branch split v.2 :: stmts (v.1 :: tail.toList))
      (variantArms split tail i ss) := by
  induction ss generalizing i with
  | nil => exact .none
  | cons s ss ih =>
    have hfirst : i ≠ 0 := by omega
    rw [List.zipIdx_cons, List.flatMap_cons]
    cases ss with
    | nil =>
      have hlast : i + 1 = split := hsplit
      rw [branch, if_neg hfirst, if_pos hlast, List.zipIdx_nil, List.flatMap_nil, List.append_nil]
      exact .otherwise (.stmts _)
    | cons t ss =>
      have hlast : i + 1 ≠ split := by simp only [List.length_cons] at hsplit; omega
      rw [branch, if_neg hfirst, if_neg hlast]
      refine .orWhen _ (.stmts _) (ih (i + 1) (by omega) ?_)
      simp only [List.length_cons] at hsplit ⊢
      omega

theorem emits_variantChain (variants : List Stmt) (tail : Option Stmt) :
    Emits (variantChain variants tail) (KernelFusion.variantChain variants tail) := by
  match variants with
  | [] => exact .stmts _
  | [s] => exact .stmts _
  | s :: t :: ss =>
    have hmany : ¬ (s :: t :: ss).length ≤ 1 := by simp
    rw [variantChain, if_neg hmany, List.zipIdx_cons, List.flatMap_cons, branch, if_pos rfl]
    have harms := emits_branches (s :: t :: ss).length tail (t :: ss) 1 Nat.one_pos
      (by simp only [List.length_cons]; omega)
    exact (Emits.stmt .readCore).append (.choose _ (.stmts _) harms)

theorem emits_guarded (g : Guarded) (arch : Option Domain) : Emits (guarded g arch) (g.code arch) := by
  have hgate : Emits (test (.blockBelow g.index g.limit) :: variantChain g.variants g.tail
      ++ gateEnd g.complement) g.gate := by
    have hchain := emits_variantChain g.variants g.tail
    cases hcomplement : g.complement with
    | none =>
      have h := hchain.when (.blockBelow g.index g.limit)
      rwa [Guarded.gate, hcomplement]
    | some s =>
      have h := hchain.either (.blockBelow g.index g.limit) (.stmt s)
      rw [List.append_assoc] at h
      rwa [Guarded.gate, hcomplement]
  have hbody := ((Emits.stmts g.before).append hgate).append (.stmts g.after)
  by_cases harch : arch = some g.domain
  · have h := hbody.append .blank
    rw [guarded, Guarded.code, if_pos harch, if_pos harch, if_pos harch]
    simpa only [List.nil_append, List.append_nil, List.append_assoc, List.cons_append] using h
  · have h := (hbody.when (.onDomain g.domain)).append .blank
    rw [guarded, Guarded.code, if_neg harch, if_neg harch, if_neg harch]
    simpa only [List.nil_append, List.append_nil, List.append_assoc, List.cons_append] using h

/-! ### Functions of dynamic operators -/

/-- The loop of the lines is the block of the code. -/
theorem emits_spin (cell : String) (value : Nat) : Emits (spin cell value) (Sync.spin cell value) := by
  have hcell : (Sync.flushCell cell).isEmpty = false := by
    rw [Bool.eq_false_iff, Ne, String.isEmpty_iff, Sync.flushCell]
    simp only [String.append_eq_empty_iff]
    rintro ⟨⟨hword, -⟩, -⟩
    exact absurd hword (by decide)
  constructor
  · intro w
    exact Writer.lines_eq_block (w.line (Sync.flushCell cell)) _ hcell
  · intro n
    rfl

theorem emits_search (split : Nat) : ∀ table : List TilingEntry,
    Emits (search split table) (Dynamic.search split table)
  | [] => by
    rw [search, Dynamic.search]
    exact .done
  | [e] => by
    rw [search, Dynamic.search]
    exact .when _ (.stmts _)
  | [a, b] => by
    rw [search, Dynamic.search]
    exact .either _ (.stmts _) (.stmts _)
  | a :: b :: c :: rest => by
    rw [search, Dynamic.search]
    exact .either _ (emits_search split _) (emits_search split _)
termination_by table => table.length
decreasing_by
  all_goals simp only [List.length_take, List.length_drop, List.length_cons]; omega

theorem emits_switchFunction (o : Operator) :
    Emits (switchFunction o) (Dynamic.switchFunction o) := by
  have hcells := Emits.stmts [.bindCell "tilingKeyAddr" "__ac_dynamic_tiling_key" false,
    .bindCell "blockNumAddr" "__ac_dynamic_block_num" false,
    .bindCell "lockAddr" "__ac_dynamic_lock" true]
  have hbody := (((hcells.append (emits_spin "lockAddr" LockState.ready.value)).append .blank).append
    (emits_search o.split o.tiling)).append (.text "return;")
  have h := ((Emits.text s!"// begin implement of dynamic op {o.name}").append
    (.block (.routine (Dynamic.switchRoutine o)) hbody)).append .blank
  simp only [stmts, List.map_cons, List.map_nil, List.append_assoc, List.cons_append, List.nil_append] at h
  simp only [switchFunction, lines, List.map_cons, List.map_nil, List.append_assoc, List.cons_append,
    List.nil_append]
  exact h

theorem emits_callOf (split : Nat) (a : Affinity) : Emits (callOf split a) (Dynamic.callOf split a) := by
  have hcalls (d : Domain) : Emits (calls split d) (Dynamic.calls split d) := emits_variantChain _ _
  cases a with
  | mixed => exact .when _ (.either _ (hcalls .cube) (hcalls .vector))
  | cubeOnly => exact .when _ (.when _ (hcalls _))
  | vectorOnly => exact .when _ (.when _ (hcalls _))

/-- Behind an affinity that occurs, the others go on with the choice and the end closes it. -/
theorem emits_callArms (split : Nat) (table : List TilingEntry) (as : List Affinity) :
    ∃ arms, callByClass split table true as = arms ++ [.leave] ∧
      EmitsArms arms (Dynamic.callArms split (as.filter fun a =>
        table.any fun e => decide (e.kernelType.affinity = a))) := by
  induction as with
  | nil => exact ⟨[], rfl, .none⟩
  | cons a as ih =>
    obtain ⟨arms, hcalls, harms⟩ := ih
    by_cases ha : (table.any fun e => decide (e.kernelType.affinity = a)) = true
    · refine ⟨orTest (.classIn (Dynamic.codes a)) :: callOf split a ++ arms, ?_, ?_⟩
      · rw [callByClass, if_pos ha, if_pos rfl, hcalls, List.append_assoc]
      · rw [List.filter_cons, if_pos ha]
        exact .orWhen _ (emits_callOf split a) harms
    · refine ⟨arms, ?_, ?_⟩
      · rw [callByClass, if_neg ha, hcalls]
      · rwa [List.filter_cons, if_neg ha]

theorem emits_callByClass (split : Nat) (table : List TilingEntry) (as : List Affinity) :
    Emits (callByClass split table false as) (Dynamic.callByClass split (as.filter fun a =>
      table.any fun e => decide (e.kernelType.affinity = a))) := by
  induction as with
  | nil => exact .done
  | cons a as ih =>
    by_cases ha : (table.any fun e => decide (e.kernelType.affinity = a)) = true
    · obtain ⟨arms, hcalls, harms⟩ := emits_callArms split table as
      rw [callByClass, if_pos ha, if_neg Bool.false_ne_true, hcalls, List.filter_cons, if_pos ha,
        ← List.append_assoc]
      exact .choose _ (emits_callOf split a) harms
    · rw [callByClass, if_neg ha, List.filter_cons, if_neg ha]
      exact ih

theorem emits_callFunction (o : Operator) : Emits (callFunction o) (Dynamic.callFunction o) := by
  have hbody := (Emits.stmts ([.unpackClass, .unpackCount,
      .text "g_super_kernel_dynamic_block_num = numBlocks;",
      .text "using FuncType = void (*)(uint64_t args_offset);"]
      ++ (Dynamic.variants o.split).map .bindPointer)).append
    (emits_callByClass o.split o.tiling [.mixed, .vectorOnly, .cubeOnly])
  have h := (hbody.block (.routine (Dynamic.callRoutine o))).append .blank
  simp only [List.append_assoc, List.cons_append, List.nil_append] at h
  simp only [callFunction, List.append_assoc, List.cons_append]
  exact h

theorem emits_functions (o : Operator) : Emits (functions o) (Dynamic.functions o) :=
  (emits_switchFunction o).append (emits_callFunction o)

/-! ### Steps -/

variable {l : Launch} {arch : Option Domain}

theorem emits_onDomain (d : Domain) {calls : List WriterCall} {c : Code} (h : Emits calls c) :
    Emits (onDomain arch d calls) (Body.onDomain arch d c) := by
  cases arch with
  | none => exact .when _ h
  | some a =>
    by_cases ha : a = d
    · rwa [onDomain, Body.onDomain, if_pos ha, if_pos ha]
    · rw [onDomain, Body.onDomain, if_neg ha, if_neg ha]
      exact .done

theorem emits_barrier (b : Barrier) : Emits (barrier arch b) (Body.barrier arch b) := by
  obtain ⟨scope, reason⟩ := b
  cases scope with
  | full => exact .text _
  | domain d =>
    have hmeeting : Emits (onDomain arch d (lines (Sync.domainBarrier d)))
        (Body.onDomain arch d (.texts (Sync.domainBarrier d))) := emits_onDomain d (.texts _)
    cases reason with
    | none => exact Emits.done.append hmeeting
    | some r => exact (Emits.text _).append hmeeting

theorem emits_preload (o : Operator) : Emits
    (if o.isDynamic then dynamicPreload o arch else staticPreload o arch) (Prefetch.code o arch) := by
  rw [Prefetch.code]
  split
  next => exact .flatMap fun d _ => emits_guarded _ arch
  next =>
    refine .flatMap fun d _ => ?_
    rw [Prefetch.staticPart]
    cases o.functions.get? d with
    | none => exact .done
    | some base =>
      by_cases hnone : Prefetch.units (o.textSize.get d) = 0 ∨ (arch.isSome ∧ arch ≠ some d)
      · simp only [if_pos hnone]
        exact .done
      · simp only [if_neg hnone]
        exact emits_guarded _ arch

theorem emits_handshake (side : HandshakeSide) (o : Operator) :
    Emits (handshake side o) (side.code o) := by
  have hpart (d : Domain) : Emits
      [test (.onDomain d), test (side.units o d), .line (side.text o d), .leave, .leave, .blank]
      (side.part o d) :=
    Emits.append (.when _ (.when _ (.text _))) .blank
  rw [handshake, List.flatMap_cons, List.flatMap_singleton]
  exact (hpart _).append (hpart _)

theorem emits_events (op : Nat) (direction : EventDirection) :
    Emits (events l arch op direction) (Body.events l arch op direction) := by
  have hcode (o : Operator) (d : Domain) (locks : List (UInt32 × Nat)) (profiling : Bool) : Emits
      (if locks.isEmpty then [] else test (.onDomain d)
        :: lines (locks.flatMap (Events.lockLines o d direction profiling)) ++ [.leave])
      (Events.code o d direction locks profiling) := by
    rw [Events.code]
    split
    next => exact .done
    next => exact .when _ (.texts _)
  cases direction <;> exact hcode _ _ _ _

theorem emits_clearLocks : Emits (clearLocks l) (Body.clearLocks l) := by
  refine .flatMap fun op _ => ?_
  rw [Events.clearCode]
  split
  next hempty => simp only [if_pos hempty]; exact .done
  next hsome =>
    have h := (Emits.texts ((l.table.operator op).wait.map fun lock =>
      s!"*(reinterpret_cast<__gm__ uint64_t*>(param_base[{lock.2}])) = 0;")).whenBoth
      (.onDomain (l.operator op).eventDomain)
      (.firstBlock ((l.operator op).kernelType.blockIndex (l.operator op).eventDomain))
    simp only [if_neg hsome]
    exact h

theorem emits_feedInit (op : Nat) : Emits (feedInit l arch op) (Body.feedInit l arch op) := by
  rw [feedInit, Body.feedInit]
  split
  next =>
    exact ((Emits.texts _).append (emits_onDomain _ (.stmt _))).append (emits_onDomain _ (.stmt _))
  next => exact .text _

theorem emits_lockReset (o : Operator) (s : DynamicSlots) :
    Emits (lockReset o s) (Dynamic.resetCode o s) :=
  ((Emits.stmt _).append (.texts _)).whenBoth _ _

theorem emits_invoke (op : Nat) : Emits (invoke l arch op) (Body.invoke l arch op) := by
  rw [invoke, Body.invoke]
  split
  next =>
    rw [List.append_cons]
    exact ((Emits.stmts _).append (.text _)).append (.stmts _)
  next =>
    refine .flatMap fun d _ => ?_
    rw [Body.callIn]
    cases (l.operator op).functions.get? d with
    | none =>
      split
      next => exact .done
      next => exact .done
    | some base =>
      split
      next => exact .done
      next => exact emits_guarded _ arch

theorem emits_step (s : Step) : Emits (step l arch s) (Body.step l arch s) := by
  cases s with
  | comment text => exact .text _
  | pipeAll => exact .text _
  | barrier b => exact emits_barrier b
  | signal channel producer pipe flag => exact emits_onDomain _ (.text _)
  | wait channel consumer flag => exact emits_onDomain _ (.text _)
  | preloadWhole => exact .text _
  | preload op => exact emits_preload _
  | earlyStartSet op => exact emits_handshake _ _
  | earlyStartConfig config => exact .text _
  | earlyStartWait op config => exact emits_handshake _ _
  | notify op => exact emits_events op .notify
  | eventWait op => exact emits_events op .wait
  | dynamicResolve op =>
    rw [step, Body.step, Body.withCells]
    cases (l.table.operator op).dynamic with
    | none => exact .done
    | some cells => exact .text _
  | feedSyncInit op => exact emits_feedInit op
  | profile event kind start => exact .text _
  | invoke op => exact emits_invoke op
  | lockReset op =>
    rw [step, Body.step, Body.withCells]
    cases (l.table.operator op).dynamic with
    | none => exact .done
    | some cells => exact emits_lockReset _ cells
  | cacheFlushAll => exact .text _
  | clearWaitLocks => exact emits_clearLocks
  | instructionCacheEpilogue => exact .texts _

theorem emits_steps (ss : List Step) : Emits (steps l arch ss) (Body.steps l arch ss) :=
  .flatMap fun s _ => emits_step s

end Emit

end KernelFusion
