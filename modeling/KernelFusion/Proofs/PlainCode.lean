import KernelFusion.Proofs.PlainText

/-!
Code without braces of its own.

The text of an accepted request's code has no braces but those around its blocks: every step, and the
functions of every dynamic operator, is put together from parts that have none.
-/

namespace KernelFusion

open Text

def Piece.Plain : Piece → Prop
  | .line s => s.Plain
  | .enter h => h.Plain
  | .branch c => c.Plain
  | .orBranch c => c.Plain
  | _ => True

namespace Code

def Plain (c : Code) : Prop := ∀ q ∈ c.pieces, q.Plain

/-! ### Code that is put together -/

variable {a b yes no : Code} {c : Cond}

theorem plain_done : done.Plain := by simp [Plain]

theorem plain_empty : empty.Plain := by simp [Plain, Piece.Plain]

theorem Plain.append (ha : a.Plain) (hb : b.Plain) : (a ++ b).Plain := by
  intro q hq
  rw [pieces_append, List.mem_append] at hq
  exact hq.elim (ha q) (hb q)

theorem plain_concat {cs : List Code} (h : ∀ c ∈ cs, c.Plain) : (concat cs).Plain := by
  intro q hq
  rw [pieces_concat, List.mem_flatMap] at hq
  obtain ⟨c, hc, hq⟩ := hq
  exact h c hc q hq

theorem plain_stmts {ss : List Stmt} (h : ∀ s ∈ ss, s.Plain) : (stmts ss).Plain := by
  intro q hq
  rw [pieces_stmts, List.mem_map] at hq
  obtain ⟨s, hs, rfl⟩ := hq
  exact h s hs

theorem plain_stmt {s : Stmt} (h : s.Plain) : (stmt s).Plain := by
  intro q hq
  rw [pieces_stmt, List.mem_singleton] at hq
  exact hq ▸ h

theorem plain_text {s : String} (h : Text.Plain s) : (text s).Plain := plain_stmt h

theorem plain_texts {ss : List String} (h : ∀ s ∈ ss, Text.Plain s) : (texts ss).Plain := by
  refine plain_stmts fun s hs => ?_
  obtain ⟨t, ht, rfl⟩ := List.mem_map.mp hs
  exact h t ht

theorem plain_when (hc : c.Plain) (hyes : yes.Plain) : (when c yes).Plain := by
  intro q hq
  rw [pieces_when, List.cons_append, List.mem_cons, List.mem_append, List.mem_singleton] at hq
  rcases hq with rfl | hq | rfl
  · exact hc
  · exact hyes q hq
  · trivial

theorem plain_either (hc : c.Plain) (hyes : yes.Plain) (hno : no.Plain) : (either c yes no).Plain := by
  intro q hq
  simp only [pieces_either, List.cons_append, List.append_assoc, List.mem_cons, List.mem_append,
    List.not_mem_nil, or_false] at hq
  rcases hq with rfl | hq | rfl | hq | rfl
  · exact hc
  · exact hyes q hq
  · trivial
  · exact hno q hq
  · trivial

theorem plain_block {head : Head} (hhead : head.Plain) (ha : a.Plain) : (block head a done).Plain := by
  intro q hq
  rw [pieces_block, List.cons_append, List.mem_cons, List.mem_append, List.mem_singleton] at hq
  rcases hq with rfl | hq | rfl
  · exact hhead
  · exact ha q hq
  · trivial

end Code

open Code

/-! ### Choices among variants -/

section Variants

variable {tail : Option Stmt} {ss : List Stmt}

theorem plain_variantBody (htail : ∀ t ∈ tail, t.Plain) {s : Stmt} (hs : s.Plain) :
    (variantBody tail s).Plain :=
  plain_stmts (List.forall_mem_cons.mpr ⟨hs, by simpa using htail⟩)

theorem plain_variantArms (htail : ∀ t ∈ tail, t.Plain) (split i : Nat) (hss : ∀ s ∈ ss, s.Plain) :
    ∀ q ∈ (variantArms split tail i ss).pieces, q.Plain := by
  induction ss generalizing i with
  | nil => simp
  | cons s ss ih =>
    obtain ⟨hs, hss⟩ := List.forall_mem_cons.mp hss
    have hbody := plain_variantBody htail hs
    cases ss with
    | nil => exact List.forall_mem_cons.mpr ⟨trivial, hbody⟩
    | cons t ss =>
      refine List.forall_mem_cons.mpr ⟨trivial, fun q hq => ?_⟩
      exact (List.mem_append.mp hq).elim (hbody q) (ih (i + 1) hss q)

theorem plain_variantChain (htail : ∀ t ∈ tail, t.Plain) (hss : ∀ s ∈ ss, s.Plain) :
    (variantChain ss tail).Plain := by
  cases ss with
  | nil => exact plain_stmts (by simpa using htail)
  | cons s ss =>
    obtain ⟨hs, hss⟩ := List.forall_mem_cons.mp hss
    have hbody := plain_variantBody htail hs
    cases ss with
    | nil => exact hbody
    | cons t ss =>
      refine List.forall_mem_cons.mpr ⟨trivial, List.forall_mem_cons.mpr ⟨trivial, fun q hq => ?_⟩⟩
      rcases List.mem_append.mp hq with hq | hq
      · exact (List.mem_append.mp hq).elim (hbody q) (plain_variantArms htail _ _ hss q)
      · rw [List.mem_singleton.mp hq]
        trivial

theorem Guarded.plain_code {g : Guarded} (hlimit : (Cond.blockBelow g.index g.limit).Plain)
    (hvariants : ∀ s ∈ g.variants, s.Plain) (hbefore : ∀ s ∈ g.before, s.Plain)
    (hafter : ∀ s ∈ g.after, s.Plain) (htail : ∀ s ∈ g.tail, s.Plain)
    (hcomplement : ∀ s ∈ g.complement, s.Plain) (arch : Option Domain) : (g.code arch).Plain := by
  have hchain := plain_variantChain htail hvariants
  have hgate : g.gate.Plain := by
    unfold gate
    cases hc : g.complement with
    | none => exact plain_when hlimit hchain
    | some s => exact plain_either hlimit hchain (plain_stmt (hcomplement s hc))
  have hbody := ((plain_stmts hbefore).append hgate).append (plain_stmts hafter)
  unfold code
  refine .append ?_ plain_empty
  split
  · exact hbody
  · exact plain_when trivial hbody

end Variants

/-! ### Names in a launch -/

/-- The functions of a kernel type have names without braces. -/
def FunctionNames.Plain (f : FunctionNames) (t : KernelType) : Prop :=
  ∀ d ∈ t.affinity.domains, ∀ base, f.get? d = some base → Text.Plain base

theorem FunctionNames.Proper.plain {f : FunctionNames} {t : KernelType} (h : f.Proper t) : f.Plain t :=
  fun d hd base hbase => plain_of_all (all_of_isIdentifier (h d hd base hbase))

/-- The names of an operator that device code uses. -/
structure Operator.PlainNames (o : Operator) : Prop where
  name : Text.Plain o.name
  functions : o.isDynamic = false → o.functions.Plain o.kernelType
  table : ∀ e ∈ o.tiling, e.functions.Plain e.kernelType

theorem Operator.ProperNames.plain {o : Operator} (h : o.ProperNames) : o.PlainNames where
  name := plain_of_all h.name
  functions := fun hstatic => (h.functions hstatic).plain
  table := fun e he => (h.table e he).plain

theorem Generator.launch_plainNames {r : Request} {l : Launch} (hl : launch r = .ok l) (op : Nat) :
    (l.operator op).PlainNames := (launch_properNames hl op).plain

theorem plain_variantSymbols {base : String} (hbase : Text.Plain base) (split : Nat) :
    ∀ s ∈ variantSymbols base split, Text.Plain s := by
  intro s hs
  obtain ⟨i, _, rfl⟩ := List.mem_map.mp hs
  exact plain_variantSymbol hbase i

/-! ### Steps -/

/-- A step whose own text has no braces. -/
def Step.Plain : Step → Prop
  | .comment text => Text.Plain text
  | .barrier b => ∀ reason ∈ b.reason, Text.Plain reason
  | _ => True

theorem Sync.plain_flushCell {cell : String} (h : Text.Plain cell) : Text.Plain (flushCell cell) := by
  refine .append (.append ?_ h) ?_ <;> exact plain_literal (by decide)

theorem Sync.plain_waitText {flag : String} (h : Text.Plain flag) : Text.Plain (waitText flag) := by
  refine .append (.append ?_ h) ?_ <;> exact plain_literal (by decide)

theorem Sync.plain_domainBarrier (d : Domain) : ∀ s ∈ domainBarrier d, Text.Plain s := by
  have hflag : Text.Plain (meetingFlag d) := by cases d <;> exact plain_literal (by decide)
  have hpipe : Text.Plain (Pipe.draining d).text := by cases d <;> exact plain_literal (by decide)
  simp only [domainBarrier, List.forall_mem_cons]
  refine ⟨?_, plain_waitText hflag, by simp⟩
  refine .append (.append (.append (.append ?_ hpipe) ?_) hflag) ?_ <;> exact plain_literal (by decide)

theorem Flag.plain_text (flag : Flag) : Text.Plain flag.text := by
  cases flag with
  | channel id => exact plain_nat id
  | aivToAic => exact plain_literal (by decide)
  | aicToAiv => exact plain_literal (by decide)

theorem Sync.plain_raise (pipe : Pipe) (flag : Flag) : Text.Plain (raise pipe flag) := by
  have hpipe : Text.Plain pipe.text := by cases pipe <;> exact plain_literal (by decide)
  refine .append (.append (.append (.append ?_ hpipe) ?_) flag.plain_text) ?_ <;>
    exact plain_literal (by decide)

theorem Recorder.plain_mark (event : Nat) (kind : ProfilingKind) (start : Bool) :
    Text.Plain (mark event kind start) := by
  have hkind : Text.Plain (kindText kind) := by cases kind <;> exact plain_literal (by decide)
  refine .append (.append (.append (.append (.append (.append ?_ (plain_nat event)) ?_) hkind) ?_)
    (plain_bool start)) ?_ <;> exact plain_literal (by decide)

theorem Events.plain_lockLines {o : Operator} (ho : o.PlainNames) (d : Domain)
    (direction : EventDirection) (profiling : Bool) (lock : UInt32 × Nat) :
    ∀ s ∈ lockLines o d direction profiling lock, Text.Plain s := by
  have hmark (start : Bool) : ∀ s ∈ (if profiling then
      [Recorder.mark lock.1.toNat direction.kind start] else []), Text.Plain s := by
    cases profiling <;> simp [Recorder.plain_mark]
  have hfunction : Text.Plain direction.function := by
    cases direction <;> exact plain_literal (by decide)
  intro s hs
  simp only [lockLines, List.mem_append, List.mem_singleton] at hs
  rcases hs with ((rfl | hs) | rfl) | hs
  · refine .append (.append (.append (.append (.append ?_ ho.name) ?_) (plain_nat lock.1.toNat)) ?_)
      (plain_nat lock.2) <;> exact plain_literal (by decide)
  · exact hmark true s hs
  · refine .append (.append (.append (.append (.append hfunction ?_) (plain_bool _)) ?_)
      (plain_nat lock.2)) ?_ <;> exact plain_literal (by decide)
  · exact hmark false s hs

theorem Events.plain_code {o : Operator} (ho : o.PlainNames) (d : Domain) (direction : EventDirection)
    (locks : List (UInt32 × Nat)) (profiling : Bool) :
    (Events.code o d direction locks profiling).Plain := by
  unfold code
  split
  · exact plain_done
  · refine plain_when trivial (plain_texts fun s hs => ?_)
    obtain ⟨lock, _, hs⟩ := List.mem_flatMap.mp hs
    exact plain_lockLines ho d direction profiling lock s hs

namespace Dynamic

theorem plain_addresses (split : Nat) : Text.Plain (addresses split) := by
  refine plain_intercalate (plain_literal (by decide)) fun s hs => ?_
  obtain ⟨v, _, rfl⟩ := List.mem_map.mp hs
  exact v.plain_address

variable {o : Operator}

theorem plain_resolveCode (ho : o.PlainNames) (cells : DynamicSlots) : (resolveCode o cells).Plain := by
  refine plain_text (.append (.append (.append (.append (.append (.append (.append ?_ ho.name) ?_)
    (plain_nat _)) ?_) (plain_nat _)) ?_) (.append (.append (.append (.append ?_ (plain_nat _)) ?_)
    (plain_addresses _)) ?_)) <;> exact plain_literal (by decide)

theorem plain_resetCode (o : Operator) (cells : DynamicSlots) : (resetCode o cells).Plain := by
  have hcell : Text.Plain "lockAddr" := plain_literal (by decide)
  have hslot : Text.Plain s!"param_base[{cells.readyLock}]" := by
    refine .append (.append ?_ (plain_nat _)) ?_ <;> exact plain_literal (by decide)
  refine plain_when trivial (plain_when trivial (.append (plain_stmt ⟨hcell, hslot⟩) (plain_texts ?_)))
  simp only [Sync.store, List.forall_mem_cons]
  refine ⟨?_, Sync.plain_flushCell hcell, by simp⟩
  refine .append (.append (.append (.append ?_ hcell) ?_) (plain_nat _)) ?_ <;>
    exact plain_literal (by decide)

/-! ### Functions of dynamic operators -/

theorem plain_select {e : TilingEntry} (he : e.functions.Plain e.kernelType) (split : Nat) :
    (select split e).Plain := by
  have haddresses (d : Domain) : ∀ s ∈ addressesOf e split d, s.Plain := by
    intro s hs
    unfold addressesOf at hs
    split at hs
    next hd =>
      cases hbase : e.functions.get? d with
      | none => simp [hbase] at hs
      | some base =>
        simp only [hbase] at hs
        obtain ⟨v, _, rfl⟩ := List.mem_map.mp hs
        have hplain := he d (by simpa [Affinity.contains] using hd) base hbase
        exact plain_variantSymbol hplain v.index
    next => cases hs
  refine plain_stmts fun s hs => ?_
  rcases List.mem_append.mp hs with hs | hs
  · exact (List.mem_append.mp hs).elim (haddresses _ s) (haddresses _ s)
  · rw [List.mem_singleton.mp hs]
    trivial

/-- A search through any number of entries. -/
theorem plain_search {table : List TilingEntry} (h : ∀ e ∈ table, e.functions.Plain e.kernelType)
    (split : Nat) : (search split table).Plain := by
  fun_induction search split table with
  | case1 => exact plain_done
  | case2 e => exact plain_when trivial (plain_select (h e (by simp)) split)
  | case3 a b =>
    exact plain_either trivial (plain_select (h a (by simp)) split) (plain_select (h b (by simp)) split)
  | case4 a b c rest entries middle ihlow ihhigh =>
    exact plain_either trivial (ihlow fun e he => h e (List.mem_of_mem_take he))
      (ihhigh fun e he => h e (List.mem_of_mem_drop he))

theorem plain_calls (split : Nat) (d : Domain) : (calls split d).Plain := by
  refine plain_variantChain (by simp) fun s hs => ?_
  obtain ⟨v, _, rfl⟩ := List.mem_map.mp hs
  trivial

theorem plain_callOf (split : Nat) (a : Affinity) : (callOf split a).Plain := by
  have hcount : Text.Plain "numBlocks" := plain_literal (by decide)
  have hcalls := plain_calls split
  cases a with
  | mixed => exact plain_when hcount (plain_either trivial (hcalls .cube) (hcalls .vector))
  | cubeOnly => exact plain_when hcount (plain_when trivial (hcalls _))
  | vectorOnly => exact plain_when hcount (plain_when trivial (hcalls _))

theorem plain_callArms (split : Nat) (as : List Affinity) :
    ∀ q ∈ (callArms split as).pieces, q.Plain := by
  induction as with
  | nil => simp [callArms, Arms.pieces]
  | cons a as ih =>
    refine List.forall_mem_cons.mpr ⟨trivial, fun q hq => ?_⟩
    exact (List.mem_append.mp hq).elim (plain_callOf split a q) (ih q)

/-- The call for any set of classes. -/
theorem plain_callByClass (split : Nat) (as : List Affinity) : (callByClass split as).Plain := by
  cases as with
  | nil => exact plain_done
  | cons a as =>
    refine List.forall_mem_cons.mpr ⟨trivial, fun q hq => ?_⟩
    rcases List.mem_append.mp hq with hq | hq
    · exact (List.mem_append.mp hq).elim (plain_callOf split a q) (plain_callArms split as q)
    · rw [List.mem_singleton.mp hq]
      trivial

theorem plain_switchFunction (ho : o.PlainNames) : (switchFunction o).Plain := by
  have hlock : Text.Plain "lockAddr" := plain_literal (by decide)
  have hcomment : Text.Plain s!"// begin implement of dynamic op {o.name}" :=
    .append (plain_literal (by decide)) ho.name
  have hhead : (Head.routine (switchRoutine o)).Plain := by
    refine ⟨plain_literal (by decide), .append (plain_literal (by decide)) ho.name, fun p hp => ?_⟩
    simp only [switchRoutine, List.mem_append, List.mem_cons, List.mem_map, List.not_mem_nil,
      or_false] at hp
    rcases hp with ((rfl | rfl | rfl) | ⟨v, _, rfl⟩) | rfl
    · exact ⟨plain_literal (by decide), plain_literal (by decide)⟩
    · exact ⟨plain_literal (by decide), plain_literal (by decide)⟩
    · exact ⟨plain_literal (by decide), plain_literal (by decide)⟩
    · exact ⟨plain_literal (by decide), v.plain_address⟩
    · exact ⟨plain_literal (by decide), plain_literal (by decide)⟩
  have hcells : (Code.stmts [.bindCell "tilingKeyAddr" "__ac_dynamic_tiling_key" false,
      .bindCell "blockNumAddr" "__ac_dynamic_block_num" false,
      .bindCell "lockAddr" "__ac_dynamic_lock" true]).Plain := by
    refine plain_stmts ?_
    simp only [List.forall_mem_cons]
    refine ⟨⟨?_, ?_⟩, ⟨?_, ?_⟩, ⟨hlock, ?_⟩, by simp⟩ <;> exact plain_literal (by decide)
  have hspin : (Sync.spin "lockAddr" LockState.ready.value).Plain :=
    (plain_text (Sync.plain_flushCell hlock)).append
      (plain_block hlock (plain_text (Sync.plain_flushCell hlock)))
  have hbody : (switchBody o).Plain :=
    (((hcells.append hspin).append plain_empty).append (plain_search ho.table o.split)).append
      (plain_text (plain_literal (by decide)))
  exact ((plain_text hcomment).append (plain_block hhead hbody)).append plain_empty

theorem plain_callFunction (ho : o.PlainNames) : (callFunction o).Plain := by
  have hhead : (Head.routine (callRoutine o)).Plain := by
    refine ⟨plain_literal (by decide), .append (plain_literal (by decide)) ho.name, fun p hp => ?_⟩
    simp only [callRoutine, List.mem_append, List.mem_cons, List.mem_map, List.not_mem_nil,
      or_false] at hp
    rcases hp with (rfl | ⟨v, _, rfl⟩) | rfl
    · exact ⟨plain_literal (by decide), plain_literal (by decide)⟩
    · exact ⟨plain_literal (by decide), v.plain_parameter⟩
    · exact ⟨plain_literal (by decide), plain_literal (by decide)⟩
  have hfront : (Code.stmts ([.unpackClass, .unpackCount,
      .text "g_super_kernel_dynamic_block_num = numBlocks;",
      .text "using FuncType = void (*)(uint64_t args_offset);"]
      ++ (variants o.split).map .bindPointer)).Plain := by
    refine plain_stmts fun s hs => ?_
    simp only [List.mem_append, List.mem_cons, List.mem_map, List.not_mem_nil, or_false] at hs
    rcases hs with (rfl | rfl | rfl | rfl) | ⟨v, _, rfl⟩
    · trivial
    · trivial
    · exact plain_literal (by decide)
    · exact plain_literal (by decide)
    · trivial
  exact (plain_block hhead (hfront.append (plain_callByClass o.split _))).append plain_empty

theorem plain_functions (ho : o.PlainNames) : (functions o).Plain :=
  (plain_switchFunction ho).append (plain_callFunction ho)

end Dynamic

namespace Body

theorem plain_onDomain {c : Code} (hc : c.Plain) (arch : Option Domain) (d : Domain) :
    (onDomain arch d c).Plain := by
  unfold onDomain
  split
  · split
    · exact hc
    · exact plain_done
  · exact plain_when trivial hc

theorem plain_barrier {b : Barrier} (hb : ∀ reason ∈ b.reason, Text.Plain reason) (arch : Option Domain) :
    (barrier arch b).Plain := by
  unfold barrier
  cases hscope : b.scope with
  | full =>
    refine plain_text ?_
    unfold Sync.fullBarrier
    cases hreason : b.reason with
    | none => exact plain_literal (by decide)
    | some reason => exact .append (plain_literal (by decide)) (hb reason hreason)
  | domain d =>
    refine .append ?_ (plain_onDomain (plain_texts (Sync.plain_domainBarrier d)) arch d)
    cases hreason : b.reason with
    | none => exact plain_done
    | some reason => exact plain_text (.append (plain_literal (by decide)) (hb reason hreason))

theorem plain_flush {option : String} (h : Text.Plain option) (wanted : Bool) :
    ∀ s ∈ flush wanted option, s.Plain := by
  cases wanted with
  | false => simp [flush]
  | true =>
    have hcomment : Text.Plain s!"// option: {option}" := .append (plain_literal (by decide)) h
    have hflush : Text.Plain Sync.flushAll := plain_literal (by decide)
    simp only [flush, if_true, List.forall_mem_cons]
    exact ⟨hcomment, hflush, plain_nil, by simp⟩

theorem plain_before (o : Operator) : ∀ s ∈ before o, s.Plain := plain_flush (plain_literal (by decide)) _

theorem plain_after (o : Operator) : ∀ s ∈ after o, s.Plain := plain_flush (plain_literal (by decide)) _

theorem plain_callStatic {o : Operator} (ho : o.PlainNames) (hstatic : o.isDynamic = false) (n : Nat)
    (feeds : Bool) (arch : Option Domain) : (callStatic o n feeds arch).Plain := by
  refine plain_concat fun c hc => ?_
  obtain ⟨d, hd, rfl⟩ := List.mem_map.mp hc
  unfold callIn
  cases hbase : o.functions.get? d with
  | none => exact plain_done
  | some base =>
    simp only
    split
    · exact plain_done
    · refine Guarded.plain_code ?_ (fun s hs => ?_) (plain_before o) (plain_after o)
        (fun s hs => ?_) (fun s hs => ?_) arch
      · trivial
      · obtain ⟨symbol, hsymbol, rfl⟩ := List.mem_map.mp hs
        exact plain_variantSymbols (ho.functions hstatic d hd base hbase) _ symbol hsymbol
      all_goals
        cases feeds with
        | false => cases hs
        | true =>
          cases hs
          exact plain_literal (by decide)

theorem plain_invoke {l : Launch} {op : Nat} (ho : (l.operator op).PlainNames) (arch : Option Domain) :
    (invoke l arch op).Plain := by
  unfold invoke
  simp only
  split
  next =>
    refine .append (.append (plain_stmts (plain_before _)) (plain_text ?_)) (plain_stmts (plain_after _))
    refine .append (.append (.append (.append (.append (.append ?_ ho.name) ?_) (plain_nat _)) ?_)
      (Dynamic.plain_addresses _)) ?_ <;> exact plain_literal (by decide)
  next hstatic => exact plain_callStatic ho (Bool.eq_false_iff.mpr hstatic) _ _ arch

end Body

namespace Prefetch

theorem plain_guarded (o : Operator) (d : Domain) (arch : Option Domain) {variants : List Stmt}
    (h : ∀ s ∈ variants, s.Plain) : (guarded o d arch variants).Plain := by
  refine Guarded.plain_code ?_ h ?_ ?_ ?_ ?_ arch
  · trivial
  all_goals simp [Guarded.make]

theorem plain_code {o : Operator} (ho : o.PlainNames) (arch : Option Domain) : (code o arch).Plain := by
  unfold code
  split
  next =>
    refine plain_concat fun c hc => ?_
    obtain ⟨d, _, rfl⟩ := List.mem_map.mp hc
    refine plain_guarded o d arch fun s hs => ?_
    obtain ⟨v, _, rfl⟩ := List.mem_map.mp hs
    trivial
  next hstatic =>
    refine plain_concat fun c hc => ?_
    obtain ⟨d, hd, rfl⟩ := List.mem_map.mp hc
    unfold staticPart
    cases hbase : o.functions.get? d with
    | none => exact plain_done
    | some base =>
      simp only
      split
      · exact plain_done
      · refine plain_guarded o d arch fun s hs => ?_
        obtain ⟨symbol, hsymbol, rfl⟩ := List.mem_map.mp hs
        exact plain_variantSymbols (ho.functions (Bool.eq_false_iff.mpr hstatic) d hd base hbase) _ symbol
          hsymbol

end Prefetch

theorem HandshakeSide.plain_code (side : HandshakeSide) (o : Operator) : (side.code o).Plain := by
  have hpart (d : Domain) : (side.part o d).Plain := by
    have hunits : (side.units o d).Plain := by
      unfold units
      split <;> trivial
    have htext : Text.Plain (side.text o d) := by
      cases side with
      | set =>
        cases d <;> exact plain_ite (plain_literal (by decide)) (plain_literal (by decide))
      | wait config =>
        refine .append (.append ?_ (plain_nat config)) ?_ <;> exact plain_literal (by decide)
    exact .append (plain_when trivial (plain_when hunits (plain_text htext))) plain_empty
  exact (hpart _).append (hpart _)

namespace Body

variable {l : Launch}

theorem plain_clearLocks (l : Launch) : (clearLocks l).Plain := by
  refine plain_concat fun c hc => ?_
  obtain ⟨op, _, rfl⟩ := List.mem_map.mp hc
  unfold Events.clearCode
  split
  · exact plain_done
  · refine plain_when trivial (plain_when trivial (plain_texts fun s hs => ?_))
    obtain ⟨lock, _, rfl⟩ := List.mem_map.mp hs
    refine .append (.append ?_ (plain_nat lock.2)) ?_ <;> exact plain_literal (by decide)

theorem plain_feedInit (l : Launch) (arch : Option Domain) (op : Nat) : (feedInit l arch op).Plain := by
  unfold feedInit
  split
  · have harea (skipped : Option Nat) : (Code.stmt (.feedArea skipped op)).Plain :=
      plain_stmt (s := .feedArea skipped op) trivial
    refine .append (.append (plain_texts ?_) (plain_onDomain (harea _) arch _))
      (plain_onDomain (harea _) arch _)
    simp only [List.forall_mem_cons]
    exact ⟨plain_literal (by decide), plain_literal (by decide), by simp⟩
  · exact plain_text (plain_literal (by decide))

theorem plain_withCells {op : Nat} {f : Operator → DynamicSlots → Code}
    (hf : ∀ cells, (f (l.operator op) cells).Plain) : (withCells l op f).Plain := by
  unfold withCells
  split
  · exact hf _
  · exact plain_done

theorem plain_epilogue : ∀ s ∈ epilogue, Text.Plain s := by
  simp only [epilogue, List.forall_mem_cons]
  refine ⟨?_, ?_, ?_, ?_, ?_, by simp⟩ <;> exact plain_literal (by decide)

/-- Every step whose own text has no braces is written without others than those of its blocks. -/
theorem plain_step {s : Step} (hnames : ∀ op, (l.operator op).PlainNames) (hs : s.Plain)
    (arch : Option Domain) : (step l arch s).Plain := by
  cases s with
  | comment text => exact plain_text hs
  | pipeAll => exact plain_text (plain_literal (by decide))
  | barrier b => exact plain_barrier hs arch
  | signal _ producer pipe flag => exact plain_onDomain (plain_text (Sync.plain_raise pipe flag)) arch _
  | wait _ consumer flag =>
    exact plain_onDomain (plain_text (Sync.plain_waitText flag.plain_text)) arch _
  | preloadWhole =>
    refine plain_text (.append (.append ?_ (plain_nat _)) ?_) <;> exact plain_literal (by decide)
  | preload op => exact Prefetch.plain_code (hnames op) arch
  | earlyStartSet op => exact HandshakeSide.plain_code .set _
  | earlyStartConfig config =>
    refine plain_text (.append (.append ?_ (plain_nat config)) ?_) <;> exact plain_literal (by decide)
  | earlyStartWait op config => exact HandshakeSide.plain_code (.wait config) _
  | notify op => exact Events.plain_code (hnames op) _ .notify _ _
  | eventWait op => exact Events.plain_code (hnames op) _ .wait _ _
  | dynamicResolve op => exact plain_withCells fun cells => Dynamic.plain_resolveCode (hnames op) cells
  | feedSyncInit op => exact plain_feedInit l arch op
  | profile event kind start => exact plain_text (Recorder.plain_mark event kind start)
  | invoke op => exact plain_invoke (hnames op) arch
  | lockReset op => exact plain_withCells fun cells => Dynamic.plain_resetCode _ cells
  | cacheFlushAll => exact plain_text (plain_literal (by decide))
  | clearWaitLocks => exact plain_clearLocks l
  | instructionCacheEpilogue => exact plain_texts plain_epilogue

theorem plain_steps {ss : List Step} (hnames : ∀ op, (l.operator op).PlainNames)
    (hss : ∀ s ∈ ss, s.Plain) (arch : Option Domain) : (steps l arch ss).Plain := by
  refine plain_concat fun c hc => ?_
  obtain ⟨s, hs, rfl⟩ := List.mem_map.mp hc
  exact plain_step hnames (hss s hs) arch

end Body

end KernelFusion
