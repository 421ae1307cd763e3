import KernelFusion.Proofs.Shown
import KernelFusion.Proofs.Tuning
import Mathlib.Data.List.GetD

/-!
Texts that are never checked stay out of device code.

A function name or a parameter name that no check has seen could be anything, also a piece of a program.
Every part of the code that is written for an operator takes its names in the domains of the operator's
type, or of a table entry's type, which are the ones that were checked. So the code of a launch is the
code of what is shown of it:

        launch ──── shown ──── shown ──── launch
           │          ║          ║          │
         code ═════ code ═════ code ═════ code

Of all outputs only the parameter table tells requests apart that read alike, by the names of arguments.
-/

namespace KernelFusion

/-! ### Declarations -/

namespace Source

theorem symbolsOf_within (t : KernelType) (f : FunctionNames) (split : Nat) :
    symbolsOf t (f.within t.affinity) split = symbolsOf t f split := by
  unfold symbolsOf
  refine List.flatMap_congr fun d hd => ?_
  rw [FunctionNames.get?_within hd]

theorem operatorSymbols_shown (o : Operator) : operatorSymbols o.shown = operatorSymbols o := by
  cases hdispatch : o.dispatch with
  | static =>
    simp only [operatorSymbols, Operator.shown, Operator.isDynamic, hdispatch, Dispatch.shown]
    exact symbolsOf_within o.kernelType o.functions o.split
  | dynamic table =>
    simp only [operatorSymbols, Operator.shown, hdispatch, Dispatch.shown, List.flatMap_map]
    exact List.flatMap_congr fun e _ => symbolsOf_within e.kernelType e.functions o.split

theorem declarations_shown (g : Graph) : declarations (g.mapOperators Operator.shown) = declarations g := by
  simp only [declarations, declared, Graph.mapOperators, List.flatMap_map, operatorSymbols_shown]

theorem distinctDynamic_shown (seen : List String) (ops : List Operator) :
    distinctDynamic seen (ops.map Operator.shown) = (distinctDynamic seen ops).map Operator.shown := by
  induction ops generalizing seen with
  | nil => rfl
  | cons o ops ih =>
    have hname : o.shown.name = o.name := rfl
    simp only [List.map_cons, distinctDynamic, Operator.isDynamic_shown, hname, ih]
    split <;> rfl

end Source

/-! ### Dynamic operators -/

namespace Dynamic

theorem addressesOf_shown (e : TilingEntry) (split : Nat) (d : Domain) :
    addressesOf e.shown split d = addressesOf e split d := by
  unfold addressesOf
  by_cases hd : e.kernelType.affinity.contains d = true
  · have hfunction : e.shown.functions.get? d = e.functions.get? d :=
      FunctionNames.get?_within (List.contains_iff_mem.mp hd)
    rw [hfunction]
    rfl
  · rw [if_neg hd]
    exact if_neg hd

theorem select_shown (split : Nat) (e : TilingEntry) : select split e.shown = select split e := by
  rw [select, select, addressesOf_shown, addressesOf_shown]
  rfl

theorem search_shown (split : Nat) (table : List TilingEntry) :
    search split (table.map TilingEntry.shown) = search split table := by
  fun_induction search split table with
  | case1 => simp [search]
  | case2 e =>
    simp only [List.map_cons, List.map_nil, search, select_shown]
    rfl
  | case3 a b =>
    simp only [List.map_cons, List.map_nil, search, select_shown]
    rfl
  | case4 a b c rest entries middle ihlow ihhigh =>
    -- the halves of what is shown are what is shown of the halves
    have hentries : a.shown :: b.shown :: c.shown :: rest.map TilingEntry.shown
        = entries.map TilingEntry.shown := rfl
    have hkey : ((entries.map TilingEntry.shown).getD middle a.shown).key = (entries.getD middle a).key := by
      rw [List.getD_map]
      rfl
    rw [List.map_cons, List.map_cons, List.map_cons, search]
    simp only [hentries, List.length_map, ← List.map_take, ← List.map_drop]
    rw [hkey, ihlow, ihhigh]

theorem affinities_shown (table : List TilingEntry) :
    affinities (table.map TilingEntry.shown) = affinities table := by
  simp only [affinities, List.any_map]
  rfl

/-- The functions that choose and call the code of an operator. -/
theorem functions_shown (o : Operator) : functions o.shown = functions o := by
  simp only [functions, switchFunction, callFunction, switchBody, callBody, Operator.tiling_shown,
    search_shown, affinities_shown]
  rfl

end Dynamic

/-! ### Static operators -/

namespace Operator

variable {o : Operator} {d : Domain}

theorem get?_shown (h : o.isDynamic = false) (hd : d ∈ o.affinity.domains) :
    o.shown.functions.get? d = o.functions.get? d := by
  have hfunctions : o.shown.functions = o.functions.within o.affinity := by simp [shown, h]
  rw [hfunctions, FunctionNames.get?_within hd]

theorem textSize_shown (h : o.isDynamic = false) : o.shown.textSize = o.textSize := by
  simp [shown, h]

end Operator

theorem Prefetch.code_shown (o : Operator) (arch : Option Domain) : code o.shown arch = code o arch := by
  unfold code
  rw [Operator.isDynamic_shown]
  -- decided first, since a dynamic operator has no functions left for the code of a static one
  cases h : o.isDynamic with
  | true =>
    rw [if_pos rfl, if_pos rfl]
    rfl
  | false =>
    rw [if_neg Bool.false_ne_true, if_neg Bool.false_ne_true]
    have hpart : ∀ d ∈ o.affinity.domains, staticPart o.shown arch d = staticPart o arch d := by
      intro d hd
      rw [staticPart, staticPart, Operator.get?_shown h hd, Operator.textSize_shown h]
      rfl
    exact congrArg Code.concat (List.map_congr_left hpart)

theorem HandshakeSide.code_shown (s : HandshakeSide) (o : Operator) : s.code o.shown = s.code o := by
  have hunits : ∀ d, s.units o.shown d = s.units o d := by
    intro d
    rw [units, units, Operator.isDynamic_shown]
    rfl
  simp only [code, part, hunits]
  rfl

namespace Body

variable (l : Launch) (arch : Option Domain) (op : Nat)

theorem callStatic_shown {o : Operator} (h : o.isDynamic = false) (argsOffset : Nat) (feeds : Bool) :
    callStatic o.shown argsOffset feeds arch = callStatic o argsOffset feeds arch := by
  have hcall : ∀ d ∈ o.affinity.domains, callIn o.shown argsOffset feeds arch d
      = callIn o argsOffset feeds arch d := by
    intro d hd
    rw [callIn, callIn, Operator.get?_shown h hd]
    rfl
  exact congrArg Code.concat (List.map_congr_left hcall)

theorem feeds_shown : l.shown.feeds op = l.feeds op := by
  rw [Launch.feeds, Launch.feeds, l.mapped_shown.operator]
  rfl

theorem invoke_shown : invoke l.shown arch op = invoke l arch op := by
  simp only [invoke, l.mapped_shown.operator, Operator.isDynamic_shown, feeds_shown]
  cases h : (l.operator op).isDynamic with
  | true => rfl
  | false => exact callStatic_shown arch h _ _

theorem clearLocks_shown : clearLocks l.shown = clearLocks l := by
  simp only [clearLocks, l.mapped_shown.ids, l.mapped_shown.operator]
  rfl

/-! ### Steps -/

theorem step_shown (s : Step) : step l.shown arch s = step l arch s := by
  cases s with
  | preload op =>
    rw [step, step, l.mapped_shown.operator, Prefetch.code_shown]
  | earlyStartSet op =>
    rw [step, step, l.mapped_shown.operator, HandshakeSide.code_shown]
  | earlyStartWait op config =>
    rw [step, step, l.mapped_shown.operator, HandshakeSide.code_shown]
  | notify op =>
    rw [step, step, events, events, l.mapped_shown.operator]
    rfl
  | eventWait op =>
    rw [step, step, events, events, l.mapped_shown.operator]
    rfl
  | dynamicResolve op =>
    rw [step, step, withCells, withCells, l.mapped_shown.operator]
    rfl
  | feedSyncInit op =>
    rw [step, step, feedInit, feedInit, feeds_shown]
    rfl
  | invoke op =>
    rw [step, step, invoke_shown]
  | lockReset op =>
    rw [step, step, withCells, withCells, l.mapped_shown.operator]
    rfl
  | clearWaitLocks =>
    rw [step, step, clearLocks_shown]
  | _ => rfl

theorem steps_shown (ss : List Step) : steps l.shown arch ss = steps l arch ss :=
  congrArg Code.concat (List.map_congr_left fun s _ => step_shown l arch s)

end Body

/-! ### The whole source -/

namespace Source

variable (l : Launch)

theorem domainCode_shown (d : Domain) (steps : List Step) :
    domainCode l.shown d steps = domainCode l d steps := by
  rw [domainCode, domainCode, Body.steps_shown]
  rfl

theorem entry_shown (body : KernelBody) : entry l.shown body = entry l body := by
  have hdynamic : l.shown.graph.hasDynamic = l.graph.hasDynamic :=
    Graph.hasDynamic_mapOperators Operator.neutral_shown
  have hbody : entryBody l.shown body = entryBody l body := by
    cases body with
    | singleStream steps =>
      rw [entryBody, entryBody, Body.steps_shown, hdynamic]
      rfl
    | twoStream steps =>
      rw [entryBody, entryBody, Body.clearLocks_shown]
      rfl
  rw [entry, entry, hbody]
  rfl

/-- The code of a launch is the code of what is shown of it. -/
theorem code_shown (body : KernelBody) : code l.shown body = code l body := by
  have hfunctions : (distinctDynamic [] l.shown.graph.operators).map Dynamic.functions
      = (distinctDynamic [] l.graph.operators).map Dynamic.functions := by
    rw [show l.shown.graph.operators = l.graph.operators.map Operator.shown from rfl,
      distinctDynamic_shown, List.map_map]
    exact List.map_congr_left fun o _ => Dynamic.functions_shown o
  have hdeclarations : declarations l.shown.graph = declarations l.graph := declarations_shown l.graph
  simp only [code, hfunctions, hdeclarations, entry_shown, domainCode_shown]
  rfl

end Source

/-! ### Kernels -/

theorem Launch.defines_shown (l : Launch) : l.shown.defines = l.defines := by
  have hdynamic : l.shown.graph.hasDynamic = l.graph.hasDynamic :=
    Graph.hasDynamic_mapOperators Operator.neutral_shown
  rw [defines, defines, hdynamic]
  rfl

/-- The kernel without the names of arguments. -/
def FusedKernel.unnamed (k : FusedKernel) : FusedKernel := { k with table := k.table.unnamed }

namespace Generator

variable {r r' : Request} {l l' : Launch} {k k' : FusedKernel}

/-- The kernel of what is shown of a launch. -/
theorem kernel_shown (l : Launch) (body : KernelBody) (sync : SyncStats) :
    kernel l.shown body sync = (kernel l body sync).unnamed := by
  rw [kernel, Source.code_shown, Launch.defines_shown]
  rfl

/-- Launches that are shown alike have the same schedule. -/
theorem schedule_shown {s s' : KernelBody × SyncStats} (hl : launch r = .ok l) (hl' : launch r' = .ok l')
    (h : l'.shown = l.shown) (hs : schedule l = .ok s) (hs' : schedule l' = .ok s') : s' = s := by
  have hmodes : l'.shown.events.mode = l.shown.events.mode := by rw [h]
  cases hmode : l.events.mode with
  | singleStream =>
    have hmode' : l'.events.mode = .singleStream := hmodes.trans hmode
    have hsteps : SingleStream.steps l' = SingleStream.steps l := by
      rw [← SingleStream.steps_mapped l'.mapped_shown rfl, h, SingleStream.steps_mapped l.mapped_shown rfl]
    cases (schedule_of_singleStream hl hmode).symm.trans hs
    cases (schedule_of_singleStream hl' hmode').symm.trans hs'
    rw [hsteps]
  | twoStream =>
    have hmode' : l'.events.mode = .twoStream := hmodes.trans hmode
    have hsteps : ∀ d, TwoStream.steps ⟨l', TwoStream.keptEdges l'.graph⟩ d
        = TwoStream.steps ⟨l, TwoStream.keptEdges l.graph⟩ d := by
      intro d
      rw [← TwoStream.steps_mapped l'.mapped_shown.plan d rfl, h,
        TwoStream.steps_mapped l.mapped_shown.plan d rfl]
    have hstreams : streamSteps ⟨l', TwoStream.keptEdges l'.graph⟩
        = streamSteps ⟨l, TwoStream.keptEdges l.graph⟩ := by
      rw [streamSteps, streamSteps, hsteps, hsteps]
    have hstatic := Launch.static_of_schedule hmode hs
    have hstatic' := Launch.static_of_schedule hmode' hs'
    cases (schedule_of_twoStream hl hmode hstatic).symm.trans hs
    cases (schedule_of_twoStream hl' hmode' hstatic').symm.trans hs'
    rw [hstreams]

/-- Requests that read alike have kernels that differ in names of arguments only. -/
theorem generate_shown (h : r.ReadsLike r') (hk : generate r = .ok k) (hk' : generate r' = .ok k') :
    k'.unnamed = k.unnamed := by
  obtain ⟨l, body, sync, hl, hs, rfl⟩ := generate_ok_iff.mp hk
  obtain ⟨l', body', sync', hl', hs', rfl⟩ := generate_ok_iff.mp hk'
  have hshown : l'.shown = l.shown := launch_shown h hl hl'
  obtain ⟨rfl, rfl⟩ := Prod.mk.inj (schedule_shown hl hl' hshown hs hs')
  calc (kernel l' body' sync').unnamed
      = kernel l'.shown body' sync' := (kernel_shown l' body' sync').symm
    _ = kernel l.shown body' sync' := by rw [hshown]
    _ = (kernel l body' sync').unnamed := kernel_shown l body' sync'

/-- CORRECT: what no check has read reaches neither the source nor anything else of a kernel, except for
the names of arguments in its parameter table. -/
theorem unread_text_confined (h : r.ReadsLike r') (hk : generate r = .ok k) (hk' : generate r' = .ok k') :
    k' = { k with table := k'.table } ∧ k'.table.unnamed = k.table.unnamed := by
  have hkernel : k'.unnamed = k.unnamed := generate_shown h hk hk'
  refine ⟨?_, congrArg FusedKernel.table hkernel⟩
  calc k' = { k'.unnamed with table := k'.table } := rfl
    _ = { k.unnamed with table := k'.table } := by rw [hkernel]
    _ = { k with table := k'.table } := rfl

/-- A static and a dynamic operator, with a text and a number in all places that no check reads. -/
def annotatedRequest (text : String) (size : UInt32) : Request :=
  .ofOperators ""
    [{ OperatorDescriptor.onStream 0 "first" .aivOnly [] [] with
        params := [text], functions := ⟨some "first_vec", some text⟩
        debugOptions := "printf," ++ text },
      { OperatorDescriptor.choosing "second" .aicOnly
          [⟨3, KernelType.aicOnly.name, ⟨some text, some "second_cube"⟩⟩] with
        params := [text], functions := ⟨some text, some text⟩
        textSize := ⟨size.toUInt64, size.toUInt64⟩, blockDim := size }]

theorem annotatedRequest_readsLike :
    (annotatedRequest "x" 0).ReadsLike (annotatedRequest "); run(" 4096) where
  others := rfl
  operators := by
    refine .cons ?_ (.cons ?_ .nil)
    · refine ⟨rfl, rfl, by decide +kernel, .nil, fun _ => ?_, fun _ => rfl, fun _ => rfl⟩
      exact FunctionNames.agreeOn_of_type (t := .aivOnly) (by decide) (by decide)
    · have hcase : FunctionNames.AgreeOn KernelType.aicOnly.name ⟨some "x", some "second_cube"⟩
          ⟨some "); run(", some "second_cube"⟩ :=
        FunctionNames.agreeOn_of_type (t := .aicOnly) (by decide) (by decide)
      refine ⟨rfl, rfl, by decide +kernel, .cons ⟨rfl, rfl, hcase⟩ .nil, ?_, ?_, ?_⟩
      all_goals exact fun hstatic => absurd hstatic (by decide)

/-- A text that would end a call changes the table, and the source is the same. -/
theorem annotatedRequest_confined :
    (annotatedRequest "x" 0).ReadsLike (annotatedRequest "); run(" 4096) ∧
    ∃ k k', generate (annotatedRequest "x" 0) = .ok k ∧
      generate (annotatedRequest "); run(" 4096) = .ok k' ∧ k'.source = k.source ∧
      k'.table ≠ k.table ∧ k'.table.unnamed = k.table.unnamed := by
  obtain ⟨l, body, sync, hl, hs, hfirst⟩ : ∃ l body sync, launch (annotatedRequest "x" 0) = .ok l ∧
      schedule l = .ok (body, sync) ∧
      decide (l.table.slots[1]? = some (Slot.argument "first" "x_0")) = true :=
    exists_schedule_of_test (by decide +kernel)
  obtain ⟨l', body', sync', hl', hs', hfirst'⟩ : ∃ l body sync,
      launch (annotatedRequest "); run(" 4096) = .ok l ∧ schedule l = .ok (body, sync) ∧
      decide (l.table.slots[1]? = some (Slot.argument "first" "); run(_0")) = true :=
    exists_schedule_of_test (by decide +kernel)
  have hk : generate (annotatedRequest "x" 0) = .ok (kernel l body sync) :=
    generate_ok_iff.mpr ⟨l, body, sync, hl, hs, rfl⟩
  have hk' : generate (annotatedRequest "); run(" 4096) = .ok (kernel l' body' sync') :=
    generate_ok_iff.mpr ⟨l', body', sync', hl', hs', rfl⟩
  obtain ⟨hsame, htable⟩ := unread_text_confined annotatedRequest_readsLike hk hk'
  have hsource := congrArg FusedKernel.source hsame
  refine ⟨annotatedRequest_readsLike, _, _, hk, hk', hsource, ?_, htable⟩
  intro heq
  have hslots : l'.table.slots[1]? = l.table.slots[1]? := congrArg (fun t => t.slots[1]?) heq
  rw [of_decide_eq_true hfirst, of_decide_eq_true hfirst'] at hslots
  exact absurd hslots (by decide)

end Generator

end KernelFusion
