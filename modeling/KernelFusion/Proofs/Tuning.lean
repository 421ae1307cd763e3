import KernelFusion.Proofs.OuterEvents
import KernelFusion.Proofs.Ownership
import KernelFusion.Proofs.SingleStreamCheck
import KernelFusion.Proofs.Untuned

/-!
Tuning options never change how a kernel is synchronized.

They add steps that load instructions, keep a profile, flush caches or feed the operators' own barriers.
Without those steps, and without comments, a schedule is the one of the untuned launch; this is its
skeleton. Nothing that is counted or checked of a schedule is outside of it.

        steps       preload 0  profile  invoke 0  barrier  preload 1  invoke 1  profile
        skeleton                        invoke 0  barrier             invoke 1
-/

namespace KernelFusion

/-! ### Skeletons -/

/-- Whether tuning options decide on the step, or it is a comment. -/
def Step.isTuning : Step → Bool
  | .comment _ => true
  | .preloadWhole => true
  | .preload _ => true
  | .feedSyncInit _ => true
  | .profile .. => true
  | .cacheFlushAll => true
  | _ => false

@[simp] theorem Step.isTuning_beginOperator (name : String) :
    (beginOperator name).isTuning = true := rfl

theorem Step.isFullBarrier_kept (s : Step) (h : s.isFullBarrier = true) : s.isTuning = false := by
  cases s <;> simp_all [isFullBarrier, isTuning]

theorem Step.isDomainBarrier_kept (s : Step) (h : s.isDomainBarrier = true) : s.isTuning = false := by
  cases s <;> simp_all [isDomainBarrier, isTuning]

theorem Step.isWait_kept (s : Step) (h : s.isWait = true) : s.isTuning = false := by
  cases s <;> simp_all [isWait, isTuning]

namespace Schedule

/-- The steps that tuning options leave as they are. -/
def skeleton (steps : List Step) : List Step := steps.filter fun s => !s.isTuning

@[simp] theorem skeleton_nil : skeleton [] = [] := rfl

@[simp] theorem skeleton_cons (s : Step) (steps : List Step) :
    skeleton (s :: steps) = if s.isTuning then skeleton steps else s :: skeleton steps := by
  cases hs : s.isTuning <;> simp [skeleton, hs]

@[simp] theorem skeleton_append (xs ys : List Step) :
    skeleton (xs ++ ys) = skeleton xs ++ skeleton ys :=
  List.filter_append ..

@[simp] theorem skeleton_ite (c : Prop) [Decidable c] (xs ys : List Step) :
    skeleton (if c then xs else ys) = if c then skeleton xs else skeleton ys :=
  apply_ite skeleton c xs ys

/-- A step that options add or leave out. -/
theorem skeleton_optional {s : Step} (h : s.isTuning = true) (c : Prop) [Decidable c] :
    skeleton (if c then [s] else []) = [] := by
  simp [h]

/-- A test that no tuning step passes counts the skeleton. -/
theorem countP_skeleton {test : Step → Bool} (h : ∀ s, test s = true → s.isTuning = false)
    (steps : List Step) : (skeleton steps).countP test = steps.countP test := by
  rw [List.countP_eq_length_filter, List.countP_eq_length_filter, skeleton,
    filter_filter_class fun s hs => by rw [h s hs]; rfl]

theorem stats_skeleton (steps : List Step) : stats (skeleton steps) = stats steps := by
  rw [stats, stats, countP_skeleton Step.isFullBarrier_kept, countP_skeleton Step.isDomainBarrier_kept,
    countP_skeleton Step.isWait_kept]

end Schedule

open Schedule

theorem StreamSteps.stats_skeleton (s : StreamSteps) :
    StreamSteps.stats ⟨skeleton s.cube, skeleton s.vector⟩ = s.stats := by
  have hsignals : ∀ steps, (skeleton steps).filterMap signalled? = steps.filterMap signalled? := by
    refine filterMap_filter_class fun step h => ?_
    cases step <;> simp_all [Step.isTuning, signalled?]
  simp only [StreamSteps.stats, signals, get, hsignals, ← skeleton_append,
    countP_skeleton Step.isFullBarrier_kept, countP_skeleton Step.isDomainBarrier_kept]

/-! ### One stream -/

/-- An untuned launch has operators that are changed in what no step is made from. -/
theorem Launch.mapped_untuned (l : Launch) : Launch.Mapped Operator.untuned l l.untuned :=
  ⟨Operator.neutral_untuned, rfl, rfl, rfl, rfl⟩

namespace SingleStream

variable (l : Launch)

theorem skeleton_preloadSteps (op : Nat) : skeleton (preloadSteps l op) = [] := by
  simp [preloadSteps, Step.isTuning]

theorem skeleton_mark (event : Nat) (kind : ProfilingKind) (start : Bool) :
    skeleton (mark l event kind start) = [] :=
  skeleton_optional rfl _

theorem skeleton_debugSteps : skeleton (debugSteps l)
    = if l.options.debugSyncAll then [.barrier (.covering l.shape.kernelType)] else [] := by
  simp [debugSteps, Step.isTuning]

theorem skeleton_block (op : Nat) : skeleton (block l.untuned op) = skeleton (block l op) := by
  have hfeed : ∀ l : Launch, skeleton (if l.options.feedSyncAll then [.feedSyncInit op] else []) = [] :=
    fun _ => skeleton_optional rfl _
  have hdebug : skeleton (debugSteps l.untuned) = skeleton (debugSteps l) := by
    rw [skeleton_debugSteps, skeleton_debugSteps]
    rfl
  simp only [block, lead, trail, boundarySteps_mapped l.mapped_untuned,
    resolveSteps_mapped l.mapped_untuned, releaseSteps_mapped l.mapped_untuned, skeleton_append,
    skeleton_cons, Step.isTuning_beginOperator, if_true, skeleton_preloadSteps, skeleton_mark, hfeed,
    hdebug]

theorem skeleton_blocks (ops : List Nat) :
    skeleton (ops.flatMap (block l.untuned)) = skeleton (ops.flatMap (block l)) := by
  induction ops with
  | nil => rfl
  | cons op ops ih => simp only [List.flatMap_cons, skeleton_append, skeleton_block, ih]

theorem skeleton_steps : skeleton (steps l.untuned) = skeleton (steps l) := by
  have hopening : ∀ l, skeleton (openingSteps l) = [] := by
    intro l
    rw [openingSteps, skeleton_append, skeleton_optional rfl, skeleton_mark]
    rfl
  have hclosing : ∀ l, skeleton (closingSteps l) = [.clearWaitLocks, .instructionCacheEpilogue] := by
    intro l
    rw [closingSteps, skeleton_append, skeleton_mark]
    rfl
  simp only [steps, skeleton_append, hopening, hclosing, l.mapped_untuned.ids, skeleton_blocks]

end SingleStream

/-! ### Two streams -/

namespace TwoStream

variable (p : TwoStream) (d : Domain) (op : Nat)

def untuned (p : TwoStream) : TwoStream := ⟨p.launch.untuned, p.kept⟩

/-- What is kept depends on the edges, which tuning options do not change. -/
theorem untuned_kept (l : Launch) :
    untuned ⟨l, keptEdges l.graph⟩ = ⟨l.untuned, keptEdges l.untuned.graph⟩ := by
  have hkept : keptEdges l.untuned.graph = keptEdges l.graph := l.mapped_untuned.plan.kept
  rw [untuned, hkept]

theorem mapped_untuned : TwoStream.Mapped Operator.untuned p p.untuned := ⟨p.launch.mapped_untuned, rfl⟩

theorem skeleton_preloadSteps (prev next : Option Nat) :
    skeleton (p.preloadSteps prev op next) = [] := by
  cases next <;> simp [preloadSteps, Step.isTuning]

theorem skeleton_mark (start : Bool) : skeleton (p.mark op start) = [] := skeleton_optional rfl _

theorem skeleton_debugSteps : skeleton (p.debugSteps d)
    = if p.launch.options.debugSyncAll then [.pipeAll, .barrier (.domain d)] else [] := by
  simp [debugSteps, Step.isTuning]

theorem skeleton_operatorSteps (prev next : Option Nat) :
    skeleton (p.untuned.operatorSteps d prev op next) = skeleton (p.operatorSteps d prev op next) := by
  have hfeed : ∀ p : TwoStream,
      skeleton (if p.launch.options.feedSyncAll then [.feedSyncInit op] else []) = [] :=
    fun _ => skeleton_optional rfl _
  have hdebug : skeleton (p.untuned.debugSteps d) = skeleton (p.debugSteps d) := by
    rw [skeleton_debugSteps, skeleton_debugSteps]
    rfl
  simp only [operatorSteps, boundary_mapped p.mapped_untuned, finalSteps_mapped p.mapped_untuned,
    skeleton_append, skeleton_cons, Step.isTuning_beginOperator, if_true, skeleton_preloadSteps,
    skeleton_mark, hfeed, hdebug]

theorem skeleton_operatorsSteps (prev : Option Nat) (ops : List Nat) :
    skeleton (p.untuned.operatorsSteps d prev ops) = skeleton (p.operatorsSteps d prev ops) := by
  induction ops generalizing prev with
  | nil => rfl
  | cons op ops ih =>
    simp only [operatorsSteps, skeleton_append, skeleton_operatorSteps, ih]

theorem skeleton_steps : skeleton (p.untuned.steps d) = skeleton (p.steps d) := by
  rw [steps, steps, skeleton_append, skeleton_append, skeleton_optional rfl, skeleton_optional rfl,
    members_mapped p.mapped_untuned, skeleton_operatorsSteps]

end TwoStream

/-! ### Kernels -/

namespace Generator

variable {r r' : Request} {l l' : Launch} {body : KernelBody} {stats : SyncStats}

theorem launch_table (h : launch r = .ok l) :
    ∃ workspace profiling, l.table = .assign l.graph l.events workspace profiling := by
  obtain ⟨_, _, _, _, _, _, _, _, _, _, _, rfl⟩ := launch_ok_iff.mp h
  exact ⟨_, _, rfl⟩

/-- On one stream every launch has a schedule. -/
theorem schedule_of_singleStream (h : launch r = .ok l) (hmode : l.events.mode = .singleStream) :
    schedule l = .ok (.singleStream (SingleStream.steps l), Schedule.stats (SingleStream.steps l)) := by
  obtain ⟨_, _, _, haccepted, _⟩ := launch_accepted h
  obtain ⟨workspace, profiling, htable⟩ := launch_table h
  have hlinked : l.graph.Linked := haccepted.linked
  have hverify := SingleStream.verify_steps hlinked.toWellFormed hlinked.forward
  have howner := SingleStream.ownership_steps (l := l) l.events workspace profiling
  rw [← htable] at howner
  simp only [schedule, hmode, SingleStream.build_eq hlinked.toWellFormed, hverify, howner, bind,
    Except.bind]
  rfl

/-- On two streams, every launch without dynamic operators. -/
theorem schedule_of_twoStream (h : launch r = .ok l) (hmode : l.events.mode = .twoStream)
    (hstatic : ∀ o ∈ l.graph.operators, o.isDynamic = false) :
    schedule l = .ok (.twoStream (streamSteps ⟨l, TwoStream.keptEdges l.graph⟩),
      (streamSteps ⟨l, TwoStream.keptEdges l.graph⟩).stats) := by
  obtain ⟨_, _, _, haccepted, _⟩ := launch_accepted h
  have hplanned : TwoStream.Planned ⟨l, TwoStream.keptEdges l.graph⟩ := ⟨haccepted.linked, rfl⟩
  have hverify := hplanned.verify_streams
  simp only [schedule, hmode, TwoStream.plan_static hstatic, hverify, bind, Except.bind]
  rfl

theorem isDynamic_retuned (h : l'.untuned = l.untuned)
    (hstatic : ∀ o ∈ l.graph.operators, o.isDynamic = false) :
    ∀ o ∈ l'.graph.operators, o.isDynamic = false := by
  intro o' ho'
  have hoperators : l'.untuned.graph.operators = l.untuned.graph.operators := by rw [h]
  have hmem : o'.untuned ∈ l.untuned.graph.operators := hoperators ▸ List.mem_map_of_mem ho'
  obtain ⟨o, ho, heq⟩ := List.mem_map.mp hmem
  have hdynamic : o.untuned.isDynamic = o'.untuned.isDynamic := by rw [heq]
  exact hdynamic.symm.trans (hstatic o ho)

/-- The schedules of launches that differ in tuning. -/
theorem schedule_retuned (hl : launch r = .ok l) (hl' : launch r' = .ok l')
    (h : l'.untuned = l.untuned) (hschedule : schedule l = .ok (body, stats)) :
    ∃ body', schedule l' = .ok (body', stats) ∧
      body'.lists.map skeleton = body.lists.map skeleton := by
  have hmodes : l'.untuned.events.mode = l.untuned.events.mode := by rw [h]
  cases hmode : l.events.mode with
  | singleStream =>
    have hsteps : skeleton (SingleStream.steps l') = skeleton (SingleStream.steps l) := by
      rw [← SingleStream.skeleton_steps, h, SingleStream.skeleton_steps]
    have hstats : Schedule.stats (SingleStream.steps l') = Schedule.stats (SingleStream.steps l) := by
      rw [← Schedule.stats_skeleton, hsteps, Schedule.stats_skeleton]
    cases (schedule_of_singleStream hl hmode).symm.trans hschedule
    refine ⟨_, hstats ▸ schedule_of_singleStream hl' (hmodes.trans hmode), ?_⟩
    simp only [KernelBody.lists, List.map_cons, List.map_nil, hsteps]
  | twoStream =>
    have hstatic := Launch.static_of_schedule hmode hschedule
    have huntuned : TwoStream.untuned ⟨l', TwoStream.keptEdges l'.graph⟩
        = TwoStream.untuned ⟨l, TwoStream.keptEdges l.graph⟩ := by
      rw [TwoStream.untuned_kept, h, ← TwoStream.untuned_kept]
    have hsteps : ∀ d, skeleton (TwoStream.steps ⟨l', TwoStream.keptEdges l'.graph⟩ d)
        = skeleton (TwoStream.steps ⟨l, TwoStream.keptEdges l.graph⟩ d) := by
      intro d
      rw [← TwoStream.skeleton_steps, huntuned, TwoStream.skeleton_steps]
    have hstats : (streamSteps ⟨l', TwoStream.keptEdges l'.graph⟩).stats
        = (streamSteps ⟨l, TwoStream.keptEdges l.graph⟩).stats := by
      rw [← StreamSteps.stats_skeleton, ← StreamSteps.stats_skeleton (streamSteps ⟨l, _⟩)]
      simp only [streamSteps, hsteps]
    cases (schedule_of_twoStream hl hmode hstatic).symm.trans hschedule
    have hstatic' := isDynamic_retuned h hstatic
    refine ⟨_, hstats ▸ schedule_of_twoStream hl' (hmodes.trans hmode) hstatic', ?_⟩
    simp only [KernelBody.lists, List.map_cons, List.map_nil, streamSteps, hsteps]

/-- The lists of steps from which the kernel of a request is written. -/
def stepLists (r : Request) : Except Error (List (List Step)) := do
  let l ← launch r
  let (body, _) ← schedule l
  return body.lists

/-- Kernels of two requests that are launched and synchronized alike. -/
structure SynchronizedAlike (r r' : Request) (k k' : FusedKernel) : Prop where
  mode : k'.mode = k.mode
  sync : k'.sync = k.sync
  kernelType : k'.kernelType = k.kernelType
  blockDim : k'.blockDim = k.blockDim
  record : k'.record = k.record
  lists : ∃ lists lists', stepLists r = .ok lists ∧ stepLists r' = .ok lists' ∧
    lists'.map skeleton = lists.map skeleton

theorem generate_retuned {k : FusedKernel} (h : r.Retuned r') (hk : generate r = .ok k) :
    ∃ k', generate r' = .ok k' ∧ SynchronizedAlike r r' k k' := by
  obtain ⟨l, body, sync, hl, hschedule, rfl⟩ := generate_ok_iff.mp hk
  obtain ⟨l', hl', huntuned⟩ := launch_retuned h hl
  obtain ⟨body', hschedule', hlists⟩ := schedule_retuned hl hl' huntuned hschedule
  have hmode : l'.untuned.events.mode = l.untuned.events.mode := by rw [huntuned]
  have hname : l'.untuned.kernelName = l.untuned.kernelName := by rw [huntuned]
  have htype : l'.untuned.shape.kernelType = l.untuned.shape.kernelType := by rw [huntuned]
  have hblocks : l'.untuned.shape.blockDim = l.untuned.shape.blockDim := by rw [huntuned]
  refine ⟨kernel l' body' sync, generate_ok_iff.mpr ⟨l', body', sync, hl', hschedule', rfl⟩, hmode, rfl,
    htype, hblocks, ?_, body.lists, body'.lists, ?_, ?_, hlists⟩
  · exact congrArg₂ (fun name t => MixRecord.ofKernel (Source.entrySymbol name) t) hname htype
  · exact bind_eq_ok.mpr ⟨l, hl, bind_eq_ok.mpr ⟨_, hschedule, rfl⟩⟩
  · exact bind_eq_ok.mpr ⟨l', hl', bind_eq_ok.mpr ⟨_, hschedule', rfl⟩⟩

/-- CORRECT: requests that differ in tuning options have a kernel together or not at all, and their
kernels are synchronized alike. -/
theorem tuning_keeps_synchronization (h : r.Retuned r') :
    ((∃ k, generate r = .ok k) ↔ ∃ k', generate r' = .ok k') ∧
    ∀ k k', generate r = .ok k → generate r' = .ok k' → SynchronizedAlike r r' k k' := by
  refine ⟨⟨?_, ?_⟩, fun k k' hk hk' => ?_⟩
  · rintro ⟨k, hk⟩
    obtain ⟨k', hk', _⟩ := generate_retuned h hk
    exact ⟨k', hk'⟩
  · rintro ⟨k', hk'⟩
    obtain ⟨k, hk, _⟩ := generate_retuned h.symm hk'
    exact ⟨k, hk⟩
  · obtain ⟨k₁, hk₁, halike⟩ := generate_retuned h hk
    cases hk₁.symm.trans hk'
    exact halike

/-- Operators of both domains with an event between their streams. -/
def eventRequest (options : String) : Request :=
  .ofOperators options
    [.onStream 0 "first" .mixAic11 [7] [], .onStream 1 "second" .aivOnly [] [7],
      .onStream 1 "third" .aicOnly [] []]

def plainRequest : Request := eventRequest "early-start=1"

def tunedRequest : Request := eventRequest <|
  "split-mode=2:profiling=1:early-start=1:preload-code=max:feed-sync-all=1:debug-dcci-all=1:"
    ++ "func-align=0:dcci-after-kernel-end=third"

theorem tunedRequest_assignments : Options.assignments tunedRequest.options =
    [("split-mode", "2"), ("profiling", "1"), ("early-start", "1"), ("preload-code", "max"),
      ("feed-sync-all", "1"), ("debug-dcci-all", "1"), ("func-align", "0"),
      ("dcci-after-kernel-end", "third")] := by
  decide +kernel

theorem plainRequest_assignments :
    Options.assignments plainRequest.options = [("early-start", "1")] := by
  decide +kernel

theorem tunedRequest_retuned : plainRequest.Retuned tunedRequest where
  kernelName := rfl
  hardware := rfl
  operators := rfl
  splits := by decide
  accepted := plainRequest_assignments ▸ ⟨by decide, by decide⟩
  accepted' := tunedRequest_assignments ▸ ⟨by decide +kernel, by decide +kernel⟩
  others := by
    rw [tunedRequest_assignments, plainRequest_assignments]
    decide +kernel

theorem tunedRequest_synchronized : plainRequest.Retuned tunedRequest ∧
    ∃ k k', generate plainRequest = .ok k ∧ generate tunedRequest = .ok k' ∧
      k.mode = .singleStream ∧ SynchronizedAlike plainRequest tunedRequest k k' := by
  obtain ⟨l, body, sync, hl, hschedule, htest⟩ : ∃ l body sync, launch plainRequest = .ok l ∧
      schedule l = .ok (body, sync) ∧ decide (l.events.mode = .singleStream) = true :=
    exists_schedule_of_test (by decide +kernel)
  obtain ⟨htogether, halike⟩ := tuning_keeps_synchronization tunedRequest_retuned
  have hk : generate plainRequest = .ok (kernel l body sync) :=
    bind_eq_ok.mpr ⟨l, hl, bind_eq_ok.mpr ⟨_, hschedule, rfl⟩⟩
  obtain ⟨k', hk'⟩ := htogether.mp ⟨_, hk⟩
  exact ⟨tunedRequest_retuned, _, k', hk, hk', of_decide_eq_true htest, halike _ k' hk hk'⟩

end Generator

end KernelFusion
