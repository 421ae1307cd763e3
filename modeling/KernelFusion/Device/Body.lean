import KernelFusion.Device.Dynamic
import KernelFusion.Device.Events
import KernelFusion.Device.Handshake
import KernelFusion.Device.Prefetch
import KernelFusion.Schedule.Step

/-!
Device code of a schedule, step by step.

A step list belongs to all units, or to those of one domain. In the latter case the code tests no
domain of its own and leaves out the work of the other domain.
-/

namespace KernelFusion.Body

/-- Code for the units of a domain. -/
def onDomain (arch : Option Domain) (d : Domain) (c : Code) : Code :=
  match arch with
  | some a => if a = d then c else .done
  | none => .when (.onDomain d) c

def barrier (arch : Option Domain) (b : Barrier) : Code :=
  match b.scope with
  | .full => .text (Sync.fullBarrier b.reason)
  | .domain d =>
    (match b.reason with
      | some r => .text s!"// {r}"
      | none => .done)
    ++ onDomain arch d (.texts (Sync.domainBarrier d))

/-- The outer events of an operator. -/
def events (l : Launch) (arch : Option Domain) (op : Nat) (direction : EventDirection) : Code :=
  let locks := match direction with
    | .notify => (l.table.operator op).notify
    | .wait => (l.table.operator op).wait
  Events.code (l.operator op) (arch.getD (l.operator op).eventDomain) direction locks
    l.options.profiling

/-- Clears all locks that were waited for. -/
def clearLocks (l : Launch) : Code :=
  .concat (l.ids.map fun op => Events.clearCode (l.operator op) (l.table.operator op).wait)

/-- Prepares the area for an operator's own barrier; cube units have the first areas, vector units
those behind. -/
def feedInit (l : Launch) (arch : Option Domain) (op : Nat) : Code :=
  if l.feeds op then
    .texts ["AscendC::g_superKernelAutoSyncAllSyncIdx = 0;",
        "AscendC::g_superKernelAutoSyncAllEnable = true;"]
      ++ onDomain arch .cube (.stmt (.feedArea none op))
      ++ onDomain arch .vector (.stmt (.feedArea (some l.shape.operatorCount) op))
  else .text "AscendC::g_superKernelAutoSyncAllEnable = false;"

/-! ### Calls -/

/-- A flush of the cache that an option asks for. -/
def flush (wanted : Bool) (option : String) : List Stmt :=
  if wanted then [.text s!"// option: {option}", .text Sync.flushAll, .text ""] else []

def before (o : Operator) : List Stmt := flush o.cache.before "dcci-before-kernel-start"

def after (o : Operator) : List Stmt := flush o.cache.after "dcci-after-kernel-end"

/-- The call of a static operator in a domain. -/
def callIn (o : Operator) (argsOffset : Nat) (feeds : Bool) (arch : Option Domain) (d : Domain) : Code :=
  match o.functions.get? d with
  | none => .done
  | some base =>
    if arch.isSome ∧ arch ≠ some d then .done
    else
      let variants := (variantSymbols base o.split).map fun symbol => .call symbol argsOffset
      Guarded.code {
        domain := d
        index := o.kernelType.blockIndex d
        limit := .count o.blockCount
        variants := variants
        before := before o
        after := after o
        tail := if feeds then some (.text "AscendC::SuperKernelAutoSyncAllEndImpl();") else none
        complement :=
          if feeds then some (.text "AscendC::SuperKernelAutoSyncAllComplementImpl();") else none }
        arch

/-- The call of a static operator, in each of its domains. -/
def callStatic (o : Operator) (argsOffset : Nat) (feeds : Bool) (arch : Option Domain) : Code :=
  .concat (o.affinity.domains.map (callIn o argsOffset feeds arch))

def invoke (l : Launch) (arch : Option Domain) (op : Nat) : Code :=
  let o := l.operator op
  let argsOffset := (l.table.operator op).argsOffset
  if o.isDynamic then Dynamic.invokeCode o argsOffset (before o) (after o)
  else callStatic o argsOffset (l.feeds op) arch

/-! ### Steps -/

/-- Empties the instruction cache where the part needs it. -/
def epilogue : List String :=
  ["#if defined(__DAV_C310__) || defined(__DAV_310R6__) || (__NPU_ARCH__ == 5102)",
   "    pipe_barrier(PIPE_ALL);",
   "    dsb(mem_dsb_t::DSB_ALL);",
   "    dci();",
   "#endif"]

/-- Code that needs the cells of a dynamic operator. -/
def withCells (l : Launch) (op : Nat) (f : Operator → DynamicSlots → Code) : Code :=
  match (l.table.operator op).dynamic with
  | some cells => f (l.operator op) cells
  | none => .done

def step (l : Launch) (arch : Option Domain) : Step → Code
  | .comment text => .text text
  | .pipeAll => .text Sync.pipeAll
  | .barrier b => barrier arch b
  | .signal _ producer pipe flag => onDomain arch producer (.text (Sync.raise pipe flag))
  | .wait _ consumer flag => onDomain arch consumer (.text (Sync.await flag))
  | .preloadWhole => .text (Prefetch.wholeKernel Prefetch.wholeUnits)
  | .preload op => Prefetch.code (l.operator op) arch
  | .earlyStartSet op => HandshakeSide.set.code (l.operator op)
  | .earlyStartConfig config => .text s!"g_super_kernel_early_start_config = {config};"
  | .earlyStartWait op config => (HandshakeSide.wait config).code (l.operator op)
  | .notify op => events l arch op .notify
  | .eventWait op => events l arch op .wait
  | .dynamicResolve op => withCells l op Dynamic.resolveCode
  | .feedSyncInit op => feedInit l arch op
  | .profile event kind start => .text (Recorder.mark event kind start)
  | .invoke op => invoke l arch op
  | .lockReset op => withCells l op Dynamic.resetCode
  | .cacheFlushAll => .text Sync.flushAll
  | .clearWaitLocks => clearLocks l
  | .instructionCacheEpilogue => .texts epilogue

def steps (l : Launch) (arch : Option Domain) (ss : List Step) : Code := .concat (ss.map (step l arch))

end KernelFusion.Body
