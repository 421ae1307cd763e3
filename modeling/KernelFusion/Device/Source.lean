import KernelFusion.Device.Body
import KernelFusion.Device.Workspace
import KernelFusion.Launch.MixRecord
import KernelFusion.Schedule.StreamCheck

/-!
The source text of a fused kernel: header, helper functions, declarations, the functions of dynamic
operators, the functions of the domains on two streams, the entry point, and the section with the
launch record.
-/

namespace KernelFusion

/-- A schedule that was accepted. -/
inductive KernelBody where
  | singleStream (steps : List Step)
  | twoStream (steps : StreamSteps)

namespace Source

/-- Symbol of the entry point. -/
def entrySymbol (kernelName : String) : String := s!"auto_gen_{kernelName}_kernel"

/-- Attribute that aligns the entry point; zero asks for none. -/
def alignment (align : Nat) : String :=
  if align = 0 then "" else s!"__attribute__((aligned({align})))"

def header (t : KernelType) (split : Nat) : List String :=
  [s!"// fused kernel type: {t.name}, split mode: {split}",
   "#include \"kernel_operator.h\"",
   "",
   "#ifndef TILING_KEY_VAR",
   "#define TILING_KEY_VAR 0UL",
   "#endif"]

/-! ### Declarations -/

/-- Symbols of all variants in the domains of a type. -/
def symbolsOf (t : KernelType) (names : FunctionNames) (split : Nat) : List String :=
  t.affinity.domains.flatMap fun d =>
    match names.get? d with
    | some base => variantSymbols base split
    | none => []

/-- Symbols that an operator may call. -/
def operatorSymbols (o : Operator) : List String :=
  match o.dispatch with
  | .static => symbolsOf o.kernelType o.functions o.split
  | .dynamic table => table.flatMap fun e => symbolsOf e.kernelType e.functions o.split

/-- Symbols that are declared, each once, in the order of their first use. -/
def declared (g : Graph) : List String := (g.operators.flatMap operatorSymbols).eraseDups

def declaration (symbol : String) : String :=
  s!"extern \"C\"  __aicore__ void {symbol}(uint64_t args_offset);"

def declarations (g : Graph) : Code := .texts ((declared g).map declaration)

/-- The first dynamic operator of every name. -/
def distinctDynamic (seen : List String) : List Operator → List Operator
  | [] => []
  | o :: os =>
    if o.isDynamic && !seen.contains o.name then o :: distinctDynamic (o.name :: seen) os
    else distinctDynamic seen os

/-! ### Functions of the domains -/

def domainFunction (kernelName : String) (d : Domain) : String :=
  s!"{entrySymbol kernelName}_{d.arch}"

def baseLine : String := "GM_ADDR *param_base = (GM_ADDR *)get_para_base();"

/-- The function of a domain on two streams; there is none without steps. -/
def domainCode (l : Launch) (d : Domain) (steps : List Step) : Code :=
  if steps.isEmpty then .done
  else .function s!"__aicore__ inline void {domainFunction l.kernelName d}(void)"
      (.text baseLine ++ Body.steps l (some d) steps)
    ++ .empty

def domainCall (l : Launch) (d : Domain) (steps : List Step) : Code :=
  if steps.isEmpty then .done
  else .when (.onDomain d) (.text s!"{domainFunction l.kernelName d}();")

/-! ### The entry point -/

def dumpLines (s : LaunchShape) : List String :=
  if s.dump then
    ["#if defined ASCENDC_DUMP || defined ASCENDC_TIME_STAMP_ON",
     s!"constexpr uint32_t ASCENDC_DUMP_SIZE = {s.dumpSize};",
     s!"AscendC::InitDump({s.kernelType.isMixed}, workspace + {s.feedSyncBytes}, ASCENDC_DUMP_SIZE);",
     "#endif"]
  else []

/-- What is set up before any operator. -/
def prologue (l : Launch) : Code :=
  .texts ((match l.table.workspace with
        | some slot => [s!"GM_ADDR workspace = param_base[{slot}];"]
        | none => [])
      ++ (if l.options.feedSyncAll then
          ["AscendC::g_superKernelAutoSyncAllConfigGmBaseAddr = workspace;"]
        else [])
      ++ dumpLines l.shape
      ++ (match l.table.profilingSlots with
        | some (region, task) => Recorder.initLines region task
        | none => [])
      ++ [s!"GM_ADDR ffts_addr = param_base[{Table.controllerSlot}];"])
    ++ .when (.present "ffts_addr") (.text "set_ffts_base_addr((uint64_t)ffts_addr);")
    ++ .empty

def kernelMark (l : Launch) (start : Bool) : Code :=
  if l.options.profiling then .text (Recorder.mark 0 .kernel start) else .done

def clearing (l : Launch) : Code :=
  if l.options.feedSyncAll then (Clearing.of l.shape.kernelType l.shape.feedSyncBytes).code else .done

def entryBody (l : Launch) : KernelBody → Code
  | .singleStream steps =>
    clearing l
      ++ (if l.graph.hasDynamic then .texts (Dynamic.locals l.options.splitMode) else .done)
      ++ Body.steps l none steps
  | .twoStream s =>
    kernelMark l true
      ++ clearing l
      ++ domainCall l .cube s.cube
      ++ domainCall l .vector s.vector
      ++ Body.clearLocks l
      ++ kernelMark l false

def entry (l : Launch) (body : KernelBody) : Code :=
  .function (s!"extern \"C\"  __global__ {alignment l.options.funcAlign} __aicore__ void "
      ++ s!"{entrySymbol l.kernelName}(void)")
    (.text baseLine ++ prologue l ++ entryBody l body)
    ++ .empty

/-! ### The launch record -/

def recordLine (r : MixRecord) (suffix : String) : String :=
  s!"static const struct FunLevelMixCoreType {r.kernelName}_{suffix}_section "
    ++ s!"__attribute__ ((used, section (\".ascend.meta.{r.kernelName}_{suffix}\"))) = "
    ++ s!"\x7b \x7b\x7bF_TYPE_KTYPE, sizeof(unsigned int)\x7d, {MixRecord.mainSymbol r.main}\x7d,    "
    ++ s!"\x7b\x7bF_TYPE_MIX_TASK_RATION, sizeof(unsigned int)\x7d, {r.aicRatio}, {r.aivRatio}\x7d \x7d;"

/-- The section that the launcher reads. Where a block has two vector units both domains are compiled
apart and each has a copy. -/
def recordSection (r : MixRecord) (t : KernelType) : List String :=
  ["#if TILING_KEY_VAR == 0UL"]
    ++ (if t = .mixAic12 then
        ["#if defined(__DAV_C220_CUBE__)", recordLine r (MixRecord.sectionSuffix .cube), "#endif",
         "#if defined(__DAV_C220_VEC__)", recordLine r (MixRecord.sectionSuffix .vector), "#endif"]
      else [recordLine r (MixRecord.sectionSuffix r.main)])
    ++ ["#endif"]

/-- The whole source. -/
def code (l : Launch) (body : KernelBody) : Code :=
  .concat [
    .texts (header l.shape.kernelType l.options.splitMode),
    if l.options.profiling then Recorder.functions else .done,
    Events.functions,
    declarations l.graph,
    .concat ((distinctDynamic [] l.graph.operators).map Dynamic.functions),
    match body with
      | .singleStream _ => .done
      | .twoStream s => domainCode l .cube s.cube ++ domainCode l .vector s.vector,
    entry l body,
    .texts (recordSection (.ofKernel (entrySymbol l.kernelName) l.shape.kernelType)
      l.shape.kernelType)]

end Source

end KernelFusion
