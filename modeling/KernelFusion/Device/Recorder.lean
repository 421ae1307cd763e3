import KernelFusion.Device.Code
import KernelFusion.Profiling.Ring

/-!
Profiling on the device: the calls that write records and the functions behind them.
-/

namespace KernelFusion.Recorder

/-- The kind of a record as it is written in a call. -/
def kindText : ProfilingKind → String
  | .kernel => "0"
  | .notify => "0x4"
  | .subOperator => "0x8"
  | .wait => "0xc"

/-- Writes a start or stop record. -/
def mark (event : Nat) (kind : ProfilingKind) (start : Bool) : String :=
  s!"RecordProfiling({event}, {kindText kind}, {start});"

/-- Finds the region of the unit and the task at the start of the kernel. -/
def initLines (region task : Nat) : List String :=
  [s!"GM_ADDR profilingPtr = param_base[{region}];",
   s!"uint32_t taskId = *((__gm__ uint32_t*)(get_para_base() + 8 * {task}));",
   "InitProfiling(taskId, profilingPtr);"]

/-! ### Functions -/

/-- Place of the size of a unit's region in the header of all regions. -/
def sizeOffset : Nat := 12

/-- Bytes of that header. -/
def headerBytes : Nat := 64

def declarations : List String :=
  ["",
   "__BLOCK_LOCAL__ __inline__ uint32_t g_profiling_task_id;",
   "__BLOCK_LOCAL__ __inline__ __gm__ uint8_t* g_profiling_base_addr;",
   "__BLOCK_LOCAL__ __inline__ __gm__ uint8_t* g_profiling_working_addr;",
   "__BLOCK_LOCAL__ __inline__ __gm__ uint8_t* g_profiling_max_addr;",
   "__BLOCK_LOCAL__ __inline__ bool g_profiling_off;",
   "__BLOCK_LOCAL__ __inline__ uint32_t g_percore_size;",
   "constexpr uint64_t PROFILING_MAGIC_NUMBER = 0xbdca8756;",
   "constexpr uint32_t PROFILING_WORKINF_PTR_OFFSET = 8;",
   "constexpr uint32_t PROFILING_MAX_PTR_OFFSET = 16;",
   s!"constexpr uint32_t ONE_PROFILING_HEAD_SIZE = {ProfilingRing.recordBytes};",
   s!"constexpr uint32_t ONE_PROFILING_DATA_SIZE = {ProfilingRing.recordBytes};"]

/-- Whether there is room for a record. -/
def validFunction : List String :=
  ["__aicore__ inline bool ProfilingAreaIsValid()",
   "\x7b",
   "    return (*((__gm__ uint64_t*)g_profiling_base_addr) == PROFILING_MAGIC_NUMBER) &&",
   "        ((*((__gm__ uint64_t*)g_profiling_working_addr)) < "
     ++ "(*((__gm__ uint64_t*)g_profiling_max_addr)));",
   "\x7d",
   ""]

/-- The region of a unit. -/
def unitFunction : List String :=
  ["__aicore__ inline uint8_t GetProfilingBlockIdx()",
   "\x7b",
   "    if ASCEND_IS_AIV \x7b",
   "        return get_block_idx() * get_subblockdim() + get_subblockid();",
   "    \x7d else \x7b",
   s!"        return get_block_idx() + {cubeUnitBase};",
   "    \x7d",
   "\x7d",
   ""]

/-- Moves on behind a record. -/
def advanceLines : List String :=
  ["    *((__gm__ uint64_t*)workAddr + 1) = static_cast<uint64_t>(AscendC::GetSystemCycle());",
   "    dcci((__gm__ uint64_t*)workAddr, 0, 2);",
   "    *((__gm__ uint64_t*)g_profiling_working_addr) += ONE_PROFILING_DATA_SIZE;",
   "    if (!ProfilingAreaIsValid()) \x7b",
   "        g_profiling_off = true;",
   "    \x7d",
   "    dcci((__gm__ uint64_t*)g_profiling_working_addr, 0, 2);"]

def stopLines : List String :=
  ["    if (g_profiling_off) \x7b",
   "        return;",
   "    \x7d"]

/-- Writes the first record of a unit. -/
def headerFunction : List String :=
  ["__aicore__ inline void RecordProfiling()",
   "\x7b"]
  ++ stopLines
  ++ ["    uint8_t blockIdx = GetProfilingBlockIdx();",
   "    uint64_t workAddr = *((__gm__ uint64_t*)g_profiling_working_addr);",
   "    *((__gm__ uint64_t*)workAddr) = ((uint64_t)g_profiling_task_id << 32) | "
     ++ "(((uint64_t)blockIdx) << 8) | 0xff;"]
  ++ advanceLines
  ++ ["\x7d",
   ""]

/-- Writes a start or stop record. -/
def eventFunction : List String :=
  ["__aicore__ inline void RecordProfiling(uint32_t index, uint8_t profilingType, bool startFlag)",
   "\x7b"]
  ++ stopLines
  ++ ["    uint64_t workAddr = *((__gm__ uint64_t*)g_profiling_working_addr);",
   "    if (startFlag) \x7b",
   "        *((__gm__ uint64_t*)workAddr) = ((uint64_t)index << 32) | "
     ++ "(((uint64_t)profilingType & 0xf) << 8) | 0x0;",
   "    \x7d else \x7b",
   "        *((__gm__ uint64_t*)workAddr) =",
   "            ((uint64_t)index << 32) | (1 << 12) | (((uint64_t)profilingType & 0xf) << 8) | 0x0;",
   "    \x7d"]
  ++ advanceLines
  ++ ["\x7d",
   ""]

def initFunction : List String :=
  ["__aicore__ inline void InitProfiling(uint32_t taskId, GM_ADDR profilingPtr)",
   "\x7b",
   "    g_profiling_off = false;",
   "    uint8_t blockIdx = GetProfilingBlockIdx();",
   s!"    g_percore_size = *((__gm__ uint32_t*)(profilingPtr + {sizeOffset}));",
   s!"    g_profiling_base_addr = profilingPtr + {headerBytes} + blockIdx * g_percore_size;",
   "    g_profiling_working_addr = g_profiling_base_addr + PROFILING_WORKINF_PTR_OFFSET;",
   "    g_profiling_max_addr = g_profiling_base_addr + PROFILING_MAX_PTR_OFFSET;",
   "    if (!ProfilingAreaIsValid()) \x7b",
   "        g_profiling_off = true;",
   "        return;",
   "    \x7d",
   "    g_profiling_task_id = taskId;",
   "    RecordProfiling();",
   "\x7d"]

/-- All functions of the recorder. -/
def functions : Code :=
  .texts (declarations ++ validFunction ++ unitFunction ++ headerFunction ++ eventFunction
    ++ initFunction)

end KernelFusion.Recorder
