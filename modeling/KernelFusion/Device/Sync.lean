import KernelFusion.Device.Code
import KernelFusion.Machine.LockState

/-!
Statements that synchronize units.
-/

namespace KernelFusion.Sync

/-- The flag on which all units of a domain meet. -/
def meetingFlag : Domain → String
  | .cube => "AscendC::SYNC_AIC_FLAG"
  | .vector => "AscendC::SYNC_AIV_ONLY_ALL"

def waitText (flag : String) : String := s!"wait_flag_dev({flag});"

/-- All units of a domain meet. -/
def domainBarrier (d : Domain) : List String :=
  [s!"ffts_cross_core_sync({(Pipe.draining d).text}, AscendC::GetffstMsg(0x0, {meetingFlag d}));",
   waitText (meetingFlag d)]

/-- All units of both domains meet. -/
def fullBarrier (reason : Option String) : String :=
  match reason with
  | some r => s!"AscendC::SyncAll<false>(); // {r}"
  | none => "AscendC::SyncAll<false>();"

/-- All pipelines of a unit drain. -/
def pipeAll : String := "pipe_barrier(PIPE_ALL);"

/-- The whole data cache is written out. -/
def flushAll : String :=
  "dcci((__gm__ uint64_t*)0, cache_line_t::ENTIRE_DATA_CACHE, dcci_dst_t::CACHELINE_OUT);"

def raise (pipe : Pipe) (flag : Flag) : String :=
  s!"ffts_cross_core_sync({pipe.text}, AscendC::GetffstMsg(0x02, {flag.text}));"

def await (flag : Flag) : String := waitText flag.text

/-! ### Lock cells -/

def flushCell (cell : String) : String := s!"dcci({cell}, 0, 2);"

/-- Names a cell of the parameter table. -/
def bindCell (cell expression : String) (isVolatile : Bool) : String :=
  (Stmt.bindCell cell expression isVolatile).render

/-- Stores a value so that other units see it. -/
def store (cell : String) (value : Nat) : List String := [s!"*{cell} = {value};", flushCell cell]

/-- Reads a cell anew until it has a value. -/
def spin (cell : String) (value : Nat) : Code :=
  .line (.text (flushCell cell)) (.block (.spin cell value) (.text (flushCell cell)) .done)

end KernelFusion.Sync
