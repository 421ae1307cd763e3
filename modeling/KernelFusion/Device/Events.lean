import KernelFusion.Device.Recorder
import KernelFusion.Graph.Operator

/-!
Outer events on the device: block 0 of a domain sets a lock that others read, or reads one until it
is set.
-/

namespace KernelFusion

/-- Direction of an outer event. -/
inductive EventDirection where | notify | wait
  deriving DecidableEq

namespace EventDirection

/-- The function that handles a lock. -/
def function : EventDirection → String
  | .notify => "NotifyFunc"
  | .wait => "WaitFunc"

def kind : EventDirection → ProfilingKind
  | .notify => .notify
  | .wait => .wait

end EventDirection

namespace Events

/-- The functions that handle locks. -/
def functionLines : List String :=
  ["",
   "template<bool aic_flag>",
   "__aicore__ inline void NotifyFunc(GM_ADDR notify_lock_addr)",
   "\x7b",
   "    if constexpr (aic_flag) \x7b",
   "        if (get_block_idx() == 0) \x7b",
   "            __gm__ uint64_t* notifyLock = reinterpret_cast<__gm__ uint64_t*>(notify_lock_addr);",
   "            *notifyLock = 1;",
   "            dcci(notifyLock, 0, 2);",
   "        \x7d",
   "    \x7d else \x7b",
   "        if (AscendC::GetBlockIdx() == 0) \x7b",
   "            __gm__ uint64_t* notifyLock = reinterpret_cast<__gm__ uint64_t*>(notify_lock_addr);",
   "            *notifyLock = 1;",
   "            dcci(notifyLock, 0, 2);",
   "        \x7d",
   "    \x7d",
   "\x7d",
   "",
   "template<bool aic_flag>",
   "__aicore__ inline void WaitFunc(GM_ADDR wait_lock_addr)",
   "\x7b",
   "    if constexpr (aic_flag) \x7b",
   "        __gm__ volatile uint64_t* waitLock = reinterpret_cast<__gm__ uint64_t*>(wait_lock_addr);",
   "        if (get_block_idx() == 0) \x7b",
   "            dcci(waitLock, 0, 2);",
   "            while(*waitLock != 1) \x7b",
   "                dcci(waitLock, 0, 2);",
   "            \x7d",
   "        \x7d",
   "    \x7d else \x7b",
   "        __gm__ volatile uint64_t* waitLock = reinterpret_cast<__gm__ uint64_t*>(wait_lock_addr);",
   "        if (AscendC::GetBlockIdx() == 0) \x7b",
   "            dcci(waitLock, 0, 2);",
   "            while(*waitLock != 1) \x7b",
   "                dcci(waitLock, 0, 2);",
   "            \x7d",
   "        \x7d",
   "    \x7d",
   "\x7d",
   ""]

def functions : Code := .texts functionLines

/-- Handles the lock of one event. -/
def lockLines (o : Operator) (d : Domain) (direction : EventDirection) (profiling : Bool)
    (lock : UInt32 × Nat) : List String :=
  let mark (start : Bool) : List String :=
    if profiling then [Recorder.mark lock.1.toNat direction.kind start] else []
  [s!"// kernel={o.name}, ev={lock.1}, param_offset={lock.2}"]
    ++ mark true
    ++ [s!"{direction.function}<{decide (d = .cube)}>(param_base[{lock.2}]);"]
    ++ mark false

/-- Handles all events of an operator in one direction. -/
def code (o : Operator) (d : Domain) (direction : EventDirection) (locks : List (UInt32 × Nat))
    (profiling : Bool) : Code :=
  if locks.isEmpty then .done
  else .when (.onDomain d) (.texts (locks.flatMap (lockLines o d direction profiling)))

/-- Block 0 clears the locks that an operator waited for. -/
def clearCode (o : Operator) (locks : List (UInt32 × Nat)) : Code :=
  if locks.isEmpty then .done
  else .when (.onDomain o.eventDomain) (.when (.firstBlock (o.kernelType.blockIndex o.eventDomain))
    (.texts (locks.map fun lock =>
      s!"*(reinterpret_cast<__gm__ uint64_t*>(param_base[{lock.2}])) = 0;")))

end Events

end KernelFusion
