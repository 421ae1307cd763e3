import KernelFusion.Launch.Basic

/-!
What the compiler of the device code has to be told about a launch.
-/

namespace KernelFusion.Launch

/-- Flags for the features in use, then the options passed through. -/
def defines (l : Launch) : List String :=
  (if l.graph.hasDynamic then ["-D__SUPER_KERNEL_DYNAMIC_BLOCK_NUM__"] else [])
    ++ (if l.earlyStart then
        ["-D__ASCENDC_ENABLE_SET_NEXT_TASK_START", "-D__ASCENDC_ENABLE_WAIT_PRE_TASK_END",
         "-D__ASCENDC_SUPERKERNEL_EARLY_START_V2"]
      else [])
    ++ (if l.options.feedSyncAll then ["-D__ASCENDC_SUPERKERNEL_AUTO_SYNC_ALL__"] else [])
    ++ [if l.shape.dump then "-DASCENDC_DUMP" else "-DASCENDC_DUMP=0"]
    ++ (match l.options.strictScope with
      | some scope => [s!"-D__SUPER_KERNEL_STRICT_SCOPE_CHECK__={scope}"]
      | none => [])
    ++ l.options.compileOptions

end KernelFusion.Launch
