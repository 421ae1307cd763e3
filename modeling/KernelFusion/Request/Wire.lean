import KernelFusion.Json.Decode
import KernelFusion.Json.Printer
import KernelFusion.Request.Descriptor

/-!
The JSON form of a fusion request.

Writing gives every field, in order. Reading needs the names and kernel types; every other field has
a value for when it is left out.
-/

namespace KernelFusion

def HardwareProfile.toJson (h : HardwareProfile) : Json :=
  .record [("cube_units", .nat h.cubeUnits.toNat), ("vector_units", .nat h.vectorUnits.toNat)]

def HardwareProfile.ofJson? (v : Json) : Option HardwareProfile := do
  match ← v.fields? ["cube_units", "vector_units"] with
  | [cube, vector] =>
    return ⟨← Json.orElse Json.word32? 24 cube, ← Json.orElse Json.word32? 48 vector⟩
  | _ => none

def TaskType.name : TaskType → String
  | .normal => "normal"
  | .dynamic => "dynamic"

def TaskType.ofName? : String → Option TaskType
  | "normal" => some .normal
  | "dynamic" => some .dynamic
  | _ => none

def TaskType.ofJson? (v : Json) : Option TaskType := v.caseName? >>= TaskType.ofName?

def FunctionNames.toJson (f : FunctionNames) : Json :=
  .record [("vector", .optional .text f.vector), ("cube", .optional .text f.cube)]

def FunctionNames.ofJson? (v : Json) : Option FunctionNames := do
  match ← v.fields? ["vector", "cube"] with
  | [vector, cube] =>
    return ⟨← Json.orElse (Json.nullable? Json.text?) none vector,
      ← Json.orElse (Json.nullable? Json.text?) none cube⟩
  | _ => none

def TextSize.toJson (t : TextSize) : Json :=
  .record [("vector", .nat t.vector.toNat), ("cube", .nat t.cube.toNat)]

def TextSize.ofJson? (v : Json) : Option TextSize := do
  match ← v.fields? ["vector", "cube"] with
  | [vector, cube] =>
    return ⟨← Json.orElse Json.word64? 0 vector, ← Json.orElse Json.word64? 0 cube⟩
  | _ => none

def EarlyStartFlags.toJson (e : EarlyStartFlags) : Json :=
  .record [("set", .bool e.set), ("wait", .bool e.wait)]

def EarlyStartFlags.ofJson? (v : Json) : Option EarlyStartFlags := do
  match ← v.fields? ["set", "wait"] with
  | [set, wait] =>
    return ⟨← Json.orElse Json.bool? false set, ← Json.orElse Json.bool? false wait⟩
  | _ => none

def TilingCase.toJson (c : TilingCase) : Json :=
  .record [("tiling_key", .nat c.tilingKey.toNat), ("kernel_type", .text c.kernelType),
    ("functions", c.functions.toJson)]

def TilingCase.ofJson? (v : Json) : Option TilingCase := do
  match ← v.fields? ["tiling_key", "kernel_type", "functions"] with
  | [key, type, functions] =>
    return ⟨← Json.required Json.word64? key, ← Json.required Json.text? type,
      ← Json.orElse FunctionNames.ofJson? default functions⟩
  | _ => none

def OperatorDescriptor.fieldNames : List String :=
  ["name", "kernel_type", "block_dim", "task_type", "stream_id", "params", "functions", "text_size",
   "send_events", "recv_events", "early_start", "dcci_before_kernel_start", "dcci_after_kernel_end",
   "dcci_disable_on_kernel", "with_sync_all", "split_mode", "debug_options", "debug_buf_size",
   "unit_local", "tiling"]

def OperatorDescriptor.toJson (o : OperatorDescriptor) : Json :=
  .record (fieldNames.zip
    [.text o.name, .text o.kernelType, .nat o.blockDim.toNat, .text o.taskType.name,
     .nat o.streamId.toNat, .arr (o.params.map .text), o.functions.toJson, o.textSize.toJson,
     .arr (o.sendEvents.map fun e => .nat e.toNat), .arr (o.recvEvents.map fun e => .nat e.toNat),
     o.earlyStart.toJson, .bool o.flushBefore, .bool o.flushAfter, .bool o.flushNever,
     .bool o.withSyncAll, .optional (fun n => .nat n.toNat) o.splitMode, .text o.debugOptions,
     .nat o.debugBufSize.toNat, .bool o.unitLocal, .arr (o.tiling.map TilingCase.toJson)])

def OperatorDescriptor.ofJson? (v : Json) : Option OperatorDescriptor := do
  match ← v.fields? fieldNames with
  | [name, kernelType, blockDim, taskType, streamId, params, functions, textSize, sendEvents,
     recvEvents, earlyStart, flushBefore, flushAfter, flushNever, withSyncAll, splitMode,
     debugOptions, debugBufSize, unitLocal, tiling] =>
    return {
      name := ← Json.required Json.text? name
      kernelType := ← Json.required Json.text? kernelType
      blockDim := ← Json.orElse Json.word32? 0 blockDim
      taskType := ← Json.orElse TaskType.ofJson? .normal taskType
      streamId := ← Json.orElse Json.word32? 0 streamId
      params := ← Json.orElse (Json.list? Json.text?) [] params
      functions := ← Json.orElse FunctionNames.ofJson? default functions
      textSize := ← Json.orElse TextSize.ofJson? default textSize
      sendEvents := ← Json.orElse (Json.list? Json.word32?) [] sendEvents
      recvEvents := ← Json.orElse (Json.list? Json.word32?) [] recvEvents
      earlyStart := ← Json.orElse EarlyStartFlags.ofJson? default earlyStart
      flushBefore := ← Json.orElse Json.bool? false flushBefore
      flushAfter := ← Json.orElse Json.bool? false flushAfter
      flushNever := ← Json.orElse Json.bool? false flushNever
      withSyncAll := ← Json.orElse Json.bool? false withSyncAll
      splitMode := ← Json.orElse (Json.nullable? Json.word32?) none splitMode
      debugOptions := ← Json.orElse Json.text? "" debugOptions
      debugBufSize := ← Json.orElse Json.word64? 0 debugBufSize
      unitLocal := ← Json.orElse Json.bool? false unitLocal
      tiling := ← Json.orElse (Json.list? TilingCase.ofJson?) [] tiling }
  | _ => none

namespace Request

def toJson (r : Request) : Json :=
  .record [("kernel_name", .text r.kernelName), ("options", .text r.options),
    ("hardware", r.hardware.toJson), ("operators", .arr (r.operators.map OperatorDescriptor.toJson))]

def ofJson? (v : Json) : Option Request := do
  match ← v.fields? ["kernel_name", "options", "hardware", "operators"] with
  | [name, options, hardware, operators] =>
    return ⟨← Json.required Json.text? name, ← Json.orElse Json.text? "" options,
      ← Json.orElse HardwareProfile.ofJson? .default hardware,
      ← Json.required (Json.list? OperatorDescriptor.ofJson?) operators⟩
  | _ => none

/-- The request as indented JSON. -/
def print (r : Request) : String := r.toJson.pretty

/-- Reads a request; a text that is no request gives nothing. -/
def parse? (s : String) : Option Request := Json.parse? s >>= ofJson?

end Request

end KernelFusion
