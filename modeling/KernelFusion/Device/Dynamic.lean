import KernelFusion.Device.Sync
import KernelFusion.Device.Variants
import KernelFusion.Launch.Table

/-!
Dynamic operators on the device.

The host leaves a key, a block count and a lock for each of them. One function waits for the lock,
searches the table for the key and notes the addresses of all variants and a packed count. Another
one unpacks the count and calls the variant of the unit. Afterwards block 0 gives the lock back.
-/

namespace KernelFusion.Dynamic

/-- The variants in the order of parameters, those of the vector domain first. -/
def variants (split : Nat) : List VariantRef := VariantRef.all split .vector ++ VariantRef.all split .cube

def list (parts : List String) : String := ", ".intercalate parts

/-- Local variables of the entry point. -/
def locals (split : Nat) : List String :=
  (variants split).map (fun v => s!"uint64_t {v.address} = 0;") ++ ["uint64_t dy_blockNum = 0;"]

/-! ### The choice by key -/

/-- Addresses of an entry in a domain. -/
def addressesOf (e : TilingEntry) (split : Nat) (d : Domain) : List Stmt :=
  if e.kernelType.affinity.contains d then
    match e.functions.get? d with
    | some base => (VariantRef.all split d).map fun v => .setAddress v (variantSymbol base v.index)
    | none => []
  else []

/-- Notes the entry. -/
def select (split : Nat) (e : TilingEntry) : Code :=
  .stmts (addressesOf e split .vector ++ addressesOf e split .cube ++ [.publish e.kernelType.code])

/-- Binary search in a table that is sorted by key. Of two entries the second one is taken without a
test. -/
def search (split : Nat) : List TilingEntry → Code
  | [] => .done
  | [e] => .when (.keyIs e.key) (select split e)
  | [a, b] => .either (.keyIs a.key) (select split a) (select split b)
  | a :: b :: c :: rest =>
    let entries := a :: b :: c :: rest
    let middle := entries.length / 2
    .either (.keyBelow (entries.getD middle a).key)
      (search split (entries.take middle)) (search split (entries.drop middle))
termination_by entries => entries.length
decreasing_by
  all_goals simp only [List.length_take, List.length_drop, List.length_cons]; omega

/-- The function that chooses: the cells of the host, then what it stores. -/
def switchRoutine (o : Operator) : Routine where
  kind := "static __aicore__ void"
  name := s!"switch_func_of_{o.name}"
  parameters :=
    [⟨"GM_ADDR", false, "__ac_dynamic_tiling_key"⟩, ⟨"GM_ADDR", false, "__ac_dynamic_block_num"⟩,
      ⟨"GM_ADDR", false, "__ac_dynamic_lock"⟩]
    ++ (variants o.split).map (fun v => ⟨"uint64_t", true, v.address⟩)
    ++ [⟨"uint64_t", true, "dy_block_num"⟩]

def switchBody (o : Operator) : Code :=
  .stmts [.bindCell "tilingKeyAddr" "__ac_dynamic_tiling_key" false,
      .bindCell "blockNumAddr" "__ac_dynamic_block_num" false,
      .bindCell "lockAddr" "__ac_dynamic_lock" true]
    ++ Sync.spin "lockAddr" LockState.ready.value
    ++ .empty
    ++ search o.split o.tiling
    ++ .text "return;"

def switchFunction (o : Operator) : Code :=
  .text s!"// begin implement of dynamic op {o.name}" ++ .routine (switchRoutine o) (switchBody o)
    ++ .empty

/-! ### The call -/

/-- Codes of the classes that occupy the same domains. -/
def codes (a : Affinity) : List Nat :=
  (KernelType.all.filter fun t => decide (t.affinity = a)).map KernelType.code

/-- The index that gates classes of an affinity. -/
def gateIndex : Affinity → BlockIndex
  | .vectorOnly => .logical
  | .cubeOnly => .hardware
  | .mixed => .hardware

def calls (split : Nat) (d : Domain) : Code :=
  variantChain ((VariantRef.all split d).map .callPointer) none

/-- The call for classes of an affinity. -/
def callOf (split : Nat) (a : Affinity) : Code :=
  .when (.blockBelow (gateIndex a) (.runtime "numBlocks"))
    (match a with
      | .mixed => .either (.onDomain .cube) (calls split .cube) (calls split .vector)
      | _ => .when (.onDomain a.primary) (calls split a.primary))

def callArms (split : Nat) : List Affinity → Arms
  | [] => .none
  | a :: as => .orWhen (.classIn (codes a)) (callOf split a) (callArms split as)

/-- The call by class, for the affinities that occur. -/
def callByClass (split : Nat) : List Affinity → Code
  | [] => .done
  | a :: as => .choose (.classIn (codes a)) (callOf split a) (callArms split as) .done

/-- The affinities that occur in a table. -/
def affinities (table : List TilingEntry) : List Affinity :=
  [.mixed, .vectorOnly, .cubeOnly].filter fun a =>
    table.any fun e => decide (e.kernelType.affinity = a)

/-- The function that calls: the place of the arguments, then what was stored. -/
def callRoutine (o : Operator) : Routine where
  kind := "__aicore__ inline void"
  name := s!"call_func_of_{o.name}"
  parameters :=
    [⟨"uint64_t", false, "args_offset"⟩]
    ++ (variants o.split).map (fun v => ⟨"const uint64_t", false, v.parameter⟩)
    ++ [⟨"const uint64_t", false, "dy_block_num"⟩]

def callBody (o : Operator) : Code :=
  .stmts ([.unpackClass, .unpackCount,
      .text "g_super_kernel_dynamic_block_num = numBlocks;",
      .text "using FuncType = void (*)(uint64_t args_offset);"]
      ++ (variants o.split).map .bindPointer)
    ++ callByClass o.split (affinities o.tiling)

def callFunction (o : Operator) : Code := .routine (callRoutine o) (callBody o) ++ .empty

/-- Both functions of an operator. -/
def functions (o : Operator) : Code := switchFunction o ++ callFunction o

/-! ### Their use -/

def addresses (split : Nat) : String := list ((variants split).map VariantRef.address)

/-- Waits and chooses. -/
def resolveCode (o : Operator) (s : DynamicSlots) : Code :=
  .text (s!"switch_func_of_{o.name}(param_base[{s.tilingKey}], param_base[{s.blockCount}], "
    ++ s!"param_base[{s.readyLock}], {addresses o.split}, dy_blockNum);")

def invokeCode (o : Operator) (argsOffset : Nat) (before after : List Stmt) : Code :=
  .stmts before
    ++ .text s!"call_func_of_{o.name}({argsOffset}, {addresses o.split}, dy_blockNum);"
    ++ .stmts after

/-- Block 0 gives the lock back. -/
def resetCode (o : Operator) (s : DynamicSlots) : Code :=
  .when (.onDomain o.affinity.primary)
    (.when (.firstBlock (o.kernelType.blockIndex o.affinity.primary))
      (.stmt (.bindCell "lockAddr" s!"param_base[{s.readyLock}]" true)
        ++ .texts (Sync.store "lockAddr" LockState.notReady.value)))

end KernelFusion.Dynamic
