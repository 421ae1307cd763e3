import KernelFusion.Error
import KernelFusion.Request.Descriptor
import KernelFusion.Text.Fields
import KernelFusion.Text.Word

/-!
Checks of a request that need neither options nor hardware: names, kernel types, tiling tables,
functions, event lists. The first thing that is wrong, in that order and operator by operator, is the
one reported.
-/

namespace KernelFusion

/-- The kernel type of a name that belongs to an operator. -/
def resolveType (operator typeName : String) : Except Error KernelType :=
  match KernelType.ofName? typeName with
  | some t => .ok t
  | none => .error (.invalidOperator operator (.unknownType typeName))

/-- Every domain of a kernel type needs a function with a proper name. -/
def checkFunctions (operator : String) (t : KernelType) (f : FunctionNames) : Except Error Unit :=
  t.affinity.domains.forM fun d =>
    match f.get? d with
    | none => throw (.invalidOperator operator (.missingFunction t d))
    | some name =>
      if Text.isIdentifier name then pure ()
      else throw (.invalidOperator operator (.badFunctionName name))

namespace OperatorDescriptor

def resolvedType (o : OperatorDescriptor) : Except Error KernelType := resolveType o.name o.kernelType

def isDynamic (o : OperatorDescriptor) : Bool := decide (o.taskType = .dynamic)

/-- Whether the debug options ask for a dump area. -/
def needsDump (o : OperatorDescriptor) : Bool :=
  ["timestamp", "printf", "assert"].any fun word => Text.mentions o.debugOptions word

/-- Checks the cases of a tiling table behind those with the keys `seen`. -/
def checkCases (operator : String) : List UInt64 → List TilingCase → Except Error Unit
  | _, [] => .ok ()
  | seen, c :: cs => do
    if seen.contains c.tilingKey then
      throw (.invalidOperator operator (.repeatedKey c.tilingKey.toNat))
    let t ← resolveType operator c.kernelType
    checkFunctions operator t c.functions
    checkCases operator (c.tilingKey :: seen) cs

/-- Checks how the operator is run. -/
def checkDispatch (o : OperatorDescriptor) (t : KernelType) : Except Error Unit :=
  if o.isDynamic then
    if o.tiling.isEmpty then .error (.unresolvedDynamic o.name .emptyTable)
    else checkCases o.name [] o.tiling
  else if o.blockDim = 0 then .error (.invalidOperator o.name .zeroBlockDim)
  else if !o.tiling.isEmpty then .error (.invalidOperator o.name .tableOnStatic)
  else checkFunctions o.name t o.functions

def checkEvents (o : OperatorDescriptor) : Except Error Unit := do
  if !decide o.sendEvents.Nodup then throw (.invalidEvent o.name (.repeatedId .send))
  if !decide o.recvEvents.Nodup then throw (.invalidEvent o.name (.repeatedId .recv))

def check (o : OperatorDescriptor) : Except Error Unit := do
  if !Text.isIdentifier o.name then throw (.invalidOperator o.name .badName)
  let t ← o.resolvedType
  o.checkDispatch t
  o.checkEvents

/-- The tiling table in the order of its keys. -/
def sortedTiling (o : OperatorDescriptor) : List TilingCase :=
  o.tiling.mergeSort fun a b => decide (a.tilingKey.toNat ≤ b.tilingKey.toNat)

/-- Whether two dynamic operators can share the functions that choose and call their code. -/
def sameTable (a b : OperatorDescriptor) : Bool :=
  decide (a.kernelType = b.kernelType) && decide (a.sortedTiling = b.sortedTiling)

end OperatorDescriptor

namespace Request

/-- Dynamic operators of one name have one table: each is compared with the first of its name. -/
def checkShared : List OperatorDescriptor → List OperatorDescriptor → Except Error Unit
  | _, [] => .ok ()
  | firsts, o :: os =>
    match firsts.find? fun f => f.name == o.name with
    | none => checkShared (firsts ++ [o]) os
    | some first =>
      if first.sameTable o then checkShared firsts os
      else .error (.invalidOperator o.name .tableDiffers)

def check (r : Request) : Except Error Unit := do
  if !Text.isIdentifier r.kernelName then throw (.invalidOperator r.kernelName .badKernelName)
  if r.operators.isEmpty then throw (.malformedGraph .noOperators)
  if r.hardware.cubeUnits = 0 || r.hardware.vectorUnits = 0 then throw (.malformedGraph .noUnits)
  r.operators.forM OperatorDescriptor.check
  checkShared [] (r.operators.filter OperatorDescriptor.isDynamic)

end Request

end KernelFusion
