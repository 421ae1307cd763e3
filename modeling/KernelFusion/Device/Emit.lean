import KernelFusion.Device.Body

/-!
Device code as calls of a writer.

A writer is told line by line what to write, and where a block begins, goes on in another branch, or ends;
nothing but the order of these calls makes an end belong to a beginning. Here are the calls for every step
of a schedule and for the functions of dynamic operators, in the order in which they are made.
-/

namespace KernelFusion

/-- A call of a writer. -/
inductive WriterCall where
  | line (s : String)
  | blank
  /-- opens a block behind a header -/
  | enter (header : String)
  /-- closes a block and opens its continuation -/
  | resume (middle : String)
  /-- closes a block -/
  | leave
  deriving DecidableEq

def WriterCall.apply (w : Writer) : WriterCall → Writer
  | .line s => w.line s
  | .blank => w.blank
  | .enter header => w.enter header
  | .resume middle => w.resume middle
  | .leave => w.leave

/-- The writer behind all calls. -/
def Writer.run (w : Writer) (calls : List WriterCall) : Writer := calls.foldl WriterCall.apply w

namespace Emit

def lines (ss : List String) : List WriterCall := ss.map .line

def stmts (ss : List Stmt) : List WriterCall := ss.map (.line ·.render)

/-- Opens a conditional. -/
def test (c : Cond) : WriterCall := .enter s!"if {c.text}"

/-- Goes on with a branch that is tested. -/
def orTest (c : Cond) : WriterCall := .resume s!"else if {c.text}"

/-- Goes on with the last branch. -/
def otherwise : WriterCall := .resume "else"

/-! ### Choices among variants -/

/-- What begins the branch of a variant: the first one opens the choice, the last one needs no test. -/
def branch (split i : Nat) : WriterCall :=
  if i = 0 then test (.coreIs split 0)
  else if i + 1 = split then otherwise
  else orTest (.coreIs split i)

/-- The choice among variants by the core number; one variant needs none. -/
def variantChain (variants : List Stmt) (tail : Option Stmt) : List WriterCall :=
  if variants.length ≤ 1 then stmts (variants.head?.toList ++ tail.toList)
  else
    .line Stmt.readCore.render
      :: variants.zipIdx.flatMap (fun v => branch variants.length v.2 :: stmts (v.1 :: tail.toList))
      ++ [.leave]

/-- The end of the test for the blocks of an operator, with what the other units do. -/
def gateEnd : Option Stmt → List WriterCall
  | some s => [otherwise, .line s.render, .leave]
  | none => [.leave]

/-- Statements for the blocks of an operator in a domain. -/
def guarded (g : Guarded) (arch : Option Domain) : List WriterCall :=
  (if arch = some g.domain then [] else [test (.onDomain g.domain)])
    ++ stmts g.before
    ++ test (.blockBelow g.index g.limit)
    :: variantChain g.variants g.tail
    ++ gateEnd g.complement
    ++ stmts g.after
    ++ (if arch = some g.domain then [] else [.leave])
    ++ [.blank]

/-! ### Functions of dynamic operators -/

/-- Notes an entry of a table. -/
def select (split : Nat) (e : TilingEntry) : List WriterCall :=
  stmts (Dynamic.addressesOf e split .vector ++ Dynamic.addressesOf e split .cube
    ++ [.publish e.kernelType.code])

/-- The binary search in a table. -/
def search (split : Nat) : List TilingEntry → List WriterCall
  | [] => []
  | [e] => test (.keyIs e.key) :: select split e ++ [.leave]
  | [a, b] =>
    test (.keyIs a.key) :: select split a ++ otherwise :: select split b
      ++ [.leave]
  | a :: b :: c :: rest =>
    let entries := a :: b :: c :: rest
    let middle := entries.length / 2
    test (.keyBelow (entries.getD middle a).key)
      :: search split (entries.take middle) ++ otherwise :: search split (entries.drop middle)
      ++ [.leave]
termination_by entries => entries.length
decreasing_by
  all_goals simp only [List.length_take, List.length_drop, List.length_cons]; omega

/-- Reads a cell anew until it has a value. The block of the loop is part of the lines. -/
def spin (cell : String) (value : Nat) : List WriterCall :=
  lines [Sync.flushCell cell, (Head.spin cell value).text ++ " \x7b", "    " ++ Sync.flushCell cell, "\x7d"]

def switchFunction (o : Operator) : List WriterCall :=
  .line s!"// begin implement of dynamic op {o.name}"
    :: .enter (Dynamic.switchRoutine o).signature
    :: lines [Sync.bindCell "tilingKeyAddr" "__ac_dynamic_tiling_key" false,
      Sync.bindCell "blockNumAddr" "__ac_dynamic_block_num" false,
      Sync.bindCell "lockAddr" "__ac_dynamic_lock" true]
    ++ spin "lockAddr" LockState.ready.value
    ++ .blank :: search o.split o.tiling
    ++ [.line "return;", .leave, .blank]

def calls (split : Nat) (d : Domain) : List WriterCall :=
  variantChain ((VariantRef.all split d).map .callPointer) none

/-- The call for classes of an affinity, in the units of its domains. -/
def callOf (split : Nat) (a : Affinity) : List WriterCall :=
  test (.blockBelow (Dynamic.gateIndex a) (.runtime "numBlocks"))
    :: (match a with
      | .mixed =>
        test (.onDomain .cube) :: calls split .cube ++ otherwise :: calls split .vector
          ++ [.leave]
      | _ => test (.onDomain a.primary) :: calls split a.primary ++ [.leave])
    ++ [.leave]

/-- The call by class: the first affinity that occurs opens the choice, which is closed if there was one. -/
def callByClass (split : Nat) (table : List TilingEntry) : Bool → List Affinity → List WriterCall
  | opened, [] => if opened then [.leave] else []
  | opened, a :: as =>
    if table.any fun e => decide (e.kernelType.affinity = a) then
      (if opened then orTest (.classIn (Dynamic.codes a)) else test (.classIn (Dynamic.codes a)))
        :: callOf split a ++ callByClass split table true as
    else callByClass split table opened as

def callFunction (o : Operator) : List WriterCall :=
  .enter (Dynamic.callRoutine o).signature
    :: stmts ([.unpackClass, .unpackCount,
      .text "g_super_kernel_dynamic_block_num = numBlocks;",
      .text "using FuncType = void (*)(uint64_t args_offset);"]
      ++ (Dynamic.variants o.split).map .bindPointer)
    ++ callByClass o.split o.tiling false [.mixed, .vectorOnly, .cubeOnly]
    ++ [.leave, .blank]

/-- Both functions of an operator. -/
def functions (o : Operator) : List WriterCall := switchFunction o ++ callFunction o

/-! ### Parts of steps -/

/-- Calls for the units of a domain. -/
def onDomain (arch : Option Domain) (d : Domain) (body : List WriterCall) : List WriterCall :=
  match arch with
  | some a => if a = d then body else []
  | none => test (.onDomain d) :: body ++ [.leave]

def barrier (arch : Option Domain) (b : Barrier) : List WriterCall :=
  match b.scope with
  | .full => [.line (Sync.fullBarrier b.reason)]
  | .domain d =>
    lines (b.reason.map (s!"// {·}")).toList ++ onDomain arch d (lines (Sync.domainBarrier d))

/-- Loads a static operator on the units that will run it. -/
def staticPreload (o : Operator) (arch : Option Domain) : List WriterCall :=
  o.affinity.domains.flatMap fun d =>
    match o.functions.get? d with
    | none => []
    | some base =>
      if Prefetch.units (o.textSize.get d) = 0 ∨ (arch.isSome ∧ arch ≠ some d) then []
      else guarded (.make d (o.kernelType.blockIndex d) (.count o.blockCount)
        ((variantSymbols base o.split).map fun symbol =>
          .prefetch symbol (Prefetch.units (o.textSize.get d)))) arch

/-- Loads a dynamic operator from the addresses that were chosen. -/
def dynamicPreload (o : Operator) (arch : Option Domain) : List WriterCall :=
  o.affinity.domains.flatMap fun d =>
    guarded (.make d (o.kernelType.blockIndex d) (.count o.blockCount)
      ((VariantRef.all o.split d).map fun v => .prefetchVariant v (Prefetch.dynamicUnits d))) arch

/-- One side of the handshake, the operator's primary domain first. -/
def handshake (side : HandshakeSide) (o : Operator) : List WriterCall :=
  [o.affinity.primary, o.affinity.primary.other].flatMap fun d =>
    [test (.onDomain d), test (side.units o d), .line (side.text o d), .leave, .leave, .blank]

/-- The outer events of an operator. -/
def events (l : Launch) (arch : Option Domain) (op : Nat) (direction : EventDirection) : List WriterCall :=
  let locks := match direction with
    | .notify => (l.table.operator op).notify
    | .wait => (l.table.operator op).wait
  let d := arch.getD (l.operator op).eventDomain
  if locks.isEmpty then []
  else test (.onDomain d)
    :: lines (locks.flatMap (Events.lockLines (l.operator op) d direction l.options.profiling)) ++ [.leave]

/-- Clears all locks that were waited for. -/
def clearLocks (l : Launch) : List WriterCall :=
  l.ids.flatMap fun op =>
    let o := l.operator op
    let locks := (l.table.operator op).wait
    if locks.isEmpty then []
    else test (.onDomain o.eventDomain)
      :: test (.firstBlock (o.kernelType.blockIndex o.eventDomain))
      :: lines (locks.map fun lock =>
        s!"*(reinterpret_cast<__gm__ uint64_t*>(param_base[{lock.2}])) = 0;")
      ++ [.leave, .leave]

/-- Prepares the area for an operator's own barrier. -/
def feedInit (l : Launch) (arch : Option Domain) (op : Nat) : List WriterCall :=
  if l.feeds op then
    lines ["AscendC::g_superKernelAutoSyncAllSyncIdx = 0;", "AscendC::g_superKernelAutoSyncAllEnable = true;"]
      ++ onDomain arch .cube [.line (Stmt.feedArea none op).render]
      ++ onDomain arch .vector [.line (Stmt.feedArea (some l.shape.operatorCount) op).render]
  else [.line "AscendC::g_superKernelAutoSyncAllEnable = false;"]

/-- Block 0 gives the lock of a dynamic operator back. -/
def lockReset (o : Operator) (s : DynamicSlots) : List WriterCall :=
  test (.onDomain o.affinity.primary)
    :: test (.firstBlock (o.kernelType.blockIndex o.affinity.primary))
    :: .line (Sync.bindCell "lockAddr" s!"param_base[{s.readyLock}]" true)
    :: lines (Sync.store "lockAddr" LockState.notReady.value)
    ++ [.leave, .leave]

/-- The call of an operator; a static one is called in each of its domains. -/
def invoke (l : Launch) (arch : Option Domain) (op : Nat) : List WriterCall :=
  let o := l.operator op
  let argsOffset := (l.table.operator op).argsOffset
  if o.isDynamic then
    stmts (Body.before o)
      ++ .line s!"call_func_of_{o.name}({argsOffset}, {Dynamic.addresses o.split}, dy_blockNum);"
      :: stmts (Body.after o)
  else o.affinity.domains.flatMap fun d =>
    if arch.isSome ∧ arch ≠ some d then []
    else match o.functions.get? d with
      | none => []
      | some base =>
        guarded {
          domain := d
          index := o.kernelType.blockIndex d
          limit := .count o.blockCount
          variants := (variantSymbols base o.split).map fun symbol => .call symbol argsOffset
          before := Body.before o
          after := Body.after o
          tail := if l.feeds op then some (.text "AscendC::SuperKernelAutoSyncAllEndImpl();") else none
          complement :=
            if l.feeds op then some (.text "AscendC::SuperKernelAutoSyncAllComplementImpl();") else none }
          arch

/-! ### Steps -/

def step (l : Launch) (arch : Option Domain) : Step → List WriterCall
  | .comment text => [.line text]
  | .pipeAll => [.line Sync.pipeAll]
  | .barrier b => barrier arch b
  | .signal _ producer pipe flag => onDomain arch producer [.line (Sync.raise pipe flag)]
  | .wait _ consumer flag => onDomain arch consumer [.line (Sync.await flag)]
  | .preloadWhole => [.line (Prefetch.wholeKernel Prefetch.wholeUnits)]
  | .preload op =>
    if (l.operator op).isDynamic then dynamicPreload (l.operator op) arch
    else staticPreload (l.operator op) arch
  | .earlyStartSet op => handshake .set (l.operator op)
  | .earlyStartConfig config => [.line s!"g_super_kernel_early_start_config = {config};"]
  | .earlyStartWait op config => handshake (.wait config) (l.operator op)
  | .notify op => events l arch op .notify
  | .eventWait op => events l arch op .wait
  | .dynamicResolve op =>
    match (l.table.operator op).dynamic with
    | some cells =>
      let o := l.operator op
      [.line (s!"switch_func_of_{o.name}(param_base[{cells.tilingKey}], param_base[{cells.blockCount}], "
        ++ s!"param_base[{cells.readyLock}], {Dynamic.addresses o.split}, dy_blockNum);")]
    | none => []
  | .feedSyncInit op => feedInit l arch op
  | .profile event kind start => [.line (Recorder.mark event kind start)]
  | .invoke op => invoke l arch op
  | .lockReset op =>
    match (l.table.operator op).dynamic with
    | some cells => lockReset (l.operator op) cells
    | none => []
  | .cacheFlushAll => [.line Sync.flushAll]
  | .clearWaitLocks => clearLocks l
  | .instructionCacheEpilogue => lines Body.epilogue

/-- One step behind the other. -/
def steps (l : Launch) (arch : Option Domain) (ss : List Step) : List WriterCall :=
  ss.flatMap (step l arch)

end Emit

end KernelFusion
