import KernelFusion.Schedule.Step

/-!
The schedule of a launch on two streams: one list of steps for each domain.

A domain runs all operators that have work on it, in the order of the request. Order between the
domains comes from signals on two fixed flags, one for each direction, which are consumed in the
order in which they are raised. Edges that need a signal are thinned out first, so that no two of one
direction cross.
-/

namespace KernelFusion

namespace TwoStream

/-- The operators of a domain, in order. -/
def membersOf (g : Graph) (d : Domain) : List Nat :=
  (List.range g.size).filter fun op => (g.operator op).affinity.contains d

/-- The place of an operator among those of a domain, and the largest number for one that is none of
them. -/
def position (g : Graph) (d : Domain) (op : Nat) : Nat :=
  ((membersOf g d).findIdx? (· == op)).getD (UInt64.size - 1)

/-! ### Thinning out the edges across the domains

Sets of edges are listed by their ids, in order. -/

/-- The edges that need a signal. -/
def signalled (g : Graph) : List Nat := (g.edges.filter Edge.needsSignal).map Edge.id

/-- Whether an edge ends later and starts earlier than another one of its pair. -/
def isCrossed (g : Graph) (live : List Nat) (id : Nat) : Bool :=
  let e := g.edge id
  live.any fun other =>
    let o := g.edge other
    decide (o.pair = e.pair)
      && decide (position g e.pair.consumer o.consumer < position g e.pair.consumer e.consumer)
      && decide (position g e.pair.producer e.producer < position g e.pair.producer o.producer)

def dropCrossed (g : Graph) (live : List Nat) : List Nat :=
  live.filter fun id => !isCrossed g live id

/-- What edges are compared by: one of their ends and their pair. -/
abbrev EdgeKey := Nat × DomainPair

/-- Notes an edge under its key, unless the one that is there is to stay. -/
def note (replaces : Nat → Nat → Bool) (key : EdgeKey) (id : Nat) :
    List (EdgeKey × Nat) → List (EdgeKey × Nat)
  | [] => [(key, id)]
  | (k, kept) :: rest =>
    if k = key then (k, if replaces id kept then id else kept) :: rest
    else (k, kept) :: note replaces key id rest

/-- Goes through edges in order and keeps one for each key. -/
def keepOne (g : Graph) (key : Edge → EdgeKey) (replaces : Edge → Edge → Bool) (live : List Nat) :
    List Nat :=
  let kept := live.foldl (fun kept id =>
    note (fun new old => replaces (g.edge new) (g.edge old)) (key (g.edge id)) id kept) []
  live.filter fun id => (kept.map Prod.snd).contains id

/-- A sender keeps the edge to its first receiver, for each pair. -/
def keepEarliest (g : Graph) : List Nat → List Nat :=
  keepOne g (fun e => (e.producer, e.pair)) fun e kept =>
    decide (position g e.pair.consumer e.consumer < position g e.pair.consumer kept.consumer)

/-- A receiver keeps the edge from its last sender, for each pair. -/
def keepLatest (g : Graph) : List Nat → List Nat :=
  keepOne g (fun e => (e.consumer, e.pair)) fun e kept =>
    decide (position g e.pair.producer kept.producer < position g e.pair.producer e.producer)

/-- The edges that are signalled. -/
def reduce (g : Graph) : List Nat := keepLatest g (keepEarliest g (dropCrossed g (signalled g)))

end TwoStream

/-- A launch on two streams: the operators of each domain and the edges that are kept. -/
structure TwoStream where
  launch : Launch
  kept : List Edge

namespace TwoStream

/-- Edges that are kept: those inside a domain, and of the others those left by `reduce`. -/
def keptEdges (g : Graph) : List Edge :=
  let live := reduce g
  g.edges.filter fun e => e.explicitSync && (!e.pair.isCross || live.contains e.id)

/-- Plans a launch; dynamic operators cannot run on two streams. -/
def plan (l : Launch) : Except Error TwoStream :=
  match l.graph.operators.find? Operator.isDynamic with
  | some o => .error (.invalidOperator o.name .dynamicInTwoStreams)
  | none => .ok ⟨l, keptEdges l.graph⟩

def members (p : TwoStream) (d : Domain) : List Nat := membersOf p.launch.graph d

def sends (p : TwoStream) (op : Nat) : List Edge := p.kept.filter fun e => e.producer == op

def recvs (p : TwoStream) (op : Nat) : List Edge := p.kept.filter fun e => e.consumer == op

/-- Whether no later operator is on the operator's stream. -/
def endsStream (p : TwoStream) (op : Nat) : Bool :=
  p.launch.ids.all fun later => decide (later ≤ op)
    || decide ((p.launch.operator later).stream ≠ (p.launch.operator op).stream)

/-- The domain that sends an operator's outer events. A mixed operator in front of one of cube units
alone sends from the cube side. -/
def notifyDomain (p : TwoStream) (op : Nat) : Domain :=
  if (p.launch.operator op).affinity = .mixed ∧ op + 1 < p.launch.graph.size
      ∧ (p.launch.operator (op + 1)).affinity = .cubeOnly then .cube
  else (p.launch.operator op).eventDomain

def notifies (p : TwoStream) (op : Nat) (d : Domain) : Bool :=
  !(p.launch.events.sends op).isEmpty && decide (p.notifyDomain op = d)

def waits (p : TwoStream) (op : Nat) (d : Domain) : Bool :=
  !(p.launch.events.recvs op).isEmpty && decide ((p.launch.operator op).eventDomain = d)

/-! ### Sides of a boundary -/

/-- Whether an edge behind an operator starts or ends in a domain. -/
def touches (p : TwoStream) (op : Nat) (d : Domain) : Bool :=
  (p.sends op).any fun e => decide (e.pair.producer = d) || decide (e.pair.consumer = d)

/-- Comment that lists where an operator's edges go. -/
def sendInfo (p : TwoStream) (op : Nat) : String :=
  " ".intercalate ((p.sends op).map fun e =>
    s!"{e.pair.text}->{(p.launch.operator e.consumer).name}")

/-- The barrier behind an operator that others wait for. -/
def guardSteps (p : TwoStream) (op : Nat) (d : Domain) : List Step :=
  let name := d.arch
  [.comment (s!"// Rule 1 : sync all {name} must be insert behind each {name} sub operator, "
      ++ "when has real send info"),
   .comment (s!"// sync all C->C|V->V kernel_name:{(p.launch.operator op).name}, "
      ++ s!"send_info:[{p.sendInfo op}]"),
   .barrier (.domain d)]

def signalSteps (p : TwoStream) (op : Nat) (d : Domain) (e : Edge) : List Step :=
  [.comment (s!"// Rule 3.1 : send sync of {e.pair.text} from {(p.launch.operator op).name} "
      ++ s!"to {(p.launch.operator e.consumer).name}"),
   .signal e.id d .mte3 (.ofStream d)]

def waitSteps (p : TwoStream) (op : Nat) (d : Domain) (e : Edge) : List Step :=
  [.comment (s!"// Rule 3.2 : receive sync of {e.pair.text} from "
      ++ s!"{(p.launch.operator e.producer).name} to {(p.launch.operator op).name}"),
   .wait e.id d (.ofStream e.pair.producer)]

/-- Barrier and signals behind an operator on a domain. -/
def sendSteps (p : TwoStream) (op : Nat) (d : Domain) : List Step :=
  if p.launch.isLast op then []
  else if p.touches op d || (!(p.launch.events.sends op).isEmpty && p.endsStream op) then
    p.guardSteps op d
      ++ ((p.sends op).filter fun e => e.pair.isCross && decide (e.pair.producer = d)).flatMap
        (p.signalSteps op d)
  else if (p.sends op).isEmpty && decide ((p.members d).getLast? ≠ some op) then
    [.comment "// insert pipe all for ops", .pipeAll]
  else []

/-- Waits in front of an operator on a domain. -/
def recvSteps (p : TwoStream) (op : Nat) (d : Domain) : List Step :=
  ((p.recvs op).filter fun e => e.pair.isCross && decide (e.pair.consumer = d)).flatMap
    (p.waitSteps op d)

/-- The barrier in front of an operator that receives events. -/
def eventBarrier (o : Operator) : List Step :=
  let reason := "reason3: for continues notify/wait event"
  match o.affinity with
  | .mixed => [.barrier (.full reason)]
  | a => [.comment s!"// {reason}", .barrier (.domain a.primary)]

def eventSteps (p : TwoStream) (op : Nat) (d : Domain) : List Step :=
  if (p.launch.operator op).recvEvents.isEmpty then []
  else (if p.waits op d then [.eventWait op] else [])
    ++ .comment "// two stream when has wait event, add sync by current operator kernel type"
      :: eventBarrier (p.launch.operator op)

/-- The boundary in front of an operator, behind `prev` if there is one on the domain. -/
def boundary (p : TwoStream) (prev : Option Nat) (op : Nat) (d : Domain) : List Step :=
  (match prev with
    | some q => p.sendSteps q d
    | none => [])
  ++ p.recvSteps op d
  ++ (match prev with
    | some q => if p.notifies q d then [.notify q] else []
    | none => [])
  ++ p.eventSteps op d

/-! ### The lists -/

def preloadSteps (p : TwoStream) (prev : Option Nat) (op : Nat) (next : Option Nat) : List Step :=
  if p.launch.options.preload = .perFunc then
    (if prev.isNone then [.preload op] else [])
      ++ (match next with
        | some n => [.preload n]
        | none => [])
  else []

def debugSteps (p : TwoStream) (d : Domain) : List Step :=
  (if p.launch.options.debugDcciAll then [.comment "// op end debug dcci all.", .cacheFlushAll]
    else [])
  ++ (if p.launch.options.debugSyncAll then
      [.comment "// op end debug sync all.", .pipeAll, .barrier (.domain d)]
    else [])

def mark (p : TwoStream) (op : Nat) (start : Bool) : List Step :=
  if p.launch.options.profiling then [.profile (profileEvent op) .subOperator start] else []

/-- What the last operator of a domain leaves to others. -/
def finalSteps (p : TwoStream) (op : Nat) (d : Domain) : List Step :=
  p.sendSteps op d ++ (if p.notifies op d then [.notify op] else [])

/-- All steps of an operator on a domain. -/
def operatorSteps (p : TwoStream) (d : Domain) (prev : Option Nat) (op : Nat) (next : Option Nat) :
    List Step :=
  Step.beginOperator (p.launch.operator op).name :: (p.preloadSteps prev op next
    ++ p.boundary prev op d
    ++ (if p.launch.options.feedSyncAll then [.feedSyncInit op] else [])
    ++ p.mark op true
    ++ .invoke op :: (p.debugSteps d ++ p.mark op false
      ++ (if next.isNone then p.finalSteps op d else [])))

/-- The steps of operators one after the other. -/
def operatorsSteps (p : TwoStream) (d : Domain) : Option Nat → List Nat → List Step
  | _, [] => []
  | prev, op :: ops => p.operatorSteps d prev op ops.head? ++ p.operatorsSteps d (some op) ops

/-- The schedule of a domain. -/
def steps (p : TwoStream) (d : Domain) : List Step :=
  (if p.launch.options.preload = .whole then [.preloadWhole] else [])
    ++ p.operatorsSteps d none (p.members d)

end TwoStream

end KernelFusion
