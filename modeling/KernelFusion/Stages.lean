import KernelFusion.Generator

/-!
The results on the way from a request to its schedule, one after the other.
-/

namespace KernelFusion

/-- A result on the way. -/
inductive Stage where
  | options (o : Options)
  | checked
  | operators (ops : List Operator)
  | events (p : EventPlan) (ops : List Operator)
  | shape (s : LaunchShape) (ops : List Operator)
  | edges (es : List Edge)
  | table (t : Table)
  | launch (l : Launch)
  | steps (ss : List Step)
  | members (cube vector : List Nat)
  | domainSteps (d : Domain) (ss : List Step)
  | sync (s : SyncStats)
  | owned
  /-- the end of the way -/
  | failed (e : Error)

namespace Stage

/-- Goes on with a result or ends with its error. -/
def after {α : Type} (x : Except Error α) (next : α → List Stage) : List Stage :=
  match x with
  | .ok a => next a
  | .error e => [.failed e]

def ofSingleStream (l : Launch) : List Stage :=
  after (SingleStream.build l) fun ss =>
  .steps ss :: after (Schedule.verify l.graph ss) fun s =>
  .sync s :: after (Ownership.check l.graph l.table ss) fun _ => [.owned]

def ofTwoStream (l : Launch) : List Stage :=
  after (TwoStream.plan l) fun p =>
  let ss := Generator.streamSteps p
  .members (p.members .cube) (p.members .vector)
    :: .domainSteps .cube ss.cube :: .domainSteps .vector ss.vector
    :: after (ss.verify l.graph) fun s => [.sync s]

def ofLaunch (l : Launch) : List Stage :=
  match l.events.mode with
  | .singleStream => ofSingleStream l
  | .twoStream => ofTwoStream l

/-- All stages of a request. -/
def ofRequest (r : Request) : List Stage :=
  after (Options.parse r.options) fun o =>
  .options o :: after r.check fun _ =>
  .checked :: after (Operator.ofDescriptors o (Generator.units r o) 0 r.operators) fun ops =>
  .operators ops :: after (EventPlan.analyze ops o.streamFusion) fun p =>
  .events p ops :: after (Generator.shape ops o) fun s =>
  .shape s ops :: after (Generator.graph (Generator.units r o) ops p) fun g =>
  let l := Generator.launchOf r o g p s
  .edges g.edges :: .table l.table :: .launch l :: ofLaunch l

end Stage

end KernelFusion
