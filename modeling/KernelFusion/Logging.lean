import KernelFusion.Logging.Filter

/-!
Configuration of the generator's log: three presets, and overrides from the environment.
-/

namespace KernelFusion.Logging

inductive Format where | compact | pretty | json
  deriving DecidableEq

/-- A format by its name; blanks around it and capitals do not count. -/
def Format.ofName? (s : String) : Option Format :=
  match Text.lower (Text.trim s) with
  | "compact" => some .compact
  | "pretty" => some .pretty
  | "json" => some .json
  | _ => none

structure Config where
  directives : Option String
  defaultDirective : String
  includeTargets : Bool
  ansi : Bool
  /-- whether the end of a span is logged -/
  spanClose : Bool
  output : Format
  stageTiming : Bool
  /-- shortest stage that is logged, in microseconds -/
  stageThreshold : Option UInt64

/-- For work at a terminal. -/
def Config.interactive : Config := ⟨none, "info", true, true, false, .pretty, true, none⟩

/-- For collected logs. -/
def Config.ci : Config := ⟨none, "info", true, false, false, .json, false, none⟩

/-- For looking at the time of each stage. -/
def Config.performance : Config :=
  ⟨some "superfuse_codegen=debug,superfuse_core=debug", "info", true, false, true, .json, true, none⟩

/-- Settings found in the environment. -/
structure Environment where
  profile : Option String
  directives : Option String
  format : Option String
  stageTiming : Option String
  threshold : Option String

/-- The preset of a profile name; a name that is not known gives the interactive one. -/
def Config.ofProfile (name : String) : Config :=
  match Text.lower name with
  | "ci" => .ci
  | "performance" => .performance
  | _ => .interactive

def Config.withDirectives (c : Config) : Option String → Config
  | some s => if (Text.trim s).isEmpty then c else { c with directives := some s }
  | none => c

/-- JSON output is never coloured. -/
def Config.withFormat (c : Config) : Option String → Config
  | some s => match Format.ofName? s with
    | some f => { c with output := f, ansi := if f = .json then false else c.ansi }
    | none => c
  | none => c

/-- Whether a text switches something on. -/
def isYes (s : String) : Bool := s == "1" || Text.lower s == "true" || Text.lower s == "yes"

def Config.withStageTiming (c : Config) : Option String → Config
  | some s => { c with stageTiming := isYes s }
  | none => c

def Config.withThreshold (c : Config) : Option String → Config
  | some s => match Text.count64? s with
    | some n => { c with stageThreshold := some n }
    | none => c
  | none => c

def Config.ofEnvironment (e : Environment) : Config :=
  ((((Config.ofProfile (e.profile.getD "local")).withDirectives e.directives).withFormat
    e.format).withStageTiming e.stageTiming).withThreshold e.threshold

/-- Whether the log can be set up with this configuration. -/
def Config.isAccepted (c : Config) : Bool :=
  match c.directives with
  | some s => acceptsFilter s
  | none => true

/-! ### Stage timing -/

/-- The switch for stage timing and its threshold; no threshold logs every stage. -/
structure StageTiming where
  enabled : Bool
  threshold : UInt64

def StageTiming.set (enabled : Bool) (threshold : Option UInt64) : StageTiming :=
  ⟨enabled, threshold.getD 0⟩

end KernelFusion.Logging
