import KernelFusion.Graph.Edge
import KernelFusion.Schedule.Flag

/-!
Every reason for which a request, a schedule or a record is refused, and its wording.

A reason names the operator, option or edge at fault; `Error.message` is the only place that turns
reasons into text.
-/

namespace KernelFusion

inductive MetadataFault where
  | wrongLength (found : Nat)
  | badHeader (offset tag length : Nat)
  | unknownMain (code : Nat)
  deriving DecidableEq

inductive OptionFault where
  | incomplete
  | repeated
  | notOneOf (allowed value : String)
  | notDigits (value : String)
  | outOfRange (value : String)
  | splitOutside (limit value : Nat)
  | zeroUnits
  | badAlignment (value : Nat)
  | unknown
  deriving DecidableEq

inductive OperatorFault where
  | badKernelName
  | badName
  | unknownType (name : String)
  | repeatedKey (key : Nat)
  | badFunctionName (name : String)
  | missingFunction (type : KernelType) (domain : Domain)
  | zeroBlockDim
  | tableOnStatic
  | tableDiffers
  | splitDiffers (own fused : Nat)
  | earlyStartDisabled (set wait : Bool)
  | earlyStartOnDynamic
  | zeroSplit
  | zeroBlocks
  | tooFewUnits (needed : Nat) (domain : Domain) (available : Nat)
  | dynamicInTwoStreams
  deriving DecidableEq

/-- The two event lists of an operator. -/
inductive EventSide where | send | recv
  deriving DecidableEq

inductive EventFault where
  | repeatedId (side : EventSide)
  | sentAndReceived (event : UInt32)
  | firstReceives
  | lastSends
  | connectedOnStream (former : String)
  | unconnectedSwitch (former stream : UInt32)
  | innerOnStream (event : UInt32) (sender : String)
  deriving DecidableEq

inductive GraphFault where
  | noOperators
  | noUnits
  | unknownOperator (id : Nat)
  | repeatedEdge (producer consumer : Nat) (pair : DomainPair)
  | backwardEdge (edge : Edge) (producer consumer : String)
  | neverInvoked (id : Nat)
  | unequalBarriers (cube vector : Nat)
  deriving DecidableEq

/-- The steps in the life of a ready lock. -/
inductive LockStep where | resolve | invoke | reset
  deriving DecidableEq

inductive DynamicFault where
  | emptyTable
  | noCells
  | sharedSlot (slot : Nat)
  | foreignSlot (slot : Nat)
  | missingStep (step : LockStep)
  | repeatedStep (count : Nat) (step : LockStep)
  | outOfOrder
  | earlyReset
  deriving DecidableEq

inductive WaitFault where
  | stillHeld (flag : Flag) (holder : Edge)
  | carriesOther (flag : Flag) (holder : Edge)
  | neverSignalled (flag : Flag)
  | neverConsumed (flag : Flag)
  | signalOnUnitLocal
  | outOfOrder
  | notRealized
  | notOnce
  | wrongFlag (flag expected : Flag)
  | orderDiffers
  deriving DecidableEq

inductive Error where
  | unsupportedKernelType (code : Nat)
  | unknownKernelTypeName (name : String)
  | malformedMetadata (fault : MetadataFault)
  | invalidLockState (value : Nat)
  | invalidOption (key : String) (fault : OptionFault)
  | invalidOperator (operator : String) (fault : OperatorFault)
  | invalidEvent (operator : String) (fault : EventFault)
  | malformedGraph (fault : GraphFault)
  | unresolvedDynamic (operator : String) (fault : DynamicFault)
  | unmatchedWait (edge : Edge) (fault : WaitFault)
  | channelExhausted (edge : Edge)
  /-- the consumer of an edge without a signal comes first, so there is no span to search -/
  | reversedSpan (edge : Edge)
  /-- no size is enough for the area that barriers are fed from, so that looking for it never ends -/
  | unboundedSizing
  deriving DecidableEq

/-! ### Wording -/

def unknownTypeMessage (name : String) : String := s!"Unknown kernel type name: {name}"

def MetadataFault.message : MetadataFault → String
  | .wrongLength found => s!"expected 16 bytes, found {found}"
  | .badHeader offset tag length => s!"bad field header at {offset}: tag {tag}, len {length}"
  | .unknownMain code => s!"unknown main domain code {code}"

def OptionFault.message : OptionFault → String
  | .incomplete => "the key-value pair is incomplete"
  | .repeated => "option has already been set"
  | .notOneOf allowed value => s!"should be one of [{allowed}], {value} is invalid"
  | .notDigits value => s!"should be a digit, {value} is invalid"
  | .outOfRange value => s!"{value} is out of range"
  | .splitOutside limit value => s!"should be in (0, {limit}], {value} is invalid"
  | .zeroUnits => "should be a positive integer, 0 is invalid"
  | .badAlignment value => s!"should be one of [0, 2, 4, 8, ...], {value} is invalid"
  | .unknown => "option is not supported"

def OperatorFault.message : OperatorFault → String
  | .badKernelName => "kernel name is not a valid identifier"
  | .badName => "name is not a valid identifier"
  | .unknownType name => unknownTypeMessage name
  | .repeatedKey key => s!"tiling key {key} appears twice"
  | .badFunctionName name => s!"function name `{name}` is not a valid identifier"
  | .missingFunction type domain => s!"{type.name} requires a {domain.label} function"
  | .zeroBlockDim => "block_dim must be positive"
  | .tableOnStatic => "only dynamic operators carry a tiling table"
  | .tableDiffers => "dynamic operator reuses a name with a different tiling table"
  | .splitDiffers own fused => s!"split_mode {own} does not match the fused split mode {fused}"
  | .earlyStartDisabled set wait =>
    s!"early-start flags set:{set} wait:{wait} do not match the disabled fused early-start mode"
  | .earlyStartOnDynamic => "dynamic operators do not support early start"
  | .zeroSplit => "split factor must be at least 1"
  | .zeroBlocks => "block count must be positive"
  | .tooFewUnits needed domain available =>
    s!"needs {needed} {domain.label} units but the hardware has {available}"
  | .dynamicInTwoStreams => "dynamic operators are not supported in two-stream schedules"

def EventSide.label : EventSide → String
  | .send => "send"
  | .recv => "recv"

def EventFault.message : EventFault → String
  | .repeatedId side => s!"duplicate id in {side.label} event list"
  | .sentAndReceived event => s!"sends and receives event {event}"
  | .firstReceives => "the first operator must not wait on any event"
  | .lastSends => "the last operator must not send any event"
  | .connectedOnStream former => s!"is connected by an event to `{former}` on the same stream"
  | .unconnectedSwitch former stream =>
    s!"switches from stream {former} to {stream} without a connecting event; set stream-fusion=1"
  | .innerOnStream event sender => s!"inner event {event} from `{sender}` stays on one stream"

def GraphFault.message : GraphFault → String
  | .noOperators => "fusion request has no operators"
  | .noUnits => "hardware profile must have units in both domains"
  | .unknownOperator id => s!"edge references unknown operator {operatorTag id}"
  | .repeatedEdge producer consumer pair =>
    s!"duplicate edge {operatorTag producer} -> {operatorTag consumer} ({pair.text})"
  | .backwardEdge edge producer consumer =>
    s!"edge {edge.text} does not follow operator order ({producer} -> {consumer})"
  | .neverInvoked id => s!"operator {operatorTag id} is never invoked"
  | .unequalBarriers cube vector =>
    s!"cube stream reaches {cube} full barriers but vector stream reaches {vector}"

def LockStep.label : LockStep → String
  | .resolve => "resolve"
  | .invoke => "invoke"
  | .reset => "lock reset"

def DynamicFault.message : DynamicFault → String
  | .emptyTable => "dynamic operator has an empty tiling table"
  | .noCells => "no runtime cells were assigned"
  | .sharedSlot slot => s!"ready lock slot {slot} is shared"
  | .foreignSlot slot => s!"slot {slot} is not this operator's ready lock"
  | .missingStep step => s!"no {step.label} step"
  | .repeatedStep count step => s!"{count} {step.label} steps"
  | .outOfOrder => "resolve, invoke and lock reset are out of order"
  | .earlyReset => "the lock is reset before every reader has passed the spin"

def WaitFault.message : WaitFault → String
  | .stillHeld flag holder => s!"flag {flag.text} is still held by edge {holder.text}"
  | .carriesOther flag holder => s!"flag {flag.text} carries edge {holder.text}"
  | .neverSignalled flag => s!"nothing signalled flag {flag.text}"
  | .neverConsumed flag => s!"signal on flag {flag.text} is never consumed"
  | .signalOnUnitLocal => "unit-local edge carries a signal"
  | .outOfOrder => "signal and wait are out of order"
  | .notRealized => "no barrier or signal realizes the dependency"
  | .notOnce => "expected exactly one signal and one wait"
  | .wrongFlag flag expected => s!"signal on {flag.text} instead of {expected.text}"
  | .orderDiffers => "waits do not follow the signal order"

def Error.message : Error → String
  | .unsupportedKernelType code =>
    s!"Unsupported kernel type value: {code} (observed classes are 0, 1, 4, 5, 6, 7)"
  | .unknownKernelTypeName name => unknownTypeMessage name
  | .malformedMetadata fault => s!"Malformed core-mix metadata: {fault.message}"
  | .invalidLockState value => s!"Invalid lock state: {value} (must be 0 or 1)"
  | .invalidOption key fault => s!"[EB0500] invalid fusion option `{key}`: {fault.message}"
  | .invalidOperator operator fault => s!"Invalid operator `{operator}`: {fault.message}"
  | .invalidEvent operator fault => s!"Invalid event on operator `{operator}`: {fault.message}"
  | .malformedGraph fault => s!"Malformed graph: {fault.message}"
  | .unresolvedDynamic operator fault =>
    s!"Unresolved dynamic dependency on `{operator}`: {fault.message}"
  | .unmatchedWait edge fault => s!"Unmatched wait on edge {edge.text}: {fault.message}"
  | .channelExhausted edge => s!"No free cross-domain channel for edge {edge.text}"
  | .reversedSpan edge => s!"Edge {edge.text} is consumed before it is produced"
  | .unboundedSizing => "Barriers without units have no area to be fed from"

end KernelFusion
