import KernelFusion.Machine.Bytes
import KernelFusion.Machine.Domain

/-!
Profiling records: 16 bytes, a tag word and a cycle count, both least significant byte first.

The low byte of the tag tells a task header from an event mark. Above it a header holds the unit, a
mark its kind and whether it is a stop; the high half of the word holds the task or event id.
-/

namespace KernelFusion

/-- What an event mark is about. -/
inductive ProfilingKind where | kernel | notify | subOperator | wait
  deriving DecidableEq

namespace ProfilingKind

def code : ProfilingKind → Nat
  | .kernel => 0x0
  | .notify => 0x4
  | .subOperator => 0x8
  | .wait => 0xC

def ofCode? : Nat → Option ProfilingKind
  | 0x0 => some .kernel
  | 0x4 => some .notify
  | 0x8 => some .subOperator
  | 0xC => some .wait
  | _ => none

end ProfilingKind

inductive ProfilingRecord where
  /-- first record of a unit -/
  | taskHeader (taskId : UInt32) (unit : UInt8) (cycles : UInt64)
  /-- start or stop of something -/
  | event (eventId : UInt32) (kind : ProfilingKind) (stop : Bool) (cycles : UInt64)
  deriving DecidableEq

namespace ProfilingRecord

def tag : ProfilingRecord → Nat
  | .taskHeader taskId unit _ => taskId.toNat * UInt32.size + unit.toNat * UInt8.size + 0xff
  | .event eventId kind stop _ =>
    eventId.toNat * UInt32.size + (if stop then 0x1000 else 0) + kind.code * UInt8.size

def cycles : ProfilingRecord → UInt64
  | .taskHeader _ _ cycles => cycles
  | .event _ _ _ cycles => cycles

def encode (r : ProfilingRecord) : List UInt8 :=
  littleEndian 8 r.tag ++ littleEndian 8 r.cycles.toNat

/-- The record with a tag and a cycle count. -/
def ofTag? (tag : Nat) (cycles : UInt64) : Option ProfilingRecord :=
  let id := UInt32.ofNat (tag / UInt32.size)
  if tag % UInt8.size = 0xff then
    some (.taskHeader id (UInt8.ofNat (tag / UInt8.size % UInt8.size)) cycles)
  else (ProfilingKind.ofCode? (tag / UInt8.size % 0x10)).map fun kind =>
    .event id kind (decide (tag / 0x1000 % 2 = 1)) cycles

def decode (bytes : List UInt8) : Option ProfilingRecord :=
  ofTag? (fieldAt bytes 0 8) (UInt64.ofNat (fieldAt bytes 8 8))

end ProfilingRecord

/-- Cube units are numbered from here on. -/
def cubeUnitBase : Nat := 50

/-- Region of a unit: vector units by sub-block, cube units past them. -/
def profilingUnit (d : Domain) (block subDim subId : Nat) : Nat :=
  match d with
  | .vector => block * subDim + subId
  | .cube => block + cubeUnitBase

end KernelFusion
