import KernelFusion.Machine.Overflow
import KernelFusion.Profiling.Record

/-!
The profiling region of one unit.

A unit keeps records until its region is full or the magic number is wrong; then it switches itself
off. Computation never waits for it. A call has no result where the cursor overflows and the program
stops at that.
-/

namespace KernelFusion

structure ProfilingRing where
  magic : UInt64
  /-- next byte to write -/
  cursor : UInt64
  capacity : UInt64
  off : Bool
  records : List ProfilingRecord
  deriving DecidableEq

namespace ProfilingRing

/-- The number at the start of a region in use. -/
def goodMagic : UInt64 := 0xbdca8756

/-- Bytes of one record. -/
def recordBytes : UInt64 := 16

/-- A region as its header describes it. -/
def ofHeader (magic cursor capacity : UInt64) : ProfilingRing := ⟨magic, cursor, capacity, false, []⟩

/-- A fresh region for `n` records. -/
def ofCapacity (v : Overflow) (n : UInt64) : Option ProfilingRing :=
  (v.mul n recordBytes).map (ofHeader goodMagic 0)

def isValid (r : ProfilingRing) : Bool :=
  decide (r.magic = goodMagic) && decide (r.cursor < r.capacity)

/-- The region with one more record, checked again with the cursor behind it. -/
def written (r : ProfilingRing) (x : ProfilingRecord) (cursor : UInt64) : ProfilingRing :=
  let moved := { r with cursor := cursor, records := r.records ++ [x] }
  { moved with off := moved.off || !moved.isValid }

/-- Writes a record and checks the region again. -/
def push (v : Overflow) (r : ProfilingRing) (x : ProfilingRecord) : Option ProfilingRing :=
  (v.add r.cursor recordBytes).map (r.written x)

/-- Starts a task: switches on if the region is valid and writes the task header. -/
def init (v : Overflow) (r : ProfilingRing) (taskId : UInt32) (unit : UInt8) (cycles : UInt64) :
    Option ProfilingRing :=
  if r.isValid then push v { r with off := false } (.taskHeader taskId unit cycles)
  else some { r with off := true }

/-- Records a start or stop; the Boolean tells whether it was kept. -/
def record (v : Overflow) (r : ProfilingRing) (eventId : UInt32) (kind : ProfilingKind) (start : Bool)
    (cycles : UInt64) : Option (Bool × ProfilingRing) :=
  if r.off then some (false, r)
  else (push v r (.event eventId kind (!start) cycles)).map fun moved => (true, moved)

end ProfilingRing

end KernelFusion
