import KernelFusion.Device.Sync

/-!
Clearing the workspace before the first operator.

The units of one domain share the workspace out and zero it in slices of 512 bytes. Where both
domains take part the vector units clear and the cube units wait for them.
-/

namespace KernelFusion

structure Clearing where
  /-- the domain that clears -/
  domain : Domain
  /-- bytes that are divided by the number of blocks -/
  bytes : Nat
  /-- whether the other domain waits -/
  releases : Bool
  deriving DecidableEq

namespace Clearing

/-- Who clears a workspace in a launch. Two vector units of a block get half of its share each. -/
def of (t : KernelType) (bytes : Nat) : Clearing :=
  match t with
  | .aicOnly => ⟨.cube, bytes, false⟩
  | .mixAic10 => ⟨.cube, bytes, false⟩
  | .aivOnly => ⟨.vector, bytes, false⟩
  | .mixAiv10 => ⟨.vector, bytes, false⟩
  | .mixAic11 => ⟨.vector, bytes, true⟩
  | .mixAic12 => ⟨.vector, bytes / 2, true⟩

/-- Zeroes the buffer on the chip before the first copy. -/
def zeroBuffer : Domain → List String
  | .cube =>
    ["create_cbuf_matrix((__cbuf__ uint32_t*)(0), 0x10010, 0);",
     "AscendC::SetFlag<AscendC::HardEvent::MTE2_MTE3>(EVENT_ID0);",
     "AscendC::WaitFlag<AscendC::HardEvent::MTE2_MTE3>(EVENT_ID0);"]
  | .vector =>
    ["AscendC::DuplicateImpl((__ubuf__ uint32_t*)(0), (uint32_t)0, 128);",
     "AscendC::SetFlag<AscendC::HardEvent::V_MTE3>(EVENT_ID0);",
     "AscendC::WaitFlag<AscendC::HardEvent::V_MTE3>(EVENT_ID0);"]

/-- What a unit does before its first copy: its share, how many slices that is, its first byte, the zeros. -/
def setup (c : Clearing) : List String :=
  [s!"uint32_t sizePerCore = {c.bytes} / get_block_num();",
   "const uint32_t repeatTimes = sizePerCore / 512;",
   "__gm__ uint8_t* startAddr  = (__gm__ uint8_t*)(workspace + sizePerCore * AscendC::GetBlockIdxImpl());"]
    ++ zeroBuffer c.domain

/-- Copies a slice of zeros from the buffer, and goes on to the next one. -/
def round : Domain → List String
  | .cube =>
    ["copy_cbuf_to_gm((__gm__ void*)(startAddr), (__cbuf__ void*)(0), 0, 1, 16, 1, 1);",
     "startAddr += 512;"]
  | .vector =>
    ["copy_ubuf_to_gm((__gm__ void*)(startAddr), (__ubuf__ void*)(0), 0, 1, 16, 1, 1);",
     "startAddr += 512;"]

def body (c : Clearing) : Code :=
  .texts c.setup
    ++ .block (.times "repeatTimes") (.texts (round c.domain)) .done
    ++ .texts ("AscendC::PipeBarrier<PIPE_ALL>();" :: Sync.domainBarrier c.domain
      ++ (if c.releases then [Sync.raise .mte3 (.ofStream c.domain)] else []))

def code (c : Clearing) : Code :=
  .when (.onDomain c.domain) c.body
    ++ (if c.releases then
      .empty ++ .when (.onDomain c.domain.other) (.text (Sync.await (.ofStream c.domain)))
    else .done)

end Clearing

end KernelFusion
