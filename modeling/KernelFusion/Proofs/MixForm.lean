import KernelFusion.Launch.MixRecord
import KernelFusion.Proofs.Layout
import KernelFusion.Proofs.Store

/-!
The fixed form of the record that goes with a kernel.

Writing and reading name the offsets and widths of the fields each on its own. They agree: reading accepts
exactly the bytes that writing produces, so that each record has one fixed form and no other bytes are
taken for one.
-/

namespace KernelFusion

namespace MixRecord

variable {bytes : List UInt8} {r : MixRecord} {kernelName : String}

theorem ofMainCode_eq_ok {n : Nat} {d : Domain} : ofMainCode n = .ok d ↔ n = mainCode d := by
  constructor
  · intro h
    unfold ofMainCode at h
    split at h <;> cases h <;> rfl
  · rintro rfl
    cases d <;> rfl

theorem checkHeader_eq_ok {offset tag : Nat} : checkHeader bytes offset tag = .ok () ↔
    fieldAt bytes offset 2 = tag ∧ fieldAt bytes (offset + 2) 2 = 4 := by
  simp only [checkHeader]
  split
  next h => simp [h]
  next h => simp [h]

theorem ratio_eq_iff {ratio : UInt16} {offset : Nat} :
    ratio = UInt16.ofNat (fieldAt bytes offset 2) ↔ fieldAt bytes offset 2 = ratio.toNat := by
  rw [← UInt16.toNat_inj, UInt16.toNat_ofNat_of_lt' (fieldAt_lt bytes offset 2), eq_comm]

/-- Bytes are the fixed form of a record exactly if each field is in its place. -/
theorem eq_toBytes_iff : bytes = r.toBytes ↔ bytes.length = size ∧
    (fieldAt bytes 0 2 = 1 ∧ fieldAt bytes 2 2 = 4) ∧ fieldAt bytes 4 4 = mainCode r.main ∧
    (fieldAt bytes 8 2 = 2 ∧ fieldAt bytes 10 2 = 4) ∧
    fieldAt bytes 12 2 = r.aicRatio.toNat ∧ fieldAt bytes 14 2 = r.aivRatio.toNat := by
  have htoBytes : r.toBytes = layout [(2, 1), (2, 4), (4, mainCode r.main), (2, 2), (2, 4),
      (2, r.aicRatio.toNat), (2, r.aivRatio.toNat)] := by simp [toBytes, header, layout]
  have hmain : mainCode r.main < 256 ^ 4 := by cases r.main <;> decide
  have hfit : ∀ f ∈ [(2, 1), (2, 4), (4, mainCode r.main), (2, 2), (2, 4), (2, r.aicRatio.toNat),
      (2, r.aivRatio.toNat)], f.2 < 256 ^ f.1 := by
    simp only [List.forall_mem_cons]
    exact ⟨by decide, by decide, hmain, by decide, by decide, r.aicRatio.toNat_lt, r.aivRatio.toNat_lt,
      by simp⟩
  rw [htoBytes, eq_layout_iff hfit]
  simp [layout, Holds, size, and_assoc]

/-- Reading accepts exactly what writing produces. -/
theorem ofBytes_eq_ok : ofBytes kernelName bytes = .ok r ↔
    r.kernelName = kernelName ∧ bytes = r.toBytes := by
  rw [eq_toBytes_iff]
  by_cases hlength : bytes.length = size
  · obtain ⟨name, main, aic, aiv⟩ := r
    simp only [ofBytes, hlength, ne_eq, not_true_eq_false, if_false, bind_eq_ok, true_and]
    constructor
    · rintro ⟨_, hfirst, d, hmain, _, hsecond, hrecord⟩
      cases hrecord
      exact ⟨rfl, checkHeader_eq_ok.mp hfirst, ofMainCode_eq_ok.mp hmain, checkHeader_eq_ok.mp hsecond,
        ratio_eq_iff.mp rfl, ratio_eq_iff.mp rfl⟩
    · rintro ⟨rfl, hfirst, hmain, hsecond, haic, haiv⟩
      refine ⟨(), checkHeader_eq_ok.mpr hfirst, main, ofMainCode_eq_ok.mpr hmain, (),
        checkHeader_eq_ok.mpr hsecond, ?_⟩
      rw [ratio_eq_iff.mpr haic, ratio_eq_iff.mpr haiv]
      rfl
  · simp [ofBytes, hlength, bind, Except.bind, throw, throwThe, MonadExceptOf.throw]

/-- CORRECT: the fixed form of every record is read back under its name; what is read from bytes is
written as the same bytes; and bytes are read exactly if there are 16 of them, both headers are right and
the driving domain is a known one. -/
theorem fixed_form_exact :
    (∀ r : MixRecord, ofBytes r.kernelName r.toBytes = .ok r) ∧
    ∀ (kernelName : String) (bytes : List UInt8),
      (∀ r, ofBytes kernelName bytes = .ok r → r.kernelName = kernelName ∧ r.toBytes = bytes) ∧
      ((∃ r, ofBytes kernelName bytes = .ok r) ↔ bytes.length = 16 ∧
        (fieldAt bytes 0 2, fieldAt bytes 2 2) = (1, 4) ∧
        (fieldAt bytes 8 2, fieldAt bytes 10 2) = (2, 4) ∧
        (fieldAt bytes 4 4 = 1 ∨ fieldAt bytes 4 4 = 2)) := by
  refine ⟨fun r => ofBytes_eq_ok.mpr ⟨rfl, rfl⟩, fun kernelName bytes => ⟨fun r hr => ?_, ?_⟩⟩
  · obtain ⟨hname, hbytes⟩ := ofBytes_eq_ok.mp hr
    exact ⟨hname, hbytes.symm⟩
  · simp only [ofBytes_eq_ok, eq_toBytes_iff, Prod.mk.injEq]
    constructor
    · rintro ⟨r, _, hlength, hfirst, hmain, hsecond, _⟩
      refine ⟨hlength, hfirst, hsecond, ?_⟩
      rw [hmain]
      cases r.main <;> decide
    · rintro ⟨hlength, hfirst, hsecond, hmain⟩
      obtain ⟨d, hd⟩ : ∃ d, fieldAt bytes 4 4 = mainCode d := by
        rcases hmain with hmain | hmain
        · exact ⟨.cube, hmain⟩
        · exact ⟨.vector, hmain⟩
      exact ⟨⟨kernelName, d, _, _⟩, rfl, hlength, hfirst, hd, hsecond, ratio_eq_iff.mp rfl,
        ratio_eq_iff.mp rfl⟩

/-- The fixed form of a kernel that takes one cube unit and two vector units for each block. -/
def pairedForm : List UInt8 := [1, 0, 4, 0, 1, 0, 0, 0, 2, 0, 4, 0, 1, 0, 2, 0]

theorem pairedForm_read : ofBytes "fused" pairedForm = .ok (ofKernel "fused" .mixAic12) ∧
    (ofKernel "fused" .mixAic12).toBytes = pairedForm := by
  have hread : ofBytes "fused" pairedForm = .ok (ofKernel "fused" .mixAic12) := rfl
  exact ⟨hread, ((fixed_form_exact.2 "fused" pairedForm).1 _ hread).2⟩

end MixRecord

end KernelFusion
