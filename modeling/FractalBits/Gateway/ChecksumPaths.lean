/-
  Gateway.ChecksumPaths — the two implementations of the checksum of an upload.

  The streaming path of `put_object.rs` sends the fragments through the decoder to the checksum
  task, the buffered one to `calculate_checksum_for_chunks`.
-/

import FractalBits.Gateway.PutObject

namespace FractalBits.Gateway

open Lib Streaming

/-! ## §1. The task on a body without framing -/

theorem verifyChecksum_header (K : Checksums) (expected : ChecksumValue) (body : Bytes) :
    verifyChecksum (some ⟨expected.algorithm, K.digest expected.algorithm body⟩) (some expected)
      = if K.digest expected.algorithm body ≠ expected.bytes then .error .invalidDigest
        else .ok () := by
  show (if (⟨expected.algorithm, K.digest expected.algorithm body⟩ : ChecksumValue) = expected
    then _ else _) = _
  by_cases hvalue : K.digest expected.algorithm body = expected.bytes
  · rw [if_pos (by rw [hvalue]), if_neg (not_not.mpr hvalue)]
  · have hne : (⟨expected.algorithm, K.digest expected.algorithm body⟩ : ChecksumValue)
      ≠ expected := by
      intro heq
      exact hvalue (congrArg ChecksumValue.bytes heq)
    rw [if_neg hne, if_pos hvalue]

theorem checksumTask_unframed (K : Checksums) (fragments : List Bytes)
    (expected : Option ChecksumValue) :
    (checksumTask K none expected (Outcome.messages ⟨fragments, .finished none⟩)).mapError
      ChecksumError.toS3Error = if fragments.flatten = [] ∧ expected.isSome then .ok none
        else calculateChecksumForChunks K fragments expected := by
  cases expected with
  | none =>
    rw [checksumTask_none, if_neg (by simp)]
    rfl
  | some e =>
    -- with a header and no trailers the algorithm is the header's
    have hfinish : checksumTask K none (some e) (Outcome.messages ⟨fragments, .finished none⟩)
        = ChecksumTask.finish K (some e)
            ⟨some ⟨e.algorithm, fragments.flatten⟩, fragments.flatten.length, none⟩ :=
      checksumTask_finished K e.algorithm (some e) fragments none
    rw [hfinish]
    by_cases hempty : fragments.flatten = []
    · rw [if_pos ⟨hempty, rfl⟩, hempty]
      rfl
    · have hreceived : ¬ (fragments.flatten.length = 0 ∧ (some e).isSome = true) := by
        intro h
        exact hempty (List.length_eq_zero_iff.mp h.1)
      have hbody : ¬ (fragments.flatten = [] ∧ (some e).isSome = true) := fun h => hempty h.1
      have hfinalize : Checksummer.finalize K ⟨e.algorithm, fragments.flatten⟩
          = ⟨e.algorithm, K.digest e.algorithm fragments.flatten⟩ := rfl
      have htrailer :
        ¬ trailerMismatch K none (some ⟨e.algorithm, K.digest e.algorithm fragments.flatten⟩)
        = true :=
        Bool.false_ne_true
      rw [if_neg hbody, ChecksumTask.finish, if_neg hreceived]
      dsimp only [Option.map_some]
      rw [hfinalize, if_neg htrailer, verifyChecksum_header]
      unfold calculateChecksumForChunks
      by_cases hvalue : K.digest e.algorithm fragments.flatten = e.bytes
      · simp only [hvalue, ne_eq, not_true_eq_false, if_false]
        rfl
      · simp only [hvalue, ne_eq, not_false_eq_true, if_true]
        rfl

/-! ## §2. Agreement of the paths -/

section

variable (C : Crypto) (K : Checksums)
  (signatureInfo : Option (ChunkSignatureContext × Option Bytes)) (fragments : List Bytes)
    (expected : Option ChecksumValue)

/-- The streaming path's checksum task ends with `r`, once its decoder was polled to the end of the
    body. -/
def StreamedChecksum (r : Except ChecksumError (Option ChecksumValue)) : Prop :=
  ∃ o, Drains C (.start false signatureInfo (fragments.map .ok)) o
    ∧ withChecksumsFull K none expected o = r

structure PathsAgree (r : Except ChecksumError (Option ChecksumValue)) : Prop where
  succeed : (∃ v, r = .ok v) ↔ ∃ v, calculateChecksumForChunks K fragments expected = .ok v
  value : ∀ v, r = .ok v → calculateChecksumForChunks K fragments expected = .ok v
  /-- a wrong checksum is rejected -/
  rejects : ∀ e, expected = some e → K.digest e.algorithm fragments.flatten ≠ e.bytes →
    ∀ v, r ≠ .ok v

theorem streamedChecksum_iff (r : Except ChecksumError (Option ChecksumValue)) :
    StreamedChecksum C K signatureInfo fragments expected r ↔
      r = checksumTask K none expected (Outcome.messages ⟨fragments, .finished none⟩) := by
  have hdrains := drains_unframed C signatureInfo fragments
  constructor
  · rintro ⟨o, ho, rfl⟩
    rw [Drains.unique ho hdrains]
    rfl
  · intro hr
    exact ⟨_, hdrains, hr.symm⟩

variable {K fragments expected}

theorem ok_of_mapError {r : Except ChecksumError (Option ChecksumValue)}
    {v : Option ChecksumValue} :
    r.mapError ChecksumError.toS3Error = .ok v ↔ r = .ok v := by
  cases r with
  | error e => simp [Except.mapError]
  | ok w => simp [Except.mapError]

theorem calculateChecksumForChunks_wrong {e : ChecksumValue}
    (hwrong : K.digest e.algorithm fragments.flatten ≠ e.bytes) (v : Option ChecksumValue) :
    calculateChecksumForChunks K fragments (some e) ≠ .ok v := by
  unfold calculateChecksumForChunks
  simp only [hwrong, ne_eq, not_false_eq_true, if_true]
  exact nofun

theorem pathsAgree_of_eq {r : Except ChecksumError (Option ChecksumValue)}
    (h : r.mapError ChecksumError.toS3Error = calculateChecksumForChunks K fragments expected) :
    PathsAgree K fragments expected r where
  succeed := by
    rw [← h]
    exact exists_congr fun v => ok_of_mapError.symm
  value v hv := by
    rw [← h]
    exact ok_of_mapError.mpr hv
  rejects e he hwrong v hv := by
    have hcalculated := ok_of_mapError.mpr hv
    rw [h, he] at hcalculated
    exact calculateChecksumForChunks_wrong hwrong v hcalculated

theorem not_pathsAgree_none {e : ChecksumValue} : ¬ PathsAgree K fragments (some e) (.ok none) := by
  intro hagree
  have hnone := hagree.value none rfl
  unfold calculateChecksumForChunks at hnone
  by_cases hvalue : K.digest e.algorithm fragments.flatten = e.bytes
  · simp [hvalue] at hnone
  · simp [hvalue] at hnone

variable (K fragments expected)

/-- ★ **When the two paths agree.** For every body, fragmentation and header value: the checksum
    task ends, in one way, and it succeeds with the same value as the buffered path, and rejects
    wrong checksums, if and only if the body has a byte or no checksum is expected. -/
theorem checksum_paths_agree_iff :
    ∃ r, StreamedChecksum C K signatureInfo fragments expected r
      ∧ (∀ r', StreamedChecksum C K signatureInfo fragments expected r' → r' = r)
      ∧ (PathsAgree K fragments expected r ↔ fragments.flatten ≠ [] ∨ expected = none) := by
  have htask := checksumTask_unframed K fragments expected
  refine ⟨_, (streamedChecksum_iff C K signatureInfo fragments expected _).mpr rfl, ?_, ?_⟩
  · intro r' hr'
    exact (streamedChecksum_iff C K signatureInfo fragments expected r').mp hr'
  · by_cases hskip : fragments.flatten = [] ∧ expected.isSome = true
    · obtain ⟨e, rfl⟩ := Option.isSome_iff_exists.mp hskip.2
      rw [if_pos hskip] at htask
      rw [ok_of_mapError.mp htask]
      constructor
      · intro hagree
        exact absurd hagree not_pathsAgree_none
      · rintro (hbody | hnone)
        · exact absurd hskip.1 hbody
        · cases hnone
    · rw [if_neg hskip] at htask
      constructor
      · intro _
        by_cases hbody : fragments.flatten = []
        · right
          cases expected with
          | none => rfl
          | some e => exact absurd ⟨hbody, rfl⟩ hskip
        · exact .inl hbody
      · intro _
        exact pathsAgree_of_eq htask

end

def zeroChecksums : Checksums := ⟨fun _ _ => [0, 0, 0, 0], id⟩

theorem empty_body_unchecked :
    StreamedChecksum ⟨id, fun _ => id⟩ zeroChecksums none [] (some ⟨.crc32, [1, 2, 3, 4]⟩)
      (.ok none)
      ∧ calculateChecksumForChunks zeroChecksums [] (some ⟨.crc32, [1, 2, 3, 4]⟩) = .error
        .invalidDigest
      ∧ StreamedChecksum ⟨id, fun _ => id⟩ zeroChecksums none [] (some ⟨.crc32, [0, 0, 0, 0]⟩)
        (.ok none)
      ∧ calculateChecksumForChunks zeroChecksums [] (some ⟨.crc32, [0, 0, 0, 0]⟩)
          = .ok (some ⟨.crc32, [0, 0, 0, 0]⟩) := by
  refine ⟨?_, by decide, ?_, by decide⟩
  · exact (streamedChecksum_iff _ _ _ _ _ _).mpr (by decide)
  · exact (streamedChecksum_iff _ _ _ _ _ _).mpr (by decide)

end FractalBits.Gateway
