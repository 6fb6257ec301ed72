/-
  Streaming.Checksum — the task that checks the checksums of an upload.

  Mirrors the task spawned in `with_checksums_full` of `s3_streaming.rs` and `checksum.rs`.
-/

import FractalBits.Streaming.Payload

namespace FractalBits.Streaming

open Lib List

/-! ## §1. Checksums -/

inductive ChecksumAlgorithm
  | crc32
  | crc32c
  | crc64Nvme
  | sha1
  | sha256
  deriving DecidableEq, Repr

structure ChecksumValue where
  algorithm : ChecksumAlgorithm
  bytes : Bytes
  deriving DecidableEq, Repr

structure Checksums where
  digest : ChecksumAlgorithm → Bytes → Bytes
  base64 : Bytes → Bytes

structure Checksummer where
  algorithm : ChecksumAlgorithm
  fed : Bytes
  deriving DecidableEq, Repr

def Checksummer.new (algo : ChecksumAlgorithm) : Checksummer := ⟨algo, []⟩

def Checksummer.update (cs : Checksummer) (bytes : Bytes) : Checksummer :=
  { cs with fed := cs.fed ++ bytes }

def Checksummer.finalize (K : Checksums) (cs : Checksummer) : ChecksumValue :=
  ⟨cs.algorithm, K.digest cs.algorithm cs.fed⟩

/-- The errors of `S3Error` the task and its start answer. -/
inductive ChecksumError
  | internalError
  | invalidDigest
  deriving DecidableEq, Repr

def verifyChecksum (calculated expected : Option ChecksumValue) : Except ChecksumError Unit :=
  match expected with
  | some expectedChecksum =>
    match calculated with
    | some value => if value = expectedChecksum then .ok () else .error .invalidDigest
    | none => .error .invalidDigest
  | none => .ok ()

/-- A name compared with a header name: letter case is ignored. -/
def asciiLower (s : Bytes) : Bytes := s.map fun b => if 65 ≤ b ∧ b ≤ 90 then b + 32 else b

def requestTrailerChecksumAlgorithm (xAmzTrailer : Option Bytes) :
    Except ChecksumError (Option ChecksumAlgorithm) :=
  match xAmzTrailer with
  | none => .ok none
  | some x =>
    if asciiLower x = ascii "x-amz-checksum-crc32" then .ok (some .crc32)
    else if asciiLower x = ascii "x-amz-checksum-crc32c" then .ok (some .crc32c)
    else if asciiLower x = ascii "x-amz-checksum-crc64nvme" then .ok (some .crc64Nvme)
    else if asciiLower x = ascii "x-amz-checksum-sha1" then .ok (some .sha1)
    else if asciiLower x = ascii "x-amz-checksum-sha256" then .ok (some .sha256)
    else .error .invalidDigest

/-! ## §2. The task -/

inductive ChecksumMessage
  | data (data : Bytes)
  | trailers (trailers : S3Trailers)
  | error
  deriving DecidableEq, Repr

def Outcome.messages (o : Outcome) : List ChecksumMessage :=
  o.items.map .data ++
    match o.ending with
    | .finished (some trailers) => [.trailers trailers]
    | .finished none => []
    | .failed _ => [.error]

structure ChecksumTask where
  checksummer : Option Checksummer
  totalBytes : Nat
  trailerChecksums : Option S3Trailers
  deriving DecidableEq, Repr

def ChecksumTask.recv : ChecksumTask → List ChecksumMessage → Option ChecksumTask
  | task, [] => some task
  | task, .data data :: msgs =>
    ChecksumTask.recv { task with
      totalBytes := task.totalBytes + data.length
      checksummer := task.checksummer.map (·.update data) } msgs
  | task, .trailers trailers :: msgs =>
    ChecksumTask.recv { task with trailerChecksums := some trailers } msgs
  | _, .error :: _ => none

def trailerMismatch (K : Checksums) (trailerChecksums : Option S3Trailers)
    (calculated : Option ChecksumValue) : Bool :=
  match trailerChecksums, calculated with
  | some trailers, some calculated =>
    match trailers.checksumValue with
    | some expectedTrailer => expectedTrailer != K.base64 calculated.bytes
    | none => false
  | _, _ => false

def ChecksumTask.finish (K : Checksums) (expected : Option ChecksumValue) (task : ChecksumTask) :
    Except ChecksumError (Option ChecksumValue) :=
  if task.totalBytes = 0 ∧ expected.isSome then
    -- taken for a stream that failed before any data arrived
    .ok none
  else
    let calculated := task.checksummer.map (Checksummer.finalize K)
    if trailerMismatch K task.trailerChecksums calculated then .error .invalidDigest
    else
      match verifyChecksum calculated expected with
      | .error e => .error e
      | .ok () => .ok calculated

def checksumTask (K : Checksums) (trailerAlgorithm : Option ChecksumAlgorithm)
    (expected : Option ChecksumValue) (msgs : List ChecksumMessage) :
    Except ChecksumError (Option ChecksumValue) :=
  let computeAlgo := trailerAlgorithm.or (expected.map ChecksumValue.algorithm)
  match ChecksumTask.recv ⟨computeAlgo.map Checksummer.new, 0, none⟩ msgs with
  | none => .error .internalError
  | some task => task.finish K expected

def withChecksumsFull (K : Checksums) (xAmzTrailer : Option Bytes) (expected : Option ChecksumValue)
    (o : Outcome) : Except ChecksumError (Option ChecksumValue) :=
  match requestTrailerChecksumAlgorithm xAmzTrailer with
  | .error e => .error e
  | .ok trailerAlgorithm => checksumTask K trailerAlgorithm expected o.messages

/-! ## §3. Results of the task -/

variable (K : Checksums)

theorem ChecksumTask.recv_data (items : List Bytes) (msgs : List ChecksumMessage)
    (algo : Option ChecksumAlgorithm) (fed : Bytes) (trailers : Option S3Trailers) :
    ChecksumTask.recv ⟨algo.map (⟨·, fed⟩), fed.length, trailers⟩ (items.map .data ++ msgs)
      = ChecksumTask.recv
          ⟨algo.map (⟨·, fed ++ items.flatten⟩), (fed ++ items.flatten).length, trailers⟩ msgs := by
  induction items generalizing fed with
  | nil => simp
  | cons data items ih =>
    show ChecksumTask.recv ⟨(algo.map (Checksummer.mk · fed)).map (·.update data),
      fed.length + data.length, trailers⟩ (items.map .data ++ msgs) = _
    rw [← length_append, Option.map_map]
    have hupdate : (fun cs : Checksummer => cs.update data) ∘ (Checksummer.mk · fed)
        = (Checksummer.mk · (fed ++ data)) := rfl
    rw [hupdate, ih (fed ++ data), append_assoc, ← flatten_cons]

theorem checksumTask_failed (algo : Option ChecksumAlgorithm) (expected : Option ChecksumValue)
    (items : List Bytes) (e : PayloadError) :
    checksumTask K algo expected (Outcome.messages ⟨items, .failed e⟩) = .error .internalError := by
  unfold checksumTask Outcome.messages
  have hrecv := ChecksumTask.recv_data items [.error]
    (algo.or (expected.map ChecksumValue.algorithm)) [] none
  rw [length_nil] at hrecv
  show (match ChecksumTask.recv ⟨(algo.or _).map (Checksummer.mk · []), 0, none⟩ _ with
    | none => _ | some task => _) = _
  rw [hrecv]
  rfl

theorem checksumTask_finished (algo : ChecksumAlgorithm) (expected : Option ChecksumValue)
    (items : List Bytes) (trailers : Option S3Trailers) :
    checksumTask K (some algo) expected (Outcome.messages ⟨items, .finished trailers⟩)
      = ChecksumTask.finish K expected ⟨some ⟨algo, items.flatten⟩, items.flatten.length,
        trailers⟩ := by
  unfold checksumTask Outcome.messages
  have hrecv := fun msgs => ChecksumTask.recv_data items msgs (some algo) [] none
  simp only [length_nil, nil_append] at hrecv
  show (match ChecksumTask.recv ⟨(some algo).map (Checksummer.mk · []), 0, none⟩ _ with
    | none => _ | some task => _) = _
  rw [hrecv]
  cases trailers with
  | none => rfl
  | some t => rfl

theorem checksumTask_none (items : List Bytes) (trailers : Option S3Trailers) :
    checksumTask K none none (Outcome.messages ⟨items, .finished trailers⟩) = .ok none := by
  have hfinish : ∀ total seen, ChecksumTask.finish K none ⟨none, total, seen⟩ = .ok none := by
    intro total seen
    unfold ChecksumTask.finish
    rw [if_neg (by simp)]
    cases seen with
    | none => rfl
    | some t => rfl
  unfold checksumTask Outcome.messages
  have hrecv := fun msgs => ChecksumTask.recv_data items msgs none [] none
  simp only [length_nil, nil_append, Option.map_none] at hrecv
  show (match ChecksumTask.recv ⟨none, 0, none⟩ _ with | none => _ | some task => _) = _
  rw [hrecv]
  cases trailers with
  | none => exact hfinish _ _
  | some t => exact hfinish _ _

theorem ChecksumTask.finish_ok_iff (algo : ChecksumAlgorithm) (expected : Option ChecksumValue)
    (data : Bytes) (trailers : Option S3Trailers) :
    (∃ r, ChecksumTask.finish K expected ⟨some ⟨algo, data⟩, data.length, trailers⟩ = .ok r) ↔
      (data = [] ∧ expected.isSome) ∨
      ((∀ v, trailers.bind S3Trailers.checksumValue = some v → v = K.base64 (K.digest algo data)) ∧
        ∀ e, expected = some e → e = ⟨algo, K.digest algo data⟩) := by
  unfold ChecksumTask.finish
  simp only [length_eq_zero_iff]
  by_cases hempty : data = [] ∧ expected.isSome = true
  · rw [if_pos hempty]
    exact ⟨fun _ => .inl hempty, fun _ => ⟨none, rfl⟩⟩
  · rw [if_neg hempty]
    simp only [hempty, false_or]
    have hcalc : Option.map (Checksummer.finalize K) (some (Checksummer.mk algo data))
        = some ⟨algo, K.digest algo data⟩ := rfl
    rw [hcalc]
    -- the value in the trailers
    have htrailer : trailerMismatch K trailers (some ⟨algo, K.digest algo data⟩) = false ↔
        ∀ v, trailers.bind S3Trailers.checksumValue = some v →
          v = K.base64 (K.digest algo data) := by
      cases trailers with
      | none => simp [trailerMismatch]
      | some t =>
        unfold trailerMismatch
        cases ht : t.checksumValue with
        | none => simp [ht]
        | some v => simp [ht]
    -- the value of the header
    have hheader : verifyChecksum (some ⟨algo, K.digest algo data⟩) expected = .ok () ↔
        ∀ e, expected = some e → e = ⟨algo, K.digest algo data⟩ := by
      cases expected with
      | none => simp [verifyChecksum]
      | some e =>
        unfold verifyChecksum
        by_cases he : ChecksumValue.mk algo (K.digest algo data) = e
        · simp [he]
        · have he' : ¬ e = ⟨algo, K.digest algo data⟩ := fun h => he h.symm
          simp [he, he']
    rw [← htrailer, ← hheader]
    by_cases hmis : trailerMismatch K trailers (some ⟨algo, K.digest algo data⟩) = true
    · rw [if_pos hmis, hmis]
      simp
    · rw [if_neg hmis]
      simp only [Bool.not_eq_true] at hmis
      cases hv : verifyChecksum (some ⟨algo, K.digest algo data⟩) expected with
      | error e => simp
      | ok u => simp [hmis]

end FractalBits.Streaming
