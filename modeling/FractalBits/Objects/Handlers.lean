/-
  Objects.Handlers — the handlers that change the namespace.

  Mirrors `delete_object.rs`, the commit of `put_object.rs` with `enqueue_replaced_object_cleanup`,
  `create_multipart_upload.rs`, `upload_part.rs`, `complete_multipart_upload.rs` and
  `abort_multipart_upload.rs`. A PUT starts here from what its body came to (`Gateway.PutObject`).
-/

import FractalBits.Gateway.PutObject
import FractalBits.Objects.Service

namespace FractalBits.Objects

open Lib Streaming Gateway
open OvrMap (Uuid)

variable (rounds : Nat)

/-! ## §1. Deleting -/

def enqueue (object : Layout) : Handler Unit := do
  let r ← ExceptT.lift (enqueueBlobDeletion object)
  orFail ObjectLayoutError.toS3Error r

def deleteParts : List (Bytes × Layout) → Handler Unit
  | [] => return ()
  | (mpuKey, mpuObj) :: mpus => do
    let _ ← nss rounds (perform (Op.deleteInode mpuKey))
    enqueue mpuObj
    deleteParts mpus

def deletePartsBestEffort : List (Bytes × Layout) → Call Unit
  | [] => return ()
  | (mpuKey, mpuObj) :: mpus => do
    let _ ← nssRpcRetry rounds (perform (Op.deleteInode mpuKey))
    let _ ← enqueueBlobDeletion mpuObj
    deletePartsBestEffort mpus

variable (key : Bytes)

def cleanUpOrphanedParts : Call Unit := do
  match ← (listRawObjects rounds 10000 (mpuGetUploadsPrefix key) []).run with
  | .ok mpus => deletePartsBestEffort rounds mpus
  | .error _ => return ()

def deleteCompletedParts (uploadId : Uuid) : Handler Unit := do
  let mpus ← listRawObjects rounds 10000 (mpuGetPartPrefix key uploadId 0) []
  deleteParts rounds mpus

def cleanUpDeleted (object : Layout) : Handler Unit :=
  match object.state with
  | .normal _ _ => enqueue object
  | .mpu .uploading => throw .invalidObjectState
  | .mpu (.completed _) => deleteCompletedParts rounds key object.versionId
  | .symlink _ _ | .special _ | .directory _ | .indirect _ => return ()

def cleanUpRemoved : Option Inode → Handler Unit
  | none => ExceptT.lift (cleanUpOrphanedParts rounds key)
  | some value =>
    if value.isEmpty then return ()
    else
      match value.decode with
      | none => throw .internalError
      | some object => cleanUpDeleted rounds key object

def deleteObjectByKey : Handler Unit := do
  let client ← ExceptT.lift (perform Op.getBlobClient)
  if client = false then throw .internalError
  else
    let resp ← nss rounds (perform (Op.deleteInode key))
    let removed ← orFail NssError.toS3Error (parseDeleteInode resp)
    cleanUpRemoved rounds key removed

/-! ## §2. Putting -/

def enqueueReplacedObjectCleanup (old : Inode) (replacement : DataBlobGuid) : Handler Unit :=
  if old.isEmpty ∨ key.contains 35 then return ()
  else
    match old.decode with
    | none => throw .internalError
    | some oldObject =>
      match oldObject.blobGuid with
      | .error _ => throw .internalError
      | .ok oldBlobGuid =>
        if oldBlobGuid ≠ replacement then do
          let r ← ExceptT.lift (enqueueBlobDeletion oldObject)
          orFail (fun _ => S3Error.internalError) r
        else return ()

/-- What the body of a PUT came to: its block writes in the order in which they complete, and its
    layout. -/
structure Upload where
  writes : List (BlobKey × Bytes)
  layout : ObjectLayout
  versionId : Uuid
  timestamp : Nat

def Upload.stored (upload : Upload) : Layout := .ofUpload upload.layout upload.versionId
    upload.timestamp

def putBlocks : List (BlobKey × Bytes) → Call Bool
  | [] => return true
  | (key, body) :: writes => do
    let acked ← perform (Op.putBlock key body)
    let rest ← putBlocks writes
    return acked && rest

def commitObject (upload : Upload) : Handler Unit := do
  let resp ← nss rounds (perform (Op.putInode key (.layout upload.stored)))
  let old ← orFail NssError.toS3Error (parsePutInode resp)
  enqueueReplacedObjectCleanup key old upload.layout.blobGuid

def putObject (upload : Upload) : Handler Unit := do
  orFail id (rejectTrailingSlashKey key)
  let acked ← ExceptT.lift (putBlocks upload.writes)
  if acked = false then throw .internalError else commitObject rounds key upload

/-! ## §3. Multipart uploads -/

def uploadingLayout (versionId : Uuid) (timestamp : Nat) : Layout where
  timestamp := timestamp
  versionId := versionId
  blockSize := defaultBlockSize
  blobVersion := 1
  fsExt := {}
  state := .mpu .uploading

/-- `create_multipart_upload_handler`: the reply to the update is not looked at. -/
def createMultipartUpload (versionId : Uuid) (timestamp : Nat) : Handler Bytes := do
  orFail id (rejectTrailingSlashKey key)
  let _ ← nss rounds (perform (Op.putInode key (.layout (uploadingLayout versionId timestamp))))
  return Uuid.asSimple versionId

def uploadPart (parseUuid : Bytes → Option Uuid) (key : Bytes) (partNumber : Nat) (uploadId : Bytes)
    (upload : Upload) : Handler Unit :=
  if ¬ (1 ≤ partNumber ∧ partNumber ≤ 10000) then throw .invalidPart
  else
    match parseUuid uploadId with
    | none => throw .noSuchUpload
    | some uploadUuid => putObject rounds (mpuGetPartPrefix key uploadUuid partNumber) upload

def parseU32 (src : Bytes) : Option Nat := (parseUsize src).filter fun n => n < 2 ^ 32

def lastSegment : Bytes := (key.reverse.takeWhile fun b => b ≠ 47).reverse

def mpuParsePartNumber (mpuKey : Bytes) : Except S3Error Nat :=
  match parseU32 (lastSegment mpuKey) with
  | none => .error .internalError
  | some n => .ok ((n + 1) % 2 ^ 32)

/-- The part numbers of the body, the headers, the ETag that is generated, and the order in which a
    hash set is gone through. -/
structure CompleteRequest where
  partNumbers : Except S3Error (List Nat)
  headers : Headers
  checksumValue : Option ChecksumValue
  etag : Bytes
  order : List Bytes → List Bytes
  order_perm : ∀ keys, (order keys).Perm keys

/-- The numbers that are still expected, the keys that were not, the size, and what the checksum is
    over. -/
structure PartTally where
  validPartNumbers : List Nat
  invalidPartKeys : List Bytes
  totalSize : Nat
  checksummed : Bytes
  deriving DecidableEq, Repr

def tallyPart (tally : PartTally) (part : Bytes × Layout) : Except S3Error PartTally := do
  let partNumber ← mpuParsePartNumber part.1
  if partNumber ∉ tally.validPartNumbers then
    return { tally with invalidPartKeys := tally.invalidPartKeys ++ [part.1] }
  else
    let checksum ← part.2.checksum.mapError ObjectLayoutError.toS3Error
    let partSize ← part.2.size.mapError ObjectLayoutError.toS3Error
    return { tally with
      validPartNumbers := tally.validPartNumbers.filter fun n => n ≠ partNumber
      totalSize := (tally.totalSize + partSize) % 2 ^ 64
      checksummed := tally.checksummed ++ (checksum.map ChecksumValue.bytes).getD [] }

def checkTally (K : Checksums) (expectedChecksum : Option ChecksumValue)
    (tally : PartTally) : Except S3Error Unit :=
  if expectedChecksum.isSome ∧
      expectedChecksum.map
        (fun expected => ⟨expected.algorithm, K.digest expected.algorithm tally.checksummed⟩)
          ≠ expectedChecksum then .error .invalidDigest
  else if tally.validPartNumbers ≠ [] then .error .invalidPart
  else .ok ()

def deleteInvalidParts : List Bytes → Handler Unit
  | [] => return ()
  | key :: keys => do
    deleteObjectByKey rounds key
    deleteInvalidParts keys

def completedLayout (object : Layout) (size : Nat) (etag : Bytes) (headers : Headers)
    (checksum : Option ChecksumValue) : Layout :=
  { object with state := .mpu (.completed ⟨size, etag, headers, checksum⟩) }

/-- The upload of the samples. -/
abbrev pendingSample : Layout := uploadingLayout 1 0

abbrev completedSample (size : Nat) : Layout := completedLayout pendingSample size [] [] none

def putCompleted (completed : Layout) : Handler Layout := do
  let resp ← nss rounds (perform (Op.putInode key (.layout completed)))
  let _ ← orFail NssError.toS3Error (parsePutInode resp)
  return completed

def completeListed (K : Checksums) (key : Bytes) (req : CompleteRequest) (headers : Headers)
    (partNumbers : List Nat) (object : Layout) (mpuObjs : List (Bytes × Layout)) : Handler
    Layout := do
  let tally ← orFail id (mpuObjs.foldlM tallyPart ⟨partNumbers, [], 0, []⟩)
  orFail id (checkTally K req.checksumValue tally)
  deleteInvalidParts rounds (req.order tally.invalidPartKeys)
  putCompleted rounds key (completedLayout object tally.totalSize req.etag headers
    req.checksumValue)

def checkUploading (uploadId : Bytes) (object : Layout) : Except S3Error Unit :=
  if Uuid.asSimple object.versionId ≠ uploadId then .error .noSuchVersion
  else if object.state ≠ .mpu .uploading then .error .invalidObjectState
  else .ok ()

def completeMultipartUpload (K : Checksums) (key uploadId : Bytes) (req : CompleteRequest) : Handler
    Layout := do
  let headers ← orFail id (extractMetadataHeaders req.headers)
  let partNumbers ← orFail id req.partNumbers
  let object ← getRawObject rounds key
  orFail id (checkUploading uploadId object)
  let mpuObjs ← listRawObjects rounds 10000 (mpuGetPartPrefix key object.versionId 0) []
  completeListed rounds K key req headers partNumbers object mpuObjs

def abortFound (key uploadId : Bytes) (object : Layout) : Handler Unit :=
  if Uuid.asSimple object.versionId ≠ uploadId then throw .noSuchUpload
  else do
    let parts ← listRawObjects rounds 10000 (mpuGetPartPrefix key object.versionId 0) []
    deleteParts rounds parts
    let resp ← nss rounds (perform (Op.deleteInode key))
    let _ ← orFail NssError.toS3Error (parseDeleteInode resp)
    return ()

def abortMultipartUpload (parseUuid : Bytes → Option Uuid) (key uploadId : Bytes) : Handler Unit :=
  if parseUuid uploadId = none then throw .noSuchUpload
  else do
    let resp ← nss rounds (perform (Op.getInode key))
    match parseGetInode resp with
    | .ok object => abortFound rounds key uploadId object
    | .error .notFound => throw .noSuchUpload
    | .error e => throw e.toS3Error

/-- `check_key_name`: a key is short, and does not end with a reserved character. -/
def checkKeyName (name : Bytes) : Except S3Error Unit :=
  if name.length > 1024 then .error .keyTooLongError
  else if name.getLast? = some 35 ∨ name.getLast? = some 0 then .error .keyUnsupported
  else .ok ()

end FractalBits.Objects
