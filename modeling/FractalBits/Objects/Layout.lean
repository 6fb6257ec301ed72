/-
  Objects.Layout — layouts in every state, as the namespace stores them.

  Mirrors `common/data_types/src/object_layout.rs`, the deletion request of `blob_client.rs` and
  `same_committed_read_snapshot` of `get_object.rs`. A layout in the state `Normal` is the
  `Gateway.ObjectLayout` of an upload with a version id and a timestamp.
-/

import FractalBits.Gateway.GetObject

namespace FractalBits.Objects

open Lib Streaming Gateway
open OvrMap (Uuid)

/-! ## §1. States -/

structure ObjectCoreMetaData where
  size : Nat
  etag : Bytes
  headers : Headers
  checksum : Option ChecksumValue
  deriving DecidableEq, Repr

inductive MpuState
  | uploading
  | completed (coreMetaData : ObjectCoreMetaData)
  deriving DecidableEq, Repr

/-- The state of a layout. `data` is what the filesystem keeps in the last three. -/
inductive ObjectState
  | normal (blobGuid : DataBlobGuid) (coreMetaData : ObjectCoreMetaData)
  | mpu (state : MpuState)
  | symlink (target : Bytes) (coreMetaData : ObjectCoreMetaData)
  | special (data : Bytes)
  | directory (data : Bytes)
  | indirect (data : Bytes)
  deriving DecidableEq, Repr

/-- The filesystem extension; a layout without one has zeros here. -/
structure FsExt where
  nextVersion : UInt64 := 0
  mapEpoch : UInt64 := 0
  deriving DecidableEq, Repr

structure Layout where
  timestamp : Nat
  versionId : Uuid
  blockSize : Nat
  blobVersion : UInt64
  fsExt : FsExt
  state : ObjectState
  deriving DecidableEq, Repr

inductive ObjectLayoutError
  | invalidState
  deriving DecidableEq, Repr

/-! ## §2. Accessors -/

variable (layout : Layout)

def Layout.blobGuid : Except ObjectLayoutError DataBlobGuid :=
  match layout.state with
  | .normal blobGuid _ => .ok blobGuid
  | _ => .error .invalidState

def Layout.getBlobLocation : Except ObjectLayoutError BlobLocation := do
  let blobGuid ← layout.blobGuid
  return blobGuid.location

def Layout.size : Except ObjectLayoutError Nat :=
  match layout.state with
  | .normal _ core => .ok core.size
  | .mpu (.completed core) => .ok core.size
  | .symlink target _ => .ok target.length
  | .special _ | .directory _ => .ok 0
  | .mpu .uploading | .indirect _ => .error .invalidState

def Layout.etag : Except ObjectLayoutError Bytes :=
  match layout.state with
  | .normal _ core | .mpu (.completed core) | .symlink _ core => .ok core.etag
  | _ => .error .invalidState

def Layout.isListable : Bool :=
  match layout.state with
  | .normal _ _ | .mpu (.completed _) | .symlink _ _ | .indirect _ => true
  | .mpu .uploading | .special _ | .directory _ => false

/-- `size.div_ceil(block_size)`; symlinks and directories have no blocks. -/
def Layout.numBlocks : Except ObjectLayoutError Nat :=
  match layout.state with
  | .symlink _ _ | .directory _ => .ok 0
  | _ => do
    let size ← layout.size
    return (size + layout.blockSize - 1) / layout.blockSize

def Layout.checksum : Except ObjectLayoutError (Option ChecksumValue) :=
  match layout.state with
  | .normal _ core | .mpu (.completed core) | .symlink _ core => .ok core.checksum
  | _ => .error .invalidState

def Layout.mapEpoch : UInt64 := layout.fsExt.mapEpoch

def Layout.isMapped : Bool := layout.mapEpoch ≠ 0

/-- `next_version > blob_version.saturating_add(1)` is the sign of a first overwrite that was
    prepared. -/
def Layout.mayHaveOvrRecords : Bool :=
  layout.isMapped ||
    decide (layout.fsExt.nextVersion.toNat > min (layout.blobVersion.toNat + 1) (2 ^ 64 - 1))

def sameCommittedReadSnapshot (expected current : Layout) : Bool :=
  expected.versionId = current.versionId
    && expected.blockSize = current.blockSize
    && expected.blobVersion = current.blobVersion
    && expected.mapEpoch = current.mapEpoch
    && expected.state = current.state

def Layout.ofUpload (layout : ObjectLayout) (versionId : Uuid) (timestamp : Nat) : Layout where
  timestamp := timestamp
  versionId := versionId
  blockSize := layout.blockSize
  blobVersion := layout.blobVersion
  fsExt := { mapEpoch := layout.mapEpoch }
  state := .normal layout.blobGuid
    ⟨layout.size, Uuid.asSimple layout.blobGuid.blobId, layout.headers, layout.checksum⟩

/-! ## §3. Deletion requests -/

structure BlobDeletionRequest where
  blobGuid : DataBlobGuid
  location : BlobLocation
  mapped : Bool
  deriving DecidableEq, Repr

def newBlobDeletionRequest (object : Layout) : Except ObjectLayoutError BlobDeletionRequest := do
  let blobGuid ← object.blobGuid
  let location ← object.getBlobLocation
  return ⟨blobGuid, location, object.mayHaveOvrRecords⟩

theorem newBlobDeletionRequest_ok {object : Layout} {guid : DataBlobGuid}
    (h : object.blobGuid = .ok guid) :
    newBlobDeletionRequest object = .ok ⟨guid, guid.location, object.mayHaveOvrRecords⟩ := by
  unfold newBlobDeletionRequest Layout.getBlobLocation
  rw [h]
  rfl

theorem newBlobDeletionRequest_error {object : Layout} {e : ObjectLayoutError}
    (h : object.blobGuid = .error e) :
    newBlobDeletionRequest object = .error e := by
  unfold newBlobDeletionRequest
  rw [h]
  rfl

end FractalBits.Objects
