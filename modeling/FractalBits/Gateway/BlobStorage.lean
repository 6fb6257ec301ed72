/-
  Gateway.BlobStorage — where the blocks of a blob are stored.

  Mirrors the routing of `s3_hybrid_single_az_storage.rs`, `all_in_bss_single_az_storage.rs` and
  `blob_client.rs`, the layout of `object_layout.rs`, and `assign_layout_volume` of `put_object.rs`.
-/

import FractalBits.Lib.Slices
import FractalBits.Lib.KeyedWrites
import FractalBits.OvrMap.Keys
import FractalBits.Streaming.Checksum
import FractalBits.VolumeGroup.Volume

namespace FractalBits.Gateway

open Lib Streaming
open OvrMap (Uuid)
open VolumeGroup (isEcVolumeId)

/-! ## §1. Blobs and layouts -/

structure DataBlobGuid where
  blobId : Uuid
  volumeId : UInt16
  deriving DecidableEq, Repr

def s3Volume : UInt16 := 0xFFFF

def defaultBlockSize : Nat := 128 * 1024

inductive BlobLocation
  | dataVgProxy
  | s3
  deriving DecidableEq, Repr

def DataBlobGuid.location (guid : DataBlobGuid) : BlobLocation :=
  if guid.volumeId = s3Volume then .s3 else .dataVgProxy

structure ObjectLayout where
  blockSize : Nat
  blobVersion : UInt64
  /-- of the filesystem extension; 0 without one -/
  mapEpoch : UInt64
  blobGuid : DataBlobGuid
  size : Nat
  headers : List (Bytes × Bytes)
  checksum : Option ChecksumValue
  deriving DecidableEq, Repr

def ObjectLayout.getBlobLocation (layout : ObjectLayout) : BlobLocation := layout.blobGuid.location

def ObjectLayout.numBlocks (layout : ObjectLayout) : Nat :=
  (layout.size + layout.blockSize - 1) / layout.blockSize

def ObjectLayout.isMapped (layout : ObjectLayout) : Bool := layout.mapEpoch ≠ 0

/-! ## §2. The backends -/

inductive BlobStorageBackend
  | dataInS3
  | s3HybridSingleAz
  | allInBssSingleAz
  deriving DecidableEq, Repr

inductive BlobStorageImpl
  | hybridSingleAz (allDataInS3 : Bool)
  | allInBssSingleAz
  deriving DecidableEq, Repr

def BlobStorageBackend.createStorage : BlobStorageBackend → BlobStorageImpl
  | .dataInS3 => .hybridSingleAz true
  | .s3HybridSingleAz => .hybridSingleAz false
  | .allInBssSingleAz => .allInBssSingleAz

inductive BlobKey
  | vg (guid : DataBlobGuid) (block : UInt32) (version : UInt64)
  | s3 (blobId : Uuid) (block : UInt32) (version : UInt64)
  deriving DecidableEq, Repr

abbrev BlobStores := BlobKey → Option Bytes

section

variable (impl : BlobStorageImpl)

def BlobStorageImpl.putKey (guid : DataBlobGuid) (block : UInt32)
    (totalSize : Nat) : BlobKey :=
  match impl with
  | .hybridSingleAz allDataInS3 =>
    let isSmall := block = 0 ∧ totalSize < defaultBlockSize
    if allDataInS3 = false ∧ (isSmall ∨ isEcVolumeId guid.volumeId) then .vg guid block 1
    else .s3 guid.blobId block 1
  | .allInBssSingleAz => .vg guid block 1

def BlobStorageImpl.putBlobVectored (guid : DataBlobGuid) (block : UInt32)
    (chunks : List Bytes) : BlobKey × Bytes :=
  (impl.putKey guid block (chunks.map List.length).sum, chunks.flatten)

/-- Where `get_blob` reads; a backend without S3 ignores the location. -/
def BlobStorageImpl.getKey (guid : DataBlobGuid) (block : UInt32)
    (version : UInt64) (location : BlobLocation) : BlobKey :=
  match impl with
  | .hybridSingleAz _ =>
    match location with
    | .dataVgProxy => .vg guid block version
    | .s3 => .s3 guid.blobId block version
  | .allInBssSingleAz => .vg guid block version

def BlobStorageImpl.getBlob (stores : BlobStores) (guid : DataBlobGuid)
    (block : UInt32) (version : UInt64) (location : BlobLocation) : Option Bytes :=
  stores (impl.getKey guid block version location)

end

def assignLayoutVolume (backend : BlobStorageBackend) (guid : DataBlobGuid)
    (totalSize : Nat) : DataBlobGuid :=
  let inS3 := match backend with
    | .dataInS3 => true
    | .s3HybridSingleAz => decide (totalSize ≥ defaultBlockSize) && !isEcVolumeId guid.volumeId
    | .allInBssSingleAz => false
  if inS3 then { guid with volumeId := s3Volume } else guid

/-! ## §3. Placement -/

theorem location_of_ne {guid : DataBlobGuid} (h : guid.volumeId ≠ s3Volume) : guid.location
    = .dataVgProxy :=
  if_neg h

theorem location_s3Volume
    (guid : DataBlobGuid) : ({ guid with volumeId := s3Volume } : DataBlobGuid).location = .s3 :=
  if_pos rfl

theorem putKey_eq_getKey (backend : BlobStorageBackend) {guid : DataBlobGuid}
    (hvol : guid.volumeId ≠ s3Volume) {block : UInt32} {size totalSize : Nat}
    (hsmall : block = 0 ∧ size < defaultBlockSize ↔ totalSize < defaultBlockSize) :
    backend.createStorage.putKey guid block size
      = backend.createStorage.getKey (assignLayoutVolume backend guid totalSize) block 1
          (assignLayoutVolume backend guid totalSize).location := by
  unfold BlobStorageBackend.createStorage BlobStorageImpl.putKey BlobStorageImpl.getKey
  cases backend with
  | dataInS3 =>
    -- every block is in S3
    have hassign : assignLayoutVolume .dataInS3 guid totalSize
      = { guid with volumeId := s3Volume } := rfl
    rw [hassign, location_s3Volume]
    rfl
  | s3HybridSingleAz =>
    dsimp only
    cases hec : isEcVolumeId guid.volumeId with
    | true =>
      have hassign : assignLayoutVolume .s3HybridSingleAz guid totalSize = guid := by
        simp [assignLayoutVolume, hec]
      rw [hassign, location_of_ne hvol, if_pos ⟨rfl, .inr rfl⟩]
    | false =>
      by_cases hsize : totalSize < defaultBlockSize
      · have hassign : assignLayoutVolume .s3HybridSingleAz guid totalSize = guid := by
          simp [assignLayoutVolume, Nat.not_le.mpr hsize]
        rw [hassign, location_of_ne hvol, if_pos ⟨rfl, .inl (hsmall.mpr hsize)⟩]
      · have hassign : assignLayoutVolume .s3HybridSingleAz guid totalSize
            = { guid with volumeId := s3Volume } := by
          simp [assignLayoutVolume, hec, Nat.le_of_not_lt hsize]
        have hlarge := mt hsmall.mp hsize
        rw [hassign, location_s3Volume, if_neg (by simp [hlarge])]
  | allInBssSingleAz => rfl

theorem first_small_iff {bs : List Bytes} (h : Sliced defaultBlockSize bs) {i : Nat} {b : Bytes}
    (hi : bs[i]? = some b) :
    i = 0 ∧ b.length < defaultBlockSize ↔ bs.flatten.length < defaultBlockSize := by
  have hpos : 0 < defaultBlockSize := by decide
  have hlen := h.get_length hi
  have hlt : i < bs.length := (List.getElem?_eq_some_iff.mp hi).1
  have hne : bs ≠ [] := by
    intro hnil
    rw [hnil] at hlt
    exact absurd hlt (Nat.not_lt_zero i)
  have hlower := (h.bounds hpos).2 hne
  by_cases hone : bs.length = 1
  · -- the only block is the object
    have hzero : i = 0 := by omega
    subst hzero
    rw [if_pos (by omega)] at hlen
    simp only [Nat.mul_zero, Nat.sub_zero] at hlen
    rw [hlen]
    simp
  · -- the first of several blocks is full
    have hfull : defaultBlockSize * 1 ≤ defaultBlockSize * (bs.length - 1) :=
      Nat.mul_le_mul_left _ (by omega)
    constructor
    · rintro ⟨rfl, hb⟩
      rw [if_neg (by omega)] at hlen
      omega
    · intro hall
      omega

end FractalBits.Gateway
