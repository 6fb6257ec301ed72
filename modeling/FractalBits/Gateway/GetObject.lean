/-
  Gateway.GetObject — reading a whole object.

  Mirrors `block_fetch_plan` of `common/data_types/src/ovr_map.rs` and `read_block`,
  `get_full_blob_stream` and the `Normal` case of `get_object_content` in `get_object.rs`.
-/

import FractalBits.Gateway.Request
import FractalBits.OvrMap.RowMap

namespace FractalBits.Gateway

open Lib
open OvrMap (BlockResolution OvrRowMap)

/-! ## §1. Blocks -/

inductive BlockFetchPlan
  | zeros
  | stale
  | fetch (version : UInt64) (readLen : Nat) (missIsLoss : Bool)
  deriving DecidableEq, Repr

def blockFetchPlan (rows : Option OvrRowMap) (block : UInt32) (ceiling : UInt64)
    (blockSize contentLen : Nat) : BlockFetchPlan :=
  let resolution := match rows with
    | some rows => rows.resolve block ceiling
    | none => .base
  let fetch (version : UInt64) (missIsLoss : Bool) : BlockFetchPlan :=
    .fetch version (if version > 1 then max blockSize contentLen else contentLen) missIsLoss
  match resolution with
  | .hole => .zeros
  | .stale => .stale
  | .exact version => fetch version true
  | .base => fetch 1 false

/-- The body of a response: its items, each read or failed. -/
abbrev Body := List (Except S3Error Bytes)

def zeros (len : Nat) : Bytes := List.replicate len 0

structure ReadContext where
  impl : BlobStorageImpl
  stores : BlobStores
  validateBaseMiss : Except S3Error Unit

variable (ctx : ReadContext) (guid : DataBlobGuid)

def ReadContext.readBlock (block : UInt32)
    (contentLen blockSize : Nat) (location : BlobLocation) (rows : Option OvrRowMap)
    (ceiling : UInt64) :
    Except S3Error Bytes :=
  match blockFetchPlan rows block ceiling blockSize contentLen with
  | .zeros => .ok (zeros contentLen)
  | .stale => .error .internalError
  | .fetch version _ missIsLoss =>
    match ctx.impl.getBlob ctx.stores guid block version location with
    | some body => .ok (if body.length > contentLen then body.take contentLen else body)
    | none =>
      if missIsLoss then .error .internalError
      else
        match ctx.validateBaseMiss with
        | .ok () => .ok (zeros contentLen)
        | .error e => .error e

/-! ## §2. The stream -/

def ReadContext.getFullBlobStream (numBlocks objectSize blockSize : Nat)
    (location : BlobLocation) (rows : Option OvrRowMap) (ceiling : UInt64) :
    Except S3Error Body :=
  if numBlocks = 0 then .ok []
  else
    let firstBlockLen := if numBlocks = 1 then objectSize else blockSize
    match ctx.readBlock guid 0 firstBlockLen blockSize location rows ceiling with
    | .error e => .error e
    | .ok firstBlock =>
      if numBlocks = 1 then .ok [.ok firstBlock]
      else
        .ok (.ok firstBlock :: (List.range' 1 (numBlocks - 1)).map fun i =>
          let contentLen := if i = numBlocks - 1 then objectSize - blockSize * i else blockSize
          ctx.readBlock guid (UInt32.ofNat i) contentLen blockSize location rows ceiling)

/-- `get_object_content` of a layout in the state `Normal`: the items and the size. `loadRowMap`
    loads the rows of a mapped blob. -/
def ReadContext.getObjectContent (loadRowMap : ObjectLayout → Except S3Error OvrRowMap)
    (layout : ObjectLayout) : Except S3Error (Body × Nat) := do
  let rows ← if layout.isMapped then (loadRowMap layout).map some else .ok none
  let bodyStream ← ctx.getFullBlobStream layout.blobGuid layout.numBlocks layout.size
    layout.blockSize
    layout.getBlobLocation rows layout.blobVersion
  return (bodyStream, layout.size)

theorem getObjectContent_unmapped (loadRowMap : ObjectLayout → Except S3Error OvrRowMap)
    {layout : ObjectLayout} (hepoch : layout.mapEpoch = 0) {stream : Body}
    (h : ctx.getFullBlobStream layout.blobGuid layout.numBlocks layout.size layout.blockSize
      layout.getBlobLocation none layout.blobVersion = .ok stream) :
    ctx.getObjectContent loadRowMap layout = .ok (stream, layout.size) := by
  have hmapped : layout.isMapped = false := by simp [ObjectLayout.isMapped, hepoch]
  unfold ReadContext.getObjectContent
  rw [hmapped]
  show (ctx.getFullBlobStream _ _ _ _ _ none _).bind _ = _
  rw [h]
  rfl

/-! ## §3. Stored blocks are read back -/

theorem readBlock_stored {guid : DataBlobGuid} {block : UInt32} {location : BlobLocation}
    {body : Bytes} (h : ctx.impl.getBlob ctx.stores guid block 1 location = some body)
    {contentLen : Nat} (hlen : body.length ≤ contentLen) (blockSize : Nat) (ceiling : UInt64) :
    ctx.readBlock guid block contentLen blockSize location none ceiling = .ok body := by
  unfold ReadContext.readBlock
  show (match ctx.impl.getBlob ctx.stores guid block 1 location with
    | some body => _ | none => _) = _
  rw [h]
  dsimp only
  rw [if_neg (Nat.not_lt.mpr hlen)]

variable {blockSize : Nat}

theorem getFullBlobStream_first {guid : DataBlobGuid} {numBlocks objectSize : Nat}
    (hblocks : numBlocks ≠ 0) {location : BlobLocation} {ceiling : UInt64} {body : Bytes}
    (h : ctx.readBlock guid 0 (if numBlocks = 1 then objectSize else blockSize) blockSize location
      none ceiling = .ok body) :
    ∃ rest, ctx.getFullBlobStream guid numBlocks objectSize blockSize location none ceiling
      = .ok (.ok body :: rest) := by
  unfold ReadContext.getFullBlobStream
  rw [if_neg hblocks]
  dsimp only
  rw [h]
  dsimp only
  split
  · exact ⟨[], rfl⟩
  · exact ⟨_, rfl⟩

theorem getFullBlobStream_reads (location : BlobLocation)
    (rows : Option OvrRowMap) (hpos : 0 < blockSize) {bs : List Bytes} (hbs : Sliced blockSize bs)
    {ceiling : UInt64}
    (hread : ∀ i b, bs[i]? = some b →
      ctx.readBlock guid (UInt32.ofNat i)
        (if i + 1 = bs.length then bs.flatten.length - blockSize * i else blockSize)
        blockSize location rows ceiling = .ok b) :
    ctx.getFullBlobStream guid ((bs.flatten.length + blockSize - 1) / blockSize) bs.flatten.length
      blockSize location rows ceiling = .ok (bs.map .ok) := by
  rw [← hbs.length_eq hpos]
  unfold ReadContext.getFullBlobStream
  cases bs with
  | nil => rfl
  | cons b bs =>
    have hfirst := hread 0 b rfl
    rw [if_neg (by simp)]
    have hcond : (0 + 1 = (b :: bs).length) = ((b :: bs).length = 1) := by
      rw [Nat.zero_add]
      exact propext eq_comm
    simp only [hcond, Nat.mul_zero, Nat.sub_zero] at hfirst
    have hnum : UInt32.ofNat 0 = 0 := rfl
    rw [hnum] at hfirst
    dsimp only
    rw [hfirst]
    dsimp only
    by_cases hone : (b :: bs).length = 1
    · have hnil : bs = [] := List.eq_nil_of_length_eq_zero (by simpa using hone)
      rw [if_pos hone, hnil]
      rfl
    · rw [if_neg hone]
      refine congrArg Except.ok (congrArg (List.cons _) (List.ext_getElem? fun j => ?_))
      -- item `j` of the rest is block `j + 1`
      cases hj : bs[j]? with
      | none =>
        have hlen : bs.length ≤ j := List.getElem?_eq_none_iff.mp hj
        rw [List.getElem?_map, List.getElem?_map, hj, Option.map_none,
          List.getElem?_eq_none (by simpa using hlen), Option.map_none]
      | some c =>
        have hlt : j < bs.length := (List.getElem?_eq_some_iff.mp hj).1
        have hnext := hread (j + 1) c hj
        rw [List.getElem?_map, List.getElem?_map, hj, Option.map_some,
          List.getElem?_range' (by simpa using hlt), Option.map_some]
        refine congrArg some ?_
        have hidx : 1 + 1 * j = j + 1 := by omega
        have hlast : (j + 1 = (b :: bs).length - 1) = (j + 1 + 1 = (b :: bs).length) := by
          rw [List.length_cons]
          exact propext ⟨fun h => by omega, fun h => by omega⟩
        rw [hidx]
        simp only [hlast]
        exact hnext

/-- ★ **An object is read back block by block**, when its blocks are stored where its layout reads
    them. -/
theorem getFullBlobStream_blocks (location : BlobLocation)
    (hpos : 0 < blockSize) {bs : List Bytes} (hbs : Sliced blockSize bs)
    (hstored : ∀ i b, bs[i]? = some b →
      ctx.impl.getBlob ctx.stores guid (UInt32.ofNat i) 1 location = some b) (ceiling : UInt64) :
    ctx.getFullBlobStream guid ((bs.flatten.length + blockSize - 1) / blockSize) bs.flatten.length
      blockSize location none ceiling = .ok (bs.map .ok) := by
  apply getFullBlobStream_reads ctx guid location none hpos hbs
  intro i b hi
  exact readBlock_stored ctx (hstored i b hi) (Nat.le_of_eq (hbs.get_length hi)) blockSize ceiling

end FractalBits.Gateway
