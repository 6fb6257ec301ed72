/-
  Objects.Read — the GET of an object, call by call.

  Mirrors `get_object.rs`. An item of the body that could not be read is an error, and what follows
  it is still read.
-/

import FractalBits.Gateway.RangeRead
import FractalBits.Objects.Cleaning

namespace FractalBits.Objects

open Lib Streaming Gateway
open OvrMap (Uuid OvrRowMap)

variable (rounds : Nat)

/-! ## §1. Blocks -/

/-- What the reads of one blob start from: the key and the layout they were promised, and what the
    layout says about the blob. -/
structure BlobSource where
  key : Bytes
  layout : Layout
  guid : DataBlobGuid
  numBlocks : Nat
  size : Nat
  location : BlobLocation
  rows : Option OvrRowMap

def BlobSource.blockSize (src : BlobSource) : Nat := src.layout.blockSize

def BlobSource.ceiling (src : BlobSource) : UInt64 := src.layout.blobVersion

def blobSource (key : Bytes) (layout : Layout) (rows : Option OvrRowMap) : Except ObjectLayoutError
    BlobSource := do
  let guid ← layout.blobGuid
  let numBlocks ← layout.numBlocks
  let size ← layout.size
  let location ← layout.getBlobLocation
  return ⟨key, layout, guid, numBlocks, size, location, rows⟩

theorem blobSource_fields {key : Bytes} {layout : Layout} {rows : Option OvrRowMap}
    {src : BlobSource} (h : blobSource key layout rows = .ok src) : src.key = key
    ∧ src.layout = layout ∧ layout.blobGuid = .ok src.guid := by
  unfold blobSource at h
  cases hguid : layout.blobGuid with
  | error e =>
    rw [hguid] at h
    cases h
  | ok guid =>
    cases hblocks : layout.numBlocks with
    | error e =>
      rw [hguid, hblocks] at h
      cases h
    | ok numBlocks =>
      cases hsize : layout.size with
      | error e =>
        rw [hguid, hblocks, hsize] at h
        cases h
      | ok size =>
        cases hlocation : layout.getBlobLocation with
        | error e =>
          rw [hguid, hblocks, hsize, hlocation] at h
          cases h
        | ok location =>
          rw [hguid, hblocks, hsize, hlocation] at h
          cases h
          exact ⟨rfl, rfl, rfl⟩

/-- Whether the committed layout of the key is still the one the GET started from. -/
def validateBaseMiss (key : Bytes) (layout : Layout) : Handler Unit := do
  match ← ExceptT.lift (getRawObject rounds key).run with
  | .ok current =>
    if sameCommittedReadSnapshot layout current then return () else throw .internalError
  | .error .noSuchKey | .error .noSuchBucket => throw .internalError
  | .error e => throw e

def readBlock (src : BlobSource) (block : UInt32) (contentLen : Nat) : Handler Bytes :=
  match blockFetchPlan src.rows block src.ceiling src.blockSize contentLen with
  | .zeros => return zeros contentLen
  | .stale => throw .internalError
  | .fetch version _ missIsLoss => do
    match ← ExceptT.mk (perform (Op.getBlob src.guid block version src.location)) with
    | some body => return if body.length > contentLen then body.take contentLen else body
    | none =>
      if missIsLoss then throw .internalError
      else
        validateBaseMiss rounds src.key src.layout
        return zeros contentLen

/-! ## §2. Blobs -/

def BlobSource.contentLen (src : BlobSource) (i : Nat) : Nat :=
  if i = src.numBlocks - 1 then src.size - src.blockSize * i else src.blockSize

def readBlocks (src : BlobSource) : List Nat → Call Body
  | [] => return []
  | i :: is => do
    let chunk ← (readBlock rounds src (UInt32.ofNat i) (src.contentLen i)).run
    let rest ← readBlocks src is
    return chunk :: rest

/-- The first block is read before the response starts. -/
def getFullBlobStream (src : BlobSource) : Handler Body :=
  if src.numBlocks = 0 then return []
  else do
    let firstBlockLen := if src.numBlocks = 1 then src.size else src.blockSize
    let firstBlock ← readBlock rounds src 0 firstBlockLen
    if src.numBlocks = 1 then return [.ok firstBlock]
    else
      let rest ← ExceptT.lift (readBlocks rounds src (List.range' 1 (src.numBlocks - 1)))
      return .ok firstBlock :: rest

def sliceChunk (start stop chunkOffset : Nat) (chunk : Bytes) : Bytes :=
  let endInChunk := if chunkOffset + chunk.length < stop then chunk.length else stop - chunkOffset
  (chunk.take endInChunk).drop (start - chunkOffset)

def scanBlocks (src : BlobSource) (start stop : Nat) : Nat → List Nat → Call Body
  | _, [] => return []
  | chunkOffset, i :: is => do
    match ← (readBlock rounds src (UInt32.ofNat i) (src.contentLen i)).run with
    | .error e =>
      let rest ← scanBlocks src start stop chunkOffset is
      return .error e :: rest
    | .ok chunk =>
      if chunkOffset ≥ stop then return []
      else
        let rest ← scanBlocks src start stop (chunkOffset + chunk.length) is
        return if chunkOffset + chunk.length ≤ start then rest
          else .ok (sliceChunk start stop chunkOffset chunk) :: rest

def getRangeBlobStream (src : BlobSource) (start stop : Nat) : Call Body :=
  let startBlock := start / src.blockSize
  let endBlock := (stop - 1) / src.blockSize
  scanBlocks rounds src start stop (src.blockSize * startBlock)
    (List.range' startBlock (endBlock + 1 - startBlock))

/-! ## §3. Objects -/

def loadRowMap (layout : Layout) : Handler (Option OvrRowMap) :=
  if layout.isMapped = false then return none
  else do
    let guid ← orFail ObjectLayoutError.toS3Error layout.blobGuid
    let rows ← ExceptT.mk (perform (Op.loadRowMap guid.blobId layout.mapEpoch))
    return some rows

/-- The items of some parts; a part that cannot be started is one item. -/
def partsStream {Part : Type} (stream : Part → Handler Body) :
    List Part → Call Body
  | [] => return []
  | part :: parts => do
    let items ← (stream part).run
    let rest ← partsStream stream parts
    return (match items with | .ok items => items | .error e => [.error e]) ++ rest

def fullPart (part : Bytes × Layout) : Handler Body := do
  let src ← orFail ObjectLayoutError.toS3Error (blobSource part.1 part.2 none)
  getFullBlobStream rounds src

def rangePart (part : (Bytes × Layout) × Nat × Nat) : Handler Body := do
  let src ← orFail ObjectLayoutError.toS3Error (blobSource part.1.1 part.1.2 none)
  ExceptT.lift (getRangeBlobStream rounds src part.2.1 part.2.2)

/-- The parts that a range meets, each with its own range: a running offset, which stops behind the
    range. -/
def intersectParts (start stop : Nat) : Nat → List (Bytes × Layout) →
    Except Fault (List ((Bytes × Layout) × Nat × Nat))
  | _, [] => return []
  | offset, part :: parts => do
    let size ← part.2.size.mapError fun e => Fault.s3 e.toS3Error
    if offset ≥ stop then return []
    else if offset < stop ∧ offset + size > start then
      let blobStart := start - offset  -- `saturating_sub`
      let blobEnd ← (if stop > offset + size then .ok size else checkedSub stop offset)
      let rest ← intersectParts start stop (offset + size) parts
      return (part, blobStart, blobEnd) :: rest
    else intersectParts start stop (offset + size) parts

/-- What a request is answered; there is no panic here, as no difference is out of bounds. -/
def Fault.answer : Fault → S3Error
  | .panic => .internalError
  | .s3 e => e

theorem mem_of_intersectParts {start stop offset : Nat} {mpus : List (Bytes × Layout)}
    {parts : List ((Bytes × Layout) × Nat × Nat)}
    (h : intersectParts start stop offset mpus = .ok parts) : ∀ part ∈ parts, part.1 ∈ mpus := by
  induction mpus generalizing offset parts with
  | nil =>
    cases h
    exact nofun
  | cons mpu mpus ih =>
    unfold intersectParts at h
    obtain ⟨size, -, h⟩ := of_bind_ok h
    split at h
    · cases h
      exact nofun
    · split at h
      · obtain ⟨blobEnd, -, h⟩ := of_bind_ok h
        obtain ⟨rest, hrest, h⟩ := of_bind_ok h
        cases h
        intro part hpart
        rcases List.mem_cons.mp hpart with rfl | hpart
        · exact List.mem_cons_self
        · exact List.mem_cons_of_mem _ (ih hrest part hpart)
      · exact fun part hpart => List.mem_cons_of_mem _ (ih h part hpart)

def getObjectContent (key : Bytes) (object : Layout) : Handler (Body × Nat) := do
  let client ← ExceptT.lift (perform Op.getBlobClient)
  if client = false then throw .internalError
  else
    match object.state with
    | .normal _ _ =>
      let rows ← loadRowMap object
      let src ← orFail ObjectLayoutError.toS3Error (blobSource key object rows)
      let items ← getFullBlobStream rounds src
      return (items, src.size)
    | .symlink _ _ | .special _ | .directory _ | .indirect _ => throw .invalidObjectState
    | .mpu .uploading => throw .invalidObjectState
    | .mpu (.completed core) =>
      let mpus ← listRawObjects rounds 10000 (mpuGetPartPrefix key object.versionId 0) []
      let items ← ExceptT.lift (partsStream (fullPart rounds) mpus)
      return (items, core.size)

def getObjectRangeContent (key : Bytes) (object : Layout) (start stop : Nat) :
    Handler Body := do
  let client ← ExceptT.lift (perform Op.getBlobClient)
  if client = false then throw .internalError
  else
    match object.state with
    | .normal _ _ =>
      let rows ← loadRowMap object
      let src ← orFail ObjectLayoutError.toS3Error (blobSource key object rows)
      ExceptT.lift (getRangeBlobStream rounds src start stop)
    | .symlink _ _ | .special _ | .directory _ | .indirect _ => throw .invalidObjectState
    | .mpu .uploading => throw .invalidObjectState
    | .mpu (.completed _) =>
      let mpus ← listRawObjects rounds 10000 (mpuGetPartPrefix key object.versionId 0) []
      let parts ← orFail Fault.answer (intersectParts start stop 0 mpus)
      ExceptT.lift (partsStream (rangePart rounds) parts)

/-- The range of a request, if any, in an object of the given size. -/
abbrev RangeParser := Nat → Except S3Error (Option (Nat × Nat))

/-- `get_object_handler`. -/
def getObject (key : Bytes) (parseRange : RangeParser) :
    Handler Body := do
  let object ← getRawObject rounds key
  let totalSize ← orFail ObjectLayoutError.toS3Error object.size
  let range ← orFail id (parseRange totalSize)
  match range with
  | none =>
    let content ← getObjectContent rounds key object
    return content.1
  | some (start, stop) => getObjectRangeContent rounds key object start stop

/-! ## §4. Reading, in any protocol without phases -/

section

variable {P : Protocol Op Ans Unit} {K : Bytes → Prop} {L : Layout → Prop}

/-- The protocol allows to read blobs, inodes and listings, under keys that meet `K`; the layouts
    that are read meet `L`, and their rows may be loaded. -/
structure Readable (P : Protocol Op Ans Unit) (K : Bytes → Prop) (L : Layout → Prop) : Prop where
  retries : Retries P ()
  client : P.allowed () .getBlobClient
  blob : ∀ guid block version location, P.allowed () (.getBlob guid block version location)
  get : ∀ key, K key → P.allowed () (.getInode key)
  read : ∀ key layout, P.possible (.getInode key) (.ok (.ok (.layout layout))) → L layout
  rows : ∀ layout, L layout → layout.isMapped = true →
    ∀ blobId mapEpoch, P.allowed () (.loadRowMap blobId mapEpoch)
  part : ∀ key uploadId partNumber, K key → K (mpuGetPartPrefix key uploadId partNumber)
  list : ∀ maxKeys under startAfter, K under → P.allowed () (.listInodes maxKeys under startAfter)
  listed : ∀ maxKeys under startAfter inodes more, K under →
    P.possible (.listInodes maxKeys under startAfter) (.ok (.ok inodes more)) →
      ∀ e ∈ inodes, K (trimEndMatches 0 e.1)

namespace Readable

variable {rounds : Nat} {key : Bytes} {src : BlobSource} {object : Layout} (h : Readable P K L)

include h

theorem getRawObject (hkey : K key) : Obeys P L (getRawObject rounds key) :=
  Prog.Follows.mono (obeys_getRawObject h.retries (h.get key hkey) rounds)
    fun _ _ hr layout hlayout => h.read key layout (hr layout hlayout)

theorem listRawObjects {under : Bytes} (hunder : K under) (maxParts : Nat) (startAfter : Bytes) :
    Obeys P (fun mpus => ∀ part ∈ mpus, K part.1)
      (listRawObjects rounds maxParts under startAfter) := by
  refine (follows_listRawObjects h.retries (h.list maxParts under startAfter hunder) rfl
    rounds).mono ?_
  rintro _ r ⟨ans, hans, -, rfl⟩ mpus hmpus part hpart
  obtain ⟨inodes, more, rfl, hraw⟩ := page_of_listResult hmpus
  obtain ⟨k, hk, htrim⟩ := mem_of_rawObjects hraw hpart
  rw [htrim]
  exact h.listed maxParts under startAfter inodes more hunder hans _ hk

theorem validateBaseMiss (hkey : K key) (layout : Layout) :
    Obeys P (fun _ => True) (validateBaseMiss rounds key layout) := by
  unfold Objects.validateBaseMiss
  refine (obeys_lift (h.getRawObject hkey).follows).bind fun r _ => ?_
  split
  · split
    · exact obeys_pure trivial
    · exact obeys_throw _
  · exact obeys_throw _
  · exact obeys_throw _
  · exact obeys_throw _

theorem readBlock (hkey : K src.key) (block : UInt32) (contentLen : Nat) :
    Obeys P (fun _ => True) (readBlock rounds src block contentLen) := by
  have hblob : ∀ version, Obeys P (fun _ => True)
      (ExceptT.mk (perform (Op.getBlob src.guid block version src.location)) : Handler
        (Option Bytes)) :=
    fun version => ⟨h.blob _ _ _ _, fun _ _ _ _ => trivial⟩
  unfold Objects.readBlock
  split
  · exact obeys_pure trivial
  · exact obeys_throw _
  · refine (hblob _).bind fun body _ => ?_
    split
    · exact obeys_pure trivial
    · split
      · exact obeys_throw _
      · exact (h.validateBaseMiss hkey _).bind fun _ _ => obeys_pure trivial

theorem readBlocks (hkey : K src.key) (is : List Nat) :
    (readBlocks rounds src is).Follows P (fun _ _ => True) () := by
  induction is with
  | nil => trivial
  | cons i is ih =>
    unfold Objects.readBlocks
    refine Prog.Follows.bind ((h.readBlock hkey _ _).follows.mono fun _ chunk _ => ?_)
    exact ih.seq fun _ _ _ => trivial

theorem getFullBlobStream (hkey : K src.key) :
    Obeys P (fun _ => True) (getFullBlobStream rounds src) := by
  unfold Objects.getFullBlobStream
  split
  · exact obeys_pure trivial
  · refine (h.readBlock hkey _ _).bind fun firstBlock _ => ?_
    split
    · exact obeys_pure trivial
    · exact (obeys_lift (h.readBlocks hkey _)).bind fun _ _ => obeys_pure trivial

theorem scanBlocks (hkey : K src.key) (start stop offset : Nat) (is : List Nat) :
    (scanBlocks rounds src start stop offset is).Follows P (fun _ _ => True) () := by
  induction is generalizing offset with
  | nil => trivial
  | cons i is ih =>
    unfold Objects.scanBlocks
    refine Prog.Follows.bind ((h.readBlock hkey _ _).follows.mono fun _ chunk _ => ?_)
    cases chunk with
    | error e => exact (ih offset).seq fun _ _ _ => trivial
    | ok chunk =>
      dsimp only
      split
      · trivial
      · exact (ih _).seq fun _ _ _ => trivial

theorem loadRowMap (hobject : L object) : Obeys P (fun _ => True) (loadRowMap object) := by
  unfold Objects.loadRowMap
  split
  · exact obeys_pure trivial
  · next hmapped =>
    have hrows : ∀ blobId, Obeys P (fun _ => True)
        (ExceptT.mk (perform (Op.loadRowMap blobId object.mapEpoch)) : Handler OvrRowMap) :=
      fun blobId => ⟨h.rows object hobject (by simpa using hmapped) _ _, fun _ _ _ _ => trivial⟩
    exact obeys_orFail_bind fun guid => (hrows _).bind fun _ _ => obeys_pure trivial

omit h in
theorem blobSource_bind {α : Type} {Q : α → Prop} (hkey : K key) (rows : Option OvrRowMap)
    {f : BlobSource → Handler α} (hf : ∀ src, K src.key → Obeys P Q (f src)) :
    Obeys P Q (orFail ObjectLayoutError.toS3Error (blobSource key object rows) >>= f) := by
  refine (obeys_orFail (Q := fun src => K src.key) _ fun src hsrc => ?_).bind hf
  rw [(blobSource_fields hsrc).1]
  exact hkey

theorem fullPart {part : Bytes × Layout} (hkey : K part.1) :
    Obeys P (fun _ => True) (fullPart rounds part) :=
  blobSource_bind hkey none fun _ hsrc => h.getFullBlobStream hsrc

theorem rangePart {part : (Bytes × Layout) × Nat × Nat} (hkey : K part.1.1) :
    Obeys P (fun _ => True) (rangePart rounds part) :=
  blobSource_bind hkey none fun _ hsrc => obeys_lift (h.scanBlocks hsrc _ _ _ _)

omit h in
theorem partsStream {Part : Type} {stream : Part → Handler Body} {parts : List Part}
    (h : ∀ part ∈ parts, Obeys P (fun _ => True) (stream part)) :
    (partsStream stream parts).Follows P (fun _ _ => True) () := by
  induction parts with
  | nil => trivial
  | cons part parts ih =>
    unfold Objects.partsStream
    refine Prog.Follows.bind ((h part List.mem_cons_self).follows.mono fun _ items _ => ?_)
    exact (ih fun x hx => h x (List.mem_cons_of_mem _ hx)).seq fun _ _ _ => trivial

theorem getObjectContent (hkey : K key) (hobject : L object) :
    Obeys P (fun _ => True) (getObjectContent rounds key object) := by
  unfold Objects.getObjectContent
  refine (obeys_getBlobClient h.client).bind fun client _ => ?_
  split
  · exact obeys_throw _
  · split
    · refine (h.loadRowMap hobject).bind fun rows _ => blobSource_bind hkey rows fun src hsrc => ?_
      exact (h.getFullBlobStream hsrc).bind fun _ _ => obeys_pure trivial
    · exact obeys_throw _
    · exact obeys_throw _
    · exact obeys_throw _
    · exact obeys_throw _
    · exact obeys_throw _
    · refine (h.listRawObjects (h.part _ _ _ hkey) _ _).bind fun mpus hmpus => ?_
      refine (obeys_lift (partsStream fun part hpart => ?_)).bind fun _ _ => obeys_pure trivial
      exact h.fullPart (hmpus part hpart)

theorem getObjectRangeContent (hkey : K key) (hobject : L object) (start stop : Nat) :
    Obeys P (fun _ => True) (getObjectRangeContent rounds key object start stop) := by
  unfold Objects.getObjectRangeContent
  refine (obeys_getBlobClient h.client).bind fun client _ => ?_
  split
  · exact obeys_throw _
  · split
    · refine (h.loadRowMap hobject).bind fun rows _ => blobSource_bind hkey rows fun src hsrc => ?_
      exact obeys_lift (h.scanBlocks hsrc _ _ _ _)
    · exact obeys_throw _
    · exact obeys_throw _
    · exact obeys_throw _
    · exact obeys_throw _
    · exact obeys_throw _
    · refine (h.listRawObjects (h.part _ _ _ hkey) _ _).bind fun mpus hmpus => ?_
      refine (obeys_orFail (Q := fun parts => ∀ part ∈ parts, part.1 ∈ mpus) _ ?_).bind
        fun parts hparts => ?_
      · exact fun parts hselect => mem_of_intersectParts hselect
      · exact obeys_lift (partsStream fun part hpart => h.rangePart (hmpus _ (hparts part hpart)))

theorem getObject (hkey : K key) (parseRange : RangeParser) :
    Obeys P (fun _ => True) (getObject rounds key parseRange) := by
  unfold Objects.getObject
  refine (h.getRawObject hkey).bind fun object hobject => ?_
  refine obeys_orFail_bind fun totalSize => obeys_orFail_bind fun range => ?_
  split
  · exact (h.getObjectContent hkey hobject).bind fun _ _ => obeys_pure trivial
  · exact h.getObjectRangeContent hkey hobject _ _

end Readable

end

/-! ## §5. A GET changes nothing -/

def Op.reads : Op → Bool
  | .putInode _ _ | .deleteInode _ | .putBlock _ _ | .sendDeletion _ => false
  | _ => true

theorem serve_reads {op : Op} (h : op.reads = true) (cluster : Cluster) (d : Delivery) (s : Site) :
    (cluster.serve d op s).2 = s := by
  cases op with
  | failoverExpired | refreshNssAddress | getBlobClient | loadRowMap => rfl
  | getInode | listInodes | getBlob =>
    cases d <;> rfl
  | _ => cases h

/-- The program changes nothing, whatever it answers. -/
abbrev Unchanging {α : Type} (cluster : Cluster) (ok : Op → Delivery → Prop) (s : Site)
    (p : Call α) : Prop :=
  p.Keeps cluster.serve ok (fun s' => s' = s) fun _ => True

def readOnly : Protocol Op Ans Unit where
  possible _ _ := True
  allowed _ op := op.reads = true
  advance _ _ _ := ()

theorem readable_readOnly : Readable readOnly (fun _ => True) fun _ => True where
  retries := ⟨⟨rfl, fun _ => rfl⟩, rfl, fun _ => rfl⟩
  client := rfl
  blob _ _ _ _ := rfl
  get _ _ := rfl
  read _ _ _ := trivial
  rows _ _ _ _ _ := rfl
  part _ _ _ _ := trivial
  list _ _ _ _ := rfl
  listed _ _ _ _ _ _ _ _ _ := trivial

section

variable {rounds : Nat} {cluster : Cluster} {ok : Op → Delivery → Prop} {s : Site}

theorem unchanging_of_follows {α : Type} {p : Call α} {Q : Unit → α → Prop}
    (h : p.Follows readOnly Q ()) :
    Unchanging cluster ok s p := by
  refine (h.keeps fun _ op ch s' hop _ hs' => ⟨trivial, ?_⟩).mono fun _ _ => trivial
  rw [serve_reads hop]
  exact hs'

theorem unchanging_perform {op : Op} (h : op.reads = true) : Unchanging cluster ok s (perform op) :=
  unchanging_of_follows (Q := fun _ _ => True) ⟨h, fun _ _ => trivial⟩

theorem keeps_getObject (key : Bytes) (parseRange : RangeParser) :
    Unchanging cluster ok s (getObject rounds key parseRange).run :=
  unchanging_of_follows (readable_readOnly.getObject trivial parseRange)

end

end FractalBits.Objects
