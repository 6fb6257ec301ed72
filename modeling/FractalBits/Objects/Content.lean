/-
  Objects.Content — the bytes of objects and parts.

  A blob is whole when its blocks, as an upload cuts them, are stored where its layout reads them.
-/

import Mathlib.Algebra.Order.BigOperators.Group.List
import FractalBits.Gateway.RoundTrip
import FractalBits.Objects.Observed

namespace FractalBits.Objects

open Lib Streaming Gateway List
open OvrMap (Uuid OvrRowMap)

/-! ## §1. Whole blobs -/

structure Whole (impl : BlobStorageImpl) (stores : BlobStores) (layout : Layout)
    (blocks : List Bytes) : Prop where
  blockSize : layout.blockSize = defaultBlockSize
  sliced : Sliced defaultBlockSize blocks
  length_le : blocks.length ≤ 2 ^ 32
  stored : ∃ guid core, layout.state = .normal guid core ∧ core.size = blocks.flatten.length
    ∧ ∀ i b, blocks[i]? = some b → impl.getBlob stores guid (UInt32.ofNat i) 1 guid.location = some
      b

theorem getKey_blobId (impl : BlobStorageImpl) (guid : DataBlobGuid) (block : UInt32)
    (version : UInt64) (location : BlobLocation) : (impl.getKey guid block version location).blobId
    = guid.blobId := by
  unfold BlobStorageImpl.getKey
  cases impl with
  | allInBssSingleAz => rfl
  | hybridSingleAz allDataInS3 =>
    cases location with
    | dataVgProxy | s3 => rfl

section

variable {impl : BlobStorageImpl} {stores stores' : BlobStores} {layout : Layout}
    {blocks : List Bytes}

variable (h : Whole impl stores layout blocks)

include h

theorem Whole.isNormal : layout.IsNormal := by
  obtain ⟨guid, core, hstate, -, -⟩ := h.stored
  exact ⟨guid, core, hstate⟩

theorem Whole.size : layout.size = .ok blocks.flatten.length := by
  obtain ⟨guid, core, hstate, hsize, -⟩ := h.stored
  unfold Layout.size
  rw [hstate, ← hsize]

theorem Whole.partSize_eq (n : Nat) :
    partSize (n, layout) = blocks.flatten.length := by
  unfold partSize
  rw [h.size]
  rfl

theorem Whole.flatten_le :
    blocks.flatten.length ≤ defaultBlockSize * 2 ^ 32 :=
  Nat.le_trans (h.sliced.bounds (by decide)).1 (Nat.mul_le_mul_left _ h.length_le)

def SameBlob (layout : Layout) (stores stores' : BlobStores) : Prop :=
  ∀ guid, layout.blobGuid = .ok guid → ∀ k : BlobKey, k.blobId = guid.blobId → stores' k = stores k

omit h in
theorem SameBlob.trans {stores'' : BlobStores} (h : SameBlob layout stores stores')
    (h' : SameBlob layout stores' stores'') : SameBlob layout stores stores'' :=
  fun guid hguid k hk => (h' guid hguid k hk).trans (h guid hguid k hk)

theorem Whole.of_same (hsame : SameBlob layout stores stores') :
    Whole impl stores' layout blocks := by
  obtain ⟨guid, core, hstate, hsize, hstored⟩ := h.stored
  have hguid : layout.blobGuid = .ok guid := by
    unfold Layout.blobGuid
    rw [hstate]
  refine ⟨h.blockSize, h.sliced, h.length_le, guid, core, hstate, hsize, fun i b hi => ?_⟩
  show stores' (impl.getKey guid (UInt32.ofNat i) 1 guid.location) = some b
  rw [hsame guid hguid _ (getKey_blobId ..)]
  exact hstored i b hi

end

/-! ### Sizes of several parts -/

theorem sum_le_of_forall_le {α : Type} {f : α → Nat} {bound : Nat} {xs : List α}
    (h : ∀ x ∈ xs, f x ≤ bound) :
    (xs.map f).sum ≤ xs.length * bound := by
  have hle := sum_le_card_nsmul (xs.map f) bound fun n hn => by
    obtain ⟨x, hx, rfl⟩ := mem_map.mp hn
    exact h x hx
  rw [length_map] at hle
  exact hle

variable {parts : List (Nat × Layout)}

theorem sum_partSize_lt_of_le
    (hsizes : ∀ part ∈ parts, partSize part ≤ defaultBlockSize * 2 ^ 32)
    (hlength : parts.length ≤ 10000) :
    (parts.map partSize).sum < 2 ^ 64 := by
  have hmul : parts.length * (defaultBlockSize * 2 ^ 32) ≤ 10000 * (defaultBlockSize * 2 ^ 32) :=
    Nat.mul_le_mul_right _ hlength
  have hbound : 10000 * (defaultBlockSize * 2 ^ 32) < 2 ^ 64 := by decide
  exact Nat.lt_of_le_of_lt (Nat.le_trans (sum_le_of_forall_le hsizes) hmul) hbound

theorem sum_partSize_lt {impl : BlobStorageImpl} {stores : BlobStores}
    (h : ∀ part ∈ parts, ∃ blocks, Whole impl stores part.2 blocks)
    (hlength : parts.length ≤ 10000) :
    (parts.map partSize).sum < 2 ^ 64 := by
  refine sum_partSize_lt_of_le (fun part hpart => ?_) hlength
  obtain ⟨blocks, hblocks⟩ := h part hpart
  rw [hblocks.partSize_eq part.1]
  exact hblocks.flatten_le

theorem sum_partSize {impl : BlobStorageImpl} {stores : BlobStores}
    {blocks : Nat × Layout → List Bytes}
    (h : ∀ part ∈ parts, Whole impl stores part.2 (blocks part)) :
    (parts.map partSize).sum = (parts.flatMap blocks).flatten.length := by
  induction parts with
  | nil => rfl
  | cons part parts ih =>
    have hpart : partSize part = (blocks part).flatten.length := (h part mem_cons_self).partSize_eq
      part.1
    rw [map_cons, sum_cons, flatMap_cons, flatten_append, length_append, hpart,
      ih fun q hq => h q (mem_cons_of_mem _ hq)]

/-! ## §2. Sound uploads -/

/-- The upload writes these blocks, each once and where its layout reads it, and nothing to other
    blobs. -/
structure Upload.Sound (impl : BlobStorageImpl) (upload : Upload) (blocks : List Bytes) : Prop where
  blockSize : upload.layout.blockSize = defaultBlockSize
  size : upload.layout.size = blocks.flatten.length
  sliced : Sliced defaultBlockSize blocks
  length_le : blocks.length ≤ 2 ^ 32
  written : ∀ i b, blocks[i]? = some b →
    (impl.getKey upload.layout.blobGuid (UInt32.ofNat i) 1 upload.layout.getBlobLocation, b)
      ∈ upload.writes
  distinct : (upload.writes.map Prod.fst).Nodup
  own : ∀ write ∈ upload.writes, write.1.blobId = upload.layout.blobGuid.blobId

theorem assignLayoutVolume_blobId (backend : BlobStorageBackend) (guid : DataBlobGuid)
    (totalSize : Nat) :
    (assignLayoutVolume backend guid totalSize).blobId = guid.blobId := by
  have hboth : ∀ inS3 : Bool,
      (if inS3 then { guid with volumeId := s3Volume } else guid : DataBlobGuid).blobId
        = guid.blobId := by
    intro inS3
    cases inS3 with
    | true | false => rfl
  exact hboth _

/-- ★ **What a PUT of a body writes is a sound upload of it**, for a body of at most 2^32 blocks. -/
theorem StoredAs.sound {env : PutEnv} {ctx : ObjectRequestContext} {guid : DataBlobGuid} {w : World}
    {out : PutOutcome} {content : Bytes} (h : StoredAs env ctx guid w content out)
    (hvol : guid.volumeId ≠ s3Volume) (hlen : content.length ≤ 2 ^ 32 * defaultBlockSize) :
    ∃ layout blocks, out.world.inodes ctx.key = some layout ∧ blocks.flatten = content
      ∧ ∀ versionId timestamp, Upload.Sound env.backend.createStorage
        ⟨env.completed (env.blockWrites guid out.blocks), layout, versionId, timestamp⟩ blocks := by
  obtain ⟨headers, checksum, hinode⟩ := h.inode_of_le hlen
  obtain ⟨items, hsliced, hflat, hblocks⟩ := h.read_blocks
  have hperm := env.completed_perm (env.blockWrites guid out.blocks)
  have hcount : items.length ≤ 2 ^ 32 := by
    have hblocks_le := h.length_le hlen
    by_contra hmore
    have hlt : out.blocks.length < items.length := by omega
    obtain ⟨chunks, hchunks, -⟩ := hblocks out.blocks.length _ (List.getElem?_eq_getElem hlt)
    rw [List.getElem?_eq_none le_rfl] at hchunks
    cases hchunks
  refine ⟨_, items, hinode, hflat, fun versionId timestamp => ⟨rfl, ?_, hsliced, hcount, ?_, ?_,
    ?_⟩⟩
  · rw [hflat]
    rfl
  · intro i b hi
    obtain ⟨chunks, hchunks, rfl⟩ := hblocks i b hi
    refine hperm.mem_iff.mpr (mem_of_getElem? (i := i) ?_)
    rw [getElem?_blockWrites, hchunks, Option.map_some, BlobStorageImpl.putBlobVectored,
      sum_lengths, h.placement hvol hlen hchunks]
    rfl
  · exact (hperm.map Prod.fst).nodup_iff.mpr (blockWrites_nodup env guid (h.length_le hlen))
  · intro write hwrite
    obtain ⟨i, hi⟩ := mem_iff_getElem?.mp (hperm.mem_iff.mp hwrite)
    rw [getElem?_blockWrites] at hi
    obtain ⟨chunks, -, rfl⟩ := Option.map_eq_some_iff.mp hi
    show (env.backend.createStorage.putKey guid (UInt32.ofNat i) _).blobId = _
    rw [(putKey_block ..).2]
    exact (assignLayoutVolume_blobId env.backend guid content.length).symm

section

variable {impl : BlobStorageImpl} {upload : Upload} {blocks : List Bytes}

theorem Upload.Sound.whole (h : upload.Sound impl blocks) {stores : BlobStores}
    (hwritten : ∀ write ∈ upload.writes, stores write.1 = some write.2) :
    Whole impl stores upload.stored blocks :=
  ⟨h.blockSize, h.sliced, h.length_le, upload.layout.blobGuid, _, rfl, h.size,
    fun i b hi => hwritten _ (h.written i b hi)⟩

theorem Upload.Sound.whole_writeAll (h : upload.Sound impl blocks) (stores : BlobStores) :
    Whole impl (writeAll stores upload.writes) upload.stored blocks :=
  h.whole fun _ hwrite => writeAll_of_nodup stores h.distinct hwrite

theorem Upload.Sound.same (h : upload.Sound impl blocks) {layout : Layout}
    (hother : ∀ guid, layout.blobGuid = .ok guid → guid.blobId ≠ upload.layout.blobGuid.blobId)
    (stores : BlobStores) :
    SameBlob layout stores (writeAll stores upload.writes) := by
  intro guid hguid k hk
  refine writeAll_of_not_mem stores fun hmem => ?_
  obtain ⟨write, hwrite, rfl⟩ := mem_map.mp hmem
  exact hother guid hguid (hk.symm.trans (h.own write hwrite))

end

def blockUpload (impl : BlobStorageImpl) (blobId : Uuid) (block : Bytes) : Upload where
  writes := [(impl.getKey ⟨blobId, 0⟩ 0 1 .dataVgProxy, block)]
  layout := ⟨defaultBlockSize, 1, 0, ⟨blobId, 0⟩, block.length, [], none⟩
  versionId := blobId
  timestamp := 0

theorem blockUpload_sound (impl : BlobStorageImpl) (blobId : Uuid) (block : Bytes)
    (hpos : 0 < block.length) (hle : block.length ≤ defaultBlockSize) :
    (blockUpload impl blobId block).Sound impl [block] where
  blockSize := rfl
  size := by simp [blockUpload]
  sliced := .last hpos hle
  length_le := by simp
  written := by
    intro i b hb
    cases i with
    | zero =>
      cases hb
      exact mem_singleton_self _
    | succ i => cases hb
  distinct := by simp [blockUpload]
  own := by
    intro write hwrite
    rw [mem_singleton.mp hwrite]
    exact getKey_blobId impl ⟨blobId, 0⟩ 0 1 .dataVgProxy

/-! ## §3. GETs of a completed upload -/

def At (cluster : Cluster) (site : Nat → Site) (u : Nat) (op : Op) (ans : Ans op) : Prop :=
  ans = (cluster.serve .answered op (site u)).1

/-- From moment `t` on, `object` is stored at the key, its parts are what is listed, and their blobs
    are as in `stores`. -/
structure Frozen (cluster : Cluster) (site : Nat → Site) (t : Nat) (key : Bytes) (object : Layout)
    (parts : List (Nat × Layout)) (stores : BlobStores) : Prop where
  inode : ∀ u, t ≤ u → (site u).inodes[key]? = some (.layout object)
  page : ∀ u, t ≤ u →
    (cluster.listPage (site u).inodes 10000 (mpuGetPartPrefix key object.versionId 0) []).1
      = parts.map (partInode key object.versionId)
  blobs : ∀ u, t ≤ u → ∀ part ∈ parts, SameBlob part.2 stores (site u).stores

section

variable {cluster : Cluster} {site : Nat → Site} {t rounds : Nat} {key : Bytes}

theorem steady_getInode {value : Inode} (h : ∀ u, t ≤ u → (site u).inodes[key]? = some value) :
    Steady (At cluster site) t (perform (Op.getInode key)) (.ok (.ok value)) := by
  refine steady_perform fun u ans hu hans => ?_
  have hresp : ans = .ok ((site u).getResponse key) := hans
  rw [hresp, Site.getResponse, h u hu]

theorem sameCommittedReadSnapshot_self (layout : Layout) :
    sameCommittedReadSnapshot layout layout = true := by
  unfold sameCommittedReadSnapshot
  simp

variable {stores : BlobStores} {object : Layout}

theorem steady_fullPart {k : Bytes} {layout : Layout} {blocks : List Bytes}
    (hinode : ∀ u, t ≤ u → (site u).inodes[k]? = some (.layout layout))
    (hblobs : ∀ u, t ≤ u → SameBlob layout stores (site u).stores)
    (hwhole : Whole cluster.impl stores layout blocks) :
    Steady (At cluster site) t (fullPart rounds (k, layout)).run (.ok (blocks.map .ok)) := by
  obtain ⟨guid, core, hstate, hsize, hstored⟩ := hwhole.stored
  have hguid : layout.blobGuid = .ok guid := by
    unfold Layout.blobGuid
    rw [hstate]
  have hnumBlocks :
    layout.numBlocks = .ok ((core.size + layout.blockSize - 1) / layout.blockSize) := by
    unfold Layout.numBlocks
    rw [hwhole.size, hstate, ← hsize]
    rfl
  have hlocation : layout.getBlobLocation = .ok guid.location := by
    unfold Layout.getBlobLocation
    rw [hguid]
    rfl
  have hsource : blobSource k layout none
      = .ok ⟨k, layout, guid, (core.size + layout.blockSize - 1) / layout.blockSize, core.size,
        guid.location, none⟩ := by
    unfold blobSource
    rw [hguid, hnumBlocks, hwhole.size, ← hsize, hlocation]
    rfl
  have hreads : ReadsAs (At cluster site) t rounds ⟨cluster.impl, stores, .ok ()⟩
      ⟨k, layout, guid, (core.size + layout.blockSize - 1) / layout.blockSize, core.size,
        guid.location, none⟩ := by
    constructor
    · intro block version
      refine steady_perform fun u ans hu hans => ?_
      have hresp :
        ans = .ok ((site u).stores (cluster.impl.getKey guid block version guid.location)) := hans
      rw [hresp, hblobs u hu guid hguid _ (getKey_blobId ..)]
      rfl
    · have hread : Steady (At cluster site) t (getRawObject rounds k).run (.ok layout) :=
        steady_getRawObject (steady_getInode hinode)
      have hok : validated layout (.ok layout) = .ok () :=
        if_pos (sameCommittedReadSnapshot_self layout)
      rw [← hok]
      exact steady_validateBaseMiss hread
  have hstream := steady_getFullBlobStream hreads
  have hblocks := getFullBlobStream_blocks ⟨cluster.impl, stores, .ok ()⟩ guid guid.location
    (show 0 < defaultBlockSize by decide) hwhole.sliced hstored layout.blobVersion
  unfold fullPart
  rw [hsource]
  refine Steady.run_ok (x := orFail ObjectLayoutError.toS3Error _) (steady_done _) ?_
  rw [← hblocks, ← hwhole.blockSize, ← hsize]
  exact hstream

theorem Frozen.steady_list {parts : List (Nat × Layout)}
    (h : Frozen cluster site t key object parts stores)
    (hnumbers : ∀ part ∈ parts, IsPartNumber part.1) :
    Steady (At cluster site) t
      (listRawObjects rounds 10000 (mpuGetPartPrefix key object.versionId 0) []).run
        (.ok (parts.map (partEntry key object.versionId))) := by
  intro u t' r hu hobs
  obtain ⟨w, ans, hw, -, hans, rfl⟩ := observes_listRawObjects hobs
  have hresp :
    ans = .ok (.ok (cluster.listPage (site w).inodes 10000 (mpuGetPartPrefix key object.versionId 0)
    []).1 (cluster.listPage (site w).inodes 10000 (mpuGetPartPrefix key object.versionId 0)
      []).2) := hans
  rw [hresp, listResult, h.page w (hu.trans hw), rawObjects_parts hnumbers]
  rfl

theorem Frozen.steady_part {parts : List (Nat × Layout)}
    (h : Frozen cluster site t key object parts stores) {part : Nat × Layout} (hmem : part ∈ parts)
    {blocks : List Bytes} (hwhole : Whole cluster.impl stores part.2 blocks) :
    Steady (At cluster site) t (fullPart rounds (partEntry key object.versionId part)).run
      (.ok (blocks.map .ok)) := by
  refine steady_fullPart (fun u hu => ?_) (fun u hu => h.blobs u hu _ hmem) hwhole
  have hlisted : partInode key object.versionId part
      ∈ (cluster.listPage (site u).inodes 10000 (mpuGetPartPrefix key object.versionId 0)
        []).1 := by
    rw [h.page u hu]
    exact mem_map_of_mem hmem
  exact (mem_of_listPage hlisted).1

/-- ★ **A GET of a completed upload** whose parts are whole and do not change any more answers the
    blocks of the parts, in the order of the parts. -/
theorem steady_getObject {ι : Type} {core : ObjectCoreMetaData} {xs : List ι}
    {part : ι → Nat × Layout} {blocks : ι → List Bytes}
    (h : Frozen cluster site t key object (xs.map part) stores)
    (hstate : object.state = .mpu (.completed core)) (hparts : ∀ x ∈ xs, IsPartNumber (part x).1)
    (hwhole : ∀ x ∈ xs, Whole cluster.impl stores (part x).2 (blocks x)) :
    Steady (At cluster site) t (getObject rounds key fun _ => .ok none).run
      (.ok ((xs.flatMap blocks).map .ok)) := by
  have hsize : object.size = .ok core.size := by
    unfold Layout.size
    rw [hstate]
  have hread : Steady (At cluster site) t (getRawObject rounds key).run (.ok object) :=
    steady_getRawObject (steady_getInode h.inode)
  have hclient : Steady (At cluster site) t (perform Op.getBlobClient) true :=
    steady_perform fun u ans _ hans => hans
  have hnumbers : ∀ p ∈ xs.map part, IsPartNumber p.1 := by
    intro p hp
    obtain ⟨x, hx, rfl⟩ := mem_map.mp hp
    exact hparts x hx
  have hlist : Steady (At cluster site) t
      (listRawObjects rounds 10000 (mpuGetPartPrefix key object.versionId 0) []).run
      (.ok ((xs.map part).map (partEntry key object.versionId))) := h.steady_list hnumbers
  have hpart : ∀ x ∈ xs, Steady (At cluster site) t
      (fullPart rounds (partEntry key object.versionId (part x))).run (.ok ((blocks x).map .ok)) :=
    fun x hx => h.steady_part (mem_map_of_mem hx) (hwhole x hx)
  have hcontent : Steady (At cluster site) t (getObjectContent rounds key object).run
      (.ok ((xs.flatMap blocks).map .ok, core.size)) := by
    unfold getObjectContent
    refine hclient.run_lift.run_ok ?_
    rw [if_neg Bool.noConfusion, hstate]
    rw [map_map] at hlist
    refine hlist.run_ok ((steady_partsStream hpart).run_lift.run_ok ?_)
    rw [map_flatMap]
    exact steady_done _
  unfold getObject
  refine hread.run_ok ?_
  rw [hsize]
  exact Steady.run_ok (x := orFail _ _) (steady_done _) (hcontent.run_ok (steady_done _))

end

end FractalBits.Objects
