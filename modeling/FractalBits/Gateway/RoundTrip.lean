/-
  Gateway.RoundTrip — a PUT followed by a GET.
-/

import FractalBits.Gateway.PutObject

namespace FractalBits.Gateway

open Lib Streaming List
open OvrMap (Uuid OvrRowMap)

/-! ## §1. Keys of one upload -/

def BlobKey.block : BlobKey → UInt32
  | .vg _ block _ => block
  | .s3 _ block _ => block

def BlobKey.blobId : BlobKey → Uuid
  | .vg guid _ _ => guid.blobId
  | .s3 blobId _ _ => blobId

theorem putKey_block (impl : BlobStorageImpl) (guid : DataBlobGuid) (block : UInt32) (size : Nat) :
    (impl.putKey guid block size).block = block ∧ (impl.putKey guid block size).blobId
      = guid.blobId := by
  unfold BlobStorageImpl.putKey
  cases impl with
  | allInBssSingleAz => exact ⟨rfl, rfl⟩
  | hybridSingleAz allDataInS3 =>
    dsimp only
    split
    · exact ⟨rfl, rfl⟩
    · exact ⟨rfl, rfl⟩

theorem getElem?_blockWrites (env : PutEnv) (guid : DataBlobGuid) (blocks : List (List Bytes))
    (i : Nat) :
    (env.blockWrites guid blocks)[i]?
      = blocks[i]?.map (env.backend.createStorage.putBlobVectored guid (UInt32.ofNat i)) := by
  unfold PutEnv.blockWrites
  rw [List.getElem?_mapIdx]

theorem blockWrites_nodup (env : PutEnv) (guid : DataBlobGuid) {blocks : List (List Bytes)}
    (h : blocks.length ≤ 2 ^ 32) : ((env.blockWrites guid blocks).map Prod.fst).Nodup := by
  -- the block numbers already differ
  refine List.Nodup.of_map BlobKey.block ?_
  have hnumbers : ((env.blockWrites guid blocks).map Prod.fst).map BlobKey.block
      = (List.range blocks.length).map UInt32.ofNat := by
    refine ext_getElem? fun i => ?_
    rw [List.getElem?_map, List.getElem?_map, List.getElem?_map, getElem?_blockWrites]
    by_cases hi : i < blocks.length
    · rw [List.getElem?_eq_getElem hi, List.getElem?_range hi]
      simp only [Option.map_some, BlobStorageImpl.putBlobVectored, putKey_block]
    · rw [List.getElem?_eq_none (Nat.le_of_not_lt hi), List.getElem?_eq_none (by simpa using hi)]
      rfl
  rw [hnumbers]
  refine List.Nodup.map_on ?_ nodup_range
  intro i hi j hj heq
  have hi : i < 2 ^ 32 := by
    have := mem_range.mp hi
    omega
  have hj : j < 2 ^ 32 := by
    have := mem_range.mp hj
    omega
  have := congrArg UInt32.toNat heq
  rwa [UInt32.toNat_ofNat_of_lt' hi, UInt32.toNat_ofNat_of_lt' hj] at this

variable {env : PutEnv} {ctx : ObjectRequestContext} {guid : DataBlobGuid} {w : World}
  {out : PutOutcome} {content : Bytes}

variable (h : StoredAs env ctx guid w content out)

include h

theorem StoredAs.length_le
    (hlen : content.length ≤ 2 ^ 32 * defaultBlockSize) : out.blocks.length ≤ 2 ^ 32 := by
  have hstored := h.stored
  unfold PutOutcome.stored at hstored
  have hcount : (out.blocks.map List.flatten).length = out.blocks.length := length_map _
  rw [← hcount]
  obtain hsliced | hempty := h.blocks
  · have hbounds := (hsliced.bounds (by decide)).2
    rw [hstored] at hbounds
    by_contra hmore
    have hlower := hbounds (fun hnil => by rw [hnil] at hmore; exact hmore (Nat.zero_le _))
    have hmul :
      2 ^ 32 * defaultBlockSize ≤ defaultBlockSize *
      ((out.blocks.map List.flatten).length - 1) := by
      rw [Nat.mul_comm]
      exact Nat.mul_le_mul_left _ (by omega)
    omega
  · rw [hempty]
    decide

theorem StoredAs.stored_block
    (hlen : content.length ≤ 2 ^ 32 * defaultBlockSize) {i : Nat} {chunks : List Bytes}
    (hi : out.blocks[i]? = some chunks) :
    out.world.stores (env.backend.createStorage.putKey guid (UInt32.ofNat i) chunks.flatten.length)
      = some chunks.flatten := by
  have hperm := env.completed_perm (env.blockWrites guid out.blocks)
  rw [h.stores]
  refine writeAll_of_nodup _ ?_ ?_
  · exact (hperm.map Prod.fst).nodup_iff.mpr (blockWrites_nodup env guid (h.length_le hlen))
  · refine hperm.mem_iff.mpr (mem_of_getElem? (i := i) ?_)
    rw [getElem?_blockWrites, hi, Option.map_some, BlobStorageImpl.putBlobVectored, sum_lengths]

/-! ## §2. Reading back -/

/-- The stores hold the same under every key of the blob, and the key has the same layout: nothing
    else touched them. -/
structure Untouched (key : Bytes) (blobId : Uuid) (w w' : World) : Prop where
  inode : w'.inodes key = w.inodes key
  stores : ∀ k : BlobKey, k.blobId = blobId → w'.stores k = w.stores k

theorem StoredAs.placement (hvol : guid.volumeId ≠ s3Volume)
    (hlen : content.length ≤ 2 ^ 32 * defaultBlockSize) {i : Nat} {chunks : List Bytes}
    (hi : out.blocks[i]? = some chunks) :
    env.backend.createStorage.putKey guid (UInt32.ofNat i) chunks.flatten.length
      = env.backend.createStorage.getKey (assignLayoutVolume env.backend guid content.length)
          (UInt32.ofNat i) 1 (assignLayoutVolume env.backend guid content.length).location := by
  refine putKey_eq_getKey env.backend hvol ?_
  have hlt : i < 2 ^ 32 := by
    have := h.length_le hlen
    have := (List.getElem?_eq_some_iff.mp hi).1
    omega
  have hzero : UInt32.ofNat i = 0 ↔ i = 0 := by
    constructor
    · intro heq
      have := congrArg UInt32.toNat heq
      rwa [UInt32.toNat_ofNat_of_lt' hlt] at this
    · rintro rfl
      rfl
  have hmap : (out.blocks.map List.flatten)[i]? = some chunks.flatten := by
    rw [List.getElem?_map, hi]
    rfl
  rw [hzero, ← h.stored]
  unfold PutOutcome.stored
  obtain hsliced | hempty := h.blocks
  · exact first_small_iff hsliced hmap
  · -- one empty block
    rw [hempty] at hmap ⊢
    have hi0 : i = 0 := by
      by_contra hne
      rw [List.getElem?_eq_none (by simpa using Nat.one_le_iff_ne_zero.mpr hne)] at hmap
      cases hmap
    subst hi0
    have hnil : chunks.flatten = [] := by simpa using hmap.symm
    rw [hnil]
    simp [defaultBlockSize]

theorem StoredAs.read_blocks :
    ∃ items : List Bytes, Sliced defaultBlockSize items ∧ items.flatten = content ∧
      ∀ (i : Nat) (b : Bytes), items[i]? = some b →
        ∃ chunks, out.blocks[i]? = some chunks ∧ b = chunks.flatten := by
  have hcontent : (out.blocks.map List.flatten).flatten = content := h.stored
  obtain hsliced | hempty := h.blocks
  · refine ⟨_, hsliced, hcontent, fun i b hi => ?_⟩
    rw [List.getElem?_map] at hi
    obtain ⟨chunks, hchunks, rfl⟩ := Option.map_eq_some_iff.mp hi
    exact ⟨chunks, hchunks, rfl⟩
  · rw [hempty] at hcontent
    exact ⟨[], .nil, hcontent, fun i b hi => by simp at hi⟩

theorem StoredAs.inode_of_le (hlen : content.length ≤ 2 ^ 32 * defaultBlockSize) :
    ∃ headers checksum, out.world.inodes ctx.key = some
      (env.objectLayout guid content.length headers checksum) := by
  obtain ⟨size, headers, checksum, hsize, hinode⟩ := h.inode
  have hexact : size = content.length := by
    have hmax : 2 ^ 32 * defaultBlockSize < 2 ^ 64 := by decide
    rcases hsize with hsize | hsize
    · exact hsize
    · rw [hsize, Nat.mod_eq_of_lt (by omega)]
  rw [hexact] at hinode
  exact ⟨headers, checksum, hinode⟩

/-- ★ **What was stored is read back**, block by block. -/
theorem StoredAs.get (hvol : guid.volumeId ≠ s3Volume)
    (hlen : content.length ≤ 2 ^ 32 * defaultBlockSize) {w' : World}
    (hsame : Untouched ctx.key guid.blobId out.world w') :
    ∃ (layout : ObjectLayout) (items : List Bytes), w'.inodes ctx.key = some layout
      ∧ layout.size = content.length ∧
      (∀ i chunks, out.blocks[i]? = some chunks →
        env.backend.createStorage.putKey guid (UInt32.ofNat i) chunks.flatten.length
          = env.backend.createStorage.getKey layout.blobGuid (UInt32.ofNat i) 1
            layout.getBlobLocation) ∧
      (∀ validateBaseMiss loadRowMap,
        ReadContext.getObjectContent ⟨env.backend.createStorage, w'.stores, validateBaseMiss⟩
          loadRowMap layout = .ok (items.map .ok, content.length)) ∧
      items.flatten = content := by
  obtain ⟨headers, checksum, hinode⟩ := h.inode_of_le hlen
  have hplace : ∀ i chunks, out.blocks[i]? = some chunks → _ :=
    fun i chunks hi => h.placement hvol hlen hi
  obtain ⟨items, hsliced, hflat, hblocks⟩ := h.read_blocks
  refine ⟨_, items, hsame.inode.trans hinode, rfl, hplace, ?_, hflat⟩
  intro validateBaseMiss loadRowMap
  refine getObjectContent_unmapped _ loadRowMap rfl ?_
  have hget := getFullBlobStream_blocks ⟨env.backend.createStorage, w'.stores, validateBaseMiss⟩
    (assignLayoutVolume env.backend guid content.length)
    (assignLayoutVolume env.backend guid content.length).location (by decide) hsliced ?_ 1
  · rwa [hflat] at hget
  · intro i b hi
    obtain ⟨chunks, hchunks, rfl⟩ := hblocks i b hi
    show w'.stores (env.backend.createStorage.getKey _ _ _ _) = _
    rw [← hplace i chunks hchunks, hsame.stores _ (putKey_block ..).2]
    exact h.stored_block hlen hchunks

/-! ## §3. Unframed bodies -/

variable {fragments : List Bytes} {path : PutPath}

omit h in
theorem putVia_unframed {fuel : Nat} (hunframed : isStreamingRequest ctx.request.headers = false)
    (hpayload : ctx.payload = fragments.map .ok)
    (h : env.putVia fuel path ctx guid w = some (.ok out)) :
    StoredAs env ctx guid w fragments.flatten out := by
  cases path with
  | streaming =>
    obtain ⟨signatureInfo, o, -, hdrains, -, hstored⟩ := streaming_cases h
    rw [hunframed, hpayload] at hdrains
    rwa [hdrains.unique (drains_unframed env.crypto signatureInfo fragments)] at hstored
  | buffered =>
    obtain ⟨chunks, hchunks, hstored⟩ := buffered_cases h
    rwa [← ok_fragments (hpayload.symm.trans hchunks)] at hstored

omit h in
theorem putVia_answers (env : PutEnv) (guid : DataBlobGuid) (w : World) (path : PutPath)
    (hunframed : isStreamingRequest ctx.request.headers = false)
    (hpayload : ctx.payload = fragments.map .ok) :
    ∃ fuel r, env.putVia fuel path ctx guid w = some r := by
  cases path with
  | streaming =>
    show ∃ fuel r, env.putObjectStreamingInternal fuel ctx guid w = some r
    unfold PutEnv.putObjectStreamingInternal
    cases extractMetadataHeaders ctx.request.headers with
    | error e => exact ⟨0, _, rfl⟩
    | ok headers =>
    cases env.extractChunkSignatureContext ctx with
    | error e => exact ⟨0, _, rfl⟩
    | ok signatureInfo =>
    cases requestTrailerChecksumAlgorithm (ctx.request.headers.get (ascii "x-amz-trailer")) with
    | error e => exact ⟨0, _, rfl⟩
    | ok trailerAlgorithm =>
    dsimp only
    split
    · exact ⟨0, _, rfl⟩
    · -- both streams end
      obtain ⟨n, hn⟩ := drains_unframed env.crypto signatureInfo fragments
      obtain ⟨bs, ⟨m, hm⟩, -⟩ := collects_blocks (show 0 < defaultBlockSize by decide) fragments
      refine ⟨n + m, env.finishStreaming ctx guid w headers trailerAlgorithm
        ⟨fragments, .finished none⟩ (.ok bs), ?_⟩
      rw [hunframed, hpayload, drain_mono hn m]
      have hstream : Outcome.stream ⟨fragments, .finished none⟩ = fragments.map .ok := append_nil _
      show ((BlockDataStream.new (Outcome.stream _) defaultBlockSize).collect (n + m)).bind _ = _
      rw [hstream, Nat.add_comm n m, collect_mono hm n]
      rfl
  | buffered =>
    obtain ⟨blocks, hblocks, -⟩ := blocksOf_spec fragments
    refine ⟨0, env.finishBuffered ctx guid w fragments blocks, ?_⟩
    show env.putObjectWithNoTrailer ctx guid w = _
    unfold PutEnv.putObjectWithNoTrailer
    rw [hpayload, bufferPayload_map]
    dsimp only
    rw [hblocks]
    rfl

omit h in
/-- ★ **PUT, then GET.** For every backend, path, fragmentation of an unframed body of at most 2^32
    blocks and completion order: the PUT is answered, and if with a `200`, and nothing else touches
    the key and the blob, the layout has the body's size, every block is read where it was written,
    and a full GET returns the body. -/
theorem put_get_returns_body (env : PutEnv) (path : PutPath) (ctx : ObjectRequestContext)
    (guid : DataBlobGuid) (w : World) (fragments : List Bytes) (hvol : guid.volumeId ≠ s3Volume)
    (hunframed : isStreamingRequest ctx.request.headers = false)
    (hpayload : ctx.payload = fragments.map .ok)
    (hlen : fragments.flatten.length ≤ 2 ^ 32 * defaultBlockSize) :
    (∃ fuel r, env.putVia fuel path ctx guid w = some r) ∧
    ∀ fuel out w', env.putVia fuel path ctx guid w = some (.ok out) →
      Untouched ctx.key guid.blobId out.world w' →
      ∃ (layout : ObjectLayout) (items : List Bytes), w'.inodes ctx.key = some layout ∧
        layout.size = fragments.flatten.length ∧
        (∀ i chunks, out.blocks[i]? = some chunks →
          env.backend.createStorage.putKey guid (UInt32.ofNat i) chunks.flatten.length
            = env.backend.createStorage.getKey layout.blobGuid (UInt32.ofNat i) 1
              layout.getBlobLocation) ∧
        (∀ validateBaseMiss loadRowMap,
          ReadContext.getObjectContent ⟨env.backend.createStorage, w'.stores, validateBaseMiss⟩
            loadRowMap layout = .ok (items.map .ok, fragments.flatten.length)) ∧
        items.flatten = fragments.flatten := by
  refine ⟨putVia_answers env guid w path hunframed hpayload, ?_⟩
  intro fuel out w' hput hsame
  exact (putVia_unframed hunframed hpayload hput).get hvol hlen hsame

omit h in
theorem put_get_returns_body_sample :
    (∃ r, (plainEnv .s3HybridSingleAz).putVia 9 .streaming
      (plainContext [ascii "ab", [], ascii "c"]) ⟨1, 1⟩ emptyWorld = some (.ok r)) ∧
    ∀ fuel out w', (plainEnv .s3HybridSingleAz).putVia fuel .streaming
        (plainContext [ascii "ab", [], ascii "c"]) ⟨1, 1⟩ emptyWorld = some (.ok out) →
      Untouched (ascii "/k") 1 out.world w' →
      ∃ (layout : ObjectLayout) (items : List Bytes), w'.inodes (ascii "/k") = some layout
        ∧ layout.size = 3 ∧
        (∀ i chunks, out.blocks[i]? = some chunks →
          BlobStorageImpl.putKey (.hybridSingleAz false) ⟨1, 1⟩ (UInt32.ofNat i)
            chunks.flatten.length = BlobStorageImpl.getKey (.hybridSingleAz false) layout.blobGuid
                (UInt32.ofNat i) 1 layout.getBlobLocation) ∧
        (∀ validateBaseMiss loadRowMap,
          ReadContext.getObjectContent ⟨.hybridSingleAz false, w'.stores, validateBaseMiss⟩
            loadRowMap layout = .ok (items.map .ok, 3)) ∧
        items.flatten = ascii "abc" :=
  ⟨⟨_, rfl⟩, (put_get_returns_body (plainEnv .s3HybridSingleAz) .streaming
    (plainContext [ascii "ab", [], ascii "c"]) ⟨1, 1⟩ emptyWorld [ascii "ab", [], ascii "c"]
      (by decide)
    (by decide +kernel) rfl (by decide)).2⟩

/-! ## §4. One block too many -/

theorem StoredAs.wrapped (hbackend : env.backend = .allInBssSingleAz)
    (hcompleted : ∀ writes, env.completed writes = writes)
    (hlen : content.length = 2 ^ 32 * defaultBlockSize + 1) :
    ∃ b, content.getLast? = some b ∧ out.world.stores (.vg guid 0 1) = some [b] := by
  have hpos : 0 < defaultBlockSize := by decide
  have hcontent : (out.blocks.map List.flatten).flatten = content := h.stored
  obtain hsliced | hempty := h.blocks
  · -- there are `2 ^ 32 + 1` blocks, the last one of one byte
    have hcount : out.blocks.length = 2 ^ 32 + 1 := by
      have hlength := hsliced.length_eq hpos
      rw [length_map, hcontent, hlen] at hlength
      rw [hlength]
      decide
    obtain ⟨front, last, hblocks⟩ : ∃ front last, out.blocks = front ++ [last] := by
      refine ⟨out.blocks.dropLast, out.blocks.getLast (fun hnil => ?_),
        (dropLast_append_getLast _).symm⟩
      rw [hnil] at hcount
      cases hcount
    have hfront : front.length = 2 ^ 32 := by
      rw [hblocks, length_append, length_singleton] at hcount
      omega
    have hone : last.flatten.length = 1 := by
      have hget : (out.blocks.map List.flatten)[front.length]? = some last.flatten := by
        rw [hblocks, map_append, List.getElem?_append_right (by simp)]
        simp
      rw [hsliced.get_length hget, hcontent, hlen, length_map, hcount, hfront, if_pos rfl,
        Nat.mul_comm defaultBlockSize]
      omega
    obtain ⟨b, hb⟩ := length_eq_one_iff.mp hone
    refine ⟨b, ?_, ?_⟩
    · rw [← hcontent, hblocks, map_append, flatten_append]
      simp [hb]
    · have hwrites : env.blockWrites guid out.blocks
          = env.blockWrites guid front ++ [(.vg guid 0 1, [b])] := by
        unfold PutEnv.blockWrites
        rw [hblocks, mapIdx_append, hbackend, mapIdx_singleton, Nat.zero_add, hfront]
        simp only [BlobStorageImpl.putBlobVectored, hb]
        rfl
      rw [h.stores, hcompleted, hwrites]
      exact writeAll_last ..
  · rw [hempty] at hcontent
    rw [← hcontent] at hlen
    cases hlen

omit h in
theorem plain_put_ok (backend : BlobStorageBackend) (guid : DataBlobGuid) (w : World)
    (fragments : List Bytes) :
    ∃ fuel out, (plainEnv backend).putVia fuel .streaming (plainContext fragments) guid w = some
      (.ok out) := by
  obtain ⟨n, hn⟩ := drains_unframed (plainEnv backend).crypto none fragments
  obtain ⟨bs, ⟨m, hm⟩, -⟩ := collects_blocks (show 0 < defaultBlockSize by decide) fragments
  have hanswer : (plainEnv backend).putVia (n + m) .streaming (plainContext fragments) guid w
      = some ((plainEnv backend).finishStreaming (plainContext fragments) guid w [] none
          ⟨fragments, .finished none⟩ (.ok bs)) := by
    show (drain _ (n + m) (.start false none (fragments.map .ok))).bind _ = _
    rw [drain_mono hn m]
    have hstream : Outcome.stream ⟨fragments, .finished none⟩ = fragments.map .ok := append_nil _
    show ((BlockDataStream.new (Outcome.stream _) defaultBlockSize).collect (n + m)).bind _ = _
    rw [hstream, Nat.add_comm n m, collect_mono hm n]
    rfl
  have hput : (plainEnv backend).putBlocks guid bs w.stores
      = .ok (writeAll w.stores ((plainEnv backend).blockWrites guid bs)) := by
    unfold PutEnv.putBlocks
    exact if_pos (all_eq_true.mpr fun _ _ => rfl)
  have hfinish : ∃ out, (plainEnv backend).finishStreaming (plainContext fragments) guid w [] none
      ⟨fragments, .finished none⟩ (.ok bs) = .ok out := by
    unfold PutEnv.finishStreaming
    dsimp only
    rw [hput, show (plainContext fragments).checksumValue = none from rfl, checksumTask_none]
    exact ⟨_, rfl⟩
  obtain ⟨out, hout⟩ := hfinish
  exact ⟨n + m, out, by rw [hanswer, hout]⟩

def hugeBody : Bytes := List.replicate (2 ^ 32 * defaultBlockSize) 0 ++ [1]

omit h in
theorem hugeBody_length : hugeBody.length = 2 ^ 32 * defaultBlockSize + 1 := by
  unfold hugeBody
  rw [length_append, length_replicate, length_singleton]

omit h in
theorem hugeBody_head : hugeBody.head? = some 0 := by
  unfold hugeBody
  rw [List.head?_append, List.head?_replicate, if_neg (by decide)]
  rfl

omit h in
theorem put_get_wraps :
    isStreamingRequest (plainContext [hugeBody]).request.headers = false ∧
    ∃ fuel out layout, (plainEnv .allInBssSingleAz).putVia fuel .streaming (plainContext [hugeBody])
        ⟨1, 1⟩ emptyWorld = some (.ok out) ∧
      out.world.inodes (ascii "/k") = some layout ∧
      ∀ validateBaseMiss loadRowMap items size,
        ReadContext.getObjectContent ⟨.allInBssSingleAz, out.world.stores, validateBaseMiss⟩
          loadRowMap layout = .ok (List.map .ok items, size) → items.flatten ≠ hugeBody := by
  refine ⟨by decide +kernel, ?_⟩
  obtain ⟨fuel, out, hput⟩ := plain_put_ok .allInBssSingleAz ⟨1, 1⟩ emptyWorld [hugeBody]
  have hstored : StoredAs (plainEnv .allInBssSingleAz) (plainContext [hugeBody]) ⟨1, 1⟩ emptyWorld
    hugeBody out := by
    have hunframed : (plainContext [hugeBody]).payload = [hugeBody].map .ok := rfl
    have := putVia_unframed rfl hunframed hput
    rwa [flatten_singleton] at this
  obtain ⟨b, hlast, hblock⟩ := hstored.wrapped rfl (fun _ => rfl) hugeBody_length
  obtain ⟨size, headers, checksum, hsize, hinode⟩ := hstored.inode
  have hsize : size = 2 ^ 32 * defaultBlockSize + 1 := by
    rw [hugeBody_length] at hsize
    rcases hsize with hsize | hsize
    · exact hsize
    · rw [hsize]
      decide
  generalize hlayout : (plainEnv .allInBssSingleAz).objectLayout ⟨1, 1⟩ size headers checksum
    = layout at hinode
  refine ⟨fuel, out, layout, hput, hinode, ?_⟩
  intro validateBaseMiss loadRowMap items total hget heq
  -- the first item is what block 0 was overwritten with
  have hfirst : ∃ rest, ReadContext.getFullBlobStream ⟨.allInBssSingleAz, out.world.stores,
      validateBaseMiss⟩ layout.blobGuid layout.numBlocks layout.size layout.blockSize
        layout.getBlobLocation none
      layout.blobVersion = .ok (.ok [b] :: rest) := by
    subst hlayout hsize
    refine getFullBlobStream_first _ ?_ (readBlock_stored _ ?_ ?_ _ _)
    · show (2 ^ 32 * defaultBlockSize + 1 + defaultBlockSize - 1) / defaultBlockSize ≠ 0
      decide
    · exact hblock
    · rw [length_singleton]
      split
      · exact Nat.le_add_left 1 _
      · show 1 ≤ defaultBlockSize
        decide
  obtain ⟨rest, hfirst⟩ := hfirst
  rw [getObjectContent_unmapped _ loadRowMap (by rw [← hlayout]; rfl) hfirst] at hget
  injection hget with hget
  injection hget with hitems
  cases items with
  | nil => cases hitems
  | cons item items =>
    rw [map_cons] at hitems
    injection hitems with hitem
    injection hitem with hitem
    -- the body starts with a zero and ends with a one
    have hb : b = 1 := by
      unfold hugeBody at hlast
      rw [List.getLast?_append] at hlast
      simpa using hlast.symm
    have hhead := hugeBody_head
    rw [← heq, ← hitem, hb, flatten_cons] at hhead
    exact absurd hhead (by simp)

end FractalBits.Gateway
