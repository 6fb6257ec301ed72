/-
  Gateway.RangeRead — reading a range of a blob.

  Mirrors `get_range_blob_stream` of `get_object.rs`. Where the code subtracts or slices, a result
  that would be out of bounds is a fault.
-/

import FractalBits.Gateway.GetObject

namespace FractalBits.Gateway

open Lib List
open OvrMap (OvrRowMap)

/-! ## §1. The stream -/

/-- In place of bytes: an error of the source, or the end of the task, where an index or a
    difference is out of bounds. -/
inductive Fault
  | panic
  | s3 (e : S3Error)
  deriving DecidableEq, Repr

def checkedSub (a b : Nat) : Except Fault Nat := if b ≤ a then .ok (a - b) else .error .panic

def sliceOf (chunk : Bytes) (start stop : Nat) : Except Fault Bytes :=
  if start ≤ stop ∧ stop ≤ chunk.length then .ok ((chunk.take stop).drop start) else .error .panic

def contentLen (numBlocks objectSize blockSize i : Nat) : Except Fault Nat := do
  let last ← checkedSub numBlocks 1
  if i = last then checkedSub objectSize (blockSize * i) else return blockSize

def trimChunk (start stop chunkOffset : Nat) (chunk : Bytes) :
    Except Fault (Option (Option Bytes)) :=
  if chunkOffset ≥ stop then return none
  else if chunkOffset + chunk.length ≤ start then return some none
  else do
    let startInChunk := start - chunkOffset  -- `saturating_sub`
    let endInChunk ←
      if chunkOffset + chunk.length < stop then pure chunk.length
      else checkedSub stop chunkOffset
    let piece ← sliceOf chunk startInChunk endInChunk
    return some (some piece)

def scanChunks (start stop : Nat) : Nat → List (Except Fault Bytes) → List (Except Fault Bytes)
  | _, [] => []
  | _, .error .panic :: _ => [.error .panic]
  | chunkOffset, .error (.s3 e) :: chunks =>
    .error (.s3 e) :: scanChunks start stop chunkOffset chunks
  | chunkOffset, .ok chunk :: chunks =>
    match trimChunk start stop chunkOffset chunk with
    | .error e => [.error e]
    | .ok none => []
    | .ok (some none) => scanChunks start stop (chunkOffset + chunk.length) chunks
    | .ok (some (some piece)) =>
      .ok piece :: scanChunks start stop (chunkOffset + chunk.length) chunks

def rangeStream (read : UInt32 → Nat → Except S3Error Bytes)
    (blockSize objectSize numBlocks start stop : Nat) :
    Except Fault (List (Except Fault Bytes)) :=
  if blockSize = 0 then .error .panic  -- the division by the block size
  else do
    let last ← checkedSub stop 1
    let startBlock := start / blockSize
    let endBlock := last / blockSize
    let chunks := (List.range' startBlock (endBlock + 1 - startBlock)).map fun i => do
      let len ← contentLen numBlocks objectSize blockSize i
      (read (UInt32.ofNat i) len).mapError .s3
    return scanChunks start stop (blockSize * startBlock) chunks

def ReadContext.getRangeBlobStream (ctx : ReadContext) (guid : DataBlobGuid)
    (blockSize objectSize numBlocks start stop : Nat) (location : BlobLocation)
    (rows : Option OvrRowMap) (ceiling : UInt64) : Except Fault (List (Except Fault Bytes)) :=
  rangeStream (fun block len => ctx.readBlock guid block len blockSize location rows ceiling)
    blockSize objectSize numBlocks start stop

/-! ## §2. The scan -/

section

variable {start stop : Nat}

theorem checkedSub_ok {a b : Nat} (h : b ≤ a) : checkedSub a b = .ok (a - b) := if_pos h

theorem trimChunk_inside {chunkOffset : Nat} {chunk : Bytes} (hrange : start ≤ stop)
    (hstop : chunkOffset < stop) (hstart : start < chunkOffset + chunk.length) :
    trimChunk start stop chunkOffset chunk
      = .ok (some (some ((chunk.take (stop - chunkOffset)).drop (start - chunkOffset)))) := by
  unfold trimChunk
  rw [if_neg (by omega), if_neg (by omega)]
  by_cases hend : chunkOffset + chunk.length < stop
  · have hslice : sliceOf chunk (start - chunkOffset) chunk.length
        = .ok ((chunk.take chunk.length).drop (start - chunkOffset)) := if_pos ⟨by omega, le_rfl⟩
    rw [if_pos hend]
    show (sliceOf chunk (start - chunkOffset) chunk.length >>= _) = _
    rw [hslice, take_length, take_of_length_le (show chunk.length ≤ stop - chunkOffset by omega)]
    rfl
  · have hslice : sliceOf chunk (start - chunkOffset) (stop - chunkOffset)
        = .ok ((chunk.take (stop - chunkOffset)).drop (start - chunkOffset)) :=
          if_pos ⟨by omega, by omega⟩
    rw [if_neg hend, checkedSub_ok (Nat.le_of_lt hstop)]
    show (sliceOf chunk (start - chunkOffset) (stop - chunkOffset) >>= _) = _
    rw [hslice]
    rfl

theorem scanChunks_ok (hrange : start ≤ stop) (chunkOffset : Nat) (chunks : List Bytes) :
    ∃ pieces : List Bytes, scanChunks start stop chunkOffset (chunks.map .ok) = pieces.map .ok
      ∧ pieces.flatten = (chunks.flatten.take (stop - chunkOffset)).drop (start - chunkOffset) := by
  induction chunks generalizing chunkOffset with
  | nil => exact ⟨[], rfl, by simp⟩
  | cons chunk chunks ih =>
    obtain ⟨pieces, hscan, hpieces⟩ := ih (chunkOffset + chunk.length)
    rw [map_cons, scanChunks]
    by_cases hend : chunkOffset ≥ stop
    · -- behind the range: the scan stops, and nothing of the rest belongs to it
      have htrim : trimChunk start stop chunkOffset chunk = .ok none := if_pos hend
      rw [htrim]
      refine ⟨[], rfl, ?_⟩
      rw [Nat.sub_eq_zero_of_le hend]
      simp
    · rw [flatten_cons, interval_append, ← hpieces]
      by_cases hbefore : chunkOffset + chunk.length ≤ start
      · -- before the range: the chunk is skipped
        have htrim : trimChunk start stop chunkOffset chunk = .ok (some none) := by
          unfold trimChunk
          rw [if_neg hend, if_pos hbefore]
          rfl
        have hnone : (chunk.take (stop - chunkOffset)).drop (start - chunkOffset) = [] := by
          apply drop_eq_nil_of_le
          rw [length_take]
          omega
        rw [htrim, hnone, nil_append]
        exact ⟨pieces, hscan, rfl⟩
      · -- the chunk meets the range, and both bounds are inside it
        rw [trimChunk_inside hrange (by omega) (by omega)]
        refine ⟨(chunk.take (stop - chunkOffset)).drop (start - chunkOffset) :: pieces, ?_,
          flatten_cons⟩
        show Except.ok _ :: scanChunks start stop (chunkOffset + chunk.length) (chunks.map .ok) = _
        rw [hscan]
        rfl

end

/-! ## §3. Blocks -/

def blockLen (objectSize blockSize i : Nat) : Nat :=
  if i + 1 = (objectSize + blockSize - 1) / blockSize then objectSize - blockSize * i else blockSize

section

variable {objectSize blockSize : Nat}

theorem numBlocks_bounds (hpos : 0 < blockSize) (hsize : 0 < objectSize) :
    blockSize * ((objectSize + blockSize - 1) / blockSize - 1) < objectSize
      ∧ objectSize ≤ blockSize * ((objectSize + blockSize - 1) / blockSize)
      ∧ 0 < (objectSize + blockSize - 1) / blockSize := by
  have hquot : (objectSize + blockSize - 1) / blockSize = (objectSize - 1) / blockSize + 1 := by
    rw [show objectSize + blockSize - 1 = (objectSize - 1) + blockSize by omega, Nat.add_div_right _
      hpos]
  have hdiv := Nat.div_add_mod (objectSize - 1) blockSize
  have hmod := Nat.mod_lt (objectSize - 1) hpos
  rw [hquot, Nat.add_sub_cancel, Nat.mul_add, Nat.mul_one]
  exact ⟨by omega, by omega, Nat.succ_pos _⟩

theorem contentLen_eq (hpos : 0 < blockSize) (hsize : 0 < objectSize) {i : Nat}
    (hi : i < (objectSize + blockSize - 1) / blockSize) :
    contentLen ((objectSize + blockSize - 1) / blockSize) objectSize blockSize i
      = .ok (blockLen objectSize blockSize i) := by
  obtain ⟨hlow, -, hblocks⟩ := numBlocks_bounds hpos hsize
  unfold contentLen blockLen
  rw [checkedSub_ok hblocks]
  show (if i = _ - 1 then checkedSub objectSize (blockSize * i) else pure blockSize) = _
  by_cases hlast : i = (objectSize + blockSize - 1) / blockSize - 1
  · rw [if_pos hlast, if_pos (by omega)]
    rw [← hlast] at hlow
    exact checkedSub_ok (Nat.le_of_lt hlow)
  · rw [if_neg hlast, if_neg (by omega)]
    rfl

theorem sliced_blocks (hpos : 0 < blockSize) (hsize : 0 < objectSize) {body : Nat → Bytes}
    (hlen : ∀ i < (objectSize + blockSize - 1) / blockSize, (body i).length = blockLen objectSize
    blockSize i) :
    Sliced blockSize ((List.range ((objectSize + blockSize - 1) / blockSize)).map body)
      ∧ ((List.range ((objectSize + blockSize - 1) / blockSize)).map body).flatten.length
        = objectSize := by
  obtain ⟨hlow, hhigh, hblocks⟩ := numBlocks_bounds hpos hsize
  obtain ⟨n, hn⟩ : ∃ n, (objectSize + blockSize - 1) / blockSize = n + 1 :=
    ⟨_, (Nat.succ_pred_eq_of_pos hblocks).symm⟩
  unfold blockLen at hlen
  rw [hn] at hlow hhigh hlen ⊢
  rw [Nat.add_sub_cancel] at hlow
  rw [Nat.mul_add, Nat.mul_one] at hhigh
  have hfull : ∀ b ∈ (List.range n).map body, b.length = blockSize := by
    intro b hb
    obtain ⟨i, hi, rfl⟩ := mem_map.mp hb
    have hi : i < n := mem_range.mp hi
    rw [hlen i (by omega), if_neg (by omega)]
  have hlast : (body n).length = objectSize - blockSize * n := by
    rw [hlen n (by omega), if_pos rfl]
  rw [range_succ, map_append, map_singleton]
  have hsliced : Sliced blockSize ((List.range n).map body ++ [body n]) :=
    Sliced.snoc hfull (by omega) (by omega)
  refine ⟨hsliced, ?_⟩
  have hcount : ((List.range n).map body).length = n := by simp
  have hfront := hsliced.length_take (k := n) (by simp)
  rw [take_left' hcount] at hfront
  rw [flatten_append, length_append, hfront, flatten_singleton, hlast]
  omega

theorem take_drop_range {n first count : Nat} (h : first + count ≤ n) :
    ((List.range n).drop first).take count = List.range' first count := by
  obtain ⟨rest, rfl⟩ := Nat.exists_eq_add_of_le h
  rw [range_eq_range', drop_range', Nat.zero_add, Nat.mul_one,
    show first + count + rest - first = count + rest by omega, ← List.range'_append_1,
    take_left' length_range']

/-- ★ **The stream of a range** is a slice of the blocks, if every block that it reads is read and
    has the length asked for. -/
theorem rangeStream_slice (read : UInt32 → Nat → Except S3Error Bytes) (hpos : 0 < blockSize)
    {start stop : Nat} (hlt : start < stop) (hle : stop ≤ objectSize) {body : Nat → Bytes}
    (hread : ∀ i < (objectSize + blockSize - 1) / blockSize,
      read (UInt32.ofNat i) (blockLen objectSize blockSize i) = .ok (body i)
        ∧ (body i).length = blockLen objectSize blockSize i) :
    ∃ pieces : List Bytes,
      rangeStream read blockSize objectSize ((objectSize + blockSize - 1) / blockSize) start stop
        = .ok (pieces.map .ok)
      ∧ pieces.flatten
        = (((List.range ((objectSize + blockSize - 1) / blockSize)).map body).flatten.take
          stop).drop start := by
  have hsize : 0 < objectSize := by omega
  obtain ⟨hsliced, htotal⟩ := sliced_blocks hpos hsize fun i hi => (hread i hi).2
  obtain ⟨-, hhigh, -⟩ := numBlocks_bounds hpos hsize
  generalize hnum : (objectSize + blockSize - 1) / blockSize = numBlocks at *
  -- the blocks of the range are blocks of the object
  have hstart : start / blockSize ≤ (stop - 1) / blockSize := Nat.div_le_div_right (by omega)
  have hend : (stop - 1) / blockSize < numBlocks :=
    (Nat.div_lt_iff_lt_mul hpos).mpr (by rw [Nat.mul_comm]; omega)
  have hchunks :
    (List.range' (start / blockSize) ((stop - 1) / blockSize + 1 - start / blockSize)).map
    (fun i => do
        let len ← contentLen numBlocks objectSize blockSize i
        (read (UInt32.ofNat i) len).mapError Fault.s3)
      = ((((List.range numBlocks).map body).drop (start / blockSize)).take
          ((stop - 1) / blockSize + 1 - start / blockSize)).map Except.ok := by
    rw [← map_drop, ← map_take, take_drop_range (by omega), map_map]
    refine map_congr_left fun i hi => ?_
    have hi : i < numBlocks := by
      have hbounds := mem_range'_1.mp hi
      omega
    have hlen := contentLen_eq hpos hsize (by rw [hnum]; exact hi)
    rw [hnum] at hlen
    show (contentLen numBlocks objectSize blockSize i >>= _) = _
    rw [hlen]
    show (read (UInt32.ofNat i) (blockLen objectSize blockSize i)).mapError Fault.s3 = _
    rw [(hread i hi).1]
    rfl
  obtain ⟨pieces, hscan, hpieces⟩ :=
    scanChunks_ok (Nat.le_of_lt hlt) (blockSize * (start / blockSize))
      ((((List.range numBlocks).map body).drop (start / blockSize)).take
      ((stop - 1) / blockSize + 1 - start / blockSize))
  refine ⟨pieces, ?_, ?_⟩
  · unfold rangeStream
    rw [if_neg (Nat.ne_of_gt hpos), checkedSub_ok (by omega)]
    show Except.ok (scanChunks start stop _ _) = _
    rw [hchunks, hscan]
  · rw [hpieces]
    refine hsliced.cut (Nat.mul_div_le start blockSize) ?_ ?_ (by omega) (by omega)
    · have hdiv := Nat.div_add_mod (stop - 1) blockSize
      have hmod := Nat.mod_lt (stop - 1) hpos
      rw [Nat.mul_add, Nat.mul_one]
      omega
    · rw [length_map, length_range]
      omega

/-- ★ **A range GET is a slice of the full GET**, for the same blob, rows and ceiling, if every
    block is read and has the length asked for. -/
theorem range_get_is_slice (ctx : ReadContext) (guid : DataBlobGuid) (location : BlobLocation)
    (rows : Option OvrRowMap) (ceiling : UInt64) (hpos : 1 ≤ blockSize) {start stop : Nat}
    (hlt : start < stop) (hle : stop ≤ objectSize)
    (hread : ∀ i < (objectSize + blockSize - 1) / blockSize, ∃ body : Bytes,
      ctx.readBlock guid (UInt32.ofNat i) (blockLen objectSize blockSize i) blockSize location rows
        ceiling = .ok body
        ∧ body.length = blockLen objectSize blockSize i) :
    ∃ whole pieces : List Bytes,
      ctx.getFullBlobStream guid ((objectSize + blockSize - 1) / blockSize) objectSize blockSize
        location rows ceiling = .ok (whole.map .ok)
      ∧ ctx.getRangeBlobStream guid blockSize objectSize ((objectSize + blockSize - 1) / blockSize)
        start stop location rows ceiling = .ok (pieces.map .ok)
      ∧ pieces.flatten = (whole.flatten.take stop).drop start := by
  -- the blocks as one list, for both streams
  choose! body hbody using hread
  obtain ⟨hsliced, htotal⟩ := sliced_blocks hpos (show 0 < objectSize by omega) fun i hi =>
    (hbody i hi).2
  obtain ⟨pieces, hstream, hpieces⟩ := rangeStream_slice
    (fun block len => ctx.readBlock guid block len blockSize location rows ceiling) hpos hlt hle
      hbody
  refine ⟨_, pieces, ?_, hstream, hpieces⟩
  have hblocks : ∀ i b, ((List.range ((objectSize + blockSize - 1) / blockSize)).map body)[i]?
    = some b →
      ctx.readBlock guid (UInt32.ofNat i) (blockLen objectSize blockSize i) blockSize location rows
        ceiling = .ok b := by
    intro i b hi
    obtain ⟨hlen, rfl⟩ := List.getElem?_eq_some_iff.mp hi
    rw [length_map, length_range] at hlen
    rw [getElem_map, getElem_range]
    exact (hbody i hlen).1
  have hfull := getFullBlobStream_reads ctx guid location rows hpos hsliced
    (by rw [htotal, length_map, length_range]; exact hblocks)
  rw [htotal] at hfull
  exact hfull

def sampleContext : ReadContext where
  impl := .allInBssSingleAz
  stores
    | .vg _ block _ => some [block.toUInt8, 7]
    | .s3 _ _ _ => none
  validateBaseMiss := .ok ()

theorem range_get_is_slice_at_sample :
    (1 ≤ 2 ∧ 1 < 5 ∧ 5 ≤ 5) ∧ ∃ whole pieces : List Bytes,
      sampleContext.getFullBlobStream ⟨1, 0⟩ 3 5 2 .dataVgProxy none 1 = .ok (whole.map .ok)
      ∧ sampleContext.getRangeBlobStream ⟨1, 0⟩ 2 5 3 1 5 .dataVgProxy none 1 = .ok (pieces.map .ok)
      ∧ pieces.flatten = (whole.flatten.take 5).drop 1 := by
  have hread : ∀ i < (5 + 2 - 1) / 2, ∃ body : Bytes,
      sampleContext.readBlock ⟨1, 0⟩ (UInt32.ofNat i) (blockLen 5 2 i) 2 .dataVgProxy none 1 = .ok
        body
        ∧ body.length = blockLen 5 2 i := by
    intro i hi
    match i, hi with
    | 0, _ => exact ⟨[0, 7], rfl, rfl⟩
    | 1, _ => exact ⟨[1, 7], rfl, rfl⟩
    | 2, _ => exact ⟨[2], rfl, rfl⟩
  exact ⟨by decide, range_get_is_slice sampleContext ⟨1, 0⟩ .dataVgProxy none 1 (by decide)
    (by decide) (by decide) hread⟩

end

end FractalBits.Gateway
