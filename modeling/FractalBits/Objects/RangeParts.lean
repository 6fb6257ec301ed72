/-
  Objects.RangeParts — a range of a completed multipart upload.

  Mirrors the `Mpu` case of `get_object_range_content` in `get_object.rs`: a running offset over the
  parts finds those that the range meets, and each of them is read by `get_range_blob_stream`.
-/

import FractalBits.Objects.Observed

namespace FractalBits.Objects

open Lib Streaming Gateway List
open OvrMap (Uuid OvrRowMap)

/-! ## §1. The parts of a range -/

section

variable (read : Bytes × Layout → UInt32 → Nat → Except S3Error Bytes)

def partRange (part : (Bytes × Layout) × Nat × Nat) : Except Fault (List (Except Fault Bytes)) := do
  let src ← (blobSource part.1.1 part.1.2 none).mapError fun e => Fault.s3 e.toS3Error
  rangeStream (read part.1) src.blockSize src.size src.numBlocks part.2.1 part.2.2

def rangeItems : List ((Bytes × Layout) × Nat × Nat) → List (Except Fault Bytes)
  | [] => []
  | part :: parts =>
    match partRange read part with
    | .error .panic => [.error .panic]
    | .error (.s3 e) => .error (.s3 e) :: rangeItems parts
    | .ok items => items ++ rangeItems parts

structure PartStored (part : Bytes × Layout) (body : Bytes) : Prop where
  pos : 1 ≤ part.2.blockSize
  state : ∃ guid core, part.2.state = .normal guid core ∧ core.size = body.length
  blocks : ∃ block : Nat → Bytes,
    (∀ i < (body.length + part.2.blockSize - 1) / part.2.blockSize,
      read part (UInt32.ofNat i) (blockLen body.length part.2.blockSize i) = .ok (block i)
        ∧ (block i).length = blockLen body.length part.2.blockSize i)
      ∧ body = ((List.range ((body.length + part.2.blockSize - 1) / part.2.blockSize)).map
        block).flatten

end

/-! ## §2. One part -/

section

variable {read : Bytes × Layout → UInt32 → Nat → Except S3Error Bytes} {part : Bytes × Layout}
    {body : Bytes}

theorem PartStored.size (h : PartStored read part body) : part.2.size = .ok body.length := by
  obtain ⟨guid, core, hstate, hsize⟩ := h.state
  unfold Layout.size
  rw [hstate, ← hsize]

theorem PartStored.partRange_slice (h : PartStored read part body) {start stop : Nat}
    (hlt : start < stop) (hle : stop ≤ body.length) :
    ∃ pieces : List Bytes, partRange read (part, start, stop) = .ok (pieces.map .ok)
      ∧ pieces.flatten = (body.take stop).drop start := by
  obtain ⟨guid, core, hstate, hsize⟩ := h.state
  obtain ⟨block, hread, hbody⟩ := h.blocks
  obtain ⟨pieces, hstream, hpieces⟩ := rangeStream_slice (read part) h.pos hlt hle hread
  rw [← hbody] at hpieces
  refine ⟨pieces, ?_, hpieces⟩
  have hsource : blobSource part.1 part.2 none = .ok ⟨part.1, part.2, guid,
      (body.length + part.2.blockSize - 1) / part.2.blockSize, body.length, guid.location,
        none⟩ := by
    unfold blobSource Layout.getBlobLocation Layout.blobGuid Layout.numBlocks
    rw [h.size, hstate]
    rfl
  unfold partRange
  rw [hsource]
  exact hstream

end

/-! ## §3. All parts -/

section

variable {read : Bytes × Layout → UInt32 → Nat → Except S3Error Bytes}
  {body : Bytes × Layout → Bytes} {start stop : Nat}

def NoEmptyInside (body : Bytes × Layout → Bytes) (start stop offset : Nat)
    (parts : List (Bytes × Layout)) : Prop :=
  ∀ front part back, parts = front ++ part :: back → body part = [] →
    offset + (front.flatMap body).length ≤ start ∨ stop ≤ offset + (front.flatMap body).length

variable {part : Bytes × Layout}

theorem NoEmptyInside.tail {offset : Nat} {parts : List (Bytes × Layout)}
    (h : NoEmptyInside body start stop offset (part :: parts)) :
    NoEmptyInside body start stop (offset + (body part).length) parts := by
  intro front part' back hsplit hempty
  have hcons := h (part :: front) part' back (by rw [hsplit, cons_append]) hempty
  rw [flatMap_cons, length_append] at hcons
  omega

/-- What the ranges of the parts are to be: non-empty, inside their parts, and together the bytes of
    the range. -/
structure Slices (read : Bytes × Layout → UInt32 → Nat → Except S3Error Bytes)
    (body : Bytes × Layout → Bytes) (blobs : List ((Bytes × Layout) × Nat × Nat))
    (bytes : Bytes) : Prop where
  within : ∀ blob ∈ blobs, blob.2.1 < blob.2.2 ∧ blob.2.2 ≤ (body blob.1).length
  items : ∃ pieces : List Bytes, rangeItems read blobs = pieces.map .ok ∧ pieces.flatten = bytes

theorem Slices.nil : Slices read body [] [] := ⟨fun _ h => absurd h not_mem_nil, [], rfl, rfl⟩

theorem Slices.cons {blobs : List ((Bytes × Layout) × Nat × Nat)} {bytes : Bytes}
    (h : Slices read body blobs bytes) (hpart : PartStored read part (body part))
    {blobStart blobEnd : Nat} (hlt : blobStart < blobEnd) (hle : blobEnd ≤ (body part).length) :
    Slices read body ((part, blobStart, blobEnd) :: blobs)
      (((body part).take blobEnd).drop blobStart ++ bytes) := by
  obtain ⟨pieces, hitems, hpieces⟩ := h.items
  obtain ⟨first, hfirst, hslice⟩ := hpart.partRange_slice hlt hle
  constructor
  · intro blob hblob
    rcases mem_cons.mp hblob with rfl | hblob
    · exact ⟨hlt, hle⟩
    · exact h.within blob hblob
  · refine ⟨first ++ pieces, ?_, by rw [flatten_append, hslice, hpieces]⟩
    rw [rangeItems, hfirst, hitems, map_append]

theorem intersectParts_slices {parts : List (Bytes × Layout)} (hlt : start < stop) (offset : Nat)
    (hparts : ∀ part ∈ parts, PartStored read part (body part))
    (hempty : NoEmptyInside body start stop offset parts) :
    ∃ blobs, intersectParts start stop offset parts = .ok blobs
      ∧ Slices read body blobs (((parts.flatMap body).take (stop - offset)).drop
        (start - offset)) := by
  induction parts generalizing offset with
  | nil => exact ⟨[], rfl, by simpa using Slices.nil⟩
  | cons part parts ih =>
    have hpart := hparts part mem_cons_self
    obtain ⟨blobs, hrest, hslices⟩ := ih (offset + (body part).length)
      (fun p hp => hparts p (mem_cons_of_mem _ hp)) hempty.tail
    rw [intersectParts, hpart.size, flatMap_cons, interval_append]
    show ∃ blobs, (if offset ≥ stop then _ else _) = _ ∧ _
    by_cases hend : offset ≥ stop
    · rw [if_pos hend]
      refine ⟨[], rfl, ?_⟩
      rw [Nat.sub_eq_zero_of_le hend, Nat.sub_eq_zero_of_le
        (show stop ≤ offset + (body part).length by omega)]
      simpa using Slices.nil
    · rw [if_neg hend]
      by_cases hmeets : offset + (body part).length > start
      · rw [if_pos ⟨by omega, hmeets⟩, hrest]
        -- an empty part would start inside the range
        have hpos : 0 < (body part).length := by
          by_contra hzero
          have hnil : body part = [] := eq_nil_of_length_eq_zero (by omega)
          have hout := hempty [] part parts rfl hnil
          simp only [flatMap_nil, length_nil] at hout
          rw [hnil, length_nil] at hmeets
          omega
        have hlast : (if stop > offset + (body part).length then .ok (body part).length
          else checkedSub stop offset :
            Except Fault Nat) = .ok (min (body part).length (stop - offset)) := by
          split
          · congr 1
            omega
          · rw [checkedSub_ok (by omega)]
            congr 1
            omega
        rw [hlast]
        refine ⟨_, rfl, ?_⟩
        have hcons :=
          hslices.cons hpart (show start - offset < min (body part).length (stop - offset) by omega)
            (Nat.min_le_left ..)
        rw [Nat.min_comm, ← take_eq_take_min] at hcons
        rw [Nat.min_comm]
        exact hcons
      · rw [if_neg fun h => hmeets h.2]
        have hnone : ((body part).take (stop - offset)).drop (start - offset) = [] := by
          apply drop_eq_nil_of_le
          rw [length_take]
          omega
        rw [hnone, nil_append]
        exact ⟨blobs, hrest, hslices⟩

theorem empty_range_of_inside {front back : List (Bytes × Layout)} {offset : Nat}
    (hparts : ∀ p ∈ front ++ part :: back, PartStored read p (body p)) (hempty : body part = [])
    (hstart : start < offset + (front.flatMap body).length)
    (hstop : offset + (front.flatMap body).length < stop)
    {blobs : List ((Bytes × Layout) × Nat × Nat)}
    (h : intersectParts start stop offset (front ++ part :: back) = .ok blobs) :
    (part, 0, 0) ∈ blobs := by
  induction front generalizing offset blobs with
  | nil =>
    have hsize := (hparts part mem_cons_self).size
    rw [hempty] at hsize
    simp only [flatMap_nil, length_nil, Nat.add_zero] at hstart hstop
    rw [nil_append, intersectParts, hsize] at h
    -- the test for an intersection holds for a part of size zero as well
    change (if offset ≥ stop then _ else if offset < stop ∧ offset + 0 > start then _
      else _) = _ at h
    rw [if_neg (by omega), if_pos ⟨by omega, by omega⟩] at h
    change ((if stop > offset + 0 then .ok 0 else checkedSub stop offset : Except Fault Nat) >>= _)
      = _ at h
    rw [if_pos (show stop > offset + 0 by omega)] at h
    obtain ⟨blobEnd, hend, h⟩ := of_bind_ok h
    obtain ⟨rest, -, h⟩ := of_bind_ok h
    cases hend
    cases h
    rw [Nat.sub_eq_zero_of_le (Nat.le_of_lt hstart)]
    exact mem_cons_self
  | cons first front ih =>
    have hsize := (hparts first mem_cons_self).size
    rw [flatMap_cons, length_append] at hstart hstop
    rw [cons_append, intersectParts, hsize] at h
    change (if offset ≥ stop then _ else _) = _ at h
    rw [if_neg (by omega)] at h
    have htail : ∀ {blobs'}, intersectParts start stop (offset + (body first).length)
        (front ++ part :: back) = .ok blobs' → (part, 0, 0) ∈ blobs' :=
      ih (fun p hp => hparts p (mem_cons_of_mem _ hp)) (by omega) (by omega)
    split at h
    · obtain ⟨blobEnd, -, h⟩ := of_bind_ok h
      obtain ⟨rest, hrest, h⟩ := of_bind_ok h
      cases h
      exact mem_cons_of_mem _ (htail hrest)
    · exact htail h

/-- ★ **A range of a multipart object.** Every range that is built is non-empty and inside its part,
    no difference is out of bounds, and the items are the bytes of the range: exactly if no empty
    part starts inside the range. -/
theorem part_ranges_iff {parts : List (Bytes × Layout)}
    (hparts : ∀ part ∈ parts, PartStored read part (body part)) (hlt : start < stop) :
    (∃ blobs, intersectParts start stop 0 parts = .ok blobs
        ∧ Slices read body blobs (((parts.flatMap body).take stop).drop start))
      ↔ NoEmptyInside body start stop 0 parts := by
  constructor
  · rintro ⟨blobs, hblobs, hslices⟩ front part back hsplit hempty
    by_contra hinside
    rw [not_or, Nat.not_le, Nat.not_le] at hinside
    rw [hsplit] at hparts hblobs
    have hmem := empty_range_of_inside hparts hempty hinside.1 hinside.2 hblobs
    exact absurd (hslices.within _ hmem).1 (Nat.lt_irrefl 0)
  · intro hempty
    obtain ⟨blobs, hblobs, hslices⟩ := intersectParts_slices hlt 0 hparts hempty
    exact ⟨blobs, hblobs, hslices⟩

end

def sevens (size : Nat) : Bytes × Layout :=
  (ascii "part", ⟨0, 1, 2, 1, {}, .normal ⟨1, 0⟩ ⟨size, [], [], none⟩⟩)

def readSevens (_part : Bytes × Layout) (_block : UInt32) (len : Nat) : Except S3Error Bytes :=
    .ok (List.replicate len 7)

def sevensBody (part : Bytes × Layout) : Bytes := List.replicate (part.2.size.toOption.getD 0) 7

theorem partStored_sevens {size : Nat} (hsize : size ≤ 1) :
    PartStored readSevens (sevens size) (sevensBody (sevens size)) where
  pos := show 1 ≤ 2 by decide
  state := ⟨_, _, rfl, (length_replicate ..).symm⟩
  blocks := by
    refine ⟨fun i => List.replicate (blockLen size 2 i) 7, fun i _ => ⟨?_, ?_⟩, ?_⟩
    · show Except.ok (List.replicate (blockLen (List.replicate size 7).length 2 i) 7) = _
      rw [length_replicate]
    · show (List.replicate (blockLen size 2 i) 7).length = blockLen (List.replicate size 7).length 2
        i
      rw [length_replicate, length_replicate]
    · match size, hsize with
      | 0, _ => rfl
      | 1, _ => rfl

theorem part_ranges_at_sample :
    0 < 2 ∧ ∃ blobs, intersectParts 0 2 0 [sevens 0, sevens 1, sevens 1] = .ok blobs
      ∧ Slices readSevens sevensBody blobs [7, 7] := by
  refine ⟨by decide, (part_ranges_iff ?_ (by decide)).mpr ?_⟩
  · intro part hpart
    simp only [mem_cons, not_mem_nil, or_false] at hpart
    rcases hpart with rfl | rfl | rfl
    · exact partStored_sevens (by decide)
    · exact partStored_sevens (by decide)
    · exact partStored_sevens (by decide)
  · intro front part back hsplit hempty
    cases front with
    | nil => exact .inl (Nat.le_refl 0)
    | cons _ front =>
      -- the other parts are not empty
      have hlater : part ∈ [sevens 1, sevens 1] := by
        rw [(List.cons.inj hsplit).2]
        exact mem_append_right _ mem_cons_self
      simp only [mem_cons, not_mem_nil, or_false, or_self] at hlater
      rw [hlater] at hempty
      cases hempty

theorem empty_part_faults :
    (∃ blobs, intersectParts 0 2 0 [sevens 1, sevens 0, sevens 1] = .ok blobs
      ∧ (sevens 0, 0, 0) ∈ blobs
        ∧ Except.error Fault.panic ∈ rangeItems readSevens blobs)
      ∧ ¬ ∃ blobs, intersectParts 0 2 0 [sevens 1, sevens 0, sevens 1] = .ok blobs
        ∧ Slices readSevens sevensBody blobs [7, 7] := by
  have hblobs : intersectParts 0 2 0 [sevens 1, sevens 0, sevens 1]
      = .ok [(sevens 1, 0, 1), (sevens 0, 0, 0), (sevens 1, 0, 1)] := rfl
  refine ⟨⟨_, hblobs, by simp, ?_⟩, ?_⟩
  · have hitems : rangeItems readSevens [(sevens 1, 0, 1), (sevens 0, 0, 0), (sevens 1, 0, 1)]
        = [.ok [7], .error .panic] := rfl
    rw [hitems]
    simp
  · rintro ⟨blobs, h, hslices⟩
    cases hblobs.symm.trans h
    exact absurd (hslices.within (sevens 0, 0, 0) (by simp)).1 (Nat.lt_irrefl 0)

end FractalBits.Objects
