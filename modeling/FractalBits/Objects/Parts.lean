/-
  Objects.Parts — the parts of a multipart upload: their keys, the listing of them and the tally
  that a completion makes.
-/

import Mathlib.Data.List.Sort
import FractalBits.Lib.Decimal
import FractalBits.Objects.Specs

namespace FractalBits.Objects

open Lib Streaming Gateway List
open OvrMap (Uuid)

/-! ## §1. Keys -/

def partsPrefix (key uploadId : Bytes) : Bytes := key ++ ascii "#" ++ uploadId ++ ascii "/"

section

variable (key : Bytes) (uploadId : Uuid)

theorem mpuGetPartPrefix_zero :
    mpuGetPartPrefix key uploadId 0 = partsPrefix key (Uuid.asSimple uploadId) := by
  unfold mpuGetPartPrefix partsPrefix
  simp

theorem uploadsPrefix_partPrefix (partNumber : Nat) :
    mpuGetUploadsPrefix key <+: mpuGetPartPrefix key uploadId partNumber := by
  unfold mpuGetUploadsPrefix mpuGetPartPrefix
  simp only [append_assoc, prefix_append_right_inj]
  exact prefix_append _ _

variable {key uploadId} {m n : Nat} {k : Bytes}

theorem uploadsPrefix_of_nulTerminated (h : mpuGetUploadsPrefix key <+: nulTerminated k) :
    mpuGetUploadsPrefix key <+: k := by
  rcases prefix_concat_iff.mp h with heq | hk
  · have hlast := congrArg List.getLast? heq
    rw [mpuGetUploadsPrefix, ← concat_eq_append] at hlast
    simp [ascii] at hlast
  · exact hk

theorem mpuGetPartPrefix_eq (hpos : 1 ≤ n) (hle : n ≤ 10000) :
    mpuGetPartPrefix key uploadId n
      = partsPrefix key (Uuid.asSimple uploadId) ++ fixedDecimal 4 (n - 1) := by
  have hpad : List.replicate (4 - (decimal (n - 1)).length) 48 ++ decimal (n - 1)
      = fixedDecimal 4 (n - 1) :=
    pad_eq_fixedDecimal (by omega)
  unfold mpuGetPartPrefix partsPrefix
  dsimp only
  rw [if_pos (by omega), hpad]

theorem lastSegment_append_slash (front : Bytes) {segment : Bytes} (h : (47 : UInt8) ∉ segment) :
    lastSegment (front ++ ascii "/" ++ segment) = segment := by
  have hslash : ascii "/" = [47] := by decide
  have hsegment : ∀ b ∈ segment.reverse, decide (b ≠ 47) = true := by
    intro b hb
    exact decide_eq_true fun heq => h (by rw [← heq]; exact mem_reverse.mp hb)
  unfold lastSegment
  simp only [hslash, reverse_append, takeWhile_append_of_pos hsegment, reverse_singleton,
    singleton_append]
  rw [takeWhile_cons_of_neg (by decide), reverse_nil, nil_append, reverse_reverse]

theorem not_mem_fixedDecimal (width n : Nat) {b : UInt8} (h : b < 48) :
    b ∉ fixedDecimal width n := by
  intro hmem
  have hle := (mem_fixedDecimal hmem).1
  rw [UInt8.le_iff_toNat_le] at hle
  rw [UInt8.lt_iff_toNat_lt] at h
  omega

theorem parseU32_fixedDecimal {n : Nat} (h : n < 10 ^ 4) :
    parseU32 (fixedDecimal 4 n) = some n := by
  have hhead : (fixedDecimal 4 n).head? ≠ some 43 := by
    intro hhead
    exact not_mem_fixedDecimal 4 n (by decide : (43 : UInt8) < 48) (mem_of_mem_head? hhead)
  have hplus : stripPlus (fixedDecimal 4 n) = fixedDecimal 4 n := if_neg hhead
  have hempty : (fixedDecimal 4 n).isEmpty = false := by
    rw [isEmpty_eq_false_iff, ← length_pos_iff, length_fixedDecimal]
    decide
  have hall : (fixedDecimal 4 n).all (fun b => 48 ≤ b && b ≤ 57) = true := by
    rw [all_eq_true]
    intro b hb
    obtain ⟨hlow, hhigh⟩ := mem_fixedDecimal hb
    simp [hlow, hhigh]
  have hvalue : (fixedDecimal 4 n).foldl (fun v b => v * 10 + (b.toNat - 48)) 0 = n := by
    rw [value_fixedDecimal, Nat.zero_mul, Nat.zero_add, Nat.mod_eq_of_lt h]
  unfold parseU32 parseUsize
  dsimp only
  rw [hplus, hempty, hall, if_neg (by simp), hvalue, if_pos (by unfold usizeMax; omega)]
  exact Option.filter_some_pos (decide_eq_true (by omega))

theorem mpuParsePartNumber_partKey (hpos : 1 ≤ n) (hle : n ≤ 10000) :
    mpuParsePartNumber (mpuGetPartPrefix key uploadId n) = .ok n := by
  have hsegment : lastSegment (mpuGetPartPrefix key uploadId n) = fixedDecimal 4 (n - 1) := by
    rw [mpuGetPartPrefix_eq hpos hle, partsPrefix]
    exact lastSegment_append_slash _ (not_mem_fixedDecimal 4 (n - 1) (by decide))
  unfold mpuParsePartNumber
  rw [hsegment, parseU32_fixedDecimal (by omega)]
  dsimp only
  rw [Nat.mod_eq_of_lt (by omega), Nat.sub_add_cancel hpos]

theorem partKey_inj (hm : 1 ≤ m ∧ m ≤ 10000) (hn : 1 ≤ n ∧ n ≤ 10000)
    (h : mpuGetPartPrefix key uploadId m = mpuGetPartPrefix key uploadId n) : m = n := by
  have hnumber : mpuParsePartNumber (mpuGetPartPrefix key uploadId m) = .ok m :=
    mpuParsePartNumber_partKey hm.1 hm.2
  rw [h, mpuParsePartNumber_partKey hn.1 hn.2] at hnumber
  exact (Except.ok.inj hnumber).symm

theorem compare_partKey (hm : 1 ≤ m ∧ m ≤ 10000) (hn : 1 ≤ n ∧ n ≤ 10000) :
    compare (mpuGetPartPrefix key uploadId m) (mpuGetPartPrefix key uploadId n) = compare m n := by
  rw [mpuGetPartPrefix_eq hm.1 hm.2, mpuGetPartPrefix_eq hn.1 hn.2, compare_append_left,
    compare_fixedDecimal (by omega) (by omega)]
  rcases lt_trichotomy m n with hlt | heq | hgt
  · rw [Nat.compare_eq_lt.mpr hlt, Nat.compare_eq_lt.mpr (by omega)]
  · rw [heq, Nat.compare_eq_eq.mpr rfl, Nat.compare_eq_eq.mpr rfl]
  · rw [Nat.compare_eq_gt.mpr hgt, Nat.compare_eq_gt.mpr (by omega)]

theorem ne_partKey_of_uploadsPrefix (hm : 1 ≤ m ∧ m ≤ 10000) (hn : 1 ≤ n ∧ n ≤ 10000)
    (h : mpuGetUploadsPrefix (mpuGetPartPrefix key uploadId m) <+: nulTerminated k) :
    trimEndMatches 0 k ≠ mpuGetPartPrefix key uploadId n := by
  obtain ⟨back, hback⟩ := uploadsPrefix_of_nulTerminated h
  have hhash : ascii "#" = [35] := by decide
  have hk : k = mpuGetPartPrefix key uploadId m ++ 35 :: back := by
    rw [← hback, mpuGetUploadsPrefix, hhash, append_assoc]
    rfl
  obtain ⟨rest, hrest⟩ := trimEndMatches_append_cons (show (35 : UInt8) ≠ 0 by decide)
    (mpuGetPartPrefix key uploadId m) back
  intro heq
  -- part keys have one length
  have hlength := congrArg List.length heq
  rw [hk, hrest, mpuGetPartPrefix_eq hm.1 hm.2, mpuGetPartPrefix_eq hn.1 hn.2] at hlength
  simp only [length_append, length_cons, length_fixedDecimal] at hlength
  omega

theorem ne_of_partsPrefix {key uploadId : Bytes}
    (h : partsPrefix key uploadId <+: nulTerminated k) : k ≠ key := by
  intro heq
  have hlength := h.length_le
  rw [heq] at hlength
  simp only [partsPrefix, nulTerminated, length_append, length_singleton] at hlength
  have hhash : (ascii "#").length = 1 := by decide
  have hslash : (ascii "/").length = 1 := by decide
  omega

theorem trimEndMatches_partKey (hpos : 1 ≤ n) (hle : n ≤ 10000) :
    trimEndMatches 0 (mpuGetPartPrefix key uploadId n) = mpuGetPartPrefix key uploadId n := by
  refine trimEndMatches_of_getLast? fun hlast => ?_
  have hne : fixedDecimal 4 (n - 1) ≠ [] := by
    rw [← length_pos_iff, length_fixedDecimal]
    decide
  rw [mpuGetPartPrefix_eq hpos hle, List.getLast?_append_of_ne_nil _ hne] at hlast
  exact not_mem_fixedDecimal 4 (n - 1) (by decide) (mem_of_getLast? hlast)

end

/-! ## §2. Listings -/

theorem lt_nulTerminated {k : Bytes} (h : k ≠ []) :
    compare (wireStartAfter []) (nulTerminated k) = .lt := by
  have hstart : wireStartAfter [] = [0] := by decide
  rw [hstart]
  cases k with
  | nil => exact absurd rfl h
  | cons b rest =>
    rw [nulTerminated, List.cons_append, List.compare_cons_cons]
    by_cases hb : b = 0
    · rw [hb]
      cases rest with
      | nil | cons => rfl
    · have hpos : (0 : UInt8).toNat < b.toNat :=
        UInt8.lt_iff_toNat_lt.mp (UInt8.pos_iff_ne_zero.mpr hb)
      rw [UInt8.compare_eq_toNat_compare_toNat, Nat.compare_eq_lt.mpr hpos]
      rfl

def KeySorted (entries : List (Bytes × Inode)) : Prop := entries.Pairwise fun e e' =>
    compare e.1 e'.1 = .lt

theorem keySorted_matching (ns : Namespace) (keyPrefix startAfter : Bytes) :
    KeySorted (ns.matching keyPrefix startAfter) := by
  have hsorted : KeySorted ns.toList := Std.ExtTreeMap.ordered_keys_toList
  exact hsorted.sublist filter_sublist

theorem KeySorted.eq_of_mem_iff {entries entries' : List (Bytes × Inode)} (h : KeySorted entries)
    (h' : KeySorted entries') (hmem : ∀ e, e ∈ entries ↔ e ∈ entries') : entries = entries' := by
  have hirrefl : Std.Irrefl fun e e' : Bytes × Inode => compare e.1 e'.1 = .lt :=
    ⟨fun e hlt => by rw [Std.compare_self] at hlt; cases hlt⟩
  have hantisymm : Std.Antisymm fun e e' : Bytes × Inode => compare e.1 e'.1 = .lt :=
    ⟨fun e e' hlt hgt => by rw [Std.OrientedCmp.gt_of_lt hlt] at hgt; cases hgt⟩
  exact List.Pairwise.eq_of_mem_iff h h' hmem

theorem matching_eq {ns : Namespace} {keyPrefix : Bytes} {entries : List (Bytes × Inode)}
    (hsorted : KeySorted entries) (hmem : ∀ e, ns[e.1]? = some e.2 ∧ keyPrefix <+: nulTerminated e.1
    ↔ e ∈ entries) (hne : ∀ e ∈ entries, e.1 ≠ []) : ns.matching keyPrefix [] = entries := by
  refine (keySorted_matching ns keyPrefix []).eq_of_mem_iff hsorted fun e => ?_
  rw [mem_matching, ← hmem]
  constructor
  · exact fun h => ⟨h.1, h.2.1⟩
  · exact fun h => ⟨h.1, h.2, lt_nulTerminated (hne e ((hmem e).mp h))⟩

section

variable (key : Bytes) (uploadId : Uuid)

def partInode (part : Nat × Layout) : Bytes × Inode :=
    (mpuGetPartPrefix key uploadId part.1, .layout part.2)

def partEntry (part : Nat × Layout) : Bytes × Layout :=
    (mpuGetPartPrefix key uploadId part.1, part.2)

def IsPartNumber (n : Nat) : Prop := 1 ≤ n ∧ n ≤ 10000

variable {key uploadId} {parts : List (Nat × Layout)}

theorem rawObjects_parts (h : ∀ part ∈ parts, IsPartNumber part.1) :
    rawObjects (parts.map (partInode key uploadId)) = .ok (parts.map (partEntry key uploadId)) := by
  induction parts with
  | nil => rfl
  | cons part parts ih =>
    have hpart := h part mem_cons_self
    rw [map_cons, partInode, rawObjects_layout, ih fun p hp => h p (mem_cons_of_mem _ hp),
      trimEndMatches_partKey hpart.1 hpart.2]
    rfl

theorem keySorted_parts (h : ∀ part ∈ parts, IsPartNumber part.1)
    (hsorted : parts.Pairwise fun p q => p.1 < q.1) :
    KeySorted (parts.map (partInode key uploadId)) := by
  unfold KeySorted
  rw [pairwise_map]
  refine hsorted.imp_of_mem ?_
  intro p q hp hq hlt
  exact (compare_partKey (h p hp) (h q hq)).trans (Nat.compare_eq_lt.mpr hlt)

theorem partsPrefix_partKey {n : Nat} (h : IsPartNumber n) :
    partsPrefix key (Uuid.asSimple uploadId) <+: nulTerminated
      (mpuGetPartPrefix key uploadId n) := by
  rw [mpuGetPartPrefix_eq h.1 h.2, nulTerminated, append_assoc]
  exact prefix_append _ _

theorem partKey_ne_nil (n : Nat) : mpuGetPartPrefix key uploadId n ≠ [] := by
  have hhash : ascii "#" = [35] := by decide
  unfold mpuGetPartPrefix
  rw [hhash]
  simp

end

/-! ## §3. The tally -/

def Layout.IsNormal (layout : Layout) : Prop := ∃ guid core, layout.state = .normal guid core

def partSize (part : Nat × Layout) : Nat := part.2.size.toOption.getD 0

def partChecksum (part : Nat × Layout) : Bytes :=
  ((part.2.checksum.toOption.bind id).map ChecksumValue.bytes).getD []

section

variable {key : Bytes} {uploadId : Uuid} {parts : List (Nat × Layout)}

theorem tallyPart_unnamed {part : Nat × Layout} (hpart : IsPartNumber part.1) {tally : PartTally}
    (h : part.1 ∉ tally.validPartNumbers) :
    tallyPart tally (partEntry key uploadId part)
      = .ok
        { tally with invalidPartKeys := tally.invalidPartKeys
                       ++ [mpuGetPartPrefix key uploadId part.1] } := by
  unfold tallyPart partEntry
  dsimp only
  rw [mpuParsePartNumber_partKey hpart.1 hpart.2]
  show (if part.1 ∉ tally.validPartNumbers then _ else _) = _
  rw [if_pos h]
  rfl

theorem tallyPart_named {part : Nat × Layout} (hpart : IsPartNumber part.1)
    (hnormal : part.2.IsNormal) {tally : PartTally} (h : part.1 ∈ tally.validPartNumbers) :
    tallyPart tally (partEntry key uploadId part) = .ok { tally with
      validPartNumbers := tally.validPartNumbers.filter fun n => n ≠ part.1
      totalSize := (tally.totalSize + partSize part) % 2 ^ 64
      checksummed := tally.checksummed ++ partChecksum part } := by
  obtain ⟨guid, core, hstate⟩ := hnormal
  have hsize : part.2.size = .ok core.size := by
    unfold Layout.size
    rw [hstate]
  have hchecksum : part.2.checksum = .ok core.checksum := by
    unfold Layout.checksum
    rw [hstate]
  unfold tallyPart partEntry partSize partChecksum
  dsimp only
  rw [mpuParsePartNumber_partKey hpart.1 hpart.2, hsize, hchecksum]
  show (if part.1 ∉ tally.validPartNumbers then _ else _) = _
  rw [if_neg (not_not.mpr h)]
  rfl

theorem foldlM_tallyPart (hparts : ∀ part ∈ parts, IsPartNumber part.1 ∧ part.2.IsNormal)
    (hnodup : (parts.map Prod.fst).Nodup) (tally : PartTally)
    (hsize : tally.totalSize + (parts.map partSize).sum < 2 ^ 64) :
    (parts.map (partEntry key uploadId)).foldlM tallyPart tally = .ok {
      validPartNumbers := tally.validPartNumbers.filter fun n => n ∉ parts.map Prod.fst
      invalidPartKeys := tally.invalidPartKeys
        ++ (parts.filter fun part => part.1 ∉ tally.validPartNumbers).map fun part =>
          mpuGetPartPrefix key uploadId part.1
      totalSize := tally.totalSize + ((parts.filter fun part => part.1 ∈ tally.validPartNumbers).map
        partSize).sum
      checksummed := tally.checksummed
        ++ ((parts.filter fun part => part.1 ∈ tally.validPartNumbers).map
          partChecksum).flatten } := by
  induction parts generalizing tally with
  | nil =>
    show Except.ok tally = _
    simp
  | cons part parts ih =>
    obtain ⟨hpart, hnormal⟩ := hparts part mem_cons_self
    have hrest : ∀ p ∈ parts, IsPartNumber p.1 ∧ p.2.IsNormal := fun p hp =>
      hparts p (mem_cons_of_mem _ hp)
    rw [map_cons, nodup_cons] at hnodup
    rw [map_cons, sum_cons] at hsize
    rw [map_cons, foldlM_cons]
    by_cases hnamed : part.1 ∈ tally.validPartNumbers
    · -- the other parts have other numbers
      have hsame : ∀ p ∈ parts, (p.1 ∈ tally.validPartNumbers.filter fun n => n ≠ part.1)
          ↔ p.1 ∈ tally.validPartNumbers := by
        intro p hp
        rw [mem_filter, decide_eq_true_eq, and_iff_left]
        exact fun heq => hnodup.1 (heq ▸ mem_map_of_mem hp)
      have hin : (parts.filter fun p => p.1 ∈ tally.validPartNumbers.filter fun n => n ≠ part.1)
          = parts.filter fun p => p.1 ∈ tally.validPartNumbers :=
        filter_congr fun p hp => by simp only [hsame p hp]
      have hout : (parts.filter fun p => p.1 ∉ tally.validPartNumbers.filter fun n => n ≠ part.1)
          = parts.filter fun p => p.1 ∉ tally.validPartNumbers :=
        filter_congr fun p hp => by simp only [hsame p hp]
      have htotal : (tally.totalSize + partSize part) % 2 ^ 64 = tally.totalSize + partSize part :=
        Nat.mod_eq_of_lt (by omega)
      rw [tallyPart_named hpart hnormal hnamed]
      show (parts.map (partEntry key uploadId)).foldlM tallyPart _ = _
      rw [htotal, ih hrest hnodup.2 _ (by dsimp only; omega)]
      dsimp only
      have hfilter :
          ((tally.validPartNumbers.filter fun n => n ≠ part.1).filter fun n => n ∉ parts.map
            Prod.fst) = tally.validPartNumbers.filter fun n => n ∉ (part :: parts).map
            Prod.fst := by
        rw [filter_filter]
        refine filter_congr fun n _ => ?_
        simp only [map_cons, mem_cons, not_or, Bool.decide_and, Bool.and_comm, ne_eq]
      rw [hin, hout, hfilter, filter_cons_of_neg (by simpa using hnamed),
        filter_cons_of_pos (by simpa using hnamed)]
      simp [Nat.add_assoc]
    · rw [tallyPart_unnamed hpart hnamed]
      show (parts.map (partEntry key uploadId)).foldlM tallyPart _ = _
      rw [ih hrest hnodup.2 _ (by dsimp only; omega)]
      dsimp only
      rw [filter_cons_of_pos (by simpa using hnamed), filter_cons_of_neg (by simpa using hnamed)]
      have hfilter : (tally.validPartNumbers.filter fun n => n ∉ parts.map Prod.fst)
          = tally.validPartNumbers.filter fun n => n ∉ (part :: parts).map Prod.fst := by
        refine filter_congr fun n hn => ?_
        have hne : n ≠ part.1 := fun heq => hnamed (heq ▸ hn)
        simp [hne]
      rw [hfilter]
      simp

end

end FractalBits.Objects
