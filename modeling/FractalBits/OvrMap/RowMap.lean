/-
  OvrMap.RowMap — the row snapshot of one blob and its normalized set of rejected generations.

  Mirrors `OvrRowMap` of `common/data_types/src/ovr_map.rs`.
-/

import FractalBits.OvrMap.Row

namespace FractalBits.OvrMap

open Lib List

/-! ## §1. Range lists -/

def saturatingSucc (v : UInt64) : UInt64 := if v = 0xFFFFFFFFFFFFFFFF then v else v + 1

def partitionPoint {α : Type} (p : α → Bool) (xs : List α) : Nat := (xs.takeWhile p).length

variable (rs : List (UInt64 × UInt64))

def RangesHold (v : UInt64) : Prop :=
  ∃ r ∈ rs, r.1 ≤ v ∧ v ≤ r.2

/-- Nonempty ranges of nonzero versions, in order, with a gap between any two. -/
structure Normalized (rs : List (UInt64 × UInt64)) : Prop where
  nonempty : ∀ r ∈ rs, 0 < r.1 ∧ r.1 ≤ r.2
  separated : rs.Pairwise fun a b => saturatingSucc a.2 < b.1

theorem lt_of_saturatingSucc_lt {a b : UInt64} (h : saturatingSucc a < b) : a < b := by
  grind [saturatingSucc]

theorem saturatingSucc_mono {a b : UInt64} (h : a ≤ b) : saturatingSucc a ≤ saturatingSucc b := by
  grind [saturatingSucc]

theorem u64_min_def (a b : UInt64) : min a b = if a ≤ b then a else b := rfl

theorem u64_max_def (a b : UInt64) : max a b = if a ≤ b then b else a := rfl

theorem Normalized.tail {r : UInt64 × UInt64} {rs : List (UInt64 × UInt64)}
    (h : Normalized (r :: rs)) : Normalized rs :=
  ⟨fun x hx => h.nonempty x (by simp [hx]), (pairwise_cons.mp h.separated).2⟩

theorem Normalized.head_lt {r : UInt64 × UInt64} {rs : List (UInt64 × UInt64)}
    (h : Normalized (r :: rs)) {x : UInt64 × UInt64} (hx : x ∈ rs) : saturatingSucc r.2 < x.1 :=
  (pairwise_cons.mp h.separated).1 x hx

/-! ## §2. Absorbing a range -/

/-- The `while` loop of `add_aborted_range`: fold every overlapping or adjacent range into `[lo,
    hi]`; the merged range and the ranges after it. -/
def absorbRanges : List (UInt64 × UInt64) → UInt64 → UInt64 →
    (UInt64 × UInt64) × List (UInt64 × UInt64)
  | [], mergedLo, mergedHi => ((mergedLo, mergedHi), [])
  | (existingLo, existingHi) :: rest, mergedLo, mergedHi =>
    if existingLo > saturatingSucc mergedHi then
      ((mergedLo, mergedHi), (existingLo, existingHi) :: rest)
    else absorbRanges rest (min mergedLo existingLo) (max mergedHi existingHi)

def addRange (aborted : List (UInt64 × UInt64)) (lo hi : UInt64) : List (UInt64 × UInt64) :=
  if lo = 0 ∨ lo > hi then aborted
  else
    let start := partitionPoint (fun r => decide (saturatingSucc r.2 < lo)) aborted
    let (merged, rest) := absorbRanges (aborted.drop start) lo hi
    aborted.take start ++ merged :: rest

theorem absorbRanges_spec (lo hi : UInt64)
    (hrs : Normalized rs) (hlo : 0 < lo) (hle : lo ≤ hi)
    (hreach : ∀ r ∈ rs, ¬ saturatingSucc r.2 < lo) :
    let out := absorbRanges rs lo hi
    Normalized (out.1 :: out.2) ∧
    (∀ v, RangesHold (out.1 :: out.2) v ↔ (lo ≤ v ∧ v ≤ hi) ∨ RangesHold rs v) ∧
    (∀ x, x < lo → (∀ r ∈ rs, x < r.1) → x < out.1.1) := by
  induction rs generalizing lo hi with
  | nil =>
    refine ⟨⟨?_, pairwise_singleton _ _⟩, ?_, fun x hx _ => hx⟩
    · intro r hr
      rw [mem_singleton.mp hr]
      exact ⟨hlo, hle⟩
    · intro v
      simp [absorbRanges, RangesHold]
  | cons r rest ih =>
    obtain ⟨existingLo, existingHi⟩ := r
    obtain ⟨hrlo, hrle⟩ := hrs.nonempty _ mem_cons_self
    simp only at hrlo hrle
    simp only [absorbRanges]
    split
    · -- the next range starts beyond the merged one and its gap: stop here
      next hgap =>
        refine ⟨⟨?_, ?_⟩, ?_, fun x hx _ => hx⟩
        · intro x hx
          rcases mem_cons.mp hx with rfl | hx
          · exact ⟨hlo, hle⟩
          · exact hrs.nonempty x hx
        · refine pairwise_cons.mpr ⟨?_, hrs.separated⟩
          intro x hx
          rcases mem_cons.mp hx with rfl | hx
          · exact hgap
          · have hnext := lt_of_saturatingSucc_lt (hrs.head_lt hx)
            simp only at hnext ⊢
            grind
        · intro v
          simp [RangesHold]
    · -- the next range overlaps or touches: swallow it and continue
      next hgap =>
        have htouch := hreach _ mem_cons_self
        simp only at htouch
        have hreach' : ∀ x ∈ rest, ¬ saturatingSucc x.2 < min lo existingLo := by
          intro x hx
          have h1 := hreach x (mem_cons_of_mem _ hx)
          rw [u64_min_def]
          grind
        obtain ⟨hnorm, hmem, hlow⟩ := ih (min lo existingLo) (max hi existingHi) hrs.tail
          (by rw [u64_min_def]; grind) (by rw [u64_min_def, u64_max_def]; grind) hreach'
        refine ⟨hnorm, ?_, ?_⟩
        · intro v
          rw [hmem v]
          have hcover : (min lo existingLo ≤ v ∧ v ≤ max hi existingHi) ↔
              (lo ≤ v ∧ v ≤ hi) ∨ (existingLo ≤ v ∧ v ≤ existingHi) := by
            rw [u64_min_def, u64_max_def]
            grind [saturatingSucc]
          rw [hcover]
          simp only [RangesHold, mem_cons, exists_eq_or_imp, or_assoc]
        · intro x hx hall
          refine hlow x ?_ fun r hr => hall r (mem_cons_of_mem _ hr)
          have := hall _ mem_cons_self
          simp only at this
          rw [u64_min_def]
          grind

theorem partition_by_end (lo : UInt64) (hrs : Normalized rs) :
    let start := partitionPoint (fun r => decide (saturatingSucc r.2 < lo)) rs
    (∀ r ∈ rs.take start, saturatingSucc r.2 < lo) ∧
    (∀ r ∈ rs.drop start, ¬ saturatingSucc r.2 < lo) := by
  induction rs with
  | nil => simp [partitionPoint]
  | cons r rest ih =>
    obtain ⟨hbefore, hafter⟩ := ih hrs.tail
    by_cases hr : saturatingSucc r.2 < lo
    · simp only [partitionPoint, takeWhile_cons, hr, decide_true, if_true,
        length_cons, take_succ_cons, drop_succ_cons]
      refine ⟨?_, hafter⟩
      intro x hx
      rcases mem_cons.mp hx with rfl | hx
      · exact hr
      · exact hbefore x hx
    · simp only [partitionPoint, takeWhile_cons, hr, decide_false, Bool.false_eq_true,
        if_false, length_nil, take_zero, drop_zero]
      refine ⟨by simp, ?_⟩
      intro x hx
      rcases mem_cons.mp hx with rfl | hx
      · exact hr
      · -- a later range starts, hence ends, after the head range
        have hgap := hrs.head_lt hx
        have hx' := (hrs.tail.nonempty x hx).2
        have hmono := saturatingSucc_mono (a := x.1) (b := x.2) hx'
        have hself : x.1 ≤ saturatingSucc x.1 := by grind [saturatingSucc]
        grind

theorem addRange_spec (lo hi : UInt64) (hrs : Normalized rs) :
    Normalized (addRange rs lo hi) ∧
    ∀ v, RangesHold (addRange rs lo hi) v ↔
      RangesHold rs v ∨ (lo ≠ 0 ∧ lo ≤ v ∧ v ≤ hi) := by
  unfold addRange
  split
  · next hskip =>
      refine ⟨hrs, fun v => ?_⟩
      have hnone : ¬ (lo ≠ 0 ∧ lo ≤ v ∧ v ≤ hi) := by grind
      simp [hnone]
  · next hvalid =>
      set start := partitionPoint (fun r => decide (saturatingSucc r.2 < lo)) rs with hstart
      obtain ⟨hbefore, hafter⟩ := partition_by_end rs lo hrs
      have hsplit : rs.take start ++ rs.drop start = rs := take_append_drop start rs
      have hsep := hrs.separated
      rw [← hsplit, pairwise_append] at hsep
      obtain ⟨hsepBefore, hsepAfter, hcross⟩ := hsep
      have hdrop : Normalized (rs.drop start) :=
        ⟨fun r hr => hrs.nonempty r (mem_of_mem_drop hr), hsepAfter⟩
      obtain ⟨hnorm, hmem, hlow⟩ :=
        absorbRanges_spec (rs.drop start) lo hi hdrop (by grind) (by grind) hafter
      simp only
      set out := absorbRanges (rs.drop start) lo hi with hout
      refine ⟨⟨?_, ?_⟩, ?_⟩
      · intro r hr
        rcases mem_append.mp hr with hr | hr
        · exact hrs.nonempty r (mem_of_mem_take hr)
        · exact hnorm.nonempty r hr
      · refine pairwise_append.mpr ⟨hsepBefore, hnorm.separated, ?_⟩
        intro a ha b hb
        -- `a` ends with a gap before the merged range, which starts every later one
        have hmerged : saturatingSucc a.2 < out.1.1 :=
          hlow _ (hbefore a ha) fun r hr => hcross a ha r hr
        rcases mem_cons.mp hb with rfl | hb
        · exact hmerged
        · have hgap := lt_of_saturatingSucc_lt (hnorm.head_lt hb)
          have hne := (hnorm.nonempty out.1 mem_cons_self).2
          grind
      · intro v
        have happ : ∀ xs ys, RangesHold (xs ++ ys) v ↔ RangesHold xs v ∨ RangesHold ys v := by
          intro xs ys
          simp only [RangesHold, mem_append, or_and_right, exists_or]
        have hrsv : RangesHold rs v ↔ RangesHold (rs.take start) v
          ∨ RangesHold (rs.drop start) v := by
          rw [← happ, hsplit]
        have hlo : lo ≠ 0 := by grind
        rw [happ, hmem v, hrsv]
        simp only [hlo, ne_eq, not_false_eq_true, true_and]
        rw [or_assoc, or_comm (b := RangesHold (rs.drop start) v)]

/-! ## §3. The snapshot -/

/-- A complete row snapshot for one blob, tagged with the `map_epoch` it was loaded under. -/
structure OvrRowMap where
  epoch : UInt64
  rows : UInt32 → Option OvrRow
  aborted : List (UInt64 × UInt64)
  normalized : Normalized aborted

def OvrRowMap.new (epoch : UInt64) : OvrRowMap where
  epoch := epoch
  rows := fun _ => none
  aborted := []
  normalized := ⟨by simp, List.Pairwise.nil⟩

variable (map : OvrRowMap)

def OvrRowMap.insert (block : UInt32) (row : OvrRow) : OvrRowMap :=
  { map with rows := fun b => if b = block then some row else map.rows b }

def OvrRowMap.get (block : UInt32) : Option OvrRow := map.rows block

def OvrRowMap.addAbortedRange (lo hi : UInt64) : OvrRowMap :=
  { map with
    aborted := addRange map.aborted lo hi
    normalized := (addRange_spec map.aborted lo hi map.normalized).1 }

def OvrRowMap.isAborted (version : UInt64) : Bool :=
  let index := partitionPoint (fun r => decide (r.1 ≤ version)) map.aborted
  match index with
  | 0 => false
  | i + 1 => decide (version ≤ (map.aborted.getD i (0, 0)).2)

def OvrRowMap.resolve (block : UInt32) (ceiling : UInt64) : BlockResolution :=
  resolveRowFiltered (map.get block) ceiling fun version => map.isAborted version

def mergeRowForWriteInMap (old : Option OvrRow) (newState : RowState)
    (version baseCeiling : UInt64) (baseMap : Option OvrRowMap) : Option OvrRow :=
  mergeRowForWriteFiltered old newState version baseCeiling fun candidate =>
    baseMap.any fun map => map.isAborted candidate

theorem search_iff (hrs : Normalized rs) (v : UInt64) :
    (match partitionPoint (fun r => decide (r.1 ≤ v)) rs with
      | 0 => false
      | i + 1 => decide (v ≤ (rs.getD i (0, 0)).2)) = true ↔ RangesHold rs v := by
  induction rs with
  | nil => simp [partitionPoint, RangesHold]
  | cons r rest ih =>
    have ih := ih hrs.tail
    by_cases hr : r.1 ≤ v
    · -- the head starts at or below `v`: the answer is the head's or a later one's
      simp only [partitionPoint, takeWhile_cons, hr, decide_true, if_true,
        length_cons] at ih ⊢
      cases hn : (rest.takeWhile fun r => decide (r.1 ≤ v)).length with
      | zero =>
        rw [hn] at ih
        have hrest : ¬ RangesHold rest v := by rw [← ih]; simp
        have hhold : RangesHold (r :: rest) v ↔ (r.1 ≤ v ∧ v ≤ r.2) ∨ RangesHold rest v := by
          simp only [RangesHold, mem_cons, exists_eq_or_imp]
        rw [hhold]
        simp [hr, hrest]
      | succ i =>
        rw [hn] at ih
        have hhead : ¬ v ≤ r.2 := by
          -- the next range also starts at or below `v`, beyond the head's end
          cases rest with
          | nil => simp at hn
          | cons x xs =>
            have hx : x.1 ≤ v := by
              by_contra hx
              simp [hx] at hn
            have hgap := lt_of_saturatingSucc_lt (hrs.head_lt mem_cons_self)
            grind
        have hhold : RangesHold (r :: rest) v ↔ RangesHold rest v := by
          simp only [RangesHold, mem_cons, exists_eq_or_imp, hhead, and_false, false_or]
        rw [hhold, ← ih]
        simp
    · -- the head starts above `v`, and so does every later range
      simp only [partitionPoint, takeWhile_cons, hr, decide_false, Bool.false_eq_true,
        if_false, length_nil, false_iff]
      rintro ⟨x, hx, hxv, -⟩
      rcases mem_cons.mp hx with rfl | hx
      · exact hr hxv
      · have hgap := lt_of_saturatingSucc_lt (hrs.head_lt hx)
        have hne := (hrs.nonempty r mem_cons_self).2
        grind

theorem isAborted_iff (v : UInt64) :
    map.isAborted v = true ↔ RangesHold map.aborted v :=
  search_iff map.aborted map.normalized v

theorem isAborted_addAbortedRange (lo hi v : UInt64) :
    (map.addAbortedRange lo hi).isAborted v = true ↔
      map.isAborted v = true ∨ (lo ≠ 0 ∧ lo ≤ v ∧ v ≤ hi) := by
  rw [isAborted_iff, isAborted_iff]
  exact (addRange_spec map.aborted lo hi map.normalized).2 v

@[simp] theorem isAborted_new (epoch v : UInt64) : (OvrRowMap.new epoch).isAborted v = false := rfl

@[simp] theorem isAborted_insert (map : OvrRowMap) (b : UInt32) (row : OvrRow) (v : UInt64) :
    (map.insert b row).isAborted v = map.isAborted v := rfl

@[simp] theorem get_addAbortedRange (map : OvrRowMap) (lo hi : UInt64) (b : UInt32) :
    (map.addAbortedRange lo hi).get b = map.get b := rfl

@[simp] theorem get_insert (map : OvrRowMap) (block b : UInt32) (row : OvrRow) :
    (map.insert block row).get b = if b = block then some row else map.get b := rfl

/-! ## §4. Any sequence of ranges -/

section

variable {r r' : UInt64 × UInt64} {rs rs' : List (UInt64 × UInt64)} {v : UInt64}

theorem saturatingSucc_lt_iff {a b : UInt64} : saturatingSucc a < b ↔ a.toNat + 1 < b.toNat := by
  have hb := b.toNat_lt
  unfold saturatingSucc
  rw [UInt64.lt_iff_toNat_lt]
  split
  · next hmax =>
    have ha : a.toNat = 2 ^ 64 - 1 := by rw [hmax]; rfl
    omega
  · next hmax =>
    have ha : a.toNat ≠ 2 ^ 64 - 1 := fun heq => hmax (UInt64.toNat_inj.mp heq)
    have hlt := a.toNat_lt
    rw [UInt64.toNat_add, UInt64.toNat_one, Nat.mod_eq_of_lt (by omega)]

theorem Normalized.tail_holds (h : Normalized (r :: rs)) : RangesHold rs v ↔ RangesHold (r :: rs) v
    ∧ r.2 < v := by
  constructor
  · rintro ⟨x, hx, hlo, hhi⟩
    have hgap := lt_of_saturatingSucc_lt (h.head_lt hx)
    exact ⟨⟨x, mem_cons_of_mem _ hx, hlo, hhi⟩, by grind⟩
  · rintro ⟨⟨x, hx, hlo, hhi⟩, hlt⟩
    rcases mem_cons.mp hx with rfl | hx
    · grind
    · exact ⟨x, hx, hlo, hhi⟩

theorem Normalized.head_le (h : Normalized (r :: rs)) (hv : RangesHold (r :: rs) v) : r.1 ≤ v := by
  obtain ⟨x, hx, hlo, -⟩ := hv
  rcases mem_cons.mp hx with rfl | hx
  · exact hlo
  · have hgap := lt_of_saturatingSucc_lt (h.head_lt hx)
    have hr := (h.nonempty r mem_cons_self).2
    grind

theorem Normalized.head_end_le (h' : Normalized (r' :: rs'))
    (hsame : ∀ v, RangesHold (r :: rs) v ↔ RangesHold (r' :: rs') v) (hlo : r.1 = r'.1) :
    r.2 ≤ r'.2 := by
  by_contra hlt
  have hr' := (h'.nonempty r' mem_cons_self).2
  -- the version after `r'` would be held by `r` alone
  have hheld : RangesHold (r' :: rs') (r'.2 + 1) :=
    (hsame _).mp ⟨r, mem_cons_self, by grind, by grind⟩
  obtain ⟨x, hx, hxlo, hxhi⟩ := hheld
  rcases mem_cons.mp hx with rfl | hx
  · grind
  · have hgap := h'.head_lt hx
    grind [saturatingSucc]

theorem Normalized.unique (h : Normalized rs) (h' : Normalized rs') (hsame : ∀ v, RangesHold rs v
    ↔ RangesHold rs' v) :
    rs = rs' := by
  have hfirst : ∀ {r : UInt64 × UInt64} {rs}, Normalized (r :: rs) → RangesHold (r :: rs) r.1 :=
    fun h =>
    ⟨_, mem_cons_self, by grind, (h.nonempty _ mem_cons_self).2⟩
  induction rs generalizing rs' with
  | nil =>
    cases rs' with
    | nil => rfl
    | cons r' rs' =>
      obtain ⟨x, hx, -⟩ := (hsame r'.1).mpr (hfirst h')
      cases hx
  | cons r rs ih =>
    cases rs' with
    | nil =>
      obtain ⟨x, hx, -⟩ := (hsame r.1).mp (hfirst h)
      cases hx
    | cons r' rs' =>
      have hlo : r.1 = r'.1 :=
        UInt64.le_antisymm (h.head_le ((hsame _).mpr (hfirst h')))
          (h'.head_le ((hsame _).mp (hfirst h)))
      have hhi : r.2 = r'.2 :=
        UInt64.le_antisymm (h'.head_end_le hsame hlo) (h.head_end_le (fun v => (hsame v).symm)
          hlo.symm)
      have htail : rs = rs' := by
        refine ih h.tail h'.tail fun v => ?_
        rw [h.tail_holds, h'.tail_holds, hsame v, hhi]
      rw [Prod.ext hlo hhi, htail]

end

def OvrRowMap.addAbortedRanges (map : OvrRowMap) (ranges : List (UInt64 × UInt64)) : OvrRowMap :=
  ranges.foldl (fun map r => map.addAbortedRange r.1 r.2) map

theorem isAborted_addAbortedRanges (map : OvrRowMap) (ranges : List (UInt64 × UInt64))
    (v : UInt64) :
    (map.addAbortedRanges ranges).isAborted v = true ↔
      map.isAborted v = true ∨ ∃ r ∈ ranges, 1 ≤ r.1 ∧ r.1 ≤ r.2 ∧ r.1 ≤ v ∧ v ≤ r.2 := by
  induction ranges generalizing map with
  | nil => simp [OvrRowMap.addAbortedRanges]
  | cons r ranges ih =>
    have hvalid : (r.1 ≠ 0 ∧ r.1 ≤ v ∧ v ≤ r.2) ↔ 1 ≤ r.1 ∧ r.1 ≤ r.2 ∧ r.1 ≤ v ∧ v ≤ r.2 := by
      grind
    show ((map.addAbortedRange r.1 r.2).addAbortedRanges ranges).isAborted v = true ↔ _
    rw [ih, isAborted_addAbortedRange, hvalid]
    simp only [mem_cons, exists_eq_or_imp, or_assoc]

/-- ★ **The list of rejected ranges is canonical** after any sequence of calls: non-empty ranges in
    order with a gap between any two, which hold exactly the versions of the valid ranges that were
    added, and which do not depend on the order of the calls. -/
theorem aborted_ranges_canonical (epoch : UInt64) (added : List (UInt64 × UInt64)) :
    (∀ r ∈ ((OvrRowMap.new epoch).addAbortedRanges added).aborted, 1 ≤ r.1 ∧ r.1 ≤ r.2)
    ∧ ((OvrRowMap.new epoch).addAbortedRanges added).aborted.Pairwise
      (fun a b => a.2.toNat + 1 < b.1.toNat)
    ∧ (∀ v, ((OvrRowMap.new epoch).addAbortedRanges added).isAborted v = true ↔
        ∃ r ∈ added, 1 ≤ r.1 ∧ r.1 ≤ r.2 ∧ r.1 ≤ v ∧ v ≤ r.2)
    ∧ ∀ added', (∀ r, r ∈ added' ↔ r ∈ added) →
        ((OvrRowMap.new epoch).addAbortedRanges added').aborted
          = ((OvrRowMap.new epoch).addAbortedRanges added).aborted := by
  have hnorm := ((OvrRowMap.new epoch).addAbortedRanges added).normalized
  have hheld : ∀ ranges v, ((OvrRowMap.new epoch).addAbortedRanges ranges).isAborted v = true ↔
      ∃ r ∈ ranges, 1 ≤ r.1 ∧ r.1 ≤ r.2 ∧ r.1 ≤ v ∧ v ≤ r.2 := by
    intro ranges v
    rw [isAborted_addAbortedRanges, isAborted_new]
    simp only [Bool.false_eq_true, false_or]
  refine ⟨fun r hr => ?_, ?_, hheld added, fun added' hsame => ?_⟩
  · obtain ⟨hlo, hle⟩ := hnorm.nonempty r hr
    exact ⟨by grind, hle⟩
  · exact hnorm.separated.imp saturatingSucc_lt_iff.mp
  · refine Normalized.unique (OvrRowMap.normalized _) hnorm fun v => ?_
    rw [← isAborted_iff, ← isAborted_iff, hheld, hheld]
    simp only [hsame]

/-- ★ **The codec is exact, and the merge stays inside it.** -/
theorem row_codec_exact :
    (∀ row : OvrRow, OvrRow.decode row.encode = some row ↔ row.WellFormed)
    ∧ (∀ buf row, OvrRow.decode buf = some row → row.WellFormed ∧ row.encode = buf)
    ∧ ∀ old newState version baseCeiling baseMap row, 1 ≤ version →
      (∀ r, old = some r → r.WellFormed) →
      mergeRowForWriteInMap old newState version baseCeiling baseMap = some row →
        row.WellFormed := by
  refine ⟨fun row => ⟨decode_wellFormed, decode_encode row⟩,
    fun buf row h => ⟨decode_wellFormed h, encode_of_decode h⟩,
      fun old newState version baseCeiling baseMap row hversion hold h => ?_⟩
  exact mergeRowForWriteFiltered_wellFormed (by grind) hold h

end FractalBits.OvrMap
