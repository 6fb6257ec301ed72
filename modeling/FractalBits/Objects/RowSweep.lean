/-
  Objects.RowSweep — the rows of a blob, and how an attempt sweeps them.

  Each page of rows and abort keys is deleted before the next is listed; the marker comes last.
-/

import FractalBits.Objects.Deletions
import FractalBits.Objects.Parts
import FractalBits.Lib.Hexadecimal

namespace FractalBits.Objects

open Lib Streaming Gateway List
open OvrMap (Uuid ovrPrefix ovrRowKey ovrAbortKey)

attribute [local irreducible] Uuid.asSimple

/-! ## §1. What leads to a blob -/

def IsRowOf (blobId : Uuid) (k : Bytes) : Prop :=
  (∃ block, k = ovrRowKey blobId block) ∨ ∃ lo hi, k = ovrAbortKey blobId lo hi

def Site.HasRow (s : Site) (blobId : Uuid) : Prop := ∃ k ∈ s.inodes, IsRowOf blobId k

def Site.HasMarker (s : Site) (blobId : Uuid) : Prop := ovrGcKey blobId ∈ s.inodes

section

variable {blobId : Uuid} {k : Bytes}

theorem IsRowOf.under (h : IsRowOf blobId k) : ovrRowPrefix blobId <+: k := by
  rcases h with ⟨block, rfl⟩ | ⟨lo, hi, rfl⟩
  · exact ⟨hexPad 8 block.toNat, by simp [ovrRowPrefix, ovrRowKey]⟩
  · have hslash : ascii "/x" = ascii "/" ++ ascii "x" := by decide
    exact ⟨ascii "x" ++ hexPad 16 lo.toNat ++ ascii "-" ++ hexPad 16 hi.toNat, by
      simp [ovrRowPrefix, ovrAbortKey, hslash]⟩

theorem zero_not_mem_asSimple (blobId : Uuid) : 0 ∉ Uuid.asSimple blobId := by
  unfold Uuid.asSimple
  exact not_mem_hexPad (by decide)

theorem IsRowOf.zero_not_mem (h : IsRowOf blobId k) : 0 ∉ k := by
  have hfront : (0 : UInt8) ∉ ovrPrefix := by decide
  have hslash : (0 : UInt8) ∉ ascii "/" := by decide
  have hx : (0 : UInt8) ∉ ascii "/x" := by decide
  have hdash : (0 : UInt8) ∉ ascii "-" := by decide
  have hid := zero_not_mem_asSimple blobId
  have hhex : ∀ w n, (0 : UInt8) ∉ hexPad w n := fun _ _ => not_mem_hexPad (by decide)
  rcases h with ⟨block, rfl⟩ | ⟨lo, hi, rfl⟩
  · unfold ovrRowKey
    simp only [mem_append, not_or]
    exact ⟨⟨⟨hfront, hid⟩, hslash⟩, hhex _ _⟩
  · unfold ovrAbortKey
    simp only [mem_append, not_or]
    exact ⟨⟨⟨⟨⟨hfront, hid⟩, hx⟩, hhex _ _⟩, hdash⟩, hhex _ _⟩

theorem ovrRowPrefix_eq (blobId : Uuid) :
    ovrRowPrefix blobId = (ovrPrefix ++ Uuid.asSimple blobId) ++ [47] := rfl

theorem under_of_nulTerminated (h : ovrRowPrefix blobId <+: nulTerminated k) :
    ovrRowPrefix blobId <+: k := by
  rcases prefix_concat_iff.mp h with heq | hk
  · have hlast := congrArg List.getLast? heq
    rw [ovrRowPrefix_eq, List.getLast?_concat, List.getLast?_concat] at hlast
    exact absurd hlast (by decide)
  · exact hk

theorem under_trimEndMatches (h : ovrRowPrefix blobId <+: k) :
    ovrRowPrefix blobId <+: trimEndMatches 0 k := by
  obtain ⟨tail, rfl⟩ := h
  have hne : (47 : UInt8) ≠ 0 := by decide
  obtain ⟨t, ht⟩ := trimEndMatches_append_cons hne (ovrPrefix ++ Uuid.asSimple blobId) tail
  exact ⟨t, by rw [ovrRowPrefix_eq, ← append_cons, ← append_cons, ht]⟩

theorem not_gc_of_under (h : ovrRowPrefix blobId <+: k) : ¬ ascii "@ovr-gc/" <+: k := by
  rintro ⟨rest, rfl⟩
  obtain ⟨t, ht⟩ := h
  have hrow : (ovrRowPrefix blobId ++ t)[4]? = some 47 := rfl
  have hmarker : (ascii "@ovr-gc/" ++ rest)[4]? = some 45 := rfl
  rw [ht, hmarker] at hrow
  exact absurd hrow (by decide)

theorem ne_ovrGcKey_of_under (h : ovrRowPrefix blobId <+: k) (blobId' : Uuid) :
    k ≠ ovrGcKey blobId' := by
  rintro rfl
  exact not_gc_of_under h ⟨_, rfl⟩

end

/-! ## §2. The three families of keys -/

section

open OvrMap

variable {blobId : Uuid} {k : Bytes}

theorem ovrKeySuffix_append_nul (k : Bytes) (nuls : Nat) :
    ovrKeySuffix (k ++ List.replicate nuls 0) = ovrKeySuffix k := by
  unfold ovrKeySuffix
  rw [trimEndMatches_append_replicate]

theorem parseOvrAbortRange_ovrRowKey (blobId : Uuid) (block : UInt32) :
    parseOvrAbortRange (ovrRowKey blobId block) = none := by
  have hx : (120 : UInt8) ∉ hexPad 8 block.toNat := not_mem_hexPad (by decide)
  have hstrip : stripPrefix (ascii "x") (hexPad 8 block.toNat) = none := by
    cases hhex : hexPad 8 block.toNat with
    | nil => rfl
    | cons c rest => exact if_neg fun hc => hx (by rw [hhex, ← hc]; exact mem_cons_self)
  rw [parseOvrAbortRange, ovrRowKey, ovrKeySuffix_append _ _ (not_mem_hexPad (by decide)),
    Option.bind_some, hstrip]
  rfl

theorem eq_of_under {blobId' : Uuid} (h : ovrRowPrefix blobId <+: k)
    (h' : ovrRowPrefix blobId' <+: k) :
    blobId = blobId' := by
  have hwidth : ∀ id, (ovrRowPrefix id).length = 38 := by
    intro id
    unfold ovrRowPrefix Uuid.asSimple
    simp [ovrPrefix, ascii]
  have hsame : ovrRowPrefix blobId = ovrRowPrefix blobId' :=
    (prefix_of_prefix_length_le h h' (by rw [hwidth, hwidth])).eq_of_length (by rw [hwidth, hwidth])
  have hhex := append_cancel_left (append_cancel_right hsame)
  unfold Uuid.asSimple at hhex
  exact BitVec.eq_of_toNat_eq (hexPad_inj blobId.isLt blobId'.isLt hhex)

theorem compare_ovrRowKey (blobId : Uuid) (block block' : UInt32) :
    compare (ovrRowKey blobId block) (ovrRowKey blobId block') = compare block block' := by
  have hlt := block.toNat_lt
  have hlt' := block'.toNat_lt
  unfold ovrRowKey
  rw [compare_append_left, compare_hexPad hlt hlt', UInt32.compare_eq_toNat_compare_toNat]

theorem compare_ovrRowKey_ovrAbortKey (blobId : Uuid) (block : UInt32) (lo hi : UInt64) :
    compare (ovrRowKey blobId block) (ovrAbortKey blobId lo hi) = .lt := by
  have hkey : ovrAbortKey blobId lo hi = ovrPrefix ++ Uuid.asSimple blobId ++ ascii "/"
      ++ 120 :: (hexPad 16 lo.toNat ++ ascii "-" ++ hexPad 16 hi.toNat) := by
    simp [ovrAbortKey, ascii]
  have hdigit : ∀ d < 16, compare (hexDigit d) 120 = .lt := by decide
  rw [hkey]
  unfold ovrRowKey
  rw [compare_append_left]
  cases hhex : hexPad 8 block.toNat with
  | nil => rfl
  | cons c rest =>
    obtain ⟨d, hd, rfl⟩ := mem_hexPad (hhex ▸ mem_cons_self : c ∈ hexPad 8 block.toNat)
    rw [List.compare_cons_cons, hdigit d hd]
    rfl

/-- ★ **The keys of rows, abort records and markers are ordered, disjoint and parse back.** -/
theorem ovr_keys_ordered (blobId : Uuid) :
    (∀ block nuls, parseOvrRowBlock (ovrRowKey blobId block ++ List.replicate nuls 0) = some block
        ∧ parseOvrAbortRange (ovrRowKey blobId block ++ List.replicate nuls 0) = none)
    ∧ (∀ lo hi nuls, 1 ≤ lo → lo ≤ hi →
        parseOvrAbortRange (ovrAbortKey blobId lo hi ++ List.replicate nuls 0) = some (lo, hi)
        ∧ parseOvrRowBlock (ovrAbortKey blobId lo hi ++ List.replicate nuls 0) = none)
    ∧ (∀ blobId' k, IsRowOf blobId' k ∨ k = ovrGcKey blobId' → ovrRowPrefix blobId <+: k →
      blobId' = blobId)
    ∧ (∀ block block', compare (ovrRowKey blobId block) (ovrRowKey blobId block') = compare block
      block')
    ∧ (∀ block lo hi, compare (ovrRowKey blobId block) (ovrAbortKey blobId lo hi) = .lt)
    ∧ ∀ k, IsRowOf blobId k → ¬ ascii "@ovr-gc/" <+: k ∧ ∀ blobId', k ≠ ovrGcKey blobId' := by
  refine ⟨fun block nuls => ?_, fun lo hi nuls hlo hle => ?_, fun blobId' k hk hunder => ?_,
    compare_ovrRowKey blobId, compare_ovrRowKey_ovrAbortKey blobId, fun k hk =>
      ⟨not_gc_of_under hk.under, ne_ovrGcKey_of_under hk.under⟩⟩
  · rw [parseOvrRowBlock, parseOvrAbortRange, ovrKeySuffix_append_nul]
    exact ⟨parseOvrRowBlock_ovrRowKey blobId block, parseOvrAbortRange_ovrRowKey blobId block⟩
  · rw [parseOvrRowBlock, parseOvrAbortRange, ovrKeySuffix_append_nul]
    exact ⟨parseOvrAbortRange_ovrAbortKey blobId lo hi (by grind) hle, parseOvrRowBlock_ovrAbortKey
      blobId lo hi⟩
  · rcases hk with hrow | hmarker
    · exact eq_of_under hrow.under hunder
    · exact absurd hmarker (ne_ovrGcKey_of_under hunder blobId')

end

/-! ## §3. Pages of rows -/

theorem trimEndMatches_concat (b : UInt8) (k : Bytes) : trimEndMatches b k ++ [b] <+: k ++ [b] := by
  induction k using List.reverseRecOn with
  | nil => exact prefix_refl _
  | append_singleton k c ih =>
    by_cases hc : c = b
    · subst hc
      have htrim : trimEndMatches c (k ++ [c]) = trimEndMatches c k :=
        trimEndMatches_append_replicate c k 1
      rw [htrim]
      exact ih.trans (prefix_append _ _)
    · have hlast : (k ++ [c]).getLast? ≠ some b := by simpa using hc
      exact ⟨[], by rw [trimEndMatches_of_getLast? hlast, append_nil]⟩

theorem compare_nulTerminated {a k w : Bytes} (hlt : compare a k = .lt) (hk : 0 ∉ k)
    (hw : w <+: a ++ [0]) :
    compare w (nulTerminated k) = .lt := by
  induction k generalizing a w with
  | nil =>
    cases a with
    | nil => cases hlt
    | cons => cases hlt
  | cons c k ih =>
    obtain ⟨hc, hk⟩ := not_or.mp (mem_cons.not.mp hk)
    show compare w (c :: nulTerminated k) = .lt
    cases w with
    | nil => rfl
    | cons b w =>
      rw [List.compare_cons_cons]
      cases a with
      | nil =>
        -- only the NUL is left of the start, and no byte of the text is below it
        have hb : b = 0 := (cons_prefix_cons.mp hw).1
        have hpos : (0 : UInt8).toNat < c.toNat :=
          UInt8.lt_iff_toNat_lt.mp (UInt8.pos_iff_ne_zero.mpr (Ne.symm hc))
        rw [hb, UInt8.compare_eq_toNat_compare_toNat, Nat.compare_eq_lt.mpr hpos]
        rfl
      | cons b' a =>
        rw [cons_append, cons_prefix_cons] at hw
        obtain ⟨rfl, hw⟩ := hw
        rw [List.compare_cons_cons] at hlt
        cases hbc : compare b c with
        | lt => rfl
        | gt =>
          rw [hbc] at hlt
          cases hlt
        | eq =>
          rw [hbc] at hlt
          exact ih hlt hk hw

def SweptTo (blobId : Uuid) (startAfter : Bytes) (s : Site) : Prop :=
  ∀ k ∈ s.inodes, IsRowOf blobId k → compare (wireStartAfter startAfter) (nulTerminated k) = .lt

section

variable {cluster : Cluster} {blobId : Uuid} {startAfter : Bytes} {s : Site}

theorem sweptTo_nil (s : Site) : SweptTo blobId [] s := by
  intro k _ hrow
  refine lt_nulTerminated ?_
  rintro rfl
  rcases hrow with ⟨block, hk⟩ | ⟨lo, hi, hk⟩
  · cases hk
  · cases hk

def pageKeys (page : List (Bytes × Inode)) : List Bytes := page.map fun e => trimEndMatches 0 e.1

variable {k : Bytes}

theorem mem_matching_of_row (hswept : SweptTo blobId startAfter s) (hk : k ∈ s.inodes)
    (hrow : IsRowOf blobId k) :
    (k, s.inodes[k]) ∈ s.inodes.matching (ovrRowPrefix blobId) startAfter :=
  mem_matching.mpr ⟨Std.ExtTreeMap.getElem?_eq_some_getElem hk,
    hrow.under.trans (prefix_append _ _), hswept k hk hrow⟩

theorem mem_pageKeys_of_row {page : List (Bytes × Inode)} {value : Inode} (h : (k, value) ∈ page)
    (hrow : IsRowOf blobId k) : k ∈ pageKeys page :=
  mem_map.mpr ⟨(k, value), h, trimEndMatches_of_not_mem hrow.zero_not_mem⟩

theorem row_on_last_page (hswept : SweptTo blobId startAfter s)
    (hlast : (cluster.listPage s.inodes 1000 (ovrRowPrefix blobId) startAfter).2 = false)
    (hk : k ∈ s.inodes) (hrow : IsRowOf blobId k) :
    k ∈ pageKeys (cluster.listPage s.inodes 1000 (ovrRowPrefix blobId) startAfter).1 := by
  have hmem := mem_matching_of_row hswept hk hrow
  have hlen : (s.inodes.matching (ovrRowPrefix blobId) startAfter).length ≤ min 1000
    cluster.clamp :=
    Nat.le_of_not_lt (of_decide_eq_false hlast)
  have hpage :
    (k, s.inodes[k]) ∈ (cluster.listPage s.inodes 1000 (ovrRowPrefix blobId) startAfter).1 := by
    show _ ∈ List.take _ _
    rw [take_of_length_le hlen]
    exact hmem
  exact mem_pageKeys_of_row hpage hrow

theorem row_after_page (hswept : SweptTo blobId startAfter s) {last : Bytes}
    (hlast : (pageKeys (cluster.listPage s.inodes 1000 (ovrRowPrefix blobId) startAfter).1).getLast?
    = some last) (hk : k ∈ s.inodes) (hrow : IsRowOf blobId k)
    (hnew : k ∉ pageKeys (cluster.listPage s.inodes 1000 (ovrRowPrefix blobId) startAfter).1) :
    compare (wireStartAfter last) (nulTerminated k) = .lt := by
  have hmem := mem_matching_of_row hswept hk hrow
  unfold pageKeys at hlast
  rw [List.getLast?_map, Option.map_eq_some_iff] at hlast
  obtain ⟨e, he, rfl⟩ := hlast
  have hpage := mem_of_getLast? he
  -- the row is in the part of the sorted keys that the page left out
  have hrest : (k, s.inodes[k])
      ∈ (s.inodes.matching (ovrRowPrefix blobId) startAfter).drop (min 1000 cluster.clamp) := by
    rw [← take_append_drop (min 1000 cluster.clamp) (s.inodes.matching _ _)] at hmem
    rcases mem_append.mp hmem with htake | hdrop
    · exact absurd (mem_pageKeys_of_row htake hrow) hnew
    · exact hdrop
  have hsorted := keySorted_matching s.inodes (ovrRowPrefix blobId) startAfter
  rw [KeySorted, ← take_append_drop (min 1000 cluster.clamp) (s.inodes.matching _ _),
    pairwise_append] at hsorted
  have hlt : compare e.1 k = .lt := hsorted.2.2 e hpage _ hrest
  have hstart : wireStartAfter (trimEndMatches 0 e.1) <+: e.1 ++ [0] := by
    unfold wireStartAfter
    split
    · exact (prefix_append _ _).trans (trimEndMatches_concat 0 e.1)
    · exact trimEndMatches_concat 0 e.1
  exact compare_nulTerminated hlt hrow.zero_not_mem hstart

end

/-! ## §4. The sweep -/

/-- What is put is the marker; deleted are the marker, when no row is left and `K` holds, and keys
    of rows, where `I` holds. -/
def Orderly (I K : Site → Prop) (blobId : Uuid) (s : Site) : Op → Prop
  | .putInode k _ => k = ovrGcKey blobId
  | .deleteInode k =>
    k = ovrGcKey blobId ∧ ¬ s.HasRow blobId ∧ K s ∨ ovrRowPrefix blobId <+: k ∧ I s
  | _ => True

/-- What a sweep keeps: `K` throughout, and `I` from where it finds a key until it has deleted its
    page. -/
structure SweepRule (blobId : Uuid) (I K : Site → Prop) : Prop where
  found : ∀ s k, K s → k ∈ s.inodes → ovrRowPrefix blobId <+: k → I s
  row : ∀ s k, ovrRowPrefix blobId <+: k → I s → I (s.without [k])
  keep : ∀ s, I s → K s
  marker : ∀ s, ¬ s.HasRow blobId → K s → K (s.without [ovrGcKey blobId])

def Site.marked (s : Site) (blobId : Uuid) : Site :=
  { s with inodes := s.inodes.insert (ovrGcKey blobId) (.raw (ascii "gc")) }

theorem mem_without {s : Site} {keys : List Bytes} {k : Bytes} :
    k ∈ (s.without keys).inodes ↔ k ∉ keys ∧ k ∈ s.inodes := by
  rw [Std.ExtTreeMap.mem_iff_isSome_getElem?, getElem?_without,
    Std.ExtTreeMap.mem_iff_isSome_getElem?]
  split
  · next hk => simp [hk]
  · next hk => simp [hk]

section

variable {cluster : Cluster} {ok : Op → Delivery → Prop} {I K J M : Site → Prop} {blobId : Uuid}
    {k : Bytes} {s : Site}

theorem ensures_deleteNssKey (hJ : ∀ s, J s → Orderly I K blobId s (.deleteInode k)
    ∧ J (s.without [k])) (rounds : Nat) (hs : J s) : (deleteNssKey rounds k).Ensures cluster.serve
      ok (Orderly I K blobId) (fun r s' => J s' ∧ (r = true → k ∉ s'.inodes)) s := by
  have hcall : ∀ s, J s → (perform (Op.deleteInode k) : Call _).Ensures cluster.serve ok
      (Orderly I K blobId) (fun r s' => J s' ∧ ∀ resp, r = .ok resp →
        (∃ old, parseDeleteInode resp = .ok old) → k ∉ s'.inodes) s := by
    intro s hs
    obtain ⟨hguard, hafter⟩ := hJ s hs
    have hgone : k ∉ (s.without [k]).inodes := fun hk =>
      (mem_without.mp hk).1 (mem_singleton_self k)
    refine ⟨hguard, fun d _ => ?_⟩
    cases d with
    | answered => exact ⟨hafter, fun _ _ _ => hgone⟩
    | replyLost | garbled => exact ⟨hafter, nofun⟩
    | dropped => exact ⟨hs, nofun⟩
    | refused | noRootBlob =>
      -- the reply is an error, which the caller sees
      refine ⟨hs, ?_⟩
      rintro resp hresp ⟨old, hold⟩
      cases hresp
      cases hold
  refine (ensures_nssRpcRetry (fun _ _ => ⟨trivial, trivial⟩) hcall (fun _ _ hr => hr.1) rounds
    hs).bind ?_
  rintro r s' ⟨hs', hresult⟩
  cases r with
  | error e => exact ⟨hs', nofun⟩
  | ok resp =>
    dsimp only
    split
    · next old hparse => exact ⟨hs', fun _ => hresult resp rfl ⟨old, hparse⟩⟩
    · exact ⟨hs', nofun⟩

theorem ensures_deleteNssKeys (hrule : SweepRule blobId I K) (rounds : Nat) {keys : List Bytes}
    (hkeys : ∀ k ∈ keys, ovrRowPrefix blobId <+: k) (hs : I s) :
    (deleteNssKeys rounds keys).Ensures cluster.serve ok (Orderly I K blobId)
      (fun r s' => I s' ∧ (∀ k ∈ s'.inodes, k ∈ s.inodes) ∧ (r = true → ∀ k ∈ keys, k ∉ s'.inodes))
        s := by
  induction keys generalizing s with
  | nil => exact ⟨hs, fun _ hk => hk, fun _ _ hk => absurd hk not_mem_nil⟩
  | cons k keys ih =>
    have hk := hkeys k mem_cons_self
    refine (ensures_deleteNssKey (J := fun s' => I s' ∧ ∀ k ∈ s'.inodes, k ∈ s.inodes)
      (fun s' hs' =>
      ⟨.inr ⟨hk, hs'.1⟩, hrule.row s' k hk hs'.1, fun k' hk' => hs'.2 k' (mem_without.mp hk').2⟩)
      rounds ⟨hs, fun _ hk' => hk'⟩).bind ?_
    rintro deleted s₁ ⟨⟨hs₁, hsub₁⟩, hgone⟩
    refine (ih (fun k' hk' => hkeys k' (mem_cons_of_mem _ hk')) hs₁).bind ?_
    rintro rest s₂ ⟨hs₂, hsub₂, hrest⟩
    refine ⟨hs₂, fun k' hk' => hsub₁ k' (hsub₂ k' hk'), fun hboth k' hk' hstored => ?_⟩
    obtain ⟨rfl, rfl⟩ := Bool.and_eq_true_iff.mp hboth
    rcases mem_cons.mp hk' with rfl | hk'
    · exact hgone rfl (hsub₂ _ hstored)
    · exact hrest rfl k' hk' hstored

theorem ensures_deleteMarker (hrule : SweepRule blobId I K) (rounds : Nat)
    (hnone : ¬ s.HasRow blobId) (hs : K s) :
    (deleteNssKey rounds (ovrGcKey blobId)).Ensures cluster.serve ok (Orderly I K blobId)
      (fun r s' => K s' ∧ (r = true → ¬ s'.HasRow blobId ∧ ¬ s'.HasMarker blobId)) s := by
  have hkeep : ∀ s, ¬ s.HasRow blobId ∧ K s → Orderly I K blobId s (.deleteInode (ovrGcKey blobId))
      ∧ ¬ (s.without [ovrGcKey blobId]).HasRow blobId ∧ K (s.without [ovrGcKey blobId]) := by
    rintro s ⟨hnone, hs⟩
    refine ⟨.inl ⟨rfl, hnone, hs⟩, ?_, hrule.marker s hnone hs⟩
    rintro ⟨k, hk, hrow⟩
    exact hnone ⟨k, (mem_without.mp hk).2, hrow⟩
  refine (ensures_deleteNssKey hkeep rounds ⟨hnone, hs⟩).mono ?_
  rintro r s' ⟨⟨hnone, hs'⟩, hgone⟩
  exact ⟨hs', fun hr => ⟨hnone, hgone hr⟩⟩

theorem ensures_deleteOvrRows (hrule : SweepRule blobId I K) (hclamp : 0 < cluster.clamp)
    (hlists : ∀ n keyPrefix after d, ok (.listInodes n keyPrefix after) d → d ≠ .noRootBlob)
    (rounds : Nat) (attempt : Attempt) (pages : Nat) {startAfter : Bytes}
    (hswept : SweptTo blobId startAfter s) (hs : K s) :
    (deleteOvrRows rounds attempt blobId pages startAfter).Ensures cluster.serve ok
      (Orderly I K blobId) (fun r s' => K s'
        ∧ (r = true → ¬ s'.HasRow blobId ∧ ¬ s'.HasMarker blobId)) s := by
  induction pages generalizing startAfter s with
  | zero => exact ⟨hs, nofun⟩
  | succ pages ih =>
    let page := cluster.listPage s.inodes 1000 (ovrRowPrefix blobId) startAfter
    have hcall : ∀ s₁, s = s₁ →
        (perform (Op.listInodes 1000 (ovrRowPrefix blobId) startAfter) : Call _).Ensures
          cluster.serve ok (Orderly I K blobId)
        (fun r s' => s = s' ∧ ∀ resp, r = .ok resp → resp = .ok page.1 page.2 ∨ resp = .errOther)
          s₁ := by
      rintro _ rfl
      refine ⟨trivial, fun d hd => ?_⟩
      cases d with
      | answered => exact ⟨rfl, fun resp hresp => .inl (Except.ok.inj hresp).symm⟩
      | replyLost | garbled | dropped => exact ⟨rfl, nofun⟩
      | refused => exact ⟨rfl, fun resp hresp => .inr (Except.ok.inj hresp).symm⟩
      | noRootBlob => exact absurd rfl (hlists _ _ _ _ hd)
    unfold deleteOvrRows
    refine (ensures_nssRpcRetry (fun _ _ => ⟨trivial, trivial⟩) hcall (fun _ _ hr => hr.1) rounds
      rfl).bind ?_
    rintro r _ ⟨rfl, hresp⟩
    cases r with
    | error e => exact ⟨hs, nofun⟩
    | ok resp =>
      rcases hresp resp rfl with rfl | rfl
      · dsimp only
        split
        · next hlast =>
          -- an empty page of a service that lists at least one key is the last one
          have hempty : page.1 = [] := map_eq_nil_iff.mp (List.getLast?_eq_none_iff.mp hlast)
          have hmore : page.2 = false := by
            rcases take_eq_nil_iff.mp hempty with hzero | hnil
            · omega
            · exact decide_eq_false (by rw [hnil]; exact Nat.not_lt_zero _)
          refine ensures_deleteMarker hrule rounds ?_ hs
          rintro ⟨k, hk, hrow⟩
          have hkey := row_on_last_page hswept hmore hk hrow
          rw [hempty] at hkey
          cases hkey
        · next nextStartAfter hlast =>
          have hpage : ∀ k ∈ attempt.order (pageKeys page.1), ovrRowPrefix blobId <+: k ∧ I s := by
            intro k hk
            obtain ⟨e, he, rfl⟩ := mem_map.mp ((attempt.order_perm _).mem_iff.mp hk)
            obtain ⟨hvalue, hlisted⟩ := mem_of_listPage he
            have hunder := under_of_nulTerminated hlisted
            have hstored : e.1 ∈ s.inodes := Std.ExtTreeMap.mem_iff_isSome_getElem?.mpr
              (by rw [hvalue]; rfl)
            exact ⟨under_trimEndMatches hunder, hrule.found s e.1 hs hstored hunder⟩
          have hfound : I s :=
            (hpage _ ((attempt.order_perm _).mem_iff.mpr (mem_of_getLast? hlast))).2
          refine (ensures_deleteNssKeys hrule rounds (fun k hk => (hpage k hk).1) hfound).bind ?_
          rintro deleted s₁ ⟨hs₁, hsub, hgone⟩
          cases deleted with
          | false => exact ⟨hrule.keep s₁ hs₁, nofun⟩
          | true =>
            have hleft : ∀ k ∈ s₁.inodes, k ∈ s.inodes ∧ k ∉ pageKeys page.1 := fun k hk =>
              ⟨hsub k hk, fun hon => hgone rfl k ((attempt.order_perm _).mem_iff.mpr hon) hk⟩
            show (if page.2 = false then deleteNssKey rounds (ovrGcKey blobId)
              else deleteOvrRows rounds attempt blobId pages nextStartAfter : Call Bool).Ensures _ _
                _ _ _
            split
            · next hmore =>
              refine ensures_deleteMarker hrule rounds ?_ (hrule.keep s₁ hs₁)
              rintro ⟨k, hk, hrow⟩
              exact (hleft k hk).2 (row_on_last_page hswept hmore (hleft k hk).1 hrow)
            · refine ih ?_ (hrule.keep s₁ hs₁)
              intro k hk hrow
              exact row_after_page hswept hlast (hleft k hk).1 hrow (hleft k hk).2
      · exact ⟨hs, nofun⟩

theorem ensures_ensureMarker {deletion : Deletion}
    (hblob : deletion.request.blobGuid.blobId = blobId) (hJ : ∀ s, J s → J (s.marked blobId)
    ∧ M (s.marked blobId)) (hwritten : deletion.markerWritten = true → M s) (hskip :
      ∀ s k value d, J s → ok (.putInode k value) d → d = .refused ∨ d = .noRootBlob → M s)
      (rounds : Nat)
    (hs : J s) : (ensureMarker rounds deletion).Ensures cluster.serve ok (Orderly I K blobId)
      (fun r s' => J s' ∧ (r = true → M s') ∧ (r = false → deletion.markerWritten = false)) s := by
  unfold ensureMarker
  split
  · next hmarked => exact ⟨hs, fun _ => hwritten hmarked, nofun⟩
  · next hmarked =>
    have hcall : ∀ s, J s →
        (perform (Op.putInode (ovrGcKey blobId) (.raw (ascii "gc"))) : Call _).Ensures cluster.serve
          ok (Orderly I K blobId) (fun r s' => J s' ∧ ∀ resp, r = .ok resp → M s') s := by
      intro s hs
      refine ⟨rfl, fun d hd => ?_⟩
      cases d with
      | answered => exact ⟨(hJ s hs).1, fun _ _ => (hJ s hs).2⟩
      | replyLost | garbled => exact ⟨(hJ s hs).1, nofun⟩
      | dropped => exact ⟨hs, nofun⟩
      | refused => exact ⟨hs, fun _ _ => hskip s _ _ _ hs hd (.inl rfl)⟩
      | noRootBlob => exact ⟨hs, fun _ _ => hskip s _ _ _ hs hd (.inr rfl)⟩
    rw [hblob]
    refine (ensures_nssRpcRetry (fun _ _ => ⟨trivial, trivial⟩) hcall (fun _ _ hr => hr.1) rounds
      hs).bind ?_
    rintro r s' ⟨hs', hresp⟩
    cases r with
    | error e => exact ⟨hs', nofun, fun _ => Bool.eq_false_iff.mpr hmarked⟩
    | ok resp => exact ⟨hs', fun _ => hresp resp rfl, nofun⟩

theorem ensures_deleteMarkedBlob (hclamp : 0 < cluster.clamp)
    (hlists : ∀ n keyPrefix after d, ok (.listInodes n keyPrefix after) d → d ≠ .noRootBlob)
    (rounds : Nat) (attempt : Attempt) (deletion : Deletion)
    (hrule : (deletion.blocksDeleted || deletion.blocksDeletedBy attempt) = true →
      SweepRule blobId I K)
    (hblob : deletion.request.blobGuid.blobId = blobId) (hs : K s) :
    (deleteMarkedBlob rounds attempt deletion).Ensures cluster.serve ok (Orderly I K blobId)
      (fun r s' => K s'
        ∧ (r.1 = true → deletion.request.mapped = true → ¬ s'.HasRow blobId ∧ ¬ s'.HasMarker blobId)
        ∧ ∃ graceUntil blocksDeleted, r.2 = { deletion with graceUntil, blocksDeleted }
          ∧ (blocksDeleted = false → deletion.blocksDeleted = false ∧ s' = s)
          ∧ (blocksDeleted = true →
            (deletion.blocksDeleted || deletion.blocksDeletedBy attempt) = true)) s := by
  have hbefore : deletion.blocksDeleted = true →
      (deletion.blocksDeleted || deletion.blocksDeletedBy attempt) = true := fun h => by simp [h]
  unfold deleteMarkedBlob
  split
  · exact ⟨hs, nofun, deletion.graceUntil, deletion.blocksDeleted, rfl, fun h => ⟨h, rfl⟩, hbefore⟩
  · next hgrace =>
    dsimp only
    split
    · exact ⟨hs, nofun, none, deletion.blocksDeleted, rfl, fun h => ⟨h, rfl⟩, hbefore⟩
    · next hblocks =>
      have hgone : (deletion.blocksDeleted || deletion.blocksDeletedBy attempt) = true := by
        cases hflag : deletion.blocksDeleted with
        | true => rfl
        | false =>
          have hok : attempt.blocksOk = true := not_not.mp fun h =>
            hblocks ⟨hflag, by simpa using h⟩
          simp [Deletion.blocksDeletedBy, Deletion.DeletesBlocks, hflag, hok,
            Bool.eq_false_iff.mpr hgrace]
      split
      · rw [hblob]
        refine (ensures_deleteOvrRows (hrule hgone) hclamp hlists rounds attempt attempt.pages
          (sweptTo_nil s) hs).bind ?_
        rintro deleted s' ⟨hs', hleft⟩
        exact ⟨hs', fun hr _ => hleft hr, none, true, rfl, nofun, fun _ => hgone⟩
      · next hmapped =>
        exact ⟨hs, fun _ h => absurd h hmapped, none, true, rfl, nofun, fun _ => hgone⟩

theorem ensures_deleteBlobOnce (hrule : SweepRule blobId I K)
    (hmark : ∀ s, K s → K (s.marked blobId)) (hclamp : 0 < cluster.clamp)
    (hlists : ∀ n keyPrefix after d, ok (.listInodes n keyPrefix after) d → d ≠ .noRootBlob)
    (rounds : Nat) (attempt : Attempt) {deletion : Deletion}
    (hblob : deletion.request.blobGuid.blobId = blobId) (hs : K s) :
    (deleteBlobOnce rounds attempt deletion).Ensures cluster.serve ok (Orderly I K blobId)
      (fun r s' => K s'
        ∧ (r.1 = true → deletion.request.mapped = true → ¬ s'.HasRow blobId
          ∧ ¬ s'.HasMarker blobId)) s := by
  refine (ensures_ensureMarker (J := K) (M := fun _ => True) hblob
    (fun s hs => ⟨hmark s hs, trivial⟩) (fun _ => trivial) (fun _ _ _ _ _ _ _ => trivial) rounds
      hs).bind ?_
  rintro marked s₁ ⟨hs₁, -, -⟩
  cases marked with
  | false => exact ⟨hs₁, nofun⟩
  | true =>
    exact (ensures_deleteMarkedBlob hclamp hlists rounds attempt
      { deletion with markerWritten := true } (fun _ => hrule) hblob hs₁).mono fun r s' h =>
        ⟨h.1, h.2.1⟩

end

end FractalBits.Objects
