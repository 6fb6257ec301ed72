/-
  Objects.ListParts — the pages of `ListParts`.

  Mirrors `fetch_mpu_parts` of `list_parts.rs`.
-/

import FractalBits.Objects.CompleteUpload
import FractalBits.Objects.Requests

namespace FractalBits.Objects

open Lib Streaming Gateway List
open OvrMap (Uuid)

/-! ## §1. One page -/

def Numbered (parts : List ListedPart) : Prop := parts.Pairwise fun p q =>
    p.partNumber < q.partNumber

def behind (marker : Option Nat) (parts : List ListedPart) : List ListedPart :=
  parts.filter fun part => ∀ m ∈ marker, m < part.partNumber

section

variable {overflowChecks : Bool} {parts : List ListedPart} {marker : Option Nat} {maxParts : Nat}

theorem behind_none (parts : List ListedPart) : behind none parts = parts := by
  apply filter_eq_self.mpr
  intro part _
  simp

variable (h : Numbered parts)

include h

theorem Numbered.ascending (next : Nat) : Ascending (orderOf next) parts := by
  apply List.Pairwise.imp _ h
  intro p q hpq hge
  have hle : next ≤ p.partNumber := Nat.le_of_not_lt fun hlt => hge (Nat.compare_eq_lt.mpr hlt)
  exact Nat.compare_eq_gt.mpr (Nat.lt_of_le_of_lt hle hpq)

theorem Numbered.search (next : Nat) :
    parts.drop (searchIndex (binarySearchBy (orderOf next) parts)) = parts.filter fun part =>
      next ≤ part.partNumber := by
  rw [drop_binarySearchBy (h.ascending next)]
  apply filter_congr
  intro part _
  have horder : orderOf next part ≠ .lt ↔ next ≤ part.partNumber := by
    rw [orderOf, Ne, Nat.compare_eq_lt, Nat.not_lt]
  simp only [horder]

theorem cutBeginning_eq (hmarker : ∀ m ∈ marker, m + 1 < 2 ^ 32) :
    cutBeginning overflowChecks parts marker = some (behind marker parts) := by
  cases marker with
  | none => rw [behind_none, cutBeginning]
  | some m =>
    have hm := hmarker m rfl
    have hnext : nextNumber overflowChecks m = some (m + 1) := by
      unfold nextNumber
      rw [if_neg (fun h => absurd h.2 (Nat.ne_of_lt hm)), Nat.mod_eq_of_lt hm]
    rw [cutBeginning, hnext]
    show some (parts.drop (searchIndex (binarySearchBy (orderOf (m + 1)) parts))) = _
    rw [h.search, behind]
    congr 1
    apply filter_congr
    intro part _
    simp only [Option.mem_some_iff, forall_eq', Nat.succ_le_iff]

theorem cutBeginning_max :
    cutBeginning overflowChecks parts (some (2 ^ 32 - 1)) = if overflowChecks then none
      else some parts := by
  cases overflowChecks with
  | true => rfl
  | false =>
    have hsearch := h.search 0
    show some (parts.drop (searchIndex (binarySearchBy (orderOf 0) parts))) = some parts
    rw [hsearch]
    congr 1
    exact filter_eq_self.mpr fun part _ => by simp

theorem cut_eq (hmarker : ∀ m ∈ marker, m + 1 < 2 ^ 32) (maxParts : Nat) :
    cut overflowChecks parts marker maxParts = cutEnd (behind marker parts) maxParts := by
  rw [cut, cutBeginning_eq h hmarker]
  rfl

omit h in
theorem cutEnd_of_le (h : parts.length ≤ maxParts) : cutEnd parts maxParts = some
    (parts, none) := by
  rw [cutEnd, if_neg (Nat.not_lt.mpr h)]

omit h in
theorem cutEnd_of_lt (h : maxParts < parts.length) :
    cutEnd parts maxParts
      = (parts.take maxParts).getLast?.map fun last =>
        (parts.take maxParts, some last.partNumber) := by
  rw [cutEnd, if_pos h]
  show ((parts.take maxParts).getLast?.bind fun last => some
    (parts.take maxParts, some last.partNumber)) = _
  rw [Option.map_eq_bind]
  rfl

omit h in
theorem cutEnd_cut (hpos : 0 < maxParts) (h : maxParts < parts.length) :
    ∃ last, (parts.take maxParts).getLast? = some last
      ∧ cutEnd parts maxParts = some (parts.take maxParts, some last.partNumber) := by
  have hne : parts.take maxParts ≠ [] := by
    apply ne_nil_of_length_pos
    rw [length_take]
    omega
  refine ⟨_, List.getLast?_eq_some_getLast hne, ?_⟩
  rw [cutEnd_of_lt h, List.getLast?_eq_some_getLast hne]
  rfl

omit h in
theorem cutEnd_ne_nil (hne : parts ≠ []) {page : List ListedPart} {next : Option Nat}
    (h : cutEnd parts maxParts = some (page, next)) : page ≠ [] := by
  by_cases hlength : maxParts < parts.length
  · rw [cutEnd_of_lt hlength] at h
    obtain ⟨last, hlast, hpage⟩ := Option.map_eq_some_iff.mp h
    injection hpage with hpage
    rintro rfl
    rw [hpage] at hlast
    cases hlast
  · rw [cutEnd_of_le (Nat.le_of_not_lt hlength)] at h
    cases h
    exact hne

omit h in
theorem cutEnd_sublist {page : List ListedPart} {next : Option Nat}
    (h : cutEnd parts maxParts = some (page, next)) :
    page.Sublist parts := by
  by_cases hlength : maxParts < parts.length
  · rw [cutEnd_of_lt hlength] at h
    obtain ⟨last, -, hpage⟩ := Option.map_eq_some_iff.mp h
    injection hpage with hpage
    rw [← hpage]
    exact take_sublist _ _
  · rw [cutEnd_of_le (Nat.le_of_not_lt hlength)] at h
    cases h
    exact .refl _

/-- **A page is one**: an answer, with parts in ascending order, all behind the marker and not too
    many. -/
def GoodPage (marker : Option Nat) (maxParts : Nat)
    (r : Option (List ListedPart × Option Nat)) : Prop :=
  ∃ page next, r = some (page, next) ∧ Numbered page
    ∧ (∀ part ∈ page, ∀ m ∈ marker, m < part.partNumber)
    ∧ page.length ≤ maxParts

theorem goodPage_cutEnd_iff (hbehind : ∀ part ∈ parts, ∀ m ∈ marker, m < part.partNumber) :
    GoodPage marker maxParts (cutEnd parts maxParts) ↔ (maxParts = 0 → parts = []) := by
  constructor
  · rintro ⟨page, next, hcut, -, -, hlength⟩ hzero
    by_contra hne
    have hpage := length_pos_of_ne_nil (cutEnd_ne_nil hne hcut)
    omega
  · intro hzero
    by_cases hlength : maxParts < parts.length
    · have hpos : 0 < maxParts := by
        apply Nat.pos_of_ne_zero
        intro hmax
        rw [hzero hmax, length_nil] at hlength
        omega
      obtain ⟨last, -, hcut⟩ := cutEnd_cut hpos hlength
      refine ⟨_, _, hcut, h.sublist (take_sublist _ _), ?_, length_take_le _ _⟩
      exact fun part hpart => hbehind part (mem_of_mem_take hpart)
    · have hle := Nat.le_of_not_lt hlength
      exact ⟨_, _, cutEnd_of_le hle, h, hbehind, hle⟩

theorem behind_numbered (marker : Option Nat) : Numbered (behind marker parts) :=
  h.sublist filter_sublist

omit h in
theorem mem_behind {part : ListedPart} :
    part ∈ behind marker parts ↔ part ∈ parts ∧ ∀ m ∈ marker, m < part.partNumber := by
  rw [behind, mem_filter, decide_eq_true_iff]

/-- ★ **When a page is one.** The last marker there is must not be used, unless it wraps and there
    are no parts; and no page of size zero may be asked for where there are parts. -/
theorem goodPage_cut_iff (hsmall : ∀ part ∈ parts, part.partNumber < 2 ^ 32 - 1)
    (hmarker : ∀ m ∈ marker, m < 2 ^ 32) :
    GoodPage marker maxParts (cut overflowChecks parts marker maxParts) ↔
      (marker = some (2 ^ 32 - 1) → overflowChecks = false ∧ parts = []) ∧
      (maxParts = 0 → behind marker parts = []) := by
  by_cases hmax : marker = some (2 ^ 32 - 1)
  · subst hmax
    rw [cut, cutBeginning_max h]
    constructor
    · rintro ⟨page, next, hcut, -, hbehind, -⟩
      cases overflowChecks with
      | true => cases hcut
      | false =>
        have hcut : cutEnd parts maxParts = some (page, next) := hcut
        have hnil : parts = [] := by
          by_contra hne
          -- some part would have to be behind the last number there is
          obtain ⟨part, hpart⟩ := exists_mem_of_ne_nil page (cutEnd_ne_nil hne hcut)
          have hlow := hsmall part ((cutEnd_sublist hcut).subset hpart)
          have hhigh := hbehind part hpart _ rfl
          omega
        refine ⟨fun _ => ⟨rfl, hnil⟩, fun _ => ?_⟩
        rw [hnil]
        rfl
    · rintro ⟨hlast, -⟩
      obtain ⟨rfl, rfl⟩ := hlast rfl
      exact ⟨[], none, rfl, List.Pairwise.nil, fun part hpart => absurd hpart not_mem_nil,
        Nat.zero_le _⟩
  · have hnext : ∀ m ∈ marker, m + 1 < 2 ^ 32 := by
      intro m hm
      have hlt := hmarker m hm
      have hne : m ≠ 2 ^ 32 - 1 := by
        rintro rfl
        exact hmax hm
      omega
    rw [cut_eq h hnext, goodPage_cutEnd_iff (behind_numbered h marker) fun part hpart =>
      (mem_behind.mp hpart).2]
    exact ⟨fun hzero => ⟨fun hlast => absurd hlast hmax, hzero⟩, fun hboth => hboth.2⟩

/-! ## §2. All pages -/

/-- Following the markers from `marker` on, until a page is not truncated, collects these parts. -/
inductive Follows (page : Option Nat → Option (List ListedPart × Option Nat)) :
    Option Nat → List ListedPart → Prop
  | last {marker : Option Nat} {parts : List ListedPart} (h : page marker = some (parts, none)) :
      Follows page marker parts
  | more {marker : Option Nat} {next : Nat} {parts rest : List ListedPart}
      (h : page marker = some (parts, some next)) (hrest : Follows page (some next) rest) :
      Follows page marker (parts ++ rest)

omit h in
theorem Follows.unique {page : Option Nat → Option (List ListedPart × Option Nat)}
    {all all' : List ListedPart} (h : Follows page marker all) (h' : Follows page marker all') :
    all = all' := by
  induction h generalizing all' with
  | last h =>
    cases h' with
    | last h' =>
      rw [h] at h'
      cases h'
      rfl
    | more h' _ =>
      rw [h] at h'
      cases h'
  | more h _ ih =>
    cases h' with
    | last h' =>
      rw [h] at h'
      cases h'
    | more h' hrest =>
      rw [h] at h'
      cases h'
      rw [ih hrest]

theorem filter_after_last {last : ListedPart} {k : Nat}
    (hlast : (parts.take k).getLast? = some last) :
    (parts.filter fun part => last.partNumber < part.partNumber) = parts.drop k := by
  have hsplit : parts = parts.take k ++ parts.drop k := (take_append_drop k parts).symm
  have hpairs : Numbered (parts.take k ++ parts.drop k) := by rwa [← hsplit]
  obtain ⟨hfront, -, hcross⟩ := pairwise_append.mp hpairs
  have hmem : last ∈ parts.take k := mem_of_getLast? hlast
  -- in the page nothing is behind its last part
  have hnone : ((parts.take k).filter fun part => last.partNumber < part.partNumber) = [] := by
    apply filter_eq_nil_iff.mpr
    intro part hpart hafter
    obtain ⟨init, hinit⟩ := List.getLast?_eq_some_iff.mp hlast
    rw [hinit] at hfront hpart
    have hafter : last.partNumber < part.partNumber := by simpa using hafter
    rcases mem_append.mp hpart with hpart | hpart
    · have hbefore := (pairwise_append.mp hfront).2.2 part hpart last (mem_singleton.mpr rfl)
      omega
    · rw [mem_singleton.mp hpart] at hafter
      omega
  have hall : ((parts.drop k).filter fun part => last.partNumber < part.partNumber)
      = parts.drop k := by
    apply filter_eq_self.mpr
    intro part hpart
    simpa using hcross last hmem part hpart
  conv_lhs => rw [hsplit]
  rw [filter_append, hnone, hall, nil_append]

omit h in
theorem behind_later {last : ListedPart} (hlast : ∀ m ∈ marker, m < last.partNumber) :
    behind (some last.partNumber) parts
      = (behind marker parts).filter fun part => last.partNumber < part.partNumber := by
  unfold behind
  rw [filter_filter]
  apply filter_congr
  intro part _
  by_cases hafter : last.partNumber < part.partNumber
  · have hmarker : ∀ m ∈ marker, m < part.partNumber := fun m hm => Nat.lt_trans (hlast m hm) hafter
    rw [decide_eq_true hmarker]
    simp [hafter]
  · simp [hafter]

theorem follows_cut (hsmall : ∀ part ∈ parts, part.partNumber < 2 ^ 32 - 1) (hpos : 0 < maxParts)
    (hmarker : ∀ m ∈ marker, m + 1 < 2 ^ 32) :
    Follows (cut overflowChecks parts · maxParts) marker (behind marker parts) := by
  induction hlength : (behind marker parts).length using Nat.strong_induction_on generalizing
    marker with
  | _ n ih =>
    by_cases hfits : (behind marker parts).length ≤ maxParts
    · apply Follows.last
      rw [cut_eq h hmarker, cutEnd_of_le hfits]
    · obtain ⟨last, hlast, hcut⟩ := cutEnd_cut hpos (Nat.lt_of_not_le hfits)
      have hin : last ∈ behind marker parts := mem_of_mem_take (mem_of_getLast? hlast)
      obtain ⟨hpart, hafter⟩ := mem_behind.mp hin
      have hrest : behind (some last.partNumber) parts = (behind marker parts).drop maxParts := by
        rw [behind_later hafter, filter_after_last (behind_numbered h marker) hlast]
      have hnext : ∀ m ∈ some last.partNumber, m + 1 < 2 ^ 32 := by
        intro m hm
        have hlow := hsmall last hpart
        rw [← Option.mem_some_iff.mp hm]
        omega
      have hshorter : (behind (some last.partNumber) parts).length < n := by
        rw [hrest, length_drop]
        omega
      have hfollows := ih _ hshorter hnext rfl
      rw [hrest] at hfollows
      rw [← take_append_drop maxParts (behind marker parts)]
      exact Follows.more ((cut_eq h hmarker maxParts).trans hcut) hfollows

end

/-! ## §3. The parts of an upload -/

structure PendingUpload (parseUuid : Bytes → Option Uuid) (key uploadId : Bytes) (versionId : Uuid)
    (parts : List (Nat × Layout)) (s : Site) : Prop where
  parsed : parseUuid uploadId = some versionId
  holds : HoldsParts key versionId parts s.inodes
  numbers : ∀ part ∈ parts, IsPartNumber part.1
  sorted : parts.Pairwise fun p q => p.1 < q.1
  normal : ∀ part ∈ parts, part.2.IsNormal

def shownPart (part : Nat × Layout) : ListedPart where
  partNumber := part.1
  etag := part.2.etag.toOption.getD []
  size := partSize part
  lastModified := part.2.timestamp
  checksum := part.2.checksum.toOption.bind id

def firstReply (cluster : Cluster) (parts : List (Nat × Layout)) : List (Nat × Layout) :=
  parts.take (min 10000 cluster.clamp)

def partsPage (cluster : Cluster) (rounds : Nat) (overflowChecks : Bool)
    (parseUuid : Bytes → Option Uuid) (key uploadId : Bytes) (maxParts : Nat) (s : Site)
    (marker : Option Nat) :
    Option (List ListedPart × Option Nat) :=
  match ((fetchMpuParts rounds overflowChecks parseUuid key ⟨some maxParts, marker, uploadId⟩
    maxParts).run.exec
      cluster.answer s).1 with
  | .ok page => page
  | .error _ => none

def ListsEachOnce (page : Option Nat → Option (List ListedPart × Option Nat))
    (parts : List (Nat × Layout)) : Prop :=
  ∃ all, Follows page none all ∧ all.map ListedPart.partNumber = parts.map Prod.fst

section

variable {cluster : Cluster} {parseUuid : Bytes → Option Uuid} {key uploadId : Bytes}
  {versionId : Uuid} {parts : List (Nat × Layout)} {s : Site}

theorem listPart_stored {part : Nat × Layout} (hpart : IsPartNumber part.1)
    (hnormal : part.2.IsNormal) :
    listPart (partEntry key versionId part) = .ok (some (shownPart part)) := by
  obtain ⟨guid, core, hstate⟩ := hnormal
  have hetag : part.2.etag = .ok core.etag := by rw [Layout.etag, hstate]
  have hsize : part.2.size = .ok core.size := by rw [Layout.size, hstate]
  have hchecksum : part.2.checksum = .ok core.checksum := by rw [Layout.checksum, hstate]
  have hnumber : mpuParsePartNumber (mpuGetPartPrefix key versionId part.1) = .ok part.1 :=
    mpuParsePartNumber_partKey hpart.1 hpart.2
  unfold listPart partEntry shownPart partSize
  rw [hetag, hsize, hnumber, hchecksum]
  rfl

theorem mapM_listPart (hparts : ∀ part ∈ parts, IsPartNumber part.1 ∧ part.2.IsNormal) :
    (parts.map (partEntry key versionId)).mapM listPart = .ok
      (parts.map fun part => some (shownPart part)) := by
  induction parts with
  | nil => rfl
  | cons part parts ih =>
    obtain ⟨hnumber, hnormal⟩ := hparts part mem_cons_self
    rw [map_cons, mapM_cons, listPart_stored hnumber hnormal,
      ih fun p hp => hparts p (mem_cons_of_mem part hp)]
    rfl

theorem reduceOption_map_some {α β : Type} (f : α → β) (l : List α) :
    (l.map fun a => some (f a)).reduceOption = l.map f := by
  induction l with
  | nil => rfl
  | cons a l ih => rw [map_cons, reduceOption_cons_of_some, ih, map_cons]

variable (h : PendingUpload parseUuid key uploadId versionId parts s)

include h

theorem PendingUpload.page_eq (cluster : Cluster)
    (rounds : Nat) (overflowChecks : Bool) (maxParts : Nat) (marker : Option Nat) :
    partsPage cluster rounds overflowChecks parseUuid key uploadId maxParts s marker
      = cut overflowChecks ((firstReply cluster parts).map shownPart) marker maxParts := by
  have hfirst : ∀ part ∈ firstReply cluster parts, part ∈ parts := fun part => mem_of_mem_take
  have hlist : (listRawObjects rounds 10000 (mpuGetPartPrefix key versionId 0) []).run.exec
      cluster.answer s = (.ok ((firstReply cluster parts).map (partEntry key versionId)), s) := by
    rw [exec_listRawObjects, h.holds.page h.numbers h.sorted, rawObjects_parts fun part hpart =>
      h.numbers part (mem_of_mem_take hpart)]
    rfl
  have hparts : ((firstReply cluster parts).map (partEntry key versionId)).mapM listPart = .ok _ :=
    mapM_listPart fun part hpart =>
      ⟨h.numbers part (hfirst part hpart), h.normal part (hfirst part hpart)⟩
  unfold partsPage fetchMpuParts
  simp only [h.parsed]
  rw [exec_of_ok hlist, hparts, exec_of_ok (exec_orFail_ok id _ _), reduceOption_map_some]
  rfl

theorem PendingUpload.numbered (cluster : Cluster) :
    Numbered ((firstReply cluster parts).map shownPart) := by
  apply pairwise_map.mpr
  exact (h.sorted.sublist (take_sublist _ _)).imp fun hlt => hlt

theorem PendingUpload.small (cluster : Cluster) :
    ∀ part ∈ (firstReply cluster parts).map shownPart, part.partNumber < 2 ^ 32 - 1 := by
  intro part hpart
  obtain ⟨stored, hstored, rfl⟩ := mem_map.mp hpart
  have hnumber := h.numbers stored (mem_of_mem_take hstored)
  show stored.1 < 2 ^ 32 - 1
  have hle := hnumber.2
  omega

omit h in
theorem behind_shown_nil_iff {marker : Option Nat} :
    behind marker (parts.map shownPart) = [] ↔ ∀ part ∈ parts, ∃ m ∈ marker, part.1 ≤ m := by
  unfold behind
  rw [filter_eq_nil_iff]
  simp only [mem_map, forall_exists_index, and_imp, forall_apply_eq_imp_iff₂, decide_eq_true_eq,
    not_forall, Nat.not_lt]
  exact forall₂_congr fun part _ => exists_congr fun m => exists_prop

omit h in
/-- ★ **Paging through the parts.** For every pending upload and marker, and either treatment of
    overflow: the page is one if and only if the marker is not the largest there is (without
    overflow checks it may be if nothing is listed), and a page of size zero is asked for only
    behind all that is listed. Following the markers lists every part exactly once if and only if
    one reply holds them all. -/
theorem list_parts_iff (h : PendingUpload parseUuid key uploadId versionId parts s)
    (cluster : Cluster) (rounds : Nat) (overflowChecks : Bool) :
    (∀ (maxParts : Nat) (marker : Option Nat), (∀ m ∈ marker, m < 2 ^ 32) →
      (GoodPage marker maxParts (partsPage cluster rounds overflowChecks parseUuid key uploadId
        maxParts s marker) ↔
        (marker = some (2 ^ 32 - 1) → overflowChecks = false ∧ firstReply cluster parts = []) ∧
        (maxParts = 0 → ∀ part ∈ firstReply cluster parts, ∃ m ∈ marker, part.1 ≤ m))) ∧
    (∀ maxParts, 1 ≤ maxParts →
      (ListsEachOnce (partsPage cluster rounds overflowChecks parseUuid key uploadId maxParts s)
        parts ↔
        parts.length ≤ cluster.clamp)) := by
  constructor
  · intro maxParts marker hmarker
    rw [h.page_eq, goodPage_cut_iff (h.numbered cluster) (h.small cluster) hmarker,
      behind_shown_nil_iff, map_eq_nil_iff]
  · intro maxParts hpos
    have hpages : partsPage cluster rounds overflowChecks parseUuid key uploadId maxParts s
        = (cut overflowChecks ((firstReply cluster parts).map shownPart) · maxParts) :=
      funext fun marker => h.page_eq cluster rounds overflowChecks maxParts marker
    -- the markers lead through everything that the one reply holds
    have hfollows :
        Follows (cut overflowChecks ((firstReply cluster parts).map shownPart) · maxParts) none
          ((firstReply cluster parts).map shownPart) := by
      have hnone : ∀ m ∈ (none : Option Nat), m + 1 < 2 ^ 32 := fun m hm =>
        absurd hm (Option.not_mem_none m)
      have hall : Follows (cut overflowChecks ((firstReply cluster parts).map shownPart) · maxParts)
        none _ :=
        follows_cut (h.numbered cluster) (h.small cluster) hpos hnone
      rwa [behind_none] at hall
    have hnumbers : ((firstReply cluster parts).map shownPart).map ListedPart.partNumber
        = (firstReply cluster parts).map Prod.fst := by
      rw [map_map]
      rfl
    have hlength := length_le_of_sorted h.numbers h.sorted
    rw [hpages]
    constructor
    · rintro ⟨all, hall, heach⟩
      -- there is one way to follow the markers, so what it lists is the first reply
      rw [hall.unique hfollows, hnumbers] at heach
      have hcount := congrArg List.length heach
      rw [length_map, length_map, firstReply, length_take] at hcount
      omega
    · intro hfits
      have hwhole : firstReply cluster parts = parts :=
        take_of_length_le (Nat.le_min.mpr ⟨hlength, hfits⟩)
      refine ⟨_, hfollows, ?_⟩
      rw [hnumbers, hwhole]

end

theorem Session.pendingUpload {cluster : Cluster} {K : Checksums} {parseUuid : Bytes → Option Uuid}
    {key : Bytes} {versionId : Uuid} {parts order : List PartBody} {req : CompleteRequest}
    {s : Site} (h : Session cluster K parseUuid key versionId parts order req s) (timestamp : Nat) :
    PendingUpload parseUuid key (Uuid.asSimple versionId) versionId (storedParts parts)
      ((s.created key versionId timestamp).withParts key versionId order) where
  parsed := h.parsed
  holds := h.holdsParts timestamp
  numbers := h.stored_numbers
  sorted := h.stored_sorted
  normal := h.stored_normal

theorem pendingUpload_twoPartSite :
    PendingUpload sampleParse (ascii "/k") (Uuid.asSimple 1) 1 (storedParts (sampleBodies 2))
      twoPartSite :=
  (session_sampleBodies (n := 2) (by decide)).pendingUpload 0

theorem list_parts_at_sample :
    GoodPage (some 1) 1 (partsPage sampleCluster 0 true sampleParse (ascii "/k") (Uuid.asSimple 1) 1
      twoPartSite (some 1))
      ∧ ListsEachOnce (partsPage sampleCluster 0 true sampleParse (ascii "/k") (Uuid.asSimple 1) 1
        twoPartSite) (storedParts (sampleBodies 2)) := by
  obtain ⟨hpage, hall⟩ := list_parts_iff pendingUpload_twoPartSite sampleCluster 0 true
  constructor
  · apply (hpage 1 (some 1) (by decide)).mpr
    exact ⟨by decide, by decide⟩
  · exact (hall 1 (by decide)).mpr (by decide)

def narrowCluster : Cluster := { sampleCluster with clamp := 1 }

theorem list_parts_panics_and_skips :
    partsPage sampleCluster 0 true sampleParse (ascii "/k") (Uuid.asSimple 1) 0 twoPartSite none
      = none
      ∧ partsPage sampleCluster 0 true sampleParse (ascii "/k") (Uuid.asSimple 1) 2 twoPartSite
          (some (2 ^ 32 - 1)) = none
      ∧ ((partsPage sampleCluster 0 false sampleParse (ascii "/k") (Uuid.asSimple 1) 2 twoPartSite
          (some (2 ^ 32 - 1))).map fun page => page.1.map ListedPart.partNumber) = some [1, 2]
      ∧ ((partsPage narrowCluster 0 true sampleParse (ascii "/k") (Uuid.asSimple 1) 2 twoPartSite
        none).map fun page =>
          (page.1.map ListedPart.partNumber, page.2)) = some ([1], none) := by
  simp only [pendingUpload_twoPartSite.page_eq]
  refine ⟨by decide, by decide, ?_, by decide⟩
  have hnumbered := pendingUpload_twoPartSite.numbered sampleCluster
  rw [cut, cutBeginning_max hnumbered]
  decide

end FractalBits.Objects
