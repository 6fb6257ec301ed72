/-
  Objects.Multipart — a multipart upload from its creation to its deletion.

  Every step finds the parts again by listing their prefix, and takes the first page of the reply
  for the whole.
-/

import Mathlib.Data.List.Perm.Subperm
import FractalBits.Objects.Completion
import FractalBits.Objects.Content
import FractalBits.Objects.CreateUpload

namespace FractalBits.Objects

open Lib Streaming Gateway List
open OvrMap (Uuid)

attribute [local irreducible] Uuid.asSimple

/-! ## §1. The session -/

structure PartBody where
  number : Nat
  upload : Upload
  blocks : List Bytes

def PartBody.part (body : PartBody) : Nat × Layout := (body.number, body.upload.stored)

section

variable (rounds : Nat) (parseUuid : Bytes → Option Uuid) (key : Bytes)

def uploadParts (uploadId : Bytes) : List PartBody → Handler Unit
  | [] => return ()
  | body :: bodies => do
    uploadPart rounds parseUuid key body.number uploadId body.upload
    uploadParts uploadId bodies

def multipartUpload (K : Checksums) (versionId : Uuid) (timestamp : Nat) (bodies : List PartBody)
    (req : CompleteRequest) : Handler Layout := do
  let uploadId ← createMultipartUpload rounds key versionId timestamp
  uploadParts rounds parseUuid key uploadId bodies
  completeMultipartUpload rounds K key uploadId req

end

/-- What a session starts with. `parts` are in the order of their numbers, and `order` is the order
    in which they are uploaded. -/
structure Session (cluster : Cluster) (K : Checksums) (parseUuid : Bytes → Option Uuid)
    (key : Bytes) (versionId : Uuid) (parts order : List PartBody) (req : CompleteRequest)
    (s : Site) : Prop where
  accepted : rejectTrailingSlashKey key = .ok ()
  parsed : parseUuid (Uuid.asSimple versionId) = some versionId
  numbers : ∀ body ∈ parts, IsPartNumber body.number
  sorted : parts.Pairwise fun p q => p.number < q.number
  sound : ∀ body ∈ parts, body.upload.Sound cluster.impl body.blocks
  /-- blob ids are generated -/
  blobs : parts.Pairwise fun p q =>
    p.upload.layout.blobGuid.blobId ≠ q.upload.layout.blobGuid.blobId
  uploaded : order.Perm parts
  /-- the upload id is generated -/
  fresh : ∀ k value, s.inodes[k]? = some value → ¬ partsPrefix key (Uuid.asSimple versionId)
    <+: nulTerminated k
  headers : ∃ headers, extractMetadataHeaders req.headers = .ok headers
  named : ∃ numbers, req.partNumbers = .ok numbers ∧ ∀ n, n ∈ numbers
    ↔ n ∈ parts.map PartBody.number
  /-- a composite checksum, if one is sent, is right -/
  checksum : ∀ expected, req.checksumValue = some expected →
    expected = ⟨expected.algorithm, K.digest expected.algorithm
      (parts.map fun body => partChecksum body.part).flatten⟩

/-- The upload completes with the size of its parts, a GET answers them in the order of their
    numbers, and a later DELETE removes all of them and enqueues their blobs. -/
def ReadsBack (cluster : Cluster) (rounds : Nat) (K : Checksums) (parseUuid : Bytes → Option Uuid)
    (key : Bytes) (versionId : Uuid) (timestamp : Nat) (parts order : List PartBody)
    (req : CompleteRequest) (s : Site) : Prop :=
  ∃ completed s',
    (multipartUpload rounds parseUuid key K versionId timestamp order req).run.exec cluster.answer s
        = (.ok completed, s')
      ∧ completed.size = .ok (parts.map fun body => body.blocks.flatten.length).sum
      ∧ ((getObject rounds key fun _ => .ok none).run.exec cluster.answer s').1
        = .ok ((parts.flatMap PartBody.blocks).map .ok)
      ∧ (deleteOutcome cluster rounds s' key).1 = .ok ()
      ∧ ∀ body ∈ parts,
        (deleteOutcome cluster rounds s' key).2.inodes[mpuGetPartPrefix key versionId body.number]?
          = none
          ∧ Enqueued s' (deleteOutcome cluster rounds s' key).2 body.upload.layout.blobGuid

/-! ## §2. The parts that are stored -/

def HoldsParts (key : Bytes) (uploadId : Uuid) (parts : List (Nat × Layout))
    (ns : Namespace) : Prop :=
  ∀ e : Bytes × Inode, ns[e.1]? = some e.2 ∧ partsPrefix key (Uuid.asSimple uploadId)
    <+: nulTerminated e.1 ↔ e ∈ parts.map (partInode key uploadId)

section

variable {cluster : Cluster} {key : Bytes} {uploadId : Uuid} {parts : List (Nat × Layout)}
    {ns ns' : Namespace}

theorem HoldsParts.of_same (h : HoldsParts key uploadId parts ns)
    (hsame : ∀ k, k ≠ key → ns'[k]? = ns[k]?) :
    HoldsParts key uploadId parts ns' := by
  intro e
  rw [← h e]
  constructor
  · rintro ⟨hstored, hunder⟩
    rw [hsame _ (ne_of_partsPrefix hunder)] at hstored
    exact ⟨hstored, hunder⟩
  · rintro ⟨hstored, hunder⟩
    rw [hsame _ (ne_of_partsPrefix hunder)]
    exact ⟨hstored, hunder⟩

theorem HoldsParts.page (h : HoldsParts key uploadId parts ns)
    (hparts : ∀ part ∈ parts, IsPartNumber part.1) (hsorted : parts.Pairwise fun p q => p.1 < q.1) :
    (cluster.listPage ns 10000 (mpuGetPartPrefix key uploadId 0) []).1
      = (parts.take (min 10000 cluster.clamp)).map (partInode key uploadId) := by
  rw [mpuGetPartPrefix_zero]
  show (ns.matching _ []).take (min 10000 cluster.clamp) = _
  rw [matching_eq (keySorted_parts hparts hsorted) h, map_take]
  intro e he
  obtain ⟨part, -, rfl⟩ := mem_map.mp he
  exact partKey_ne_nil part.1

end

theorem length_le_of_sorted {parts : List (Nat × Layout)}
    (hparts : ∀ part ∈ parts, IsPartNumber part.1)
    (hsorted : parts.Pairwise fun p q => p.1 < q.1) : parts.length ≤ 10000 := by
  have hnodup : (parts.map Prod.fst).Nodup := pairwise_map.mpr (hsorted.imp Nat.ne_of_lt)
  have hsub : parts.map Prod.fst ⊆ List.range' 1 10000 := by
    intro n hn
    obtain ⟨part, hpart, rfl⟩ := mem_map.mp hn
    obtain ⟨hlow, hhigh⟩ := hparts part hpart
    exact mem_range'_1.mpr ⟨hlow, by omega⟩
  have hlength := (subperm_of_subset hnodup hsub).length_le
  rw [length_map, length_range'] at hlength
  exact hlength

/-! ## §3. Uploading the parts -/

def Site.withParts (s : Site) (key : Bytes) (versionId : Uuid) (bodies : List PartBody) : Site :=
  bodies.foldl (fun s body => s.committed (mpuGetPartPrefix key versionId body.number) body.upload)
    s

section

variable {cluster : Cluster} {key : Bytes} {versionId : Uuid} {bodies : List PartBody}

theorem rejectTrailingSlashKey_partKey {n : Nat} (hn : IsPartNumber n) :
    rejectTrailingSlashKey (mpuGetPartPrefix key versionId n) = .ok () := by
  unfold rejectTrailingSlashKey
  rw [if_neg]
  rw [mpuGetPartPrefix_eq hn.1 hn.2]
  intro hlast
  have hne : fixedDecimal 4 (n - 1) ≠ [] := by
    apply ne_nil_of_length_pos
    rw [length_fixedDecimal]
    omega
  rw [List.getLast?_append_of_ne_nil _ hne] at hlast
  exact not_mem_fixedDecimal 4 (n - 1) (by decide) (mem_of_getLast? hlast)

theorem exec_uploadParts {parseUuid : Bytes → Option Uuid}
    (hparsed : parseUuid (Uuid.asSimple versionId) = some versionId)
    (hnumbers : ∀ body ∈ bodies, IsPartNumber body.number) (rounds : Nat) (s : Site) :
    (uploadParts rounds parseUuid key (Uuid.asSimple versionId) bodies).run.exec cluster.answer s
      = (.ok (), s.withParts key versionId bodies) := by
  induction bodies generalizing s with
  | nil => rfl
  | cons body bodies ih =>
    have hn : 1 ≤ body.number ∧ body.number ≤ 10000 := hnumbers body mem_cons_self
    have hput :
        (uploadPart rounds parseUuid key body.number (Uuid.asSimple versionId) body.upload).run.exec
          cluster.answer s = (.ok (), s.committed (mpuGetPartPrefix key versionId body.number)
            body.upload) := by
      unfold uploadPart
      rw [if_neg (not_not.mpr hn), hparsed]
      show putOutcome cluster rounds s (mpuGetPartPrefix key versionId body.number) body.upload = _
      rw [exec_putObject (rejectTrailingSlashKey_partKey hn),
        cleanup_of_hash (mem_mpuGetPartPrefix ..)]
      rfl
    unfold uploadParts
    rw [exec_of_ok hput]
    exact ih (fun q hq => hnumbers q (mem_cons_of_mem _ hq)) _

theorem getElem?_committed (s : Site) (key : Bytes) (upload : Upload) (k : Bytes) :
    (s.committed key upload).inodes[k]? = if k = key then some (.layout upload.stored)
      else s.inodes[k]? := by
  unfold Site.committed
  by_cases hk : k = key
  · rw [if_pos hk, hk, Std.ExtTreeMap.getElem?_insert_self]
  · rw [if_neg hk, getElem?_insert_of_ne _ _ hk]

theorem getElem?_withParts_of_ne (s : Site) {k : Bytes}
    (hk : ∀ body ∈ bodies, k ≠ mpuGetPartPrefix key versionId body.number) :
    (s.withParts key versionId bodies).inodes[k]? = s.inodes[k]? := by
  induction bodies generalizing s with
  | nil => rfl
  | cons body bodies ih =>
    show ((s.committed _ body.upload).withParts key versionId bodies).inodes[k]? = _
    rw [ih _ fun q hq => hk q (mem_cons_of_mem _ hq), getElem?_committed,
      if_neg (hk body mem_cons_self)]

theorem getElem?_withParts (s : Site) (hnumbers : ∀ body ∈ bodies, IsPartNumber body.number)
    (hnodup : (bodies.map PartBody.number).Nodup) {body : PartBody} (hbody : body ∈ bodies) :
    (s.withParts key versionId bodies).inodes[mpuGetPartPrefix key versionId body.number]?
      = some (.layout body.upload.stored) := by
  induction bodies generalizing s with
  | nil => cases hbody
  | cons first bodies ih =>
    rw [map_cons, nodup_cons] at hnodup
    have hrest : ∀ q ∈ bodies, IsPartNumber q.number := fun q hq =>
      hnumbers q (mem_cons_of_mem _ hq)
    show ((s.committed _ first.upload).withParts key versionId bodies).inodes[_]? = _
    rcases mem_cons.mp hbody with rfl | hbody
    · rw [getElem?_withParts_of_ne, getElem?_committed, if_pos rfl]
      intro q hq heq
      have hnumber := partKey_inj (hnumbers body mem_cons_self) (hrest q hq) heq
      exact hnodup.1 (hnumber ▸ mem_map_of_mem hq)
    · exact ih _ hrest hnodup.2 hbody

theorem Whole.withParts {s : Site} {layout : Layout} {blocks : List Bytes}
    (h : Whole cluster.impl s.stores layout blocks)
    (hsound : ∀ body ∈ bodies, body.upload.Sound cluster.impl body.blocks)
    (hother : ∀ body ∈ bodies, ∀ guid, layout.blobGuid = .ok guid → guid.blobId
    ≠ body.upload.layout.blobGuid.blobId) :
    Whole cluster.impl (s.withParts key versionId bodies).stores layout blocks := by
  induction bodies generalizing s with
  | nil => exact h
  | cons body bodies ih =>
    have hsame := (hsound body mem_cons_self).same (hother body mem_cons_self) s.stores
    exact ih (s := s.committed _ body.upload) (h.of_same hsame)
      (fun q hq => hsound q (mem_cons_of_mem _ hq)) fun q hq => hother q (mem_cons_of_mem _ hq)

theorem whole_withParts (s : Site) (hsound : ∀ body ∈ bodies, body.upload.Sound cluster.impl
    body.blocks) (hblobs : bodies.Pairwise fun p q =>
      p.upload.layout.blobGuid.blobId ≠ q.upload.layout.blobGuid.blobId)
    {body : PartBody} (hbody : body ∈ bodies) :
    Whole cluster.impl (s.withParts key versionId bodies).stores body.upload.stored
      body.blocks := by
  induction bodies generalizing s with
  | nil => cases hbody
  | cons first bodies ih =>
    obtain ⟨hfirst, hblobs⟩ := pairwise_cons.mp hblobs
    have hrest : ∀ q ∈ bodies, q.upload.Sound cluster.impl q.blocks := fun q hq =>
      hsound q (mem_cons_of_mem _ hq)
    show Whole _ ((s.committed _ first.upload).withParts key versionId bodies).stores _ _
    rcases mem_cons.mp hbody with rfl | hbody
    · refine Whole.withParts ((hsound body mem_cons_self).whole_writeAll s.stores) hrest ?_
      intro q hq guid hguid
      cases hguid
      exact hfirst q hq
    · exact ih _ hrest hblobs hbody

end

/-! ## §4. The completion -/

section

variable {cluster : Cluster} {K : Checksums} {parseUuid : Bytes → Option Uuid} {key : Bytes}
  {versionId : Uuid} {parts order : List PartBody} {req : CompleteRequest} {s : Site}

def Site.created (s : Site) (key : Bytes) (versionId : Uuid) (timestamp : Nat) : Site :=
  { s with inodes := s.inodes.insert key (.layout (uploadingLayout versionId timestamp)) }

theorem exec_createMultipartUpload (haccepted : rejectTrailingSlashKey key = .ok ())
    (rounds timestamp : Nat) :
    (createMultipartUpload rounds key versionId timestamp).run.exec cluster.answer s
      = (.ok (Uuid.asSimple versionId), s.created key versionId timestamp) := by
  have hput : (perform (Op.putInode key (.layout (uploadingLayout versionId timestamp))) : Call
      _).exec cluster.answer s = (.ok (.ok (s.inodes[key]?.getD .empty)), s.created key versionId
        timestamp) := rfl
  unfold createMultipartUpload
  rw [haccepted, exec_of_ok (exec_orFail_ok id () s), exec_of_ok (exec_nss hput rounds)]
  rfl

def storedParts (parts : List PartBody) : List (Nat × Layout) := parts.map PartBody.part

theorem stored_fst (parts : List PartBody) :
    (storedParts parts).map Prod.fst = parts.map PartBody.number := by
  unfold storedParts
  rw [map_map]
  rfl

theorem stored_checksums (parts : List PartBody) :
    (storedParts parts).map partChecksum = parts.map fun body => partChecksum body.part := by
  unfold storedParts
  rw [map_map]
  rfl

variable (h : Session cluster K parseUuid key versionId parts order req s)

include h

theorem Session.stored_numbers :
    ∀ part ∈ storedParts parts, IsPartNumber part.1 := by
  intro part hpart
  obtain ⟨body, hbody, rfl⟩ := mem_map.mp hpart
  exact h.numbers body hbody

theorem Session.stored_sorted :
    (storedParts parts).Pairwise fun p q => p.1 < q.1 :=
  pairwise_map.mpr h.sorted

theorem Session.holdsParts (timestamp : Nat) :
    HoldsParts key versionId (storedParts parts) ((s.created key versionId timestamp).withParts key
      versionId order).inodes := by
  have hnumbers : ∀ body ∈ order, IsPartNumber body.number := fun body hbody =>
    h.numbers body (h.uploaded.mem_iff.mp hbody)
  have hnodup : (order.map PartBody.number).Nodup :=
    (h.uploaded.map PartBody.number).nodup_iff.mpr (pairwise_map.mpr (h.sorted.imp Nat.ne_of_lt))
  intro e
  rw [storedParts, map_map]
  constructor
  · rintro ⟨hstored, hunder⟩
    by_cases hpart : ∃ body ∈ order, e.1 = mpuGetPartPrefix key versionId body.number
    · obtain ⟨body, hbody, hkey⟩ := hpart
      rw [hkey, getElem?_withParts _ hnumbers hnodup hbody] at hstored
      refine mem_map.mpr ⟨body, h.uploaded.mem_iff.mp hbody, ?_⟩
      exact Prod.ext hkey.symm (Option.some.inj hstored)
    · -- nothing was there before
      push Not at hpart
      rw [getElem?_withParts_of_ne _ hpart] at hstored
      rw [Site.created, getElem?_insert_of_ne _ _ (ne_of_partsPrefix hunder)] at hstored
      exact absurd hunder (h.fresh _ _ hstored)
  · intro hmem
    obtain ⟨body, hbody, rfl⟩ := mem_map.mp hmem
    exact ⟨getElem?_withParts _ hnumbers hnodup (h.uploaded.mem_iff.mpr hbody), partsPrefix_partKey
      (h.numbers body hbody)⟩

omit h in
theorem Session.pending (timestamp : Nat) :
    ((s.created key versionId timestamp).withParts key versionId order).inodes[key]?
      = some (.layout (uploadingLayout versionId timestamp)) := by
  rw [getElem?_withParts_of_ne _ fun body _ => ne_mpuGetPartPrefix key versionId body.number,
    Site.created, Std.ExtTreeMap.getElem?_insert_self]

omit h in
theorem checkUploading_uploading (versionId : Uuid) (timestamp : Nat) :
    checkUploading (Uuid.asSimple versionId) (uploadingLayout versionId timestamp) = .ok () := by
  unfold checkUploading uploadingLayout
  simp

theorem Session.exec_listed {headers : Headers}
    (hheaders : extractMetadataHeaders req.headers = .ok headers) {numbers : List Nat}
    (hnumbers : req.partNumbers = .ok numbers) (rounds timestamp : Nat) :
    (multipartUpload rounds parseUuid key K versionId timestamp order req).run.exec cluster.answer s
      = (completeListed rounds K key req headers numbers (uploadingLayout versionId timestamp)
          (((storedParts parts).take (min 10000 cluster.clamp)).map
            (partEntry key versionId))).run.exec cluster.answer
              ((s.created key versionId timestamp).withParts key versionId order) := by
  have hnumbered : ∀ body ∈ order, IsPartNumber body.number := fun body hbody =>
    h.numbers body (h.uploaded.mem_iff.mp hbody)
  have hread := exec_getRawObject cluster rounds key ((s.created key versionId timestamp).withParts
    key versionId order)
  rw [Site.getResponse, Session.pending] at hread
  have hlist : (listRawObjects rounds 10000 (mpuGetPartPrefix key versionId 0) []).run.exec
      cluster.answer ((s.created key versionId timestamp).withParts key versionId order) = _ :=
        exec_listRawObjects ..
  rw [(h.holdsParts timestamp).page h.stored_numbers h.stored_sorted,
    rawObjects_parts fun part hpart => h.stored_numbers part (mem_of_mem_take hpart)] at hlist
  unfold multipartUpload
  rw [exec_of_ok (exec_createMultipartUpload h.accepted rounds timestamp),
    exec_of_ok (exec_uploadParts h.parsed hnumbered rounds _)]
  unfold completeMultipartUpload
  rw [hheaders, hnumbers, exec_of_ok (exec_orFail_ok id headers _),
    exec_of_ok (exec_orFail_ok id numbers _), exec_of_ok hread, checkUploading_uploading,
      exec_of_ok (exec_orFail_ok id () _)]
  exact exec_of_ok hlist

theorem Session.whole (timestamp : Nat) :
    ∀ body ∈ parts, Whole cluster.impl ((s.created key versionId timestamp).withParts key versionId
      order).stores body.upload.stored body.blocks := by
  intro body hbody
  apply whole_withParts
  · exact fun q hq => h.sound q (h.uploaded.mem_iff.mp hq)
  · exact (h.uploaded.pairwise_iff fun hne heq => hne heq.symm).mpr h.blobs
  · exact h.uploaded.mem_iff.mpr hbody

theorem Session.stored_normal :
    ∀ part ∈ storedParts parts, part.2.IsNormal := by
  intro part hpart
  obtain ⟨body, hbody, rfl⟩ := mem_map.mp hpart
  exact (h.whole 0 body hbody).isNormal

theorem Session.length_le : parts.length ≤ 10000 := by
  have hlength := length_le_of_sorted h.stored_numbers h.stored_sorted
  rw [storedParts, length_map] at hlength
  exact hlength

theorem Session.tally {numbers : List Nat}
    (hnamed : ∀ n, n ∈ numbers ↔ n ∈ parts.map PartBody.number) (m : Nat) :
    (((storedParts parts).take m).map (partEntry key versionId)).foldlM tallyPart
      ⟨numbers, [], 0, []⟩ = .ok {
      validPartNumbers := numbers.filter fun n => n ∉ ((storedParts parts).take m).map Prod.fst
      invalidPartKeys := []
      totalSize := (((storedParts parts).take m).map partSize).sum
      checksummed := (((storedParts parts).take m).map partChecksum).flatten } := by
  have hmem : ∀ part ∈ (storedParts parts).take m, part ∈ storedParts parts := fun part =>
    mem_of_mem_take
  have hwhole : ∀ part ∈ storedParts parts, ∃ blocks, Whole cluster.impl
      ((s.created key versionId 0).withParts key versionId order).stores part.2 blocks := by
    intro part hpart
    obtain ⟨body, hbody, rfl⟩ := mem_map.mp hpart
    exact ⟨_, h.whole 0 body hbody⟩
  have hin : ∀ part ∈ (storedParts parts).take m, part.1 ∈ numbers := by
    intro part hpart
    obtain ⟨body, hbody, rfl⟩ := mem_map.mp (hmem part hpart)
    exact (hnamed body.number).mpr (mem_map_of_mem hbody)
  have hnodup : (((storedParts parts).take m).map Prod.fst).Nodup :=
    pairwise_map.mpr ((h.stored_sorted.sublist (take_sublist _ _)).imp Nat.ne_of_lt)
  have hlength : ((storedParts parts).take m).length ≤ 10000 := by
    have hle := h.length_le
    rw [length_take, storedParts, length_map]
    omega
  have hsum : 0 + (((storedParts parts).take m).map partSize).sum < 2 ^ 64 := by
    rw [Nat.zero_add]
    exact sum_partSize_lt (fun part hpart => hwhole part (hmem part hpart)) hlength
  rw [foldlM_tallyPart (fun part hpart => ?_) hnodup _ hsum]
  · -- all of them were named
    have hall : ((storedParts parts).take m).filter (fun part => part.1 ∈ numbers)
      = (storedParts parts).take m :=
      filter_eq_self.mpr fun part hpart => decide_eq_true (hin part hpart)
    have hnone : ((storedParts parts).take m).filter (fun part => part.1 ∉ numbers) = [] :=
      filter_eq_nil_iff.mpr fun part hpart => by simpa using hin part hpart
    dsimp only
    rw [hall, hnone, Nat.zero_add]
    rfl
  · obtain ⟨blocks, hblocks⟩ := hwhole part (hmem part hpart)
    exact ⟨h.stored_numbers part (hmem part hpart), hblocks.isNormal⟩

def Site.completedAt (s : Site) (key : Bytes) (completed : Layout) : Site :=
  { s with inodes := s.inodes.insert key (.layout completed) }

omit h in
theorem exec_putCompleted (rounds : Nat) (key : Bytes) (completed : Layout) (s : Site) :
    (putCompleted rounds key completed).run.exec cluster.answer s
      = (.ok completed, s.completedAt key completed) := by
  have hput : (perform (Op.putInode key (.layout completed)) : Call _).exec cluster.answer s
      = (.ok (.ok (s.inodes[key]?.getD .empty)), s.completedAt key completed) := rfl
  unfold putCompleted
  rw [exec_of_ok (exec_nss hput rounds)]
  rfl

/-- ★ **A completion whose listing had all parts.** -/
theorem exec_complete_session
    (hfits : parts.length ≤ cluster.clamp) (rounds timestamp : Nat) :
    ∃ headers, (multipartUpload rounds parseUuid key K versionId timestamp order req).run.exec
      cluster.answer
        s
        = (.ok (completedLayout (uploadingLayout versionId timestamp)
            ((storedParts parts).map partSize).sum req.etag headers req.checksumValue),
          ((s.created key versionId timestamp).withParts key versionId order).completedAt key
            (completedLayout (uploadingLayout versionId timestamp)
              ((storedParts parts).map partSize).sum req.etag headers req.checksumValue)) := by
  obtain ⟨headers, hheaders⟩ := h.headers
  obtain ⟨numbers, hnumbers, hnamed⟩ := h.named
  have hall : (storedParts parts).take (min 10000 cluster.clamp) = storedParts parts := by
    apply take_of_length_le
    have hle := h.length_le
    rw [storedParts, length_map]
    omega
  have htally := h.tally hnamed (min 10000 cluster.clamp)
  rw [hall] at htally
  have hvalid : numbers.filter (fun n => n ∉ (storedParts parts).map Prod.fst) = [] := by
    refine filter_eq_nil_iff.mpr fun n hn => ?_
    rw [decide_eq_true_eq, not_not, stored_fst]
    exact (hnamed n).mp hn
  rw [hvalid] at htally
  have hcheck : checkTally K req.checksumValue
      ⟨[], [], ((storedParts parts).map partSize).sum,
        ((storedParts parts).map partChecksum).flatten⟩ = .ok () := by
    unfold checkTally
    rw [if_neg, if_neg (by simp)]
    rintro ⟨hsome, hne⟩
    obtain ⟨expected, hexpected⟩ := Option.isSome_iff_exists.mp hsome
    apply hne
    rw [hexpected, Option.map_some]
    have hright := h.checksum expected hexpected
    rw [← stored_checksums] at hright
    exact congrArg some hright.symm
  have horder : req.order [] = [] := (req.order_perm []).eq_nil
  refine ⟨headers, ?_⟩
  rw [h.exec_listed hheaders hnumbers, hall]
  unfold completeListed
  rw [htally, exec_of_ok (exec_orFail_ok id _ _), hcheck, exec_of_ok (exec_orFail_ok id () _),
    horder]
  exact exec_putCompleted ..

omit h in
theorem not_mem_take_of_sorted {parts : List (Nat × Layout)}
    (hsorted : parts.Pairwise fun p q => p.1 < q.1) {m : Nat} (hm : m < parts.length) :
    parts[m].1 ∉ (parts.take m).map Prod.fst := by
  intro hmem
  obtain ⟨part, hpart, heq⟩ := mem_map.mp hmem
  rw [← take_append_drop m parts] at hsorted
  have hlt := (pairwise_append.mp hsorted).2.2 part hpart parts[m] (by
    rw [drop_eq_getElem_cons hm]
    exact mem_cons_self)
  omega

/-- ★ **A completion whose listing had not all parts** is refused, without a checksum as naming an
    invalid part. -/
theorem complete_truncated
    (hmore : cluster.clamp < parts.length) (rounds timestamp : Nat) :
    ∃ e, ((multipartUpload rounds parseUuid key K versionId timestamp order req).run.exec
        cluster.answer s).1 = .error e ∧ (req.checksumValue = none → e = .invalidPart) := by
  obtain ⟨headers, hheaders⟩ := h.headers
  obtain ⟨numbers, hnumbers, hnamed⟩ := h.named
  have hclamp : min 10000 cluster.clamp = cluster.clamp := by
    have hle := h.length_le
    omega
  have hstored : cluster.clamp < (storedParts parts).length := by
    rw [storedParts, length_map]
    exact hmore
  have hleft : numbers.filter (fun n => n ∉ ((storedParts parts).take cluster.clamp).map Prod.fst)
    ≠ [] := by
    refine ne_nil_of_mem (a := (storedParts parts)[cluster.clamp].1) (mem_filter.mpr ⟨?_, ?_⟩)
    · rw [hnamed]
      rw [← stored_fst]
      exact mem_map_of_mem (getElem_mem hstored)
    · exact decide_eq_true (not_mem_take_of_sorted h.stored_sorted hstored)
  rw [h.exec_listed hheaders hnumbers, hclamp]
  unfold completeListed
  rw [h.tally hnamed, exec_of_ok (exec_orFail_ok id _ _)]
  -- the numbers that were not listed are refused, whatever the checksum is
  cases hcheck : checkTally K req.checksumValue _ with
  | error e =>
    refine ⟨e, congrArg Prod.fst (exec_of_error (exec_orFail_error id e _)), fun hnone => ?_⟩
    unfold checkTally at hcheck
    rw [if_pos hleft, hnone, if_neg (fun hsome => by cases hsome.1)] at hcheck
    exact (Except.error.inj hcheck).symm
  | ok u =>
    unfold checkTally at hcheck
    rw [if_pos hleft] at hcheck
    split at hcheck
    · cases hcheck
    · cases hcheck

end

/-! ## §5. The completed object -/

section

variable {cluster : Cluster} {key : Bytes} {parts : List PartBody} {s : Site} {completed : Layout}
  {core : ObjectCoreMetaData}

structure CompletedUpload (cluster : Cluster) (key : Bytes) (completed : Layout)
    (core : ObjectCoreMetaData) (parts : List PartBody) (s : Site) : Prop where
  inode : s.inodes[key]? = some (.layout completed)
  state : completed.state = .mpu (.completed core)
  holds : HoldsParts key completed.versionId (storedParts parts) s.inodes
  numbers : ∀ part ∈ storedParts parts, IsPartNumber part.1
  sorted : (storedParts parts).Pairwise fun p q => p.1 < q.1
  whole : ∀ body ∈ parts, Whole cluster.impl s.stores body.upload.stored body.blocks

theorem exec_getObject_completed (hinode : s.inodes[key]? = some (.layout completed))
    (hstate : completed.state = .mpu (.completed core))
    (hholds : HoldsParts key completed.versionId (storedParts parts) s.inodes)
    (hnumbers : ∀ part ∈ storedParts parts, IsPartNumber part.1)
    (hsorted : (storedParts parts).Pairwise fun p q => p.1 < q.1)
    (hfits : parts.length ≤ min 10000 cluster.clamp)
    (hwhole : ∀ body ∈ parts, Whole cluster.impl s.stores body.upload.stored body.blocks)
    (rounds : Nat) :
    ((getObject rounds key fun _ => .ok none).run.exec cluster.answer s).1
      = .ok ((parts.flatMap PartBody.blocks).map .ok) := by
  have hpage : (cluster.listPage s.inodes 10000 (mpuGetPartPrefix key completed.versionId 0) []).1
      = (parts.map PartBody.part).map (partInode key completed.versionId) := by
    rw [hholds.page hnumbers hsorted, take_of_length_le
      (by rw [storedParts, length_map]; exact hfits)]
    rfl
  have hfrozen : Frozen cluster (fun _ => s) 0 key completed (parts.map PartBody.part) s.stores :=
    ⟨fun _ _ => hinode, fun _ _ => hpage, fun _ _ _ _ _ _ _ _ => rfl⟩
  have hsteady : Steady (At cluster fun _ => s) 0 (getObject rounds key fun _ => .ok none).run
      (.ok ((parts.flatMap PartBody.blocks).map .ok)) :=
    steady_getObject hfrozen hstate (fun body hbody => hnumbers body.part (mem_map_of_mem hbody))
      hwhole
  have hget : Unchanging cluster (fun _ _ => True) s (getObject rounds key fun _ => .ok none).run :=
    keeps_getObject key _
  exact (hsteady.exec hget (fun _ => trivial) fun _ => rfl :)

theorem exec_delete_parts (hinode : s.inodes[key]? = some (.layout completed))
    (hstate : completed.state = .mpu (.completed core))
    (hholds : HoldsParts key completed.versionId (storedParts parts) s.inodes)
    (hnumbers : ∀ part ∈ storedParts parts, IsPartNumber part.1)
    (hsorted : (storedParts parts).Pairwise fun p q => p.1 < q.1)
    (hfits : parts.length ≤ min 10000 cluster.clamp) (rounds : Nat) :
    deleteOutcome cluster rounds s key
      = (.ok (), (s.without [key]).dropParts
        ((storedParts parts).map (partEntry key completed.versionId))) := by
  have hgone : HoldsParts key completed.versionId (storedParts parts) (s.without [key]).inodes := by
    refine hholds.of_same fun k hk => ?_
    rw [getElem?_without, if_neg (by simpa using hk)]
  have hlisted : listedParts cluster s key completed
      = .ok ((storedParts parts).map (partEntry key completed.versionId)) := by
    unfold listedParts
    rw [hgone.page hnumbers hsorted, take_of_length_le
      (by rw [storedParts, length_map]; exact hfits), rawObjects_parts hnumbers]
  have hlist := exec_listedParts cluster rounds key s completed
  rw [hlisted] at hlist
  rw [exec_delete_completed cluster hinode hstate rounds]
  unfold deleteCompletedParts
  rw [exec_of_ok hlist]
  refine exec_deleteParts_ok rounds (fun entry hentry => ?_) _
  obtain ⟨part, hpart, rfl⟩ := mem_map.mp hentry
  obtain ⟨body, -, rfl⟩ := mem_map.mp hpart
  exact ⟨body.upload.layout.blobGuid, rfl⟩

end

section

variable {cluster : Cluster} {K : Checksums} {parseUuid : Bytes → Option Uuid} {key : Bytes}
  {versionId : Uuid} {parts order : List PartBody} {req : CompleteRequest} {s : Site}

variable (h : Session cluster K parseUuid key versionId parts order req s)

include h

theorem Session.completedUpload
    (hclamp : parts.length ≤ cluster.clamp) (rounds timestamp : Nat) :
    ∃ completed core s',
      (multipartUpload rounds parseUuid key K versionId timestamp order req).run.exec cluster.answer
        s = (.ok completed, s')
      ∧ core.size = ((storedParts parts).map partSize).sum ∧ completed.versionId = versionId
      ∧ CompletedUpload cluster key completed core parts s' := by
  obtain ⟨headers, hcomplete⟩ := exec_complete_session h hclamp rounds timestamp
  refine ⟨_, ⟨((storedParts parts).map partSize).sum, req.etag, headers, req.checksumValue⟩, _,
    hcomplete, rfl, rfl, ?_⟩
  constructor
  · exact Std.ExtTreeMap.getElem?_insert_self
  · rfl
  · -- the completion changed the key's own inode only
    exact (h.holdsParts timestamp).of_same fun k hk => getElem?_insert_of_ne _ _ hk
  · exact h.stored_numbers
  · exact h.stored_sorted
  · exact h.whole timestamp

theorem Session.readsBack
    (hclamp : parts.length ≤ cluster.clamp) (rounds timestamp : Nat) :
    ReadsBack cluster rounds K parseUuid key versionId timestamp parts order req s := by
  obtain ⟨completed, core, s', hcomplete, hcore, hversion, hdone⟩ :=
    h.completedUpload hclamp rounds timestamp
  have hfits : parts.length ≤ min 10000 cluster.clamp := by
    have hle := h.length_le
    omega
  have hsum :
    ((storedParts parts).map partSize).sum
    = (parts.map fun body => body.blocks.flatten.length).sum := by
    unfold storedParts
    rw [map_map]
    exact congrArg List.sum
      (map_congr_left fun body hbody => (h.whole timestamp body hbody).partSize_eq body.number)
  have hdelete := exec_delete_parts hdone.inode hdone.state hdone.holds hdone.numbers hdone.sorted
    hfits rounds
  refine ⟨completed, s', hcomplete, ?_, ?_, ?_, fun body hbody => ?_⟩
  · unfold Layout.size
    rw [hdone.state, ← hsum, ← hcore]
  · exact exec_getObject_completed hdone.inode hdone.state hdone.holds hdone.numbers hdone.sorted
      hfits hdone.whole rounds
  · rw [hdelete]
  · have hmem : partEntry key completed.versionId body.part
        ∈ (storedParts parts).map (partEntry key completed.versionId) :=
      mem_map_of_mem (mem_map_of_mem hbody)
    rw [hdelete]
    constructor
    · rw [getElem?_dropParts, if_pos]
      rw [← hversion]
      exact mem_map_of_mem (f := Prod.fst) hmem
    · exact enqueued_of_mem (mem_map_of_mem hmem) rfl rfl

/-- ★ **Multipart uploads read back.** An upload completes with the size of its parts, a GET answers
    them in the order of their numbers, and a DELETE removes all of them, exactly if there are no
    more parts than one listing reply holds. -/
theorem multipart_reads_back_iff (rounds timestamp : Nat) :
    ReadsBack cluster rounds K parseUuid key versionId timestamp parts order req s
      ↔ parts.length ≤ cluster.clamp := by
  constructor
  · rintro ⟨completed, s', hcompleted, -⟩
    by_contra hmore
    obtain ⟨e, herror, -⟩ := complete_truncated h (Nat.lt_of_not_le hmore) rounds timestamp
    rw [hcompleted] at herror
    cases herror
  · exact fun hclamp => h.readsBack hclamp rounds timestamp

end

def sampleBodies (n : Nat) : List PartBody :=
  (List.range n).map fun i => ⟨i + 1, blockUpload sampleCluster.impl (BitVec.ofNat 128 i) [7],
    [[7]]⟩

def sampleNaming (n : Nat) : CompleteRequest :=
    { sampleCompletion with partNumbers := .ok (List.range' 1 n) }

theorem session_sampleBodies {n : Nat} (hn : n ≤ 10000) :
    Session sampleCluster sampleChecksums sampleParse (ascii "/k") 1 (sampleBodies n)
      (sampleBodies n).reverse (sampleNaming n) emptySite where
  accepted := by decide
  parsed := rfl
  numbers := by
    intro body hbody
    obtain ⟨i, hi, rfl⟩ := mem_map.mp hbody
    have hlt := mem_range.mp hi
    exact ⟨Nat.succ_le_succ (Nat.zero_le i), hlt.trans_le hn⟩
  sorted := pairwise_map.mpr (pairwise_lt_range.imp fun hlt => Nat.succ_lt_succ hlt)
  sound := by
    intro body hbody
    obtain ⟨i, -, rfl⟩ := mem_map.mp hbody
    exact blockUpload_sound _ _ [7] (by decide) (by decide)
  blobs := by
    refine pairwise_map.mpr (pairwise_lt_range.imp_of_mem ?_)
    intro i j hi hj hlt heq
    -- the ids are below 2^128
    have hi' := mem_range.mp hi
    have hj' := mem_range.mp hj
    have hnat : (BitVec.ofNat 128 i).toNat = (BitVec.ofNat 128 j).toNat := congrArg BitVec.toNat heq
    rw [BitVec.toNat_ofNat, BitVec.toNat_ofNat, Nat.mod_eq_of_lt (by omega),
      Nat.mod_eq_of_lt (by omega)] at hnat
    omega
  uploaded := reverse_perm _
  fresh := by
    intro k value hvalue
    unfold emptySite at hvalue
    rw [Std.ExtTreeMap.getElem?_empty] at hvalue
    cases hvalue
  headers := ⟨_, rfl⟩
  named := by
    refine ⟨_, rfl, fun m => ?_⟩
    unfold sampleBodies
    rw [map_map, mem_range'_1]
    constructor
    · intro hm
      exact mem_map.mpr ⟨m - 1, mem_range.mpr (by omega), by show m - 1 + 1 = m; omega⟩
    · intro hm
      obtain ⟨i, hi, rfl⟩ := mem_map.mp hm
      have hlt := mem_range.mp hi
      show 1 ≤ i + 1 ∧ i + 1 < 1 + n
      omega
  checksum := nofun

theorem multipart_reads_back_at_sample :
    ReadsBack sampleCluster 0 sampleChecksums sampleParse (ascii "/k") 1 0 (sampleBodies 3)
      (sampleBodies 3).reverse (sampleNaming 3) emptySite :=
  (multipart_reads_back_iff (session_sampleBodies (by decide)) 0 0).mpr (by decide)

theorem multipart_of_1001_parts_fails :
    Session sampleCluster sampleChecksums sampleParse (ascii "/k") 1 (sampleBodies 1001)
        (sampleBodies 1001).reverse (sampleNaming 1001) emptySite
      ∧ ((multipartUpload 0 sampleParse (ascii "/k") sampleChecksums 1 0 (sampleBodies 1001).reverse
          (sampleNaming 1001)).run.exec sampleCluster.answer emptySite).1 = .error .invalidPart
      ∧ ¬ ReadsBack sampleCluster 0 sampleChecksums sampleParse (ascii "/k") 1 0 (sampleBodies 1001)
        (sampleBodies 1001).reverse (sampleNaming 1001) emptySite := by
  have hsession := session_sampleBodies (n := 1001) (by decide)
  have hmore : sampleCluster.clamp < (sampleBodies 1001).length := by
    unfold sampleBodies
    rw [length_map, length_range]
    decide
  obtain ⟨e, herror, hinvalid⟩ := complete_truncated hsession hmore 0 0
  rw [hinvalid rfl] at herror
  refine ⟨hsession, herror, ?_⟩
  rintro ⟨completed, s', hcompleted, -⟩
  rw [hcompleted] at herror
  cases herror

end FractalBits.Objects
