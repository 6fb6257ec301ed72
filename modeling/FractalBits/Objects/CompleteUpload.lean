/-
  Objects.CompleteUpload — what a completion answers, and what it leaves.

  Mirrors `complete_multipart_upload_handler`, run alone and with every call answered.
-/

import FractalBits.Objects.Multipart

namespace FractalBits.Objects

open Lib Streaming Gateway List
open OvrMap (Uuid)

/-! ## §1. The upload, and what is to become of it -/

/-- An upload and its stored parts, in the order of their numbers. They fit one reply. -/
structure StoredUpload (cluster : Cluster) (key : Bytes) (object : Layout)
    (parts : List (Nat × Layout)) (s : Site) :
    Prop where
  inode : s.inodes[key]? = some (.layout object)
  holds : HoldsParts key object.versionId parts s.inodes
  numbers : ∀ part ∈ parts, IsPartNumber part.1
  sorted : parts.Pairwise fun p q => p.1 < q.1
  normal : ∀ part ∈ parts, part.2.IsNormal
  bounded : ∀ part ∈ parts, partSize part ≤ defaultBlockSize * 2 ^ 32
  fits : parts.length ≤ cluster.clamp

def keptParts (numbers : List Nat) (parts : List (Nat × Layout)) : List (Nat × Layout) :=
  parts.filter fun part => part.1 ∈ numbers

structure CompletedWith (K : Checksums) (key : Bytes) (object : Layout)
    (parts : List (Nat × Layout)) (expected : Option ChecksumValue) (numbers : List Nat)
    (completed : Layout) (s s' : Site) : Prop where
  stored : ∀ n ∈ numbers, n ∈ parts.map Prod.fst
  surviving : HoldsParts key object.versionId (keptParts numbers parts) s'.inodes
  removed : ∀ part ∈ parts, part.1 ∉ numbers → ∀ guid, part.2.blobGuid = .ok guid →
    Enqueued s s' guid
  inode : s'.inodes[key]? = some (.layout completed)
  state : ∃ core, completed = { object with state := .mpu (.completed core) }
    ∧ core.size = ((keptParts numbers parts).map partSize).sum
  checksum : ∀ value, expected = some value →
    value = ⟨value.algorithm, K.digest value.algorithm
      ((keptParts numbers parts).map partChecksum).flatten⟩

/-! ## §2. The deletions -/

section

variable {cluster : Cluster} {s s' s'' : Site} {guid : DataBlobGuid}

theorem Enqueued.weaken (h : Enqueued s s' guid) (hqueue : s'.queue <+: s''.queue)
    (hfirst : s.queue <+: s'.queue) :
    Enqueued s s'' guid := by
  obtain ⟨request, hmem, hguid⟩ := h
  obtain ⟨more, hmore⟩ := hqueue
  refine ⟨request, ?_, hguid⟩
  rw [← hmore, drop_append_of_le_length hfirst.length_le]
  exact mem_append_left _ hmem

theorem Enqueued.of_later (h : Enqueued s' s'' guid) (hfirst : s.queue <+: s'.queue) :
    Enqueued s s'' guid := by
  obtain ⟨request, hmem, hguid⟩ := h
  refine ⟨request, ?_, hguid⟩
  have hsub : s''.queue.drop s'.queue.length <:+ s''.queue.drop s.queue.length :=
    drop_suffix_drop_left _ hfirst.length_le
  exact hsub.subset hmem

structure PartsDeleted (keys : List Bytes) (s s' : Site) : Prop where
  inodes : ∀ k, s'.inodes[k]? = if k ∈ keys then none else s.inodes[k]?
  queue : s.queue <+: s'.queue
  enqueued : ∀ k ∈ keys, ∀ object, s.inodes[k]? = some (.layout object) →
    ∀ guid, object.blobGuid = .ok guid →
    Enqueued s s' guid

theorem exec_delete_normal {k : Bytes} {object : Layout} (h : s.inodes[k]? = some (.layout object))
    (hnormal : object.IsNormal) (rounds : Nat) :
    (deleteObjectByKey rounds k).run.exec cluster.answer
      s = (.ok (), (s.without [k]).enqueued [object]) := by
  obtain ⟨guid, core, hstate⟩ := hnormal
  have hguid : object.blobGuid = .ok guid := by
    unfold Layout.blobGuid
    rw [hstate]
  show deleteOutcome cluster rounds s k = _
  rw [exec_delete_layout h]
  unfold cleanUpDeleted
  rw [hstate]
  exact exec_enqueue_ok hguid _

theorem exec_deleteInvalidParts {keys : List Bytes} (hnodup : keys.Nodup)
    (hkeys : ∀ k ∈ keys, ∃ object, s.inodes[k]? = some (.layout object) ∧ object.IsNormal)
    (rounds : Nat) :
    ∃ s', (deleteInvalidParts rounds keys).run.exec cluster.answer s = (.ok (), s')
      ∧ PartsDeleted keys s s' := by
  induction keys generalizing s with
  | nil =>
    refine ⟨s, rfl, fun k => ?_, prefix_refl _, fun k hk => absurd hk not_mem_nil⟩
    rw [if_neg not_mem_nil]
  | cons key keys ih =>
    obtain ⟨object, hobject, hnormal⟩ := hkeys key mem_cons_self
    obtain ⟨hfresh, hnodup⟩ := nodup_cons.mp hnodup
    have hfirst : ∀ k, ((s.without [key]).enqueued [object]).inodes[k]? = if k ∈ [key] then none
      else s.inodes[k]? :=
      fun k => getElem?_without s [key] k
    -- the keys still to come are not touched by the first deletion
    have hother : ∀ k ∈ keys, ((s.without [key]).enqueued [object]).inodes[k]? = s.inodes[k]? := by
      intro k hk
      rw [hfirst, if_neg]
      rintro hmem
      rw [mem_singleton.mp hmem] at hk
      exact hfresh hk
    obtain ⟨s', hexec, hdeleted⟩ := ih (s := (s.without [key]).enqueued [object]) hnodup
      (fun k hk => by
      rw [hother k hk]
      exact hkeys k (mem_cons_of_mem _ hk))
    have hqueue : s.queue <+: ((s.without [key]).enqueued [object]).queue := prefix_append ..
    refine ⟨s', ?_, fun k => ?_, hqueue.trans hdeleted.queue,
      fun k hk object' hobject' guid hguid => ?_⟩
    · unfold deleteInvalidParts
      rw [exec_of_ok (exec_delete_normal hobject hnormal rounds), hexec]
    · rw [hdeleted.inodes, hfirst]
      by_cases hk : k ∈ keys
      · rw [if_pos hk, if_pos (mem_cons_of_mem _ hk)]
      · simp only [mem_cons, not_mem_nil, or_false, hk, if_false]
    · rcases mem_cons.mp hk with rfl | hk
      · -- the first key: its blob was enqueued now, and the queue only grows
        rw [hobject] at hobject'
        cases hobject'
        exact (enqueued_of_mem (mem_singleton.mpr rfl) hguid rfl).weaken hdeleted.queue hqueue
      · rw [← hother k hk] at hobject'
        exact (hdeleted.enqueued k hk object' hobject' guid hguid).of_later hqueue

end

/-! ## §3. The loop and the checks -/

section

variable {cluster : Cluster} {key : Bytes} {object : Layout} {parts : List (Nat × Layout)}
    {s : Site}

def tallyOf (key : Bytes) (uploadId : Uuid) (parts : List (Nat × Layout))
    (numbers : List Nat) : PartTally where
  validPartNumbers := numbers.filter fun n => n ∉ parts.map Prod.fst
  invalidPartKeys := (parts.filter fun part => part.1 ∉ numbers).map fun part =>
    mpuGetPartPrefix key uploadId part.1
  totalSize := ((keptParts numbers parts).map partSize).sum
  checksummed := ((keptParts numbers parts).map partChecksum).flatten

variable (h : StoredUpload cluster key object parts s)

include h

theorem StoredUpload.length_le : parts.length ≤ 10000 :=
  length_le_of_sorted h.numbers h.sorted

theorem StoredUpload.tally (numbers : List Nat) :
    (parts.map (partEntry key object.versionId)).foldlM tallyPart ⟨numbers, [], 0, []⟩
      = .ok (tallyOf key object.versionId parts numbers) := by
  have hnodup : (parts.map Prod.fst).Nodup := pairwise_map.mpr (h.sorted.imp Nat.ne_of_lt)
  have hsum : 0 + (parts.map partSize).sum < 2 ^ 64 := by
    rw [Nat.zero_add]
    exact sum_partSize_lt_of_le h.bounded h.length_le
  rw [foldlM_tallyPart (fun part hpart => ⟨h.numbers part hpart, h.normal part hpart⟩) hnodup _
    hsum]
  unfold tallyOf keptParts
  simp only [nil_append, Nat.zero_add]

variable {numbers : List Nat}

omit h in
theorem checkTally_ok {K : Checksums} {expected : Option ChecksumValue} {uploadId : Uuid}
    (h : checkTally K expected (tallyOf key uploadId parts numbers) = .ok ()) :
    (∀ n ∈ numbers, n ∈ parts.map Prod.fst) ∧ ∀ value, expected = some value →
      value = ⟨value.algorithm, K.digest value.algorithm
        ((keptParts numbers parts).map partChecksum).flatten⟩ := by
  unfold checkTally at h
  split at h
  · cases h
  · next hdigest =>
    split at h
    · cases h
    · next hempty =>
      constructor
      · intro n hn
        by_contra hnot
        apply hempty
        intro hnil
        have hmem : n ∈ numbers.filter fun n => n ∉ parts.map Prod.fst :=
          mem_filter.mpr ⟨hn, decide_eq_true hnot⟩
        rw [show numbers.filter (fun n => n ∉ parts.map Prod.fst) = [] from hnil] at hmem
        cases hmem
      · rintro value rfl
        by_contra hne
        exact hdigest ⟨rfl, fun heq => hne (Option.some.inj heq).symm⟩

omit h in
theorem mem_invalidPartKeys {uploadId : Uuid} {k : Bytes} :
    k ∈ (tallyOf key uploadId parts numbers).invalidPartKeys
      ↔ ∃ part ∈ parts, part.1 ∉ numbers ∧ mpuGetPartPrefix key uploadId part.1 = k := by
  show k ∈ (parts.filter _).map _ ↔ _
  rw [mem_map]
  constructor
  · rintro ⟨part, hpart, hk⟩
    obtain ⟨hmem, hnot⟩ := mem_filter.mp hpart
    exact ⟨part, hmem, of_decide_eq_true hnot, hk⟩
  · rintro ⟨part, hmem, hnot, hk⟩
    exact ⟨part, mem_filter.mpr ⟨hmem, decide_eq_true hnot⟩, hk⟩

theorem StoredUpload.nodup_invalidPartKeys (numbers : List Nat) :
    (tallyOf key object.versionId parts numbers).invalidPartKeys.Nodup := by
  show ((parts.filter _).map _).Nodup
  refine List.Nodup.map_on ?_
    ((h.sorted.imp (fun hlt heq => absurd (congrArg Prod.fst heq) (Nat.ne_of_lt hlt))).filter _)
  intro p hp q hq heq
  have hp := (mem_filter.mp hp).1
  have hq := (mem_filter.mp hq).1
  have hnumber := partKey_inj (h.numbers p hp) (h.numbers q hq) heq
  have hnodup : (parts.map Prod.fst).Nodup := pairwise_map.mpr (h.sorted.imp Nat.ne_of_lt)
  exact inj_on_of_nodup_map hnodup hp hq hnumber

theorem StoredUpload.stored {part : Nat × Layout} (hpart : part ∈ parts) :
    s.inodes[mpuGetPartPrefix key object.versionId part.1]? = some (.layout part.2) :=
  ((h.holds _).mpr (mem_map_of_mem hpart)).1

/-! ## §4. The completion -/

def ValidatesFirst (K : Checksums) (key : Bytes) (object : Layout) (parts : List (Nat × Layout))
    (req : CompleteRequest) (s : Site) (outcome : Except S3Error Layout × Site) : Prop :=
  (∃ e, outcome = (.error e, s))
    ∨ ∃ numbers completed s', req.partNumbers = .ok numbers ∧ outcome = (.ok completed, s')
      ∧ CompletedWith K key object parts req.checksumValue numbers completed s s'

theorem StoredUpload.surviving {keys : List Bytes}
    (hkeys : ∀ k, k ∈ keys ↔ k ∈ (tallyOf key object.versionId parts numbers).invalidPartKeys)
    {s' : Site} (hdeleted : PartsDeleted keys s s') (value : Inode) :
    HoldsParts key object.versionId (keptParts numbers parts) (s'.inodes.insert key value) := by
  intro e
  -- the new inode is at the key itself, which is not under the prefix of its parts
  have hiff : (s'.inodes.insert key value)[e.1]? = some e.2
      ∧ partsPrefix key (Uuid.asSimple object.versionId) <+: nulTerminated e.1
        ↔ (s.inodes[e.1]? = some e.2 ∧ partsPrefix key (Uuid.asSimple object.versionId)
        <+: nulTerminated e.1) ∧ e.1 ∉ keys := by
    constructor
    · rintro ⟨hstored, hunder⟩
      rw [getElem?_insert_of_ne _ _ (ne_of_partsPrefix hunder), hdeleted.inodes] at hstored
      split at hstored
      · cases hstored
      · next hk => exact ⟨⟨hstored, hunder⟩, hk⟩
    · rintro ⟨⟨hstored, hunder⟩, hk⟩
      rw [getElem?_insert_of_ne _ _ (ne_of_partsPrefix hunder), hdeleted.inodes, if_neg hk]
      exact ⟨hstored, hunder⟩
  rw [hiff, h.holds e, hkeys, mem_invalidPartKeys, mem_map, mem_map]
  constructor
  · rintro ⟨⟨part, hpart, rfl⟩, hnot⟩
    refine ⟨part, mem_filter.mpr ⟨hpart, decide_eq_true ?_⟩, rfl⟩
    by_contra hunnamed
    exact hnot ⟨part, hpart, hunnamed, rfl⟩
  · rintro ⟨part, hpart, rfl⟩
    obtain ⟨hmem, hnamed⟩ := mem_filter.mp hpart
    refine ⟨⟨part, hmem, rfl⟩, ?_⟩
    rintro ⟨other, hother, hunnamed, hkey⟩
    -- two parts with one key have one number
    have hnumber := partKey_inj (h.numbers other hother) (h.numbers part hmem) hkey
    rw [hnumber] at hunnamed
    exact hunnamed (of_decide_eq_true hnamed)

theorem StoredUpload.completeListed (rounds : Nat) (K : Checksums)
    (req : CompleteRequest) (headers : Headers) (hnumbers : req.partNumbers = .ok numbers) :
    ValidatesFirst K key object parts req s
      ((Objects.completeListed rounds K key req headers numbers object
        (parts.map (partEntry key object.versionId))).run.exec cluster.answer s) := by
  unfold Objects.completeListed
  rw [h.tally numbers, exec_of_ok (exec_orFail_ok id _ _)]
  cases hcheck : checkTally K req.checksumValue (tallyOf key object.versionId parts numbers) with
  | error e => exact .inl ⟨e, exec_of_error (exec_orFail_error id e s)⟩
  | ok _ =>
    -- all checks have passed; from here on every call succeeds
    obtain ⟨hstored, hchecksum⟩ := checkTally_ok hcheck
    have hperm := req.order_perm (tallyOf key object.versionId parts numbers).invalidPartKeys
    have hkeys : ∀ k ∈ req.order (tallyOf key object.versionId parts numbers).invalidPartKeys,
        ∃ object, s.inodes[k]? = some (.layout object) ∧ object.IsNormal := by
      intro k hk
      obtain ⟨part, hpart, -, rfl⟩ := mem_invalidPartKeys.mp (hperm.mem_iff.mp hk)
      exact ⟨part.2, h.stored hpart, h.normal part hpart⟩
    obtain ⟨s', hexec, hdeleted⟩ :=
      exec_deleteInvalidParts (hperm.nodup_iff.mpr (h.nodup_invalidPartKeys numbers)) hkeys rounds
    rw [exec_of_ok (exec_orFail_ok id () _), exec_of_ok hexec, exec_putCompleted]
    refine .inr ⟨numbers, _, _, hnumbers, rfl, ?_⟩
    constructor
    · exact hstored
    · exact h.surviving (fun k => hperm.mem_iff) hdeleted _
    · intro part hpart hunnamed guid hguid
      have hmem := hperm.mem_iff.mpr (mem_invalidPartKeys.mpr ⟨part, hpart, hunnamed, rfl⟩)
      exact hdeleted.enqueued _ hmem part.2 (h.stored hpart) guid hguid
    · exact Std.ExtTreeMap.getElem?_insert_self
    · exact ⟨_, rfl, rfl⟩
    · exact hchecksum

theorem StoredUpload.validatesFirst (rounds : Nat) (K : Checksums)
    (uploadId : Bytes) (req : CompleteRequest) :
    ValidatesFirst K key object parts req s
      ((completeMultipartUpload rounds K key uploadId req).run.exec cluster.answer s) := by
  have hread := exec_getRawObject cluster rounds key s
  rw [Site.getResponse, h.inode] at hread
  have hlist : (listRawObjects rounds 10000 (mpuGetPartPrefix key object.versionId 0) []).run.exec
      cluster.answer s = _ := exec_listRawObjects ..
  -- the listing shows all parts: there are at most 10000, and they fit one reply
  have hall : parts.take (min 10000 cluster.clamp) = parts := by
    apply take_of_length_le
    have hle := h.length_le
    have hfits := h.fits
    omega
  rw [h.holds.page h.numbers h.sorted, hall, rawObjects_parts h.numbers] at hlist
  -- four ways to fail before anything is written, and then the listed parts
  unfold completeMultipartUpload
  cases hheaders : extractMetadataHeaders req.headers with
  | error e => exact .inl ⟨e, exec_of_error (exec_orFail_error id e s)⟩
  | ok headers =>
    rw [exec_of_ok (exec_orFail_ok id headers _)]
    cases hnumbers : req.partNumbers with
    | error e => exact .inl ⟨e, exec_of_error (exec_orFail_error id e s)⟩
    | ok numbers =>
      rw [exec_of_ok (exec_orFail_ok id numbers _), exec_of_ok hread]
      cases hcheck : checkUploading uploadId object with
      | error e => exact .inl ⟨e, exec_of_error (exec_orFail_error id e s)⟩
      | ok _ =>
        rw [exec_of_ok (exec_orFail_ok id () _), exec_of_ok hlist]
        exact h.completeListed rounds K req headers hnumbers

omit h in
/-- ★ **A completion validates before it changes anything**, and keeps exactly the parts that the
    request names. -/
theorem complete_validates_first (h : StoredUpload cluster key object parts s) (rounds : Nat)
    (K : Checksums) (uploadId : Bytes) (req : CompleteRequest) :
    (∀ e, e = .noSuchVersion ∨ e = .invalidObjectState ∨ e = .invalidDigest ∨ e = .invalidPart →
        ((completeMultipartUpload rounds K key uploadId req).run.exec cluster.answer s).1 = .error
          e →
        ((completeMultipartUpload rounds K key uploadId req).run.exec cluster.answer s).2 = s)
      ∧ ∀ completed,
        ((completeMultipartUpload rounds K key uploadId req).run.exec cluster.answer s).1 = .ok
          completed →
        ∃ numbers, req.partNumbers = .ok numbers
          ∧ CompletedWith K key object parts req.checksumValue numbers completed s
            ((completeMultipartUpload rounds K key uploadId req).run.exec cluster.answer s).2 := by
  rcases h.validatesFirst rounds K uploadId req with ⟨err, herr⟩ | ⟨numbers, completed, s',
    hnumbers, hok, hwith⟩
  · rw [herr]
    exact ⟨fun _ _ _ => rfl, fun completed hcompleted => by cases hcompleted⟩
  · rw [hok]
    constructor
    · intro e _ he
      cases he
    · intro completed' hcompleted
      cases hcompleted
      exact ⟨numbers, hnumbers, hwith⟩

end

theorem Session.storedUpload {cluster : Cluster} {K : Checksums} {parseUuid : Bytes → Option Uuid}
    {key : Bytes} {versionId : Uuid} {parts order : List PartBody} {req : CompleteRequest}
    {s : Site} (h : Session cluster K parseUuid key versionId parts order req s)
    (hfits : parts.length ≤ cluster.clamp) (timestamp : Nat) :
    StoredUpload cluster key (uploadingLayout versionId timestamp) (storedParts parts)
      ((s.created key versionId timestamp).withParts key versionId order) where
  inode := Session.pending timestamp
  holds := h.holdsParts timestamp
  numbers := h.stored_numbers
  sorted := h.stored_sorted
  normal := h.stored_normal
  bounded := by
    intro part hpart
    obtain ⟨body, hbody, rfl⟩ := mem_map.mp hpart
    have hwhole := h.whole timestamp body hbody
    rw [show partSize body.part = _ from hwhole.partSize_eq body.number]
    exact hwhole.flatten_le
  fits := by
    rw [storedParts, length_map]
    exact hfits

def namingSecond : CompleteRequest := { sampleCompletion with partNumbers := .ok [2, 2] }

def twoPartSite : Site :=
  (emptySite.created (ascii "/k") 1 0).withParts (ascii "/k") 1 (sampleBodies 2).reverse

theorem complete_validates_first_at_sample :
    ∃ completed,
      ((completeMultipartUpload 0 sampleChecksums (ascii "/k") (Uuid.asSimple 1)
        namingSecond).run.exec sampleCluster.answer twoPartSite).1 = .ok completed
      ∧ ∃ numbers, namingSecond.partNumbers = .ok numbers
        ∧ CompletedWith sampleChecksums (ascii "/k") pendingSample (storedParts (sampleBodies 2))
          none numbers completed twoPartSite
            ((completeMultipartUpload 0 sampleChecksums (ascii "/k") (Uuid.asSimple 1)
              namingSecond).run.exec sampleCluster.answer twoPartSite).2 := by
  have hstored := (session_sampleBodies (n := 2) (by decide)).storedUpload (by decide) 0
  have hok :
    ((completeMultipartUpload 0 sampleChecksums (ascii "/k") (Uuid.asSimple 1)
      namingSecond).run.exec sampleCluster.answer twoPartSite).1.toBool = true := by
    decide +kernel
  cases hresult :
    ((completeMultipartUpload 0 sampleChecksums (ascii "/k") (Uuid.asSimple 1)
      namingSecond).run.exec sampleCluster.answer twoPartSite).1 with
  | error e =>
    rw [hresult] at hok
    cases hok
  | ok completed =>
    exact ⟨completed, rfl, (complete_validates_first hstored 0 sampleChecksums (Uuid.asSimple 1)
      namingSecond).2 completed hresult⟩

end FractalBits.Objects
