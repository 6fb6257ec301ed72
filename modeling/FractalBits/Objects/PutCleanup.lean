/-
  Objects.PutCleanup — what a PUT over an existing object reports, and what becomes of the object it
  replaced.

  `enqueue_replaced_object_cleanup` runs after the new layout is stored.
-/

import FractalBits.Objects.Specs

namespace FractalBits.Objects

open Lib Streaming Gateway
open OvrMap (Uuid)

/-! ## §1. Blobs and the inodes that name them -/

def Site.Names (s : Site) (key : Bytes) (guid : DataBlobGuid) : Prop :=
  ∃ object : Layout, s.inodes[key]? = some (.layout object) ∧ object.blobGuid = .ok guid

variable {guid : DataBlobGuid}

theorem names_iff {s : Site} {key : Bytes} :
    s.Names key guid ↔ s.inodes[key]?.bind Inode.blob = some guid := by
  unfold Site.Names
  cases s.inodes[key]? with
  | none => exact ⟨nofun, nofun⟩
  | some value =>
    show _ ↔ value.blob = some guid
    cases value with
    | raw bytes => exact ⟨nofun, nofun⟩
    | layout object =>
      show _ ↔ object.blobGuid.toOption = some guid
      constructor
      · rintro ⟨_, h, hguid⟩
        cases h
        rw [hguid]
        rfl
      · intro h
        refine ⟨object, rfl, ?_⟩
        cases hguid : object.blobGuid with
        | error e =>
          rw [hguid] at h
          cases h
        | ok guid' =>
          rw [hguid] at h
          cases h
          rfl

def Layout.IsPartKey (object : Layout) (key partKey : Bytes) : Prop :=
  (∃ core, object.state = .mpu (.completed core))
    ∧ ∃ partNumber, 1 ≤ partNumber ∧ partNumber ≤ 10000
      ∧ partKey = mpuGetPartPrefix key object.versionId partNumber

/-- The blob is reachable, and only through the layout at the key: by itself, or as the blob of one
    of its parts. -/
def Site.OnlyThrough (s : Site) (key : Bytes) (object : Layout) (guid : DataBlobGuid) : Prop :=
  (∃ k, (k = key ∨ object.IsPartKey key k) ∧ s.Names k guid)
    ∧ ∀ k, s.Names k guid → k = key ∨ object.IsPartKey key k

def Enqueued (s s' : Site) (guid : DataBlobGuid) : Prop :=
  ∃ request ∈ s'.queue.drop s.queue.length, request.blobGuid = guid

/-- Calls whose failures can be seen: no reply of the namespace service is lost, and the queue takes
    every request. -/
def FailsVisibly : Op → Delivery → Prop
  | .getBlobClient, d | .sendDeletion _, d => d = .answered
  | .putBlock _ _, _ => True
  | _, d => d ≠ .replyLost ∧ d ≠ .garbled

section

variable (cluster : Cluster) (rounds : Nat) (s : Site) (key : Bytes) (upload : Upload)

def putOutcome : Except S3Error Unit × Site :=
  (putObject rounds key upload).run.exec cluster.answer s

structure PutReports : Prop where
  answered : (putOutcome cluster rounds s key upload).1 = .ok ()
  reclaimed : ∀ object, s.inodes[key]? = some (.layout object) →
    ∀ guid, s.OnlyThrough key object guid →
    guid ≠ upload.layout.blobGuid → Enqueued s (putOutcome cluster rounds s key upload).2 guid
  partsRemoved : ∀ object, s.inodes[key]? = some (.layout object) → ∀ k, object.IsPartKey key k →
    (putOutcome cluster rounds s key upload).2.inodes[k]? = none
  unchanged : ∀ e s', (putObject rounds key upload).run.Ends cluster.serve FailsVisibly s (.error e)
    s' →
    s'.inodes[key]? = s.inodes[key]?

/-- The layouts the cleanup is for: none; without a `#` in the key, one that names a blob; with one,
    one through which nothing is reachable. -/
def CleansUp : Option Layout → Prop
  | none => True
  | some object =>
    if (35 : UInt8) ∈ key then
      (∀ guid, s.OnlyThrough key object guid → guid = upload.layout.blobGuid)
        ∧ ∀ k, object.IsPartKey key k → s.inodes[k]? = none
    else ∃ guid, object.blobGuid = .ok guid

end

/-! ## §2. A PUT whose calls are all answered -/

section

variable {cluster : Cluster}

def Site.committed (s : Site) (key : Bytes) (upload : Upload) : Site :=
  { s with stores := writeAll s.stores upload.writes, inodes := s.inodes.insert key
             (.layout upload.stored) }

theorem exec_putObject {key : Bytes} (haccepted : rejectTrailingSlashKey key = .ok ())
    (rounds : Nat) (s : Site) (upload : Upload) :
    putOutcome cluster rounds s key upload
      = (enqueueReplacedObjectCleanup key (s.inodes[key]?.getD .empty)
          upload.layout.blobGuid).run.exec cluster.answer (s.committed key upload) := by
  unfold putOutcome putObject
  rw [haccepted, exec_of_ok (exec_orFail_ok id () s), exec_of_ok (exec_lift _ s), exec_putBlocks]
  rw [if_neg (by decide : ¬ true = false)]
  unfold commitObject
  have hput : (perform (Op.putInode key (.layout upload.stored)) : Call _).exec cluster.answer
      { s with stores := writeAll s.stores upload.writes }
        = (.ok (.ok (s.inodes[key]?.getD .empty)), s.committed key upload) := rfl
  rw [exec_of_ok (exec_nss hput rounds)]
  exact exec_of_ok (exec_orFail_ok NssError.toS3Error (s.inodes[key]?.getD .empty) _)

/-! ## §3. The cleanup, case by case -/

variable {key : Bytes} {replacement : DataBlobGuid}

theorem cleanup_of_empty : enqueueReplacedObjectCleanup key .empty replacement = pure () := by
  unfold enqueueReplacedObjectCleanup
  rw [if_pos (.inl (by decide))]

theorem cleanup_of_hash (h : (35 : UInt8) ∈ key) (old : Inode) :
    enqueueReplacedObjectCleanup key old replacement = pure () := by
  unfold enqueueReplacedObjectCleanup
  rw [if_pos (.inr (by simpa using h))]

theorem cleanup_of_layout (h : (35 : UInt8) ∉ key) (object : Layout) :
    enqueueReplacedObjectCleanup key (.layout object) replacement
      = match object.blobGuid with
        | .error _ => throw .internalError
        | .ok oldBlobGuid =>
          if oldBlobGuid ≠ replacement then do
            let r ← ExceptT.lift (enqueueBlobDeletion object)
            orFail (fun _ => S3Error.internalError) r
          else return () := by
  unfold enqueueReplacedObjectCleanup
  rw [if_neg]
  · rfl
  · rintro (hempty | hhash)
    · exact absurd hempty (by simp [Inode.isEmpty, Inode.empty])
    · exact h (by simpa using hhash)

variable {object : Layout} {s s' : Site}

theorem exec_cleanup_ok (h : (35 : UInt8) ∉ key) {guid : DataBlobGuid}
    (hguid : object.blobGuid = .ok guid) (s : Site) :
    (enqueueReplacedObjectCleanup key (.layout object) replacement).run.exec cluster.answer s
      = (.ok (), if guid ≠ replacement then s.enqueued [object] else s) := by
  rw [cleanup_of_layout h, hguid]
  dsimp only
  by_cases hsame : guid ≠ replacement
  · rw [if_pos hsame, if_pos hsame, exec_of_ok (exec_lift _ s), exec_enqueueBlobDeletion_ok hguid]
    rfl
  · rw [if_neg hsame, if_neg hsame]
    rfl

/-! ## §4. A PUT whose calls fail visibly -/

theorem ensures_cleanup {old : Inode}
    (hold : old = .empty ∨ (35 : UInt8) ∈ key ∨ ∃ object guid, old = .layout object
    ∧ object.blobGuid = .ok guid) :
    (enqueueReplacedObjectCleanup key old replacement).run.Ensures cluster.serve FailsVisibly
      Unguarded (fun r _ => r = .ok ()) s := by
  by_cases hhash : (35 : UInt8) ∈ key
  · rw [cleanup_of_hash hhash]
    rfl
  · rcases hold with rfl | hhash' | ⟨object, guid, rfl, hguid⟩
    · rw [cleanup_of_empty]
      rfl
    · exact absurd hhash' hhash
    · rw [cleanup_of_layout hhash, hguid]
      dsimp only
      split
      · -- the queue takes the request
        rw [run_lift_bind]
        unfold enqueueBlobDeletion
        rw [newBlobDeletionRequest_ok hguid]
        refine ⟨trivial, ?_⟩
        rintro d rfl
        refine ⟨trivial, ?_⟩
        rintro d rfl
        rfl
      · rfl

theorem ensures_putBlocks {ok : Op → Delivery → Prop} (writes : List (BlobKey × Bytes)) (s : Site) :
    (putBlocks writes).Ensures cluster.serve ok Unguarded (fun _ s' => s'.inodes = s.inodes) s := by
  induction writes generalizing s with
  | nil => rfl
  | cons w writes ih =>
    refine ⟨trivial, fun d _ => (ih _).bind fun _ s' hs' => hs'.trans ?_⟩
    cases d <;> rfl

theorem ensures_putObject {rounds : Nat} {upload : Upload}
    (hold : s.inodes[key]?.getD .empty = .empty ∨ (35 : UInt8) ∈ key
      ∨ ∃ object guid, s.inodes[key]?.getD .empty = .layout object ∧ object.blobGuid = .ok guid) :
    (putObject rounds key upload).run.Ensures cluster.serve FailsVisibly Unguarded
      (fun r s' => ∀ e, r = .error e → s'.inodes[key]? = s.inodes[key]?) s := by
  -- the commit is applied and answers what it replaced, or nothing changed
  have hput : ∀ s₁ : Site, s₁.inodes = s.inodes →
      (nss rounds (perform (Op.putInode key (.layout upload.stored)))).run.Ensures cluster.serve
        FailsVisibly Unguarded (fun r s' => r = .ok (.ok (s.inodes[key]?.getD .empty))
          ∨ s'.inodes = s.inodes ∧ ∀ old, r ≠ .ok (.ok old)) s₁ := by
    refine fun s₁ hs₁ => ensures_nss (I := fun s₁ => s₁.inodes = s.inodes) ?_ rounds hs₁
    refine fun s₁ hs₁ => ⟨trivial, fun d hd => ?_⟩
    cases d with
    | answered =>
      rw [← hs₁]
      exact ⟨.inl rfl, nofun⟩
    | replyLost => exact absurd rfl hd.1
    | garbled => exact absurd rfl hd.2
    | dropped | refused | noRootBlob => exact ⟨.inr ⟨hs₁, nofun⟩, fun _ _ => hs₁⟩
  unfold putObject
  refine ensures_run_bind (R := fun _ s' => s = s') rfl (fun e s' hs' _ _ => by rw [hs']) ?_
  rintro _ _ rfl
  rw [run_lift_bind]
  refine (ensures_putBlocks upload.writes _).bind fun acked s₁ hs₁ => ?_
  split
  · exact fun _ _ => by rw [hs₁]
  unfold commitObject
  refine ensures_run_bind (hput s₁ hs₁) ?_ ?_
  · rintro e s₂ (h | ⟨hs₂, -⟩)
    · cases h
    · exact fun _ _ => by rw [hs₂]
  · rintro resp s₂ (h | ⟨hs₂, hresp⟩)
    · cases h
      exact (ensures_cleanup hold).mono fun r _ hr e he => by rw [hr] at he; cases he
    · cases resp with
      | ok old => exact absurd rfl (hresp old)
      | errNoSuchRootBlob | errOther => exact fun _ _ => by rw [hs₂]

end

/-! ## §5. What a PUT reports -/

theorem ne_mpuGetPartPrefix (key : Bytes) (uploadId : Uuid) (partNumber : Nat) :
    key ≠ mpuGetPartPrefix key uploadId partNumber := by
  intro heq
  have hlength := congrArg List.length heq
  unfold mpuGetPartPrefix at hlength
  simp only [List.length_append] at hlength
  have hhash : (ascii "#").length = 1 := by decide
  omega

theorem Layout.IsPartKey.ne {object : Layout} {key k : Bytes} (h : object.IsPartKey key k) :
    key ≠ k := by
  obtain ⟨-, partNumber, -, -, rfl⟩ := h
  exact ne_mpuGetPartPrefix key _ partNumber

theorem not_isPartKey_of_blobGuid {object : Layout} (hguid : object.blobGuid = .ok guid)
    (key k : Bytes) : ¬ object.IsPartKey key k := by
  rintro ⟨⟨core, hstate⟩, -⟩
  unfold Layout.blobGuid at hguid
  rw [hstate] at hguid
  cases hguid

theorem not_enqueued_of_queue_eq {s s' : Site} (h : s'.queue = s.queue) :
    ¬ Enqueued s s' guid := by
  unfold Enqueued
  rw [h, List.drop_length]
  rintro ⟨request, hmem, -⟩
  cases hmem

section

variable {cluster : Cluster} {rounds : Nat} {s : Site} {key : Bytes} {upload : Upload}

variable (haccepted : rejectTrailingSlashKey key = .ok ())

include haccepted

theorem put_reports_of_absent (h : s.inodes[key]? = none) :
    PutReports cluster rounds s key upload := by
  have hold : s.inodes[key]?.getD .empty = .empty := by rw [h]; rfl
  refine ⟨?_, ?_, ?_, fun e s' h => (ensures_putObject (.inl hold)).ends h e rfl⟩
  · rw [exec_putObject haccepted, hold, cleanup_of_empty]
    rfl
  · intro object hobject
    rw [h] at hobject
    cases hobject
  · intro object hobject
    rw [h] at hobject
    cases hobject

theorem put_reports_hash_iff (hhash : (35 : UInt8) ∈ key)
    {object : Layout} (h : s.inodes[key]? = some (.layout object)) :
    PutReports cluster rounds s key upload ↔
      (∀ guid, s.OnlyThrough key object guid → guid = upload.layout.blobGuid)
        ∧ ∀ k, object.IsPartKey key k → s.inodes[k]? = none := by
  have hout : putOutcome cluster rounds s key upload = (.ok (), s.committed key upload) := by
    rw [exec_putObject haccepted, cleanup_of_hash hhash]
    rfl
  have hinodes : ∀ k, key ≠ k → (s.committed key upload).inodes[k]? = s.inodes[k]? := by
    intro k hne
    unfold Site.committed
    exact getElem?_insert_of_ne _ _ hne.symm
  constructor
  · intro hreports
    constructor
    · intro guid honly
      by_contra hne
      have henqueued := hreports.reclaimed object h guid honly hne
      rw [hout] at henqueued
      exact not_enqueued_of_queue_eq rfl henqueued
    · intro k hk
      have hremoved := hreports.partsRemoved object h k hk
      rw [hout] at hremoved
      rw [← hinodes k hk.ne]
      exact hremoved
  · rintro ⟨howns, hparts⟩
    refine ⟨by rw [hout], ?_, ?_, fun e s' h => (ensures_putObject (.inr (.inl hhash))).ends h e
      rfl⟩
    · intro object' hobject' guid honly hne
      rw [h] at hobject'
      cases hobject'
      exact absurd (howns guid honly) hne
    · intro object' hobject' k hk
      rw [h] at hobject'
      cases hobject'
      rw [hout]
      exact (hinodes k hk.ne).trans (hparts k hk)

theorem put_reports_of_blob (hhash : (35 : UInt8) ∉ key)
    {object : Layout} (h : s.inodes[key]? = some (.layout object)) {guid : DataBlobGuid}
    (hguid : object.blobGuid = .ok guid) : PutReports cluster rounds s key upload := by
  have hold : s.inodes[key]?.getD .empty = .layout object := by rw [h]; rfl
  have hout : putOutcome cluster rounds s key upload
      = (.ok (), if guid ≠ upload.layout.blobGuid then (s.committed key upload).enqueued [object]
          else s.committed key upload) := by
    rw [exec_putObject haccepted, hold, exec_cleanup_ok hhash hguid]
  refine ⟨by rw [hout], ?_, ?_,
    fun e s' h => (ensures_putObject (.inr (.inr ⟨object, guid, hold, hguid⟩))).ends h e rfl⟩
  · intro object' hobject' guid' honly hne
    rw [h] at hobject'
    cases hobject'
    -- the layout has no parts, so the blob is its own
    obtain ⟨⟨k, hk, object', hobject', hguid'⟩, -⟩ := honly
    have hkey : k = key := hk.resolve_right (not_isPartKey_of_blobGuid hguid key k)
    subst hkey
    rw [h] at hobject'
    cases hobject'
    rw [hguid] at hguid'
    cases hguid'
    rw [hout, if_pos hne]
    refine ⟨⟨guid, guid.location, object.mayHaveOvrRecords⟩, ?_, rfl⟩
    unfold Site.enqueued Site.committed
    rw [List.drop_left, List.filterMap_cons, newBlobDeletionRequest_ok hguid]
    exact List.mem_singleton.mpr rfl
  · intro object' hobject' k hk
    rw [h] at hobject'
    cases hobject'
    exact absurd hk (not_isPartKey_of_blobGuid hguid key k)

end

/-- **★ A PUT reports what it did and leaks nothing** exactly over the layouts its cleanup was
    written for. -/
theorem put_reports_iff (cluster : Cluster) (rounds : Nat) (s : Site) (key : Bytes)
    (upload : Upload) (previous : Option Layout) (haccepted : rejectTrailingSlashKey key = .ok ())
    (hprevious : s.inodes[key]? = previous.map .layout) :
    PutReports cluster rounds s key upload ↔ CleansUp s key upload previous := by
  cases previous with
  | none => exact iff_of_true (put_reports_of_absent haccepted hprevious) trivial
  | some object =>
    unfold CleansUp
    dsimp only
    by_cases hhash : (35 : UInt8) ∈ key
    · rw [if_pos hhash]
      exact put_reports_hash_iff haccepted hhash hprevious
    · rw [if_neg hhash]
      constructor
      · intro hreports
        cases hguid : object.blobGuid with
        | ok guid => exact ⟨guid, rfl⟩
        | error e =>
          have hanswered := hreports.answered
          rw [exec_putObject haccepted, hprevious] at hanswered
          rw [show (Option.map Inode.layout (some object)).getD .empty = .layout object from rfl,
            cleanup_of_layout hhash, hguid] at hanswered
          cases hanswered
      · rintro ⟨guid, hguid⟩
        exact put_reports_of_blob haccepted hhash hprevious hguid

def sampleCluster : Cluster := ⟨1000, .allInBssSingleAz, fun _ _ => .error .internalError⟩

def sampleUpload : Upload where
  writes := []
  layout := ⟨defaultBlockSize, 1, 0, ⟨2, 0⟩, 0, [], none⟩
  versionId := 3
  timestamp := 0

def emptySite : Site := ⟨∅, fun _ => none, []⟩

def siteOf (inodes : List (Bytes × Inode)) : Site where
  inodes := inodes.foldl (fun ns e => ns.insert e.1 e.2) ∅
  stores := fun _ => none
  queue := []

def siteWith (inode : Inode) : Site := siteOf [(ascii "/k", inode)]

theorem getElem?_siteWith (inode : Inode) (key : Bytes) :
    (siteWith inode).inodes[key]? = if ascii "/k" = key then some inode else none := by
  show ((∅ : Namespace).insert (ascii "/k") inode)[key]? = _
  rw [Std.ExtTreeMap.getElem?_insert]
  simp

def replacedUpload : Upload :=
  { sampleUpload with layout := { sampleUpload.layout with blobGuid := ⟨5, 0⟩ } }

theorem put_reports_at_sample :
    PutReports sampleCluster 0 (siteWith (.layout replacedUpload.stored)) (ascii "/k")
      sampleUpload :=
  (put_reports_iff sampleCluster 0 _ _ _ (some replacedUpload.stored) (by decide)
    (by decide +kernel)).mpr ⟨_, rfl⟩

theorem put_over_upload_fails :
    (putOutcome sampleCluster 0 (siteWith (.layout pendingSample)) (ascii "/k") sampleUpload).1
        = .error .internalError
      ∧ (putOutcome sampleCluster 0 (siteWith (.layout pendingSample)) (ascii "/k")
        sampleUpload).2.inodes[ascii "/k"]? = some (.layout sampleUpload.stored)
      ∧ ¬ PutReports sampleCluster 0 (siteWith (.layout pendingSample)) (ascii "/k")
        sampleUpload := by
  have hanswer :
      (putOutcome sampleCluster 0 (siteWith (.layout pendingSample)) (ascii "/k") sampleUpload).1
        = .error .internalError := by decide +kernel
  refine ⟨hanswer, by decide +kernel, fun hreports => ?_⟩
  have hok := hreports.answered
  rw [hanswer] at hok
  cases hok

end FractalBits.Objects
