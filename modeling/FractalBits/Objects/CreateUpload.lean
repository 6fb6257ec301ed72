/-
  Objects.CreateUpload — what starting a multipart upload does to the object at its key.
-/

import FractalBits.Objects.DeleteFrame
import FractalBits.Objects.Read

namespace FractalBits.Objects

open Lib Streaming Gateway
open OvrMap (Uuid)

def NoErrorReply (_ : Op) (d : Delivery) : Prop := d ≠ .refused ∧ d ≠ .noRootBlob

def Pending (key : Bytes) (layout : Layout) (s : Site) : Prop :=
    s.inodes[key]? = some (.layout layout)

section

variable {cluster : Cluster} {rounds : Nat} {key : Bytes}

/-! ## §1. Creation -/

variable {s : Site}

theorem pending_of_create {versionId : Uuid} {timestamp : Nat} {s' : Site} {uploadId : Bytes}
    (h : (createMultipartUpload rounds key versionId timestamp).run.Ends cluster.serve NoErrorReply
    s (.ok uploadId) s') :
    Pending key (uploadingLayout versionId timestamp) s' ∧ uploadId = Uuid.asSimple versionId := by
  unfold createMultipartUpload at h
  rcases ends_run_bind.mp h with ⟨_, herror, -⟩ | ⟨_, s₁, ⟨-, rfl⟩, h⟩
  · cases herror
  rcases ends_run_bind.mp h with ⟨_, herror, -⟩ | ⟨resp, s₁, hnss, hdone, rfl⟩
  · cases herror
  have hput :
    (nss rounds
      (perform (Op.putInode key (.layout (uploadingLayout versionId timestamp))))).run.Ensures
        cluster.serve NoErrorReply Unguarded
      (fun r s' => ∀ resp, r = .ok resp → Pending key (uploadingLayout versionId timestamp) s')
        s := by
    refine ensures_nss (I := fun _ => True) ?_ rounds trivial
    refine fun s₂ _ => ⟨trivial, fun d hd => ⟨?_, fun _ _ => trivial⟩⟩
    cases d with
    | answered => exact fun _ _ => Std.ExtTreeMap.getElem?_insert_self
    | replyLost | garbled | dropped => exact nofun
    | refused => exact absurd rfl hd.1
    | noRootBlob => exact absurd rfl hd.2
  exact ⟨hput.ends hnss resp rfl, (Except.ok.inj hdone).symm⟩

/-! ## §2. Part uploads -/

theorem mem_mpuGetPartPrefix (key : Bytes) (uploadId : Uuid) (partNumber : Nat) :
    (35 : UInt8) ∈ mpuGetPartPrefix key uploadId partNumber := by
  unfold mpuGetPartPrefix
  have hhash : (35 : UInt8) ∈ ascii "#" := by decide
  simp [hhash]

def keeping (cluster : Cluster) (I : Site → Prop) : Protocol Op Ans Unit where
  possible _ _ := True
  allowed _ op := ∀ d s, I s → I (cluster.serve d op s).2
  advance _ _ _ := ()

theorem keeps_putObject {ok : Op → Delivery → Prop} {I : Site → Prop} {k : Bytes} {upload : Upload}
    (hblocks : ∀ s stores, I s → I { s with stores := stores })
    (hqueue : ∀ s queue, I s → I { s with queue := queue })
    (hput : ∀ s, I s → I { s with inodes := s.inodes.insert k (.layout upload.stored) })
    (rounds : Nat) :
    (putObject rounds k upload).run.Keeps cluster.serve ok I fun _ => True := by
  have hfollows :
      (putObject rounds k upload).run.Follows (keeping cluster I) (fun _ _ => True) () := by
    refine follows_put (R := fun _ => True) ?_ ?_ ?_ trivial rounds
    · refine fun _ key body _ => ⟨fun d s hs => ?_, fun _ => rfl⟩
      cases d with
      | answered | replyLost | garbled => exact hblocks s _ hs
      | dropped | refused | noRootBlob => exact hs
    · refine fun _ _ => ⟨⟨⟨fun _ _ hs => hs, fun _ => rfl⟩, fun _ _ hs => hs, fun _ => rfl⟩,
        fun d s hs => ?_, rfl, fun _ => trivial⟩
      cases d with
      | answered | replyLost | garbled => exact hput s hs
      | dropped | refused | noRootBlob => exact hs
    · intro _ object _
      unfold enqueueBlobDeletion
      split
      · trivial
      · refine ⟨fun _ _ hs => hs, fun client _ => ?_⟩
        show (if client = true then _ else _ : Call _).Follows _ _ _
        split
        · refine ⟨fun d s hs => ?_, fun _ _ => trivial⟩
          show I (if d = .answered then (true, _) else (false, s) : Bool × Site).2
          split
          · exact hqueue s _ hs
          · exact hs
        · trivial
  refine (hfollows.keeps ?_).mono fun _ _ => trivial
  exact fun _ _ d s hop _ hs => ⟨trivial, hop d s hs⟩

theorem keeps_uploadPart (parseUuid : Bytes → Option Uuid) (partNumber : Nat) (uploadId : Bytes)
    (upload : Upload) (layout : Layout) :
    (uploadPart rounds parseUuid key partNumber uploadId upload).run.Keeps cluster.serve AnyDelivery
      (Pending key layout) fun _ => True := by
  unfold uploadPart
  split
  · trivial
  · cases parseUuid uploadId with
    | none => trivial
    | some uploadUuid =>
      refine keeps_putObject (fun _ _ hs => hs) (fun _ _ hs => hs) ?_ rounds
      intro s hs
      unfold Pending
      rw [getElem?_insert_of_ne _ _ (ne_mpuGetPartPrefix key uploadUuid partNumber)]
      exact hs

/-! ## §3. Abortion -/

theorem absent_of_abort {parseUuid : Bytes → Option Uuid} {uploadId : Bytes} {s' : Site}
    (h : (abortMultipartUpload rounds parseUuid key uploadId).run.Ends cluster.serve AnyDelivery s
    (.ok ()) s') :
    s'.inodes[key]? = none := by
  unfold abortMultipartUpload at h
  split at h
  · cases h.1
  rcases ends_run_bind.mp h with ⟨_, herror, -⟩ | ⟨resp, s₁, -, hfound⟩
  · cases herror
  split at hfound
  · unfold abortFound at hfound
    split at hfound
    · cases hfound.1
    rcases ends_run_bind.mp hfound with ⟨_, herror, -⟩ | ⟨parts, s₂, -, hdelete⟩
    · cases herror
    rcases ends_run_bind.mp hdelete with ⟨_, herror, -⟩ | ⟨_, s₃, -, hkey⟩
    · cases herror
    rcases ends_run_bind.mp hkey with ⟨_, herror, -⟩ | ⟨resp', s₄, hcall, hparse⟩
    · cases herror
    rcases ends_run_bind.mp hparse with ⟨_, herror, -⟩ | ⟨old, s₅, ⟨hold, rfl⟩, -, rfl⟩
    · cases herror
    cases hp : parseDeleteInode resp' with
    | error e =>
      rw [hp] at hold
      cases hold
    | ok old' =>
      rw [(((ensures_deleteCall _).ends hcall).2 resp' old' rfl hp).1]
      exact getElem?_without_self _ key
  · cases hfound.1
  · cases hfound.1

/-! ## §4. Reads -/

theorem exec_getObject_pending {versionId : Uuid} {timestamp : Nat}
    (h : Pending key (uploadingLayout versionId timestamp) s)
    (parseRange : RangeParser) :
    (getObject rounds key parseRange).run.exec cluster.answer s
      = (.error .invalidObjectState, s) := by
  have hget : s.getResponse key = .ok (.layout (uploadingLayout versionId timestamp)) := by
    unfold Site.getResponse
    rw [h]
  have hraw := exec_getRawObject cluster rounds key s
  rw [hget] at hraw
  unfold getObject
  rw [exec_of_ok hraw]
  rfl

theorem exec_getObject_absent (h : s.inodes[key]? = none)
    (parseRange : RangeParser) :
    (getObject rounds key parseRange).run.exec cluster.answer s = (.error .noSuchKey, s) := by
  have hget : s.getResponse key = .errNotFound := by
    unfold Site.getResponse
    rw [h]
  have hraw := exec_getRawObject cluster rounds key s
  rw [hget] at hraw
  unfold getObject
  exact exec_of_error hraw

end

def uploadPool (rounds : Nat) (parseUuid : Bytes → Option Uuid) (key uploadId : Bytes)
    (parts : Nat → Nat × Upload) (s : Site) : Pool Op Ans (Except S3Error Unit) Site Nat where
  state := s
  left i := (uploadPart rounds parseUuid key (parts i).1 uploadId (parts i).2).run

/-- **★ Starting an upload replaces the object**: until it is aborted the key is a pending upload,
    whatever parts are uploaded and however that goes, and after that the key is gone. -/
theorem create_replaces_object (cluster : Cluster) (rounds : Nat) (parseUuid : Bytes → Option Uuid)
    (key : Bytes) (versionId : Uuid) (timestamp : Nat) (s s₁ : Site) (uploadId : Bytes)
    (hcreate : (createMultipartUpload rounds key versionId timestamp).run.Ends cluster.serve
      NoErrorReply s (.ok uploadId) s₁)
    (parts : Nat → Nat × Upload) (schedule : List (Nat × Delivery)) (s₂ : Site)
    (hparts : ((uploadPool rounds parseUuid key uploadId parts s₁).run cluster.serve schedule).state
      = s₂)
    (parseRange : RangeParser) :
    (getObject rounds key parseRange).run.exec cluster.answer s₂ = (.error .invalidObjectState, s₂)
      ∧ ∀ s₃, (abortMultipartUpload rounds parseUuid key uploadId).run.Ends cluster.serve
        AnyDelivery s₂ (.ok ()) s₃ →
        (getObject rounds key parseRange).run.exec cluster.answer s₃ = (.error .noSuchKey, s₃) := by
  obtain ⟨hpending, -⟩ := pending_of_create hcreate
  have hleft : ∀ i, ((uploadPool rounds parseUuid key uploadId parts s₁).left i).Keeps cluster.serve
      AnyDelivery (Pending key (uploadingLayout versionId timestamp)) fun _ => True :=
    fun i => keeps_uploadPart parseUuid (parts i).1 uploadId (parts i).2 _
  have hs₂ : Pending key (uploadingLayout versionId timestamp) s₂ := by
    rw [← hparts]
    exact (Pool.run_keeps (fun _ _ _ => trivial) hpending hleft).1
  refine ⟨exec_getObject_pending hs₂ parseRange, ?_⟩
  intro s₃ habort
  exact exec_getObject_absent (absent_of_abort habort) parseRange

def sampleObject : Layout where
  timestamp := 0
  versionId := 3
  blockSize := defaultBlockSize
  blobVersion := 1
  fsExt := {}
  state := .normal ⟨2, 0⟩ ⟨3, [], [], none⟩

def objectSite : Site :=
  { siteWith (.layout sampleObject) with
    stores := Function.update (fun _ => none) (.vg ⟨2, 0⟩ 0 1) (some (ascii "abc")) }

def startedSite : Site :=
    ((createMultipartUpload 0 (ascii "/k") 1 0).run.exec sampleCluster.answer objectSite).2

def sampleUploads : Pool Op Ans (Except S3Error Unit) Site Nat :=
  uploadPool 0 (fun _ => some 1) (ascii "/k") (Uuid.asSimple 1) (fun _ => (1, sampleUpload))
    startedSite

def uploadedSite : Site := (sampleUploads.run sampleCluster.serve [(0, .answered)]).state

def abortedSite : Site :=
  ((abortMultipartUpload 0 (fun _ => some 1) (ascii "/k") (Uuid.asSimple 1)).run.exec
    sampleCluster.answer uploadedSite).2

theorem create_replaces_at_sample :
    uploadedSite.inodes[mpuGetPartPrefix (ascii "/k") 1 1]? = some (.layout sampleUpload.stored)
      ∧ (getObject 0 (ascii "/k") fun _ => .ok none).run.exec sampleCluster.answer uploadedSite
        = (.error .invalidObjectState, uploadedSite)
      ∧ (getObject 0 (ascii "/k") fun _ => .ok none).run.exec sampleCluster.answer abortedSite
        = (.error .noSuchKey, abortedSite) := by
  have hanswer :
      ((createMultipartUpload 0 (ascii "/k") 1 0).run.exec sampleCluster.answer objectSite).1 = .ok
        (Uuid.asSimple 1) := by decide +kernel
  have hcreate : (createMultipartUpload 0 (ascii "/k") 1 0).run.Ends sampleCluster.serve
      NoErrorReply objectSite ((createMultipartUpload 0 (ascii "/k") 1 0).run.exec
        sampleCluster.answer objectSite).1 startedSite :=
    ends_exec (fun _ => ⟨by decide, by decide⟩) _ _
  rw [hanswer] at hcreate
  obtain ⟨hpending, haborted⟩ := create_replaces_object sampleCluster 0 (fun _ => some 1)
    (ascii "/k") 1 0 objectSite startedSite (Uuid.asSimple 1) hcreate (fun _ => (1, sampleUpload)) _
      uploadedSite rfl fun _ => .ok none
  have habort : ((abortMultipartUpload 0 (fun _ => some 1) (ascii "/k") (Uuid.asSimple 1)).run.exec
      sampleCluster.answer uploadedSite).1 = .ok () := by decide +kernel
  have hends := ends_answered sampleCluster
    (abortMultipartUpload 0 (fun _ => some 1) (ascii "/k") (Uuid.asSimple 1)).run uploadedSite
  rw [habort] at hends
  exact ⟨by decide +kernel, hpending, haborted abortedSite hends⟩

theorem create_hides_object :
    ((getObject 0 (ascii "/k") fun _ => .ok none).run.exec sampleCluster.answer objectSite).1
        = .ok [.ok (ascii "abc")]
      ∧ ((createMultipartUpload 0 (ascii "/k") 1 0).run.exec sampleCluster.answer objectSite).1
        = .ok (Uuid.asSimple 1)
      ∧ ((getObject 0 (ascii "/k") fun _ => .ok none).run.exec sampleCluster.answer startedSite).1
        = .error .invalidObjectState
      ∧ startedSite.inodes.toList = [(ascii "/k", .layout pendingSample)]
      ∧ startedSite.queue = [] := by
  refine ⟨by decide +kernel, by decide +kernel, by decide +kernel, by decide +kernel, by
    decide +kernel⟩

end FractalBits.Objects
