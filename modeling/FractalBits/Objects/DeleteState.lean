/-
  Objects.DeleteState — what a delete has done by the time it answers.

  `delete_object_by_key` removes the inode first and looks at its state after.
-/

import FractalBits.Objects.PutCleanup

namespace FractalBits.Objects

open Lib Streaming Gateway
open OvrMap (Uuid)

/-! ## §1. What a delete should report -/

section

variable (cluster : Cluster) (rounds : Nat) (s : Site) (key : Bytes)

def deleteOutcome : Except S3Error Unit × Site :=
  (deleteObjectByKey rounds key).run.exec cluster.answer s

def listedParts (object : Layout) : Except NssError (List (Bytes × Layout)) :=
  rawObjects (cluster.listPage (s.without [key]).inodes 10000
    (mpuGetPartPrefix key object.versionId 0) []).1

def Owns (object : Layout) (guid : DataBlobGuid) : Prop :=
  object.blobGuid = .ok guid
    ∨ (∃ core, object.state = .mpu (.completed core))
      ∧ ∃ parts, listedParts cluster s key object = .ok parts ∧ ∃ part ∈ parts,
        part.2.blobGuid = .ok guid

/-- A delete that answers an error has changed nothing, and one that answers Ok has deleted the key
    and enqueued every blob its layout owned. -/
structure DeleteReports : Prop where
  failed : ∀ e, (deleteOutcome cluster rounds s key).1 = .error e →
    (deleteOutcome cluster rounds s key).2.inodes[key]? = s.inodes[key]?
  removed : (deleteOutcome cluster rounds s key).1 = .ok () →
    (deleteOutcome cluster rounds s key).2.inodes[key]? = none
  reclaimed : (deleteOutcome cluster rounds s key).1 = .ok () →
    ∀ object, s.inodes[key]? = some (.layout object) → ∀ guid, Owns cluster s key object guid →
      Enqueued s (deleteOutcome cluster rounds s key).2 guid

/-- The layouts whose state gives no error: not a pending upload, and a completed one only if its
    listed parts decode and all name a blob. -/
def Deletable (object : Layout) : Prop :=
  object.state ≠ .mpu .uploading
    ∧ ((∃ core, object.state = .mpu (.completed core)) →
      ∃ parts, listedParts cluster s key object = .ok parts ∧ ∀ part ∈ parts, ∃ guid,
        part.2.blobGuid = .ok guid)

def KeyDeletable : Prop :=
  ∀ value, s.inodes[key]? = some value →
    value = .empty ∨ ∃ object, value = .layout object ∧ Deletable cluster s key object

end

/-! ## §2. A delete whose calls are all answered -/

section

variable {cluster : Cluster} {s : Site} {key : Bytes}

theorem exec_deleteObjectByKey (rounds : Nat) :
    deleteOutcome cluster rounds s key
      = (cleanUpRemoved rounds key s.inodes[key]?).run.exec cluster.answer (s.without [key]) := by
  have hparse : parseDeleteInode (s.deleteResponse key) = .ok s.inodes[key]? := by
    unfold Site.deleteResponse
    cases s.inodes[key]? <;> rfl
  unfold deleteOutcome deleteObjectByKey
  rw [exec_of_ok (exec_lift _ s)]
  show ((nss rounds (perform (Op.deleteInode key)) >>= fun resp =>
    orFail NssError.toS3Error (parseDeleteInode resp) >>= cleanUpRemoved rounds key).run).exec
      cluster.answer s = _
  rw [exec_of_ok (exec_nss (exec_deleteInode key s) rounds), hparse]
  exact exec_of_ok (exec_orFail_ok NssError.toS3Error s.inodes[key]? _)

structure DeletedOk (cluster : Cluster) (s : Site) (key : Bytes) (s' : Site) : Prop where
  deletable : KeyDeletable cluster s key
  removed : s'.inodes[key]? = none
  reclaimed : ∀ object, s.inodes[key]? = some (.layout object) →
    ∀ guid, Owns cluster s key object guid →
    Enqueued s s' guid

structure DeletedError (cluster : Cluster) (s : Site) (key : Bytes) (s' : Site) : Prop where
  not_deletable : ¬ KeyDeletable cluster s key
  removed : s'.inodes[key]? = none

def DeleteEnds (cluster : Cluster) (s : Site) (key : Bytes)
    (outcome : Except S3Error Unit × Site) : Prop :=
  (∃ s', outcome = (.ok (), s') ∧ DeletedOk cluster s key s')
    ∨ ∃ e s', outcome = (.error e, s') ∧ DeletedError cluster s key s'

theorem getElem?_without_self (s : Site) (key : Bytes) : (s.without [key]).inodes[key]? = none := by
  rw [getElem?_without, if_pos (List.mem_singleton.mpr rfl)]

theorem deleteEnds_absent (h : s.inodes[key]? = none) (rounds : Nat) :
    DeleteEnds cluster s key (deleteOutcome cluster rounds s key) := by
  have hok : ∀ s', s'.inodes[key]? = none → DeletedOk cluster s key s' := by
    intro s' hremoved
    refine ⟨?_, hremoved, ?_⟩
    · intro value hvalue
      rw [h] at hvalue
      cases hvalue
    · intro object hobject
      rw [h] at hobject
      cases hobject
  refine .inl ?_
  rw [exec_deleteObjectByKey, h]
  unfold cleanUpRemoved
  rw [exec_lift, exec_cleanUpOrphanedParts]
  cases rawObjects (cluster.listPage (s.without [key]).inodes 10000 (mpuGetUploadsPrefix key)
    []).1 with
  | error e => exact ⟨_, rfl, hok _ (getElem?_without_self s key)⟩
  | ok mpus => exact ⟨_, rfl, hok _ (getElem?_dropParts_of_none (getElem?_without_self s key) mpus)⟩

theorem deleteEnds_raw {bytes : Bytes} (h : s.inodes[key]? = some (.raw bytes)) (rounds : Nat) :
    DeleteEnds cluster s key (deleteOutcome cluster rounds s key) := by
  rw [exec_deleteObjectByKey, h]
  by_cases hempty : bytes = []
  · subst hempty
    refine .inl ⟨_, rfl, ?_, getElem?_without_self s key, ?_⟩
    · intro value hvalue
      rw [h] at hvalue
      exact .inl (Option.some.inj hvalue).symm
    · intro object hobject
      rw [h] at hobject
      cases hobject
  · have hne : ¬ (Inode.raw bytes).isEmpty = true := by
      simpa [Inode.isEmpty, Inode.empty] using hempty
    refine .inr ⟨.internalError, s.without [key], ?_, ?_, getElem?_without_self s key⟩
    · unfold cleanUpRemoved
      dsimp only
      rw [if_neg hne]
      rfl
    · intro hdeletable
      rcases hdeletable _ h with heq | ⟨object, heq, -⟩
      · exact hempty (Inode.raw.inj heq)
      · cases heq

variable {object : Layout} {s' : Site} {core : ObjectCoreMetaData}

variable (h : s.inodes[key]? = some (.layout object))

include h

theorem exec_delete_layout (rounds : Nat) :
    deleteOutcome cluster rounds s key
      = (cleanUpDeleted rounds key object).run.exec cluster.answer (s.without [key]) := by
  rw [exec_deleteObjectByKey, h]
  unfold cleanUpRemoved
  dsimp only
  rw [if_neg (by simp [Inode.isEmpty, Inode.empty])]
  rfl

theorem deletedOk_of_layout
    (hdeletable : Deletable cluster s key object) (hremoved : s'.inodes[key]? = none)
    (howned : ∀ guid, Owns cluster s key object guid → Enqueued s s' guid) :
    DeletedOk cluster s key s' := by
  refine ⟨?_, hremoved, ?_⟩
  · intro value hvalue
    rw [h] at hvalue
    exact .inr ⟨object, (Option.some.inj hvalue).symm, hdeletable⟩
  · intro object' hobject'
    rw [h] at hobject'
    cases hobject'
    exact howned

theorem deletedError_of_layout
    (hnot : ¬ Deletable cluster s key object) (hremoved : s'.inodes[key]? = none) :
    DeletedError cluster s key s' := by
  refine ⟨?_, hremoved⟩
  intro hdeletable
  rcases hdeletable _ h with heq | ⟨object', heq, hobject'⟩
  · cases heq
  · cases heq
    exact hnot hobject'

omit h in
theorem enqueued_of_mem {objects : List Layout} (hmem : object ∈ objects) {guid : DataBlobGuid}
    (hguid : object.blobGuid = .ok guid) (hqueue : s'.queue = s.queue) :
    Enqueued s (s'.enqueued objects) guid := by
  refine ⟨⟨guid, guid.location, object.mayHaveOvrRecords⟩, ?_, rfl⟩
  unfold Site.enqueued
  rw [hqueue, List.drop_left, List.mem_filterMap]
  exact ⟨object, hmem, by rw [newBlobDeletionRequest_ok hguid]; rfl⟩

theorem deleteEnds_normal {guid : DataBlobGuid}
    (hstate : object.state = .normal guid core) (rounds : Nat) :
    DeleteEnds cluster s key (deleteOutcome cluster rounds s key) := by
  have hguid : object.blobGuid = .ok guid := by
    unfold Layout.blobGuid
    rw [hstate]
  have hdeletable : Deletable cluster s key object := by
    unfold Deletable
    rw [hstate]
    exact ⟨by simp, by rintro ⟨core, hcore⟩; cases hcore⟩
  refine .inl ⟨(s.without [key]).enqueued [object], ?_, ?_⟩
  · rw [exec_delete_layout h]
    unfold cleanUpDeleted
    rw [hstate]
    exact exec_enqueue_ok hguid _
  · refine deletedOk_of_layout h hdeletable (getElem?_without_self s key) ?_
    intro guid' howns
    rcases howns with hown | ⟨⟨core', hcore⟩, -⟩
    · rw [hguid] at hown
      cases hown
      exact enqueued_of_mem (List.mem_singleton.mpr rfl) hguid rfl
    · rw [hstate] at hcore
      cases hcore

omit h in
theorem parts_split (parts : List (Bytes × Layout)) :
    (∀ part ∈ parts, ∃ guid, part.2.blobGuid = .ok guid)
      ∨ ∃ good key object rest e, parts = good ++ (key, object) :: rest
          ∧ (∀ part ∈ good, ∃ guid, part.2.blobGuid = .ok guid) ∧ object.blobGuid = .error e := by
  induction parts with
  | nil => exact .inl fun part hpart => by cases hpart
  | cons part parts ih =>
    obtain ⟨key, object⟩ := part
    cases hguid : object.blobGuid with
    | error e =>
      exact .inr ⟨[], key, object, parts, e, rfl, fun part hpart => (by cases hpart), hguid⟩
    | ok guid =>
      rcases ih with hall | ⟨good, key', object', rest, e, rfl, hgood, hbad⟩
      · refine .inl fun part hpart => ?_
        rcases List.mem_cons.mp hpart with rfl | hpart
        · exact ⟨guid, hguid⟩
        · exact hall part hpart
      · refine .inr ⟨(key, object) :: good, key', object', rest, e, rfl, fun part hpart => ?_, hbad⟩
        rcases List.mem_cons.mp hpart with rfl | hpart
        · exact ⟨guid, hguid⟩
        · exact hgood part hpart

omit h in
theorem exec_listedParts (cluster : Cluster) (rounds : Nat) (key : Bytes) (s : Site)
    (object : Layout) :
    (listRawObjects rounds 10000 (mpuGetPartPrefix key object.versionId 0) []).run.exec
        cluster.answer (s.without [key])
      = ((listedParts cluster s key object).mapError NssError.toS3Error, s.without [key]) :=
  exec_listRawObjects ..

omit h in
theorem exec_delete_completed (cluster : Cluster)
    (h : s.inodes[key]? = some (.layout object)) (hstate : object.state = .mpu (.completed core))
    (rounds : Nat) :
    deleteOutcome cluster rounds s key
      = (deleteCompletedParts rounds key object.versionId).run.exec cluster.answer
        (s.without [key]) := by
  rw [exec_delete_layout h]
  unfold cleanUpDeleted
  rw [hstate]

theorem deleteEnds_completed
    (hstate : object.state = .mpu (.completed core)) (rounds : Nat) :
    DeleteEnds cluster s key (deleteOutcome cluster rounds s key) := by
  have hnone := getElem?_without_self s key
  have hguid : object.blobGuid = .error .invalidState := by
    unfold Layout.blobGuid
    rw [hstate]
  have hlist := exec_listedParts cluster rounds key s object
  have hout := exec_delete_completed cluster h hstate rounds
  unfold deleteCompletedParts at hout
  rw [hout]
  cases hparts : listedParts cluster s key object with
  | error e =>
    rw [hparts] at hlist
    refine .inr ⟨_, _, exec_of_error hlist, deletedError_of_layout h ?_ hnone⟩
    rintro ⟨-, hcompleted⟩
    obtain ⟨parts, hok, -⟩ := hcompleted ⟨core, hstate⟩
    rw [hparts] at hok
    cases hok
  | ok parts =>
    rw [hparts] at hlist
    rw [exec_of_ok hlist]
    rcases parts_split parts with hall | ⟨good, k, bad, rest, e, rfl, hgood, hbad⟩
    · rw [exec_deleteParts_ok rounds hall]
      refine .inl ⟨_, rfl, deletedOk_of_layout h ?_ (getElem?_dropParts_of_none hnone parts) ?_⟩
      · unfold Deletable
        rw [hstate]
        exact ⟨by simp, fun _ => ⟨parts, hparts, hall⟩⟩
      · intro guid howns
        rcases howns with hown | ⟨-, parts', hparts', part, hmem, hpart⟩
        · rw [hguid] at hown
          cases hown
        · rw [hparts] at hparts'
          cases hparts'
          unfold Site.dropParts
          exact enqueued_of_mem (List.mem_map_of_mem hmem) hpart rfl
    · rw [exec_deleteParts_error rounds hgood hbad]
      refine .inr ⟨_, _, rfl, deletedError_of_layout h ?_ ?_⟩
      · rintro ⟨-, hcompleted⟩
        obtain ⟨parts, hok, hall⟩ := hcompleted ⟨core, hstate⟩
        rw [hparts] at hok
        cases hok
        obtain ⟨guid, hok⟩ := hall (k, bad) (by simp)
        rw [hbad] at hok
        cases hok
      · rw [getElem?_without, getElem?_dropParts_of_none hnone, ite_self]

theorem deleteEnds_of_ok
    (hguid : object.blobGuid = .error .invalidState) (hmpu : ∀ state, object.state ≠ .mpu state)
    (rounds : Nat) (hout : (cleanUpDeleted rounds key object).run.exec cluster.answer
      (s.without [key]) = (.ok (), s.without [key])) :
    DeleteEnds cluster s key (deleteOutcome cluster rounds s key) := by
  refine .inl ⟨s.without [key], by rw [exec_delete_layout h, hout], ?_⟩
  refine deletedOk_of_layout h ⟨hmpu _, fun ⟨core, hcore⟩ => absurd hcore (hmpu _)⟩
    (getElem?_without_self s key) ?_
  intro guid howns
  rcases howns with hown | ⟨⟨core, hcore⟩, -⟩
  · rw [hguid] at hown
    cases hown
  · exact absurd hcore (hmpu _)

omit h in
theorem deleteOutcome_ends (cluster : Cluster) (rounds : Nat) (s : Site) (key : Bytes) :
    DeleteEnds cluster s key (deleteOutcome cluster rounds s key) := by
  cases h : s.inodes[key]? with
  | none => exact deleteEnds_absent h rounds
  | some value =>
    cases value with
    | raw bytes => exact deleteEnds_raw h rounds
    | layout object =>
      cases hstate : object.state with
      | normal guid core => exact deleteEnds_normal h hstate rounds
      | mpu state =>
        cases state with
        | completed core => exact deleteEnds_completed h hstate rounds
        | uploading =>
          refine .inr ⟨.invalidObjectState, s.without [key], ?_, ?_⟩
          · rw [exec_delete_layout h]
            unfold cleanUpDeleted
            rw [hstate]
            rfl
          · exact deletedError_of_layout h (fun hdeletable => hdeletable.1 hstate)
              (getElem?_without_self s key)
      | symlink _ _ | special _ | directory _ | indirect _ =>
        refine deleteEnds_of_ok h ?_ ?_ rounds ?_
        · unfold Layout.blobGuid
          rw [hstate]
        · rw [hstate]
          intro state heq
          cases heq
        · unfold cleanUpDeleted
          rw [hstate]
          rfl

omit h in
theorem deleteReports_iff (cluster : Cluster) (rounds : Nat) (s : Site) (key : Bytes) :
    DeleteReports cluster rounds s key ↔ KeyDeletable cluster s key := by
  rcases deleteOutcome_ends cluster rounds s key with ⟨s', hout, hdeleted⟩ | ⟨e, s', hout, hdeleted⟩
  · refine iff_of_true ⟨?_, ?_, ?_⟩ hdeleted.deletable
    · intro e herror
      rw [hout] at herror
      cases herror
    · rw [hout]
      exact fun _ => hdeleted.removed
    · rw [hout]
      exact fun _ => hdeleted.reclaimed
  · refine iff_of_false ?_ hdeleted.not_deletable
    -- the key is gone, so an unchanged value means that there was none
    intro hreports
    have hsame := hreports.failed e (by rw [hout])
    rw [hout] at hsame
    have habsent : s.inodes[key]? = none := hsame.symm.trans hdeleted.removed
    refine hdeleted.not_deletable ?_
    intro value hvalue
    rw [habsent] at hvalue
    cases hvalue

end

end FractalBits.Objects
