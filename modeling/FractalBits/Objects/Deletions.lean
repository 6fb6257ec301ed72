/-
  Objects.Deletions — one attempt to delete a blob.

  Mirrors `delete_blob_once` of `blob_client.rs` with `write_gc_marker`, `delete_nss_key` and
  `delete_ovr_rows`, and the keys of `ovr_map.rs` that they name.
-/

import FractalBits.Objects.Specs

namespace FractalBits.Objects

open Lib Streaming Gateway
open OvrMap (Uuid ovrPrefix)

/-- `ovr_row_prefix`: what the rows and abort keys of a blob start with. -/
def ovrRowPrefix (blobId : Uuid) : Bytes := ovrPrefix ++ Uuid.asSimple blobId ++ ascii "/"

def ovrGcKey (blobId : Uuid) : Bytes := ascii "@ovr-gc/" ++ Uuid.asSimple blobId

/-! ## §1. Attempts -/

structure Deletion where
  request : BlobDeletionRequest
  markerWritten : Bool
  graceUntil : Option Nat
  blocksDeleted : Bool
  deriving DecidableEq, Repr

/-- `new_blob_deletion_request`: a blob without rows needs no marker. -/
def Deletion.new (request : BlobDeletionRequest) (graceUntil : Nat) : Deletion :=
  ⟨request, !request.mapped, some graceUntil, false⟩

/-- A blob without rows is deleted without a marker. -/
def Deletion.Marked (deletion : Deletion) : Prop :=
  deletion.request.mapped = false → deletion.markerWritten = true

theorem Deletion.marked_new (request : BlobDeletionRequest) (graceUntil : Nat) :
    (Deletion.new request graceUntil).Marked := by
  intro hmapped
  show (!request.mapped) = true
  rw [show request.mapped = false from hmapped]
  rfl

structure Attempt where
  now : Nat
  blocksOk : Bool
  pages : Nat
  order : List Bytes → List Bytes
  order_perm : ∀ keys, (order keys).Perm keys

/-- The attempt calls `delete_layout_blocks`: the grace period is over, and no earlier attempt of
    the request is known to have deleted the blocks. -/
def Deletion.DeletesBlocks (deletion : Deletion) (attempt : Attempt) : Prop :=
  (deletion.graceUntil.any fun deadline => deadline > attempt.now) = false ∧
    deletion.blocksDeleted = false

instance (deletion : Deletion) (attempt : Attempt) : Decidable (deletion.DeletesBlocks attempt) :=
  inferInstanceAs (Decidable (_ ∧ _))

/-- The attempt's `delete_layout_blocks` is called and returns true: every block that was listed is
    deleted. -/
def Deletion.blocksDeletedBy (deletion : Deletion) (attempt : Attempt) : Bool :=
  deletion.DeletesBlocks attempt && attempt.blocksOk

section

variable (rounds : Nat)

/-- `write_gc_marker`: the reply is not looked at. -/
def writeGcMarker (blobId : Uuid) : Call Bool := do
  match ← nssRpcRetry rounds (perform (Op.putInode (ovrGcKey blobId) (.raw (ascii "gc")))) with
  | .ok _ => return true
  | .error _ => return false

/-- `delete_nss_key`: a key that is not there is deleted. -/
def deleteNssKey (key : Bytes) : Call Bool := do
  match ← nssRpcRetry rounds (perform (Op.deleteInode key)) with
  | .ok resp =>
    match parseDeleteInode resp with
    | .ok _ => return true
    | .error _ => return false
  | .error _ => return false

def deleteNssKeys : List Bytes → Call Bool
  | [] => return true
  | key :: keys => do
    let deleted ← deleteNssKey rounds key
    let rest ← deleteNssKeys keys
    return deleted && rest

def deleteOvrRows (attempt : Attempt) (blobId : Uuid) : Nat → Bytes → Call Bool
  | 0, _ => return false
  | pages + 1, startAfter => do
    match ← nssRpcRetry rounds (perform (Op.listInodes 1000 (ovrRowPrefix blobId) startAfter)) with
    | .error _ => return false
    | .ok .errOther => return false
    | .ok .errNoSuchRootBlob => deleteNssKey rounds (ovrGcKey blobId)
    | .ok (.ok inodes hasMore) =>
      let keys := inodes.map fun e => trimEndMatches 0 e.1
      match keys.getLast? with
      | none => deleteNssKey rounds (ovrGcKey blobId)
      | some nextStartAfter => do
        let deleted ← deleteNssKeys rounds (attempt.order keys)
        if deleted = false then return false
        else if hasMore = false then deleteNssKey rounds (ovrGcKey blobId)
        else deleteOvrRows attempt blobId pages nextStartAfter

def ensureMarker (deletion : Deletion) : Call Bool :=
  if deletion.markerWritten then return true
    else writeGcMarker rounds deletion.request.blobGuid.blobId

/-- `delete_blob_once`, from the marker on. -/
def deleteMarkedBlob (attempt : Attempt) (deletion : Deletion) : Call (Bool × Deletion) :=
  if deletion.graceUntil.any fun deadline => deadline > attempt.now then return (false, deletion)
  else
    let deletion := { deletion with graceUntil := none }
    if deletion.blocksDeleted = false ∧ attempt.blocksOk = false then return (false, deletion)
    else
      let deletion := { deletion with blocksDeleted := true }
      if deletion.request.mapped then do
        let deleted ← deleteOvrRows rounds attempt deletion.request.blobGuid.blobId attempt.pages []
        return (deleted, deletion)
      else return (true, deletion)

def deleteBlobOnce (attempt : Attempt) (deletion : Deletion) : Call (Bool × Deletion) := do
  let marked ← ensureMarker rounds deletion
  if marked = false then return (false, deletion)
  else deleteMarkedBlob rounds attempt { deletion with markerWritten := true }

end

theorem returns_deleteBlobOnce (rounds : Nat) (attempt : Attempt) (deletion : Deletion) :
    (deleteBlobOnce rounds attempt deletion).Returns fun r =>
      r.2.request = deletion.request ∧ (r.2 = deletion ∨ r.2.markerWritten = true) := by
  unfold deleteBlobOnce
  refine Prog.Returns.bind fun marked => ?_
  split
  · exact ⟨rfl, .inl rfl⟩
  · unfold deleteMarkedBlob
    split
    · exact ⟨rfl, .inr rfl⟩
    · dsimp only
      split
      · exact ⟨rfl, .inr rfl⟩
      · split
        · exact Prog.Returns.bind fun deleted => ⟨rfl, .inr rfl⟩
        · exact ⟨rfl, .inr rfl⟩

/-! ## §2. A bucket that is gone -/

/-- Listings and deletes are answered that the bucket is not there. -/
def rootGone : Op → Delivery → Prop
  | .listInodes _ _ _, d => d = .noRootBlob
  | .deleteInode _, d => d = .noRootBlob
  | _, _ => True

section

variable (cluster : Cluster) (rounds : Nat)

theorem deleteNssKey_of_rootGone (key : Bytes) :
    (deleteNssKey rounds key).Keeps cluster.serve rootGone (fun _ => True) (· = false) := by
  have hcall : (perform (Op.deleteInode key)).Keeps cluster.serve rootGone (fun _ => True)
      (· = .ok .errNoSuchRootBlob) := by
    rintro d s rfl -
    exact ⟨trivial, rfl⟩
  refine (keeps_nssRpcRetry hcall rounds).bind ?_
  rintro _ rfl
  exact rfl

theorem deleteOvrRows_of_rootGone (attempt : Attempt) (blobId : Uuid) (pages : Nat) :
    (deleteOvrRows rounds attempt blobId pages []).Keeps cluster.serve rootGone (fun _ => True)
      (· = false) := by
  cases pages with
  | zero => exact rfl
  | succ pages =>
    have hcall : (perform (Op.listInodes 1000 (ovrRowPrefix blobId) [])).Keeps cluster.serve
        rootGone (fun _ => True) (· = .ok .errNoSuchRootBlob) := by
      rintro d s rfl -
      exact ⟨trivial, rfl⟩
    refine (keeps_nssRpcRetry hcall rounds).bind ?_
    rintro _ rfl
    exact deleteNssKey_of_rootGone cluster rounds (ovrGcKey blobId)

theorem writeGcMarker_of_rootGone (blobId : Uuid) :
    (writeGcMarker rounds blobId).Keeps cluster.serve rootGone (fun _ => True) fun _ => True := by
  have hcall : (perform (Op.putInode (ovrGcKey blobId) (.raw (ascii "gc")))).Keeps cluster.serve
      rootGone (fun _ => True) fun _ => True := fun _ _ _ _ => ⟨trivial, trivial⟩
  refine (keeps_nssRpcRetry hcall rounds).bind fun r _ => ?_
  split <;> exact trivial

theorem deleteBlobOnce_of_rootGone (attempt : Attempt) {deletion : Deletion}
    (hmapped : deletion.request.mapped = true) :
    (deleteBlobOnce rounds attempt deletion).Keeps cluster.serve rootGone (fun _ => True)
      (·.1 = false) := by
  have hmarker : (ensureMarker rounds deletion).Keeps cluster.serve rootGone (fun _ => True)
    fun _ => True := by
    unfold ensureMarker
    split
    · exact trivial
    · exact writeGcMarker_of_rootGone cluster rounds deletion.request.blobGuid.blobId
  refine hmarker.bind fun marked _ => ?_
  split
  · exact rfl
  · unfold deleteMarkedBlob
    dsimp only
    split
    · exact rfl
    · split
      · exact rfl
      · exact (deleteOvrRows_of_rootGone cluster rounds attempt _ _).bind fun deleted hdeleted =>
          hdeleted

end

structure Deletion.Ready (deletion : Deletion) (attempt : Attempt) : Prop where
  grace : ∀ deadline, deletion.graceUntil = some deadline → deadline ≤ attempt.now
  blocks : deletion.blocksDeleted = true ∨ attempt.blocksOk = true
  pages : 0 < attempt.pages

theorem deleteBlobOnce_of_not_mapped (rounds : Nat) {attempt : Attempt} {deletion : Deletion}
    (hmapped : deletion.request.mapped = false) (hmarked : deletion.markerWritten = true)
    (hready : deletion.Ready attempt) : ∃ deletion', deleteBlobOnce rounds attempt deletion = .done
    (true, deletion') := by
  have hgrace : ¬ (deletion.graceUntil.any fun deadline => deadline > attempt.now) = true := by
    rw [Option.any_eq_true]
    rintro ⟨deadline, hsome, hlate⟩
    exact absurd (hready.grace deadline hsome) (Nat.not_le.mpr (of_decide_eq_true hlate))
  have hblocks : ¬ (deletion.blocksDeleted = false ∧ attempt.blocksOk = false) := by
    rintro ⟨hdeleted, hok⟩
    rcases hready.blocks with h | h
    · rw [h] at hdeleted
      cases hdeleted
    · rw [h] at hok
      cases hok
  unfold deleteBlobOnce ensureMarker
  rw [if_pos hmarked]
  show ∃ _, deleteMarkedBlob rounds attempt { deletion with markerWritten := true } = _
  unfold deleteMarkedBlob
  dsimp only
  rw [if_neg hgrace, if_neg hblocks, if_neg (Bool.eq_false_iff.mp hmapped)]
  exact ⟨_, rfl⟩

end FractalBits.Objects
