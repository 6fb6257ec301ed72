/-
  Objects.DeleteFrame — what a delete touches besides its key.

  Deleting a completed upload deletes what is listed under the key, `#`, the upload id and `/`.
-/

import FractalBits.Objects.DeleteState

namespace FractalBits.Objects

open Lib Streaming Gateway List
open OvrMap (Uuid)

/-! ## §1. What a delete may touch -/

structure CreatedParts (key : Bytes) where
  mem : Bytes → Prop
  form : ∀ k, mem k → ∃ uploadId partNumber, 1 ≤ partNumber ∧ partNumber ≤ 10000
    ∧ k = mpuGetPartPrefix key uploadId partNumber

def CreatedParts.Allows {key : Bytes} (parts : CreatedParts key) (k : Bytes) : Prop := k = key
    ∨ parts.mem k

/-- From `s` to `s'` every other key keeps its inode, and no other layout's blob is enqueued. -/
structure Site.FrameOf (s : Site) {key : Bytes} (parts : CreatedParts key) (s' : Site) : Prop where
  kept : ∀ k : Bytes, ¬ parts.Allows k → s'.inodes[k]? = s.inodes[k]?
  enqueued : ∃ new, s'.queue = s.queue ++ new ∧ ∀ request ∈ new, ∃ (k : Bytes) (object : Layout),
    parts.Allows k ∧ s.inodes[k]? = some (.layout object) ∧ newBlobDeletionRequest object = .ok
      request

def AnyDelivery (_ : Op) (_ : Delivery) : Prop := True

section

variable (cluster : Cluster) (rounds : Nat) (s : Site) {key : Bytes} (parts : CreatedParts key)

def TouchesOnly : Prop :=
  ∀ r s', (deleteObjectByKey rounds key).run.Ends cluster.serve AnyDelivery s r s' →
    s.FrameOf parts s'

def listedUploads (key : Bytes) : Except NssError (List (Bytes × Layout)) :=
  rawObjects (cluster.listPage (s.without [key]).inodes 10000 (mpuGetUploadsPrefix key) []).1

def reached : List (Bytes × Layout) → List (Bytes × Layout)
  | [] => []
  | part :: mpus =>
    match part.2.blobGuid with
    | .ok _ => part :: reached mpus
    | .error _ => [part]

/-- What is listed where a delete looks for parts was created as a part. -/
structure ListsOnlyParts : Prop where
  uploads : ∀ mpus, listedUploads cluster s key = .ok mpus → ∀ part ∈ mpus, parts.mem part.1
  completed : ∀ object core, s.inodes[key]? = some (.layout object) →
    object.state = .mpu (.completed core) →
    ∀ mpus, listedParts cluster s key object = .ok mpus → ∀ part ∈ reached mpus, parts.mem part.1

def WellKeyed : Prop := ∀ (k : Bytes) (value : Inode), s.inodes[k]? = some value →
    k.getLast? ≠ some 0

end

/-! ## §2. Frames are kept -/

section

variable {cluster : Cluster} {s : Site} {key : Bytes} {parts : CreatedParts key}

theorem Site.FrameOf.refl (s : Site) (parts : CreatedParts key) : s.FrameOf parts s where
  kept := fun _ _ => rfl
  enqueued := ⟨[], (append_nil _).symm, fun _ h => by cases h⟩

variable {s' : Site} {k : Bytes} {object : Layout} {mpus : List (Bytes × Layout)} {rounds : Nat}

theorem Site.FrameOf.without (h : s.FrameOf parts s') (hk : parts.Allows k) :
    s.FrameOf parts (s'.without [k]) where
  kept := by
    intro k' hk'
    rw [getElem?_without, if_neg]
    · exact h.kept k' hk'
    · intro hmem
      rw [mem_singleton.mp hmem] at hk'
      exact hk' hk
  enqueued := h.enqueued

theorem Site.FrameOf.send (h : s.FrameOf parts s') (hk : parts.Allows k)
    (hstored : s.inodes[k]? = some (.layout object)) {request : BlobDeletionRequest}
    (hrequest : newBlobDeletionRequest object = .ok request) :
    s.FrameOf parts { s' with queue := s'.queue ++ [request] } where
  kept := h.kept
  enqueued := by
    obtain ⟨new, hqueue, hnew⟩ := h.enqueued
    refine ⟨new ++ [request], by rw [hqueue, append_assoc], ?_⟩
    intro request' hmem
    rcases mem_append.mp hmem with hmem | hmem
    · exact hnew request' hmem
    · rw [mem_singleton.mp hmem]
      exact ⟨k, object, hk, hstored, hrequest⟩

theorem keeps_deleteInode_frame (hk : parts.Allows k) :
    (perform (Op.deleteInode k) : Call _).Keeps cluster.serve AnyDelivery (s.FrameOf parts) fun _ =>
      True := by
  intro d s' _ hs'
  refine ⟨?_, trivial⟩
  cases d with
  | answered | replyLost | garbled => exact hs'.without hk
  | dropped | refused | noRootBlob => exact hs'

theorem keeps_enqueueBlobDeletion_frame (hk : parts.Allows k)
    (hstored : s.inodes[k]? = some (.layout object)) :
    (enqueueBlobDeletion object).Keeps cluster.serve AnyDelivery (s.FrameOf parts) fun _ =>
      True := by
  unfold enqueueBlobDeletion
  cases hrequest : newBlobDeletionRequest object with
  | error e => trivial
  | ok request =>
    intro d s' _ hs'
    refine ⟨hs', ?_⟩
    show (if (cluster.serve d Op.getBlobClient s').1 = true then _ else _ : Call _).Keeps
      cluster.serve AnyDelivery _ _
    split
    · intro d' s' _ hs'
      refine ⟨?_, trivial⟩
      show s.FrameOf parts (cluster.serve d' (Op.sendDeletion request) s').2
      unfold Cluster.serve
      dsimp only
      split
      · exact hs'.send hk hstored hrequest
      · exact hs'
    · trivial

theorem keeps_enqueue_frame (hk : parts.Allows k)
    (hstored : s.inodes[k]? = some (.layout object)) :
    (enqueue object).run.Keeps cluster.serve AnyDelivery (s.FrameOf parts)
      (Answers (fun _ => True) fun _ => True) := by
  unfold enqueue
  refine keeps_lift_bind (keeps_enqueueBlobDeletion_frame hk hstored) ?_
  intro r _
  cases r <;> trivial

theorem keeps_deleteParts_frame (rounds : Nat)
    (hstored : ∀ part ∈ mpus, s.inodes[part.1]? = some (.layout part.2))
    (hparts : ∀ part ∈ reached mpus, parts.mem part.1) :
    (deleteParts rounds mpus).run.Keeps cluster.serve AnyDelivery (s.FrameOf parts)
      (Answers (fun _ => True) fun _ => True) := by
  induction mpus with
  | nil => trivial
  | cons part mpus ih =>
    obtain ⟨k, object⟩ := part
    have hk : parts.Allows k := by
      refine .inr (hparts (k, object) ?_)
      unfold reached
      dsimp only
      cases object.blobGuid <;> exact mem_cons_self
    have hdelete : (perform (Op.deleteInode k) : Call _).Keeps cluster.serve AnyDelivery
      (s.FrameOf parts) fun r =>
        Answers (fun _ => True) (fun _ => True) (r.mapError RpcError.toS3Error) := by
      refine (keeps_deleteInode_frame hk).mono ?_
      intro r _
      cases r <;> trivial
    unfold deleteParts
    refine keeps_bind (keeps_nss hdelete rounds) fun _ _ => ?_
    cases hguid : object.blobGuid with
    | error e =>
      -- the loop ends here
      have hfails : (enqueue object).run = .done (.error (ObjectLayoutError.toS3Error e)) := by
        unfold enqueue enqueueBlobDeletion
        rw [newBlobDeletionRequest_error hguid]
        rfl
      rw [ExceptT.run_bind, hfails]
      trivial
    | ok guid =>
      refine keeps_bind (keeps_enqueue_frame hk (hstored (k, object) mem_cons_self)) fun _ _ => ?_
      refine ih (fun part hpart => hstored part (mem_cons_of_mem _ hpart)) fun part hpart =>
        hparts part ?_
      unfold reached
      dsimp only
      rw [hguid]
      exact mem_cons_of_mem _ hpart

/-! ## §3. The calls of a delete, one after the other -/

theorem without_of_absent (h : s.inodes[k]? = none) : s.without [k] = s := by
  have hsame : (s.without [k]).inodes = s.inodes := by
    refine Std.ExtTreeMap.ext_getElem? fun k' => ?_
    rw [getElem?_without]
    split
    · next hmem => rw [mem_singleton.mp hmem, h]
    · rfl
  calc s.without [k] = { s with inodes := (s.without [k]).inodes } := rfl
    _ = s := by rw [hsame]

theorem without_without (s : Site) (k : Bytes) : (s.without [k]).without [k] = s.without [k] :=
  without_of_absent (getElem?_without_self s k)

theorem ensures_deleteCall (s : Site) :
    (nss rounds (perform (Op.deleteInode key))).run.Ensures cluster.serve AnyDelivery Unguarded
      (fun r s' => (s' = s ∨ s' = s.without [key]) ∧ ∀ resp old, r = .ok resp →
        parseDeleteInode resp = .ok old →
        s' = s.without [key] ∧ ∀ value, old = some value → s.inodes[key]? = some value) s := by
  refine ensures_nss (I := fun s₁ => s₁ = s ∨ s₁ = s.without [key]) ?_ rounds (.inl rfl)
  refine fun s₁ hs₁ => ⟨trivial, fun d _ => ?_⟩
  have hsite : s₁.without [key] = s.without [key] := by
    rcases hs₁ with rfl | rfl
    · rfl
    · exact without_without s key
  cases d with
  | answered =>
    refine ⟨⟨.inr hsite, fun resp old hr hparse => ⟨hsite, fun value hvalue => ?_⟩⟩, nofun⟩
    cases hr
    subst hvalue
    rcases hs₁ with rfl | rfl
    · cases hold : s₁.inodes[key]? with
      | none =>
        rw [hold] at hparse
        cases hparse
      | some v =>
        rw [hold] at hparse
        cases hparse
        rfl
    · rw [getElem?_without_self] at hparse
      cases hparse
  | replyLost | garbled => exact ⟨⟨.inr hsite, nofun⟩, fun _ _ => .inr hsite⟩
  | dropped => exact ⟨⟨hs₁, nofun⟩, fun _ _ => hs₁⟩
  | refused | noRootBlob =>
    refine ⟨⟨hs₁, fun resp old hr hparse => ?_⟩, nofun⟩
    cases hr
    cases hparse

theorem ensures_listRawObjects {ok : Op → Delivery → Prop} {maxParts : Nat}
    {keyPrefix startAfter : Bytes} (s : Site) :
    (listRawObjects rounds maxParts keyPrefix startAfter).run.Ensures cluster.serve ok Unguarded
      (fun r s' => s = s' ∧ ∀ mpus, r = .ok mpus →
        rawObjects (cluster.listPage s.inodes maxParts keyPrefix startAfter).1 = .ok mpus) s := by
  have hcall : (nss rounds (perform (Op.listInodes maxParts keyPrefix startAfter))).run.Ensures
      cluster.serve ok Unguarded (fun r s' => s = s' ∧ ∀ inodes more, r = .ok (.ok inodes more) →
        inodes = (cluster.listPage s.inodes maxParts keyPrefix startAfter).1) s := by
    refine ensures_nss (I := fun s₁ => s = s₁) ?_ rounds rfl
    rintro _ rfl
    refine ⟨trivial, fun d _ => ?_⟩
    cases d <;> refine ⟨⟨rfl, fun inodes more heq => ?_⟩, fun _ _ => rfl⟩ <;> cases heq
    rfl
  unfold listRawObjects
  refine ensures_run_bind hcall (fun e s' h => ⟨h.1, nofun⟩) ?_
  rintro resp _ ⟨rfl, hinodes⟩
  rw [listRawObjects_decodes]
  refine ⟨rfl, fun mpus hmpus => ?_⟩
  obtain ⟨inodes, more, hr, hraw⟩ := page_of_listResult hmpus
  cases hr
  rw [← hinodes inodes more rfl]
  exact hraw

theorem listed_stored (hkeyed : WellKeyed s) {maxKeys : Nat} {keyPrefix startAfter : Bytes}
    (h : rawObjects (cluster.listPage (s.without [key]).inodes maxKeys keyPrefix startAfter).1 = .ok
    mpus) :
    ∀ part ∈ mpus, part.1 ≠ key ∧ s.inodes[part.1]? = some (.layout part.2) := by
  intro part hpart
  obtain ⟨k, hk, htrim⟩ := mem_of_rawObjects h hpart
  have hstored := (mem_of_listPage hk).1
  rw [getElem?_without] at hstored
  split at hstored
  · cases hstored
  · next hne =>
    rw [htrim, trimEndMatches_of_getLast? (hkeyed k _ hstored)]
    exact ⟨fun heq => hne (mem_singleton.mpr heq), hstored⟩

/-! ## §4. What a delete touches -/

section

variable (hkeyed : WellKeyed s) (hlists : ListsOnlyParts cluster s parts)

include hkeyed hlists

theorem ensures_cleanUpOrphanedParts (hgone : s.FrameOf parts (s.without [key])) :
    (cleanUpOrphanedParts rounds key).Ensures cluster.serve AnyDelivery Unguarded
      (fun _ s' => s.FrameOf parts s') (s.without [key]) := by
  unfold cleanUpOrphanedParts
  refine (ensures_listRawObjects _).bind ?_
  rintro r _ ⟨rfl, hmpus⟩
  cases r with
  | error e => exact hgone
  | ok mpus =>
    have hlisted := hmpus mpus rfl
    have hstored := listed_stored hkeyed hlisted
    have hallows : ∀ part ∈ mpus, parts.Allows part.1 := fun part hpart =>
      .inr (hlists.uploads mpus hlisted part hpart)
    have hkeeps : (deletePartsBestEffort rounds mpus).Keeps cluster.serve AnyDelivery
      (s.FrameOf parts) fun _ => True :=
      keeps_deletePartsBestEffort rounds (fun part hpart => keeps_deleteInode_frame
        (hallows part hpart)) fun part hpart => keeps_enqueueBlobDeletion_frame (hallows part hpart)
          (hstored part hpart).2
    exact (hkeeps.ensures hgone fun _ _ => trivial).mono fun _ _ h => h.1

theorem ensures_cleanUpDeleted (hgone : s.FrameOf parts (s.without [key]))
    (hobject : s.inodes[key]? = some (.layout object)) :
    (cleanUpDeleted rounds key object).run.Ensures cluster.serve AnyDelivery Unguarded
      (fun _ s' => s.FrameOf parts s') (s.without [key]) := by
  unfold cleanUpDeleted
  cases hstate : object.state with
  | normal guid core =>
    exact ((keeps_enqueue_frame (.inl rfl) hobject).ensures hgone fun _ _ => trivial).mono
      fun _ _ h => h.1
  | mpu state =>
    cases state with
    | uploading => exact hgone
    | completed core =>
      refine ensures_run_bind (ensures_listRawObjects _) (fun e s' h => by rw [← h.1]; exact hgone)
        ?_
      rintro mpus _ ⟨rfl, hmpus⟩
      have hstored := fun part hpart => (listed_stored hkeyed (hmpus mpus rfl) part hpart).2
      have hparts := hlists.completed object core hobject hstate mpus (hmpus mpus rfl)
      exact ((keeps_deleteParts_frame rounds hstored hparts).ensures hgone fun _ _ => trivial).mono
        fun _ _ h => h.1
  | _ => exact hgone

theorem touchesOnly_of_listsOnlyParts (rounds : Nat) : TouchesOnly cluster rounds s parts := by
  have hrefl := Site.FrameOf.refl s parts
  have hgone : s.FrameOf parts (s.without [key]) := hrefl.without (.inl rfl)
  have hbetween : ∀ s', s' = s ∨ s' = s.without [key] → s.FrameOf parts s' := by
    rintro s' (rfl | rfl)
    · exact hrefl
    · exact hgone
  have hensures : (deleteObjectByKey rounds key).run.Ensures cluster.serve AnyDelivery Unguarded
      (fun _ s' => s.FrameOf parts s') s := by
    have hclient : (perform Op.getBlobClient : Call _).Ensures cluster.serve AnyDelivery Unguarded
      (fun _ s' => s = s') s :=
      ⟨trivial, fun _ _ => rfl⟩
    unfold deleteObjectByKey
    rw [run_lift_bind]
    refine hclient.bind ?_
    rintro client _ rfl
    split
    · exact hrefl
    refine ensures_run_bind (ensures_deleteCall s) (fun e s' h => hbetween s' h.1) ?_
    rintro resp s₁ ⟨hs₁, hresp⟩
    cases hparse : parseDeleteInode resp with
    | error e => exact hbetween s₁ hs₁
    | ok old =>
      obtain ⟨rfl, hold⟩ := hresp resp old rfl hparse
      show (cleanUpRemoved rounds key old).run.Ensures cluster.serve _ _ _ _
      unfold cleanUpRemoved
      cases old with
      | none => exact (ensures_cleanUpOrphanedParts hkeyed hlists hgone).bind fun _ _ h => h
      | some value =>
        dsimp only
        split
        · exact hgone
        · cases value with
          | raw bytes => exact hgone
          | layout object => exact ensures_cleanUpDeleted hkeyed hlists hgone (hold _ rfl)
  exact fun r s' h => hensures.ends h

end

/-! ## §5. Runs that touch what is listed -/

theorem ends_answered (cluster : Cluster) {α : Type} (p : Call α) (s : Site) :
    p.Ends cluster.serve AnyDelivery s (p.exec cluster.answer s).1 (p.exec cluster.answer s).2 :=
  ends_exec (fun _ => trivial) p s

theorem ends_deleteCall_notFound (rounds : Nat) (s : Site) (key : Bytes) :
    (nss rounds (perform (Op.deleteInode key))).run.Ends cluster.serve AnyDelivery s
      (.ok .errNotFound) (s.without [key]) := by
  have hsecond : (perform (Op.deleteInode key) : Call _).exec cluster.answer (s.without [key])
      = (.ok .errNotFound, s.without [key]) := by
    rw [exec_deleteInode, without_without]
    unfold Site.deleteResponse
    rw [getElem?_without_self]
  have hretries : (rpcRetry (perform (Op.deleteInode key)) 2).Ends cluster.serve AnyDelivery
      (s.without [key]) (.ok .errNotFound) (s.without [key]) := by
    have hends := ends_answered cluster (rpcRetry (perform (Op.deleteInode key)) 2)
      (s.without [key])
    rw [exec_rpcRetry hsecond] at hends
    exact hends
  have hfirst : (perform (Op.deleteInode key) : Call _).Ends cluster.serve AnyDelivery s
      (.error .connectionClosed) (s.without [key]) := ends_perform.mpr ⟨.replyLost, trivial, rfl⟩
  have hrpc : (rpcRetry (perform (Op.deleteInode key)) 3).Ends cluster.serve AnyDelivery s
      (.ok .errNotFound) (s.without [key]) := ends_bind.mpr ⟨_, _, hfirst, hretries⟩
  have hnss : (nssRpcRetry rounds (perform (Op.deleteInode key))).Ends cluster.serve AnyDelivery s
      (.ok .errNotFound) (s.without [key]) := ends_bind.mpr ⟨_, _, hrpc, rfl, rfl⟩
  exact ends_run_bind.mpr (.inr ⟨_, _, ends_run_lift.mpr ⟨_, rfl, hnss⟩, rfl, rfl⟩)

theorem ends_delete_orphans (rounds : Nat) (h : listedUploads cluster s key = .ok mpus) :
    (deleteObjectByKey rounds key).run.Ends cluster.serve AnyDelivery s (.ok ())
      ((s.without [key]).dropParts mpus) := by
  have horphans : (cleanUpOrphanedParts rounds key).Ends cluster.serve AnyDelivery (s.without [key])
      () ((s.without [key]).dropParts mpus) := by
    have hends := ends_answered cluster (cleanUpOrphanedParts rounds key) (s.without [key])
    unfold listedUploads at h
    rw [exec_cleanUpOrphanedParts, h] at hends
    exact hends
  have hclient : (perform Op.getBlobClient : Call _).Ends cluster.serve AnyDelivery s true s :=
    ends_perform.mpr ⟨.answered, trivial, rfl⟩
  refine ends_run_bind.mpr (.inr ⟨true, s, ends_run_lift.mpr ⟨_, rfl, hclient⟩, ?_⟩)
  rw [if_neg (by decide : ¬ true = false)]
  refine ends_run_bind.mpr (.inr ⟨_, _, ends_deleteCall_notFound rounds s key, ?_⟩)
  refine ends_run_bind.mpr (.inr ⟨none, _, ⟨rfl, rfl⟩, ?_⟩)
  exact ends_run_lift.mpr ⟨_, rfl, horphans⟩

theorem reached_of_all (h : ∀ part ∈ mpus, ∃ guid, part.2.blobGuid = .ok guid)
    (rest : List (Bytes × Layout)) : reached (mpus ++ rest) = mpus ++ reached rest := by
  induction mpus with
  | nil => rfl
  | cons part mpus ih =>
    obtain ⟨guid, hguid⟩ := h part mem_cons_self
    rw [cons_append, reached, hguid]
    dsimp only
    rw [ih fun part hpart => h part (mem_cons_of_mem _ hpart), cons_append]

theorem mem_of_mem_reached {part : Bytes × Layout} (h : part ∈ reached mpus) :
    part ∈ mpus := by
  induction mpus with
  | nil => exact h
  | cons first mpus ih =>
    unfold reached at h
    split at h
    · rcases mem_cons.mp h with rfl | h
      · exact mem_cons_self
      · exact mem_cons_of_mem _ (ih h)
    · rw [mem_singleton.mp h]
      exact mem_cons_self

theorem reached_removed (rounds : Nat) (mpus : List (Bytes × Layout)) (s : Site) :
    ∀ part ∈ reached mpus,
      ((deleteParts rounds mpus).run.exec cluster.answer s).2.inodes[part.1]? = none := by
  intro part hpart
  rcases parts_split mpus with hall | ⟨good, k, bad, rest, e, rfl, hgood, hbad⟩
  · have hreached := reached_of_all hall []
    rw [append_nil, reached, append_nil] at hreached
    rw [hreached] at hpart
    rw [exec_deleteParts_ok rounds hall, getElem?_dropParts, if_pos (mem_map_of_mem hpart)]
  · have hlast : reached ((k, bad) :: rest) = [(k, bad)] := by
      rw [reached]
      dsimp only
      rw [hbad]
    rw [reached_of_all hgood, hlast] at hpart
    rw [exec_deleteParts_error rounds hgood hbad, getElem?_without, getElem?_dropParts]
    rcases mem_append.mp hpart with hpart | hpart
    · rw [if_pos (mem_map_of_mem hpart), ite_self]
    · rw [mem_singleton.mp hpart, if_pos (mem_singleton.mpr rfl)]

theorem listsOnlyParts_of_touchesOnly (hkeyed : WellKeyed s)
    (h : TouchesOnly cluster rounds s parts) :
    ListsOnlyParts cluster s parts := by
  -- a stored key that is gone after a run is the key or a part
  have hmem : ∀ (k : Bytes) (object : Layout) (r : Except S3Error Unit) (s' : Site), k ≠ key →
      s.inodes[k]? = some (.layout object) → s'.inodes[k]? = none →
      (deleteObjectByKey rounds key).run.Ends cluster.serve AnyDelivery s r s' → parts.mem k := by
    intro k object r s' hne hstored hgone hends
    by_contra hnot
    have hkept := (h r s' hends).kept k (by rintro (heq | hpart); exacts [hne heq, hnot hpart])
    rw [hgone, hstored] at hkept
    cases hkept
  constructor
  · intro mpus hmpus part hpart
    obtain ⟨hne, hstored⟩ := listed_stored hkeyed hmpus part hpart
    refine hmem part.1 part.2 _ _ hne hstored ?_ (ends_delete_orphans rounds hmpus)
    rw [getElem?_dropParts, if_pos (mem_map_of_mem hpart)]
  · intro object core hobject hstate mpus hmpus part hpart
    obtain ⟨hne, hstored⟩ := listed_stored hkeyed hmpus part (mem_of_mem_reached hpart)
    refine hmem part.1 part.2 _ _ hne hstored ?_
      (ends_answered cluster (deleteObjectByKey rounds key).run s)
    have hlist := exec_listedParts cluster rounds key s object
    rw [hmpus] at hlist
    show (deleteOutcome cluster rounds s key).2.inodes[part.1]? = none
    rw [exec_delete_completed cluster hobject hstate, deleteCompletedParts, exec_of_ok hlist]
    exact reached_removed rounds mpus _ part hpart

end

/-- **★ A delete touches only its key and the parts of it** exactly if nothing else is listed where
    it looks for them. -/
theorem delete_touches_iff (cluster : Cluster) (rounds : Nat) (s : Site) (key : Bytes)
    (parts : CreatedParts key) (hkeyed : WellKeyed s) : TouchesOnly cluster rounds s parts
    ↔ ListsOnlyParts cluster s parts :=
  ⟨listsOnlyParts_of_touchesOnly hkeyed, fun hlists => touchesOnly_of_listsOnlyParts hkeyed hlists
    rounds⟩

def noParts (key : Bytes) : CreatedParts key := ⟨fun _ => False, fun _ h => h.elim⟩

def onePart : CreatedParts (ascii "/k") where
  mem k := k = mpuGetPartPrefix (ascii "/k") 1 1
  form _ hk := ⟨1, 1, by decide, by decide, hk⟩

/-- A completed upload with its part, between two objects at keys that start alike. -/
def sharedSite : Site :=
  siteOf [(ascii "/k", .layout (completedSample 0)),
    (mpuGetPartPrefix (ascii "/k") 1 1, .layout sampleUpload.stored),
    (ascii "/k!", .layout replacedUpload.stored), (ascii "/kk", .layout replacedUpload.stored)]

theorem delete_touches_at_sample : TouchesOnly sampleCluster 0 sharedSite onePart := by
  have hkeyed : WellKeyed sharedSite := Namespace.forall_of_toList (by decide +kernel)
  refine (delete_touches_iff sampleCluster 0 _ _ _ hkeyed).mpr ⟨?_, ?_⟩
  · have hlisted : listedUploads sampleCluster sharedSite (ascii "/k")
        = .ok [(mpuGetPartPrefix (ascii "/k") 1 1, sampleUpload.stored)] := by decide +kernel
    rw [hlisted]
    rintro mpus ⟨⟩ part hpart
    rw [mem_singleton.mp hpart]
    rfl
  · intro object core hobject _
    have hstored : sharedSite.inodes[ascii "/k"]?
        = some (.layout (completedSample 0)) := by decide +kernel
    rw [hstored] at hobject
    cases hobject
    have hlisted : listedParts sampleCluster sharedSite (ascii "/k")
        (completedSample 0)
          = .ok [(mpuGetPartPrefix (ascii "/k") 1 1, sampleUpload.stored)] := by decide +kernel
    rw [hlisted]
    rintro mpus ⟨⟩ part hpart
    rw [mem_singleton.mp hpart]
    rfl

def neighbourSite : Site := siteOf [(ascii "/k#foo", .layout sampleUpload.stored)]

theorem delete_takes_neighbour :
    checkKeyName (ascii "/k") = .ok () ∧ checkKeyName (ascii "/k#foo") = .ok ()
      ∧ neighbourSite.inodes[ascii "/k"]? = none
      ∧ neighbourSite.inodes[ascii "/k#foo"]? = some (.layout sampleUpload.stored)
      ∧ (deleteOutcome sampleCluster 0 neighbourSite (ascii "/k")).2.inodes[ascii "/k#foo"]? = none
      ∧ (deleteOutcome sampleCluster 0 neighbourSite (ascii "/k")).2.queue.map (·.blobGuid)
        = [sampleUpload.layout.blobGuid]
      ∧ ¬ TouchesOnly sampleCluster 0 neighbourSite (noParts (ascii "/k")) := by
  have hstored : neighbourSite.inodes[ascii "/k#foo"]? = some (.layout sampleUpload.stored) := by
    decide +kernel
  have hgone : (deleteOutcome sampleCluster 0 neighbourSite (ascii "/k")).2.inodes[ascii "/k#foo"]?
    = none := by
    decide +kernel
  refine ⟨by decide, by decide, by decide +kernel, hstored, hgone, by decide +kernel, ?_⟩
  intro htouches
  have hframe := htouches _ _ (ends_answered sampleCluster (deleteObjectByKey 0 (ascii "/k")).run
    neighbourSite)
  have hkept :=
    hframe.kept (ascii "/k#foo") (by rintro (heq | hpart); exacts [absurd heq (by decide), hpart])
  rw [hstored] at hkept
  exact absurd (hgone.symm.trans hkept) (by simp)

end FractalBits.Objects
