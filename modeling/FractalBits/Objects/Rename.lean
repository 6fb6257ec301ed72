/-
  Objects.Rename — renaming an object.

  Mirrors `rename_object.rs` and `rename_object` of the NSS client. The parts of a completed upload
  are found by the key of their object, and stay where they are.
-/

import FractalBits.Objects.Content
import FractalBits.Objects.DeleteState

namespace FractalBits.Objects

open Lib Streaming Gateway
open OvrMap (Uuid OvrRowMap)

attribute [local irreducible] Uuid.asSimple

/-! ## §1. The call and the handler -/

/-- `ok` carries the value that was replaced. -/
inductive RenameResponse
  | ok (old : Inode)
  | errSrcNonexisted
  | errDstExisted
  | errNoSuchRootBlob
  | errOther
  deriving DecidableEq, Repr

def Site.renamed (s : Site) (src dst : Bytes) (value : Inode) : Site :=
  { s with inodes := (s.inodes.erase src).insert dst value }

/-- What a rename without `force_overwrite` answers, and the site it leaves. -/
def Site.rename (s : Site) (src dst : Bytes) : RenameResponse × Site :=
  match s.inodes[src]? with
  | none => (.errSrcNonexisted, s)
  | some value =>
    if (s.inodes[dst]?).isSome then (.errDstExisted, s) else (.ok .empty, s.renamed src dst value)

/-- `map_rename_result`: error replies are errors of the call. -/
def mapRenameResult : RenameResponse → Except RpcError Inode
  | .ok old => .ok old
  | .errSrcNonexisted | .errDstExisted | .errNoSuchRootBlob => .error .decodeError
  | .errOther => .error .connectionClosed

def renameAttempt (d : Delivery) (src dst : Bytes) (s : Site) : Except RpcError Inode × Site :=
  let r := deliver d s (s.rename src dst).2 (s.rename src dst).1 .errNoSuchRootBlob .errOther
  (r.1.bind mapRenameResult, r.2)

/-- `nss_rpc_retry!`; `ds` is what happens to the attempts there is time for. -/
def renameAttempts (src dst : Bytes) : List Delivery → Site → Except S3Error Unit × Site
  | [], s => (.error .internalError, s)
  | d :: ds, s =>
    match renameAttempt d src dst s with
    | (.ok _, s') => (.ok (), s')
    | (.error e, s') =>
      if e.retryable then renameAttempts src dst ds s' else (.error .internalError, s')

inductive Outcome
  | panicked
  | answered (r : Except S3Error Unit) (s : Site)

/-- `rename_object_handler`: its assertions on the two paths panic. -/
def renameObject (srcPath dstPath : Bytes) (ds : List Delivery) (s : Site) : Outcome :=
  if srcPath.getLast? = some 47 then .panicked
  else if dstPath.getLast? = some 47 then .panicked
  else
    let r := renameAttempts srcPath dstPath ds s
    .answered r.1 r.2

/-! ## §2. What a rename should preserve -/

section

variable (cluster : Cluster) (rounds : Nat) (s : Site) (src dst : Bytes) (object : Layout)

def Site.PartAt (k : Bytes) (part : Layout) : Prop :=
  (∃ core, object.state = .mpu (.completed core)) ∧ s.inodes[k]? = some (.layout part)
    ∧ partsPrefix src (Uuid.asSimple object.versionId) <+: nulTerminated k

/-- A GET of the new key answers what one of the old key did, and a DELETE removes the object and
    its parts. -/
structure RenamePreserves : Prop where
  read : ∀ ds s', renameObject src dst ds s = .answered (.ok ()) s' → ∀ parseRange,
    ((getObject rounds dst parseRange).run.exec cluster.answer s').1
      = ((getObject rounds src parseRange).run.exec cluster.answer s).1
  deleted : ∀ ds s', renameObject src dst ds s = .answered (.ok ()) s' →
    (deleteOutcome cluster rounds s' dst).1 = .ok ()
      ∧ (deleteOutcome cluster rounds s' dst).2.inodes[dst]? = none
      ∧ ∀ guid, object.blobGuid = .ok guid → Enqueued s' (deleteOutcome cluster rounds s' dst).2
        guid
  parts : ∀ ds s', renameObject src dst ds s = .answered (.ok ()) s' →
    ∀ k part, s.PartAt src object k part →
    (deleteOutcome cluster rounds s' dst).2.inodes[k]? = none
      ∧ ∀ guid, part.blobGuid = .ok guid → Enqueued s' (deleteOutcome cluster rounds s' dst).2 guid

/-- An object of the gateway, and a key that is free: nothing is stored there, or under it as a part
    of this upload. -/
structure Renamable : Prop where
  inode : s.inodes[src]? = some (.layout object)
  state : (∃ guid core, object.state = .normal guid core)
    ∨ ∃ core, object.state = .mpu (.completed core)
  accepted : rejectTrailingSlashKey src = .ok ()
  free : s.inodes[dst]? = none
  clear : ∀ k value, s.inodes[k]? = some value → ¬ partsPrefix dst (Uuid.asSimple object.versionId)
    <+: nulTerminated k
  layouts : ∀ k value, s.inodes[k]? = some value →
    partsPrefix src (Uuid.asSimple object.versionId) <+: nulTerminated k →
      ∃ part, value = .layout part

end

/-! ## §3. Retries move the key once -/

section

variable {s s' : Site} {src dst : Bytes}

theorem renameAttempts_absent (h : s.inodes[src]? = none) (ds : List Delivery) :
    (renameAttempts src dst ds s).1 ≠ .ok () := by
  have hrename : s.rename src dst = (.errSrcNonexisted, s) := by
    unfold Site.rename
    rw [h]
  induction ds with
  | nil => exact nofun
  | cons d ds ih =>
    unfold renameAttempts renameAttempt
    rw [hrename]
    cases d with
    | answered | garbled | noRootBlob => exact nofun
    | replyLost | dropped | refused => exact ih

theorem getElem?_renamed_src (hne : src ≠ dst) (value : Inode) :
    (s.renamed src dst value).inodes[src]? = none := by
  unfold Site.renamed
  rw [getElem?_insert_of_ne _ _ hne, Std.ExtTreeMap.getElem?_erase_self]

theorem getElem?_renamed_dst (value : Inode) :
    (s.renamed src dst value).inodes[dst]? = some value := by
  unfold Site.renamed
  rw [Std.ExtTreeMap.getElem?_insert_self]

theorem getElem?_renamed (value : Inode) {k : Bytes} (hsrc : k ≠ src) (hdst : k ≠ dst) :
    (s.renamed src dst value).inodes[k]? = s.inodes[k]? := by
  unfold Site.renamed
  rw [getElem?_insert_of_ne _ _ hdst, getElem?_erase_of_ne _ hsrc]

/-- ★ **A rename that answers Ok has moved the key once**, however often it was tried. -/
theorem renamed_of_ok {ds : List Delivery} {value : Inode} (hsrc : s.inodes[src]? = some value)
    (hdst : s.inodes[dst]? = none) (h : renameAttempts src dst ds s = (.ok (), s')) :
    s' = s.renamed src dst value := by
  have hne : src ≠ dst := by
    rintro rfl
    rw [hsrc] at hdst
    cases hdst
  have hrename : s.rename src dst = (.ok .empty, s.renamed src dst value) := by
    unfold Site.rename
    rw [hsrc, hdst]
    rfl
  induction ds with
  | nil => cases h
  | cons d ds ih =>
    unfold renameAttempts renameAttempt at h
    rw [hrename] at h
    cases d with
    | answered =>
      cases h
      rfl
    | replyLost =>
      -- it was applied: the next attempt finds the key gone
      refine absurd (congrArg Prod.fst h) (renameAttempts_absent (getElem?_renamed_src hne value)
        ds)
    | dropped | refused => exact ih h
    | garbled | noRootBlob => cases h

theorem renameObject_ok {ds : List Delivery} {value : Inode} (hsrc : s.inodes[src]? = some value)
    (hdst : s.inodes[dst]? = none) (h : renameObject src dst ds s = .answered (.ok ()) s') :
    s' = s.renamed src dst value := by
  unfold renameObject at h
  split at h
  · cases h
  · split at h
    · cases h
    · obtain ⟨hr, hs⟩ := Outcome.answered.inj h
      exact renamed_of_ok hsrc hdst (Prod.ext hr hs)

end

/-! ## §4. Reading under the new key -/

structure Moved (cluster : Cluster) (s s' : Site) (src dst : Bytes) (object : Layout) : Prop where
  inode : s.inodes[src]? = some (.layout object)
  inode' : s'.inodes[dst]? = some (.layout object)
  stores : s'.stores = s.stores
  page : (∃ core, object.state = .mpu (.completed core)) →
    (cluster.listPage s.inodes 10000 (mpuGetPartPrefix src object.versionId 0) []).1 = []
      ∧ (cluster.listPage s'.inodes 10000 (mpuGetPartPrefix dst object.versionId 0) []).1 = []

section

variable {cluster : Cluster} {s s' : Site} {src dst : Bytes} {object : Layout} {rounds : Nat}

variable (h : Moved cluster s s' src dst object)

include h

theorem Moved.getRawObject (rounds : Nat) :
    (getRawObject rounds src).run.exec cluster.answer s = (.ok object, s)
      ∧ (getRawObject rounds dst).run.exec cluster.answer s' = (.ok object, s') := by
  constructor
  · rw [exec_getRawObject, Site.getResponse, h.inode]
    rfl
  · rw [exec_getRawObject, Site.getResponse, h.inode']
    rfl

omit h in
theorem alike_orFail {ε α : Type} (toS3Error : ε → S3Error) (r : Except ε α) :
    Alike cluster.answer s s' (orFail toS3Error r).run (orFail toS3Error r).run := alike_done _

theorem Moved.validateBaseMiss (rounds : Nat) :
    Alike cluster.answer s s' (validateBaseMiss rounds src object).run
      (validateBaseMiss rounds dst object).run := by
  obtain ⟨hsrc, hdst⟩ := h.getRawObject rounds
  have hread : ∀ {s : Site} {k : Bytes}, (Objects.getRawObject rounds k).run.exec cluster.answer
    s = (.ok object, s) →
      (Objects.validateBaseMiss rounds k object).run.exec cluster.answer s = (.ok (), s) := by
    intro s k hk
    unfold Objects.validateBaseMiss
    rw [exec_of_ok (exec_lift _ s), hk]
    dsimp only
    rw [if_pos (sameCommittedReadSnapshot_self object)]
    rfl
  exact ⟨.ok (), hread hsrc, hread hdst⟩

variable {blob : BlobSource}

theorem Moved.readBlock (hkey : blob.key = src) (hlayout : blob.layout = object)
    (block : UInt32) (contentLen : Nat) :
    Alike cluster.answer s s' (readBlock rounds blob block contentLen).run
      (readBlock rounds { blob with key := dst } block contentLen).run := by
  have hplan : blockFetchPlan { blob with key := dst }.rows block { blob with key := dst }.ceiling
      { blob with key := dst }.blockSize contentLen
      = blockFetchPlan blob.rows block blob.ceiling blob.blockSize contentLen := rfl
  unfold Objects.readBlock
  rw [hplan]
  cases blockFetchPlan blob.rows block blob.ceiling blob.blockSize contentLen with
  | zeros | stale => exact alike_done _
  | fetch version readLen missIsLoss =>
    have hblob : Alike cluster.answer s s'
        (ExceptT.mk (perform (Op.getBlob blob.guid block version blob.location)) : Handler
          (Option Bytes)).run
        (ExceptT.mk (perform (Op.getBlob blob.guid block version blob.location)) : Handler
          (Option Bytes)).run := by
      refine ⟨.ok (cluster.impl.getBlob s.stores blob.guid block version blob.location), rfl, ?_⟩
      rw [← h.stores]
      rfl
    refine hblob.run_bind fun body => ?_
    cases body with
    | some body => exact alike_done _
    | none =>
      cases missIsLoss with
      | true => exact alike_done _
      | false =>
        have hvalidate := h.validateBaseMiss rounds
        rw [← hlayout, ← hkey] at hvalidate
        exact hvalidate.run_bind fun _ => alike_done _

theorem Moved.readBlocks (hkey : blob.key = src) (hlayout : blob.layout = object)
    (is : List Nat) :
    Alike cluster.answer s s' (readBlocks rounds blob is)
      (readBlocks rounds { blob with key := dst } is) := by
  induction is with
  | nil => exact alike_done _
  | cons i is ih =>
    unfold Objects.readBlocks
    exact (h.readBlock hkey hlayout _ _).bind fun _ => ih.bind fun _ => alike_done _

theorem Moved.getFullBlobStream (hkey : blob.key = src)
    (hlayout : blob.layout = object) :
    Alike cluster.answer s s' (getFullBlobStream rounds blob).run
      (getFullBlobStream rounds { blob with key := dst }).run := by
  unfold Objects.getFullBlobStream
  by_cases hzero : blob.numBlocks = 0
  · rw [if_pos hzero, if_pos hzero]
    exact alike_done _
  · rw [if_neg hzero, if_neg hzero]
    refine (h.readBlock hkey hlayout 0 _).run_bind fun first => ?_
    by_cases hone : blob.numBlocks = 1
    · rw [if_pos hone, if_pos hone]
      exact alike_done _
    · rw [if_neg hone, if_neg hone]
      exact (h.readBlocks hkey hlayout _).run_lift.run_bind fun _ => alike_done _

theorem Moved.scanBlocks (hkey : blob.key = src) (hlayout : blob.layout = object)
    (start stop chunkOffset : Nat) (is : List Nat) :
    Alike cluster.answer s s' (scanBlocks rounds blob start stop chunkOffset is)
      (scanBlocks rounds { blob with key := dst } start stop chunkOffset is) := by
  induction is generalizing chunkOffset with
  | nil => exact alike_done _
  | cons i is ih =>
    unfold Objects.scanBlocks
    refine (h.readBlock hkey hlayout _ _).bind fun r => ?_
    cases r with
    | error e => exact (ih chunkOffset).bind fun _ => alike_done _
    | ok chunk =>
      by_cases hstop : chunkOffset ≥ stop
      · dsimp only
        rw [if_pos hstop, if_pos hstop]
        exact alike_done _
      · dsimp only
        rw [if_neg hstop, if_neg hstop]
        exact (ih _).bind fun _ => alike_done _

omit h in
theorem blobSource_key (key key' : Bytes) (layout : Layout) (rows : Option OvrRowMap) :
    blobSource key' layout rows = (blobSource key layout rows).map fun blob =>
      { blob with key := key' } := by
  unfold blobSource
  cases layout.blobGuid with
  | error e => rfl
  | ok guid =>
    cases layout.numBlocks with
    | error e => rfl
    | ok numBlocks =>
      cases layout.size with
      | error e => rfl
      | ok size =>
        cases layout.getBlobLocation with
        | error e => rfl
        | ok location => rfl

omit h in
theorem alike_blobSource {α : Type} {rows : Option OvrRowMap} {f g : BlobSource → Handler α}
    (hf : ∀ blob : BlobSource, blob.key = src → blob.layout = object →
      Alike cluster.answer s s' (f blob).run (g { blob with key := dst }).run) :
    Alike cluster.answer s s' (orFail ObjectLayoutError.toS3Error (blobSource src object rows) >>=
      f).run (orFail ObjectLayoutError.toS3Error (blobSource dst object rows) >>= g).run := by
  rw [blobSource_key src dst]
  cases hblob : blobSource src object rows with
  | error e => exact alike_done _
  | ok blob =>
    obtain ⟨hkey, hlayout, -⟩ := blobSource_fields hblob
    exact hf blob hkey hlayout

omit h in
theorem alike_loadRowMap (layout : Layout) :
    Alike cluster.answer s s' (loadRowMap layout).run (loadRowMap layout).run := by
  unfold loadRowMap
  by_cases hmapped : layout.isMapped = false
  · rw [if_pos hmapped]
    exact alike_done _
  · rw [if_neg hmapped]
    refine (alike_orFail _ _).run_bind fun guid => ?_
    have hrows : Alike cluster.answer s s'
        (ExceptT.mk (perform (Op.loadRowMap guid.blobId layout.mapEpoch)) : Handler OvrRowMap).run
        (ExceptT.mk (perform (Op.loadRowMap guid.blobId layout.mapEpoch)) : Handler
          OvrRowMap).run :=
      ⟨cluster.rows guid.blobId layout.mapEpoch, rfl, rfl⟩
    exact hrows.run_bind fun _ => alike_done _

omit h in
theorem alike_getBlobClient :
    Alike cluster.answer s s' (ExceptT.lift (perform Op.getBlobClient) : Handler Bool).run
      (ExceptT.lift (perform Op.getBlobClient) : Handler Bool).run :=
  ⟨.ok true, rfl, rfl⟩

omit h in
theorem alike_of_ok {α β : Type} {x x' : Handler α} {f f' : α → Handler β} {a : α}
    (hx : x.run.exec cluster.answer s = (.ok a, s))
    (hx' : x'.run.exec cluster.answer s' = (.ok a, s'))
    (h : Alike cluster.answer s s' (f a).run (f' a).run) :
    Alike cluster.answer s s' (x >>= f).run (x' >>= f').run := by
  obtain ⟨r, hr, hr'⟩ := h
  refine ⟨r, ?_, ?_⟩
  · rw [exec_of_ok hx]
    exact hr
  · rw [exec_of_ok hx']
    exact hr'

theorem Moved.getObjectContent :
    Alike cluster.answer s s' (getObjectContent rounds src object).run
      (getObjectContent rounds dst object).run := by
  unfold Objects.getObjectContent
  refine alike_getBlobClient.run_bind fun client => ?_
  cases client with
  | false => exact alike_done _
  | true =>
    rw [if_neg (by decide), if_neg (by decide)]
    cases hstate : object.state with
    | normal guid core =>
      refine (alike_loadRowMap object).run_bind fun rows =>
        alike_blobSource fun blob hkey hlayout => ?_
      exact (h.getFullBlobStream hkey hlayout).run_bind fun _ => alike_done _
    | mpu state =>
      cases state with
      | uploading => exact alike_done _
      | completed core =>
        obtain ⟨hsrc, hdst⟩ := h.page ⟨core, hstate⟩
        exact alike_of_ok (a := []) (by rw [exec_listRawObjects, hsrc]; rfl)
          (by rw [exec_listRawObjects, hdst]; rfl) (alike_done _)
    | _ => exact alike_done _

theorem Moved.getObjectRangeContent (start stop : Nat) :
    Alike cluster.answer s s' (getObjectRangeContent rounds src object start stop).run
      (getObjectRangeContent rounds dst object start stop).run := by
  unfold Objects.getObjectRangeContent
  refine alike_getBlobClient.run_bind fun client => ?_
  cases client with
  | false => exact alike_done _
  | true =>
    rw [if_neg (by decide), if_neg (by decide)]
    cases hstate : object.state with
    | normal guid core =>
      refine (alike_loadRowMap object).run_bind fun rows =>
        alike_blobSource fun blob hkey hlayout => ?_
      exact (h.scanBlocks hkey hlayout _ _ _ _).run_lift
    | mpu state =>
      cases state with
      | uploading => exact alike_done _
      | completed core =>
        obtain ⟨hsrc, hdst⟩ := h.page ⟨core, hstate⟩
        exact alike_of_ok (a := []) (by rw [exec_listRawObjects, hsrc]; rfl)
          (by rw [exec_listRawObjects, hdst]; rfl) (alike_done _)
    | _ => exact alike_done _

omit h in
/-- ★ **An object without parts reads alike under its new key.** -/
theorem alike_getObject (rounds : Nat) (h : Moved cluster s s' src dst object)
    (parseRange : RangeParser) :
    Alike cluster.answer s s' (getObject rounds src parseRange).run
      (getObject rounds dst parseRange).run := by
  obtain ⟨hsrc, hdst⟩ := h.getRawObject rounds
  unfold getObject
  apply alike_of_ok hsrc hdst
  refine (alike_orFail _ _).run_bind fun totalSize => (alike_orFail _ _).run_bind fun range => ?_
  cases range with
  | none => exact h.getObjectContent.run_bind fun _ => alike_done _
  | some bounds => exact h.getObjectRangeContent bounds.1 bounds.2

end

/-! ## §5. What a rename preserves -/

section

variable {cluster : Cluster} {rounds : Nat} {s : Site} {src dst : Bytes} {object : Layout}

theorem listPage_empty {ns : Namespace} {keyPrefix : Bytes}
    (h : ∀ (k : Bytes) value, ns[k]? = some value → ¬ keyPrefix <+: nulTerminated k) (maxKeys : Nat)
    (startAfter : Bytes) :
    (cluster.listPage ns maxKeys keyPrefix startAfter).1 = [] := by
  apply List.eq_nil_iff_forall_not_mem.mpr
  intro e he
  obtain ⟨hstored, hunder⟩ := mem_of_listPage he
  exact h e.1 e.2 hstored hunder

variable (h : Renamable s src dst object)

include h

theorem Renamable.clear_renamed (k : Bytes) (value : Inode)
    (hk : (s.renamed src dst (.layout object)).inodes[k]? = some value) :
    ¬ partsPrefix dst (Uuid.asSimple object.versionId) <+: nulTerminated k := by
  have hne : src ≠ dst := by
    rintro rfl
    have hinode := h.inode
    rw [h.free] at hinode
    cases hinode
  intro hunder
  by_cases hdst : k = dst
  · exact ne_of_partsPrefix hunder hdst
  · by_cases hsrc : k = src
    · rw [hsrc, getElem?_renamed_src hne] at hk
      cases hk
    · rw [getElem?_renamed _ hsrc hdst] at hk
      exact h.clear k value hk hunder

theorem Renamable.clear_deleted (k : Bytes) (value : Inode)
    (hk : ((s.renamed src dst (.layout object)).without [dst]).inodes[k]? = some value) :
    ¬ partsPrefix dst (Uuid.asSimple object.versionId) <+: nulTerminated k := by
  rw [getElem?_without] at hk
  split at hk
  · cases hk
  · exact h.clear_renamed k value hk

theorem Renamable.delete_completed {core : ObjectCoreMetaData}
    (hstate : object.state = .mpu (.completed core)) :
    deleteOutcome cluster rounds (s.renamed src dst (.layout object)) dst
      = (.ok (), (s.renamed src dst (.layout object)).without [dst]) := by
  have hlist := exec_listedParts cluster rounds dst (s.renamed src dst (.layout object)) object
  unfold listedParts at hlist
  rw [mpuGetPartPrefix_zero, listPage_empty h.clear_deleted] at hlist
  rw [exec_delete_completed cluster (getElem?_renamed_dst _) hstate]
  unfold deleteCompletedParts
  rw [mpuGetPartPrefix_zero, exec_of_ok hlist]
  rfl

omit h in
theorem deletedOk_normal (cluster : Cluster) (rounds : Nat) {s : Site} {key : Bytes}
    {guid : DataBlobGuid} {core : ObjectCoreMetaData}
    (hkey : s.inodes[key]? = some (.layout object)) (hstate : object.state = .normal guid core) :
    ∃ s', deleteOutcome cluster rounds s key = (.ok (), s') ∧ DeletedOk cluster s key s' := by
  have hends : DeleteEnds cluster s key (deleteOutcome cluster rounds s key) :=
    deleteEnds_normal hkey hstate rounds
  rcases hends with ⟨s', hout, hok⟩ | ⟨e, s', hout, herror⟩
  · exact ⟨s', hout, hok⟩
  · refine absurd ?_ herror.not_deletable
    intro value hvalue
    rw [hkey] at hvalue
    cases hvalue
    refine .inr ⟨object, rfl, ?_, ?_⟩
    · rw [hstate]
      exact nofun
    · rintro ⟨core', hcore⟩
      rw [hstate] at hcore
      cases hcore

theorem Renamable.answered (hdst : dst.getLast? ≠ some 47) :
    renameObject src dst [.answered] s = .answered (.ok ())
      (s.renamed src dst (.layout object)) := by
  have hsrc : src.getLast? ≠ some 47 := by
    intro hlast
    have haccepted := h.accepted
    unfold rejectTrailingSlashKey at haccepted
    rw [if_pos hlast] at haccepted
    cases haccepted
  have hrename : s.rename src dst = (.ok .empty, s.renamed src dst (.layout object)) := by
    unfold Site.rename
    rw [h.inode, h.free]
    rfl
  unfold renameObject
  rw [if_neg hsrc, if_neg hdst]
  unfold renameAttempts renameAttempt
  rw [hrename]
  rfl

theorem Renamable.preserves
    (hparts : (∃ guid core, object.state = .normal guid core)
      ∨ ∀ (k : Bytes) value, s.inodes[k]? = some value →
        ¬ partsPrefix src (Uuid.asSimple object.versionId) <+: nulTerminated k) :
    RenamePreserves cluster rounds s src dst object := by
  have hnone : ∀ core, object.state = .mpu (.completed core) →
    ∀ (k : Bytes) value, s.inodes[k]? = some value →
      ¬ partsPrefix src (Uuid.asSimple object.versionId) <+: nulTerminated k := by
    intro core hcompleted
    rcases hparts with ⟨guid, core', hnormal⟩ | hnone
    · rw [hcompleted] at hnormal
      cases hnormal
    · exact hnone
  have hmoved : Moved cluster s (s.renamed src dst (.layout object)) src dst object := by
    refine ⟨h.inode, getElem?_renamed_dst _, rfl, ?_⟩
    rintro ⟨core, hcompleted⟩
    rw [mpuGetPartPrefix_zero, mpuGetPartPrefix_zero]
    exact ⟨listPage_empty (hnone core hcompleted) _ _, listPage_empty h.clear_renamed _ _⟩
  refine ⟨?_, ?_, ?_⟩
  · intro ds s' hok parseRange
    rw [renameObject_ok h.inode h.free hok]
    obtain ⟨r, hr, hr'⟩ := alike_getObject rounds hmoved parseRange
    rw [hr, hr']
  · intro ds s' hok
    rw [renameObject_ok h.inode h.free hok]
    rcases h.state with ⟨guid, core, hnormal⟩ | ⟨core, hcompleted⟩
    · obtain ⟨s'', hout, hdeleted⟩ :=
        deletedOk_normal cluster rounds (getElem?_renamed_dst (.layout object)) hnormal
      rw [hout]
      exact ⟨rfl, hdeleted.removed, fun guid' hguid => hdeleted.reclaimed object
        (getElem?_renamed_dst _) guid' (.inl hguid)⟩
    · rw [h.delete_completed hcompleted]
      refine ⟨rfl, getElem?_without_self _ _, fun guid hguid => ?_⟩
      unfold Layout.blobGuid at hguid
      rw [hcompleted] at hguid
      cases hguid
  · rintro ds s' - k part ⟨⟨core, hcompleted⟩, hstored, hunder⟩
    exact absurd hunder (hnone core hcompleted k _ hstored)

omit h in
/-- ★ **What a rename preserves.** A rename that answers Ok preserves the content of the object and
    what a DELETE takes with it exactly if the object is a normal one or has no parts; a destination
    that ends with a slash is not answered. -/
theorem rename_preserves_iff (cluster : Cluster) (rounds : Nat) (h : Renamable s src dst object) :
    RenamePreserves cluster rounds s src dst object ↔
      dst.getLast? = some 47 ∨ (∃ guid core, object.state = .normal guid core)
        ∨ ∀ (k : Bytes) value, s.inodes[k]? = some value →
          ¬ partsPrefix src (Uuid.asSimple object.versionId) <+: nulTerminated k := by
  constructor
  · intro hpreserves
    by_cases hdst : dst.getLast? = some 47
    · exact .inl hdst
    · rcases h.state with hnormal | ⟨core, hcompleted⟩
      · exact .inr (.inl hnormal)
      · refine .inr (.inr fun k value hstored hunder => ?_)
        -- a part that is stored stays when the object is deleted
        obtain ⟨part, rfl⟩ := h.layouts k value hstored hunder
        have hgone :=
          (hpreserves.parts _ _ (h.answered hdst) k part ⟨⟨core, hcompleted⟩, hstored, hunder⟩).1
        have hkdst : k ≠ dst := by
          rintro rfl
          rw [h.free] at hstored
          cases hstored
        rw [h.delete_completed hcompleted, getElem?_without, if_neg (by simpa using hkdst),
          getElem?_renamed _ (ne_of_partsPrefix hunder) hkdst, hstored] at hgone
        cases hgone
  · rintro (hdst | hparts)
    · have hpanics : ∀ ds s', renameObject src dst ds s ≠ .answered (.ok ()) s' := by
        intro ds s' hok
        unfold renameObject at hok
        rw [if_pos hdst, ite_self] at hok
        cases hok
      exact ⟨fun ds s' hok => absurd hok (hpanics ds s'), fun ds s' hok => absurd hok
        (hpanics ds s'), fun ds s' hok => absurd hok (hpanics ds s')⟩
    · exact h.preserves hparts

end

def oneBlockSite : Site :=
  { siteWith (.layout (blockUpload sampleCluster.impl 5 [7]).stored) with
    stores := writeAll (fun _ => none) (blockUpload sampleCluster.impl 5 [7]).writes }

theorem rename_preserves_at_sample :
    RenamePreserves sampleCluster 0 oneBlockSite (ascii "/k") (ascii "/m")
      (blockUpload sampleCluster.impl 5 [7]).stored := by
  have hkeys : ∀ (k : Bytes) value, oneBlockSite.inodes[k]? = some value → ascii "/k" = k :=
    Namespace.forall_of_toList (by decide +kernel)
  have hrenamable : Renamable oneBlockSite (ascii "/k") (ascii "/m")
    (blockUpload sampleCluster.impl 5 [7]).stored := by
    refine ⟨by decide +kernel, .inl ⟨_, _, rfl⟩, by decide, by decide +kernel, ?_, ?_⟩
    · intro k value hvalue
      rw [← hkeys k value hvalue]
      decide +kernel
    · intro k value hvalue hunder
      exact absurd (hkeys k value hvalue).symm (ne_of_partsPrefix hunder)
  exact (rename_preserves_iff sampleCluster 0 hrenamable).mpr (.inr (.inl ⟨_, _, rfl⟩))

def onePartSite : Site :=
  { oneBlockSite with
    inodes := ((∅ : Namespace).insert (ascii "/k") (.layout (completedSample 1))).insert
      (mpuGetPartPrefix (ascii "/k") 1 1) (.layout (blockUpload sampleCluster.impl 5 [7]).stored) }

theorem rename_loses_parts :
    ((getObject 0 (ascii "/k") fun _ => .ok none).run.exec sampleCluster.answer onePartSite).1 = .ok
      [.ok [7]]
      ∧ renameObject (ascii "/k") (ascii "/m") [.answered] onePartSite = .answered (.ok ())
        (onePartSite.renamed (ascii "/k") (ascii "/m") (.layout (completedSample 1)))
      ∧ ((getObject 0 (ascii "/m") fun _ => .ok none).run.exec sampleCluster.answer
        (onePartSite.renamed (ascii "/k") (ascii "/m") (.layout (completedSample 1)))).1
          = .ok []
      ∧ (deleteOutcome sampleCluster 0
        (onePartSite.renamed (ascii "/k") (ascii "/m") (.layout (completedSample 1)))
        (ascii "/m")).2.inodes[mpuGetPartPrefix (ascii "/k") 1 1]?
          = some (.layout (blockUpload sampleCluster.impl 5 [7]).stored)
      ∧ ¬ RenamePreserves sampleCluster 0 onePartSite (ascii "/k") (ascii "/m")
        (completedSample 1) := by
  have hsrc : onePartSite.inodes[ascii "/k"]? = some (.layout (completedSample 1)) := by
    decide +kernel
  have hdst : onePartSite.inodes[ascii "/m"]? = none := by decide +kernel
  have hok : renameObject (ascii "/k") (ascii "/m") [.answered] onePartSite = .answered (.ok ())
      (onePartSite.renamed (ascii "/k") (ascii "/m") (.layout (completedSample 1))) := by
    unfold renameObject
    rw [if_neg (by decide), if_neg (by decide)]
    unfold renameAttempts renameAttempt Site.rename
    rw [hsrc, hdst]
    rfl
  have hbefore :
      ((getObject 0 (ascii "/k") fun _ => .ok none).run.exec sampleCluster.answer onePartSite).1
        = .ok [.ok [7]] := by decide +kernel
  have hafter : ((getObject 0 (ascii "/m") fun _ => .ok none).run.exec sampleCluster.answer
      (onePartSite.renamed (ascii "/k") (ascii "/m") (.layout (completedSample 1)))).1
        = .ok [] := by decide +kernel
  refine ⟨hbefore, hok, hafter, by decide +kernel, fun hpreserves => ?_⟩
  have hsame := hpreserves.read _ _ hok fun _ => .ok none
  rw [hbefore, hafter] at hsame
  cases hsame

end FractalBits.Objects
