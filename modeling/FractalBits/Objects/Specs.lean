/-
  Objects.Specs — what the parts shared by the handlers do.

  Two readings of each part: run alone while every call is answered (`exec_…`), and kept invariants
  whatever happens to the calls (`…_keeps`).
-/

import FractalBits.Objects.Handlers

namespace FractalBits.Objects

open Lib Streaming Gateway List
open OvrMap (Uuid)

/-! ## §1. Listings -/

def rawObjects (inodes : List (Bytes × Inode)) : Except NssError (List (Bytes × Layout)) :=
  (listEntries inodes).map fun entries => entries.filterMap fun entry => entry.2.map (entry.1, ·)

theorem rawObjects_empty (key : Bytes) (rest : List (Bytes × Inode)) :
    rawObjects ((key, .empty) :: rest) = rawObjects rest := by
  unfold rawObjects
  rw [listEntries, if_pos (by decide)]
  cases listEntries rest <;> rfl

theorem rawObjects_layout (key : Bytes) (object : Layout) (rest : List (Bytes × Inode)) :
    rawObjects ((key, .layout object) :: rest) = (rawObjects rest).map
      ((trimEndMatches 0 key, object) :: ·) := by
  unfold rawObjects
  rw [listEntries, if_neg (by simp [Inode.isEmpty, Inode.empty])]
  cases listEntries rest <;> rfl

theorem rawObjects_raw (key : Bytes) {bytes : Bytes} (h : bytes ≠ [])
    (rest : List (Bytes × Inode)) :
    rawObjects ((key, .raw bytes) :: rest) = .error .deserialization := by
  unfold rawObjects
  rw [listEntries, if_neg (by simpa [Inode.isEmpty, Inode.empty] using h)]
  rfl

variable {inodes : List (Bytes × Inode)} {mpus : List (Bytes × Layout)} {a b : Option Inode}

theorem rawObjects_ok
    (h : ∀ e ∈ inodes, e.2 = .empty ∨ ∃ object, e.2 = .layout object) :
    ∃ mpus, rawObjects inodes = .ok mpus := by
  induction inodes with
  | nil => exact ⟨[], rfl⟩
  | cons e inodes ih =>
    obtain ⟨key, value⟩ := e
    obtain ⟨mpus, hmpus⟩ := ih fun e he => h e (mem_cons_of_mem _ he)
    rcases h (key, value) mem_cons_self with hempty | ⟨object, hobject⟩
    · obtain rfl : value = .empty := hempty
      exact ⟨mpus, by rw [rawObjects_empty, hmpus]⟩
    · cases hobject
      exact ⟨_, by rw [rawObjects_layout, hmpus]; rfl⟩

def listResult : Except RpcError ListInodesResponse → Except S3Error (List (Bytes × Layout))
  | .error e => .error e.toS3Error
  | .ok (.ok inodes _) => (rawObjects inodes).mapError NssError.toS3Error
  | .ok .errNoSuchRootBlob => .error .noSuchBucket
  | .ok .errOther => .error .internalError

theorem rawObjects_of_listResult {more : Bool}
    (h : listResult (.ok (.ok inodes more)) = .ok mpus) : rawObjects inodes = .ok mpus := by
  cases hraw : rawObjects inodes with
  | error e =>
    rw [listResult, hraw] at h
    cases h
  | ok mpus' =>
    rw [listResult, hraw] at h
    cases h
    rfl

theorem page_of_listResult {ans : Except RpcError ListInodesResponse}
    (h : listResult ans = .ok mpus) : ∃ inodes more, ans = .ok (.ok inodes more)
    ∧ rawObjects inodes = .ok mpus := by
  cases ans with
  | error e => cases h
  | ok resp =>
    cases resp with
    | errNoSuchRootBlob | errOther => cases h
    | ok inodes more => exact ⟨inodes, more, rfl, rawObjects_of_listResult h⟩

theorem listRawObjects_decodes (resp : ListInodesResponse) :
    (do
      let (entries, _) ← orFail NssError.toS3Error (parseListInodes resp)
      return entries.filterMap fun entry => entry.2.map (entry.1, ·) :
        Handler (List (Bytes × Layout))).run
      = .done (listResult (.ok resp)) := by
  cases resp with
  | errNoSuchRootBlob | errOther => rfl
  | ok inodes more =>
    unfold listResult rawObjects parseListInodes
    dsimp only
    cases listEntries inodes with
    | error e | ok entries => rfl

theorem mem_of_rawObjects
    (h : rawObjects inodes = .ok mpus) {part : Bytes × Layout} (hpart : part ∈ mpus) :
    ∃ key, (key, Inode.layout part.2) ∈ inodes ∧ part.1 = trimEndMatches 0 key := by
  induction inodes generalizing mpus with
  | nil =>
    cases h
    cases hpart
  | cons e inodes ih =>
    obtain ⟨key, value⟩ := e
    cases value with
    | raw bytes =>
      by_cases hempty : bytes = []
      · subst hempty
        rw [show Inode.raw [] = .empty from rfl, rawObjects_empty] at h
        obtain ⟨k, hk, htrim⟩ := ih h hpart
        exact ⟨k, mem_cons_of_mem _ hk, htrim⟩
      · rw [rawObjects_raw key hempty] at h
        cases h
    | layout object =>
      rw [rawObjects_layout] at h
      cases hrest : rawObjects inodes with
      | error e =>
        rw [hrest] at h
        cases h
      | ok rest =>
        rw [hrest] at h
        cases h
        rcases mem_cons.mp hpart with rfl | hpart
        · exact ⟨key, mem_cons_self, rfl⟩
        · obtain ⟨k, hk, htrim⟩ := ih hrest hpart
          exact ⟨k, mem_cons_of_mem _ hk, htrim⟩

theorem mem_matching {ns : Namespace} {keyPrefix startAfter : Bytes} {e : Bytes × Inode} :
    e ∈ ns.matching keyPrefix startAfter ↔
      ns[e.1]? = some e.2 ∧ keyPrefix <+: nulTerminated e.1
        ∧ compare (wireStartAfter startAfter) (nulTerminated e.1) = .lt := by
  unfold Namespace.matching
  rw [mem_filter, Std.ExtTreeMap.mem_toList_iff_getElem?_eq_some]
  simp

theorem Namespace.forall_of_toList {ns : Namespace} {P : Bytes → Inode → Prop}
    (h : ∀ e ∈ ns.toList, P e.1 e.2) (k : Bytes) (value : Inode) (hvalue : ns[k]? = some value) :
    P k value :=
  h (k, value) (Std.ExtTreeMap.mem_toList_iff_getElem?_eq_some.mpr hvalue)

section

variable {cluster : Cluster}

theorem mem_of_listPage {ns : Namespace} {maxKeys : Nat} {keyPrefix startAfter : Bytes}
    {e : Bytes × Inode} (h : e ∈ (cluster.listPage ns maxKeys keyPrefix startAfter).1) :
    ns[e.1]? = some e.2 ∧ keyPrefix <+: nulTerminated e.1 := by
  have hmem : e ∈ ns.matching keyPrefix startAfter := mem_of_mem_take h
  exact ⟨(mem_matching.mp hmem).1, (mem_matching.mp hmem).2.1⟩

theorem exec_listRawObjects (rounds maxParts : Nat) (keyPrefix startAfter : Bytes) (s : Site) :
    (listRawObjects rounds maxParts keyPrefix startAfter).run.exec cluster.answer s
      = ((rawObjects (cluster.listPage s.inodes maxParts keyPrefix startAfter).1).mapError
        NssError.toS3Error, s) := by
  unfold listRawObjects
  have hcall : (perform (Op.listInodes maxParts keyPrefix startAfter) : Call _).exec cluster.answer
      s = (.ok (.ok (cluster.listPage s.inodes maxParts keyPrefix startAfter).1
          (cluster.listPage s.inodes maxParts keyPrefix startAfter).2), s) := rfl
  rw [exec_of_ok (exec_nss hcall rounds)]
  unfold rawObjects parseListInodes
  dsimp only
  cases listEntries (cluster.listPage s.inodes maxParts keyPrefix startAfter).1 with
  | error e => rfl
  | ok entries => rfl

def Site.getResponse (s : Site) (key : Bytes) : GetInodeResponse :=
  match s.inodes[key]? with
  | some value => .ok value
  | none => .errNotFound

variable {s : Site} {key k : Bytes} {object : Layout} {e : ObjectLayoutError}

theorem Site.getResponse_of_none (h : s.inodes[key]? = none) :
    s.getResponse key = .errNotFound := by
  unfold Site.getResponse
  rw [h]

theorem Site.getResponse_of_some {value : Inode} (h : s.inodes[key]? = some value) :
    s.getResponse key = .ok value := by
  unfold Site.getResponse
  rw [h]

theorem exec_getInode (key : Bytes) (s : Site) :
    (perform (Op.getInode key) : Call _).exec cluster.answer s = (.ok (s.getResponse key), s) := rfl

theorem exec_getRawObject (cluster : Cluster) (rounds : Nat) (key : Bytes) (s : Site) :
    (getRawObject rounds key).run.exec cluster.answer s
      = ((parseGetInode (s.getResponse key)).mapError NssError.toS3Error, s) := by
  unfold getRawObject
  rw [exec_of_ok (exec_nss (exec_getInode key s) rounds)]
  rfl

theorem exec_putBlocks (writes : List (BlobKey × Bytes)) (s : Site) :
    (putBlocks writes).exec cluster.answer
      s = (true, { s with stores := writeAll s.stores writes }) := by
  induction writes generalizing s with
  | nil => rfl
  | cons w writes ih =>
    obtain ⟨key, body⟩ := w
    unfold putBlocks
    rw [perform_bind, exec_call]
    show (putBlocks writes >>= fun rest => pure (true && rest)).exec cluster.answer
      { s with stores := Function.update s.stores key (some body) } = _
    rw [exec_bind, ih, writeAll_cons]
    rfl

/-! ## §2. Deletions -/

def Site.enqueued (s : Site) (objects : List Layout) : Site :=
  { s with queue := s.queue ++ objects.filterMap fun object =>
             (newBlobDeletionRequest object).toOption }

theorem exec_enqueueBlobDeletion_ok {guid : DataBlobGuid} (h : object.blobGuid = .ok guid)
    (s : Site) :
    (enqueueBlobDeletion object).exec cluster.answer s = (.ok (), s.enqueued [object]) := by
  unfold enqueueBlobDeletion Site.enqueued
  rw [newBlobDeletionRequest_ok h, filterMap_cons, newBlobDeletionRequest_ok h]
  rfl

theorem Site.enqueued_of_error (h : object.blobGuid = .error e)
    (s : Site) : s.enqueued [object] = s := by
  unfold Site.enqueued
  rw [filterMap_cons, newBlobDeletionRequest_error h]
  simp [Except.toOption]

theorem Site.enqueued_append (s : Site) (first second : List Layout) :
    (s.enqueued first).enqueued second = s.enqueued (first ++ second) := by
  unfold Site.enqueued
  rw [filterMap_append, append_assoc]

theorem exec_enqueueBlobDeletion_error (h : object.blobGuid = .error e)
    (s : Site) :
    (enqueueBlobDeletion object).exec cluster.answer s = (.error e, s) := by
  unfold enqueueBlobDeletion
  rw [newBlobDeletionRequest_error h]
  rfl

theorem exec_enqueue_ok {guid : DataBlobGuid} (h : object.blobGuid = .ok guid) (s : Site) :
    (enqueue object).run.exec cluster.answer s = (.ok (), s.enqueued [object]) := by
  unfold enqueue
  rw [exec_of_ok (exec_lift _ s), exec_enqueueBlobDeletion_ok h]
  rfl

theorem exec_enqueue_error (h : object.blobGuid = .error e) (s : Site) :
    (enqueue object).run.exec cluster.answer s = (.error .invalidObjectState, s) := by
  unfold enqueue
  rw [exec_of_ok (exec_lift _ s), exec_enqueueBlobDeletion_error h]
  cases e
  rfl

/-! Other keys than the one that is written. -/

theorem getElem?_insert_of_ne (ns : Namespace) (value : Inode) (hk : k ≠ key) :
    (ns.insert key value)[k]? = ns[k]? := by
  rw [Std.ExtTreeMap.getElem?_insert, if_neg]
  intro hcompare
  exact hk (Std.LawfulEqCmp.eq_of_compare hcompare).symm

theorem getElem?_erase_of_ne (ns : Namespace) (hk : k ≠ key) : (ns.erase key)[k]? = ns[k]? := by
  rw [Std.ExtTreeMap.getElem?_erase, if_neg]
  intro hcompare
  exact hk (Std.LawfulEqCmp.eq_of_compare hcompare).symm

def Site.without (s : Site) (keys : List Bytes) : Site :=
  { s with inodes := keys.foldl (fun ns key => ns.erase key) s.inodes }

def Site.dropParts (s : Site) (mpus : List (Bytes × Layout)) : Site :=
  (s.without (mpus.map Prod.fst)).enqueued (mpus.map Prod.snd)

theorem getElem?_without (s : Site) (keys : List Bytes) (k : Bytes) :
    (s.without keys).inodes[k]? = if k ∈ keys then none else s.inodes[k]? := by
  unfold Site.without
  dsimp only
  generalize s.inodes = ns
  induction keys generalizing ns with
  | nil => rfl
  | cons key keys ih =>
    rw [foldl_cons, ih, Std.ExtTreeMap.getElem?_erase]
    by_cases hk : k ∈ keys
    · rw [if_pos hk, if_pos (mem_cons_of_mem _ hk)]
    · rw [if_neg hk]
      by_cases heq : key = k
      · rw [if_pos (by simp [heq]), if_pos (by simp [heq])]
      · rw [if_neg (by simpa using heq), if_neg]
        simp [hk, Ne.symm heq]

theorem getElem?_dropParts (s : Site) (mpus : List (Bytes × Layout)) (k : Bytes) :
    (s.dropParts mpus).inodes[k]? = if k ∈ mpus.map Prod.fst then none else s.inodes[k]? :=
  getElem?_without s _ k

theorem getElem?_dropParts_of_none (h : s.inodes[k]? = none) (mpus : List (Bytes × Layout)) :
    (s.dropParts mpus).inodes[k]? = none := by
  rw [getElem?_dropParts, h, ite_self]

def Site.deleteResponse (s : Site) (key : Bytes) : DeleteInodeResponse :=
  match s.inodes[key]? with
  | some value => .ok value
  | none => .errNotFound

theorem Site.deleteResponse_cases (s : Site) (key : Bytes) :
    s.deleteResponse key = .errNotFound ∨ ∃ old, s.deleteResponse key = .ok old := by
  unfold Site.deleteResponse
  cases s.inodes[key]? with
  | none => exact .inl rfl
  | some old => exact .inr ⟨old, rfl⟩

theorem exec_deleteInode (key : Bytes) (s : Site) :
    (perform (Op.deleteInode key) : Call _).exec cluster.answer s
      = (.ok (s.deleteResponse key), s.without [key]) := rfl

theorem Site.dropParts_nil (s : Site) : s.dropParts [] = s := by
  unfold Site.dropParts Site.enqueued Site.without
  simp

theorem Site.dropParts_cons (s : Site) (key : Bytes) (object : Layout)
    (mpus : List (Bytes × Layout)) :
    ((s.without [key]).enqueued [object]).dropParts mpus = s.dropParts ((key, object) :: mpus) := by
  show ((s.without (key :: mpus.map Prod.fst)).enqueued [object]).enqueued (mpus.map Prod.snd) = _
  rw [Site.enqueued_append]
  rfl

theorem exec_deleteParts_ok (rounds : Nat) {mpus : List (Bytes × Layout)}
    (h : ∀ part ∈ mpus, ∃ guid, part.2.blobGuid = .ok guid) (s : Site) :
    (deleteParts rounds mpus).run.exec cluster.answer s = (.ok (), s.dropParts mpus) := by
  induction mpus generalizing s with
  | nil =>
    rw [Site.dropParts_nil]
    rfl
  | cons part mpus ih =>
    obtain ⟨key, object⟩ := part
    obtain ⟨guid, hguid⟩ := h (key, object) mem_cons_self
    unfold deleteParts
    rw [exec_of_ok (exec_nss (exec_deleteInode _ _) rounds), exec_of_ok (exec_enqueue_ok hguid _),
      ih (fun part hpart => h part (mem_cons_of_mem _ hpart)), Site.dropParts_cons]

theorem exec_deleteParts_error (rounds : Nat) {good rest : List (Bytes × Layout)}
    (hgood : ∀ part ∈ good, ∃ guid, part.2.blobGuid = .ok guid)
    (hbad : object.blobGuid = .error e) (s : Site) :
    (deleteParts rounds (good ++ (key, object) :: rest)).run.exec cluster.answer s
      = (.error .invalidObjectState, (s.dropParts good).without [key]) := by
  induction good generalizing s with
  | nil =>
    rw [nil_append]
    unfold deleteParts
    rw [exec_of_ok (exec_nss (exec_deleteInode _ _) rounds),
      exec_of_error (exec_enqueue_error hbad _), Site.dropParts_nil]
  | cons part good ih =>
    obtain ⟨key', object'⟩ := part
    obtain ⟨guid, hguid⟩ := hgood (key', object') mem_cons_self
    rw [cons_append]
    unfold deleteParts
    rw [exec_of_ok (exec_nss (exec_deleteInode _ _) rounds), exec_of_ok (exec_enqueue_ok hguid _),
      ih (fun part hpart => hgood part (mem_cons_of_mem _ hpart)), Site.dropParts_cons]

theorem exec_deletePartsBestEffort (rounds : Nat) (mpus : List (Bytes × Layout)) (s : Site) :
    (deletePartsBestEffort rounds mpus).exec cluster.answer s = ((), s.dropParts mpus) := by
  induction mpus generalizing s with
  | nil =>
    rw [Site.dropParts_nil]
    rfl
  | cons part mpus ih =>
    obtain ⟨key, object⟩ := part
    have henqueue : ((enqueueBlobDeletion object).exec cluster.answer (s.without [key])).2
        = (s.without [key]).enqueued [object] := by
      cases hguid : object.blobGuid with
      | error e => rw [exec_enqueueBlobDeletion_error hguid, Site.enqueued_of_error hguid]
      | ok guid => rw [exec_enqueueBlobDeletion_ok hguid]
    unfold deletePartsBestEffort
    rw [exec_bind, exec_nssRpcRetry (exec_deleteInode _ _), exec_bind, henqueue, ih,
      Site.dropParts_cons]

theorem exec_cleanUpOrphanedParts (rounds : Nat) (key : Bytes) (s : Site) :
    (cleanUpOrphanedParts rounds key).exec cluster.answer s
      = match rawObjects (cluster.listPage s.inodes 10000 (mpuGetUploadsPrefix key) []).1 with
        | .ok mpus => ((), s.dropParts mpus)
        | .error _ => ((), s) := by
  unfold cleanUpOrphanedParts
  rw [exec_bind, exec_listRawObjects]
  cases rawObjects (cluster.listPage s.inodes 10000 (mpuGetUploadsPrefix key) []).1 with
  | error e => rfl
  | ok mpus => exact exec_deletePartsBestEffort rounds mpus s

end

/-! ## §3. What handlers keep -/

section

variable {cluster : Cluster} {ok : Op → Delivery → Prop} {I : Site → Prop} {E : S3Error → Prop}
    {α β : Type}

theorem keeps_bind {x : Handler β} {f : β → Handler α} {P : β → Prop} {Q : α → Prop}
    (hx : x.run.Keeps cluster.serve ok I (Answers E P))
    (hf : ∀ b, P b → (f b).run.Keeps cluster.serve ok I (Answers E Q)) :
    (x >>= f).run.Keeps cluster.serve ok I (Answers E Q) :=
  keeps_run_bind hx (fun _ he => he) hf

theorem keeps_deleteParts (rounds : Nat) {mpus : List (Bytes × Layout)}
    (hdelete : ∀ part ∈ mpus, (perform (Op.deleteInode part.1) : Call _).Keeps cluster.serve ok I
      fun r => Answers E (fun _ => True) (r.mapError RpcError.toS3Error))
    (henqueue : ∀ part ∈ mpus, (enqueue part.2).run.Keeps cluster.serve ok I
      (Answers E fun _ => True)) :
    (deleteParts rounds mpus).run.Keeps cluster.serve ok I (Answers E fun _ => True) := by
  induction mpus with
  | nil => trivial
  | cons part mpus ih =>
    obtain ⟨key, object⟩ := part
    unfold deleteParts
    refine keeps_bind (keeps_nss (hdelete (key, object) mem_cons_self) rounds) fun _ _ => ?_
    refine keeps_bind (henqueue (key, object) mem_cons_self) fun _ _ => ?_
    exact ih (fun part hpart => hdelete part (mem_cons_of_mem _ hpart))
      (fun part hpart => henqueue part (mem_cons_of_mem _ hpart))

theorem keeps_deletePartsBestEffort (rounds : Nat) {mpus : List (Bytes × Layout)}
    (hdelete : ∀ part ∈ mpus, (perform (Op.deleteInode part.1) : Call _).Keeps cluster.serve ok I
    fun _ => True) (henqueue : ∀ part ∈ mpus, (enqueueBlobDeletion part.2).Keeps cluster.serve ok I
      fun _ => True) :
    (deletePartsBestEffort rounds mpus).Keeps cluster.serve ok I fun _ => True := by
  induction mpus with
  | nil => trivial
  | cons part mpus ih =>
    obtain ⟨key, object⟩ := part
    unfold deletePartsBestEffort
    refine (keeps_nssRpcRetry (hdelete (key, object) mem_cons_self) rounds).bind fun _ _ => ?_
    refine (henqueue (key, object) mem_cons_self).bind fun _ _ => ?_
    exact ih (fun part hpart => hdelete part (mem_cons_of_mem _ hpart))
      (fun part hpart => henqueue part (mem_cons_of_mem _ hpart))

end

/-! ## §4. What one call leaves -/

def GoneOrSame (now before : Option Inode) : Prop := now = before ∨ now = none

theorem GoneOrSame.trans {c : Option Inode} (h : GoneOrSame b a) (h' : GoneOrSame c b) :
    GoneOrSame c a := by
  rcases h' with rfl | rfl
  · exact h
  · exact .inr rfl

theorem GoneOrSame.eq_none (h : GoneOrSame b a) (ha : a = none) : b = none := by
  rcases h with rfl | rfl
  · exact ha
  · rfl

theorem GoneOrSame.eq_some {value : Inode} (h : GoneOrSame b a) (hb : b = some value) :
    a = some value := by
  rcases h with rfl | rfl
  · exact hb
  · cases hb

section

variable {cluster : Cluster} {key uploadId : Bytes} {s : Site} {op : Op} {ch : Delivery}

theorem serve_inodes_of_not_put (hput : ∀ k value, op ≠ .putInode k value) (k : Bytes) :
    GoneOrSame (cluster.serve ch op s).2.inodes[k]? s.inodes[k]? := by
  have hsame : GoneOrSame s.inodes[k]? s.inodes[k]? := .inl rfl
  cases op with
  | putInode k' value => exact absurd rfl (hput k' value)
  | deleteInode k' =>
    have herase : GoneOrSame (s.inodes.erase k')[k]? s.inodes[k]? := by
      rw [Std.ExtTreeMap.getElem?_erase]
      split
      · exact .inr rfl
      · exact hsame
    cases ch with
    | answered | replyLost | garbled => exact herase
    | dropped | refused | noRootBlob => exact hsame
  | failoverExpired | refreshNssAddress | getBlobClient | loadRowMap => exact hsame
  | _ =>
    cases ch <;> exact hsame

variable {k : Bytes}

theorem serve_inodes_off {key : Bytes} (hput : ∀ k value, op = .putInode k value → k = key)
    (hk : k ≠ key) :
    GoneOrSame (cluster.serve ch op s).2.inodes[k]? s.inodes[k]? := by
  cases op with
  | putInode k' value =>
    have hinsert : (s.inodes.insert k' value)[k]? = s.inodes[k]? := by
      rw [hput k' value rfl]
      exact getElem?_insert_of_ne _ _ hk
    cases ch with
    | answered | replyLost | garbled => exact .inl hinsert
    | dropped | refused | noRootBlob => exact .inl rfl
  | _ =>
    refine serve_inodes_of_not_put ?_ k
    intro k' value heq
    cases heq

theorem serve_inodes_same (hput : ∀ value, op ≠ .putInode k value) (hdelete : op ≠ .deleteInode k) :
    (cluster.serve ch op s).2.inodes[k]? = s.inodes[k]? := by
  cases op with
  | putInode k' value =>
    have hinsert : (s.inodes.insert k' value)[k]? = s.inodes[k]? :=
      getElem?_insert_of_ne _ _ fun heq => hput value (by rw [heq])
    cases ch with
    | answered | replyLost | garbled => exact hinsert
    | dropped | refused | noRootBlob => rfl
  | deleteInode k' =>
    have herase : (s.inodes.erase k')[k]? = s.inodes[k]? :=
      getElem?_erase_of_ne _ fun heq => hdelete (by rw [heq])
    cases ch with
    | answered | replyLost | garbled => exact herase
    | dropped | refused | noRootBlob => rfl
  | failoverExpired | refreshNssAddress | getBlobClient | loadRowMap => rfl
  | _ =>
    cases ch <;> rfl

theorem serve_stores_same (h : ∀ k body, op ≠ .putBlock k body) :
    (cluster.serve ch op s).2.stores = s.stores := by
  cases op with
  | putBlock k body => exact absurd rfl (h k body)
  | failoverExpired | refreshNssAddress | getBlobClient | loadRowMap => rfl
  | _ =>
    cases ch <;> rfl

theorem serve_putInode {value : Inode} (hch : ch.applied = true) :
    (cluster.serve ch (.putInode k value) s).2.inodes[k]? = some value := by
  cases ch with
  | answered | replyLost | garbled => exact Std.ExtTreeMap.getElem?_insert_self
  | dropped | refused | noRootBlob => cases hch

theorem serve_putInode_lost {value : Inode} (hch : ¬ ch.applied = true) :
    (cluster.serve ch (.putInode k value) s).2 = s := by
  cases ch with
  | answered | replyLost | garbled => exact absurd rfl hch
  | dropped | refused | noRootBlob => rfl

theorem serve_deleteInode (hch : ch.applied = true) :
    (cluster.serve ch (.deleteInode k) s).2.inodes[k]? = none := by
  cases ch with
  | answered | replyLost | garbled => exact Std.ExtTreeMap.getElem?_erase_self
  | dropped | refused | noRootBlob => cases hch

end

end FractalBits.Objects
