/-
  Objects.Cleaning — the programs that handlers share, in any protocol.

  A call with its retries moves to the phase of one answer (§1).
-/

import FractalBits.Objects.Parts

namespace FractalBits.Objects

open Lib Streaming Gateway
open OvrMap (Uuid)

variable {γ α : Type} {P : Protocol Op Ans γ} {R : γ → Prop} {g : γ}

/-! ## §1. One call -/

/-- From phase `g`, some answer there can be leads to `g'` and comes to `r`. -/
def Moves (P : Protocol Op Ans γ) (g : γ) (op : Op) (result : Ans op → α) (g' : γ) (r : α) : Prop :=
  ∃ ans, P.possible op ans ∧ g' = P.advance g op ans ∧ r = result ans

theorem eq_of_retryable {β : Type} {next : Except RpcError β → γ}
    (hfail : next (.error .connectionClosed) = g) {ans : Except RpcError β} {e : RpcError}
    (hans : ans = .error e) (he : e.retryable = true) : next ans = g := by
  rw [hans]
  cases e with
  | connectionClosed => exact hfail
  | decodeError => cases he

theorem follows_orFail_bind {β ε : Type} {toS3Error : ε → S3Error} {r : Except ε β}
    {f : β → Handler α} {Q : γ → Except S3Error α → Prop}
    (herror : ∀ e, r = .error e → Q g (.error (toS3Error e)))
    (hf : ∀ b, r = .ok b → (f b).run.Follows P Q g) :
    (orFail toS3Error r >>= f).run.Follows P Q g := by
  cases r with
  | error e => exact herror e rfl
  | ok b => exact hf b rfl

variable {key : Bytes}

theorem follows_getInode (hP : Retries P g) (hallowed : P.allowed g (.getInode key))
    (hfail : P.advance g (.getInode key) (.error .connectionClosed) = g) (rounds : Nat) :
    (nss rounds (perform (Op.getInode key))).run.Follows P
      (Moves P g (.getInode key) fun ans => ans.mapError RpcError.toS3Error) g := by
  refine follows_nss hP ?_ rounds
  exact ⟨hallowed, fun ans hans => ⟨⟨ans, hans, rfl, rfl⟩, fun _ => eq_of_retryable hfail⟩⟩

theorem follows_putInode {value : Inode} (hP : Retries P g)
    (hallowed : P.allowed g (.putInode key value))
    (hfail : P.advance g (.putInode key value) (.error .connectionClosed) = g) (rounds : Nat) :
    (nss rounds (perform (Op.putInode key value))).run.Follows P
      (Moves P g (.putInode key value) fun ans => ans.mapError RpcError.toS3Error) g := by
  refine follows_nss hP ?_ rounds
  exact ⟨hallowed, fun ans hans => ⟨⟨ans, hans, rfl, rfl⟩, fun _ => eq_of_retryable hfail⟩⟩

theorem follows_deleteInode (hP : Retries P g) (hallowed : P.allowed g (.deleteInode key))
    (hfail : P.advance g (.deleteInode key) (.error .connectionClosed) = g) (rounds : Nat) :
    (nss rounds (perform (Op.deleteInode key))).run.Follows P
      (Moves P g (.deleteInode key) fun ans => ans.mapError RpcError.toS3Error) g := by
  refine follows_nss hP ?_ rounds
  exact ⟨hallowed, fun ans hans => ⟨⟨ans, hans, rfl, rfl⟩, fun _ => eq_of_retryable hfail⟩⟩

theorem follows_listRawObjects {maxParts : Nat} {keyPrefix startAfter : Bytes} (hP : Retries P g)
    (hallowed : P.allowed g (.listInodes maxParts keyPrefix startAfter))
    (hfail : P.advance g (.listInodes maxParts keyPrefix startAfter) (.error .connectionClosed) = g)
    (rounds : Nat) :
    (listRawObjects rounds maxParts keyPrefix startAfter).run.Follows P
      (Moves P g (.listInodes maxParts keyPrefix startAfter) listResult) g := by
  have hcall : (nss rounds (perform (Op.listInodes maxParts keyPrefix startAfter))).run.Follows P
      (Moves P g (.listInodes maxParts keyPrefix startAfter) fun ans => ans.mapError
        RpcError.toS3Error) g := by
    refine follows_nss hP ?_ rounds
    exact ⟨hallowed, fun ans hans => ⟨⟨ans, hans, rfl, rfl⟩, fun _ => eq_of_retryable hfail⟩⟩
  unfold listRawObjects
  refine follows_run_bind hcall ?_ ?_
  · rintro g' e ⟨ans, hans, rfl, hr⟩
    cases ans with
    | error e' =>
      cases hr
      exact ⟨_, hans, rfl, rfl⟩
    | ok resp => cases hr
  · rintro g' resp ⟨ans, hans, rfl, hr⟩
    cases ans with
    | error e => cases hr
    | ok resp' =>
      cases hr
      rw [listRawObjects_decodes]
      exact ⟨_, hans, rfl, rfl⟩

theorem follows_putBlocks (h : ∀ key body, P.allowed g (.putBlock key body)
    ∧ ∀ ans, P.advance g (.putBlock key body) ans = g) (writes :
      List (BlobKey × Bytes)) : (putBlocks writes).Follows P (fun g' _ => g' = g) g := by
  induction writes with
  | nil => rfl
  | cons write writes ih =>
    unfold putBlocks
    refine ⟨(h write.1 write.2).1, fun acked _ => ?_⟩
    rw [(h write.1 write.2).2 acked]
    show (putBlocks writes >>= fun rest => pure (acked && rest)).Follows _ _ _
    exact ih.seq fun _ _ hg => hg

theorem follows_enqueueReplaced (henqueue : ∀ object : Layout, (enqueueBlobDeletion object).Follows
    P (fun g' _ => R g') g) (hg : R g) (key : Bytes) (old : Inode) (replacement : DataBlobGuid) :
    (enqueueReplacedObjectCleanup key old replacement).run.Follows P (fun g' _ => R g') g := by
  unfold enqueueReplacedObjectCleanup
  split
  · exact hg
  · split
    · exact hg
    · split
      · exact hg
      · split
        · refine follows_lift_bind (henqueue _) fun g' r hg' => ?_
          cases r with
          | error | ok => exact hg'
        · exact hg

theorem follows_put {upload : Upload}
    (hblocks : ∀ g k body, R g → P.allowed g (.putBlock k body)
    ∧ ∀ ans, P.advance g (.putBlock k body) ans = g) (hcommit : ∀ g, R g → Retries P g
      ∧ P.allowed g (.putInode key (.layout upload.stored))
      ∧ P.advance g (.putInode key (.layout upload.stored)) (.error .connectionClosed) = g
      ∧ ∀ ans, R (P.advance g (.putInode key (.layout upload.stored)) ans))
    (henqueue : ∀ g object, R g → (enqueueBlobDeletion object).Follows P (fun g' _ => R g') g)
      (hg : R g) (rounds : Nat) :
    (putObject rounds key upload).run.Follows P (fun g' _ => R g') g := by
  unfold putObject
  refine follows_orFail_bind (fun _ _ => hg) fun _ _ => ?_
  refine follows_lift_bind (follows_putBlocks (fun k body => hblocks g k body hg) upload.writes) ?_
  rintro _ acked rfl
  split
  · exact hg
  · obtain ⟨hretries, hallowed, hfail, hmove⟩ := hcommit _ hg
    unfold commitObject
    refine follows_run_bind (follows_putInode hretries hallowed hfail rounds) ?_ ?_
    · rintro _ e ⟨ans, -, rfl, -⟩
      exact hmove ans
    · rintro _ resp ⟨ans, -, rfl, -⟩
      refine follows_orFail_bind (fun _ _ => hmove ans) fun old _ => ?_
      exact follows_enqueueReplaced (fun object => henqueue _ object (hmove ans)) (hmove ans) key
        old _

/-! ## §2. Protocols without phases -/

section

variable {β : Type} {P : Protocol Op Ans Unit} {Q : α → Prop} {x : Handler α}

/-- The handler makes only calls that are allowed, and what it answers meets `Q`. -/
def Obeys (P : Protocol Op Ans Unit) (Q : α → Prop) (x : Handler α) : Prop :=
  x.run.Follows P (fun _ r => ∀ a, r = .ok a → Q a) ()

theorem Obeys.bind {R : β → Prop} {f : α → Handler β} (hx : Obeys P Q x)
    (hf : ∀ a, Q a → Obeys P R (f a)) :
    Obeys P R (x >>= f) :=
  follows_run_bind hx (fun _ _ _ => nofun) fun _ a ha => hf a (ha a rfl)

theorem obeys_pure {a : α} (h : Q a) : Obeys P Q (pure a : Handler α) :=
  fun _ ha => by
    cases ha
    exact h

theorem obeys_throw (e : S3Error) : Obeys P Q (throw e : Handler α) := fun _ ha => by cases ha

theorem obeys_orFail {ε : Type} (toS3Error : ε → S3Error) {r : Except ε α}
    (h : ∀ a, r = .ok a → Q a) :
    Obeys P Q (orFail toS3Error r) := by
  intro a ha
  cases r with
  | error e => cases ha
  | ok b =>
    cases ha
    exact h _ rfl

theorem obeys_orFail_bind {ε : Type} {toS3Error : ε → S3Error} {r : Except ε β} {f : β → Handler α}
    (hf : ∀ b, Obeys P Q (f b)) : Obeys P Q (orFail toS3Error r >>= f) :=
  (obeys_orFail _ fun _ _ => trivial).bind fun b _ => hf b

theorem obeys_lift {p : Call α} (h : p.Follows P (fun _ a => Q a) ()) :
    Obeys P Q (ExceptT.lift p : Handler α) := by
  refine h.seq fun _ a ha => ?_
  intro b hb
  cases hb
  exact ha

theorem Obeys.follows (h : Obeys P Q x) : x.run.Follows P (fun _ _ => True) () :=
  Prog.Follows.mono h fun _ _ _ => trivial

theorem obeys_of_follows (h : x.run.Follows P (fun _ _ => True) ()) : Obeys P (fun _ => True) x :=
  h.mono fun _ _ _ _ _ => trivial

theorem obeys_getBlobClient (h : P.allowed () .getBlobClient) :
    Obeys P (fun _ => True) (ExceptT.lift (perform Op.getBlobClient) : Handler Bool) :=
  obeys_lift ⟨h, fun _ _ => trivial⟩

theorem obeys_getInode (hP : Retries P ()) (hallowed : P.allowed () (.getInode key))
    (rounds : Nat) :
    Obeys P (fun resp => P.possible (.getInode key) (.ok resp))
      (nss rounds (perform (Op.getInode key))) := by
  refine (follows_getInode hP hallowed rfl rounds).mono ?_
  rintro _ r ⟨ans, hans, -, rfl⟩ resp hresp
  cases ans with
  | error e => cases hresp
  | ok resp' =>
    cases hresp
    exact hans

theorem obeys_getRawObject (hP : Retries P ()) (hallowed : P.allowed () (.getInode key))
    (rounds : Nat) :
    Obeys P (fun layout => P.possible (.getInode key) (.ok (.ok (.layout layout))))
      (getRawObject rounds key) := by
  unfold getRawObject
  refine (obeys_getInode hP hallowed rounds).bind fun resp hresp =>
    obeys_orFail _ fun layout hlayout => ?_
  cases resp with
  | ok value =>
    cases value with
    | layout object =>
      cases hlayout
      exact hresp
    | raw bytes =>
      unfold parseGetInode at hlayout
      cases hlayout
  | errNotFound | errNoSuchRootBlob | errOther => cases hlayout

end

/-! ## §3. Cleaning up parts -/

/-- Obeys the phases `R`, the protocol allows to list what is under `keyPrefix`, to delete the
    inodes `Del` and to enqueue the blobs `Blob`, and what is listed is of these. -/
structure Cleans (P : Protocol Op Ans γ) (R : γ → Prop) (keyPrefix : Bytes) (Del : Bytes → Prop)
    (Blob : DataBlobGuid → Prop) : Prop where
  retries : ∀ g, R g → Retries P g
  client : ∀ g, R g → P.allowed g .getBlobClient ∧ ∀ ans, R (P.advance g .getBlobClient ans)
  send : ∀ g request, R g → Blob request.blobGuid →
    P.allowed g (.sendDeletion request) ∧ ∀ ans, R (P.advance g (.sendDeletion request) ans)
  delete : ∀ g k, R g → Del k → P.allowed g (.deleteInode k)
    ∧ P.advance g (.deleteInode k) (.error .connectionClosed) = g
      ∧ ∀ ans, R (P.advance g (.deleteInode k) ans)
  list : ∀ g maxKeys under startAfter, R g → keyPrefix <+: under →
    P.allowed g (.listInodes maxKeys under startAfter)
    ∧ P.advance g (.listInodes maxKeys under startAfter) (.error .connectionClosed) = g
    ∧ (∀ ans, R (P.advance g (.listInodes maxKeys under startAfter) ans))
    ∧ ∀ inodes more, P.possible (.listInodes maxKeys under startAfter) (.ok (.ok inodes more)) →
      ∀ e ∈ inodes, Del (trimEndMatches 0 e.1) ∧ ∀ guid, e.2.blob = some guid → Blob guid

namespace Cleans

variable {keyPrefix : Bytes} {Del : Bytes → Prop} {Blob : DataBlobGuid → Prop}

variable (h : Cleans P R keyPrefix Del Blob)

include h

theorem listRawObjects (hg : R g) {under : Bytes} (hunder : keyPrefix <+: under)
    (rounds maxKeys : Nat) (startAfter : Bytes) :
    (listRawObjects rounds maxKeys under startAfter).run.Follows P
      (fun g' r => R g' ∧ ∀ mpus, r = .ok mpus →
        ∀ part ∈ mpus, Del part.1 ∧ ∀ guid, part.2.blobGuid = .ok guid → Blob guid) g := by
  obtain ⟨hallowed, hfail, hstay, hlisted⟩ := h.list g maxKeys under startAfter hg hunder
  refine (follows_listRawObjects (h.retries g hg) hallowed hfail rounds).mono ?_
  rintro g' r ⟨ans, hans, rfl, rfl⟩
  refine ⟨hstay ans, fun mpus hmpus part hpart => ?_⟩
  obtain ⟨inodes, more, rfl, hraw⟩ := page_of_listResult hmpus
  obtain ⟨k, hk, htrim⟩ := mem_of_rawObjects hraw hpart
  obtain ⟨hdel, hblob⟩ := hlisted inodes more hans _ hk
  refine ⟨by rw [htrim]; exact hdel, fun guid hguid => hblob guid ?_⟩
  show part.2.blobGuid.toOption = some guid
  rw [hguid]
  rfl

theorem enqueueBlobDeletion (hg : R g) {object : Layout}
    (hobject : ∀ guid, object.blobGuid = .ok guid → Blob guid) :
    (enqueueBlobDeletion object).Follows P (fun g' _ => R g') g := by
  unfold Objects.enqueueBlobDeletion
  cases hguid : object.blobGuid with
  | error e =>
    rw [newBlobDeletionRequest_error hguid]
    exact hg
  | ok guid =>
    rw [newBlobDeletionRequest_ok hguid]
    obtain ⟨hclient, hstay⟩ := h.client g hg
    refine ⟨hclient, fun client _ => ?_⟩
    have hg' := hstay client
    show (if client = true then _ else _ : Call _).Follows _ _ _
    split
    · obtain ⟨hsend, hsent⟩ := h.send _ ⟨guid, guid.location, object.mayHaveOvrRecords⟩ hg'
        (hobject guid hguid)
      exact ⟨hsend, fun sent _ => hsent sent⟩
    · exact hg'

theorem enqueue (hg : R g) {object : Layout}
    (hobject : ∀ guid, object.blobGuid = .ok guid → Blob guid) :
    (enqueue object).run.Follows P (fun g' _ => R g') g := by
  unfold Objects.enqueue
  exact follows_lift_bind (h.enqueueBlobDeletion hg hobject) fun g' r hg' => hg'

theorem deletePartsBestEffort (hg : R g) (rounds : Nat) {mpus : List (Bytes × Layout)}
    (hmpus : ∀ part ∈ mpus, Del part.1 ∧ ∀ guid, part.2.blobGuid = .ok guid → Blob guid) :
    (deletePartsBestEffort rounds mpus).Follows P (fun g' _ => R g') g := by
  induction mpus generalizing g with
  | nil => exact hg
  | cons part mpus ih =>
    obtain ⟨k, object⟩ := part
    obtain ⟨hk, hobject⟩ := hmpus (k, object) List.mem_cons_self
    obtain ⟨hallowed, hfail, hstay⟩ := h.delete g k hg hk
    have hdelete : (nssRpcRetry rounds (perform (Op.deleteInode k))).Follows P
        (fun g' r => R g' ∧ ∀ e, r = .error e → e.retryable = true → g' = g) g := by
      refine follows_nssRpcRetry (h.retries g hg) ?_ (fun g' e hg' => hg'.2 e rfl) rounds
      exact ⟨hallowed, fun ans _ => ⟨hstay ans, fun _ => eq_of_retryable hfail⟩⟩
    unfold Objects.deletePartsBestEffort
    refine (hdelete.mono fun g₁ _ hg₁ => ?_).bind
    refine ((h.enqueueBlobDeletion hg₁.1 hobject).mono fun g₂ _ hg₂ => ?_).bind
    exact ih hg₂ fun part hpart => hmpus part (List.mem_cons_of_mem _ hpart)

theorem deleteParts (hg : R g) (rounds : Nat) {mpus : List (Bytes × Layout)}
    (hmpus : ∀ part ∈ mpus, Del part.1 ∧ ∀ guid, part.2.blobGuid = .ok guid → Blob guid) :
    (deleteParts rounds mpus).run.Follows P (fun g' _ => R g') g := by
  induction mpus generalizing g with
  | nil => exact hg
  | cons part mpus ih =>
    obtain ⟨k, object⟩ := part
    obtain ⟨hk, hobject⟩ := hmpus (k, object) List.mem_cons_self
    obtain ⟨hallowed, hfail, hstay⟩ := h.delete g k hg hk
    have hdelete : (nss rounds (perform (Op.deleteInode k))).run.Follows P (fun g' _ => R g')
      g := by
      refine (follows_deleteInode (h.retries g hg) hallowed hfail rounds).mono ?_
      rintro g' r ⟨ans, -, rfl, -⟩
      exact hstay ans
    unfold Objects.deleteParts
    refine follows_run_bind hdelete (fun g₁ e hg₁ => hg₁) fun g₁ _ hg₁ => ?_
    refine follows_run_bind (h.enqueue hg₁ hobject) (fun g₂ e hg₂ => hg₂) fun g₂ _ hg₂ => ?_
    exact ih hg₂ fun part hpart => hmpus part (List.mem_cons_of_mem _ hpart)

variable {key : Bytes}

omit h in
theorem cleanUpOrphanedParts (h : Cleans P R (mpuGetUploadsPrefix key) Del Blob) (hg : R g)
    (rounds : Nat) :
    (cleanUpOrphanedParts rounds key).Follows P (fun g' _ => R g') g := by
  unfold Objects.cleanUpOrphanedParts
  refine ((h.listRawObjects hg (List.prefix_refl _) rounds 10000 []).mono ?_).bind
  rintro g' r ⟨hg', hparts⟩
  cases r with
  | error e => exact hg'
  | ok mpus => exact h.deletePartsBestEffort hg' rounds (hparts mpus rfl)

omit h in
theorem deleteCompletedParts (h : Cleans P R (mpuGetUploadsPrefix key) Del Blob) (hg : R g)
    (rounds : Nat) (uploadId : Uuid) : (deleteCompletedParts rounds key uploadId).run.Follows P
    (fun g' _ => R g') g := by
  unfold Objects.deleteCompletedParts
  refine follows_run_bind (h.listRawObjects hg (uploadsPrefix_partPrefix key uploadId 0) rounds
    10000 []) (fun g' e hg' => hg'.1) ?_
  rintro g' mpus ⟨hg', hparts⟩
  exact h.deleteParts hg' rounds (hparts mpus rfl)

omit h in
theorem cleanUpRemoved (h : Cleans P R (mpuGetUploadsPrefix key) Del Blob) (hg : R g) (rounds : Nat)
    {old : Option Inode} (hold : ∀ guid, old.bind Inode.blob = some guid → Blob guid) :
    (cleanUpRemoved rounds key old).run.Follows P (fun g' _ => R g') g := by
  unfold Objects.cleanUpRemoved
  cases old with
  | none =>
    exact ((h.cleanUpOrphanedParts hg rounds).mono fun g' _ hg' => hg').bind
  | some value =>
    cases value with
    | raw bytes =>
      dsimp only
      split
      · exact hg
      · exact hg
    | layout object =>
      show (cleanUpDeleted rounds key object).run.Follows _ _ _
      unfold Objects.cleanUpDeleted
      cases hstate : object.state with
      | normal guid core =>
        refine h.enqueue hg fun guid' hguid => hold guid' ?_
        show object.blobGuid.toOption = some guid'
        rw [hguid]
        rfl
      | mpu state =>
        cases state with
        | uploading => exact hg
        | completed core => exact h.deleteCompletedParts hg rounds object.versionId
      | _ => exact hg

end Cleans

end FractalBits.Objects
