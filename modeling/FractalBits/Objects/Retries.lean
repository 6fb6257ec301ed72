/-
  Objects.Retries — PUT and DELETE requests on one key, side by side, when calls are sent again.

  What a request cleans up is what the reply to its last attempt says it replaced or removed.
-/

import FractalBits.Objects.Cleaning
import FractalBits.Objects.PutCleanup

namespace FractalBits.Objects

open Lib Streaming Gateway List Function
open OvrMap (Uuid)

/-! ## §1. Requests and their runs -/

inductive Request
  | put (upload : Upload)
  | delete

def Request.program (rounds : Nat) (key : Bytes) : Request → Call (Except S3Error Unit)
  | .put upload => (putObject rounds key upload).run
  | .delete => (deleteObjectByKey rounds key).run

def requestPool (rounds : Nat) (key : Bytes) (requests : Nat → Request) (s : Site) :
    Pool Op Ans (Except S3Error Unit) Site Nat where
  state := s
  left i := (requests i).program rounds key

def isAttempt (key : Bytes) : Op → Bool
  | .putInode k _ | .deleteInode k => k = key
  | _ => false

def firstApplied (key : Bytes) (trace : Trace) (i : Nat) : Option (Option Inode) :=
  (trace.find? fun e => e.who = i ∧ isAttempt key e.op ∧ e.choice.applied).map fun e =>
    e.before.inodes[key]?

def Site.HasEnqueued (s : Site) (guid : DataBlobGuid) : Prop := ∃ request ∈ s.queue,
    request.blobGuid = guid

/-- The blob that a successful request removed is enqueued exactly when the stored inode does not
    name it, and the blob that it names is not. -/
structure NoLeak (key : Bytes) (trace : Trace)
    (c : Pool Op Ans (Except S3Error Unit) Site Nat) : Prop where
  settled : ∀ i old guid, c.left i = .done (.ok ()) → firstApplied key trace i = some (some old) →
    old.blob = some guid → (c.state.HasEnqueued guid ↔ ¬ c.state.Names key guid)
  current : ∀ guid, c.state.Names key guid → ¬ c.state.HasEnqueued guid

/-- Each PUT has a blob of its own, which is nowhere yet; the stored object's blob is its own and
    not enqueued. -/
structure FreshBlobs (key : Bytes) (requests : Nat → Request) (s : Site) : Prop where
  distinct : ∀ i j u v, requests i = .put u → requests j = .put v →
    u.layout.blobGuid = v.layout.blobGuid → i = j
  unused : ∀ i u, requests i = .put u → ¬ s.HasEnqueued u.layout.blobGuid
    ∧ ∀ k, ¬ s.Names k u.layout.blobGuid
  owned : ∀ guid, s.Names key guid → ¬ s.HasEnqueued guid ∧ ∀ k, k ≠ key → ¬ s.Names k guid

/-! ## §2. Phases -/

inductive Phase
  | before
  /-- it removed a value; with a blob, it owes its deletion -/
  | removed (owed : Option DataBlobGuid)
  | sent (guid : DataBlobGuid)
  | failed

def Phase.Owes : Phase → DataBlobGuid → Prop
  | .removed owed, guid => owed = some guid
  | .sent guid', guid => guid' = guid
  | _, _ => False

section

variable (key : Bytes) (Kept : DataBlobGuid → Prop)

def Phase.Allows (request : Request) : Phase → Op → Prop
  | .before, .putInode k value =>
    k = key ∧ ∃ upload, request = .put upload ∧ value = .layout upload.stored
  | .before, .deleteInode k => k = key ∧ request = .delete
  | .before, .putBlock _ _ => True
  | .removed _, .deleteInode k => k ≠ key
  | .removed _, .listInodes _ keyPrefix _ => mpuGetUploadsPrefix key <+: keyPrefix
  | .removed owed, .sendDeletion request =>
    owed = some request.blobGuid ∨ owed = none ∧ ¬ Kept request.blobGuid
  | .before, .getBlobClient | .removed _, .getBlobClient => True
  | .before, .failoverExpired | .removed _, .failoverExpired => True
  | .before, .refreshNssAddress | .removed _, .refreshNssAddress => True
  | _, _ => False

def Phase.next : Phase → (op : Op) → Ans op → Phase
  | .before, .putInode _ _, .ok (.ok old) => .removed old.blob
  | .before, .putInode _ _, .error .decodeError => .failed
  | .before, .deleteInode _, .ok (.ok old) => .removed old.blob
  | .before, .deleteInode _, .ok .errNotFound | .before, .deleteInode _, .ok .errAlreadyDeleted =>
    .removed none
  | .before, .deleteInode _, .error .decodeError => .failed
  | .removed owed, .sendDeletion request, ans =>
    if owed = some request.blobGuid then (if ans = true then .sent request.blobGuid else .failed)
      else .removed owed
  | phase, _, _ => phase

/-- Answers there can be: replaced values have another blob than the new one, parts none that
    belongs to the key. -/
def Possible : (op : Op) → Ans op → Prop
  | .putInode _ value, .ok (.ok old) => old.blob = none ∨ old.blob ≠ value.blob
  | .listInodes _ keyPrefix _, .ok (.ok inodes _) => mpuGetUploadsPrefix key <+: keyPrefix →
      ∀ e ∈ inodes, mpuGetUploadsPrefix key <+: e.1 ∧ ∀ guid, e.2.blob = some guid → ¬ Kept guid
  | _, _ => True

def cleanupProtocol (request : Request) : Protocol Op Ans Phase where
  possible := Possible key Kept
  allowed := Phase.Allows key Kept request
  advance := Phase.next

def Phase.Ends : Phase → Except S3Error Unit → Prop
  | .before, r => r ≠ .ok ()
  | .removed owed, r => r = .ok () → owed = none
  | .sent _, _ => True
  | .failed, r => r ≠ .ok ()

end

/-! ## §3. The handlers keep to their phases -/

section

variable {key : Bytes} {Kept : DataBlobGuid → Prop} {request : Request}

theorem retries_before : Retries (cleanupProtocol key Kept request) .before :=
  ⟨⟨trivial, fun _ => rfl⟩, ⟨trivial, fun _ => rfl⟩⟩

theorem retries_removed (owed : Option DataBlobGuid) :
    Retries (cleanupProtocol key Kept request) (.removed owed) :=
  ⟨⟨trivial, fun _ => rfl⟩, ⟨trivial, fun _ => rfl⟩⟩

theorem follows_enqueue_owed {object : Layout} {guid : DataBlobGuid}
    (hguid : object.blobGuid = .ok guid) :
    (enqueueBlobDeletion object).Follows (cleanupProtocol key Kept request)
      (fun g r => (r = .ok () ∧ g = .sent guid)
        ∨ ((∃ e, r = .error e) ∧ (g = .removed (some guid) ∨ g = .failed)))
      (.removed (some guid)) := by
  unfold enqueueBlobDeletion
  rw [newBlobDeletionRequest_ok hguid]
  refine ⟨trivial, fun client _ => ?_⟩
  show (if client = true then _ else _ : Call _).Follows _ _ (Phase.removed (some guid))
  split
  · refine ⟨.inl rfl, fun sent _ => ?_⟩
    have hnext :
      Phase.next (.removed (some guid))
        (.sendDeletion ⟨guid, guid.location, object.mayHaveOvrRecords⟩) sent = if sent = true
          then .sent guid else .failed := if_pos rfl
    show _ ∨ _
    rw [show (cleanupProtocol key Kept request).advance = Phase.next from rfl, hnext]
    cases sent with
    | true => exact .inl ⟨rfl, rfl⟩
    | false => exact .inr ⟨⟨_, rfl⟩, .inr rfl⟩
  · exact .inr ⟨⟨_, rfl⟩, .inl rfl⟩

theorem follows_cleanup (hhash : (35 : UInt8) ∉ key) {old : Inode} {replacement : DataBlobGuid}
    (hold : old.blob = none ∨ old.blob ≠ some replacement) :
    (enqueueReplacedObjectCleanup key old replacement).run.Follows
      (cleanupProtocol key Kept request) Phase.Ends (.removed old.blob) := by
  cases old with
  | raw bytes =>
    unfold enqueueReplacedObjectCleanup
    split
    · exact fun _ => rfl
    · exact nofun
  | layout object =>
    rw [cleanup_of_layout hhash]
    cases hguid : object.blobGuid with
    | error e => exact nofun
    | ok guid =>
      have hblob : (Inode.layout object).blob = some guid := by
        show object.blobGuid.toOption = some guid
        rw [hguid]
        rfl
      rw [hblob] at hold ⊢
      have hne : guid ≠ replacement := by
        intro heq
        rcases hold with hnone | hne
        · cases hnone
        · exact hne (by rw [heq])
      dsimp only
      rw [if_pos hne]
      refine follows_lift_bind (follows_enqueue_owed hguid) ?_
      rintro g r (⟨rfl, rfl⟩ | ⟨⟨e, rfl⟩, rfl | rfl⟩)
      · trivial
      · exact nofun
      · exact nofun

theorem follows_putObject (hhash : (35 : UInt8) ∉ key) (rounds : Nat) (upload : Upload) :
    (putObject rounds key upload).run.Follows (cleanupProtocol key Kept (.put upload)) Phase.Ends
      .before := by
  have hput : (nss rounds (perform (Op.putInode key (.layout upload.stored)))).run.Follows
      (cleanupProtocol key Kept (.put upload))
      (fun g r => (∃ old, r = .ok (.ok old) ∧ g = .removed old.blob
          ∧ (old.blob = none ∨ old.blob ≠ some upload.layout.blobGuid))
        ∨ ((∀ old, r ≠ .ok (.ok old)) ∧ (g = .before ∨ g = .failed))) .before := by
    refine (follows_putInode retries_before ⟨rfl, upload, rfl, rfl⟩ rfl rounds).mono ?_
    rintro g r ⟨ans, hans, rfl, rfl⟩
    cases ans with
    | error e =>
      refine .inr ⟨fun old h => (by cases h), ?_⟩
      cases e with
      | connectionClosed => exact .inl rfl
      | decodeError => exact .inr rfl
    | ok resp =>
      cases resp with
      | ok old => exact .inl ⟨old, rfl, rfl, hans⟩
      | errNoSuchRootBlob | errOther => exact .inr ⟨nofun, .inl rfl⟩
  have hreject : (orFail id (rejectTrailingSlashKey key)).run.Follows
      (cleanupProtocol key Kept (.put upload)) (fun g _ => g = Phase.before) .before := rfl
  unfold putObject
  refine follows_run_bind hreject ?_ ?_
  · rintro g e rfl
    exact nofun
  rintro g _ rfl
  refine follows_lift_bind (follows_putBlocks (fun _ _ => ⟨trivial, fun _ => rfl⟩) upload.writes) ?_
  rintro g acked rfl
  split
  · exact nofun
  unfold commitObject
  refine follows_run_bind hput ?_ ?_
  · rintro g e (⟨old, h, -⟩ | ⟨-, rfl | rfl⟩)
    · cases h
    · exact nofun
    · exact nofun
  rintro g resp (⟨old, h, rfl, hold⟩ | ⟨hresp, hg⟩)
  · cases h
    exact follows_cleanup hhash hold
  · cases resp with
    | ok old => exact absurd rfl (hresp old)
    | errNoSuchRootBlob | errOther =>
      rcases hg with rfl | rfl
      · exact nofun
      · exact nofun

theorem ne_of_uploadsPrefix {k : Bytes} (h : mpuGetUploadsPrefix key <+: k) :
    trimEndMatches 0 k ≠ key := by
  obtain ⟨t, rfl⟩ := h
  have hkey : mpuGetUploadsPrefix key ++ t = key ++ 35 :: t := by
    unfold mpuGetUploadsPrefix
    rw [append_assoc]
    rfl
  obtain ⟨u, hu⟩ := trimEndMatches_append_cons (by decide : (35 : UInt8) ≠ 0) key t
  rw [hkey, hu]
  intro heq
  have hlength := congrArg List.length heq
  simp only [length_append, length_cons] at hlength
  omega

theorem cleans_removed : Cleans (cleanupProtocol key Kept request) (fun g => g = .removed none)
    (mpuGetUploadsPrefix key) (fun k => k ≠ key) (fun guid => ¬ Kept guid) where
  retries g hg := by
    rw [hg]
    exact retries_removed none
  client g hg := by
    rw [hg]
    exact ⟨trivial, fun _ => rfl⟩
  send g deletion hg hblob := by
    rw [hg]
    exact ⟨.inr ⟨rfl, hblob⟩, fun _ => rfl⟩
  delete g k hg hk := by
    rw [hg]
    exact ⟨hk, rfl, fun _ => rfl⟩
  list g maxKeys under startAfter hg hunder := by
    rw [hg]
    refine ⟨hunder, rfl, fun _ => rfl, fun inodes more hpossible e he => ?_⟩
    obtain ⟨hkey, hblob⟩ := hpossible hunder e he
    exact ⟨ne_of_uploadsPrefix hkey, hblob⟩

theorem follows_cleanUpDeleted (rounds : Nat) (object : Layout) :
    (cleanUpDeleted rounds key object).run.Follows (cleanupProtocol key Kept request) Phase.Ends
      (.removed (Inode.layout object).blob) := by
  have hblob : (Inode.layout object).blob = object.blobGuid.toOption := rfl
  unfold cleanUpDeleted
  rw [hblob]
  cases hstate : object.state with
  | normal guid core =>
    have hguid : object.blobGuid = .ok guid := by
      unfold Layout.blobGuid
      rw [hstate]
    rw [hguid]
    unfold enqueue
    refine follows_lift_bind (follows_enqueue_owed hguid) ?_
    rintro g r (⟨rfl, rfl⟩ | ⟨⟨e, rfl⟩, rfl | rfl⟩)
    · trivial
    · exact nofun
    · exact nofun
  | mpu state =>
    have hguid : object.blobGuid = .error .invalidState := by
      unfold Layout.blobGuid
      rw [hstate]
    rw [hguid]
    cases state with
    | uploading => exact nofun
    | completed core =>
      refine (cleans_removed.deleteCompletedParts rfl rounds object.versionId).mono ?_
      rintro g r rfl
      exact fun _ => rfl
  | _ =>
    have hguid : object.blobGuid = .error .invalidState := by
      unfold Layout.blobGuid
      rw [hstate]
    rw [hguid]
    exact fun _ => rfl

theorem follows_deleteObjectByKey (rounds : Nat) :
    (deleteObjectByKey rounds key).run.Follows (cleanupProtocol key Kept .delete) Phase.Ends
      .before := by
  have hdelete : (nss rounds (perform (Op.deleteInode key))).run.Follows
      (cleanupProtocol key Kept .delete)
        (fun g r => (∃ old, r = .ok (.ok old) ∧ g = .removed old.blob)
        ∨ ((r = .ok .errNotFound ∨ r = .ok .errAlreadyDeleted) ∧ g = .removed none)
        ∨ ((∀ resp old, r = .ok resp → parseDeleteInode resp ≠ .ok old)
          ∧ (g = .before ∨ g = .failed))) .before := by
    refine (follows_deleteInode retries_before ⟨rfl, rfl⟩ rfl rounds).mono ?_
    rintro g r ⟨ans, hans, rfl, rfl⟩
    cases ans with
    | error e =>
      refine .inr (.inr ⟨fun resp old h => (by cases h), ?_⟩)
      cases e with
      | connectionClosed => exact .inl rfl
      | decodeError => exact .inr rfl
    | ok resp =>
      cases resp with
      | ok old => exact .inl ⟨old, rfl, rfl⟩
      | errNotFound => exact .inr (.inl ⟨.inl rfl, rfl⟩)
      | errAlreadyDeleted => exact .inr (.inl ⟨.inr rfl, rfl⟩)
      | errNoSuchRootBlob | errOther =>
        refine .inr (.inr ⟨?_, .inl rfl⟩)
        rintro resp old h
        cases h
        exact nofun
  have hgone : (cleanUpRemoved rounds key none).run.Follows (cleanupProtocol key Kept .delete)
      Phase.Ends (.removed none) := by
    refine ((cleans_removed.cleanUpOrphanedParts rfl rounds).mono ?_).bind
    rintro g _ rfl
    exact fun _ => rfl
  unfold deleteObjectByKey
  refine ⟨trivial, fun client _ => ?_⟩
  cases client with
  | false => exact nofun
  | true =>
    refine follows_run_bind hdelete ?_ ?_
    · rintro g e (⟨old, h, -⟩ | ⟨h | h, -⟩ | ⟨-, rfl | rfl⟩)
      · cases h
      · cases h
      · cases h
      · exact nofun
      · exact nofun
    rintro g resp (⟨old, h, rfl⟩ | ⟨h | h, rfl⟩ | ⟨hresp, hg⟩)
    · cases h
      show (cleanUpRemoved rounds key (some old)).run.Follows _ _ _
      unfold cleanUpRemoved
      cases old with
      | layout object => exact follows_cleanUpDeleted rounds object
      | raw bytes =>
        dsimp only
        split
        · exact fun _ => rfl
        · exact nofun
    · cases h
      exact hgone
    · cases h
      exact hgone
    · cases resp with
      | ok old => exact absurd rfl (hresp _ _ rfl)
      | errNotFound | errAlreadyDeleted => exact absurd rfl (hresp _ _ rfl)
      | errNoSuchRootBlob | errOther =>
        rcases hg with rfl | rfl
        · exact nofun
        · exact nofun

end

/-! ## §4. Who owes what -/

def Phase.First : Phase → Option (Option Inode) → Prop
  | .before, first => first = none
  | .removed owed, first => ∃ value, first = some value ∧ value.bind Inode.blob = owed
  | .sent guid, first => ∃ value, first = some value ∧ value.bind Inode.blob = some guid
  | .failed, _ => True

def Free (s : Site) (phases : Nat → Phase) (guid : DataBlobGuid) : Prop :=
  ¬ s.HasEnqueued guid ∧ ∀ i, ¬ (phases i).Owes guid

/-- The invariant. The blob that the key names is free, and so are the blobs of the PUTs to come; no
    other key names a blob of this one. -/
structure Cleanup (key : Bytes) (Kept : DataBlobGuid → Prop) (requests : Nat → Request)
    (trace : Trace) (s : Site) (phases : Nat → Phase) : Prop where
  kept : ∀ i upload, requests i = .put upload → Kept upload.layout.blobGuid
  distinct : ∀ i j u v, requests i = .put u → requests j = .put v →
    u.layout.blobGuid = v.layout.blobGuid → i = j
  named : ∀ guid, s.Names key guid → Kept guid ∧ Free s phases guid
  others : ∀ k guid, k ≠ key → s.Names k guid → ¬ Kept guid
  pending : ∀ i upload, requests i = .put upload → phases i = .before →
    ¬ s.Names key upload.layout.blobGuid ∧ Free s phases upload.layout.blobGuid
  sent : ∀ i guid, phases i = .sent guid → s.HasEnqueued guid
  first : ∀ i, (phases i).First (firstApplied key trace i)

/-! ### §4.1 What is seen of the first attempt -/

section

variable {key : Bytes} {trace : Trace} {i j : Nat} {op : Op} {ch : Delivery} {s : Site}

theorem firstApplied_append_of_ne (h : i ≠ j) :
    firstApplied key (trace ++ [⟨i, op, ch, s⟩]) j = firstApplied key trace j := by
  unfold firstApplied
  rw [List.find?_append, List.find?_singleton, if_neg (by simp [h]), Option.or_none]

theorem firstApplied_append_of_not (h : ¬ (isAttempt key op ∧ ch.applied)) :
    firstApplied key (trace ++ [⟨i, op, ch, s⟩]) j = firstApplied key trace j := by
  unfold firstApplied
  rw [List.find?_append, List.find?_singleton, if_neg (by simpa using fun _ => not_and.mp h),
    Option.or_none]

theorem firstApplied_append (hnone : firstApplied key trace i = none) (hop : isAttempt key op)
    (hch : ch.applied) :
    firstApplied key (trace ++ [⟨i, op, ch, s⟩]) i = some s.inodes[key]? := by
  unfold firstApplied at hnone ⊢
  rw [Option.map_eq_none_iff] at hnone
  rw [List.find?_append, hnone, List.find?_singleton, if_pos (by simp [hop, hch])]
  rfl

end

/-! ### §4.2 Steps -/

section

variable {key : Bytes} {Kept : DataBlobGuid → Prop} {requests : Nat → Request} {trace : Trace}
  {s s' : Site} {phases : Nat → Phase} {i : Nat} {op : Op} {ch : Delivery} {phase' : Phase}

theorem Free.update {guid : DataBlobGuid} (h : Free s phases guid) (hqueue : ¬ s'.HasEnqueued guid)
    (howes : ¬ phase'.Owes guid) : Free s' (update phases i phase') guid := by
  refine ⟨hqueue, fun j => ?_⟩
  by_cases hj : j = i
  · rw [hj, update_self]
    exact howes
  · rw [update_of_ne hj]
    exact h.2 j

section

variable (h : Cleanup key Kept requests trace s phases)

include h

theorem Cleanup.keeps (hkey : ∀ guid, s'.Names key guid → s.Names key guid)
    (hothers : ∀ k guid, k ≠ key → s'.Names k guid → s.Names k guid)
    (hqueue : ∀ guid, Kept guid → Free s phases guid → ¬ s'.HasEnqueued guid)
    (hgrows : ∀ guid, s.HasEnqueued guid → s'.HasEnqueued guid)
    (howes : ∀ guid, phase'.Owes guid → (phases i).Owes guid)
    (hbefore : phase' = .before → phases i = .before)
    (hsent : ∀ guid, phase' = .sent guid → s'.HasEnqueued guid)
    (hfirst : phase'.First (firstApplied key trace i))
    (hevent : ¬ (isAttempt key op ∧ ch.applied)) :
    Cleanup key Kept requests (trace ++ [⟨i, op, ch, s⟩]) s' (update phases i phase') where
  kept := h.kept
  distinct := h.distinct
  named guid hguid := by
    obtain ⟨hkept, hfree⟩ := h.named guid (hkey guid hguid)
    exact ⟨hkept, hfree.update (hqueue guid hkept hfree) fun howed => hfree.2 i (howes guid howed)⟩
  others k guid hk hguid := h.others k guid hk (hothers k guid hk hguid)
  pending j upload hj hphase := by
    have hphase' : phases j = .before := by
      by_cases hji : j = i
      · subst hji
        rw [update_self] at hphase
        exact hbefore hphase
      · rwa [update_of_ne hji] at hphase
    obtain ⟨hnames, hfree⟩ := h.pending j upload hj hphase'
    exact ⟨fun hguid => hnames (hkey _ hguid),
      hfree.update (hqueue _ (h.kept j upload hj) hfree) fun howed => hfree.2 i (howes _ howed)⟩
  sent j guid hphase := by
    by_cases hji : j = i
    · subst hji
      rw [update_self] at hphase
      exact hsent guid hphase
    · rw [update_of_ne hji] at hphase
      exact hgrows guid (h.sent j guid hphase)
  first j := by
    rw [firstApplied_append_of_not hevent]
    by_cases hji : j = i
    · rw [hji, update_self]
      exact hfirst
    · rw [update_of_ne hji]
      exact h.first j

theorem Cleanup.quiet
    (hinodes : ∀ k guid, s'.Names k guid → s.Names k guid) (hqueue : s'.queue = s.queue)
    (hphase : phases i = phase') (hevent : ¬ (isAttempt key op ∧ ch.applied)) :
    Cleanup key Kept requests (trace ++ [⟨i, op, ch, s⟩]) s' (update phases i phase') := by
  subst hphase
  have henqueued : ∀ guid, s'.HasEnqueued guid ↔ s.HasEnqueued guid := by
    intro guid
    unfold Site.HasEnqueued
    rw [hqueue]
  exact h.keeps (fun guid => hinodes key guid) (fun k guid _ => hinodes k guid)
    (fun guid _ hfree henq => hfree.1 ((henqueued guid).mp henq)) (fun guid => (henqueued guid).mpr)
    (fun _ howed => howed) (fun hphase => hphase)
    (fun guid hphase => (henqueued guid).mpr (h.sent i guid hphase)) (h.first i) hevent

theorem Cleanup.swap (hqueue : s'.queue = s.queue)
    (hothers : ∀ k, k ≠ key → s'.inodes[k]? = s.inodes[k]?)
    (hphase : phases i = .before)
    (hnew : ∀ guid, s'.Names key guid → ∃ upload, requests i = .put upload
    ∧ guid = upload.layout.blobGuid) (hphase' : phase' = .removed (s.inodes[key]?.bind Inode.blob)
      ∨ phase' = .failed)
    (hop : isAttempt key op) (hch : ch.applied) :
    Cleanup key Kept requests (trace ++ [⟨i, op, ch, s⟩]) s' (update phases i phase') := by
  have henqueued : ∀ guid, s'.HasEnqueued guid ↔ s.HasEnqueued guid := by
    intro guid
    unfold Site.HasEnqueued
    rw [hqueue]
  have howes : ∀ guid, phase'.Owes guid → s.Names key guid := by
    intro guid howed
    rcases hphase' with rfl | rfl
    · exact names_iff.mpr howed
    · exact howed.elim
  have hfree : ∀ guid, ¬ s.Names key guid → Free s phases guid →
    Free s' (update phases i phase') guid :=
    fun guid hnames hfree => hfree.update (fun henq => hfree.1 ((henqueued guid).mp henq))
      fun howed => hnames (howes guid howed)
  refine ⟨h.kept, h.distinct, ?_, ?_, ?_, ?_, ?_⟩
  · intro guid hguid
    obtain ⟨upload, hupload, rfl⟩ := hnew guid hguid
    obtain ⟨hnames, hfree'⟩ := h.pending i upload hupload hphase
    exact ⟨h.kept i upload hupload, hfree _ hnames hfree'⟩
  · intro k guid hk hguid
    unfold Site.Names at hguid
    rw [hothers k hk] at hguid
    exact h.others k guid hk hguid
  · intro j upload hj hbefore
    have hji : j ≠ i := by
      intro heq
      rw [heq, update_self] at hbefore
      rcases hphase' with rfl | rfl
      · cases hbefore
      · cases hbefore
    rw [update_of_ne hji] at hbefore
    obtain ⟨hnames, hfree'⟩ := h.pending j upload hj hbefore
    refine ⟨fun hguid => ?_, hfree _ hnames hfree'⟩
    obtain ⟨upload', hupload', heq⟩ := hnew _ hguid
    exact hji (h.distinct j i upload upload' hj hupload' heq)
  · intro j guid hsent
    have hji : j ≠ i := by
      intro heq
      rw [heq, update_self] at hsent
      rcases hphase' with rfl | rfl
      · cases hsent
      · cases hsent
    rw [update_of_ne hji] at hsent
    exact (henqueued guid).mpr (h.sent j guid hsent)
  · intro j
    by_cases hji : j = i
    · subst hji
      have hnone : firstApplied key trace j = none := by
        have hfirst := h.first j
        rw [hphase] at hfirst
        exact hfirst
      rw [update_self, firstApplied_append hnone hop hch]
      rcases hphase' with rfl | rfl
      · exact ⟨_, rfl, rfl⟩
      · trivial
    · rw [update_of_ne hji, firstApplied_append_of_ne (Ne.symm hji)]
      exact h.first j

end

theorem blob_getD (value : Option Inode) : (value.getD .empty).blob = value.bind Inode.blob := by
  cases value with
  | none => rfl
  | some value => rfl

variable (cluster : Cluster)

section

variable (h : Cleanup key Kept requests trace s phases)

include h

theorem Cleanup.putInode {upload : Upload}
    (hphase : phases i = .before) (hrequest : requests i = .put upload) (hch : ch ≠ .replyLost) :
    Possible key Kept (.putInode key (.layout upload.stored))
      (cluster.serve ch (.putInode key (.layout upload.stored)) s).1
      ∧ Cleanup key Kept requests (trace ++ [⟨i, .putInode key (.layout upload.stored), ch, s⟩])
        (cluster.serve ch (.putInode key (.layout upload.stored)) s).2
        (update phases i (Phase.next .before (.putInode key (.layout upload.stored))
          (cluster.serve ch (.putInode key (.layout upload.stored)) s).1)) := by
  have hattempt : isAttempt key (.putInode key (.layout upload.stored)) = true := decide_eq_true rfl
  have hnew : ∀ guid,
    ({ s with inodes := s.inodes.insert key (.layout upload.stored) } : Site).Names key guid →
      ∃ upload, requests i = .put upload ∧ guid = upload.layout.blobGuid := by
    intro guid hguid
    rw [names_iff, Std.ExtTreeMap.getElem?_insert_self] at hguid
    exact ⟨upload, hrequest, (Option.some.inj hguid).symm⟩
  have hothers : ∀ k, k ≠ key → (s.inodes.insert key (.layout upload.stored))[k]? = s.inodes[k]? :=
    fun k hk => getElem?_insert_of_ne _ _ hk
  cases ch with
  | answered =>
    refine ⟨.inr fun heq => ?_, h.swap rfl hothers hphase hnew (.inl ?_) hattempt rfl⟩
    · rw [blob_getD] at heq
      exact (h.pending i upload hrequest hphase).1 (names_iff.mpr heq)
    · show Phase.removed (s.inodes[key]?.getD .empty).blob = _
      rw [blob_getD]
  | garbled => exact ⟨trivial, h.swap rfl hothers hphase hnew (.inr rfl) hattempt rfl⟩
  | replyLost => exact absurd rfl hch
  | dropped | refused | noRootBlob =>
    exact ⟨trivial, h.quiet (fun _ _ hguid => hguid) rfl hphase (by simp [Delivery.applied])⟩

theorem Cleanup.deleteInode
    (hphase : phases i = .before) (hch : ch ≠ .replyLost) :
    Cleanup key Kept requests (trace ++ [⟨i, .deleteInode key, ch, s⟩])
      (cluster.serve ch (.deleteInode key) s).2
        (update phases i
        (Phase.next .before (.deleteInode key) (cluster.serve ch (.deleteInode key) s).1)) := by
  have hattempt : isAttempt key (.deleteInode key) = true := decide_eq_true rfl
  have hnew : ∀ guid, ({ s with inodes := s.inodes.erase key } : Site).Names key guid →
      ∃ upload, requests i = .put upload ∧ guid = upload.layout.blobGuid := by
    intro guid hguid
    rw [names_iff, Std.ExtTreeMap.getElem?_erase_self] at hguid
    cases hguid
  have hothers : ∀ k, k ≠ key → (s.inodes.erase key)[k]? = s.inodes[k]? :=
    fun k hk => getElem?_erase_of_ne _ hk
  cases ch with
  | answered =>
    refine h.swap rfl hothers hphase hnew (.inl ?_) hattempt rfl
    show Phase.next .before (.deleteInode key) (.ok (s.deleteResponse key)) = _
    unfold Site.deleteResponse
    cases s.inodes[key]? with
    | none => rfl
    | some value => rfl
  | garbled => exact h.swap rfl hothers hphase hnew (.inr rfl) hattempt rfl
  | replyLost => exact absurd rfl hch
  | dropped | refused | noRootBlob =>
    exact h.quiet (fun _ _ hguid => hguid) rfl hphase (by simp [Delivery.applied])

theorem Cleanup.sendDeletion {request : BlobDeletionRequest} {owed : Option DataBlobGuid}
    (hphase : phases i = .removed owed)
    (howed : owed = some request.blobGuid ∨ owed = none ∧ ¬ Kept request.blobGuid) :
    Cleanup key Kept requests (trace ++ [⟨i, .sendDeletion request, ch, s⟩])
      (cluster.serve ch (.sendDeletion request) s).2
        (update phases i (Phase.next (.removed owed) (.sendDeletion request)
          (cluster.serve ch (.sendDeletion request) s).1)) := by
  have hevent : ¬ (isAttempt key (.sendDeletion request) = true ∧ ch.applied = true) := nofun
  have hfirst : (Phase.removed owed).First (firstApplied key trace i) := by
    rw [← hphase]
    exact h.first i
  have hqueue : ∀ guid, Kept guid → Free s phases guid →
      ¬ ({ s with queue := s.queue ++ [request] } : Site).HasEnqueued guid := by
    rintro guid hguid hfree ⟨r, hr, rfl⟩
    rcases mem_append.mp hr with hr | hr
    · exact hfree.1 ⟨r, hr, rfl⟩
    · rw [mem_singleton.mp hr] at hguid hfree
      rcases howed with rfl | ⟨-, hforeign⟩
      · exact hfree.2 i (by rw [hphase]; rfl)
      · exact hforeign hguid
  have hgrows : ∀ guid, s.HasEnqueued guid →
    ({ s with queue := s.queue ++ [request] } : Site).HasEnqueued guid :=
    fun guid ⟨r, hr, hguid⟩ => ⟨r, mem_append_left _ hr, hguid⟩
  have hanswer : cluster.serve ch (.sendDeletion request)
    s = (true, { s with queue := s.queue ++ [request] })
      ∨ cluster.serve ch (.sendDeletion request) s = (false, s) := by
    show (if _ then _ else _) = _ ∨ (if _ then _ else _) = _
    split
    · exact .inl rfl
    · exact .inr rfl
  rcases howed with rfl | ⟨rfl, hforeign⟩
  · have hnext : ∀ sent : Bool, Phase.next (.removed (some request.blobGuid))
        (.sendDeletion request) sent = if sent = true then .sent request.blobGuid else .failed :=
          fun _ => if_pos rfl
    rw [hnext]
    rcases hanswer with hanswer | hanswer
    · rw [hanswer, if_pos rfl]
      refine h.keeps (fun _ hguid => hguid) (fun _ _ _ hguid => hguid) hqueue hgrows ?_ nofun ?_
        hfirst hevent
      · rintro guid rfl
        rw [hphase]
        rfl
      · rintro guid hsent
        cases hsent
        exact ⟨request, mem_append_right _ (mem_singleton_self _), rfl⟩
    · rw [hanswer, if_neg Bool.false_ne_true]
      exact h.keeps (fun _ hguid => hguid) (fun _ _ _ hguid => hguid) (fun _ _ hfree => hfree.1)
        (fun _ henq => henq) nofun nofun nofun trivial hevent
  · have hnext : ∀ sent : Bool, Phase.next (.removed none) (.sendDeletion request) sent = .removed
      none := fun _ => rfl
    rw [hnext]
    rcases hanswer with hanswer | hanswer
    · rw [hanswer]
      exact h.keeps (fun _ hguid => hguid) (fun _ _ _ hguid => hguid) hqueue hgrows nofun nofun
        nofun hfirst hevent
    · rw [hanswer]
      exact h.quiet (fun _ _ hguid => hguid) rfl hphase hevent

theorem possible_listInodes {maxKeys : Nat} {keyPrefix startAfter : Bytes} :
    Possible key Kept (.listInodes maxKeys keyPrefix startAfter)
      (cluster.serve ch (.listInodes maxKeys keyPrefix startAfter) s).1 := by
  have hpage : mpuGetUploadsPrefix key <+: keyPrefix →
      ∀ e ∈ (cluster.listPage s.inodes maxKeys keyPrefix startAfter).1,
        mpuGetUploadsPrefix key <+: e.1 ∧ ∀ guid, e.2.blob = some guid → ¬ Kept guid := by
    intro hunder e he
    obtain ⟨hstored, hmatch⟩ := mem_of_listPage he
    have hkey : mpuGetUploadsPrefix key <+: e.1 :=
      uploadsPrefix_of_nulTerminated (hunder.trans hmatch)
    refine ⟨hkey, fun guid hguid => h.others e.1 guid ?_ ?_⟩
    · intro heq
      have hlength := hkey.length_le
      rw [heq] at hlength
      simp only [mpuGetUploadsPrefix, length_append, ascii] at hlength
      exact absurd hlength (by simp)
    · rw [names_iff, hstored]
      exact hguid
  cases ch with
  | answered => exact hpage
  | _ => trivial

theorem Cleanup.step
    (hallowed : (phases i).Allows key Kept (requests i) op)
    (hok : isAttempt key op → ch ≠ .replyLost) :
    Possible key Kept op (cluster.serve ch op s).1
      ∧ Cleanup key Kept requests (trace ++ [⟨i, op, ch, s⟩]) (cluster.serve ch op s).2
        (update phases i (Phase.next (phases i) op (cluster.serve ch op s).1)) := by
  cases hphase : phases i with
  | before =>
    rw [hphase] at hallowed
    cases op with
    | putInode k value =>
      obtain ⟨rfl, upload, hrequest, rfl⟩ := hallowed
      exact h.putInode cluster hphase hrequest (hok (decide_eq_true rfl))
    | deleteInode k =>
      obtain ⟨rfl, -⟩ := hallowed
      exact ⟨trivial, h.deleteInode cluster hphase (hok (decide_eq_true rfl))⟩
    | putBlock blobKey body =>
      refine ⟨trivial, h.quiet ?_ ?_ hphase nofun⟩
      · cases ch <;> exact fun _ _ hguid => hguid
      · cases ch <;> rfl
    | getBlobClient | failoverExpired | refreshNssAddress =>
      exact ⟨trivial, h.quiet (fun _ _ hguid => hguid) rfl hphase nofun⟩
    | _ => exact hallowed.elim
  | removed owed =>
    rw [hphase] at hallowed
    cases op with
    | deleteInode k =>
      have hk : k ≠ key := hallowed
      refine ⟨trivial, h.quiet ?_ ?_ hphase fun hattempt => hk (of_decide_eq_true hattempt.1)⟩
      · have herase : ∀ k' guid, ({ s with inodes := s.inodes.erase k } : Site).Names k' guid →
          s.Names k' guid := by
          intro k' guid hguid
          rw [names_iff, Std.ExtTreeMap.getElem?_erase] at hguid
          split at hguid
          · cases hguid
          · exact names_iff.mpr hguid
        cases ch with
        | answered | replyLost | garbled => exact herase
        | dropped | refused | noRootBlob => exact fun _ _ hguid => hguid
      · cases ch <;> rfl
    | listInodes maxKeys keyPrefix startAfter =>
      refine ⟨possible_listInodes cluster h, h.quiet ?_ ?_ hphase nofun⟩
      · cases ch <;> exact fun _ _ hguid => hguid
      · cases ch <;> rfl
    | sendDeletion request => exact ⟨trivial, h.sendDeletion cluster hphase hallowed⟩
    | getBlobClient | failoverExpired | refreshNssAddress =>
      exact ⟨trivial, h.quiet (fun _ _ hguid => hguid) rfl hphase nofun⟩
    | _ => exact hallowed.elim
  | sent guid =>
    rw [hphase] at hallowed
    exact hallowed.elim
  | failed =>
    rw [hphase] at hallowed
    exact hallowed.elim

end

end

/-! ## §5. Runs -/

def KeptBlobs (key : Bytes) (requests : Nat → Request) (s : Site) (guid : DataBlobGuid) : Prop :=
  (∃ i upload, requests i = .put upload ∧ guid = upload.layout.blobGuid) ∨ s.Names key guid

theorem cleanup_start {key : Bytes} {requests : Nat → Request} {s : Site}
    (h : FreshBlobs key requests s) :
    Cleanup key (KeptBlobs key requests s) requests [] s (fun _ => .before) where
  kept i upload hi := .inl ⟨i, upload, hi, rfl⟩
  distinct := h.distinct
  named guid hguid := ⟨.inr hguid, (h.owned guid hguid).1, fun _ => nofun⟩
  others k guid hk hguid := by
    rintro (⟨i, upload, hi, rfl⟩ | hkey)
    · exact (h.unused i upload hi).2 k hguid
    · exact (h.owned guid hkey).2 k hk hguid
  pending i upload hi _ := ⟨(h.unused i upload hi).2 key, (h.unused i upload hi).1, fun _ => nofun⟩
  sent i guid := nofun
  first i := rfl

/-- ★ **Nothing leaks**, in every run of PUTs and DELETEs in which no attempt is applied without its
    reply. -/
theorem retries_leak_nothing (cluster : Cluster) (rounds : Nat) (key : Bytes)
    (requests : Nat → Request) (s : Site) (schedule : List (Nat × Delivery))
    (hfresh : FreshBlobs key requests s)
    (hhash : ∀ i upload, requests i = .put upload → (35 : UInt8) ∉ key)
      (hreplies : ∀ event ∈ (requestPool rounds key requests s).trace cluster.serve schedule,
        isAttempt key event.op → event.choice ≠ .replyLost) :
    NoLeak key ((requestPool rounds key requests s).trace cluster.serve schedule)
      ((requestPool rounds key requests s).run cluster.serve schedule) := by
  have hfollows : ∀ i, ((requestPool rounds key requests s).left i).Follows
      (cleanupProtocol key (KeptBlobs key requests s) (requests i)) Phase.Ends .before := by
    intro i
    show ((requests i).program rounds key).Follows _ _ _
    cases hrequest : requests i with
    | put upload => exact follows_putObject (hhash i upload hrequest) rounds upload
    | delete => exact follows_deleteObjectByKey rounds
  obtain ⟨phases, hinv, hleft⟩ :=
    Pool.follows_invariant (G := Cleanup key (KeptBlobs key requests s) requests)
      (fun _ _ _ _ _ _ hG hallowed hok => hG.step cluster hallowed hok)
    (cleanup_start hfresh) hfollows hreplies
  rw [nil_append] at hinv
  have hcurrent :
    ∀ guid, ((requestPool rounds key requests s).run cluster.serve schedule).state.Names key guid →
      ¬ ((requestPool rounds key requests s).run cluster.serve schedule).state.HasEnqueued guid :=
    fun guid hguid => (hinv.named guid hguid).2.1
  refine ⟨fun i old guid hdone hfirst hold => ?_, hcurrent⟩
  have hends := hleft i
  rw [hdone] at hends
  have hphase := hinv.first i
  -- a request that succeeded has sent what it owed, or owed nothing
  cases hi : phases i with
  | before =>
    rw [hi] at hends
    exact absurd rfl hends
  | failed =>
    rw [hi] at hends
    exact absurd rfl hends
  | removed owed =>
    rw [hi] at hends hphase
    obtain ⟨value, hvalue, howed⟩ := hphase
    rw [hfirst] at hvalue
    cases hvalue
    rw [hends rfl] at howed
    rw [show (some old : Option Inode).bind Inode.blob = old.blob from rfl, hold] at howed
    cases howed
  | sent guid' =>
    rw [hi] at hphase
    obtain ⟨value, hvalue, howed⟩ := hphase
    rw [hfirst] at hvalue
    cases hvalue
    have hguid : guid' = guid := by
      rw [show (some old : Option Inode).bind Inode.blob = old.blob from rfl, hold] at howed
      exact (Option.some.inj howed).symm
    have henqueued := hinv.sent i guid' hi
    rw [hguid] at henqueued
    exact ⟨fun _ hnames => hcurrent guid hnames henqueued, fun _ => henqueued⟩

def replacedSite : Site := siteWith (.layout replacedUpload.stored)

def sampleRequests : Nat → Request
  | 0 => .put sampleUpload
  | _ + 1 => .delete

theorem names_replacedSite {k : Bytes} {guid : DataBlobGuid} (h : replacedSite.Names k guid) :
    k = ascii "/k" ∧ guid = ⟨5, 0⟩ := by
  obtain ⟨object, hobject, hguid⟩ := h
  have hstored : k = ascii "/k" ∧ Inode.layout object = .layout replacedUpload.stored :=
    Namespace.forall_of_toList (P := fun k value => k = ascii "/k"
      ∧ value = .layout replacedUpload.stored) (by decide +kernel) k _ hobject
  obtain ⟨rfl, hvalue⟩ := hstored
  cases hvalue
  cases hguid
  exact ⟨rfl, rfl⟩

theorem freshBlobs_replacedSite : FreshBlobs (ascii "/k") sampleRequests replacedSite where
  distinct i j u v hi hj _ := by
    cases i with
    | succ i => cases hi
    | zero =>
      cases j with
      | succ j => cases hj
      | zero => rfl
  unused i u hi := by
    cases i with
    | succ i => cases hi
    | zero =>
      cases hi
      exact ⟨nofun, fun k hnames => absurd (names_replacedSite hnames).2 (by decide)⟩
  owned guid hguid := ⟨nofun, fun k hk hnames => hk (names_replacedSite hnames).1⟩

def replacedPool : Pool Op Ans (Except S3Error Unit) Site Nat :=
  requestPool 0 (ascii "/k") sampleRequests replacedSite

def secondTry : List (Nat × Delivery) :=
  [(0, .dropped), (0, .answered), (1, .answered), (1, .answered), (0, .answered), (0, .answered)]

theorem retries_leak_nothing_at_sample :
    NoLeak (ascii "/k")
      (replacedPool.trace sampleCluster.serve secondTry)
      (replacedPool.run sampleCluster.serve secondTry) := by
  refine retries_leak_nothing sampleCluster 0 (ascii "/k") sampleRequests replacedSite _
    freshBlobs_replacedSite (fun _ _ _ => by decide) fun event hevent _ hlost => ?_
  have hchoices : .replyLost ∉ (replacedPool.trace sampleCluster.serve secondTry).map
    Event.choice := by decide +kernel
  exact hchoices (mem_map.mpr ⟨event, hevent, hlost⟩)

def lostReply : List (Nat × Delivery) := [(0, .replyLost), (0, .answered)]

theorem lost_reply_leaks :
    FreshBlobs (ascii "/k") sampleRequests replacedSite
      ∧ (replacedPool.run sampleCluster.serve lostReply).left 0 = .done (.ok ())
      ∧ (replacedPool.run sampleCluster.serve lostReply).state.queue = []
      ∧ ¬ NoLeak (ascii "/k")
        (replacedPool.trace sampleCluster.serve lostReply)
        (replacedPool.run sampleCluster.serve lostReply) := by
  have hdone : (replacedPool.run sampleCluster.serve lostReply).left 0 = .done (.ok ()) :=
    Prog.eq_done_of_result? (by decide +kernel)
  have hqueue : (replacedPool.run sampleCluster.serve lostReply).state.queue = [] := by
    decide +kernel
  have hfirst : firstApplied (ascii "/k") (replacedPool.trace sampleCluster.serve lostReply)
    0 = some (some (.layout replacedUpload.stored)) := by
    decide +kernel
  have hstored : (replacedPool.run sampleCluster.serve lostReply).state.inodes[ascii "/k"]? = some
    (.layout sampleUpload.stored) := by
    decide +kernel
  refine ⟨freshBlobs_replacedSite, hdone, hqueue, fun hnoLeak => ?_⟩
  have hnames : ¬ (replacedPool.run sampleCluster.serve lostReply).state.Names (ascii "/k")
    ⟨5, 0⟩ := by
    rw [names_iff, hstored]
    decide
  obtain ⟨r, hr, -⟩ := (hnoLeak.settled 0 _ ⟨5, 0⟩ hdone hfirst rfl).mpr hnames
  rw [hqueue] at hr
  cases hr

end FractalBits.Objects
