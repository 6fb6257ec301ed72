/-
  Objects.Completion — the completion of a multipart upload next to other requests for the same
  upload, and the phases it goes through.

  It reads the inode, lists the parts, deletes those not named and stores the completed layout.
-/

import FractalBits.Objects.Cleaning

namespace FractalBits.Objects

open Lib Streaming Gateway List
open OvrMap (Uuid)

/-! ## §1. Requests for one upload -/

inductive Rival
  | abort
  | uploadPart (partNumber : Nat) (upload : Upload)

def Rival.program (rounds : Nat) (parseUuid : Bytes → Option Uuid) (key uploadId : Bytes) :
    Rival → Handler (Option Layout)
  | .abort => do
    abortMultipartUpload rounds parseUuid key uploadId
    return none
  | .uploadPart partNumber upload => do
    Objects.uploadPart rounds parseUuid key partNumber uploadId upload
    return none

def completeProgram (rounds : Nat) (K : Checksums) (key uploadId : Bytes) (req : CompleteRequest) :
    Handler (Option Layout) := do
  let completed ← completeMultipartUpload rounds K key uploadId req
  return some completed

def mpuPool (rounds : Nat) (K : Checksums) (parseUuid : Bytes → Option Uuid) (key uploadId : Bytes)
    (req : CompleteRequest) (rivals : Nat → Rival) (s : Site) :
    Pool Op Ans (Except S3Error (Option Layout)) Site Nat where
  state := s
  left
    | 0 => (completeProgram rounds K key uploadId req).run
    | i + 1 => ((rivals i).program rounds parseUuid key uploadId).run

/-! ## §2. Phases -/

/-- The phase of a completion: what it has read, what it has listed and which inodes it has deleted
    since, and what it has stored. -/
inductive CompletePhase
  | start
  | found (object : Layout)
  | listed (object : Layout) (inodes : List (Bytes × Inode)) (gone : List Bytes)
  | stored (object : Layout) (inodes : List (Bytes × Inode)) (gone : List Bytes)
    (completed : Layout)

def Completes (req : CompleteRequest) (object : Layout) (inodes : List (Bytes × Inode))
    (gone : List Bytes) (completed : Layout) : Prop :=
  ∃ headers partNumbers mpuObjs tally, req.partNumbers = .ok partNumbers
    ∧ rawObjects inodes = .ok mpuObjs
    ∧ mpuObjs.foldlM tallyPart ⟨partNumbers, [], 0, []⟩ = .ok tally ∧ tally.validPartNumbers = []
    ∧ (∀ k ∈ tally.invalidPartKeys, k ∈ gone)
    ∧ completed = completedLayout object tally.totalSize req.etag headers req.checksumValue

/-- The keys that are kept, the keys that are deleted as objects, and the replies to the listing of
    the parts. -/
structure CompletionView (req : CompleteRequest) where
  Kept : Bytes → Prop
  Invalid : Bytes → Prop
  Seen : List (Bytes × Inode) → Prop
  not_kept : ∀ k, Invalid k → ¬ Kept k
  invalid : ∀ inodes partNumbers mpuObjs tally, Seen inodes → req.partNumbers = .ok partNumbers →
    rawObjects inodes = .ok mpuObjs → mpuObjs.foldlM tallyPart ⟨partNumbers, [], 0, []⟩ = .ok
      tally →
    ∀ k ∈ tally.invalidPartKeys, Invalid k

section

variable (key uploadId : Bytes) {req : CompleteRequest} (view : CompletionView req)

def CompletePhase.Allows : CompletePhase → Op → Prop
  | .start, .getInode k => k = key
  | .found object, .listInodes maxKeys keyPrefix startAfter =>
    checkUploading uploadId object = .ok ()
      ∧ maxKeys = 10000 ∧ keyPrefix = partsPrefix key uploadId ∧ startAfter = []
  | .listed _ _ _, .deleteInode k => ¬ view.Kept k
  | .listed _ _ _, .listInodes _ keyPrefix _ =>
    ∃ k, view.Invalid k ∧ mpuGetUploadsPrefix k <+: keyPrefix
  | .listed object inodes gone, .putInode k value => k = key
      ∧ ∃ completed, value = .layout completed ∧ Completes req object inodes gone completed
  | .listed _ _ _, .getBlobClient | .listed _ _ _, .sendDeletion _ => True
  | _, .failoverExpired | _, .refreshNssAddress => True
  | _, _ => False

def CompletePhase.next : CompletePhase → (op : Op) → Ans op → CompletePhase
  | .start, .getInode _, .ok (.ok (.layout object)) => .found object
  | .found object, .listInodes _ _ _, .ok (.ok inodes _) => .listed object inodes []
  | .listed object inodes gone, .deleteInode k, .ok (.ok _) => .listed object inodes (k :: gone)
  | .listed object inodes gone, .deleteInode k, .ok .errNotFound =>
    .listed object inodes (k :: gone)
  | .listed object inodes gone, .deleteInode k, .ok .errAlreadyDeleted =>
    .listed object inodes (k :: gone)
  | .listed object inodes gone, .putInode _ (.layout completed), .ok (.ok _) =>
    .stored object inodes gone completed
  | phase, _, _ => phase

def CompletionView.Possible : (op : Op) → Ans op → Prop
  | .listInodes _ keyPrefix _, .ok (.ok inodes _) =>
    (keyPrefix = partsPrefix key uploadId → view.Seen inodes)
      ∧ ∀ k, view.Invalid k → mpuGetUploadsPrefix k <+: keyPrefix →
        ∀ e ∈ inodes, ¬ view.Kept (trimEndMatches 0 e.1)
  | _, _ => True

def completeProtocol : Protocol Op Ans CompletePhase where
  possible := view.Possible key uploadId
  allowed := CompletePhase.Allows key uploadId view
  advance := CompletePhase.next

def CompletePhase.Ends (phase : CompletePhase) (r : Except S3Error (Option Layout)) : Prop :=
  ∀ answer, r = .ok answer → ∃ object inodes gone completed, answer = some completed
    ∧ phase = .stored object inodes gone completed

end

/-! ## §3. The completion keeps to its phases -/

section

variable {key uploadId : Bytes} {req : CompleteRequest} {view : CompletionView req}
  {object : Layout} {inodes : List (Bytes × Inode)} {gone : List Bytes}

theorem retries_complete (phase : CompletePhase) :
    Retries (completeProtocol key uploadId view) phase := by
  cases phase <;> exact ⟨⟨trivial, fun _ => rfl⟩, ⟨trivial, fun _ => rfl⟩⟩

def MoreGone (object : Layout) (inodes : List (Bytes × Inode)) (gone : List Bytes)
    (phase : CompletePhase) : Prop :=
  ∃ gone', gone ⊆ gone' ∧ phase = .listed object inodes gone'

theorem moreGone_deleteInode {phase : CompletePhase} (h : MoreGone object inodes gone phase)
    (k : Bytes) (ans : Ans (.deleteInode k)) :
    MoreGone object inodes gone (phase.next (.deleteInode k) ans) := by
  obtain ⟨gone', hgone, rfl⟩ := h
  have hmore : MoreGone object inodes gone (.listed object inodes (k :: gone')) :=
    ⟨k :: gone', fun x hx => mem_cons_of_mem _ (hgone hx), rfl⟩
  cases ans with
  | error e => exact ⟨gone', hgone, rfl⟩
  | ok resp =>
    cases resp with
    | ok | errNotFound | errAlreadyDeleted => exact hmore
    | errNoSuchRootBlob | errOther => exact ⟨gone', hgone, rfl⟩

theorem cleans_complete {k : Bytes} (hk : view.Invalid k) :
    Cleans (completeProtocol key uploadId view) (MoreGone object inodes gone)
      (mpuGetUploadsPrefix k) (fun k' => ¬ view.Kept k') (fun _ => True) where
  retries g _ := retries_complete g
  client g hg := by
    obtain ⟨gone', hgone, rfl⟩ := hg
    exact ⟨trivial, fun _ => ⟨gone', hgone, rfl⟩⟩
  send g request hg _ := by
    obtain ⟨gone', hgone, rfl⟩ := hg
    exact ⟨trivial, fun _ => ⟨gone', hgone, rfl⟩⟩
  delete g k' hg hk' := by
    refine ⟨?_, ?_, moreGone_deleteInode hg k'⟩
    · obtain ⟨gone', hgone, rfl⟩ := hg
      exact hk'
    · obtain ⟨gone', hgone, rfl⟩ := hg
      rfl
  list g maxKeys under startAfter hg hunder := by
    obtain ⟨gone', hgone, rfl⟩ := hg
    refine ⟨⟨k, hk, hunder⟩, rfl, fun _ => ⟨gone', hgone, rfl⟩, ?_⟩
    intro inodes' more hpossible e he
    exact ⟨hpossible.2 k hk hunder e he, fun _ _ => trivial⟩

variable (rounds : Nat)

theorem follows_deleteInvalid {k : Bytes} (hk : view.Invalid k) :
    (deleteObjectByKey rounds k).run.Follows (completeProtocol key uploadId view)
      (fun g r => MoreGone object inodes gone g
        ∧ (r = .ok () → MoreGone object inodes (k :: gone) g))
      (.listed object inodes gone) := by
  have hkeep : ∀ g, MoreGone object inodes (k :: gone) g → MoreGone object inodes gone g :=
    fun g ⟨gone', hgone, hg⟩ => ⟨gone', fun x hx => hgone (mem_cons_of_mem _ hx), hg⟩
  have hhere : MoreGone object inodes gone (.listed object inodes gone) :=
    ⟨gone, List.Subset.refl _, rfl⟩
  have hnow : MoreGone object inodes (k :: gone) (.listed object inodes (k :: gone)) :=
    ⟨k :: gone, List.Subset.refl _, rfl⟩
  have hclean : ∀ old, (cleanUpRemoved rounds k old).run.Follows
      (completeProtocol key uploadId view) (fun g r => MoreGone object inodes gone g
        ∧ (r = .ok () → MoreGone object inodes (k :: gone) g))
      (.listed object inodes (k :: gone)) := by
    intro old
    refine ((cleans_complete hk).cleanUpRemoved hnow rounds fun _ _ => trivial).mono ?_
    exact fun g _ hg => ⟨hkeep g hg, fun _ => hg⟩
  unfold deleteObjectByKey
  refine ⟨trivial, fun client _ => ?_⟩
  cases client with
  | false => exact ⟨hhere, nofun⟩
  | true =>
    have hallowed : (completeProtocol key uploadId view).allowed (.listed object inodes gone)
      (.deleteInode k) :=
      view.not_kept k hk
    refine follows_run_bind (follows_deleteInode (retries_complete _) hallowed rfl rounds) ?_ ?_
    · rintro g e ⟨ans, -, rfl, -⟩
      exact ⟨moreGone_deleteInode hhere k ans, nofun⟩
    · rintro g resp ⟨ans, -, rfl, hresp⟩
      cases ans with
      | error e => cases hresp
      | ok resp' =>
        cases hresp
        cases resp with
        | ok old => exact hclean (some old)
        | errNotFound => exact hclean none
        | errAlreadyDeleted => exact hclean none
        | errNoSuchRootBlob | errOther => exact ⟨hhere, nofun⟩

theorem follows_deleteInvalidParts {keys : List Bytes} (hkeys : ∀ k ∈ keys, view.Invalid k) :
    (deleteInvalidParts rounds keys).run.Follows (completeProtocol key uploadId view)
      (fun g r => r = .ok () → MoreGone object inodes (keys ++ gone) g)
        (.listed object inodes gone) := by
  induction keys generalizing gone with
  | nil => exact fun _ => ⟨gone, List.Subset.refl _, rfl⟩
  | cons k keys ih =>
    unfold deleteInvalidParts
    refine follows_run_bind (follows_deleteInvalid rounds (hkeys k mem_cons_self))
      (fun _ _ _ => nofun) ?_
    rintro g _ ⟨-, hg⟩
    obtain ⟨gone', hgone, rfl⟩ := hg rfl
    refine (ih fun k' hk' => hkeys k' (mem_cons_of_mem _ hk')).mono ?_
    intro g r hr hok
    obtain ⟨gone'', hgone', rfl⟩ := hr hok
    refine ⟨gone'', fun x hx => hgone' ?_, rfl⟩
    rcases mem_append.mp hx with hx | hx
    · rcases mem_cons.mp hx with rfl | hx
      · exact mem_append_right _ (hgone mem_cons_self)
      · exact mem_append_left _ hx
    · exact mem_append_right _ (hgone (mem_cons_of_mem _ hx))

theorem follows_putCompleted {completed : Layout} (h : Completes req object inodes gone completed) :
    (putCompleted rounds key completed).run.Follows (completeProtocol key uploadId view)
      (fun g r => ∀ answer, r = .ok answer → g = .stored object inodes gone completed
        ∧ answer = completed)
      (.listed object inodes gone) := by
  have hallowed : (completeProtocol key uploadId view).allowed (.listed object inodes gone)
      (.putInode key (.layout completed)) := ⟨rfl, completed, rfl, h⟩
  unfold putCompleted
  refine follows_run_bind (follows_putInode (retries_complete _) hallowed rfl rounds)
    (fun _ _ _ => nofun) ?_
  rintro g resp ⟨ans, -, rfl, hresp⟩
  cases ans with
  | error e => cases hresp
  | ok resp' =>
    cases hresp
    cases resp with
    | ok old =>
      rintro answer hanswer
      cases hanswer
      exact ⟨rfl, rfl⟩
    | errNoSuchRootBlob | errOther => exact nofun

theorem follows_completeListed (K : Checksums) {headers : Headers} {partNumbers : List Nat}
    {mpuObjs : List (Bytes × Layout)} (hnumbers : req.partNumbers = .ok partNumbers)
    (hseen : view.Seen inodes) (hraw : rawObjects inodes = .ok mpuObjs) :
    (completeListed rounds K key req headers partNumbers object mpuObjs).run.Follows
      (completeProtocol key uploadId view) (fun g r => ∀ answer, r = .ok answer →
        ∃ gone, g = .stored object inodes gone answer)
      (.listed object inodes []) := by
  unfold completeListed
  refine follows_orFail_bind (fun _ _ => nofun) fun tally htally => ?_
  refine follows_orFail_bind (fun _ _ => nofun) fun _ hcheck => ?_
  have hvalid : tally.validPartNumbers = [] := by
    unfold checkTally at hcheck
    split at hcheck
    · cases hcheck
    · split at hcheck
      · cases hcheck
      · next hnil => exact not_not.mp hnil
  have hinvalid := view.invalid inodes partNumbers mpuObjs tally hseen hnumbers hraw htally
  have hkeys : ∀ k ∈ req.order tally.invalidPartKeys, view.Invalid k :=
    fun k hk => hinvalid k ((req.order_perm _).mem_iff.mp hk)
  refine follows_run_bind (follows_deleteInvalidParts rounds hkeys) (fun _ _ _ => nofun) ?_
  intro g _ hg
  obtain ⟨gone, hgone, rfl⟩ := hg rfl
  have hcompletes : Completes req object inodes gone
      (completedLayout object tally.totalSize req.etag headers req.checksumValue) := by
    refine ⟨headers, partNumbers, mpuObjs, tally, hnumbers, hraw, htally, hvalid, fun k hk => ?_,
      rfl⟩
    exact hgone (mem_append_left _ ((req.order_perm _).mem_iff.mpr hk))
  refine (follows_putCompleted rounds hcompletes).mono ?_
  intro g r hr answer hanswer
  obtain ⟨rfl, rfl⟩ := hr answer hanswer
  exact ⟨gone, rfl⟩

theorem follows_getUpload :
    (getRawObject rounds key).run.Follows (completeProtocol key uploadId view)
      (fun g r => ∀ object, r = .ok object → g = .found object) .start := by
  have hallowed : (completeProtocol key uploadId view).allowed .start (.getInode key) := rfl
  unfold getRawObject
  refine follows_run_bind (follows_getInode (retries_complete _) hallowed rfl rounds)
    (fun _ _ _ => nofun) ?_
  rintro g resp ⟨ans, -, rfl, hresp⟩
  cases ans with
  | error e => cases hresp
  | ok resp' =>
    cases hresp
    cases resp with
    | errNotFound | errNoSuchRootBlob | errOther => exact nofun
    | ok value =>
      cases value with
      | raw bytes => exact nofun
      | layout object =>
        rintro object' h
        cases h
        rfl

theorem follows_listUpload (hcheck : checkUploading uploadId object = .ok ()) :
    (listRawObjects rounds 10000 (partsPrefix key uploadId) []).run.Follows
      (completeProtocol key uploadId view) (fun g r => ∀ mpuObjs, r = .ok mpuObjs →
        ∃ inodes, rawObjects inodes = .ok mpuObjs ∧ view.Seen inodes
        ∧ g = .listed object inodes []) (.found object) := by
  have hallowed : (completeProtocol key uploadId view).allowed (.found object)
      (.listInodes 10000 (partsPrefix key uploadId) []) := ⟨hcheck, rfl, rfl, rfl⟩
  refine (follows_listRawObjects (retries_complete _) hallowed rfl rounds).mono ?_
  rintro g r ⟨ans, hans, rfl, rfl⟩ mpuObjs hresult
  obtain ⟨inodes, more, rfl, hraw⟩ := page_of_listResult hresult
  exact ⟨inodes, hraw, hans.1 rfl, rfl⟩

theorem follows_completeMultipartUpload (K : Checksums) :
    (completeProgram rounds K key uploadId req).run.Follows (completeProtocol key uploadId view)
      CompletePhase.Ends .start := by
  have hcomplete : (completeMultipartUpload rounds K key uploadId req).run.Follows
      (completeProtocol key uploadId view) (fun g r => ∀ answer, r = .ok answer →
        ∃ object inodes gone, g = .stored object inodes gone answer) .start := by
    unfold completeMultipartUpload
    refine follows_orFail_bind (fun _ _ => nofun) fun headers hheaders => ?_
    refine follows_orFail_bind (fun _ _ => nofun) fun partNumbers hnumbers => ?_
    refine follows_run_bind (follows_getUpload rounds) (fun _ _ _ => nofun) ?_
    intro g object hg
    rw [hg object rfl]
    -- the check is set aside first: unification would evaluate it
    cases hcheck : checkUploading uploadId object with
    | error e => exact nofun
    | ok _ =>
      have hid : Uuid.asSimple object.versionId = uploadId := by
        unfold checkUploading at hcheck
        split at hcheck
        · cases hcheck
        · next hid => exact not_not.mp hid
      show (listRawObjects rounds 10000 _ [] >>= _ : Handler Layout).run.Follows _ _ _
      rw [mpuGetPartPrefix_zero, hid]
      refine follows_run_bind (follows_listUpload rounds hcheck) (fun _ _ _ => nofun) ?_
      intro g mpuObjs hg
      obtain ⟨inodes, hraw, hseen, rfl⟩ := hg mpuObjs rfl
      refine (follows_completeListed rounds K hnumbers hseen hraw).mono ?_
      intro g r hr answer hanswer
      obtain ⟨gone, rfl⟩ := hr answer hanswer
      exact ⟨object, inodes, gone, rfl⟩
  unfold completeProgram
  refine follows_run_bind hcomplete (fun _ _ _ => nofun) ?_
  intro g completed hg answer hanswer
  cases hanswer
  obtain ⟨object, inodes, gone, rfl⟩ := hg completed rfl
  exact ⟨object, inodes, gone, completed, rfl, rfl⟩

end

/-! ## §4. The listing of the parts -/

def isListing (key uploadId : Bytes) (e : CallEvent) : Bool :=
  e.who = 0 ∧ e.op = .listInodes 10000 (partsPrefix key uploadId) [] ∧ e.choice = .answered

def listingReply (cluster : Cluster) (key uploadId : Bytes) (e : CallEvent) :
    List (Bytes × Inode) :=
  (cluster.listPage e.before.inodes 10000 (partsPrefix key uploadId) []).1

def CompleteRequest.names (req : CompleteRequest) (k : Bytes) : Bool :=
  match req.partNumbers, mpuParsePartNumber (trimEndMatches 0 k) with
  | .ok partNumbers, .ok partNumber => partNumber ∈ partNumbers
  | _, _ => false

section

variable {key uploadId : Bytes} {s : Site} {op : Op} {ch : Delivery}

theorem isListing_of_op (h : ∀ maxKeys keyPrefix startAfter, op ≠ .listInodes maxKeys keyPrefix
    startAfter) (i : Nat) :
    isListing key uploadId ⟨i, op, ch, s⟩ = false :=
  decide_eq_false fun hlisting => h _ _ _ hlisting.2.1

theorem isListing_of_ne {i : Nat} (hi : i ≠ 0) : isListing key uploadId ⟨i, op, ch, s⟩ = false :=
  decide_eq_false fun hlisting => hi hlisting.1

end

def CompletePhase.early : CompletePhase → Bool
  | .start | .found _ => true
  | .listed _ _ _ | .stored _ _ _ _ => false

/-- What one call of a completion can do: it reads, lists, deletes or stores and is answered, or
    stays where it is. -/
inductive CompleteMove (cluster : Cluster) (key uploadId : Bytes) {req : CompleteRequest}
    (view : CompletionView req) (s : Site) : Delivery → CompletePhase → Op → CompletePhase → Prop
  | read {object : Layout} (hstored : s.inodes[key]? = some (.layout object)) :
      CompleteMove cluster key uploadId view s .answered .start (.getInode key) (.found object)
  | list {object : Layout} (hcheck : checkUploading uploadId object = .ok ()) :
      CompleteMove cluster key uploadId view s .answered (.found object)
        (.listInodes 10000 (partsPrefix key uploadId) [])
        (.listed object (cluster.listPage s.inodes 10000 (partsPrefix key uploadId) []).1 [])
  | drop {object : Layout} {inodes : List (Bytes × Inode)} {gone : List Bytes} {k : Bytes} :
      CompleteMove cluster key uploadId view s .answered (.listed object inodes gone)
        (.deleteInode k) (.listed object inodes (k :: gone))
  | store {object completed : Layout} {inodes : List (Bytes × Inode)} {gone : List Bytes}
      (hcompletes : Completes req object inodes gone completed) :
      CompleteMove cluster key uploadId view s .answered (.listed object inodes gone)
        (.putInode key (.layout completed)) (.stored object inodes gone completed)
  | stay {ch : Delivery} {phase : CompletePhase} {op : Op}
      (hearly : phase.early = true → isListing key uploadId ⟨0, op, ch, s⟩ = false)
      (hstored : ∀ object inodes gone completed, phase = .stored object inodes gone completed →
        (cluster.serve ch op s).2 = s) :
      CompleteMove cluster key uploadId view s ch phase op phase

section

variable {cluster : Cluster} {key uploadId : Bytes} {req : CompleteRequest}
  {view : CompletionView req} {s : Site} {op : Op} {ch : Delivery} {phase : CompletePhase}

theorem CompletePhase.Allows.move (h : phase.Allows key uploadId view op) :
    CompleteMove cluster key uploadId view s ch phase op
      (phase.next op (cluster.serve ch op s).1) := by
  cases phase with
  | start =>
    have hwait : (∀ n keyPrefix after, op ≠ .listInodes n keyPrefix after) →
        CompleteMove cluster key uploadId view s ch .start op .start :=
      fun hop => .stay (fun _ => isListing_of_op hop 0) nofun
    cases op with
    | getInode k =>
      obtain rfl : k = key := h
      cases ch with
      | answered =>
        show CompleteMove cluster k uploadId view s .answered .start (.getInode k)
          (CompletePhase.next .start (.getInode k) (.ok (s.getResponse k)))
        cases hvalue : s.inodes[k]? with
        | none =>
          rw [Site.getResponse_of_none hvalue]
          exact hwait nofun
        | some value =>
          rw [Site.getResponse_of_some hvalue]
          cases value with
          | raw bytes => exact hwait nofun
          | layout object => exact .read hvalue
      | _ => exact hwait nofun
    | failoverExpired | refreshNssAddress => exact hwait nofun
    | _ => exact h.elim
  | found object =>
    have hwait : isListing key uploadId ⟨0, op, ch, s⟩ = false →
        CompleteMove cluster key uploadId view s ch (.found object) op (.found object) :=
      fun hop => .stay (fun _ => hop) nofun
    cases op with
    | listInodes maxKeys keyPrefix startAfter =>
      obtain ⟨hcheck, rfl, rfl, rfl⟩ := h
      have hunanswered : ch ≠ .answered →
          isListing key uploadId ⟨0, .listInodes 10000 (partsPrefix key uploadId) [], ch, s⟩
            = false :=
        fun hch => decide_eq_false fun hlisting => hch hlisting.2.2
      cases ch with
      | answered => exact .list hcheck
      | _ => exact hwait (hunanswered nofun)
    | failoverExpired | refreshNssAddress =>
      exact hwait (isListing_of_op (fun _ _ _ => Op.noConfusion) 0)
    | _ => exact h.elim
  | listed object inodes gone =>
    have hwait : CompleteMove cluster key uploadId view s ch (.listed object inodes gone) op
      (.listed object inodes gone) :=
      .stay nofun nofun
    cases op with
    | deleteInode k =>
      cases ch with
      | answered =>
        show CompleteMove cluster key uploadId view s .answered _ _
          (CompletePhase.next (.listed object inodes gone) (.deleteInode k)
            (.ok (s.deleteResponse k)))
        rcases s.deleteResponse_cases k with hresp | ⟨old, hresp⟩
        · rw [hresp]
          exact .drop
        · rw [hresp]
          exact .drop
      | _ => exact hwait
    | putInode k value =>
      obtain ⟨rfl, completed, rfl, hcompletes⟩ := h
      cases ch with
      | answered => exact .store hcompletes
      | _ => exact hwait
    | getInode | putBlock | getBlob | loadRowMap => exact h.elim
    | _ => exact hwait
  | stored object inodes gone completed =>
    cases op with
    | failoverExpired | refreshNssAddress => exact .stay nofun fun _ _ _ _ _ => rfl
    | _ =>
      exact h.elim

end

theorem ne_of_listed {cluster : Cluster} {ns : Namespace} {key uploadId startAfter : Bytes}
    {maxKeys : Nat} {part : Bytes × Inode}
    (h : part ∈ (cluster.listPage ns maxKeys (partsPrefix key uploadId) startAfter).1) :
    part.1 ≠ key :=
  ne_of_partsPrefix (mem_of_listPage h).2

def sampleCompletion : CompleteRequest where
  partNumbers := .ok [1]
  headers := []
  checksumValue := none
  etag := []
  order := id
  order_perm := @List.Perm.refl Bytes

def sampleChecksums : Checksums := ⟨fun _ _ => [], id⟩

def sampleParse (_ : Bytes) : Option Uuid := some 1

end FractalBits.Objects
