/-
  Objects.AbortRace — abortions next to the completion of the same upload.

  An abortion deletes parts and inode if the inode has the upload's id, as that of a completed
  upload still has.
-/

import FractalBits.Objects.Completion
import FractalBits.Objects.DeleteFrame

namespace FractalBits.Objects

open Lib Streaming Gateway List Function
open OvrMap (Uuid)

/-! ## §1. What abortions may not touch -/

def objectParts (cluster : Cluster) (key uploadId : Bytes) (req : CompleteRequest) (trace : Trace) :
    List (Bytes × Inode) :=
  match trace.find? (isListing key uploadId) with
  | none => []
  | some e => (listingReply cluster key uploadId e).filter fun part => req.names part.1

def Destroys (e : CallEvent) : Prop :=
  (match e.op with
  | .deleteInode _ => e.choice.applied
  | .sendDeletion _ => decide (e.choice = .answered)
  | _ => false) = true

instance : DecidablePred Destroys := fun _ => inferInstanceAs (Decidable (_ = true))

/-- No abortion removed the object's inode or one of its parts' inodes, or enqueued one of their
    blobs. -/
structure AbortSpares (cluster : Cluster) (key uploadId : Bytes) (req : CompleteRequest)
    (trace : Trace) (completed : Layout) : Prop where
  inode : ∀ e ∈ trace, e.who ≠ 0 → Destroys e → e.op = .deleteInode key →
    e.before.inodes[key]? ≠ some (.layout completed)
  parts : ∀ e ∈ trace, e.who ≠ 0 → Destroys e → ∀ part ∈ objectParts cluster key uploadId req trace,
    e.op = .deleteInode part.1 → e.before.inodes[part.1]? ≠ some part.2
  blobs : ∀ e ∈ trace, e.who ≠ 0 → Destroys e → ∀ part ∈ objectParts cluster key uploadId req trace,
    ∀ request, e.op = .sendDeletion request → part.2.blob ≠ some request.blobGuid

def AbortsFirst (key uploadId : Bytes) (trace : Trace) : Prop :=
  trace.Pairwise fun earlier later => isListing key uploadId earlier → later.who ≠ 0 →
    ¬ Destroys later

instance (key uploadId : Bytes) (trace : Trace) : Decidable (AbortsFirst key uploadId trace) :=
  inferInstanceAs (Decidable (List.Pairwise _ _))

def NotRefused (e : CallEvent) : Prop :=
  e.who ≠ 0 → ∀ k, e.op = .deleteInode k → e.choice ≠ .refused ∧ e.choice ≠ .noRootBlob

def OwnBlobs (s : Site) : Prop := ∀ k k' guid, s.Names k guid → s.Names k' guid → k = k'

/-! ## §2. Abortions in phases -/

inductive AbortPhase
  | idle
  | dropped (k : Bytes)

section

variable (key uploadId : Bytes) (s₀ : Site)

def AbortPhase.Allows : AbortPhase → Op → Prop
  | .dropped k, .sendDeletion request => k ≠ key ∧ s₀.Names k request.blobGuid
  | _, .getInode _ | _, .listInodes _ _ _ | _, .deleteInode _ => True
  | _, .getBlobClient | _, .failoverExpired | _, .refreshNssAddress => True
  | _, _ => False

def AbortPhase.next : AbortPhase → (op : Op) → Ans op → AbortPhase
  | _, .deleteInode k, .ok (.ok _) => .dropped k
  | _, .deleteInode k, .ok .errNotFound => .dropped k
  | _, .deleteInode k, .ok .errAlreadyDeleted => .dropped k
  | phase, _, _ => phase

def AbortPossible : (op : Op) → Ans op → Prop
  | .deleteInode _, .ok .errOther | .deleteInode _, .ok .errNoSuchRootBlob => False
  | .listInodes _ keyPrefix _, .ok (.ok inodes _) => keyPrefix = partsPrefix key uploadId →
      ∀ e ∈ inodes, trimEndMatches 0 e.1 = e.1 ∧ e.1 ≠ key ∧ s₀.inodes[e.1]? = some e.2
  | _, _ => True

def abortProtocol : Protocol Op Ans AbortPhase where
  possible := AbortPossible key uploadId s₀
  allowed := AbortPhase.Allows key s₀
  advance := AbortPhase.next

end

section

variable {key uploadId : Bytes} {s₀ : Site} {phase : AbortPhase}

-- unification would evaluate the text of an id
attribute [local irreducible] Uuid.asSimple

theorem retries_abort (phase : AbortPhase) : Retries (abortProtocol key uploadId s₀) phase := by
  cases phase with
  | idle | dropped => exact ⟨⟨trivial, fun _ => rfl⟩, ⟨trivial, fun _ => rfl⟩⟩

theorem allows_deleteInode (k : Bytes) :
    (abortProtocol key uploadId s₀).allowed phase (.deleteInode k) := by
  cases phase with
  | idle | dropped => trivial

theorem next_deleteInode_error (k : Bytes) (e : RpcError) :
    phase.next (.deleteInode k) (.error e) = phase := by
  cases phase with
  | idle | dropped => rfl

theorem follows_enqueue_dropped {k : Bytes} {object : Layout} (hk : k ≠ key)
    (hstored : s₀.inodes[k]? = some (.layout object)) :
    (enqueue object).run.Follows (abortProtocol key uploadId s₀) (fun _ _ => True)
      (.dropped k) := by
  unfold enqueue
  refine follows_lift_bind (R := fun _ _ => True) ?_ fun _ _ _ => trivial
  unfold enqueueBlobDeletion
  cases hguid : object.blobGuid with
  | error e =>
    rw [newBlobDeletionRequest_error hguid]
    trivial
  | ok guid =>
    rw [newBlobDeletionRequest_ok hguid]
    refine ⟨trivial, fun client _ => ?_⟩
    show (if client = true then _ else _ : Call _).Follows _ _ (AbortPhase.dropped k)
    split
    · exact ⟨⟨hk, object, hstored, hguid⟩, fun _ _ => trivial⟩
    · trivial

theorem follows_abortParts (rounds : Nat) {mpus : List (Bytes × Layout)}
    (h : ∀ part ∈ mpus, part.1 ≠ key ∧ s₀.inodes[part.1]? = some (.layout part.2)) :
    (deleteParts rounds mpus).run.Follows (abortProtocol key uploadId s₀) (fun _ _ => True)
      phase := by
  induction mpus generalizing phase with
  | nil => trivial
  | cons part mpus ih =>
    obtain ⟨k, object⟩ := part
    obtain ⟨hk, hstored⟩ := h (k, object) mem_cons_self
    have hrest : (do enqueue object; deleteParts rounds mpus : Handler Unit).run.Follows
        (abortProtocol key uploadId s₀) (fun _ _ => True) (.dropped k) :=
      follows_run_bind (follows_enqueue_dropped hk hstored) (fun _ _ _ => trivial)
        fun _ _ _ => ih fun part hpart => h part (mem_cons_of_mem _ hpart)
    unfold deleteParts
    refine follows_run_bind (follows_deleteInode (retries_abort phase) (allows_deleteInode k)
      (next_deleteInode_error k .connectionClosed) rounds) (fun _ _ _ => trivial) ?_
    rintro g resp ⟨ans, hans, rfl, hresp⟩
    cases ans with
    | error e => cases hresp
    | ok resp' =>
      cases hresp
      cases resp with
      | ok | errNotFound | errAlreadyDeleted =>
        cases phase with
        | idle | dropped => exact hrest
      | errNoSuchRootBlob | errOther => exact hans.elim

theorem follows_abort (rounds : Nat) (parseUuid : Bytes → Option Uuid) :
    (Rival.abort.program rounds parseUuid key uploadId).run.Follows (abortProtocol key uploadId s₀)
      (fun _ _ => True) .idle := by
  have hfound : ∀ object : Layout, (abortFound rounds key uploadId object).run.Follows
      (abortProtocol key uploadId s₀) (fun _ _ => True) .idle := by
    intro object
    unfold abortFound
    by_cases hid : Uuid.asSimple object.versionId ≠ uploadId
    · rw [if_pos hid]
      trivial
    · rw [if_neg hid, mpuGetPartPrefix_zero, not_not.mp hid]
      have hallowed : (abortProtocol key uploadId s₀).allowed .idle
          (.listInodes 10000 (partsPrefix key uploadId) []) := trivial
      refine follows_run_bind (follows_listRawObjects (retries_abort .idle) hallowed rfl rounds)
        (fun _ _ _ => trivial) ?_
      rintro g parts ⟨ans, hans, rfl, hresult⟩
      have hparts : ∀ part ∈ parts, part.1 ≠ key ∧ s₀.inodes[part.1]? = some (.layout part.2) := by
        intro part hpart
        obtain ⟨inodes, more, rfl, hraw⟩ := page_of_listResult hresult.symm
        obtain ⟨k, hk, htrim⟩ := mem_of_rawObjects hraw hpart
        obtain ⟨hnul, hne, hstored⟩ := hans rfl _ hk
        rw [htrim, hnul]
        exact ⟨hne, hstored⟩
      refine follows_run_bind (follows_abortParts rounds hparts) (fun _ _ _ => trivial)
        fun phase _ _ => ?_
      refine follows_run_bind (follows_deleteInode (retries_abort phase) (allows_deleteInode key)
        (next_deleteInode_error key .connectionClosed) rounds) (fun _ _ _ => trivial)
          fun _ resp _ => ?_
      exact follows_orFail_bind (fun _ _ => trivial) fun _ _ => trivial
  have habort : (abortMultipartUpload rounds parseUuid key uploadId).run.Follows
      (abortProtocol key uploadId s₀) (fun _ _ => True) .idle := by
    unfold abortMultipartUpload
    split
    · trivial
    · have hallowed : (abortProtocol key uploadId s₀).allowed .idle (.getInode key) := trivial
      refine follows_run_bind (follows_getInode (retries_abort .idle) hallowed rfl rounds)
        (fun _ _ _ => trivial) ?_
      rintro g resp ⟨ans, -, rfl, -⟩
      have hg : (abortProtocol key uploadId s₀).advance .idle (.getInode key) ans = .idle := by
        cases ans with
        | error | ok => rfl
      rw [hg]
      split
      · exact hfound _
      · trivial
      · trivial
  exact follows_run_bind habort (fun _ _ _ => trivial) fun _ _ _ => trivial

end

/-! ## §3. What the calls of a run leave -/

/-- Off the key, inodes only go; what abortions deleted is gone, and no inode names a blob they
    enqueued. -/
structure TraceFacts (cluster : Cluster) (key uploadId : Bytes) (s₀ : Site) (trace : Trace)
    (s : Site) : Prop where
  shrinks : ∀ k, k ≠ key → GoneOrSame s.inodes[k]? s₀.inodes[k]?
  deleted : ∀ e ∈ trace, e.who ≠ 0 → Destroys e → ∀ k, e.op = .deleteInode k → k ≠ key →
    s.inodes[k]? = none
  enqueued : ∀ e ∈ trace, e.who ≠ 0 → Destroys e → ∀ request, e.op = .sendDeletion request →
    ∀ k, k ≠ key → ¬ s.Names k request.blobGuid
  untouched : (∀ l ∈ trace, isListing key uploadId l = false) →
    GoneOrSame s.inodes[key]? s₀.inodes[key]?
  keys : AbortsFirst key uploadId trace → ∀ e ∈ trace, e.who ≠ 0 → Destroys e →
    e.op = .deleteInode key →
    GoneOrSame e.before.inodes[key]? s₀.inodes[key]?
  spared : AbortsFirst key uploadId trace → ∀ l ∈ trace, isListing key uploadId l = true →
    ∀ part ∈ listingReply cluster key uploadId l, ∀ e ∈ trace, e.who ≠ 0 → Destroys e →
      e.op ≠ .deleteInode part.1 ∧ ∀ request, e.op = .sendDeletion request →
        part.2.blob ≠ some request.blobGuid

theorem Site.Names.of_goneOrSame {s s' : Site} {k : Bytes} {guid : DataBlobGuid}
    (h : GoneOrSame s'.inodes[k]? s.inodes[k]?) (hnames : s'.Names k guid) : s.Names k guid := by
  obtain ⟨object, hstored, hguid⟩ := hnames
  exact ⟨object, h.eq_some hstored, hguid⟩

theorem TraceFacts.append {cluster : Cluster} {key uploadId : Bytes} {s₀ s : Site} {trace : Trace}
    {i : Nat} {op : Op} {ch : Delivery} (h : TraceFacts cluster key uploadId s₀ trace s)
    (hput : ∀ k value, op = .putInode k value → k = key ∧ ∃ l ∈ trace, isListing key uploadId
    l = true) (hsend : i ≠ 0 → ∀ request, op = .sendDeletion request → ∀ k, k ≠ key →
      ¬ s.Names k request.blobGuid) :
    TraceFacts cluster key uploadId s₀ (trace ++ [⟨i, op, ch, s⟩]) (cluster.serve ch op s).2 := by
  have hoff : ∀ k, k ≠ key → GoneOrSame (cluster.serve ch op s).2.inodes[k]? s.inodes[k]? :=
    fun k hk => serve_inodes_off (fun k' value heq => (hput k' value heq).1) hk
  have hfirst : AbortsFirst key uploadId (trace ++ [⟨i, op, ch, s⟩]) →
    AbortsFirst key uploadId trace
      ∧ ∀ l ∈ trace, isListing key uploadId l = true → i ≠ 0 → ¬ Destroys ⟨i, op, ch, s⟩ := by
    intro hordered
    obtain ⟨hpast, -, hlast⟩ := pairwise_append.mp hordered
    exact ⟨hpast, fun l hl => hlast l hl _ (mem_singleton_self _)⟩
  constructor
  · exact fun k hk => (h.shrinks k hk).trans (hoff k hk)
  · intro e he hwho hdestroys k hop hk
    rcases mem_append.mp he with he | he
    · exact (hoff k hk).eq_none (h.deleted e he hwho hdestroys k hop hk)
    · obtain rfl := mem_singleton.mp he
      have hop' : op = .deleteInode k := hop
      subst hop'
      exact serve_deleteInode hdestroys
  · intro e he hwho hdestroys request hop k hk hnames
    have hbefore : s.Names k request.blobGuid := hnames.of_goneOrSame (hoff k hk)
    rcases mem_append.mp he with he | he
    · exact h.enqueued e he hwho hdestroys request hop k hk hbefore
    · obtain rfl := mem_singleton.mp he
      exact hsend hwho request hop k hk hbefore
  · intro hnone
    have hpast : ∀ l ∈ trace, isListing key uploadId l = false := fun l hl =>
      hnone l (mem_append_left _ hl)
    refine (h.untouched hpast).trans (serve_inodes_of_not_put ?_ key)
    intro k value heq
    obtain ⟨-, l, hl, hlisting⟩ := hput k value heq
    rw [hpast l hl] at hlisting
    cases hlisting
  · intro hordered e he hwho hdestroys hop
    obtain ⟨hpast, hlast⟩ := hfirst hordered
    rcases mem_append.mp he with he | he
    · exact h.keys hpast e he hwho hdestroys hop
    · obtain rfl := mem_singleton.mp he
      refine h.untouched fun l hl => ?_
      cases hlisting : isListing key uploadId l with
      | false => rfl
      | true => exact absurd hdestroys (hlast l hl hlisting hwho)
  · intro hordered l hl hlisting part hpart e he hwho hdestroys
    obtain ⟨hpast, hlast⟩ := hfirst hordered
    rcases mem_append.mp he with he | he
    · rcases mem_append.mp hl with hl | hl
      · exact h.spared hpast l hl hlisting part hpart e he hwho hdestroys
      · -- the listing itself: it saw only what was still there
        obtain rfl := mem_singleton.mp hl
        have hne : part.1 ≠ key := ne_of_listed hpart
        obtain ⟨hstored, -⟩ := mem_of_listPage hpart
        refine ⟨fun hop => ?_, fun request hop hblob => ?_⟩
        · have hgone := h.deleted e he hwho hdestroys part.1 hop hne
          rw [hstored] at hgone
          cases hgone
        · refine h.enqueued e he hwho hdestroys request hop part.1 hne (names_iff.mpr ?_)
          rw [hstored]
          exact hblob
    · obtain rfl := mem_singleton.mp he
      rcases mem_append.mp hl with hl | hl
      · exact absurd hdestroys (hlast l hl hlisting hwho)
      · obtain rfl := mem_singleton.mp hl
        exact absurd (of_decide_eq_true hlisting).1 hwho

/-! ## §4. What the completion has seen -/

def CompletePhase.object? : CompletePhase → Option Layout
  | .start => none
  | .found object | .listed object _ _ | .stored object _ _ _ => some object

def CompletionView.any (req : CompleteRequest) : CompletionView req where
  Kept _ := False
  Invalid _ := True
  Seen _ := True
  not_kept _ _ := id
  invalid _ _ _ _ _ _ _ _ _ _ := trivial

structure CompleteFacts (key uploadId : Bytes) (s₀ : Site) (trace : Trace)
    (phase : CompletePhase) : Prop where
  early : phase.early = true → ∀ l ∈ trace, isListing key uploadId l = false
  late : phase.early = false → ∃ l ∈ trace, isListing key uploadId l = true
  read : ∀ object, phase.object? = some object → s₀.inodes[key]? = some (.layout object)
  uploading : phase.early = false → ∀ object, phase.object? = some object →
    object.state = .mpu .uploading
  stored : ∀ object inodes gone completed, phase = .stored object inodes gone completed →
    ∃ core, completed.state = .mpu (.completed core)

section

variable {cluster : Cluster} {key uploadId : Bytes} {s₀ s : Site} {trace : Trace} {op : Op}
  {ch : Delivery} {phase : CompletePhase} {req : CompleteRequest}

variable (h : CompleteFacts key uploadId s₀ trace phase)

include h

theorem CompleteFacts.stay {e : CallEvent}
    (he : phase.early = true → isListing key uploadId e = false) :
    CompleteFacts key uploadId s₀ (trace ++ [e]) phase where
  early hphase l hl := by
    rcases mem_append.mp hl with hl | hl
    · exact h.early hphase l hl
    · rw [mem_singleton.mp hl]
      exact he hphase
  late hphase := by
    obtain ⟨l, hl, hlisting⟩ := h.late hphase
    exact ⟨l, mem_append_left _ hl, hlisting⟩
  read := h.read
  uploading := h.uploading
  stored := h.stored

theorem CompleteFacts.later {e : CallEvent}
    {phase' : CompletePhase} (hphase : phase.early = false) (hphase' : phase'.early = false)
    (hobject : phase'.object? = phase.object?)
    (hstored : ∀ object inodes gone completed, phase' = .stored object inodes gone completed →
      ∃ core, completed.state = .mpu (.completed core)) :
    CompleteFacts key uploadId s₀ (trace ++ [e]) phase' where
  early hearly := by
    rw [hphase'] at hearly
    cases hearly
  late _ := by
    obtain ⟨l, hl, hlisting⟩ := h.late hphase
    exact ⟨l, mem_append_left _ hl, hlisting⟩
  read object hread := h.read object (by rw [← hobject]; exact hread)
  uploading _ object hread := h.uploading hphase object (by rw [← hobject]; exact hread)
  stored := hstored

theorem CompleteFacts.step
    (hsite : TraceFacts cluster key uploadId s₀ trace s)
    (hallowed : phase.Allows key uploadId (CompletionView.any req) op) :
    CompleteFacts key uploadId s₀ (trace ++ [⟨0, op, ch, s⟩])
      (phase.next op (cluster.serve ch op s).1) := by
  have hmove : CompleteMove cluster key uploadId _ s ch phase op _ := hallowed.move
  generalize phase.next op (cluster.serve ch op s).1 = phase' at hmove ⊢
  cases hmove with
  | read hstored =>
    have hlisting : isListing key uploadId ⟨0, .getInode key, .answered, s⟩ = false :=
      isListing_of_op (fun _ _ _ => Op.noConfusion) 0
    refine ⟨fun _ => (h.stay fun _ => hlisting).early rfl, nofun, ?_, nofun, nofun⟩
    rintro object' ⟨⟩
    exact (hsite.untouched (h.early rfl)).eq_some hstored
  | @list object hcheck =>
    have hstate : object.state = .mpu .uploading := by
      unfold checkUploading at hcheck
      split at hcheck
      · cases hcheck
      · split at hcheck
        · cases hcheck
        · next hstate => exact not_not.mp hstate
    refine ⟨nofun, fun _ => ⟨_, mem_append_right _ (mem_singleton_self _),
      decide_eq_true ⟨rfl, rfl, rfl⟩⟩, ?_, ?_,
      nofun⟩
    · rintro object' ⟨⟩
      exact h.read object rfl
    · rintro - object' ⟨⟩
      exact hstate
  | drop => exact h.later rfl rfl rfl nofun
  | store hcompletes =>
    obtain ⟨headers, partNumbers, mpuObjs, tally, -, -, -, -, -, hcompleted⟩ := hcompletes
    refine h.later rfl rfl rfl ?_
    rintro _ _ _ _ ⟨⟩
    rw [hcompleted]
    exact ⟨_, rfl⟩
  | stay hearly hsame => exact h.stay hearly

end

/-! ## §5. Runs -/

abbrev MpuPhase : Nat → Type
  | 0 => CompletePhase
  | _ + 1 => AbortPhase

section

variable (cluster : Cluster) (key uploadId : Bytes) (req : CompleteRequest) (s₀ : Site)

def raceProtocol : (i : Nat) → Protocol Op Ans (MpuPhase i)
  | 0 => completeProtocol key uploadId (CompletionView.any req)
  | _ + 1 => abortProtocol key uploadId s₀

def raceEnds : (i : Nat) → MpuPhase i → Except S3Error (Option Layout) → Prop
  | 0 => CompletePhase.Ends
  | _ + 1 => fun _ _ => True

structure AbortRace (trace : Trace) (s : Site) (phases : (i : Nat) → MpuPhase i) : Prop where
  site : TraceFacts cluster key uploadId s₀ trace s
  completion : CompleteFacts key uploadId s₀ trace (phases 0)
  dropped : ∀ i k, phases (i + 1) = .dropped k → k ≠ key → s.inodes[k]? = none

end

section

variable {cluster : Cluster} {key uploadId : Bytes} {req : CompleteRequest} {s₀ s : Site}
  {trace : Trace} {phases : (i : Nat) → MpuPhase i} {op : Op} {ch : Delivery}

theorem traceFacts_nil (s : Site) : TraceFacts cluster key uploadId s [] s where
  shrinks _ _ := .inl rfl
  deleted _ he := by cases he
  enqueued _ he := by cases he
  untouched _ := .inl rfl
  keys _ _ he := by cases he
  spared _ _ hl := by cases hl

theorem abortRace_nil (s : Site) :
    AbortRace cluster key uploadId s [] s fun | 0 => .start | _ + 1 => .idle where
  site := traceFacts_nil s
  completion := ⟨fun _ _ hl => (by cases hl), nofun, nofun, nofun, nofun⟩
  dropped _ _ := nofun

theorem possible_any {ans : Ans op} : (CompletionView.any req).Possible key uploadId op ans := by
  unfold CompletionView.Possible
  split
  · exact ⟨fun _ => trivial, fun _ _ _ _ _ => id⟩
  · trivial

variable (h : AbortRace cluster key uploadId s₀ trace s phases)

include h

theorem AbortRace.complete_step
    (hallowed : CompletePhase.Allows key uploadId (CompletionView.any req) (phases 0) op) :
    AbortRace cluster key uploadId s₀ (trace ++ [⟨0, op, ch, s⟩]) (cluster.serve ch op s).2
      (update phases 0 (CompletePhase.next (phases 0) op (cluster.serve ch op s).1)) := by
  have hput : ∀ k value, op = .putInode k value → k = key
      ∧ ∃ l ∈ trace, isListing key uploadId l = true := by
    rintro k value rfl
    have hlate := h.completion.late
    revert hallowed hlate
    cases (phases 0 : CompletePhase) with
    | start | found | stored => exact fun hallowed => hallowed.elim
    | listed object inodes gone => exact fun hallowed hlate => ⟨hallowed.1, hlate rfl⟩
  refine ⟨h.site.append hput (fun hi => absurd rfl hi), ?_, ?_⟩
  · rw [update_self]
    exact h.completion.step h.site hallowed
  · intro i k hphase hk
    rw [update_of_ne (Nat.succ_ne_zero i)] at hphase
    exact (serve_inodes_off (fun k' value heq => (hput k' value heq).1) hk).eq_none
      (h.dropped i k hphase hk)

omit h in
theorem TraceFacts.listed (h : TraceFacts cluster key uploadId s₀ trace s) (hkeyed : WellKeyed s₀)
    {maxKeys : Nat} {startAfter : Bytes} {part : Bytes × Inode}
    (hpart : part ∈ (cluster.listPage s.inodes maxKeys (partsPrefix key uploadId) startAfter).1) :
    trimEndMatches 0 part.1 = part.1 ∧ part.1 ≠ key ∧ s₀.inodes[part.1]? = some part.2 := by
  have hne : part.1 ≠ key := ne_of_listed hpart
  have hstored : s₀.inodes[part.1]? = some part.2 :=
    (h.shrinks part.1 hne).eq_some (mem_of_listPage hpart).1
  exact ⟨trimEndMatches_of_getLast? (hkeyed part.1 part.2 hstored), hne, hstored⟩

theorem AbortRace.possible (hkeyed : WellKeyed s₀) {i : Nat}
    (hok : NotRefused ⟨i + 1, op, ch, s⟩) :
    AbortPossible key uploadId s₀ op (cluster.serve ch op s).1 := by
  cases op with
  | deleteInode k =>
    obtain ⟨hrefused, hroot⟩ := hok (Nat.succ_ne_zero i) k rfl
    cases ch with
    | answered =>
      show AbortPossible key uploadId s₀ (.deleteInode k) (.ok (s.deleteResponse k))
      rcases s.deleteResponse_cases k with hresp | ⟨old, hresp⟩
      · rw [hresp]
        trivial
      · rw [hresp]
        trivial
    | replyLost | garbled | dropped => trivial
    | refused => exact absurd rfl hrefused
    | noRootBlob => exact absurd rfl hroot
  | listInodes maxKeys keyPrefix startAfter =>
    cases ch with
    | answered =>
      rintro rfl part hpart
      exact h.site.listed hkeyed hpart
    | _ => trivial
  | getInode | putInode =>
    cases ch <;> trivial
  | failoverExpired | refreshNssAddress | getBlobClient | putBlock | getBlob | loadRowMap
    | sendDeletion => trivial

omit h in
theorem dropped_of_next {phase : AbortPhase} {k : Bytes}
    (h : phase.next op (cluster.serve ch op s).1 = .dropped k) :
    phase = .dropped k ∨ op = .deleteInode k ∧ ch.applied = true := by
  cases op with
  | deleteInode k' =>
    cases ch with
    | answered =>
      have hnext : ∀ resp : DeleteInodeResponse, resp = .errNotFound ∨ (∃ old, resp = .ok old) →
          phase.next (.deleteInode k') (.ok resp) = .dropped k' := by
        rintro resp (rfl | ⟨old, rfl⟩)
        · cases phase with
          | idle | dropped => rfl
        · cases phase with
          | idle | dropped => rfl
      have hanswer : phase.next (.deleteInode k') (.ok (s.deleteResponse k')) = .dropped k' :=
        hnext _ (s.deleteResponse_cases k')
      obtain ⟨⟩ := hanswer.symm.trans h
      exact .inr ⟨rfl, rfl⟩
    | _ =>
      cases phase with
      | idle => cases h
      | dropped => exact .inl h
  | _ =>
    cases phase with
    | idle => cases h
    | dropped => exact .inl h

theorem AbortRace.abort_step (hown : OwnBlobs s₀) {i : Nat}
    (hallowed : AbortPhase.Allows key s₀ (phases (i + 1)) op) :
    AbortRace cluster key uploadId s₀ (trace ++ [⟨i + 1, op, ch, s⟩]) (cluster.serve ch op s).2
      (update phases (i + 1) (AbortPhase.next (phases (i + 1)) op (cluster.serve ch op s).1)) := by
  have hdropped := h.dropped i
  have hput : ∀ k value, op ≠ .putInode k value := by
    rintro k value rfl
    revert hallowed
    cases (phases (i + 1) : AbortPhase) with
    | idle | dropped => exact fun hallowed => hallowed.elim
  have hsend : i + 1 ≠ 0 → ∀ request, op = .sendDeletion request → ∀ k, k ≠ key →
    ¬ s.Names k request.blobGuid := by
    rintro - request rfl k hk hnames
    revert hallowed hdropped
    cases (phases (i + 1) : AbortPhase) with
    | idle => exact fun _ hallowed => hallowed.elim
    | dropped k' =>
      rintro hdropped ⟨hk', hnames'⟩
      have hsame : k = k' := hown k k' _ (hnames.of_goneOrSame (h.site.shrinks k hk)) hnames'
      obtain ⟨object, hstored, -⟩ := hnames
      rw [hsame, hdropped k' rfl hk'] at hstored
      cases hstored
  have hinodes : ∀ k, GoneOrSame (cluster.serve ch op s).2.inodes[k]? s.inodes[k]? :=
    serve_inodes_of_not_put hput
  refine ⟨h.site.append (fun k value heq => absurd heq (hput k value)) hsend, ?_, ?_⟩
  · rw [update_of_ne (Nat.succ_ne_zero i).symm]
    exact h.completion.stay fun _ => isListing_of_ne (Nat.succ_ne_zero i)
  · intro j k hphase hk
    by_cases hj : j = i
    · subst hj
      rw [update_self] at hphase
      rcases dropped_of_next hphase with hsame | ⟨rfl, hch⟩
      · exact (hinodes k).eq_none (h.dropped j k hsame hk)
      · exact serve_deleteInode hch
    · rw [update_of_ne (fun heq => hj (Nat.succ.inj heq))] at hphase
      exact (hinodes k).eq_none (h.dropped j k hphase hk)

end

/-! ## §6. An abortion alone -/

section

variable (cluster : Cluster) (rounds : Nat) (parseUuid : Bytes → Option Uuid) (key uploadId : Bytes)
    (s : Site)

def AbortRefused : Prop :=
  ∀ r s', (abortMultipartUpload rounds parseUuid key uploadId).run.Ends cluster.serve AnyDelivery s
    r s' →
    (∃ e, r = .error e) ∧ s' = s

def AbortMisses : Prop :=
  parseUuid uploadId = none
    ∨ (∀ object, s.inodes[key]? = some (.layout object) → Uuid.asSimple object.versionId ≠ uploadId)
    ∨ ∃ e, rawObjects (cluster.listPage s.inodes 10000 (partsPrefix key uploadId) []).1 = .error e

end

section

variable {cluster : Cluster} {parseUuid : Bytes → Option Uuid} {key uploadId : Bytes} {s : Site}

attribute [local irreducible] Uuid.asSimple

theorem keeps_getInode_same (rounds : Nat) :
    (nss rounds (perform (Op.getInode key))).run.Keeps cluster.serve AnyDelivery (fun s' => s' = s)
      (Answers (fun _ => True) fun resp => ∀ object, parseGetInode resp = .ok object →
        s.inodes[key]? = some (.layout object)) := by
  refine keeps_nss ?_ rounds
  rintro ch s' - rfl
  cases ch with
  | answered =>
    refine ⟨rfl, fun object => ?_⟩
    cases hvalue : s'.inodes[key]? with
    | none => exact nofun
    | some value =>
      cases value with
      | raw bytes => exact nofun
      | layout object' =>
        rintro ⟨⟩
        rfl
  | replyLost | garbled | dropped => exact ⟨rfl, trivial⟩
  | refused | noRootBlob => exact ⟨rfl, nofun⟩

theorem keeps_listRawObjects_same (rounds : Nat) {e : NssError}
    (h : rawObjects (cluster.listPage s.inodes 10000 (partsPrefix key uploadId) []).1 = .error e) :
    (listRawObjects rounds 10000 (partsPrefix key uploadId) []).run.Keeps cluster.serve AnyDelivery
      (fun s' => s' = s) (Answers (fun _ => True) fun _ => False) := by
  have hcall : (nss rounds (perform (Op.listInodes 10000 (partsPrefix key uploadId) []))).run.Keeps
      cluster.serve AnyDelivery (fun s' => s' = s) (Answers (fun _ => True) fun resp => ∃ e,
        parseListInodes resp = .error e) := by
    refine keeps_nss ?_ rounds
    rintro ch s' - rfl
    cases ch with
    | answered =>
      refine ⟨rfl, ?_⟩
      show ∃ e, (listEntries (cluster.listPage s'.inodes 10000 (partsPrefix key uploadId) []).1).map
        _ = .error e
      unfold rawObjects at h
      cases hentries :
        listEntries (cluster.listPage s'.inodes 10000 (partsPrefix key uploadId) []).1 with
      | error e => exact ⟨e, rfl⟩
      | ok entries =>
        rw [hentries] at h
        cases h
    | replyLost | garbled | dropped => exact ⟨rfl, trivial⟩
    | refused | noRootBlob => exact ⟨rfl, _, rfl⟩
  unfold listRawObjects
  refine keeps_run_bind hcall (fun _ he => he) fun resp ⟨e, he⟩ => ?_
  rw [he]
  trivial

theorem abortRefused_of_misses (rounds : Nat) (h : AbortMisses cluster parseUuid key uploadId s) :
    AbortRefused cluster rounds parseUuid key uploadId s := by
  have hkeeps : (abortMultipartUpload rounds parseUuid key uploadId).run.Keeps cluster.serve
      AnyDelivery (fun s' => s' = s) (Answers (fun _ => True) fun _ => False) := by
    unfold abortMultipartUpload
    split
    · trivial
    · next hparse =>
      refine keeps_run_bind (keeps_getInode_same rounds) (fun _ he => he) fun resp hresp => ?_
      split
      · next object hobject =>
        have hstored := hresp object hobject
        unfold abortFound
        by_cases hid : Uuid.asSimple object.versionId ≠ uploadId
        · rw [if_pos hid]
          trivial
        · rw [if_neg hid, mpuGetPartPrefix_zero, not_not.mp hid]
          rcases h with hnone | hmiss | ⟨e, he⟩
          · exact absurd hnone hparse
          · exact absurd (not_not.mp hid) (hmiss object hstored)
          · exact keeps_run_bind (keeps_listRawObjects_same rounds he) (fun _ he => he) fun _ hf =>
              hf.elim
      · trivial
      · trivial
  intro r s' hends
  obtain ⟨hsame, hanswers⟩ := hkeeps.ends rfl hends
  cases r with
  | error e => exact ⟨⟨e, rfl⟩, hsame⟩
  | ok _ => exact hanswers.elim

theorem exec_abort_found (rounds : Nat) (hkeyed : WellKeyed s) {object : Layout}
    {parts : List (Bytes × Layout)} (hparse : parseUuid uploadId ≠ none)
    (hobject : s.inodes[key]? = some (.layout object))
    (hid : Uuid.asSimple object.versionId = uploadId)
    (hparts : rawObjects (cluster.listPage s.inodes 10000 (partsPrefix key uploadId) []).1 = .ok
    parts) :
    ((abortMultipartUpload rounds parseUuid key uploadId).run.exec cluster.answer s).1 = .ok ()
      ∨ ((abortMultipartUpload rounds parseUuid key uploadId).run.exec cluster.answer s).2 ≠ s := by
  have hget : s.getResponse key = .ok (.layout object) := by
    unfold Site.getResponse
    rw [hobject]
  have hlist : (listRawObjects rounds 10000 (partsPrefix key uploadId) []).run.exec cluster.answer s
      = (.ok parts, s) := by
    rw [exec_listRawObjects, hparts]
    rfl
  have hfound : (abortMultipartUpload rounds parseUuid key uploadId).run.exec cluster.answer s
      = (abortFound rounds key uploadId object).run.exec cluster.answer s := by
    unfold abortMultipartUpload
    rw [if_neg hparse, exec_of_ok (exec_nss (exec_getInode key s) rounds), hget]
    rfl
  rw [hfound]
  unfold abortFound
  rw [if_neg (not_not.mpr hid), mpuGetPartPrefix_zero, hid, exec_of_ok hlist]
  rcases parts_split parts with hgood | ⟨good, k, object', rest, e, rfl, hgood, hbad⟩
  · rw [exec_of_ok (exec_deleteParts_ok rounds hgood s),
      exec_of_ok (exec_nss (exec_deleteInode key _) rounds)]
    left
    unfold Site.deleteResponse
    cases (s.dropParts parts).inodes[key]? with
    | none => rfl
    | some value => rfl
  · rw [exec_of_error (exec_deleteParts_error rounds hgood hbad s)]
    right
    intro hsame
    have hk := congrArg (fun site : Site => site.inodes[k]?) hsame
    obtain ⟨k', hk', htrim⟩ := mem_of_rawObjects hparts (mem_append_right _ mem_cons_self)
    have hstored : s.inodes[k']? = some (.layout object') := (mem_of_listPage hk').1
    have heq : k = k' := htrim.trans (trimEndMatches_of_getLast? (hkeyed k' _ hstored))
    rw [getElem?_without_self, heq, hstored] at hk
    cases hk

theorem abortRefused_iff (rounds : Nat) (hkeyed : WellKeyed s) :
    AbortRefused cluster rounds parseUuid key uploadId s ↔ AbortMisses cluster parseUuid key
      uploadId s := by
  refine ⟨fun h => ?_, abortRefused_of_misses rounds⟩
  by_contra hmisses
  unfold AbortMisses at hmisses
  push Not at hmisses
  obtain ⟨hparse, ⟨object, hobject, hid⟩, hdecodes⟩ := hmisses
  have hends : (abortMultipartUpload rounds parseUuid key uploadId).run.Ends cluster.serve
      AnyDelivery s ((abortMultipartUpload rounds parseUuid key uploadId).run.exec cluster.answer
        s).1
      ((abortMultipartUpload rounds parseUuid key uploadId).run.exec cluster.answer s).2 :=
    ends_exec (fun _ => trivial) _ _
  obtain ⟨hanswer, hsame⟩ := h _ _ hends
  cases hparts : rawObjects (cluster.listPage s.inodes 10000 (partsPrefix key uploadId) []).1 with
  | error e => exact hdecodes e hparts
  | ok parts =>
    rcases exec_abort_found rounds hkeyed hparse hobject hid hparts with hok | hchanged
    · obtain ⟨e, he⟩ := hanswer
      rw [hok] at he
      cases he
    · exact hchanged hsame

end

/-! ## §7. Completed objects -/

theorem abortRace_run (cluster : Cluster) (rounds : Nat) (K : Checksums)
    (parseUuid : Bytes → Option Uuid) (key uploadId : Bytes) (req : CompleteRequest) (s : Site)
    (schedule : List (Nat × Delivery)) (hown : OwnBlobs s) (hkeyed : WellKeyed s)
    {pool : Pool Op Ans (Except S3Error (Option Layout)) Site Nat}
    (hpool : pool = mpuPool rounds K parseUuid key uploadId req (fun _ => .abort) s)
    (hok : ∀ e ∈ pool.trace cluster.serve schedule, NotRefused e) :
    ∃ phases : (i : Nat) → MpuPhase i,
      AbortRace cluster key uploadId s (pool.trace cluster.serve schedule)
        (pool.run cluster.serve schedule).state phases
      ∧ ((pool.run cluster.serve schedule).left 0).Follows
          (completeProtocol key uploadId (CompletionView.any req)) CompletePhase.Ends
            (phases 0) := by
  subst hpool
  have hleft :
      ∀ i, ((mpuPool rounds K parseUuid key uploadId req (fun _ => .abort) s).left i).Follows
        (raceProtocol key uploadId req s i) (raceEnds i)
        (match i with | 0 => .start | _ + 1 => .idle) := by
    intro i
    cases i with
    | zero => exact follows_completeMultipartUpload rounds K
    | succ i => exact follows_abort rounds parseUuid
  obtain ⟨phases, hrace, hphases⟩ := Pool.follows_invariant (G := AbortRace cluster key uploadId s)
    (fun trace s' phases i op ch hG hallowed hok => by
      cases i with
      | zero => exact ⟨possible_any, hG.complete_step hallowed⟩
      | succ i => exact ⟨hG.possible hkeyed hok, hG.abort_step hown hallowed⟩)
    (abortRace_nil s) hleft hok
  exact ⟨phases, hrace, hphases 0⟩

/-- ★ **Abortions leave a completed object alone** when they destroy only before the completion's
    listing; and an abortion of an upload that is not pending is refused exactly when it does not
    find the upload. -/
theorem abort_spares_object (cluster : Cluster) (rounds : Nat) (K : Checksums)
    (parseUuid : Bytes → Option Uuid) (key uploadId : Bytes) :
    (∀ (req : CompleteRequest) (s : Site) (schedule : List (Nat × Delivery)) (completed : Layout),
      let pool := mpuPool rounds K parseUuid key uploadId req (fun _ => .abort) s
      OwnBlobs s → WellKeyed s → (∀ e ∈ pool.trace cluster.serve schedule, NotRefused e) →
      AbortsFirst key uploadId (pool.trace cluster.serve schedule) →
      (pool.run cluster.serve schedule).left 0 = .done (.ok (some completed)) →
      AbortSpares cluster key uploadId req (pool.trace cluster.serve schedule) completed)
    ∧ ∀ s : Site, WellKeyed s → (∀ object, s.inodes[key]? = some (.layout object) →
      object.state ≠ .mpu .uploading) →
      (AbortRefused cluster rounds parseUuid key uploadId s ↔ AbortMisses cluster parseUuid key
        uploadId s) := by
  refine ⟨?_, fun s hkeyed _ => abortRefused_iff rounds hkeyed⟩
  intro req s schedule completed pool hown hkeyed hok hfirst hdone
  obtain ⟨phases, hrace, hends⟩ :=
    abortRace_run cluster rounds K parseUuid key uploadId req s schedule hown hkeyed rfl hok
  rw [hdone] at hends
  obtain ⟨object, inodes, gone, completed', hanswer, hphase⟩ := hends _ rfl
  cases hanswer
  have hfacts := hrace.completion
  rw [hphase] at hfacts
  have hread : s.inodes[key]? = some (.layout object) := hfacts.read object rfl
  have hparts : ∀ part ∈ objectParts cluster key uploadId req (pool.trace cluster.serve schedule),
      ∃ l ∈ pool.trace cluster.serve schedule, isListing key uploadId l = true
        ∧ part ∈ listingReply cluster key uploadId l := by
    intro part hpart
    unfold objectParts at hpart
    split at hpart
    · cases hpart
    · next l hfind => exact ⟨l, mem_of_find?_eq_some hfind, List.find?_some hfind,
        (mem_filter.mp hpart).1⟩
  refine ⟨fun e he hwho hdestroys hop hcompleted => ?_, fun e he hwho hdestroys part hpart hop =>
    ?_, fun e he hwho hdestroys part hpart request hop => ?_⟩
  · -- before the listing the key's inode is the one of the pending upload
    have hbefore := (hrace.site.keys hfirst e he hwho hdestroys hop).eq_some hcompleted
    rw [hread] at hbefore
    have hsame : object = completed := Inode.layout.inj (Option.some.inj hbefore)
    obtain ⟨core, hcore⟩ := hfacts.stored _ _ _ _ rfl
    rw [← hsame, hfacts.uploading rfl object rfl] at hcore
    cases hcore
  · obtain ⟨l, hl, hlisting, hpart⟩ := hparts part hpart
    exact absurd hop (hrace.site.spared hfirst l hl hlisting part hpart e he hwho hdestroys).1
  · obtain ⟨l, hl, hlisting, hpart⟩ := hparts part hpart
    exact (hrace.site.spared hfirst l hl hlisting part hpart e he hwho hdestroys).2 request hop

def pendingSite : Site :=
  siteOf [(ascii "/k", .layout pendingSample),
    (mpuGetPartPrefix (ascii "/k") 1 1, .layout sampleUpload.stored)]

def contestedSite : Site :=
  siteOf [(ascii "/k", .layout pendingSample),
    (mpuGetPartPrefix (ascii "/k") 1 1, .layout sampleUpload.stored),
    (mpuGetPartPrefix (ascii "/k") 1 2, .layout replacedUpload.stored)]

def completionOf (partNumber : Nat) : CompleteRequest :=
  { sampleCompletion with partNumbers := .ok [partNumber] }

def samplePool (partNumber : Nat) (s : Site) :
    Pool Op Ans (Except S3Error (Option Layout)) Site Nat :=
  mpuPool 0 sampleChecksums sampleParse (ascii "/k") (Uuid.asSimple 1) (completionOf partNumber)
    (fun _ => .abort) s

theorem ownBlobs_of_toList {s : Site} (h : ∀ e ∈ s.inodes.toList, ∀ e' ∈ s.inodes.toList,
    e.2.blob.isSome = true → e.2.blob = e'.2.blob → e.1 = e'.1) : OwnBlobs s := by
  rintro k k' guid ⟨object, hobject, hguid⟩ ⟨object', hobject', hguid'⟩
  have hblob : (Inode.layout object).blob = some guid := by rw [Inode.blob, hguid]; rfl
  have hblob' : (Inode.layout object').blob = some guid := by rw [Inode.blob, hguid']; rfl
  have hmem := Std.ExtTreeMap.mem_toList_iff_getElem?_eq_some.mpr hobject
  have hmem' := Std.ExtTreeMap.mem_toList_iff_getElem?_eq_some.mpr hobject'
  exact h _ hmem _ hmem' (by rw [hblob]; rfl) (hblob.trans hblob'.symm)

/-- The abortion has deleted part 1 when the completion lists the parts and finds part 2. -/
def abortFirst : List (Nat × Delivery) := List.replicate 5 (1, .answered) ++ List.replicate 3
    (0, .answered)

theorem abort_spares_object_at_sample :
    AbortSpares sampleCluster (ascii "/k") (Uuid.asSimple 1) (completionOf 2)
      ((samplePool 2 contestedSite).trace sampleCluster.serve abortFirst) (completedSample 0)
    ∧ (AbortRefused sampleCluster 0 sampleParse (ascii "/k") (Uuid.asSimple 1)
      (siteWith (.layout (completedSample 0))) ↔ AbortMisses sampleCluster sampleParse (ascii "/k")
        (Uuid.asSimple 1) (siteWith (.layout (completedSample 0)))) := by
  obtain ⟨hspares, hrefused⟩ :=
    abort_spares_object sampleCluster 0 sampleChecksums sampleParse (ascii "/k") (Uuid.asSimple 1)
  have hall : ∀ e ∈ (samplePool 2 contestedSite).trace sampleCluster.serve abortFirst,
    e.choice = .answered := by
    decide +kernel
  refine ⟨hspares (completionOf 2) contestedSite abortFirst (completedSample 0)
    (ownBlobs_of_toList (by decide +kernel)) (Namespace.forall_of_toList (by decide +kernel))
      (fun e he _ k _ => ?_) (by decide +kernel)
    (Prog.eq_done_of_result? (by decide +kernel)),
    hrefused _ (Namespace.forall_of_toList (by decide +kernel)) fun object hobject => ?_⟩
  · rw [hall e he]
    exact ⟨nofun, nofun⟩
  · have hstored : (siteWith (.layout (completedSample 0))).inodes[ascii "/k"]? = some
      (.layout (completedSample 0)) := by
      decide +kernel
    rw [hstored] at hobject
    cases hobject
    exact nofun

def abortLast : List (Nat × Delivery) := List.replicate 3 (0, .answered) ++ List.replicate 6
    (1, .answered)

theorem abort_destroys_object :
    OwnBlobs pendingSite ∧ WellKeyed pendingSite
      ∧ ((samplePool 1 pendingSite).run sampleCluster.serve abortLast).left 0 = .done
        (.ok (some (completedSample 0)))
      ∧ ((samplePool 1 pendingSite).run sampleCluster.serve abortLast).left 1 = .done (.ok none)
      ∧ ((samplePool 1 pendingSite).run sampleCluster.serve abortLast).state.inodes[ascii "/k"]?
        = none
      ∧ ¬ AbortSpares sampleCluster (ascii "/k") (Uuid.asSimple 1) (completionOf 1)
        ((samplePool 1 pendingSite).trace sampleCluster.serve abortLast) (completedSample 0) := by
  refine ⟨ownBlobs_of_toList (by decide +kernel), Namespace.forall_of_toList (by decide +kernel),
    Prog.eq_done_of_result? (by decide +kernel), Prog.eq_done_of_result? (by decide +kernel), by
      decide +kernel,
    fun hspares => ?_⟩
  have hevent : ∃ e ∈ (samplePool 1 pendingSite).trace sampleCluster.serve abortLast,
      e.who ≠ 0 ∧ Destroys e ∧ e.op = .deleteInode (ascii "/k")
        ∧ e.before.inodes[ascii "/k"]? = some (.layout (completedSample 0)) := by decide +kernel
  obtain ⟨e, he, hwho, hdestroys, hop, hstored⟩ := hevent
  exact hspares.inode e he hwho hdestroys hop hstored

end FractalBits.Objects
