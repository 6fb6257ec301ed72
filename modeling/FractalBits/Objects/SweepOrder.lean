/-
  Objects.SweepOrder — the order of a teardown, under every reply.
-/

import FractalBits.Objects.RowSweep
import FractalBits.Objects.PutCleanup
import FractalBits.Lib.Transition

namespace FractalBits.Objects

open Lib Streaming Gateway
open OvrMap (Uuid ovrRowKey)

attribute [local irreducible] Uuid.asSimple

/-! ## §1. The worker -/

/-- The worker is between attempts, at the marker, or after it. -/
inductive WorkerStage
  | queued (deletion : Deletion)
  | marking (deletion : Deletion) (attempt : Attempt) (rest : Call Bool)
  | sweeping (rest : Call (Bool × Deletion))
  | finished

/-- The worker with a record of what it did to the blocks: `blocksGone` is set by a
    `delete_layout_blocks` that returned true, and by nothing else. No step reads it; the flag the
    worker itself goes by is `blocks_deleted` of the request. -/
structure Worker where
  site : Site
  blocksGone : Bool
  stage : WorkerStage

namespace Worker

/-- `delete_blob_once` is cut where the marker counts as written; the blocks are deleted in that
    step, before the next call. -/
inductive Step (cluster : Cluster) (ok : Op → Delivery → Prop) (rounds : Nat) :
    Worker → Worker → Prop
  | take (s : Site) (gone : Bool) (deletion : Deletion) (attempt : Attempt) :
      Step cluster ok rounds ⟨s, gone, .queued deletion⟩
        ⟨s, gone, .marking deletion attempt (ensureMarker rounds deletion)⟩
  | mark (s : Site) (gone : Bool) (deletion : Deletion) (attempt : Attempt) (op : Op)
      (next : Ans op → Call Bool) (d : Delivery) (hok : ok op d) :
      Step cluster ok rounds ⟨s, gone, .marking deletion attempt (.call op next)⟩
        ⟨(cluster.serve d op s).2, gone, .marking deletion attempt (next (cluster.serve d op s).1)⟩
  | unmarked (s : Site) (gone : Bool) (deletion : Deletion) (attempt : Attempt) :
      Step cluster ok rounds ⟨s, gone, .marking deletion attempt (.done false)⟩
        ⟨s, gone, .queued deletion⟩
  | marked (s : Site) (gone : Bool) (deletion : Deletion) (attempt : Attempt) :
      Step cluster ok rounds ⟨s, gone, .marking deletion attempt (.done true)⟩
        ⟨s, gone || deletion.blocksDeletedBy attempt,
          .sweeping (deleteMarkedBlob rounds attempt { deletion with markerWritten := true })⟩
  | sweep (s : Site) (gone : Bool) (op : Op) (next : Ans op → Call (Bool × Deletion))
      (d : Delivery) (hok : ok op d) :
      Step cluster ok rounds ⟨s, gone, .sweeping (.call op next)⟩
        ⟨(cluster.serve d op s).2, gone, .sweeping (next (cluster.serve d op s).1)⟩
  | retry (s : Site) (gone : Bool) (deletion : Deletion) :
      Step cluster ok rounds ⟨s, gone, .sweeping (.done (false, deletion))⟩
        ⟨s, gone, .queued deletion⟩
  | finish (s : Site) (gone : Bool) (deletion : Deletion) :
      Step cluster ok rounds ⟨s, gone, .sweeping (.done (true, deletion))⟩ ⟨s, gone, .finished⟩

def system (cluster : Cluster) (ok : Op → Delivery → Prop) (rounds : Nat)
    (request : BlobDeletionRequest) (graceUntil : Nat) (start : Site) :
    TransitionSystem Worker where
  init t := t = ⟨start, false, .queued (Deletion.new request graceUntil)⟩
  step := Step cluster ok rounds

end Worker

/-- **The order**: blocks and rows are deleted while the marker is stored, rows only after a
    `delete_layout_blocks` that returned true, and the marker when no key is left under the prefix
    of the rows. -/
def Worker.InOrder (blobId : Uuid) : Worker → Prop
  | ⟨s, _, .marking deletion attempt (.done true)⟩ =>
    deletion.DeletesBlocks attempt → s.HasMarker blobId
  | ⟨s, gone, .sweeping (.call (.deleteInode k) _)⟩ =>
    (IsRowOf blobId k → s.HasMarker blobId ∧ gone = true)
      ∧ (k = ovrGcKey blobId → ∀ k' ∈ s.inodes, ¬ ovrRowPrefix blobId <+: k')
  | _ => True

/-- Replies that are what the worker takes them for: a put that is answered was done, and the bucket
    of a listing is there. -/
def AsTaken : Op → Delivery → Prop
  | .putInode _ _, d => d ≠ .refused ∧ d ≠ .noRootBlob
  | .listInodes _ _ _, d => d ≠ .noRootBlob
  | _, _ => True

def Site.RowsOnly (s : Site) (blobId : Uuid) : Prop :=
  ∀ k ∈ s.inodes, ovrRowPrefix blobId <+: k → IsRowOf blobId k

/-! ## §2. What the flags say -/

/-- Under a marker that counts as written: it is stored while rows are left, and until the blocks
    are deleted. -/
structure Deletion.Guarded (deletion : Deletion) (blobId : Uuid) (s : Site) : Prop where
  rows : s.HasRow blobId → s.HasMarker blobId
  blocks : deletion.blocksDeleted = false → s.HasMarker blobId

section

variable {cluster : Cluster} {rounds : Nat} {blobId : Uuid} {s s' : Site}

theorem Site.RowsOnly.mono (h : s.RowsOnly blobId)
    (hsub : ∀ k ∈ s'.inodes, k ∈ s.inodes) : s'.RowsOnly blobId :=
  fun k hk => h k (hsub k hk)

theorem Site.RowsOnly.without (h : s.RowsOnly blobId)
    (keys : List Bytes) : (s.without keys).RowsOnly blobId :=
  h.mono fun _ hk => (mem_without.mp hk).2

theorem mem_marked {k : Bytes} : k ∈ (s.marked blobId).inodes ↔ k = ovrGcKey blobId
    ∨ k ∈ s.inodes := by
  unfold Site.marked
  rw [Std.ExtTreeMap.mem_insert, Std.compare_eq_iff_eq, eq_comm]

theorem Site.RowsOnly.marked (h : s.RowsOnly blobId) : (s.marked blobId).RowsOnly blobId := by
  intro k hk hunder
  rcases mem_marked.mp hk with hmarker | hk
  · exact absurd hmarker (ne_ovrGcKey_of_under hunder blobId)
  · exact h k hk hunder

theorem sweepRule_marker {gone : Bool} (hgone : gone = true) :
    SweepRule blobId (fun s => s.RowsOnly blobId ∧ s.HasMarker blobId ∧ gone = true)
      fun s => s.RowsOnly blobId ∧ (s.HasRow blobId → s.HasMarker blobId) where
  found s k hs hk hunder := ⟨hs.1, hs.2 ⟨k, hk, hs.1 k hk hunder⟩, hgone⟩
  row s k hk hs := by
    have hne : ovrGcKey blobId ∉ [k] := fun h =>
      ne_ovrGcKey_of_under hk blobId (List.mem_singleton.mp h).symm
    exact ⟨hs.1.without [k], mem_without.mpr ⟨hne, hs.2.1⟩, hgone⟩
  keep s hs := ⟨hs.1, fun _ => hs.2.1⟩
  marker s hnone hs := by
    refine ⟨hs.1.without _, ?_⟩
    rintro ⟨k, hk, hrow⟩
    exact absurd ⟨k, (mem_without.mp hk).2, hrow⟩ hnone

end

/-! ## §3. Every state of every run -/

/-- What holds at each stage: the flag `blocks_deleted` says no more than what is recorded. -/
def Worker.Inv (cluster : Cluster) (blobId : Uuid) : Worker → Prop
  | ⟨s, gone, .queued deletion⟩ => deletion.request.blobGuid.blobId = blobId ∧ s.RowsOnly blobId
    ∧ (deletion.blocksDeleted = true → gone = true)
    ∧ (deletion.markerWritten = true → deletion.Guarded blobId s)
  | ⟨s, gone, .marking deletion _ rest⟩ => deletion.request.blobGuid.blobId = blobId
    ∧ (deletion.blocksDeleted = true → gone = true)
    ∧ rest.Ensures cluster.serve AsTaken (Orderly (fun _ => True) (fun _ => True) blobId)
      (fun r s' => s'.RowsOnly blobId ∧ (r = true → deletion.Guarded blobId s')
        ∧ (r = false → deletion.markerWritten = false)) s
  | ⟨s, gone, .sweeping rest⟩ =>
    rest.Ensures cluster.serve AsTaken
      (Orderly (fun s => s.RowsOnly blobId ∧ s.HasMarker blobId ∧ gone = true)
        (fun s => s.RowsOnly blobId ∧ (s.HasRow blobId → s.HasMarker blobId)) blobId)
      (fun r s' => r.2.request.blobGuid.blobId = blobId ∧ s'.RowsOnly blobId
        ∧ (r.2.blocksDeleted = true → gone = true) ∧ r.2.Guarded blobId s') s
  | ⟨_, _, .finished⟩ => True

section

variable {cluster : Cluster} {rounds : Nat} {blobId : Uuid}

theorem Worker.Inv.step (hclamp : 0 < cluster.clamp) {t t' : Worker} (h : t.Inv cluster blobId)
    (hstep : Worker.Step cluster AsTaken rounds t t') : t'.Inv cluster blobId := by
  cases hstep with
  | take s gone deletion attempt =>
    obtain ⟨hblob, hrows, hflag, hguarded⟩ := h
    refine ⟨hblob, hflag, ensures_ensureMarker (J := fun s => s.RowsOnly blobId) hblob ?_ hguarded
      ?_ rounds hrows⟩
    · intro s hs
      have hmarker : (s.marked blobId).HasMarker blobId := mem_marked.mpr (.inl rfl)
      exact ⟨hs.marked, fun _ => hmarker, fun _ => hmarker⟩
    · rintro s k value d - ⟨hrefused, hgone⟩ (rfl | rfl)
      · exact absurd rfl hrefused
      · exact absurd rfl hgone
  | mark s gone deletion attempt op next d hok => exact ⟨h.1, h.2.1, h.2.2.2 d hok⟩
  | unmarked s gone deletion attempt =>
    obtain ⟨hblob, hflag, hrows, -, hfalse⟩ := h
    refine ⟨hblob, hrows, hflag, fun hwritten => ?_⟩
    rw [hfalse rfl] at hwritten
    cases hwritten
  | marked s gone deletion attempt =>
    obtain ⟨hblob, hflag, hrows, hguarded, -⟩ := h
    have hs := hguarded rfl
    -- what the flag and this attempt say together is recorded
    have hrecord : (deletion.blocksDeleted || deletion.blocksDeletedBy attempt) = true →
        (gone || deletion.blocksDeletedBy attempt) = true := by
      rw [Bool.or_eq_true, Bool.or_eq_true]
      exact Or.imp_left hflag
    have hlists : ∀ n keyPrefix after d, AsTaken (.listInodes n keyPrefix after) d →
      d ≠ .noRootBlob :=
      fun _ _ _ _ hd => hd
    refine (ensures_deleteMarkedBlob hclamp hlists rounds attempt
      { deletion with markerWritten := true } (fun h => sweepRule_marker (hrecord h)) hblob
      ⟨hrows, hs.rows⟩).mono ?_
    rintro r s' ⟨⟨hrows', hmarker'⟩, -, graceUntil, blocksDeleted, hr, hsame, hdeleted⟩
    rw [hr]
    refine ⟨hblob, hrows', fun h => hrecord (hdeleted h), hmarker', fun hleft => ?_⟩
    -- until the blocks are deleted nothing is called, so the marker is as before
    obtain ⟨hbefore, rfl⟩ := hsame hleft
    exact hs.blocks hbefore
  | sweep s gone op next d hok => exact h.2 d hok
  | retry s gone deletion => exact ⟨h.1, h.2.1, h.2.2.1, fun _ => h.2.2.2⟩
  | finish s gone deletion => trivial

theorem Worker.Inv.inOrder {t : Worker} (h : t.Inv cluster blobId) : t.InOrder blobId := by
  obtain ⟨s, gone, stage⟩ := t
  cases stage with
  | queued | finished => trivial
  | marking deletion attempt rest =>
    cases rest with
    | call => trivial
    | done marked =>
      cases marked with
      | false => trivial
      | true => exact fun hdeletes => (h.2.2.2.1 rfl).blocks hdeletes.2
  | sweeping rest =>
    cases rest with
    | done => trivial
    | call op next =>
      cases op with
      | deleteInode k =>
        rcases h.1 with ⟨hmarker, hnone, hrows, -⟩ | ⟨hunder, -, hmarker, hgone⟩
        · refine ⟨fun hrow => absurd hmarker (ne_ovrGcKey_of_under hrow.under blobId),
            fun _ k' hk' hunder => ?_⟩
          exact hnone ⟨k', hk', hrows k' hk' hunder⟩
        · exact ⟨fun _ => ⟨hmarker, hgone⟩, fun hself => absurd hself
            (ne_ovrGcKey_of_under hunder blobId)⟩
      | getInode | putInode | listInodes | failoverExpired | refreshNssAddress | getBlobClient
        | putBlock | getBlob
      | loadRowMap | sendDeletion => trivial

/-- ★ **The worker keeps its order.** For a request that may have rows, in every state that any
    number of attempts reach, whatever is lost, garbled or refused on the way. -/
theorem teardown_keeps_order (hclamp : 0 < cluster.clamp) {request : BlobDeletionRequest}
    (hmapped : request.mapped = true) {start : Site}
    (hrows : start.RowsOnly request.blobGuid.blobId) {graceUntil : Nat} {t : Worker}
    (h : (Worker.system cluster AsTaken rounds request graceUntil start).Reachable t) :
    t.InOrder request.blobGuid.blobId := by
  have hinv : t.Inv cluster request.blobGuid.blobId := by
    refine h.invariant ?_ fun _ _ hs hstep => hs.step hclamp hstep
    rintro _ rfl
    refine ⟨rfl, hrows, nofun, fun hwritten => ?_⟩
    -- a request for a mapped blob begins without a marker
    have hnot : (Deletion.new request graceUntil).markerWritten = false := by
      simp [Deletion.new, hmapped]
    rw [hnot] at hwritten
    cases hwritten
  exact hinv.inOrder

/-! ## §4. What a teardown leaves -/

/-- Only keys under the prefix of the blob's rows, and its marker, are not as they were. -/
def Site.OthersKept (start : Site) (blobId : Uuid) (s : Site) : Prop :=
  ∀ k, ¬ ovrRowPrefix blobId <+: k → k ≠ ovrGcKey blobId → s.inodes[k]? = start.inodes[k]?

theorem sweepRule_othersKept (start : Site) (blobId : Uuid) :
    SweepRule blobId (start.OthersKept blobId) (start.OthersKept blobId) := by
  refine ⟨fun _ _ hs _ _ => hs, fun s k hunder hs k' hk' hne => ?_, fun _ hs => hs,
    fun s _ hs k' hk' hne => ?_⟩
  · have hother : k' ∉ [k] := fun h => hk' (by rw [List.mem_singleton.mp h]; exact hunder)
    rw [getElem?_without, if_neg hother]
    exact hs k' hk' hne
  · rw [getElem?_without, if_neg fun h => hne (List.mem_singleton.mp h)]
    exact hs k' hk' hne

theorem Site.OthersKept.marked {start s : Site} {blobId : Uuid} (hs : start.OthersKept blobId s) :
    start.OthersKept blobId (s.marked blobId) := by
  intro k hk hne
  unfold Site.marked
  rw [Std.ExtTreeMap.getElem?_insert, if_neg fun heq => hne
    (Std.LawfulEqCmp.eq_of_compare heq).symm]
  exact hs k hk hne

/-- Whatever the worker has begun keeps `K`, and it finishes only with the blob's keys gone. -/
def Worker.Clean (cluster : Cluster) (ok : Op → Delivery → Prop) (K : Site → Prop)
    (request : BlobDeletionRequest) (blobId : Uuid) : Worker → Prop
  | ⟨s, _, .queued deletion⟩ => deletion.request = request ∧ K s
  | ⟨s, _, .marking deletion _ rest⟩ =>
    deletion.request = request ∧ rest.Ensures cluster.serve ok (Orderly K K blobId)
      (fun _ s' => K s') s
  | ⟨s, _, .sweeping rest⟩ => rest.Ensures cluster.serve ok (Orderly K K blobId)
      (fun r s' => r.2.request = request ∧ K s'
        ∧ (r.1 = true → ¬ s'.HasRow blobId ∧ ¬ s'.HasMarker blobId)) s
  | ⟨s, _, .finished⟩ => ¬ s.HasRow blobId ∧ ¬ s.HasMarker blobId ∧ K s

section

variable {ok : Op → Delivery → Prop} {request : BlobDeletionRequest} {start : Site}
  (hclamp : 0 < cluster.clamp) (hmapped : request.mapped = true)
  (hlists : ∀ n keyPrefix after d, ok (.listInodes n keyPrefix after) d → d ≠ .noRootBlob)
include hclamp hmapped hlists

theorem Worker.Clean.step {K : Site → Prop} (hrule : SweepRule request.blobGuid.blobId K K)
    (hmark : ∀ s, K s → K (s.marked request.blobGuid.blobId)) {t t' : Worker}
    (h : t.Clean cluster ok K request request.blobGuid.blobId)
    (hstep : Worker.Step cluster ok rounds t t') :
    t'.Clean cluster ok K request request.blobGuid.blobId := by
  cases hstep with
  | take s gone deletion attempt =>
    obtain ⟨rfl, hkept⟩ := h
    exact ⟨rfl,
      (ensures_ensureMarker (J := K) (M := fun _ => True) rfl (fun s hs => ⟨hmark s hs, trivial⟩)
        (fun _ => trivial) (fun _ _ _ _ _ _ _ => trivial) rounds hkept).mono fun _ _ h => h.1⟩
  | mark s gone deletion attempt op next d hok => exact ⟨h.1, h.2.2 d hok⟩
  | unmarked s gone deletion attempt => exact h
  | marked s gone deletion attempt =>
    obtain ⟨rfl, hkept⟩ := h
    refine (ensures_deleteMarkedBlob hclamp hlists rounds attempt
      { deletion with markerWritten := true } (fun _ => hrule) rfl hkept).mono ?_
    rintro r s' ⟨hs', hgone, graceUntil, blocksDeleted, hr, -⟩
    exact ⟨by rw [hr], hs', fun hdone => hgone hdone hmapped⟩
  | sweep s gone op next d hok => exact h.2 d hok
  | retry s gone deletion => exact ⟨h.1, h.2.1⟩
  | finish s gone deletion => exact ⟨(h.2.2 rfl).1, (h.2.2 rfl).2, h.2.1⟩

/-- ★ **A teardown is exact.** When the request for a blob that may have rows is finished, after any
    number of attempts, neither a row, an abort key nor the marker of the blob is left, and every
    key outside the blob's prefix, the marker apart, is as it was. -/
theorem teardown_exact {graceUntil : Nat} {s : Site} {gone : Bool}
    (h : (Worker.system cluster ok rounds request graceUntil start).Reachable
    ⟨s, gone, .finished⟩) :
    ¬ s.HasRow request.blobGuid.blobId ∧ ¬ s.HasMarker request.blobGuid.blobId
      ∧ start.OthersKept request.blobGuid.blobId s := by
  have hstart : ∀ t, (Worker.system cluster ok rounds request graceUntil start).init t →
      t.Clean cluster ok (start.OthersKept request.blobGuid.blobId) request
        request.blobGuid.blobId := by
    rintro _ rfl
    exact ⟨rfl, fun _ _ _ => rfl⟩
  exact h.invariant hstart fun _ _ hs hstep =>
    hs.step hclamp hmapped hlists (sweepRule_othersKept start _) (fun _ => Site.OthersKept.marked)
      hstep

end

end

/-! ## §5. A teardown in two attempts -/

def orderSample : BlobDeletionRequest := ⟨⟨2, 0⟩, .dataVgProxy, true⟩

def orderAttempt : Attempt := ⟨0, true, 1, id, fun _ => .refl _⟩

/-- A namespace with one row of the blob and an object. -/
def rowSite : Site where
  inodes := ((∅ : Namespace).insert (ascii "/k") (.raw (ascii "v"))).insert (ovrRowKey 2 0)
    (.raw [])
  stores := fun _ => none
  queue := []

theorem rowsOnly_emptySite (blobId : Uuid) : emptySite.RowsOnly blobId :=
  fun _ hk => absurd hk Std.ExtTreeMap.not_mem_empty

theorem rowsOnly_rowSite : rowSite.RowsOnly 2 := by
  intro k hk hunder
  have hrow : ovrRowKey 2 0 = k ∨ ascii "/k" = k := by
    simpa [rowSite, Std.ExtTreeMap.mem_insert, Std.compare_eq_iff_eq] using hk
  rcases hrow with rfl | rfl
  · exact .inl ⟨0, rfl⟩
  · exact absurd hunder (by decide +kernel)

abbrev sampleWorker : TransitionSystem Worker :=
  Worker.system sampleCluster AsTaken 0 orderSample 0 rowSite

theorem Worker.reachable_sweep {cluster : Cluster} {ok : Op → Delivery → Prop}
    {rounds graceUntil : Nat} {request : BlobDeletionRequest} {start s : Site} {gone : Bool}
    {op : Op} {d : Delivery} {answer : Ans op} {next : Ans op → Call (Bool × Deletion)}
    (h : (Worker.system cluster ok rounds request graceUntil start).Reachable
      ⟨s, gone, .sweeping (.call op next)⟩)
    (hok : ok op d) (hanswer : (cluster.serve d op s).1 = answer) :
    (Worker.system cluster ok rounds request graceUntil start).Reachable
      ⟨(cluster.serve d op s).2, gone, .sweeping (next answer)⟩ :=
  hanswer ▸ h.step (.sweep s gone op next d hok)

/-- The first attempt writes the marker and does not get all blocks deleted; the second finds the
    marker written, deletes the blocks and begins to list. -/
theorem second_attempt_sweeps : sampleWorker.Reachable ⟨rowSite.marked 2, true,
    .sweeping (deleteMarkedBlob 0 orderAttempt ⟨orderSample, true, none, false⟩)⟩ := by
  let failed : Attempt := { orderAttempt with blocksOk := false }
  have hmarked : sampleWorker.Reachable ⟨rowSite.marked 2, false,
      .marking (Deletion.new orderSample 0) failed (.done true)⟩ :=
    .step (.step (.init rfl) (.take rowSite false _ failed))
      (.mark rowSite false _ failed (.putInode (ovrGcKey 2) (.raw (ascii "gc"))) _ .answered
        ⟨nofun, nofun⟩)
  have hretried : sampleWorker.Reachable
      ⟨rowSite.marked 2, false, .queued ⟨orderSample, true, none, false⟩⟩ :=
    (hmarked.step (.marked _ _ _ _)).step (.retry _ _ _)
  exact (hretried.step (.take _ _ _ orderAttempt)).step (.marked _ _ _ _)

/-- The page of the second attempt has the row, and nothing else. -/
theorem row_listed :
    (sampleCluster.serve .answered (.listInodes 1000 (ovrRowPrefix 2) []) (rowSite.marked 2)).1
      = .ok (.ok [(ovrRowKey 2 0, .raw [])] false) := by
  decide +kernel

theorem trimEnd_row : trimEndMatches 0 (ovrRowKey 2 0) = ovrRowKey 2 0 := by decide +kernel

theorem teardown_keeps_order_at_sample : ∃ s k next,
    sampleWorker.Reachable ⟨s, true, .sweeping (.call (.deleteInode k) next)⟩ ∧
      IsRowOf 2 k ∧ s.HasMarker 2 := by
  have hreachable := Worker.reachable_sweep (d := .answered) second_attempt_sweeps nofun row_listed
  have horder := teardown_keeps_order (by decide) rfl rowsOnly_rowSite hreachable
  exact ⟨_, _, _, hreachable, .inl ⟨0, trimEnd_row⟩, (horder.1 (.inl ⟨0, trimEnd_row⟩)).1⟩

theorem teardown_exact_at_sample : ∃ s, sampleWorker.Reachable ⟨s, true, .finished⟩ ∧
    rowSite.HasRow 2 ∧ ¬ s.HasRow 2 ∧ ¬ s.HasMarker 2 ∧
    s.inodes[ascii "/k"]? = some (.raw (ascii "v")) := by
  have hdeleted : (sampleCluster.serve .answered
      (.deleteInode (trimEndMatches 0 (ovrRowKey 2 0))) (rowSite.marked 2)).1
        = .ok (.ok (.raw [])) := by decide +kernel
  have hunmarked : (sampleCluster.serve .answered (.deleteInode (ovrGcKey 2))
      (sampleCluster.serve .answered (.deleteInode (trimEndMatches 0 (ovrRowKey 2 0)))
        (rowSite.marked 2)).2).1 = .ok (.ok (.raw (ascii "gc"))) := by decide +kernel
  have hlisted := Worker.reachable_sweep (d := .answered) second_attempt_sweeps nofun row_listed
  have hreachable := (Worker.reachable_sweep (d := .answered)
    (Worker.reachable_sweep (d := .answered) hlisted trivial hdeleted) trivial hunmarked).step
      (.finish _ _ _)
  obtain ⟨hrow, hmarker, hkept⟩ :=
    teardown_exact (by decide) rfl (fun _ _ _ _ hok => hok) hreachable
  refine ⟨_, hreachable, ⟨ovrRowKey 2 0, by decide +kernel, .inl ⟨0, rfl⟩⟩, hrow, hmarker, ?_⟩
  rw [hkept (ascii "/k") (by decide +kernel) (by decide +kernel)]
  decide +kernel

/-! ## §6. A marker that is refused -/

theorem refused_marker_breaks_order : orderSample.mapped = true ∧ emptySite.RowsOnly 2 ∧
    ∃ t, (Worker.system sampleCluster (fun _ _ => True) 0 orderSample 0 emptySite).Reachable t ∧
      ¬ t.InOrder 2 := by
  refine ⟨rfl, rowsOnly_emptySite 2,
    ⟨emptySite, false, .marking (Deletion.new orderSample 0) orderAttempt (.done true)⟩, ?_,
    fun horder => ?_⟩
  · exact .step (.step (.init rfl) (.take emptySite _ _ orderAttempt))
      (.mark emptySite _ _ orderAttempt (.putInode (ovrGcKey 2) (.raw (ascii "gc"))) _ .refused
        trivial)
  · exact absurd (horder ⟨rfl, rfl⟩) Std.ExtTreeMap.not_mem_empty

end FractalBits.Objects
