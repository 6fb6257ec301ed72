/-
  Objects.Sweep — the sweep that deletes every key of a drive.

  Mirrors `delete_batch` and the loop of `sweep` in `drive_sweep.rs`: pages of 1000 keys under `/`,
  batches of 100, the deletes of a batch side by side.
-/

import FractalBits.Objects.DeleteState

namespace FractalBits.Objects

open Lib Streaming Gateway List
open OvrMap (Uuid)

/-! ## §1. Batches, pages, and the sweep -/

section

variable (cluster : Cluster) (rounds : Nat)

def batchPool (batch : List Bytes) (s : Site) : Pool Op Ans (Except S3Error Unit) Site Bytes where
  state := s
  left key := if key ∈ batch then (deleteObjectByKey rounds key).run else .done (.ok ())

def BatchEnds (batch : List Bytes) (s : Site) (results : Bytes → Except S3Error Unit)
    (s' : Site) : Prop :=
  ∃ schedule : List (Bytes × Delivery), (∀ e ∈ schedule, e.2 = .answered)
    ∧ ((batchPool rounds batch s).run cluster.serve schedule).state = s'
    ∧ ∀ key ∈ batch, ((batchPool rounds batch s).run cluster.serve schedule).left key = .done
      (results key)

def sweepError : Except S3Error Unit → Option S3Error
  | .ok () | .error .noSuchKey => none
  | .error e => some e

inductive SweepEnd
  | done
  | leaseLost
  | stopped (e : S3Error)

inductive BatchesEnd : List Bytes → Site → SweepEnd → Site → Prop
  | nil (s : Site) : BatchesEnd [] s .done s
  | notRenewed (keys : List Bytes) (s : Site) : BatchesEnd keys s .leaseLost s
  | error {keys : List Bytes} {s s' : Site} {results : Bytes → Except S3Error Unit} {key : Bytes}
      {e : S3Error} (hbatch : BatchEnds cluster rounds (keys.take 100) s results s')
        (hkey : key ∈ keys.take 100)
      (herror : sweepError (results key) = some e) : BatchesEnd keys s (.stopped e) s'
  | lost {keys : List Bytes} {s s' : Site} {results : Bytes → Except S3Error Unit}
      (hbatch : BatchEnds cluster rounds (keys.take 100) s results s') :
        BatchesEnd keys s .leaseLost s'
  | next {keys : List Bytes} {s s' s'' : Site} {results : Bytes → Except S3Error Unit}
      {o : SweepEnd} (hbatch : BatchEnds cluster rounds (keys.take 100) s results s')
      (hok : ∀ key ∈ keys.take 100, sweepError (results key) = none)
      (hrest : BatchesEnd (keys.drop 100) s' o s'') : BatchesEnd keys s o s''

def sweepPage (s : Site) (startAfter : Bytes) : Except NssError (List (Bytes × Layout)) :=
  rawObjects (cluster.listPage s.inodes 1000 (ascii "/") startAfter).1

inductive SweepEnds : Bytes → Site → SweepEnd → Site → Prop
  | unauthorized (startAfter : Bytes) (s : Site) : SweepEnds startAfter s (.stopped .accessDenied) s
  | listError {startAfter : Bytes} {s : Site} {e : NssError}
    (hpage : sweepPage cluster s startAfter = .error e) :
      SweepEnds startAfter s (.stopped e.toS3Error) s
  | empty {startAfter : Bytes} {s : Site} (hpage : sweepPage cluster s startAfter = .ok []) :
      SweepEnds startAfter s .done s
  | page {startAfter : Bytes} {s s' s'' : Site} {page : List (Bytes × Layout)}
      {last : Bytes × Layout} {o : SweepEnd} (hpage : sweepPage cluster s startAfter = .ok page)
        (hlast : page.getLast? = some last)
      (hbatches : BatchesEnd cluster rounds (page.map Prod.fst) s .done s')
      (hrest : SweepEnds last.1 s' o s'') : SweepEnds startAfter s o s''
  | broken {startAfter : Bytes} {s s' : Site} {page : List (Bytes × Layout)} {o : SweepEnd}
      (hpage : sweepPage cluster s startAfter = .ok page) (hend : o ≠ .done)
      (hbatches : BatchesEnd cluster rounds (page.map Prod.fst) s o s') :
        SweepEnds startAfter s o s'

end

def SweepNeverStops (cluster : Cluster) (rounds : Nat) (s : Site) : Prop :=
  ∀ e s', SweepEnds cluster rounds [] s (.stopped e) s' → e = .accessDenied

/-- Every key under `/` is empty or a layout, none is a pending upload, and what is stored under the
    parts of a completed one names a blob. -/
def Sweepable (s : Site) : Prop :=
  ∀ key value, ascii "/" <+: key → s.inodes[key]? = some value →
    value = .empty ∨ ∃ object, value = .layout object ∧ object.state ≠ .mpu .uploading
      ∧ ((∃ core, object.state = .mpu (.completed core)) →
        ∀ k v, mpuGetPartPrefix key object.versionId 0 <+: nulTerminated k → s.inodes[k]? = some v →
          v = .empty ∨ ∃ part guid, v = .layout part ∧ part.blobGuid = .ok guid)

/-! ## §2. Deletes next to other deletes -/

def Site.Within (s₀ s : Site) : Prop :=
  ∀ (key : Bytes) (value : Inode), s.inodes[key]? = some value → s₀.inodes[key]? = some value

def Answered (_ : Op) (d : Delivery) : Prop := d = .answered

section

variable {cluster : Cluster} {s₀ : Site}

theorem keeps_deleteInode_within (key : Bytes) :
    (perform (Op.deleteInode key) : Call _).Keeps cluster.serve Answered s₀.Within fun r =>
      ∃ resp, r = .ok resp ∧ ∃ old, parseDeleteInode resp = .ok old ∧
        ∀ value, old = some value → s₀.inodes[key]? = some value := by
  rintro d s rfl hs
  constructor
  · intro k value hk
    have hwithout : (s.without [key]).inodes[k]? = some value := hk
    rw [getElem?_without] at hwithout
    split at hwithout
    · cases hwithout
    · exact hs k value hwithout
  · refine ⟨s.deleteResponse key, rfl, s.inodes[key]?, ?_, fun value hvalue => hs key value hvalue⟩
    unfold Site.deleteResponse
    cases s.inodes[key]? <;> rfl

theorem keeps_listRawObjects_within (rounds maxParts : Nat) (keyPrefix startAfter : Bytes) :
    (listRawObjects rounds maxParts keyPrefix startAfter).run.Keeps cluster.serve Answered s₀.Within
      fun r =>
      ∃ s, s₀.Within s
        ∧ r = (rawObjects (cluster.listPage s.inodes maxParts keyPrefix startAfter).1).mapError
          NssError.toS3Error := by
  have hcall : (perform (Op.listInodes maxParts keyPrefix startAfter) : Call _).Keeps cluster.serve
      Answered s₀.Within fun r => Answers (fun _ => False)
        (fun resp => ∃ s, s₀.Within s
          ∧ ∃ more, resp = .ok (cluster.listPage s.inodes maxParts keyPrefix startAfter).1 more)
        (r.mapError RpcError.toS3Error) := by
    rintro d s rfl hs
    exact ⟨hs, s, hs, _, rfl⟩
  unfold listRawObjects
  refine keeps_run_bind (keeps_nss hcall rounds) (fun e he => he.elim) ?_
  rintro resp ⟨s, hs, more, rfl⟩
  unfold parseListInodes
  dsimp only
  cases hentries : listEntries (cluster.listPage s.inodes maxParts keyPrefix startAfter).1 with
  | error e => exact ⟨s, hs, by unfold rawObjects; rw [hentries]; rfl⟩
  | ok entries => exact ⟨s, hs, by unfold rawObjects; rw [hentries]; rfl⟩

theorem keeps_enqueueBlobDeletion_within (object : Layout) :
    (enqueueBlobDeletion object).Keeps cluster.serve Answered s₀.Within fun r =>
      ∀ guid, object.blobGuid = .ok guid → r = .ok () := by
  unfold enqueueBlobDeletion
  cases hguid : object.blobGuid with
  | error e =>
    rw [newBlobDeletionRequest_error hguid]
    intro guid hok
    cases hok
  | ok guid =>
    rw [newBlobDeletionRequest_ok hguid]
    rintro d s rfl hs
    refine ⟨hs, ?_⟩
    rintro d s rfl hs
    exact ⟨hs, fun _ _ => rfl⟩

theorem keeps_enqueue_within {object : Layout} {guid : DataBlobGuid}
    (hguid : object.blobGuid = .ok guid) :
    (enqueue object).run.Keeps cluster.serve Answered s₀.Within
      (Answers (fun _ => False) fun _ => True) := by
  unfold enqueue
  refine keeps_lift_bind (keeps_enqueueBlobDeletion_within object) ?_
  intro r hr
  rw [hr guid hguid]
  trivial

theorem keeps_cleanUpOrphanedParts_within (rounds : Nat) (key : Bytes) :
    (cleanUpOrphanedParts rounds key).Keeps cluster.serve Answered s₀.Within fun _ => True := by
  unfold cleanUpOrphanedParts
  refine (keeps_listRawObjects_within rounds 10000 (mpuGetUploadsPrefix key) []).bind ?_
  intro r _
  cases r with
  | error e => trivial
  | ok mpus =>
    exact keeps_deletePartsBestEffort rounds
      (fun part _ => (keeps_deleteInode_within part.1).mono fun _ _ => trivial)
      (fun part _ => (keeps_enqueueBlobDeletion_within part.2).mono fun _ _ => trivial)

theorem keeps_deleteCompletedParts_within (rounds : Nat) {key : Bytes} {uploadId : Uuid}
    (hparts : ∀ k v, mpuGetPartPrefix key uploadId 0 <+: nulTerminated k → s₀.inodes[k]? = some v →
      v = .empty ∨ ∃ part guid, v = .layout part ∧ part.blobGuid = .ok guid) :
    (deleteCompletedParts rounds key uploadId).run.Keeps cluster.serve Answered s₀.Within
      (Answers (fun _ => False) fun _ => True) := by
  have hlist : (listRawObjects rounds 10000 (mpuGetPartPrefix key uploadId 0) []).run.Keeps
      cluster.serve Answered s₀.Within (Answers (fun _ => False) fun mpus => ∀ part ∈ mpus, ∃ guid,
        part.2.blobGuid = .ok guid) := by
    refine (keeps_listRawObjects_within rounds 10000 (mpuGetPartPrefix key uploadId 0) []).mono ?_
    rintro r ⟨s, hs, rfl⟩
    have hstored : ∀ e ∈ (cluster.listPage s.inodes 10000 (mpuGetPartPrefix key uploadId 0) []).1,
        e.2 = .empty ∨ ∃ part guid, e.2 = .layout part ∧ part.blobGuid = .ok guid := by
      intro e he
      obtain ⟨hstored, hprefix⟩ := mem_of_listPage he
      exact hparts e.1 e.2 hprefix (hs e.1 e.2 hstored)
    obtain ⟨mpus, hmpus⟩ : ∃ mpus, rawObjects
        (cluster.listPage s.inodes 10000 (mpuGetPartPrefix key uploadId 0) []).1 = .ok mpus := by
      refine rawObjects_ok fun e he => ?_
      rcases hstored e he with hempty | ⟨part, -, hpart, -⟩
      · exact .inl hempty
      · exact .inr ⟨part, hpart⟩
    rw [hmpus]
    intro part hpart
    obtain ⟨k, hk, -⟩ := mem_of_rawObjects hmpus hpart
    rcases hstored _ hk with hempty | ⟨part', guid, heq, hguid⟩
    · cases hempty
    · cases heq
      exact ⟨guid, hguid⟩
  unfold deleteCompletedParts
  refine keeps_bind hlist ?_
  intro mpus hmpus
  refine keeps_deleteParts rounds (fun part _ => ?_) fun part hpart => ?_
  · refine (keeps_deleteInode_within part.1).mono ?_
    rintro r ⟨resp, rfl, -⟩
    trivial
  · obtain ⟨guid, hguid⟩ := hmpus part hpart
    exact keeps_enqueue_within hguid

theorem keeps_delete (h₀ : Sweepable s₀) (rounds : Nat) {key : Bytes} (hkey : ascii "/" <+: key) :
    (deleteObjectByKey rounds key).run.Keeps cluster.serve Answered s₀.Within
      (Answers (fun _ => False) fun _ => True) := by
  have hclient : (perform Op.getBlobClient : Call _).Keeps cluster.serve Answered s₀.Within
    fun client => client = true := by
    rintro d s rfl hs
    exact ⟨hs, rfl⟩
  have hdelete : (perform (Op.deleteInode key) : Call _).Keeps cluster.serve Answered s₀.Within
    fun r =>
      Answers (fun _ => False) (fun resp => ∃ old, parseDeleteInode resp = .ok old ∧
        ∀ value, old = some value → s₀.inodes[key]? = some value)
          (r.mapError RpcError.toS3Error) := by
    refine (keeps_deleteInode_within key).mono ?_
    rintro r ⟨resp, rfl, hresp⟩
    exact hresp
  unfold deleteObjectByKey
  refine keeps_lift_bind hclient ?_
  rintro client rfl
  rw [if_neg (by decide)]
  refine keeps_bind (keeps_nss hdelete rounds) ?_
  rintro resp ⟨old, hparse, hold⟩
  rw [hparse]
  show (cleanUpRemoved rounds key old).run.Keeps cluster.serve Answered s₀.Within _
  cases old with
  | none =>
    unfold cleanUpRemoved
    exact (keeps_cleanUpOrphanedParts_within rounds key).bind fun _ _ => trivial
  | some value =>
    rcases h₀ key value hkey (hold value rfl) with rfl | ⟨object, rfl, hstate, hparts⟩
    · trivial
    · show (cleanUpDeleted rounds key object).run.Keeps cluster.serve Answered s₀.Within _
      unfold cleanUpDeleted
      cases hobject : object.state with
      | normal guid core =>
        have hguid : object.blobGuid = .ok guid := by
          unfold Layout.blobGuid
          rw [hobject]
        exact keeps_enqueue_within hguid
      | mpu state =>
        cases state with
        | uploading => exact absurd hobject hstate
        | completed core => exact keeps_deleteCompletedParts_within rounds (hparts ⟨core, hobject⟩)
      | symlink _ _ | special _ | directory _ | indirect _ => trivial

/-! ## §3. Sweeps -/

variable {rounds : Nat} {s s' : Site}

theorem batch_ok (h₀ : Sweepable s₀) {batch : List Bytes} (hkeys : ∀ key ∈ batch, ascii "/" <+: key)
    (hs : s₀.Within s) {results : Bytes → Except S3Error Unit}
    (h : BatchEnds cluster rounds batch s results s') : s₀.Within s'
    ∧ ∀ key ∈ batch, results key = .ok () := by
  obtain ⟨schedule, hanswered, rfl, hdone⟩ := h
  have hleft : ∀ key, ((batchPool rounds batch s).left key).Keeps cluster.serve Answered s₀.Within
      (Answers (fun _ => False) fun _ => True) := by
    intro key
    unfold batchPool
    dsimp only
    split
    · next hkey => exact keeps_delete h₀ rounds (hkeys key hkey)
    · trivial
  obtain ⟨hstate, hresults⟩ := Pool.run_keeps (fun e he op => hanswered e he) hs hleft
  refine ⟨hstate, ?_⟩
  intro key hkey
  have hresult := hresults key
  rw [hdone key hkey] at hresult
  cases hr : results key with
  | ok u => rfl
  | error e =>
    rw [hr] at hresult
    exact hresult.elim

theorem batchEnds_single (rounds : Nat) (s : Site) (key : Bytes) :
    BatchEnds cluster rounds [key] s (fun _ => (deleteOutcome cluster rounds s key).1)
      (deleteOutcome cluster rounds s key).2 := by
  have hleft : (batchPool rounds [key] s).left key = (deleteObjectByKey rounds key).run :=
    if_pos (mem_singleton.mpr rfl)
  obtain ⟨schedule, hanswered, hstate, hdone⟩ := Pool.run_alone Delivery.answered key
    (batchPool rounds [key] s)
  rw [hleft] at hstate hdone
  refine ⟨schedule, hanswered, hstate, ?_⟩
  intro k hk
  rw [mem_singleton.mp hk]
  exact hdone

theorem batches_never_stop (h₀ : Sweepable s₀) {keys : List Bytes} {o : SweepEnd}
    (h : BatchesEnd cluster rounds keys s o s') (hkeys : ∀ key ∈ keys, ascii "/" <+: key)
    (hs : s₀.Within s) :
    s₀.Within s' ∧ ∀ e, o ≠ .stopped e := by
  induction h with
  | nil s => exact ⟨hs, fun e heq => by cases heq⟩
  | notRenewed keys s => exact ⟨hs, fun e heq => by cases heq⟩
  | error hbatch hkey herror =>
    obtain ⟨-, hok⟩ := batch_ok h₀ (fun key hkey => hkeys key (mem_of_mem_take hkey)) hs hbatch
    rw [hok _ hkey] at herror
    cases herror
  | lost hbatch =>
    obtain ⟨hs', -⟩ := batch_ok h₀ (fun key hkey => hkeys key (mem_of_mem_take hkey)) hs hbatch
    exact ⟨hs', fun e heq => by cases heq⟩
  | next hbatch _ _ ih =>
    obtain ⟨hs', -⟩ := batch_ok h₀ (fun key hkey => hkeys key (mem_of_mem_take hkey)) hs hbatch
    exact ih (fun key hkey => hkeys key (mem_of_mem_drop hkey)) hs'

theorem prefix_of_nulTerminated {k : Bytes} (h : ascii "/" <+: nulTerminated k) :
    ∃ t, k = 47 :: t := by
  cases k with
  | nil => exact absurd h (by decide)
  | cons b t =>
    obtain ⟨rest, hrest⟩ := h
    have hb : (47 : UInt8) = b := (List.cons.inj hrest).1
    exact ⟨t, by rw [hb]⟩

theorem sweepPage_ok (cluster : Cluster) (h₀ : Sweepable s₀) (hs : s₀.Within s)
    (startAfter : Bytes) :
    ∃ page, sweepPage cluster s startAfter = .ok page ∧ ∀ key ∈ page.map Prod.fst,
      ascii "/" <+: key := by
  have hstored : ∀ e ∈ (cluster.listPage s.inodes 1000 (ascii "/") startAfter).1,
      (e.2 = .empty ∨ ∃ object, e.2 = .layout object) ∧ ∃ t, e.1 = 47 :: t := by
    intro e he
    obtain ⟨hvalue, hprefix⟩ := mem_of_listPage he
    obtain ⟨t, ht⟩ := prefix_of_nulTerminated hprefix
    refine ⟨?_, t, ht⟩
    rcases h₀ e.1 e.2 ⟨t, ht.symm⟩ (hs _ _ hvalue) with hempty | ⟨object, hobject, -⟩
    · exact .inl hempty
    · exact .inr ⟨object, hobject⟩
  obtain ⟨page, hpage⟩ := rawObjects_ok fun e he => (hstored e he).1
  refine ⟨page, hpage, ?_⟩
  intro key hkey
  obtain ⟨part, hpart, rfl⟩ := mem_map.mp hkey
  obtain ⟨k, hk, htrim⟩ := mem_of_rawObjects hpage hpart
  obtain ⟨t, rfl⟩ := (hstored _ hk).2
  obtain ⟨u, hu⟩ := trimEndMatches_append_cons (by decide : (47 : UInt8) ≠ 0) [] t
  rw [htrim, ← nil_append (47 :: t), hu]
  exact ⟨u, rfl⟩

theorem sweep_never_stops (h₀ : Sweepable s₀) {startAfter : Bytes} {o : SweepEnd}
    (h : SweepEnds cluster rounds startAfter s o s') (hs : s₀.Within s) : ∀ e, o = .stopped e →
    e = .accessDenied := by
  induction h with
  | unauthorized startAfter s =>
    intro e heq
    cases heq
    rfl
  | @listError startAfter s e hpage =>
    obtain ⟨page, hok, -⟩ := sweepPage_ok cluster h₀ hs startAfter
    rw [hpage] at hok
    cases hok
  | empty hpage =>
    intro e heq
    cases heq
  | @page startAfter s s' s'' page last o hpage hlast hbatches hrest ih =>
    obtain ⟨page', hok, hkeys⟩ := sweepPage_ok cluster h₀ hs startAfter
    rw [hpage] at hok
    cases hok
    exact ih (batches_never_stop h₀ hbatches hkeys hs).1
  | @broken startAfter s s' page o hpage hend hbatches =>
    obtain ⟨page', hok, hkeys⟩ := sweepPage_ok cluster h₀ hs startAfter
    rw [hpage] at hok
    cases hok
    intro e heq
    exact absurd heq ((batches_never_stop h₀ hbatches hkeys hs).2 e)

end

/-- **★ A delete that answers an error has deleted nothing** exactly for the values whose state
    gives no error. -/
theorem delete_reports_iff (cluster : Cluster) (rounds : Nat) (s : Site) (key : Bytes) :
    (DeleteReports cluster rounds s key ↔ KeyDeletable cluster s key)
      ∧ (Sweepable s → SweepNeverStops cluster rounds s) := by
  constructor
  · exact deleteReports_iff cluster rounds s key
  · intro h e s' hsweep
    exact sweep_never_stops h hsweep (fun _ _ hvalue => hvalue) e rfl

theorem delete_reports_at_sample :
    DeleteReports sampleCluster 0 (siteWith (.layout sampleUpload.stored)) (ascii "/k")
      ∧ SweepNeverStops sampleCluster 0 (siteWith (.layout sampleUpload.stored)) := by
  have hvalue : ∀ (key : Bytes) (value : Inode),
    (siteWith (.layout sampleUpload.stored)).inodes[key]? = some value →
      value = .layout sampleUpload.stored := by
    exact Namespace.forall_of_toList (by decide +kernel)
  have hnot : ∀ core, sampleUpload.stored.state ≠ .mpu (.completed core) := by
    intro core heq
    cases heq
  refine ⟨(delete_reports_iff sampleCluster 0 _ _).1.mpr ?_,
    (delete_reports_iff sampleCluster 0 _ (ascii "/k")).2 ?_⟩
  · intro value h
    exact .inr ⟨_, hvalue _ _ h, by decide, fun ⟨core, hcore⟩ => absurd hcore (hnot core)⟩
  · intro key value _ h
    exact .inr ⟨_, hvalue _ _ h, by decide, fun ⟨core, hcore⟩ => absurd hcore (hnot core)⟩

theorem delete_upload_fails :
    (deleteOutcome sampleCluster 0 (siteWith (.layout pendingSample)) (ascii "/k")).1
        = .error .invalidObjectState
      ∧ (deleteOutcome sampleCluster 0 (siteWith (.layout pendingSample))
        (ascii "/k")).2.inodes[ascii "/k"]? = none
      ∧ ¬ DeleteReports sampleCluster 0 (siteWith (.layout pendingSample)) (ascii "/k")
      ∧ ∃ s', SweepEnds sampleCluster 0 [] (siteWith (.layout pendingSample))
        (.stopped .invalidObjectState) s'
        ∧ s'.inodes[ascii "/k"]? = none := by
  have hanswer : (deleteOutcome sampleCluster 0 (siteWith (.layout pendingSample)) (ascii "/k")).1
      = .error .invalidObjectState := by decide +kernel
  have hgone :
    (deleteOutcome sampleCluster 0 (siteWith (.layout pendingSample)) (ascii "/k")).2.inodes[ascii
      "/k"]? = none := by decide +kernel
  refine ⟨hanswer, hgone, ?_, ?_⟩
  · intro hreports
    have hsame := hreports.failed _ hanswer
    rw [hgone, getElem?_siteWith, if_pos rfl] at hsame
    cases hsame
  · have hpage : sweepPage sampleCluster (siteWith (.layout pendingSample)) []
        = .ok [(ascii "/k", pendingSample)] := by decide +kernel
    have hbatches : BatchesEnd sampleCluster 0 [ascii "/k"] (siteWith (.layout pendingSample))
        (.stopped .invalidObjectState) (deleteOutcome sampleCluster 0 _ (ascii "/k")).2 :=
      .error (batchEnds_single ..) (mem_singleton.mpr rfl) (by rw [hanswer]; rfl)
    exact ⟨_, .broken hpage (by intro heq; cases heq) hbatches, hgone⟩

end FractalBits.Objects
