/-
  VolumeGroup.Absence — absence answers are sound.

  A put that returned Ok was acknowledged by a write quorum of nodes, which keep answering that they
  hold the block.
-/

import FractalBits.VolumeGroup.GetEcInvariant
import FractalBits.VolumeGroup.ReadQuorum

namespace FractalBits.VolumeGroup

open Lib

/-! ## §1. The write quorum -/

theorem run_quorum (answers : List (Nat × PutReply)) {c c' : PutCall}
    (h : c.run answers = some c') :
    c'.quorum = c.quorum := by
  induction answers generalizing c with
  | nil =>
    injection h with h
    rw [h]
  | cons answer rest ih =>
    obtain ⟨c₁, hstep, hrest⟩ := Option.bind_eq_some_iff.mp h
    obtain ⟨-, -, rfl⟩ := step_eq_some hstep
    exact (ih hrest).trans (reply_quorum ..)

def StartsPut (P : EcPrims) (v : Volume) (rotation : Nat) (available : Nat → Bool) (body : Bytes)
    (start : PutCall) : Prop :=
  start = (putBlob P v rotation available body).1 ∨
  ∃ chunks : List Bytes, chunks.flatten = body ∧
    start = (putBlobVectored P v rotation available chunks).1

theorem startsPut_inv {P : EcPrims} {v : Volume} (hv : v.validate = .ok ()) (crc32 : UInt32)
    (hrs : ∀ k m, v.mode = .erasureCoded k m → P.rs.Restores k m) {available : Nat → Bool}
    {body : Bytes} (hbody : (∃ k m, v.mode = .erasureCoded k m) → body ≠ []) {start : PutCall}
    (hstart : StartsPut P v (ecRotation crc32 v.nodes) available body start) (H : Nat → Prop) :
    start.quorum = v.writeQuorum ∧ PutInv v.nodes H start := by
  have hput : start = (putBlob P v (ecRotation crc32 v.nodes) available body).1 := by
    rcases hstart with h | ⟨chunks, hchunks, h⟩
    · exact h
    · rw [h, putBlobVectored, hchunks]
  obtain ⟨id, nodes, mode⟩ := v
  cases mode with
  | replicated n r w =>
    obtain ⟨hnodup, hlt⟩ := replicatedWrites_targets nodes available body
    rw [hput]
    refine ⟨?_, putInv_start nodes w _ H hnodup hlt⟩
    show (PutCall.start nodes w _).quorum = w
    unfold PutCall.start
    split <;> rfl
  | erasureCoded k m =>
    obtain ⟨hm, hmk, hn⟩ := validate_erasureCoded hv
    subst hn
    have hspec := putBlobEc_spec (hrs k m rfl) (show 0 < k by omega)
      (ecRotation_lt crc32 (show 0 < k + m by omega)) available (hbody ⟨k, m, rfl⟩) H
    rw [hput]
    exact ⟨hspec.1, hspec.2.1⟩

theorem put_ok_quorum {P : EcPrims} {v : Volume} (hv : v.validate = .ok ()) (crc32 : UInt32)
    (hrs : ∀ k m, v.mode = .erasureCoded k m → P.rs.Restores k m) {available : Nat → Bool}
    {body : Bytes} (hbody : (∃ k m, v.mode = .erasureCoded k m) → body ≠ []) {start : PutCall}
    (hstart : StartsPut P v (ecRotation crc32 v.nodes) available body start)
    {answers : List (Nat × PutReply)} {call : PutCall} (hput : start.run answers = some call)
    {outcome : PutBlobOutcome} (hok : call.finished = some (.ok outcome)) {Holds : Nat → Prop}
    (hholds : ∀ a ∈ answers, a.2.isAck = true → Holds a.1) :
    ∃ acked : List Nat, acked.Nodup ∧ v.writeQuorum ≤ acked.length ∧
      ∀ i ∈ acked, i < v.nodes ∧ Holds i := by
  obtain ⟨hquorum, hinv⟩ := startsPut_inv hv crc32 hrs hbody hstart Holds
  obtain ⟨acked, hnodup, hlen, hall⟩ := put_ok_acked (putInv_run answers hinv hput hholds) hok
  rw [run_quorum answers hput, hquorum] at hlen
  exact ⟨acked, hnodup, hlen, hall⟩

/-! ## §2. The three absence rules -/

theorem absent_quorum_impossible {n quorum count : Nat} {Holds : Nat → Prop} {pending : List Nat}
    (hacked : ∃ acked : List Nat, acked.Nodup ∧ quorum ≤ acked.length ∧
      ∀ i ∈ acked, i < n ∧ Holds i)
    (hcounted : Tally n (fun i => ¬ Holds i) pending count) (h : n < count + quorum) : False := by
  obtain ⟨acked, hnodup, hlen, hall⟩ := hacked
  obtain ⟨counted, hcnodup, hclen, hcall⟩ := hcounted.counted
  obtain ⟨i, hi, hi'⟩ := quorums_meet n acked counted hnodup hcnodup
    (fun i hi => (hall i hi).1) (fun i hi => (hcall i hi).1) (by omega)
  exact (hcall i hi').2.2 (hall i hi).2

theorem assembleShards_error {restored : Nat → Option Bytes} {l : List (Option Bytes × Nat)}
    {e : DataVgError} (h : assembleShards restored l = .error e) : ∃ i, e = .missingShard i := by
  induction l with
  | nil => cases h
  | cons s rest ih =>
    obtain ⟨shard, i⟩ := s
    unfold assembleShards at h
    split at h
    · injection h with h
      exact ⟨i, h.symm⟩
    · cases hrest : assembleShards restored rest with
      | error e' =>
        rw [hrest] at h
        injection h with h
        rw [h] at hrest
        exact ih hrest
      | ok data =>
        rw [hrest] at h
        cases h

variable {E : EcRead}

theorem inlineRepair_error {c : GetCall} {tag : UInt64} {size : Nat} {padded : Bytes}
    {e : DataVgError} (h : inlineRepair E c tag size padded = some (.error e)) : e
    = .rsEncodeFailed := by
  unfold inlineRepair at h
  dsimp only at h
  split at h
  · cases h
  · split at h
    · cases h
    · split at h
      · injection h with h
        injection h with h
        exact h.symm
      · obtain ⟨x, -, hx⟩ := Option.map_eq_some_iff.mp h
        cases hx

theorem degradedResult_blockNotFound {c : GetCall}
    (h : degradedResult E c = .err .blockNotFound) : E.m ≤ c.shardsNotFound := by
  unfold degradedResult at h
  split at h
  · split at h
    · next hnone => exact hnone.2
    · cases h
  · split at h
    · cases h
    · dsimp only at h
      split at h
      · cases h
      · split at h
        · next e he =>
            obtain ⟨i, rfl⟩ := assembleShards_error he
            cases h
        · split at h
          · cases h
          · split at h
            · cases h
            · next e he =>
                rw [inlineRepair_error he] at h
                cases h
            · cases h

theorem fastResult_ne_blockNotFound (E : EcRead) (c : GetCall) (tag : UInt64) :
    fastResult E c tag ≠ .err .blockNotFound := by
  unfold fastResult
  split
  · simp
  · dsimp only
    split <;> simp

theorem getEnd_blockNotFound {Held : Nat → NodeBlob → Prop} {Absent Good : Nat → Prop}
    {len : Nat} (hend : GetEnd E Held Absent Good len (.err .blockNotFound)) :
    ∃ c, GetInv E Held Absent Good len c ∧ E.m ≤ c.shardsNotFound := by
  generalize hr : GetResult.err .blockNotFound = r at hend
  cases hend with
  | empty => cases hr
  | fast hc _ _ => exact absurd hr.symm (fastResult_ne_blockNotFound _ _ _)
  | degraded hc _ _ => exact ⟨_, hc, degradedResult_blockNotFound hr.symm⟩
  | notFound hc _ hquorum => exact ⟨_, hc, hquorum⟩

/-! ## §3. Soundness -/

section Sound

variable {v : Volume} (hv : v.validate = .ok ()) {Holds : Nat → Prop}
  (hacked : ∃ acked : List Nat, acked.Nodup ∧ v.writeQuorum ≤ acked.length ∧
    ∀ i ∈ acked, i < v.nodes ∧ Holds i)

include hv hacked

theorem replica_read_not_absent {n r w : Nat} (hmode : v.mode = .replicated n r w) {R : ReplicaRead}
    (hnodes : R.nodes = v.nodes) (hquorum : R.writeQuorum = w) {events : List ReplicaEvent}
    (hevents : ∀ node, .poll node .notFound ∈ events → ¬ Holds node) {c : ReplicaCall}
    (hrun : (ReplicaCall.start R).run R events = some c) :
    c.finished ≠ some (.error .blockNotFound) := by
  intro hfin
  have hinv := replicaInv_run events (replicaInv_start R fun i => ¬ Holds i) hevents hrun
  have hcount := hinv.not_found hfin
  have hw : v.writeQuorum = w := by rw [Volume.writeQuorum, hmode]
  have hle := writeQuorum_le_nodes hv
  have htally := hinv.tally
  rw [hnodes] at htally
  refine absent_quorum_impossible hacked htally ?_
  unfold ReplicaRead.absenceQuorum at hcount
  omega

theorem ec_read_not_absent {k m : Nat} (hmode : v.mode = .erasureCoded k m) {crc32 : UInt32}
    {E : EcRead} (hk : E.k = k) (hm : E.m = m) (hrotation : E.rotation = ecRotation crc32 v.nodes)
    {len : Nat} {events : List GetEvent}
    (hevents : ∀ i, .reply i .notFound ∈ events → ¬ Holds (nodeIndex i E.rotation (k + m)))
    {c : GetCall} (hrun : (GetCall.start E len).run E events = some c) :
    c.finished ≠ some (.err .blockNotFound) := by
  obtain ⟨vid, nodes, mode⟩ := v
  have hmode : mode = .erasureCoded k m := hmode
  subst hmode hk hm
  obtain ⟨hm, hmk, hn⟩ := validate_erasureCoded hv
  subst hn
  intro hfin
  have hok := getOk_run (E := E) (fun _ h => h.elim) events
    (getOk_start (fun _ h => h.elim) :
      GetOk E (fun _ _ => True) (fun i => ¬ Holds (nodeIndex i E.rotation (E.k + E.m)))
        (fun _ => False) len (GetCall.start E len)) (by
      intro e he
      cases e with
      | hedge => trivial
      | reply i r =>
        cases r with
        | ok blob => trivial
        | notFound => exact ⟨hevents i he, id⟩
        | failed => exact id) hrun
  obtain ⟨c', hinv, hcount⟩ := getEnd_blockNotFound (hok.ended _ hfin)
  -- the shard positions that answered NotFound are distinct nodes
  obtain ⟨nf, hnodup, hlen, hall⟩ := hinv.absent
  have hr : E.rotation < E.k + E.m := by
    rw [hrotation]
    exact ecRotation_lt crc32 (show 0 < E.k + E.m by omega)
  have htally : Tally (E.k + E.m) (fun i => ¬ Holds i) [] nf.length := by
    refine ⟨List.nodup_nil, by simp, nf.map fun i => nodeIndex i E.rotation (E.k + E.m), ?_,
      List.length_map .., ?_⟩
    · exact hnodup.map_on fun i hi j hj h => nodeIndex_injOn (hall i hi).1 (hall j hj).1 hr h
    · intro j hj
      obtain ⟨i, hi, rfl⟩ := List.mem_map.mp hj
      exact ⟨nodeIndex_lt i _ (by omega), by simp, (hall i hi).2.1⟩
  refine absent_quorum_impossible hacked htally ?_
  show E.k + E.m < nf.length + (E.k + 1)
  omega

theorem listing_has_block {requireAllNodes : Bool} {available : Nat → Bool}
    {key : UInt32 × UInt64} {answers : List (Nat × ListReply)}
    (hlists : ∀ node nodeEntries, (node, .ok nodeEntries) ∈ answers → Holds node →
      HasKey key nodeEntries) {c : ListCall}
    (hrun : (ListCall.start v requireAllNodes available).run answers = some c)
    {result : List BlobBlockEntry} (hfin : c.finished = some (.ok result)) : HasKey key result := by
  have hinv := listInv_run answers (listInv_start v requireAllNodes available) hrun hlists
  obtain ⟨rfl, hcount⟩ := hinv.finished_ok result hfin
  obtain ⟨acked, hnodup, hlen, hall⟩ := hacked
  obtain ⟨listed, hlnodup, hllen, hlall⟩ := hinv.tally.counted
  have hmeet := absenceQuorum_meets_writeQuorum hv
  have hle := writeQuorum_le_nodes hv
  have hrequired : v.absenceQuorum ≤ v.requiredResponses requireAllNodes := by
    unfold Volume.requiredResponses
    split
    · have hpos : 1 ≤ v.writeQuorum := by
        obtain ⟨id, nodes, mode⟩ := v
        cases mode with
        | replicated n r w => exact (validate_replicated hv).1
        | erasureCoded k m => exact Nat.le_add_left 1 k
      omega
    · exact le_rfl
  obtain ⟨i, hi, hi'⟩ := quorums_meet v.nodes acked listed hnodup hlnodup
    (fun i hi => (hall i hi).1) (fun i hi => (hlall i hi).1) (by omega)
  exact (hlall i hi').2.2 (hall i hi).2

end Sound

/-- ★ **Absence answers are sound.** When a put of a block, with a non-empty body if the volume is
    erasure-coded, has returned Ok, and the nodes that acknowledged it keep the block: no later read
    of the key says BlockNotFound, and every later listing that returns Ok has its block and
    version, whichever nodes are skipped, fail or answer. -/
theorem absence_answers_sound (P : EcPrims) (v : Volume) (hv : v.validate = .ok ()) (crc32 : UInt32)
    (hrs : ∀ k m, v.mode = .erasureCoded k m → P.rs.Restores k m)
    (available : Nat → Bool) (body : Bytes)
    (hbody : (∃ k m, v.mode = .erasureCoded k m) → body ≠ []) (start : PutCall)
    (hstart : StartsPut P v (ecRotation crc32 v.nodes) available body start)
    (answers : List (Nat × PutReply)) (call : PutCall) (hput : start.run answers = some call)
    (outcome : PutBlobOutcome) (hok : call.finished = some (.ok outcome)) (Holds : Nat → Prop)
    (hholds : ∀ a ∈ answers, a.2.isAck = true → Holds a.1) :
    (∀ n r w, v.mode = .replicated n r w → ∀ R : ReplicaRead, R.nodes = v.nodes →
      R.writeQuorum = w → ∀ events c, (∀ node, .poll node .notFound ∈ events → ¬ Holds node) →
      (ReplicaCall.start R).run R events = some c → c.finished ≠ some (.error .blockNotFound)) ∧
    (∀ k m, v.mode = .erasureCoded k m → ∀ E : EcRead, E.P = P → E.k = k → E.m = m →
      E.rotation = ecRotation crc32 v.nodes → ∀ len events c,
      (∀ i, .reply i .notFound ∈ events → ¬ Holds (nodeIndex i E.rotation (k + m))) →
      (GetCall.start E len).run E events = some c → c.finished ≠ some (.err .blockNotFound)) ∧
    (∀ requireAllNodes listAvailable key listings c result,
      (∀ node nodeEntries, (node, .ok nodeEntries) ∈ listings → Holds node →
        HasKey key nodeEntries) →
      (ListCall.start v requireAllNodes listAvailable).run listings = some c →
      c.finished = some (.ok result) → HasKey key result) := by
  have hacked := put_ok_quorum hv crc32 hrs hbody hstart hput hok hholds
  refine ⟨?_, ?_, ?_⟩
  · intro n r w hmode R hnodes hquorum events c hevents hrun
    exact replica_read_not_absent hv hacked hmode hnodes hquorum hevents hrun
  · intro k m hmode E _ hk hm hrotation len events c hevents hrun
    exact ec_read_not_absent hv hacked hmode hk hm hrotation hevents hrun
  · intro requireAllNodes listAvailable key listings c result hlists hrun hfin
    exact listing_has_block hv hacked hlists hrun hfin

theorem absence_answers_sound_two_of_three :
    let v : Volume := ⟨1, 3, .replicated 3 1 2⟩
    let all : Nat → Bool := fun _ => true
    let R : ReplicaRead := ⟨3, 2, all, 2, all⟩
    ∃ call c, ((putBlob ⟨xorCode, fun _ => 7⟩ v (ecRotation 1 3) all [5]).1.run
        [(0, .ok), (1, .versionSkipped)] = some call ∧
        call.finished = some (.ok .alreadyPresent)) ∧
      (ReplicaCall.start R).run R [.fast .notFound, .poll 2 .notFound, .poll 1 (.ok ⟨[5], 0⟩)]
        = some c ∧ c.finished ≠ some (.error .blockNotFound) := by
  intro v all R
  obtain ⟨call, hcall⟩ := Option.isSome_iff_exists.mp
    (show ((putBlob ⟨xorCode, fun _ => 7⟩ v (ecRotation 1 3) all [5]).1.run
      [(0, .ok), (1, .versionSkipped)]).isSome = true by decide +kernel)
  have hok : call.finished = some (.ok .alreadyPresent) := by
    have hdone : ((putBlob ⟨xorCode, fun _ => 7⟩ v (ecRotation 1 3) all [5]).1.run
      [(0, .ok), (1, .versionSkipped)]).bind PutCall.finished = some (.ok .alreadyPresent) := by
      decide +kernel
    rw [hcall] at hdone
    exact hdone
  obtain ⟨c, hc⟩ := Option.isSome_iff_exists.mp
    (show ((ReplicaCall.start R).run R [.fast .notFound, .poll 2 .notFound,
      .poll 1 (.ok ⟨[5], 0⟩)]).isSome = true by decide +kernel)
  refine ⟨call, c, ⟨hcall, hok⟩, hc, ?_⟩
  refine (absence_answers_sound ⟨xorCode, fun _ => 7⟩ v rfl 1 (fun k m h => by cases h) all [5]
    (by simp) _ (.inl rfl) _ call hcall _ hok (fun i => i < 2) (by decide)).1 3 1 2 rfl R rfl rfl _
      c
    (fun node h => ?_) hc
  have hnode : node = 2 := by simpa using h
  omega

theorem empty_ec_put_is_absent :
    let v : Volume := ⟨0x8000, 3, .erasureCoded 2 1⟩
    let all : Nat → Bool := fun _ => true
    let P : EcPrims := ⟨xorCode, fun _ => 7⟩
    let E : EcRead := ⟨P, 2, 1, ecRotation 1 3, all, all, all⟩
    v.validate = .ok () ∧
    (putBlob P v (ecRotation 1 3) all []).1.finished = some (.ok .stored) ∧
    (putBlob P v (ecRotation 1 3) all []).2 = [] ∧
    ((GetCall.start E 1).run E [.reply 0 .notFound]).bind GetCall.finished
      = some (.err .blockNotFound) ∧
    ((ListCall.start v false all).run [(0, .ok [])]).bind ListCall.finished = some (.ok []) := by
  decide +kernel

end FractalBits.VolumeGroup
