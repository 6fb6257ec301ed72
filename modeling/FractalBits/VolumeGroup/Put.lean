/-
  VolumeGroup.Put — quorum writes of one block.

  Mirrors `put_blob_inner`, `put_blob_vectored` and `put_blob_ec` of `data_vg_proxy.rs`.
-/

import FractalBits.Lib.WriteOnce
import FractalBits.VolumeGroup.EcLayout

namespace FractalBits.VolumeGroup

open Lib List

/-! ## §1. Messages and results -/

/-- What a node stores under one key: the bytes, and the tag of the erasure-coded write they belong
    to (0 for a replica). -/
structure NodeBlob where
  body : Bytes
  cohortTag : UInt64
  deriving DecidableEq, Repr

inductive PutBlobOutcome
  | stored
  | alreadyPresent
  deriving DecidableEq, Repr

inductive PutReply
  | ok
  | versionSkipped
  | mismatch
  | failed
  deriving DecidableEq, Repr

def PutReply.isAck : PutReply → Bool
  | .ok | .versionSkipped => true
  | .mismatch | .failed => false

/-- The errors of the volume group's calls, with the numbers their texts print. -/
inductive DataVgError
  | mismatch
  | blockNotFound
  | insufficientNodes (available nodes quorum : Nat)
  | writeQuorumFailed (successful quorum : Nat)
  | cohortMismatch
  | noCohort (dataShards received : Nat)
  | noAvailableNodes
  | allReadsFailed
  | listInsufficientNodes (required available nodes : Nat)
  | listQuorumFailed (received required : Nat)
  | noShards
  | rsEncodeFailed
  | rsReconstructFailed
  | missingShard (index : Nat)
  deriving DecidableEq, Repr

/-! ## §2. The quorum loop -/

structure PutCall where
  quorum : Nat
  pending : List Nat
  successfulWrites : Nat
  outcome : PutBlobOutcome
  finished : Option (Except DataVgError PutBlobOutcome)
  deriving DecidableEq, Repr

def PutCall.start (nodes quorum : Nat) (targets : List Nat) : PutCall :=
  if targets.length < quorum then
    -- nothing is sent
    { quorum, pending := [], successfulWrites := 0, outcome := .stored
      finished := some (.error (.insufficientNodes targets.length nodes quorum)) }
  else
    { quorum, pending := targets, successfulWrites := 0, outcome := .stored, finished := none }

def PutCall.settle (c : PutCall) : PutCall :=
  if c.successfulWrites ≥ c.quorum then { c with finished := some (.ok c.outcome) }
  else if c.pending = [] then
    { c with finished := some (.error (.writeQuorumFailed c.successfulWrites c.quorum)) }
  else c

def PutCall.reply (c : PutCall) (node : Nat) (r : PutReply) : PutCall :=
  let c := { c with pending := c.pending.erase node }
  match r with
  | .ok => { c with successfulWrites := c.successfulWrites + 1 }.settle
  | .versionSkipped =>
    { c with
      successfulWrites := c.successfulWrites + 1
      outcome := .alreadyPresent }.settle
  | .mismatch => { c with finished := some (.error .mismatch) }
  | .failed => c.settle

def PutCall.step (c : PutCall) (answer : Nat × PutReply) : Option PutCall :=
  if c.finished.isSome ∨ answer.1 ∉ c.pending then none
  else some (c.reply answer.1 answer.2)

def PutCall.run (c : PutCall) : List (Nat × PutReply) → Option PutCall
  | [] => some c
  | answer :: rest => (c.step answer).bind fun c => c.run rest

/-! ## §3. The three entry points -/

def replicatedWrites (nodes : Nat) (available : Nat → Bool) (body : Bytes) :
    List (Nat × NodeBlob) :=
  ((List.range nodes).filter available).map fun node => (node, ⟨body, 0⟩)

def ecWrites (total rotation : Nat) (available : Nat → Bool) (shards : List Bytes)
    (cohortTag : UInt64) : List (Nat × NodeBlob) :=
  (shards.zipIdx.map fun (shard, i) => (nodeIndex i rotation total, ⟨shard, cohortTag⟩)).filter
    fun (node, _) => available node

/-- `put_blob_ec` up to its first answer: the call and the writes it sent. -/
def putBlobEc (P : EcPrims) (k m rotation : Nat) (available : Nat → Bool) (body : Bytes) :
    PutCall × List (Nat × NodeBlob) :=
  if body.isEmpty then
    -- empty body: nothing to encode or store
    (⟨k + 1, [], 0, .stored, some (.ok .stored)⟩, [])
  else
    let padded := padBody k body
    match encodeShards P.rs k m padded with
    | none => (⟨k + 1, [], 0, .stored, some (.error .rsEncodeFailed)⟩, [])
    | some shards =>
      let writes := ecWrites (k + m) rotation available shards (ecCohortTag P padded)
      let call := PutCall.start (k + m) (k + 1) (writes.map Prod.fst)
      (call, if call.finished.isSome then [] else writes)

def putBlob (P : EcPrims) (v : Volume) (rotation : Nat) (available : Nat → Bool) (body : Bytes) :
    PutCall × List (Nat × NodeBlob) :=
  match v.mode with
  | .erasureCoded k m => putBlobEc P k m rotation available body
  | .replicated _ _ w =>
    let writes := replicatedWrites v.nodes available body
    let call := PutCall.start v.nodes w (writes.map Prod.fst)
    (call, if call.finished.isSome then [] else writes)

/-- `put_blob_vectored`: an erasure-coded volume gets the chunks concatenated. -/
def putBlobVectored (P : EcPrims) (v : Volume) (rotation : Nat) (available : Nat → Bool)
    (chunks : List Bytes) : PutCall × List (Nat × NodeBlob) :=
  putBlob P v rotation available chunks.flatten

/-! ## §4. Acknowledgements are distinct nodes -/

structure PutInv (nodes : Nat) (H : Nat → Prop) (c : PutCall) : Prop where
  acked : Tally nodes H c.pending c.successfulWrites
  finished_ok : ∀ outcome, c.finished = some (.ok outcome) → c.quorum ≤ c.successfulWrites

theorem putInv_start (nodes quorum : Nat) (targets : List Nat) (H : Nat → Prop)
    (hnodup : targets.Nodup) (hlt : ∀ i ∈ targets, i < nodes) :
    PutInv nodes H (PutCall.start nodes quorum targets) := by
  unfold PutCall.start
  split
  · exact ⟨Tally.start nodup_nil (by simp), by simp⟩
  · exact ⟨Tally.start hnodup hlt, by simp⟩

variable {nodes rotation : Nat} {H : Nat → Prop} {c : PutCall}

theorem putInv_mono {H' : Nat → Prop} (hc : PutInv nodes H c)
    (h : ∀ i, H i → H' i) : PutInv nodes H' c := ⟨hc.acked.mono h, hc.finished_ok⟩

theorem putInv_settle (hc : PutInv nodes H c) :
    PutInv nodes H c.settle := by
  unfold PutCall.settle
  split
  · next hq => exact ⟨hc.acked, fun _ _ => hq⟩
  · split
    · exact ⟨hc.acked, by simp⟩
    · exact hc

theorem putInv_reply (hc : PutInv nodes H c)
    {node : Nat} {r : PutReply} (hpending : node ∈ c.pending) (hrun : c.finished = none)
    (hack : r.isAck = true → H node) : PutInv nodes H (c.reply node r) := by
  cases r with
  | ok => exact putInv_settle ⟨hc.acked.count_one hpending (hack rfl), by simp [hrun]⟩
  | versionSkipped => exact putInv_settle ⟨hc.acked.count_one hpending (hack rfl), by simp [hrun]⟩
  | mismatch => exact ⟨hc.acked.drop node, fun _ h => by cases h⟩
  | failed => exact putInv_settle ⟨hc.acked.drop node, by simp [hrun]⟩

theorem step_eq_some {c' : PutCall} {answer : Nat × PutReply} (h : c.step answer = some c') :
    c.finished = none ∧ answer.1 ∈ c.pending ∧ c' = c.reply answer.1 answer.2 := by
  unfold PutCall.step at h
  split at h
  · cases h
  · next hguard =>
      rw [not_or, not_not] at hguard
      injection h with h
      exact ⟨by simpa using hguard.1, hguard.2, h.symm⟩

theorem putInv_run (answers : List (Nat × PutReply))
    {c' : PutCall} (hc : PutInv nodes H c) (h : c.run answers = some c')
    (hack : ∀ a ∈ answers, a.2.isAck = true → H a.1) : PutInv nodes H c' := by
  induction answers generalizing c with
  | nil =>
    injection h with h
    exact h ▸ hc
  | cons answer rest ih =>
    obtain ⟨c₁, hstep, hrest⟩ := Option.bind_eq_some_iff.mp h
    obtain ⟨hrun, hpending, rfl⟩ := step_eq_some hstep
    refine ih (putInv_reply hc hpending hrun (hack answer mem_cons_self)) hrest ?_
    exact fun a ha => hack a (mem_cons_of_mem _ ha)

theorem put_ok_acked (hc : PutInv nodes H c)
    {outcome : PutBlobOutcome} (h : c.finished = some (.ok outcome)) :
    ∃ acked : List Nat, acked.Nodup ∧ c.quorum ≤ acked.length ∧ ∀ i ∈ acked, i < nodes ∧ H i := by
  obtain ⟨acked, hnodup, hlen, hall⟩ := hc.acked.counted
  have hq := hc.finished_ok outcome h
  exact ⟨acked, hnodup, by omega, fun i hi => ⟨(hall i hi).1, (hall i hi).2.2⟩⟩

/-! ## §5. The writes of a put -/

theorem replicatedWrites_targets (nodes : Nat) (available : Nat → Bool) (body : Bytes) :
    ((replicatedWrites nodes available body).map Prod.fst).Nodup ∧
    ∀ i ∈ (replicatedWrites nodes available body).map Prod.fst, i < nodes := by
  have htargets : (replicatedWrites nodes available body).map Prod.fst
      = (List.range nodes).filter available := by
    simp [replicatedWrites, Function.comp_def]
  rw [htargets]
  exact ⟨nodup_range.filter _, fun i hi => mem_range.mp (mem_of_mem_filter hi)⟩

theorem mem_ecWrites {total : Nat} {available : Nat → Bool} {shards : List Bytes}
    {tag : UInt64} {w : Nat × NodeBlob} (h : w ∈ ecWrites total rotation available shards tag) :
    ∃ i, i < shards.length ∧ w.1 = nodeIndex i rotation total ∧ shards[i]? = some w.2.body ∧
      w.2.cohortTag = tag := by
  obtain ⟨⟨shard, i⟩, hmem, rfl⟩ := mem_map.mp (mem_of_mem_filter h)
  have hget := mem_zipIdx_iff_getElem?.mp hmem
  exact ⟨i, (List.getElem?_eq_some_iff.mp hget).1, rfl, hget, rfl⟩

theorem ecWrites_targets {total : Nat} (hr : rotation < total) (available : Nat → Bool)
    {shards : List Bytes} (hlen : shards.length = total) (tag : UInt64) :
    ((ecWrites total rotation available shards tag).map Prod.fst).Nodup ∧
    ∀ i ∈ (ecWrites total rotation available shards tag).map Prod.fst, i < total := by
  have hall : (shards.zipIdx.map fun (shard, i) =>
        ((nodeIndex i rotation total, ⟨shard, tag⟩) : Nat × NodeBlob)).map Prod.fst
      = (List.range total).map fun i => nodeIndex i rotation total := by
    rw [map_map, ← hlen, range_eq_range', ← zipIdx_map_snd 0 shards, map_map]
    rfl
  have hnodup : ((List.range total).map fun i => nodeIndex i rotation total).Nodup :=
    nodup_range.map_on fun i hi j hj h =>
      nodeIndex_injOn (mem_range.mp hi) (mem_range.mp hj) hr h
  have hsub : ((ecWrites total rotation available shards tag).map Prod.fst).Sublist
      ((List.range total).map fun i => nodeIndex i rotation total) := by
    rw [← hall]
    exact filter_sublist.map Prod.fst
  refine ⟨hnodup.sublist hsub, fun i hi => ?_⟩
  obtain ⟨j, -, rfl⟩ := mem_map.mp (hsub.subset hi)
  exact nodeIndex_lt j rotation (by omega)

theorem putBlobEc_spec {P : EcPrims} {k m : Nat} (hrs : P.rs.Restores k m) (hk : 0 < k)
    (hr : rotation < k + m) (available : Nat → Bool) {body : Bytes} (hbody : body ≠ [])
    (H : Nat → Prop) :
    (putBlobEc P k m rotation available body).1.quorum = k + 1 ∧
    PutInv (k + m) H (putBlobEc P k m rotation available body).1 ∧
    ∀ w ∈ (putBlobEc P k m rotation available body).2, ∃ shards i,
      IsStripe P k m (padBody k body) shards ∧ i < k + m ∧ w.1 = nodeIndex i rotation (k + m) ∧
      shards[i]? = some w.2.body ∧ w.2.cohortTag = ecCohortTag P (padBody k body) := by
  have hnil : body.isEmpty = false := by simpa using hbody
  have hdvd : k ∣ (padBody k body).length := by
    rw [padBody_length]
    exact dvd_ecPaddedLen body.length k hk
  unfold putBlobEc
  rw [if_neg (by simp [hnil])]
  dsimp only
  cases henc : encodeShards P.rs k m (padBody k body) with
  | none => exact ⟨rfl, ⟨Tally.start nodup_nil (by simp), by simp⟩, by simp⟩
  | some shards =>
    obtain ⟨parity, -, hshards, hplen, -⟩ := encodeShards_shape hrs hdvd henc
    have hlen : shards.length = k + m := by rw [hshards]; simp [hplen]
    obtain ⟨hnodup, hlt⟩ := ecWrites_targets hr available hlen (ecCohortTag P (padBody k body))
    refine ⟨?_, putInv_start _ _ _ H hnodup hlt, ?_⟩
    · dsimp only
      unfold PutCall.start
      split <;> rfl
    · intro w hw
      dsimp only at hw
      split at hw
      · cases hw
      · obtain ⟨i, hi, hnode, hshard, htag⟩ := mem_ecWrites hw
        exact ⟨shards, i, ⟨henc, hdvd⟩, by omega, hnode, hshard, htag⟩

theorem reply_quorum (c : PutCall) (node : Nat) (r : PutReply) :
    (c.reply node r).quorum = c.quorum := by
  have hsettle : ∀ c : PutCall, c.settle.quorum = c.quorum := by
    intro c
    unfold PutCall.settle
    split
    · rfl
    · split <;> rfl
  cases r with
  | ok => exact hsettle _
  | versionSkipped => exact hsettle _
  | mismatch => rfl
  | failed => exact hsettle _

end FractalBits.VolumeGroup
