/-
  VolumeGroup.EcRead — an acknowledged erasure-coded block is readable from any `k` of its shards.

  At least `k + 1` nodes stored shards (`acked`); at least `k` of them answer.
-/

import FractalBits.VolumeGroup.GetEcInvariant

namespace FractalBits.VolumeGroup

open Lib

/-! ## §1. The surroundings of the read -/

/-- A put's block on the nodes, and what a later read can count on. -/
structure ReadSetting where
  E : EcRead
  body : Bytes
  /-- which nodes the put's circuit breakers let through -/
  putAvailable : Nat → Bool
  /-- what each node holds for the key -/
  nodes : Nat → Option NodeBlob
  acked : List Nat
  answering : List Nat

variable (S : ReadSetting)

def ReadSetting.total : Nat := S.E.k + S.E.m

def ReadSetting.node (i : Nat) : Nat := nodeIndex i S.E.rotation S.total

def ReadSetting.tag : UInt64 := ecCohortTag S.E.P (padBody S.E.k S.body)

/-- The put stored its shards; the answering nodes are among the acknowledged ones and available. -/
structure ReadSetting.Stored : Prop where
  body_ne_nil : S.body ≠ []
  acked_nodup : S.acked.Nodup
  acked_quorum : S.E.k + 1 ≤ S.acked.length
  acked_stored : ∀ j ∈ S.acked, ∃ blob,
    (j, blob) ∈ (putBlobEc S.E.P S.E.k S.E.m S.E.rotation S.putAvailable S.body).2 ∧
    S.nodes j = some blob
  answering_nodup : S.answering.Nodup
  answering_acked : ∀ j ∈ S.answering, j ∈ S.acked
  answering_enough : S.E.k ≤ S.answering.length
  answering_available : ∀ i < S.total, S.node i ∈ S.answering →
    (i < S.E.k → S.E.dataAvailable (S.node i) = true) ∧
    (S.E.k ≤ i → S.E.parityAvailable (S.node i) = true)

/-- An answering node answers with its shard, others may fail, answer NotFound if they hold nothing,
    or, outside the acknowledged ones, answer with the shard of another cohort. -/
def ReadSetting.Allows : GetEvent → Prop
  | .reply i (.ok blob) => S.nodes (S.node i) = some blob ∧
      (S.node i ∈ S.acked ∨ blob.cohortTag ≠ S.tag)
  | .reply i .notFound => S.nodes (S.node i) = none
  | .reply i .failed => S.node i ∉ S.answering
  | .hedge => True

def ReadSetting.Held (i : Nat) (blob : NodeBlob) : Prop :=
  S.nodes (S.node i) = some blob ∧ (S.node i ∈ S.acked ∨ blob.cohortTag ≠ S.tag)

def ReadSetting.Absent (i : Nat) : Prop := S.nodes (S.node i) = none

def ReadSetting.Good (i : Nat) : Prop := i < S.total ∧ S.node i ∈ S.answering

variable {S}

/-! ## §2. What the nodes hold -/

section Stored

variable (hS : S.Stored) (hrs : S.E.P.rs.Restores S.E.k S.E.m) (hk : 0 < S.E.k)
  (hr : S.E.rotation < S.total)

include hS hrs hk hr

theorem acked_holds {j : Nat} (hj : j ∈ S.acked) : j < S.total ∧
    ∃ shards blob, IsStripe S.E.P S.E.k S.E.m (padBody S.E.k S.body) shards ∧
      S.nodes j = some blob ∧ blob.cohortTag = S.tag ∧
      shards[shardIndex j S.E.rotation S.total]? = some blob.body := by
  obtain ⟨blob, hwrite, hnode⟩ := hS.acked_stored j hj
  obtain ⟨-, -, hwrites⟩ :=
    putBlobEc_spec hrs hk hr S.putAvailable hS.body_ne_nil fun _ => True
  obtain ⟨shards, i, hstripe, hi, hji, hshard, htag⟩ := hwrites _ hwrite
  have hji : j = nodeIndex i S.E.rotation S.total := hji
  have hi : i < S.total := hi
  refine ⟨hji ▸ nodeIndex_lt i _ (by omega), shards, blob, hstripe, hnode, htag, ?_⟩
  rw [hji, shardIndex_nodeIndex hi hr]
  exact hshard

theorem answering_events {e : GetEvent} (h : S.Allows e) : e.Valid S.Held S.Absent S.Good := by
  cases e with
  | hedge => trivial
  | reply i r =>
    cases r with
    | ok blob => exact h
    | notFound =>
      refine ⟨h, fun hgood => ?_⟩
      -- an answering node holds its shard
      obtain ⟨-, -, blob, -, hnode, -⟩ :=
        acked_holds hS hrs hk hr (hS.answering_acked _ hgood.2)
      have h : S.nodes (S.node i) = none := h
      rw [hnode] at h
      cases h
    | failed => exact fun hgood => h hgood.2

omit hrs hk hr in
theorem stored_answering : Answering S.E S.Good := by
  rintro i ⟨hlt, hmem⟩
  obtain ⟨hdata, hparity⟩ := hS.answering_available i hlt hmem
  exact ⟨hlt, hdata, hparity⟩

variable {c : GetCall} (hc : GetInv S.E S.Held S.Absent S.Good S.body.length c)

include hc

theorem decodable_is_tag
    {tag : UInt64} (hdec : decodableCohort c.shardResults S.E.k = some tag)
    (hm : S.E.m < S.E.k) : tag = S.tag := by
  by_contra hne
  have hcount : cohortCount c.shardResults tag
      ≤ heldBy S.total S.nodes fun _ blob => blob.cohortTag == tag :=
    cohortCount_le_heldBy hr hc.results_length (fun i blob h => (hc.held i blob h).1) tag
  have hacked : S.acked.length ≤ heldBy S.total S.nodes fun _ blob => blob.cohortTag == S.tag := by
    refine length_le_heldBy _ _ _ _ hS.acked_nodup fun j hj => ?_
    obtain ⟨hlt, -, blob, -, hnode, htag, -⟩ := acked_holds hS hrs hk hr hj
    exact ⟨hlt, blob, hnode, by simp [htag]⟩
  have hsum : heldBy S.total S.nodes (fun _ blob => blob.cohortTag == tag)
      + heldBy S.total S.nodes (fun _ blob => blob.cohortTag == S.tag) ≤ S.total :=
    heldBy_add_le _ _ _ _ fun i _ blob _ hb hb' => hne (by
      rw [← beq_iff_eq.mp hb, ← beq_iff_eq.mp hb'])
  have hk' := (decodableCohort_some hdec).2
  have hquorum := hS.acked_quorum
  have htotal : S.total = S.E.k + S.E.m := rfl
  omega

theorem received_from_stripe
    :
    ∃ shards, IsStripe S.E.P S.E.k S.E.m (padBody S.E.k S.body) shards ∧
      CohortFrom shards S.tag c.shardResults := by
  have hquorum := hS.acked_quorum
  obtain ⟨j, hj⟩ := List.exists_mem_of_length_pos (show 0 < S.acked.length by omega)
  obtain ⟨-, shards, -, hstripe, -⟩ := acked_holds hS hrs hk hr hj
  refine ⟨shards, hstripe, fun i blob hi htag => ?_⟩
  have hlt : i < S.total := by
    have := (List.getElem?_eq_some_iff.mp hi).1
    rwa [hc.results_length] at this
  obtain ⟨hnode, hmem⟩ := hc.held i blob hi
  have hmem : S.node i ∈ S.acked := hmem.resolve_right fun h => h htag
  obtain ⟨-, shards', blob', hstripe', hnode', -, hshard⟩ := acked_holds hS hrs hk hr hmem
  rw [hnode] at hnode'
  injection hnode' with hblob
  have henc := hstripe'.encoded
  rw [hstripe.encoded] at henc
  injection henc with henc
  rw [show shardIndex (S.node i) S.E.rotation S.total = i from shardIndex_nodeIndex hlt
    hr] at hshard
  rw [henc, hblob]
  exact hshard

theorem decodable_of_answered
    (hanswered : ∀ i, S.Good i → ∃ blob, c.shardResults[i]? = some (some blob)) :
    (decodableCohort c.shardResults S.E.k).isSome := by
  have hne : S.tag ≠ 0 := ecCohortTag_ne_zero _ _
  refine decodableCohort_isSome hk hne ?_
  have hlt : ∀ j ∈ S.answering, j < S.total := fun j hj =>
    (acked_holds hS hrs hk hr (hS.answering_acked j hj)).1
  have hnodup : (S.answering.map fun j => shardIndex j S.E.rotation S.total).Nodup := by
    refine hS.answering_nodup.map_on fun j hj j' hj' h => ?_
    rw [← nodeIndex_shardIndex (hlt j hj) hr, h, nodeIndex_shardIndex (hlt j' hj') hr]
  have hcount : _ ≤ cohortCount c.shardResults S.tag := length_le_cohortCount hnodup (by
    intro i hi
    obtain ⟨j, hj, rfl⟩ := List.mem_map.mp hi
    have hnode : S.node (shardIndex j S.E.rotation S.total) = j :=
      nodeIndex_shardIndex (hlt j hj) hr
    have hpos : shardIndex j S.E.rotation S.total < S.total :=
      Nat.mod_lt _ (by have := hlt j hj; omega)
    obtain ⟨blob, hblob⟩ := hanswered _ ⟨hpos, hnode.symm ▸ hj⟩
    refine ⟨blob, hblob, ?_⟩
    obtain ⟨-, -, blob', -, hnode', htag, -⟩ := acked_holds hS hrs hk hr (hS.answering_acked j hj)
    have hheld := (hc.held _ blob hblob).1
    rw [hnode, hnode'] at hheld
    injection hheld with hheld
    exact hheld ▸ htag)
  rw [List.length_map] at hcount
  have := hS.answering_enough
  omega

theorem notFound_lt :
    c.shardsNotFound < S.E.m := by
  obtain ⟨nf, hnodup, hlen, hall⟩ := hc.absent
  have hsum := disjoint_length_le S.total (nf.map S.node) S.acked
    (hnodup.map_on fun i hi j hj h => nodeIndex_injOn (hall i hi).1 (hall j hj).1 hr h)
      hS.acked_nodup
    (fun j hj => by
      obtain ⟨i, -, rfl⟩ := List.mem_map.mp hj
      exact nodeIndex_lt i _ (by omega))
    (fun j hj => (acked_holds hS hrs hk hr hj).1)
    (fun j hj hmem => by
      obtain ⟨i, hi, rfl⟩ := List.mem_map.mp hj
      obtain ⟨-, -, blob, -, hnode, -⟩ := acked_holds hS hrs hk hr hmem
      have habsent : S.nodes (S.node i) = none := (hall i hi).2.1
      rw [hnode] at habsent
      cases habsent)
  rw [List.length_map] at hsum
  have hquorum := hS.acked_quorum
  have htotal : S.total = S.E.k + S.E.m := rfl
  omega

/-! ## §3. The result -/

omit hc in
theorem readEnd_ok (hm : S.E.m < S.E.k) {r : GetResult}
    (hend : GetEnd S.E S.Held S.Absent S.Good S.body.length r) :
    ∃ repairs, r = .ok S.body repairs := by
  have hbody : (padBody S.E.k S.body).take S.body.length = S.body := padBody_take _ _
  cases hend with
  | empty hlen => exact absurd (List.length_eq_zero_iff.mp hlen) hS.body_ne_nil
  | fast hc hdata hdec =>
    obtain rfl := decodable_is_tag hS hrs hk hr hc hdec hm
    obtain ⟨shards, hstripe, hcohort⟩ := received_from_stripe hS hrs hk hr hc
    refine ⟨[], ?_⟩
    rw [← hbody, ← hc.content_len]
    exact fastResult_of_cohort hrs hstripe (hc.early hdata) hcohort hdec
  | degraded hc hhedged hdone =>
    have hsome := hdone.elim id fun hempty => decodable_of_answered hS hrs hk hr hc fun i hi => by
      -- nothing is outstanding and the parity reads went out
      rcases hc.covered i hi with h | h | ⟨h, -⟩
      · rw [hempty] at h
        cases h
      · exact h
      · rw [hhedged] at h
        cases h
    obtain ⟨tag, hdec⟩ := Option.isSome_iff_exists.mp hsome
    obtain rfl := decodable_is_tag hS hrs hk hr hc hdec hm
    obtain ⟨shards, hstripe, hcohort⟩ := received_from_stripe hS hrs hk hr hc
    obtain ⟨repairs, hres, -⟩ := degradedResult_of_cohort hrs hk hstripe hc.results_length
      hc.missing_length hcohort hdec
    refine ⟨repairs, ?_⟩
    rw [hres, hc.content_len, hbody]
  | notFound hc hnone hquorum =>
    have := notFound_lt hS hrs hk hr hc
    omega

end Stored

/-- ★ **An acknowledged block is readable from any `k` of its shards.** For every order of answers
    and every moment of the timer: the read can only end with the body; until it ends its timer can
    still fire or an answering node is still to answer; and it takes at most `k + m + 1` events. -/
theorem acked_block_is_readable (S : ReadSetting) (hm : 0 < S.E.m) (hmk : S.E.m < S.E.k)
    (crc32 : UInt32) (hrotation : S.E.rotation = ecRotation crc32 (S.E.k + S.E.m))
    (hrs : S.E.P.rs.Restores S.E.k S.E.m) (hS : S.Stored)
    (events : List GetEvent) (hevents : ∀ e ∈ events, S.Allows e) (c : GetCall)
    (hrun : (GetCall.start S.E S.body.length).run S.E events = some c) :
    (∀ r, c.finished = some r → ∃ repairs, r = .ok S.body repairs) ∧
    (c.finished = none → (∃ c', c.step S.E .hedge = some c') ∨
      ∃ i ∈ c.pending, S.node i ∈ S.answering) ∧
    events.length ≤ S.E.k + S.E.m + 1 := by
  have hk : 0 < S.E.k := by omega
  have hr : S.E.rotation < S.total := by
    rw [hrotation]
    exact ecRotation_lt crc32 (by omega)
  have hanswering := stored_answering hS
  have hok := getOk_run hanswering events (getOk_start hanswering)
    (fun e he => answering_events hS hrs hk hr (hevents e he)) hrun
  refine ⟨fun r hfin => readEnd_ok hS hrs hk hr hmk (hok.ended r hfin), fun hnone => ?_,
    (run_length_le events hrun).trans (budget_start S.E S.body.length)⟩
  obtain ⟨hc, -, hdec⟩ := hok.running hnone
  cases hhedged : c.hedged with
  | false =>
    left
    refine ⟨c.endDataPhase S.E, ?_⟩
    simp only [GetCall.step]
    rw [if_neg (by simp [hnone, hhedged])]
  | true =>
    right
    by_contra hnot
    -- otherwise all of them have answered and the read would be over
    have hsome := decodable_of_answered hS hrs hk hr hc fun i hi => by
      rcases hc.covered i hi with h | h | ⟨h, -⟩
      · exact absurd ⟨i, h, hi.2⟩ hnot
      · exact h
      · rw [hhedged] at h
        cases h
    rw [hdec hhedged] at hsome
    cases hsome

theorem acked_block_is_readable_from_parity :
    let all : Nat → Bool := fun _ => true
    let E : EcRead := ⟨⟨xorCode, fun _ => 7⟩, 2, 1, 1, all, all, all⟩
    let S : ReadSetting :=
      { E, body := [10, 20, 30], putAvailable := all
        nodes := fun j => ([⟨[20, 20], 7⟩, ⟨[10, 20], 7⟩, ⟨[30, 0], 7⟩] : List NodeBlob)[j]?
        acked := [0, 1, 2], answering := [0, 2] }
    ∃ c, (GetCall.start E 3).run E [.reply 0 .failed, .reply 2 (.ok ⟨[20, 20], 7⟩),
        .reply 1 (.ok ⟨[30, 0], 7⟩)] = some c ∧
      ∃ r repairs, c.finished = some r ∧ r = .ok S.body repairs := by
  intro all E S
  have hS : S.Stored :=
    { body_ne_nil := by decide
      acked_nodup := by decide
      acked_quorum := by decide
      acked_stored := by
        intro j hj
        have hj : j = 0 ∨ j = 1 ∨ j = 2 := by simpa [S] using hj
        rcases hj with rfl | rfl | rfl
        · exact ⟨⟨[20, 20], 7⟩, by decide +kernel, rfl⟩
        · exact ⟨⟨[10, 20], 7⟩, by decide +kernel, rfl⟩
        · exact ⟨⟨[30, 0], 7⟩, by decide +kernel, rfl⟩
      answering_nodup := by decide
      answering_acked := by decide
      answering_enough := by decide
      answering_available := fun _ _ _ => ⟨fun _ => rfl, fun _ => rfl⟩ }
  obtain ⟨c, hrun⟩ := Option.isSome_iff_exists.mp
    (show ((GetCall.start E 3).run E [.reply 0 .failed, .reply 2 (.ok ⟨[20, 20], 7⟩),
      .reply 1 (.ok ⟨[30, 0], 7⟩)]).isSome = true by decide +kernel)
  have hfin : ∃ r, c.finished = some r := by
    have hdone : (((GetCall.start E 3).run E [.reply 0 .failed, .reply 2 (.ok ⟨[20, 20], 7⟩),
      .reply 1 (.ok ⟨[30, 0], 7⟩)]).bind GetCall.finished).isSome = true := by decide +kernel
    rw [hrun] at hdone
    exact Option.isSome_iff_exists.mp hdone
  obtain ⟨r, hr⟩ := hfin
  obtain ⟨repairs, hres⟩ := (acked_block_is_readable S (by decide) (by decide) 1 rfl
    xorCode_restores hS _ (by
      intro e he
      have he : e = .reply 0 .failed ∨ e = .reply 2 (.ok ⟨[20, 20], 7⟩) ∨
          e = .reply 1 (.ok ⟨[30, 0], 7⟩) := by simpa using he
      rcases he with rfl | rfl | rfl
      · exact (by decide : (1 : Nat) ∉ [0, 2])
      · exact ⟨by decide +kernel, .inl (by decide)⟩
      · exact ⟨by decide +kernel, .inl (by decide)⟩) c hrun).1 r hr
  exact ⟨c, hrun, r, repairs, hr, hres⟩

end FractalBits.VolumeGroup
