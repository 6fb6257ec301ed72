/-
  VolumeGroup.GetEc — the erasure-coded read of one block.

  Mirrors `get_blob_ec` of `data_vg_proxy.rs` with `decodable_cohort` and
  `cohort_matches_padded_body`.
-/

import FractalBits.VolumeGroup.Put

namespace FractalBits.VolumeGroup

open Lib List

def ofCohort (tag : UInt64) (s : Option NodeBlob) : Bool := s.any fun blob => blob.cohortTag == tag

def cohortCount (shards : List (Option NodeBlob)) (tag : UInt64) : Nat :=
  shards.countP (ofCohort tag)

def decodableCohort (shards : List (Option NodeBlob)) (dataShards : Nat) : Option UInt64 :=
  shards.findSome? fun s => s.bind fun shard =>
    if shard.cohortTag = 0 then none
    else if cohortCount shards shard.cohortTag ≥ dataShards then some shard.cohortTag
    else none

def cohortMatchesPaddedBody (P : EcPrims) (cohortTag : UInt64) (padded : Bytes) : Bool :=
  cohortTag ≠ 0 && ecCohortTag P padded == cohortTag

/-! ## §1. The read -/

inductive GetReply
  | ok (blob : NodeBlob)
  | notFound
  | failed
  deriving DecidableEq, Repr

inductive GetResult
  | ok (body : Bytes) (repairs : List (Nat × NodeBlob))
  | err (e : DataVgError)
  | panic
  deriving DecidableEq, Repr

/-- The volume's code and placement, and the nodes its circuit breakers let through when data reads,
    parity reads and repair writes are launched. -/
structure EcRead where
  P : EcPrims
  k : Nat
  m : Nat
  rotation : Nat
  dataAvailable : Nat → Bool
  parityAvailable : Nat → Bool
  repairAvailable : Nat → Bool

structure GetCall where
  contentLen : Nat
  shardResults : List (Option NodeBlob)
  shardMissing : List Bool
  dataShardsReceived : Nat
  shardsNotFound : Nat
  /-- shard positions with an outstanding fetch -/
  pending : List Nat
  /-- the parity reads have been launched -/
  hedged : Bool
  finished : Option GetResult
  deriving DecidableEq, Repr

def GetCall.totalShardsReceived (c : GetCall) : Nat := c.shardResults.countP Option.isSome

def expectAll {α : Type} : List (Option α) → Option (List α)
  | [] => some []
  | none :: _ => none
  | some a :: rest => (expectAll rest).map (a :: ·)

section

variable (E : EcRead)

def fastResult (c : GetCall) (selectedCohort : UInt64) : GetResult :=
  match expectAll (c.shardResults.take E.k) with
  | none => .panic -- `expect("complete data cohort")`
  | some blobs =>
    let resultData := (blobs.map NodeBlob.body).flatten
    if ¬ cohortMatchesPaddedBody E.P selectedCohort resultData then .err .cohortMismatch
    else .ok (resultData.take c.contentLen) []

def indexedShards (shards : List (Option Bytes)) : List (Nat × Bytes) :=
  shards.zipIdx.filterMap fun (shard, i) => shard.map fun data => (i, data)

def assembleShards (restored : Nat → Option Bytes) :
    List (Option Bytes × Nat) → Except DataVgError Bytes
  | [] => .ok []
  | (shard, i) :: rest =>
    match shard.or (restored i) with
    | none => .error (.missingShard i)
    | some data => (assembleShards restored rest).map (data ++ ·)

/-- The repair writes of a decoded block to the nodes that are available; `none` is an index out of
    bounds. -/
def inlineRepair (c : GetCall) (selectedCohort : UInt64) (shardSize : Nat)
    (paddedBody : Bytes) : Option (Except DataVgError (List (Nat × NodeBlob))) :=
  let missingIndices := (List.range c.shardMissing.length).filter fun i =>
    c.shardMissing.getD i false
  if missingIndices = [] then some (.ok [])
  else if paddedBody.length < E.k * shardSize then none
  else
    let dataShards := (List.range E.k).map fun i => (paddedBody.drop (i * shardSize)).take shardSize
    match E.P.rs.encode E.k E.m dataShards with
    | none => some (.error .rsEncodeFailed)
    | some parity =>
      let targets := missingIndices.filter fun i =>
        E.repairAvailable (nodeIndex i E.rotation (E.k + E.m))
      (expectAll (targets.map fun i => (dataShards ++ parity)[i]?.map fun shard =>
        (nodeIndex i E.rotation (E.k + E.m), (⟨shard, selectedCohort⟩ : NodeBlob)))).map .ok

/-- Everything after the last answer was taken: select a cohort, reconstruct, verify, truncate,
    repair. -/
def degradedResult (c : GetCall) : GetResult :=
  match decodableCohort c.shardResults E.k with
  | none =>
    if c.totalShardsReceived = 0 ∧ c.shardsNotFound ≥ E.m then .err .blockNotFound
    else .err (.noCohort E.k c.totalShardsReceived)
  | some selectedCohort =>
    match c.shardResults.findSome? fun s =>
        s.bind fun shard => if shard.cohortTag = selectedCohort then some shard.body.length
          else none with
    | none => .err .noShards
    | some shardSize =>
      let shardsForRs := c.shardResults.map fun s => s.bind fun shard =>
        if shard.cohortTag = selectedCohort ∧ shard.body.length = shardSize then some shard.body
        else none
      let originalShards := indexedShards (shardsForRs.take E.k)
      let recoveryShards := indexedShards (shardsForRs.drop E.k)
      match E.P.rs.decode E.k E.m originalShards recoveryShards with
      | none => .err .rsReconstructFailed
      | some restoredOriginal =>
        match assembleShards restoredOriginal (shardsForRs.take E.k).zipIdx with
        | .error e => .err e
        | .ok paddedBody =>
          if ¬ cohortMatchesPaddedBody E.P selectedCohort paddedBody then .err .cohortMismatch
          else
            match inlineRepair E c selectedCohort shardSize paddedBody with
            | none => .panic
            | some (.error e) => .err e
            | some (.ok repairs) => .ok (paddedBody.take c.contentLen) repairs

def GetCall.endDataPhase (c : GetCall) : GetCall :=
  match decodableCohort c.shardResults E.k with
  | some selectedCohort => { c with finished := some (fastResult E c selectedCohort) }
  | none =>
    let parity := ((List.range E.m).map (E.k + ·)).filter fun i =>
      E.parityAvailable (nodeIndex i E.rotation (E.k + E.m))
    let c := { c with hedged := true, pending := c.pending ++ parity }
    if c.pending = [] then { c with finished := some (degradedResult E c) } else c

def GetCall.start (contentLen : Nat) : GetCall :=
  let idle : GetCall :=
    { contentLen, shardResults := List.replicate (E.k + E.m) none
      shardMissing := List.replicate (E.k + E.m) false
      dataShardsReceived := 0, shardsNotFound := 0
      pending := [], hedged := false, finished := none }
  if contentLen = 0 then { idle with finished := some (.ok [] []) }
  else
    let c := { idle with
      pending := (List.range E.k).filter fun i =>
        E.dataAvailable (nodeIndex i E.rotation (E.k + E.m)) }
    if c.pending = [] then c.endDataPhase E else c

def GetCall.dataReply (c : GetCall) (i : Nat) (r : GetReply) : GetCall :=
  let c := { c with pending := c.pending.erase i }
  match r with
  | .ok data =>
    let c := { c with
      shardResults := c.shardResults.set i (some data)
      dataShardsReceived := c.dataShardsReceived + 1 }
    if c.dataShardsReceived = E.k ∨ c.pending = [] then c.endDataPhase E else c
  | .notFound =>
    let c := { c with
      shardMissing := c.shardMissing.set i true
      shardsNotFound := c.shardsNotFound + 1 }
    if c.dataShardsReceived = 0 ∧ c.shardsNotFound ≥ E.m then
      { c with finished := some (.err .blockNotFound) }
    else c.endDataPhase E
  | .failed => c.endDataPhase E

def GetCall.settle (c : GetCall) : GetCall :=
  if (decodableCohort c.shardResults E.k).isSome then
    { c with finished := some (degradedResult E c) }
  else if c.totalShardsReceived = 0 ∧ c.shardsNotFound ≥ E.m then
    { c with finished := some (.err .blockNotFound) }
  else if c.pending = [] then { c with finished := some (degradedResult E c) }
  else c

def GetCall.anyReply (c : GetCall) (i : Nat) (r : GetReply) : GetCall :=
  let c := { c with pending := c.pending.erase i }
  match r with
  | .ok data => { c with shardResults := c.shardResults.set i (some data) }.settle E
  | .notFound =>
    { c with
      shardMissing := c.shardMissing.set i true
      shardsNotFound := c.shardsNotFound + 1 }.settle E
  | .failed => c.settle E

end

/-- What can happen to a read: the answer of an outstanding fetch, or the hedge timer in the data
    phase. -/
inductive GetEvent
  | reply (shard : Nat) (r : GetReply)
  | hedge
  deriving DecidableEq, Repr

def GetCall.step (E : EcRead) (c : GetCall) : GetEvent → Option GetCall
  | .reply i r =>
    if c.finished.isSome ∨ i ∉ c.pending then none
    else some (if c.hedged then c.anyReply E i r else c.dataReply E i r)
  | .hedge =>
    if c.finished.isSome ∨ c.hedged = true then none
    else some (c.endDataPhase E)

def GetCall.run (E : EcRead) (c : GetCall) : List GetEvent → Option GetCall
  | [] => some c
  | e :: rest => (c.step E e).bind fun c => c.run E rest

/-! ## §2. Cohort lemmas -/

variable {tag : UInt64} {results : List (Option NodeBlob)} {shards : List Bytes} {E : EcRead}
  {c : GetCall} {padded : Bytes}

theorem decodableCohort_some {shards : List (Option NodeBlob)} {k : Nat}
    (h : decodableCohort shards k = some tag) : tag ≠ 0 ∧ k ≤ cohortCount shards tag := by
  obtain ⟨s, -, hs⟩ := exists_of_findSome?_eq_some h
  obtain ⟨shard, -, hshard⟩ := Option.bind_eq_some_iff.mp hs
  split at hshard
  · cases hshard
  · next hne =>
      split at hshard
      · next hcount =>
          injection hshard with hshard
          subst hshard
          exact ⟨hne, hcount⟩
      · cases hshard

theorem decodableCohort_isSome {shards : List (Option NodeBlob)} {k : Nat}
    (hk : 0 < k) (htag : tag ≠ 0) (h : k ≤ cohortCount shards tag) :
    (decodableCohort shards k).isSome := by
  by_contra hnone
  have hall := List.findSome?_eq_none_iff.mp (Option.not_isSome_iff_eq_none.mp hnone)
  obtain ⟨s, hs, hany⟩ := countP_pos_iff.mp (show 0 < cohortCount shards tag by omega)
  cases s with
  | none => cases hany
  | some shard =>
    have htag' : shard.cohortTag = tag := by simpa [ofCohort] using hany
    have hnot := hall _ hs
    simp only [Option.bind_some, htag', if_neg htag, if_pos h] at hnot
    cases hnot

section

variable (results : List (Option NodeBlob))

def cohortPositions (tag : UInt64) : List Nat :=
  (List.range results.length).filter fun i => ofCohort tag (results.getD i none)

theorem cohortPositions_nodup (tag : UInt64) :
    (cohortPositions results tag).Nodup := nodup_range.filter _

theorem cohortPositions_length (tag : UInt64) :
    (cohortPositions results tag).length = cohortCount results tag := by
  have hrange : results = (List.range results.length).map fun i => results.getD i none := by
    refine ext_getElem (by simp) fun i h1 h2 => ?_
    simp [h1]
  rw [cohortPositions, cohortCount, ← countP_eq_length_filter]
  conv_rhs => rw [hrange]
  rw [countP_map]
  rfl

end

theorem mem_cohortPositions {i : Nat} :
    i ∈ cohortPositions results tag ↔
      ∃ blob, results[i]? = some (some blob) ∧ blob.cohortTag = tag := by
  rw [cohortPositions, mem_filter, mem_range]
  constructor
  · rintro ⟨hlt, hany⟩
    cases hr : results[i] with
    | none => simp [hlt, hr, ofCohort] at hany
    | some blob =>
      exact ⟨blob, by rw [List.getElem?_eq_getElem hlt, hr],
        by simpa [hlt, hr, ofCohort] using hany⟩
  · rintro ⟨blob, hget, htag⟩
    refine ⟨(List.getElem?_eq_some_iff.mp hget).1, ?_⟩
    simp [getD_eq_getElem?_getD, hget, ofCohort, htag]

theorem cohortCount_le_heldBy {nodes : Nat → Option NodeBlob} {rotation total : Nat}
    (hr : rotation < total) (hlen : results.length = total)
    (hheld : ∀ i blob, results[i]? = some (some blob) → nodes (nodeIndex i rotation total) = some
    blob) (tag : UInt64) :
    cohortCount results tag ≤ heldBy total nodes fun _ blob => blob.cohortTag == tag := by
  have hlt : ∀ i ∈ cohortPositions results tag, i < total := fun i hi => by
    obtain ⟨blob, hget, -⟩ := mem_cohortPositions.mp hi
    exact hlen ▸ (List.getElem?_eq_some_iff.mp hget).1
  have hnodup : ((cohortPositions results tag).map fun i => nodeIndex i rotation total).Nodup :=
    (cohortPositions_nodup results tag).map_on fun i hi j hj h =>
      nodeIndex_injOn (hlt i hi) (hlt j hj) hr h
  rw [← cohortPositions_length, ← length_map (f := fun i => nodeIndex i rotation total)]
  refine length_le_heldBy _ _ _ _ hnodup fun node hnode => ?_
  obtain ⟨i, hi, rfl⟩ := mem_map.mp hnode
  obtain ⟨blob, hget, htag⟩ := mem_cohortPositions.mp hi
  exact ⟨nodeIndex_lt i _ (by omega), blob, hheld i blob hget, by simp [htag]⟩

theorem length_le_cohortCount
    {positions : List Nat} (hnodup : positions.Nodup)
    (h : ∀ i ∈ positions, ∃ blob, results[i]? = some (some blob) ∧ blob.cohortTag = tag) :
    positions.length ≤ cohortCount results tag := by
  rw [← cohortPositions_length]
  exact (hnodup.subperm fun i hi => mem_cohortPositions.mpr (h i hi)).length_le

theorem cohortMatches_self (P : EcPrims) (padded : Bytes) :
    cohortMatchesPaddedBody P (ecCohortTag P padded) padded = true := by
  simp [cohortMatchesPaddedBody, ecCohortTag_ne_zero]

def CohortFrom (shards : List Bytes) (tag : UInt64) (results : List (Option NodeBlob)) : Prop :=
  ∀ (i : Nat) (blob : NodeBlob), results[i]? = some (some blob) → blob.cohortTag = tag →
    shards[i]? = some blob.body

theorem expectAll_of_forall {α : Type} (l : List (Option α)) (h : ∀ s ∈ l, s.isSome) :
    ∃ xs, expectAll l = some xs ∧ l = xs.map some := by
  induction l with
  | nil => exact ⟨[], rfl, rfl⟩
  | cons s l ih =>
    obtain ⟨xs, hxs, hl⟩ := ih fun t ht => h t (mem_cons_of_mem _ ht)
    obtain ⟨x, rfl⟩ := Option.isSome_iff_exists.mp (h s mem_cons_self)
    exact ⟨x :: xs, by simp [expectAll, hxs], by simp [hl]⟩

theorem fastResult_of_cohort
    (hrs : E.P.rs.Restores E.k E.m) (hstripe : IsStripe E.P E.k E.m padded shards)
    (hearly : ∀ i blob, E.k ≤ i → c.shardResults[i]? ≠ some (some blob))
    (hcohort : CohortFrom shards (ecCohortTag E.P padded) c.shardResults)
    (hdec : decodableCohort c.shardResults E.k = some (ecCohortTag E.P padded)) :
    fastResult E c (ecCohortTag E.P padded) = .ok (padded.take c.contentLen) [] := by
  obtain ⟨parity, -, hshards, -, -⟩ := encodeShards_shape hrs hstripe.dvd hstripe.encoded
  have hcount := (decodableCohort_some hdec).2
  -- no parity position counts, so all `k` data positions do
  have hdrop : (c.shardResults.drop E.k).countP (ofCohort (ecCohortTag E.P padded)) = 0 := by
    rw [countP_eq_zero]
    intro s hs hany
    obtain ⟨j, hj⟩ := mem_iff_getElem?.mp hs
    rw [List.getElem?_drop] at hj
    cases s with
    | none => cases hany
    | some blob => exact hearly _ blob (Nat.le_add_right _ _) hj
  have hdata : E.k ≤ (c.shardResults.take E.k).countP (ofCohort (ecCohortTag E.P padded)) := by
    rw [cohortCount, ← take_append_drop E.k c.shardResults, countP_append, hdrop] at hcount
    exact hcount
  have hle : (c.shardResults.take E.k).countP (ofCohort (ecCohortTag E.P padded))
      ≤ (c.shardResults.take E.k).length := countP_le_length
  have hlen : (c.shardResults.take E.k).length = E.k := by
    have := length_take_le E.k c.shardResults
    omega
  have htake : ∀ s ∈ c.shardResults.take E.k, ofCohort (ecCohortTag E.P padded) s = true :=
    countP_eq_length.mp (by omega)
  obtain ⟨blobs, hblobs, hmap⟩ := expectAll_of_forall (c.shardResults.take E.k) fun s hs => by
    cases s with
    | none => exact absurd (htake none hs) (by simp [ofCohort])
    | some blob => rfl
  -- position by position the bodies are the data shards
  have hbodies : blobs.map NodeBlob.body = splitShards E.k padded := by
    have hblen : blobs.length = E.k := by rw [← hlen, hmap, length_map]
    refine ext_getElem? fun i => ?_
    by_cases hi : i < E.k
    · have hib : i < blobs.length := by omega
      have hget : (c.shardResults.take E.k)[i]? = some (some blobs[i]) := by
        rw [hmap, List.getElem?_map, List.getElem?_eq_getElem hib]
        rfl
      have hres : c.shardResults[i]? = some (some blobs[i]) := by
        rw [List.getElem?_take_of_lt hi] at hget
        exact hget
      have htag := htake _ (mem_of_getElem? hget)
      have hshard := hcohort i _ hres (by simpa [ofCohort] using htag)
      rw [hshards, List.getElem?_append_left (by rw [splitShards_length]; exact hi)] at hshard
      rw [List.getElem?_map, List.getElem?_eq_getElem hib, hshard]
      rfl
    · rw [List.getElem?_eq_none (by simpa [hblen] using hi),
        List.getElem?_eq_none (by simpa using hi)]
  rw [fastResult, hblobs]
  simp only [hbodies, splitShards_flatten E.k padded hstripe.dvd, cohortMatches_self,
    not_true_eq_false, if_false]

/-! ## §3. The reconstruction path -/

theorem mem_indexedShards {l : List (Option Bytes)} {e : Nat × Bytes} :
    e ∈ indexedShards l ↔ l[e.1]? = some (some e.2) := by
  obtain ⟨i, data⟩ := e
  simp only [indexedShards, mem_filterMap]
  constructor
  · rintro ⟨⟨s, j⟩, hmem, hs⟩
    obtain ⟨d, rfl, hd⟩ := Option.map_eq_some_iff.mp hs
    injection hd with hj hdata
    subst hj hdata
    exact mem_zipIdx_iff_getElem?.mp hmem
  · intro h
    exact ⟨(some data, i), mem_zipIdx_iff_getElem?.mpr h, rfl⟩

theorem indexedShards_nodup (l : List (Option Bytes)) : ((indexedShards l).map Prod.fst).Nodup := by
  have hsub : ∀ L : List (Option Bytes × Nat),
      ((L.filterMap fun (shard, i) => shard.map fun data => (i, data)).map Prod.fst).Sublist
        (L.map Prod.snd) := by
    intro L
    induction L with
    | nil => exact List.Sublist.refl _
    | cons e L ih =>
      obtain ⟨s, i⟩ := e
      cases s with
      | none => exact ih.cons _
      | some data => exact ih.cons_cons _
  refine (List.Nodup.sublist (hsub l.zipIdx) ?_)
  rw [zipIdx_map_snd]
  exact nodup_range'

theorem indexedShards_length (l : List (Option Bytes)) :
    (indexedShards l).length = l.countP Option.isSome := by
  have hgen : ∀ n, ((l.zipIdx n).filterMap fun (shard, i) =>
      shard.map fun data => (i, data)).length = l.countP Option.isSome := by
    induction l with
    | nil => intro n; rfl
    | cons s l ih =>
      intro n
      cases s with
      | none => simpa [zipIdx_cons] using ih (n + 1)
      | some data => simpa [zipIdx_cons] using ih (n + 1)
  exact hgen 0

theorem assembleShards_ok (restored : Nat → Option Bytes) (l : List (Option Bytes))
    (data : List Bytes) (offset : Nat) (hlen : l.length = data.length)
    (h : ∀ (i : Nat) (s : Option Bytes), l[i]? = some s → s.or (restored (offset + i)) = data[i]?) :
    assembleShards restored (l.zipIdx offset) = .ok data.flatten := by
  induction l generalizing data offset with
  | nil =>
    cases data with
    | nil => rfl
    | cons d ds => simp at hlen
  | cons s l ih =>
    cases data with
    | nil => simp at hlen
    | cons d ds =>
      have hhead : s.or (restored offset) = some d := by simpa using h 0 s rfl
      have htail := ih ds (offset + 1) (by simpa using hlen) fun i t hi => by
        rw [show offset + 1 + i = offset + (i + 1) by omega]
        simpa using h (i + 1) t (by simpa using hi)
      simp only [zipIdx_cons, assembleShards, hhead, htail, flatten_cons]
      rfl

def cohortShards (tag : UInt64) (shardSize : Nat) (results : List (Option NodeBlob)) :
    List (Option Bytes) :=
  results.map fun s => s.bind fun shard =>
    if shard.cohortTag = tag ∧ shard.body.length = shardSize then some shard.body else none

theorem cohortShards_getElem {shardSize : Nat}
    (hcohort : CohortFrom shards tag results) {i : Nat} {data : Bytes}
    (h : (cohortShards tag shardSize results)[i]? = some (some data)) : shards[i]? = some data := by
  rw [cohortShards, List.getElem?_map] at h
  obtain ⟨s, hs, hdata⟩ := Option.map_eq_some_iff.mp h
  obtain ⟨blob, rfl, hblob⟩ := Option.bind_eq_some_iff.mp hdata
  split at hblob
  · next htag =>
      injection hblob with hblob
      rw [← hblob]
      exact hcohort i blob hs htag.1
  · cases hblob

theorem cohortShards_count {shardSize : Nat}
    (hcohort : CohortFrom shards tag results)
    (hsize : ∀ s ∈ shards, s.length = shardSize) :
    (cohortShards tag shardSize results).countP Option.isSome = cohortCount results tag := by
  rw [cohortShards, countP_map, cohortCount]
  refine countP_congr fun s hs => ?_
  obtain ⟨i, hi⟩ := mem_iff_getElem?.mp hs
  cases s with
  | none => simp [ofCohort]
  | some blob =>
    by_cases htag : blob.cohortTag = tag
    · have hlen := hsize _ (mem_of_getElem? (hcohort i blob hi htag))
      simp [ofCohort, htag, hlen]
    · simp [ofCohort, htag]

theorem inlineRepair_of_stripe
    (hrs : E.P.rs.Restores E.k E.m) (hstripe : IsStripe E.P E.k E.m padded shards)
    (hmissing : c.shardMissing.length = E.k + E.m) (tag : UInt64) :
    ∃ repairs, inlineRepair E c tag (padded.length / E.k) padded = some (.ok repairs) ∧
      ∀ w ∈ repairs, ∃ i < E.k + E.m, w.1 = nodeIndex i E.rotation (E.k + E.m) ∧
        shards[i]? = some w.2.body ∧ w.2.cohortTag = tag := by
  obtain ⟨parity, hparity, hshards, hplen, -⟩ := encodeShards_shape hrs hstripe.dvd hstripe.encoded
  have hmul : E.k * (padded.length / E.k) = padded.length := Nat.mul_div_cancel' hstripe.dvd
  have hdata : (List.range E.k).map (fun i =>
      (padded.drop (i * (padded.length / E.k))).take (padded.length / E.k))
      = splitShards E.k padded := rfl
  unfold inlineRepair
  simp only
  split
  · exact ⟨[], rfl, by simp⟩
  · rw [if_neg (by omega), hdata, hparity]
    simp only
    rw [← hshards]
    set missing := (List.range c.shardMissing.length).filter fun i => c.shardMissing.getD i false
      with hmis
    set targets := missing.filter fun i =>
      E.repairAvailable (nodeIndex i E.rotation (E.k + E.m)) with htargets
    have hlen : shards.length = E.k + E.m := by rw [hshards]; simp [hplen]
    have hlt : ∀ i ∈ targets, i < E.k + E.m := by
      intro i hi
      have hrange := mem_of_mem_filter (mem_of_mem_filter hi)
      rw [hmissing] at hrange
      exact mem_range.mp hrange
    obtain ⟨repairs, hrepairs, hmap⟩ := expectAll_of_forall
      (targets.map fun i => shards[i]?.map fun shard =>
        (nodeIndex i E.rotation (E.k + E.m), (⟨shard, tag⟩ : NodeBlob))) (by
        intro s hs
        obtain ⟨i, hi, rfl⟩ := mem_map.mp hs
        have := hlt i hi
        simp [hlen, this])
    refine ⟨repairs, by rw [hrepairs]; rfl, ?_⟩
    intro w hw
    have hsome : some w ∈ repairs.map some := mem_map.mpr ⟨w, hw, rfl⟩
    rw [← hmap] at hsome
    obtain ⟨i, hi, hsw⟩ := mem_map.mp hsome
    obtain ⟨shard, hshard, rfl⟩ := Option.map_eq_some_iff.mp hsw
    exact ⟨i, hlt i hi, rfl, hshard, rfl⟩

theorem degradedResult_of_cohort
    (hrs : E.P.rs.Restores E.k E.m) (hk : 0 < E.k)
    (hstripe : IsStripe E.P E.k E.m padded shards)
    (hresults : c.shardResults.length = E.k + E.m) (hmissing : c.shardMissing.length = E.k + E.m)
    (hcohort : CohortFrom shards (ecCohortTag E.P padded) c.shardResults)
    (hdec : decodableCohort c.shardResults E.k = some (ecCohortTag E.P padded)) :
    ∃ repairs, degradedResult E c = .ok (padded.take c.contentLen) repairs ∧
      ∀ w ∈ repairs, ∃ i < E.k + E.m, w.1 = nodeIndex i E.rotation (E.k + E.m) ∧
        shards[i]? = some w.2.body ∧ w.2.cohortTag = ecCohortTag E.P padded := by
  obtain ⟨parity, hparity, hshards, hplen, hsize⟩ :=
    encodeShards_shape hrs hstripe.dvd hstripe.encoded
  have hcount := (decodableCohort_some hdec).2
  set tag := ecCohortTag E.P padded with htag
  -- the first shard of the cohort gives the stripe's shard size
  have hfind : c.shardResults.findSome? (fun s => s.bind fun shard =>
      if shard.cohortTag = tag then some shard.body.length else none)
      = some (padded.length / E.k) := by
    cases hf : c.shardResults.findSome? (fun s => s.bind fun shard =>
      if shard.cohortTag = tag then some shard.body.length else none) with
    | none =>
      have hall := List.findSome?_eq_none_iff.mp hf
      obtain ⟨s, hs, hany⟩ := countP_pos_iff.mp (show 0 < cohortCount c.shardResults tag by omega)
      cases s with
      | none => cases hany
      | some blob =>
        have hnot := hall _ hs
        simp only [Option.bind_some] at hnot
        rw [if_pos (by simpa [ofCohort] using hany)] at hnot
        cases hnot
    | some size =>
      obtain ⟨s, hs, hsize'⟩ := exists_of_findSome?_eq_some hf
      obtain ⟨blob, rfl, hblob⟩ := Option.bind_eq_some_iff.mp hsize'
      obtain ⟨i, hi⟩ := mem_iff_getElem?.mp hs
      split at hblob
      · next hbt =>
          injection hblob with hblob
          rw [← hblob, hsize _ (mem_of_getElem? (hcohort i blob hi hbt))]
      · cases hblob
  set rsShards := cohortShards tag (padded.length / E.k) c.shardResults with hrsdef
  have hget : ∀ i data, rsShards[i]? = some (some data) → shards[i]? = some data :=
    fun i data h => cohortShards_getElem hcohort h
  have hsome : E.k ≤ (rsShards.take E.k).countP Option.isSome
      + (rsShards.drop E.k).countP Option.isSome := by
    rw [← countP_append, take_append_drop, hrsdef, cohortShards_count hcohort hsize]
    exact hcount
  -- what is handed to the decoder are shards of one encoding, at least `k`
  obtain ⟨restored, hdecode, hrestored⟩ := hrs.restores (splitShards E.k padded) parity _
    (indexedShards (rsShards.take E.k)) (indexedShards (rsShards.drop E.k))
    (splitShards_length _ _) (splitShards_size _ _ hstripe.dvd) hparity
    (indexedShards_nodup _) (indexedShards_nodup _)
    (by
      intro e he
      have hraw := mem_indexedShards.mp he
      have hlt : e.1 < E.k := by
        by_contra hge
        rw [List.getElem?_eq_none (by rw [length_take]; omega)] at hraw
        cases hraw
      rw [List.getElem?_take_of_lt hlt] at hraw
      have hshard := hget _ _ hraw
      rwa [hshards, List.getElem?_append_left (by rw [splitShards_length]; exact hlt)] at hshard)
    (by
      intro e he
      have hraw := mem_indexedShards.mp he
      rw [List.getElem?_drop] at hraw
      have hshard := hget _ _ hraw
      rwa [hshards, List.getElem?_append_right (by rw [splitShards_length]; omega),
        splitShards_length, Nat.add_sub_cancel_left] at hshard)
    (by rw [indexedShards_length, indexedShards_length]; exact hsome)
  have htaklen : (rsShards.take E.k).length = (splitShards E.k padded).length := by
    rw [length_take, splitShards_length, hrsdef, cohortShards, length_map, hresults]
    omega
  have hassemble : assembleShards restored (rsShards.take E.k).zipIdx = .ok padded := by
    rw [assembleShards_ok restored _ (splitShards E.k padded) 0 htaklen,
      splitShards_flatten E.k padded hstripe.dvd]
    intro i s hi
    have hlt : i < E.k := by
      have := (List.getElem?_eq_some_iff.mp hi).1
      rw [htaklen, splitShards_length] at this
      exact this
    cases s with
    | some data =>
      have hshard := hget i data (by rw [← List.getElem?_take_of_lt hlt]; exact hi)
      rw [hshards, List.getElem?_append_left (by rw [splitShards_length]; exact hlt)] at hshard
      rw [hshard]
      rfl
    | none =>
      rw [Nat.zero_add]
      refine hrestored i hlt fun e he heq => ?_
      have hraw := mem_indexedShards.mp he
      rw [heq, hi] at hraw
      cases hraw
  obtain ⟨repairs, hrepair, hall⟩ := inlineRepair_of_stripe (c := c) hrs hstripe hmissing tag
  refine ⟨repairs, ?_, hall⟩
  have hmatch : cohortMatchesPaddedBody E.P tag padded = true := cohortMatches_self E.P padded
  simp only [degradedResult, hdec, hfind]
  rw [← cohortShards, ← hrsdef, hdecode]
  simp only [hassemble, hmatch, not_true_eq_false, if_false, hrepair]

end FractalBits.VolumeGroup
