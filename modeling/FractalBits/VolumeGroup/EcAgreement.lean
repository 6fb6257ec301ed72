/-
  VolumeGroup.EcAgreement — concurrent writers and readers of one erasure-coded key agree.

  The system is one key with its nodes and any number of calls, whose messages may arrive late,
  twice or never.
-/

import FractalBits.Lib.Transition
import FractalBits.VolumeGroup.GetEcInvariant

namespace FractalBits.VolumeGroup

open Lib List Function

/-! ## §1. The system -/

/-- One key of an accepted erasure-coded volume: the shape of its stripes and the rotation of its
    blob. -/
structure EcKey where
  P : EcPrims
  geometry : EcGeometry
  rotation : Nat
  rotation_lt : rotation < geometry.total

def EcKey.k (K : EcKey) : Nat := K.geometry.dataShards

def EcKey.m (K : EcKey) : Nat := K.geometry.parityShards

theorem EcKey.m_lt (K : EcKey) : K.m < K.k := K.geometry.parity_lt

theorem EcKey.rotation_lt_total (K : EcKey) : K.rotation < K.k + K.m := K.rotation_lt

def EcKey.ofVolume (P : EcPrims) {id : UInt16} {nodes k m : Nat}
    (h : (Volume.mk id nodes (.erasureCoded k m)).validate = .ok ()) (crc32 : UInt32) : EcKey where
  P := P
  geometry := EcGeometry.ofVolume h
  rotation := ecRotation crc32 (k + m)
  rotation_lt := ecRotation_lt crc32 (by
    obtain ⟨hm, -, -⟩ := validate_erasureCoded h
    omega)

structure EcPut where
  body : Bytes
  available : Nat → Bool
  call : PutCall

def EcPut.padded (K : EcKey) (p : EcPut) : Bytes := padBody K.k p.body

def EcPut.tag (K : EcKey) (p : EcPut) : UInt64 := ecCohortTag K.P (p.padded K)

def EcPut.writes (K : EcKey) (p : EcPut) : List (Nat × NodeBlob) :=
  (putBlobEc K.P K.k K.m K.rotation p.available p.body).2

structure EcGet where
  contentLen : Nat
  dataAvailable : Nat → Bool
  parityAvailable : Nat → Bool
  repairAvailable : Nat → Bool
  call : GetCall

def EcGet.env (K : EcKey) (g : EcGet) : EcRead where
  P := K.P
  k := K.k
  m := K.m
  rotation := K.rotation
  dataAvailable := g.dataAvailable
  parityAvailable := g.parityAvailable
  repairAvailable := g.repairAvailable

structure EcWorld where
  nodes : Nat → Option NodeBlob
  /-- writes sent to nodes, of puts and of repairs -/
  requests : List (Nat × NodeBlob)
  /-- what nodes answered to a write -/
  answers : List (Nat × NodeBlob × WriteReply)
  /-- what nodes answered to a read -/
  reads : List (Nat × Option NodeBlob)
  puts : List EcPut
  gets : List EcGet

def EcWorld.empty : EcWorld := ⟨fun _ => none, [], [], [], [], []⟩

def putReplyOf : WriteReply → PutReply
  | .stored => .ok
  | .skipped => .versionSkipped
  | .mismatch => .mismatch

def getReplyOf : Option NodeBlob → GetReply
  | some blob => .ok blob
  | none => .notFound

def GetCall.repairs (c : GetCall) : List (Nat × NodeBlob) :=
  match c.finished with
  | some (.ok _ repairs) => repairs
  | _ => []

def EcWorld.startPut (K : EcKey) (w : EcWorld) (body : Bytes) (available : Nat → Bool) : EcWorld :=
  let sent := putBlobEc K.P K.k K.m K.rotation available body
  { w with puts := ⟨body, available, sent.1⟩ :: w.puts, requests := sent.2 ++ w.requests }

def EcWorld.startGet (K : EcKey) (w : EcWorld) (contentLen : Nat)
    (dataAvailable parityAvailable repairAvailable : Nat → Bool) : EcWorld :=
  let E : EcRead := ⟨K.P, K.k, K.m, K.rotation, dataAvailable, parityAvailable, repairAvailable⟩
  let call := GetCall.start E contentLen
  { w with
    gets := ⟨contentLen, dataAvailable, parityAvailable, repairAvailable, call⟩ :: w.gets
    requests := call.repairs ++ w.requests }

def EcWorld.nodeWrite (w : EcWorld) (i : Nat) (blob : NodeBlob) : EcWorld :=
  { w with
    nodes := update w.nodes i (writeOnce (w.nodes i) blob).1
    answers := (i, blob, (writeOnce (w.nodes i) blob).2) :: w.answers }

def EcWorld.nodeRead (w : EcWorld) (i : Nat) : EcWorld :=
  { w with reads := (i, w.nodes i) :: w.reads }

def EcWorld.setPut (w : EcWorld) (j : Nat) (p : EcPut) (call : PutCall) : EcWorld :=
  { w with puts := w.puts.set j { p with call := call } }

/-- The call of the `j`-th read takes an event; its repairs go out when it returns. -/
def EcWorld.setGet (w : EcWorld) (j : Nat) (g : EcGet) (call : GetCall) : EcWorld :=
  { w with
    gets := w.gets.set j { g with call := call }
    requests := call.repairs ++ w.requests }

def PutAnswerFrom (K : EcKey) (w : EcWorld) (p : EcPut) (answer : Nat × PutReply) : Prop :=
  answer.2 = .failed ∨ ∃ blob r, (answer.1, blob) ∈ p.writes K ∧ (answer.1, blob, r) ∈ w.answers ∧
    answer.2 = putReplyOf r

def GetEventFrom (K : EcKey) (w : EcWorld) : GetEvent → Prop
  | .reply i r => r = .failed ∨
      ∃ content, (nodeIndex i K.rotation (K.k + K.m), content) ∈ w.reads ∧ r = getReplyOf content
  | .hedge => True

inductive EcStep (K : EcKey) (w : EcWorld) : EcWorld → Prop
  | startPut (body : Bytes) (available : Nat → Bool) (hbody : body ≠ []) :
      EcStep K w (w.startPut K body available)
  | startGet (contentLen : Nat) (dataAvailable parityAvailable repairAvailable : Nat → Bool) :
      EcStep K w (w.startGet K contentLen dataAvailable parityAvailable repairAvailable)
  | nodeWrite (i : Nat) (blob : NodeBlob) (h : (i, blob) ∈ w.requests) :
    EcStep K w (w.nodeWrite i blob)
  | nodeRead (i : Nat) : EcStep K w (w.nodeRead i)
  | putAnswer (j : Nat) (p : EcPut) (answer : Nat × PutReply) (call : PutCall)
      (hp : w.puts[j]? = some p) (hfrom : PutAnswerFrom K w p answer)
      (hstep : p.call.step answer = some call) : EcStep K w (w.setPut j p call)
  | getEvent (j : Nat) (g : EcGet) (e : GetEvent) (call : GetCall)
      (hg : w.gets[j]? = some g) (hfrom : GetEventFrom K w e)
      (hstep : g.call.step (g.env K) e = some call) : EcStep K w (w.setGet j g call)

def ecSystem (K : EcKey) : TransitionSystem EcWorld where
  init w := w = EcWorld.empty
  step := EcStep K

/-! ## §2. What is kept -/

def ShardOf (K : EcKey) (padded : Bytes) (i : Nat) (blob : NodeBlob) : Prop :=
  i < K.k + K.m ∧ blob.cohortTag = ecCohortTag K.P padded ∧
  ∃ shards, IsStripe K.P K.k K.m padded shards ∧
    shards[shardIndex i K.rotation (K.k + K.m)]? = some blob.body

def FromPut (K : EcKey) (w : EcWorld) (i : Nat) (blob : NodeBlob) : Prop :=
  ∃ p ∈ w.puts, ShardOf K (p.padded K) i blob

/-- The padded bodies involved have distinct cohort tags. -/
def DistinctTags (K : EcKey) (w : EcWorld) : Prop :=
  ∀ p ∈ w.puts, ∀ q ∈ w.puts, p.tag K = q.tag K → p.padded K = q.padded K

def Held (K : EcKey) (w : EcWorld) (i : Nat) (blob : NodeBlob) : Prop :=
  w.nodes (nodeIndex i K.rotation (K.k + K.m)) = some blob

def EcWorld.cohortHeld (K : EcKey) (w : EcWorld) (tag : UInt64) : Nat :=
  heldBy (K.k + K.m) w.nodes fun _ blob => blob.cohortTag == tag

structure EcInv (K : EcKey) (w : EcWorld) : Prop where
  requests_from : ∀ i blob, (i, blob) ∈ w.requests → FromPut K w i blob
  nodes_from : ∀ i blob, w.nodes i = some blob → FromPut K w i blob
  answers_held : ∀ i blob r, (i, blob, r) ∈ w.answers → r ≠ .mismatch → w.nodes i = some blob
  reads_held : ∀ i blob, (i, some blob) ∈ w.reads → w.nodes i = some blob
  puts_quorum : ∀ p ∈ w.puts, p.body ≠ [] ∧ p.call.quorum = K.k + 1
  puts_acked : ∀ p ∈ w.puts, PutInv (K.k + K.m)
    (fun i => ∃ blob, w.nodes i = some blob ∧ blob.cohortTag = p.tag K) p.call
  gets_ok : ∀ g ∈ w.gets,
    GetOk (g.env K) (Held K w) (fun _ => True) (fun _ => False) g.contentLen g.call

/-! ## §3. Reads decode what is held -/

variable {K : EcKey} {w w' : EcWorld} {g : EcGet} {p : EcPut} {i j : Nat}

theorem selected_cohort (hdist : DistinctTags K w)
    (hfrom : ∀ i blob, w.nodes i = some blob → FromPut K w i blob)
    {results : List (Option NodeBlob)} (hlen : results.length = K.k + K.m)
    (hheld : ∀ i blob, results[i]? = some (some blob) → Held K w i blob) {tag : UInt64}
    (hdec : decodableCohort results K.k = some tag) :
    ∃ p ∈ w.puts, tag = p.tag K ∧ ∃ shards, IsStripe K.P K.k K.m (p.padded K) shards ∧
      CohortFrom shards tag results := by
  have hk : 0 < K.k := Nat.zero_lt_of_lt K.m_lt
  -- every received shard comes from a put, at its own position
  have hshard : ∀ (i : Nat) (blob : NodeBlob), results[i]? = some (some blob) → ∃ p ∈ w.puts,
      blob.cohortTag = p.tag K ∧ ∃ shards, IsStripe K.P K.k K.m (p.padded K) shards ∧
        shards[i]? = some blob.body := by
    intro i blob hi
    have hlt : i < K.k + K.m := hlen ▸ (List.getElem?_eq_some_iff.mp hi).1
    obtain ⟨p, hp, -, htag, shards, hstripe, hget⟩ := hfrom _ _ (hheld i blob hi)
    rw [shardIndex_nodeIndex hlt K.rotation_lt_total] at hget
    exact ⟨p, hp, htag, shards, hstripe, hget⟩
  have hcount := (decodableCohort_some hdec).2
  obtain ⟨s, hs, hany⟩ := countP_pos_iff.mp (show 0 < cohortCount results tag by omega)
  cases s with
  | none => cases hany
  | some blob =>
    obtain ⟨i, hi⟩ := mem_iff_getElem?.mp hs
    obtain ⟨p, hp, htag, shards, hstripe, -⟩ := hshard i blob hi
    have hblob : blob.cohortTag = tag := by simpa [ofCohort] using hany
    refine ⟨p, hp, hblob.symm.trans htag, shards, hstripe, fun j b hj hb => ?_⟩
    obtain ⟨q, hq, hqtag, shards', hstripe', hget⟩ := hshard j b hj
    -- equal tags mean equal padded bodies, hence equal shards
    have hpad : q.padded K = p.padded K :=
      hdist q hq p hp (by rw [← hqtag, hb, ← hblob, htag])
    have henc := hstripe'.encoded
    rw [hpad, hstripe.encoded] at henc
    injection henc with henc
    rw [henc]
    exact hget

theorem getEnd_ok (hrs : K.P.rs.Restores K.k K.m)
    (hdist : DistinctTags K w) (hfrom : ∀ i blob, w.nodes i = some blob → FromPut K w i blob)
    {body : Bytes} {repairs : List (Nat × NodeBlob)}
    (hend : GetEnd (g.env K) (Held K w) (fun _ => True) (fun _ => False) g.contentLen
      (.ok body repairs)) :
    (g.contentLen = 0 ∧ repairs = []) ∨
    ∃ p ∈ w.puts, body = (p.padded K).take g.contentLen ∧ K.k ≤ w.cohortHeld K (p.tag K) ∧
      ∀ e ∈ repairs, ShardOf K (p.padded K) e.1 e.2 := by
  have hk : 0 < K.k := Nat.zero_lt_of_lt K.m_lt
  generalize hr : GetResult.ok body repairs = r at hend
  cases hend with
  | empty hlen =>
    injection hr with _ hrep
    exact .inl ⟨hlen, hrep⟩
  | @fast c tag hc hdata hdec =>
    obtain ⟨p, hp, rfl, shards, hstripe, hcohort⟩ :=
      selected_cohort hdist hfrom hc.results_length hc.held hdec
    have hresult : fastResult (g.env K) c (p.tag K) = _ :=
      fastResult_of_cohort (E := g.env K) hrs hstripe (hc.early hdata) hcohort hdec
    rw [hresult, hc.content_len] at hr
    injection hr with hbody hrep
    refine .inr ⟨p, hp, hbody, ?_, by simp [hrep]⟩
    exact (decodableCohort_some hdec).2.trans
      (cohortCount_le_heldBy K.rotation_lt_total hc.results_length hc.held _)
  | @degraded c hc hhedged hdone =>
    cases hdec : decodableCohort c.shardResults K.k with
    | none =>
      -- without a cohort the read ends in an error
      have hres : degradedResult (g.env K) c = if c.totalShardsReceived = 0 ∧
          c.shardsNotFound ≥ K.m then .err .blockNotFound
          else .err (.noCohort K.k c.totalShardsReceived) := by
        unfold degradedResult
        rw [show decodableCohort c.shardResults (g.env K).k = none from hdec]
        rfl
      rw [hres] at hr
      split at hr <;> cases hr
    | some tag =>
      obtain ⟨p, hp, rfl, shards, hstripe, hcohort⟩ :=
        selected_cohort hdist hfrom hc.results_length hc.held hdec
      obtain ⟨repairs', hresult, hrepairs⟩ := degradedResult_of_cohort (E := g.env K) hrs hk
        hstripe hc.results_length hc.missing_length hcohort hdec
      rw [hresult, hc.content_len] at hr
      injection hr with hbody hrep
      refine .inr ⟨p, hp, hbody, ?_, fun e he => ?_⟩
      · exact (decodableCohort_some hdec).2.trans
          (cohortCount_le_heldBy K.rotation_lt_total hc.results_length hc.held _)
      · obtain ⟨i, hi, hnode, hshard, htag⟩ := hrepairs e (hrep ▸ he)
        have hi : i < K.k + K.m := hi
        have hnode : e.1 = nodeIndex i K.rotation (K.k + K.m) := hnode
        refine ⟨hnode ▸ nodeIndex_lt i _ (by omega), htag, shards, hstripe, ?_⟩
        rw [hnode, shardIndex_nodeIndex hi K.rotation_lt_total]
        exact hshard
  | notFound hc hnone hquorum => cases hr

/-! ## §4. Every step keeps the invariant -/

structure EcWorld.Grows (w w' : EcWorld) : Prop where
  nodes : ∀ i blob, w.nodes i = some blob → w'.nodes i = some blob
  puts : ∀ p ∈ w.puts, ∃ p' ∈ w'.puts, p'.body = p.body

theorem EcWorld.Grows.refl (w : EcWorld) : w.Grows w := ⟨fun _ _ h => h, fun p hp => ⟨p, hp, rfl⟩⟩

theorem EcWorld.Grows.trans {a b c : EcWorld} (hab : a.Grows b) (hbc : b.Grows c) : a.Grows c where
  nodes i blob h := hbc.nodes i blob (hab.nodes i blob h)
  puts p hp := by
    obtain ⟨q, hq, hqp⟩ := hab.puts p hp
    obtain ⟨r, hr, hrq⟩ := hbc.puts q hq
    exact ⟨r, hr, hrq.trans hqp⟩

theorem padded_congr {q : EcPut} (h : p.body = q.body) : p.padded K = q.padded K := by
  unfold EcPut.padded
  rw [h]

theorem FromPut.mono (hg : w.Grows w') {blob : NodeBlob}
    (h : FromPut K w i blob) : FromPut K w' i blob := by
  obtain ⟨p, hp, hshard⟩ := h
  obtain ⟨p', hp', hbody⟩ := hg.puts p hp
  exact ⟨p', hp', (padded_congr hbody) ▸ hshard⟩

theorem DistinctTags.of_grows (hg : w.Grows w')
    (h : DistinctTags K w') : DistinctTags K w := by
  intro p hp q hq htag
  obtain ⟨p', hp', hpb⟩ := hg.puts p hp
  obtain ⟨q', hq', hqb⟩ := hg.puts q hq
  have hpad := padded_congr (K := K) hpb
  have hqad := padded_congr (K := K) hqb
  rw [← hpad, ← hqad]
  refine h p' hp' q' hq' ?_
  unfold EcPut.tag at htag ⊢
  rw [hpad, hqad, htag]

theorem grows_step (h : EcStep K w w') : w.Grows w' := by
  cases h with
  | startPut body available hbody =>
    exact ⟨fun _ _ h => h, fun p hp => ⟨p, mem_cons_of_mem _ hp, rfl⟩⟩
  | startGet contentLen da pa ra => exact ⟨fun _ _ h => h, fun p hp => ⟨p, hp, rfl⟩⟩
  | nodeWrite i blob hreq =>
    refine ⟨fun j b hj => ?_, fun p hp => ⟨p, hp, rfl⟩⟩
    show update w.nodes i (writeOnce (w.nodes i) blob).1 j = some b
    by_cases hji : j = i
    · subst hji
      rw [update_self]
      exact writeOnce_keeps hj blob
    · rw [update_of_ne hji]
      exact hj
  | nodeRead i => exact ⟨fun _ _ h => h, fun p hp => ⟨p, hp, rfl⟩⟩
  | putAnswer j p answer call hp hfrom hstep =>
    refine ⟨fun _ _ h => h, fun q hq => ?_⟩
    obtain ⟨i, hi⟩ := mem_iff_getElem?.mp hq
    by_cases hij : i = j
    · -- the answered put itself: its body stays
      subst hij
      rw [hp] at hi
      injection hi with hi
      subst hi
      have hlt := (List.getElem?_eq_some_iff.mp hp).1
      exact ⟨_, mem_iff_getElem?.mpr ⟨i, List.getElem?_set_self hlt⟩, rfl⟩
    · refine ⟨q, mem_iff_getElem?.mpr ⟨i, ?_⟩, rfl⟩
      show (w.puts.set j { p with call := call })[i]? = some q
      rw [List.getElem?_set_ne (Ne.symm hij)]
      exact hi
  | getEvent j g e call hg hfrom hstep => exact ⟨fun _ _ h => h, fun p hp => ⟨p, hp, rfl⟩⟩

theorem Held.mono (hg : w.Grows w') (i : Nat) (blob : NodeBlob)
    (h : Held K w i blob) : Held K w' i blob := hg.nodes _ _ h

theorem ecInv_empty (K : EcKey) : EcInv K EcWorld.empty :=
  ⟨by simp [EcWorld.empty], by simp [EcWorld.empty], by simp [EcWorld.empty], by
    simp [EcWorld.empty],
    by simp [EcWorld.empty], by simp [EcWorld.empty], by simp [EcWorld.empty]⟩

section

variable (hrs : K.P.rs.Restores K.k K.m)

include hrs

theorem repairs_from
    (hdist : DistinctTags K w) (hfrom : ∀ i blob, w.nodes i = some blob → FromPut K w i blob)
    (hg : GetOk (g.env K) (Held K w) (fun _ => True) (fun _ => False) g.contentLen g.call)
    {e : Nat × NodeBlob} (he : e ∈ g.call.repairs) : FromPut K w e.1 e.2 := by
  unfold GetCall.repairs at he
  split at he
  · next body repairs hfin =>
      rcases getEnd_ok hrs hdist hfrom (hg.ended _ hfin) with ⟨-, rfl⟩ | ⟨p, hp, -, -, hall⟩
      · cases he
      · exact ⟨p, hp, hall e he⟩
  · cases he

omit hrs in
theorem noneAnswering (E : EcRead) : Answering E fun _ => False := fun _ h => h.elim

section

variable (hw : EcInv K w)

include hw

theorem ecInv_startPut
    {body : Bytes} {available : Nat → Bool} (hbody : body ≠ []) :
    EcInv K (w.startPut K body available) := by
  have hk : 0 < K.k := Nat.zero_lt_of_lt K.m_lt
  have hg : w.Grows (w.startPut K body available) := grows_step (.startPut body available hbody)
  obtain ⟨hquorum, -, hwrites⟩ :=
    putBlobEc_spec hrs hk K.rotation_lt_total available hbody fun _ => True
  refine ⟨fun i blob h => ?_, fun i blob h => (hw.nodes_from i blob h).mono hg, hw.answers_held,
    hw.reads_held, fun p hp => ?_, fun p hp => ?_, hw.gets_ok⟩
  · rcases mem_append.mp h with h | h
    · obtain ⟨shards, j, hstripe, hj, hnode, hshard, htag⟩ := hwrites (i, blob) h
      have hnode : i = nodeIndex j K.rotation (K.k + K.m) := hnode
      refine ⟨_, mem_cons_self, hnode ▸ nodeIndex_lt j _ (by omega), htag, shards, hstripe, ?_⟩
      rw [hnode, shardIndex_nodeIndex hj K.rotation_lt_total]
      exact hshard
    · exact (hw.requests_from i blob h).mono hg
  · rcases mem_cons.mp hp with rfl | hp
    · exact ⟨hbody, hquorum⟩
    · exact hw.puts_quorum p hp
  · rcases mem_cons.mp hp with rfl | hp
    · exact (putBlobEc_spec hrs hk K.rotation_lt_total available hbody _).2.1
    · exact hw.puts_acked p hp

theorem ecInv_startGet
    (hdist : DistinctTags K w) (contentLen : Nat) (da pa ra : Nat → Bool) :
    EcInv K (w.startGet K contentLen da pa ra) := by
  set g : EcGet := ⟨contentLen, da, pa, ra,
    GetCall.start ⟨K.P, K.k, K.m, K.rotation, da, pa, ra⟩ contentLen⟩ with hgdef
  have hstart : GetOk (g.env K) (Held K w) (fun _ => True) (fun _ => False) g.contentLen g.call :=
    getOk_start (E := g.env K) (noneAnswering _)
  refine ⟨fun i blob h => ?_, hw.nodes_from, hw.answers_held, hw.reads_held, hw.puts_quorum,
    hw.puts_acked, fun g' hg' => ?_⟩
  · rcases mem_append.mp h with h | h
    · exact repairs_from hrs hdist hw.nodes_from hstart h
    · exact hw.requests_from i blob h
  · rcases mem_cons.mp hg' with rfl | hg'
    · exact hstart
    · exact hw.gets_ok g' hg'

omit hrs in
theorem ecInv_nodeWrite {blob : NodeBlob}
    (hreq : (i, blob) ∈ w.requests) : EcInv K (w.nodeWrite i blob) := by
  have hg : w.Grows (w.nodeWrite i blob) := grows_step (K := K) (.nodeWrite i blob hreq)
  have hself : (w.nodeWrite i blob).nodes i = (writeOnce (w.nodes i) blob).1 :=
    update_self ..
  refine ⟨hw.requests_from, fun j b hj => ?_, fun j b r h hr => ?_, fun j b h => ?_, hw.puts_quorum,
    fun p hp => ?_, fun g hget => ?_⟩
  · by_cases hji : j = i
    · subst hji
      rw [hself] at hj
      rcases writeOnce_cases (w.nodes j) blob with hsame | ⟨-, hnew⟩
      · exact hw.nodes_from j b (hsame ▸ hj)
      · rw [hnew] at hj
        injection hj with hj
        exact hj ▸ hw.requests_from j blob hreq
    · have hother : (w.nodeWrite i blob).nodes j = w.nodes j := update_of_ne hji ..
      exact hw.nodes_from j b (hother ▸ hj)
  · rcases mem_cons.mp h with h | h
    · injection h with hj h
      injection h with hb hrr
      subst hj hb hrr
      rw [hself]
      exact writeOnce_acked hr
    · exact hg.nodes _ _ (hw.answers_held j b r h hr)
  · exact hg.nodes _ _ (hw.reads_held j b h)
  · refine putInv_mono (hw.puts_acked p hp) ?_
    rintro j ⟨b, hb, htag⟩
    exact ⟨b, hg.nodes _ _ hb, htag⟩
  · exact getOk_mono (Held.mono hg) (hw.gets_ok g hget)

omit hrs in
theorem ecInv_nodeRead (i : Nat) :
    EcInv K (w.nodeRead i) := by
  refine ⟨hw.requests_from, hw.nodes_from, hw.answers_held, fun j b h => ?_, hw.puts_quorum,
    hw.puts_acked, hw.gets_ok⟩
  rcases mem_cons.mp h with h | h
  · injection h with hj hb
    rw [hj]
    exact hb.symm
  · exact hw.reads_held j b h

theorem ecInv_putAnswer
    {answer : Nat × PutReply} {call : PutCall} (hp : w.puts[j]? = some p)
    (hfrom : PutAnswerFrom K w p answer) (hstep : p.call.step answer = some call) :
    EcInv K (w.setPut j p call) := by
  have hk : 0 < K.k := Nat.zero_lt_of_lt K.m_lt
  have hg : w.Grows (w.setPut j p call) := grows_step (.putAnswer j p answer call hp hfrom hstep)
  have hmem := mem_of_getElem? hp
  obtain ⟨hrun, hpending, rfl⟩ := step_eq_some hstep
  obtain ⟨hbody, hquorum⟩ := hw.puts_quorum p hmem
  have hack : answer.2.isAck = true →
      ∃ blob, w.nodes answer.1 = some blob ∧ blob.cohortTag = p.tag K := by
    intro hack
    rcases hfrom with hfail | ⟨blob, r, hwrite, hanswer, hr⟩
    · rw [hfail] at hack
      cases hack
    · have hne : r ≠ .mismatch := by
        rintro rfl
        rw [hr] at hack
        cases hack
      obtain ⟨-, -, hwrites⟩ :=
        putBlobEc_spec hrs hk K.rotation_lt_total p.available hbody fun _ => True
      obtain ⟨-, -, -, -, -, -, htag⟩ := hwrites _ hwrite
      exact ⟨blob, hw.answers_held _ _ _ hanswer hne, htag⟩
  refine ⟨fun i blob h => (hw.requests_from i blob h).mono hg,
    fun i blob h => (hw.nodes_from i blob h).mono hg, hw.answers_held, hw.reads_held,
    fun q hq => ?_, fun q hq => ?_, hw.gets_ok⟩
  · rcases mem_or_eq_of_mem_set hq with hq | rfl
    · exact hw.puts_quorum q hq
    · exact ⟨hbody, (reply_quorum ..).trans hquorum⟩
  · rcases mem_or_eq_of_mem_set hq with hq | rfl
    · exact hw.puts_acked q hq
    · exact putInv_reply (hw.puts_acked p hmem) hpending hrun hack

theorem ecInv_getEvent
    (hdist : DistinctTags K w) {e : GetEvent} {call : GetCall}
    (hget : w.gets[j]? = some g) (hfrom : GetEventFrom K w e)
    (hstep : g.call.step (g.env K) e = some call) : EcInv K (w.setGet j g call) := by
  have hvalid : e.Valid (Held K w) (fun _ => True) fun _ => False := by
    cases e with
    | hedge => trivial
    | reply i r =>
      cases r with
      | ok blob =>
        rcases hfrom with hfail | ⟨content, hread, hr⟩
        · cases hfail
        · cases content with
          | none => cases hr
          | some b =>
            injection hr with hr
            subst hr
            exact hw.reads_held _ _ hread
      | notFound => exact ⟨trivial, id⟩
      | failed => exact id
  have hok := getOk_step (noneAnswering _) (hw.gets_ok g (mem_of_getElem? hget)) hvalid hstep
  refine ⟨fun i blob h => ?_, hw.nodes_from, hw.answers_held, hw.reads_held, hw.puts_quorum,
    hw.puts_acked, fun g' hg' => ?_⟩
  · rcases mem_append.mp h with h | h
    · exact repairs_from (g := { g with call := call }) hrs hdist hw.nodes_from hok h
    · exact hw.requests_from i blob h
  · rcases mem_or_eq_of_mem_set hg' with hg' | rfl
    · exact hw.gets_ok g' hg'
    · exact hok

theorem ecInv_step
    (hdist : DistinctTags K w) (h : EcStep K w w') : EcInv K w' := by
  cases h with
  | startPut body available hbody => exact ecInv_startPut hrs hw hbody
  | startGet contentLen da pa ra => exact ecInv_startGet hrs hw hdist contentLen da pa ra
  | nodeWrite i blob hreq => exact ecInv_nodeWrite hw hreq
  | nodeRead i => exact ecInv_nodeRead hw i
  | putAnswer j p answer call hp hfrom hstep => exact ecInv_putAnswer hrs hw hp hfrom hstep
  | getEvent j g e call hget hfrom hstep => exact ecInv_getEvent hrs hw hdist hget hfrom hstep

end

theorem ecInv_reachable
    (h : (ecSystem K).Reachable w) (hdist : DistinctTags K w) : EcInv K w := by
  have hinv : DistinctTags K w → EcInv K w := by
    refine h.invariant (P := fun w => DistinctTags K w → EcInv K w) ?_ ?_
    · rintro w rfl -
      exact ecInv_empty K
    · intro w w' ih hstep hdist'
      have hbefore := hdist'.of_grows (grows_step hstep)
      exact ecInv_step hrs (ih hbefore) hbefore hstep
  exact hinv hdist

end

/-! ## §5. Agreement -/

theorem put_ok_cohortHeld (hw : EcInv K w) (hp : p ∈ w.puts)
    {outcome : PutBlobOutcome} (hok : p.call.finished = some (.ok outcome)) :
    K.k + 1 ≤ w.cohortHeld K (p.tag K) := by
  obtain ⟨acked, hnodup, hlen, hall⟩ := put_ok_acked (hw.puts_acked p hp) hok
  rw [(hw.puts_quorum p hp).2] at hlen
  refine hlen.trans (length_le_heldBy _ _ _ acked hnodup fun i hi => ?_)
  obtain ⟨hlt, blob, hblob, htag⟩ := hall i hi
  exact ⟨hlt, blob, hblob, by simp [htag]⟩

theorem cohortHeld_mono (hg : w.Grows w') (tag : UInt64) :
    w.cohortHeld K tag ≤ w'.cohortHeld K tag := heldBy_mono _ _ _ _ hg.nodes

theorem cohortHeld_unique {tag tag' : UInt64}
    (h : K.k ≤ w.cohortHeld K tag) (h' : K.k ≤ w.cohortHeld K tag') : tag = tag' := by
  by_contra hne
  have hsum : w.cohortHeld K tag + w.cohortHeld K tag' ≤ K.k + K.m :=
    heldBy_add_le _ _ _ _ fun i _ blob _ hb hb' => hne (by
      rw [← beq_iff_eq.mp hb, ← beq_iff_eq.mp hb'])
  have := K.m_lt
  omega

theorem grows_run (r : (ecSystem K).Run) (hij : i ≤ j) :
    (r.state i).Grows (r.state j) :=
  r.mono EcWorld.Grows.refl (fun _ _ _ => EcWorld.Grows.trans) (fun _ _ _ h => grows_step h) hij

section Run

variable {K : EcKey} (hrs : K.P.rs.Restores K.k K.m) (r : (ecSystem K).Run)
  (hdist : ∀ t, DistinctTags K (r.state t))

include hrs hdist

variable {t : Nat}

theorem run_put_ok_held {p : EcPut} (hp : p ∈ (r.state t).puts) {o : PutBlobOutcome}
    (hok : p.call.finished = some (.ok o)) : K.k ≤ (r.state t).cohortHeld K (p.tag K) := by
  have hinv := ecInv_reachable hrs (r.reachable t) (hdist t)
  have := put_ok_cohortHeld hinv hp hok
  omega

omit hrs hdist in
theorem run_cohort_unique {t' : Nat} {tag tag' : UInt64}
    (h : K.k ≤ (r.state t).cohortHeld K tag) (h' : K.k ≤ (r.state t').cohortHeld K tag') :
    tag = tag' := by
  refine cohortHeld_unique (w := r.state (max t t')) (h.trans ?_) (h'.trans ?_)
  · exact cohortHeld_mono (grows_run r (Nat.le_max_left t t')) tag
  · exact cohortHeld_mono (grows_run r (Nat.le_max_right t t')) tag'

theorem run_puts_agree {t' : Nat} {p q : EcPut} (hp : p ∈ (r.state t).puts)
    (hq : q ∈ (r.state t').puts) {o o' : PutBlobOutcome} (hpo : p.call.finished = some (.ok o))
    (hqo : q.call.finished = some (.ok o')) : p.padded K = q.padded K := by
  have htag : p.tag K = q.tag K :=
    run_cohort_unique r (run_put_ok_held hrs r hdist hp hpo) (run_put_ok_held hrs r hdist hq hqo)
  obtain ⟨p', hp', hpb⟩ := (grows_run r (Nat.le_max_left t t')).puts p hp
  obtain ⟨q', hq', hqb⟩ := (grows_run r (Nat.le_max_right t t')).puts q hq
  have hpad := padded_congr (K := K) hpb
  have hqad := padded_congr (K := K) hqb
  rw [← hpad, ← hqad]
  refine hdist (max t t') p' hp' q' hq' ?_
  unfold EcPut.tag at htag ⊢
  rw [hpad, hqad, htag]

theorem run_read_ok {g : EcGet} (hg : g ∈ (r.state t).gets) {body : Bytes}
    {repairs : List (Nat × NodeBlob)} (hlen : 0 < g.contentLen)
    (hfin : g.call.finished = some (.ok body repairs)) :
    ∃ p ∈ (r.state t).puts, K.k ≤ (r.state t).cohortHeld K (p.tag K) ∧
      body = (p.padded K).take g.contentLen := by
  have hinv := ecInv_reachable hrs (r.reachable t) (hdist t)
  rcases getEnd_ok hrs (hdist t) hinv.nodes_from ((hinv.gets_ok g hg).ended _ hfin) with
    ⟨hzero, -⟩ | ⟨p, hp, hbody, hk, -⟩
  · omega
  · exact ⟨p, hp, hk, hbody⟩

end Run

/-- ★ **Writers and readers of one key agree.** In every run in which the padded bodies involved
    have distinct cohort tags: puts that returned Ok had one padded body, and their cohort is held
    by `k` nodes or more; at most one cohort is ever held by so many; and every read with a positive
    length that returned Ok returned the first bytes of the padded body of that cohort. -/
theorem ec_writers_and_readers_agree (P : EcPrims) {id : UInt16} {nodes k m : Nat}
    (hv : (Volume.mk id nodes (.erasureCoded k m)).validate = .ok ()) (crc32 : UInt32)
    (hrs : P.rs.Restores k m) (r : (ecSystem (EcKey.ofVolume P hv crc32)).Run)
    (hdist : ∀ t, DistinctTags (EcKey.ofVolume P hv crc32) (r.state t)) :
    (∀ t t', ∀ p ∈ (r.state t).puts, ∀ q ∈ (r.state t').puts, ∀ o o',
      p.call.finished = some (.ok o) → q.call.finished = some (.ok o') →
      padBody k p.body = padBody k q.body) ∧
    (∀ t, ∀ p ∈ (r.state t).puts, ∀ o, p.call.finished = some (.ok o) →
      k ≤ (r.state t).cohortHeld (EcKey.ofVolume P hv crc32) (ecCohortTag P (padBody k p.body))) ∧
    (∀ t t' tag tag', k ≤ (r.state t).cohortHeld (EcKey.ofVolume P hv crc32) tag →
      k ≤ (r.state t').cohortHeld (EcKey.ofVolume P hv crc32) tag' → tag = tag') ∧
    (∀ t, ∀ g ∈ (r.state t).gets, ∀ body repairs, 0 < g.contentLen →
      g.call.finished = some (.ok body repairs) → ∃ p ∈ (r.state t).puts,
        k ≤ (r.state t).cohortHeld (EcKey.ofVolume P hv crc32) (ecCohortTag P (padBody k p.body)) ∧
        body = (padBody k p.body).take g.contentLen) := by
  refine ⟨?_, ?_, ?_, ?_⟩
  · intro t t' p hp q hq o o' hpo hqo
    exact run_puts_agree (K := EcKey.ofVolume P hv crc32) hrs r hdist hp hq hpo hqo
  · intro t p hp o hok
    exact run_put_ok_held (K := EcKey.ofVolume P hv crc32) hrs r hdist hp hok
  · intro t t' tag tag' h h'
    exact run_cohort_unique r h h'
  · intro t g hg body repairs hlen hfin
    exact run_read_ok (K := EcKey.ofVolume P hv crc32) hrs r hdist hg hlen hfin

theorem ec_writers_and_readers_agree_on_three_nodes :
    let hv : (Volume.mk 0x8000 3 (.erasureCoded 2 1)).validate = .ok () := rfl
    let K := EcKey.ofVolume ⟨xorCode, fun _ => 7⟩ hv 1
    ∃ r : (ecSystem K).Run,
      (∃ p ∈ (r.state 12).puts, p.call.finished = some (.ok .stored)) ∧
      (∃ g ∈ (r.state 12).gets, g.call.finished = some (.ok [10, 20] [])) ∧
      ∀ t t' tag tag', 2 ≤ (r.state t).cohortHeld K tag → 2 ≤ (r.state t').cohortHeld K tag' →
        tag = tag' := by
  intro hv K
  let all : Nat → Bool := fun _ => true
  let p : EcPut := ⟨[10, 20], all, (putBlobEc K.P K.k K.m K.rotation all [10, 20]).1⟩
  let c₁ := p.call.reply 1 .ok
  let c₂ := c₁.reply 2 .ok
  let c₃ := c₂.reply 0 .ok
  let E : EcRead := ⟨⟨xorCode, fun _ => 7⟩, 2, 1, 1, all, all, all⟩
  let g : EcGet := ⟨2, all, all, all, GetCall.start E 2⟩
  let d₁ := g.call.dataReply E 0 (.ok ⟨[10, 20], 7⟩)
  let d₂ := d₁.dataReply E 1 (.ok ⟨[0, 0], 7⟩)
  let w₁ := EcWorld.empty.startPut K [10, 20] all
  let w₂ := w₁.nodeWrite 1 ⟨[10, 20], 7⟩
  let w₃ := w₂.nodeWrite 2 ⟨[0, 0], 7⟩
  let w₄ := w₃.nodeWrite 0 ⟨[10, 20], 7⟩
  let w₅ := w₄.setPut 0 p c₁
  let w₆ := w₅.setPut 0 { p with call := c₁ } c₂
  let w₇ := w₆.setPut 0 { p with call := c₂ } c₃
  let w₈ := w₇.startGet K 2 all all all
  let w₉ := w₈.nodeRead 1
  let w₁₀ := w₉.nodeRead 2
  let w₁₁ := w₁₀.setGet 0 g d₁
  let w₁₂ := w₁₁.setGet 0 { g with call := d₁ } d₂
  let r : (ecSystem K).Run :=
    { state := fun t => match t with
        | 0 => EcWorld.empty
        | 1 => w₁
        | 2 => w₂
        | 3 => w₃
        | 4 => w₄
        | 5 => w₅
        | 6 => w₆
        | 7 => w₇
        | 8 => w₈
        | 9 => w₉
        | 10 => w₁₀
        | 11 => w₁₁
        | _ => w₁₂
      start := rfl
      next := fun t => match t with
        | 0 => .inr (.startPut [10, 20] all (by decide))
        | 1 => .inr (.nodeWrite 1 ⟨[10, 20], 7⟩ (by decide +kernel))
        | 2 => .inr (.nodeWrite 2 ⟨[0, 0], 7⟩ (by decide +kernel))
        | 3 => .inr (.nodeWrite 0 ⟨[10, 20], 7⟩ (by decide +kernel))
        | 4 => .inr (.putAnswer 0 p (1, .ok) c₁ rfl
            (.inr ⟨⟨[10, 20], 7⟩, .stored, by decide +kernel, by decide +kernel, rfl⟩)
            (by decide +kernel))
        | 5 => .inr (.putAnswer 0 { p with call := c₁ } (2, .ok) c₂ rfl
            (.inr ⟨⟨[0, 0], 7⟩, .stored, by decide +kernel, by decide +kernel, rfl⟩)
            (by decide +kernel))
        | 6 => .inr (.putAnswer 0 { p with call := c₂ } (0, .ok) c₃ rfl
            (.inr ⟨⟨[10, 20], 7⟩, .stored, by decide +kernel, by decide +kernel, rfl⟩)
            (by decide +kernel))
        | 7 => .inr (.startGet 2 all all all)
        | 8 => .inr (.nodeRead 1)
        | 9 => .inr (.nodeRead 2)
        | 10 => .inr (.getEvent 0 g (.reply 0 (.ok ⟨[10, 20], 7⟩)) d₁ rfl
            (.inr ⟨some ⟨[10, 20], 7⟩, by decide +kernel, rfl⟩)
            (by decide +kernel))
        | 11 => .inr (.getEvent 0 { g with call := d₁ } (.reply 1 (.ok ⟨[0, 0], 7⟩)) d₂ rfl
            (.inr ⟨some ⟨[0, 0], 7⟩, by decide +kernel, rfl⟩)
            (by decide +kernel))
        | _ + 12 => .inl rfl }
  have hlast : DistinctTags K w₁₂ := by
    intro p hp q hq _
    rw [mem_singleton.mp hp, mem_singleton.mp hq]
  have hdist : ∀ t, DistinctTags K (r.state t) := by
    intro t
    refine DistinctTags.of_grows (grows_run r (Nat.le_add_right t 12)) ?_
    exact hlast
  exact ⟨r, ⟨{ p with call := c₃ }, .head _, by decide +kernel⟩,
    ⟨{ g with call := d₂ }, .head _, by decide +kernel⟩,
    (ec_writers_and_readers_agree ⟨xorCode, fun _ => 7⟩ hv 1 xorCode_restores r hdist).2.2.1⟩

end FractalBits.VolumeGroup
