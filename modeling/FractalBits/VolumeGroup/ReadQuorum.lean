/-
  VolumeGroup.ReadQuorum — replicated reads and block listings.

  Mirrors `get_blob` on a replicated volume and `list_blob_blocks_inner` of `data_vg_proxy.rs`.
-/

import FractalBits.VolumeGroup.GetEc

namespace FractalBits.VolumeGroup

open Lib List

/-! ## §1. `get_blob` on a replicated volume -/

structure ReplicaRead where
  nodes : Nat
  writeQuorum : Nat
  fastAvailable : Nat → Bool
  draw : Nat
  fallbackAvailable : Nat → Bool

def ReplicaRead.absenceQuorum (R : ReplicaRead) : Nat := R.nodes - R.writeQuorum + 1

/-- The outstanding fast-path fetch, the outstanding fetches of the fallback, and the count of
    NotFound answers. -/
structure ReplicaCall where
  fastNode : Option Nat
  pending : List Nat
  notFoundCount : Nat
  finished : Option (Except DataVgError Bytes)
  deriving DecidableEq, Repr

section

variable (R : ReplicaRead)

def ReplicaCall.fallback (c : ReplicaCall) : ReplicaCall :=
  let fallbackNodes := (List.range R.nodes).filter R.fallbackAvailable
  if fallbackNodes = [] then
    { c with fastNode := none, finished := some (.error .noAvailableNodes) }
  else { c with fastNode := none, pending := fallbackNodes }

def ReplicaCall.start : ReplicaCall :=
  let availableNodes := (List.range R.nodes).filter R.fastAvailable
  let idle : ReplicaCall := ⟨none, [], 0, none⟩
  match availableNodes[R.draw % availableNodes.length]? with
  | some selectedNode => { idle with fastNode := some selectedNode }
  | none => idle.fallback R

def ReplicaCall.fastReply (c : ReplicaCall) : GetReply → ReplicaCall
  | .ok blobData => { c with fastNode := none, finished := some (.ok blobData.body) }
  | .notFound => c.fallback R
  | .failed => c.fallback R

def ReplicaCall.settle (c : ReplicaCall) : ReplicaCall :=
  if c.pending = [] then
    if c.notFoundCount ≥ R.absenceQuorum then { c with finished := some (.error .blockNotFound) }
    else { c with finished := some (.error .allReadsFailed) }
  else c

def ReplicaCall.pollReply (c : ReplicaCall) (node : Nat) (r : GetReply) :
    ReplicaCall :=
  let c := { c with pending := c.pending.erase node }
  match r with
  | .ok blobData => { c with finished := some (.ok blobData.body) }
  | .notFound =>
    let c := { c with notFoundCount := c.notFoundCount + 1 }
    if c.notFoundCount ≥ R.absenceQuorum then { c with finished := some (.error .blockNotFound) }
    else c.settle R
  | .failed => c.settle R

end

inductive ReplicaEvent
  | fast (r : GetReply)
  | poll (node : Nat) (r : GetReply)
  deriving DecidableEq, Repr

def ReplicaCall.step (R : ReplicaRead) (c : ReplicaCall) : ReplicaEvent → Option ReplicaCall
  | .fast r => if c.finished.isSome ∨ c.fastNode = none then none else some (c.fastReply R r)
  | .poll node r =>
    if c.finished.isSome ∨ node ∉ c.pending then none else some (c.pollReply R node r)

def ReplicaCall.run (R : ReplicaRead) (c : ReplicaCall) : List ReplicaEvent → Option ReplicaCall
  | [] => some c
  | e :: rest => (c.step R e).bind fun c => c.run R rest

/-- Every counted NotFound comes from a node that may give it, and absence was concluded from an
    absence quorum. -/
structure ReplicaInv (R : ReplicaRead) (Absent : Nat → Prop) (c : ReplicaCall) : Prop where
  tally : Tally R.nodes Absent c.pending c.notFoundCount
  fast_first : c.fastNode ≠ none → c.pending = [] ∧ c.notFoundCount = 0
  not_found : c.finished = some (.error .blockNotFound) → R.absenceQuorum ≤ c.notFoundCount

section Replica

variable {R : ReplicaRead} {Absent : Nat → Prop} {c : ReplicaCall}

theorem replicaInv_fallback (hidle : c.pending = [] ∧ c.notFoundCount = 0)
    (hrun : c.finished = none) : ReplicaInv R Absent (c.fallback R) := by
  obtain ⟨hpending, hzero⟩ := hidle
  unfold ReplicaCall.fallback
  dsimp only
  split
  · refine ⟨?_, by simp, by simp⟩
    show Tally R.nodes Absent c.pending c.notFoundCount
    rw [hpending, hzero]
    exact Tally.start nodup_nil (by simp)
  · refine ⟨?_, by simp, by simp [hrun]⟩
    show Tally R.nodes Absent _ c.notFoundCount
    rw [hzero]
    exact Tally.start (nodup_range.filter _) fun i hi =>
      mem_range.mp (mem_of_mem_filter hi)

theorem replicaInv_start (R : ReplicaRead) (Absent : Nat → Prop) :
    ReplicaInv R Absent (ReplicaCall.start R) := by
  unfold ReplicaCall.start
  dsimp only
  split
  · exact ⟨Tally.start nodup_nil (by simp), fun _ => ⟨rfl, rfl⟩, by simp⟩
  · exact replicaInv_fallback ⟨rfl, rfl⟩ rfl

theorem replicaInv_settle (hc : ReplicaInv R Absent c) (hrun : c.finished = none) :
    ReplicaInv R Absent (c.settle R) := by
  unfold ReplicaCall.settle
  split
  · split
    · next hquorum => exact ⟨hc.tally, hc.fast_first, fun _ => hquorum⟩
    · exact ⟨hc.tally, hc.fast_first, by simp⟩
  · exact ⟨hc.tally, hc.fast_first, by simp [hrun]⟩

theorem replicaInv_poll (hc : ReplicaInv R Absent c) (hrun : c.finished = none)
    {node : Nat} (hpending : node ∈ c.pending) {r : GetReply}
    (habsent : r = .notFound → Absent node) :
    ReplicaInv R Absent (c.pollReply R node r) := by
  -- the fallback runs, so the fast-path fetch is over
  have hfast : c.fastNode = none := by
    by_contra h
    rw [(hc.fast_first h).1] at hpending
    cases hpending
  unfold ReplicaCall.pollReply
  cases r with
  | ok blob => exact ⟨hc.tally.drop node, fun h => absurd hfast h, by simp⟩
  | notFound =>
    have hcount := hc.tally.count_one hpending (habsent rfl)
    dsimp only
    split
    · next hquorum => exact ⟨hcount, fun h => absurd hfast h, fun _ => hquorum⟩
    · exact replicaInv_settle ⟨hcount, fun h => absurd hfast h, by simp [hrun]⟩ hrun
  | failed =>
    exact replicaInv_settle ⟨hc.tally.drop node, fun h => absurd hfast h, by simp [hrun]⟩ hrun

theorem replicaInv_step {c' : ReplicaCall} (hc : ReplicaInv R Absent c) {e : ReplicaEvent}
    (habsent : ∀ node, e = .poll node .notFound → Absent node) (h : c.step R e = some c') :
    ReplicaInv R Absent c' := by
  cases e with
  | fast r =>
    simp only [ReplicaCall.step] at h
    split at h
    · cases h
    · next hguard =>
        rw [not_or] at hguard
        injection h with h
        subst h
        have hrun : c.finished = none := by simpa using hguard.1
        have hidle := hc.fast_first hguard.2
        cases r with
        | ok blob => exact ⟨hc.tally, fun h => absurd rfl h, by simp [ReplicaCall.fastReply]⟩
        | notFound => exact replicaInv_fallback hidle hrun
        | failed => exact replicaInv_fallback hidle hrun
  | poll node r =>
    simp only [ReplicaCall.step] at h
    split at h
    · cases h
    · next hguard =>
        rw [not_or, not_not] at hguard
        injection h with h
        subst h
        exact replicaInv_poll hc (by simpa using hguard.1) hguard.2 fun hr =>
          habsent node (by rw [hr])

theorem replicaInv_run (events : List ReplicaEvent) {c' : ReplicaCall} (hc : ReplicaInv R Absent c)
    (habsent : ∀ node, .poll node .notFound ∈ events → Absent node) (h : c.run R events = some c') :
    ReplicaInv R Absent c' := by
  induction events generalizing c with
  | nil =>
    injection h with h
    exact h ▸ hc
  | cons e rest ih =>
    obtain ⟨c₁, hstep, hrest⟩ := Option.bind_eq_some_iff.mp h
    refine ih (replicaInv_step hc (fun node he => habsent node ?_) hstep) (fun node hn => ?_) hrest
    · rw [← he]
      exact mem_cons_self
    · exact habsent node (mem_cons_of_mem _ hn)

end Replica

/-! ## §2. `list_blob_blocks` -/

structure BlobBlockEntry where
  blockNumber : UInt32
  version : UInt64
  cohortTag : UInt64
  deriving DecidableEq, Repr

def BlobBlockEntry.key (e : BlobBlockEntry) : UInt32 × UInt64 := (e.blockNumber, e.version)

def BlobBlockEntry.keyLt (a b : BlobBlockEntry) : Bool :=
  a.blockNumber < b.blockNumber || (a.blockNumber == b.blockNumber && a.version < b.version)

/-- `entries.entry(key).or_insert(entry)` on an ordered map: the first entry of a key stays. -/
def orInsert (entry : BlobBlockEntry) : List BlobBlockEntry → List BlobBlockEntry
  | [] => [entry]
  | e :: rest =>
    if entry.key = e.key then e :: rest
    else if entry.keyLt e then entry :: e :: rest
    else e :: orInsert entry rest

def mergeListing (entries nodeEntries : List BlobBlockEntry) : List BlobBlockEntry :=
  nodeEntries.foldl (fun entries entry => orInsert entry entries) entries

def HasKey (key : UInt32 × UInt64) (entries : List BlobBlockEntry) : Prop :=
  ∃ e ∈ entries, e.key = key

theorem hasKey_orInsert (entry : BlobBlockEntry) (entries : List BlobBlockEntry)
    (key : UInt32 × UInt64) :
    HasKey key (orInsert entry entries) ↔ entry.key = key ∨ HasKey key entries := by
  unfold HasKey
  induction entries with
  | nil => simp [orInsert]
  | cons e rest ih =>
    unfold orInsert
    split
    · next hkey =>
        rw [hkey]
        simp
    · split
      · simp
      · simp only [mem_cons, exists_eq_or_imp, ih]
        exact or_left_comm

theorem hasKey_mergeListing (entries nodeEntries : List BlobBlockEntry) (key : UInt32 × UInt64) :
    HasKey key (mergeListing entries nodeEntries) ↔ HasKey key entries
      ∨ HasKey key nodeEntries := by
  unfold mergeListing
  induction nodeEntries generalizing entries with
  | nil => simp [HasKey]
  | cons e rest ih =>
    rw [foldl_cons, ih, hasKey_orInsert]
    simp only [HasKey, mem_cons, exists_eq_or_imp]
    exact or_assoc.trans or_left_comm

/-- The answer of one node to a listing, all its pages, or an error. -/
inductive ListReply
  | ok (nodeEntries : List BlobBlockEntry)
  | failed
  deriving DecidableEq, Repr

structure ListCall where
  requiredResponses : Nat
  pending : List Nat
  entries : List BlobBlockEntry
  successfulResponses : Nat
  finished : Option (Except DataVgError (List BlobBlockEntry))
  deriving DecidableEq, Repr

/-- The listings to wait for: an absence quorum for `list_blob_blocks`, all nodes for
    `list_all_blob_blocks`. -/
def Volume.requiredResponses (v : Volume) (requireAllNodes : Bool) : Nat :=
  if requireAllNodes then v.nodes else v.absenceQuorum

def ListCall.start (v : Volume) (requireAllNodes : Bool) (available : Nat → Bool) : ListCall :=
  let availableNodes := (List.range v.nodes).filter available
  let required := v.requiredResponses requireAllNodes
  if availableNodes.length < required then
    ⟨required, [], [], 0,
      some (.error (.listInsufficientNodes required availableNodes.length v.nodes))⟩
  else ⟨required, availableNodes, [], 0, none⟩

def ListCall.settle (c : ListCall) : ListCall :=
  if c.pending = [] then
    if c.successfulResponses < c.requiredResponses then
      { c with finished := some
                 (.error (.listQuorumFailed c.successfulResponses c.requiredResponses)) }
    else { c with finished := some (.ok c.entries) }
  else c

def ListCall.reply (c : ListCall) (node : Nat) (r : ListReply) : ListCall :=
  let c := { c with pending := c.pending.erase node }
  match r with
  | .ok nodeEntries =>
    let c := { c with
      successfulResponses := c.successfulResponses + 1
      entries := mergeListing c.entries nodeEntries }
    if c.successfulResponses ≥ c.requiredResponses then { c with finished := some (.ok c.entries) }
    else c.settle
  | .failed => c.settle

def ListCall.step (c : ListCall) (answer : Nat × ListReply) : Option ListCall :=
  if c.finished.isSome ∨ answer.1 ∉ c.pending then none
  else some (c.reply answer.1 answer.2)

def ListCall.run (c : ListCall) : List (Nat × ListReply) → Option ListCall
  | [] => some c
  | answer :: rest => (c.step answer).bind fun c => c.run rest

/-- The counted nodes' entries of `key` are collected, and an Ok was counted up to the required
    responses. -/
structure ListInv (nodes required : Nat) (Holds : Nat → Prop) (key : UInt32 × UInt64)
    (c : ListCall) : Prop where
  required_eq : c.requiredResponses = required
  tally : Tally nodes (fun i => Holds i → HasKey key c.entries) c.pending c.successfulResponses
  finished_ok : ∀ result, c.finished = some (.ok result) →
    result = c.entries ∧ required ≤ c.successfulResponses

section Listing

variable {nodes required : Nat} {Holds : Nat → Prop} {key : UInt32 × UInt64}

theorem listInv_start (v : Volume) (requireAllNodes : Bool) (available : Nat → Bool) :
    ListInv v.nodes (v.requiredResponses requireAllNodes) Holds key
      (ListCall.start v requireAllNodes available) := by
  unfold ListCall.start
  dsimp only
  split
  · exact ⟨rfl, Tally.start nodup_nil (by simp), by simp⟩
  · exact ⟨rfl, Tally.start (nodup_range.filter _) fun i hi =>
      mem_range.mp (mem_of_mem_filter hi), by simp⟩

variable {c : ListCall}

theorem listInv_settle (hc : ListInv nodes required Holds key c) :
    ListInv nodes required Holds key c.settle := by
  unfold ListCall.settle
  split
  · split
    · exact ⟨hc.required_eq, hc.tally, by simp⟩
    · next hcount =>
        refine ⟨hc.required_eq, hc.tally, fun result h => ?_⟩
        injection h with h
        injection h with h
        exact ⟨h.symm, hc.required_eq ▸ Nat.le_of_not_lt hcount⟩
  · exact hc

theorem listInv_reply (hc : ListInv nodes required Holds key c) (hrun : c.finished = none)
    {node : Nat} (hpending : node ∈ c.pending) {r : ListReply}
    (hlists : ∀ nodeEntries, r = .ok nodeEntries → Holds node → HasKey key nodeEntries) :
    ListInv nodes required Holds key (c.reply node r) := by
  unfold ListCall.reply
  cases r with
  | ok nodeEntries =>
    have hgrow : ∀ i, (Holds i → HasKey key c.entries) →
        (Holds i → HasKey key (mergeListing c.entries nodeEntries)) := fun i h hi =>
      (hasKey_mergeListing ..).mpr (.inl (h hi))
    have hcount := (hc.tally.mono hgrow).count_one hpending fun hi =>
      (hasKey_mergeListing ..).mpr (.inr (hlists nodeEntries rfl hi))
    dsimp only
    split
    · next hquorum =>
        refine ⟨hc.required_eq, hcount, fun result h => ?_⟩
        injection h with h
        injection h with h
        exact ⟨h.symm, hc.required_eq ▸ hquorum⟩
    · exact listInv_settle ⟨hc.required_eq, hcount, by simp [hrun]⟩
  | failed => exact listInv_settle ⟨hc.required_eq, hc.tally.drop node, by simp [hrun]⟩

theorem listInv_run (answers : List (Nat × ListReply)) {c' : ListCall}
    (hc : ListInv nodes required Holds key c) (h : c.run answers = some c')
    (hlists : ∀ node nodeEntries, (node, .ok nodeEntries) ∈ answers → Holds node →
      HasKey key nodeEntries) : ListInv nodes required Holds key c' := by
  induction answers generalizing c with
  | nil =>
    injection h with h
    exact h ▸ hc
  | cons answer rest ih =>
    obtain ⟨c₁, hstep, hrest⟩ := Option.bind_eq_some_iff.mp h
    unfold ListCall.step at hstep
    split at hstep
    · cases hstep
    · next hguard =>
        rw [not_or, not_not] at hguard
        injection hstep with hstep
        subst hstep
        refine ih (listInv_reply hc (by simpa using hguard.1) hguard.2 fun l hl => ?_) hrest
          fun node l hl => hlists node l (mem_cons_of_mem _ hl)
        refine hlists answer.1 l ?_
        rw [← hl]
        exact mem_cons_self

end Listing

end FractalBits.VolumeGroup
