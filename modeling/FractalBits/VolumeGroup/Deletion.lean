/-
  VolumeGroup.Deletion — deleting every block of a blob from its volume.

  Mirrors `delete_layout_blocks` of `blob_client.rs` with `delete_blob`, `delete_blob_ec` and
  `delete_blob_from_node` of `data_vg_proxy.rs`. All deletes are made side by side.
-/

import FractalBits.Lib.Pool
import FractalBits.VolumeGroup.ReadQuorum

namespace FractalBits.VolumeGroup

open Lib List

/-! ## §1. Calls -/

abbrev BlockKey := UInt32 × UInt64

/-- Whether a node holds a block of a blob, at a version. -/
abbrev Nodes (Blob : Type) := Nat → Blob → BlockKey → Bool

structure DeleteDataBlob (Blob : Type) where
  node : Nat
  blob : Blob
  key : BlockKey
  deriving DecidableEq

inductive DeleteReply
  | ok
  | notFound
  | failed (retryable : Bool)

def DeleteReply.succeeded : DeleteReply → Bool
  | .ok | .notFound => true
  | .failed _ => false

/-- Whether the node deletes the block, and whether its answer arrives. -/
structure DeleteFate where
  applied : Bool
  answered : Bool
  retryable : Bool

section

variable {Blob : Type}

def deleteDataBlob [DecidableEq Blob] (fate : DeleteFate) (op : DeleteDataBlob Blob)
    (s : Nodes Blob) :
    DeleteReply × Nodes Blob :=
  (if fate.applied && fate.answered then if s op.node op.blob op.key then .ok else .notFound
    else .failed fate.retryable,
    fun node blob key => s node blob key && !(fate.applied && decide (⟨node, blob, key⟩ = op)))

abbrev DeleteCalls (Blob : Type) := Prog (DeleteDataBlob Blob) (fun _ => DeleteReply) DeleteReply

def deleteBlobFromNode (op : DeleteDataBlob Blob) : Nat → DeleteCalls Blob
  | 0 => .call op .done
  | retries + 1 => .call op fun reply =>
    match reply with
    | .failed true => deleteBlobFromNode op retries
    | reply => .done reply

def Volume.requiredDeletes (v : Volume) : Nat :=
  match v.mode with
  | .replicated _ _ _ => v.nodes
  | .erasureCoded dataShards parityShards => dataShards + parityShards

/-- The deletes of the listed blocks; a block is left alone where too few nodes are available. -/
def deletes (v : Volume) (available : BlockKey → Nat → Bool) (blob : Blob)
    (entries : List BlobBlockEntry) (s : Nodes Blob) :
    Pool (DeleteDataBlob Blob) (fun _ => DeleteReply) DeleteReply (Nodes Blob) (Nat × BlockKey) :=
  ⟨s, fun i =>
    let availableNodes := (List.range v.nodes).filter (available i.2)
    if i.2 ∈ entries.map (·.key) ∧ v.requiredDeletes ≤ availableNodes.length
      ∧ i.1 ∈ availableNodes then
      deleteBlobFromNode ⟨i.1, blob, i.2⟩ 3
    else .done (.failed false)⟩

/-- Every listed block was deleted by as many nodes as required. -/
def allDeleted (v : Volume) (entries : List BlobBlockEntry)
    (left : Nat × BlockKey → DeleteCalls Blob) : Bool :=
  entries.all fun e => v.requiredDeletes = (List.range v.nodes).countP fun node =>
    match left (node, e.key) with
    | .done reply => reply.succeeded
    | .call _ _ => false

/-! ## §2. What deletes do -/

/-- A delete names its own block; `true` once it has succeeded. -/
def deleting (blob : Blob) (i : Nat × BlockKey) :
    Protocol (DeleteDataBlob Blob) (fun _ => DeleteReply) Bool where
  possible _ _ := True
  allowed _ op := op = ⟨i.1, blob, i.2⟩
  advance gone _ reply := gone || reply.succeeded

theorem follows_deleteBlobFromNode (blob : Blob) (i : Nat × BlockKey) (retries : Nat)
    (gone : Bool) :
    (deleteBlobFromNode ⟨i.1, blob, i.2⟩ retries).Follows (deleting blob i)
      (fun gone reply => reply.succeeded = true → gone = true) gone := by
  induction retries generalizing gone with
  | zero => exact ⟨rfl, fun reply _ h => Bool.or_eq_true_iff.mpr (.inr h)⟩
  | succ retries ih =>
    refine ⟨rfl, fun reply _ => ?_⟩
    cases reply with
    | ok | notFound => exact fun h => Bool.or_eq_true_iff.mpr (.inr h)
    | failed retryable =>
      cases retryable with
      | true => exact ih _
      | false => exact nofun

structure DeletesOnly (blob : Blob) (start s : Nodes Blob)
    (gone : Nat × BlockKey → Bool) : Prop where
  changed : ∀ node other key, s node other key = start node other key ∨ other = blob
    ∧ s node other key = false
  deleted : ∀ i, gone i = true → s i.1 blob i.2 = false

variable [DecidableEq Blob] {blob : Blob} {start s : Nodes Blob} {gone : Nat × BlockKey → Bool}

theorem DeletesOnly.step (h : DeletesOnly blob start s gone) (fate : DeleteFate)
    (i : Nat × BlockKey) :
    DeletesOnly blob start (deleteDataBlob fate ⟨i.1, blob, i.2⟩ s).2
      (Function.update gone i
        (gone i || (deleteDataBlob fate ⟨i.1, blob, i.2⟩ s).1.succeeded)) where
  changed node other key := by
    have hkept := h.changed node other key
    grind [deleteDataBlob]
  deleted j hj := by
    have hkept := h.deleted j
    by_cases hji : j = i
    · subst hji
      rw [Function.update_self] at hj
      grind [deleteDataBlob, DeleteReply.succeeded]
    · rw [Function.update_of_ne hji] at hj
      grind [deleteDataBlob]

theorem deletesOnly_run (v : Volume) (available : BlockKey → Nat → Bool) (blob : Blob)
    (entries : List BlobBlockEntry) (s : Nodes Blob)
    (schedule : List ((Nat × BlockKey) × DeleteFate)) :
    let pool := (deletes v available blob entries s).run deleteDataBlob schedule
    ∃ gone, DeletesOnly blob s pool.state gone ∧ ∀ i, (pool.left i).Follows (deleting blob i)
      (fun gone reply => reply.succeeded = true → gone = true) (gone i) := by
  refine @Pool.follows_invariant _ _ _ _ _ _ _ _ _ (deleting blob) _ (fun _ => True)
    (fun _ => DeletesOnly blob s) ?_ schedule _ (fun _ => false) []
    ⟨fun _ _ _ => .inl rfl, nofun⟩ (fun i => ?_) fun _ _ => trivial
  · rintro _ s' gone i _ fate h rfl -
    exact ⟨trivial, h.step fate i⟩
  · unfold deletes
    dsimp only
    split
    · exact follows_deleteBlobFromNode blob i 3 false
    · exact nofun

/-! ## §3. Exact deletion -/

/-- Every node was counted. -/
theorem hasKey_of_all_listed {v : Volume} {available : Nat → Bool} {key : BlockKey}
    {Holds : Nat → Prop} {answers : List (Nat × ListReply)} {c : ListCall}
    {entries : List BlobBlockEntry} (hrun : (ListCall.start v true available).run answers = some c)
    (hfin : c.finished = some (.ok entries))
    (hlists : ∀ node nodeEntries, (node, .ok nodeEntries) ∈ answers → Holds node → HasKey key
    nodeEntries) {node : Nat} (hnode : node < v.nodes) (hholds : Holds node) :
    HasKey key entries := by
  have hinv := listInv_run answers (listInv_start v true available) hrun hlists
  obtain ⟨rfl, hcount⟩ := hinv.finished_ok entries hfin
  obtain ⟨listed, hnodup, hlength, hall⟩ := hinv.tally.counted
  have hsub : listed ⊆ List.range v.nodes := fun i hi => mem_range.mpr (hall i hi).1
  have hperm := (subperm_of_subset hnodup hsub).perm_of_length_le (by rwa [hlength, length_range])
  exact (hall node (hperm.mem_iff.mpr (mem_range.mpr hnode))).2.2 hholds

theorem requiredDeletes_eq {v : Volume} (h : v.validate = .ok ()) : v.requiredDeletes
    = v.nodes := by
  obtain ⟨id, nodes, mode⟩ := v
  cases mode with
  | replicated n r w => rfl
  | erasureCoded k m => exact (validate_erasureCoded h).2.2.symm

/-- ★ **A blob's blocks are deleted exactly.** In whatever order deletes reach the nodes and
    whatever is lost: if `delete_layout_blocks` answers true, and nodes list what they hold, no node
    of the volume holds a block of the blob, at any version. The blocks of other blobs stay in any
    case. -/
theorem exact_deletion {v : Volume} {listable : Nat → Bool} {answers : List (Nat × ListReply)}
    {c : ListCall} {entries : List BlobBlockEntry} (hv : v.validate = .ok ())
    (hrun : (ListCall.start v true listable).run answers = some c)
    (hfin : c.finished = some (.ok entries))
    (hlists : ∀ node nodeEntries, (node, .ok nodeEntries) ∈ answers → ∀ key,
    s node blob key = true →
      HasKey key nodeEntries) (available : BlockKey → Nat → Bool) (schedule :
        List ((Nat × BlockKey) × DeleteFate)) :
    let pool := (deletes v available blob entries s).run deleteDataBlob schedule
    (allDeleted v entries pool.left = true → ∀ node < v.nodes, ∀ key, pool.state node blob key
      = false)
      ∧ ∀ node other key, other ≠ blob → pool.state node other key = s node other key := by
  intro pool
  obtain ⟨gone, hdeletes, hleft⟩ := deletesOnly_run v available blob entries s schedule
  refine ⟨fun hdone node hnode key => ?_, fun node other key hother =>
    (hdeletes.changed node other key).resolve_right fun h => hother h.1⟩
  by_contra hheld
  have hstart : s node blob key = true := by
    rcases hdeletes.changed node blob key with hsame | ⟨-, hgone⟩
    · exact hsame.symm.trans (eq_true_of_ne_false hheld)
    · exact absurd hgone hheld
  obtain ⟨e, he, rfl⟩ := hasKey_of_all_listed hrun hfin (fun i l hi h => hlists i l hi key h) hnode
    hstart
  have hcount := of_decide_eq_true (all_eq_true.mp hdone e he)
  rw [requiredDeletes_eq hv, eq_comm] at hcount
  have hreply := countP_eq_length.mp (hcount.trans length_range.symm) node (mem_range.mpr hnode)
  have hend := hleft (node, e.key)
  cases hcall : pool.left (node, e.key) with
  | call op next =>
    rw [hcall] at hreply
    cases hreply
  | done reply =>
    rw [hcall] at hreply hend
    exact hheld (hdeletes.deleted (node, e.key) (hend hreply))

end

def firstBlock : BlobBlockEntry := ⟨0, 1, 0⟩

/-- Both nodes hold the first block; the answer of the first one is lost once. -/
theorem exact_deletion_at_sample :
    ((deletes ⟨1, 2, .replicated 2 1 2⟩ (fun _ _ => true) () [firstBlock] fun _ _ key => key
      = firstBlock.key).run deleteDataBlob [((0, (0, 1)), ⟨true, false, true⟩),
        ((1, (0, 1)), ⟨true, true, false⟩), ((0, (0, 1)), ⟨true, true, false⟩)]).state 0 ()
          firstBlock.key = false := by
  have hrun : (ListCall.start ⟨1, 2, .replicated 2 1 2⟩ true fun _ => true).run
      [(0, .ok [firstBlock]), (1, .ok [firstBlock])] = some ⟨2, [], [firstBlock], 2,
        some (.ok [firstBlock])⟩ := rfl
  refine (exact_deletion rfl hrun rfl (fun node nodeEntries hmem key hkey => ?_) _ _).1 (by decide)
    0 (by decide) _
  obtain rfl : nodeEntries = [firstBlock] := by grind
  exact ⟨firstBlock, mem_cons_self, (of_decide_eq_true hkey).symm⟩

end FractalBits.VolumeGroup
