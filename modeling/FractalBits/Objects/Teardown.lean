/-
  Objects.Teardown — what a crash during the removal of an object leaves in the namespace.

  The rows of a mapped blob are found through the blob id.
-/

import FractalBits.Objects.RowSweep
import FractalBits.Objects.Keyspace
import FractalBits.Lib.Transition

namespace FractalBits.Objects

open Lib Streaming Gateway
open OvrMap (Uuid ovrPrefix ovrRowKey ovrAbortKey)

attribute [local irreducible] Uuid.asSimple

/-! ## §1. What leads to a blob -/

def Site.NamesId (s : Site) (k : Bytes) (blobId : Uuid) : Prop := ∃ guid, s.Names k guid
    ∧ guid.blobId = blobId

/-- As long as a row is left, an inode or the marker tells the blob id. -/
def Site.Recoverable (s : Site) (blobId : Uuid) : Prop :=
  s.HasRow blobId → (∃ k, s.NamesId k blobId) ∨ s.HasMarker blobId

section

variable {blobId : Uuid} {k : Bytes}

theorem UserKey.ne_ovrGcKey (h : UserKey k) (blobId : Uuid) : k ≠ ovrGcKey blobId := by
  intro heq
  rw [heq] at h
  have hhead : (ovrGcKey blobId).head? = some 64 := rfl
  rw [UserKey, hhead] at h
  exact absurd h (by decide)

theorem IsRowOf.not_userKey (h : IsRowOf blobId k) : ¬ UserKey k := by
  have hhead : k.head? = some 64 := by
    rcases h with ⟨block, rfl⟩ | ⟨lo, hi, rfl⟩ <;> rfl
  rw [UserKey, hhead]
  decide

end

/-! ## §2. The lifecycle -/

structure Ledger where
  site : Site
  calls : List Op

def Ledger.serve (cluster : Cluster) (op : Op) (l : Ledger) : Ans op × Ledger :=
  ((cluster.serve .answered op l.site).1, ⟨(cluster.serve .answered op l.site).2, l.calls ++ [op]⟩)

def Op.removes (key : Bytes) : Op → Bool
  | .putInode k _ | .deleteInode k => k == key
  | _ => false

def Op.marks (blobId : Uuid) : Op → Bool
  | .putInode k _ => k == ovrGcKey blobId
  | _ => false

def Ledger.Removed (l : Ledger) (key : Bytes) : Prop := l.calls.any (Op.removes key) = true

def Ledger.Marked (l : Ledger) (blobId : Uuid) : Prop := l.calls.any (Op.marks blobId) = true

inductive Removal
  | delete
  | put (upload : Upload)

def Removal.program (rounds : Nat) (key : Bytes) : Removal → Handler Unit
  | .delete => deleteObjectByKey rounds key
  | .put upload => putObject rounds key upload

def Removal.Fresh (blobId : Uuid) : Removal → Prop
  | .delete => True
  | .put upload => upload.layout.blobGuid.blobId ≠ blobId

/-- Where the removal is: in the handler, in the queue of the deletion task, or in one of its
    attempts. -/
inductive Stage
  | handling (rest : Call (Except S3Error Unit))
  | queued (deletion : Deletion)
  | attempting (rest : Call (Bool × Deletion))
  | finished

structure Teardown where
  ledger : Ledger
  stage : Stage

namespace Teardown

inductive Step (cluster : Cluster) (rounds : Nat) (blobId : Uuid) : Teardown → Teardown → Prop
  | handle (l : Ledger) (op : Op) (next : Ans op → Call (Except S3Error Unit)) :
      Step cluster rounds blobId ⟨l, .handling (.call op next)⟩
        ⟨(l.serve cluster op).2, .handling (next (l.serve cluster op).1)⟩
  | queue (l : Ledger) (r : Except S3Error Unit) (request : BlobDeletionRequest) (graceUntil : Nat)
      (hqueued : request ∈ l.site.queue) (hblob : request.blobGuid.blobId = blobId) :
      Step cluster rounds blobId ⟨l, .handling (.done r)⟩
        ⟨l, .queued (Deletion.new request graceUntil)⟩
  | take (l : Ledger) (deletion : Deletion) (attempt : Attempt) :
      Step cluster rounds blobId ⟨l, .queued deletion⟩
        ⟨l, .attempting (deleteBlobOnce rounds attempt deletion)⟩
  | work (l : Ledger) (op : Op) (next : Ans op → Call (Bool × Deletion)) :
      Step cluster rounds blobId ⟨l, .attempting (.call op next)⟩
        ⟨(l.serve cluster op).2, .attempting (next (l.serve cluster op).1)⟩
  | retry (l : Ledger) (deletion : Deletion) :
      Step cluster rounds blobId ⟨l, .attempting (.done (false, deletion))⟩ ⟨l, .queued deletion⟩
  | finish (l : Ledger) (deletion : Deletion) :
      Step cluster rounds blobId ⟨l, .attempting (.done (true, deletion))⟩ ⟨l, .finished⟩

def system (cluster : Cluster) (rounds : Nat) (blobId : Uuid) (removal : Removal) (key : Bytes)
    (start : Site) :
    TransitionSystem Teardown where
  init t := t = ⟨⟨start, []⟩, .handling (removal.program rounds key).run⟩
  step := Step cluster rounds blobId

end Teardown

structure HoldsMapped (start : Site) (key : Bytes) (blobId : Uuid) : Prop where
  userKey : UserKey key
  stored : ∃ object guid core, start.inodes[key]? = some (.layout object)
    ∧ object.state = .normal guid core
    ∧ guid.blobId = blobId ∧ object.mayHaveOvrRecords = true

/-- The inode is gone, no marker was written, and rows are left that no other inode leads to. -/
structure Ledger.InWindow (l : Ledger) (start : Site) (key : Bytes) (blobId : Uuid) : Prop where
  removed : l.Removed key
  neverMarked : ¬ start.HasMarker blobId ∧ ¬ l.Marked blobId
  unnamed : ∀ k, k ≠ key → ¬ l.site.NamesId k blobId
  row : l.site.HasRow blobId

/-! ## §3. What each call keeps -/

/-- The invariant. The inode is there until it is removed; a marker that was written is there until
    no row is left. -/
structure Safe (start : Site) (key : Bytes) (blobId : Uuid) (l : Ledger) : Prop where
  present : ¬ l.Removed key → l.site.inodes[key]? = start.inodes[key]?
  gone : l.Removed key → ¬ l.site.NamesId key blobId
  unmarked : ¬ start.HasMarker blobId → ¬ l.Marked blobId → ¬ l.site.HasMarker blobId
  marked : start.HasMarker blobId ∨ l.Marked blobId → l.site.HasMarker blobId
    ∨ ¬ l.site.HasRow blobId

section

variable {cluster : Cluster} {start : Site} {key k : Bytes} {blobId : Uuid} {l : Ledger}

theorem Ledger.removed_serve (op : Op) :
    (l.serve cluster op).2.Removed key ↔ l.Removed key ∨ op.removes key = true := by
  unfold Ledger.Removed Ledger.serve
  simp

theorem Ledger.marked_serve (op : Op) :
    (l.serve cluster op).2.Marked blobId ↔ l.Marked blobId ∨ op.marks blobId = true := by
  unfold Ledger.Marked Ledger.serve
  simp

theorem mem_erase_iff {ns : Namespace} {k k' : Bytes} : k' ∈ ns.erase k ↔ k' ≠ k ∧ k' ∈ ns := by
  rw [Std.ExtTreeMap.mem_erase, Ne, Std.compare_eq_iff_eq, eq_comm]

theorem mem_insert_iff {ns : Namespace} {k k' : Bytes} {value : Inode} :
    k' ∈ ns.insert k value ↔ k' = k ∨ k' ∈ ns := by
  rw [Std.ExtTreeMap.mem_insert, Std.compare_eq_iff_eq, eq_comm]

variable (h : Safe start key blobId l)

include h

theorem Safe.of_inodes {l' : Ledger} (hinodes : l'.site.inodes = l.site.inodes)
    (hremoved : l'.Removed key ↔ l.Removed key) (hmarked : l'.Marked blobId ↔ l.Marked blobId) :
    Safe start key blobId l' := by
  have hnames : ∀ k, l'.site.NamesId k blobId ↔ l.site.NamesId k blobId := by
    intro k
    simp only [Site.NamesId, Site.Names, hinodes]
  have hmarker : l'.site.HasMarker blobId ↔ l.site.HasMarker blobId := by
    simp only [Site.HasMarker, hinodes]
  have hrow : l'.site.HasRow blobId ↔ l.site.HasRow blobId := by
    simp only [Site.HasRow, hinodes]
  constructor
  · rw [hremoved, hinodes]
    exact h.present
  · rw [hremoved, hnames]
    exact h.gone
  · rw [hmarked, hmarker]
    exact h.unmarked
  · rw [hmarked, hmarker, hrow]
    exact h.marked

theorem Safe.deleteInode (hk : k ≠ ovrGcKey blobId ∨ ¬ l.site.HasRow blobId) :
    Safe start key blobId (l.serve cluster (.deleteInode k)).2 := by
  have hinodes : (l.serve cluster (.deleteInode k)).2.site.inodes = l.site.inodes.erase k := rfl
  have hremoved : (l.serve cluster (.deleteInode k)).2.Removed key ↔ l.Removed key ∨ k = key := by
    rw [Ledger.removed_serve]
    simp [Op.removes]
  have hmarked : (l.serve cluster (.deleteInode k)).2.Marked blobId ↔ l.Marked blobId := by
    rw [Ledger.marked_serve]
    simp [Op.marks]
  have hrow : (l.serve cluster (.deleteInode k)).2.site.HasRow blobId → l.site.HasRow blobId := by
    rintro ⟨k', hk', hrow⟩
    rw [hinodes, mem_erase_iff] at hk'
    exact ⟨k', hk'.2, hrow⟩
  have hmarker : (l.serve cluster (.deleteInode k)).2.site.HasMarker blobId
      ↔ ovrGcKey blobId ≠ k ∧ l.site.HasMarker blobId := by
    unfold Site.HasMarker
    rw [hinodes, mem_erase_iff]
  constructor
  · intro hnot
    rw [hremoved, not_or] at hnot
    rw [hinodes, getElem?_erase_of_ne _ (Ne.symm hnot.2)]
    exact h.present hnot.1
  · intro hgone
    rintro ⟨guid, ⟨object, hobject, hguid⟩, hid⟩
    rw [hinodes, Std.ExtTreeMap.getElem?_erase] at hobject
    split at hobject
    · cases hobject
    · next hne =>
        rcases hremoved.mp hgone with hgone | hself
        · exact h.gone hgone ⟨guid, ⟨object, hobject, hguid⟩, hid⟩
        · exact hne (by simp [hself])
  · intro hstart hnot hhas
    exact h.unmarked hstart (by rwa [hmarked] at hnot) (hmarker.mp hhas).2
  · intro hwritten
    rw [hmarked] at hwritten
    rcases h.marked hwritten with hhas | hnone
    · rcases hk with hne | hnone
      · exact .inl (hmarker.mpr ⟨hne.symm, hhas⟩)
      · exact .inr fun hr => hnone (hrow hr)
    · exact .inr fun hr => hnone (hrow hr)

theorem Safe.putInode (hkey : UserKey key) {value : Inode}
    (hvalue : ∀ guid, value.blob = some guid → guid.blobId ≠ blobId) :
    Safe start key blobId (l.serve cluster (.putInode key value)).2 := by
  have hinodes : (l.serve cluster (.putInode key value)).2.site.inodes = l.site.inodes.insert key
    value := rfl
  have hremoved : (l.serve cluster (.putInode key value)).2.Removed key :=
    (Ledger.removed_serve _).mpr (.inr (by simp [Op.removes]))
  have hmarked : (l.serve cluster (.putInode key value)).2.Marked blobId ↔ l.Marked blobId := by
    rw [Ledger.marked_serve]
    simp [Op.marks, hkey.ne_ovrGcKey blobId]
  have hrow : (l.serve cluster (.putInode key value)).2.site.HasRow blobId →
    l.site.HasRow blobId := by
    rintro ⟨k', hk', hrow⟩
    rw [hinodes, mem_insert_iff] at hk'
    rcases hk' with rfl | hk'
    · exact absurd hkey hrow.not_userKey
    · exact ⟨k', hk', hrow⟩
  have hmarker : (l.serve cluster (.putInode key value)).2.site.HasMarker blobId
    ↔ l.site.HasMarker blobId := by
    unfold Site.HasMarker
    rw [hinodes, mem_insert_iff, or_iff_right (hkey.ne_ovrGcKey blobId).symm]
  constructor
  · exact fun hnot => absurd hremoved hnot
  · rintro - ⟨guid, ⟨object, hobject, hguid⟩, hid⟩
    rw [hinodes, Std.ExtTreeMap.getElem?_insert_self] at hobject
    cases hobject
    have hblob : (Inode.layout object).blob = some guid := by
      show object.blobGuid.toOption = some guid
      rw [hguid]
      rfl
    exact hvalue guid hblob hid
  · rw [hmarked, hmarker]
    exact h.unmarked
  · rw [hmarked, hmarker]
    intro hwritten
    exact (h.marked hwritten).imp_right fun hnone hr => hnone (hrow hr)

theorem Safe.putMarker (hkey : UserKey key) (value : Inode) :
    Safe start key blobId (l.serve cluster (.putInode (ovrGcKey blobId) value)).2 := by
  have hinodes : (l.serve cluster (.putInode (ovrGcKey blobId) value)).2.site.inodes
      = l.site.inodes.insert (ovrGcKey blobId) value := rfl
  have hne := (hkey.ne_ovrGcKey blobId).symm
  have hremoved : (l.serve cluster (.putInode (ovrGcKey blobId) value)).2.Removed key
    ↔ l.Removed key := by
    rw [Ledger.removed_serve]
    simp [Op.removes, hne]
  have hmarked : (l.serve cluster (.putInode (ovrGcKey blobId) value)).2.Marked blobId :=
    (Ledger.marked_serve _).mpr (.inr (by simp [Op.marks]))
  have hkept : (l.serve cluster (.putInode (ovrGcKey blobId) value)).2.site.inodes[key]?
    = l.site.inodes[key]? := by
    rw [hinodes, getElem?_insert_of_ne _ _ hne.symm]
  constructor
  · rw [hremoved, hkept]
    exact h.present
  · rw [hremoved]
    unfold Site.NamesId Site.Names
    rw [hkept]
    exact h.gone
  · exact fun _ hnot => absurd hmarked hnot
  · refine fun _ => .inl ?_
    unfold Site.HasMarker
    rw [hinodes, mem_insert_iff]
    exact .inl rfl

end

/-! ## §4. The handler and the attempts -/

def ListsUnder : (op : Op) → Ans op → Prop
  | .listInodes _ keyPrefix _, ans => ∀ inodes more, ans = .ok (.ok inodes more) →
    ∀ e ∈ inodes, keyPrefix <+: nulTerminated e.1
  | _, _ => True

/-- The calls of a handler that removes the object: the key gets an inode of another blob, and only
    keys of users are deleted. -/
def Op.Detaches (key : Bytes) (blobId : Uuid) : Op → Prop
  | .putInode k value => k = key ∧ ∀ guid, value.blob = some guid → guid.blobId ≠ blobId
  | .deleteInode k => UserKey k
  | _ => True

def detaches (key : Bytes) (blobId : Uuid) : Protocol Op Ans Unit where
  possible := ListsUnder
  allowed _ op := op.Detaches key blobId
  advance _ _ _ := ()

section

variable {cluster : Cluster} {start : Site} {key : Bytes} {blobId : Uuid} {l : Ledger}

theorem retries_detaches : Retries (detaches key blobId) () :=
    ⟨⟨trivial, fun _ => rfl⟩, trivial, fun _ => rfl⟩

theorem UserKey.of_nulTerminated {keyPrefix k : Bytes} (h : UserKey keyPrefix)
    (hunder : keyPrefix <+: nulTerminated k) :
    UserKey k := by
  have hfull : UserKey (nulTerminated k) := h.extend hunder
  cases k with
  | nil => exact absurd hfull (by decide)
  | cons b k => exact hfull

theorem cleans_detaches {keyPrefix : Bytes} (hunderKey : UserKey keyPrefix) :
    Cleans (detaches key blobId) (fun _ => True) keyPrefix UserKey fun _ => True where
  retries _ _ := retries_detaches
  client _ _ := ⟨trivial, fun _ => trivial⟩
  send _ _ _ _ := ⟨trivial, fun _ => trivial⟩
  delete _ _ _ hk := ⟨hk, rfl, fun _ => trivial⟩
  list _ _ _ _ _ hunder :=
    ⟨trivial, rfl, fun _ => trivial, fun inodes more hans e he =>
      ⟨((hunderKey.extend hunder).of_nulTerminated (hans inodes more rfl e he)).trimEndMatches,
        fun _ _ => trivial⟩⟩

theorem detaches_deleteObjectByKey (hkey : UserKey key) (rounds : Nat) :
    (deleteObjectByKey rounds key).run.Follows (detaches key blobId) (fun _ _ => True) () := by
  unfold deleteObjectByKey
  have hclient : (perform Op.getBlobClient : Call Bool).Follows (detaches key blobId)
    (fun _ _ => True) () :=
    ⟨trivial, fun _ _ => trivial⟩
  refine follows_lift_bind hclient fun _ client _ => ?_
  split
  · exact trivial
  · refine follows_run_bind (follows_deleteInode retries_detaches hkey rfl rounds)
      (fun _ _ _ => trivial) ?_
    intro _ resp _
    refine follows_orFail_bind (fun _ _ => trivial) fun removed _ => ?_
    exact (cleans_detaches (hkey.append _)).cleanUpRemoved trivial rounds fun _ _ => trivial

theorem detaches_putObject (rounds : Nat) {upload : Upload}
    (hfresh : upload.layout.blobGuid.blobId ≠ blobId) :
    (putObject rounds key upload).run.Follows (detaches key blobId) (fun _ _ => True) () := by
  have hvalue : ∀ guid, (Inode.layout upload.stored).blob = some guid → guid.blobId ≠ blobId := by
    intro guid hguid
    cases hguid
    exact hfresh
  refine follows_put (R := fun _ => True) (fun _ _ _ _ => ⟨trivial, fun _ => rfl⟩) ?_ ?_ trivial
    rounds
  · exact fun _ _ => ⟨retries_detaches, ⟨rfl, hvalue⟩, rfl, fun _ => trivial⟩
  · exact fun _ _ _ => (cleans_detaches (userKey_cons [])).enqueueBlobDeletion trivial fun _ _ =>
      trivial

theorem Safe.quiet {op : Op} (h : Safe start key blobId l)
    (hinodes : (l.serve cluster op).2.site.inodes = l.site.inodes)
    (hremoves : op.removes key = false) (hmarks : op.marks blobId = false) :
    Safe start key blobId (l.serve cluster op).2 := by
  refine h.of_inodes hinodes ?_ ?_
  · rw [Ledger.removed_serve, hremoves]
    simp
  · rw [Ledger.marked_serve, hmarks]
    simp

theorem Safe.detach (hkey : UserKey key) {op : Op} (h : Safe start key blobId l)
    (hop : op.Detaches key blobId) :
    ListsUnder op (l.serve cluster op).1 ∧ Safe start key blobId (l.serve cluster op).2 := by
  cases op with
  | putInode k value =>
    obtain ⟨rfl, hvalue⟩ := hop
    exact ⟨trivial, h.putInode hkey hvalue⟩
  | deleteInode k => exact ⟨trivial, h.deleteInode (.inl (UserKey.ne_ovrGcKey hop blobId))⟩
  | listInodes maxKeys keyPrefix startAfter =>
    refine ⟨?_, h.quiet rfl rfl rfl⟩
    intro inodes more hans e he
    cases hans
    exact (mem_of_listPage he).2
  | _ =>
    exact ⟨trivial, h.quiet rfl rfl rfl⟩

theorem always_removal (hkey : UserKey key) (rounds : Nat) {removal : Removal}
    (hfresh : removal.Fresh blobId) (h : Safe start key blobId l) :
    (removal.program rounds key).run.Always (Ledger.serve cluster) (Safe start key blobId) l := by
  have hfollows :
      (removal.program rounds key).run.Follows (detaches key blobId) (fun _ _ => True) () := by
    cases removal with
    | delete => exact detaches_deleteObjectByKey hkey rounds
    | put upload => exact detaches_putObject rounds hfresh
  exact hfollows.always (I := fun _ => Safe start key blobId)
    (fun _ _ _ hs hop => hs.detach hkey hop) (fun _ _ hs => hs) h

theorem Safe.orderly (hkey : UserKey key) {I K : Site → Prop} {op : Op}
    (h : Safe start key blobId l) (hop : Orderly I K blobId l.site op) :
    Safe start key blobId (l.serve cluster op).2 := by
  cases op with
  | putInode k value =>
    have hmarker : k = ovrGcKey blobId := hop
    rw [hmarker]
    exact h.putMarker hkey value
  | deleteInode k =>
    apply h.deleteInode
    rcases hop with ⟨-, hnone, -⟩ | ⟨hunder, -⟩
    · exact .inr hnone
    · exact .inl (ne_ovrGcKey_of_under hunder blobId)
  | getInode | listInodes | failoverExpired | refreshNssAddress | getBlobClient | putBlock | getBlob
    | loadRowMap
  | sendDeletion => exact h.quiet rfl rfl rfl

theorem always_deleteBlobOnce (hclamp : 0 < cluster.clamp) (hkey : UserKey key) (rounds : Nat)
    (attempt : Attempt) {deletion : Deletion} (hblob : deletion.request.blobGuid.blobId = blobId)
    (h : Safe start key blobId l) :
    (deleteBlobOnce rounds attempt deletion).Always (Ledger.serve cluster) (Safe start key blobId)
      l := by
  have hrule : SweepRule blobId (fun _ => True) fun _ => True :=
    ⟨fun _ _ _ _ _ => trivial, fun _ _ _ _ => trivial, fun _ _ => trivial, fun _ _ _ => trivial⟩
  have hensures : (deleteBlobOnce rounds attempt deletion).Ensures cluster.serve
      (fun _ d => d = .answered) (Orderly (fun _ => True) (fun _ => True) blobId) (fun _ _ => True)
        l.site := by
    refine (ensures_deleteBlobOnce hrule (fun _ _ => trivial) hclamp ?_ rounds attempt hblob
      trivial).mono fun _ _ _ => trivial
    rintro _ _ _ _ rfl
    nofun
  exact hensures.always (fun l op hs hop => ⟨hs.orderly hkey hop, .answered, rfl, rfl⟩) h

end

/-! ## §5. Every state -/

section

variable {cluster : Cluster} {rounds : Nat} {start : Site} {key : Bytes} {blobId : Uuid}
    {removal : Removal}

def Stage.Ok (cluster : Cluster) (start : Site) (key : Bytes) (blobId : Uuid) (l : Ledger) :
    Stage → Prop
  | .handling rest => rest.Always (Ledger.serve cluster) (Safe start key blobId) l
  | .queued deletion => deletion.request.blobGuid.blobId = blobId
  | .attempting rest => rest.Always (Ledger.serve cluster) (Safe start key blobId) l
    ∧ rest.Returns fun r => r.2.request.blobGuid.blobId = blobId
  | .finished => True

def Teardown.Inv (cluster : Cluster) (start : Site) (key : Bytes) (blobId : Uuid)
    (t : Teardown) : Prop :=
  Safe start key blobId t.ledger ∧ t.stage.Ok cluster start key blobId t.ledger

theorem safe_start (start : Site) (key : Bytes) (blobId : Uuid) :
    Safe start key blobId ⟨start, []⟩ where
  present _ := rfl
  gone hgone := by cases hgone
  unmarked hstart _ := hstart
  marked hwritten := by
    rcases hwritten with hstart | hmarked
    · exact .inl hstart
    · cases hmarked

theorem Teardown.Inv.step (hclamp : 0 < cluster.clamp) (hkey : UserKey key) {t t' : Teardown}
    (h : Teardown.Inv cluster start key blobId t)
    (hstep : Teardown.Step cluster rounds blobId t t') :
    Teardown.Inv cluster start key blobId t' := by
  obtain ⟨hsafe, hok⟩ := h
  cases hstep with
  | handle l op next => exact ⟨hok.2.now, hok.2⟩
  | queue l r request graceUntil hqueued hblob => exact ⟨hsafe, hblob⟩
  | take l deletion attempt =>
    refine ⟨hsafe, always_deleteBlobOnce hclamp hkey rounds attempt hok hsafe, ?_⟩
    refine (returns_deleteBlobOnce rounds attempt deletion).mono fun r ⟨hr, _⟩ => ?_
    rw [hr]
    exact hok
  | work l op next => exact ⟨hok.1.2.now, hok.1.2, hok.2 _⟩
  | retry l deletion => exact ⟨hsafe, hok.2⟩
  | finish l deletion => exact ⟨hsafe, trivial⟩

theorem safe_of_reachable (hclamp : 0 < cluster.clamp) (hkey : UserKey key)
    (hfresh : removal.Fresh blobId) {t : Teardown}
    (h : (Teardown.system cluster rounds blobId removal key start).Reachable t) :
    Safe start key blobId t.ledger := by
  have hinv : Teardown.Inv cluster start key blobId t := by
    refine h.invariant ?_ fun _ _ => Teardown.Inv.step hclamp hkey
    rintro _ rfl
    exact ⟨safe_start start key blobId, always_removal hkey rounds hfresh
      (safe_start start key blobId)⟩
  exact hinv.1

theorem Safe.recoverable_iff {l : Ledger} (h : Safe start key blobId l)
    (hobject : HoldsMapped start key blobId) :
    l.site.Recoverable blobId ↔ ¬ l.InWindow start key blobId := by
  constructor
  · intro hrecoverable hwindow
    rcases hrecoverable hwindow.row with ⟨k, hk⟩ | hmarker
    · by_cases hself : k = key
      · rw [hself] at hk
        exact h.gone hwindow.removed hk
      · exact hwindow.unnamed k hself hk
    · exact h.unmarked hwindow.neverMarked.1 hwindow.neverMarked.2 hmarker
  · intro hout hrow
    by_cases hremoved : l.Removed key
    · by_cases hmarked : start.HasMarker blobId ∨ l.Marked blobId
      · rcases h.marked hmarked with hmarker | hnone
        · exact .inr hmarker
        · exact absurd hrow hnone
      · -- outside of the window only another inode is left
        refine .inl (by_contra fun hnone => hout ⟨hremoved, not_or.mp hmarked, ?_, hrow⟩)
        exact fun k _ hk => hnone ⟨k, hk⟩
    · obtain ⟨object, guid, core, hstored, hstate, hid, -⟩ := hobject.stored
      refine .inl ⟨key, guid, ⟨object, ?_, ?_⟩, hid⟩
      · rw [h.present hremoved]
        exact hstored
      · unfold Layout.blobGuid
        rw [hstate]

/-- ★ **What a crash leaves.** With all calls answered, the blob id of a removed object can be
    recovered in every state of the handler, the queue and the attempts, except from the removal of
    its inode to the marker, while rows are left and no other inode names the blob. -/
theorem crash_recoverable_iff (hclamp : 0 < cluster.clamp) (hobject : HoldsMapped start key blobId)
    (hfresh : removal.Fresh blobId) {t : Teardown}
    (h : (Teardown.system cluster rounds blobId removal key start).Reachable t) :
    t.ledger.site.Recoverable blobId ↔ ¬ t.ledger.InWindow start key blobId :=
  (safe_of_reachable hclamp hobject.userKey hfresh h).recoverable_iff hobject

end

/-! ## §6. A stranded row -/

def mappedSample : Layout := { sampleUpload.stored with fsExt := { mapEpoch := 1 } }

def mappedStart : Site := siteOf [(ascii "/k", .layout mappedSample), (ovrRowKey 2 0, .raw [1])]

theorem holdsMapped_mappedStart : HoldsMapped mappedStart (ascii "/k") 2 where
  userKey := rfl
  stored := by
    exact ⟨mappedSample, ⟨2, 0⟩, _, by decide +kernel, rfl, rfl, rfl⟩

theorem reachable_deleted :
    ∃ t, (Teardown.system sampleCluster 0 2 .delete (ascii "/k") mappedStart).Reachable t
    ∧ t.ledger = ⟨mappedStart.without [ascii "/k"],
      [.getBlobClient, .deleteInode (ascii "/k")]⟩ := by
  refine ⟨_, .step (.step (.init rfl) (.handle ⟨mappedStart, []⟩ .getBlobClient _))
    (.handle _ (.deleteInode (ascii "/k")) _), ?_⟩
  rfl

theorem reachable_handled {l : Ledger} {p : Call (Except S3Error Unit)}
    (h : (Teardown.system sampleCluster 0 2 .delete (ascii "/k") mappedStart).Reachable
    ⟨l, .handling p⟩) :
    (Teardown.system sampleCluster 0 2 .delete (ascii "/k") mappedStart).Reachable
      ⟨(p.exec (Ledger.serve sampleCluster) l).2,
        .handling (.done (p.exec (Ledger.serve sampleCluster) l).1)⟩ := by
  induction p generalizing l with
  | done r => exact h
  | call op next ih => exact ih _ (h.step (.handle l op next))

def markedLedger : Ledger :=
  (((deleteObjectByKey 0 (ascii "/k")).run.exec (Ledger.serve sampleCluster)
    ⟨mappedStart, []⟩).2.serve sampleCluster (.putInode (ovrGcKey 2) (.raw (ascii "gc")))).2

/-- The inode is removed and the marker written, and the row is still there. -/
theorem crash_recoverable_at_sample :
    markedLedger.Removed (ascii "/k") ∧ markedLedger.site.HasRow 2
      ∧ markedLedger.site.Recoverable 2 := by
  have hrow : markedLedger.site.HasRow 2 := ⟨ovrRowKey 2 0, by decide +kernel, .inl ⟨0, rfl⟩⟩
  have hmarked : markedLedger.Marked 2 := by
    unfold Ledger.Marked
    decide +kernel
  have hhandled := reachable_handled (.init rfl)
  have hqueued := hhandled.step (.queue _ _ ⟨⟨2, 0⟩, .dataVgProxy, true⟩ 0 (by decide +kernel) rfl)
  have htaken := hqueued.step (.take _ _ ⟨0, true, 1, id, @List.Perm.refl Bytes⟩)
  have hreachable := htaken.step (.work _ _ _)
  have hfresh : Removal.delete.Fresh 2 := trivial
  refine ⟨by unfold Ledger.Removed; decide +kernel, hrow, ?_⟩
  exact (crash_recoverable_iff (by decide) holdsMapped_mappedStart hfresh hreachable).mpr
    fun hwindow => hwindow.neverMarked.2 hmarked

theorem crash_strands_row :
    ∃ t, (Teardown.system sampleCluster 0 2 .delete (ascii "/k") mappedStart).Reachable t
    ∧ t.ledger.site.HasRow 2 ∧ ¬ t.ledger.site.Recoverable 2 := by
  obtain ⟨t, hreachable, hledger⟩ := reachable_deleted
  have hrow : (mappedStart.without [ascii "/k"]).HasRow 2 :=
    ⟨ovrRowKey 2 0, by decide +kernel, .inl ⟨0, rfl⟩⟩
  have hblobs : ∀ (k : Bytes) value, (mappedStart.without [ascii "/k"]).inodes[k]? = some value →
    value.blob = none :=
    Namespace.forall_of_toList (by decide +kernel)
  refine ⟨t, hreachable, ?_⟩
  rw [hledger]
  refine ⟨hrow, fun hrecoverable => ?_⟩
  rcases hrecoverable hrow with ⟨k, guid, ⟨object, hobject, hguid⟩, -⟩ | hmarker
  · have hnone := hblobs k _ hobject
    rw [Inode.blob, hguid] at hnone
    cases hnone
  · exact absurd hmarker (by unfold Site.HasMarker; decide +kernel)

end FractalBits.Objects
