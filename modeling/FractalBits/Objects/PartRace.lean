/-
  Objects.PartRace — part uploads next to the completion of the same upload.

  `upload_part` checks that the upload's id is one, and not that the upload is pending. A part that
  is stored after the completion has listed the parts replaces a part of the object, or is one more.
-/

import FractalBits.Objects.Completion
import FractalBits.Objects.Content
import FractalBits.Objects.PutCleanup

namespace FractalBits.Objects

open Lib Streaming Gateway List Function
open OvrMap (Uuid)

/-! ## §1. Part uploads and the completion -/

/-- An inode is stored. -/
def IsCommit (e : CallEvent) : Prop :=
  (match e.op with
  | .putInode _ _ => e.choice.applied
  | _ => false) = true

instance : DecidablePred IsCommit := fun _ => inferInstanceAs (Decidable (_ = true))

/-- No part upload stores its part after the completion has listed the parts. -/
def CommitsFirst (key uploadId : Bytes) (trace : Trace) : Prop :=
  trace.Pairwise fun earlier later => isListing key uploadId earlier → later.who ≠ 0 →
    ¬ IsCommit later

instance (key uploadId : Bytes) (trace : Trace) : Decidable (CommitsFirst key uploadId trace) :=
  inferInstanceAs (Decidable (List.Pairwise _ _))

/-- The listing of the parts fits in one page. -/
def ListsAll (cluster : Cluster) (key uploadId : Bytes) (trace : Trace) : Prop :=
  ∀ l ∈ trace, isListing key uploadId l = true →
    (cluster.listPage l.before.inodes 10000 (partsPrefix key uploadId) []).2 = false

instance (cluster : Cluster) (key uploadId : Bytes) (trace : Trace) :
    Decidable (ListsAll cluster key uploadId trace) :=
  inferInstanceAs (Decidable (∀ l ∈ trace, _))

/-- Uploads of parts, with their numbers, next to the completion of one upload. -/
structure PartUploads where
  key : Bytes
  uploadId : Uuid
  uploads : Nat → Nat × Upload
  count : Nat

variable (p : PartUploads)

/-- The id as the requests carry it. -/
abbrev PartUploads.idText : Bytes := Uuid.asSimple p.uploadId

/-- What the keys of the upload's parts start with. -/
abbrev PartUploads.under : Bytes := partsPrefix p.key p.idText

/-- The completion's listing of the parts. -/
abbrev PartUploads.IsListing (e : CallEvent) : Bool :=
  isListing p.key p.idText e

/-- What the listing answers. -/
abbrev PartUploads.reply (cluster : Cluster) (l : CallEvent) :
    List (Bytes × Inode) := listingReply cluster p.key p.idText l

/-- The listing at a site. -/
abbrev PartUploads.listing (s : Site) : CallEvent :=
  ⟨0, .listInodes 10000 p.under [], .answered, s⟩

/-- The blob that a part is written to. -/
def PartUploads.blobId (i : Nat) : Uuid := (p.uploads i).2.layout.blobGuid.blobId

/-- The call that stores a part. -/
abbrev PartUploads.commit (i : Nat) : Op :=
  .putInode (mpuGetPartPrefix p.key p.uploadId (p.uploads i).1) (.layout (p.uploads i).2.stored)

/-- The upload of a part, as one that runs next to the completion. -/
def PartUploads.rival (i : Nat) : Rival := .uploadPart (p.uploads i).1 (p.uploads i).2

/-- An inode of a part that is stored whole. -/
def PartUploads.WholePart (cluster : Cluster) (stores : BlobStores) (e : Bytes × Inode) : Prop :=
  ∃ n layout blocks, IsPartNumber n ∧ e = partInode p.key p.uploadId (n, layout)
    ∧ Whole cluster.impl stores layout blocks

/-- The stored parts are whole, and each upload writes to a new blob of its own. -/
structure PartUploads.Start (p : PartUploads) (cluster : Cluster) (s : Site) : Prop where
  parts : ∀ e : Bytes × Inode, s.inodes[e.1]? = some e.2 →
    p.under <+: nulTerminated e.1 → p.WholePart cluster s.stores e
  sound : ∀ i, i < p.count → ∃ blocks, (p.uploads i).2.Sound cluster.impl blocks
  distinct : ∀ i j, i < p.count → j < p.count → p.blobId i = p.blobId j → i = j
  fresh : ∀ i, i < p.count → ∀ k guid, s.Names k guid → guid.blobId ≠ p.blobId i

/-! ## §2. Part uploads in phases -/

/-- The blocks that are not written yet, and whether all puts so far were acknowledged. -/
abbrev UploadPhase := List (BlobKey × Bytes) × Bool

section

variable (p : PartUploads) (i : Nat)

/-- The calls of a part upload: its blocks in order, and its inode once all are acknowledged. -/
def PartUploads.Allows (phase : UploadPhase) : Op → Prop
  | .putBlock k body => ∃ rest, phase.1 = (k, body) :: rest
  | .putInode k value => phase = ([], true) ∧ IsPartNumber (p.uploads i).1
      ∧ k = mpuGetPartPrefix p.key p.uploadId (p.uploads i).1
        ∧ value = .layout (p.uploads i).2.stored
  | .failoverExpired | .refreshNssAddress => True
  | _ => False

/-- A put block is done, acknowledged or not. -/
def UploadPhase.next (phase : UploadPhase) : (op : Op) → Ans op → UploadPhase
  | .putBlock _ _, acked => (phase.1.tail, phase.2 && acked)
  | _, _ => phase

/-- The protocol of a part upload. -/
def PartUploads.protocol : Protocol Op Ans UploadPhase where
  possible _ _ := True
  allowed := p.Allows i
  advance := UploadPhase.next

end

section

variable {p : PartUploads} {i : Nat}

theorem retries_upload (phase : UploadPhase) : Retries (p.protocol i) phase :=
  ⟨⟨trivial, fun _ => rfl⟩, ⟨trivial, fun _ => rfl⟩⟩

theorem follows_partBlocks (writes : List (BlobKey × Bytes)) (acked : Bool) :
    (putBlocks writes).Follows (p.protocol i) (fun g r => g = ([], acked && r))
      (writes, acked) := by
  induction writes generalizing acked with
  | nil =>
    show (([] : List (BlobKey × Bytes)), acked) = ([], acked && true)
    rw [Bool.and_true]
  | cons write writes ih =>
    obtain ⟨key, body⟩ := write
    refine ⟨⟨writes, rfl⟩, fun ans _ => ?_⟩
    show (putBlocks writes >>= fun rest => pure (ans && rest) : Call Bool).Follows (p.protocol i) _
      (writes, acked && ans)
    refine ((ih (acked && ans)).mono ?_).bind
    rintro g rest rfl
    show (([] : List (BlobKey × Bytes)), acked && ans && rest) = ([], acked && (ans && rest))
    rw [Bool.and_assoc]

theorem partKey_contains_hash (key : Bytes) (uploadId : Uuid) (n : Nat) :
    (mpuGetPartPrefix key uploadId n).contains 35 = true := by
  have hhash : ascii "#" = [35] := by decide
  unfold mpuGetPartPrefix
  simp [hhash]

theorem follows_uploadPart (rounds : Nat) {parseUuid : Bytes → Option Uuid}
    (hparse : parseUuid p.idText = some p.uploadId) :
    ((p.rival i).program rounds parseUuid p.key p.idText).run.Follows (p.protocol i)
      (fun _ _ => True) ((p.uploads i).2.writes, true) := by
  have hput : IsPartNumber (p.uploads i).1 →
      (putObject rounds (mpuGetPartPrefix p.key p.uploadId (p.uploads i).1)
        (p.uploads i).2).run.Follows (p.protocol i) (fun _ _ => True) ((p.uploads i).2.writes,
          true) := by
    intro hnumber
    unfold putObject
    refine follows_orFail_bind (fun _ _ => trivial) fun _ _ => ?_
    refine follows_lift_bind (follows_partBlocks _ true) ?_
    rintro g acked rfl
    cases acked with
    | false => trivial
    | true =>
      have hallowed : (p.protocol i).allowed ([], true) (p.commit i) := ⟨rfl, hnumber, rfl, rfl⟩
      show (commitObject rounds _ _).run.Follows (p.protocol i) _ ([], true)
      unfold commitObject
      refine follows_run_bind (follows_putInode (retries_upload _) hallowed rfl rounds)
        (fun _ _ _ => trivial) ?_
      intro g resp _
      refine follows_orFail_bind (fun _ _ => trivial) fun old _ => ?_
      unfold enqueueReplacedObjectCleanup
      rw [if_pos (.inr (partKey_contains_hash ..))]
      trivial
  have hupload :
      (uploadPart rounds parseUuid p.key (p.uploads i).1 p.idText (p.uploads i).2).run.Follows
        (p.protocol i) (fun _ _ => True) ((p.uploads i).2.writes, true) := by
    unfold uploadPart
    rw [hparse]
    split
    · trivial
    · next hnumber => exact hput (not_not.mp hnumber)
  exact follows_run_bind hupload (fun _ _ _ => trivial) fun _ _ _ => trivial

end

/-! ## §3. What the completion sees -/

/-- The completion asks for part `n`. -/
def CompleteRequest.NamesPart (req : CompleteRequest) (n : Nat) : Prop :=
  ∃ numbers, req.partNumbers = .ok numbers ∧ n ∈ numbers

/-- A listing of different parts, of a total size that `u64` holds. -/
def PartUploads.Lists (p : PartUploads) (parts : List (Nat × Layout))
    (inodes : List (Bytes × Inode)) : Prop :=
  inodes = parts.map (partInode p.key p.uploadId)
    ∧ (∀ part ∈ parts, IsPartNumber part.1 ∧ part.2.IsNormal)
    ∧ (parts.map Prod.fst).Nodup ∧ (parts.map partSize).sum < 2 ^ 64

section

variable {p : PartUploads} {req : CompleteRequest} {parts : List (Nat × Layout)}
    {inodes : List (Bytes × Inode)}

theorem PartUploads.Lists.tally (h : p.Lists parts inodes) {numbers : List Nat}
    {mpuObjs : List (Bytes × Layout)} {tally : PartTally} (hraw : rawObjects inodes = .ok mpuObjs)
    (htally : mpuObjs.foldlM tallyPart ⟨numbers, [], 0, []⟩ = .ok tally) :
    tally.invalidPartKeys
      = (parts.filter fun part => part.1 ∉ numbers).map
        (fun part => mpuGetPartPrefix p.key p.uploadId part.1)
    ∧ tally.totalSize = ((parts.filter fun part => part.1 ∈ numbers).map partSize).sum := by
  obtain ⟨rfl, hparts, hnodup, hsize⟩ := h
  rw [rawObjects_parts fun part hpart => (hparts part hpart).1] at hraw
  cases hraw
  rw [foldlM_tallyPart hparts hnodup _ (by dsimp only; omega)] at htally
  cases htally
  exact ⟨nil_append _, Nat.zero_add _⟩

/-- The parts that the completion keeps are those that it names. -/
def PartUploads.view (p : PartUploads) (req : CompleteRequest) : CompletionView req where
  Kept k := ∃ n, IsPartNumber n ∧ req.NamesPart n ∧ k = mpuGetPartPrefix p.key p.uploadId n
  Invalid k := ∃ n, IsPartNumber n ∧ ¬ req.NamesPart n ∧ k = mpuGetPartPrefix p.key p.uploadId n
  Seen inodes := ∃ parts, p.Lists parts inodes
  not_kept := by
    rintro k ⟨n, hn, hunnamed, rfl⟩ ⟨m, hm, hnamed, heq⟩
    rw [partKey_inj hn hm heq] at hunnamed
    exact hunnamed hnamed
  invalid := by
    rintro inodes numbers mpuObjs tally ⟨parts, hlists⟩ hnumbers hraw htally k hk
    rw [(hlists.tally hraw htally).1] at hk
    obtain ⟨part, hpart, rfl⟩ := mem_map.mp hk
    obtain ⟨hmem, hunnamed⟩ := mem_filter.mp hpart
    refine ⟨part.1, (hlists.2.1 part hmem).1, ?_, rfl⟩
    rintro ⟨numbers', hnumbers', hnamed⟩
    rw [hnumbers] at hnumbers'
    cases hnumbers'
    exact of_decide_eq_true hunnamed hnamed

theorem PartUploads.lists_of_whole {cluster : Cluster} {stores : BlobStores}
    (hsorted : KeySorted inodes) (hlength : inodes.length ≤ 10000)
    (h : ∀ e ∈ inodes, p.WholePart cluster stores e) :
    ∃ parts, p.Lists parts inodes
      ∧ ∀ part ∈ parts, ∃ blocks, Whole cluster.impl stores part.2 blocks := by
  obtain ⟨parts, rfl, hwhole⟩ : ∃ parts : List (Nat × Layout), inodes = parts.map
    (partInode p.key p.uploadId)
      ∧ ∀ part ∈ parts, IsPartNumber part.1
        ∧ ∃ blocks, Whole cluster.impl stores part.2 blocks := by
    clear hsorted hlength
    induction inodes with
    | nil => exact ⟨[], rfl, fun part hpart => (by cases hpart)⟩
    | cons e inodes ih =>
      obtain ⟨n, layout, blocks, hn, rfl, hwhole⟩ := h e mem_cons_self
      obtain ⟨parts, rfl, hparts⟩ := ih fun e he => h e (mem_cons_of_mem _ he)
      refine ⟨(n, layout) :: parts, rfl, fun part hpart => ?_⟩
      rcases mem_cons.mp hpart with rfl | hpart
      · exact ⟨hn, blocks, hwhole⟩
      · exact hparts part hpart
  refine ⟨parts, ⟨rfl, ?_, ?_, ?_⟩, fun part hpart => (hwhole part hpart).2⟩
  · intro part hpart
    obtain ⟨hn, blocks, hblocks⟩ := hwhole part hpart
    exact ⟨hn, hblocks.isNormal⟩
  · -- the keys differ, so the numbers do
    have hkeys : (parts.map fun part => mpuGetPartPrefix p.key p.uploadId part.1).Nodup := by
      refine List.Pairwise.map _ ?_ (pairwise_map.mp hsorted)
      intro part part' hlt heq
      rw [partInode, partInode, heq, Std.compare_self] at hlt
      cases hlt
    refine List.Nodup.of_map (mpuGetPartPrefix p.key p.uploadId) ?_
    rw [map_map]
    exact hkeys
  · rw [length_map] at hlength
    exact sum_partSize_lt (fun part hpart => (hwhole part hpart).2) hlength

end

/-! ## §4. The invariant -/

/-- Number 0 is the completion, the others upload parts. -/
abbrev PartPhase : Nat → Type
  | 0 => CompletePhase
  | _ + 1 => UploadPhase

/-- The upload, the listing and the keys deleted since, once the parts are listed. -/
def CompletePhase.seen? : CompletePhase → Option (Layout × List (Bytes × Inode) × List Bytes)
  | .start | .found _ => none
  | .listed object inodes gone | .stored object inodes gone _ => some (object, inodes, gone)

section

variable (p : PartUploads) (cluster : Cluster) (req : CompleteRequest)

/-- A key of a part. -/
def PartUploads.Under (k : Bytes) : Prop := p.under <+: nulTerminated k

/-- The condition on a trace: early commits, and one page. -/
def PartUploads.Ordered (trace : Trace) : Prop :=
  CommitsFirst p.key p.idText trace ∧ ListsAll cluster p.key p.idText trace

/-- No upload has blocks left to write to the blob. -/
def PartUploads.Quiet (left : Nat → UploadPhase) (guid : DataBlobGuid) : Prop :=
  ∀ i, i < p.count → p.blobId i = guid.blobId → (left i).1 = []

/-- The parts that are stored are whole and no longer written; and an upload has written what it
    does not have left. -/
structure PartUploads.Uploading (left : Nat → UploadPhase) (s : Site) : Prop where
  parts : ∀ e : Bytes × Inode, s.inodes[e.1]? = some e.2 → p.Under e.1 →
    p.WholePart cluster s.stores e ∧ ∀ guid, e.2.blob = some guid → p.Quiet left guid
  suffix : ∀ i, i < p.count → (left i).1 <:+ (p.uploads i).2.writes
  written : ∀ i, i < p.count → (left i).2 = true → ∀ write ∈ (p.uploads i).2.writes,
    write ∈ (left i).1 ∨ s.stores write.1 = some write.2

/-- Since the listing `l` no part came, and the named ones are as they were. -/
structure PartUploads.Listed (l : CallEvent) (inodes : List (Bytes × Inode)) (gone : List Bytes)
    (s : Site) : Prop where
  present : ∀ e : Bytes × Inode, s.inodes[e.1]? = some e.2 → p.Under e.1 → e ∈ inodes ∧ e.1 ∉ gone
  kept : ∀ e ∈ inodes, (p.view req).Kept e.1 → s.inodes[e.1]? = some e.2
  same : ∀ e ∈ inodes, (p.view req).Kept e.1 → ∀ layout, e.2 = .layout layout →
    SameBlob layout l.before.stores s.stores

/-- The invariant of the race. -/
structure PartUploads.Race (trace : Trace) (s : Site)
    (phases : (i : Nat) → PartPhase i) : Prop where
  uploading : p.Uploading cluster (fun i => phases (i + 1)) s
  early : CompletePhase.seen? (phases 0) = none →
    ∀ l ∈ trace, p.IsListing l = false
  listed : ∀ object inodes gone, CompletePhase.seen? (phases 0) = some (object, inodes, gone) →
    ∃ l ∈ trace, p.IsListing l = true
      ∧ (∀ l' ∈ trace, p.IsListing l' = true → l' = l)
      ∧ inodes = p.reply cluster l
      ∧ checkUploading p.idText object = .ok ()
      ∧ (∀ e ∈ inodes, p.WholePart cluster l.before.stores e)
      ∧ (p.Ordered cluster trace → p.Listed req l inodes gone s)
  stored : ∀ object inodes gone completed, (phases 0 : CompletePhase) = .stored object inodes gone
    completed →
    Completes req object inodes gone completed ∧ s.inodes[p.key]? = some (.layout completed)

end

section

variable {p : PartUploads} {cluster : Cluster} {req : CompleteRequest} {trace : Trace} {s s' : Site}

variable {e : CallEvent}

theorem PartUploads.Ordered.of_append (h : p.Ordered cluster (trace ++ [e])) :
    p.Ordered cluster trace ∧ ∀ l ∈ trace, p.IsListing l = true → e.who ≠ 0 →
      ¬ IsCommit e := by
  obtain ⟨hpast, -, hlast⟩ := pairwise_append.mp h.1
  exact ⟨⟨hpast, fun l hl => h.2 l (mem_append_left _ hl)⟩,
    fun l hl => hlast l hl e (mem_singleton_self e)⟩

theorem not_listing_append {key uploadId : Bytes} (he : isListing key uploadId e = false)
    {P : CallEvent → Prop} (h : ∀ l ∈ trace, isListing key uploadId l = true → P l) :
    ∀ l ∈ trace ++ [e], isListing key uploadId l = true → P l := by
  intro l hl hlisting
  rcases mem_append.mp hl with hl | hl
  · exact h l hl hlisting
  · rw [mem_singleton.mp hl, he] at hlisting
    cases hlisting

theorem no_listing_append {key uploadId : Bytes} (he : isListing key uploadId e = false)
    (h : ∀ l ∈ trace, isListing key uploadId l = false) : ∀ l ∈ trace ++ [e], isListing key uploadId
    l = false := by
  intro l hl
  rcases mem_append.mp hl with hl | hl
  · exact h l hl
  · rw [mem_singleton.mp hl]
    exact he

/-- The blobs of the stored parts do not change. -/
def PartUploads.SameParts (p : PartUploads) (s s' : Site) : Prop :=
  ∀ e : Bytes × Inode, s.inodes[e.1]? = some e.2 → p.Under e.1 → ∀ layout, e.2 = .layout layout →
    SameBlob layout s.stores s'.stores

theorem sameParts_of_stores (h : s'.stores = s.stores) : p.SameParts s s' :=
  fun _ _ _ _ _ _ _ k _ => congrFun h k

theorem PartUploads.WholePart.of_same {e : Bytes × Inode} {stores stores' : BlobStores}
    (h : p.WholePart cluster stores e) (hsame : ∀ layout, e.2 = .layout layout → SameBlob layout
    stores stores') :
    p.WholePart cluster stores' e := by
  obtain ⟨n, layout, blocks, hn, rfl, hwhole⟩ := h
  exact ⟨n, layout, blocks, hn, rfl, hwhole.of_same (hsame layout rfl)⟩

theorem PartUploads.Uploading.keep {left left' : Nat → UploadPhase} (h : p.Uploading cluster left s)
    (hinodes : ∀ e : Bytes × Inode, s'.inodes[e.1]? = some e.2 → p.Under e.1 → s.inodes[e.1]? = some
    e.2) (hstores : p.SameParts s s') (hquiet : ∀ guid, p.Quiet left guid → p.Quiet left' guid) :
    ∀ e : Bytes × Inode, s'.inodes[e.1]? = some e.2 → p.Under e.1 →
      p.WholePart cluster s'.stores e ∧ ∀ guid, e.2.blob = some guid → p.Quiet left' guid := by
  intro e he hunder
  obtain ⟨hwhole, howner⟩ := h.parts e (hinodes e he hunder) hunder
  refine ⟨hwhole.of_same (hstores e (hinodes e he hunder) hunder), fun guid hguid => hquiet guid
    (howner guid hguid)⟩

theorem PartUploads.Listed.keep {l : CallEvent} {inodes : List (Bytes × Inode)} {gone : List Bytes}
    (h : p.Listed req l inodes gone s)
    (hinodes : ∀ e : Bytes × Inode, s'.inodes[e.1]? = some e.2 → p.Under e.1 → s.inodes[e.1]? = some
    e.2) (hkept : ∀ k, (p.view req).Kept k → s'.inodes[k]? = s.inodes[k]?) (hstores :
      p.SameParts s s') :
    p.Listed req l inodes gone s' where
  present e he hunder := h.present e (hinodes e he hunder) hunder
  kept e he hk := (hkept e.1 hk).trans (h.kept e he hk)
  same e he hk layout hlayout := by
    obtain ⟨n, hn, -, hkey⟩ := id hk
    have hunder : p.Under e.1 := by
      rw [hkey]
      exact partsPrefix_partKey hn
    exact (h.same e he hk layout hlayout).trans (hstores e (h.kept e he hk) hunder layout hlayout)

end

/-! ## §5. Steps of part uploads -/

section

variable {p : PartUploads} {cluster : Cluster} {req : CompleteRequest} {trace : Trace} {s s₀ : Site}
    {ch : Delivery}

theorem serve_putBlock (cluster : Cluster) (ch : Delivery) (s : Site) (k : BlobKey) (body : Bytes) :
    (cluster.serve ch (.putBlock k body) s).2.inodes = s.inodes
      ∧ ((cluster.serve ch (.putBlock k body) s).1 = true →
        (cluster.serve ch (.putBlock k body) s).2.stores k = some body)
      ∧ ∀ k', k' ≠ k → (cluster.serve ch (.putBlock k body) s).2.stores k' = s.stores k' := by
  have hself : update s.stores k (some body) k = some body := update_self ..
  have hother : ∀ k', k' ≠ k → update s.stores k (some body) k' = s.stores k' :=
    fun k' hk' => update_of_ne hk' _ _
  cases ch with
  | answered => exact ⟨rfl, fun _ => hself, hother⟩
  | replyLost | garbled => exact ⟨rfl, nofun, hother⟩
  | dropped | refused | noRootBlob => exact ⟨rfl, nofun, fun _ _ => rfl⟩

variable {left : Nat → UploadPhase} {i : Nat}

theorem PartUploads.Uploading.sameParts_putBlock (h : p.Uploading cluster left s)
    (hstart : p.Start cluster s₀) (hi : i < p.count) {k : BlobKey} {body : Bytes}
    {rest : List (BlobKey × Bytes)} (hleft : (left i).1 = (k, body) :: rest) :
    p.SameParts s (cluster.serve ch (.putBlock k body) s).2 := by
  obtain ⟨blocks, hsound⟩ := hstart.sound i hi
  have hwrite : (k, body) ∈ (p.uploads i).2.writes :=
    (h.suffix i hi).subset (by rw [hleft]; exact mem_cons_self)
  intro e he hunder layout hlayout guid hguid k' hk'
  refine (serve_putBlock cluster ch s k body).2.2 k' fun heq => ?_
  have hblob : e.2.blob = some guid := by
    rw [hlayout]
    show layout.blobGuid.toOption = some guid
    rw [hguid]
    rfl
  have hnil := (h.parts e he hunder).2 guid hblob i hi (by
    rw [← hk', heq]
    exact (hsound.own (k, body) hwrite).symm)
  rw [hleft] at hnil
  cases hnil

theorem PartUploads.Uploading.putBlock (h : p.Uploading cluster left s)
    (hstart : p.Start cluster s₀) (hi : i < p.count) {k : BlobKey} {body : Bytes}
    {rest : List (BlobKey × Bytes)} (hleft : (left i).1 = (k, body) :: rest)
    {left' : Nat → UploadPhase}
    (hself : left' i = (rest, (left i).2 && (cluster.serve ch (.putBlock k body) s).1))
    (hothers : ∀ j, j ≠ i → left' j = left j) :
    p.Uploading cluster left' (cluster.serve ch (.putBlock k body) s).2 := by
  obtain ⟨hinodes, hacked, hstores⟩ := serve_putBlock cluster ch s k body
  obtain ⟨blocks, hsound⟩ := hstart.sound i hi
  have hsuffix := h.suffix i hi
  rw [hleft] at hsuffix
  have hwrite : (k, body) ∈ (p.uploads i).2.writes := hsuffix.subset mem_cons_self
  refine ⟨h.keep ?_ (h.sameParts_putBlock hstart hi hleft) ?_, ?_, ?_⟩
  · intro e he _
    rw [hinodes] at he
    exact he
  · intro guid hquiet j hj hblob
    by_cases hji : j = i
    · -- a quiet blob is not the one that is written
      subst hji
      have hnil := hquiet j hj hblob
      rw [hleft] at hnil
      cases hnil
    · rw [hothers j hji]
      exact hquiet j hj hblob
  · intro j hj
    by_cases hji : j = i
    · subst hji
      rw [hself]
      exact (suffix_cons (k, body) rest).trans hsuffix
    · rw [hothers j hji]
      exact h.suffix j hj
  · intro j hj hok write hmem
    by_cases hji : j = i
    · subst hji
      rw [hself] at hok ⊢
      obtain ⟨hok, hans⟩ := Bool.and_eq_true_iff.mp hok
      by_cases hkey : write.1 = k
      · -- a key is written once
        have heq : write = (k, body) := inj_on_of_nodup_map hsound.distinct hmem hwrite hkey
        rw [heq]
        exact .inr (hacked hans)
      · rw [hstores _ hkey]
        rcases h.written j hj hok write hmem with hin | hstored
        · rw [hleft] at hin
          rcases mem_cons.mp hin with heq | hin
          · exact absurd (congrArg Prod.fst heq) hkey
          · exact .inl hin
        · exact .inr hstored
    · rw [hothers j hji] at hok ⊢
      obtain ⟨blocks', hsound'⟩ := hstart.sound j hj
      have hkey : write.1 ≠ k := by
        intro heq
        refine hji (hstart.distinct j i hj hi ?_)
        exact (hsound'.own write hmem).symm.trans
          ((congrArg BlobKey.blobId heq).trans (hsound.own (k, body) hwrite))
      rw [hstores _ hkey]
      exact h.written j hj hok write hmem

theorem PartUploads.Uploading.putInode (h : p.Uploading cluster left s)
    (hstart : p.Start cluster s₀) (hi : i < p.count) (hleft : left i = ([], true))
    (hnumber : IsPartNumber (p.uploads i).1) :
    p.Uploading cluster left (cluster.serve ch (p.commit i) s).2 := by
  have hstores : (cluster.serve ch (p.commit i) s).2.stores = s.stores := serve_stores_same nofun
  refine ⟨?_, h.suffix, ?_⟩
  · intro e he hunder
    rw [hstores]
    by_cases hkey : e.1 = mpuGetPartPrefix p.key p.uploadId (p.uploads i).1
    · by_cases hch : ch.applied = true
      · -- the part that was stored just now
        rw [hkey, serve_putInode hch] at he
        have he2 : e.2 = .layout (p.uploads i).2.stored := (Option.some.inj he).symm
        obtain ⟨blocks, hsound⟩ := hstart.sound i hi
        refine ⟨⟨(p.uploads i).1, _, blocks, hnumber, Prod.ext hkey he2,
          hsound.whole fun write hwrite => ?_⟩, ?_⟩
        · rcases h.written i hi (by rw [hleft]) write hwrite with hin | hstored
          · rw [hleft] at hin
            cases hin
          · exact hstored
        · intro guid hguid j hj hblob
          rw [he2] at hguid
          have hsame : (p.uploads i).2.layout.blobGuid = guid := Option.some.inj hguid
          have hji : j = i :=
            hstart.distinct j i hj hi (hblob.trans (congrArg DataBlobGuid.blobId hsame.symm))
          rw [hji, hleft]
      · rw [serve_putInode_lost hch] at he
        exact h.parts e he hunder
    · rw [serve_inodes_same (fun value heq => hkey (Op.putInode.inj heq).1.symm)
        Op.noConfusion] at he
      exact h.parts e he hunder
  · intro j hj hok write hmem
    rw [hstores]
    exact h.written j hj hok write hmem

end

/-! ## §6. Runs -/

section

variable {p : PartUploads} {cluster : Cluster} {req : CompleteRequest} {trace : Trace} {s s₀ : Site}
  {op : Op} {ch : Delivery} {phases : (i : Nat) → PartPhase i}

variable (h : p.Race cluster req trace s phases)

include h

theorem PartUploads.Race.upload_quiet {s' : Site} {i : Nat} {phase : UploadPhase}
    (hinodes : s'.inodes = s.inodes) (hstores : p.SameParts s s')
    (huploading : p.Uploading cluster (fun j => update phases (i + 1) phase (j + 1)) s') :
    p.Race cluster req (trace ++ [⟨i + 1, op, ch, s⟩]) s' (update phases (i + 1) phase) := by
  have hnot : p.IsListing ⟨i + 1, op, ch, s⟩ = false :=
    isListing_of_ne (Nat.succ_ne_zero i)
  refine ⟨huploading, ?_, ?_, ?_⟩
  · intro hseen
    rw [update_of_ne (Nat.succ_ne_zero i).symm] at hseen
    exact no_listing_append hnot (h.early hseen)
  · intro object inodes gone hseen
    rw [update_of_ne (Nat.succ_ne_zero i).symm] at hseen
    obtain ⟨l, hl, hlisting, honly, hreply, hcheck, hwhole, hlisted⟩ :=
      h.listed object inodes gone hseen
    refine ⟨l, mem_append_left _ hl, hlisting, not_listing_append hnot honly, hreply, hcheck,
      hwhole, fun hordered => ?_⟩
    refine (hlisted hordered.of_append.1).keep ?_ ?_ hstores
    · intro e he _
      rw [hinodes] at he
      exact he
    · intro k _
      rw [hinodes]
  · intro object inodes gone completed hphase
    rw [update_of_ne (Nat.succ_ne_zero i).symm] at hphase
    rw [hinodes]
    exact h.stored object inodes gone completed hphase

omit h in
theorem update_upload_self (phases : (i : Nat) → PartPhase i) (i : Nat) :
    update phases (i + 1) (phases (i + 1)) = phases := update_eq_self ..

theorem PartUploads.Race.upload_step (hstart : p.Start cluster s₀) {i : Nat}
    (hi : i < p.count) (hallowed : p.Allows i (phases (i + 1)) op) :
    p.Race cluster req (trace ++ [⟨i + 1, op, ch, s⟩]) (cluster.serve ch op s).2
      (update phases (i + 1) (UploadPhase.next (phases (i + 1)) op (cluster.serve ch op s).1)) := by
  cases op with
  | putBlock k body =>
    obtain ⟨rest, hleft⟩ := hallowed
    refine h.upload_quiet (serve_putBlock cluster ch s k body).1
      (h.uploading.sameParts_putBlock hstart hi hleft) ?_
    refine h.uploading.putBlock hstart hi hleft ?_ fun j hj => ?_
    · show update phases (i + 1) _ (i + 1) = _
      rw [update_self]
      show (((phases (i + 1) : UploadPhase).1.tail, _) : UploadPhase) = _
      rw [hleft]
      rfl
    · show update phases (i + 1) _ (j + 1) = _
      rw [update_of_ne fun heq => hj (Nat.succ.inj heq)]
  | putInode k value =>
    obtain ⟨hleft, hnumber, rfl, rfl⟩ := hallowed
    have huploading : p.Uploading cluster (fun j => phases (j + 1))
      (cluster.serve ch (p.commit i) s).2 :=
      h.uploading.putInode hstart hi hleft hnumber
    show p.Race cluster req _ _ (update phases (i + 1) (phases (i + 1)))
    by_cases hch : ch.applied = true
    · have hcommit : IsCommit ⟨i + 1, p.commit i, ch, s⟩ := hch
      rw [update_upload_self]
      refine ⟨huploading, fun hseen => no_listing_append (isListing_of_ne (Nat.succ_ne_zero i))
        (h.early hseen), ?_, ?_⟩
      · intro object inodes gone hseen
        obtain ⟨l, hl, hlisting, honly, hreply, hcheck, hwhole, -⟩ :=
          h.listed object inodes gone hseen
        refine ⟨l, mem_append_left _ hl, hlisting, not_listing_append
          (isListing_of_ne (Nat.succ_ne_zero i)) honly, hreply, hcheck, hwhole, fun hordered => ?_⟩
        exact absurd hcommit (hordered.of_append.2 l hl hlisting (Nat.succ_ne_zero i))
      · intro object inodes gone completed hphase
        obtain ⟨hcompletes, hstored⟩ := h.stored object inodes gone completed hphase
        refine ⟨hcompletes, ?_⟩
        have hne : mpuGetPartPrefix p.key p.uploadId (p.uploads i).1 ≠ p.key :=
          ne_of_partsPrefix (partsPrefix_partKey hnumber)
        rw [serve_inodes_same (fun value heq => hne (Op.putInode.inj heq).1) Op.noConfusion]
        exact hstored
    · rw [serve_putInode_lost hch]
      refine h.upload_quiet rfl (sameParts_of_stores rfl) ?_
      rw [update_upload_self]
      exact h.uploading
  | failoverExpired | refreshNssAddress =>
    refine h.upload_quiet rfl (sameParts_of_stores rfl) ?_
    show p.Uploading cluster (fun j => update phases (i + 1) (phases (i + 1)) (j + 1)) s
    rw [update_upload_self]
    exact h.uploading
  | _ => exact hallowed.elim

omit h in
theorem complete_serve {phase : CompletePhase}
    (hallowed : phase.Allows p.key p.idText (p.view req) op) :
    (cluster.serve ch op s).2.stores = s.stores
      ∧ (∀ e : Bytes × Inode, (cluster.serve ch op s).2.inodes[e.1]? = some e.2 → p.Under e.1 →
        s.inodes[e.1]? = some e.2)
      ∧ ∀ k, (p.view req).Kept k → (cluster.serve ch op s).2.inodes[k]? = s.inodes[k]? := by
  have hput : ∀ k value, op = .putInode k value → k = p.key := by
    rintro k value rfl
    cases phase with
    | listed => exact hallowed.1
    | start | found | stored => exact hallowed.elim
  have hdelete : ∀ k, op = .deleteInode k → ¬ (p.view req).Kept k := by
    rintro k rfl
    cases phase with
    | listed => exact hallowed
    | start | found | stored => exact hallowed.elim
  have hblock : ∀ k body, op ≠ .putBlock k body := by
    rintro k body rfl
    cases phase <;> exact hallowed.elim
  refine ⟨serve_stores_same hblock, ?_, ?_⟩
  · intro e he hunder
    exact (serve_inodes_off hput (ne_of_partsPrefix hunder)).eq_some he
  · intro k hk
    refine serve_inodes_same (fun value heq => ?_) fun heq => hdelete k heq hk
    obtain ⟨n, hn, -, hkey⟩ := hk
    have hunder : p.Under k := by
      rw [hkey]
      exact partsPrefix_partKey hn
    exact ne_of_partsPrefix hunder (hput k value heq)

omit h in
theorem PartUploads.listed_of_listsAll
    (hall : ListsAll cluster p.key p.idText
      (trace ++ [p.listing s])) :
    p.Listed req (p.listing s)
      (cluster.listPage s.inodes 10000 p.under []).1 [] s := by
  have hmore : (cluster.listPage s.inodes 10000 p.under []).2 = false :=
    hall _ (mem_append_right _ (mem_singleton_self _)) (decide_eq_true ⟨rfl, rfl, rfl⟩)
  refine ⟨fun e he hunder => ⟨?_, not_mem_nil⟩, ?_, fun _ _ _ _ _ _ _ _ _ => rfl⟩
  · have hne : e.1 ≠ [] := by
      intro hnil
      have hlength := hunder.length_le
      rw [hnil] at hlength
      simp only [partsPrefix, nulTerminated, length_append, length_nil, length_singleton] at hlength
      have hhash : (ascii "#").length = 1 := by decide
      have hslash : (ascii "/").length = 1 := by decide
      omega
    have hmatch : e ∈ s.inodes.matching p.under [] :=
      mem_matching.mpr ⟨he, hunder, lt_nulTerminated hne⟩
    -- the reply had everything
    have hle : (s.inodes.matching p.under []).length ≤ min 10000 cluster.clamp :=
      Nat.not_lt.mp (of_decide_eq_false hmore)
    show e ∈ (s.inodes.matching _ []).take (min 10000 cluster.clamp)
    rw [take_of_length_le hle]
    exact hmatch
  · intro e he _
    exact (mem_of_listPage he).1

variable (hallowed : CompletePhase.Allows p.key p.idText (p.view req) (phases 0) op)

include hallowed

theorem PartUploads.Race.complete_later
    (ch : Delivery) (phase' : CompletePhase)
    (hnot : p.IsListing ⟨0, op, ch, s⟩ = false)
    (hearly : phase'.seen? = none → CompletePhase.seen? (phases 0) = none)
    (hseen : ∀ object inodes gone, phase'.seen? = some (object, inodes, gone) →
      ∃ gone', CompletePhase.seen? (phases 0) = some (object, inodes, gone')
        ∧ ∀ k ∈ gone, k ∈ gone' ∨ (cluster.serve ch op s).2.inodes[k]? = none)
    (hstored : ∀ object inodes gone completed, phase' = .stored object inodes gone completed →
      Completes req object inodes gone completed ∧ (cluster.serve ch op s).2.inodes[p.key]? = some
        (.layout completed)) :
    p.Race cluster req (trace ++ [⟨0, op, ch, s⟩]) (cluster.serve ch op s).2
      (update phases 0 phase') := by
  obtain ⟨hstores, hinodes, hkept⟩ := complete_serve (s := s) hallowed
  refine ⟨⟨?_, ?_, ?_⟩, ?_, ?_, ?_⟩
  · exact h.uploading.keep hinodes (sameParts_of_stores hstores) fun guid hquiet => hquiet
  · exact h.uploading.suffix
  · intro i hi hok write hwrite
    rw [hstores]
    exact h.uploading.written i hi hok write hwrite
  · intro hphase
    rw [update_self] at hphase
    exact no_listing_append hnot (h.early (hearly hphase))
  · intro object inodes gone hphase
    rw [update_self] at hphase
    obtain ⟨gone', hbefore, hgone⟩ := hseen object inodes gone hphase
    obtain ⟨l, hl, hlisting, honly, hreply, hcheck, hwhole, hlisted⟩ :=
      h.listed object inodes gone' hbefore
    refine ⟨l, mem_append_left _ hl, hlisting, not_listing_append hnot honly, hreply, hcheck,
      hwhole, fun hordered => ?_⟩
    have hsince := (hlisted hordered.of_append.1).keep hinodes hkept (sameParts_of_stores hstores)
    refine ⟨fun e he hunder => ⟨(hsince.present e he hunder).1, fun hmem => ?_⟩, hsince.kept,
      hsince.same⟩
    rcases hgone e.1 hmem with hold | hnone
    · exact (hsince.present e he hunder).2 hold
    · rw [hnone] at he
      cases he
  · intro object inodes gone completed hphase
    rw [update_self] at hphase
    exact hstored object inodes gone completed hphase

omit hallowed in
theorem PartUploads.Race.complete_list {object : Layout}
    (hphase : (phases 0 : CompletePhase) = .found object)
    (hcheck : checkUploading p.idText object = .ok ()) :
    p.Race cluster req
      (trace ++ [p.listing s]) s
      (update phases 0 (.listed object
        (cluster.listPage s.inodes 10000 p.under []).1 [])) := by
  have hbefore : CompletePhase.seen? (phases 0) = none := by
    rw [hphase]
    rfl
  refine ⟨h.uploading, ?_, ?_, ?_⟩
  · intro hseen
    rw [update_self] at hseen
    cases hseen
  · intro object' inodes gone hseen
    rw [update_self] at hseen
    cases hseen
    refine ⟨_, mem_append_right _ (mem_singleton_self _), decide_eq_true ⟨rfl, rfl, rfl⟩, ?_, rfl,
      hcheck, ?_, fun hordered => PartUploads.listed_of_listsAll hordered.2⟩
    · intro l hl hlisting
      rcases mem_append.mp hl with hl | hl
      · rw [h.early hbefore l hl] at hlisting
        cases hlisting
      · exact mem_singleton.mp hl
    · intro e he
      obtain ⟨hstored, hunder⟩ := mem_of_listPage he
      exact (h.uploading.parts e hstored hunder).1
  · intro object' inodes gone completed hstored
    rw [update_self] at hstored
    cases hstored

omit hallowed in
omit h in
theorem not_uploadsPrefix_partsPrefix {key : Bytes} {uploadId : Uuid} {n : Nat}
    (hn : IsPartNumber n) :
    ¬ mpuGetUploadsPrefix (mpuGetPartPrefix key uploadId n) <+: partsPrefix key
      (Uuid.asSimple uploadId) := by
  intro hunder
  have hlength := hunder.length_le
  rw [mpuGetUploadsPrefix, mpuGetPartPrefix_eq hn.1 hn.2] at hlength
  simp only [length_append, length_fixedDecimal] at hlength
  omega

theorem PartUploads.Race.complete_step
    :
    p.Race cluster req (trace ++ [⟨0, op, ch, s⟩]) (cluster.serve ch op s).2
      (update phases 0 (CompletePhase.next (phases 0) op (cluster.serve ch op s).1)) := by
  have hmove : CompleteMove cluster p.key p.idText (p.view req) s ch (phases 0) op _ :=
    hallowed.move
  have hlater := h.complete_later hallowed ch
  generalize CompletePhase.next (phases 0) op (cluster.serve ch op s).1 = phase' at hmove ⊢
  generalize hphase : (phases 0 : CompletePhase) = phase at hmove
  rw [hphase] at hlater
  cases hmove with
  | read hstored =>
    refine hlater _ (isListing_of_op (fun _ _ _ => Op.noConfusion) 0) id ?_ nofun
    intro object inodes gone hseen
    cases hseen
  | list hcheck => exact h.complete_list hphase hcheck
  | drop =>
    refine hlater _ (isListing_of_op (fun _ _ _ => Op.noConfusion) 0)
      (absurd · (Option.some_ne_none _)) ?_ nofun
    rintro object inodes gone ⟨⟩
    refine ⟨_, rfl, fun k' hk' => ?_⟩
    rcases mem_cons.mp hk' with rfl | hk'
    · exact .inr (serve_deleteInode rfl)
    · exact .inl hk'
  | store hcompletes =>
    refine hlater _ (isListing_of_op (fun _ _ _ => Op.noConfusion) 0)
      (absurd · (Option.some_ne_none _)) ?_ ?_
    · rintro object inodes gone ⟨⟩
      exact ⟨_, rfl, fun k hk => .inl hk⟩
    · rintro object inodes gone completed ⟨⟩
      exact ⟨hcompletes, serve_putInode rfl⟩
  | stay hearly hsame =>
    have hnot : p.IsListing ⟨0, op, ch, s⟩ = false := by
      cases phase' with
      | start | found => exact hearly rfl
      | stored =>
        refine isListing_of_op ?_ 0
        rintro _ _ _ rfl
        rw [hphase] at hallowed
        exact hallowed.elim
      | listed =>
        refine decide_eq_false fun hlisting => ?_
        have hop : op = .listInodes 10000 p.under [] := hlisting.2.1
        rw [hphase, hop] at hallowed
        -- after the listing only what is under a part that was not named is listed
        obtain ⟨k, ⟨n, hn, -, rfl⟩, hunder⟩ := hallowed
        exact not_uploadsPrefix_partsPrefix hn hunder
    refine hlater phase' hnot id
      (fun object inodes gone hseen => ⟨gone, hseen, fun k hk => .inl hk⟩) ?_
    rintro object inodes gone completed rfl
    rw [hsame _ _ _ _ rfl]
    exact h.stored object inodes gone completed hphase

theorem PartUploads.Race.possible
    :
    (p.view req).Possible p.key p.idText op (cluster.serve ch op s).1 := by
  cases op with
  | listInodes maxKeys keyPrefix startAfter =>
    cases ch with
    | answered =>
      refine ⟨?_, ?_⟩
      · rintro rfl
        have hmax : maxKeys = 10000 := by
          revert hallowed
          cases (phases 0 : CompletePhase) with
          | found object => exact fun hallowed => hallowed.2.1
          | listed object inodes gone =>
            rintro ⟨k, ⟨n, hn, -, rfl⟩, hunder⟩
            exact absurd hunder (not_uploadsPrefix_partsPrefix hn)
          | start | stored => exact fun hallowed => hallowed.elim
        have hsorted : KeySorted (cluster.listPage s.inodes maxKeys p.under
            startAfter).1 := (keySorted_matching s.inodes _ _).sublist (take_sublist _ _)
        have hlength : (cluster.listPage s.inodes maxKeys p.under
            startAfter).1.length ≤ 10000 := by
          rw [← hmax]
          exact Nat.le_trans (length_take_le _ _) (Nat.min_le_left _ _)
        obtain ⟨parts, hlists, -⟩ := PartUploads.lists_of_whole (p := p) hsorted hlength fun e he =>
          (h.uploading.parts e (mem_of_listPage he).1 (mem_of_listPage he).2).1
        exact ⟨parts, hlists⟩
      · rintro k ⟨n, hn, -, rfl⟩ hunder e he ⟨m, hm, -, hkey⟩
        exact ne_partKey_of_uploadsPrefix hn hm (hunder.trans (mem_of_listPage he).2) hkey
    | _ => trivial
  | getInode | putInode | deleteInode =>
    cases ch <;> trivial
  | failoverExpired | refreshNssAddress | getBlobClient | putBlock | getBlob | loadRowMap
    | sendDeletion => trivial

end

section

variable (p : PartUploads) (rounds : Nat) (K : Checksums) (parseUuid : Bytes → Option Uuid)
    (req : CompleteRequest)

/-- The completion and the part uploads, with their programs to run. -/
def PartUploads.pool (s : Site) : Pool Op Ans (Except S3Error (Option Layout)) Site Nat :=
  mpuPool rounds K parseUuid p.key p.idText req p.rival s

/-- The protocol of each. -/
def PartUploads.race : (i : Nat) → Protocol Op Ans (PartPhase i)
  | 0 => completeProtocol p.key p.idText (p.view req)
  | i + 1 => p.protocol i

/-- What the completion ends with fits its phase. -/
def partEnds : (i : Nat) → PartPhase i → Except S3Error (Option Layout) → Prop
  | 0 => CompletePhase.Ends
  | _ + 1 => fun _ _ => True

/-- The phases of the start. -/
def PartUploads.startPhases : (i : Nat) → PartPhase i
  | 0 => .start
  | i + 1 => ((p.uploads i).2.writes, true)

end

section

variable {p : PartUploads} {cluster : Cluster} {rounds : Nat} {K : Checksums}
  {parseUuid : Bytes → Option Uuid} {req : CompleteRequest} {s : Site}

theorem PartUploads.Start.race (h : p.Start cluster s) : p.Race cluster req [] s p.startPhases where
  uploading := by
    refine ⟨fun e he hunder => ⟨h.parts e he hunder, fun guid hguid i hi hblob => ?_⟩,
      fun i _ => suffix_refl _, fun i _ _ write hwrite => .inl hwrite⟩
    refine absurd hblob.symm (h.fresh i hi e.1 guid (names_iff.mpr ?_))
    rw [he]
    exact hguid
  early _ _ hl := by cases hl
  listed _ _ _ hseen := by cases hseen
  stored _ _ _ _ hphase := by cases hphase

/-- A call of the completion or an upload. -/
def PartUploads.Member (p : PartUploads) (e : CallEvent) : Prop := e.who ≤ p.count

theorem PartUploads.race_step {s₀ : Site} (hstart : p.Start cluster s₀) (trace : Trace) (s : Site)
    (phases : (i : Nat) → PartPhase i) (i : Nat) (op : Op) (ch : Delivery)
    (h : p.Race cluster req trace s phases) (hallowed : (p.race req i).allowed (phases i) op)
    (hok : p.Member ⟨i, op, ch, s⟩) :
    (p.race req i).possible op (cluster.serve ch op s).1
      ∧ p.Race cluster req (trace ++ [⟨i, op, ch, s⟩]) (cluster.serve ch op s).2
        (update phases i ((p.race req i).advance (phases i) op (cluster.serve ch op s).1)) := by
  cases i with
  | zero => exact ⟨h.possible hallowed, h.complete_step hallowed⟩
  | succ i => exact ⟨trivial, h.upload_step hstart hok hallowed⟩

theorem PartUploads.follows_start (hparse : parseUuid p.idText = some p.uploadId) (i : Nat) :
    ((p.pool rounds K parseUuid req s).left i).Follows (p.race req i) (partEnds i)
      (p.startPhases i) := by
  cases i with
  | zero => exact follows_completeMultipartUpload rounds K
  | succ i => exact follows_uploadPart rounds hparse

end

/-! ## §7. The completed object -/

section

variable {p : PartUploads} {cluster : Cluster} {req : CompleteRequest} {parts : List (Nat × Layout)}
  {inodes : List (Bytes × Inode)} {gone : List Bytes} {numbers : List Nat} {l : CallEvent}

theorem names_partKey {n : Nat} (hn : IsPartNumber n) (hnumbers : req.partNumbers = .ok numbers) :
    req.names (mpuGetPartPrefix p.key p.uploadId n) = decide (n ∈ numbers) := by
  unfold CompleteRequest.names
  rw [hnumbers, trimEndMatches_partKey hn.1 hn.2, mpuParsePartNumber_partKey hn.1 hn.2]

theorem kept_partKey {n : Nat} (hn : IsPartNumber n) (hnumbers : req.partNumbers = .ok numbers) :
    (p.view req).Kept (mpuGetPartPrefix p.key p.uploadId n) ↔ n ∈ numbers := by
  constructor
  · rintro ⟨m, hm, ⟨numbers', hnumbers', hmem⟩, hkey⟩
    rw [hnumbers] at hnumbers'
    cases hnumbers'
    rw [partKey_inj hn hm hkey]
    exact hmem
  · exact fun hmem => ⟨n, hn, ⟨numbers, hnumbers, hmem⟩, rfl⟩

theorem PartUploads.Lists.filter_names (h : p.Lists parts inodes)
    (hnumbers : req.partNumbers = .ok numbers) :
    inodes.filter (fun e => req.names e.1)
      = (parts.filter fun part => part.1 ∈ numbers).map (partInode p.key p.uploadId) := by
  rw [h.1, filter_map]
  refine congrArg _ (filter_congr fun part hpart => ?_)
  exact names_partKey (h.2.1 part hpart).1 hnumbers

theorem PartUploads.Listed.page {s : Site} (h : p.Listed req l inodes gone s)
    (hlists : p.Lists parts inodes) (hsorted : KeySorted inodes)
    (hlength : inodes.length ≤ min 10000 cluster.clamp) (hnumbers : req.partNumbers = .ok numbers)
    (hgone : ∀ part ∈ parts, part.1 ∉ numbers → mpuGetPartPrefix p.key p.uploadId part.1 ∈ gone) :
    (cluster.listPage s.inodes 10000 p.under []).1
      = (parts.filter fun part => part.1 ∈ numbers).map (partInode p.key p.uploadId) := by
  have hnamed :
    KeySorted ((parts.filter fun part => part.1 ∈ numbers).map (partInode p.key p.uploadId)) := by
    refine hsorted.sublist ?_
    rw [hlists.1]
    exact filter_sublist.map _
  have hmatching : s.inodes.matching p.under []
      = (parts.filter fun part => part.1 ∈ numbers).map (partInode p.key p.uploadId) := by
    refine matching_eq hnamed (fun e => ⟨?_, ?_⟩) ?_
    · rintro ⟨hstored, hunder⟩
      obtain ⟨hmem, hnot⟩ := h.present e hstored hunder
      rw [hlists.1] at hmem
      obtain ⟨part, hpart, rfl⟩ := mem_map.mp hmem
      refine mem_map_of_mem (mem_filter.mpr ⟨hpart, decide_eq_true ?_⟩)
      by_contra hunnamed
      exact hnot (hgone part hpart hunnamed)
    · intro hmem
      obtain ⟨part, hpart, rfl⟩ := mem_map.mp hmem
      obtain ⟨hpart, hin⟩ := mem_filter.mp hpart
      have hn := (hlists.2.1 part hpart).1
      have hlisted : partInode p.key p.uploadId part ∈ inodes := by
        rw [hlists.1]
        exact mem_map_of_mem hpart
      exact ⟨h.kept _ hlisted ((kept_partKey hn hnumbers).mpr (of_decide_eq_true hin)),
        partsPrefix_partKey hn⟩
    · intro e he
      obtain ⟨part, -, rfl⟩ := mem_map.mp he
      exact partKey_ne_nil part.1
  show (s.inodes.matching _ []).take (min 10000 cluster.clamp) = _
  rw [hmatching, take_of_length_le]
  rw [length_map]
  have hfilter := length_filter_le (fun part : Nat × Layout => decide (part.1 ∈ numbers)) parts
  have hparts : inodes.length = parts.length := by
    rw [hlists.1, length_map]
  omega

end

/-- From moment `t` on the named parts are served as the listing `l` saw them, and their length is
    the recorded size. -/
def PartUploads.Serves (p : PartUploads) (cluster : Cluster) (rounds : Nat) (req : CompleteRequest)
    (l : CallEvent) (site : Nat → Site) (t : Nat) (completed : Layout) : Prop :=
  ∃ (parts : List (Nat × Layout)) (blocks : Nat × Layout → List Bytes),
    (p.reply cluster l).filter (fun e => req.names e.1)
      = parts.map (partInode p.key p.uploadId)
    ∧ (∀ part ∈ parts, Whole cluster.impl l.before.stores part.2 (blocks part))
    ∧ completed.size = .ok (parts.flatMap blocks).flatten.length
    ∧ (∀ u, t ≤ u → ((getObject rounds p.key fun _ => .ok none).run.exec cluster.answer (site u)).1
      = .ok ((parts.flatMap blocks).map .ok))
    ∧ Steady (At cluster site) t (getObject rounds p.key fun _ => .ok none).run
      (.ok ((parts.flatMap blocks).map .ok))

theorem PartUploads.Ordered.take {p : PartUploads} {cluster : Cluster} {trace later : Trace}
    (h : p.Ordered cluster (trace ++ later)) : p.Ordered cluster trace :=
  ⟨(pairwise_append.mp h.1).1, fun l hl => h.2 l (mem_append_left _ hl)⟩

section

variable {p : PartUploads} {cluster : Cluster} {rounds : Nat} {K : Checksums}
  {parseUuid : Bytes → Option Uuid} {req : CompleteRequest} {s : Site}
    {schedule : List (Nat × Delivery)}

/-- The site after `u` calls of the schedule. -/
def PartUploads.siteAt (p : PartUploads) (cluster : Cluster) (rounds : Nat) (K : Checksums)
    (parseUuid : Bytes → Option Uuid) (req : CompleteRequest) (s : Site)
    (schedule : List (Nat × Delivery)) (u : Nat) : Site :=
  ((p.pool rounds K parseUuid req s).run cluster.serve (schedule.take u)).state

theorem PartUploads.race_after (hstart : p.Start cluster s)
    (hparse : parseUuid p.idText = some p.uploadId) (hschedule : ∀ e ∈ schedule, e.1 ≤ p.count)
    {t : Nat} {completed : Layout}
    (hdone : ((p.pool rounds K parseUuid req s).run cluster.serve (schedule.take t)).left 0 = .done
    (.ok (some completed))) :
    ∃ object inodes gone, ∀ u, t ≤ u → ∃ phases : (i : Nat) → PartPhase i,
      p.Race cluster req ((p.pool rounds K parseUuid req s).trace cluster.serve (schedule.take u))
        (p.siteAt cluster rounds K parseUuid req s schedule u) phases
      ∧ (phases 0 : CompletePhase) = .stored object inodes gone completed := by
  have hok : ∀ (c : Pool Op Ans (Except S3Error (Option Layout)) Site Nat)
      (part : List (Nat × Delivery)), part ⊆ schedule → ∀ e ∈ c.trace cluster.serve part,
        p.Member e :=
    fun c part hpart e he => hschedule _ (hpart (Pool.who_of_mem_trace he))
  obtain ⟨phases, hrace, hfollows⟩ := Pool.follows_invariant (G := p.Race cluster req)
    (PartUploads.race_step hstart) hstart.race (PartUploads.follows_start hparse)
      (hok _ _ (take_subset t schedule))
  have hends := hfollows 0
  rw [hdone] at hends
  obtain ⟨object, inodes, gone, completed', hanswer, hphase⟩ := hends _ rfl
  cases hanswer
  refine ⟨object, inodes, gone, fun u hu => ?_⟩
  obtain ⟨d, rfl⟩ := Nat.exists_eq_add_of_le hu
  -- from moment `t` on the completion stays in its last phase
  have hstep : ∀ (trace : Trace) (s' : Site) (phases : (i : Nat) → PartPhase i) (i : Nat) (op : Op)
      (ch : Delivery), (p.Race cluster req trace s' phases ∧ (phases 0 : CompletePhase) = .stored
        object inodes gone completed) →
      (p.race req i).allowed (phases i) op → p.Member ⟨i, op, ch, s'⟩ →
      (p.race req i).possible op (cluster.serve ch op s').1
        ∧ p.Race cluster req (trace ++ [⟨i, op, ch, s'⟩]) (cluster.serve ch op s').2
            (update phases i ((p.race req i).advance (phases i) op (cluster.serve ch op s').1))
        ∧ (update phases i ((p.race req i).advance (phases i) op (cluster.serve ch op s').1)
          0 : CompletePhase) = .stored object inodes gone completed := by
    rintro trace s' phases i op ch ⟨hG, hlast⟩ hallowed hi
    obtain ⟨hpossible, hnext⟩ := PartUploads.race_step hstart trace s' phases i op ch hG hallowed hi
    refine ⟨hpossible, hnext, ?_⟩
    cases i with
    | succ i =>
      rw [update_of_ne (Nat.succ_ne_zero i).symm]
      exact hlast
    | zero =>
      rw [update_self]
      show CompletePhase.next (phases 0) op _ = _
      have hallowed' : CompletePhase.Allows p.key p.idText (p.view req) (phases 0) op := hallowed
      rw [hlast] at hallowed' ⊢
      cases op with
      | failoverExpired | refreshNssAddress => rfl
      | _ =>
        exact hallowed'.elim
  obtain ⟨phases', ⟨hrace', hphase'⟩, -⟩ := Pool.follows_invariant
    (G := fun trace s' phases => p.Race cluster req trace s' phases
      ∧ (phases 0 : CompletePhase) = .stored object inodes gone completed)
    hstep ⟨hrace, hphase⟩ hfollows
    (hok _ ((schedule.drop t).take d) fun e he => mem_of_mem_drop (mem_of_mem_take he))
  refine ⟨phases', ?_, hphase'⟩
  unfold PartUploads.siteAt
  rw [take_add, Pool.trace_append, Pool.run_append]
  exact hrace'

theorem versionId_of_checkUploading {uploadId : Bytes} {object : Layout}
    (h : checkUploading uploadId object = .ok ()) :
    Uuid.asSimple object.versionId = uploadId := by
  unfold checkUploading at h
  split at h
  · cases h
  next heq => exact not_not.mp heq

theorem PartUploads.serves_of_listed {l : CallEvent} {site : Nat → Site} {t : Nat}
    {object completed : Layout} {inodes : List (Bytes × Inode)} {gone : List Bytes}
    (hreply : inodes = p.reply cluster l)
    (hwhole : ∀ e ∈ inodes, p.WholePart cluster l.before.stores e)
    (hcheck : checkUploading p.idText object = .ok ())
    (hcompletes : Completes req object inodes gone completed)
    (hinode : ∀ u, t ≤ u → (site u).inodes[p.key]? = some (.layout completed))
    (hlisted : ∀ u, t ≤ u → p.Listed req l inodes gone (site u)) :
    p.Serves cluster rounds req l site t completed := by
  have hsorted : KeySorted inodes := by
    rw [hreply]
    exact (keySorted_matching _ _ _).sublist (take_sublist _ _)
  have hlength : inodes.length ≤ min 10000 cluster.clamp := by
    rw [hreply]
    exact length_take_le _ _
  obtain ⟨parts, hlists, hblocks⟩ := PartUploads.lists_of_whole hsorted
    (hlength.trans (Nat.min_le_left _ _)) hwhole
  obtain ⟨headers, numbers, mpuObjs, tally, hnumbers, hraw, htally, -, hgone, hcompleted⟩ :=
    hcompletes
  obtain ⟨hinvalid, htotal⟩ := hlists.tally hraw htally
  -- the parts' contents, as the listing saw them
  have hchoice : ∀ part : Nat × Layout, ∃ blocks, part ∈ parts →
    Whole cluster.impl l.before.stores part.2 blocks := by
    intro part
    by_cases hpart : part ∈ parts
    · obtain ⟨blocks, h⟩ := hblocks part hpart
      exact ⟨blocks, fun _ => h⟩
    · exact ⟨[], fun h => absurd h hpart⟩
  choose blocks hblocks using hchoice
  have hnamed : ∀ part ∈ parts.filter fun part => part.1 ∈ numbers, Whole cluster.impl
    l.before.stores part.2 (blocks part) :=
    fun part hpart => hblocks part (mem_of_mem_filter hpart)
  have hid : completed.versionId = object.versionId := by
    rw [hcompleted, completedLayout]
  have hversion : Uuid.asSimple completed.versionId = p.idText := by
    rw [hid]
    exact versionId_of_checkUploading hcheck
  have hinodes : ∀ part, partInode p.key completed.versionId part
      = partInode p.key p.uploadId part := by
    intro part
    unfold partInode mpuGetPartPrefix
    rw [hversion]
  have hfrozen : Frozen cluster site t p.key completed
      ((parts.filter fun part => part.1 ∈ numbers).map id) l.before.stores := by
    refine ⟨hinode, fun u hu => ?_, fun u hu part hpart => ?_⟩
    · rw [map_id, mpuGetPartPrefix_zero, hversion, map_congr_left fun part _ => hinodes part]
      refine (hlisted u hu).page hlists hsorted hlength hnumbers fun part hpart hunnamed =>
        hgone _ ?_
      rw [hinvalid]
      exact mem_map_of_mem (mem_filter.mpr ⟨hpart, decide_eq_true hunnamed⟩)
    · rw [map_id] at hpart
      obtain ⟨hpart, hin⟩ := mem_filter.mp hpart
      have hmem : partInode p.key p.uploadId part ∈ inodes := by
        rw [hlists.1]
        exact mem_map_of_mem hpart
      exact (hlisted u hu).same _ hmem
        ((kept_partKey (hlists.2.1 part hpart).1 hnumbers).mpr (of_decide_eq_true hin)) _ rfl
  have hsteady : ∀ u, t ≤ u →
      Steady (At cluster site) u (getObject rounds p.key fun _ => .ok none).run
        (.ok (((parts.filter fun part => part.1 ∈ numbers).flatMap blocks).map .ok)) := by
    intro u hu
    have hfrozen' : Frozen cluster site u p.key completed
        ((parts.filter fun part => part.1 ∈ numbers).map id) l.before.stores :=
      ⟨fun v hv => hfrozen.inode v (hu.trans hv), fun v hv => hfrozen.page v (hu.trans hv),
        fun v hv => hfrozen.blobs v (hu.trans hv)⟩
    refine steady_getObject hfrozen' (by rw [hcompleted, completedLayout]) (fun part hpart => ?_)
      hnamed
    exact (hlists.2.1 part (mem_of_mem_filter hpart)).1
  refine ⟨parts.filter fun part => part.1 ∈ numbers, blocks, ?_, hnamed, ?_, fun u hu => ?_,
    hsteady t le_rfl⟩
  · rw [← hreply]
    exact hlists.filter_names hnumbers
  · rw [hcompleted, ← sum_partSize hnamed, ← htotal]
    rfl
  · have hget : Unchanging cluster (fun _ _ => True) (site u)
      (getObject rounds p.key fun _ => .ok none).run :=
      keeps_getObject p.key _
    exact ((hsteady u hu).exec hget (fun _ => trivial) fun _ => rfl :)

/-- ★ **A completed object does not change under part uploads**, in any interleaving and delivery of
    their calls with those of the completion. When no part is stored after the completion's listing,
    which had all parts, every GET from the completion on answers the named parts as the listing saw
    them, at the recorded size. -/
theorem completed_object_immutable (hstart : p.Start cluster s)
    (hparse : parseUuid p.idText = some p.uploadId) (hschedule : ∀ e ∈ schedule, e.1 ≤ p.count)
    (hfirst : CommitsFirst p.key p.idText
    ((p.pool rounds K parseUuid req s).trace cluster.serve schedule))
    (hall : ListsAll cluster p.key p.idText
    ((p.pool rounds K parseUuid req s).trace cluster.serve schedule)) {t : Nat} {completed : Layout}
    (hdone : ((p.pool rounds K parseUuid req s).run cluster.serve (schedule.take t)).left 0 = .done
    (.ok (some completed))) :
    ∃ l ∈ (p.pool rounds K parseUuid req s).trace cluster.serve schedule,
      p.IsListing l = true
        ∧ p.Serves cluster rounds req l (p.siteAt cluster rounds K parseUuid req s schedule) t
          completed := by
  obtain ⟨object, inodes, gone, hafter⟩ := PartUploads.race_after hstart hparse hschedule hdone
  have hsplit : ∀ u, (p.pool rounds K parseUuid req s).trace cluster.serve schedule
      = (p.pool rounds K parseUuid req s).trace cluster.serve (schedule.take u)
        ++ ((p.pool rounds K parseUuid req s).run cluster.serve (schedule.take u)).trace
          cluster.serve (schedule.drop u) := by
    intro u
    rw [← Pool.trace_append, take_append_drop]
  have hordered :
    ∀ u, p.Ordered cluster ((p.pool rounds K parseUuid req s).trace cluster.serve
    (schedule.take u)) := by
    intro u
    have hwhole :
      p.Ordered cluster ((p.pool rounds K parseUuid req s).trace cluster.serve schedule) :=
      ⟨hfirst, hall⟩
    rw [hsplit u] at hwhole
    exact hwhole.take
  obtain ⟨phases, hrace, hphase⟩ := hafter t le_rfl
  obtain ⟨l, hl, hlisting, -, hreply, hcheck, hwhole, -⟩ :=
    hrace.listed object inodes gone (by rw [hphase]; rfl)
  have hmem : ∀ u, t ≤ u → l ∈ (p.pool rounds K parseUuid req s).trace cluster.serve
    (schedule.take u) := by
    intro u hu
    obtain ⟨d, rfl⟩ := Nat.exists_eq_add_of_le hu
    rw [take_add, Pool.trace_append]
    exact mem_append_left _ hl
  refine ⟨l, ?_, hlisting, PartUploads.serves_of_listed hreply hwhole hcheck
    (hrace.stored _ _ _ _ hphase).1 ?_ ?_⟩
  · rw [hsplit t]
    exact mem_append_left _ hl
  · intro u hu
    obtain ⟨phases', hrace', hphase'⟩ := hafter u hu
    exact (hrace'.stored _ _ _ _ hphase').2
  · intro u hu
    obtain ⟨phases', hrace', hphase'⟩ := hafter u hu
    -- the listing is the same one at every later moment
    obtain ⟨l', -, -, honly, -, -, -, hlisted⟩ :=
      hrace'.listed object inodes gone (by rw [hphase']; rfl)
    rw [honly l (hmem u hu) hlisting]
    exact hlisted (hordered u)

end

/-- Two uploads of part 1, with different bodies. -/
def sampleParts : PartUploads where
  key := ascii "/k"
  uploadId := 1
  uploads i := if i = 0 then (1, blockUpload sampleCluster.impl 5 [7])
    else (1, blockUpload sampleCluster.impl 6 [8, 9])
  count := 2

/-- A pending upload without parts. -/
def startedUpload : Site := siteWith (.layout pendingSample)

theorem start_sampleParts : sampleParts.Start sampleCluster startedUpload where
  parts := by
    intro e he hunder
    have hkey : e.1 = ascii "/k" :=
      Namespace.forall_of_toList (P := fun k _ => k = ascii "/k") (by decide +kernel) e.1 e.2 he
    rw [hkey] at hunder
    exact absurd hunder (by decide +kernel)
  sound := by
    intro i _
    cases i with
    | zero => exact ⟨_, blockUpload_sound _ 5 [7] (by decide) (by decide)⟩
    | succ i => exact ⟨_, blockUpload_sound _ 6 [8, 9] (by decide) (by decide)⟩
  distinct := by
    have hdistinct : ∀ i < 2, ∀ j < 2, sampleParts.blobId i = sampleParts.blobId j →
      i = j := by decide
    exact fun i j hi hj => hdistinct i hi j hj
  fresh := by
    intro i _ k guid hnames
    rw [names_iff, startedUpload, getElem?_siteWith] at hnames
    split at hnames
    · cases hnames
    · cases hnames

/-- The two uploads and a completion that names part 1. -/
abbrev samplePartPool : Pool Op Ans (Except S3Error (Option Layout)) Site Nat :=
  sampleParts.pool 0 sampleChecksums sampleParse sampleCompletion startedUpload

/-- The sites of its runs. -/
abbrev sampleSiteAt : List (Nat × Delivery) → Nat → Site :=
  sampleParts.siteAt sampleCluster 0 sampleChecksums sampleParse sampleCompletion startedUpload

/-- The first upload, then the completion. -/
abbrev partThenCompletion : List (Nat × Delivery) :=
  List.replicate 2 (1, .answered) ++ List.replicate 3 (0, .answered)

/-- The second upload comes last. -/
abbrev lateSecondPart : List (Nat × Delivery) := partThenCompletion ++ List.replicate 2
    (2, .answered)

theorem completed_object_immutable_at_sample :
    ∃ l ∈ samplePartPool.trace sampleCluster.serve (partThenCompletion ++ [(2, .answered)]),
      isListing (ascii "/k") (Uuid.asSimple 1) l = true
        ∧ sampleParts.Serves sampleCluster 0 sampleCompletion l
          (sampleSiteAt (partThenCompletion ++ [(2, .answered)])) 5 (completedSample 1) :=
  completed_object_immutable start_sampleParts rfl (by decide) (by decide +kernel)
    (by decide +kernel) (Prog.eq_done_of_result? (by decide +kernel))

/-- What a GET answers after the schedule. -/
def getAfter (schedule : List (Nat × Delivery)) : Except S3Error Body :=
  ((getObject 0 (ascii "/k") fun _ => .ok none).run.exec sampleCluster.answer
    (sampleSiteAt schedule schedule.length)).1

theorem late_part_changes_object :
    sampleParts.Start sampleCluster startedUpload
      ∧ (samplePartPool.run sampleCluster.serve partThenCompletion).left 0 = .done
        (.ok (some (completedSample 1)))
      ∧ getAfter partThenCompletion = .ok [.ok [7]]
      ∧ getAfter lateSecondPart = .ok [.ok [8, 9]]
      ∧ ¬ ∃ l ∈ samplePartPool.trace sampleCluster.serve lateSecondPart,
          sampleParts.Serves sampleCluster 0 sampleCompletion l (sampleSiteAt lateSecondPart) 5
            (completedSample 1) := by
  have hlate : getAfter lateSecondPart = .ok [.ok [8, 9]] := by decide +kernel
  refine ⟨start_sampleParts, Prog.eq_done_of_result? (by decide +kernel), by decide +kernel, hlate,
    ?_⟩
  rintro ⟨l, -, parts, blocks, -, -, hsize, hget, -⟩
  have hseven := hget 7 (by decide)
  have hitems : (parts.flatMap blocks).map (Except.ok : Bytes → Except S3Error Bytes)
    = [.ok [8, 9]] :=
    Except.ok.inj (hseven.symm.trans hlate)
  have hblocks : parts.flatMap blocks = [[8, 9]] := by
    refine map_injective_iff.mpr (fun a b h => Except.ok.inj h) (hitems.trans rfl)
  rw [hblocks] at hsize
  cases hsize

end FractalBits.Objects
