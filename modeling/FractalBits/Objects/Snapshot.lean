/-
  Objects.Snapshot — GETs while objects are replaced and their blobs are deleted.

  A block of the base generation that is missing is a hole, or the blob was replaced and deleted
  since the layout was read; `validate_base_miss` reads the key again to tell the two apart.
-/

import FractalBits.Objects.Content
import FractalBits.Objects.DeleteFrame

namespace FractalBits.Objects

open Lib Streaming Gateway List
open OvrMap (Uuid OvrRowMap)

/-! ## §1. Runs -/

/-- A layout that is stored has a version id that was never used, and a block is deleted only when
    no inode names its blob any more. -/
structure Disciplined (site : Nat → Site) : Prop where
  keyed : ∀ u, WellKeyed (site u)
  fresh : ∀ u (key : Bytes) (layout : Layout) guid, (site (u + 1)).inodes[key]? = some
    (.layout layout) →
    layout.blobGuid = .ok guid → (site u).inodes[key]? ≠ some (.layout layout) →
    ∀ v, v ≤ u → ∀ (k : Bytes) (old : Layout) guid', (site v).inodes[k]? = some (.layout old) →
      old.blobGuid = .ok guid' → old.versionId ≠ layout.versionId
  reclaimed : ∀ u k, (site u).stores k ≠ none → (site (u + 1)).stores k = none →
    ∀ key guid, (site u).Names key guid → guid.blobId ≠ k.blobId

/-- What a call may be answered at a moment: its reply, or that of a call that fails. The rows of a
    mapped blob may be any. -/
def Sees (cluster : Cluster) (site : Nat → Site) (u : Nat) (op : Op) (ans : Ans op) : Prop :=
  (∃ blobId mapEpoch, op = .loadRowMap blobId mapEpoch) ∨ ∃ d, ans = (cluster.serve d op (site u)).1

section

variable {cluster : Cluster} {site : Nat → Site} {u : Nat}

theorem Sees.inode {key : Bytes} {object : Layout}
    (h : Sees cluster site u (.getInode key) (.ok (.ok (.layout object)))) :
    (site u).inodes[key]? = some (.layout object) := by
  rcases h with ⟨blobId, mapEpoch, hop⟩ | ⟨d, hans⟩
  · cases hop
  · cases d with
    | answered =>
      have hresp := Except.ok.inj hans
      split at hresp
      · next value hvalue =>
        cases hresp
        exact hvalue
      · cases hresp
    | _ => cases hans

theorem Sees.block {guid : DataBlobGuid} {block : UInt32} {version : UInt64}
    {location : BlobLocation} {body : Option Bytes}
    (h : Sees cluster site u (.getBlob guid block version location) (.ok body)) :
    cluster.impl.getBlob (site u).stores guid block version location = body := by
  rcases h with ⟨blobId, mapEpoch, hop⟩ | ⟨d, hans⟩
  · cases hop
  · have hserve : (.ok body : Except S3Error (Option Bytes))
        = (if d = .answered
          then (.ok (cluster.impl.getBlob (site u).stores guid block version location), site u)
            else (.error .internalError, site u) : Except S3Error (Option Bytes) × Site).1 := hans
    split at hserve
    · exact (Except.ok.inj hserve).symm
    · cases hserve

theorem Sees.listed (hkeyed : WellKeyed (site u)) {maxKeys : Nat} {keyPrefix startAfter : Bytes}
    {ans : Except RpcError ListInodesResponse}
    (h : Sees cluster site u (.listInodes maxKeys keyPrefix startAfter) ans)
    {mpus : List (Bytes × Layout)} (hresult : listResult ans = .ok mpus) :
    ∀ part ∈ mpus, (site u).inodes[part.1]? = some (.layout part.2) := by
  rcases h with ⟨blobId, mapEpoch, hop⟩ | ⟨d, hans⟩
  · cases hop
  · intro part hpart
    cases d with
    | answered =>
      rw [show ans = .ok (.ok (cluster.listPage (site u).inodes maxKeys keyPrefix startAfter).1
        (cluster.listPage (site u).inodes maxKeys keyPrefix startAfter).2) from hans] at hresult
      obtain ⟨k, hk, htrim⟩ := mem_of_rawObjects (rawObjects_of_listResult hresult) hpart
      have hstored := (mem_of_listPage hk).1
      rw [htrim, trimEndMatches_of_getLast? (hkeyed k _ hstored)]
      exact hstored
    | _ =>
      rw [show ans = _ from hans] at hresult
      cases hresult

end

/-! ## §2. What a layout that is found again says -/

section

variable {site : Nat → Site} {key : Bytes} {t w : Nat}

theorem Disciplined.held (h : Disciplined site) {layout current : Layout} {guid : DataBlobGuid}
    (hread : (site t).inodes[key]? = some (.layout layout)) (hguid : layout.blobGuid = .ok guid)
    (hsame : sameCommittedReadSnapshot layout current = true) (hle : t ≤ w)
    (hagain : (site w).inodes[key]? = some (.layout current)) :
    ∀ u, t ≤ u → u ≤ w → (site u).Names key guid := by
  simp only [sameCommittedReadSnapshot, Bool.and_eq_true, decide_eq_true_eq] at hsame
  obtain ⟨⟨⟨⟨hversion, -⟩, -⟩, -⟩, hstate⟩ := hsame
  have hcurrent : current.blobGuid = .ok guid := by
    rw [← hguid]
    unfold Layout.blobGuid
    rw [hstate]
  -- backwards from `w`: a change in between would have brought a new version id
  have hback : ∀ d, d ≤ w - t → (site (w - d)).inodes[key]? = some (.layout current) := by
    intro d
    induction d with
    | zero => exact fun _ => hagain
    | succ d ih =>
      intro hd
      by_contra hchanged
      have hlast : w - d = w - (d + 1) + 1 := by omega
      have hthen := ih (by omega)
      rw [hlast] at hthen
      exact h.fresh _ key current guid hthen hcurrent hchanged t (by omega) key layout guid hread
        hguid hversion
  intro u htu huw
  have hu := hback (w - u) (by omega)
  rw [show w - (w - u) = u by omega] at hu
  exact ⟨current, hu, hcurrent⟩

theorem Disciplined.stored (h : Disciplined site) {guid : DataBlobGuid}
    (hnamed : ∀ u, t ≤ u → u ≤ w → (site u).Names key guid) {k : BlobKey}
    (hk : k.blobId = guid.blobId) (hstored : (site t).stores k ≠ none) {u : Nat} (htu : t ≤ u)
    (huw : u ≤ w) : (site u).stores k ≠ none := by
  obtain ⟨d, rfl⟩ := Nat.exists_eq_add_of_le htu
  induction d with
  | zero => exact hstored
  | succ d ih =>
    intro hgone
    have hbefore := ih (by omega) (by omega)
    exact h.reclaimed (t + d) k hbefore hgone key guid (hnamed (t + d) (by omega) (by omega))
      hk.symm

end

/-! ## §3. Blocks -/

/-- A block of a GET, asked for at `w` with the layout read at `t`. -/
def BlockRead (cluster : Cluster) (site : Nat → Site) (src : BlobSource) (t w : Nat)
    (block : UInt32) (contentLen : Nat) (item : Except S3Error Bytes) : Prop :=
  (∃ e, item = .error e)
    ∨ match blockFetchPlan src.rows block src.ceiling src.blockSize contentLen with
      | .zeros => item = .ok (zeros contentLen)
      | .stale => False
      | .fetch version _ missIsLoss =>
        (∃ body, cluster.impl.getBlob (site w).stores src.guid block version src.location = some
          body
          ∧ item = .ok (body.take contentLen))
        ∨ (missIsLoss = false ∧ cluster.impl.getBlob (site t).stores src.guid block version
          src.location = none
          ∧ cluster.impl.getBlob (site w).stores src.guid block version src.location = none
          ∧ item = .ok (zeros contentLen))

structure BlobSource.ReadAt (src : BlobSource) (site : Nat → Site) (t : Nat) : Prop where
  inode : (site t).inodes[src.key]? = some (.layout src.layout)
  guid : src.layout.blobGuid = .ok src.guid

section

variable {cluster : Cluster} {site : Nat → Site} {rounds t u u' : Nat} {src : BlobSource}

theorem observes_validateBaseMiss {key : Bytes} {layout : Layout}
    (h : Observes (Sees cluster site) u (validateBaseMiss rounds key layout).run u' (.ok ())) :
    ∃ w current, u ≤ w ∧ w ≤ u' ∧ (site w).inodes[key]? = some (.layout current)
      ∧ sameCommittedReadSnapshot layout current = true := by
  unfold validateBaseMiss at h
  obtain ⟨v, result, hread, h⟩ := h.lift_bind
  rcases observes_getRawObject hread with ⟨e, rfl⟩ | ⟨w, current, rfl, huw, hwv, hsees⟩
  · -- no error of the read ends well
    cases e <;> exact nomatch h.done_eq.1
  · dsimp only at h
    split at h
    · next hsame => exact ⟨w, current, huw, hwv.trans h.le, hsees.inode, hsame⟩
    · exact nomatch h.done_eq.1

/-- ★ **One block of a GET.** -/
theorem observes_readBlock (hrun : Disciplined site) (hsrc : src.ReadAt site t) (htu : t ≤ u)
    {block : UInt32} {contentLen : Nat} {item : Except S3Error Bytes}
    (h : Observes (Sees cluster site) u (readBlock rounds src block contentLen).run u' item) :
    ∃ w, u ≤ w ∧ w ≤ u' ∧ BlockRead cluster site src t w block contentLen item := by
  unfold readBlock at h
  unfold BlockRead
  cases hplan : blockFetchPlan src.rows block src.ceiling src.blockSize contentLen with
  | zeros =>
    rw [hplan] at h
    obtain ⟨rfl, hle⟩ := h.done_eq
    exact ⟨u, le_rfl, hle, .inr rfl⟩
  | stale =>
    rw [hplan] at h
    obtain ⟨rfl, hle⟩ := h.done_eq
    exact ⟨u, le_rfl, hle, .inl ⟨_, rfl⟩⟩
  | fetch version readLen missIsLoss =>
    rw [hplan] at h
    rcases h.run_bind with ⟨e, rfl, -⟩ | ⟨v, body, hblob, h⟩
    · exact ⟨u, le_rfl, h.le, .inl ⟨e, rfl⟩⟩
    · obtain ⟨w, huw, hwv, hsees⟩ := Observes.perform hblob
      have hbody := hsees.block
      refine ⟨w, huw, hwv.trans h.le, ?_⟩
      cases body with
      | some body =>
        obtain ⟨rfl, -⟩ := h.done_eq
        refine .inr (.inl ⟨body, hbody, ?_⟩)
        split
        · rfl
        · next hshort => rw [take_of_length_le (Nat.le_of_not_lt hshort)]
      | none =>
        cases missIsLoss with
        | true => exact .inl ⟨_, h.done_eq.1⟩
        | false =>
          dsimp only at h
          rw [if_neg Bool.false_ne_true] at h
          rcases h.run_bind with ⟨e, rfl, -⟩ | ⟨v', _, hvalid, h⟩
          · exact .inl ⟨e, rfl⟩
          · -- the layout is still there, so the blob was named since it was read
            obtain ⟨w', current, hvw', hw', hagain, hsame⟩ := observes_validateBaseMiss hvalid
            have hnamed := hrun.held hsrc.inode hsrc.guid hsame (by omega) hagain
            refine .inr (.inr ⟨rfl, ?_, hbody, h.done_eq.1⟩)
            by_contra hstored
            exact hrun.stored hnamed (getKey_blobId ..) hstored (by omega) (by omega) hbody

end

/-! ## §4. Blobs -/

def BlockOf (cluster : Cluster) (site : Nat → Site) (src : BlobSource) (t t' i contentLen : Nat)
    (item : Except S3Error Bytes) : Prop :=
  ∃ w, t ≤ w ∧ w ≤ t' ∧ BlockRead cluster site src t w (UInt32.ofNat i) contentLen item

def FullRead (cluster : Cluster) (site : Nat → Site) (src : BlobSource) (t t' : Nat)
    (items : Body) :
    Prop :=
  items.length = src.numBlocks
    ∧ ∀ (i : Nat) item, items[i]? = some item → BlockOf cluster site src t t' i (src.contentLen i)
      item

def cutRange (start stop : Nat) : Nat → Body → Body
  | _, [] => []
  | chunkOffset, .error e :: chunks => .error e :: cutRange start stop chunkOffset chunks
  | chunkOffset, .ok chunk :: chunks =>
    if chunkOffset ≥ stop then []
    else if chunkOffset + chunk.length ≤ start then cutRange start stop (chunkOffset + chunk.length)
      chunks
    else .ok (sliceChunk start stop chunkOffset chunk) :: cutRange start stop
      (chunkOffset + chunk.length) chunks

def RangeRead (cluster : Cluster) (site : Nat → Site) (src : BlobSource) (start stop t t' : Nat)
    (items : Body) : Prop :=
  ∃ chunks : Body,
    (∀ j chunk, chunks[j]? = some chunk →
      BlockOf cluster site src t t' (start / src.blockSize + j)
        (src.contentLen (start / src.blockSize + j)) chunk)
    ∧ items = cutRange start stop (src.blockSize * (start / src.blockSize)) chunks

section

variable {cluster : Cluster} {site : Nat → Site} {rounds t u u' : Nat} {src : BlobSource}

theorem BlockOf.mono {i contentLen t' t'' : Nat} {item : Except S3Error Bytes}
    (h : BlockOf cluster site src t t' i contentLen item) (hle : t' ≤ t'') :
    BlockOf cluster site src t t'' i contentLen item := by
  obtain ⟨w, htw, hw, hread⟩ := h
  exact ⟨w, htw, hw.trans hle, hread⟩

variable (hrun : Disciplined site)

include hrun

variable (hsrc : src.ReadAt site t)

include hsrc

theorem observes_blockOf (htu : t ≤ u) {i contentLen : Nat}
    {item : Except S3Error Bytes}
    (h : Observes (Sees cluster site) u (readBlock rounds src (UInt32.ofNat i) contentLen).run u'
    item) :
    BlockOf cluster site src t u' i contentLen item := by
  obtain ⟨w, huw, hwu', hread⟩ := observes_readBlock hrun hsrc htu h
  exact ⟨w, htu.trans huw, hwu', hread⟩

variable {items : Body}

theorem observes_readBlocks (htu : t ≤ u) {is : List Nat}
    (h : Observes (Sees cluster site) u (readBlocks rounds src is) u' items) :
    items.length = is.length ∧ ∀ (j : Nat) i item, is[j]? = some i → items[j]? = some item →
      BlockOf cluster site src t u' i (src.contentLen i) item := by
  induction is generalizing u u' items with
  | nil =>
    obtain ⟨rfl, -⟩ := h.done_eq
    exact ⟨rfl, fun j i item hi => (by cases hi)⟩
  | cons i is ih =>
    unfold readBlocks at h
    obtain ⟨v, chunk, hchunk, h⟩ := h.bind
    obtain ⟨v', rest, hrest, h⟩ := h.bind
    obtain ⟨rfl, hle⟩ := h.done_eq
    obtain ⟨hlength, hitems⟩ := ih (htu.trans hchunk.le) hrest
    have hfirst := (observes_blockOf hrun hsrc htu hchunk).mono (hrest.le.trans hle)
    refine ⟨by rw [length_cons, length_cons, hlength], fun j i' item hi hitem => ?_⟩
    cases j with
    | zero =>
      cases hi
      cases hitem
      exact hfirst
    | succ j => exact (hitems j i' item hi hitem).mono hle

/-- ★ **A blob as a whole.** -/
theorem observes_getFullBlobStream (htu : t ≤ u)
    (h : Observes (Sees cluster site) u (getFullBlobStream rounds src).run u' (.ok items)) :
    FullRead cluster site src t u' items := by
  unfold getFullBlobStream at h
  by_cases hzero : src.numBlocks = 0
  · rw [if_pos hzero] at h
    cases h.done_eq.1
    exact ⟨hzero.symm, fun i item hi => (by cases hi)⟩
  · rw [if_neg hzero] at h
    have hlen : (if src.numBlocks = 1 then src.size else src.blockSize) = src.contentLen 0 := by
      unfold BlobSource.contentLen
      by_cases hone : src.numBlocks = 1
      · rw [if_pos hone, if_pos (by omega), Nat.mul_zero, Nat.sub_zero]
      · rw [if_neg hone, if_neg (by omega)]
    dsimp only at h
    rw [hlen] at h
    rcases h.run_bind with ⟨e, he, -⟩ | ⟨v, first, hread, h⟩
    · cases he
    · have hfirst := observes_blockOf (i := 0) hrun hsrc htu hread
      by_cases hone : src.numBlocks = 1
      · rw [if_pos hone] at h
        cases h.done_eq.1
        refine ⟨hone.symm, fun i item hi => ?_⟩
        cases i with
        | zero =>
          cases hi
          exact hfirst.mono h.le
        | succ i => cases hi
      · rw [if_neg hone] at h
        obtain ⟨v', rest, hrest, h⟩ := h.lift_bind
        cases h.done_eq.1
        obtain ⟨hlength, hitems⟩ := observes_readBlocks hrun hsrc (htu.trans hread.le) hrest
        rw [length_range'] at hlength
        refine ⟨by rw [length_cons, hlength]; omega, fun i item hi => ?_⟩
        cases i with
        | zero =>
          cases hi
          exact hfirst.mono (hrest.le.trans h.le)
        | succ i =>
          have hlt : i < src.numBlocks - 1 := by
            rw [← hlength]
            exact Nat.lt_of_succ_lt_succ (List.getElem?_eq_some_iff.mp hi).1
          have hnumber : (List.range' 1 (src.numBlocks - 1))[i]? = some (i + 1) := by
            rw [List.getElem?_range' hlt, Nat.one_mul, Nat.add_comm]
          exact (hitems i (i + 1) item hnumber hi).mono h.le

theorem observes_scanBlocks (htu : t ≤ u)
    {start stop chunkOffset : Nat} {is : List Nat}
    (h : Observes (Sees cluster site) u (scanBlocks rounds src start stop chunkOffset is) u'
    items) :
    ∃ chunks : Body, chunks.length ≤ is.length
      ∧ (∀ (j : Nat) i chunk, is[j]? = some i → chunks[j]? = some chunk →
        BlockOf cluster site src t u' i (src.contentLen i) chunk)
      ∧ items = cutRange start stop chunkOffset chunks := by
  induction is generalizing u u' chunkOffset items with
  | nil =>
    obtain ⟨rfl, -⟩ := h.done_eq
    exact ⟨[], Nat.le_refl 0, fun j i chunk hi => (by cases hi), rfl⟩
  | cons i is ih =>
    unfold scanBlocks at h
    obtain ⟨v, chunk, hchunk, h⟩ := h.bind
    have hread := observes_blockOf hrun hsrc htu hchunk
    have hcons : ∀ {chunks : Body} {v' : Nat}, v ≤ v' → v' ≤ u' →
        (∀ (j : Nat) i chunk, is[j]? = some i → chunks[j]? = some chunk →
          BlockOf cluster site src t v' i (src.contentLen i) chunk) →
        ∀ (j : Nat) i' chunk', (i :: is)[j]? = some i' → (chunk :: chunks)[j]? = some chunk' →
          BlockOf cluster site src t u' i' (src.contentLen i') chunk' := by
      intro chunks v' hv hv' hchunks j i' chunk' hi hchunk'
      cases j with
      | zero =>
        cases hi
        cases hchunk'
        exact hread.mono (hv.trans hv')
      | succ j => exact (hchunks j i' chunk' hi hchunk').mono hv'
    have htv : t ≤ v := htu.trans hchunk.le
    cases chunk with
    | error e =>
      obtain ⟨v', rest, hrest, h⟩ := h.bind
      obtain ⟨rfl, hle⟩ := h.done_eq
      obtain ⟨chunks, hlength, hchunks, rfl⟩ := ih htv hrest
      exact ⟨.error e :: chunks, Nat.succ_le_succ hlength, hcons hrest.le hle hchunks, rfl⟩
    | ok chunk =>
      dsimp only at h
      split at h
      · next hstop =>
        -- the range has ended
        obtain ⟨rfl, hle⟩ := h.done_eq
        refine ⟨[.ok chunk], by simp, hcons hle le_rfl (fun j i chunk _ hi => (by cases hi)), ?_⟩
        rw [cutRange, if_pos hstop]
      · next hstop =>
        obtain ⟨v', rest, hrest, h⟩ := h.bind
        obtain ⟨rfl, hle⟩ := h.done_eq
        obtain ⟨chunks, hlength, hchunks, rfl⟩ := ih htv hrest
        refine ⟨.ok chunk :: chunks, Nat.succ_le_succ hlength, hcons hrest.le hle hchunks, ?_⟩
        rw [cutRange, if_neg hstop]

/-- ★ **A range of a blob.** -/
theorem observes_getRangeBlobStream (htu : t ≤ u) {start stop : Nat}
    (h : Observes (Sees cluster site) u (getRangeBlobStream rounds src start stop) u' items) :
    RangeRead cluster site src start stop t u' items := by
  obtain ⟨chunks, hlength, hchunks, hitems⟩ := observes_scanBlocks hrun hsrc htu h
  refine ⟨chunks, fun j chunk hchunk => hchunks j _ chunk ?_ hchunk, hitems⟩
  have hlt : j < chunks.length := (List.getElem?_eq_some_iff.mp hchunk).1
  rw [length_range'] at hlength
  rw [List.getElem?_range' (by omega), Nat.one_mul]

end

/-! ## §5. Objects -/

def BlobRead (cluster : Cluster) (site : Nat → Site) (src : BlobSource) (range : Option (Nat × Nat))
    (t t' : Nat) (items : Body) : Prop :=
  match range with
  | none => FullRead cluster site src t t' items
  | some (start, stop) => RangeRead cluster site src start stop t t' items

def partRanges (range : Option (Nat × Nat)) (parts : List (Bytes × Layout)) :
    Except Fault (List ((Bytes × Layout) × Option (Nat × Nat))) :=
  match range with
  | none => .ok (parts.map fun part => (part, none))
  | some (start, stop) => (intersectParts start stop 0 parts).map fun parts => parts.map fun part =>
    (part.1, some part.2)

def PartRead (cluster : Cluster) (site : Nat → Site) (t t' : Nat)
    (part : (Bytes × Layout) × Option (Nat × Nat)) (items : Body) : Prop :=
  (∃ e, items = [.error e]) ∨ ∃ src, blobSource part.1.1 part.1.2 none = .ok src
    ∧ BlobRead cluster site src part.2 t t' items

/-- The body of a GET of the object that was read at `t`: its blob, or the parts listed later. -/
def ObjectRead (cluster : Cluster) (site : Nat → Site) (key : Bytes) (object : Layout)
    (range : Option (Nat × Nat)) (t t' : Nat) (items : Body) : Prop :=
  match object.state with
  | .normal _ _ =>
    ∃ rows src, blobSource key object rows = .ok src ∧ BlobRead cluster site src range t t' items
  | .mpu (.completed _) => ∃ t₁ parts ranges pieces, t ≤ t₁ ∧ t₁ ≤ t'
      ∧ (∀ part ∈ parts, (site t₁).inodes[part.1]? = some (.layout part.2))
      ∧ partRanges range parts = .ok ranges ∧ items = pieces.flatten
      ∧ List.Forall₂ (PartRead cluster site t₁ t') ranges pieces
  | _ => False

section

variable {cluster : Cluster} {site : Nat → Site} {rounds t t₀ t' u u' : Nat}

theorem blobSource_readAt {key : Bytes} {layout : Layout} {rows : Option OvrRowMap}
    {src : BlobSource} (h : blobSource key layout rows = .ok src)
    (hread : (site t).inodes[key]? = some (.layout layout)) :
    src.ReadAt site t := by
  obtain ⟨hkey, hlayout, hguid⟩ := blobSource_fields h
  refine ⟨?_, ?_⟩
  · rw [hkey, hlayout]
    exact hread
  · rw [hlayout]
    exact hguid

theorem observes_orFail {α β ε : Type} {toS3Error : ε → S3Error} {r : Except ε α}
    {f : α → Handler β} {b : β} {R : Nat → (op : Op) → Ans op → Prop}
    (h : Observes R u (orFail toS3Error r >>= f).run u' (.ok b)) :
    ∃ a, r = .ok a ∧ Observes R u (f a).run u' (.ok b) := by
  cases r with
  | error e => exact nomatch h.done_eq.1
  | ok a => exact ⟨a, rfl, h⟩

theorem BlobRead.mono {src : BlobSource} {range : Option (Nat × Nat)} {items : Body}
    (h : BlobRead cluster site src range t u items) (hle : u ≤ u') :
    BlobRead cluster site src range t u' items := by
  cases range with
  | none => exact ⟨h.1, fun i item hi => (h.2 i item hi).mono hle⟩
  | some bounds =>
    obtain ⟨chunks, hchunks, hitems⟩ := h
    exact ⟨chunks, fun j chunk hj => (hchunks j chunk hj).mono hle, hitems⟩

theorem observes_partsStream {Part : Type} {stream : Part → Handler Body} {parts : List Part}
    {Q : Part → Body → Prop}
    (hstream : ∀ part ∈ parts, ∀ v v' r, t ≤ v → v' ≤ t' → Observes (Sees cluster site) v
    (stream part).run v' r →
      Q part (partItems r))
    (htu : t ≤ u) (hut : u' ≤ t') {items : Body}
    (h : Observes (Sees cluster site) u (partsStream stream parts) u' items) :
    ∃ pieces, items = pieces.flatten ∧ List.Forall₂ Q parts pieces := by
  induction parts generalizing u u' items with
  | nil =>
    obtain ⟨rfl, -⟩ := h.done_eq
    exact ⟨[], rfl, .nil⟩
  | cons part parts ih =>
    unfold partsStream at h
    obtain ⟨v, first, hfirst, h⟩ := h.bind
    obtain ⟨v', rest, hrest, h⟩ := h.bind
    obtain ⟨rfl, hle⟩ := h.done_eq
    obtain ⟨pieces, rfl, hpieces⟩ := ih (fun q hq => hstream q (mem_cons_of_mem _ hq))
      (htu.trans hfirst.le) (hle.trans hut) hrest
    have hpart := hstream part mem_cons_self u v first htu
      (hrest.le.trans (hle.trans hut)) hfirst
    refine ⟨partItems first :: pieces, ?_, .cons hpart hpieces⟩
    rw [flatten_cons]
    cases first with
    | ok | error => rfl

variable (hrun : Disciplined site)

include hrun

theorem partRead_of_full {part : Bytes × Layout}
    (hpart : (site t).inodes[part.1]? = some (.layout part.2)) (htu : t ≤ u) (hut : u' ≤ t')
    {r : Except S3Error Body} (h : Observes (Sees cluster site) u (fullPart rounds part).run u' r) :
    PartRead cluster site t t' (part, none) (partItems r) := by
  cases r with
  | error e => exact .inl ⟨e, rfl⟩
  | ok items =>
    obtain ⟨src, hsrc, h⟩ := observes_orFail h
    have hread : BlobRead cluster site src none t u' items :=
      observes_getFullBlobStream hrun (blobSource_readAt hsrc hpart) htu h
    exact .inr ⟨src, hsrc, hread.mono hut⟩

theorem partRead_of_range {part : (Bytes × Layout) × Nat × Nat}
    (hpart : (site t).inodes[part.1.1]? = some (.layout part.1.2)) (htu : t ≤ u) (hut : u' ≤ t')
    {r : Except S3Error Body} (h : Observes (Sees cluster site) u (rangePart rounds part).run u'
    r) :
    PartRead cluster site t t' (part.1, some part.2) (partItems r) := by
  cases r with
  | error e => exact .inl ⟨e, rfl⟩
  | ok items =>
    obtain ⟨src, hsrc, h⟩ := observes_orFail h
    obtain ⟨items', hitems, h⟩ := h.run_lift
    cases hitems
    have hread : BlobRead cluster site src (some part.2) t u' items :=
      observes_getRangeBlobStream hrun (blobSource_readAt hsrc hpart) htu h
    exact .inr ⟨src, hsrc, hread.mono hut⟩

theorem observes_parts {maxParts : Nat} {keyPrefix startAfter : Bytes}
    {parts : List (Bytes × Layout)}
    (h : Observes (Sees cluster site) u (listRawObjects rounds maxParts keyPrefix startAfter).run u'
    (.ok parts)) :
    ∃ w, u ≤ w ∧ w ≤ u' ∧ ∀ part ∈ parts, (site w).inodes[part.1]? = some (.layout part.2) := by
  obtain ⟨w, ans, huw, hwu, hsees, hresult⟩ := observes_listRawObjects h
  exact ⟨w, huw, hwu, hsees.listed (hrun.keyed w) hresult.symm⟩

variable {key : Bytes} {object : Layout} {items : Body}

theorem observes_getObjectContent (hread : (site t).inodes[key]? = some (.layout object))
    (htu : t ≤ u) {size : Nat}
    (h : Observes (Sees cluster site) u (getObjectContent rounds key object).run u'
    (.ok (items, size))) :
    ObjectRead cluster site key object none t u' items := by
  unfold getObjectContent at h
  obtain ⟨v, client, hclient, h⟩ := h.lift_bind
  have htv : t ≤ v := htu.trans hclient.le
  cases client with
  | false => exact nomatch h.done_eq.1
  | true =>
    rw [if_neg (by decide)] at h
    unfold ObjectRead
    cases hstate : object.state with
    | normal guid core =>
      rw [hstate] at h
      rcases h.run_bind with ⟨e, he, -⟩ | ⟨v₁, rows, hrows, h⟩
      · cases he
      · obtain ⟨src, hsrc, h⟩ := observes_orFail h
        rcases h.run_bind with ⟨e, he, -⟩ | ⟨v₂, items', hitems, h⟩
        · cases he
        · cases h.done_eq.1
          have hblob : BlobRead cluster site src none t v₂ items :=
            observes_getFullBlobStream hrun (blobSource_readAt hsrc hread) (htv.trans hrows.le)
              hitems
          exact ⟨rows, src, hsrc, hblob.mono h.le⟩
    | mpu state =>
      rw [hstate] at h
      cases state with
      | uploading => exact nomatch h.done_eq.1
      | completed core =>
        rcases h.run_bind with ⟨e, he, -⟩ | ⟨v₁, parts, hparts, h⟩
        · cases he
        · obtain ⟨w, hvw, hwv, hstored⟩ := observes_parts hrun hparts
          obtain ⟨v₂, items', hitems, h⟩ := h.lift_bind
          cases h.done_eq.1
          obtain ⟨pieces, hflatten, hpieces⟩ := observes_partsStream (t := w)
            (Q := fun part => PartRead cluster site w u' (part, none))
            (fun part hpart x x' r hx hx' hr => partRead_of_full hrun (hstored part hpart) hx hx'
              hr)
            hwv h.le hitems
          exact ⟨w, parts, parts.map fun part => (part, none), pieces, htv.trans hvw,
            hwv.trans (hitems.le.trans h.le), hstored, rfl, hflatten,
            forall₂_map_left_iff.mpr hpieces⟩
    | _ =>
      rw [hstate] at h
      exact nomatch h.done_eq.1

theorem observes_getObjectRangeContent (hread : (site t).inodes[key]? = some (.layout object))
    (htu : t ≤ u) {start stop : Nat}
    (h : Observes (Sees cluster site) u (getObjectRangeContent rounds key object start stop).run u'
    (.ok items)) :
    ObjectRead cluster site key object (some (start, stop)) t u' items := by
  unfold getObjectRangeContent at h
  obtain ⟨v, client, hclient, h⟩ := h.lift_bind
  have htv : t ≤ v := htu.trans hclient.le
  cases client with
  | false => exact nomatch h.done_eq.1
  | true =>
    rw [if_neg (by decide)] at h
    unfold ObjectRead
    cases hstate : object.state with
    | normal guid core =>
      rw [hstate] at h
      rcases h.run_bind with ⟨e, he, -⟩ | ⟨v₁, rows, hrows, h⟩
      · cases he
      · obtain ⟨src, hsrc, h⟩ := observes_orFail h
        obtain ⟨items', hitems, h⟩ := h.run_lift
        cases hitems
        exact ⟨rows, src, hsrc, observes_getRangeBlobStream hrun (blobSource_readAt hsrc hread)
          (htv.trans hrows.le) h⟩
    | mpu state =>
      rw [hstate] at h
      cases state with
      | uploading => exact nomatch h.done_eq.1
      | completed core =>
        rcases h.run_bind with ⟨e, he, -⟩ | ⟨v₁, parts, hparts, h⟩
        · cases he
        · obtain ⟨w, hvw, hwv, hstored⟩ := observes_parts hrun hparts
          obtain ⟨selected, hselected, h⟩ := observes_orFail h
          obtain ⟨items', hitems, h⟩ := h.run_lift
          cases hitems
          obtain ⟨pieces, hflatten, hpieces⟩ := observes_partsStream (t := w)
            (Q := fun part => PartRead cluster site w u' (part.1, some part.2))
            (fun part hpart x x' r hx hx' hr => partRead_of_range hrun
              (hstored part.1 (mem_of_intersectParts hselected part hpart)) hx hx' hr)
            hwv le_rfl h
          refine ⟨w, parts, selected.map fun part => (part.1, some part.2), pieces, htv.trans hvw,
            hwv.trans h.le, hstored, ?_, hflatten, forall₂_map_left_iff.mpr hpieces⟩
          show (intersectParts start stop 0 parts).map _ = _
          rw [hselected]
          rfl
    | _ =>
      rw [hstate] at h
      exact nomatch h.done_eq.1

omit hrun in
/-- ★ **A GET never fabricates zeros.** Under writers that make a layout unreachable before they
    delete a block of its blob, and never use a version id twice: every block of its answer is the
    bytes stored at the version its own layout and rows name, zeros for a hole or for a base
    generation not stored when the layout was read, or an error. -/
theorem get_never_fabricates (hrun : Disciplined site) {parseRange : RangeParser}
    (h : Observes (Sees cluster site) t (getObject rounds key parseRange).run t' (.ok items)) :
    ∃ t₀ object size range, t ≤ t₀ ∧ t₀ ≤ t' ∧ (site t₀).inodes[key]? = some (.layout object)
      ∧ object.size = .ok size ∧ parseRange size = .ok range
      ∧ ObjectRead cluster site key object range t₀ t' items := by
  unfold getObject at h
  rcases h.run_bind with ⟨e, he, -⟩ | ⟨u, object, hobject, h⟩
  · cases he
  · rcases observes_getRawObject hobject with ⟨e, he⟩ | ⟨t₀, object', hok, htt₀, ht₀u, hsees⟩
    · cases he
    · cases hok
      obtain ⟨size, hsize, h⟩ := observes_orFail h
      obtain ⟨range, hrange, h⟩ := observes_orFail h
      refine ⟨t₀, object, size, range, htt₀, ht₀u.trans h.le, hsees.inode, hsize, hrange, ?_⟩
      cases range with
      | none =>
        rcases h.run_bind with ⟨e, he, -⟩ | ⟨v, content, hcontent, h⟩
        · cases he
        · cases h.done_eq.1
          exact observes_getObjectContent hrun hsees.inode ht₀u (hcontent.mono le_rfl h.le)
      | some bounds => exact observes_getObjectRangeContent hrun hsees.inode ht₀u h

end

def deletedRun : Nat → Site
  | 0 =>
    ⟨(∅ : Namespace).insert (ascii "/k") (.layout (blockUpload .allInBssSingleAz 5 [7]).stored),
      writeAll (fun _ => none) (blockUpload .allInBssSingleAz 5 [7]).writes, []⟩
  | 1 => ⟨∅, writeAll (fun _ => none) (blockUpload .allInBssSingleAz 5 [7]).writes, []⟩
  | _ => ⟨∅, fun _ => none, []⟩

theorem inodes_deletedRun {u : Nat} {k : Bytes} {value : Inode}
    (h : (deletedRun u).inodes[k]? = some value) :
    u = 0 ∧ ascii "/k" = k := by
  have hempty : ∀ {value : Inode}, (∅ : Namespace)[k]? = some value → False := by
    intro value hvalue
    rw [Std.ExtTreeMap.getElem?_empty] at hvalue
    cases hvalue
  match u, h with
  | 0, h =>
    refine ⟨rfl, ?_⟩
    have hvalue :
      ((∅ : Namespace).insert (ascii "/k")
        (.layout (blockUpload .allInBssSingleAz 5 [7]).stored))[k]? = some value := h
    rw [Std.ExtTreeMap.getElem?_insert] at hvalue
    split at hvalue
    · next hcompare => exact Std.LawfulEqCmp.eq_of_compare hcompare
    · exact (hempty hvalue).elim
  | 1, h => exact (hempty h).elim
  | u + 2, h => exact (hempty h).elim

theorem disciplined_deletedRun : Disciplined deletedRun where
  keyed := by
    intro u k value hvalue
    rw [← (inodes_deletedRun hvalue).2]
    decide
  fresh := by
    intro u key layout guid hlater
    cases (inodes_deletedRun hlater).1
  reclaimed := by
    rintro u k hstored hgone key guid ⟨object, hobject, -⟩ hk
    -- the object is there at moment 0 only, and no block goes then
    obtain ⟨rfl, -⟩ := inodes_deletedRun hobject
    exact hstored hgone

/-- The layout is read before the object is deleted, its block when the key is gone. -/
theorem get_never_fabricates_at_sample :
    ∃ t₀ object size range, 0 ≤ t₀ ∧ t₀ ≤ 1 ∧ (deletedRun t₀).inodes[ascii "/k"]? = some
      (.layout object)
      ∧ object.size = .ok size ∧ (fun _ => .ok none : RangeParser) size = .ok range
      ∧ ObjectRead sampleCluster deletedRun (ascii "/k") object range t₀ 1 [.ok [7]] := by
  let serve : (op : Op) → Nat → Ans op × Nat := fun op t =>
    ((sampleCluster.serve .answered op (deletedRun t)).1, max t 1)
  let get := (getObject 0 (ascii "/k") fun _ => .ok none).run
  have hobs := observes_exec_clock (R := Sees sampleCluster deletedRun) serve
    (fun _ t => Nat.le_max_left t 1) (fun _ _ => .inr ⟨.answered, rfl⟩) get 0
  have hanswer : get.exec serve 0 = (.ok [.ok [7]], 1) := by decide +kernel
  rw [hanswer] at hobs
  exact get_never_fabricates disciplined_deletedRun hobs

end FractalBits.Objects
