/-
  OvrMap.Load — loading a row snapshot page by page, and the cache that serves it for a whole epoch.

  Mirrors `load_row_map` of `get_object.rs` and `parse_list_inodes_raw` of `file_ops`. The listing
  runs against a store that other flushes keep changing.
-/

import FractalBits.Lib.PagedScan
import FractalBits.OvrMap.Flush
import FractalBits.OvrMap.Keys

namespace FractalBits.OvrMap

open Lib List

/-! ## §1. The loader -/

/-- The errors the loader answers with; `rpc` stands for a failed call. -/
inductive LoadError
  | noSuchBucket
  | internalError
  | rpc
  deriving DecidableEq, Repr

inductive ListInodesResponse
  | ok (inodes : List (Bytes × Bytes)) (hasMore : Bool)
  | errNoSuchRootBlob
  | errOther

inductive NssError
  | noSuchRootBlob
  | internal
  deriving DecidableEq, Repr

def trimKeys (inodes : List (Bytes × Bytes)) : List (Bytes × Bytes) :=
  inodes.map fun (key, inode) => (trimEndMatches 0 key, inode)

def parseListInodesRaw : ListInodesResponse → Except NssError (List (Bytes × Bytes) × Bool)
  | .ok inodes hasMore => .ok (trimKeys inodes, hasMore)
  | .errNoSuchRootBlob => .error .noSuchRootBlob
  | .errOther => .error .internal

/-- One listed entry: a row, an abort record, or a malformed key or value. -/
def loadEntry (map : OvrRowMap) (key value : Bytes) : Except LoadError OvrRowMap :=
  match parseOvrRowBlock key with
  | some block =>
    match OvrRow.decode value with
    | none => .error .internalError
    | some row => .ok (map.insert block row)
  | none =>
    match parseOvrAbortRange key with
    | some (lo, hi) =>
      if value ≠ ovrAbortValue then .error .internalError
      else .ok (map.addAbortedRange lo hi)
    | none => .error .internalError

def loadEntries (map : OvrRowMap) : List (Bytes × Bytes) → Except LoadError OvrRowMap
  | [] => .ok map
  | (key, value) :: rest =>
    match loadEntry map key value with
    | .error e => .error e
    | .ok map => loadEntries map rest

/-- The paging loop. `list call startAfter` is the answer to the `call`-th listing; `none` means
    that the fuel ran out before the loop ended. -/
def loadPages (list : Nat → Bytes → Except LoadError ListInodesResponse) :
    Nat → Nat → Bytes → OvrRowMap → Option (Except LoadError OvrRowMap)
  | 0, _, _, _ => none
  | fuel + 1, call, startAfter, map =>
    match list call startAfter with
    | .error e => some (.error e)
    | .ok response =>
      match parseListInodesRaw response with
      | .error .noSuchRootBlob => some (.error .noSuchBucket)
      | .error .internal => some (.error .internalError)
      | .ok (page, hasMore) =>
        match loadEntries map page with
        | .error e => some (.error e)
        | .ok map =>
          match page.getLast? with
          | none => some (.ok map)
          | some (lastKey, _) =>
            if !hasMore then some (.ok map)
            else loadPages list fuel (call + 1) lastKey map

abbrev RowMapCache := Uuid × UInt64 → Option OvrRowMap

/-- `load_row_map` for a layout that carries `mapEpoch`: the answer and the cache after it. -/
def loadRowMap (cache : RowMapCache) (blobId : Uuid) (mapEpoch : UInt64)
    (list : Nat → Bytes → Except LoadError ListInodesResponse) (fuel : Nat) :
    Option (Except LoadError (Option OvrRowMap) × RowMapCache) :=
  if mapEpoch = 0 then some (.ok none, cache)
  else
    match cache (blobId, mapEpoch) with
    | some map => some (.ok (some map), cache)
    | none =>
      match loadPages list fuel 0 [] (OvrRowMap.new mapEpoch) with
      | none => none
      | some (.error e) => some (.error e, cache)
      | some (.ok map) =>
        some (.ok (some map), fun key =>
          if key = (blobId, mapEpoch) then some map else cache key)

/-! ## §2. The store that is listed -/

def Flush.Stored (blobId : Uuid) (s : Flush) (key value : Bytes) : Prop :=
  (∃ block row, s.rows block = some row ∧ key = ovrRowKey blobId block ∧ value = row.encode) ∨
  (∃ r ∈ s.abortRanges, key = ovrAbortKey blobId r.1 r.2 ∧ value = ovrAbortValue)

/-- What listings of the blob's prefix guarantee along the run `r`, for calls made no earlier than
    `start`. -/
def NssListing (r : flushSystem.Run) (blobId : Uuid) (start : Nat)
    (list : Nat → Bytes → Except LoadError ListInodesResponse) : Prop :=
  ∀ call startAfter inodes hasMore, list call startAfter = .ok (.ok inodes hasMore) →
    ∃ moment : Bytes → Nat, (∀ k, start ≤ moment k) ∧
      Page.Lists (· < ·) (fun t k v => (r.state t).Stored blobId k v) moment startAfter
        ⟨trimKeys inodes, hasMore⟩

/-- The caches that calls of `load_row_map` along the run produce; entries may be dropped at any
    time. -/
inductive CacheOf (r : flushSystem.Run) (blobId : Uuid) : RowMapCache → Prop
  | empty : CacheOf r blobId fun _ => none
  | load (cache cache' : RowMapCache) (layoutRead fuel : Nat)
      (list : Nat → Bytes → Except LoadError ListInodesResponse)
      (answer : Except LoadError (Option OvrRowMap))
      (hcache : CacheOf r blobId cache) (hnss : NssListing r blobId layoutRead list)
      (hload : loadRowMap cache blobId (r.state layoutRead).mapEpoch list fuel
        = some (answer, cache')) :
      CacheOf r blobId cache'
  | evict (cache cache' : RowMapCache) (hcache : CacheOf r blobId cache)
      (hsub : ∀ key map, cache' key = some map → cache key = some map) :
      CacheOf r blobId cache'

/-! ## §3. How the protocol evolves -/

/-- Nothing durable is undone, and what was committed in between is above the old ceiling. -/
structure Flush.Extends (s s' : Flush) : Prop where
  attempts : ∀ a ∈ s.attempts, a ∈ s'.attempts
  commits : ∀ c ∈ s.commits, c ∈ s'.commits
  newer : ∀ c ∈ s'.commits, c ∈ s.commits ∨ s.ceiling < c.version
  ceiling : s.ceiling ≤ s'.ceiling
  abortRanges : ∀ range ∈ s.abortRanges, range ∈ s'.abortRanges

theorem Flush.Extends.refl (s : Flush) : s.Extends s :=
  ⟨fun _ h => h, fun _ h => h, fun _ h => .inl h, UInt64.le_refl _, fun _ h => h⟩

theorem Flush.Extends.trans {s₁ s₂ s₃ : Flush} (h : s₁.Extends s₂) (h' : s₂.Extends s₃) :
    s₁.Extends s₃ where
  attempts := fun a ha => h'.attempts a (h.attempts a ha)
  commits := fun c hc => h'.commits c (h.commits c hc)
  newer := by
    intro c hc
    have hle := h.ceiling
    rcases h'.newer c hc with hc | hlt
    · exact h.newer c hc
    · exact .inr (by grind)
  ceiling := by
    have h1 := h.ceiling
    have h2 := h'.ceiling
    grind
  abortRanges := fun range hr => h'.abortRanges range (h.abortRanges range hr)

variable {s : Flush} {i j start : Nat} {r : flushSystem.Run} {blobId : Uuid}

theorem Flush.Extends.aborted {s' : Flush} (h : s.Extends s') {v : UInt64} (hv : s.Aborted v) :
    s'.Aborted v := by
  obtain ⟨range, hr, hrest⟩ := (s.aborted_iff v).mp hv
  exact (s'.aborted_iff v).mpr ⟨range, h.abortRanges range hr, hrest⟩

theorem extends_step (s s' : Flush) (h : flushSystem.step s s') : s.Extends s' := by
  have hs := Flush.Extends.refl s
  cases h with
  | prepare a =>
    exact ⟨fun _ h => mem_cons_of_mem _ h, hs.commits, hs.newer, hs.ceiling, hs.abortRanges⟩
  | write a block state => exact ⟨hs.attempts, hs.commits, hs.newer, hs.ceiling, hs.abortRanges⟩
  | abort lo hi =>
    exact ⟨hs.attempts, hs.commits, hs.newer, hs.ceiling, fun _ h => mem_cons_of_mem _ h⟩
  | commit a older epoch hnewest habove =>
    refine ⟨hs.attempts, fun _ h => mem_cons_of_mem _ h, ?_, ?_, hs.abortRanges⟩
    · intro c hc
      rcases mem_cons.mp hc with rfl | hc
      · exact .inr habove
      · exact .inl hc
    · show s.ceiling ≤ a.version
      grind

theorem extends_run (r : flushSystem.Run) (hij : i ≤ j) :
    (r.state i).Extends (r.state j) :=
  r.mono Flush.Extends.refl (fun _ _ _ => Flush.Extends.trans)
    (fun s s' _ h => extends_step s s' h) hij

/-- What a nonzero epoch says: it is committed, every commit after it wrote no row, and no version
    after it was skipped. -/
structure EpochInv (s : Flush) : Prop where
  committed : s.mapEpoch ≠ 0 → HasVersion s.commits s.mapEpoch
  no_rows : s.mapEpoch ≠ 0 → ∀ c ∈ s.commits, s.mapEpoch < c.version → ∀ block, c.plan block = none
  no_gap : s.mapEpoch ≠ 0 → ∀ v, s.mapEpoch < v → v ≤ s.ceiling → HasVersion s.commits v

theorem epochInv_step (s s' : Flush) (hs : FlushInv s ∧ EpochInv s) (h : flushSystem.step s s') :
    FlushInv s' ∧ EpochInv s' := by
  refine ⟨flushInv_step s s' hs.1 h, ?_⟩
  obtain ⟨hinv, hepoch⟩ := hs
  cases h with
  | prepare a => exact ⟨hepoch.committed, hepoch.no_rows, hepoch.no_gap⟩
  | write a block state => exact ⟨hepoch.committed, hepoch.no_rows, hepoch.no_gap⟩
  | abort lo hi => exact ⟨hepoch.committed, hepoch.no_rows, hepoch.no_gap⟩
  | commit a older epoch hnewest habove hlive hlanded hskipped hbump =>
    rcases hbump with rfl | ⟨rfl, hnorows, hnogap⟩
    · -- the epoch is the version that commits: nothing is above it
      refine ⟨fun _ => ⟨a, mem_cons_self, rfl⟩, ?_, ?_⟩
      · intro _ c hc hlt
        have hlt : a.version < c.version := hlt
        rcases mem_cons.mp hc with rfl | hc
        · grind
        · have := hinv.commits_le c hc
          grind
      · intro _ v hlt hle
        have hlt : a.version < v := hlt
        have hle : v ≤ a.version := hle
        grind
    · -- the epoch stays: this commit wrote no row and skipped no version
      refine ⟨?_, ?_, ?_⟩
      · intro hne
        obtain ⟨c, hc, hcv⟩ := hepoch.committed hne
        exact ⟨c, mem_cons_of_mem _ hc, hcv⟩
      · intro hne c hc hlt block
        rcases mem_cons.mp hc with rfl | hc
        · exact hnorows block
        · exact hepoch.no_rows hne c hc hlt block
      · intro hne v hlt hle
        by_cases hold : v ≤ s.ceiling
        · obtain ⟨c, hc, hcv⟩ := hepoch.no_gap hne v hlt hold
          exact ⟨c, mem_cons_of_mem _ hc, hcv⟩
        · have hle : v ≤ a.version := hle
          have := hnogap v (by grind)
          exact ⟨a, mem_cons_self, by grind⟩

theorem epochInv_reachable (h : flushSystem.Reachable s) : EpochInv s := by
  refine (h.invariant (P := fun s => FlushInv s ∧ EpochInv s) ?_ epochInv_step).2
  rintro _ rfl
  have hzero : Flush.created.mapEpoch = 0 := rfl
  exact ⟨flushInv_created, fun h => absurd hzero h, fun h => absurd hzero h,
    fun h => absurd hzero h⟩

theorem attempt_unique (r : flushSystem.Run) {a b : Attempt}
    (ha : a ∈ (r.state i).attempts) (hb : b ∈ (r.state j).attempts)
    (hv : a.version = b.version) : a = b :=
  (flushInv_reachable (r.reachable (max i j))).attempts_sorted.eq_of_version
    ((extends_run r (le_max_left i j)).attempts a ha)
    ((extends_run r (le_max_right i j)).attempts b hb) hv

theorem aborted_never_committed (r : flushSystem.Run) {v : UInt64}
    (ha : (r.state i).Aborted v) : ¬ HasVersion (r.state j).commits v := by
  rintro ⟨c, hc, hcv⟩
  exact (flushInv_reachable (r.reachable (max i j))).aborted_dead v
    ((extends_run r (le_max_left i j)).aborted ha)
    ⟨c, (extends_run r (le_max_right i j)).commits c hc, hcv⟩

theorem commits_below (r : flushSystem.Run) {c : Attempt}
    (hc : c ∈ (r.state i).commits) (hle : c.version ≤ (r.state j).ceiling) :
    c ∈ (r.state j).commits := by
  rcases Nat.le_total i j with hij | hji
  · exact (extends_run r hij).commits c hc
  · rcases (extends_run r hji).newer c hc with hc | hlt
    · exact hc
    · grind

/-! ## §4. What a successful load has read -/

instance : IsStrictOrder Bytes (· < ·) where
  irrefl := fun k => List.lt_irrefl k
  trans := fun _ _ _ => List.lt_trans

theorem loadEntries_append (map : OvrRowMap) (xs ys : List (Bytes × Bytes)) :
    loadEntries map (xs ++ ys) = (loadEntries map xs).bind fun m => loadEntries m ys := by
  induction xs generalizing map with
  | nil => rfl
  | cons e xs ih =>
    obtain ⟨key, value⟩ := e
    simp only [cons_append, loadEntries]
    cases loadEntry map key value with
    | error err => rfl
    | ok m => exact ih m

theorem loadPages_scan
    {list : Nat → Bytes → Except LoadError ListInodesResponse}
    (hnss : NssListing r blobId start list) (fuel call : Nat) (startAfter : Bytes)
    (map out : OvrRowMap) (h : loadPages list fuel call startAfter map = some (.ok out)) :
    ∃ entries, Scan (· < ·) (fun t k v => (r.state t).Stored blobId k v) start startAfter entries ∧
      loadEntries map entries = .ok out := by
  induction fuel generalizing call startAfter map with
  | zero => cases h
  | succ fuel ih =>
    rw [loadPages] at h
    split at h
    · cases h
    · next response hlist =>
        cases response with
        | errNoSuchRootBlob => cases h
        | errOther => cases h
        | ok inodes hasMore =>
          obtain ⟨moment, hstart, hpage⟩ := hnss _ _ _ _ hlist
          simp only [parseListInodesRaw] at h
          split at h
          · cases h
          · next map' hentries =>
              split at h
              · -- an empty page ends the loop: it has no more
                next hlast =>
                  injection h with h
                  injection h with h
                  subst h
                  have hend : hasMore = false := by
                    by_contra hmore
                    exact hpage.more (by simpa using hmore) (List.getLast?_eq_none_iff.mp hlast)
                  exact ⟨_, .last startAfter _ moment hstart hpage hend, hentries⟩
              · next lastKey lastValue hlast =>
                  split at h
                  · next hend =>
                      injection h with h
                      injection h with h
                      subst h
                      exact ⟨_, .last startAfter _ moment hstart hpage (by simpa using hend),
                        hentries⟩
                  · -- continue after the last key of the page
                    next hmore =>
                      obtain ⟨rest, hrest, hload⟩ := ih _ _ _ h
                      refine ⟨_, .more startAfter _ moment hstart hpage (by simpa using hmore)
                        (lastKey, lastValue) hlast rest hrest, ?_⟩
                      rw [loadEntries_append, hentries]
                      exact hload

theorem FlushInv.row_wellFormed (hs : FlushInv s) {block : UInt32} {row : OvrRow}
    (hrow : s.rows block = some row) : row.WellFormed := by
  have hinv := hs.row_inv block row hrow
  obtain ⟨a, ha, hav, -⟩ := hinv.planned
  have hpos := (hs.attempt_above a ha).1
  refine ⟨by grind, ?_⟩
  have hfallback := hinv.fallback
  cases hprev : row.prev with
  | base => trivial
  | slot state version =>
    rw [hprev] at hfallback
    obtain ⟨⟨c, hc, hlt, hcv, -⟩, -⟩ := hfallback
    have hcpos := (hs.attempt_above c (hs.commits_attempts c hc)).1
    exact ⟨by grind, by grind⟩

theorem loadEntry_stored (hs : FlushInv s) {key value : Bytes}
    (h : s.Stored blobId key value) (map : OvrRowMap) :
    (∃ block row, s.rows block = some row ∧ key = ovrRowKey blobId block ∧
      loadEntry map key value = .ok (map.insert block row)) ∨
    (∃ r ∈ s.abortRanges, key = ovrAbortKey blobId r.1 r.2 ∧
      loadEntry map key value = .ok (map.addAbortedRange r.1 r.2)) := by
  rcases h with ⟨block, row, hrow, rfl, rfl⟩ | ⟨r, hr, rfl, rfl⟩
  · refine .inl ⟨block, row, hrow, rfl, ?_⟩
    simp only [loadEntry, parseOvrRowBlock_ovrRowKey, decode_encode row (hs.row_wellFormed hrow)]
  · obtain ⟨hlo, hle⟩ := hs.abort_ranges r hr
    refine .inr ⟨r, hr, rfl, ?_⟩
    simp only [loadEntry, parseOvrRowBlock_ovrAbortKey,
      parseOvrAbortRange_ovrAbortKey blobId r.1 r.2 (by grind) hle, ne_eq, not_true_eq_false,
      if_false]

theorem loadEntries_spec (state : Bytes → Flush) (hstate : ∀ k, FlushInv (state k))
    (entries : List (Bytes × Bytes)) (hstored : ∀ e ∈ entries, (state e.1).Stored blobId e.1 e.2)
    (map out : OvrRowMap) (h : loadEntries map entries = .ok out) :
    (∀ block, (∃ e ∈ entries, e.1 = ovrRowKey blobId block) →
      out.get block = (state (ovrRowKey blobId block)).rows block) ∧
    (∀ block, (¬ ∃ e ∈ entries, e.1 = ovrRowKey blobId block) →
      out.get block = map.get block) ∧
    (∀ v, out.isAborted v = true ↔ map.isAborted v = true ∨
      ∃ lo hi, (∃ e ∈ entries, e.1 = ovrAbortKey blobId lo hi) ∧ lo ≠ 0 ∧ lo ≤ v ∧ v ≤ hi) := by
  induction entries generalizing map with
  | nil =>
    injection h with h
    subst h
    simp
  | cons entry rest ih =>
    obtain ⟨key, value⟩ := entry
    have hrest : ∀ e ∈ rest, (state e.1).Stored blobId e.1 e.2 :=
      fun e he => hstored e (mem_cons_of_mem _ he)
    have hcons : ∀ k, (∃ e ∈ (key, value) :: rest, e.1 = k) ↔ key = k ∨ ∃ e ∈ rest, e.1 = k := by
      intro k
      simp only [mem_cons, exists_eq_or_imp]
    simp only [loadEntries] at h
    rcases loadEntry_stored (hstate key) (hstored _ mem_cons_self) map with
      ⟨block₀, row, hrow, hkey, hload⟩ | ⟨range, hrange, hkey, hload⟩
    · -- the entry is the row of `block₀`
      simp only at hkey
      rw [hload] at h
      obtain ⟨hin, hout, habort⟩ := ih hrest _ h
      refine ⟨?_, ?_, ?_⟩
      · intro block hmem
        by_cases hlater : ∃ e ∈ rest, e.1 = ovrRowKey blobId block
        · exact hin block hlater
        · have hsame : key = ovrRowKey blobId block := ((hcons _).mp hmem).resolve_right hlater
          have hblock : block = block₀ :=
            ovrRowKey_injective blobId (hsame.symm.trans hkey)
          rw [hout block hlater, get_insert, if_pos hblock, ← hsame, hblock, hrow]
      · intro block hmem
        rw [hcons, not_or] at hmem
        have hne : block ≠ block₀ := fun he => hmem.1 (by rw [hkey, he])
        rw [hout block hmem.2, get_insert, if_neg hne]
      · intro v
        rw [habort v, isAborted_insert]
        have hnot : ∀ lo hi, key ≠ ovrAbortKey blobId lo hi := fun lo hi he =>
          ovrRowKey_ne_ovrAbortKey blobId block₀ lo hi (hkey.symm.trans he)
        simp only [hcons, hnot, false_or]
    · -- the entry is an abort record
      simp only at hkey
      rw [hload] at h
      obtain ⟨hin, hout, habort⟩ := ih hrest _ h
      have hnot : ∀ block, key ≠ ovrRowKey blobId block := fun block he =>
        ovrRowKey_ne_ovrAbortKey blobId block range.1 range.2 (he.symm.trans hkey)
      refine ⟨?_, ?_, ?_⟩
      · intro block hmem
        exact hin block (((hcons _).mp hmem).resolve_left (hnot block))
      · intro block hmem
        rw [hcons, not_or] at hmem
        rw [hout block hmem.2, get_addAbortedRange]
      · intro v
        rw [habort v, isAborted_addAbortedRange, or_assoc]
        refine or_congr_right ⟨?_, ?_⟩
        · rintro (hv | ⟨lo, hi, he, hv⟩)
          · exact ⟨range.1, range.2, (hcons _).mpr (.inl hkey), hv⟩
          · exact ⟨lo, hi, (hcons _).mpr (.inr he), hv⟩
        · rintro ⟨lo, hi, he, hv⟩
          rcases (hcons _).mp he with hsame | he
          · obtain ⟨hlo, hhi⟩ := ovrAbortKey_injective blobId (hkey.symm.trans hsame)
            rw [← hlo, ← hhi] at hv
            exact .inl hv
          · exact .inr ⟨lo, hi, he, hv⟩

theorem loadedMap_spec
    {list : Nat → Bytes → Except LoadError ListInodesResponse}
    (hnss : NssListing r blobId start list) {fuel call : Nat} {epoch : UInt64} {out : OvrRowMap}
    (h : loadPages list fuel call [] (OvrRowMap.new epoch) = some (.ok out)) :
    (∀ block, ∃ t, start ≤ t ∧ out.get block = (r.state t).rows block) ∧
    (∀ v, (r.state start).Aborted v → out.isAborted v = true) ∧
    (∀ v, out.isAborted v = true → ∃ t, start ≤ t ∧ (r.state t).Aborted v) := by
  obtain ⟨entries, hscan, hload⟩ := loadPages_scan hnss fuel call [] _ _ h
  obtain ⟨moment, hstart, hafter, hiff⟩ := hscan.torn_snapshot
  have hinv : ∀ k, FlushInv (r.state (moment k)) := fun k => flushInv_reachable (r.reachable _)
  obtain ⟨hin, hout, habort⟩ := loadEntries_spec (fun k => r.state (moment k)) hinv entries
    (fun e he => (hiff e.1 e.2 (hafter e he)).mp he) _ _ hload
  -- every key of the blob is after the empty start key
  have hkey : ∀ k : Bytes, k ≠ [] → [] < k := by
    intro k hk
    cases k with
    | nil => exact absurd rfl hk
    | cons b bs => exact nil_lt_cons b bs
  have hrowKey : ∀ block, [] < ovrRowKey blobId block := fun block => hkey _ (by
    simp [ovrRowKey, ovrPrefix, ascii])
  have habortKey : ∀ lo hi, [] < ovrAbortKey blobId lo hi := fun lo hi => hkey _ (by
    simp [ovrAbortKey, ovrPrefix, ascii])
  refine ⟨?_, ?_, ?_⟩
  · intro block
    refine ⟨moment (ovrRowKey blobId block), hstart _, ?_⟩
    by_cases hmem : ∃ e ∈ entries, e.1 = ovrRowKey blobId block
    · exact hin block hmem
    · -- not listed, so not stored at its moment
      rw [hout block hmem]
      cases hrow : (r.state (moment (ovrRowKey blobId block))).rows block with
      | none => rfl
      | some row =>
        have hentry := (hiff _ row.encode (hrowKey block)).mpr
          (.inl ⟨block, row, hrow, rfl, rfl⟩)
        exact absurd ⟨_, hentry, rfl⟩ hmem
  · intro v hv
    obtain ⟨range, hr, hne, hrest⟩ := ((r.state start).aborted_iff v).mp hv
    -- the record was durable at the layout read, hence at the moment of its key
    have hstored := (extends_run r (hstart (ovrAbortKey blobId range.1 range.2))).abortRanges
      range hr
    have hentry := (hiff _ ovrAbortValue (habortKey range.1 range.2)).mpr
      (.inr ⟨range, hstored, rfl, rfl⟩)
    exact (habort v).mpr (.inr ⟨range.1, range.2, ⟨_, hentry, rfl⟩, hne, hrest⟩)
  · intro v hv
    rcases (habort v).mp hv with hnew | ⟨lo, hi, ⟨e, he, hek⟩, hne, hlo, hhi⟩
    · rw [isAborted_new] at hnew
      cases hnew
    · have hstored := (hiff e.1 e.2 (hafter e he)).mp he
      rw [hek] at hstored
      rcases hstored with ⟨block, row, -, hkey', -⟩ | ⟨range, hr, hkey', -⟩
      · exact absurd hkey'.symm (ovrRowKey_ne_ovrAbortKey blobId block lo hi)
      · obtain ⟨hlo', hhi'⟩ := ovrAbortKey_injective blobId hkey'
        rw [hlo'] at hlo hne
        rw [hhi'] at hhi
        exact ⟨_, hstart _, (Flush.aborted_iff _ v).mpr ⟨range, hr, hne, hlo, hhi⟩⟩

/-! ## §5. A cached map serves its epoch -/

theorem cached_map_loaded {cache : RowMapCache}
    (h : CacheOf r blobId cache) {epoch : UInt64} {map : OvrRowMap}
    (hmap : cache (blobId, epoch) = some map) :
    ∃ start fuel list, NssListing r blobId start list ∧ (r.state start).mapEpoch = epoch ∧
      epoch ≠ 0 ∧ loadPages list fuel 0 [] (OvrRowMap.new epoch) = some (.ok map) := by
  induction h with
  | empty => cases hmap
  | evict cache cache' hcache hsub ih => exact ih (hsub _ _ hmap)
  | load cache cache' start fuel list answer hcache hnss hload ih =>
    rw [loadRowMap] at hload
    split at hload
    · injection hload with hload
      injection hload with _ hload
      subst hload
      exact ih hmap
    · next hmapped =>
        split at hload
        · injection hload with hload
          injection hload with _ hload
          subst hload
          exact ih hmap
        · split at hload
          · cases hload
          · injection hload with hload
            injection hload with _ hload
            subst hload
            exact ih hmap
          · next loaded hpages =>
              injection hload with hload
              injection hload with _ hload
              subst hload
              simp only at hmap
              split at hmap
              · next hkey =>
                  injection hkey with _ hkey
                  injection hmap with hmap
                  subst hmap
                  exact ⟨start, fuel, list, hnss, hkey.symm, by rwa [hkey], by
                    rw [hkey]; exact hpages⟩
              · exact ih hmap

theorem epoch_writes_agree (r : flushSystem.Run) {t τ : Nat} (hτ : start ≤ τ)
    (hmapped : (r.state start).mapEpoch ≠ 0)
    (ht : (r.state t).mapEpoch = (r.state start).mapEpoch) (block : UInt32) :
    (∀ c ∈ (r.state t).commits, c.plan block ≠ none → c ∈ (r.state τ).commits) ∧
    (∀ c ∈ (r.state τ).attempts, c.plan block ≠ none → HasVersion (r.state t).commits c.version →
      c ∈ (r.state τ).commits) := by
  have hepoch := epochInv_reachable (r.reachable t)
  have hstart := epochInv_reachable (r.reachable start)
  have hinv := flushInv_reachable (r.reachable start)
  have hbound : (r.state start).mapEpoch ≤ (r.state start).ceiling := by
    obtain ⟨c, hc, hcv⟩ := hstart.committed hmapped
    rw [← hcv]
    exact hinv.commits_le c hc
  have hfirst : ∀ c ∈ (r.state t).commits, c.plan block ≠ none → c ∈ (r.state τ).commits := by
    intro c hc hplan
    -- a commit that wrote a row is not after the epoch
    have hle : c.version ≤ (r.state start).mapEpoch := by
      by_contra hlt
      exact hplan (hepoch.no_rows (by rw [ht]; exact hmapped) c hc (by grind) block)
    exact (extends_run r hτ).commits c (commits_below r hc (by grind))
  refine ⟨hfirst, ?_⟩
  rintro a ha hplan ⟨c, hc, hcv⟩
  have hattempt := (flushInv_reachable (r.reachable t)).commits_attempts c hc
  have heq : c = a := attempt_unique r hattempt ha hcv
  exact hfirst a (heq ▸ hc) hplan

/-- **★ A map cached under an epoch stays valid for the whole epoch.** Along any run of the flush
    protocol, for any map that `load_row_map` calls can have cached under an epoch and every layout
    that carries it: resolving a block in that map at the layout's ceiling returns the committed
    state of the block there, or asks for a refresh. -/
theorem cached_map_resolves_committed_or_stale (r : flushSystem.Run) (blobId : Uuid)
    (cache : RowMapCache) (hcache : CacheOf r blobId cache) (epoch : UInt64) (map : OvrRowMap)
    (hmap : cache (blobId, epoch) = some map) (t : Nat) (ht : (r.state t).mapEpoch = epoch)
    (block : UInt32) :
    map.resolve block (r.state t).ceiling
        = (newestWriteAt block (r.state t).ceiling (r.state t).commits).resolution ∨
      map.resolve block (r.state t).ceiling = .stale := by
  obtain ⟨start, fuel, list, hnss, hstart, hmapped, hload⟩ := cached_map_loaded hcache hmap
  obtain ⟨hrows, habort, hsound⟩ := loadedMap_spec hnss hload
  obtain ⟨τ, hτ, hget⟩ := hrows block
  subst hstart
  obtain ⟨hto, hknown⟩ := epoch_writes_agree r hτ hmapped ht block
  have hinv := flushInv_reachable (r.reachable τ)
  have hinvt := flushInv_reachable (r.reachable t)
  have hinvs := flushInv_reachable (r.reachable start)
  have hepoch := epochInv_reachable (r.reachable t)
  have hepochs := epochInv_reachable (r.reachable start)
  have hmappedt : (r.state t).mapEpoch ≠ 0 := by rw [ht]; exact hmapped
  -- below the layout's ceiling, the writes of the block are those seen at `τ`
  have hagree : newestWriteAt block (r.state t).ceiling (r.state τ).commits
      = newestWriteAt block (r.state t).ceiling (r.state t).commits := by
    refine ((isNewest_newestWriteAt block _ hinv.commits_sorted).transfer ?_ ?_).unique
      hinvt.commits_sorted (isNewest_newestWriteAt block _ hinvt.commits_sorted)
    · intro c hc hle hplan
      exact ⟨commits_below r hc hle, hle⟩
    · intro c hc hle hplan
      exact ⟨hto c hc hplan, hle⟩
  rw [OvrRowMap.resolve, hget]
  cases hrow : (r.state τ).rows block with
  | none =>
    left
    rw [← hagree]
    have hbase : newestWriteAt block (r.state t).ceiling (r.state τ).commits = .base :=
      (isNewest_newestWriteAt block _ hinv.commits_sorted).unique hinv.commits_sorted
        fun c hc _ => hinv.row_absent block hrow c hc
    rw [hbase]
    rfl
  | some row =>
    have hcommitted : ∀ v, HasVersion (r.state τ).commits v → map.isAborted v = false := by
      intro v hv
      by_contra hab
      obtain ⟨i, -, hi⟩ := hsound v (by simpa using hab)
      exact aborted_never_committed r hi hv
    have hcur : row.curVersion ≤ (r.state t).ceiling → map.isAborted row.curVersion = false →
        HasVersion (r.state τ).commits row.curVersion := by
      intro hle hlive
      obtain ⟨a, ha, hav, hplan⟩ := (hinv.row_inv block row hrow).planned
      have hpos := (hinv.attempt_above a ha).1
      rcases hinvt.settled row.curVersion (by grind) hle with hc | hab
      · refine ⟨a, hknown a ha (by simp [hplan]) (by rw [hav]; exact hc), hav⟩
      · -- rejected below the ceiling: it was rejected before the epoch began
        exfalso
        have hdead : ∀ i, ¬ HasVersion (r.state i).commits row.curVersion :=
          fun i => aborted_never_committed r hab
        have hbefore : row.curVersion ≤ (r.state start).ceiling := by
          by_contra hafter
          obtain ⟨c, hc, hcv⟩ := hepochs.committed hmapped
          have hcle := hinvs.commits_le c hc
          exact hdead t (hepoch.no_gap hmappedt _ (by grind) hle)
        rcases hinvs.settled row.curVersion (by grind) hbefore with hc | hab'
        · exact hdead start hc
        · rw [habort _ hab'] at hlive
          cases hlive
    rcases resolveRow_of_rowInv hinv hrow (r.state t).ceiling map.isAborted hcommitted hcur with
      h | ⟨h, -⟩
    · left
      rw [h, hagree]
    · exact .inr h

theorem cached_map_resolves_after_commit :
    ∃ (r : flushSystem.Run) (cache : RowMapCache) (map : OvrRowMap),
      CacheOf r 7 cache ∧ cache (7, 2) = some map ∧ (r.state 3).mapEpoch = 2 ∧
      (map.resolve 0 (r.state 3).ceiling = .exact 2 ∨
        map.resolve 0 (r.state 3).ceiling = .stale) := by
  let first : Attempt := ⟨2, 1, none, fun b => if b = 0 then some .written else none⟩
  let row : OvrRow := ⟨.written, 2, .base⟩
  let prepared := Flush.created.prepare first
  let written := prepared.writeRow first 0 .written
  let committed := written.commit first 2
  let r : flushSystem.Run :=
    { state := fun t => match t with
        | 0 => Flush.created
        | 1 => prepared
        | 2 => written
        | _ => committed
      start := rfl
      next := fun t => match t with
        | 0 => .inr (.prepare first (by decide) (by decide) rfl fun v h1 h2 => by
            have : v ≤ 1 := h2
            grind)
        | 1 => .inr (.write first 0 .written (.head _) rfl)
        | 2 => .inr (.commit first [] 2 rfl (by decide) (by decide)
            (fun block hb => by
              by_cases h0 : block = 0
              · subst h0; exact .head _
              · simp [first, h0] at hb)
            (fun v h1 h2 => by
              have h1 : 1 < v := h1
              have h2 : v < 2 := h2
              grind)
            (.inl rfl))
        | _ + 3 => .inl rfl }
  let list : Nat → Bytes → Except LoadError ListInodesResponse := fun _ startAfter =>
    if startAfter = [] then .ok (.ok [(ovrRowKey 7 0, row.encode)] false) else .error .rpc
  have htrim : trimKeys [(ovrRowKey 7 0, row.encode)] = [(ovrRowKey 7 0, row.encode)] := by decide
  have hrows : ∀ block row', committed.rows block = some row' → block = 0 ∧ row' = row := by
    intro block row' h
    by_cases h0 : block = 0
    · subst h0
      exact ⟨rfl, (Option.some.inj h).symm⟩
    · have : committed.rows block = none := if_neg h0
      rw [this] at h
      cases h
  have hnss : NssListing r 7 3 list := by
    intro call startAfter inodes hasMore h
    by_cases hempty : startAfter = []
    · subst hempty
      injection h with h
      injection h with h1 h2
      subst h1 h2
      refine ⟨fun _ => 3, fun _ => Nat.le_refl 3, ?_⟩
      rw [htrim]
      refine ⟨pairwise_singleton _ _, ?_, ?_, ?_, fun h => by cases h⟩
      · intro e he
        rw [mem_singleton.mp he]
        decide
      · intro e he
        rw [mem_singleton.mp he]
        exact .inl ⟨0, row, rfl, rfl, rfl⟩
      · rintro k v - - (⟨block, row', hrow, rfl, rfl⟩ | ⟨range, hr, -, -⟩)
        · obtain ⟨rfl, rfl⟩ := hrows block row' hrow
          exact .head _
        · cases hr
    · simp only [list, if_neg hempty] at h
      cases h
  have hload : loadRowMap (fun _ => none) 7 (r.state 3).mapEpoch list 1
      = some (.ok (some ((OvrRowMap.new 2).insert 0 row)), fun key =>
          if key = (7, 2) then some ((OvrRowMap.new 2).insert 0 row) else none) := by
    have hentry : loadEntry (OvrRowMap.new 2) (ovrRowKey 7 0) row.encode
        = .ok ((OvrRowMap.new 2).insert 0 row) := by
      simp only [loadEntry, parseOvrRowBlock_ovrRowKey,
        decode_encode row ⟨by decide, trivial⟩]
    have hpages : loadPages list 1 0 [] (OvrRowMap.new 2)
        = some (.ok ((OvrRowMap.new 2).insert 0 row)) := by
      simp only [loadPages, list, if_true, parseListInodesRaw, htrim, loadEntries, hentry]
      rfl
    have hepoch : (r.state 3).mapEpoch = 2 := rfl
    rw [loadRowMap, hepoch, hpages]
    rfl
  have hcache := CacheOf.load _ _ 3 1 list _ .empty hnss hload
  exact ⟨r, _, _, hcache, if_pos rfl, rfl,
    cached_map_resolves_committed_or_stale r 7 _ hcache 2 _ (if_pos rfl) 3 rfl 0⟩

end FractalBits.OvrMap
