/-
  OvrMap.Flush — the flush protocol over one blob's overwrite rows, and what a reader sees at the
  ceiling.

  What the writer guarantees is stated by the module doc of `ovr_map.rs` and by `FsExt`: `prepare`
  burns a version above every earlier one; `write` merges one row; `abort` rejects a range of
  generations; `commit` of the latest attempt, all its rows landed and every skipped generation
  rejected, raises the ceiling.
-/

import FractalBits.Lib.Transition
import FractalBits.OvrMap.RowMap

namespace FractalBits.OvrMap

open Lib List

/-! ## §1. Attempts and commit histories -/

structure Attempt where
  version : UInt64
  baseCeiling : UInt64
  baseMap : Option OvrRowMap
  plan : UInt32 → Option RowState

def Attempt.baseAborted (a : Attempt) (version : UInt64) : Bool :=
  a.baseMap.any fun map => map.isAborted version

def HasVersion (history : List Attempt) (version : UInt64) : Prop :=
  ∃ a ∈ history, a.version = version

/-- The newest write of `block` in a history listed newest first; `base` when no attempt wrote the
    block. -/
def newestWrite (block : UInt32) : List Attempt → PrevSlot
  | [] => .base
  | a :: older =>
    match a.plan block with
    | some state => .slot state a.version
    | none => newestWrite block older

/-- The newest write of `block` among the attempts at or below `ceiling`. -/
def newestWriteAt (block : UInt32) (ceiling : UInt64) (history : List Attempt) : PrevSlot :=
  newestWrite block (history.filter fun a => decide (a.version ≤ ceiling))

def PrevSlot.resolution : PrevSlot → BlockResolution
  | .base => .base
  | .slot state version => resolveSlot state version

/-- `p` is the newest write of `block` among the versions `P` of the history. -/
def IsNewest (P : UInt64 → Prop) (history : List Attempt) (block : UInt32) : PrevSlot → Prop
  | .base => ∀ a ∈ history, P a.version → a.plan block = none
  | .slot state version =>
    (∃ a ∈ history, P a.version ∧ a.version = version ∧ a.plan block = some state) ∧
    ∀ a ∈ history, P a.version → a.plan block ≠ none → a.version ≤ version

abbrev NewestFirst (history : List Attempt) : Prop :=
  history.Pairwise fun newer older => older.version < newer.version

variable {history : List Attempt} {a : Attempt} {block : UInt32} {row : OvrRow} {s : Flush}

theorem NewestFirst.eq_of_version (h : NewestFirst history)
    {b : Attempt} (ha : a ∈ history) (hb : b ∈ history) (hv : a.version = b.version) :
    a = b := by
  induction history with
  | nil => cases ha
  | cons x xs ih =>
    obtain ⟨hx, hxs⟩ := pairwise_cons.mp h
    rcases mem_cons.mp ha with hax | ha' <;> rcases mem_cons.mp hb with hbx | hb'
    · rw [hax, hbx]
    · have := hx b hb'; grind
    · have := hx a ha'; grind
    · exact ih hxs ha' hb'

theorem PrevSlot.resolution_ne_stale (p : PrevSlot) : p.resolution ≠ .stale := by
  cases p with
  | base => simp [PrevSlot.resolution]
  | slot state version => cases state <;> simp [PrevSlot.resolution, resolveSlot]

theorem isNewest_newestWrite (block : UInt32)
    (h : NewestFirst history) (P : UInt64 → Prop) (hP : ∀ a ∈ history, P a.version) :
    IsNewest P history block (newestWrite block history) := by
  induction history with
  | nil => simp [newestWrite, IsNewest]
  | cons a older ih =>
    obtain ⟨hlt, holder⟩ := pairwise_cons.mp h
    have ih := ih holder fun x hx => hP x (mem_cons_of_mem _ hx)
    rw [newestWrite]
    cases hplan : a.plan block with
    | some state =>
      refine ⟨⟨a, mem_cons_self, hP a mem_cons_self, rfl, hplan⟩, ?_⟩
      intro x hx _ _
      rcases mem_cons.mp hx with rfl | hx
      · exact UInt64.le_refl _
      · have := hlt x hx; grind
    | none =>
      simp only
      cases hnew : newestWrite block older with
      | base =>
        rw [hnew] at ih
        intro x hx hPx
        rcases mem_cons.mp hx with rfl | hx
        · exact hplan
        · exact ih x hx hPx
      | slot state version =>
        rw [hnew] at ih
        obtain ⟨⟨y, hy, hyP⟩, hmax⟩ := ih
        refine ⟨⟨y, mem_cons_of_mem _ hy, hyP⟩, ?_⟩
        intro x hx hPx hxplan
        rcases mem_cons.mp hx with rfl | hx
        · exact absurd hplan hxplan
        · exact hmax x hx hPx hxplan

theorem IsNewest.transfer {P Q : UInt64 → Prop} {hist hist' : List Attempt}
    {p : PrevSlot} (h : IsNewest P hist block p)
    (hto : ∀ a ∈ hist, P a.version → a.plan block ≠ none → a ∈ hist' ∧ Q a.version)
    (hfrom : ∀ a ∈ hist', Q a.version → a.plan block ≠ none → a ∈ hist ∧ P a.version) :
    IsNewest Q hist' block p := by
  cases p with
  | base =>
    intro a ha hQ
    by_contra hplan
    obtain ⟨ha', hP⟩ := hfrom a ha hQ hplan
    exact hplan (h a ha' hP)
  | slot state version =>
    obtain ⟨⟨a, ha, hP, hv, hplan⟩, hmax⟩ := h
    obtain ⟨ha', hQ⟩ := hto a ha hP (by simp [hplan])
    refine ⟨⟨a, ha', hQ, hv, hplan⟩, ?_⟩
    intro x hx hQx hxplan
    obtain ⟨hx', hPx⟩ := hfrom x hx hQx hxplan
    exact hmax x hx' hPx hxplan

theorem IsNewest.unique {P : UInt64 → Prop} {hist : List Attempt}
    (hsorted : NewestFirst hist) {p q : PrevSlot}
    (hp : IsNewest P hist block p) (hq : IsNewest P hist block q) : p = q := by
  cases p with
  | base =>
    cases q with
    | base => rfl
    | slot state version =>
      obtain ⟨⟨a, ha, hP, -, hplan⟩, -⟩ := hq
      rw [hp a ha hP] at hplan
      cases hplan
  | slot state version =>
    obtain ⟨⟨a, ha, hP, hv, hplan⟩, hmax⟩ := hp
    cases q with
    | base =>
      rw [hq a ha hP] at hplan
      cases hplan
    | slot state' version' =>
      obtain ⟨⟨a', ha', hP', hv', hplan'⟩, hmax'⟩ := hq
      have h1 := hmax' a ha hP (by simp [hplan])
      have h2 := hmax a' ha' hP' (by simp [hplan'])
      have heq : a = a' := hsorted.eq_of_version ha ha' (by grind)
      subst heq
      rw [hplan] at hplan'
      injection hplan' with hs
      rw [hs, ← hv, ← hv']

theorem isNewest_newestWriteAt (block : UInt32) (ceiling : UInt64)
    (h : NewestFirst history) :
    IsNewest (· ≤ ceiling) history block (newestWriteAt block ceiling history) := by
  have hfilter : ∀ a, a ∈ history.filter (fun a => decide (a.version ≤ ceiling)) ↔
      a ∈ history ∧ a.version ≤ ceiling := by
    intro a
    rw [mem_filter, decide_eq_true_eq]
  refine (isNewest_newestWrite block (h.filter _) (· ≤ ceiling)
    fun a ha => ((hfilter a).mp ha).2).transfer ?_ ?_
  · intro a ha hle _
    exact ⟨((hfilter a).mp ha).1, hle⟩
  · intro a ha hle _
    exact ⟨(hfilter a).mpr ⟨ha, hle⟩, hle⟩

/-! ## §2. The protocol -/

structure Flush where
  /-- the committed ceiling: `blob_version` of the layout -/
  ceiling : UInt64
  /-- `FsExt::map_epoch` of the layout -/
  mapEpoch : UInt64
  /-- the stored rows, at most one per block -/
  rows : UInt32 → Option OvrRow
  abortRanges : List (UInt64 × UInt64)
  /-- every attempt prepared so far, newest first -/
  attempts : List Attempt
  /-- the (version, block) row writes that have landed -/
  landed : List (UInt64 × UInt32)
  /-- the committed attempts, newest first -/
  commits : List Attempt

def Flush.created : Flush where
  ceiling := 1
  mapEpoch := 0
  rows := fun _ => none
  abortRanges := []
  attempts := []
  landed := []
  commits := []

def Flush.abortMap (s : Flush) : OvrRowMap :=
  s.abortRanges.foldr (fun r map => map.addAbortedRange r.1 r.2) (OvrRowMap.new s.mapEpoch)

def Flush.Aborted (s : Flush) (version : UInt64) : Prop := s.abortMap.isAborted version = true

instance (s : Flush) (version : UInt64) : Decidable (s.Aborted version) :=
  inferInstanceAs (Decidable (_ = true))

def Flush.prepare (s : Flush) (a : Attempt) : Flush :=
  { s with attempts := a :: s.attempts }

def Flush.abort (s : Flush) (lo hi : UInt64) : Flush :=
  { s with abortRanges := (lo, hi) :: s.abortRanges }

def Flush.commit (s : Flush) (a : Attempt) (epoch : UInt64) : Flush :=
  { s with ceiling := a.version, mapEpoch := epoch, commits := a :: s.commits }

def Flush.writeRow (s : Flush) (a : Attempt) (block : UInt32) (state : RowState) : Flush :=
  { s with
    rows := fun b =>
      if b = block then
        -- a skipped merge leaves the stored row as it is
        (mergeRowForWriteInMap (s.rows block) state a.version a.baseCeiling a.baseMap).or
          (s.rows block)
      else s.rows b
    landed := (a.version, block) :: s.landed }

inductive Flush.Step (s : Flush) : Flush → Prop
  | prepare (a : Attempt)
      (hfresh : ∀ x ∈ s.attempts, x.version < a.version)
      (habove : s.ceiling < a.version)
      (hbase : a.baseCeiling = s.ceiling)
      (hknown : ∀ v, 1 < v → v ≤ s.ceiling →
        (a.baseAborted v = true ↔ ¬ HasVersion s.commits v)) :
      Flush.Step s (s.prepare a)
  | write (a : Attempt) (block : UInt32) (state : RowState)
      (hattempt : a ∈ s.attempts) (hplan : a.plan block = some state) :
      Flush.Step s (s.writeRow a block state)
  | abort (lo hi : UInt64)
      (hlo : 1 < lo) (hle : lo ≤ hi)
      (hburned : ∃ a ∈ s.attempts, hi ≤ a.version)
      (hdoomed : ∀ v, lo ≤ v → v ≤ hi → ¬ HasVersion s.commits v) :
      Flush.Step s (s.abort lo hi)
  | commit (a : Attempt) (older : List Attempt) (epoch : UInt64)
      (hnewest : s.attempts = a :: older)
      (habove : s.ceiling < a.version)
      (hlive : ¬ s.Aborted a.version)
      (hlanded : ∀ block, a.plan block ≠ none → (a.version, block) ∈ s.landed)
      (hskipped : ∀ v, s.ceiling < v → v < a.version → s.Aborted v)
      -- a commit that wrote a row or crossed a rejected version bumps the epoch
      (hepoch : epoch = a.version ∨
        epoch = s.mapEpoch ∧ (∀ block, a.plan block = none) ∧
          ∀ v, s.ceiling < v → ¬ v < a.version) :
      Flush.Step s (s.commit a epoch)

def flushSystem : TransitionSystem Flush where
  init := fun s => s = Flush.created
  step := Flush.Step

theorem Flush.aborted_iff (s : Flush) (v : UInt64) :
    s.Aborted v ↔ ∃ r ∈ s.abortRanges, r.1 ≠ 0 ∧ r.1 ≤ v ∧ v ≤ r.2 := by
  unfold Flush.Aborted Flush.abortMap
  induction s.abortRanges with
  | nil => simp
  | cons r rest ih =>
    rw [foldr_cons, isAborted_addAbortedRange, ih]
    simp only [mem_cons, exists_eq_or_imp]
    exact or_comm

theorem writeRow_cases (s : Flush) (a : Attempt) (block : UInt32) (state : RowState) :
    ((s.writeRow a block state).rows block = s.rows block ∧
      ∃ old, s.rows block = some old ∧ a.version ≤ old.curVersion) ∨
    (s.rows block = none ∧ (s.writeRow a block state).rows block
        = some { curState := state, curVersion := a.version, prev := .base }) ∨
    (∃ old, s.rows block = some old ∧ old.curVersion < a.version ∧
      (s.writeRow a block state).rows block
        = some { curState := state, curVersion := a.version,
                 prev := if old.curVersion ≤ a.baseCeiling && !a.baseAborted old.curVersion
                   then .slot old.curState old.curVersion else old.prev }) := by
  simp only [Flush.writeRow, if_true, mergeRowForWriteInMap, Attempt.baseAborted]
  cases hold : s.rows block with
  | none => exact .inr (.inl ⟨rfl, rfl⟩)
  | some old =>
    simp only [mergeRowForWriteFiltered]
    by_cases hv : a.version ≤ old.curVersion
    · left
      rw [if_pos hv]
      exact ⟨rfl, old, rfl, hv⟩
    · right; right
      rw [if_neg hv]
      exact ⟨old, rfl, by grind, rfl⟩

/-! ## §3. The invariant -/

/-- What the stored row of `block` says about the history of the blob. -/
structure RowInv (attempts commits : List Attempt) (block : UInt32) (row : OvrRow) : Prop where
  /-- `cur` was planned by some attempt -/
  planned : ∃ a ∈ attempts, a.version = row.curVersion ∧ a.plan block = some row.curState
  /-- no committed write of the block is newer than `cur` -/
  newest : ∀ c ∈ commits, c.plan block ≠ none → c.version ≤ row.curVersion
  /-- `prev` is the newest committed write below `cur` -/
  fallback : IsNewest (· < row.curVersion) commits block row.prev

structure FlushInv (s : Flush) : Prop where
  ceiling_pos : 1 ≤ s.ceiling
  attempts_sorted : NewestFirst s.attempts
  commits_sorted : NewestFirst s.commits
  commits_attempts : ∀ c ∈ s.commits, c ∈ s.attempts
  commits_le : ∀ c ∈ s.commits, c.version ≤ s.ceiling
  attempt_above : ∀ a ∈ s.attempts, 1 < a.version ∧ a.baseCeiling < a.version ∧
    a.baseCeiling ≤ s.ceiling
  /-- an attempt's abort set tells committed from rejected below its ceiling -/
  attempt_base : ∀ a ∈ s.attempts, ∀ v, 1 < v → v ≤ a.baseCeiling →
    (a.baseAborted v = true ↔ ¬ HasVersion s.commits v)
  /-- nothing older than an attempt commits after its prepare -/
  attempt_order : ∀ a ∈ s.attempts, ∀ c ∈ s.commits, a.baseCeiling < c.version →
    a.version ≤ c.version
  abort_ranges : ∀ r ∈ s.abortRanges, 1 < r.1 ∧ r.1 ≤ r.2
  aborted_dead : ∀ v, s.Aborted v → ¬ HasVersion s.commits v
  /-- below the ceiling every version is committed or rejected -/
  settled : ∀ v, 1 < v → v ≤ s.ceiling → HasVersion s.commits v ∨ s.Aborted v
  row_inv : ∀ block row, s.rows block = some row → RowInv s.attempts s.commits block row
  row_absent : ∀ block, s.rows block = none → ∀ c ∈ s.commits, c.plan block = none
  landed_row : ∀ v block, (v, block) ∈ s.landed →
    ∃ row, s.rows block = some row ∧ v ≤ row.curVersion

theorem flushInv_created : FlushInv Flush.created where
  ceiling_pos := by decide
  attempts_sorted := List.Pairwise.nil
  commits_sorted := List.Pairwise.nil
  commits_attempts := by simp [Flush.created]
  commits_le := by simp [Flush.created]
  attempt_above := by simp [Flush.created]
  attempt_base := by simp [Flush.created]
  attempt_order := by simp [Flush.created]
  abort_ranges := by simp [Flush.created]
  aborted_dead := by simp [Flush.created, HasVersion]
  settled := by
    intro v h1 hle
    have : v ≤ 1 := hle
    grind
  row_inv := by simp [Flush.created]
  row_absent := by simp [Flush.created]
  landed_row := by simp [Flush.created]

theorem RowInv.mono_attempts {attempts commits : List Attempt}
    (h : RowInv attempts commits block row) (a : Attempt) :
    RowInv (a :: attempts) commits block row := { h with
  planned := by
    obtain ⟨x, hx, hrest⟩ := h.planned
    exact ⟨x, mem_cons_of_mem _ hx, hrest⟩ }

section

variable (hs : FlushInv s)

include hs

theorem flushInv_prepare (a : Attempt)
    (hfresh : ∀ x ∈ s.attempts, x.version < a.version) (habove : s.ceiling < a.version)
    (hbase : a.baseCeiling = s.ceiling)
    (hknown : ∀ v, 1 < v → v ≤ s.ceiling →
      (a.baseAborted v = true ↔ ¬ HasVersion s.commits v)) :
    FlushInv (s.prepare a) := { hs with
  attempts_sorted := pairwise_cons.mpr ⟨hfresh, hs.attempts_sorted⟩
  commits_attempts := fun c hc => mem_cons_of_mem _ (hs.commits_attempts c hc)
  attempt_above := by
    intro x hx
    rcases mem_cons.mp hx with rfl | hx
    · have := hs.ceiling_pos
      rw [hbase]
      exact ⟨by grind, habove, UInt64.le_refl _⟩
    · exact hs.attempt_above x hx
  attempt_base := by
    intro x hx
    rcases mem_cons.mp hx with rfl | hx
    · rw [hbase]
      exact hknown
    · exact hs.attempt_base x hx
  attempt_order := by
    intro x hx c hc hlt
    rcases mem_cons.mp hx with rfl | hx
    · -- every commit so far is at or below the base ceiling
      have := hs.commits_le c hc
      grind
    · exact hs.attempt_order x hx c hc hlt
  row_inv := fun block row h => (hs.row_inv block row h).mono_attempts a }

theorem flushInv_abort (lo hi : UInt64)
    (hlo : 1 < lo) (hle : lo ≤ hi)
    (hdoomed : ∀ v, lo ≤ v → v ≤ hi → ¬ HasVersion s.commits v) :
    FlushInv (s.abort lo hi) := { hs with
  abort_ranges := by
    intro r hr
    rcases mem_cons.mp hr with rfl | hr
    · exact ⟨hlo, hle⟩
    · exact hs.abort_ranges r hr
  aborted_dead := by
    intro v hv
    obtain ⟨r, hr, hne, hlow, hhigh⟩ := (Flush.aborted_iff _ v).mp hv
    rcases mem_cons.mp hr with rfl | hr
    · exact hdoomed v hlow hhigh
    · exact hs.aborted_dead v ((s.aborted_iff v).mpr ⟨r, hr, hne, hlow, hhigh⟩)
  settled := by
    intro v h1 hle
    refine (hs.settled v h1 hle).imp_right fun hv => ?_
    obtain ⟨r, hr, hrest⟩ := (s.aborted_iff v).mp hv
    exact (Flush.aborted_iff _ v).mpr ⟨r, mem_cons_of_mem _ hr, hrest⟩ }

theorem FlushInv.committed_cur
    (hrow : s.rows block = some row) (hc : HasVersion s.commits row.curVersion) :
    ∃ c ∈ s.commits, c.version = row.curVersion ∧ c.plan block = some row.curState := by
  obtain ⟨a, ha, hav, hplan⟩ := (hs.row_inv block row hrow).planned
  obtain ⟨c, hc, hcv⟩ := hc
  have heq : c = a := hs.attempts_sorted.eq_of_version (hs.commits_attempts c hc) ha
    (by rw [hcv, hav])
  exact ⟨c, hc, hcv, by rw [heq, hplan]⟩

theorem rowInv_merge (ha : a ∈ s.attempts)
    {state : RowState} (hplan : a.plan block = some state) {old : OvrRow}
    (hold : s.rows block = some old) (hlt : old.curVersion < a.version) :
    RowInv s.attempts s.commits block
      { curState := state, curVersion := a.version,
        prev := if old.curVersion ≤ a.baseCeiling && !a.baseAborted old.curVersion
          then .slot old.curState old.curVersion else old.prev } := by
  have hinv := hs.row_inv block old hold
  have hbelow : ∀ c ∈ s.commits, c.plan block ≠ none → c.version < a.version := by
    intro c hc hcplan
    have := hinv.newest c hc hcplan
    grind
  refine ⟨⟨a, ha, rfl, hplan⟩, fun c hc hcplan => ?_, ?_⟩
  · have := hbelow c hc hcplan
    grind
  have hpos : 1 < old.curVersion := by
    obtain ⟨x, hx, hxv, -⟩ := hinv.planned
    have := (hs.attempt_above x hx).1
    grind
  show IsNewest (· < a.version) s.commits block (if _ then _ else _)
  split
  · -- promoted: at or below the base ceiling and not rejected, hence committed
    next hpromote =>
      rw [Bool.and_eq_true, decide_eq_true_eq, Bool.not_eq_true'] at hpromote
      obtain ⟨hle, hlive⟩ := hpromote
      have hcommitted : HasVersion s.commits old.curVersion := by
        by_contra hno
        rw [(hs.attempt_base a ha _ hpos hle).mpr hno] at hlive
        cases hlive
      obtain ⟨c, hc, hcv, hcplan⟩ := hs.committed_cur hold hcommitted
      exact ⟨⟨c, hc, by grind, hcv, hcplan⟩, fun x hx _ hxplan => hinv.newest x hx hxplan⟩
  · -- kept: the stored `cur` is not committed, so the commits below the new
    -- version are those below the stored one
    next hkeep =>
      refine hinv.fallback.transfer (fun c hc hcv hcplan => ⟨hc, hbelow c hc hcplan⟩) ?_
      intro c hc hcv hcplan
      refine ⟨hc, ?_⟩
      have hle := hinv.newest c hc hcplan
      by_contra hnot
      have heq : c.version = old.curVersion := by grind
      by_cases hbase : old.curVersion ≤ a.baseCeiling
      · have hdead : a.baseAborted old.curVersion = true := by
          simpa [hbase] using hkeep
        exact (hs.attempt_base a ha _ hpos hbase).mp hdead ⟨c, hc, heq⟩
      · have := hs.attempt_order a ha c hc (by grind)
        grind

theorem flushInv_write (a : Attempt) (block : UInt32)
    (state : RowState) (ha : a ∈ s.attempts) (hplan : a.plan block = some state) :
    FlushInv (s.writeRow a block state) := by
  have hother : ∀ b, b ≠ block → (s.writeRow a block state).rows b = s.rows b :=
    fun b hb => if_neg hb
  refine
    { hs with
      row_inv := ?_
      row_absent := ?_
      landed_row := ?_ }
  · intro b row hrow
    by_cases hb : b = block
    · subst hb
      rcases writeRow_cases s a b state with ⟨hsame, -⟩ | ⟨hnone, hnew⟩ | ⟨old, hold, hlt, hnew⟩
      · exact hs.row_inv b row (hsame ▸ hrow)
      · rw [hnew] at hrow
        injection hrow with hrow
        subst hrow
        have hnothing := hs.row_absent b hnone
        exact ⟨⟨a, ha, rfl, hplan⟩, fun c hc hcplan => absurd (hnothing c hc) hcplan,
          fun c hc _ => hnothing c hc⟩
      · rw [hnew] at hrow
        injection hrow with hrow
        subst hrow
        exact rowInv_merge hs ha hplan hold hlt
    · rw [hother b hb] at hrow
      exact hs.row_inv b row hrow
  · intro b hnone
    by_cases hb : b = block
    · subst hb
      rcases writeRow_cases s a b state with ⟨hsame, -⟩ | ⟨-, hnew⟩ | ⟨_, -, -, hnew⟩
      · exact hs.row_absent b (hsame ▸ hnone)
      · rw [hnew] at hnone; cases hnone
      · rw [hnew] at hnone; cases hnone
    · rw [hother b hb] at hnone
      exact hs.row_absent b hnone
  · intro v b hlanded
    by_cases hb : b = block
    · subst hb
      -- the row only moves up, and the landed write is at most the row's `cur`
      have hup : ∀ old, s.rows b = some old → ∃ row, (s.writeRow a b state).rows b = some row ∧
          old.curVersion ≤ row.curVersion := by
        intro old hold
        rcases writeRow_cases s a b state with ⟨hsame, -⟩ | ⟨hnone, -⟩ | ⟨o, ho, hlt, hnew⟩
        · exact ⟨old, by rw [hsame, hold], UInt64.le_refl _⟩
        · rw [hold] at hnone; cases hnone
        · rw [hold] at ho
          injection ho with ho
          subst ho
          exact ⟨_, hnew, by show _ ≤ a.version; grind⟩
      rcases mem_cons.mp hlanded with heq | hlanded
      · injection heq with hv _
        subst hv
        rcases writeRow_cases s a b state with ⟨hsame, old, hold, hle⟩ | ⟨-, hnew⟩ | ⟨_, -, -, hnew⟩
        · exact ⟨old, by rw [hsame, hold], hle⟩
        · exact ⟨_, hnew, UInt64.le_refl _⟩
        · exact ⟨_, hnew, UInt64.le_refl _⟩
      · obtain ⟨old, hold, hle⟩ := hs.landed_row v b hlanded
        obtain ⟨row, hrow, hle'⟩ := hup old hold
        exact ⟨row, hrow, by grind⟩
    · rcases mem_cons.mp hlanded with heq | hlanded
      · injection heq with _ hbb
        exact absurd hbb hb
      · rw [hother b hb]
        exact hs.landed_row v b hlanded

omit hs in
theorem le_newest_attempt {attempts older : List Attempt}
    (hsorted : NewestFirst attempts) (hnewest : attempts = a :: older) :
    ∀ x ∈ attempts, x.version ≤ a.version := by
  subst hnewest
  intro x hx
  rcases mem_cons.mp hx with rfl | hx
  · exact UInt64.le_refl _
  · have := (pairwise_cons.mp hsorted).1 x hx
    grind

theorem flushInv_commit (a : Attempt) (older : List Attempt)
    (epoch : UInt64) (hnewest : s.attempts = a :: older) (habove : s.ceiling < a.version)
    (hlive : ¬ s.Aborted a.version)
    (hlanded : ∀ block, a.plan block ≠ none → (a.version, block) ∈ s.landed)
    (hskipped : ∀ v, s.ceiling < v → v < a.version → s.Aborted v) :
    FlushInv (s.commit a epoch) := by
  have ha : a ∈ s.attempts := by rw [hnewest]; exact mem_cons_self
  have htop := le_newest_attempt hs.attempts_sorted hnewest
  have hattempt : ∀ c ∈ a :: s.commits, c ∈ s.attempts :=
    forall_mem_cons.mpr ⟨ha, hs.commits_attempts⟩
  have habort : ∀ v, (s.commit a epoch).Aborted v ↔ s.Aborted v := fun v => by
    rw [Flush.aborted_iff, Flush.aborted_iff]
    rfl
  have hversion : ∀ v, HasVersion (a :: s.commits) v ↔ v = a.version ∨ HasVersion s.commits v := by
    intro v
    simp only [HasVersion, mem_cons, exists_eq_or_imp]
    rw [eq_comm]
  refine
    { hs with
      ceiling_pos := by have := hs.ceiling_pos; show 1 ≤ a.version; grind
      commits_sorted := ?_
      commits_attempts := hattempt
      commits_le := fun c hc => htop c (hattempt c hc)
      attempt_above := ?_
      attempt_base := ?_
      attempt_order := ?_
      aborted_dead := ?_
      settled := ?_
      row_inv := ?_
      row_absent := ?_ }
  · refine pairwise_cons.mpr ⟨fun c hc => ?_, hs.commits_sorted⟩
    have := hs.commits_le c hc
    grind
  · intro x hx
    obtain ⟨h1, h2, h3⟩ := hs.attempt_above x hx
    exact ⟨h1, h2, by show _ ≤ a.version; grind⟩
  · -- an attempt's base ceiling is below the version that commits now
    intro x hx v h1 hle
    have hbase := (hs.attempt_above x hx).2.2
    show _ ↔ ¬ HasVersion (a :: s.commits) v
    rw [hs.attempt_base x hx v h1 hle, hversion v]
    have hne : v ≠ a.version := by grind
    simp [hne]
  · intro x hx c hc hlt
    rcases mem_cons.mp hc with rfl | hc
    · exact htop x hx
    · exact hs.attempt_order x hx c hc hlt
  · intro v hv hc
    rw [habort] at hv
    rcases (hversion v).mp hc with rfl | hc
    · exact hlive hv
    · exact hs.aborted_dead v hv hc
  · intro v h1 hle
    show HasVersion (a :: s.commits) v ∨ _
    rw [hversion, habort]
    have hle' : v ≤ a.version := hle
    by_cases heq : v = a.version
    · exact .inl (.inl heq)
    by_cases hold : v ≤ s.ceiling
    · rcases hs.settled v h1 hold with h | h
      · exact .inl (.inr h)
      · exact .inr h
    · exact .inr (hskipped v (by grind) (by grind))
  · intro block row hrow
    have hinv := hs.row_inv block row hrow
    refine ⟨hinv.planned, ?_, ?_⟩
    · intro c hc hcplan
      rcases mem_cons.mp hc with rfl | hc
      · -- its own write of the block has landed in this row
        obtain ⟨row', hrow', hle⟩ := hs.landed_row _ block (hlanded block hcplan)
        have hsame : row' = row := Option.some.inj (hrow'.symm.trans hrow)
        rw [← hsame]
        exact hle
      · exact hinv.newest c hc hcplan
    · refine hinv.fallback.transfer (fun c hc hlt _ => ⟨mem_cons_of_mem _ hc, hlt⟩) ?_
      intro c hc hlt _
      rcases mem_cons.mp hc with rfl | hc
      · -- `cur` belongs to an attempt, so it is not above the newest one
        obtain ⟨x, hx, hxv, -⟩ := hinv.planned
        have := htop x hx
        grind
      · exact ⟨hc, hlt⟩
  · intro block hnone c hc
    rcases mem_cons.mp hc with rfl | hc
    · by_contra hcplan
      obtain ⟨row, hrow, -⟩ := hs.landed_row _ block (hlanded block hcplan)
      have hnone' : s.rows block = none := hnone
      rw [hnone'] at hrow
      cases hrow
    · exact hs.row_absent block hnone c hc

end

theorem flushInv_step (s s' : Flush) (hs : FlushInv s) (h : flushSystem.step s s') :
    FlushInv s' := by
  cases h with
  | prepare a hfresh habove hbase hknown => exact flushInv_prepare hs a hfresh habove hbase hknown
  | write a block state hattempt hplan => exact flushInv_write hs a block state hattempt hplan
  | abort lo hi hlo hle hburned hdoomed => exact flushInv_abort hs lo hi hlo hle hdoomed
  | commit a older epoch hnewest habove hlive hlanded hskipped hepoch =>
    exact flushInv_commit hs a older epoch hnewest habove hlive hlanded hskipped

theorem flushInv_reachable (h : flushSystem.Reachable s) : FlushInv s :=
  h.invariant (fun _ h0 => h0 ▸ flushInv_created) flushInv_step

/-! ## §4. What a reader sees -/

theorem resolveRow_of_rowInv (hs : FlushInv s)
    (hrow : s.rows block = some row) (ceiling : UInt64) (isAborted : UInt64 → Bool)
    (hcommitted : ∀ v, HasVersion s.commits v → isAborted v = false)
    (hcur : row.curVersion ≤ ceiling → isAborted row.curVersion = false →
      HasVersion s.commits row.curVersion) :
    resolveRowFiltered (some row) ceiling isAborted
        = (newestWriteAt block ceiling s.commits).resolution ∨
    (resolveRowFiltered (some row) ceiling isAborted = .stale ∧
      ∃ c ∈ s.commits, ceiling < c.version) := by
  have hinv := hs.row_inv block row hrow
  have hunique : ∀ p, IsNewest (· ≤ ceiling) s.commits block p →
      p = newestWriteAt block ceiling s.commits := fun p hp =>
    hp.unique hs.commits_sorted (isNewest_newestWriteAt block ceiling hs.commits_sorted)
  simp only [resolveRowFiltered]
  split
  · next hvisible =>
      rw [Bool.and_eq_true, decide_eq_true_eq, Bool.not_eq_true'] at hvisible
      obtain ⟨c, hc, hcv, hcplan⟩ := hs.committed_cur hrow (hcur hvisible.1 hvisible.2)
      left
      rw [← hunique (.slot row.curState row.curVersion)
        ⟨⟨c, hc, by grind, hcv, hcplan⟩, fun x hx _ hxplan => hinv.newest x hx hxplan⟩]
      rfl
  · next hhidden =>
      -- `cur` is above the ceiling or not committed: the commits at or below the
      -- ceiling are below `cur`
      have hbelow : ∀ c ∈ s.commits, c.plan block ≠ none → c.version ≤ ceiling →
          c.version < row.curVersion := by
        intro c hc hcplan hle
        have hle' := hinv.newest c hc hcplan
        by_contra hnot
        have heq : c.version = row.curVersion := by grind
        have hlive := hcommitted row.curVersion ⟨c, hc, heq⟩
        apply hhidden
        rw [hlive, ← heq]
        simpa using hle
      have hfallback := hinv.fallback
      cases hprev : row.prev with
      | base =>
        rw [hprev] at hfallback
        left
        rw [← hunique .base fun c hc hle => by
          by_contra hcplan
          exact hcplan (hfallback c hc (hbelow c hc hcplan hle))]
        rfl
      | slot state version =>
        rw [hprev] at hfallback
        obtain ⟨⟨c, hc, hlt, hcv, hcplan⟩, hmax⟩ := hfallback
        have hlive := hcommitted version ⟨c, hc, hcv⟩
        by_cases hle : version ≤ ceiling
        · left
          rw [← hunique (.slot state version)
            ⟨⟨c, hc, by grind, hcv, hcplan⟩,
              fun x hx hxle hxplan => hmax x hx (hbelow x hx hxplan hxle) hxplan⟩]
          simp [hle, hlive, PrevSlot.resolution]
        · right
          exact ⟨by simp [hle], c, hc, by grind⟩

/-- **★ Overwrite rows implement a multi-version block map.** In every reachable state of the flush
    protocol, resolving the stored row of any block at the current ceiling with the current abort
    set gives the newest committed write of that block (base when there is none), and is never
    stale. -/
theorem resolve_stored_row_eq_newest_write (s : Flush) (h : flushSystem.Reachable s)
    (block : UInt32) :
    resolveRowFiltered (s.rows block) s.ceiling s.abortMap.isAborted
        = (newestWrite block s.commits).resolution ∧
    resolveRowFiltered (s.rows block) s.ceiling s.abortMap.isAborted ≠ .stale := by
  have hs := flushInv_reachable h
  have hall : s.commits.filter (fun a => decide (a.version ≤ s.ceiling)) = s.commits :=
    filter_eq_self.mpr fun a ha => by simpa using hs.commits_le a ha
  have hresolve : resolveRowFiltered (s.rows block) s.ceiling s.abortMap.isAborted
      = (newestWrite block s.commits).resolution := by
    cases hrow : s.rows block with
    | none =>
      have hbase : newestWrite block s.commits = .base :=
        (isNewest_newestWrite block hs.commits_sorted (fun _ => True)
          fun _ _ => trivial).unique hs.commits_sorted
          fun c hc _ => hs.row_absent block hrow c hc
      rw [hbase]
      rfl
    | some row =>
      have hcommitted : ∀ v, HasVersion s.commits v → s.abortMap.isAborted v = false := by
        intro v hv
        by_contra hab
        exact hs.aborted_dead v (by simpa [Flush.Aborted] using hab) hv
      have hcur : row.curVersion ≤ s.ceiling → s.abortMap.isAborted row.curVersion = false →
          HasVersion s.commits row.curVersion := by
        intro hle hlive
        obtain ⟨x, hx, hxv, -⟩ := (hs.row_inv block row hrow).planned
        have hpos := (hs.attempt_above x hx).1
        rcases hs.settled row.curVersion (by grind) hle with hc | hab
        · exact hc
        · rw [Flush.Aborted, hlive] at hab
          cases hab
      rcases resolveRow_of_rowInv hs hrow s.ceiling s.abortMap.isAborted hcommitted hcur with
        h | ⟨-, c, hc, hlt⟩
      · rw [h, newestWriteAt, hall]
      · -- no commit is above the ceiling
        have := hs.commits_le c hc
        grind
  exact ⟨hresolve, hresolve ▸ PrevSlot.resolution_ne_stale _⟩

theorem resolve_stored_row_after_late_write :
    ∃ s, flushSystem.Reachable s ∧ s.ceiling = 4 ∧
      s.rows 0 = some { curState := .hole, curVersion := 3, prev := .slot .written 2 } ∧
      resolveRowFiltered (s.rows 0) s.ceiling s.abortMap.isAborted = .exact 2 := by
  let first : Attempt := ⟨2, 1, none, fun b => if b = 0 then some .written else none⟩
  let doomed : Attempt := ⟨3, 2, none, fun b => if b = 0 then some .hole else none⟩
  let second : Attempt := ⟨4, 2, none, fun b => if b = 1 then some .written else none⟩
  have hfirst : flushSystem.Reachable _ :=
    .step (.step (.step (.init rfl)
      (.prepare first (by decide) (by decide) rfl fun v h1 h2 => by
        have : v ≤ 1 := h2
        grind))
      (.write first 0 .written (.head _) rfl))
      (.commit first [] 2 rfl (by decide) (by decide)
        (fun block hb => by
          by_cases h0 : block = 0
          · subst h0; exact .head _
          · simp [first, h0] at hb)
        (fun v h1 h2 => by
          have h1 : 1 < v := h1
          have h2 : v < 2 := h2
          grind)
        (.inl rfl))
  have hknown : ∀ v : UInt64, 1 < v → v ≤ 2 → (false = true ↔ ¬ HasVersion [first] v) := by
    intro v h1 h2
    have hv : v = 2 := by grind
    subst hv
    simp [HasVersion, first]
  have hsecond : flushSystem.Reachable _ :=
    .step (.step (.step (.step (.step hfirst
      (.prepare doomed (by decide) (by decide) rfl hknown))
      (.prepare second (by decide) (by decide) rfl hknown))
      (.write second 1 .written (.head _) rfl))
      (.abort 3 3 (by decide) (by decide) ⟨second, .head _, by decide⟩ fun v h1 h2 hv => by
        have hv : HasVersion [first] v := hv
        simp only [HasVersion, mem_singleton, exists_eq_left] at hv
        grind))
      (.commit second [doomed, first] 4 rfl (by decide) (by decide)
        (fun block hb => by
          by_cases h1 : block = 1
          · subst h1; exact .head _
          · simp [second, h1] at hb)
        (fun v h1 h2 => by
          have h1 : 2 < v := h1
          have h2 : v < 4 := h2
          have hv : v = 3 := by grind
          subst hv
          decide)
        (.inl rfl))
  have hlate : flushSystem.Reachable _ :=
    .step hsecond (.write doomed 0 .hole (.tail _ (.head _)) rfl)
  exact ⟨_, hlate, rfl, rfl, (resolve_stored_row_eq_newest_write _ hlate 0).1⟩

end FractalBits.OvrMap
