/-
  OvrMap.StagedWrites — several writes of one row, in any order.

  What carries the results is the row's `fallback`, the slot a reader below the ceiling is left
  with.
-/

import Mathlib.Data.List.Nodup
import Mathlib.Data.List.Perm.Basic
import FractalBits.OvrMap.RowMap

namespace FractalBits.OvrMap

open List

/-! ## §1. Writes -/

structure RowWrite where
  state : RowState
  version : UInt64
  deriving DecidableEq, Repr

section

variable (baseCeiling : UInt64) (baseMap : Option OvrRowMap) (row : Option OvrRow)

def stageWrite (write : RowWrite) : Option OvrRow :=
  match mergeRowForWriteInMap row write.state write.version baseCeiling baseMap with
  | some merged => some merged
  | none => row

def stageWrites (writes : List RowWrite) : Option OvrRow :=
  writes.foldl (stageWrite baseCeiling baseMap) row

def abortedIn (version : UInt64) : Bool := baseMap.any fun map => map.isAborted version

def isCommitted (version : UInt64) : Bool := version ≤ baseCeiling && !abortedIn baseMap version

def resolveAtBase : BlockResolution :=
  resolveRowFiltered row baseCeiling (abortedIn baseMap)

/-! ## §2. The fallback -/

/-- The slot a reader at the ceiling is left with: the current one if it is committed, otherwise the
    previous one. -/
def fallback : Option OvrRow → PrevSlot
  | none => .base
  | some row =>
    if isCommitted baseCeiling baseMap row.curVersion then .slot row.curState row.curVersion
    else row.prev

def resolveFallback : PrevSlot → BlockResolution
  | .base => .base
  | .slot state version =>
    if isCommitted baseCeiling baseMap version then resolveSlot state version else .stale

theorem resolve_eq_fallback :
    resolveAtBase baseCeiling baseMap row = resolveFallback baseCeiling baseMap
      (fallback baseCeiling baseMap row) := by
  cases row with
  | none => rfl
  | some row =>
    show (if isCommitted baseCeiling baseMap row.curVersion then resolveSlot row.curState
      row.curVersion
      else match row.prev with
        | .base => .base
        | .slot state version =>
          if isCommitted baseCeiling baseMap version then resolveSlot state version else .stale) = _
    have hfallback : fallback baseCeiling baseMap (some row) = if isCommitted baseCeiling baseMap
      row.curVersion
        then .slot row.curState row.curVersion else row.prev := rfl
    rw [hfallback]
    by_cases hcur : isCommitted baseCeiling baseMap row.curVersion = true
    · rw [if_pos hcur, if_pos hcur, resolveFallback, if_pos hcur]
    · rw [if_neg hcur, if_neg hcur]
      rfl

/-! ## §3. One write -/

def Supersedes (write : RowWrite) (row : Option OvrRow) : Prop :=
    ∀ r ∈ row, r.curVersion < write.version

instance (write : RowWrite) (row : Option OvrRow) : Decidable (Supersedes write row) :=
  match row with
  | none => isTrue fun r hr => by cases hr
  | some r => decidable_of_iff (r.curVersion < write.version) (by simp [Supersedes])

theorem stageWrite_eq (write : RowWrite) :
    stageWrite baseCeiling baseMap row write
      = if Supersedes write row then some ⟨write.state, write.version, fallback baseCeiling baseMap
        row⟩ else row := by
  cases row with
  | none =>
    have hnewer : Supersedes write none := fun r hr => absurd hr (Option.not_mem_none r)
    rw [if_pos hnewer]
    rfl
  | some row =>
    by_cases hold : write.version ≤ row.curVersion
    · have hskip : ¬ Supersedes write (some row) := by
        intro h
        exact absurd (h row rfl) (UInt64.not_lt.mpr hold)
      have hmerge : mergeRowForWriteInMap (some row) write.state write.version baseCeiling baseMap
        = none :=
        if_pos hold
      rw [if_neg hskip, stageWrite, hmerge]
    · have hnewer : Supersedes write (some row) := by
        intro r hr
        cases hr
        exact UInt64.not_le.mp hold
      have hmerge : mergeRowForWriteInMap (some row) write.state write.version baseCeiling baseMap
          = some ⟨write.state, write.version, fallback baseCeiling baseMap (some row)⟩ :=
            if_neg hold
      rw [if_pos hnewer, stageWrite, hmerge]

variable {baseCeiling baseMap} {row : Option OvrRow} {write write' : RowWrite}
    {writes : List RowWrite}

theorem not_isCommitted {version : UInt64} (h : baseCeiling < version) :
    isCommitted baseCeiling baseMap version = false := by
  unfold isCommitted
  rw [decide_eq_false (UInt64.not_le.mpr h), Bool.false_and]

theorem fallback_stageWrite (habove : baseCeiling < write.version) :
    fallback baseCeiling baseMap (stageWrite baseCeiling baseMap row write) = fallback baseCeiling
      baseMap row := by
  rw [stageWrite_eq]
  by_cases hnewer : Supersedes write row
  · rw [if_pos hnewer]
    show (if isCommitted baseCeiling baseMap write.version then _ else _) = _
    rw [not_isCommitted habove]
    rfl
  · rw [if_neg hnewer]

theorem stageWrite_after_newer (habove : baseCeiling < write.version)
    (hlt : write.version < write'.version) :
    stageWrite baseCeiling baseMap (stageWrite baseCeiling baseMap row write) write'
      = stageWrite baseCeiling baseMap row write' := by
  rw [stageWrite_eq _ _ _ write', fallback_stageWrite habove, stageWrite_eq _ _ row write']
  by_cases hnewer : Supersedes write row
  · -- the first write is stored and then replaced; the second one alone replaces the row
    have hboth : Supersedes write' row := fun r hr => UInt64.lt_trans (hnewer r hr) hlt
    have hreplaced : Supersedes write' (stageWrite baseCeiling baseMap row write) := by
      rw [stageWrite_eq, if_pos hnewer]
      intro r hr
      cases hr
      exact hlt
    rw [if_pos hboth, if_pos hreplaced]
  · have hsame : stageWrite baseCeiling baseMap row write = row := by
      rw [stageWrite_eq, if_neg hnewer]
    rw [hsame]

theorem stageWrite_before_newer (hlt : write.version < write'.version) :
    stageWrite baseCeiling baseMap (stageWrite baseCeiling baseMap row write') write
      = stageWrite baseCeiling baseMap row write' := by
  rw [stageWrite_eq _ _ (stageWrite baseCeiling baseMap row write')]
  apply if_neg
  intro hnewer
  rw [stageWrite_eq] at hnewer
  by_cases hstored : Supersedes write' row
  · rw [if_pos hstored] at hnewer
    exact absurd (UInt64.lt_trans (hnewer _ rfl) hlt) (UInt64.lt_irrefl _)
  · rw [if_neg hstored] at hnewer
    exact hstored fun r hr => UInt64.lt_trans (hnewer r hr) hlt

theorem stageWrite_comm (habove : baseCeiling < write.version)
    (habove' : baseCeiling < write'.version) (hne : write.version ≠ write'.version)
    (row : Option OvrRow) :
    stageWrite baseCeiling baseMap (stageWrite baseCeiling baseMap row write) write'
      = stageWrite baseCeiling baseMap (stageWrite baseCeiling baseMap row write') write := by
  rcases UInt64.lt_or_lt_of_ne hne with hlt | hlt
  · rw [stageWrite_after_newer habove hlt, stageWrite_before_newer hlt]
  · rw [stageWrite_after_newer habove' hlt, stageWrite_before_newer hlt]

/-! ## §4. Any number of writes -/

theorem fallback_stageWrites (habove : ∀ w ∈ writes, baseCeiling < w.version)
    (row : Option OvrRow) :
    fallback baseCeiling baseMap (stageWrites baseCeiling baseMap row writes) = fallback baseCeiling
      baseMap row := by
  induction writes generalizing row with
  | nil => rfl
  | cons w writes ih =>
    show fallback baseCeiling baseMap
      (stageWrites baseCeiling baseMap (stageWrite baseCeiling baseMap row w) writes) = _
    rw [ih (fun w' hw' => habove w' (mem_cons_of_mem w hw')),
      fallback_stageWrite (habove w mem_cons_self)]

theorem stageWrites_perm {order : List RowWrite} (hperm : order.Perm writes)
    (hdistinct : (writes.map RowWrite.version).Nodup)
    (habove : ∀ w ∈ writes, baseCeiling < w.version) (row : Option OvrRow) :
    stageWrites baseCeiling baseMap row order = stageWrites baseCeiling baseMap row writes := by
  apply hperm.foldl_eq'
  intro w hw w' hw' z
  have hw := hperm.mem_iff.mp hw
  have hw' := hperm.mem_iff.mp hw'
  by_cases hsame : w.version = w'.version
  · rw [inj_on_of_nodup_map hdistinct hw hw' hsame]
  · exact stageWrite_comm (habove w hw) (habove w' hw') hsame z

theorem version_stageWrites {r : OvrRow} (h : r ∈ stageWrites baseCeiling baseMap row writes) :
    r ∈ row ∨ ∃ w ∈ writes, r.curVersion = w.version := by
  induction writes generalizing row with
  | nil => exact .inl h
  | cons w writes ih =>
    rcases ih h with hstored | ⟨w', hw', hversion⟩
    · rw [stageWrite_eq] at hstored
      by_cases hnewer : Supersedes w row
      · rw [if_pos hnewer] at hstored
        cases hstored
        exact .inr ⟨w, mem_cons_self, rfl⟩
      · rw [if_neg hnewer] at hstored
        exact .inl hstored
    · exact .inr ⟨w', mem_cons_of_mem w hw', hversion⟩

theorem stageWrites_highest (hdistinct : (writes.map RowWrite.version).Nodup)
    (habove : ∀ w ∈ writes, baseCeiling < w.version) (hwrite : write ∈ writes)
    (hhighest : ∀ w ∈ writes, w.version ≤ write.version) (hstored : Supersedes write row) :
    stageWrites baseCeiling baseMap row writes
      = some ⟨write.state, write.version, fallback baseCeiling baseMap row⟩ := by
  obtain ⟨front, back, rfl⟩ := append_of_mem hwrite
  have hlast : (front ++ back ++ [write]).Perm (front ++ write :: back) := by
    rw [append_assoc]
    exact (perm_append_singleton write back).append_left front
  have hothers : ∀ w ∈ front ++ back, w ∈ front ++ write :: back ∧ w.version ≠ write.version := by
    intro w hw
    have hin : w ∈ front ++ write :: back := hlast.mem_iff.mp (mem_append_left _ hw)
    refine ⟨hin, fun hversion => ?_⟩
    have hnodup := (hlast.map RowWrite.version).nodup_iff.mpr hdistinct
    rw [map_append, nodup_append] at hnodup
    exact hnodup.2.2 w.version (mem_map_of_mem hw) write.version (by simp) hversion
  rw [← stageWrites_perm hlast hdistinct habove row]
  show (front ++ back ++ [write]).foldl (stageWrite baseCeiling baseMap) row = _
  rw [foldl_append]
  show stageWrite baseCeiling baseMap (stageWrites baseCeiling baseMap row (front ++ back)) write
    = _
  have hnewer : Supersedes write (stageWrites baseCeiling baseMap row (front ++ back)) := by
    intro r hr
    rcases version_stageWrites hr with hr | ⟨w, hw, hversion⟩
    · exact hstored r hr
    · obtain ⟨hin, hne⟩ := hothers w hw
      rw [hversion]
      exact UInt64.lt_of_le_of_ne (hhighest w hin) hne
  rw [stageWrite_eq, if_pos hnewer, fallback_stageWrites fun w hw => habove w (hothers w hw).1]

end

/-- ★ **Staged writes are order-independent.** For every stored row or none, ceiling, abort set and
    set of writes above the ceiling with different versions: every order ends in the same row, with
    the highest write in its current slot if it exceeds the stored one; and a reader at the ceiling
    always gets the same answer. -/
theorem staged_writes_order_independent (stored : Option OvrRow) (baseCeiling : UInt64)
    (baseMap : Option OvrRowMap) {writes : List RowWrite}
    (hdistinct : (writes.map RowWrite.version).Nodup)
    (habove : ∀ w ∈ writes, baseCeiling < w.version) :
    (∀ order, order.Perm writes →
      stageWrites baseCeiling baseMap stored order = stageWrites baseCeiling baseMap stored
        writes) ∧
    (∀ w ∈ writes, (∀ w' ∈ writes, w'.version ≤ w.version) → Supersedes w stored →
      ∃ prev, stageWrites baseCeiling baseMap stored writes = some ⟨w.state, w.version, prev⟩) ∧
    (∀ order, order.Perm writes → ∀ front, front <+: order →
      resolveAtBase baseCeiling baseMap (stageWrites baseCeiling baseMap stored front)
        = resolveAtBase baseCeiling baseMap stored) := by
  refine ⟨fun order hperm => stageWrites_perm hperm hdistinct habove stored, ?_, ?_⟩
  · intro w hw hhighest hnewer
    exact ⟨_, stageWrites_highest hdistinct habove hw hhighest hnewer⟩
  · intro order hperm front hfront
    have hfrontAbove : ∀ w ∈ front, baseCeiling < w.version := fun w hw =>
      habove w (hperm.mem_iff.mp (hfront.subset hw))
    rw [resolve_eq_fallback, fallback_stageWrites hfrontAbove, ← resolve_eq_fallback]

theorem staged_writes_over_three :
    stageWrites 3 none (some ⟨.written, 3, .base⟩) [⟨.written, 9⟩, ⟨.hole, 5⟩, ⟨.written, 6⟩]
        = stageWrites 3 none (some ⟨.written, 3, .base⟩) [⟨.hole, 5⟩, ⟨.written, 9⟩, ⟨.written, 6⟩]
      ∧ resolveAtBase 3 none (stageWrites 3 none (some ⟨.written, 3, .base⟩) [⟨.written, 9⟩])
        = resolveAtBase 3 none (some ⟨.written, 3, .base⟩) := by
  obtain ⟨horder, -, hresolve⟩ := staged_writes_order_independent (some ⟨.written, 3, .base⟩) 3 none
    (show ([⟨.hole, 5⟩, ⟨.written, 9⟩, ⟨.written, 6⟩].map RowWrite.version).Nodup by decide)
      (by decide)
  have hperm : [⟨.written, 9⟩, ⟨.hole, 5⟩, ⟨.written, 6⟩].Perm
    ([⟨.hole, 5⟩, ⟨.written, 9⟩, ⟨.written, 6⟩] : List RowWrite) :=
    by decide
  exact ⟨horder _ hperm, hresolve _ hperm [⟨.written, 9⟩] ⟨_, rfl⟩⟩

end FractalBits.OvrMap
