/-
  Filesystem.Generations — the versions that write attempts burn.

  An attempt moves the allocator past its version before it writes; a commit makes that the ceiling.
-/

import FractalBits.Filesystem.Layout
import FractalBits.Lib.Transition

namespace FractalBits.Filesystem

open Lib ObjectLayout List

/-! ## §1. Attempts -/

structure Attempt where
  version : UInt64
  ceiling : UInt64
  wroteRows : Bool
  committed : Bool
  deriving DecidableEq, Repr

structure Generations where
  layout : ObjectLayout
  attempts : List Attempt
  deriving DecidableEq, Repr

def ObjectLayout.commit (layout : ObjectLayout) (version : UInt64) (remap : Bool) : ObjectLayout :=
  if remap then { layout with blobVersion := version }.setMapEpoch version
    else { layout with blobVersion := version }

namespace Generations

def prepared (g : Generations) : Attempt :=
    ⟨g.layout.nextBurnVersion, g.layout.blobVersion, false, false⟩

def Skips (before : List Attempt) : Prop := ∃ w ∈ before, w.committed = false

def Crosses (g : Generations) (before : List Attempt) : Prop :=
  ∃ w ∈ before, w.committed = false ∧ g.layout.blobVersion < w.version

/-- Versions stay below the maximum, so that neither sum wraps. A commit moves the map epoch for
    rows of its own and versions it crosses. -/
inductive Step : Generations → Generations → Prop
  | prepare (g : Generations) (hceiling : g.layout.blobVersion.toNat + 1 < 2 ^ 64)
      (hversion : g.layout.nextBurnVersion.toNat + 1 < 2 ^ 64) :
      Step g ⟨g.layout.setNextVersion (g.layout.nextBurnVersion + 1), g.attempts ++ [g.prepared]⟩
  | writeRows (g : Generations) (before after : List Attempt) (a : Attempt)
      (hattempts : g.attempts = before ++ a :: after) (hopen : a.committed = false) :
      Step g ⟨g.layout, before ++ { a with wroteRows := true } :: after⟩
  | commit (g : Generations) (before after : List Attempt) (a : Attempt) (remap : Bool)
      (hattempts : g.attempts = before ++ a :: after) (hopen : a.committed = false)
      (hlatest : ∀ w ∈ after, w.committed = true)
      (hmust : a.wroteRows = true ∨ g.Crosses before → remap = true)
      (hmay : remap = true → a.wroteRows = true ∨ Skips before) :
      Step g ⟨g.layout.commit a.version remap, before ++ { a with committed := true } :: after⟩
  | setFsPosix (g : Generations) (posix : Option PosixAttrs) :
    Step g ⟨g.layout.setFsPosix posix, g.attempts⟩
  | setPendingAppend (g : Generations) (range : Option (UInt32 × UInt32)) :
      Step g ⟨g.layout.setPendingAppend range, g.attempts⟩

def system : TransitionSystem Generations where
  init g := g.layout.fsExt = none ∧ 1 ≤ g.layout.blobVersion ∧ g.attempts = []
  step := Step

/-! ## §2. Every step keeps the accounts -/

/-- The allocator is past all versions, and what it cannot show the map epoch does: skipped
    attempts, and rows that are committed. -/
structure Inv (g : Generations) : Prop where
  ascending : g.attempts.Pairwise fun a b => a.version < b.version
  above : ∀ a ∈ g.attempts, a.ceiling < a.version
  burned : ∀ a ∈ g.attempts, a.version < g.layout.ext.nextVersion
  skipped : ∀ a ∈ g.attempts, a.committed = false → a.version ≤ g.layout.blobVersion →
    g.layout.ext.mapEpoch ≠ 0
  mapped : ∀ a ∈ g.attempts, a.committed = true → a.wroteRows = true → g.layout.ext.mapEpoch ≠ 0

variable {g : Generations}

theorem inv_init (h : system.init g) : Inv g := by
  obtain ⟨-, -, hnone⟩ := h
  constructor <;> simp [hnone]

variable {layout : ObjectLayout} {before after : List Attempt} {a : Attempt}

theorem Inv.of_layout (h : Inv g) (hnext : layout.ext.nextVersion = g.layout.ext.nextVersion)
    (hepoch : layout.ext.mapEpoch = g.layout.ext.mapEpoch)
    (hceiling : layout.blobVersion = g.layout.blobVersion) :
    Inv ⟨layout, g.attempts⟩ where
  ascending := h.ascending
  above := h.above
  burned a ha := by
    rw [hnext]
    exact h.burned a ha
  skipped a ha hopen hle := by
    rw [hepoch]
    exact h.skipped a ha hopen (hceiling ▸ hle)
  mapped a ha hdone hrows := by
    rw [hepoch]
    exact h.mapped a ha hdone hrows

theorem toNat_nextBurnVersion (h : layout.blobVersion.toNat + 1 < 2 ^ 64) :
    layout.nextBurnVersion.toNat = max layout.ext.nextVersion.toNat
      (layout.blobVersion.toNat + 1) := by
  have hsum : (layout.blobVersion + 1).toNat = layout.blobVersion.toNat + 1 := by
    rw [UInt64.toNat_add]
    exact Nat.mod_eq_of_lt h
  rw [nextBurnVersion_eq, UInt64.toNat_max, hsum]

theorem ext_prepare (layout : ObjectLayout) (version : UInt64) :
    (layout.setNextVersion version).ext
      = { layout.ext with nextVersion := max layout.ext.nextVersion version } := by
  unfold setNextVersion
  rw [ext_updateFsExt]

theorem Inv.prepare (h : Inv g) (hceiling : g.layout.blobVersion.toNat + 1 < 2 ^ 64)
    (hversion : g.layout.nextBurnVersion.toNat + 1 < 2 ^ 64) :
    Inv ⟨g.layout.setNextVersion (g.layout.nextBurnVersion + 1), g.attempts ++ [g.prepared]⟩ := by
  have htaken := toNat_nextBurnVersion hceiling
  have hpast : (g.layout.nextBurnVersion + 1).toNat = g.layout.nextBurnVersion.toNat + 1 := by
    rw [UInt64.toNat_add]
    exact Nat.mod_eq_of_lt hversion
  have hnext : (g.layout.setNextVersion (g.layout.nextBurnVersion + 1)).ext.nextVersion.toNat
      = max g.layout.ext.nextVersion.toNat (g.layout.nextBurnVersion.toNat + 1) := by
    rw [ext_prepare, ← hpast]
    exact UInt64.toNat_max _ _
  have hepoch : (g.layout.setNextVersion (g.layout.nextBurnVersion + 1)).ext.mapEpoch
    = g.layout.ext.mapEpoch := by
    rw [ext_prepare]
  constructor
  · show (g.attempts ++ [g.prepared]).Pairwise _
    rw [pairwise_append]
    refine ⟨h.ascending, pairwise_singleton _ _, ?_⟩
    intro a ha b hb
    rw [mem_singleton.mp hb]
    have hburned := UInt64.lt_iff_toNat_lt.mp (h.burned a ha)
    show a.version < g.layout.nextBurnVersion
    apply UInt64.lt_iff_toNat_lt.mpr
    omega
  · intro a ha
    rcases mem_append.mp ha with ha | ha
    · exact h.above a ha
    · rw [mem_singleton.mp ha]
      show g.layout.blobVersion < g.layout.nextBurnVersion
      apply UInt64.lt_iff_toNat_lt.mpr
      omega
  · intro a ha
    apply UInt64.lt_iff_toNat_lt.mpr
    show a.version.toNat
      < (g.layout.setNextVersion (g.layout.nextBurnVersion + 1)).ext.nextVersion.toNat
    rw [hnext]
    rcases mem_append.mp ha with ha | ha
    · have hburned := UInt64.lt_iff_toNat_lt.mp (h.burned a ha)
      omega
    · rw [mem_singleton.mp ha]
      show g.layout.nextBurnVersion.toNat < _
      omega
  · intro a ha hopen hle
    rw [hepoch]
    rcases mem_append.mp ha with ha | ha
    · exact h.skipped a ha hopen hle
    · -- the new attempt is above the ceiling
      rw [mem_singleton.mp ha] at hle
      have hle : g.layout.nextBurnVersion.toNat ≤ g.layout.blobVersion.toNat :=
        UInt64.le_iff_toNat_le.mp hle
      omega
  · intro a ha hdone hrows
    rw [hepoch]
    rcases mem_append.mp ha with ha | ha
    · exact h.mapped a ha hdone hrows
    · rw [mem_singleton.mp ha] at hdone
      cases hdone

theorem Inv.of_attempt (h : Inv g) {a' : Attempt}
    (hattempts : g.attempts = before ++ a :: after) (hversion : a'.version = a.version)
    (hceiling : a'.ceiling = a.ceiling) (hnext : layout.ext.nextVersion = g.layout.ext.nextVersion)
    (hskipped : ∀ w ∈ before ++ a' :: after, w.committed = false → w.version ≤ layout.blobVersion →
      layout.ext.mapEpoch ≠ 0)
    (hmapped : ∀ w ∈ before ++ a' :: after, w.committed = true → w.wroteRows = true →
      layout.ext.mapEpoch ≠ 0) :
    Inv ⟨layout, before ++ a' :: after⟩ := by
  have hascending := h.ascending
  have habove := h.above
  have hburned := h.burned
  rw [hattempts] at hascending habove hburned
  simp only [forall_mem_append, forall_mem_cons] at habove hburned
  refine ⟨?_, ?_, ?_, hskipped, hmapped⟩
  · show (before ++ a' :: after).Pairwise _
    rw [pairwise_append, pairwise_cons] at hascending ⊢
    simp only [forall_mem_cons, hversion] at hascending ⊢
    exact hascending
  · show ∀ w ∈ before ++ a' :: after, w.ceiling < w.version
    simp only [forall_mem_append, forall_mem_cons, hversion, hceiling]
    exact habove
  · show ∀ w ∈ before ++ a' :: after, w.version < layout.ext.nextVersion
    simp only [forall_mem_append, forall_mem_cons, hversion, hnext]
    exact hburned

theorem mem_attempts {a' w : Attempt} (hattempts : g.attempts = before ++ a :: after)
    (hw : w ∈ before ++ a' :: after) : w = a' ∨ w ∈ before ∧ w ∈ g.attempts ∨ w ∈ after
    ∧ w ∈ g.attempts := by
  rw [hattempts]
  rcases mem_append.mp hw with hbefore | hw
  · exact .inr (.inl ⟨hbefore, mem_append_left _ hbefore⟩)
  · rcases mem_cons.mp hw with heq | hafter
    · exact .inl heq
    · exact .inr (.inr ⟨hafter, mem_append_right _ (mem_cons_of_mem _ hafter)⟩)

theorem Inv.writeRows (h : Inv g)
    (hattempts : g.attempts = before ++ a :: after) (hopen : a.committed = false) :
    Inv ⟨g.layout, before ++ { a with wroteRows := true } :: after⟩ := by
  have ha : a ∈ g.attempts := by simp [hattempts]
  refine h.of_attempt hattempts rfl rfl rfl ?_ ?_
  · intro w hw hwopen hle
    rcases mem_attempts hattempts hw with rfl | ⟨-, hw⟩ | ⟨-, hw⟩
    · exact h.skipped a ha hopen hle
    · exact h.skipped w hw hwopen hle
    · exact h.skipped w hw hwopen hle
  · intro w hw hdone hrows
    rcases mem_attempts hattempts hw with rfl | ⟨-, hw⟩ | ⟨-, hw⟩
    · exact absurd hdone (by simp [hopen])
    · exact h.mapped w hw hdone hrows
    · exact h.mapped w hw hdone hrows

theorem ext_commit_true (layout : ObjectLayout) (version : UInt64) :
    (layout.commit version true).ext
      = { layout.ext with mapEpoch := max layout.ext.mapEpoch version } := by
  show (({ layout with blobVersion := version } : ObjectLayout).setMapEpoch version).ext = _
  unfold setMapEpoch
  rw [ext_updateFsExt]
  rfl

theorem nextVersion_commit (layout : ObjectLayout) (version : UInt64) (remap : Bool) :
    (layout.commit version remap).ext.nextVersion = layout.ext.nextVersion := by
  cases remap with
  | true => rw [ext_commit_true]
  | false => rfl

theorem Inv.commit (h : Inv g) {remap : Bool}
    (hattempts : g.attempts = before ++ a :: after) (hlatest : ∀ w ∈ after, w.committed = true)
    (hmust : a.wroteRows = true ∨ g.Crosses before → remap = true) :
    Inv ⟨g.layout.commit a.version remap, before ++ { a with committed := true } :: after⟩ := by
  have ha : a ∈ g.attempts := by simp [hattempts]
  cases remap with
  | true =>
    -- a version is above some ceiling, so the epoch is not zero
    have hmoved : (g.layout.commit a.version true).ext.mapEpoch ≠ 0 := by
      rw [ext_commit_true]
      intro hzero
      have habove := UInt64.lt_iff_toNat_lt.mp (h.above a ha)
      have hmax : (max g.layout.ext.mapEpoch a.version).toNat = 0 := congrArg UInt64.toNat hzero
      rw [UInt64.toNat_max] at hmax
      omega
    exact h.of_attempt hattempts rfl rfl (nextVersion_commit _ _ _) (fun _ _ _ _ => hmoved)
      fun _ _ _ _ => hmoved
  | false =>
    refine h.of_attempt hattempts rfl rfl rfl ?_ ?_
    · intro w hw hopen hle
      show g.layout.ext.mapEpoch ≠ 0
      rcases mem_attempts hattempts hw with rfl | ⟨hbefore, hw⟩ | ⟨hafter, -⟩
      · cases hopen
      · by_cases hcrossed : w.version ≤ g.layout.blobVersion
        · exact h.skipped w hw hopen hcrossed
        · exact absurd (hmust (.inr ⟨w, hbefore, hopen, UInt64.not_le.mp hcrossed⟩)) (by decide)
      · rw [hlatest w hafter] at hopen
        cases hopen
    · intro w hw hdone hrows
      show g.layout.ext.mapEpoch ≠ 0
      rcases mem_attempts hattempts hw with rfl | ⟨-, hw⟩ | ⟨-, hw⟩
      · exact absurd (hmust (.inl hrows)) (by decide)
      · exact h.mapped w hw hdone hrows
      · exact h.mapped w hw hdone hrows

theorem Inv.step {g' : Generations} (h : Inv g) (hstep : Step g g') : Inv g' := by
  cases hstep with
  | prepare hceiling hversion => exact h.prepare hceiling hversion
  | writeRows before after a hattempts hopen => exact h.writeRows hattempts hopen
  | commit before after a remap hattempts hopen hlatest hmust hmay =>
    exact h.commit hattempts hlatest hmust
  | setFsPosix posix =>
    have hext : (g.layout.setFsPosix posix).ext = { g.layout.ext with posix := posix } :=
      ext_updateFsExt _ _
    exact h.of_layout (by rw [hext]) (by rw [hext]) rfl
  | setPendingAppend range =>
    have hext : (g.layout.setPendingAppend range).ext
      = { g.layout.ext with pendingAppend := range } :=
      ext_updateFsExt _ _
    exact h.of_layout (by rw [hext]) (by rw [hext]) rfl

theorem inv_of_reachable (h : system.Reachable g) : Inv g :=
  h.invariant (fun _ hinit => inv_init hinit) fun _ _ hinv hstep => hinv.step hstep

theorem Inv.mayHaveOvrRecords (h : Inv g) (ha : a ∈ g.attempts) (hrows : a.wroteRows = true) :
    g.layout.mayHaveOvrRecords = true := by
  rw [mayHaveOvrRecords_iff]
  cases hdone : a.committed with
  | true => exact .inl (h.mapped a ha hdone hrows)
  | false =>
    by_cases hle : a.version ≤ g.layout.blobVersion
    · exact .inl (h.skipped a ha hdone hle)
    · have hburned := UInt64.lt_iff_toNat_lt.mp (h.burned a ha)
      have hgap := UInt64.lt_iff_toNat_lt.mp (UInt64.not_le.mp hle)
      right
      omega

end Generations

/-- ★ **Versions are never reused and rows are always detectable.** However prepares, commits and
    attribute changes follow each other: the versions taken ascend in the order of the prepares,
    each above the ceiling of its time, and the layout of a blob with rows says that it may have
    some. -/
theorem versions_never_reused {g : Generations} (h : Generations.system.Reachable g) :
    (g.attempts.Pairwise fun a b => a.version < b.version)
    ∧ (∀ a ∈ g.attempts, a.ceiling < a.version)
    ∧ ((∃ a ∈ g.attempts, a.wroteRows = true) → g.layout.mayHaveOvrRecords = true) := by
  have hinv := Generations.inv_of_reachable h
  refine ⟨hinv.ascending, hinv.above, ?_⟩
  rintro ⟨a, ha, hrows⟩
  exact hinv.mayHaveOvrRecords ha hrows

def sampleFile : ObjectLayout := ⟨0, 0, 4096, 1, none, .normal ⟨7, 0⟩ ⟨4096, [], [], none⟩⟩

def sampleSkipped : Generations :=
  ⟨{ sampleFile with blobVersion := 3, fsExt := some { nextVersion := 4, mapEpoch := 3 } },
    [⟨2, 1, true, false⟩, ⟨3, 1, false, true⟩]⟩

theorem reachable_sampleSkipped : Generations.system.Reachable sampleSkipped := by
  have hstart : Generations.system.Reachable ⟨sampleFile, []⟩ := .init ⟨rfl, by decide, rfl⟩
  have hfirst := TransitionSystem.Reachable.step hstart (.prepare _ (by decide) (by decide))
  have hrows := TransitionSystem.Reachable.step hfirst
    (.writeRows _ [] [] ⟨2, 1, false, false⟩ rfl rfl)
  have hsecond := TransitionSystem.Reachable.step hrows (.prepare _ (by decide) (by decide))
  have hcommit := TransitionSystem.Reachable.step hsecond
    (.commit _ [⟨2, 1, true, false⟩] [] ⟨3, 1, false, false⟩ true rfl rfl nofun (fun _ => rfl)
      fun _ => .inr ⟨_, mem_singleton_self _, rfl⟩)
  exact hcommit

theorem skipped_row_detectable : sampleSkipped.layout.mayHaveOvrRecords = true :=
  (versions_never_reused reachable_sampleSkipped).2.2 ⟨⟨2, 1, true, false⟩, by decide, rfl⟩

end FractalBits.Filesystem
