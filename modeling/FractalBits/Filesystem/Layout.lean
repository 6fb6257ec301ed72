/-
  Filesystem.Layout — the layout with its filesystem members.

  Mirrors `common/data_types/src/object_layout.rs`: `FsExt`, the accessors and the normalizing
  mutators, and the functions on POSIX attributes. `Objects.Layout` is what the gateway sees of it
  (§5).
-/

import FractalBits.Objects.Layout

namespace FractalBits.Filesystem

open Lib Gateway
open Objects (ObjectCoreMetaData MpuState)
open OvrMap (Uuid)

/-! ## §1. Layouts -/

structure PosixAttrs where
  mode : UInt32 := 0
  uid : UInt32 := 0
  gid : UInt32 := 0
  mtimeNs : UInt64 := 0
  ctimeNs : UInt64 := 0
  deriving DecidableEq, Repr

structure FsExt where
  posix : Option PosixAttrs := none
  /-- the generation allocator; 0 for a file that was never overwritten -/
  nextVersion : UInt64 := 0
  /-- blocks that interrupted appends may have written -/
  pendingAppend : Option (UInt32 × UInt32) := none
  /-- the last commit that changed the rows; 0 for a blob without any -/
  mapEpoch : UInt64 := 0
  deriving DecidableEq, Repr

inductive SpecialKind
  | fifo
  | blockDevice
  | charDevice
  | socket
  deriving DecidableEq, Repr

inductive ObjectState
  | normal (blobGuid : DataBlobGuid) (coreMetaData : ObjectCoreMetaData)
  | mpu (state : MpuState)
  | symlink (target : Bytes) (coreMetaData : ObjectCoreMetaData)
  | special (kind : SpecialKind) (rdev : UInt32) (coreMetaData : ObjectCoreMetaData)
  | directory (posix : PosixAttrs)
  | indirect (inodeId : Uuid)
  deriving DecidableEq, Repr

structure ObjectLayout where
  timestamp : UInt64
  versionId : Uuid
  blockSize : UInt32
  /-- the ceiling: the newest version that is committed -/
  blobVersion : UInt64
  fsExt : Option FsExt
  state : ObjectState
  deriving DecidableEq, Repr

/-! ## §2. The extension -/

def FsExt.boxed (ext : FsExt) : Option FsExt := if ext = {} then none else some ext

@[simp] theorem FsExt.getD_boxed (ext : FsExt) : ext.boxed.getD {} = ext := by
  unfold FsExt.boxed
  split
  · next h => exact h.symm
  · rfl

theorem FsExt.boxed_ne (ext : FsExt) : ext.boxed ≠ some {} := by
  unfold FsExt.boxed
  split
  · nofun
  · next h => exact fun heq => h (Option.some.inj heq)

namespace ObjectLayout

variable (layout : ObjectLayout)

def ext : FsExt := layout.fsExt.getD {}

def fsPosix : Option PosixAttrs := layout.fsExt.bind FsExt.posix

def nextBurnVersion : UInt64 :=
  max ((layout.fsExt.map FsExt.nextVersion).getD 0) (layout.blobVersion + 1)

def mapEpoch : UInt64 := (layout.fsExt.map FsExt.mapEpoch).getD 0

def isMapped : Bool := layout.mapEpoch ≠ 0

/-- `may_have_ovr_records`; the sum in it saturates. -/
def mayHaveOvrRecords : Bool :=
  layout.isMapped ||
    layout.fsExt.any fun ext => ext.nextVersion.toNat > min (layout.blobVersion.toNat + 1)
      (2 ^ 64 - 1)

def updateFsExt (f : FsExt → FsExt) : ObjectLayout :=
    { layout with fsExt := (f (layout.fsExt.getD {})).boxed }

def setFsPosix (posix : Option PosixAttrs) : ObjectLayout := layout.updateFsExt fun e =>
    { e with posix := posix }

def setNextVersion (nextVersion : UInt64) : ObjectLayout :=
  layout.updateFsExt fun e => { e with nextVersion := max e.nextVersion nextVersion }

def setPendingAppend (range : Option (UInt32 × UInt32)) : ObjectLayout :=
  layout.updateFsExt fun e => { e with pendingAppend := range }

def setMapEpoch (mapEpoch : UInt64) : ObjectLayout :=
  layout.updateFsExt fun e => { e with mapEpoch := max e.mapEpoch mapEpoch }

def Normalized : Prop := layout.fsExt ≠ some {}

instance : Decidable layout.Normalized := inferInstanceAs (Decidable (_ ≠ _))

variable {layout}

section

variable (layout : ObjectLayout)

theorem fsPosix_eq : layout.fsPosix = layout.ext.posix := by
  unfold fsPosix ext
  cases layout.fsExt <;> rfl

theorem mapEpoch_eq : layout.mapEpoch = layout.ext.mapEpoch := by
  unfold mapEpoch ext
  cases layout.fsExt <;> rfl

theorem nextBurnVersion_eq :
    layout.nextBurnVersion = max layout.ext.nextVersion (layout.blobVersion + 1) := by
  unfold nextBurnVersion ext
  cases layout.fsExt <;> rfl

theorem mayHaveOvrRecords_iff :
    layout.mayHaveOvrRecords = true ↔
      layout.ext.mapEpoch ≠ 0 ∨ layout.ext.nextVersion.toNat > min (layout.blobVersion.toNat + 1)
        (2 ^ 64 - 1) := by
  unfold mayHaveOvrRecords isMapped
  rw [mapEpoch_eq]
  unfold ext
  cases layout.fsExt with
  | none => simp
  | some ext => simp

@[simp] theorem ext_updateFsExt (f : FsExt → FsExt) :
    (layout.updateFsExt f).ext = f layout.ext := FsExt.getD_boxed _

theorem normalized_updateFsExt (layout : ObjectLayout)
    (f : FsExt → FsExt) : (layout.updateFsExt f).Normalized :=
  FsExt.boxed_ne _

end

theorem Normalized.fsExt_eq (h : layout.Normalized) : layout.ext.boxed = layout.fsExt := by
  unfold Normalized at h
  unfold ext FsExt.boxed
  cases hext : layout.fsExt with
  | none => rfl
  | some ext =>
    have hne : ext ≠ {} := fun heq => h (by rw [hext, heq])
    exact if_neg hne

theorem updateFsExt_updateFsExt (layout : ObjectLayout) (f g : FsExt → FsExt) :
    (layout.updateFsExt f).updateFsExt g = layout.updateFsExt (g ∘ f) := by
  show ({ layout with fsExt := (g ((f layout.ext).boxed.getD {})).boxed } : ObjectLayout) = _
  rw [FsExt.getD_boxed]
  rfl

theorem Normalized.updateFsExt_self (h : layout.Normalized) {f : FsExt → FsExt}
    (hf : f layout.ext = layout.ext) :
    layout.updateFsExt f = layout := by
  show ({ layout with fsExt := (f layout.ext).boxed } : ObjectLayout) = layout
  rw [hf, h.fsExt_eq]

theorem setFsPosix_setFsPosix (layout : ObjectLayout) (p q : Option PosixAttrs) :
    (layout.setFsPosix p).setFsPosix q = layout.setFsPosix q := updateFsExt_updateFsExt _ _ _

theorem Normalized.setFsPosix_fsPosix (h : layout.Normalized) :
    layout.setFsPosix layout.fsPosix = layout := by
  rw [fsPosix_eq]
  exact h.updateFsExt_self rfl

@[simp] theorem fsPosix_setFsPosix (layout : ObjectLayout) (p : Option PosixAttrs) :
    (layout.setFsPosix p).fsPosix = p := by
  rw [fsPosix_eq]
  unfold setFsPosix
  rw [ext_updateFsExt]

theorem mapEpoch_setFsPosix (layout : ObjectLayout) (p : Option PosixAttrs) :
    (layout.setFsPosix p).mapEpoch = layout.mapEpoch := by
  rw [mapEpoch_eq, mapEpoch_eq]
  unfold setFsPosix
  rw [ext_updateFsExt]

end ObjectLayout

/-! ## §3. Sequences of mutators -/

open ObjectLayout

inductive FsCall
  | setFsPosix (posix : Option PosixAttrs)
  | setNextVersion (nextVersion : UInt64)
  | setPendingAppend (range : Option (UInt32 × UInt32))
  | setMapEpoch (mapEpoch : UInt64)

variable (layout : ObjectLayout)

def FsCall.apply : FsCall → ObjectLayout
  | .setFsPosix posix => layout.setFsPosix posix
  | .setNextVersion nextVersion => layout.setNextVersion nextVersion
  | .setPendingAppend range => layout.setPendingAppend range
  | .setMapEpoch epoch => layout.setMapEpoch epoch

def ObjectLayout.afterCalls (calls : List FsCall) : ObjectLayout := calls.foldl FsCall.apply layout

def FsCall.move (ext : FsExt) : FsCall → FsExt
  | .setFsPosix posix => { ext with posix := posix }
  | .setNextVersion nextVersion => { ext with nextVersion := max ext.nextVersion nextVersion }
  | .setPendingAppend range => { ext with pendingAppend := range }
  | .setMapEpoch epoch => { ext with mapEpoch := max ext.mapEpoch epoch }

theorem FsCall.apply_eq (call : FsCall) : call.apply layout = layout.updateFsExt call.move := by
  cases call <;> rfl

theorem le_max_u64 (a b : UInt64) : a ≤ max a b := by
  show a ≤ if a ≤ b then b else a
  grind

theorem FsCall.counters_le (ext : FsExt) (call : FsCall) :
    ext.nextVersion ≤ (call.move ext).nextVersion ∧ ext.mapEpoch ≤ (call.move ext).mapEpoch := by
  cases call with
  | setFsPosix | setPendingAppend => exact ⟨UInt64.le_refl _, UInt64.le_refl _⟩
  | setNextVersion nextVersion => exact ⟨le_max_u64 _ _, UInt64.le_refl _⟩
  | setMapEpoch epoch => exact ⟨UInt64.le_refl _, le_max_u64 _ _⟩

theorem ObjectLayout.Normalized.fsExt_none_iff {layout : ObjectLayout} (h : layout.Normalized) :
    layout.fsExt = none ↔ layout.ext.posix = none ∧ layout.ext.nextVersion = 0
      ∧ layout.ext.pendingAppend = none
      ∧ layout.ext.mapEpoch = 0 := by
  rw [← h.fsExt_eq]
  unfold FsExt.boxed
  generalize layout.ext = ext
  obtain ⟨posix, nextVersion, pendingAppend, mapEpoch⟩ := ext
  simp only [ite_eq_left_iff, reduceCtorEq, imp_false, not_not, FsExt.mk.injEq]

theorem ObjectLayout.afterCalls_spec {layout : ObjectLayout} (h : layout.Normalized)
    (calls : List FsCall) :
    layout.afterCalls calls
      = { layout with fsExt := (calls.foldl FsCall.move layout.ext).boxed } := by
  induction calls generalizing layout with
  | nil =>
    show layout = { layout with fsExt := layout.ext.boxed }
    rw [h.fsExt_eq]
  | cons call calls ih =>
    have hnext : (call.apply layout).Normalized := by
      rw [call.apply_eq]
      exact normalized_updateFsExt _ _
    show (call.apply layout).afterCalls calls = _
    rw [ih hnext, call.apply_eq, ext_updateFsExt]
    rfl

theorem counters_le_foldl (ext : FsExt) (calls : List FsCall) :
    ext.nextVersion ≤ (calls.foldl FsCall.move ext).nextVersion
      ∧ ext.mapEpoch ≤ (calls.foldl FsCall.move ext).mapEpoch := by
  induction calls generalizing ext with
  | nil => exact ⟨UInt64.le_refl _, UInt64.le_refl _⟩
  | cons call calls ih =>
    obtain ⟨hnext, hepoch⟩ := ih (call.move ext)
    exact ⟨UInt64.le_trans (call.counters_le ext).1 hnext, UInt64.le_trans (call.counters_le ext).2
      hepoch⟩

/-- ★ **The extension stays normalized and its counters are monotone**, whatever sequence of
    mutators is called: each moves its own member only, and the members determine the layout. -/
theorem fs_ext_normalized {layout : ObjectLayout} (h : layout.Normalized) (calls : List FsCall) :
    ((layout.afterCalls calls).fsExt = none ↔ (layout.afterCalls calls).ext.posix = none
        ∧ (layout.afterCalls calls).ext.nextVersion = 0
          ∧ (layout.afterCalls calls).ext.pendingAppend = none
        ∧ (layout.afterCalls calls).ext.mapEpoch = 0)
    ∧ (layout.ext.nextVersion ≤ (layout.afterCalls calls).ext.nextVersion
        ∧ layout.ext.mapEpoch ≤ (layout.afterCalls calls).ext.mapEpoch)
    ∧ (∀ call : FsCall, (call.apply layout).ext = call.move layout.ext
        ∧ { call.apply layout with fsExt := layout.fsExt } = layout)
    ∧ ∀ calls', (layout.afterCalls calls').ext = (layout.afterCalls calls).ext →
        layout.afterCalls calls' = layout.afterCalls calls := by
  have hext : ∀ calls, (layout.afterCalls calls).ext = calls.foldl FsCall.move layout.ext := by
    intro calls
    rw [afterCalls_spec h]
    exact FsExt.getD_boxed _
  have hnorm : (layout.afterCalls calls).Normalized := by
    rw [afterCalls_spec h]
    exact FsExt.boxed_ne _
  refine ⟨hnorm.fsExt_none_iff, ?_, fun call => ?_, fun calls' hsame => ?_⟩
  · rw [hext]
    exact counters_le_foldl layout.ext calls
  · rw [call.apply_eq, ext_updateFsExt]
    exact ⟨rfl, rfl⟩
  · rw [hext, hext] at hsame
    rw [afterCalls_spec h, afterCalls_spec h, hsame]

theorem fs_ext_normalized_at_sample :
    (⟨0, 0, 4096, 1, none, .directory {}⟩ : ObjectLayout).afterCalls [.setFsPosix (some {}),
      .setFsPosix none] = (⟨0, 0, 4096, 1, none, .directory {}⟩ : ObjectLayout).afterCalls [] :=
  (fs_ext_normalized (by decide) []).2.2.2 _ (by decide)

def layoutPosix : PosixAttrs :=
  match layout.state with
  | .directory posix => posix
  | .normal _ _ | .mpu (.completed _) | .symlink _ _ | .special _ _ _ => layout.fsPosix.getD {}
  | .mpu .uploading | .indirect _ => {}

/-- `layout_with_posix`: shapes that carry none stay as they are. -/
def layoutWithPosix (newPosix : PosixAttrs) : ObjectLayout :=
  match layout.state with
  | .directory _ => { layout with state := .directory newPosix }
  | .normal _ _ | .mpu (.completed _) | .symlink _ _ | .special _ _ _ =>
    layout.setFsPosix (some newPosix)
  | .mpu .uploading | .indirect _ => layout

/-! ## §4. Comparisons -/

/-- `layout_bytes`: a serialization, here into any type of archives, that always succeeds and tells
    layouts apart. -/
structure Encoding (Archive : Type) where
  layoutBytes : ObjectLayout → Option Archive
  total : ∀ layout, (layoutBytes layout).isSome = true
  injective : ∀ a b, layoutBytes a = layoutBytes b → a = b

section

variable {Archive : Type} [DecidableEq Archive] (enc : Encoding Archive)

def Encoding.sameBytes (a b : ObjectLayout) : Bool :=
  match enc.layoutBytes a, enc.layoutBytes b with
  | some x, some y => x = y
  | _, _ => false

/-- `posix_only_moved`: only one side is rewritten, with the attributes of the other. -/
def posixOnlyMoved (expected current : ObjectLayout) : Bool :=
  match expected.state, current.state with
  | .directory posix, .directory _ =>
    enc.sameBytes expected { current with state := .directory posix }
  | .directory _, _ => false
  | _, .directory _ => false
  | _, _ => enc.sameBytes expected (current.setFsPosix expected.fsPosix)

theorem Encoding.sameBytes_iff (a b : ObjectLayout) : enc.sameBytes a b = true ↔ a = b := by
  obtain ⟨x, hx⟩ := Option.isSome_iff_exists.mp (enc.total a)
  obtain ⟨y, hy⟩ := Option.isSome_iff_exists.mp (enc.total b)
  unfold Encoding.sameBytes
  rw [hx, hy]
  show decide (x = y) = true ↔ a = b
  rw [decide_eq_true_iff]
  constructor
  · intro hxy
    exact enc.injective a b (by rw [hx, hy, hxy])
  · rintro rfl
    exact Option.some.inj (hx.symm.trans hy)

end

def sameCommittedData (expected current : ObjectLayout) : Bool :=
  match expected.state, current.state with
  | .normal blobGuid core, .normal blobGuid' core' =>
    blobGuid = blobGuid' && core.size = core'.size && expected.blobVersion = current.blobVersion
      && expected.blockSize = current.blockSize && expected.mapEpoch = current.mapEpoch
  | _, _ => false

end FractalBits.Filesystem
