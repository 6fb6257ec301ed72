/-
  Filesystem.Posix — layouts that differ in POSIX attributes only.

  By `posix_only_moved` a commit accepts that an attribute change landed after its prepare.
-/

import FractalBits.Filesystem.Layout

namespace FractalBits.Filesystem

open Lib ObjectLayout

/-! ## §1. What is left without attributes -/

/-- The layout without its attributes, which a directory embeds and others have in the extension. -/
def erasePosix (layout : ObjectLayout) : ObjectLayout :=
  match layout.state with
  | .directory _ => { layout with state := .directory {} }
  | _ => layout.setFsPosix none

def ObjectLayout.isDirectory (layout : ObjectLayout) : Bool :=
  match layout.state with
  | .directory _ => true
  | _ => false

section

variable {a b layout : ObjectLayout}

theorem erasePosix_of_directory {posix : PosixAttrs} (h : layout.state = .directory posix) :
    erasePosix layout = { layout with state := .directory {} } := by
  unfold erasePosix
  rw [h]

theorem erasePosix_of_not_directory (h : layout.isDirectory = false) :
    erasePosix layout = layout.setFsPosix none := by
  unfold isDirectory at h
  unfold erasePosix
  cases hstate : layout.state with
  | directory posix =>
    rw [hstate] at h
    cases h
  | _ => rfl

theorem state_of_isDirectory (h : layout.isDirectory = true) :
    ∃ posix, layout.state = .directory posix := by
  unfold isDirectory at h
  cases hstate : layout.state with
  | directory posix => exact ⟨posix, rfl⟩
  | _ =>
    rw [hstate] at h
    cases h

theorem isDirectory_congr (h : a.state = b.state) : a.isDirectory = b.isDirectory := by
  unfold isDirectory
  rw [h]

theorem isDirectory_erasePosix (layout : ObjectLayout) :
    (erasePosix layout).isDirectory = layout.isDirectory := by
  cases hdir : layout.isDirectory with
  | true =>
    obtain ⟨posix, hstate⟩ := state_of_isDirectory hdir
    rw [erasePosix_of_directory hstate]
    rfl
  | false =>
    rw [erasePosix_of_not_directory hdir, ← hdir]
    exact isDirectory_congr rfl

/-! ## §2. The rule -/

theorem directory_moved_iff {p q : PosixAttrs} (ha : a.state = .directory p)
    (hb : b.state = .directory q) :
    a = { b with state := .directory p } ↔ erasePosix a = erasePosix b := by
  rw [erasePosix_of_directory ha, erasePosix_of_directory hb]
  constructor
  · intro h
    rw [h]
  · intro h
    -- the record of `a` is that of `b` once the erased state is put back
    have hback : ({ ({ a with state := .directory {} } : ObjectLayout) with
          state := .directory p } : ObjectLayout)
        = { ({ b with state := .directory {} } : ObjectLayout) with
          state := .directory p } := by rw [h]
    have hself : ({ a with state := .directory p } : ObjectLayout) = a := by rw [← ha]
    exact hself.symm.trans hback

theorem file_moved_iff (hnormal : a.Normalized) (ha : a.isDirectory = false)
    (hb : b.isDirectory = false) :
    a = b.setFsPosix a.fsPosix ↔ erasePosix a = erasePosix b := by
  rw [erasePosix_of_not_directory ha, erasePosix_of_not_directory hb]
  constructor
  · intro h
    calc a.setFsPosix none = (b.setFsPosix a.fsPosix).setFsPosix none := by rw [← h]
      _ = b.setFsPosix none := setFsPosix_setFsPosix ..
  · intro h
    calc a = a.setFsPosix a.fsPosix := hnormal.setFsPosix_fsPosix.symm
      _ = (a.setFsPosix none).setFsPosix a.fsPosix := (setFsPosix_setFsPosix ..).symm
      _ = (b.setFsPosix none).setFsPosix a.fsPosix := by rw [h]
      _ = b.setFsPosix a.fsPosix := setFsPosix_setFsPosix ..

variable {Archive : Type} [DecidableEq Archive] (enc : Encoding Archive)

theorem posixOnlyMoved_cases (a b : ObjectLayout) :
    (∃ p q, a.state = .directory p ∧ b.state = .directory q
        ∧ posixOnlyMoved enc a b = enc.sameBytes a { b with state := .directory p })
      ∨ (a.isDirectory = false ∧ b.isDirectory = false
        ∧ posixOnlyMoved enc a b = enc.sameBytes a (b.setFsPosix a.fsPosix))
      ∨ (a.isDirectory ≠ b.isDirectory ∧ posixOnlyMoved enc a b = false) := by
  unfold isDirectory posixOnlyMoved
  cases a.state with
  | directory p =>
    cases b.state with
    | directory q => exact .inl ⟨p, q, rfl, rfl, rfl⟩
    | _ => exact .inr (.inr ⟨Bool.true_eq_false.mp, rfl⟩)
  | _ =>
    cases b.state with
    | directory q => exact .inr (.inr ⟨Bool.false_eq_true.mp, rfl⟩)
    | _ => exact .inr (.inl ⟨rfl, rfl, rfl⟩)

theorem posixOnlyMoved_iff (hnormal : a.Normalized) :
    posixOnlyMoved enc a b = true ↔ erasePosix a = erasePosix b := by
  rcases posixOnlyMoved_cases enc a b with ⟨p, q, ha, hb, heq⟩ | ⟨ha, hb, heq⟩ | ⟨hkind, heq⟩
  · rw [heq, enc.sameBytes_iff]
    exact directory_moved_iff ha hb
  · rw [heq, enc.sameBytes_iff]
    exact file_moved_iff hnormal ha hb
  · rw [heq]
    constructor
    · nofun
    · intro h
      refine absurd ?_ hkind
      rw [← isDirectory_erasePosix a, ← isDirectory_erasePosix b, h]

end

/-! ## §3. Setting attributes -/

def carriesPosix (layout : ObjectLayout) : Bool :=
  match layout.state with
  | .directory _ | .normal _ _ | .mpu (.completed _) | .symlink _ _ | .special _ _ _ => true
  | .mpu .uploading | .indirect _ => false

theorem layoutWithPosix_cases (layout : ObjectLayout) (p : PosixAttrs) :
    (∃ q, layout.state = .directory q
      ∧ layoutWithPosix layout p = { layout with state := .directory p })
      ∨ (layout.isDirectory = false ∧ carriesPosix layout = true
        ∧ layoutWithPosix layout p = layout.setFsPosix (some p))
      ∨ (carriesPosix layout = false ∧ layoutWithPosix layout p = layout) := by
  unfold isDirectory carriesPosix layoutWithPosix
  cases layout.state with
  | directory q => exact .inl ⟨q, rfl, rfl⟩
  | normal | symlink | special => exact .inr (.inl ⟨rfl, rfl, rfl⟩)
  | mpu state =>
    cases state with
    | uploading => exact .inr (.inr ⟨rfl, rfl⟩)
    | completed => exact .inr (.inl ⟨rfl, rfl, rfl⟩)
  | indirect => exact .inr (.inr ⟨rfl, rfl⟩)

theorem erasePosix_layoutWithPosix (layout : ObjectLayout) (p : PosixAttrs) :
    erasePosix (layoutWithPosix layout p) = erasePosix layout := by
  rcases layoutWithPosix_cases layout p with ⟨q, hstate, heq⟩ | ⟨hdir, -, heq⟩ | ⟨-, heq⟩
  · rw [heq, erasePosix_of_directory hstate, erasePosix_of_directory rfl]
  · have hdir' : (layout.setFsPosix (some p)).isDirectory = false := hdir ▸ isDirectory_congr rfl
    rw [heq, erasePosix_of_not_directory hdir, erasePosix_of_not_directory hdir']
    exact setFsPosix_setFsPosix ..
  · rw [heq]

variable {layout : ObjectLayout}

theorem normalized_layoutWithPosix (h : layout.Normalized) (p : PosixAttrs) :
    (layoutWithPosix layout p).Normalized := by
  rcases layoutWithPosix_cases layout p with ⟨q, -, heq⟩ | ⟨-, -, heq⟩ | ⟨-, heq⟩
  · rw [heq]
    exact h
  · rw [heq]
    exact normalized_updateFsExt _ _
  · rw [heq]
    exact h

theorem layoutPosix_of_file (hdir : layout.isDirectory = false)
    (hcarries : carriesPosix layout = true) : layoutPosix layout = layout.fsPosix.getD {} := by
  unfold isDirectory at hdir
  unfold carriesPosix at hcarries
  unfold layoutPosix
  cases hstate : layout.state with
  | directory q =>
    rw [hstate] at hdir
    cases hdir
  | normal | symlink | special => rfl
  | mpu state =>
    cases state with
    | uploading =>
      rw [hstate] at hcarries
      cases hcarries
    | completed => rfl
  | indirect =>
    rw [hstate] at hcarries
    cases hcarries

theorem layoutPosix_layoutWithPosix (h : carriesPosix layout = true) (p : PosixAttrs) :
    layoutPosix (layoutWithPosix layout p) = p := by
  rcases layoutWithPosix_cases layout p with ⟨q, -, heq⟩ | ⟨hdir, -, heq⟩ | ⟨hnone, -⟩
  · rw [heq]
    rfl
  · -- the mutator keeps the state, and with it the shape
    have hdir' : (layout.setFsPosix (some p)).isDirectory = false := hdir ▸ isDirectory_congr rfl
    have hcarries' : carriesPosix (layout.setFsPosix (some p)) = true := h
    rw [heq, layoutPosix_of_file hdir' hcarries', fsPosix_setFsPosix]
    rfl
  · rw [h] at hnone
    cases hnone

/-! ## §4. Committed data -/

theorem sameCommittedData_of_erasePosix {a b : ObjectLayout} {guid guid' : Gateway.DataBlobGuid}
    {core core' : Objects.ObjectCoreMetaData} (ha : a.state = .normal guid core)
    (hb : b.state = .normal guid' core') (h : erasePosix a = erasePosix b) :
    sameCommittedData a b = true := by
  have hdira : a.isDirectory = false := by
    unfold isDirectory
    rw [ha]
  have hdirb : b.isDirectory = false := by
    unfold isDirectory
    rw [hb]
  rw [erasePosix_of_not_directory hdira, erasePosix_of_not_directory hdirb] at h
  -- the mutator leaves all fields but the extension
  have hstate : a.state = b.state := by
    show (a.setFsPosix none).state = (b.setFsPosix none).state
    rw [h]
  have hversion : a.blobVersion = b.blobVersion := by
    show (a.setFsPosix none).blobVersion = (b.setFsPosix none).blobVersion
    rw [h]
  have hsize : a.blockSize = b.blockSize := by
    show (a.setFsPosix none).blockSize = (b.setFsPosix none).blockSize
    rw [h]
  have hepoch : a.mapEpoch = b.mapEpoch := by
    rw [← mapEpoch_setFsPosix a none, ← mapEpoch_setFsPosix b none, h]
  unfold sameCommittedData
  rw [ha, hb] at hstate
  cases hstate
  rw [ha, hb]
  simp [hversion, hsize, hepoch]

abbrev NormalLayout := { layout : ObjectLayout // layout.Normalized }

/-- ★ **Agreement up to attributes.** On normalized layouts `posix_only_moved` is equality without
    the attributes, and an equivalence; `layout_with_posix` stays within it, and sets what
    `layout_posix` reads; and the committed data is the same throughout. -/
theorem posixOnlyMoved_agreement {Archive : Type} [DecidableEq Archive] (enc : Encoding Archive) :
    (∀ a b : NormalLayout, posixOnlyMoved enc a b = true ↔ erasePosix a = erasePosix b)
    ∧ Equivalence (fun a b : NormalLayout => posixOnlyMoved enc a b = true)
    ∧ (∀ (l : NormalLayout) (p : PosixAttrs), (layoutWithPosix l p).Normalized
      ∧ posixOnlyMoved enc l (layoutWithPosix l p) = true ∧ posixOnlyMoved enc (layoutWithPosix l p)
        l = true)
    ∧ (∀ (l : NormalLayout) (p : PosixAttrs), carriesPosix l = true →
      layoutPosix (layoutWithPosix l p) = p)
    ∧ ∀ (a b : NormalLayout) (guid guid' : Gateway.DataBlobGuid)
      (core core' : Objects.ObjectCoreMetaData), a.val.state = .normal guid core →
        b.val.state = .normal guid' core' → posixOnlyMoved enc a b = true →
      sameCommittedData a b = true := by
  have hiff : ∀ a b : NormalLayout, posixOnlyMoved enc a b = true ↔ erasePosix a = erasePosix b :=
    fun a _ => posixOnlyMoved_iff enc a.property
  refine ⟨hiff, ⟨?_, ?_, ?_⟩, ?_, ?_, ?_⟩
  · intro a
    exact (hiff a a).mpr rfl
  · intro a b h
    exact (hiff b a).mpr ((hiff a b).mp h).symm
  · intro a b c hab hbc
    exact (hiff a c).mpr (((hiff a b).mp hab).trans ((hiff b c).mp hbc))
  · intro l p
    have hset := normalized_layoutWithPosix l.property p
    exact ⟨hset, (posixOnlyMoved_iff enc l.property).mpr (erasePosix_layoutWithPosix l.val p).symm,
      (posixOnlyMoved_iff enc hset).mpr (erasePosix_layoutWithPosix l.val p)⟩
  · intro l p hcarries
    exact layoutPosix_layoutWithPosix hcarries p
  · intro a b guid guid' core core' ha hb h
    exact sameCommittedData_of_erasePosix ha hb ((hiff a b).mp h)

/-! ## §5. Two layouts of one file -/

/-- The encoding whose archive is the layout itself. -/
def selfEncoding : Encoding ObjectLayout where
  layoutBytes := some
  total _ := rfl
  injective _ _ := Option.some.inj

def bareFile : NormalLayout :=
  ⟨⟨0, 0, 4096, 1, none, .normal ⟨7, 0⟩ ⟨4096, [], [], none⟩⟩, by decide⟩

/-- The same file after a `chown`. -/
def ownedFile : NormalLayout :=
  ⟨layoutWithPosix bareFile.val { mode := 0o644, uid := 7 }, by decide⟩

theorem posixOnlyMoved_agreement_at_sample :
    bareFile ≠ ownedFile ∧ layoutPosix ownedFile.val = { mode := 0o644, uid := 7 } ∧
      posixOnlyMoved selfEncoding bareFile.val ownedFile.val = true ∧
      sameCommittedData bareFile.val ownedFile.val = true := by
  obtain ⟨-, -, hstays, hreads, hdata⟩ := posixOnlyMoved_agreement selfEncoding
  have hmoved : posixOnlyMoved selfEncoding bareFile.val ownedFile.val = true :=
    (hstays bareFile _).2.1
  exact ⟨by decide, hreads bareFile _ rfl, hmoved, hdata bareFile ownedFile _ _ _ _ rfl rfl hmoved⟩

end FractalBits.Filesystem
