/-
  VolumeGroup.Volume — the volumes a data volume group accepts and their quorums.

  Mirrors `common/data_types/src/volume.rs` and the validation loop of
  `DataVgProxy::new_with_circuit_breaker`.
-/

import Mathlib.Data.Nat.Basic

namespace FractalBits.VolumeGroup

/-! ## §1. Volumes -/

inductive VolumeMode
  | replicated (n r w : Nat)
  | erasureCoded (dataShards parityShards : Nat)
  deriving DecidableEq, Repr

structure Volume where
  volumeId : UInt16
  nodes : Nat
  mode : VolumeMode
  deriving DecidableEq, Repr

def ecVolumeIdBase : UInt16 := 0x8000

def isEcVolumeId (volumeId : UInt16) : Bool :=
  volumeId ≥ ecVolumeIdBase && volumeId ≠ 0xFFFF

/-- The checks of the proxy's constructor on one volume; the error is the text of its
    `InitializationError`. -/
def Volume.validate (v : Volume) : Except String Unit :=
  match v.mode with
  | .replicated _ r w =>
    if r = 0 then .error s!"Volume {v.volumeId} has invalid r=0"
    else if w = 0 then .error s!"Volume {v.volumeId} has invalid w=0"
    else if w > v.nodes then
      .error s!"Volume {v.volumeId} has w={w} but only {v.nodes} nodes"
    else .ok ()
  | .erasureCoded dataShards parityShards =>
    if ¬ isEcVolumeId v.volumeId then
      .error s!"EC volume {v.volumeId} must be in 0x8000..0xFFFE range"
    else if dataShards = 0 then .error s!"EC volume {v.volumeId} has invalid data_shards=0"
    else if parityShards = 0 then .error s!"EC volume {v.volumeId} has invalid parity_shards=0"
    else if parityShards ≥ dataShards then
      .error (s!"EC volume {v.volumeId} requires parity_shards < data_shards for unique " ++
        "cohort decoding")
    else if v.nodes ≠ dataShards + parityShards then
      .error (s!"EC volume {v.volumeId} has {v.nodes} nodes but expected " ++
        s!"k+m={dataShards + parityShards}")
    else .ok ()

theorem validate_replicated {id : UInt16} {nodes n r w : Nat}
    (h : (Volume.mk id nodes (.replicated n r w)).validate = .ok ()) : 1 ≤ w ∧ w ≤ nodes := by
  simp only [Volume.validate] at h
  split at h
  · cases h
  · split at h
    · cases h
    · split at h
      · cases h
      · omega

theorem validate_erasureCoded {id : UInt16} {nodes k m : Nat}
    (h : (Volume.mk id nodes (.erasureCoded k m)).validate = .ok ()) :
    0 < m ∧ m < k ∧ nodes = k + m := by
  simp only [Volume.validate] at h
  split at h
  · cases h
  · split at h
    · cases h
    · split at h
      · cases h
      · split at h
        · cases h
        · split at h
          · cases h
          · omega

/-! ## §2. Quorums -/

def Volume.writeQuorum (v : Volume) : Nat :=
  match v.mode with
  | .replicated _ _ w => w
  | .erasureCoded dataShards _ => dataShards + 1

/-- The explicit absence answers that prove a key was never written. -/
def Volume.absenceQuorum (v : Volume) : Nat := v.nodes - v.writeQuorum + 1

theorem writeQuorum_le_nodes {v : Volume} (h : v.validate = .ok ()) : v.writeQuorum ≤ v.nodes := by
  obtain ⟨id, nodes, mode⟩ := v
  cases mode with
  | replicated n r w => exact (validate_replicated h).2
  | erasureCoded k m =>
    obtain ⟨hm, hmk, hn⟩ := validate_erasureCoded h
    show k + 1 ≤ nodes
    omega

theorem absenceQuorum_meets_writeQuorum {v : Volume} (h : v.validate = .ok ()) :
    v.absenceQuorum + v.writeQuorum = v.nodes + 1 := by
  have hle := writeQuorum_le_nodes h
  unfold Volume.absenceQuorum
  omega

/-- The shape of an accepted erasure-coded volume: fewer parity shards than data shards, and at
    least one. -/
structure EcGeometry where
  dataShards : Nat
  parityShards : Nat
  parity_pos : 0 < parityShards
  parity_lt : parityShards < dataShards

def EcGeometry.total (g : EcGeometry) : Nat := g.dataShards + g.parityShards

def EcGeometry.ofVolume {id : UInt16} {nodes k m : Nat}
    (h : (Volume.mk id nodes (.erasureCoded k m)).validate = .ok ()) : EcGeometry :=
  ⟨k, m, (validate_erasureCoded h).1, (validate_erasureCoded h).2.1⟩

end FractalBits.VolumeGroup
