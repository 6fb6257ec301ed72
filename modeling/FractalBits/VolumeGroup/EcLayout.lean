/-
  VolumeGroup.EcLayout — how an erasure-coded block becomes shards on nodes.

  Mirrors `ec_utils.rs` and the stripe layout of `put_blob_ec`: the body is zero-padded to a
  multiple of `2k`, cut into `k` data shards, extended by `m` parity shards, and shard `i` goes to
  node `(i + rotation) % (k + m)`.
-/

import Mathlib.Data.List.Perm.Subperm
import Mathlib.Data.Nat.ModEq
import Mathlib.Tactic.IntervalCases
import FractalBits.Lib.Bytes
import FractalBits.VolumeGroup.Volume

namespace FractalBits.VolumeGroup

open Lib List

/-! ## §1. The borrowed primitives -/

/-- `reed_solomon_simd`: parity of `k` data shards, and the data shards restored from some data and
    parity shards given with their positions. -/
structure ReedSolomon where
  encode : Nat → Nat → List Bytes → Option (List Bytes)
  decode : Nat → Nat → List (Nat × Bytes) → List (Nat × Bytes) → Option (Nat → Option Bytes)

/-- Parity shards have the size of the data shards, and any `k` shards of one encoding restore the
    data shards that are not among them. -/
structure ReedSolomon.Restores (rs : ReedSolomon) (k m : Nat) : Prop where
  parity_shape : ∀ data parity size, data.length = k → (∀ d ∈ data, d.length = size) →
    rs.encode k m data = some parity → parity.length = m ∧ ∀ p ∈ parity, p.length = size
  restores : ∀ data parity size originals recovery, data.length = k →
    (∀ d ∈ data, d.length = size) → rs.encode k m data = some parity →
    (originals.map Prod.fst).Nodup → (recovery.map Prod.fst).Nodup →
    (∀ e ∈ originals, data[e.1]? = some e.2) → (∀ e ∈ recovery, parity[e.1]? = some e.2) →
    k ≤ originals.length + recovery.length →
    ∃ restored, rs.decode k m originals recovery = some restored ∧
      ∀ i < k, (∀ e ∈ originals, e.1 ≠ i) → restored i = data[i]?

structure EcPrims where
  rs : ReedSolomon
  xxh3 : Bytes → UInt64

/-! ## §2. Placement -/

def ecRotation (crc32 : UInt32) (totalShards : Nat) : Nat := crc32.toNat % totalShards

def shardIndex (nodeIdx rotation total : Nat) : Nat := (nodeIdx + total - rotation) % total

def nodeIndex (shardIdx rotation total : Nat) : Nat := (shardIdx + rotation) % total

variable {total rotation : Nat}

theorem ecRotation_lt (crc32 : UInt32) (h : 0 < total) :
    ecRotation crc32 total < total := Nat.mod_lt _ h

theorem nodeIndex_lt (shardIdx rotation : Nat) (h : 0 < total) :
    nodeIndex shardIdx rotation total < total := Nat.mod_lt _ h

theorem nodeIndex_shardIndex {nodeIdx : Nat} (hn : nodeIdx < total)
    (hr : rotation < total) : nodeIndex (shardIndex nodeIdx rotation total) rotation total
    = nodeIdx := by
  unfold nodeIndex shardIndex
  rw [Nat.mod_add_mod, show nodeIdx + total - rotation + rotation = nodeIdx + total by omega,
    Nat.add_mod_right, Nat.mod_eq_of_lt hn]

theorem shardIndex_nodeIndex {shardIdx : Nat} (hs : shardIdx < total)
    (hr : rotation < total) : shardIndex (nodeIndex shardIdx rotation total) rotation total
    = shardIdx := by
  unfold nodeIndex shardIndex
  have hlt := Nat.mod_lt (shardIdx + rotation) (show 0 < total by omega)
  by_cases hwrap : shardIdx + rotation < total
  · rw [Nat.mod_eq_of_lt hwrap, show shardIdx + rotation + total - rotation = shardIdx + total by
      omega,
      Nat.add_mod_right, Nat.mod_eq_of_lt hs]
  · have hmod : (shardIdx + rotation) % total = shardIdx + rotation - total := by
      rw [Nat.mod_eq_sub_mod (by omega), Nat.mod_eq_of_lt (by omega)]
    rw [hmod, show shardIdx + rotation - total + total - rotation = shardIdx by omega,
      Nat.mod_eq_of_lt hs]

theorem nodeIndex_injOn {i j : Nat} (hi : i < total) (hj : j < total)
    (hr : rotation < total) (h : nodeIndex i rotation total = nodeIndex j rotation total) :
    i = j := by
  rw [← shardIndex_nodeIndex hi hr, h, shardIndex_nodeIndex hj hr]

/-! ## §3. The stripe -/

def ecPaddedLen (contentLen dataShards : Nat) : Nat :=
  let stripeSize := dataShards * 2
  if contentLen % stripeSize = 0 then contentLen
  else contentLen + (stripeSize - contentLen % stripeSize)

/-- The cohort identity of a padded body; zero is reserved. -/
def ecCohortTag (P : EcPrims) (padded : Bytes) : UInt64 := max (P.xxh3 padded) 1

def padBody (dataShards : Nat) (body : Bytes) : Bytes :=
  body ++ List.replicate (ecPaddedLen body.length dataShards - body.length) 0

def splitShards (dataShards : Nat) (padded : Bytes) : List Bytes :=
  let shardSize := padded.length / dataShards
  (List.range dataShards).map fun i => (padded.drop (i * shardSize)).take shardSize

def encodeShards (rs : ReedSolomon) (k m : Nat) (padded : Bytes) : Option (List Bytes) :=
  (rs.encode k m (splitShards k padded)).map fun parity => splitShards k padded ++ parity

structure IsStripe (P : EcPrims) (k m : Nat) (padded : Bytes) (shards : List Bytes) : Prop where
  encoded : encodeShards P.rs k m padded = some shards
  dvd : k ∣ padded.length

theorem le_ecPaddedLen (len k : Nat) : len ≤ ecPaddedLen len k := by
  unfold ecPaddedLen
  simp only
  split <;> omega

theorem dvd_ecPaddedLen (len k : Nat) (hk : 0 < k) : k ∣ ecPaddedLen len k := by
  have hstripe : k * 2 ∣ ecPaddedLen len k := by
    unfold ecPaddedLen
    simp only
    split
    · next h => exact Nat.dvd_of_mod_eq_zero h
    · have hlt := Nat.mod_lt len (show 0 < k * 2 by omega)
      have hsplit := Nat.div_add_mod len (k * 2)
      refine ⟨len / (k * 2) + 1, ?_⟩
      rw [Nat.mul_add]
      omega
  exact (Nat.dvd_mul_right k 2).trans hstripe

@[simp] theorem padBody_length (k : Nat) (body : Bytes) :
    (padBody k body).length = ecPaddedLen body.length k := by
  have := le_ecPaddedLen body.length k
  simp only [padBody, length_append, length_replicate]
  omega

theorem padBody_take (k : Nat) (body : Bytes) : (padBody k body).take body.length = body :=
  take_left

theorem ecCohortTag_ne_zero (P : EcPrims) (padded : Bytes) : ecCohortTag P padded ≠ 0 := by
  have hmax : max (P.xxh3 padded) 1 = if P.xxh3 padded ≤ 1 then 1 else P.xxh3 padded := rfl
  rw [ecCohortTag, hmax]
  grind

@[simp] theorem splitShards_length (k : Nat) (padded : Bytes) :
    (splitShards k padded).length = k := by
  simp [splitShards]

theorem flatten_slices (l : Bytes) (size n : Nat) :
    ((List.range n).map fun i => (l.drop (i * size)).take size).flatten = l.take (n * size) := by
  induction n with
  | zero => simp
  | succ n ih =>
    rw [range_succ, map_append, flatten_append, ih, Nat.succ_mul, take_add]
    simp

theorem splitShards_flatten (k : Nat) (padded : Bytes) (h : k ∣ padded.length) :
    (splitShards k padded).flatten = padded := by
  unfold splitShards
  simp only
  rw [flatten_slices, Nat.mul_div_cancel' h, take_length]

theorem splitShards_size (k : Nat) (padded : Bytes) (h : k ∣ padded.length) :
    ∀ d ∈ splitShards k padded, d.length = padded.length / k := by
  intro d hd
  obtain ⟨i, hi, rfl⟩ := mem_map.mp hd
  have hik : i < k := mem_range.mp hi
  have hmul : k * (padded.length / k) = padded.length := Nat.mul_div_cancel' h
  have hle : (i + 1) * (padded.length / k) ≤ k * (padded.length / k) :=
    Nat.mul_le_mul_right _ (by omega)
  rw [Nat.succ_mul] at hle
  rw [length_take, length_drop]
  omega

theorem encodeShards_shape {rs : ReedSolomon} {k m : Nat} (hrs : rs.Restores k m) {padded : Bytes}
    (hdvd : k ∣ padded.length) {shards : List Bytes}
    (h : encodeShards rs k m padded = some shards) :
    ∃ parity, rs.encode k m (splitShards k padded) = some parity ∧
      shards = splitShards k padded ++ parity ∧ parity.length = m ∧
      ∀ s ∈ shards, s.length = padded.length / k := by
  unfold encodeShards at h
  cases hp : rs.encode k m (splitShards k padded) with
  | none => rw [hp] at h; cases h
  | some parity =>
    rw [hp] at h
    injection h with h
    subst h
    have hsize := splitShards_size k padded hdvd
    obtain ⟨hlen, hpsize⟩ := hrs.parity_shape _ _ _ (splitShards_length k padded) hsize hp
    refine ⟨parity, rfl, rfl, hlen, ?_⟩
    intro s hs
    rcases mem_append.mp hs with hs | hs
    · exact hsize s hs
    · exact hpsize s hs

/-! ## §4. A code

The assumptions on the code are met by the smallest one: two data shards and their
exclusive or. -/

def xorBytes (a b : Bytes) : Bytes := List.zipWith (· ^^^ ·) a b

def xorCode : ReedSolomon where
  encode k m data :=
    match k, m, data with
    | 2, 1, [a, b] => some [xorBytes a b]
    | _, _, _ => none
  decode _ _ originals recovery := some fun i =>
    (originals.lookup (1 - i)).bind fun a => (recovery.lookup 0).map (xorBytes a)

theorem xorBytes_cancel {a b : Bytes} (h : a.length = b.length) :
    xorBytes a (xorBytes a b) = b := by
  unfold xorBytes
  induction a generalizing b with
  | nil =>
    cases b with
    | nil => rfl
    | cons y ys => simp at h
  | cons x xs ih =>
    cases b with
    | nil => simp at h
    | cons y ys =>
      have hy : x ^^^ (x ^^^ y) = y := by rw [← UInt8.xor_assoc, UInt8.xor_self, UInt8.zero_xor]
      simp only [zipWith_cons_cons, hy]
      rw [ih (by simpa using h)]

theorem xorBytes_comm (a b : Bytes) : xorBytes a b = xorBytes b a :=
  zipWith_comm_of_comm UInt8.xor_comm

theorem positions_length_le {n : Nat} {l : List (Nat × Bytes)} (hnodup : (l.map Prod.fst).Nodup)
    (hlt : ∀ e ∈ l, e.1 < n) : l.length ≤ n := by
  have hsub : l.map Prod.fst ⊆ List.range n := fun i hi => by
    obtain ⟨e, he, rfl⟩ := mem_map.mp hi
    exact mem_range.mpr (hlt e he)
  have hle := (hnodup.subperm hsub).length_le
  simpa using hle

theorem xorCode_restores : xorCode.Restores 2 1 where
  parity_shape data parity size hlen hsize henc := by
    obtain ⟨a, b, rfl⟩ := length_eq_two.mp hlen
    have ha : a.length = size := hsize a (by simp)
    have hb : b.length = size := hsize b (by simp)
    injection henc with henc
    subst henc
    refine ⟨rfl, fun p hp => ?_⟩
    rw [mem_singleton.mp hp, xorBytes, length_zipWith]
    omega
  restores data parity size originals recovery hlen hsize henc hon hrn horig hrec hcount := by
    obtain ⟨a, b, rfl⟩ := length_eq_two.mp hlen
    have hab : a.length = b.length := (hsize a (by simp)).trans (hsize b (by simp)).symm
    injection henc with henc
    subst henc
    refine ⟨_, rfl, fun i hi hmissing => ?_⟩
    have hrecpos : ∀ e ∈ recovery, e.1 < 1 := fun e he =>
      (List.getElem?_eq_some_iff.mp (hrec e he)).1
    have horigpos : ∀ e ∈ originals, e.1 = 1 - i := fun e he => by
      have hlt : e.1 < 2 := (List.getElem?_eq_some_iff.mp (horig e he)).1
      have hne := hmissing e he
      omega
    have hrle := positions_length_le hrn hrecpos
    have hole : originals.length ≤ 1 := by
      rcases originals with - | ⟨e, - | ⟨e', rest⟩⟩
      · simp
      · simp
      · have h1 := horigpos e (by simp)
        have h2 := horigpos e' (by simp)
        simp [h1, h2] at hon
    obtain ⟨⟨j, d⟩, rfl⟩ := length_eq_one_iff.mp (show originals.length = 1 by omega)
    obtain ⟨⟨j', p⟩, rfl⟩ := length_eq_one_iff.mp (show recovery.length = 1 by omega)
    have hj : j = 1 - i := horigpos (j, d) (by simp)
    have hj' : j' = 0 := by
      have := hrecpos (j', p) (by simp)
      omega
    subst hj hj'
    have hp : xorBytes a b = p := by simpa using hrec (0, p) (by simp)
    have hd := horig (1 - i, d) (by simp)
    subst hp
    interval_cases i
    · have hd : b = d := by simpa using hd
      subst hd
      simp [xorBytes_comm a b, xorBytes_cancel hab.symm]
    · have hd : a = d := by simpa using hd
      subst hd
      simp [xorBytes_cancel hab]

end FractalBits.VolumeGroup
