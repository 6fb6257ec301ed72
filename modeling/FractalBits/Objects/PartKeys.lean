/-
  Objects.PartKeys — the keys of users and the keys of parts.

  A client can write to the key of a part, too.
-/

import FractalBits.Lib.Hexadecimal
import FractalBits.Objects.CreateUpload
import FractalBits.Objects.Keyspace

namespace FractalBits.Objects

open Lib Streaming Gateway List
open OvrMap (Uuid)

attribute [local irreducible] Uuid.asSimple

/-! ## §1. Accepted keys -/

/-- A key that `PutObject` and `CreateMultipartUpload` accept. -/
def AcceptedKey (key : Bytes) : Prop :=
  UserKey key ∧ utf8Valid key = true ∧ checkKeyName key = .ok () ∧ rejectTrailingSlashKey key = .ok
    ()

instance (key : Bytes) : Decidable (AcceptedKey key) := inferInstanceAs (Decidable (_ ∧ _ ∧ _ ∧ _))

/-! ## §2. Part keys -/

theorem length_asSimple (id : Uuid) : (Uuid.asSimple id).length = 32 := by
  unfold Uuid.asSimple
  exact hexPad_length 32 id.toNat

theorem asSimple_inj {id id' : Uuid} (h : Uuid.asSimple id = Uuid.asSimple id') : id = id' := by
  have hfits : ∀ id : Uuid, id.toNat < 16 ^ 32 := fun id => id.isLt
  unfold Uuid.asSimple at h
  exact BitVec.eq_of_toNat_eq (hexPad_inj (hfits id) (hfits id') h)

def partTail (uploadId : Uuid) (partNumber : Nat) : Bytes :=
  35 :: (Uuid.asSimple uploadId ++ 47 :: fixedDecimal 4 (partNumber - 1))

theorem length_partTail (uploadId : Uuid) (partNumber : Nat) :
    (partTail uploadId partNumber).length = 38 := by
  simp [partTail, length_asSimple]

theorem partKey_eq {key : Bytes} {uploadId : Uuid} {n : Nat} (h : IsPartNumber n) :
    mpuGetPartPrefix key uploadId n = key ++ partTail uploadId n := by
  have hhash : ascii "#" = [35] := by decide
  have hslash : ascii "/" = [47] := by decide
  rw [mpuGetPartPrefix_eq h.1 h.2, partsPrefix, partTail, hhash, hslash]
  simp

theorem partKey_inj_all {key key' : Bytes} {uploadId uploadId' : Uuid} {m n : Nat}
    (hm : IsPartNumber m) (hn : IsPartNumber n)
    (h : mpuGetPartPrefix key uploadId m = mpuGetPartPrefix key' uploadId' n) :
    key = key' ∧ uploadId = uploadId' ∧ m = n := by
  have hsplit := h
  rw [partKey_eq hm, partKey_eq hn] at hsplit
  -- the tails have one length, so both sides are cut at the same place
  obtain ⟨hkey, htail⟩ := append_inj' hsplit (by rw [length_partTail, length_partTail])
  obtain ⟨hid, -⟩ := append_inj (List.cons.inj htail).2 (by rw [length_asSimple, length_asSimple])
  have hupload := asSimple_inj hid
  subst hkey hupload
  exact ⟨rfl, rfl, partKey_inj hm hn h⟩

/-! ## §3. Keys that look like parts -/

def looksLikePart (tail : Bytes) : Bool :=
  tail.length = 38 && tail.take 1 = [35] && ((tail.drop 1).take 32).all isLowerHex
    && (tail.drop 33).take 1 = [47] && (tail.drop 34).all fun b => 48 ≤ b && b ≤ 57

theorem looksLikePart_partTail (uploadId : Uuid) (n : Nat) :
    looksLikePart (partTail uploadId n) = true := by
  have hlength := length_asSimple uploadId
  have hhex : (Uuid.asSimple uploadId).all isLowerHex = true := by
    rw [all_eq_true]
    intro b hb
    unfold Uuid.asSimple at hb
    obtain ⟨d, hd, rfl⟩ := mem_hexPad hb
    exact isLowerHex_hexDigit d hd
  have hdigits : (fixedDecimal 4 (n - 1)).all (fun b => 48 ≤ b && b ≤ 57) = true := by
    rw [all_eq_true]
    intro b hb
    obtain ⟨hlow, hhigh⟩ := mem_fixedDecimal hb
    simp [hlow, hhigh]
  have htake : (partTail uploadId n).drop 1 = Uuid.asSimple uploadId ++ 47 :: fixedDecimal 4
    (n - 1) := rfl
  have hdrop : (partTail uploadId n).drop 33 = 47 :: fixedDecimal 4 (n - 1) := by
    show (Uuid.asSimple uploadId ++ 47 :: fixedDecimal 4 (n - 1)).drop 32 = _
    exact drop_left' hlength
  have hlast : (partTail uploadId n).drop 34 = fixedDecimal 4 (n - 1) := by
    rw [show 34 = 33 + 1 from rfl, ← drop_drop, hdrop]
    rfl
  unfold looksLikePart
  rw [length_partTail, htake, hdrop, hlast, take_left' hlength, hhex, hdigits]
  rfl

theorem looksLikePart_iff (tail : Bytes) :
    looksLikePart tail = true ↔ ∃ uploadId n, IsPartNumber n ∧ tail = partTail uploadId n := by
  constructor
  · intro h
    unfold looksLikePart at h
    simp only [Bool.and_eq_true, decide_eq_true_eq, all_eq_true] at h
    obtain ⟨⟨⟨⟨hlength, hhash⟩, hhex⟩, hslash⟩, hdigits⟩ := h
    -- the text is its five pieces, and each piece is written as the key writes it
    have hpieces :
      tail = tail.take 1 ++ ((tail.drop 1).take 32 ++ ((tail.drop 33).take 1 ++ tail.drop 34)) := by
      have hlast : tail.drop 34 = (tail.drop 33).drop 1 := by rw [drop_drop]
      have hmiddle : tail.drop 33 = (tail.drop 1).drop 32 := by rw [drop_drop]
      rw [hlast, take_append_drop, hmiddle, take_append_drop, take_append_drop]
    obtain ⟨id, hid, hidText⟩ := exists_hexPad hhex
    obtain ⟨number, hnumber, hnumberText⟩ := exists_fixedDecimal hdigits
    have hidLength : ((tail.drop 1).take 32).length = 32 := by
      rw [length_take, length_drop]
      omega
    have hnumberLength : (tail.drop 34).length = 4 := by
      rw [length_drop]
      omega
    rw [hidLength] at hid hidText
    rw [hnumberLength] at hnumber hnumberText
    refine ⟨BitVec.ofNat 128 id, number + 1, ⟨by omega, by omega⟩, ?_⟩
    have hsimple : Uuid.asSimple (BitVec.ofNat 128 id) = (tail.drop 1).take 32 := by
      rw [← hidText]
      unfold Uuid.asSimple
      rw [BitVec.toNat_ofNat, Nat.mod_eq_of_lt (show id < 2 ^ 128 from hid)]
    rw [partTail, hsimple, Nat.add_sub_cancel, hnumberText]
    rw [hhash, hslash] at hpieces
    exact hpieces
  · rintro ⟨uploadId, n, -, rfl⟩
    exact looksLikePart_partTail uploadId n

/-- The key is the key of a part of another accepted key, by its last 38 bytes. -/
def Collides (key : Bytes) : Prop :=
  looksLikePart (key.drop (key.length - 38)) = true ∧ AcceptedKey (key.take (key.length - 38))

instance (key : Bytes) : Decidable (Collides key) := inferInstanceAs (Decidable (_ ∧ _))

theorem collides_iff (key : Bytes) :
    Collides key ↔ ∃ k uploadId n, AcceptedKey k ∧ IsPartNumber n
      ∧ mpuGetPartPrefix k uploadId n = key := by
  constructor
  · rintro ⟨htail, hfront⟩
    obtain ⟨uploadId, n, hn, heq⟩ := (looksLikePart_iff _).mp htail
    refine ⟨_, uploadId, n, hfront, hn, ?_⟩
    rw [partKey_eq hn, ← heq, take_append_drop]
  · rintro ⟨k, uploadId, n, hk, hn, rfl⟩
    have hcut : (mpuGetPartPrefix k uploadId n).length - 38 = k.length := by
      rw [partKey_eq hn, length_append, length_partTail]
      omega
    unfold Collides
    rw [hcut, partKey_eq hn, drop_left, take_left]
    exact ⟨looksLikePart_partTail uploadId n, hk⟩

/-! ## §4. A PUT and the parts of others -/

theorem putObject_frame {cluster : Cluster} {rounds : Nat} {k k' : Bytes} {upload : Upload}
    {s s' : Site} {r : Except S3Error Unit} (hne : k' ≠ k)
    (h : (putObject rounds k upload).run.Ends cluster.serve AnyDelivery s r s') :
    s'.inodes[k']? = s.inodes[k']? := by
  refine ((keeps_putObject (I := fun t => t.inodes[k']? = s.inodes[k']?) (fun _ _ hs => hs)
    (fun _ _ hs => hs) ?_ rounds).ends rfl h).1
  intro t ht
  rw [← ht]
  exact getElem?_insert_of_ne _ _ hne

/-- The key is no part key, part keys are told apart, numbered and ordered by their parts, and a PUT
    of the key changes none of what is stored at them. -/
def LeavesPartsAlone (key : Bytes) : Prop :=
  ∀ k uploadId n, AcceptedKey k → IsPartNumber n →
    mpuGetPartPrefix k uploadId n ≠ key
    ∧ (∀ k' uploadId' n', AcceptedKey k' → IsPartNumber n' →
      mpuGetPartPrefix k uploadId n = mpuGetPartPrefix k' uploadId' n' → k = k'
        ∧ uploadId = uploadId' ∧ n = n')
    ∧ mpuParsePartNumber (mpuGetPartPrefix k uploadId n) = .ok n
    ∧ (∀ m, IsPartNumber m →
      compare (mpuGetPartPrefix k uploadId m) (mpuGetPartPrefix k uploadId n) = compare m n)
    ∧ ∀ (cluster : Cluster) (rounds : Nat) (upload : Upload) (s s' : Site)
      (r : Except S3Error Unit), (putObject rounds key upload).run.Ends cluster.serve AnyDelivery s
        r s' →
      s'.inodes[mpuGetPartPrefix k uploadId n]? = s.inodes[mpuGetPartPrefix k uploadId n]?

/-- ★ **Keys apart.** A key leaves the parts of all uploads alone exactly if it does not end as part
    keys end behind a key that is accepted. -/
theorem part_keys_apart_iff (key : Bytes) : LeavesPartsAlone key ↔ ¬ Collides key := by
  constructor
  · intro h hcollides
    obtain ⟨k, uploadId, n, hk, hn, heq⟩ := (collides_iff key).mp hcollides
    exact (h k uploadId n hk hn).1 heq
  · intro hapart k uploadId n hk hn
    have hne : mpuGetPartPrefix k uploadId n ≠ key := by
      intro heq
      exact hapart ((collides_iff key).mpr ⟨k, uploadId, n, hk, hn, heq⟩)
    refine ⟨hne, ?_, mpuParsePartNumber_partKey hn.1 hn.2, ?_, ?_⟩
    · intro k' uploadId' n' _ hn' heq
      exact partKey_inj_all hn hn' heq
    · intro m hm
      exact compare_partKey hm hn
    · intro cluster rounds upload s s' r hends
      exact putObject_frame hne hends

def partLikeKey : Bytes := ascii "/k#00000000000000000000000000000007/0000"

theorem put_adds_part_of_another :
    AcceptedKey (ascii "/k") ∧ AcceptedKey partLikeKey
      ∧ mpuGetPartPrefix (ascii "/k") 7 1 = partLikeKey
      ∧ (putObject 0 partLikeKey sampleUpload).run.Ends sampleCluster.serve AnyDelivery
        ⟨∅, fun _ => none, []⟩ (.ok ()) (Site.committed ⟨∅, fun _ => none, []⟩ partLikeKey
          sampleUpload)
      ∧ (Site.committed ⟨∅, fun _ => none, []⟩ partLikeKey sampleUpload).inodes[mpuGetPartPrefix
        (ascii "/k") 7 1]? = some (.layout sampleUpload.stored)
      ∧ ¬ LeavesPartsAlone partLikeKey := by
  have hkey : AcceptedKey (ascii "/k") := by decide
  have hpart : mpuGetPartPrefix (ascii "/k") 7 1 = partLikeKey := by decide +kernel
  have hends : (putObject 0 partLikeKey sampleUpload).run.Ends sampleCluster.serve AnyDelivery
      ⟨∅, fun _ => none, []⟩ (.ok ()) (Site.committed ⟨∅, fun _ => none, []⟩ partLikeKey
        sampleUpload) := by
    have hexec : putOutcome sampleCluster 0 ⟨∅, fun _ => none, []⟩ partLikeKey sampleUpload
        = (.ok (), Site.committed ⟨∅, fun _ => none, []⟩ partLikeKey sampleUpload) := by
      rw [exec_putObject (by decide), cleanup_of_hash (by decide)]
      rfl
    have hrun := ends_answered sampleCluster (putObject 0 partLikeKey sampleUpload).run
      ⟨∅, fun _ => none, []⟩
    unfold putOutcome at hexec
    rwa [hexec] at hrun
  refine ⟨hkey, by decide +kernel, hpart, hends, ?_, ?_⟩
  · rw [hpart]
    exact Std.ExtTreeMap.getElem?_insert_self
  · intro h
    exact (h (ascii "/k") 7 1 hkey ⟨by decide, by decide⟩).1 hpart

end FractalBits.Objects
