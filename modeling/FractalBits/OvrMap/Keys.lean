/-
  OvrMap.Keys — the namespace keys of rows and abort records.

  Mirrors the key functions of `common/data_types/src/ovr_map.rs`.
-/

import FractalBits.Lib.Bytes

namespace FractalBits.OvrMap

open Lib

abbrev Uuid := BitVec 128

def Uuid.asSimple (id : Uuid) : Bytes := hexPad 32 id.toNat

def ovrPrefix : Bytes := ascii "@ovr/"

def ovrAbortValue : Bytes := [1]

variable (blobId : Uuid)

def ovrRowKey (block : UInt32) : Bytes :=
  ovrPrefix ++ Uuid.asSimple blobId ++ ascii "/" ++ hexPad 8 block.toNat

def ovrAbortKey (lo hi : UInt64) : Bytes :=
  ovrPrefix ++ Uuid.asSimple blobId ++ ascii "/x" ++ hexPad 16 lo.toNat ++ ascii "-"
    ++ hexPad 16 hi.toNat

/-- What follows `@ovr/{blob}/` in a listed key. -/
def ovrKeySuffix (key : Bytes) : Option Bytes :=
  (stripPrefix ovrPrefix (trimEndMatches 0 key)).bind fun rest =>
    (splitOnce 47 rest).map fun (_, suffix) => suffix

def parseOvrRowBlock (key : Bytes) : Option UInt32 :=
  (ovrKeySuffix key).bind fun blockHex =>
    if blockHex.length ≠ 8 then none
    else (fromStrRadix16 (2 ^ 32) blockHex).map UInt32.ofNat

def parseOvrAbortRange (key : Bytes) : Option (UInt64 × UInt64) :=
  (ovrKeySuffix key).bind fun encoded =>
    (stripPrefix (ascii "x") encoded).bind fun range =>
      (splitOnce 45 range).bind fun (loHex, hiHex) =>
        if loHex.length ≠ 16 ∨ hiHex.length ≠ 16 then none
        else
          (fromStrRadix16 (2 ^ 64) loHex).bind fun lo =>
            (fromStrRadix16 (2 ^ 64) hiHex).bind fun hi =>
              if lo > 0 ∧ lo ≤ hi then some (UInt64.ofNat lo, UInt64.ofNat hi) else none

/-! ## Round trips -/

theorem ovrKeySuffix_append (suffix : Bytes) (hnul : (0 : UInt8) ∉ suffix) :
    ovrKeySuffix (ovrPrefix ++ Uuid.asSimple blobId ++ ascii "/" ++ suffix) = some suffix := by
  have hkey : ovrPrefix ++ Uuid.asSimple blobId ++ ascii "/" ++ suffix
      = ovrPrefix ++ (Uuid.asSimple blobId ++ 47 :: suffix) := by
    simp [ascii]
  have hdigits : ∀ b, hexVal b = none → b ∉ Uuid.asSimple blobId := fun b hb => not_mem_hexPad hb
  have htrim : (0 : UInt8) ∉ ovrPrefix ++ (Uuid.asSimple blobId ++ 47 :: suffix) := by
    simp only [List.mem_append, List.mem_cons, not_or]
    exact ⟨by decide, hdigits 0 (by decide), by decide, hnul⟩
  rw [ovrKeySuffix, hkey, trimEndMatches_of_not_mem htrim, stripPrefix_append, Option.bind_some,
    splitOnce_append (hdigits 47 (by decide))]
  rfl

theorem parseOvrRowBlock_ovrRowKey (block : UInt32) :
    parseOvrRowBlock (ovrRowKey blobId block) = some block := by
  have hlt := block.toNat_lt
  rw [parseOvrRowBlock, ovrRowKey, ovrKeySuffix_append _ _ (not_mem_hexPad (by decide)),
    Option.bind_some, hexPad_length, if_neg (by decide),
    fromStrRadix16_hexPad (2 ^ 32) 7 block.toNat (by omega) hlt, Option.map_some,
    UInt32.ofNat_toNat]

theorem ovrKeySuffix_ovrAbortKey (lo hi : UInt64) :
    ovrKeySuffix (ovrAbortKey blobId lo hi)
      = some (ascii "x" ++ (hexPad 16 lo.toNat ++ 45 :: hexPad 16 hi.toNat)) := by
  have hkey : ovrAbortKey blobId lo hi = ovrPrefix ++ Uuid.asSimple blobId ++ ascii "/"
      ++ (ascii "x" ++ (hexPad 16 lo.toNat ++ 45 :: hexPad 16 hi.toNat)) := by
    simp [ovrAbortKey, ascii]
  rw [hkey, ovrKeySuffix_append]
  simp only [List.mem_append, List.mem_cons, not_or]
  exact ⟨by decide, not_mem_hexPad (by decide), by decide, not_mem_hexPad (by decide)⟩

theorem parseOvrRowBlock_ovrAbortKey (lo hi : UInt64) :
    parseOvrRowBlock (ovrAbortKey blobId lo hi) = none := by
  rw [parseOvrRowBlock, ovrKeySuffix_ovrAbortKey, Option.bind_some, if_pos]
  simp [ascii]

theorem parseOvrAbortRange_ovrAbortKey (lo hi : UInt64)
    (hlo : lo ≠ 0) (hle : lo ≤ hi) :
    parseOvrAbortRange (ovrAbortKey blobId lo hi) = some (lo, hi) := by
  have hvalid : lo.toNat > 0 ∧ lo.toNat ≤ hi.toNat := by
    refine ⟨Nat.pos_of_ne_zero fun h => hlo ?_, UInt64.le_iff_toNat_le.mp hle⟩
    exact UInt64.toNat_inj.mp h
  have hread : ∀ v : UInt64, fromStrRadix16 (2 ^ 64) (hexPad 16 v.toNat) = some v.toNat := by
    intro v
    have hv := v.toNat_lt
    exact fromStrRadix16_hexPad (2 ^ 64) 15 v.toNat (by omega) hv
  rw [parseOvrAbortRange, ovrKeySuffix_ovrAbortKey, Option.bind_some, stripPrefix_append,
    Option.bind_some, splitOnce_append (not_mem_hexPad (by decide)), Option.bind_some]
  dsimp only
  rw [if_neg (by simp), hread, Option.bind_some, hread, Option.bind_some, if_pos hvalid,
    UInt64.ofNat_toNat, UInt64.ofNat_toNat]

theorem ovrRowKey_injective {b b' : UInt32}
    (h : ovrRowKey blobId b = ovrRowKey blobId b') : b = b' := by
  have := parseOvrRowBlock_ovrRowKey blobId b
  rw [h, parseOvrRowBlock_ovrRowKey] at this
  exact (Option.some.inj this).symm

theorem ovrAbortKey_injective {lo hi lo' hi' : UInt64}
    (h : ovrAbortKey blobId lo hi = ovrAbortKey blobId lo' hi') : lo = lo' ∧ hi = hi' := by
  have hpad : ∀ v v' : UInt64, hexPad 16 v.toNat = hexPad 16 v'.toNat → v = v' := by
    intro v v' heq
    have hv := hexValueFrom_hexPad 16 v.toNat 0 (by have := v.toNat_lt; omega)
    rw [heq, hexValueFrom_hexPad 16 v'.toNat 0 (by have := v'.toNat_lt; omega)] at hv
    have hvalue := Option.some.inj hv
    exact UInt64.toNat_inj.mp (by omega)
  have hsuffix := ovrKeySuffix_ovrAbortKey blobId lo hi
  rw [h, ovrKeySuffix_ovrAbortKey] at hsuffix
  have htail := List.append_cancel_left (Option.some.inj hsuffix)
  obtain ⟨hlo, hhi⟩ := List.append_inj htail (by simp)
  injection hhi with _ hhi
  exact ⟨(hpad _ _ hlo).symm, (hpad _ _ hhi).symm⟩

theorem ovrRowKey_ne_ovrAbortKey (b : UInt32) (lo hi : UInt64) :
    ovrRowKey blobId b ≠ ovrAbortKey blobId lo hi := by
  intro h
  have := parseOvrRowBlock_ovrRowKey blobId b
  rw [h, parseOvrRowBlock_ovrAbortKey] at this
  cases this

end FractalBits.OvrMap
