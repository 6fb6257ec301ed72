/-
  Lib.Hexadecimal — printable texts, and what hexadecimal writers produce.
-/

import Mathlib.Data.List.Induction
import Mathlib.Data.Nat.Log
import FractalBits.Lib.Text

namespace FractalBits.Lib

open List

/-! ## §1. Printable texts -/

def Printable (s : Bytes) : Prop := ∀ b ∈ s, 0x21 ≤ b ∧ b ≤ 0x7E

instance (s : Bytes) : Decidable (Printable s) := List.decidableBAll ..

namespace Printable

variable {s t : Bytes}

theorem append (hs : Printable s) (ht : Printable t) : Printable (s ++ t) := by
  intro b hb
  rcases mem_append.mp hb with hb | hb
  · exact hs b hb
  · exact ht b hb

theorem not_mem (hs : Printable s) {c : UInt8} (hc : c < 0x21) : c ∉ s := by
  intro h
  have hge := (hs c h).1
  exact absurd hge (UInt8.not_le.mpr hc)

theorem utf8Valid (hs : Printable s) : utf8Valid s = true := by
  show utf8ValidFrom [] s = true
  induction s with
  | nil => rfl
  | cons b s ih =>
    have hb : b ≤ 0x7F := UInt8.le_trans (hs b mem_cons_self).2 (by decide)
    have hfollow : utf8Follow b = some [] := if_pos hb
    rw [utf8ValidFrom, hfollow]
    exact ih fun c hc => hs c (mem_cons_of_mem b hc)

theorem one_line (hs : Printable s) : position crlf s = none := by
  have hskip := position_skip (hs.not_mem (c := 13) (by decide)) [10] []
  rw [append_nil] at hskip
  exact hskip

variable {b : UInt8}

theorem not_blank (hb : 0x21 ≤ b ∧ b ≤ 0x7E) : ¬ ((9 ≤ b ∧ b ≤ 13) ∨ b = 0x20) := by
  simp only [UInt8.le_iff_toNat_le, ← UInt8.toNat_inj] at hb ⊢
  simp only [UInt8.reduceToNat] at hb ⊢
  omega

theorem stripSpace_visible (hb : 0x21 ≤ b ∧ b ≤ 0x7E) (s : Bytes) : stripSpace (b :: s) = none := by
  unfold stripSpace
  simp only [if_neg (not_blank hb)]
  split
  · exact absurd hb (by decide)
  · exact absurd hb (by decide)
  · exact absurd hb (by decide)
  · exact absurd hb (by decide)
  · exact absurd hb (by decide)
  · rfl

theorem stripSpaceRev_visible (hb : 0x21 ≤ b ∧ b ≤ 0x7E) (s : Bytes) :
    stripSpaceRev (b :: s) = none := by
  unfold stripSpaceRev
  simp only [if_neg (not_blank hb)]
  split
  · exact absurd hb (by decide)
  · exact absurd hb (by decide)
  · exact absurd hb (by decide)
  · exact absurd hb (by decide)
  · exact absurd hb (by decide)
  · apply if_neg
    simp only [UInt8.le_iff_toNat_le, ← UInt8.toNat_inj] at hb ⊢
    simp only [UInt8.reduceToNat] at hb ⊢
    omega
  · rfl

theorem stripWhile_of_none {strip : Bytes → Option Bytes} {s : Bytes} (h : strip s = none)
    (n : Nat) :
    stripWhile strip n s = s := by
  cases n with
  | zero => rfl
  | succ n => rw [stripWhile, h]

theorem trim_eq (hs : Printable s) : trim s = s := by
  have hstart : trimStart s = s := by
    apply stripWhile_of_none
    cases s with
    | nil => rfl
    | cons b s => exact stripSpace_visible (hs b mem_cons_self) s
  have hend : stripSpaceRev s.reverse = none := by
    cases hrev : s.reverse with
    | nil => rfl
    | cons b t =>
      have hb : b ∈ s := mem_reverse.mp (hrev ▸ mem_cons_self)
      exact stripSpaceRev_visible (hs b hb) t
  show (stripWhile stripSpaceRev (trimStart s).length (trimStart s).reverse).reverse = s
  rw [hstart, stripWhile_of_none hend, reverse_reverse]

end Printable

/-! ## §2. Hexadecimal digits -/

theorem printable_hexDigit {d : Nat} (hd : d < 16) : 0x21 ≤ hexDigit d ∧ hexDigit d ≤ 0x7E := by
  revert d
  decide

theorem printable_hexPad (w n : Nat) : Printable (hexPad w n) := by
  intro b hb
  obtain ⟨d, hd, rfl⟩ := mem_hexPad hb
  exact printable_hexDigit hd

/-- `n` in lower-case hexadecimal with as many digits as it needs: `{:x}`. -/
def lowerHex (n : Nat) : Bytes := hexPad (Nat.log 16 n + 1) n

theorem printable_lowerHex (n : Nat) : Printable (lowerHex n) := printable_hexPad _ _

theorem fromStrRadix16_lowerHex {bound n : Nat} (hb : n < bound) :
    fromStrRadix16 bound (lowerHex n) = some n :=
  fromStrRadix16_hexPad bound (Nat.log 16 n) n (Nat.lt_pow_succ_log_self (by decide) n) hb

theorem hexPad_inj {w m n : Nat} (hm : m < 16 ^ w) (hn : n < 16 ^ w)
    (h : hexPad w m = hexPad w n) : m = n := by
  have hvalue := hexValueFrom_hexPad w m 0 hm
  rw [h, hexValueFrom_hexPad w n 0 hn] at hvalue
  have := Option.some.inj hvalue
  omega

def isLowerHex (b : UInt8) : Bool := (48 ≤ b && b ≤ 57) || (97 ≤ b && b ≤ 102)

theorem isLowerHex_hexDigit (d : Nat) (hd : d < 16) : isLowerHex (hexDigit d) = true := by
  revert d
  decide

theorem exists_hexDigit {b : UInt8} (h : isLowerHex b = true) : ∃ d < 16, b = hexDigit d := by
  unfold isLowerHex at h
  simp only [Bool.or_eq_true, Bool.and_eq_true, decide_eq_true_eq, UInt8.le_iff_toNat_le] at h
  rcases h with ⟨hlow, hhigh⟩ | ⟨hlow, hhigh⟩
  · have hlow : 48 ≤ b.toNat := hlow
    have hhigh : b.toNat ≤ 57 := hhigh
    refine ⟨b.toNat - 48, by omega, ?_⟩
    rw [hexDigit, if_pos (by omega), Nat.add_sub_cancel' hlow, UInt8.ofNat_toNat]
  · have hlow : 97 ≤ b.toNat := hlow
    have hhigh : b.toNat ≤ 102 := hhigh
    refine ⟨b.toNat - 87, by omega, ?_⟩
    rw [hexDigit, if_neg (by omega), Nat.add_sub_cancel' (by omega), UInt8.ofNat_toNat]

theorem exists_hexPad {s : Bytes} (h : ∀ b ∈ s, isLowerHex b = true) :
    ∃ n < 16 ^ s.length, hexPad s.length n = s := by
  induction s using List.reverseRecOn with
  | nil => exact ⟨0, by decide, rfl⟩
  | append_singleton s b ih =>
    simp only [forall_mem_append, forall_mem_singleton] at h
    obtain ⟨front, hlt, hfront⟩ := ih h.1
    obtain ⟨d, hd, rfl⟩ := exists_hexDigit h.2
    have hdiv : (front * 16 + d) / 16 = front := by omega
    have hmod : (front * 16 + d) % 16 = d := by omega
    rw [length_append, length_singleton]
    refine ⟨front * 16 + d, ?_, ?_⟩
    · rw [Nat.pow_succ]
      omega
    · rw [hexPad, hdiv, hmod, hfront]

theorem printable_hexEncode (s : Bytes) : Printable (hexEncode s) := by
  intro b hb
  obtain ⟨c, -, hc⟩ := mem_flatMap.mp hb
  have hlt := c.toNat_lt
  rcases mem_cons.mp hc with rfl | hc
  · exact printable_hexDigit (by omega)
  · rw [mem_singleton.mp hc]
    exact printable_hexDigit (by omega)

theorem not_mem_hexEncode {c : UInt8} (hc : hexVal c = none) (s : Bytes) : c ∉ hexEncode s := by
  intro h
  obtain ⟨b, -, hb⟩ := mem_flatMap.mp h
  have hlt := b.toNat_lt
  have hdigit : ∃ d < 16, c = hexDigit d := by
    rcases mem_cons.mp hb with rfl | hb
    · exact ⟨b.toNat / 16, by omega, rfl⟩
    · exact ⟨b.toNat % 16, by omega, mem_singleton.mp hb⟩
  obtain ⟨d, hd, rfl⟩ := hdigit
  rw [hexVal_hexDigit d hd] at hc
  cases hc

theorem hexDecode_hexEncode (s : Bytes) : hexDecode (hexEncode s) = some s := by
  induction s with
  | nil => rfl
  | cons b s ih =>
    have hlt := b.toNat_lt
    have hhigh := hexVal_hexDigit (b.toNat / 16) (by omega)
    have hlow := hexVal_hexDigit (b.toNat % 16) (by omega)
    show hexDecode (hexDigit (b.toNat / 16) :: hexDigit (b.toNat % 16) :: hexEncode s) = _
    have hbyte : UInt8.ofNat (b.toNat / 16 * 16 + b.toNat % 16) = b := by
      rw [Nat.div_add_mod' b.toNat 16, UInt8.ofNat_toNat]
    rw [hexDecode, hhigh, hlow, ih]
    simp only [hbyte]

end FractalBits.Lib
