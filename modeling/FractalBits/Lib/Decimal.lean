/-
  Lib.Decimal — decimal numbers of a fixed width, as text.

  Padded numbers sort as text the way they do as numbers.
-/

import FractalBits.Lib.Bytes
import Mathlib.Data.List.Induction
import Mathlib.Tactic.IntervalCases
import Mathlib.Order.Compare

namespace FractalBits.Lib

open List

/-! ## §1. Numerals -/

def fixedDecimal : Nat → Nat → Bytes
  | 0, _ => []
  | width + 1, n => fixedDecimal width (n / 10) ++ [UInt8.ofNat (48 + n % 10)]

@[simp] theorem length_fixedDecimal (width n : Nat) : (fixedDecimal width n).length = width := by
  induction width generalizing n with
  | zero => rfl
  | succ width ih => rw [fixedDecimal, length_append, ih, length_singleton]

theorem fixedDecimal_zero (width : Nat) : fixedDecimal width 0 = List.replicate width 48 := by
  induction width with
  | zero => rfl
  | succ width ih => rw [fixedDecimal, Nat.zero_div, ih, replicate_succ']; rfl

theorem toNat_digit {d : Nat} (h : d < 10) : (UInt8.ofNat (48 + d)).toNat = 48 + d :=
  UInt8.toNat_ofNat_of_lt' (by show 48 + d < 256; omega)

variable {width n : Nat}

theorem mem_fixedDecimal {b : UInt8} (h : b ∈ fixedDecimal width n) : 48 ≤ b ∧ b ≤ 57 := by
  induction width generalizing n with
  | zero => cases h
  | succ width ih =>
    rw [fixedDecimal] at h
    rcases mem_append.mp h with h | h
    · exact ih h
    · rw [mem_singleton.mp h, UInt8.le_iff_toNat_le, UInt8.le_iff_toNat_le,
        toNat_digit (Nat.mod_lt _ (by decide))]
      have hlt := Nat.mod_lt n (show 10 > 0 by decide)
      exact ⟨Nat.le_add_right _ _, by show 48 + n % 10 ≤ 57; omega⟩

theorem exists_fixedDecimal {s : Bytes} (h : ∀ b ∈ s, 48 ≤ b ∧ b ≤ 57) :
    ∃ n < 10 ^ s.length, fixedDecimal s.length n = s := by
  induction s using List.reverseRecOn with
  | nil => exact ⟨0, by decide, rfl⟩
  | append_singleton s b ih =>
    simp only [forall_mem_append, forall_mem_singleton] at h
    obtain ⟨front, hlt, hfront⟩ := ih h.1
    have hlow : 48 ≤ b.toNat := UInt8.le_iff_toNat_le.mp h.2.1
    have hhigh : b.toNat ≤ 57 := UInt8.le_iff_toNat_le.mp h.2.2
    have hdiv : (front * 10 + (b.toNat - 48)) / 10 = front := by omega
    have hmod : 48 + (front * 10 + (b.toNat - 48)) % 10 = b.toNat := by omega
    rw [length_append, length_singleton]
    refine ⟨front * 10 + (b.toNat - 48), ?_, ?_⟩
    · rw [Nat.pow_succ]
      omega
    · rw [fixedDecimal, hdiv, hmod, hfront, UInt8.ofNat_toNat]

/-! ## §2. Padding -/

def digitText (n : Nat) : Bytes := (Nat.toDigits 10 n).map fun c => UInt8.ofNat c.toNat

theorem digitText_of_lt (h : n < 10) : digitText n = [UInt8.ofNat (48 + n)] := by
  unfold digitText
  rw [Nat.toDigits_of_lt_base h]
  interval_cases n <;> rfl

theorem digitText_of_le (h : 10 ≤ n) :
    digitText n = digitText (n / 10) ++ [UInt8.ofNat (48 + n % 10)] := by
  have hdigit : n % 10 < 10 := Nat.mod_lt _ (by decide)
  have hsplit := Nat.toDigits_append_toDigits (show 1 < 10 by decide) (show 0 < n / 10 by omega)
    hdigit
  rw [Nat.div_add_mod] at hsplit
  rw [digitText, ← hsplit, map_append, ← digitText, ← digitText, digitText_of_lt hdigit]

theorem pad_eq_fixedDecimal (h : n < 10 ^ (width + 1)) :
    List.replicate (width + 1 - (digitText n).length) 48 ++ digitText n
      = fixedDecimal (width + 1) n := by
  induction width generalizing n with
  | zero =>
    rw [digitText_of_lt (by simpa using h), fixedDecimal, Nat.mod_eq_of_lt (by simpa using h)]
    rfl
  | succ width ih =>
    by_cases hlt : n < 10
    · rw [digitText_of_lt hlt, fixedDecimal, Nat.div_eq_of_lt hlt, fixedDecimal_zero,
        Nat.mod_eq_of_lt hlt]
      rfl
    · have hdiv : n / 10 < 10 ^ (width + 1) := by
        rw [Nat.pow_succ] at h
        exact Nat.div_lt_of_lt_mul (by rw [Nat.mul_comm]; exact h)
      rw [digitText_of_le (by omega), fixedDecimal, ← ih hdiv, length_append, length_singleton,
        Nat.add_sub_add_right, append_assoc]

/-! ## §3. Values and order -/

theorem value_fixedDecimal (width n start : Nat) :
    (fixedDecimal width n).foldl (fun v b => v * 10 + (b.toNat - 48)) start = start * 10 ^ width + n
      % 10 ^ width := by
  induction width generalizing n with
  | zero => rw [fixedDecimal, foldl_nil, Nat.pow_zero, Nat.mod_one, Nat.mul_one, Nat.add_zero]
  | succ width ih =>
    rw [fixedDecimal, foldl_append, ih, foldl_cons, foldl_nil,
      toNat_digit (Nat.mod_lt _ (by decide)), Nat.add_sub_cancel_left, Nat.pow_succ', Nat.mod_mul,
        Nat.add_mul, Nat.mul_assoc]
    rw [Nat.mul_comm (10 ^ width) 10, Nat.mul_comm (n / 10 % 10 ^ width) 10]
    omega

theorem compare_append_left (front x y : Bytes) :
    compare (front ++ x) (front ++ y) = compare x y := by
  induction front with
  | nil => rfl
  | cons c front ih =>
    rw [List.cons_append, List.cons_append, List.compare_cons_cons, Std.compare_self, ih]; rfl

theorem compare_append_singleton {x y : Bytes} (h : x.length = y.length) (a b : UInt8) :
    compare (x ++ [a]) (y ++ [b]) = (compare x y).then (compare a b) := by
  induction x generalizing y with
  | nil =>
    obtain rfl : y = [] := eq_nil_of_length_eq_zero h.symm
    rw [List.nil_append, List.nil_append, List.compare_cons_cons]
    cases compare a b <;> rfl
  | cons c x ih =>
    cases y with
    | nil => cases h
    | cons d y =>
      rw [List.cons_append, List.cons_append, List.compare_cons_cons, List.compare_cons_cons,
        ih (Nat.succ.inj h), Ordering.then_assoc]

section

variable {base m : Nat}

theorem div_lt_pow_of_lt (h : m < base ^ (width + 1)) : m / base < base ^ width :=
  Nat.div_lt_of_lt_mul (by rwa [Nat.pow_succ'] at h)

theorem compare_concat_digit (hbase : 0 < base) {digit : Nat → UInt8}
    (hdigit : ∀ d < base, ∀ e < base, compare (digit d) (digit e) = compare d e) {x y : Bytes}
    (hlen : x.length = y.length) (hfront : compare x y = compare (m / base) (n / base)) :
    compare (x ++ [digit (m % base)]) (y ++ [digit (n % base)]) = compare m n := by
  rw [compare_append_singleton hlen, hfront, hdigit _ (Nat.mod_lt _ hbase) _ (Nat.mod_lt _ hbase)]
  rcases lt_trichotomy (m / base) (n / base) with hlt | heq | hgt
  · rw [Nat.compare_eq_lt.mpr hlt, Nat.compare_eq_lt.mpr (Nat.lt_of_div_lt_div hlt)]
    rfl
  · have hm := Nat.div_add_mod m base
    have hn := Nat.div_add_mod n base
    rw [heq] at hm
    rw [heq, Nat.compare_eq_eq.mpr rfl]
    show compare (m % base) (n % base) = compare m n
    rcases lt_trichotomy (m % base) (n % base) with hlt | hmod | hgt
    · rw [Nat.compare_eq_lt.mpr hlt, Nat.compare_eq_lt.mpr (by omega)]
    · rw [Nat.compare_eq_eq.mpr hmod, Nat.compare_eq_eq.mpr (by omega)]
    · rw [Nat.compare_eq_gt.mpr hgt, Nat.compare_eq_gt.mpr (by omega)]
  · rw [Nat.compare_eq_gt.mpr hgt, Nat.compare_eq_gt.mpr (Nat.lt_of_div_lt_div hgt)]
    rfl

theorem compare_fixedDecimal (hm : m < 10 ^ width) (hn : n < 10 ^ width) :
    compare (fixedDecimal width m) (fixedDecimal width n) = compare m n := by
  induction width generalizing m n with
  | zero =>
    rw [Nat.pow_zero, Nat.lt_one_iff] at hm hn
    rw [hm, hn]
    rfl
  | succ width ih =>
    have hdigit : ∀ d < 10, ∀ e < 10, compare (UInt8.ofNat (48 + d)) (UInt8.ofNat (48 + e))
      = compare d e := by decide
    exact compare_concat_digit (by decide) hdigit (by simp)
      (ih (div_lt_pow_of_lt hm) (div_lt_pow_of_lt hn))

theorem compare_hexPad (hm : m < 16 ^ width) (hn : n < 16 ^ width) :
    compare (hexPad width m) (hexPad width n) = compare m n := by
  induction width generalizing m n with
  | zero =>
    rw [Nat.pow_zero, Nat.lt_one_iff] at hm hn
    rw [hm, hn]
    rfl
  | succ width ih =>
    exact compare_concat_digit (by decide) (by decide) (by simp)
      (ih (div_lt_pow_of_lt hm) (div_lt_pow_of_lt hn))

end

end FractalBits.Lib
