/-
  Lib.Bytes — byte strings: little-endian integers, hexadecimal text, and the slice operations of a
  string library.

  A text is the byte string of its UTF-8 encoding.
-/

import Mathlib.Algebra.GroupWithZero.Nat
import Mathlib.Data.Nat.Basic
import Mathlib.Data.List.Basic

namespace FractalBits.Lib

open List

abbrev Bytes := List UInt8

instance lawfulBEqBytes : LawfulBEq Bytes := inferInstanceAs (LawfulBEq (List UInt8))

def ascii (s : String) : Bytes := s.toList.map fun c => UInt8.ofNat c.toNat

/-! ## §1. Little-endian integers -/

/-- The `w` low bytes of `n`, least significant first. -/
def leBytes : Nat → Nat → Bytes
  | 0, _ => []
  | w + 1, n => UInt8.ofNat (n % 256) :: leBytes w (n / 256)

def ofLeBytes : Bytes → Nat
  | [] => 0
  | b :: bs => b.toNat + 256 * ofLeBytes bs

@[simp] theorem leBytes_length (w n : Nat) : (leBytes w n).length = w := by
  induction w generalizing n with
  | zero => rfl
  | succ w ih => simp [leBytes, ih]

theorem ofLeBytes_leBytes (w n : Nat) (hn : n < 256 ^ w) : ofLeBytes (leBytes w n) = n := by
  induction w generalizing n with
  | zero => simp only [Nat.pow_zero] at hn; simp only [leBytes, ofLeBytes]; omega
  | succ w ih =>
    have hdiv : n / 256 < 256 ^ w := by rw [Nat.pow_succ] at hn; omega
    simp only [leBytes, ofLeBytes, ih _ hdiv, UInt8.toNat_ofNat']
    omega

theorem leBytes_ofLeBytes (bs : Bytes) : leBytes bs.length (ofLeBytes bs) = bs := by
  induction bs with
  | nil => rfl
  | cons b bs ih =>
    have hb := b.toNat_lt
    have hdiv : (b.toNat + 256 * ofLeBytes bs) / 256 = ofLeBytes bs := by omega
    have hmod : (b.toNat + 256 * ofLeBytes bs) % 256 = b.toNat := by omega
    show UInt8.ofNat ((b.toNat + 256 * ofLeBytes bs) % 256) :: leBytes bs.length
      ((b.toNat + 256 * ofLeBytes bs) / 256) = _
    rw [hdiv, hmod, ih, UInt8.ofNat_toNat]

theorem ofLeBytes_lt (bs : Bytes) : ofLeBytes bs < 256 ^ bs.length := by
  induction bs with
  | nil => exact Nat.one_pos
  | cons b bs ih =>
    have hb := b.toNat_lt
    show b.toNat + 256 * ofLeBytes bs < 256 ^ (bs.length + 1)
    rw [Nat.pow_succ]
    omega

/-! ## §2. Hexadecimal text -/

def hexDigit (d : Nat) : UInt8 :=
  if d < 10 then UInt8.ofNat (48 + d) else UInt8.ofNat (87 + d)

def hexVal (b : UInt8) : Option Nat :=
  if 48 ≤ b.toNat ∧ b.toNat ≤ 57 then some (b.toNat - 48)
  else if 97 ≤ b.toNat ∧ b.toNat ≤ 102 then some (b.toNat - 87)
  else if 65 ≤ b.toNat ∧ b.toNat ≤ 70 then some (b.toNat - 55)
  else none

/-- `n` in lower-case hexadecimal, exactly `w` digits. -/
def hexPad : Nat → Nat → Bytes
  | 0, _ => []
  | w + 1, n => hexPad w (n / 16) ++ [hexDigit (n % 16)]

def hexValueFrom (acc : Nat) : Bytes → Option Nat
  | [] => some acc
  | b :: bs =>
    match hexVal b with
    | none => none
    | some d => hexValueFrom (acc * 16 + d) bs

def stripPlus (src : Bytes) : Bytes :=
  if src.head? = some 43 then src.tail else src

/-- Unsigned integer parsing in base 16: an optional leading `+`, then at least one digit, and a
    value below `bound`. -/
def fromStrRadix16 (bound : Nat) (src : Bytes) : Option Nat :=
  if (stripPlus src).isEmpty then none
  else (hexValueFrom 0 (stripPlus src)).filter (fun v => decide (v < bound))

theorem hexVal_hexDigit (d : Nat) (hd : d < 16) : hexVal (hexDigit d) = some d := by
  revert d
  decide

@[simp] theorem hexPad_length (w n : Nat) : (hexPad w n).length = w := by
  induction w generalizing n with
  | zero => rfl
  | succ w ih => simp [hexPad, ih]

variable {b sep : UInt8} {a : Bytes}

theorem mem_hexPad {w n : Nat} (h : b ∈ hexPad w n) : ∃ d < 16, b = hexDigit d := by
  induction w generalizing n with
  | zero => simp [hexPad] at h
  | succ w ih =>
    rcases mem_append.mp h with h | h
    · exact ih h
    · exact ⟨n % 16, by omega, by simpa using h⟩

theorem not_mem_hexPad {w n : Nat} (hb : hexVal b = none) : b ∉ hexPad w n := by
  intro h
  obtain ⟨d, hd, rfl⟩ := mem_hexPad h
  rw [hexVal_hexDigit d hd] at hb
  cases hb

theorem hexValueFrom_append (acc : Nat) (xs ys : Bytes) :
    hexValueFrom acc (xs ++ ys) = (hexValueFrom acc xs).bind fun v => hexValueFrom v ys := by
  induction xs generalizing acc with
  | nil => rfl
  | cons x xs ih =>
    simp only [cons_append, hexValueFrom]
    cases hexVal x with
    | none => rfl
    | some d => exact ih _

theorem hexValueFrom_hexPad (w n acc : Nat) (hn : n < 16 ^ w) :
    hexValueFrom acc (hexPad w n) = some (acc * 16 ^ w + n) := by
  induction w generalizing n with
  | zero =>
    simp only [Nat.pow_zero] at hn; simp only [hexPad, hexValueFrom, Nat.pow_zero]; congr; omega
  | succ w ih =>
    have hdiv : n / 16 < 16 ^ w := by rw [Nat.pow_succ] at hn; omega
    have hval : (acc * 16 ^ w + n / 16) * 16 + n % 16 = acc * 16 ^ (w + 1) + n := by
      rw [Nat.pow_succ, Nat.add_mul, Nat.mul_assoc]; omega
    rw [hexPad, hexValueFrom_append, ih _ hdiv]
    simp only [Option.bind_some, hexValueFrom, hexVal_hexDigit (n % 16) (by omega), hval]

theorem fromStrRadix16_hexPad (bound w n : Nat) (hn : n < 16 ^ (w + 1)) (hb : n < bound) :
    fromStrRadix16 bound (hexPad (w + 1) n) = some n := by
  have hplus : stripPlus (hexPad (w + 1) n) = hexPad (w + 1) n := by
    have hnot : (43 : UInt8) ∉ hexPad (w + 1) n := not_mem_hexPad (by decide)
    exact if_neg fun h => hnot (mem_of_head? h)
  have hne : (hexPad (w + 1) n).isEmpty = false := by simp [hexPad]
  rw [fromStrRadix16, hplus, hne, if_neg Bool.false_ne_true, hexValueFrom_hexPad _ _ _ hn]
  simp [hb]

/-! ## §3. Slices of a text -/

def stripPrefix : Bytes → Bytes → Option Bytes
  | [], s => some s
  | _ :: _, [] => none
  | p :: ps, c :: s => if p = c then stripPrefix ps s else none

def splitOnce (sep : UInt8) : Bytes → Option (Bytes × Bytes)
  | [] => none
  | c :: s =>
    if c = sep then some ([], s)
    else (splitOnce sep s).map fun (a, b) => (c :: a, b)

def trimEndMatches (b : UInt8) (s : Bytes) : Bytes :=
  (s.reverse.dropWhile (· == b)).reverse

theorem stripPrefix_append (pre s : Bytes) : stripPrefix pre (pre ++ s) = some s := by
  induction pre with
  | nil => rfl
  | cons p ps ih => simp [stripPrefix, ih]

theorem splitOnce_append {b : Bytes} (ha : sep ∉ a) :
    splitOnce sep (a ++ sep :: b) = some (a, b) := by
  induction a with
  | nil => simp [splitOnce]
  | cons c a ih =>
    have hc : c ≠ sep := fun h => ha (by simp [h])
    have hrest : sep ∉ a := fun h => ha (by simp [h])
    simp [splitOnce, hc, ih hrest]

theorem append_cons_inj_first {a' b b' : Bytes} (ha : sep ∉ a) (ha' : sep ∉ a')
    (h : a ++ sep :: b = a' ++ sep :: b') : a = a' ∧ b = b' := by
  have hsplit : some (a, b) = some (a', b') := by
    rw [← splitOnce_append ha, ← splitOnce_append ha', h]
  exact Prod.mk.inj (Option.some.inj hsplit)

theorem append_cons_inj_last {a' b b' : Bytes} (hb : sep ∉ b) (hb' : sep ∉ b')
    (h : a ++ sep :: b = a' ++ sep :: b') : a = a' ∧ b = b' := by
  have hreverse : b.reverse ++ sep :: a.reverse = b'.reverse ++ sep :: a'.reverse := by
    simpa using congrArg List.reverse h
  obtain ⟨hback, hfront⟩ := append_cons_inj_first (by simpa using hb) (by simpa using hb') hreverse
  exact ⟨reverse_inj.mp hfront, reverse_inj.mp hback⟩

theorem trimEndMatches_append_cons {c : UInt8} (h : c ≠ b) (front back : Bytes) :
    ∃ t, trimEndMatches b (front ++ c :: back) = front ++ c :: t := by
  have hcb : (c == b) = false := beq_eq_false_iff_ne.mpr h
  unfold trimEndMatches
  rw [reverse_append, reverse_cons, append_assoc, dropWhile_append]
  split
  · rw [singleton_append, dropWhile_cons, hcb, if_neg Bool.false_ne_true]
    exact ⟨[], by simp⟩
  · exact ⟨(back.reverse.dropWhile (· == b)).reverse, by simp⟩

theorem trimEndMatches_append_replicate (b : UInt8) (s : Bytes) (n : Nat) :
    trimEndMatches b (s ++ List.replicate n b) = trimEndMatches b s := by
  induction n with
  | zero => rw [replicate_zero, append_nil]
  | succ n ih =>
    rw [← ih, replicate_succ', ← append_assoc]
    simp [trimEndMatches]

theorem trimEndMatches_of_getLast? {s : Bytes} (h : s.getLast? ≠ some b) :
    trimEndMatches b s = s := by
  unfold trimEndMatches
  cases hr : s.reverse with
  | nil => rw [reverse_eq_nil_iff.mp hr]; rfl
  | cons c t =>
    have hlast : s.getLast? = some c := by rw [← List.head?_reverse, hr]; rfl
    have hcb : (c == b) = false := beq_eq_false_iff_ne.mpr fun e => h (by rw [hlast, e])
    rw [dropWhile_cons, hcb, if_neg Bool.false_ne_true, ← hr, reverse_reverse]

theorem trimEndMatches_of_not_mem {s : Bytes} (h : b ∉ s) : trimEndMatches b s = s :=
  trimEndMatches_of_getLast? fun hlast => h (mem_of_getLast? hlast)

end FractalBits.Lib
