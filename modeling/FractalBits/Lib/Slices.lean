/-
  Lib.Slices — a list cut into slices of one length.

  `Sliced n bs`: every slice has `n` elements but the last one, which has at least one and at most
  `n`.
-/

import Mathlib.Data.List.Basic
import Mathlib.Data.Nat.Basic

namespace FractalBits.Lib

open List

variable {α : Type*} {n : Nat} {b : List α} {bs : List (List α)}

inductive Sliced (n : Nat) : List (List α) → Prop
  | nil : Sliced n []
  | last {b : List α} (hpos : 0 < b.length) (hle : b.length ≤ n) : Sliced n [b]
  | full {b : List α} {bs : List (List α)} (hb : b.length = n) (hrest : Sliced n bs) :
    Sliced n (b :: bs)

theorem Sliced.of_full (h : ∀ b ∈ bs, b.length = n) : Sliced n bs := by
  induction bs with
  | nil => exact .nil
  | cons b bs ih =>
    exact .full (h b mem_cons_self) (ih fun c hc => h c (mem_cons_of_mem _ hc))

variable {c : List α}

theorem Sliced.snoc (h : ∀ b ∈ bs, b.length = n) (hpos : 0 < c.length) (hle : c.length ≤ n) :
    Sliced n (bs ++ [c]) := by
  induction bs with
  | nil => exact .last hpos hle
  | cons b bs ih =>
    exact .full (h b mem_cons_self) (ih fun d hd => h d (mem_cons_of_mem _ hd))

theorem Sliced.bounds (h : Sliced n bs) (hn : 0 < n) :
    bs.flatten.length ≤ n * bs.length ∧ (bs ≠ [] → n * (bs.length - 1) < bs.flatten.length) := by
  induction h with
  | nil => exact ⟨le_rfl, fun h => absurd rfl h⟩
  | @last b hpos hle =>
    simp only [flatten_cons, flatten_nil, append_nil, length_cons, length_nil]
    constructor
    · omega
    · intro _
      omega
  | @full b bs hb hrest ih =>
    obtain ⟨hupper, hlower⟩ := ih
    rw [flatten_cons, length_append, hb, length_cons]
    refine ⟨by rw [Nat.mul_succ]; omega, fun _ => ?_⟩
    cases bs with
    | nil => simpa using hn
    | cons c cs =>
      have hlower := hlower (by simp)
      rw [length_cons] at hlower ⊢
      rw [Nat.add_sub_cancel] at hlower ⊢
      rw [Nat.mul_succ]
      omega

theorem Sliced.uncons (h : Sliced n (b :: bs)) (hn : 0 < n) :
    b = (b :: bs).flatten.take n ∧ bs.flatten = (b :: bs).flatten.drop n ∧ b ≠ []
      ∧ Sliced n bs := by
  rw [flatten_cons]
  cases h with
  | last hpos hle =>
    refine ⟨?_, ?_, ne_nil_of_length_pos hpos, .nil⟩
    · rw [flatten_nil, append_nil, take_of_length_le hle]
    · rw [flatten_nil, append_nil, drop_of_length_le hle]
  | full hb hrest =>
    refine ⟨?_, ?_, ne_nil_of_length_pos (by omega), hrest⟩
    · rw [take_left' hb]
    · rw [drop_left' hb]

theorem Sliced.unique {cs : List (List α)} (hbs : Sliced n bs) (hcs : Sliced n cs) (hn : 0 < n)
    (h : bs.flatten = cs.flatten) : bs = cs := by
  induction bs generalizing cs with
  | nil =>
    cases cs with
    | nil => rfl
    | cons c cs =>
      have hnil : c ++ cs.flatten = [] := h.symm
      exact absurd (append_eq_nil_iff.mp hnil).1 (hcs.uncons hn).2.2.1
  | cons b bs ih =>
    cases cs with
    | nil =>
      have hnil : b ++ bs.flatten = [] := h
      exact absurd (append_eq_nil_iff.mp hnil).1 (hbs.uncons hn).2.2.1
    | cons c cs =>
      obtain ⟨hb, hbrest, -, hbs⟩ := hbs.uncons hn
      obtain ⟨hc, hcrest, -, hcs⟩ := hcs.uncons hn
      have hhead : b = c := by rw [hb, hc, h]
      have htail : bs = cs := ih hbs hcs (by rw [hbrest, hcrest, h])
      rw [hhead, htail]

theorem Sliced.of_snoc (h : Sliced n (bs ++ [c])) (hn : 0 < n) :
    (∀ b ∈ bs, b.length = n) ∧ 0 < c.length ∧ c.length ≤ n := by
  induction bs with
  | nil =>
    cases h with
    | last hpos hle => exact ⟨nofun, hpos, hle⟩
    | full hb hrest => exact ⟨nofun, by omega, by omega⟩
  | cons b bs ih =>
    generalize htail : bs ++ [c] = tail at h ih
    rw [cons_append, htail] at h
    cases h with
    | last hpos hle => exact absurd htail (by simp)
    | full hb hrest =>
      obtain ⟨hfull, hlast⟩ := ih hrest
      exact ⟨forall_mem_cons.mpr ⟨hb, hfull⟩, hlast⟩

theorem Sliced.length_eq (h : Sliced n bs) (hn : 0 < n) :
    bs.length = (bs.flatten.length + n - 1) / n := by
  obtain ⟨hupper, hlower⟩ := h.bounds hn
  cases bs with
  | nil =>
    simp only [flatten_nil, length_nil, Nat.zero_add]
    exact (Nat.div_eq_of_lt (by omega)).symm
  | cons c cs =>
    have hlower := hlower (by simp)
    rw [length_cons] at hupper hlower ⊢
    rw [Nat.add_sub_cancel] at hlower
    rw [Nat.mul_succ] at hupper
    refine (Nat.div_eq_of_lt_le ?_ ?_).symm
    · rw [Nat.mul_comm, Nat.mul_succ]
      omega
    · rw [Nat.mul_comm, Nat.mul_succ, Nat.mul_succ]
      omega

theorem Sliced.get_length (h : Sliced n bs) {i : Nat} (hi : bs[i]? = some c) :
    c.length = if i + 1 = bs.length then bs.flatten.length - n * i else n := by
  induction h generalizing i with
  | nil => simp at hi
  | @last b hpos hle =>
    cases i with
    | zero =>
      simp only [List.getElem?_cons_zero, Option.some.injEq] at hi
      subst hi
      simp
    | succ i => simp at hi
  | @full b bs hb hrest ih =>
    cases i with
    | zero =>
      simp only [List.getElem?_cons_zero, Option.some.injEq] at hi
      subst hi
      rw [hb, flatten_cons, length_append, length_cons]
      split
      · next hlast =>
          -- the only slice
          have hnil : bs = [] := eq_nil_of_length_eq_zero (by omega)
          subst hnil
          simp [hb]
      · rfl
    | succ i =>
      rw [List.getElem?_cons_succ] at hi
      rw [ih hi, flatten_cons, length_append, length_cons, hb, Nat.mul_succ]
      by_cases hlast : i + 1 = bs.length
      · rw [if_pos hlast, if_pos (by omega)]
        omega
      · rw [if_neg hlast, if_neg (by omega)]

theorem interval_append (start stop offset : Nat) (c rest : List α) :
    ((c ++ rest).take (stop - offset)).drop (start - offset)
      = (c.take (stop - offset)).drop (start - offset)
        ++ (rest.take (stop - (offset + c.length))).drop (start - (offset + c.length)) := by
  rw [take_append, drop_append, List.length_take]
  congr 1
  by_cases hinside : stop ≤ offset + c.length
  · -- the interval ends in the first list
    rw [show stop - offset - c.length = 0 by omega, show stop - (offset + c.length) = 0 by omega]
    simp
  · congr 1
    · omega
    · congr 1
      omega

theorem Sliced.length_take (h : Sliced n bs) {k : Nat} (hk : k < bs.length) :
    (bs.take k).flatten.length = n * k := by
  induction h generalizing k with
  | nil => exact absurd hk (Nat.not_lt_zero k)
  | last hpos hle =>
    have hzero : k = 0 := by simpa using hk
    rw [hzero]
    rfl
  | @full b bs hb hrest ih =>
    cases k with
    | zero => rfl
    | succ k =>
      have hk' : k < bs.length := by simpa using hk
      rw [take_succ_cons, flatten_cons, length_append, hb, ih hk', Nat.mul_succ]
      omega

theorem Sliced.cut (h : Sliced n bs) {start stop first last : Nat} (hfirst : n * first ≤ start)
    (hlast : stop ≤ n * last) (hlen : first < bs.length) (horder : first ≤ last)
    (hstop : stop ≤ bs.flatten.length) :
    ((((bs.drop first).take (last - first)).flatten.take (stop - n * first)).drop
      (start - n * first)) = (bs.flatten.take stop).drop start := by
  have hfront : (bs.take first).flatten.length = n * first := h.length_take hlen
  have hupto : bs.take last = bs.take first ++ (bs.drop first).take (last - first) := by
    rw [← take_add]
    congr 1
    omega
  -- the slices up to `last` reach the end of the interval
  have hreach : stop ≤ (bs.take last).flatten.length := by
    by_cases hin : last < bs.length
    · rw [h.length_take hin]
      exact hlast
    · rw [take_of_length_le (Nat.le_of_not_lt hin)]
      exact hstop
  have hwhole : bs.flatten.take stop = (bs.take last).flatten.take stop := by
    have hsplit : bs.flatten = (bs.take last).flatten ++ (bs.drop last).flatten := by
      rw [← flatten_append, take_append_drop]
    rw [hsplit, take_append_of_le_length hreach]
  rw [hwhole, hupto, flatten_append, take_append, hfront, drop_append]
  by_cases hempty : stop ≤ n * first
  · have hshort : ((bs.take first).flatten.take stop).length ≤ start := by
      rw [List.length_take]
      omega
    rw [drop_eq_nil_of_le hshort, Nat.sub_eq_zero_of_le hempty]
    simp
  · have hfull : (bs.take first).flatten.take stop = (bs.take first).flatten :=
      take_of_length_le (by omega)
    have hnil : (bs.take first).flatten.drop start = [] := drop_eq_nil_of_le (by omega)
    rw [hfull, hnil, hfront, nil_append]

/-! Cutting a list. -/

def chunks (n : Nat) (s : List α) : List (List α) :=
  if n = 0 ∨ s = [] then [] else s.take n :: chunks n (s.drop n)
termination_by s.length
decreasing_by
  have hpos := length_pos_of_ne_nil (not_or.mp ‹¬(n = 0 ∨ s = [])›).2
  rw [length_drop]
  omega

theorem flatten_chunks (hn : 0 < n) (s : List α) : (chunks n s).flatten = s := by
  fun_induction chunks n s with
  | case1 s h =>
    rcases h with h | h
    · omega
    · rw [h, flatten_nil]
  | case2 s h ih => rw [flatten_cons, ih, take_append_drop]

theorem length_chunks {s : List α} (hc : c ∈ chunks n s) :
    0 < c.length ∧ c.length ≤ n ∧ c.length ≤ s.length := by
  fun_induction chunks n s with
  | case1 s h => exact absurd hc not_mem_nil
  | case2 s h ih =>
    obtain ⟨hn, hs⟩ := not_or.mp h
    have hpos := length_pos_of_ne_nil hs
    rcases mem_cons.mp hc with rfl | hc
    · rw [List.length_take]
      omega
    · have hrest := ih hc
      rw [length_drop] at hrest
      omega

end FractalBits.Lib
