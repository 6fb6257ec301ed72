/-
  Lib.WriteOnce — arrays of write-once cells and the counting behind their quorums.
-/

import Mathlib.Data.List.Basic
import Mathlib.Data.List.Nodup
import Mathlib.Data.List.Perm.Subperm

namespace FractalBits.Lib

open List

inductive WriteReply
  | stored
  | skipped
  | mismatch
  deriving DecidableEq, Repr

variable {α : Type}

/-- Write to a cell: the first value stays, an identical rewrite is skipped, a different one is
    refused. -/
def writeOnce [DecidableEq α] (cell : Option α) (a : α) : Option α × WriteReply :=
  match cell with
  | none => (some a, .stored)
  | some b => (some b, if b = a then .skipped else .mismatch)

theorem writeOnce_keeps [DecidableEq α] {cell : Option α} {b : α} (h : cell = some b) (a : α) :
    (writeOnce cell a).1 = some b := by
  subst h
  rfl

theorem writeOnce_acked [DecidableEq α] {cell : Option α} {a : α}
    (h : (writeOnce cell a).2 ≠ .mismatch) : (writeOnce cell a).1 = some a := by
  cases cell with
  | none => rfl
  | some b =>
    by_cases hb : b = a
    · rw [hb]; rfl
    · exact absurd (if_neg hb) h

theorem writeOnce_cases [DecidableEq α] (cell : Option α) (a : α) :
    (writeOnce cell a).1 = cell ∨ (cell = none ∧ (writeOnce cell a).1 = some a) := by
  cases cell with
  | none => exact .inr ⟨rfl, rfl⟩
  | some b => exact .inl rfl

/-! ## Counting cells -/

/-- How many of the cells `0 … n-1` hold a value of the family `P`. -/
def heldBy (n : Nat) (cells : Nat → Option α) (P : Nat → α → Bool) : Nat :=
  (List.range n).countP fun i => (cells i).any (P i)

theorem countP_add_le_length {β : Type} (l : List β) (p q : β → Bool)
    (h : ∀ x ∈ l, p x = true → q x = true → False) : l.countP p + l.countP q ≤ l.length := by
  induction l with
  | nil => simp
  | cons x xs ih =>
    have ih := ih fun y hy => h y (mem_cons_of_mem _ hy)
    have hx := h x mem_cons_self
    simp only [countP_cons, length_cons]
    cases hp : p x <;> cases hq : q x <;> simp_all <;> omega

theorem heldBy_add_le (n : Nat) (cells : Nat → Option α) (P Q : Nat → α → Bool)
    (h : ∀ i < n, ∀ a, cells i = some a → P i a = true → Q i a = true → False) :
    heldBy n cells P + heldBy n cells Q ≤ n := by
  have hle := countP_add_le_length (List.range n)
    (fun i => (cells i).any (P i)) (fun i => (cells i).any (Q i)) fun i hi hp hq => by
      cases hc : cells i with
      | none => rw [hc] at hp; cases hp
      | some a =>
        rw [hc] at hp hq
        exact h i (mem_range.mp hi) a hc hp hq
  rw [length_range] at hle
  exact hle

theorem heldBy_mono (n : Nat) (cells cells' : Nat → Option α) (P : Nat → α → Bool)
    (h : ∀ i a, cells i = some a → cells' i = some a) :
    heldBy n cells P ≤ heldBy n cells' P := by
  refine countP_mono_left fun i _ hi => ?_
  cases hc : cells i with
  | none => rw [hc] at hi; cases hi
  | some a => rw [h i a hc, ← hc]; exact hi

theorem length_le_heldBy (n : Nat) (cells : Nat → Option α) (P : Nat → α → Bool)
    (held : List Nat) (hnodup : held.Nodup)
    (h : ∀ i ∈ held, i < n ∧ ∃ a, cells i = some a ∧ P i a = true) :
    held.length ≤ heldBy n cells P := by
  rw [heldBy, countP_eq_length_filter]
  refine (List.Nodup.subperm hnodup fun i hi => ?_).length_le
  obtain ⟨hlt, a, hc, hp⟩ := h i hi
  rw [mem_filter, mem_range]
  exact ⟨hlt, by rw [hc]; exact hp⟩

theorem disjoint_length_le (n : Nat) (xs ys : List Nat) (hxs : xs.Nodup) (hys : ys.Nodup)
    (hxlt : ∀ i ∈ xs, i < n) (hylt : ∀ i ∈ ys, i < n) (hdisj : ∀ i ∈ xs, i ∉ ys) :
    xs.length + ys.length ≤ n := by
  have hnodup : (xs ++ ys).Nodup := nodup_append'.mpr ⟨hxs, hys, fun i hi hi' => hdisj i hi hi'⟩
  have hsub : (xs ++ ys) ⊆ List.range n := fun i hi => by
    rcases mem_append.mp hi with hi | hi
    · exact mem_range.mpr (hxlt i hi)
    · exact mem_range.mpr (hylt i hi)
  have hle := (hnodup.subperm hsub).length_le
  rwa [length_append, length_range] at hle

theorem quorums_meet (n : Nat) (xs ys : List Nat) (hxs : xs.Nodup) (hys : ys.Nodup)
    (hxlt : ∀ i ∈ xs, i < n) (hylt : ∀ i ∈ ys, i < n) (h : n < xs.length + ys.length) :
    ∃ i, i ∈ xs ∧ i ∈ ys := by
  by_contra hnone
  have hle := disjoint_length_le n xs ys hxs hys hxlt hylt fun i hi hi' => hnone ⟨i, hi, hi'⟩
  omega

/-! ## Counting answers

A call that sent one request to each of some cells and counts a kind of answer: the
cells still to answer, and the count.  What is counted are distinct cells. -/

structure Tally (n : Nat) (H : Nat → Prop) (pending : List Nat) (count : Nat) : Prop where
  nodup : pending.Nodup
  lt : ∀ i ∈ pending, i < n
  counted : ∃ l : List Nat, l.Nodup ∧ l.length = count ∧ ∀ i ∈ l, i < n ∧ i ∉ pending ∧ H i

section Tally

variable {n : Nat} {H : Nat → Prop} {pending : List Nat} {count : Nat}

theorem Tally.start (hnodup : pending.Nodup) (hlt : ∀ i ∈ pending, i < n) : Tally n H pending 0 :=
  ⟨hnodup, hlt, [], nodup_nil, rfl, by simp⟩

theorem Tally.mono {H' : Nat → Prop} (h : Tally n H pending count) (hH : ∀ i, H i → H' i) :
    Tally n H' pending count := by
  obtain ⟨l, hnodup, hlen, hall⟩ := h.counted
  exact ⟨h.nodup, h.lt, l, hnodup, hlen,
    fun i hi => ⟨(hall i hi).1, (hall i hi).2.1, hH i (hall i hi).2.2⟩⟩

theorem Tally.count_one (h : Tally n H pending count) {i : Nat} (hi : i ∈ pending) (hH : H i) :
    Tally n H (pending.erase i) (count + 1) := by
  obtain ⟨l, hnodup, hlen, hall⟩ := h.counted
  refine ⟨h.nodup.erase i, fun j hj => h.lt j (mem_of_mem_erase hj), i :: l, ?_, by simp [hlen], ?_⟩
  · exact nodup_cons.mpr ⟨fun hmem => (hall i hmem).2.1 hi, hnodup⟩
  · intro j hj
    rcases mem_cons.mp hj with rfl | hj
    · exact ⟨h.lt j hi, h.nodup.not_mem_erase, hH⟩
    · obtain ⟨h1, h2, h3⟩ := hall j hj
      exact ⟨h1, fun hmem => h2 (mem_of_mem_erase hmem), h3⟩

theorem Tally.drop (h : Tally n H pending count) (i : Nat) : Tally n H (pending.erase i) count := by
  obtain ⟨l, hnodup, hlen, hall⟩ := h.counted
  refine ⟨h.nodup.erase i, fun j hj => h.lt j (mem_of_mem_erase hj), l, hnodup, hlen, ?_⟩
  intro j hj
  obtain ⟨h1, h2, h3⟩ := hall j hj
  exact ⟨h1, fun hmem => h2 (mem_of_mem_erase hmem), h3⟩

end Tally

end FractalBits.Lib
