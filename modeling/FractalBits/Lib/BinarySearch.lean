/-
  Lib.BinarySearch — `slice::binary_search_by`.
-/

import Mathlib.Data.List.Basic
import Mathlib.Data.List.TakeWhile

namespace FractalBits.Lib

open List

variable {α : Type*} (cmp : α → Ordering)

/-! ## §1. The search -/

def narrow (xs : List α) (base size : Nat) : Nat :=
  if size ≤ 1 then base
  else
    let half := size / 2
    let mid := base + half
    let base := if (xs[mid]?.map cmp) = some .gt then base else mid
    narrow xs base (size - half)
termination_by size

def binarySearchBy (xs : List α) : Except Nat Nat :=
  if xs.length = 0 then .error 0
  else
    let base := narrow cmp xs 0 xs.length
    match xs[base]?.map cmp with
    | some .eq => .ok base
    | some .lt => .error (base + 1)
    | _ => .error base

def searchIndex : Except Nat Nat → Nat
  | .ok i => i
  | .error i => i

/-! ## §2. Lists in order -/

/-- In strict order towards the target: behind an element that is not smaller there are only larger
    ones. -/
def Ascending (xs : List α) : Prop := xs.Pairwise fun a b => cmp a ≠ .lt → cmp b = .gt

def boundary (xs : List α) : Nat := (xs.takeWhile fun x => cmp x = .lt).length

theorem drop_boundary (xs : List α) : xs.drop (boundary cmp xs) = xs.dropWhile fun x =>
    cmp x = .lt := by
  have hfront : ((xs.takeWhile fun x => cmp x = .lt) ++ xs.dropWhile fun x => cmp x = .lt).drop
      (boundary cmp xs) = xs.dropWhile fun x => cmp x = .lt := drop_left
  rwa [takeWhile_append_dropWhile] at hfront

variable {cmp} {xs : List α} (h : Ascending cmp xs)

include h

theorem Ascending.cases {i : Nat} {x : α} (hx : xs[i]? = some x) :
    (cmp x = .lt → i < boundary cmp xs) ∧ (cmp x = .eq → i = boundary cmp xs)
      ∧ (cmp x = .gt → boundary cmp xs ≤ i) := by
  induction xs generalizing i with
  | nil => cases hx
  | cons y ys ih =>
    obtain ⟨hy, hys⟩ := pairwise_cons.mp h
    by_cases hlt : cmp y = .lt
    · have hboundary : boundary cmp (y :: ys) = boundary cmp ys + 1 := by
        simp [boundary, hlt]
      rw [hboundary]
      cases i with
      | zero =>
        cases hx
        simp [hlt]
      | succ i =>
        obtain ⟨h1, h2, h3⟩ := ih hys hx
        exact ⟨fun hc => Nat.succ_lt_succ (h1 hc), fun hc => congrArg (· + 1) (h2 hc),
          fun hc => Nat.succ_le_succ (h3 hc)⟩
    · have hboundary : boundary cmp (y :: ys) = 0 := by
        simp [boundary, hlt]
      rw [hboundary]
      cases i with
      | zero =>
        cases hx
        exact ⟨fun hc => absurd hc hlt, fun _ => rfl, fun _ => Nat.zero_le 0⟩
      | succ i =>
        -- everything behind `y` is larger
        have hgt : cmp x = .gt := hy x (mem_of_getElem? hx) hlt
        rw [hgt]
        exact ⟨nofun, nofun, fun _ => Nat.zero_le _⟩

theorem Ascending.dropWhile_eq_filter :
    (xs.dropWhile fun x => cmp x = .lt) = xs.filter fun x => cmp x ≠ .lt := by
  induction xs with
  | nil => rfl
  | cons y ys ih =>
    obtain ⟨hy, hys⟩ := pairwise_cons.mp h
    by_cases hlt : cmp y = .lt
    · rw [dropWhile_cons_of_pos (by simpa using hlt), filter_cons_of_neg (by simpa using hlt),
        ih hys]
    · have hrest : (ys.filter fun x => cmp x ≠ .lt) = ys := by
        apply filter_eq_self.mpr
        intro x hx
        rw [hy x hx hlt]
        rfl
      rw [dropWhile_cons_of_neg (by simpa using hlt), filter_cons_of_pos (by simpa using hlt),
        hrest]

theorem narrow_spec {base size : Nat} (hsize : 0 < size) (hlow : base ≤ boundary cmp xs)
    (hhigh : boundary cmp xs ≤ base + size) (hin : base + size ≤ xs.length) :
    narrow cmp xs base size ≤ boundary cmp xs ∧ boundary cmp xs ≤ narrow cmp xs base size + 1
      ∧ narrow cmp xs base size < xs.length := by
  fun_induction narrow cmp xs base size with
  | case1 base size hle => omega
  | case2 base size hle half mid base' ih =>
    have hhalf : half = size / 2 := rfl
    have hmid : mid = base + half := rfl
    have hget : xs[mid]? = some (xs.get ⟨mid, by omega⟩) := List.getElem?_eq_getElem (by omega)
    obtain ⟨hlt, heq, hgt⟩ := h.cases hget
    -- the comparison at `mid` decides which half of the window is kept
    have hbase : base' = if cmp (xs.get ⟨mid, by omega⟩) = .gt then base else mid := by
      show (if xs[mid]?.map cmp = some .gt then base else mid) = _
      rw [hget]
      simp
    apply ih
    · omega
    · rw [hbase]
      split
      · exact hlow
      · cases hc : cmp (xs.get ⟨mid, by omega⟩) with
        | lt => exact Nat.le_of_lt (hlt hc)
        | eq => exact Nat.le_of_eq (heq hc)
        | gt => contradiction
    · rw [hbase]
      split
      · rename_i hc
        have := hgt hc
        omega
      · omega
    · rw [hbase]
      split
      · omega
      · omega

theorem binarySearchBy_index : searchIndex (binarySearchBy cmp xs) = boundary cmp xs := by
  unfold binarySearchBy
  by_cases hempty : xs.length = 0
  · rw [if_pos hempty, length_eq_zero_iff.mp hempty]
    rfl
  · rw [if_neg hempty]
    have hle : boundary cmp xs ≤ xs.length := List.Sublist.length_le (takeWhile_sublist _)
    obtain ⟨hlow, hhigh, hin⟩ := narrow_spec h (Nat.pos_of_ne_zero hempty) (Nat.zero_le _)
      (by rwa [Nat.zero_add]) (Nat.le_of_eq (Nat.zero_add _))
    have hget : xs[narrow cmp xs 0 xs.length]? = some (xs.get ⟨_, hin⟩) :=
      List.getElem?_eq_getElem hin
    obtain ⟨hlt, heq, hgt⟩ := h.cases hget
    show searchIndex (match xs[narrow cmp xs 0 xs.length]?.map cmp with
      | some .eq => .ok (narrow cmp xs 0 xs.length)
      | some .lt => .error (narrow cmp xs 0 xs.length + 1)
      | _ => .error (narrow cmp xs 0 xs.length)) = _
    rw [hget, Option.map_some]
    cases hc : cmp (xs.get ⟨_, hin⟩) with
    | lt => exact Nat.le_antisymm (hlt hc) hhigh
    | eq => exact heq hc
    | gt => exact Nat.le_antisymm hlow (hgt hc)

theorem drop_binarySearchBy :
    xs.drop (searchIndex (binarySearchBy cmp xs)) = xs.filter fun x => cmp x ≠ .lt := by
  rw [binarySearchBy_index h, drop_boundary, h.dropWhile_eq_filter]

end FractalBits.Lib
