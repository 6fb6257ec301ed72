/-
  Lib.ByteStream — both ends of a byte stream.

  A writer takes some of what it is handed; a reader gets fragments that respect no boundary.
-/

import Mathlib.Data.List.Basic

namespace FractalBits.Lib

open List

variable {α : Type*}

/-! ## §1. Positions in a list of slices -/

variable (slices : List (List α))

def ioSlices (offset : Nat) : List (List α) :=
  (slices.zipIdx.map fun p => if p.2 = 0 then p.1.drop offset else p.1).filter fun data =>
    !data.isEmpty

def Within (offset : Nat) : Prop := offset ≤ (slices.headD []).length

def advance : List (List α) → Nat → Nat → List (List α) × Nat
  | [], offset, _ => ([], offset)
  | slice :: slices, offset, remaining =>
    if remaining = 0 then (slice :: slices, offset)
    else
      let available := slice.length - offset
      if available ≤ remaining then advance slices 0 (remaining - available)
      else (slice :: slices, offset + remaining)

theorem within_zero : Within slices 0 := Nat.zero_le _

theorem map_zipIdx_succ (offset k : Nat) :
    (slices.zipIdx (k + 1)).map (fun p => if p.2 = 0 then p.1.drop offset else p.1) = slices := by
  induction slices generalizing k with
  | nil => rfl
  | cons slice slices ih =>
    rw [zipIdx_cons, map_cons, ih]
    rfl

theorem flatten_ioSlices {slices : List (List α)} {offset : Nat} (h : Within slices offset) :
    (ioSlices slices offset).flatten = slices.flatten.drop offset := by
  unfold ioSlices
  rw [flatten_filter_not_isEmpty]
  cases slices with
  | nil => exact drop_nil.symm
  | cons slice slices =>
    have hwithin : offset ≤ slice.length := h
    rw [zipIdx_cons, map_cons, map_zipIdx_succ, flatten_cons, flatten_cons,
      drop_append_of_le_length hwithin]
    rfl

theorem advance_spec (offset remaining : Nat) (h : Within slices offset)
    (hle : remaining ≤ (slices.flatten.drop offset).length) :
    Within (advance slices offset remaining).1 (advance slices offset remaining).2 ∧
    (advance slices offset remaining).1.flatten.drop (advance slices offset remaining).2
      = (slices.flatten.drop offset).drop remaining := by
  induction slices generalizing offset remaining with
  | nil =>
    refine ⟨h, ?_⟩
    simp [advance]
  | cons slice slices ih =>
    have hwithin : offset ≤ slice.length := h
    have hleft : (slice :: slices).flatten.drop offset = slice.drop offset ++ slices.flatten := by
      rw [flatten_cons, drop_append_of_le_length hwithin]
    unfold advance
    split
    · -- everything that was taken has been passed
      rename_i hzero
      rw [hzero, drop_zero]
      exact ⟨h, rfl⟩
    · have hlength : (slice.drop offset).length = slice.length - offset := length_drop
      rw [hleft, length_append, hlength] at hle
      by_cases hnext : slice.length - offset ≤ remaining
      · -- the rest of this slice was taken
        simp only [if_pos hnext]
        obtain ⟨hwithin', hrest⟩ := ih 0 (remaining - (slice.length - offset)) (within_zero slices)
          (by rw [drop_zero]; omega)
        refine ⟨hwithin', ?_⟩
        have hpassed : (slice.drop offset).drop remaining = [] := drop_of_length_le (by omega)
        rw [hrest, hleft, drop_zero, drop_append, hpassed, nil_append, hlength]
      · -- the position stays in this slice
        simp only [if_neg hnext]
        refine ⟨?_, ?_⟩
        · show offset + remaining ≤ slice.length
          omega
        · rw [drop_drop]

/-! ## §2. Reading -/

inductive Ending where
  | eof
  | ioError
  deriving DecidableEq, Repr

structure ReadHalf (α : Type*) where
  fragments : List (List α)
  ending : Ending

def ReadHalf.Fragmented (s : ReadHalf α) : Prop := ∀ fragment ∈ s.fragments, fragment ≠ []

def ReadHalf.content (s : ReadHalf α) : List α := s.fragments.flatten

/-- Read until there are `want` elements. A read takes what it can use of the next fragment; an
    empty read is the end of the stream. -/
def readFragments : Nat → List (List α) → Option (List α × List (List α))
  | 0, fragments => some ([], fragments)
  | _ + 1, [] => none
  | want + 1, fragment :: fragments =>
    if fragment.isEmpty then none
    else if want + 1 < fragment.length then
      some (fragment.take (want + 1), fragment.drop (want + 1) :: fragments)
    else
      (readFragments (want + 1 - fragment.length) fragments).map fun p => (fragment ++ p.1, p.2)

def ReadHalf.readExact (s : ReadHalf α) (want : Nat) : Except Ending (List α × ReadHalf α) :=
  match readFragments want s.fragments with
  | none => .error s.ending
  | some (xs, fragments) => .ok (xs, { s with fragments })

theorem readFragments_spec (want : Nat) (fragments : List (List α)) (hne : ∀ f ∈ fragments, f ≠ [])
    (hle : want ≤ fragments.flatten.length) :
    ∃ rest, readFragments want fragments = some (fragments.flatten.take want, rest) ∧
      rest.flatten = fragments.flatten.drop want ∧ ∀ f ∈ rest, f ≠ [] := by
  induction fragments generalizing want with
  | nil =>
    have hzero : want = 0 := Nat.le_zero.mp hle
    subst hzero
    exact ⟨[], rfl, rfl, hne⟩
  | cons fragment fragments ih =>
    cases want with
    | zero => exact ⟨fragment :: fragments, rfl, rfl, hne⟩
    | succ want =>
      have hfragment : fragment.isEmpty = false := by
        rw [isEmpty_eq_false_iff]
        exact hne fragment mem_cons_self
      have hlater : ∀ f ∈ fragments, f ≠ [] := fun f hf => hne f (mem_cons_of_mem _ hf)
      unfold readFragments
      rw [hfragment, if_neg Bool.false_ne_true]
      rw [flatten_cons, length_append] at hle
      rw [flatten_cons]
      by_cases hlt : want + 1 < fragment.length
      · -- the fragment has more than is wanted, and its rest stays in the stream
        rw [if_pos hlt]
        refine ⟨fragment.drop (want + 1) :: fragments, ?_, ?_, ?_⟩
        · rw [take_append_of_le_length (Nat.le_of_lt hlt)]
        · rw [flatten_cons, drop_append_of_le_length (Nat.le_of_lt hlt)]
        · intro f hf
          rcases mem_cons.mp hf with rfl | hf
          · apply ne_nil_of_length_pos
            rw [length_drop]
            omega
          · exact hlater f hf
      · -- the whole fragment is used and the read goes on
        rw [if_neg hlt]
        obtain ⟨rest, hread, hrest, hkeeps⟩ := ih (want + 1 - fragment.length) hlater (by omega)
        have htake : fragment.take (want + 1) = fragment := take_of_length_le (by omega)
        have hdrop : fragment.drop (want + 1) = [] := drop_of_length_le (by omega)
        refine ⟨rest, ?_, ?_, hkeeps⟩
        · rw [hread, Option.map_some, take_append, htake]
        · rw [hrest, drop_append, hdrop, nil_append]

theorem readFragments_short (want : Nat) (fragments : List (List α))
    (hlt : fragments.flatten.length < want) :
    readFragments want fragments = none := by
  induction fragments generalizing want with
  | nil =>
    obtain ⟨n, rfl⟩ : ∃ n, want = n + 1 := ⟨want - 1, by simp at hlt; omega⟩
    rfl
  | cons fragment fragments ih =>
    rw [flatten_cons, length_append] at hlt
    obtain ⟨n, rfl⟩ : ∃ n, want = n + 1 := ⟨want - 1, by omega⟩
    unfold readFragments
    split
    · rfl
    · rw [if_neg (by omega), ih (n + 1 - fragment.length) (by omega), Option.map_none]

theorem ReadHalf.readExact_spec {s : ReadHalf α} (hs : s.Fragmented) {xs rest : List α}
    (hcontent : s.content = xs ++ rest) :
    ∃ s' : ReadHalf α, s.readExact xs.length = .ok (xs, s') ∧ s'.Fragmented ∧ s'.content = rest ∧
      s'.ending = s.ending := by
  have hflatten : s.fragments.flatten = xs ++ rest := hcontent
  obtain ⟨fragments, hread, hrest, hkeeps⟩ := readFragments_spec xs.length s.fragments hs (by
    rw [hflatten, length_append]
    omega)
  rw [hflatten, take_left] at hread
  rw [hflatten, drop_left] at hrest
  refine ⟨{ s with fragments }, ?_, hkeeps, hrest, rfl⟩
  unfold ReadHalf.readExact
  rw [hread]

theorem ReadHalf.readExact_short {s : ReadHalf α} {want : Nat} (hlt : s.content.length < want) :
    s.readExact want = .error s.ending := by
  unfold ReadHalf.readExact
  rw [readFragments_short want s.fragments hlt]

end FractalBits.Lib
