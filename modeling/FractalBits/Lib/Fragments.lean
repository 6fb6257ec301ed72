/-
  Lib.Fragments — reading from a buffer that is refilled fragment by fragment.

  `Reads b fs xs b' fs'`: with `b` buffered and the fragments `fs` to come, the elements `xs` are
  taken, fetching only while too little is buffered.
-/

import Mathlib.Data.List.Basic

namespace FractalBits.Lib

open List

variable {α : Type*} {b b' b'' xs ys f : List α} {fs fs' fs'' : List (List α)}

inductive Reads : List α → List (List α) → List α → List α → List (List α) → Prop
  | here {xs b' : List α} {fs : List (List α)} : Reads (xs ++ b') fs xs b' fs
  | more {b f xs b' : List α} {fs fs' : List (List α)} (h : b.length < xs.length)
      (hrest : Reads (b ++ f) fs xs b' fs') : Reads b (f :: fs) xs b' fs'

theorem Reads.nil : Reads b fs [] b fs := by
  have h : Reads ([] ++ b) fs [] b fs := .here
  rwa [nil_append] at h

theorem Reads.append_eq (h : Reads b fs xs b' fs') : b ++ fs.flatten = xs
    ++ (b' ++ fs'.flatten) := by
  induction h with
  | here => rw [append_assoc]
  | more _ _ ih => rw [flatten_cons, ← append_assoc, ih]

theorem Reads.rest (h : Reads b fs xs b' fs') {ys : List α} (hbytes : b ++ fs.flatten = xs ++ ys) :
    b' ++ fs'.flatten = ys := by
  rw [h.append_eq] at hbytes
  exact append_cancel_left hbytes

theorem Reads.after (ys : List α) (h : Reads b fs xs b' fs') :
    Reads (ys ++ b) fs (ys ++ xs) b' fs' := by
  induction h with
  | @here xs b' fs =>
    rw [← append_assoc]
    exact .here
  | more hlt _ ih =>
    refine .more ?_ ?_
    · rw [length_append, length_append]
      omega
    · rw [append_assoc]
      exact ih

theorem Reads.of_cons (h : Reads [] (b :: fs) xs b' fs') (hpos : 0 < xs.length) :
    Reads b fs xs b' fs' := by
  generalize hnil : ([] : List α) = c at h
  generalize hfs : b :: fs = gs at h
  cases h with
  | here =>
    have := congrArg List.length hnil
    rw [length_append, length_nil] at this
    omega
  | more _ hrest =>
    injection hfs with hb hfs
    subst hnil hb hfs
    exact hrest

theorem Reads.trans (h : Reads b fs xs b' fs') (h' : Reads b' fs' ys b'' fs'') :
    Reads b fs (xs ++ ys) b'' fs'' := by
  induction h with
  | here => exact h'.after _
  | more hlt _ ih =>
    refine .more ?_ (ih h')
    rw [length_append]
    omega

theorem Reads.length_le (h : Reads b fs xs b' fs') : fs'.length ≤ fs.length := by
  induction h with
  | here => exact Nat.le_refl _
  | more _ _ ih =>
    rw [length_cons]
    omega

def allBut (m : Nat) (fs : List (List α)) : List (List α) := fs.take (fs.length - m)

variable {m : Nat}

theorem allBut_cons (f : List α) (h : m ≤ fs.length) :
    allBut m (f :: fs) = f :: allBut m fs := by
  unfold allBut
  rw [length_cons, Nat.succ_sub h, take_succ_cons]

theorem Reads.fetched (h : Reads b fs xs b' fs') (hm : m ≤ fs'.length) :
    b ++ (allBut m fs).flatten = xs ++ (b' ++ (allBut m fs').flatten) := by
  induction h with
  | here => exact append_assoc ..
  | more _ hrest ih =>
    rw [allBut_cons _ (Nat.le_trans hm hrest.length_le), flatten_cons, ← append_assoc, ih hm]

theorem Reads.unread_iff (h : Reads b fs xs b' fs') (hm : m ≤ fs.length) :
    m ≤ fs'.length ↔ xs.length ≤ (b ++ (allBut m fs).flatten).length := by
  induction h with
  | here =>
    refine ⟨fun _ => ?_, fun _ => hm⟩
    rw [append_assoc, length_append]
    omega
  | @more b f xs b' fs fs' hlt hrest ih =>
    rcases Nat.lt_or_ge fs.length m with hall | hle
    · -- all fragments would have to stay unread, but one was fetched
      have hlen := hrest.length_le
      have hnone : allBut m (f :: fs) = [] := by
        unfold allBut
        rw [length_cons, show fs.length + 1 - m = 0 by omega, take_zero]
      rw [hnone, flatten_nil, append_nil]
      constructor <;> intro _ <;> omega
    · rw [allBut_cons f hle, flatten_cons, ← append_assoc]
      exact ih hle

/-! ## A fragment is fetched first -/

/-- A read that fetches one fragment first, if there is one. -/
inductive ReadsFetching : List α → List (List α) → List α → List α → List (List α) → Prop
  | last {b xs b' : List α} (h : Reads b [] xs b' []) : ReadsFetching b [] xs b' []
  | fetch {b f xs b' : List α} {fs fs' : List (List α)} (h : Reads (b ++ f) fs xs b' fs') :
      ReadsFetching b (f :: fs) xs b' fs'

variable (h : ReadsFetching b fs xs b' fs')

include h

theorem ReadsFetching.rest {ys : List α}
    (hbytes : b ++ fs.flatten = xs ++ ys) : b' ++ fs'.flatten = ys := by
  cases h with
  | last h => exact h.rest hbytes
  | fetch h =>
    rw [flatten_cons, ← append_assoc] at hbytes
    exact h.rest hbytes

theorem ReadsFetching.reads (hlt : b.length < xs.length) :
    Reads b fs xs b' fs' := by
  cases h with
  | last h => exact h
  | fetch h => exact .more hlt h

theorem ReadsFetching.trans (h' : Reads b' fs' ys b'' fs'') :
    ReadsFetching b fs (xs ++ ys) b'' fs'' := by
  cases h with
  | last h =>
    have hnil : fs'' = [] := eq_nil_of_length_eq_zero (Nat.le_zero.mp h'.length_le)
    subst hnil
    exact .last (h.trans h')
  | fetch h => exact .fetch (h.trans h')

theorem ReadsFetching.fetched (hm : m ≤ fs'.length) :
    b ++ (allBut m fs).flatten = xs ++ (b' ++ (allBut m fs').flatten) := by
  cases h with
  | last h => exact h.fetched hm
  | fetch h =>
    rw [allBut_cons _ (Nat.le_trans hm h.length_le), flatten_cons, ← append_assoc, h.fetched hm]

theorem ReadsFetching.unread_iff (hm : 0 < m) :
    m ≤ fs'.length ↔ m + 1 ≤ fs.length ∧ xs.length ≤ (b ++ (allBut m fs).flatten).length := by
  cases h with
  | last h =>
    rw [length_nil]
    constructor
    · intro hle
      omega
    · rintro ⟨hle, -⟩
      omega
  | @fetch f _ _ fs _ h =>
    have hlen := h.length_le
    rw [length_cons]
    constructor
    · intro hle
      rw [allBut_cons f (by omega), flatten_cons, ← append_assoc]
      exact ⟨by omega, (h.unread_iff (by omega)).mp hle⟩
    · rintro ⟨hle, hxs⟩
      rw [allBut_cons f (by omega), flatten_cons, ← append_assoc] at hxs
      exact (h.unread_iff (by omega)).mpr hxs

/-- Units read one after another, each with a fetch first. -/
inductive ReadsUnits : List α → List (List α) → List (List α) → List α → List (List α) → Prop
  | nil {b : List α} {fs : List (List α)} : ReadsUnits b fs [] b fs
  | cons {b b' b'' u : List α} {us fs fs' fs'' : List (List α)} (h : ReadsFetching b fs u b' fs')
      (hrest : ReadsUnits b' fs' us b'' fs'') : ReadsUnits b fs (u :: us) b'' fs''

omit h in
theorem ReadsUnits.append {us vs : List (List α)} (h : ReadsUnits b fs us b' fs')
    (h' : ReadsUnits b' fs' vs b'' fs'') : ReadsUnits b fs (us ++ vs) b'' fs'' := by
  induction h with
  | nil => exact h'
  | cons hu _ ih => exact .cons hu (ih h')

/-- Each unit costs a fragment, and the fragments before the last ones hold the first units. -/
def LeavesUnread (m : Nat) (b : List α) (fs us : List (List α)) : Prop :=
  us.length + m ≤ fs.length ∧
  ∀ i ≤ us.length, (us.take i).flatten.length
    ≤ (b ++ (allBut (us.length - i + m) fs).flatten).length

instance (m : Nat) (b : List α) (fs us : List (List α)) : Decidable (LeavesUnread m b fs us) :=
  inferInstanceAs (Decidable (_ ∧ ∀ i ≤ us.length, _))

omit h in
theorem ReadsUnits.unread_iff {us : List (List α)} (h : ReadsUnits b fs us b' fs') (hm : 0 < m) :
    m ≤ fs'.length ↔ LeavesUnread m b fs us := by
  unfold LeavesUnread
  induction h with
  | nil =>
    refine ⟨fun hle => ⟨by rw [length_nil]; omega, fun i _ => ?_⟩, ?_⟩
    · simp
    · rintro ⟨hle, -⟩
      rw [length_nil] at hle
      omega
  | @cons b b₁ b₂ u us fs fs₁ fs₂ hu hrest ih =>
    -- the unit `u` is read while the fragments of all later units stay unread
    have hfirst := hu.unread_iff (m := us.length + m) (by omega)
    have hshift : ∀ i ≤ us.length, us.length + m ≤ fs₁.length →
        ((us.take i).flatten.length ≤ (b₁ ++ (allBut (us.length - i + m) fs₁).flatten).length ↔
          ((u :: us).take (i + 1)).flatten.length
            ≤ (b ++ (allBut (us.length - i + m) fs).flatten).length) := by
      intro i hi hlen
      rw [hu.fetched (by omega), take_succ_cons, flatten_cons]
      simp only [length_append]
      omega
    rw [ih]
    constructor
    · rintro ⟨hlen, hus⟩
      obtain ⟨hfs, hcover⟩ := hfirst.mp hlen
      refine ⟨by rw [length_cons]; omega, fun i hi => ?_⟩
      cases i with
      | zero => simp
      | succ i =>
        rw [length_cons] at hi ⊢
        rw [Nat.add_sub_add_right]
        exact (hshift i (by omega) hlen).mp (hus i (by omega))
    · rintro ⟨hfs, hus⟩
      rw [length_cons] at hfs hus
      have hcover := hus 1 (by omega)
      rw [take_succ_cons, take_zero, flatten_cons, flatten_nil, append_nil,
        Nat.add_sub_cancel] at hcover
      have hlen := hfirst.mpr ⟨by omega, hcover⟩
      refine ⟨hlen, fun i hi => (hshift i hi hlen).mpr ?_⟩
      have := hus (i + 1) (by omega)
      rwa [Nat.add_sub_add_right] at this

end FractalBits.Lib
