/-
  Lib.LastWins — maps read off a list of pairs, the last value of a name taking the place of those
  before it.
-/

import Mathlib.Data.List.Perm.Basic
import Std.Data.ExtTreeMap.Lemmas

namespace FractalBits.Lib

open List

variable {κ ν : Type} [DecidableEq κ]

def kept : List (κ × ν) → List (κ × ν)
  | [] => []
  | p :: rest => if p.1 ∈ rest.map Prod.fst then kept rest else p :: kept rest

def shadowed : List (κ × ν) → List (κ × ν)
  | [] => []
  | p :: rest => if p.1 ∈ rest.map Prod.fst then p :: shadowed rest else shadowed rest

variable (l : List (κ × ν))

theorem kept_append_shadowed : (kept l ++ shadowed l).Perm l := by
  induction l with
  | nil => exact .refl _
  | cons p rest ih =>
    unfold kept shadowed
    split
    · exact perm_middle.trans (ih.cons p)
    · exact ih.cons p

theorem shadowed_of_nodup {l : List (κ × ν)} (h : (l.map Prod.fst).Nodup) : shadowed l = [] := by
  induction l with
  | nil => rfl
  | cons p rest ih =>
    obtain ⟨hnot, hrest⟩ := nodup_cons.mp h
    unfold shadowed
    rw [if_neg hnot, ih hrest]

theorem name_of_mem_kept {l : List (κ × ν)} {k : κ} {v : ν} (h : (k, v) ∈ kept l) :
    k ∈ l.map Prod.fst :=
  mem_map.mpr ⟨_, (kept_append_shadowed l).subset (mem_append_left _ h), rfl⟩

theorem nodup_kept : (kept l).Nodup := by
  induction l with
  | nil => exact .nil
  | cons p rest ih =>
    unfold kept
    split
    · exact ih
    · next hnot =>
      exact nodup_cons.mpr ⟨fun h => hnot (name_of_mem_kept h), ih⟩

theorem kept_filter (keep : κ → Bool) (l : List (κ × ν)) :
    kept (l.filter fun p => keep p.1) = (kept l).filter fun p => keep p.1 := by
  induction l with
  | nil => rfl
  | cons p rest ih =>
    have hsame : keep p.1 = true →
        (p.1 ∈ (rest.filter fun p => keep p.1).map Prod.fst ↔ p.1 ∈ rest.map Prod.fst) := by
      intro hp
      simp only [mem_map, mem_filter]
      exact ⟨fun ⟨q, hq, h⟩ => ⟨q, hq.1, h⟩, fun ⟨q, hq, h⟩ => ⟨q, ⟨hq, h ▸ hp⟩, h⟩⟩
    by_cases hp : keep p.1 = true
    · rw [filter_cons, if_pos hp, kept, kept, ih]
      simp only [hsame hp]
      split
      · rfl
      · rw [filter_cons, if_pos hp]
    · rw [filter_cons, if_neg hp, kept, ih]
      split
      · rfl
      · rw [filter_cons, if_neg hp]

variable {cmp : κ → κ → Ordering} [Std.TransCmp cmp] [Std.LawfulEqCmp cmp]

def ofPairs (cmp : κ → κ → Ordering) [Std.TransCmp cmp] (l : List (κ × ν)) :
    Std.ExtTreeMap κ ν cmp :=
  l.foldl (fun m p => m.insert p.1 p.2) ∅

theorem getElem?_foldl_insert (m : Std.ExtTreeMap κ ν cmp) (k : κ) (v : ν) :
    (l.foldl (fun m p => m.insert p.1 p.2) m)[k]? = some v ↔
      (k, v) ∈ kept l ∨ k ∉ l.map Prod.fst ∧ m[k]? = some v := by
  induction l generalizing m with
  | nil => simp [kept]
  | cons p rest ih =>
    rw [foldl_cons, ih, Std.ExtTreeMap.getElem?_insert]
    simp only [Std.LawfulEqCmp.compare_eq_iff_eq, map_cons, mem_cons, kept]
    by_cases hk : p.1 = k
    · subst hk
      by_cases hrest : p.1 ∈ rest.map Prod.fst
      · simp [hrest]
      · have hnot : (p.1, v) ∉ kept rest := fun h => hrest (name_of_mem_kept h)
        simp [hrest, hnot, Prod.ext_iff, eq_comm]
    · have hkept : (k, v) ∈ (if p.1 ∈ rest.map Prod.fst then kept rest else p :: kept rest)
        ↔ (k, v) ∈ kept rest := by
        split
        · rfl
        · exact mem_cons.trans (or_iff_right fun h => hk (congrArg Prod.fst h).symm)
      rw [hkept, if_neg hk, not_or, and_assoc]
      exact or_congr_right ⟨fun h => ⟨Ne.symm hk, h⟩, fun h => h.2⟩

theorem toList_ofPairs : ((ofPairs cmp l).toList).Perm (kept l) := by
  refine (perm_ext_iff_of_nodup ?_ (nodup_kept l)).mpr ?_
  · refine Std.ExtTreeMap.distinct_keys_toList.imp ?_
    intro p q hne hpq
    exact hne (hpq ▸ Std.ReflCmp.compare_self)
  · intro p
    rw [Std.ExtTreeMap.mem_toList_iff_getElem?_eq_some, ofPairs, getElem?_foldl_insert]
    simp

theorem ofPairs_of_perm {l : List (κ × ν)} {m : Std.ExtTreeMap κ ν cmp} (h : l.Perm m.toList) :
    ofPairs cmp l = m := by
  have hnodup : (l.map Prod.fst).Nodup := by
    refine (h.map Prod.fst).nodup_iff.mpr (pairwise_map.mpr ?_)
    refine Std.ExtTreeMap.distinct_keys_toList.imp ?_
    intro p q hne hpq
    exact hne (hpq ▸ Std.ReflCmp.compare_self)
  have hkept := kept_append_shadowed l
  rw [shadowed_of_nodup hnodup, append_nil] at hkept
  have hpairs : (ofPairs cmp l).toList.Perm m.toList := ((toList_ofPairs l).trans hkept).trans h
  refine Std.ExtTreeMap.ext_getElem? fun k => Option.ext fun v => ?_
  rw [← Std.ExtTreeMap.mem_toList_iff_getElem?_eq_some,
    ← Std.ExtTreeMap.mem_toList_iff_getElem?_eq_some]
  exact hpairs.mem_iff

end FractalBits.Lib
