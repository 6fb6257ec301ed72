/-
  Lib.KeyedWrites — a store that keeps what was last written under each key.
-/

import Mathlib.Data.List.Nodup
import Mathlib.Logic.Function.Basic

namespace FractalBits.Lib

open Function

variable {κ α : Type*} [DecidableEq κ] (store : κ → Option α)

def writeAll (writes : List (κ × α)) : κ → Option α :=
  writes.foldl (fun store w => update store w.1 (some w.2)) store

theorem writeAll_cons (w : κ × α) (writes : List (κ × α)) :
    writeAll store (w :: writes) = writeAll (update store w.1 (some w.2)) writes := rfl

theorem writeAll_of_not_mem {writes : List (κ × α)} {k : κ}
    (h : k ∉ writes.map Prod.fst) : writeAll store writes k = store k := by
  induction writes generalizing store with
  | nil => rfl
  | cons w writes ih =>
    rw [List.map_cons, List.mem_cons, not_or] at h
    rw [writeAll_cons, ih _ h.2, update_of_ne h.1]

theorem writeAll_of_nodup {writes : List (κ × α)} (hkeys : (writes.map Prod.fst).Nodup)
    {k : κ} {a : α} (h : (k, a) ∈ writes) : writeAll store writes k = some a := by
  induction writes generalizing store with
  | nil => cases h
  | cons w writes ih =>
    rw [List.map_cons, List.nodup_cons] at hkeys
    rw [writeAll_cons]
    rcases List.mem_cons.mp h with rfl | h
    · -- later writes are under other keys
      rw [writeAll_of_not_mem _ hkeys.1, update_self]
    · exact ih _ hkeys.2 h

theorem writeAll_last (writes : List (κ × α)) (k : κ) (a : α) :
    writeAll store (writes ++ [(k, a)]) k = some a := by
  unfold writeAll
  rw [List.foldl_append]
  exact update_self ..

end FractalBits.Lib
