/-
  Lib.PagedScan — paged listings of a store that changes while it is listed.

  Each key of a page is read at its own moment; a scan continues from the last key of each page.
-/

import Mathlib.Order.Defs.Unbundled

namespace FractalBits.Lib

variable {K V : Type}

structure Page (K V : Type) where
  entries : List (K × V)
  hasMore : Bool

section

variable (lt : K → K → Prop) (present : Nat → K → V → Prop)

/-- The page lists the store after the key `after`, reading key `k` at moment `moment k`. -/
structure Page.Lists (moment : K → Nat) (after : K) (page : Page K V) : Prop where
  sorted : page.entries.Pairwise fun a b => lt a.1 b.1
  starts_after : ∀ e ∈ page.entries, lt after e.1
  sound : ∀ e ∈ page.entries, present (moment e.1) e.1 e.2
  complete : ∀ k v, lt after k →
    (page.hasMore = true → ∀ last ∈ page.entries.getLast?, ¬ lt last.1 k) →
    present (moment k) k v → (k, v) ∈ page.entries
  more : page.hasMore = true → page.entries ≠ []

/-- A scan from the key `after`, no key of it read before the moment `start`. -/
inductive Scan (start : Nat) : K → List (K × V) → Prop
  | last (after : K) (page : Page K V) (moment : K → Nat) (hstart : ∀ k, start ≤ moment k)
      (hpage : page.Lists lt present moment after) (hend : page.hasMore = false) :
      Scan start after page.entries
  | more (after : K) (page : Page K V) (moment : K → Nat) (hstart : ∀ k, start ≤ moment k)
      (hpage : page.Lists lt present moment after) (hmore : page.hasMore = true)
      (last : K × V) (hlast : last ∈ page.entries.getLast?) (rest : List (K × V))
      (hrest : Scan start last.1 rest) :
      Scan start after (page.entries ++ rest)

end

variable {lt : K → K → Prop} [IsStrictOrder K lt] {present : Nat → K → V → Prop}

theorem not_after_last {entries : List (K × V)} (hsorted : entries.Pairwise fun a b => lt a.1 b.1)
    {last : K × V} (hlast : last ∈ entries.getLast?) {e : K × V} (he : e ∈ entries) :
    ¬ lt last.1 e.1 := by
  obtain ⟨init, rfl⟩ : ∃ init, entries = init ++ [last] := List.getLast?_eq_some_iff.mp hlast
  rcases List.mem_append.mp he with he | he
  · have hlt := (List.pairwise_append.mp hsorted).2.2 e he last (by simp)
    exact fun h => irrefl_of lt _ (trans_of lt hlt h)
  · rw [List.mem_singleton.mp he]
    exact irrefl_of lt _

theorem Scan.torn_snapshot {start : Nat} {after : K} {entries : List (K × V)}
    (h : Scan lt present start after entries) :
    ∃ moment : K → Nat, (∀ k, start ≤ moment k) ∧ (∀ e ∈ entries, lt after e.1) ∧
      ∀ k v, lt after k → ((k, v) ∈ entries ↔ present (moment k) k v) := by
  classical
  induction h with
  | last after page moment hstart hpage hend =>
    refine ⟨moment, hstart, hpage.starts_after, fun k v hk => ⟨hpage.sound (k, v), ?_⟩⟩
    exact hpage.complete k v hk fun hmore => by rw [hend] at hmore; cases hmore
  | more after page moment hstart hpage hmore last hlast rest hrest ih =>
    obtain ⟨later, hlater, hafter, hiff⟩ := ih
    have hlastAfter : lt after last.1 := hpage.starts_after last (List.mem_of_getLast? hlast)
    -- a key after the page's last key is read by the rest of the scan
    refine ⟨fun k => if lt last.1 k then later k else moment k, ?_, ?_, ?_⟩
    · intro k
      dsimp only
      split
      · exact hlater k
      · exact hstart k
    · intro e he
      rcases List.mem_append.mp he with he | he
      · exact hpage.starts_after e he
      · exact trans_of lt hlastAfter (hafter e he)
    · intro k v hk
      dsimp only
      rw [List.mem_append]
      by_cases hpast : lt last.1 k
      · rw [if_pos hpast, ← hiff k v hpast]
        refine ⟨fun h => h.resolve_left fun he => ?_, .inr⟩
        exact not_after_last hpage.sorted hlast he hpast
      · rw [if_neg hpast]
        constructor
        · rintro (he | he)
          · exact hpage.sound (k, v) he
          · exact absurd (hafter (k, v) he) hpast
        · intro hp
          refine .inl (hpage.complete k v hk (fun _ l hl => ?_) hp)
          rw [Option.mem_unique hl hlast]
          exact hpast

end FractalBits.Lib
