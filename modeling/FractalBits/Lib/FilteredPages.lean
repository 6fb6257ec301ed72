/-
  Lib.FilteredPages — paged listings of which some entries are not shown.

  Some entries are hidden, and of those that are shown some are kept.
-/

import Mathlib.Data.List.Basic

namespace FractalBits.Lib

open List

variable {E F : Type}

section

variable (lo hi : Nat) (shown : E → Bool) (keep : E → Option F)

/-- What the pages of a list come to, each of at least `lo` entries, unless it is the last, and of
    at most `hi`. -/
inductive Walk : List E → List F → Prop
  | last {l : List E} (hhi : l.length ≤ hi) : Walk l (l.filterMap keep)
  | stuck {page rest : List E} (hrest : rest ≠ []) (hlo : lo ≤ page.length) (hhi : page.length ≤ hi)
      (hhidden : ∀ e ∈ page, shown e = false) : Walk (page ++ rest) (page.filterMap keep)
  | more {front hidden rest : List E} {e : E} {out : List F} (hrest : rest ≠ [])
      (hlo : lo ≤ (front ++ e :: hidden).length) (hhi : (front ++ e :: hidden).length ≤ hi)
        (he : shown e = true)
      (hhidden : ∀ x ∈ hidden, shown x = false) (hout : Walk (hidden ++ rest) out) :
      Walk (front ++ e :: (hidden ++ rest)) ((front ++ [e]).filterMap keep ++ out)

/-- Behind `p` hidden entries in a row nothing is kept. -/
def NoGap (p : Nat) (l : List E) : Prop :=
  ∀ pre run post, l = pre ++ run ++ post → run.length = p → (∀ e ∈ run, shown e = false) →
    ∀ e ∈ post, keep e = none

end

variable {lo hi p : Nat} {shown : E → Bool} {keep : E → Option F}

theorem NoGap.append_right {front back : List E} (h : NoGap shown keep p (front ++ back)) :
    NoGap shown keep p back := by
  intro pre run post heq
  refine h (front ++ pre) run post ?_
  rw [heq]
  simp only [append_assoc]

theorem NoGap.keep_eq_none {page rest : List E} (h : NoGap shown keep p (page ++ rest))
    (hlen : p ≤ page.length) (hhidden : ∀ e ∈ page, shown e = false) : ∀ e ∈ rest,
    keep e = none := by
  intro e he
  refine h [] (page.take p) (page.drop p ++ rest) ?_ (length_take_of_le hlen) ?_ e ?_
  · rw [nil_append, ← append_assoc, take_append_drop]
  · exact fun x hx => hhidden x (mem_of_mem_take hx)
  · exact mem_append_right _ he

theorem Walk.complete {l : List E} {out : List F} (h : Walk lo hi shown keep l out)
    (hgap : NoGap shown keep lo l) :
    out = l.filterMap keep := by
  induction h with
  | last => rfl
  | stuck hrest hlo hhi hhidden =>
    have hnone := hgap.keep_eq_none hlo hhidden
    rw [filterMap_append, filterMap_eq_nil_iff.mpr hnone, append_nil]
  | @more front hidden rest e out hrest hlo hhi he hhidden hout ih =>
    have hsplit : front ++ e :: (hidden ++ rest) = (front ++ [e]) ++ (hidden ++ rest) := by simp
    rw [hsplit] at hgap ⊢
    rw [ih hgap.append_right, ← filterMap_append]

theorem Walk.lost (hkeep : ∀ e, shown e = false → keep e = none) {l : List E} {out : List F}
    (h : Walk lo hi shown keep l out) {pre run post : List E} (hl : l = pre ++ run ++ post)
    (hrun : run.length = hi) (hhidden : ∀ e ∈ run, shown e = false) (hpost : post ≠ []) :
    ∃ seen, seen <+: pre ∧ out = seen.filterMap keep := by
  induction h generalizing pre with
  | @last l hhi =>
    -- the gap and what is behind it do not fit into one page
    have hpos : 0 < post.length := length_pos_iff.mpr hpost
    rw [hl, length_append, length_append] at hhi
    omega
  | @stuck page rest hrest hlo hhi hpage =>
    refine ⟨[], nil_prefix, ?_⟩
    rw [filterMap_eq_nil_iff.mpr fun e he => hkeep e (hpage e he)]
    rfl
  | @more front hidden rest e out hrest hlo hhi he hpage hout ih =>
    -- the last entry that is shown stands before the gap
    obtain ⟨pre', rfl⟩ : ∃ pre', pre = front ++ e :: pre' := by
      rw [append_assoc] at hl
      rcases append_eq_append_iff.mp hl with ⟨mid, hpre, hmid⟩ | ⟨mid, hfront, hmid⟩
      · cases mid with
        | nil =>
          exfalso
          have hlen : 0 < run.length := by rw [hrun]; simp at hhi; omega
          obtain ⟨x, run', rfl⟩ := exists_cons_of_length_pos hlen
          have hx : e = x := (List.cons.inj hmid).1
          rw [hhidden e (by simp [hx])] at he
          cases he
        | cons x mid =>
          have hx : e = x := (List.cons.inj hmid).1
          exact ⟨mid, by rw [hpre, hx]⟩
      · exfalso
        -- `e` would be one of the gap
        have hlen : mid.length < run.length := by
          have := congrArg List.length hfront
          simp only [length_append, length_cons] at this hhi
          omega
        have hmem : e ∈ run := by
          rcases append_eq_append_iff.mp hmid with ⟨more, hmore, -⟩ | ⟨more, hmore, htail⟩
          · have := congrArg List.length hmore
            simp only [length_append] at this
            omega
          · cases more with
            | nil =>
              have := congrArg List.length hmore
              simp only [append_nil] at this
              omega
            | cons x more =>
              rw [hmore, (List.cons.inj htail).1]
              simp
        rw [hhidden e hmem] at he
        cases he
    have htail : hidden ++ rest = pre' ++ run ++ post := by
      simp only [append_assoc, cons_append] at hl
      have hcons := append_cancel_left hl
      rw [(List.cons.inj hcons).2, append_assoc]
    obtain ⟨seen, hseen, rfl⟩ := ih htail
    refine ⟨front ++ e :: seen, ?_, ?_⟩
    · exact (prefix_append_right_inj front).mpr (cons_prefix_cons.mpr ⟨rfl, hseen⟩)
    · rw [← filterMap_append, append_assoc]
      rfl

end FractalBits.Lib
