/-
  Lib.Transition — transition systems, the invariant rule, and runs with their own clock.
-/

import Mathlib.Order.Basic

namespace FractalBits.Lib

structure TransitionSystem (σ : Type) where
  init : σ → Prop
  step : σ → σ → Prop

variable {σ : Type} {T : TransitionSystem σ}

/-! ## §1. Reachable states -/

inductive TransitionSystem.Reachable (T : TransitionSystem σ) : σ → Prop
  | init {s : σ} (h : T.init s) : T.Reachable s
  | step {s s' : σ} (hs : T.Reachable s) (h : T.step s s') : T.Reachable s'

theorem TransitionSystem.Reachable.invariant {P : σ → Prop}
    (hinit : ∀ s, T.init s → P s)
    (hstep : ∀ s s', P s → T.step s s' → P s')
    {s : σ} (hs : T.Reachable s) : P s := by
  induction hs with
  | init h => exact hinit _ h
  | step _ h ih => exact hstep _ _ ih h

/-! ## §2. Runs -/

/-- One execution of `T`: between two moments the state stutters or takes one step. -/
structure TransitionSystem.Run (T : TransitionSystem σ) where
  state : Nat → σ
  start : T.init (state 0)
  next : ∀ t, state (t + 1) = state t ∨ T.step (state t) (state (t + 1))

theorem TransitionSystem.Run.reachable (r : T.Run) (t : Nat) : T.Reachable (r.state t) := by
  induction t with
  | zero => exact .init r.start
  | succ t ih =>
    rcases r.next t with h | h
    · rw [h]; exact ih
    · exact .step ih h

theorem TransitionSystem.Run.mono (r : T.Run) {R : σ → σ → Prop}
    (hrefl : ∀ s, R s s) (htrans : ∀ a b c, R a b → R b c → R a c)
    (hstep : ∀ s s', T.Reachable s → T.step s s' → R s s')
    {i j : Nat} (hij : i ≤ j) : R (r.state i) (r.state j) := by
  obtain ⟨d, rfl⟩ := Nat.exists_eq_add_of_le hij
  induction d with
  | zero => exact hrefl _
  | succ d ih =>
    refine htrans _ _ _ (ih (Nat.le_add_right i d)) ?_
    rcases r.next (i + d) with h | h
    · rw [← Nat.add_assoc, h]; exact hrefl _
    · exact hstep _ _ (r.reachable (i + d)) h

end FractalBits.Lib
