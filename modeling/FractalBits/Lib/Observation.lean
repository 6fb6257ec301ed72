/-
  Lib.Observation — a program that reads a service others change.

  Each call is answered at a moment of its own; `R` says which answers there can be then.
-/

import FractalBits.Lib.Interaction
import Mathlib.Order.Nat

namespace FractalBits.Lib

variable {Op : Type} {Ans : Op → Type} {α β σ Ch : Type}

/-! ## §1. Observations -/

/-- The program, started at moment `t`, ends at `t'` with `a`; no call is made before the one before
    it. -/
inductive Observes (R : Nat → (op : Op) → Ans op → Prop) : Nat → Prog Op Ans α → Nat → α → Prop
  | done {t t' : Nat} (h : t ≤ t') (a : α) : Observes R t (.done a) t' a
  | call {t u t' : Nat} {op : Op} {next : Ans op → Prog Op Ans α} {ans : Ans op} {a : α}
      (h : t ≤ u) (hans : R u op ans) (hnext : Observes R u (next ans) t' a) :
      Observes R t (.call op next) t' a

variable {R : Nat → (op : Op) → Ans op → Prop} {t t' : Nat} {p : Prog Op Ans α} {a : α}

theorem Observes.le (h : Observes R t p t' a) : t ≤ t' := by
  induction h with
  | done h a => exact h
  | call h hans hnext ih => exact h.trans ih

theorem Observes.bind {f : α → Prog Op Ans β} {b : β}
    (h : Observes R t (p >>= f) t' b) : ∃ u a, Observes R t p u a ∧ Observes R u (f a) t' b := by
  induction p generalizing t with
  | done a => exact ⟨t, a, .done le_rfl a, h⟩
  | call op next ih =>
    cases h with
    | call hle hans hnext =>
      obtain ⟨u, a, hp, hf⟩ := ih _ hnext
      exact ⟨u, a, .call hle hans hp, hf⟩

theorem Observes.mono {t₀ t₁ : Nat} (h : Observes R t p t' a) (hstart : t₀ ≤ t)
    (hend : t' ≤ t₁) : Observes R t₀ p t₁ a := by
  induction h generalizing t₀ with
  | done hle a => exact .done (hstart.trans (hle.trans hend)) a
  | call hle hans hnext ih => exact .call (hstart.trans hle) hans (ih le_rfl hend)

theorem Observes.done_eq {b : α} (h : Observes R t (.done a : Prog Op Ans α) t' b) :
    b = a ∧ t ≤ t' := by
  cases h with
  | done hle => exact ⟨rfl, hle⟩

theorem Observes.perform {op : Op} {ans : Ans op}
    (h : Observes R t (perform op) t' ans) : ∃ u, t ≤ u ∧ u ≤ t' ∧ R u op ans := by
  cases h with
  | call hle hans hnext =>
    cases hnext with
    | done h a => exact ⟨_, hle, h, hans⟩

variable {ε : Type}

theorem Observes.run_bind {x : ExceptT ε (Prog Op Ans) α} {f : α → ExceptT ε (Prog Op Ans) β}
    {r : Except ε β} (h : Observes R t (x >>= f).run t' r) :
    (∃ e, r = .error e ∧ Observes R t x.run t' (.error e))
      ∨ ∃ u a, Observes R t x.run u (.ok a) ∧ Observes R u (f a).run t' r := by
  rw [ExceptT.run_bind] at h
  obtain ⟨u, result, hx, hf⟩ := h.bind
  cases result with
  | error e =>
    obtain ⟨rfl, hle⟩ := hf.done_eq
    exact .inl ⟨e, rfl, hx.mono le_rfl hle⟩
  | ok a => exact .inr ⟨u, a, hx, hf⟩

theorem Observes.run_lift {r : Except ε α}
    (h : Observes R t (ExceptT.lift p : ExceptT ε (Prog Op Ans) α).run t' r) :
    ∃ a, r = .ok a ∧ Observes R t p t' a := by
  have hbind : Observes R t (p >>= fun a => pure (Except.ok a)) t' r := h
  obtain ⟨u, a, hp, hdone⟩ := hbind.bind
  obtain ⟨rfl, hle⟩ := hdone.done_eq
  exact ⟨a, rfl, hp.mono le_rfl hle⟩

theorem Observes.lift_bind {f : α → ExceptT ε (Prog Op Ans) β} {r : Except ε β}
    (h : Observes R t (ExceptT.lift p >>= f).run t' r) :
    ∃ u a, Observes R t p u a ∧ Observes R u (f a).run t' r := by
  rw [run_lift_bind] at h
  exact h.bind

theorem observes_exec {serve : Ch → (op : Op) → σ → Ans op × σ} {ok : Op → Ch → Prop} {s : σ}
    {ch : Ch} {Q : α → Prop} (hp : p.Keeps serve ok (fun s' => s' = s) Q) (hok : ∀ op, ok op ch)
    (hR : ∀ op, R t op (serve ch op s).1) : Observes R t p t (p.exec (serve ch) s).1 := by
  induction p with
  | done a => exact .done le_rfl a
  | call op next ih =>
    obtain ⟨hs, hnext⟩ := hp ch s (hok op) rfl
    rw [exec_call, hs]
    exact .call le_rfl (hR op) (ih _ hnext)

/-- A run whose state is the moment of the next call. -/
theorem observes_exec_clock (serve : (op : Op) → Nat → Ans op × Nat)
    (hclock : ∀ op t, t ≤ (serve op t).2) (hR : ∀ op t, R t op (serve op t).1) (p : Prog Op Ans α)
    (t : Nat) :
    Observes R t p (p.exec serve t).2 (p.exec serve t).1 := by
  induction p generalizing t with
  | done a => exact .done le_rfl a
  | call op next ih =>
    rw [exec_call]
    exact .call le_rfl (hR op t) ((ih _ _).mono (hclock op t) le_rfl)

/-! ## §2. Programs with one result -/

/-- From moment `t` on, the program can only end with `a`. -/
def Steady (R : Nat → (op : Op) → Ans op → Prop) (t : Nat) (p : Prog Op Ans α) (a : α) : Prop :=
  ∀ u t' b, t ≤ u → Observes R u p t' b → b = a

section

variable {t : Nat}

theorem steady_done (a : α) : Steady R t (.done a : Prog Op Ans α) a :=
  fun _ _ _ _ h => h.done_eq.1

theorem steady_perform {op : Op} {a : Ans op} (h : ∀ u ans, t ≤ u → R u op ans → ans = a) :
    Steady R t (perform op) a := by
  intro u t' b hu hobs
  obtain ⟨w, hw, -, hans⟩ := hobs.perform
  exact h w b (hu.trans hw) hans

variable {p : Prog Op Ans α} {a : α}

theorem Steady.bind {f : α → Prog Op Ans β} {b : β} (hp : Steady R t p a)
    (hf : Steady R t (f a) b) : Steady R t (p >>= f) b := by
  intro u t' b' hu hobs
  obtain ⟨w, a', hpa, hfa⟩ := hobs.bind
  rw [hp u w a' hu hpa] at hfa
  exact hf w t' b' (hu.trans hpa.le) hfa

theorem Steady.run_ok {x : ExceptT ε (Prog Op Ans) α} {f : α → ExceptT ε (Prog Op Ans) β}
    {r : Except ε β} (hx : Steady R t x.run (.ok a)) (hf : Steady R t (f a).run r) :
    Steady R t (x >>= f).run r := by
  rw [ExceptT.run_bind]
  exact hx.bind hf

theorem Steady.run_error {x : ExceptT ε (Prog Op Ans) α} {f : α → ExceptT ε (Prog Op Ans) β} {e : ε}
    (hx : Steady R t x.run (.error e)) : Steady R t (x >>= f).run (.error e) := by
  rw [ExceptT.run_bind]
  exact hx.bind (steady_done _)

theorem Steady.run_lift (hp : Steady R t p a) :
    Steady R t (ExceptT.lift p : ExceptT ε (Prog Op Ans) α).run (.ok a) :=
  hp.bind (steady_done _)

theorem Steady.exec {serve : Ch → (op : Op) → σ → Ans op × σ} {ok : Op → Ch → Prop} {s : σ}
    {ch : Ch} {Q : α → Prop} (h : Steady R t p a) (hp : p.Keeps serve ok (fun s' => s' = s) Q)
    (hok : ∀ op, ok op ch) (hR : ∀ op, R t op (serve ch op s).1) : (p.exec (serve ch) s).1 = a :=
  h t t _ le_rfl (observes_exec hp hok hR)

end

end FractalBits.Lib
