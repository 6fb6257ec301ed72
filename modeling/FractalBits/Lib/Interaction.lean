/-
  Lib.Interaction — programs that talk to a service by calls.

  A program is done, or makes a call and continues with the answer of the service, which may change
  its state.
-/

import Mathlib.Data.List.Basic
import Mathlib.Logic.Function.Basic

namespace FractalBits.Lib

variable {Op : Type} {Ans : Op → Type} {α β σ Ch : Type}

/-! ## §1. Programs -/

inductive Prog (Op : Type) (Ans : Op → Type) (α : Type) : Type
  | done (a : α)
  | call (op : Op) (next : Ans op → Prog Op Ans α)

def Prog.bind : Prog Op Ans α → (α → Prog Op Ans β) → Prog Op Ans β
  | .done a, f => f a
  | .call op next, f => .call op fun ans => (next ans).bind f

instance : Monad (Prog Op Ans) where
  pure := .done
  bind := .bind

def perform (op : Op) : Prog Op Ans (Ans op) := .call op .done

def Prog.result? : Prog Op Ans α → Option α
  | .done a => some a
  | .call _ _ => none

def Prog.next? : Prog Op Ans α → Option Op
  | .done _ => none
  | .call op _ => some op

theorem Prog.eq_done_of_result? {p : Prog Op Ans α} {a : α} (h : p.result? = some a) :
    p = .done a := by
  cases p with
  | done b => rw [Option.some.inj h]
  | call op next => cases h

theorem run_lift_bind {ε : Type} (p : Prog Op Ans α) (f : α → ExceptT ε (Prog Op Ans) β) :
    (ExceptT.lift p >>= f).run = p >>= fun a => (f a).run := by
  induction p with
  | done a => rfl
  | call op next ih => exact congrArg (Prog.call op) (funext ih)

@[simp] theorem perform_bind (op : Op) (f : Ans op → Prog Op Ans β) :
    (perform op >>= f) = .call op f := rfl

/-! ## §2. One program alone -/

def Prog.exec (serve : (op : Op) → σ → Ans op × σ) : Prog Op Ans α → σ → α × σ
  | .done a, s => (a, s)
  | .call op next, s => (next (serve op s).1).exec serve (serve op s).2

section

variable (serve : (op : Op) → σ → Ans op × σ)

@[simp] theorem exec_call (op : Op) (next : Ans op → Prog Op Ans α) (s : σ) :
    (Prog.call op next).exec serve s = (next (serve op s).1).exec serve (serve op s).2 := rfl

theorem exec_bind (p : Prog Op Ans α) (f : α → Prog Op Ans β) (s : σ) :
    (p >>= f).exec serve s = (f (p.exec serve s).1).exec serve (p.exec serve s).2 := by
  induction p generalizing s with
  | done a => rfl
  | call op next ih => exact ih (serve op s).1 (serve op s).2

variable {serve} {ε : Type}

theorem exec_lift (p : Prog Op Ans α) (s : σ) :
    (ExceptT.lift p : ExceptT ε (Prog Op Ans) α).run.exec serve s
      = (.ok (p.exec serve s).1, (p.exec serve s).2) := by
  show (p >>= fun a => pure (Except.ok a)).exec serve s = _
  rw [exec_bind]
  rfl

theorem exec_of_ok {x : ExceptT ε (Prog Op Ans) α} {f : α → ExceptT ε (Prog Op Ans) β} {s s' : σ}
    {a : α} (h : x.run.exec serve s = (.ok a, s')) :
    (x >>= f).run.exec serve s = (f a).run.exec serve s' := by
  rw [ExceptT.run_bind, exec_bind, h]

theorem exec_of_error {x : ExceptT ε (Prog Op Ans) α} {f : α → ExceptT ε (Prog Op Ans) β} {s s' : σ}
    {e : ε} (h : x.run.exec serve s = (.error e, s')) :
    (x >>= f).run.exec serve s = (.error e, s') := by
  rw [ExceptT.run_bind, exec_bind, h]
  rfl

end

/-! ## §3. One program, whatever the choices -/

/-- The program, started in `s`, can end with `a` in `s'` by choices that are `ok`. -/
def Prog.Ends (serve : Ch → (op : Op) → σ → Ans op × σ) (ok : Op → Ch → Prop) :
    Prog Op Ans α → σ → α → σ → Prop
  | .done b, s, a, s' => b = a ∧ s = s'
  | .call op next, s, a, s' =>
    ∃ ch, ok op ch ∧ (next (serve ch op s).1).Ends serve ok (serve ch op s).2 a s'

section

variable {serve : Ch → (op : Op) → σ → Ans op × σ} {ok : Op → Ch → Prop} {s : σ}

theorem ends_perform {op : Op} {s' : σ} {ans : Ans op} :
    (perform op : Prog Op Ans (Ans op)).Ends serve ok s ans s' ↔ ∃ ch, ok op ch
      ∧ serve ch op s = (ans, s') := by
  show (∃ ch, ok op ch ∧ (serve ch op s).1 = ans ∧ (serve ch op s).2 = s') ↔ _
  simp only [Prod.ext_iff]

theorem ends_bind {p : Prog Op Ans α} {f : α → Prog Op Ans β} {s'' : σ} {b : β} :
    (p >>= f).Ends serve ok s b s'' ↔ ∃ a s', p.Ends serve ok s a s'
      ∧ (f a).Ends serve ok s' b s'' := by
  induction p generalizing s with
  | done a =>
    show (f a).Ends serve ok s b s'' ↔ ∃ a' s', (a = a' ∧ s = s') ∧ _
    simp only [and_assoc, exists_eq_left', exists_and_left]
  | call op next ih =>
    show (∃ ch, ok op ch ∧ (next (serve ch op s).1 >>= f).Ends serve ok (serve ch op s).2 b s'') ↔ _
    simp only [ih]
    constructor
    · rintro ⟨ch, hch, a, s', hnext, hf⟩
      exact ⟨a, s', ⟨ch, hch, hnext⟩, hf⟩
    · rintro ⟨a, s', ⟨ch, hch, hnext⟩, hf⟩
      exact ⟨ch, hch, a, s', hnext, hf⟩

theorem ends_exec {ch : Ch} (h : ∀ op, ok op ch) (p : Prog Op Ans α) (s : σ) :
    p.Ends serve ok s (p.exec (serve ch) s).1 (p.exec (serve ch) s).2 := by
  induction p generalizing s with
  | done a => exact ⟨rfl, rfl⟩
  | call op next ih => exact ⟨ch, h op, ih _ _⟩

variable {ε : Type}

theorem ends_run_bind {x : ExceptT ε (Prog Op Ans) α} {f : α → ExceptT ε (Prog Op Ans) β} {s'' : σ}
    {r : Except ε β} :
    (x >>= f).run.Ends serve ok s r s'' ↔
      (∃ e, r = .error e ∧ x.run.Ends serve ok s (.error e) s'')
      ∨ ∃ a s', x.run.Ends serve ok s (.ok a) s' ∧ (f a).run.Ends serve ok s' r s'' := by
  rw [ExceptT.run_bind, ends_bind]
  constructor
  · rintro ⟨a, s', hx, hf⟩
    cases a with
    | error e =>
      obtain ⟨rfl, rfl⟩ := hf
      exact .inl ⟨e, rfl, hx⟩
    | ok a => exact .inr ⟨a, s', hx, hf⟩
  · rintro (⟨e, rfl, hx⟩ | ⟨a, s', hx, hf⟩)
    · exact ⟨.error e, s'', hx, rfl, rfl⟩
    · exact ⟨.ok a, s', hx, hf⟩

theorem ends_run_lift {p : Prog Op Ans α} {s' : σ} {r : Except ε α} :
    (ExceptT.lift p : ExceptT ε (Prog Op Ans) α).run.Ends serve ok s r s'
      ↔ ∃ a, r = .ok a ∧ p.Ends serve ok s a s' := by
  show (p >>= fun a => pure (Except.ok a)).Ends serve ok s r s' ↔ _
  rw [ends_bind]
  constructor
  · rintro ⟨a, s₁, hp, rfl, rfl⟩
    exact ⟨a, rfl, hp⟩
  · rintro ⟨a, rfl, hp⟩
    exact ⟨a, s', hp, rfl, rfl⟩

end

/-! ## §4. What a program keeps -/

/-- The program keeps `I`, whatever choices that are `ok` are made and whatever happens between its
    calls that keeps `I` too, and its result meets `Q`. -/
def Prog.Keeps (serve : Ch → (op : Op) → σ → Ans op × σ) (ok : Op → Ch → Prop) (I : σ → Prop)
    (Q : α → Prop) :
    Prog Op Ans α → Prop
  | .done a => Q a
  | .call op next =>
    ∀ ch s, ok op ch → I s → I (serve ch op s).2 ∧ (next (serve ch op s).1).Keeps serve ok I Q

section

variable {serve : Ch → (op : Op) → σ → Ans op × σ} {ok : Op → Ch → Prop} {I : σ → Prop}
    {Q : α → Prop}

theorem Prog.Keeps.bind {P : β → Prop} {p : Prog Op Ans β} {f : β → Prog Op Ans α}
    (hp : p.Keeps serve ok I P) (hf : ∀ b, P b → (f b).Keeps serve ok I Q) :
    (p >>= f).Keeps serve ok I Q := by
  induction p with
  | done b => exact hf b hp
  | call op next ih =>
    intro ch s hch hs
    exact ⟨(hp ch s hch hs).1, ih _ (hp ch s hch hs).2⟩

theorem Prog.Keeps.mono {P : α → Prop} {p : Prog Op Ans α} (hp : p.Keeps serve ok I P)
    (h : ∀ a, P a → Q a) :
    p.Keeps serve ok I Q := by
  induction p with
  | done a => exact h a hp
  | call op next ih =>
    intro ch s hch hs
    exact ⟨(hp ch s hch hs).1, ih _ (hp ch s hch hs).2⟩

variable {ε : Type}

theorem keeps_run_bind {x : ExceptT ε (Prog Op Ans) β} {f : β → ExceptT ε (Prog Op Ans) α}
    {P : Except ε β → Prop} {Q : Except ε α → Prop} (hx : x.run.Keeps serve ok I P)
    (herror : ∀ e, P (.error e) → Q (.error e))
    (hf : ∀ b, P (.ok b) → (f b).run.Keeps serve ok I Q) :
    (x >>= f).run.Keeps serve ok I Q := by
  rw [ExceptT.run_bind]
  refine hx.bind ?_
  intro r hr
  cases r with
  | error e => exact herror e hr
  | ok b => exact hf b hr

theorem keeps_lift_bind {p : Prog Op Ans β} {f : β → ExceptT ε (Prog Op Ans) α} {P : β → Prop}
    {Q : Except ε α → Prop} (hp : p.Keeps serve ok I P)
    (hf : ∀ b, P b → (f b).run.Keeps serve ok I Q) :
    (ExceptT.lift p >>= f).run.Keeps serve ok I Q := by
  rw [run_lift_bind]
  exact hp.bind hf

end

/-! ## §5. Two programs that answer alike -/

def Alike (serve : (op : Op) → σ → Ans op × σ) (s s' : σ) (p q : Prog Op Ans α) : Prop :=
  ∃ a, p.exec serve s = (a, s) ∧ q.exec serve s' = (a, s')

section

variable {serve : (op : Op) → σ → Ans op × σ} {s s' : σ}

theorem alike_done (a : α) : Alike serve s s' (.done a : Prog Op Ans α) (.done a) := ⟨a, rfl, rfl⟩

theorem Alike.bind {p q : Prog Op Ans α} {f g : α → Prog Op Ans β} (h : Alike serve s s' p q)
    (hf : ∀ a, Alike serve s s' (f a) (g a)) : Alike serve s s' (p >>= f) (q >>= g) := by
  obtain ⟨a, hp, hq⟩ := h
  obtain ⟨b, hfa, hga⟩ := hf a
  refine ⟨b, ?_, ?_⟩
  · rw [exec_bind, hp]
    exact hfa
  · rw [exec_bind, hq]
    exact hga

variable {ε : Type}

theorem Alike.run_bind {x y : ExceptT ε (Prog Op Ans) α} {f g : α → ExceptT ε (Prog Op Ans) β}
    (h : Alike serve s s' x.run y.run) (hf : ∀ a, Alike serve s s' (f a).run (g a).run) :
    Alike serve s s' (x >>= f).run (y >>= g).run := by
  rw [ExceptT.run_bind, ExceptT.run_bind]
  refine h.bind fun r => ?_
  cases r with
  | error e => exact alike_done _
  | ok a => exact hf a

theorem Alike.run_lift {p q : Prog Op Ans α} (h : Alike serve s s' p q) :
    Alike serve s s' (ExceptT.lift p : ExceptT ε (Prog Op Ans) α).run
      (ExceptT.lift q : ExceptT ε (Prog Op Ans) α).run :=
  h.bind fun _ => alike_done _

end

/-! ## §6. Results, whatever the answers -/

def Prog.Returns (Q : α → Prop) : Prog Op Ans α → Prop
  | .done a => Q a
  | .call _ next => ∀ ans, (next ans).Returns Q

theorem Prog.Returns.bind {p : Prog Op Ans β} {f : β → Prog Op Ans α} {Q : α → Prop}
    (h : ∀ b, (f b).Returns Q) : (p >>= f).Returns Q := by
  induction p with
  | done b => exact h b
  | call op next ih => exact fun ans => ih ans

theorem Prog.Returns.mono {p : Prog Op Ans α} {Q R : α → Prop} (h : p.Returns Q)
    (hQ : ∀ a, Q a → R a) :
    p.Returns R := by
  induction p with
  | done a => exact hQ a h
  | call op next ih => exact fun ans => ih ans (h ans)

/-- `I` holds before the program, run from `s` on, makes its first call, and after each. -/
def Prog.Always (serve : (op : Op) → σ → Ans op × σ) (I : σ → Prop) : Prog Op Ans α → σ → Prop
  | .done _, s => I s
  | .call op next, s => I s ∧ (next (serve op s).1).Always serve I (serve op s).2

section

variable {serve : (op : Op) → σ → Ans op × σ} {I : σ → Prop} {p : Prog Op Ans α} {s : σ}

theorem Prog.Always.now (h : p.Always serve I s) : I s := by
  cases p with
  | done a => exact h
  | call op next => exact h.1

end

/-! ## §7. Calls in order -/

/-- Run from `s` on, whatever choices that are `ok` are made, the program makes each call in a state
    where `guard` allows it, and ends with `Q`. -/
def Prog.Ensures (serve : Ch → (op : Op) → σ → Ans op × σ) (ok : Op → Ch → Prop)
    (guard : σ → Op → Prop) (Q : α → σ → Prop) : Prog Op Ans α → σ → Prop
  | .done a, s => Q a s
  | .call op next, s =>
    guard s op ∧ ∀ ch, ok op ch → (next (serve ch op s).1).Ensures serve ok guard Q
      (serve ch op s).2

section

variable {serve : Ch → (op : Op) → σ → Ans op × σ} {ok : Op → Ch → Prop} {guard : σ → Op → Prop}
    {Q : α → σ → Prop}

theorem Prog.Ensures.bind {p : Prog Op Ans β} {f : β → Prog Op Ans α} {R : β → σ → Prop} {s : σ}
    (h : p.Ensures serve ok guard R s) (hf : ∀ b s, R b s → (f b).Ensures serve ok guard Q s) :
    (p >>= f).Ensures serve ok guard Q s := by
  induction p generalizing s with
  | done b => exact hf b s h
  | call op next ih => exact ⟨h.1, fun ch hch => ih _ (h.2 ch hch)⟩

theorem Prog.Ensures.mono {p : Prog Op Ans α} {R : α → σ → Prop} {s : σ}
    (h : p.Ensures serve ok guard R s) (hQ : ∀ a s, R a s → Q a s) :
    p.Ensures serve ok guard Q s := by
  induction p generalizing s with
  | done a => exact hQ a s h
  | call op next ih => exact ⟨h.1, fun ch hch => ih _ (h.2 ch hch)⟩

theorem Prog.Ensures.ends {p : Prog Op Ans α} {s s' : σ} {a : α} (h : p.Ensures serve ok guard Q s)
    (hends : p.Ends serve ok s a s') : Q a s' := by
  induction p generalizing s with
  | done b =>
    obtain ⟨rfl, rfl⟩ := hends
    exact h
  | call op next ih =>
    obtain ⟨ch, hch, hnext⟩ := hends
    exact ih _ (h.2 ch hch) hnext

theorem Prog.Keeps.ensures {p : Prog Op Ans α} {I : σ → Prop} {Q : α → Prop}
    (hp : p.Keeps serve ok I Q) {s : σ} (hs : I s) (hguard : ∀ s op, guard s op) :
    p.Ensures serve ok guard (fun a s' => I s' ∧ Q a) s := by
  induction p generalizing s with
  | done a => exact ⟨hs, hp⟩
  | call op next ih => exact ⟨hguard s op, fun ch hch => ih _ (hp ch s hch hs).2 (hp ch s hch hs).1⟩

theorem Prog.Keeps.ends {p : Prog Op Ans α} {I : σ → Prop} {Q : α → Prop}
    (hp : p.Keeps serve ok I Q) {s s' : σ} {a : α} (hs : I s) (h : p.Ends serve ok s a s') :
    I s' ∧ Q a :=
  (hp.ensures hs fun _ _ => trivial : p.Ensures serve ok (fun _ _ => True) _ s).ends h

theorem ensures_run_bind {ε : Type} {x : ExceptT ε (Prog Op Ans) β}
    {f : β → ExceptT ε (Prog Op Ans) α} {R : Except ε β → σ → Prop} {Q : Except ε α → σ → Prop}
    {s : σ} (hx : x.run.Ensures serve ok guard R s)
    (herror : ∀ e s, R (.error e) s → Q (.error e) s)
    (hf : ∀ b s, R (.ok b) s → (f b).run.Ensures serve ok guard Q s) :
    (x >>= f).run.Ensures serve ok guard Q s := by
  rw [ExceptT.run_bind]
  refine hx.bind fun r s' hr => ?_
  cases r with
  | error e => exact herror e s' hr
  | ok b => exact hf b s' hr

theorem Prog.Ensures.always {τ : Type} {serve' : (op : Op) → τ → Ans op × τ} {view : τ → σ}
    {I : τ → Prop} (hstep : ∀ t op, I t → guard (view t) op → I (serve' op t).2
      ∧ ∃ ch, ok op ch ∧ serve ch op (view t) = ((serve' op t).1, view (serve' op t).2))
    {p : Prog Op Ans α} {t : τ} (h : p.Ensures serve ok guard Q (view t)) (ht : I t) :
      p.Always serve' I t := by
  induction p generalizing t with
  | done a => exact ht
  | call op next ih =>
    obtain ⟨hI, ch, hch, hserve⟩ := hstep t op ht h.1
    have hnext := h.2 ch hch
    rw [hserve] at hnext
    exact ⟨ht, ih _ hnext hI⟩

end

end FractalBits.Lib
