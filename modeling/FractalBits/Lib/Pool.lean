/-
  Lib.Pool — programs side by side, one call at a time.

  A schedule says whose call is next and which choice is made for it.
-/

import FractalBits.Lib.Interaction

namespace FractalBits.Lib

open List Function

variable {Op : Type} {Ans : Op → Type} {α β σ Ch ι : Type}

/-! ## §1. Programs side by side -/

/-- The state of the service, and what is left of each program. -/
structure Pool (Op : Type) (Ans : Op → Type) (α σ ι : Type) where
  state : σ
  left : ι → Prog Op Ans α

section

variable [DecidableEq ι] (serve : Ch → (op : Op) → σ → Ans op × σ) (c : Pool Op Ans α σ ι)

def Pool.step (e : ι × Ch) : Pool Op Ans α σ ι :=
  match c.left e.1 with
  | .done _ => c
  | .call op next =>
    ⟨(serve e.2 op c.state).2, update c.left e.1 (next (serve e.2 op c.state).1)⟩

def Pool.run (schedule : List (ι × Ch)) : Pool Op Ans α σ ι :=
  schedule.foldl (Pool.step serve) c

/-- One call of a run: who made it, what was asked, how it went, and from which state. -/
structure Event (Op σ Ch ι : Type) where
  who : ι
  op : Op
  choice : Ch
  before : σ

def Pool.trace : Pool Op Ans α σ ι → List (ι × Ch) → List (Event Op σ Ch ι)
  | _, [] => []
  | c, e :: schedule =>
    match c.left e.1 with
    | .done _ => Pool.trace c schedule
    | .call op _ => ⟨e.1, op, e.2, c.state⟩ :: Pool.trace (c.step serve e) schedule

variable {serve}

theorem Pool.run_append (first second : List (ι × Ch)) :
    c.run serve (first ++ second) = (c.run serve first).run serve second :=
  foldl_append

theorem Pool.trace_append (first second : List (ι × Ch)) :
    c.trace serve (first ++ second)
      = c.trace serve first ++ (c.run serve first).trace serve second := by
  induction first generalizing c with
  | nil => rfl
  | cons e first ih =>
    rw [cons_append, Pool.trace, Pool.trace]
    show _ = _ ++ ((c.step serve e).run serve first).trace serve second
    cases hcall : c.left e.1 with
    | done a =>
      have hstep : c.step serve e = c := by
        unfold Pool.step
        rw [hcall]
      dsimp only
      rw [hstep, ih]
    | call op next =>
      dsimp only
      rw [ih, cons_append]

variable {c : Pool Op Ans α σ ι} {e : ι × Ch}

theorem Pool.who_of_mem_trace {schedule : List (ι × Ch)} {event : Event Op σ Ch ι}
    (h : event ∈ c.trace serve schedule) : (event.who, event.choice) ∈ schedule := by
  induction schedule generalizing c with
  | nil => cases h
  | cons e schedule ih =>
    rw [Pool.trace] at h
    cases hcall : c.left e.1 with
    | done a =>
      rw [hcall] at h
      exact mem_cons_of_mem _ (ih h)
    | call op next =>
      rw [hcall] at h
      rcases mem_cons.mp h with rfl | h
      · exact mem_cons_self
      · exact mem_cons_of_mem _ (ih h)

theorem Pool.step_call {op : Op} {next : Ans op → Prog Op Ans α}
    (h : c.left e.1 = .call op next) :
    c.step serve e
      = ⟨(serve e.2 op c.state).2, update c.left e.1 (next (serve e.2 op c.state).1)⟩ := by
  unfold Pool.step
  rw [h]

theorem Pool.step_done {a : α} (h : c.left e.1 = .done a) :
    c.step serve e = c := by
  unfold Pool.step
  rw [h]

theorem Pool.run_alone (ch : Ch) (i : ι) (c : Pool Op Ans α σ ι) :
    ∃ schedule : List (ι × Ch), (∀ e ∈ schedule, e.2 = ch)
      ∧ (c.run serve schedule).state = ((c.left i).exec (serve ch) c.state).2
      ∧ (c.run serve schedule).left i = .done ((c.left i).exec (serve ch) c.state).1 := by
  generalize hp : c.left i = p
  induction p generalizing c with
  | done a => exact ⟨[], by simp, rfl, hp⟩
  | call op next ih =>
    have hstep : c.step serve (i, ch)
        = ⟨(serve ch op c.state).2, update c.left i (next (serve ch op c.state).1)⟩ :=
      Pool.step_call hp
    have hleft : (c.step serve (i, ch)).left i = next (serve ch op c.state).1 := by
      rw [hstep]
      exact update_self ..
    obtain ⟨schedule, hch, hstate, hdone⟩ := ih _ _ hleft
    refine ⟨(i, ch) :: schedule, ?_, ?_, ?_⟩
    · intro e he
      rcases mem_cons.mp he with rfl | he
      · rfl
      · exact hch e he
    · show ((c.step serve (i, ch)).run serve schedule).state = _
      rw [hstate, hstep]
      rfl
    · show ((c.step serve (i, ch)).run serve schedule).left i = _
      rw [hdone, hstep]
      rfl

theorem Pool.step_keeps {ok : Op → Ch → Prop} {I : σ → Prop} {Q : ι → α → Prop}
    (hok : ∀ op, ok op e.2) (hstate : I c.state) (hleft : ∀ i, (c.left i).Keeps serve ok I (Q i)) :
    I (c.step serve e).state ∧ ∀ i, ((c.step serve e).left i).Keeps serve ok I (Q i) := by
  cases hcall : c.left e.1 with
  | done a =>
    rw [Pool.step_done hcall]
    exact ⟨hstate, hleft⟩
  | call op next =>
    rw [Pool.step_call hcall]
    have hprog := hleft e.1
    rw [hcall] at hprog
    have hstep := hprog e.2 c.state (hok op) hstate
    refine ⟨hstep.1, ?_⟩
    intro i
    by_cases hi : i = e.1
    · subst hi
      show (update c.left e.1 _ e.1).Keeps serve ok I (Q e.1)
      rw [update_self]
      exact hstep.2
    · show (update c.left e.1 _ i).Keeps serve ok I (Q i)
      rw [update_of_ne hi]
      exact hleft i

theorem Pool.run_keeps {ok : Op → Ch → Prop} {I : σ → Prop} {Q : ι → α → Prop}
    {schedule : List (ι × Ch)} (hok : ∀ e ∈ schedule, ∀ op, ok op e.2) (hstate : I c.state)
    (hleft : ∀ i, (c.left i).Keeps serve ok I (Q i)) :
    I (c.run serve schedule).state
      ∧ ∀ i, ((c.run serve schedule).left i).Keeps serve ok I (Q i) := by
  induction schedule generalizing c with
  | nil => exact ⟨hstate, hleft⟩
  | cons e schedule ih =>
    have hstep := Pool.step_keeps (hok e mem_cons_self) hstate hleft
    exact ih (fun e' he' => hok e' (mem_cons_of_mem _ he')) hstep.1 hstep.2

end

/-! ## §2. Programs that follow a protocol -/

/-- A protocol: which answers there can be, which calls a phase allows, and which phase an answer
    leads to. -/
structure Protocol (Op : Type) (Ans : Op → Type) (γ : Type) where
  possible : (op : Op) → Ans op → Prop
  allowed : γ → Op → Prop
  advance : γ → (op : Op) → Ans op → γ

section

variable {γ : Type} {P : Protocol Op Ans γ}

/-- The program, in phase `g`, makes only calls that are allowed, and ends with `Q`. -/
def Prog.Follows (P : Protocol Op Ans γ) (Q : γ → α → Prop) : Prog Op Ans α → γ → Prop
  | .done a, g => Q g a
  | .call op next, g =>
    P.allowed g op ∧ ∀ ans, P.possible op ans → (next ans).Follows P Q (P.advance g op ans)

variable {p : Prog Op Ans β} {g : γ}

theorem Prog.Follows.bind {f : β → Prog Op Ans α} {Q : γ → α → Prop}
    (h : p.Follows P (fun g b => (f b).Follows P Q g) g) : (p >>= f).Follows P Q g := by
  induction p generalizing g with
  | done b => exact h
  | call op next ih => exact ⟨h.1, fun ans hans => ih ans (h.2 ans hans)⟩

theorem Prog.Follows.mono {p : Prog Op Ans α} {Q R : γ → α → Prop} (h : p.Follows P Q g)
    (hQ : ∀ g a, Q g a → R g a) : p.Follows P R g := by
  induction p generalizing g with
  | done a => exact hQ g a h
  | call op next ih => exact ⟨h.1, fun ans hans => ih ans (h.2 ans hans)⟩

theorem Prog.Follows.seq {f : β → Prog Op Ans α} {R : γ → β → Prop} {Q : γ → α → Prop}
    (h : p.Follows P R g) (hf : ∀ g b, R g b → (f b).Follows P Q g) : (p >>= f).Follows P Q g :=
  (h.mono hf).bind

/-- The program makes only calls that meet `A`, whatever the answers. -/
def Prog.Only (A : Op → Prop) : Prog Op Ans α → Prop
  | .done _ => True
  | .call op next => A op ∧ ∀ ans, (next ans).Only A

theorem Prog.Only.follows {A : Op → Prop} {p : Prog Op Ans α} (h : p.Only A)
    (hallowed : ∀ op, A op → P.allowed g op) (hstay : ∀ op ans, A op → P.advance g op ans = g) :
    p.Follows P (fun _ _ => True) g := by
  induction p with
  | done a => trivial
  | call op next ih =>
    refine ⟨hallowed op h.1, fun ans _ => ?_⟩
    rw [hstay op ans h.1]
    exact ih ans (h.2 ans)

theorem Prog.Follows.always {serve : (op : Op) → σ → Ans op × σ} {I : γ → σ → Prop} {J : σ → Prop}
    (hstep : ∀ g op s, I g s → P.allowed g op →
      P.possible op (serve op s).1 ∧ I (P.advance g op (serve op s).1) (serve op s).2)
    (hJ : ∀ g s, I g s → J s) {p : Prog Op Ans α} {Q : γ → α → Prop} {s : σ} (h : p.Follows P Q g)
    (hs : I g s) : p.Always serve J s := by
  induction p generalizing g s with
  | done a => exact hJ g s hs
  | call op next ih =>
    obtain ⟨hpossible, hnext⟩ := hstep g op s hs h.1
    exact ⟨hJ g s hs, ih _ (h.2 _ hpossible) hnext⟩

theorem Prog.Follows.keeps {serve : Ch → (op : Op) → σ → Ans op × σ} {ok : Op → Ch → Prop}
    {I : σ → Prop} (hstep : ∀ g op ch s, P.allowed g op → ok op ch → I s →
      P.possible op (serve ch op s).1 ∧ I (serve ch op s).2)
    {p : Prog Op Ans α} {Q : γ → α → Prop} (h : p.Follows P Q g) : p.Keeps serve ok I fun a =>
      ∃ g, Q g a := by
  induction p generalizing g with
  | done a => exact ⟨g, h⟩
  | call op next ih =>
    intro ch s hch hs
    obtain ⟨hpossible, hs'⟩ := hstep g op ch s h.1 hch hs
    exact ⟨hs', ih _ (h.2 _ hpossible)⟩

variable {ε : Type}

theorem follows_run_bind {x : ExceptT ε (Prog Op Ans) β} {f : β → ExceptT ε (Prog Op Ans) α}
    {Q : γ → Except ε α → Prop} {R : γ → Except ε β → Prop} (hx : x.run.Follows P R g)
    (herror : ∀ g e, R g (.error e) → Q g (.error e))
    (hf : ∀ g b, R g (.ok b) → (f b).run.Follows P Q g) :
    (x >>= f).run.Follows P Q g := by
  rw [ExceptT.run_bind]
  refine (hx.mono ?_).bind
  intro g r hr
  cases r with
  | error e => exact herror g e hr
  | ok b => exact hf g b hr

theorem follows_lift_bind {f : β → ExceptT ε (Prog Op Ans) α} {Q : γ → Except ε α → Prop}
    {R : γ → β → Prop} (hp : p.Follows P R g) (hf : ∀ g b, R g b → (f b).run.Follows P Q g) :
    (ExceptT.lift p >>= f).run.Follows P Q g := by
  rw [run_lift_bind]
  exact (hp.mono hf).bind

variable [DecidableEq ι] {serve : Ch → (op : Op) → σ → Ans op × σ} {Φ : ι → Type}
  {protocol : (i : ι) → Protocol Op Ans (Φ i)} {Q : (i : ι) → Φ i → α → Prop}
    {ok : Event Op σ Ch ι → Prop}
  {G : List (Event Op σ Ch ι) → σ → ((i : ι) → Φ i) → Prop}

theorem Pool.follows_invariant
    (hstep : ∀ trace s phases i op ch, G trace s phases → (protocol i).allowed (phases i) op → ok
    ⟨i, op, ch, s⟩ →
      (protocol i).possible op (serve ch op s).1
        ∧ G (trace ++ [⟨i, op, ch, s⟩]) (serve ch op s).2
          (update phases i ((protocol i).advance (phases i) op (serve ch op s).1)))
    {schedule : List (ι × Ch)} {c : Pool Op Ans α σ ι} {phases : (i : ι) → Φ i}
      {past : List (Event Op σ Ch ι)}
    (hstart : G past c.state phases) (hleft : ∀ i, (c.left i).Follows (protocol i) (Q i) (phases i))
    (hok : ∀ event ∈ c.trace serve schedule, ok event) :
    ∃ phases', G (past ++ c.trace serve schedule) (c.run serve schedule).state phases'
      ∧ ∀ i, ((c.run serve schedule).left i).Follows (protocol i) (Q i) (phases' i) := by
  induction schedule generalizing c phases past with
  | nil => exact ⟨phases, by rw [Pool.trace, append_nil]; exact hstart, hleft⟩
  | cons e schedule ih =>
    cases hcall : c.left e.1 with
    | done a =>
      have htrace : c.trace serve (e :: schedule) = c.trace serve schedule := by
        rw [Pool.trace, hcall]
      have hrun : c.run serve (e :: schedule) = c.run serve schedule := by
        show (c.step serve e).run serve schedule = _
        rw [Pool.step_done hcall]
      rw [htrace] at hok ⊢
      rw [hrun]
      exact ih hstart hleft hok
    | call op next =>
      have htrace : c.trace serve (e :: schedule)
          = ⟨e.1, op, e.2, c.state⟩ :: (c.step serve e).trace serve schedule := by
        rw [Pool.trace, hcall]
      have hprog := hleft e.1
      rw [hcall] at hprog
      rw [htrace] at hok ⊢
      obtain ⟨hpossible, hG⟩ := hstep _ _ _ _ _ _ hstart hprog.1 (hok _ mem_cons_self)
      show ∃ phases', G _ ((c.step serve e).run serve schedule).state phases'
        ∧ ∀ i, (((c.step serve e).run serve schedule).left i).Follows (protocol i) (Q i) (phases' i)
      rw [← singleton_append, ← append_assoc]
      have hstate : G (past ++ [⟨e.1, op, e.2, c.state⟩]) (c.step serve e).state
          (update phases e.1
            ((protocol e.1).advance (phases e.1) op (serve e.2 op c.state).1)) := by
        rw [Pool.step_call hcall]
        exact hG
      refine ih hstate ?_ fun event hevent => hok event (mem_cons_of_mem _ hevent)
      intro i
      rw [Pool.step_call hcall]
      by_cases hi : i = e.1
      · subst hi
        show (update c.left e.1 _ e.1).Follows _ _ (update phases e.1 _ e.1)
        rw [update_self, update_self]
        exact hprog.2 _ hpossible
      · show (update c.left e.1 _ i).Follows _ _ (update phases e.1 _ i)
        rw [update_of_ne hi, update_of_ne hi]
        exact hleft i

end

end FractalBits.Lib
