/-
  Lib.Register — a register with versions and conditional writes.

  A write takes effect only if it names the stored version; 0 stands for an empty register.
-/

import Mathlib.Data.List.Pairwise

namespace FractalBits.Lib

open List

variable {V : Type}

/-! ## §1. Changes -/

@[ext] structure Versioned (V : Type) where
  version : Int
  data : V
  deriving DecidableEq, Repr

/-- Who made the change, what it replaced and, for a write, what was written over which version and
    the version this got. -/
inductive Change (V : Type)
  | put (who : Nat) (written : Versioned V) (replaced : Option (Versioned V)) (version : Int)
  | delete (who : Nat) (replaced : Versioned V)
  deriving DecidableEq, Repr

def Change.replaced : Change V → Option (Versioned V)
  | .put _ _ replaced _ => replaced
  | .delete _ replaced => some replaced

def Change.Apart (c c' : Change V) : Prop := ¬ ∃ a, c.replaced = some a ∧ c'.replaced = some a

instance : Std.Symm (Change.Apart (V := V)) where
  symm _ _ h := fun ⟨a, hc', hc⟩ => h ⟨a, hc, hc'⟩

/-- The record, all records there were so far, and the changes. -/
structure Register (V : Type) where
  stored : Option (Versioned V)
  past : List (Versioned V)
  log : List (Change V)

variable (r : Register V)

def Register.accepts (expected : Int) : Bool :=
  match r.stored with
  | none => expected = 0
  | some a => expected ≠ 0 && a.version = expected

def Register.write (who : Nat) (written : Versioned V) (version : Int) : Register V where
  stored := some ⟨version, written.data⟩
  past := ⟨version, written.data⟩ :: r.past
  log := r.log ++ [.put who written r.stored version]

def Register.remove (who : Nat) (a : Versioned V) : Register V where
  stored := none
  past := r.past
  log := r.log ++ [.delete who a]

def Register.Fresh (version : Int) : Prop := version ≠ 0 ∧ ∀ a ∈ r.past, a.version ≠ version

def Register.Retired (version : Int) : Prop :=
  (∃ a ∈ r.past, a.version = version) ∧ ∀ a, r.stored = some a → a.version ≠ version

/-! ## §2. Versions name records -/

structure Register.Sound (r : Register V) : Prop where
  current : ∀ a, r.stored = some a → a ∈ r.past
  nonzero : ∀ a ∈ r.past, a.version ≠ 0
  unique : ∀ a ∈ r.past, ∀ b ∈ r.past, a.version = b.version → a = b
  replaced : ∀ c ∈ r.log, ∀ a, c.replaced = some a → a ∈ r.past ∧ r.stored ≠ some a
  expected : ∀ who w replaced version, Change.put who w replaced version ∈ r.log →
    w.version = (replaced.map Versioned.version).getD 0
  stamped : ∀ who w replaced version, Change.put who w replaced version ∈ r.log →
    ⟨version, w.data⟩ ∈ r.past
  once : r.log.Pairwise Change.Apart

section

variable {r : Register V} {who : Nat} {w a : Versioned V} {version v : Int}

theorem Register.accepts_iff : r.accepts v = true ↔ (r.stored = none ∧ v = 0)
    ∨ ∃ a, r.stored = some a ∧ v ≠ 0 ∧ a.version = v := by
  unfold Register.accepts
  cases hstored : r.stored with
  | none => simp
  | some a => simp

theorem Register.expected_of_accepts (haccepts : r.accepts v = true) :
    v = (r.stored.map Versioned.version).getD 0 := by
  rcases Register.accepts_iff.mp haccepts with ⟨hnone, rfl⟩ | ⟨a, hsome, -, rfl⟩
  · rw [hnone]
    rfl
  · rw [hsome]
    rfl

variable (h : r.Sound)

include h

theorem Register.Sound.not_replaced {c : Change V} (hc : c ∈ r.log) :
    ¬ ∃ a, c.replaced = some a ∧ r.stored = some a := by
  rintro ⟨a, hover, hstored⟩
  exact (h.replaced c hc a hover).2 hstored

theorem Register.Sound.append_log {c : Change V}
    (hc : ∀ a, c.replaced = some a → r.stored = some a) :
    (r.log ++ [c]).Pairwise Change.Apart := by
  rw [pairwise_append]
  refine ⟨h.once, pairwise_singleton .., ?_⟩
  intro c' hc' d hd
  rw [mem_singleton.mp hd]
  rintro ⟨a, hover, hlast⟩
  exact h.not_replaced hc' ⟨a, hover, hc a hlast⟩

theorem Register.Sound.write (haccepts : r.accepts w.version = true) (hfresh : r.Fresh version) :
    (r.write who w version).Sound where
  current b hb := by
    cases hb
    exact mem_cons_self
  nonzero b hb := by
    rcases mem_cons.mp hb with rfl | hb
    · exact hfresh.1
    · exact h.nonzero b hb
  unique b hb c hc heq := by
    rcases mem_cons.mp hb with rfl | hb
    · rcases mem_cons.mp hc with rfl | hc
      · rfl
      · exact absurd heq.symm (hfresh.2 c hc)
    · rcases mem_cons.mp hc with rfl | hc
      · exact absurd heq (hfresh.2 b hb)
      · exact h.unique b hb c hc heq
  replaced c hc b hb := by
    have hpast : b ∈ r.past := by
      rcases mem_append.mp hc with hc | hc
      · exact (h.replaced c hc b hb).1
      · rw [mem_singleton.mp hc] at hb
        exact h.current b hb
    refine ⟨mem_cons_of_mem _ hpast, fun hstored => ?_⟩
    have hnew : (⟨version, w.data⟩ : Versioned V) = b := Option.some.inj hstored
    exact hfresh.2 b hpast (by rw [← hnew])
  expected who' w' replaced version' hput := by
    rcases mem_append.mp hput with hput | hput
    · exact h.expected who' w' replaced version' hput
    · cases mem_singleton.mp hput
      exact Register.expected_of_accepts haccepts
  stamped who' w' replaced version' hput := by
    rcases mem_append.mp hput with hput | hput
    · exact mem_cons_of_mem _ (h.stamped who' w' replaced version' hput)
    · cases mem_singleton.mp hput
      exact mem_cons_self
  once := h.append_log fun _ hb => hb

theorem Register.Sound.remove (hstored : r.stored = some a) : (r.remove who a).Sound where
  current b hb := by cases hb
  nonzero := h.nonzero
  unique := h.unique
  replaced c hc b hb := by
    refine ⟨?_, nofun⟩
    rcases mem_append.mp hc with hc | hc
    · exact (h.replaced c hc b hb).1
    · rw [mem_singleton.mp hc] at hb
      cases hb
      exact h.current a hstored
  expected who' w' replaced version' hput := by
    rcases mem_append.mp hput with hput | hput
    · exact h.expected who' w' replaced version' hput
    · cases mem_singleton.mp hput
  stamped who' w' replaced version' hput := by
    rcases mem_append.mp hput with hput | hput
    · exact h.stamped who' w' replaced version' hput
    · cases mem_singleton.mp hput
  once := h.append_log fun b hb => by
    cases hb
    exact hstored

variable {replaced : Option (Versioned V)} (hput : Change.put who w replaced version ∈ r.log)

include hput

theorem Register.Sound.replaced_of_put
    (hw : w.version ≠ 0) : ∃ b, replaced = some b ∧ b.version = w.version := by
  have hexpected := h.expected who w replaced version hput
  cases replaced with
  | none => exact absurd hexpected hw
  | some b => exact ⟨b, rfl, hexpected.symm⟩

theorem Register.Sound.put_eq {who' : Nat} {w' : Versioned V} {replaced' : Option (Versioned V)}
    {version' : Int} (hput' : Change.put who' w' replaced' version' ∈ r.log)
    (heq : w.version = w'.version) (hw : w.version ≠ 0) :
    Change.put who w replaced version = Change.put who' w' replaced' version' := by
  obtain ⟨b, rfl, hb⟩ := h.replaced_of_put hput hw
  obtain ⟨b', rfl, hb'⟩ := h.replaced_of_put hput' (heq ▸ hw)
  have hsame : b = b' :=
    h.unique b (h.replaced _ hput b rfl).1 b' (h.replaced _ hput' b' rfl).1 (by rw [hb, hb', heq])
  by_contra hne
  exact h.once.forall hput hput' hne ⟨b, rfl, by rw [hsame]; rfl⟩

theorem Register.Sound.retired_of_put
    (hw : w.version ≠ 0) : r.Retired w.version := by
  obtain ⟨b, rfl, hb⟩ := h.replaced_of_put hput hw
  obtain ⟨hpast, hnot⟩ := h.replaced _ hput b rfl
  refine ⟨⟨b, hpast, hb⟩, fun a ha hversion => hnot ?_⟩
  rw [ha, h.unique a (h.current a ha) b hpast (by rw [hversion, hb])]

omit hput in
theorem Register.Retired.not_accepts (hretired : r.Retired v) : r.accepts v = false := by
  cases haccepts : r.accepts v with
  | false => rfl
  | true =>
    rcases Register.accepts_iff.mp haccepts with ⟨-, rfl⟩ | ⟨a, ha, -, hversion⟩
    · obtain ⟨⟨a, ha, hzero⟩, -⟩ := hretired
      exact absurd hzero (h.nonzero a ha)
    · exact absurd hversion (hretired.2 a ha)

omit hput in
omit h in
theorem Register.Retired.write (h : r.Retired v) (hfresh : r.Fresh version) :
    (r.write who w version).Retired v := by
  obtain ⟨⟨a, ha, hversion⟩, hnot⟩ := h
  refine ⟨⟨a, mem_cons_of_mem _ ha, hversion⟩, fun b hb heq => ?_⟩
  cases hb
  have heq : version = v := heq
  exact hfresh.2 a ha (by rw [hversion, heq])

omit hput in
omit h in
theorem Register.Retired.remove (h : r.Retired v) : (r.remove who a).Retired v :=
  ⟨h.1, fun _ hb => by cases hb⟩

end

end FractalBits.Lib
