/-
  Lib.Channel — a bounded channel with one receiver.
-/

import Mathlib.Data.List.Basic

namespace FractalBits.Lib

variable {α : Type}

structure Channel (α : Type) where
  queue : List α
  permits : Nat
  closed : Bool

inductive TryRecv (α : Type)
  | ok (a : α) (rest : Channel α)
  | empty
  | disconnected

def Channel.tryRecv (ch : Channel α) : TryRecv α :=
  match ch.queue with
  | a :: rest => .ok a { ch with queue := rest }
  | [] => if ch.closed = true ∧ ch.permits = 0 then .disconnected else .empty

structure Channel.Drained (ch : Channel α) : Prop where
  closed : ch.closed = true
  permits : ch.permits = 0
  queue : ch.queue = []

theorem Channel.tryRecv_ok {ch rest : Channel α} {a : α} (h : ch.tryRecv = .ok a rest) :
    ch.queue = a :: rest.queue ∧ rest.permits = ch.permits ∧ rest.closed = ch.closed := by
  unfold tryRecv at h
  cases hqueue : ch.queue with
  | nil =>
    rw [hqueue] at h
    dsimp only at h
    split at h <;> cases h
  | cons b tail =>
    rw [hqueue] at h
    cases h
    exact ⟨rfl, rfl, rfl⟩

theorem Channel.tryRecv_disconnected_iff {ch : Channel α} :
    ch.tryRecv = .disconnected ↔ ch.Drained := by
  unfold tryRecv
  cases hqueue : ch.queue with
  | nil =>
    dsimp only
    split
    · next h => exact ⟨fun _ => ⟨h.1, h.2, hqueue⟩, fun _ => rfl⟩
    · next h => exact ⟨nofun, fun hdrained => (h ⟨hdrained.closed, hdrained.permits⟩).elim⟩
  | cons a rest => exact ⟨nofun, fun hdrained => by rw [hdrained.queue] at hqueue; cases hqueue⟩

end FractalBits.Lib
