/-
  VolumeGroup.CircuitBreaker — the breaker of a storage node.

  Mirrors `CircuitBreaker` of `data_vg_proxy.rs`. A call is a program over three atomics and the
  clock, and any number of calls run side by side.
-/

import FractalBits.Lib.Pool
import Mathlib.Algebra.GroupWithZero.Nat

namespace FractalBits.VolumeGroup

open Lib Function

namespace Breaker

/-! ## §1. The atomics -/

inductive CircuitState
  | closed
  | opened
  | halfOpen
  deriving DecidableEq, Repr

/-- `CircuitBreakerConfig`; the duration is in nanoseconds. -/
structure Config where
  failureThreshold : UInt32 := 3
  openDuration : Nat := 30000000000

structure Atomics where
  state : CircuitState := .closed
  failureCount : UInt32 := 0
  openedAt : UInt64 := 0

inductive Op
  | loadState
  | storeState (state : CircuitState)
  | compareExchange (current new : CircuitState)
  | fetchAddFailureCount
  | storeFailureCount (count : UInt32)
  | loadOpenedAt
  | storeOpenedAt (time : UInt64)
  | currentTimestampNanos

@[reducible] def Ans : Op → Type
  | .loadState => CircuitState
  | .compareExchange _ _ => Bool
  | .fetchAddFailureCount => UInt32
  | .loadOpenedAt | .currentTimestampNanos => UInt64
  | .storeState _ | .storeFailureCount _ | .storeOpenedAt _ => Unit

def serve (clock : UInt64) : (op : Op) → Atomics → Ans op × Atomics
  | .loadState, s => (s.state, s)
  | .storeState state, s => ((), { s with state := state })
  | .compareExchange current new, s =>
    if s.state = current then (true, { s with state := new }) else (false, s)
  | .fetchAddFailureCount, s => (s.failureCount, { s with failureCount := s.failureCount + 1 })
  | .storeFailureCount count, s => ((), { s with failureCount := count })
  | .loadOpenedAt, s => (s.openedAt, s)
  | .storeOpenedAt time, s => ((), { s with openedAt := time })
  | .currentTimestampNanos, s => (clock, s)

/-! ## §2. The calls -/

def saturatingSub (a b : UInt64) : UInt64 := if b ≤ a then a - b else 0

section

variable (config : Config)

/-- The branch of `is_available` for the open state, once `opened_at` is loaded. -/
def probe (openedAt : UInt64) : Prog Op Ans Bool := do
  let now ← perform Op.currentTimestampNanos
  if saturatingSub now openedAt ≥ UInt64.ofNat config.openDuration then
    if ← perform (Op.compareExchange .opened .halfOpen) then pure true
    else pure ((← perform Op.loadState) != .opened)
  else pure false

def isAvailable : Prog Op Ans Bool := do
  match ← perform Op.loadState with
  | .closed => pure true
  | .opened => probe config (← perform Op.loadOpenedAt)
  | .halfOpen => pure true

def recordSuccess : Prog Op Ans Unit := do
  match ← perform Op.loadState with
  | .halfOpen =>
    perform (Op.storeState .closed)
    perform (Op.storeFailureCount 0)
  | .closed => perform (Op.storeFailureCount 0)
  | .opened => pure ()

def recordFailure : Prog Op Ans Unit := do
  match ← perform Op.loadState with
  | .closed =>
    let count := (← perform Op.fetchAddFailureCount) + 1
    if count ≥ config.failureThreshold then
      perform (Op.storeState .opened)
      perform (Op.storeOpenedAt (← perform Op.currentTimestampNanos))
    else pure ()
  | .halfOpen =>
    perform (Op.storeState .opened)
    perform (Op.storeOpenedAt (← perform Op.currentTimestampNanos))
  | .opened => perform (Op.storeOpenedAt (← perform Op.currentTimestampNanos))

inductive Call
  | isAvailable
  | recordSuccess
  | recordFailure

def Call.prog : Call → Prog Op Ans (Option Bool)
  | .isAvailable => do return some (← Breaker.isAvailable config)
  | .recordSuccess => do
    Breaker.recordSuccess
    return none
  | .recordFailure => do
    Breaker.recordFailure config
    return none

/-- `CircuitBreaker::new`, and calls that have not started. -/
def start {ι : Type} (calls : ι → Call) : Pool Op Ans (Option Bool) Atomics ι :=
    ⟨{}, fun i => (calls i).prog config⟩

end

/-! ## §3. While the breaker is open -/

def OpenSince (c : UInt64) (s : Atomics) : Prop := s.state = .opened ∧ c ≤ s.openedAt

section

variable (config : Config) (c : UInt64)

def Within (clock : UInt64) : Prop := c ≤ clock ∧ clock.toNat < c.toNat + config.openDuration

/-- While times are within the duration, the rest of a call leaves the breaker open and does not say
    that it is available. -/
def Refuses (p : Prog Op Ans (Option Bool)) : Prop :=
  p.Keeps serve (fun _ => Within config c) (OpenSince c) (· ≠ some true)

end

/-- A step that neither undoes an opening nor makes use of an earlier one. -/
def Harmless (call : Call) : Op → Prop
  | .compareExchange _ _ | .storeOpenedAt _ => False
  | .storeState state => state = .opened
  | .currentTimestampNanos => call ≠ .isAvailable
  | .loadState | .fetchAddFailureCount | .storeFailureCount _ | .loadOpenedAt => True

section

variable {config : Config} {c : UInt64}

def stamping : Prog Op Ans (Option Bool) := do
  perform (Op.storeOpenedAt (← perform Op.currentTimestampNanos))
  return none

/-- A remainder of a call: what is harmless refuses, and a failure reads the clock to store it. -/
def Sound (config : Config) (c : UInt64) (call : Call) (p : Prog Op Ans (Option Bool)) : Prop :=
  (∀ op, p.next? = some op → Harmless call op → Refuses config c p)
    ∧ (p.next? = some .currentTimestampNanos → call ≠ .isAvailable → p = stamping)

variable {ι : Type} [DecidableEq ι]

end

end Breaker

end FractalBits.VolumeGroup
