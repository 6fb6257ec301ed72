/-
  Drives.Sweeper — the lease of a sweep, and the sweep around it.

  Mirrors `drive_sweep.rs`: `start`, `reconcile_lease`, `after_uncertain_write`, `write_lease`,
  `settle_lease`, `renew`, `delete_batch`, `sweep` and `run`, and the part of `delete_drive` that
  leads to them.
-/

import FractalBits.Drives.Records

namespace FractalBits.Drives

open Lib

/-! ## §1. Lease writes -/

def reconcileLease (written : Versioned Drive) (stored : Option (Versioned Drive)) : Option
    (Versioned Drive) :=
  stored.filter fun stored =>
    stored.data.id = written.data.id
      && stored.data.sweepToken = written.data.sweepToken
      && stored.data.sweepHeartbeatMs = written.data.sweepHeartbeatMs

def afterUncertainWrite (written : Versioned Drive) :
    Except RpcError (Option (Versioned Drive)) → LeaseWrite × Versioned Drive
  | .ok stored =>
    match reconcileLease written stored with
    | some landed => (.landed, landed)
    | none => (.lost, written)
  | .error _ => (.unknown, written)

section

variable (who : Nat)

def reported (written : Versioned Drive) (r : LeaseWrite × Versioned Drive) :
    Call (LeaseWrite × Versioned Drive) := do
  let _ ← perform (Op.report who r.1 written r.2)
  return r

def writeLease (drive : Versioned Drive) : Call (LeaseWrite × Versioned Drive) := do
  match ← putDrive who drive with
  | .ok stored => reported who drive (.landed, stored)
  | .error _ => do
    let read ← getDrive who (some drive)
    reported who drive (afterUncertainWrite drive read)

/-- `settle_lease`: read back until RSS answers. -/
def settleLease (drive : Versioned Drive) : Nat → Call (Option (Bool × Versioned Drive))
  | 0 => return none
  | rounds + 1 => do
    let read ← getDrive who (some drive)
    match ← reported who drive (afterUncertainWrite drive read) with
    | (.landed, landed) => return some (true, landed)
    | (.lost, written) => return some (false, written)
    | (.unknown, written) => settleLease written rounds

def renewed (drive : Versioned Drive) (now : Nat) : Versioned Drive :=
  { drive with data := { drive.data with sweepHeartbeatMs := max now
                                           (drive.data.sweepHeartbeatMs + 1) } }

def renew (rounds : Nat) (drive : Versioned Drive) : Call (Option (Bool × Versioned Drive)) := do
  let now ← unixMs
  match ← writeLease who (renewed drive now) with
  | (.landed, landed) => return some (true, landed)
  | (.lost, written) => return some (false, written)
  | (.unknown, written) => settleLease who written rounds

/-! ## §2. The sweep -/

/-- `delete_batch`: whether all deletions succeeded, and whether the lease is still held. Before the
    batch ends, the timer can fire any number of times. -/
def deleteBatch : Nat → Versioned Drive → Call (Option ((Bool × Bool) × Versioned Drive))
  | 0, _ => return none
  | rounds + 1, drive => do
    match ← choose with
    | 0 => return some ((true, true), drive)
    | 1 => return some ((false, true), drive)
    | _ =>
      match ← renew who rounds drive with
      | none => return none
      | some (true, drive) => deleteBatch rounds drive
      | some (false, drive) => do
        let results ← choose
        return some ((results = 0, false), drive)

def sweepBatches (rounds : Nat) : Nat → Versioned Drive → Call (Option (Outcome ⊕ Versioned Drive))
  | 0, drive => return some (.inr drive)
  | batches + 1, drive => do
    match ← renew who rounds drive with
    | none => return none
    | some (false, _) => return some (.inl .leaseLost)
    | some (true, drive) =>
      match ← deleteBatch who rounds drive with
      | none => return none
      | some ((false, _), _) => return some (.inl .failed)
      | some ((true, false), _) => return some (.inl .leaseLost)
      | some ((true, true), drive) => sweepBatches rounds batches drive

/-- The pages: the key is no longer authorized, the listing fails, or it has no keys or some batches
    of them. -/
def sweepPages (rounds : Nat) : Nat → Versioned Drive → Call (Option (Outcome ⊕ Versioned Drive))
  | 0, _ => return none
  | pages + 1, drive => do
    match ← choose with
    | 0 => return some (.inl .failed)
    | _ =>
      match ← choose with
      | 0 => return some (.inl .failed)
      | 1 => return some (.inr drive)
      | batches + 2 =>
        match ← sweepBatches who rounds (batches + 1) drive with
        | none => return none
        | some (.inl outcome) => return some (.inl outcome)
        | some (.inr drive) => sweepPages rounds pages drive

def dropAnd (outcome : Outcome) (drive : Versioned Drive) : Call (Option Outcome) := do
  match ← dropStaleRecord who 3 drive with
  | .ok () => return some outcome
  | .error _ => return some .failed

/-- `sweep`. The bucket cannot be read, is gone or another one, or is the record's; then NSS has to
    be reached. -/
def sweep (rounds : Nat) (drive : Versioned Drive) : Call (Option Outcome) := do
  match ← choose with
  | 0 => return some .failed
  | 1 => dropAnd who .stale drive
  | _ =>
    match ← choose with
    | 0 => return some .failed
    | _ =>
      match ← sweepPages who rounds rounds drive with
      | none => return none
      | some (.inl outcome) => return some outcome
      | some (.inr drive) =>
        match ← choose with
        | 0 => return some .failed
        | _ =>
          match ← renew who rounds drive with
          | none => return none
          | some (false, _) => return some .leaseLost
          | some (true, drive) =>
            -- the bucket is deleted, was replaced, or there is another error
            match ← choose with
            | 0 => return some .failed
            | 1 => dropAnd who .stale drive
            | _ => dropAnd who .done drive

/-! ## §3. Workers -/

variable (process : Nat)

def sweepAndRelease (rounds : Nat) (drive : Versioned Drive) : Call Unit := do
  match ← sweep who rounds drive with
  | none => return ()
  | some outcome => release process who outcome

def run (rounds : Nat) (drive : Versioned Drive) (settle : Bool) : Call Unit :=
  if settle then do
    match ← settleLease who drive rounds with
    | none => return ()
    | some (false, _) => release process who .leaseLost
    | some (true, drive) => sweepAndRelease who process rounds drive
  else sweepAndRelease who process rounds drive

def leased (drive : Versioned Drive) (now : Nat) (token : Bytes) : Versioned Drive :=
  { drive with
    data := { drive.data with
      status := .deleting
      deletingSinceMs := if drive.data.deletingSinceMs = 0 then now else drive.data.deletingSinceMs
      sweepHeartbeatMs := now
      sweepToken := token } }

def start (rounds : Nat) (drive : Versioned Drive) : Call Unit := do
  let registered ← register process
  if registered then do
    let now ← unixMs
    let token ← newToken who
    match ← writeLease who (leased drive now token) with
    | (.landed, drive) => run who process rounds drive false
    | (.lost, _) => release process who .leaseLost
    | (.unknown, drive) => run who process rounds drive true
  else return ()

/-- `delete_drive` with `force`: a lease that is alive is left alone. -/
def forceDelete (rounds : Nat) : Call Unit := do
  match ← getDrive who none with
  | .error _ => return ()
  | .ok none => return ()
  | .ok (some drive) =>
    match ← choose with
    | 0 => return ()
    | 1 => do
      let _ ← dropStaleRecord who 3 drive
      return ()
    | _ => do
      let now ← unixMs
      if drive.data.sweepAlive now then return () else start who process rounds drive

def dropIfStale : Call Unit := do
  match ← getDrive who none with
  | .error _ => return ()
  | .ok none => return ()
  | .ok (some drive) => do
    let _ ← dropStaleRecord who 3 drive
    return ()

end

/-- Requests to gateways, and what happens around them. A request of `force` has its worker's bound
    on rounds. -/
inductive Agent
  | force (process rounds : Nat)
  | create (id bucketRoot : Bytes)
  | drop
  | network (n : Nat)
  | time
  | crash (process : Nat)
  deriving DecidableEq, Repr

def Agent.program (who : Nat) : Agent → Call Unit
  | .force process rounds => forceDelete who process rounds
  | .create id bucketRoot => createRecord who (Drive.new id bucketRoot) 3
  | .drop => dropIfStale who
  | .network n => perform (Op.deliver n)
  | .time => perform Op.tick
  | .crash process => perform (Op.crash process)

end FractalBits.Drives
