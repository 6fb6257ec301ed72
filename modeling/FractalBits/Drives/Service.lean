/-
  Drives.Service — the drive record in RSS and the calls about it.

  Mirrors `Drive` of `data_types`, the drive operations of `AppState` in `lib.rs` and
  `rss_rpc_retry!`. One drive name is looked at, so RSS is a register with versions.
-/

import FractalBits.Lib.Bytes
import FractalBits.Lib.Pool
import FractalBits.Lib.Register

namespace FractalBits.Drives

open Lib Function

/-! ## §1. Records -/

inductive DriveStatus
  | ready
  | deleting
  deriving DecidableEq, Repr

structure Drive where
  id : Bytes
  status : DriveStatus
  bucketRoot : Bytes
  deletingSinceMs : Nat
  sweepHeartbeatMs : Nat
  sweepToken : Bytes
  deriving DecidableEq, Repr

def Drive.new (id bucketRoot : Bytes) : Drive := ⟨id, .ready, bucketRoot, 0, 0, []⟩

def sweepLeaseMs : Nat := 60000

def Drive.sweepAlive (drive : Drive) (nowMs : Nat) : Bool :=
  drive.status = .deleting && decide (nowMs - drive.sweepHeartbeatMs < sweepLeaseMs)

inductive RpcError
  | retry
  | notFound
  | transport (retryable : Bool)
  deriving DecidableEq, Repr

def RpcError.retryable : RpcError → Bool
  | .retry | .notFound => false
  | .transport retryable => retryable

/-! ## §2. RSS -/

/-- The requests that change the record. -/
inductive Request
  | put (who : Nat) (drive : Versioned Drive)
  | delete (who : Nat) (version : Int)
  deriving DecidableEq, Repr

/-- The record, the requests on their way, the tokens and who minted them, the slots, the crashed
    processes, the time, and the record as each program last saw it. -/
structure Rss where
  register : Register Drive
  flight : List Request
  minted : List (Bytes × Nat)
  running : Nat → Bool
  crashed : Nat → Bool
  clock : Nat
  seen : Nat → Option (Versioned Drive)

/-- A deletion with this version takes effect on the record; 0 deletes any. -/
def deletes (expected : Int) (a : Versioned Drive) : Bool := expected = 0 || a.version = expected

variable (s : Rss)

/-- A request is processed; the stored version says whether it has an effect. -/
def Rss.apply (version : Int) : Request → Rss
  | .put who drive =>
    if s.register.accepts drive.version
      then { s with register := s.register.write who drive version } else s
  | .delete who expected =>
    match s.register.stored with
    | none => s
    | some a => if deletes expected a then { s with register := s.register.remove who a } else s

def Rss.putReply (drive : Versioned Drive) (version : Int) : Except RpcError Int :=
  if s.register.accepts drive.version then .ok version else .error .retry

/-- Whether a deletion of nothing is a success is left open. -/
def Rss.deleteReply (expected : Int) (absentOk : Bool) : Except RpcError Unit :=
  match s.register.stored with
  | none => if absentOk then .ok () else .error .retry
  | some a => if deletes expected a then .ok () else .error .retry

def Rss.getReply : Except RpcError (Versioned Drive) :=
  match s.register.stored with
  | none => .error .notFound
  | some a => .ok a

/-! ## §3. Calls -/

/-- What a sweeper knows of its lease write. -/
inductive LeaseWrite
  | landed
  | lost
  | unknown
  deriving DecidableEq, Repr

/-- How a sweep ended; `failed` stands for its errors. -/
inductive Outcome
  | done
  | leaseLost
  | stale
  | failed
  deriving DecidableEq, Repr

/-- The calls of the program `who`, and what happens around it. A `get` after a lease write says
    which, a `release` how the sweep ended. -/
inductive Op
  | put (who : Nat) (drive : Versioned Drive)
  | get (who : Nat) (about : Option (Versioned Drive))
  | delete (who : Nat) (version : Int)
  | unixMs
  | newToken (who : Nat)
  | register (process : Nat)
  | release (process who : Nat) (outcome : Outcome)
  | report (who : Nat) (outcome : LeaseWrite) (written handle : Versioned Drive)
  | choose
  | deliver (n : Nat)
  | tick
  | crash (process : Nat)
  deriving DecidableEq, Repr

/-- What each call answers. -/
def Ans : Op → Type
  | .put _ _ => Except RpcError Int
  | .get _ _ => Except RpcError (Versioned Drive)
  | .delete _ _ => Except RpcError Unit
  | .unixMs => Nat
  | .newToken _ => Bytes
  | .register _ => Bool
  | .choose => Nat
  | .release _ _ _ | .report _ _ _ _ | .deliver _ | .tick | .crash _ => Unit

/-- A call to RSS is answered, processed but the reply is lost, still on its way when its sender
    gives up, lost, or refused with `err_other`. -/
inductive Delivery
  | answered
  | replyLost
  | delayed
  | dropped
  | refused
  deriving DecidableEq, Repr

/-- `version` is what RSS would give to a record, `token` and `value` what is minted, read from a
    clock or learned elsewhere. -/
structure Choice where
  delivery : Delivery
  retryable : Bool := true
  version : Int := 0
  token : Bytes := []
  value : Nat := 0
  deriving DecidableEq, Repr

/-- A request is sent, and its sender answered. -/
def Rss.send {α : Type} (ch : Choice) (request : Request) (reply : Except RpcError α) :
    Except RpcError α × Rss :=
  match ch.delivery with
  | .answered => (reply, s.apply ch.version request)
  | .replyLost => (.error (.transport ch.retryable), s.apply ch.version request)
  | .delayed => (.error (.transport ch.retryable), { s with flight := s.flight ++ [request] })
  | .dropped => (.error (.transport ch.retryable), s)
  | .refused => (.error (.transport true), s)

def Rss.read (ch : Choice) : Except RpcError (Versioned Drive) :=
  match ch.delivery with
  | .answered => s.getReply
  | .replyLost | .delayed | .dropped => .error (.transport ch.retryable)
  | .refused => .error (.transport true)

/-- A request that is on its way is processed. -/
def Rss.process (version : Int) (n : Nat) : Rss :=
  match s.flight[n]? with
  | none => s
  | some request => { s.apply version request with flight := s.flight.eraseIdx n }

/-- `who` sees the record. -/
def Rss.see (who : Nat) : Rss := { s with seen := update s.seen who s.register.stored }

/-- What a call answers, and what it leaves. -/
def serve (ch : Choice) : (op : Op) → Rss → Ans op × Rss
  | .put who drive, s =>
    let r := s.send ch (.put who drive) (s.putReply drive ch.version)
    (r.1, r.2.see who)
  | .get who _, s => (s.read ch, s.see who)
  | .delete who version, s =>
    let r := s.send ch (.delete who version) (s.deleteReply version (ch.value = 0))
    (r.1, r.2.see who)
  | .unixMs, s => (ch.value, s)
  | .newToken who, s => (ch.token, { s with minted := (ch.token, who) :: s.minted })
  | .register process, s =>
    (!s.running process, { s with running := update s.running process true })
  | .release process _ _, s => ((), { s with running := update s.running process false })
  | .report _ _ _ _, s => ((), s)
  | .choose, s => (ch.value, s)
  | .deliver n, s => ((), s.process ch.version n)
  | .tick, s => ((), { s with clock := s.clock + ch.value })
  | .crash process, s =>
    ((), { s with running := update s.running process false,
                  crashed := update s.crashed process true })

def Op.request? : Op → Option Request
  | .put who drive => some (.put who drive)
  | .delete who version => some (.delete who version)
  | _ => none

/-- The register after a call: as it was, or with one request processed, which the call sent or
    which was on its way. -/
inductive Served (ch : Choice) (op : Op) (s : Rss) : Register Drive → Prop
  | same : Served ch op s s.register
  | put (who : Nat) (drive : Versioned Drive)
      (hrequest : op.request? = some (.put who drive) ∨ Request.put who drive ∈ s.flight)
      (haccepts : s.register.accepts drive.version = true) :
        Served ch op s (s.register.write who drive ch.version)
  | delete (who : Nat) (expected : Int) (a : Versioned Drive)
      (hrequest : op.request? = some (.delete who expected)
        ∨ Request.delete who expected ∈ s.flight)
      (hstored : s.register.stored = some a) (hdeletes : deletes expected a = true) :
      Served ch op s (s.register.remove who a)

section

variable {ch : Choice} {op : Op} {s : Rss}

theorem apply_put (s : Rss) (version : Int) (who : Nat) (drive : Versioned Drive) :
    s.apply version (.put who drive)
      = if s.register.accepts drive.version
        then { s with register := s.register.write who drive version } else s := rfl

theorem apply_delete (s : Rss) (version : Int) (who : Nat) (expected : Int) :
    s.apply version (.delete who expected)
      = match s.register.stored with
        | none => s
        | some a =>
          if deletes expected a then { s with register := s.register.remove who a } else s := rfl

variable {request : Request}

theorem served_apply (hrequest : op.request? = some request ∨ request ∈ s.flight) :
    Served ch op s (s.apply ch.version request).register := by
  cases request with
  | put who drive =>
    rw [apply_put]
    split
    · next haccepts => exact .put who drive hrequest haccepts
    · exact .same
  | delete who expected =>
    rw [apply_delete]
    split
    · exact .same
    · next a hstored =>
        split
        · next hdeletes => exact .delete who expected a hrequest hstored hdeletes
        · exact .same

theorem served_send {α : Type} {reply : Except RpcError α} (hrequest : op.request? = some request) :
    Served ch op s (s.send ch request reply).2.register := by
  unfold Rss.send
  cases ch.delivery with
  | answered | replyLost => exact served_apply (.inl hrequest)
  | delayed | dropped | refused => exact .same

theorem served (ch : Choice) (op : Op) (s : Rss) : Served ch op s (serve ch op s).2.register := by
  cases op with
  | put who drive => exact served_send rfl
  | delete who version => exact served_send rfl
  | deliver n =>
    show Served _ _ _ (s.process ch.version n).register
    unfold Rss.process
    cases hflight : s.flight[n]? with
    | none => exact .same
    | some request => exact served_apply (.inr (List.mem_of_getElem? hflight))
  | _ => exact .same

theorem apply_eq (s : Rss) (version : Int) (request : Request) :
    s.apply version request = { s with register := (s.apply version request).register } := by
  cases request with
  | put who drive =>
    rw [apply_put]
    split <;> rfl
  | delete who expected =>
    rw [apply_delete]
    split
    · rfl
    · split <;> rfl

theorem flight_apply (s : Rss) (version : Int) (request : Request) :
    (s.apply version request).flight = s.flight := by
  rw [apply_eq]

theorem send_eq {α : Type} (request : Request) (reply : Except RpcError α) :
    (s.send ch request reply).2
      = { s with register := (s.send ch request reply).2.register,
                 flight := (s.send ch request reply).2.flight } := by
  unfold Rss.send
  cases ch.delivery with
  | answered | replyLost =>
    dsimp only
    rw [apply_eq]
  | delayed | dropped | refused => rfl

theorem process_eq (version : Int) (n : Nat) :
    s.process version n
      = { s with register := (s.process version n).register,
                 flight := (s.process version n).flight } := by
  unfold Rss.process
  cases s.flight[n]? with
  | none => rfl
  | some request =>
    dsimp only
    rw [apply_eq]

theorem mem_flight_send {α : Type} {r : Request} {reply : Except RpcError α}
    (h : r ∈ (s.send ch request reply).2.flight) : r ∈ s.flight ∨ r = request := by
  unfold Rss.send at h
  cases hd : ch.delivery with
  | answered | replyLost =>
    rw [hd] at h
    dsimp only at h
    rw [flight_apply] at h
    exact .inl h
  | delayed =>
    rw [hd] at h
    rcases List.mem_append.mp h with h | h
    · exact .inl h
    · exact .inr (List.mem_singleton.mp h)
  | dropped | refused =>
    rw [hd] at h
    exact .inl h

theorem mem_flight_serve {r : Request} (h : r ∈ (serve ch op s).2.flight) :
    r ∈ s.flight ∨ op.request? = some r := by
  cases op with
  | put who drive =>
    rcases mem_flight_send h with h | rfl
    · exact .inl h
    · exact .inr rfl
  | delete who version =>
    rcases mem_flight_send h with h | rfl
    · exact .inl h
    · exact .inr rfl
  | deliver n =>
    have h : r ∈ (s.process ch.version n).flight := h
    unfold Rss.process at h
    cases hflight : s.flight[n]? with
    | none =>
      rw [hflight] at h
      exact .inl h
    | some request =>
      rw [hflight] at h
      exact .inl (List.mem_of_mem_eraseIdx h)
  | _ => exact .inl h

theorem minted_serve : (serve ch op s).2.minted =
    match op with
    | .newToken who => (ch.token, who) :: s.minted
    | _ => s.minted := by
  cases op with
  | put who drive =>
    show (s.send ch (.put who drive) (s.putReply drive ch.version)).2.minted = s.minted
    rw [send_eq]
  | delete who version =>
    show (s.send ch (.delete who version) (s.deleteReply version (ch.value = 0))).2.minted
      = s.minted
    rw [send_eq]
  | deliver n =>
    show (s.process ch.version n).minted = s.minted
    rw [process_eq]
  | _ => rfl

theorem seen_serve {i : Nat} (h : ∀ who, (∃ drive, op = .put who drive)
    ∨ (∃ about, op = .get who about)
      ∨ (∃ version, op = .delete who version) → who ≠ i) : (serve ch op s).2.seen i = s.seen i := by
  cases op with
  | put who drive =>
    show update (s.send ch (.put who drive) (s.putReply drive ch.version)).2.seen who _ i = s.seen i
    rw [update_of_ne (h who (.inl ⟨drive, rfl⟩)).symm, send_eq]
  | get who about => exact update_of_ne (h who (.inr (.inl ⟨about, rfl⟩))).symm _ _
  | delete who version =>
    show update (s.send ch (.delete who version) (s.deleteReply version (ch.value = 0))).2.seen who
      _ i = s.seen i
    rw [update_of_ne (h who (.inr (.inr ⟨version, rfl⟩))).symm, send_eq]
  | deliver n =>
    show (s.process ch.version n).seen i = s.seen i
    rw [process_eq]
  | _ => rfl

theorem sound_serve (h : s.register.Sound) (hfresh : s.register.Fresh ch.version) :
    (serve ch op s).2.register.Sound := by
  have hserved := served ch op s
  generalize (serve ch op s).2.register = after at hserved ⊢
  cases hserved with
  | same => exact h
  | put who drive hrequest haccepts => exact h.write haccepts hfresh
  | delete who expected a hrequest hstored hdeletes => exact h.remove hstored

end

/-! ## §4. Drive operations -/

abbrev Call (α : Type) := Prog Op Ans α

def unixMs : Call Nat := perform Op.unixMs

def newToken (who : Nat) : Call Bytes := perform (Op.newToken who)

def choose : Call Nat := perform Op.choose

def register (process : Nat) : Call Bool := perform (Op.register process)

def release (process who : Nat) (outcome : Outcome) : Call Unit :=
    perform (Op.release process who outcome)

def rssRpcRetry {α : Type} (attempt : Call (Except RpcError α)) : Nat → Call (Except RpcError α)
  | 0 => attempt
  | retries + 1 => do
    match ← attempt with
    | .ok val => return .ok val
    | .error e => if e.retryable then rssRpcRetry attempt retries else return .error e

def getDrive (who : Nat) (about : Option (Versioned Drive)) :
    Call (Except RpcError (Option (Versioned Drive))) := do
  match ← rssRpcRetry (perform (Op.get who about)) 3 with
  | .ok drive => return .ok (some drive)
  | .error .notFound => return .ok none
  | .error e => return .error e

def putDrive (who : Nat) (drive : Versioned Drive) : Call (Except RpcError (Versioned Drive)) := do
  match ← rssRpcRetry (perform (Op.put who drive)) 3 with
  | .ok version => return .ok { drive with version := version }
  | .error e => return .error e

def deleteDriveRecordIfVersion (who : Nat) (drive : Versioned Drive) :
    Call (Except RpcError Unit) :=
  rssRpcRetry (perform (Op.delete who drive.version)) 3

/-! ## §5. Retries in a protocol -/

section

variable {γ α : Type} {P : Protocol Op Ans γ} {R : γ → Prop} {Q : γ → Except RpcError α → Prop}

theorem follows_rssRpcRetry {attempt : Call (Except RpcError α)}
    (h : ∀ g, R g → attempt.Follows P (fun g' r => Q g' r ∧ ∀ e, r = .error e → e.retryable = true →
    R g') g) (retries : Nat) {g : γ} (hg : R g) : (rssRpcRetry attempt retries).Follows P Q g := by
  induction retries generalizing g with
  | zero => exact (h g hg).mono fun g' r hr => hr.1
  | succ retries ih =>
    unfold rssRpcRetry
    refine (h g hg).seq ?_
    rintro g' r ⟨hQ, hretry⟩
    cases r with
    | ok val => exact hQ
    | error e =>
      show (if e.retryable = true then _ else _ : Call _).Follows P Q g'
      split
      · next he => exact ih (hretry e rfl he)
      · exact hQ

def found : Except RpcError (Versioned Drive) → Except RpcError (Option (Versioned Drive))
  | .ok drive => .ok (some drive)
  | .error .notFound => .ok none
  | .error e => .error e

theorem follows_getDrive {i : Nat} {about : Option (Versioned Drive)}
    {S : γ → Except RpcError (Option (Versioned Drive)) → Prop}
    (h : ∀ g, R g → P.allowed g (.get i about) ∧ ∀ ans : Except RpcError (Versioned Drive),
      S (P.advance g (.get i about) ans) (found ans)
        ∧ ∀ e, ans = .error e → e.retryable = true → R (P.advance g (.get i about) ans))
    {g : γ} (hg : R g) : (getDrive i about).Follows P S g := by
  have hread : (rssRpcRetry (perform (Op.get i about)) 3).Follows P (fun g' r => S g' (found r))
    g := by
    refine follows_rssRpcRetry (R := R) (fun g hg => ?_) 3 hg
    exact ⟨(h g hg).1, fun ans _ => (h g hg).2 ans⟩
  unfold getDrive
  refine hread.seq fun g' r hr => ?_
  cases r with
  | ok drive => exact hr
  | error e =>
    cases e with
    | notFound | retry | transport => exact hr

end

end FractalBits.Drives
