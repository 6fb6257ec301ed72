/-
  Objects.DeletionTask — the task that deletes blobs.

  Mirrors `blob_deletion_task` of `blob_client.rs`.
-/

import FractalBits.Lib.Channel
import FractalBits.Lib.Transition
import FractalBits.Objects.Deletions

namespace FractalBits.Objects

open Lib Streaming Gateway List
open OvrMap (Uuid)

/-! ## §1. The task -/

def blobDeleteRequestConcurrency : Nat := 4

def deleteRetryDelay : Nat := 1000

abbrev Sent := Nat × BlobDeletionRequest

structure Job where
  id : Nat
  deletion : Deletion

def Job.sent (job : Job) : Sent := (job.id, job.deletion.request)

structure ActiveAttempt where
  id : Nat
  request : BlobDeletionRequest
  attempt : Call (Bool × Deletion)

def ActiveAttempt.sent (active : ActiveAttempt) : Sent := (active.id, active.request)

/-- What the attempt returns is its request, marked if it needs no marker. -/
def ActiveAttempt.Sound (active : ActiveAttempt) : Prop :=
  active.attempt.Returns fun r => r.2.request = active.request ∧ r.2.Marked

inductive TaskPhase
  | filling
  | selecting
  | returned
  deriving DecidableEq, Repr

/-- The variables of the task, its channel, the shutdown signal and the clock, with the sends
    accepted and the requests completed. -/
structure DeletionTask where
  input : Channel Job
  shutdown : Bool
  inputClosed : Bool
  shutdownRequested : Bool
  active : List ActiveAttempt
  retries : List (Nat × Job)
  preferRetry : Bool
  phase : TaskPhase
  now : Nat
  accepted : List Sent
  completed : List Sent

namespace DeletionTask

def start (now : Nat) : DeletionTask where
  input := ⟨[], 0, false⟩
  shutdown := false
  inputClosed := false
  shutdownRequested := false
  active := []
  retries := []
  preferRetry := true
  phase := .filling
  now := now
  accepted := []
  completed := []

section

variable (rounds : Nat)

def push (attempt : Attempt) (job : Job) (t : DeletionTask) : DeletionTask :=
  { t with active := t.active
             ++ [⟨job.id, job.deletion.request, deleteBlobOnce rounds attempt job.deletion⟩] }

def leave (t : DeletionTask) : DeletionTask :=
  { t with phase := if t.inputClosed = true ∧ t.active = [] ∧ t.retries = [] then .returned
             else .selecting }

def retryOrLeave (attempt : Attempt) (t : DeletionTask) : DeletionTask :=
  match t.retries with
  | (readyAt, job) :: retries =>
    if readyAt ≤ t.now
      then { push rounds attempt job t with retries := retries, preferRetry := false } else t.leave
  | [] => t.leave

def retryReady (t : DeletionTask) : Bool := t.retries.head?.any fun retry => retry.1 ≤ t.now

def fill (attempt : Attempt) (t : DeletionTask) : DeletionTask :=
  if t.active.length < blobDeleteRequestConcurrency then
    if t.preferRetry && t.retryReady then t.retryOrLeave rounds attempt
    else if t.inputClosed = true then t.retryOrLeave rounds attempt
    else
      match t.input.tryRecv with
      | .ok job rest => { push rounds attempt job t with input := rest, preferRetry := true }
      | .empty => t.retryOrLeave rounds attempt
      | .disconnected => { t with inputClosed := true }.retryOrLeave rounds attempt
  else t.leave

def finish (front back : List ActiveAttempt) (id : Nat) (result : Bool × Deletion)
    (t : DeletionTask) :
    DeletionTask :=
  if result.1 then
    { t with active := front ++ back, completed := t.completed ++ [(id, result.2.request)],
             phase := .filling }
  else
    { t with
      active := front ++ back
      retries := t.retries ++ [(t.now + deleteRetryDelay, ⟨id, result.2⟩)]
      phase := .filling }

variable (capacity : Nat)

inductive Step : DeletionTask → DeletionTask → Prop
  | reserve {t : DeletionTask} (hopen : t.input.closed = false)
      (hroom : t.input.queue.length + t.input.permits < capacity) :
      Step t { t with input := { t.input with permits := t.input.permits + 1 } }
  | release {t : DeletionTask} (hpermit : 0 < t.input.permits) :
      Step t { t with input := { t.input with permits := t.input.permits - 1 } }
  | send {t : DeletionTask} (id : Nat) (request : BlobDeletionRequest) (graceUntil : Nat)
      (hpermit : 0 < t.input.permits) (hfresh : id ∉ t.accepted.map Prod.fst) :
      Step t { t with
        input := { t.input with
          queue := t.input.queue ++ [⟨id, .new request graceUntil⟩], permits :=
            t.input.permits - 1 }
        accepted := t.accepted ++ [(id, request)] }
  | dropSenders {t : DeletionTask} (hidle : t.input.permits = 0) : Step t
    { t with input := { t.input with closed := true } }
  | requestShutdown {t : DeletionTask} : Step t { t with shutdown := true }
  | tick {t : DeletionTask} (now : Nat) (hnow : t.now ≤ now) : Step t { t with now := now }
  | call {t : DeletionTask} {front back : List ActiveAttempt} {id : Nat}
      {request : BlobDeletionRequest} {op : Op} {next : Ans op → Call (Bool × Deletion)}
        (hactive : t.active = front ++ ⟨id, request, .call op next⟩ :: back)
      (ans : Ans op) : Step t { t with active := front ++ ⟨id, request, next ans⟩ :: back }
  | fill {t : DeletionTask} (hphase : t.phase = .filling) (attempt : Attempt) :
    Step t (t.fill rounds attempt)
  | recv {t : DeletionTask} (hphase : t.phase = .selecting) (hopen : t.inputClosed = false)
      (hroom : t.active.length < blobDeleteRequestConcurrency) {job : Job} {rest : Channel Job}
      (hrecv : t.input.tryRecv = .ok job rest) (attempt : Attempt) :
      Step t
        { push rounds attempt job t with input := rest, preferRetry := true, phase := .filling }
  | recvNone {t : DeletionTask} (hphase : t.phase = .selecting) (hopen : t.inputClosed = false)
      (hroom : t.active.length < blobDeleteRequestConcurrency)
        (hrecv : t.input.tryRecv = .disconnected) :
      Step t { t with inputClosed := true, phase := .filling }
  | finish {t : DeletionTask} (hphase : t.phase = .selecting) {front back : List ActiveAttempt}
      {id : Nat} {request : BlobDeletionRequest} {result : Bool × Deletion}
      (hactive : t.active = front ++ ⟨id, request, .done result⟩ :: back) :
        Step t (t.finish front back id result)
  | timer {t : DeletionTask} (hphase : t.phase = .selecting) (hready : t.retryReady = true) :
      Step t { t with phase := .filling }
  | shutdown {t : DeletionTask} (hphase : t.phase = .selecting) (hsignal : t.shutdown = true)
      (honce : t.shutdownRequested = false) :
      Step t
        { t with input := { t.input with closed := true }, shutdownRequested := true,
                 phase := .filling }

end

def system (rounds capacity : Nat) : TransitionSystem DeletionTask where
  init t := ∃ now, t = start now
  step := Step rounds capacity

/-! ## §2. Every step keeps account -/

def waiting (t : DeletionTask) : List Job := t.input.queue ++ t.retries.map Prod.snd

structure Inv (t : DeletionTask) : Prop where
  accounted : ∀ x, t.accepted.count x = (t.input.queue.map Job.sent).count x
    + (t.active.map ActiveAttempt.sent).count x + (t.retries.map fun retry => retry.2.sent).count
      x + t.completed.count x
  fresh : (t.accepted.map Prod.fst).Nodup
  bounded : t.active.length ≤ blobDeleteRequestConcurrency
  drained : t.inputClosed = true → t.input.Drained
  ended : t.phase = .returned → t.inputClosed = true ∧ t.active = [] ∧ t.retries = []
  returns : ∀ a ∈ t.active, a.Sound
  marked : ∀ job ∈ t.waiting, job.deletion.Marked

variable {rounds capacity : Nat} {t : DeletionTask}

theorem inv_start (now : Nat) : Inv (start now) where
  accounted _ := rfl
  fresh := nodup_nil
  bounded := Nat.zero_le _
  drained := nofun
  ended := nofun
  returns := nofun
  marked := nofun

theorem Inv.leave (h : Inv t) : Inv t.leave where
  accounted := h.accounted
  fresh := h.fresh
  bounded := h.bounded
  drained := h.drained
  ended hphase := by
    unfold DeletionTask.leave at hphase ⊢
    dsimp only at hphase ⊢
    split at hphase
    · next hall => exact hall
    · cases hphase
  returns := h.returns
  marked := h.marked

theorem returns_push (h : ∀ a ∈ t.active, a.Sound) (attempt : Attempt) {job : Job}
    (hmarked : job.deletion.Marked) : ∀ a ∈ (t.push rounds attempt job).active, a.Sound := by
  intro a ha
  rcases mem_append.mp ha with ha | ha
  · exact h a ha
  · rw [mem_singleton.mp ha]
    refine (returns_deleteBlobOnce rounds attempt job.deletion).mono ?_
    rintro r ⟨hsame, hback | hwritten⟩
    · rw [hback]
      exact ⟨rfl, hmarked⟩
    · exact ⟨hsame, fun _ => hwritten⟩

theorem completed_retryOrLeave (rounds : Nat) (attempt : Attempt) (t : DeletionTask) :
    (t.retryOrLeave rounds attempt).completed = t.completed := by
  unfold retryOrLeave
  split
  · split <;> rfl
  · rfl

theorem completed_fill (rounds : Nat) (attempt : Attempt) (t : DeletionTask) :
    (t.fill rounds attempt).completed = t.completed := by
  unfold fill
  split
  · split
    · exact completed_retryOrLeave rounds attempt t
    · split
      · exact completed_retryOrLeave rounds attempt t
      · split
        · rfl
        · exact completed_retryOrLeave rounds attempt t
        · exact completed_retryOrLeave rounds attempt _
  · rfl

theorem count_push (rounds : Nat) (t : DeletionTask) (attempt : Attempt) (job : Job) (x : Sent) :
    ((t.push rounds attempt job).active.map ActiveAttempt.sent).count x
      = (t.active.map ActiveAttempt.sent).count x + [job.sent].count x := by
  show ((t.active ++ [_]).map ActiveAttempt.sent).count x = _
  rw [map_append, count_append]
  rfl

theorem Inv.retryOrLeave (h : Inv t) (hroom : t.active.length < blobDeleteRequestConcurrency)
    (hphase : t.phase ≠ .returned) (attempt : Attempt) : Inv (t.retryOrLeave rounds attempt) := by
  unfold DeletionTask.retryOrLeave
  split
  · next readyAt job retries hretries =>
    split
    · have hjob : job ∈ t.waiting := mem_append_right _ (by rw [hretries]; exact mem_cons_self)
      have hrest : t.input.queue ++ retries.map Prod.snd ⊆ t.waiting := by
        unfold waiting
        rw [hretries]
        exact ((sublist_cons_self _ _).append_left _).subset
      refine ⟨fun x => ?_, h.fresh, ?_, h.drained, fun hret => (hphase hret).elim,
        returns_push h.returns attempt (h.marked job hjob), fun other ho =>
          h.marked other (hrest ho)⟩
      · have hcount := h.accounted x
        have hpush := count_push rounds t attempt job x
        rw [hretries, map_cons, count_cons] at hcount
        rw [count_singleton] at hpush
        show t.accepted.count x = (t.input.queue.map Job.sent).count x
          + ((t.push rounds attempt job).active.map ActiveAttempt.sent).count x
          + (retries.map fun retry => retry.2.sent).count x + t.completed.count x
        dsimp only at hcount
        omega
      · show (t.active ++ [_]).length ≤ _
        rw [length_append, length_singleton]
        omega
    · exact h.leave
  · exact h.leave

theorem Inv.recv (h : Inv t) (hroom : t.active.length < blobDeleteRequestConcurrency)
    (hopen : t.inputClosed = false) {job : Job} {rest : Channel Job}
    (hrecv : t.input.tryRecv = .ok job rest) (attempt : Attempt) {phase : TaskPhase}
    (hphase : phase ≠ .returned) :
    Inv { t.push rounds attempt job with input := rest, preferRetry := true, phase := phase } := by
  obtain ⟨hqueue, -, -⟩ := Channel.tryRecv_ok hrecv
  have hwaiting : t.waiting = job :: (rest.queue ++ t.retries.map Prod.snd) := by
    unfold waiting
    rw [hqueue, cons_append]
  have hmarked := h.marked
  rw [hwaiting] at hmarked
  refine ⟨fun x => ?_, h.fresh, ?_, ?_, fun hret => (hphase hret).elim,
    returns_push h.returns attempt (hmarked job mem_cons_self),
    fun other ho => hmarked other (mem_cons_of_mem _ ho)⟩
  · have hcount := h.accounted x
    have hpush := count_push rounds t attempt job x
    rw [hqueue, map_cons, count_cons] at hcount
    rw [count_singleton] at hpush
    show t.accepted.count x = (rest.queue.map Job.sent).count x
      + ((t.push rounds attempt job).active.map ActiveAttempt.sent).count x
      + (t.retries.map fun retry => retry.2.sent).count x + t.completed.count x
    omega
  · show (t.active ++ [_]).length ≤ _
    rw [length_append, length_singleton]
    omega
  · intro hclosed
    rw [show t.inputClosed = true from hclosed] at hopen
    cases hopen

theorem Inv.close (h : Inv t) (hrecv : t.input.tryRecv = .disconnected) {phase : TaskPhase}
    (hphase : phase ≠ .returned) :
    Inv { t with inputClosed := true, phase := phase } where
  accounted := h.accounted
  fresh := h.fresh
  bounded := h.bounded
  drained _ := Channel.tryRecv_disconnected_iff.mp hrecv
  ended hret := (hphase hret).elim
  returns := h.returns
  marked := h.marked

theorem Inv.fill (h : Inv t) (hphase : t.phase = .filling) (attempt : Attempt) :
    Inv (t.fill rounds attempt) := by
  have hnot : t.phase ≠ .returned := by
    rw [hphase]
    exact nofun
  unfold DeletionTask.fill
  split
  · next hroom =>
    split
    · exact h.retryOrLeave hroom hnot attempt
    · split
      · exact h.retryOrLeave hroom hnot attempt
      · next hopen =>
        split
        · next job rest hrecv => exact h.recv hroom (Bool.eq_false_iff.mpr hopen) hrecv attempt hnot
        · exact h.retryOrLeave hroom hnot attempt
        · next hrecv => exact (h.close hrecv hnot).retryOrLeave hroom hnot attempt
  · exact h.leave

theorem Inv.finish (h : Inv t) {front back : List ActiveAttempt} {id : Nat}
    {request : BlobDeletionRequest} {result : Bool × Deletion}
    (hactive : t.active = front ++ ⟨id, request, .done result⟩ :: back) :
    Inv (t.finish front back id result) := by
  obtain ⟨hsame, hmarked⟩ : result.2.request = request ∧ result.2.Marked :=
    h.returns ⟨id, request, .done result⟩ (by rw [hactive]; simp)
  have hreturns : ∀ a ∈ front ++ back, a.Sound := by
    intro a ha
    refine h.returns a ?_
    rw [hactive]
    rcases mem_append.mp ha with ha | ha
    · exact mem_append_left _ ha
    · exact mem_append_right _ (mem_cons_of_mem _ ha)
  have hbounded : (front ++ back).length ≤ blobDeleteRequestConcurrency := by
    have := h.bounded
    rw [hactive] at this
    simp only [length_append, length_cons] at this ⊢
    omega
  have hcount : ∀ x, (t.active.map ActiveAttempt.sent).count x
      = ((front ++ back).map ActiveAttempt.sent).count x + [(id, request)].count x := by
    intro x
    rw [hactive]
    simp only [map_append, map_cons, count_append, count_cons, count_nil, ActiveAttempt.sent]
    omega
  unfold DeletionTask.finish
  split
  · refine ⟨fun x => ?_, h.fresh, hbounded, h.drained, nofun, hreturns, h.marked⟩
    have haccounted := h.accounted x
    rw [hcount x] at haccounted
    show t.accepted.count x = _ + _ + _ + (t.completed ++ [(id, result.2.request)]).count x
    rw [haccounted, hsame, count_append]
    dsimp only
    omega
  · refine ⟨fun x => ?_, h.fresh, hbounded, h.drained, nofun, hreturns, fun job hjob => ?_⟩
    · have haccounted := h.accounted x
      rw [hcount x] at haccounted
      have hretries :
        ((t.retries ++ [(t.now + deleteRetryDelay, Job.mk id result.2)]).map fun retry =>
          retry.2.sent).count x = (t.retries.map fun retry => retry.2.sent).count
            x + [(id, request)].count x := by
        rw [map_append, count_append, ← hsame]
        rfl
      show t.accepted.count x = (t.input.queue.map Job.sent).count
        x + ((front ++ back).map ActiveAttempt.sent).count
          x + ((t.retries ++ [(t.now + deleteRetryDelay, Job.mk id result.2)]).map fun retry =>
          retry.2.sent).count x
        + t.completed.count x
      omega
    · unfold waiting at hjob
      rw [map_append, ← append_assoc] at hjob
      rcases mem_append.mp hjob with hold | hnew
      · exact h.marked job hold
      · rw [mem_singleton.mp hnew]
        exact hmarked

theorem Inv.step {t' : DeletionTask} (h : Inv t) (hstep : Step rounds capacity t t') : Inv t' := by
  cases hstep with
  | reserve hopen hroom =>
    refine ⟨h.accounted, h.fresh, h.bounded, fun hclosed => ?_, h.ended, h.returns, h.marked⟩
    -- a channel whose end was seen takes no more permits
    rw [(h.drained hclosed).closed] at hopen
    cases hopen
  | release hpermit =>
    refine ⟨h.accounted, h.fresh, h.bounded, fun hclosed => ?_, h.ended, h.returns, h.marked⟩
    rw [(h.drained hclosed).permits] at hpermit
    exact absurd hpermit (Nat.lt_irrefl 0)
  | send id request graceUntil hpermit hfresh =>
    refine ⟨fun x => ?_, ?_, h.bounded, fun hclosed => ?_, h.ended, h.returns, fun job hjob => ?_⟩
    · have hcount := h.accounted x
      show (t.accepted ++ [(id, request)]).count x
        = ((t.input.queue ++ [Job.mk id (.new request graceUntil)]).map Job.sent).count x
        + (t.active.map ActiveAttempt.sent).count
          x + (t.retries.map fun retry => retry.2.sent).count x
        + t.completed.count x
      rw [map_append, count_append, count_append, map_singleton]
      show _ = _ + [(id, request)].count x + _ + _ + _
      omega
    · show ((t.accepted ++ [(id, request)]).map Prod.fst).Nodup
      rw [map_append]
      exact nodup_append_comm.mp (nodup_cons.mpr ⟨hfresh, h.fresh⟩)
    · rw [(h.drained hclosed).permits] at hpermit
      exact absurd hpermit (Nat.lt_irrefl 0)
    · rcases mem_append.mp hjob with hqueue | hretries
      · rcases mem_append.mp hqueue with hold | hnew
        · exact h.marked job (mem_append_left _ hold)
        · rw [mem_singleton.mp hnew]
          exact Deletion.marked_new request graceUntil
      · exact h.marked job (mem_append_right _ hretries)
  | dropSenders hidle =>
    refine ⟨h.accounted, h.fresh, h.bounded, fun hclosed => ?_, h.ended, h.returns, h.marked⟩
    exact ⟨rfl, (h.drained hclosed).permits, (h.drained hclosed).queue⟩
  | requestShutdown =>
    exact ⟨h.accounted, h.fresh, h.bounded, h.drained, h.ended, h.returns, h.marked⟩
  | tick now hnow =>
    exact ⟨h.accounted, h.fresh, h.bounded, h.drained, h.ended, h.returns, h.marked⟩
  | @call front back id request op next hactive ans =>
    have hsent : (front ++ ⟨id, request, next ans⟩ :: back).map ActiveAttempt.sent
        = t.active.map ActiveAttempt.sent := by
      rw [hactive, map_append, map_append]
      rfl
    refine ⟨fun x => ?_, h.fresh, ?_, h.drained, fun hret => ?_, fun a ha => ?_, h.marked⟩
    · show _ = _ + ((front ++ ⟨id, request, next ans⟩ :: back).map ActiveAttempt.sent).count
        x + _ + _
      rw [hsent]
      exact h.accounted x
    · have := h.bounded
      rw [hactive] at this
      simpa only [length_append, length_cons] using this
    · rw [(h.ended hret).2.1] at hactive
      exact absurd hactive (by simp)
    · have hreturns := h.returns ⟨id, request, .call op next⟩ (by rw [hactive]; simp)
      rcases mem_append.mp ha with ha | ha
      · exact h.returns a (by rw [hactive]; exact mem_append_left _ ha)
      · rcases mem_cons.mp ha with rfl | ha
        · exact hreturns ans
        · exact h.returns a (by rw [hactive]; exact mem_append_right _ (mem_cons_of_mem _ ha))
  | fill hphase attempt => exact h.fill hphase attempt
  | recv hphase hopen hroom hrecv attempt => exact h.recv hroom hopen hrecv attempt nofun
  | recvNone hphase hopen hroom hrecv => exact h.close hrecv nofun
  | finish hphase hactive => exact h.finish hactive
  | timer hphase hready =>
    exact ⟨h.accounted, h.fresh, h.bounded, h.drained, nofun, h.returns, h.marked⟩
  | shutdown hphase hsignal honce =>
    refine ⟨h.accounted, h.fresh, h.bounded, fun hclosed => ?_, nofun, h.returns, h.marked⟩
    exact ⟨rfl, (h.drained hclosed).permits, (h.drained hclosed).queue⟩

/-! ## §3. Whole runs -/

theorem Inv.of_reachable (h : (system rounds capacity).Reachable t) : Inv t :=
  h.invariant (fun _ ⟨now, hnow⟩ => hnow ▸ inv_start now) fun _ _ hs hstep => hs.step hstep

def places (t : DeletionTask) : List Sent :=
  t.input.queue.map Job.sent ++ t.active.map ActiveAttempt.sent ++ t.retries.map
    (fun retry => retry.2.sent) ++ t.completed

theorem Inv.perm_places (h : Inv t) : t.accepted.Perm t.places := by
  refine perm_iff_count.mpr fun x => ?_
  unfold places
  rw [count_append, count_append, count_append]
  exact h.accounted x

theorem Inv.perm_completed (h : Inv t) (hret : t.phase = .returned) :
    t.input.closed = true ∧ t.accepted.Perm t.completed := by
  obtain ⟨hclosed, hactive, hretries⟩ := h.ended hret
  obtain ⟨hchannel, -, hqueue⟩ := h.drained hclosed
  refine ⟨hchannel, ?_⟩
  have hperm := h.perm_places
  unfold places at hperm
  rwa [hqueue, hactive, hretries] at hperm

/-- A step completes no request but one whose attempt has returned true. -/
theorem Inv.succeeded {t' : DeletionTask} (h : Inv t) (hstep : Step rounds capacity t t') {x : Sent}
    (hx : x ∈ t'.completed) :
    x ∈ t.completed ∨ ∃ a ∈ t.active, a.sent = x
      ∧ ∃ deletion, a.attempt = .done (true, deletion) := by
  cases hstep with
  | @finish hphase front back id request result hactive =>
    have hmem : ⟨id, request, .done result⟩ ∈ t.active := by
      rw [hactive]
      exact mem_append_right _ mem_cons_self
    unfold DeletionTask.finish at hx
    split at hx
    · next hdone =>
      rcases mem_append.mp hx with hold | hnew
      · exact .inl hold
      · have hresult : result = (true, result.2) := Prod.ext hdone rfl
        refine .inr ⟨_, hmem, ?_, result.2, congrArg Prog.done hresult⟩
        rw [mem_singleton.mp hnew, (h.returns _ hmem).1]
        rfl
    · exact .inl hx
  | fill hphase attempt =>
    rw [completed_fill] at hx
    exact .inl hx
  | _ => exact .inl hx

/-- ★ **No request is lost or abandoned.** At every moment each request that was accepted is at
    exactly one place, no request is attempted twice at the same time, and at most four are under
    way. A request is completed only when an attempt for it has returned true. When the task has
    returned, the channel is closed and every request that was ever accepted is completed. -/
theorem deletions_accounted {t : DeletionTask} (h : (system rounds capacity).Reachable t) :
    t.accepted.Perm t.places ∧ (t.places.map Prod.fst).Nodup
      ∧ (t.active.map ActiveAttempt.id).Nodup ∧ t.active.length ≤ blobDeleteRequestConcurrency
      ∧ (∀ t' x, Step rounds capacity t t' → x ∈ t'.completed → x ∈ t.completed ∨
          ∃ a ∈ t.active, a.sent = x ∧ ∃ deletion, a.attempt = .done (true, deletion))
      ∧ (t.phase = .returned → t.input.closed = true ∧ t.accepted.Perm t.completed) := by
  have hinv := Inv.of_reachable h
  have hnodup : (t.places.map Prod.fst).Nodup := (hinv.perm_places.map Prod.fst).nodup_iff.mp
    hinv.fresh
  refine ⟨hinv.perm_places, hnodup, ?_, hinv.bounded, fun _ _ hstep hx => hinv.succeeded hstep hx,
    fun hret => ?_⟩
  · have hsub : (t.active.map ActiveAttempt.id).Sublist (t.places.map Prod.fst) := by
      have hactive : (t.active.map ActiveAttempt.sent).Sublist t.places := by
        unfold places
        rw [append_assoc, append_assoc]
        exact (sublist_append_left _ _).trans (sublist_append_right _ _)
      have := hactive.map Prod.fst
      rwa [map_map] at this
    exact hsub.nodup hnodup
  · exact hinv.perm_completed hret

def sampleRequest : BlobDeletionRequest := ⟨⟨1, 0⟩, .dataVgProxy, false⟩

def sampleAttempt (blocksOk : Bool) : Attempt := ⟨0, blocksOk, 0, id, @List.Perm.refl Bytes⟩

/-- The first attempt fails and is put back, the gateway shuts down, and the second one succeeds
    before the task returns. -/
theorem deletions_accounted_at_sample :
    ∃ t, (system 0 1).Reachable t ∧ t.phase = .returned ∧ t.accepted = [(0, sampleRequest)]
      ∧ t.shutdownRequested = true ∧ t.now = deleteRetryDelay ∧ t.accepted.Perm t.completed := by
  have h := TransitionSystem.Reachable.init (T := system 0 1) ⟨0, rfl⟩
  replace h := h.step (.reserve rfl (by decide))
  replace h := h.step (.send 0 sampleRequest 0 (by decide) (by decide))
  replace h := h.step (.fill rfl (sampleAttempt false))
  replace h := h.step (.fill rfl (sampleAttempt false))
  replace h := h.step (.finish rfl (show _ = [] ++ _ :: [] from rfl))
  replace h := h.step (.fill rfl (sampleAttempt false))
  replace h := h.step .requestShutdown
  replace h := h.step (.shutdown rfl rfl rfl)
  replace h := h.step (.tick deleteRetryDelay (Nat.zero_le _))
  replace h := h.step (.fill rfl (sampleAttempt true))
  replace h := h.step (.fill rfl (sampleAttempt true))
  replace h := h.step (.finish rfl (show _ = [] ++ _ :: [] from rfl))
  replace h := h.step (.fill rfl (sampleAttempt true))
  exact ⟨_, h, rfl, rfl, rfl, rfl, ((deletions_accounted h).2.2.2.2.2 rfl).2⟩

/-! ## §4. A bucket that is gone -/

/-- If the step answers a call of the request, it is with an answer that the call has when the
    bucket is gone. -/
def AnsweredGone (cluster : Cluster) (sent : Sent) (t t' : DeletionTask) : Prop :=
  ∀ front back op (next : Ans op → Call (Bool × Deletion)) ans,
    t.active = front ++ ⟨sent.1, sent.2, .call op next⟩ :: back →
    t' = { t with active := front ++ ⟨sent.1, sent.2, next ans⟩ :: back } →
    ∃ d s, rootGone op d ∧ next ans = next (cluster.serve d op s).1

/-- The task from `t₀` on, while the bucket of the request is gone. -/
def goneSystem (rounds capacity : Nat) (cluster : Cluster) (sent : Sent) (t₀ : DeletionTask) :
    TransitionSystem DeletionTask where
  init t := t = t₀
  step t t' := Step rounds capacity t t' ∧ AnsweredGone cluster sent t t'

/-- The request is not completed, and no attempt for it will succeed. -/
structure Stuck (cluster : Cluster) (sent : Sent) (t : DeletionTask) : Prop where
  fails : ∀ a ∈ t.active, a.sent = sent →
    a.attempt.Keeps cluster.serve rootGone (fun _ => True) fun r => r.1 = false
  accepted : sent ∈ t.accepted
  pending : sent ∉ t.completed

variable {cluster : Cluster} {sent : Sent} (h : Stuck cluster sent t)

include h

theorem Stuck.push (hmapped : sent.2.mapped = true) (attempt : Attempt) (job : Job) :
    Stuck cluster sent (t.push rounds attempt job) := by
  refine ⟨fun a ha heq => ?_, h.accepted, h.pending⟩
  rcases mem_append.mp ha with ha | ha
  · exact h.fails a ha heq
  · rw [mem_singleton.mp ha] at heq ⊢
    refine deleteBlobOnce_of_rootGone cluster rounds attempt ?_
    rw [← heq] at hmapped
    exact hmapped

theorem Stuck.retryOrLeave (hmapped : sent.2.mapped = true) (attempt : Attempt) :
    Stuck cluster sent (t.retryOrLeave rounds attempt) := by
  unfold DeletionTask.retryOrLeave
  split
  · next readyAt job retries hretries =>
    split
    · exact ⟨(h.push hmapped attempt job).fails, h.accepted, h.pending⟩
    · exact ⟨h.fails, h.accepted, h.pending⟩
  · exact ⟨h.fails, h.accepted, h.pending⟩

theorem Stuck.fill (hmapped : sent.2.mapped = true) (attempt : Attempt) :
    Stuck cluster sent (t.fill rounds attempt) := by
  unfold DeletionTask.fill
  split
  · split
    · exact h.retryOrLeave hmapped attempt
    · split
      · exact h.retryOrLeave hmapped attempt
      · split
        · next job rest hrecv => exact ⟨(h.push hmapped attempt job).fails, h.accepted, h.pending⟩
        · exact h.retryOrLeave hmapped attempt
        · exact (show Stuck cluster sent { t with inputClosed := true } from
            ⟨h.fails, h.accepted, h.pending⟩).retryOrLeave hmapped attempt
  · exact ⟨h.fails, h.accepted, h.pending⟩

theorem Stuck.finish (hinv : Inv t) {front back : List ActiveAttempt} {id : Nat}
    {request : BlobDeletionRequest} {result : Bool × Deletion}
    (hactive : t.active = front ++ ⟨id, request, .done result⟩ :: back) :
    Stuck cluster sent (t.finish front back id result) := by
  have hmem : ⟨id, request, .done result⟩ ∈ t.active := by
    rw [hactive]
    exact mem_append_right _ mem_cons_self
  have hsub : ∀ a ∈ front ++ back, a ∈ t.active := by
    intro a ha
    rw [hactive]
    exact ((sublist_cons_self _ back).append_left front).subset ha
  have hfails := fun a ha => h.fails a (hsub a ha)
  unfold DeletionTask.finish
  split
  · next hdone =>
    refine ⟨hfails, h.accepted, fun hcompleted => ?_⟩
    rcases mem_append.mp hcompleted with hold | hnew
    · exact h.pending hold
    · have hsame : result.2.request = request := (hinv.returns _ hmem).1
      rw [mem_singleton, hsame] at hnew
      have hfailed : result.1 = false := h.fails _ hmem hnew.symm
      rw [hfailed] at hdone
      cases hdone
  · exact ⟨hfails, h.accepted, h.pending⟩

theorem Stuck.step {t' : DeletionTask} (hinv : Inv t) (hmapped : sent.2.mapped = true)
    (hstep : Step rounds capacity t t') (hgone : AnsweredGone cluster sent t t') :
    Stuck cluster sent t' := by
  cases hstep with
  | @call front back id request op next hactive ans =>
    refine ⟨fun a ha heq => ?_, h.accepted, h.pending⟩
    have hold := fun (b : ActiveAttempt) (hb : b ∈ front ∨ b ∈ back) => h.fails b <| by
      rw [hactive]
      exact mem_append.mpr (hb.imp_right (mem_cons_of_mem _))
    rcases mem_append.mp ha with ha | ha
    · exact hold a (.inl ha) heq
    · rcases mem_cons.mp ha with rfl | ha
      · subst heq
        obtain ⟨d, s, hd, hans⟩ := hgone front back op next ans hactive rfl
        have hcall := h.fails ⟨id, request, .call op next⟩ (by rw [hactive]; simp) rfl
        show (next ans).Keeps _ _ _ _
        rw [hans]
        exact (hcall d s hd trivial).2
      · exact hold a (.inr ha) heq
  | fill hphase attempt => exact h.fill hmapped attempt
  | recv hphase hopen hroom hrecv attempt =>
    exact ⟨(h.push hmapped attempt _).fails, h.accepted, h.pending⟩
  | finish hphase hactive => exact h.finish hinv hactive
  | send job hpermit hfresh => exact ⟨h.fails, mem_append_left _ h.accepted, h.pending⟩
  | _ => exact ⟨h.fails, h.accepted, h.pending⟩

omit h in
theorem Inv.stuck (h : Inv t) {job : Job} (hwaits : job ∈ t.waiting) :
    Stuck cluster job.sent t := by
  have hplace :
    0 < (t.input.queue.map Job.sent).count
    job.sent + (t.retries.map fun retry => retry.2.sent).count job.sent := by
    rcases mem_append.mp hwaits with hqueue | hretries
    · exact Nat.add_pos_left (count_pos_iff.mpr (mem_map_of_mem hqueue)) _
    · obtain ⟨retry, hmem, rfl⟩ := mem_map.mp hretries
      exact Nat.add_pos_right _ (count_pos_iff.mpr (mem_map_of_mem hmem))
  have honce : t.accepted.count job.sent ≤ 1 :=
    nodup_iff_count_le_one.mp (List.Nodup.of_map _ h.fresh) _
  have hcount := h.accounted job.sent
  refine ⟨fun a ha heq => ?_, count_pos_iff.mp (by omega), fun hcompleted => ?_⟩
  · have : 0 < (t.active.map ActiveAttempt.sent).count job.sent :=
      count_pos_iff.mpr (heq ▸ mem_map_of_mem ha)
    omega
  · have := count_pos_iff.mpr hcompleted
    omega

omit h in
/-- ★ **When the bucket is gone**, the attempts past the grace period that can delete all blocks
    succeed exactly for a blob without rows. A request for a blob with rows is never completed as
    long as the bucket is gone, and the task never returns. One for a blob without rows succeeds at
    the next such attempt, whenever in the run it is made. -/
theorem gone_bucket_deletion_iff (h : (system rounds capacity).Reachable t) {job : Job}
    (hwaits : job ∈ t.waiting) (cluster : Cluster) :
    ((∀ attempt, job.deletion.Ready attempt → ∀ s r s',
        (deleteBlobOnce rounds attempt job.deletion).Ends cluster.serve rootGone s r s' →
          r.1 = true)
      ↔ job.deletion.request.mapped = false)
    ∧ (job.deletion.request.mapped = true →
      ∀ t', (goneSystem rounds capacity cluster job.sent t).Reachable t' →
        job.sent ∉ t'.completed ∧ t'.phase ≠ .returned)
    ∧ (job.deletion.request.mapped = false →
      ∀ t', (goneSystem rounds capacity cluster job.sent t).Reachable t' →
        ∀ later ∈ t'.waiting, later.sent = job.sent → ∀ attempt, later.deletion.Ready attempt →
          ∃ deletion, deleteBlobOnce rounds attempt later.deletion = .done (true, deletion)) := by
  have hinv := Inv.of_reachable h
  refine ⟨⟨fun hall => ?_, fun hmapped attempt hready s r s' hend => ?_⟩, fun hmapped t' hreach =>
    ?_, fun hmapped t' hreach later hlater hsent attempt hready => ?_⟩
  · by_contra hmapped
    rw [Bool.not_eq_false] at hmapped
    let attempt : Attempt := ⟨job.deletion.graceUntil.getD 0, true, 1, id, @List.Perm.refl Bytes⟩
    have hready : job.deletion.Ready attempt := by
      refine ⟨fun deadline hsome => ?_, .inr rfl, Nat.one_pos⟩
      show deadline ≤ job.deletion.graceUntil.getD 0
      rw [hsome]
      exact le_rfl
    have hgone : ∀ op, rootGone op .noRootBlob := by
      intro op
      cases op <;> first | exact rfl | exact trivial
    have hend : (deleteBlobOnce rounds attempt job.deletion).Ends cluster.serve rootGone
      ⟨∅, fun _ => none, []⟩ _ _ :=
      ends_exec hgone _ _
    have hfails := ((deleteBlobOnce_of_rootGone cluster rounds attempt hmapped).ends trivial hend).2
    rw [hall attempt hready _ _ _ hend] at hfails
    cases hfails
  · obtain ⟨deletion', hdone⟩ := deleteBlobOnce_of_not_mapped rounds hmapped
      (hinv.marked job hwaits hmapped) hready
    rw [hdone] at hend
    rw [← hend.1]
  · have hstart : ∀ s, s = t → Inv s ∧ Stuck cluster job.sent s := by
      rintro s rfl
      exact ⟨hinv, hinv.stuck hwaits⟩
    obtain ⟨hinv', hstuck⟩ := hreach.invariant hstart fun s s' hs hstep =>
      ⟨hs.1.step hstep.1, hs.2.step hs.1 hmapped hstep.1 hstep.2⟩
    refine ⟨hstuck.pending, fun hret => hstuck.pending ?_⟩
    exact (hinv'.perm_completed hret).2.subset hstuck.accepted
  · have hinv' : Inv t' := hreach.invariant (fun s hs => hs ▸ hinv) fun s s' hs hstep =>
      hs.step hstep.1
    have hrequest : later.deletion.request = job.deletion.request := congrArg Prod.snd hsent
    rw [← hrequest] at hmapped
    exact deleteBlobOnce_of_not_mapped rounds hmapped (hinv'.marked later hlater hmapped) hready

def mappedRequest : BlobDeletionRequest := { sampleRequest with mapped := true }

def readyAttempt : Attempt := ⟨1, true, 1, id, @List.Perm.refl Bytes⟩

omit h in
theorem gone_bucket_deletion_at_sample :
    ∃ t, (system 0 1).Reachable t ∧ t.input.queue = [⟨0, .new mappedRequest 0⟩] ∧ ∀ cluster t',
      (goneSystem 0 1 cluster (0, mappedRequest) t).Reachable t' →
        (0, mappedRequest) ∉ t'.completed ∧ t'.phase ≠ .returned := by
  have h := TransitionSystem.Reachable.init (T := system 0 1) ⟨0, rfl⟩
  replace h := h.step (.reserve rfl (by decide))
  replace h := h.step (.send 0 mappedRequest 0 (by decide) (by decide))
  exact ⟨_, h, rfl, fun cluster => (gone_bucket_deletion_iff h mem_cons_self cluster).2.1 rfl⟩

omit h in
theorem gone_bucket_attempt_fails :
    (Deletion.new mappedRequest 0).Ready readyAttempt
      ∧ ∀ (cluster : Cluster) (site : Site),
        ((deleteBlobOnce 0 readyAttempt (.new mappedRequest 0)).exec (cluster.serve .noRootBlob)
          site).1.1 = false := by
  refine ⟨⟨?_, .inr rfl, Nat.one_pos⟩, fun cluster site => rfl⟩
  rintro deadline ⟨⟩
  exact Nat.zero_le 1

end DeletionTask

end FractalBits.Objects
