/-
  Rpc.Pending — the requests that wait on a connection.

  Mirrors `send_request_vectored_internal`, `PendingRequestGuard`, `handle_incoming_frame` and
  `drain_pending_requests` of `generic_client.rs`.
-/

import Mathlib.Logic.Function.Basic
import Mathlib.Data.List.Nodup
import FractalBits.Rpc.Framing
import FractalBits.Lib.Transition

namespace FractalBits.Rpc

open Lib List Function

/-! ## §1. Calls -/

inductive CallError where
  /-- `InternalRequestError("Connection is closed")` -/
  | connectionClosed
  /-- `InternalRequestError`: the send queue is gone -/
  | sendFailed
  /-- `InternalResponseError("timeout")` -/
  | timeout
  /-- `InternalResponseError`: the sender was dropped -/
  | senderDropped
  deriving DecidableEq, Repr

inductive Phase where
  | idle
  /-- the connection was not closed -/
  | checked
  /-- entered into the map; the frame waits for room in the send queue -/
  | sending
  /-- at the receiving half -/
  | waiting
  /-- returning an error, the guard still to be dropped -/
  | failing (e : CallError)
  /-- the future was dropped, the guard still to be dropped -/
  | cancelling
  | done
  deriving DecidableEq, Repr

namespace Phase

def listening : Phase → Bool
  | sending | waiting => true
  | _ => false

def outstanding : Phase → Bool
  | sending | waiting | failing _ | cancelling => true
  | _ => false

def started : Phase → Bool
  | idle | checked => false
  | _ => true

theorem started_of_outstanding {p : Phase} (h : p.outstanding = true) : p.started = true := by
  cases p <;> first | rfl | exact nomatch h

theorem outstanding_of_listening {p : Phase} (h : p.listening = true) : p.outstanding = true := by
  cases p <;> first | rfl | exact nomatch h

end Phase

abbrev Caller := Nat

inductive OneShot (H : Type) where
  | empty
  | value (n : Nat) (frame : H × Bytes)
  /-- the sender was dropped -/
  | closed

structure Arrived (H : Type) where
  frame : H × Bytes
  answers : Option Caller
  phases : Caller → Phase
  taker : Option Caller

structure Connection (H : Type) where
  closed : Bool
  /-- the pending map: whose sender is entered under an id -/
  pending : UInt32 → Option Caller
  phase : Caller → Phase
  channel : Caller → OneShot H
  /-- the frame and the sender the receive task has taken out of the map -/
  inHand : Option (Nat × (H × Bytes) × Caller)
  arrivals : List (Arrived H)
  /-- the callers in the order of their entries into the map -/
  issued : List Caller
  outcomes : List (Caller × Except CallError (Nat × (H × Bytes)))

variable {H : Type}

namespace Connection

def new : Connection H where
  closed := false
  pending := fun _ => none
  phase := fun _ => .idle
  channel := fun _ => .empty
  inHand := none
  arrivals := []
  issued := []
  outcomes := []

variable (s : Connection H)

def setPhase (c : Caller) (p : Phase) : Connection H :=
  { s with phase := update s.phase c p }

def finish (c : Caller) (r : Except CallError (Nat × (H × Bytes))) : Connection H :=
  { s.setPhase c .done with outcomes := s.outcomes ++ [(c, r)] }

def dropSender (channel : Caller → OneShot H) : Option Caller → Caller → OneShot H
  | none => channel
  | some c => update channel c .closed

/-- `requests.lock().insert(request_id, tx)`; a sender that was there is dropped. -/
def insert (id : UInt32) (c : Caller) : Connection H :=
  { s with
    pending := update s.pending id (some c)
    channel := dropSender s.channel (s.pending id)
    issued := s.issued ++ [c] }

/-- `requests.lock().remove(&request_id)` by a guard; the sender is dropped. -/
def remove (id : UInt32) : Connection H :=
  { s with
    pending := update s.pending id none
    channel := dropSender s.channel (s.pending id) }

/-- `handle_incoming_frame`, up to the sender it finds. -/
def lookup (id : UInt32) (frame : H × Bytes) (answers : Option Caller) : Connection H :=
  { s with
    pending := update s.pending id none
    inHand := (s.pending id).map fun c => (s.arrivals.length, frame, c)
    arrivals := s.arrivals ++ [⟨frame, answers, s.phase, s.pending id⟩] }

/-- `tx.send(frame)`; it fails when the receiving half is gone. -/
def deliver (n : Nat) (frame : H × Bytes) (c : Caller) : Connection H :=
  { s with
    inHand := none
    channel := if (s.phase c).listening then update s.channel c (.value n frame) else s.channel }

end Connection

/-! ## §2. Steps -/

section

variable (codec : HeaderCodec H) (request : Caller → Frame H)

def requestId (c : Caller) : UInt32 := codec.getId (request c).header

/-- `requests.clear()`; the senders are dropped. -/
def Connection.drain (s : Connection H) : Connection H :=
  { s with
    pending := fun _ => none
    channel := fun c => if s.pending (requestId codec request c) = some c then .closed
      else s.channel c }

def Reused (s : Connection H) (c : Caller) : Prop :=
  ∃ earlier later c', s.issued = earlier ++ c :: later ∧ c' ∈ later ∧
    requestId codec request c' = requestId codec request c

/-- A frame that answers a call has its id, and the id was not used again. -/
def Answers (s : Connection H) (frame : H × Bytes) (c : Caller) : Prop :=
  codec.getId frame.1 = requestId codec request c ∧ c ∈ s.issued ∧ ¬ Reused codec request s c

inductive Step (s : Connection H) : Connection H → Prop
  | refuse (c : Caller) (hphase : s.phase c = .idle) (hclosed : s.closed = true) :
      Step s (s.finish c (.error .connectionClosed))
  | check (c : Caller) (hphase : s.phase c = .idle) (hclosed : s.closed = false) :
    Step s (s.setPhase c .checked)
  /-- ids of outstanding requests are distinct -/
  | insert (c : Caller) (hphase : s.phase c = .checked)
      (hdistinct : ∀ c', (s.phase c').outstanding = true →
        requestId codec request c' ≠ requestId codec request c) :
      Step s ((s.insert (requestId codec request c) c).setPhase c .sending)
  | sent (c : Caller) (hphase : s.phase c = .sending) : Step s (s.setPhase c .waiting)
  | sendFailed (c : Caller) (hphase : s.phase c = .sending) :
    Step s (s.setPhase c (.failing .sendFailed))
  /-- any frame, with any id, again or unasked for; but none for an id that was used again -/
  | arrive (frame : H × Bytes) (answers : Option Caller) (hhand : s.inHand = none)
      (hanswers : ∀ c, answers = some c → Answers codec request s frame c) :
      Step s (s.lookup (codec.getId frame.1) frame answers)
  | deliver (n : Nat) (frame : H × Bytes) (c : Caller) (hhand : s.inHand = some (n, frame, c)) :
      Step s (s.deliver n frame c)
  | close : Step s { s with closed := true }
  | drain : Step s (s.drain codec request)
  | resolve (c : Caller) (n : Nat) (frame : H × Bytes) (hphase : s.phase c = .waiting)
      (hchannel : s.channel c = .value n frame) : Step s (s.finish c (.ok (n, frame)))
  | resolveClosed (c : Caller) (hphase : s.phase c = .waiting) (hchannel : s.channel c = .closed) :
      Step s (s.finish c (.error .senderDropped))
  | timeout (c : Caller) (hphase : s.phase c = .waiting) : Step s (s.setPhase c (.failing .timeout))
  | cancel (c : Caller) (hphase : (s.phase c).listening = true) : Step s (s.setPhase c .cancelling)
  | fail (c : Caller) (e : CallError) (hphase : s.phase c = .failing e) :
      Step s ((s.remove (requestId codec request c)).finish c (.error e))
  | cancelled (c : Caller) (hphase : s.phase c = .cancelling) :
      Step s ((s.remove (requestId codec request c)).setPhase c .done)

def connection : TransitionSystem (Connection H) where
  init := fun s => s = Connection.new
  step := Step codec request

/-! ## §3. The invariant -/

/-- The frame was taken for this caller: it has the caller's id, and answers no other call. -/
structure Taken (a : Arrived H) (frame : H × Bytes) (c : Caller) : Prop where
  frame_eq : a.frame = frame
  taker_eq : a.taker = some c
  id_eq : codec.getId frame.1 = requestId codec request c
  answers_eq : ∀ c', a.answers = some c' → c' = c

/-- A frame on its way to a caller: if the caller still listens, it did when the frame arrived. -/
def Carried (s : Connection H) (n : Nat) (frame : H × Bytes) (c : Caller) : Prop :=
  ∃ a, s.arrivals[n]? = some a ∧ Taken codec request a frame c ∧ c ∈ s.issued ∧
    ((s.phase c).listening = true → (a.phases c).listening = true)

/-- A frame that was an outcome: its caller listened when it arrived. -/
def Answered (s : Connection H) (n : Nat) (frame : H × Bytes) (c : Caller) : Prop :=
  ∃ a, s.arrivals[n]? = some a ∧ Taken codec request a frame c ∧ (a.phases c).listening = true

structure Inv (s : Connection H) : Prop where
  /-- an entry is that of an outstanding call, and nothing was sent through its sender -/
  entry : ∀ id c, s.pending id = some c →
    (s.phase c).outstanding = true ∧ requestId codec request c = id ∧ s.channel c = .empty
  current : ∀ c, (s.phase c).outstanding = true → c ∈ s.issued ∧ ¬ Reused codec request s c
  begun : ∀ c ∈ s.issued, (s.phase c).started = true
  fresh : ∀ c, (s.phase c).started = false → s.channel c = .empty
  hand : ∀ n frame c, s.inHand = some (n, frame, c) → Carried codec request s n frame c
    ∧ ∀ id, s.pending id ≠ some c
  carried : ∀ n frame c, s.channel c = .value n frame → Carried codec request s n frame c
  answered : ∀ n frame c, (c, .ok (n, frame)) ∈ s.outcomes → Answered codec request s n frame c
  ended : ∀ p ∈ s.outcomes, s.phase p.1 = .done
  once : (s.outcomes.map Prod.fst).Nodup

variable {codec request} {s : Connection H}

theorem inv_new : Inv codec request (Connection.new : Connection H) where
  entry := fun _ _ h => nomatch h
  current := fun _ h => absurd h Bool.false_ne_true
  begun := fun _ h => absurd h not_mem_nil
  fresh := fun _ _ => rfl
  hand := fun _ _ _ h => nomatch h
  carried := fun _ _ _ h => nomatch h
  answered := fun _ _ _ h => absurd h not_mem_nil
  ended := fun _ h => absurd h not_mem_nil
  once := nodup_nil

variable {c c' : Caller} {s' : Connection H} {n : Nat} {frame : H × Bytes}

theorem eq_of_not_reused (hc : c ∈ s.issued) (hc' : c' ∈ s.issued)
    (hreused : ¬ Reused codec request s c) (hreused' : ¬ Reused codec request s c')
    (hid : requestId codec request c = requestId codec request c') : c = c' := by
  obtain ⟨earlier, later, hissued⟩ := append_of_mem hc
  rw [hissued, mem_append, mem_cons] at hc'
  rcases hc' with hearlier | rfl | hlater
  · -- `c'` came first, so its id was used again by `c`
    obtain ⟨before, between, hsplit⟩ := append_of_mem hearlier
    refine absurd ⟨before, between ++ c :: later, c, ?_, ?_, hid⟩ hreused'
    · rw [hissued, hsplit, append_assoc, cons_append]
    · exact mem_append_right _ mem_cons_self
  · rfl
  · exact absurd ⟨earlier, later, c', hissued, hlater, hid.symm⟩ hreused

theorem reused_of_append (hissued : s'.issued = s.issued ++ [c'])
    (h : Reused codec request s' c) :
    Reused codec request s c
      ∨ (c ∈ s.issued ∧ requestId codec request c' = requestId codec request c) := by
  obtain ⟨earlier, later, again, hsplit, hlater, hid⟩ := h
  rcases eq_nil_or_concat later with rfl | ⟨between, last, rfl⟩
  · exact absurd hlater not_mem_nil
  · have hboth : s.issued ++ [c'] = (earlier ++ c :: between) ++ [last] := by
      rw [← hissued, hsplit, concat_eq_append, append_assoc, cons_append]
    obtain ⟨hbefore, hlast⟩ := append_inj' hboth rfl
    rw [concat_eq_append, mem_append, mem_singleton] at hlater
    rcases hlater with hbetween | rfl
    · exact .inl ⟨earlier, between, again, hbefore, hbetween, hid⟩
    · refine .inr ⟨?_, ?_⟩
      · rw [hbefore]
        exact mem_append_right _ mem_cons_self
      · rw [List.cons.inj hlast |>.1]
        exact hid

theorem not_reused_of_new (hissued : s'.issued = s.issued ++ [c]) (hnew : c ∉ s.issued) :
    ¬ Reused codec request s' c := by
  intro hreused
  rcases reused_of_append hissued hreused with ⟨earlier, later, -, hsplit, -⟩ | ⟨hc, -⟩
  · exact hnew (hsplit ▸ mem_append_right _ mem_cons_self)
  · exact hnew hc

/-! ### Steps of a call -/

theorem Connection.setPhase_self (s : Connection H) (c : Caller) (p : Phase) :
    (s.setPhase c p).phase c = p :=
  update_self _ _ _

theorem Connection.setPhase_of_ne (s : Connection H) (p : Phase) (hc : c' ≠ c) :
    (s.setPhase c p).phase c' = s.phase c' :=
  update_of_ne hc _ _

theorem Carried.keep
    (h : Carried codec request s n frame c) (harrivals : s.arrivals <+: s'.arrivals)
    (hissued : s.issued <+: s'.issued)
    (hlistening : (s'.phase c).listening = true → (s.phase c).listening = true) :
    Carried codec request s' n frame c := by
  obtain ⟨a, ha, htaken, hc, hwas⟩ := h
  refine ⟨a, ?_, htaken, hissued.subset hc, fun h => hwas (hlistening h)⟩
  obtain ⟨more, hmore⟩ := harrivals
  rw [← hmore, List.getElem?_append_left (List.getElem?_eq_some_iff.mp ha).1]
  exact ha

theorem Connection.rel_setPhase {R : Phase → Phase → Prop} (hrefl : ∀ q, R q q) {p : Phase}
    (hc : R (s.phase c) p) (c' : Caller) : R (s.phase c') ((s.setPhase c p).phase c') := by
  by_cases h : c' = c
  · rw [h, s.setPhase_self]
    exact hc
  · rw [s.setPhase_of_ne p h]
    exact hrefl _

variable (h : Inv codec request s)

include h

theorem Inv.setPhase {p : Phase}
    (hcurrent : p.outstanding = true → (s.phase c).outstanding = true)
    (hentry : p.outstanding = true ∨ ∀ id, s.pending id ≠ some c)
    (hstarted : (s.phase c).started = true → p.started = true)
    (hlistening : p.listening = true → (s.phase c).listening = true)
    (hdone : s.phase c = .done → p = .done) :
    Inv codec request (s.setPhase c p) := by
  have hstart := Connection.rel_setPhase (R := fun q q' => q.started = true → q'.started = true)
    (fun _ => id) hstarted
  -- frames on their way stay so: no caller begins to listen
  have hkeep : ∀ {n frame c'}, Carried codec request s n frame c' →
    Carried codec request (s.setPhase c p) n frame c' :=
    fun {_ _ c'} hcarried => hcarried.keep (prefix_refl _) (prefix_refl _)
      (Connection.rel_setPhase (R := fun q q' => q'.listening = true → q.listening = true)
        (fun _ => id) hlistening c')
  exact { h with
    entry := fun id c' hc' => by
      refine ⟨?_, (h.entry id c' hc').2⟩
      by_cases hc : c' = c
      · rw [hc, s.setPhase_self]
        exact hentry.resolve_right (fun hnone => hnone id (hc ▸ hc'))
      · rw [s.setPhase_of_ne p hc]
        exact (h.entry id c' hc').1
    current := fun c' hc' => h.current c'
      (Connection.rel_setPhase (R := fun q q' => q'.outstanding = true → q.outstanding = true)
        (fun _ => id) hcurrent c' hc')
    begun := fun c' hc' => hstart c' (h.begun c' hc')
    fresh := fun c' hc' =>
      h.fresh c' (Bool.eq_false_iff.mpr (fun hs => Bool.eq_false_iff.mp hc' (hstart c' hs)))
    hand := fun n frame c' hc' => ⟨hkeep (h.hand n frame c' hc').1, (h.hand n frame c' hc').2⟩
    carried := fun n frame c' hc' => hkeep (h.carried n frame c' hc')
    ended := fun q hq =>
      Connection.rel_setPhase (R := fun q q' => q = .done → q' = .done) (fun _ => id) hdone q.1
        (h.ended q hq) }

theorem Inv.leave (hentry : ∀ id, s.pending id ≠ some c) :
    Inv codec request (s.setPhase c .done) :=
  h.setPhase nofun (.inr hentry) (fun _ => rfl) nofun (fun _ => rfl)

theorem Inv.finish (hentry : ∀ id, s.pending id ≠ some c)
    (hdone : s.phase c ≠ .done) {r : Except CallError (Nat × (H × Bytes))}
    (hok : ∀ n frame, r = .ok (n, frame) → Answered codec request s n frame c) :
    Inv codec request (s.finish c r) := by
  have hleave := h.leave hentry
  exact { hleave with
    answered := fun n frame c' hc' => by
      rcases mem_append.mp hc' with hold | hnew
      · exact h.answered n frame c' hold
      · rw [mem_singleton, Prod.mk.injEq] at hnew
        rw [hnew.1]
        exact hok n frame hnew.2.symm
    ended := fun q hq => by
      rcases mem_append.mp hq with hold | hnew
      · exact hleave.ended q hold
      · rw [mem_singleton.mp hnew]
        exact update_self _ _ _
    once := by
      -- a caller with an outcome is done, and this one is not yet
      show ((s.outcomes ++ [(c, r)]).map Prod.fst).Nodup
      rw [map_append, map_singleton, nodup_append]
      refine ⟨h.once, nodup_singleton _, fun a ha b hb => ?_⟩
      obtain ⟨q, hq, rfl⟩ := mem_map.mp ha
      rw [mem_singleton.mp hb]
      intro hc
      have hcaller : q.1 = c := hc
      exact hdone (hcaller ▸ h.ended q hq) }

/-! ### Steps at the map -/

omit h in
theorem dropSender_eq_or (channel : Caller → OneShot H) (owner : Option Caller) (c : Caller) :
    Connection.dropSender channel owner c = channel c ∨
      (owner = some c ∧ Connection.dropSender channel owner c = .closed) := by
  cases owner with
  | none => exact .inl rfl
  | some c' =>
    by_cases hc : c = c'
    · rw [hc]
      exact .inr ⟨rfl, update_self _ _ _⟩
    · exact .inl (update_of_ne hc _ _)

theorem Inv.entry_of_update_none {id id' : UInt32}
    (hc : update s.pending id none id' = some c) : s.pending id' = some c
    ∧ s.pending id ≠ some c := by
  by_cases hid : id' = id
  · rw [hid, update_self] at hc
    exact nomatch hc
  · rw [update_of_ne hid] at hc
    refine ⟨hc, fun hc' => hid ?_⟩
    rw [← (h.entry id' c hc).2.1, (h.entry id c hc').2.1]

omit h in
theorem entry_of_update_some {pending : UInt32 → Option Caller} {id id' : UInt32}
    (h : update pending id (some c) id' = some c') : (id' = id ∧ c = c')
    ∨ pending id' = some c' := by
  by_cases hid : id' = id
  · rw [hid, update_self] at h
    exact .inl ⟨hid, Option.some.inj h⟩
  · rw [update_of_ne hid] at h
    exact .inr h

theorem Inv.remove (id : UInt32) : Inv codec request (s.remove id) := { h with
  entry := fun id' c hc => by
    obtain ⟨hpending, hother⟩ := h.entry_of_update_none hc
    refine ⟨(h.entry id' c hpending).1, (h.entry id' c hpending).2.1, ?_⟩
    rcases dropSender_eq_or s.channel (s.pending id) c with heq | ⟨howner, -⟩
    · exact heq.trans (h.entry id' c hpending).2.2
    · exact absurd howner hother
  fresh := fun c hc => by
    rcases dropSender_eq_or s.channel (s.pending id) c with heq | ⟨howner, -⟩
    · exact heq.trans (h.fresh c hc)
    · have hstarted := Phase.started_of_outstanding (h.entry id c howner).1
      exact nomatch hc.symm.trans hstarted
  hand := fun n frame c hc =>
    ⟨(h.hand n frame c hc).1, fun id' hpending => (h.hand n frame c hc).2 id'
      (h.entry_of_update_none hpending).1⟩
  carried := fun n frame c hc => by
    -- the sender that is dropped closes its channel, and a closed channel holds no frame
    rcases dropSender_eq_or s.channel (s.pending id) c with heq | ⟨-, hclosed⟩
    · exact h.carried n frame c (heq.symm.trans hc)
    · exact nomatch hclosed.symm.trans hc }

theorem Inv.drain : Inv codec request (s.drain codec request) := { h with
  entry := fun _ _ hc => nomatch hc
  fresh := fun c hc => by
    have hnone : ¬ s.pending (requestId codec request c) = some c := by
      intro hpending
      have hstarted := Phase.started_of_outstanding (h.entry _ c hpending).1
      exact nomatch hc.symm.trans hstarted
    exact (if_neg hnone).trans (h.fresh c hc)
  hand := fun n frame c hc => ⟨(h.hand n frame c hc).1, fun _ hpending => nomatch hpending⟩
  carried := fun n frame c hc => by
    change (if s.pending (requestId codec request c) = some c then OneShot.closed else s.channel c)
      = _ at hc
    split at hc
    · exact nomatch hc
    · exact h.carried n frame c hc }

theorem Inv.insert (hphase : s.phase c = .checked)
    (hdistinct : ∀ c', (s.phase c').outstanding = true → requestId codec request c' ≠ requestId
    codec request c) :
    Inv codec request ((s.insert (requestId codec request c) c).setPhase c .sending) := by
  let s' := (s.insert (requestId codec request c) c).setPhase c .sending
  have hnone : s.pending (requestId codec request c) = none := by
    cases hpending : s.pending (requestId codec request c) with
    | none => rfl
    | some c' => exact absurd (h.entry _ c' hpending).2.1 (hdistinct c' (h.entry _ c' hpending).1)
  have hchannel : s'.channel = s.channel := by
    show Connection.dropSender s.channel (s.pending (requestId codec request c)) = s.channel
    rw [hnone]
    rfl
  have hunstarted : (s.phase c).started = false := by
    rw [hphase]
    rfl
  have hnew : c ∉ s.issued := fun hc => Bool.false_ne_true (hunstarted.symm.trans (h.begun c hc))
  have hself : s'.phase c = .sending := Connection.setPhase_self _ c .sending
  have hother : ∀ {c'}, c' ≠ c → s'.phase c' = s.phase c' := fun hc =>
    Connection.setPhase_of_ne _ .sending hc
  have hkeep : ∀ {n frame c'}, Carried codec request s n frame c' →
    Carried codec request s' n frame c' := by
    intro n frame c' hcarried
    -- a frame is on its way to calls that were issued before
    have hne : c' ≠ c := by
      obtain ⟨a, -, -, hc', -⟩ := hcarried
      exact fun hc => hnew (hc ▸ hc')
    refine hcarried.keep (prefix_refl _) (prefix_append _ _) (fun hl => ?_)
    rwa [hother hne] at hl
  exact { h with
    entry := fun id c' hc' => by
      show (s'.phase c').outstanding = true ∧ _ ∧ s'.channel c' = .empty
      rw [hchannel]
      rcases entry_of_update_some hc' with ⟨hid, rfl⟩ | hold
      · rw [hself]
        exact ⟨rfl, hid.symm, h.fresh c hunstarted⟩
      · have hne : c' ≠ c := by
          rintro rfl
          rw [(h.entry id c' hold).2.1, hold] at hnone
          cases hnone
        rw [hother hne]
        exact h.entry id c' hold
    current := fun c' hc' => by
      change (s'.phase c').outstanding = true at hc'
      show c' ∈ s.issued ++ [c] ∧ _
      by_cases hc : c' = c
      · rw [hc]
        exact ⟨mem_append_right _ mem_cons_self, not_reused_of_new rfl hnew⟩
      · rw [hother hc] at hc'
        refine ⟨mem_append_left _ (h.current c' hc').1, fun hreused => ?_⟩
        rcases reused_of_append rfl hreused with hold | ⟨-, hid⟩
        · exact (h.current c' hc').2 hold
        · exact hdistinct c' hc' hid.symm
    begun := fun c' hc' => by
      show (s'.phase c').started = true
      rcases mem_append.mp hc' with hold | hlast
      · have hne : c' ≠ c := fun hc => hnew (hc ▸ hold)
        rw [hother hne]
        exact h.begun c' hold
      · rw [mem_singleton.mp hlast, hself]
        rfl
    fresh := fun c' hc' => by
      change (s'.phase c').started = false at hc'
      show s'.channel c' = .empty
      rw [hchannel]
      by_cases hc : c' = c
      · rw [hc]
        exact h.fresh c hunstarted
      · rw [hother hc] at hc'
        exact h.fresh c' hc'
    hand := fun n frame c' hc' => by
      obtain ⟨hcarried, hgone⟩ := h.hand n frame c' hc'
      refine ⟨hkeep hcarried, fun id hpending => ?_⟩
      rcases entry_of_update_some hpending with ⟨-, rfl⟩ | hold
      · obtain ⟨a, -, -, hissued, -⟩ := hcarried
        exact hnew hissued
      · exact hgone id hold
    carried := fun n frame c' hc' => by
      change s'.channel c' = _ at hc'
      rw [hchannel] at hc'
      exact hkeep (h.carried n frame c' hc')
    ended := fun q hq => by
      show s'.phase q.1 = .done
      have hne : q.1 ≠ c := fun hc => by
        have hdone := h.ended q hq
        rw [hc, hphase] at hdone
        exact nomatch hdone
      rw [hother hne]
      exact h.ended q hq }

/-! ### Steps of the receive task -/

theorem Inv.lookup {answers : Option Caller}
    (hanswers : ∀ c, answers = some c → Answers codec request s frame c) :
    Inv codec request (s.lookup (codec.getId frame.1) frame answers) := by
  have hkeep : ∀ {n frame' c}, Carried codec request s n frame' c →
      Carried codec request (s.lookup (codec.getId frame.1) frame answers) n frame' c :=
    fun hcarried => hcarried.keep (prefix_append _ _) (prefix_refl _) id
  exact { h with
    entry := fun id c hc => h.entry id c (h.entry_of_update_none hc).1
    hand := fun n frame' c hc => by
      change (s.pending (codec.getId frame.1)).map (fun c => (s.arrivals.length, frame, c)) = some
        (n, frame', c) at hc
      obtain ⟨c', hpending, htriple⟩ := Option.map_eq_some_iff.mp hc
      obtain ⟨rfl, rfl, rfl⟩ : s.arrivals.length = n ∧ frame = frame' ∧ c' = c := by
        simpa only [Prod.mk.injEq] using htriple
      obtain ⟨houtstanding, hid, -⟩ := h.entry _ c' hpending
      obtain ⟨hissued, hreused⟩ := h.current c' houtstanding
      refine ⟨⟨⟨frame, answers, s.phase, s.pending (codec.getId frame.1)⟩, ?_, ?_, hissued,
        fun hl => hl⟩, ?_⟩
      · exact List.getElem?_concat_length
      · refine ⟨rfl, hpending, hid.symm, fun c'' hc'' => ?_⟩
        -- the call that is answered and the one that is waiting were not followed by one with their
        -- id
        obtain ⟨hid'', hissued'', hreused''⟩ := hanswers c'' hc''
        exact eq_of_not_reused hissued'' hissued hreused'' hreused (hid''.symm.trans hid.symm)
      · exact fun id hleft => (h.entry_of_update_none hleft).2 hpending
    carried := fun n frame' c hc => hkeep (h.carried n frame' c hc)
    answered := fun n frame' c hc => by
      obtain ⟨a, ha, htaken, hlistening⟩ := h.answered n frame' c hc
      refine ⟨a, ?_, htaken, hlistening⟩
      exact (List.getElem?_append_left (List.getElem?_eq_some_iff.mp ha).1).trans ha }

theorem Inv.deliver
    (hhand : s.inHand = some (n, frame, c)) : Inv codec request (s.deliver n frame c) := by
  obtain ⟨hcarried, hgone⟩ := h.hand n frame c hhand
  -- only the channel of the caller in hand can change
  have hother : ∀ {c'}, c' ≠ c → (s.deliver n frame c).channel c' = s.channel c' := by
    intro c' hc
    show (if (s.phase c).listening then update s.channel c (.value n frame) else s.channel) c' = _
    split
    · exact update_of_ne hc _ _
    · rfl
  exact { h with
    entry := fun id c' hc' => by
      have hne : c' ≠ c := fun hc => hgone id (hc ▸ hc')
      rw [hother hne]
      exact h.entry id c' hc'
    fresh := fun c' hc' => by
      have hne : c' ≠ c := fun hc => by
        obtain ⟨a, -, -, hissued, -⟩ := hcarried
        have hstarted : (s.phase c').started = true := h.begun c' (hc ▸ hissued)
        exact nomatch hc'.symm.trans hstarted
      rw [hother hne]
      exact h.fresh c' hc'
    hand := fun _ _ _ hc' => nomatch hc'
    carried := fun n' frame' c' hc' => by
      by_cases hc : c' = c
      · change (if (s.phase c).listening then update s.channel c (.value n frame) else s.channel) c'
          = .value n' frame' at hc'
        rw [hc] at hc' ⊢
        split at hc'
        · rw [update_self] at hc'
          obtain ⟨rfl, rfl⟩ := OneShot.value.inj hc'
          exact hcarried
        · exact h.carried n' frame' c hc'
      · rw [hother hc] at hc'
        exact h.carried n' frame' c' hc' }

/-! ## §4. Every run -/

theorem step_inv (hstep : Step codec request s s') :
    Inv codec request s' := by
  have hnoEntry : ∀ {c}, (s.phase c).outstanding = false → ∀ id, s.pending id ≠ some c := by
    intro c hc id hpending
    exact nomatch hc.symm.trans (h.entry id c hpending).1
  have hsent : ∀ {c}, s.channel c ≠ .empty → ∀ id, s.pending id ≠ some c :=
    fun hc id hpending => hc (h.entry id _ hpending).2.2
  have hremoved : ∀ c id, (s.remove (requestId codec request c)).pending id ≠ some c := by
    intro c id hpending
    obtain ⟨hleft, hnone⟩ := h.entry_of_update_none hpending
    rw [(h.entry id c hleft).2.1] at hnone
    exact hnone hleft
  cases hstep with
  | refuse c hphase _ =>
    exact h.finish (hnoEntry (by rw [hphase]; rfl)) (by rw [hphase]; nofun)
      (fun _ _ hr => nomatch hr)
  | check c hphase _ =>
    exact h.setPhase nofun (.inr (hnoEntry (by rw [hphase]; rfl))) (by rw [hphase]; decide) nofun
      (by rw [hphase]; nofun)
  | insert c hphase hdistinct => exact h.insert hphase hdistinct
  | sent c hphase =>
    exact h.setPhase (by rw [hphase]; decide) (.inl rfl) (fun _ => rfl) (by rw [hphase]; decide)
      (by rw [hphase]; nofun)
  | sendFailed c hphase =>
    exact h.setPhase (by rw [hphase]; decide) (.inl rfl) (fun _ => rfl) nofun
      (by rw [hphase]; nofun)
  | arrive frame answers _ hanswers => exact h.lookup hanswers
  | deliver n frame c hhand => exact h.deliver hhand
  | close => exact { h with }
  | drain => exact h.drain
  | resolve c n frame hphase hchannel =>
    -- the caller has listened up to now, so it did when the frame arrived
    refine h.finish (hsent (by rw [hchannel]; nofun)) (by rw [hphase]; nofun) ?_
    intro n' frame' hr
    obtain ⟨rfl, rfl⟩ : n = n' ∧ frame = frame' := by simpa using hr
    obtain ⟨a, ha, htaken, -, hwas⟩ := h.carried n frame c hchannel
    exact ⟨a, ha, htaken, hwas (by rw [hphase]; rfl)⟩
  | resolveClosed c hphase hchannel =>
    exact h.finish (hsent (by rw [hchannel]; nofun)) (by rw [hphase]; nofun)
      (fun _ _ hr => nomatch hr)
  | timeout c hphase =>
    exact h.setPhase (by rw [hphase]; decide) (.inl rfl) (fun _ => rfl) nofun
      (by rw [hphase]; nofun)
  | cancel c hphase =>
    refine h.setPhase (fun _ => Phase.outstanding_of_listening hphase) (.inl rfl) (fun _ => rfl)
      (fun _ => hphase) ?_
    intro hdone
    rw [hdone] at hphase
    nomatch hphase
  | fail c e hphase =>
    refine (h.remove _).finish (hremoved c) ?_ (fun _ _ hr => nomatch hr)
    show s.phase c ≠ .done
    rw [hphase]
    nofun
  | cancelled c hphase => exact (h.remove _).leave (hremoved c)

def Waiting (s : Connection H) (c : Caller) : Prop := (s.phase c).outstanding = true

def HandedTo (s : Connection H) (n : Nat) (c : Caller) : Prop :=
  (∃ frame, s.channel c = .value n frame) ∨ ∃ frame, (c, .ok (n, frame)) ∈ s.outcomes

theorem Inv.taker_of_handedTo (hhanded : HandedTo s n c) :
    ∃ a, s.arrivals[n]? = some a ∧ a.taker = some c := by
  rcases hhanded with ⟨frame, hchannel⟩ | ⟨frame, houtcome⟩
  · obtain ⟨a, ha, htaken, -⟩ := h.carried n frame c hchannel
    exact ⟨a, ha, htaken.taker_eq⟩
  · obtain ⟨a, ha, htaken, -⟩ := h.answered n frame c houtcome
    exact ⟨a, ha, htaken.taker_eq⟩

omit h in
/-- ★ **Responses reach only the request they answer.** In every state of every run: a caller has at
    most one outcome; a frame that is an outcome has the caller's id, answers no other call, and
    arrived while the caller was listening; no frame is handed to two callers; and when no caller
    waits, the map is empty. -/
theorem responses_reach_their_request (hreach : (connection codec request).Reachable s) :
    (s.outcomes.map Prod.fst).Nodup ∧
    (∀ c n frame, (c, .ok (n, frame)) ∈ s.outcomes →
      ∃ a, s.arrivals[n]? = some a ∧ a.frame = frame ∧ codec.getId frame.1 = requestId codec request
        c ∧
        (a.phases c).listening = true ∧ ∀ c', a.answers = some c' → c' = c) ∧
    (∀ n c c', HandedTo s n c → HandedTo s n c' → c = c') ∧
    ((∀ c, ¬ Waiting s c) → ∀ id, s.pending id = none) := by
  have hinv : Inv codec request s := by
    apply hreach.invariant
    · intro s hs
      rw [show s = Connection.new from hs]
      exact inv_new
    · intro s s' h hstep
      exact step_inv h hstep
  refine ⟨hinv.once, ?_, ?_, ?_⟩
  · intro c n frame houtcome
    obtain ⟨a, ha, htaken, hlistening⟩ := hinv.answered n frame c houtcome
    exact ⟨a, ha, htaken.frame_eq, htaken.id_eq, hlistening, htaken.answers_eq⟩
  · intro n c c' hc hc'
    obtain ⟨a, ha, htaker⟩ := hinv.taker_of_handedTo hc
    obtain ⟨a', ha', htaker'⟩ := hinv.taker_of_handedTo hc'
    obtain rfl : a = a' := Option.some.inj (ha.symm.trans ha')
    exact Option.some.inj (htaker.symm.trans htaker')
  · intro hnone id
    cases hpending : s.pending id with
    | none => rfl
    | some c => exact absurd (hinv.entry id c hpending).1 (hnone c)

end

/-! ## §5. A sample run -/

def sampleRequest (c : Caller) : Frame MessageHeader := ⟨sampleHeader (UInt32.ofNat c) 0 0, []⟩

def sampleResponse : MessageHeader × Bytes := (sampleHeader 0 1 1, [50])

def sampleWaiting : Connection MessageHeader :=
  (((Connection.new.setPhase 0 .checked).insert 0 0).setPhase 0 .sending).setPhase 0 .waiting

def sampleAnswered : Connection MessageHeader :=
  (((sampleWaiting.lookup 0 sampleResponse (some 0)).deliver 0 sampleResponse 0).lookup 0
    sampleResponse (some 0)).finish 0 (.ok (0, sampleResponse))

theorem sampleWaiting_reachable :
    (connection (bssHeader countingHash) sampleRequest).Reachable sampleWaiting := by
  have hnew : (connection (bssHeader countingHash) sampleRequest).Reachable Connection.new :=
    .init rfl
  have hchecked := hnew.step (.check 0 rfl rfl)
  have hinserted := hchecked.step (.insert 0 rfl (by
    intro c' hc'
    by_cases hc : c' = 0
    · rw [hc] at hc'
      exact nomatch hc'
    · change (update (fun _ => Phase.idle) 0 Phase.checked c').outstanding = true at hc'
      rw [update_of_ne hc] at hc'
      exact nomatch hc'))
  exact hinserted.step (.sent 0 rfl)

theorem sample_answers {s : Connection MessageHeader} (hissued : s.issued = [0]) (c : Caller)
    (hc : some 0 = some c) :
    Answers (bssHeader countingHash) sampleRequest s sampleResponse c := by
  obtain rfl := Option.some.inj hc
  refine ⟨rfl, hissued ▸ mem_cons_self, ?_⟩
  rintro ⟨earlier, later, c', hsplit, hlater, -⟩
  have hlength := congrArg List.length (hissued.symm.trans hsplit)
  simp only [length_append, length_cons, length_nil] at hlength
  have hnil : later = [] := eq_nil_of_length_eq_zero (by omega)
  rw [hnil] at hlater
  exact absurd hlater not_mem_nil

theorem sampleAnswered_reachable :
    (connection (bssHeader countingHash) sampleRequest).Reachable sampleAnswered := by
  have harrived :=
    sampleWaiting_reachable.step (.arrive sampleResponse (some 0) rfl (sample_answers rfl))
  have hdelivered := harrived.step (.deliver 0 sampleResponse 0 rfl)
  have hagain := hdelivered.step (.arrive sampleResponse (some 0) rfl (sample_answers rfl))
  exact hagain.step (.resolve 0 0 sampleResponse rfl rfl)

theorem responses_reach_their_request_at_sample :
    sampleAnswered.outcomes = [(0, .ok (0, sampleResponse))] ∧ sampleAnswered.arrivals.length = 2 ∧
      ∀ id, sampleAnswered.pending id = none := by
  refine ⟨rfl, rfl, (responses_reach_their_request sampleAnswered_reachable).2.2.2 ?_⟩
  intro c hwaiting
  have hphase : sampleAnswered.phase c = .done ∨ sampleAnswered.phase c = .idle := by
    by_cases hc : c = 0
    · rw [hc]
      exact .inl rfl
    · simp [sampleAnswered, sampleWaiting, Connection.finish, Connection.lookup, Connection.deliver,
        Connection.setPhase, Connection.insert, Connection.new, update_of_ne hc]
  unfold Waiting at hwaiting
  rcases hphase with h | h <;> rw [h] at hwaiting <;> exact Bool.false_ne_true hwaiting

end FractalBits.Rpc
