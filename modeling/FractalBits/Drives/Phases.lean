/-
  Drives.Phases — where a sweeper is with its lease.
-/

import FractalBits.Drives.Sweeper

namespace FractalBits.Drives

open Lib

/-! ## §1. Phases -/

/-- Where a sweeper is. `written` is its last lease write, with the version it expects, and `handle`
    the record it goes on with. -/
inductive Phase
  | idle (read : Option (Versioned Drive))
  | slot (read : Versioned Drive)
  | minted (read : Versioned Drive) (token : Bytes)
  | writing (written : Versioned Drive)
  | holding (written handle : Versioned Drive)
  | lost (written : Versioned Drive)
  | dropping (written handle : Versioned Drive)
  | gone (written : Versioned Drive)
  | finished (written : Option (Versioned Drive))

def IsWrite (written stored : Drive) : Prop :=
  stored.id = written.id ∧ stored.sweepToken = written.sweepToken
    ∧ stored.sweepHeartbeatMs = written.sweepHeartbeatMs

instance (written stored : Drive) : Decidable (IsWrite written stored) :=
    inferInstanceAs (Decidable (_ ∧ _ ∧ _))

def LeaseOf (drive other : Drive) (token : Bytes) : Prop := SameIncarnation drive other
    ∧ drive.sweepToken = token

/-- A write that may follow in the phase: the first one of a lease, the same one again, or a renewal
    with a later heartbeat. -/
def Phase.MayWrite (w : Versioned Drive) : Phase → Prop
  | .minted read token => w.version = read.version ∧ LeaseOf w.data read.data token
  | .writing written => w = written
  | .holding _ handle =>
    w.version = handle.version ∧ LeaseOf w.data handle.data handle.data.sweepToken
    ∧ handle.data.sweepHeartbeatMs < w.data.sweepHeartbeatMs
  | _ => False

def Phase.Ends (outcome : Outcome) : Phase → Prop
  | .lost _ => outcome = .leaseLost ∨ outcome = .failed
  | .holding _ _ | .dropping _ _ => outcome = .failed
  | .gone _ => outcome = .done ∨ outcome = .stale
  | _ => False

def Phase.Reports (outcome : LeaseWrite) (w h : Versioned Drive) : Phase → Prop
  | .holding written handle => outcome = .landed ∧ w = written ∧ h = handle
  | .lost written => outcome = .lost ∧ w = written ∧ h = written
  | .writing written => outcome = .unknown ∧ w = written ∧ h = written
  | _ => False

def Phase.Allows (process i : Nat) (g : Phase) : Op → Prop
  | .put who w => who = i ∧ g.MayWrite w
  | .get who none => who = i ∧ ((∃ read, g = .idle read) ∨ ∃ w h, g = .dropping w h)
  | .get who (some w) => who = i ∧ g = .writing w
  | .delete who version => who = i ∧ ((∃ read, g = .idle read)
    ∨ ∃ w h, (g = .holding w h ∨ g = .dropping w h) ∧ version = h.version)
  | .unixMs | .choose => True
  | .newToken who => who = i ∧ ∃ read, g = .slot read
  | .register p => p = process ∧ ∃ read, g = .idle (some read)
  | .release p who outcome => p = process ∧ who = i ∧ g.Ends outcome
  | .report who outcome w h => who = i ∧ g.Reports outcome w h
  | .deliver _ | .tick | .crash _ => False

def Phase.afterPut (w : Versioned Drive) : Except RpcError Int → Phase
  | .ok version => .holding w ⟨version, w.data⟩
  | .error _ => .writing w

def Phase.afterReadBack (w : Versioned Drive) : Except RpcError (Versioned Drive) → Phase
  | .ok a => if IsWrite w.data a.data then .holding w a else .lost w
  | .error .notFound => .lost w
  | .error _ => .writing w

def Phase.afterRead (g : Phase) : Except RpcError (Versioned Drive) → Phase
  | .ok a =>
    match g with
    | .idle _ => .idle (some a)
    | .dropping w h => if SameIncarnation a.data h.data then .dropping w a else .gone w
    | g => g
  | .error .notFound =>
    match g with
    | .dropping w _ => .gone w
    | g => g
  | .error _ => g

def Phase.afterDelete (g : Phase) : Except RpcError Unit → Phase
  | .ok () =>
    match g with
    | .holding w _ | .dropping w _ => .gone w
    | g => g
  | .error _ =>
    match g with
    | .holding w h => .dropping w h
    | g => g

def Phase.written? : Phase → Option (Versioned Drive)
  | .writing w | .holding w _ | .lost w | .dropping w _ | .gone w => some w
  | .finished w => w
  | .idle _ | .slot _ | .minted _ _ => none

def Phase.advance (g : Phase) : (op : Op) → Ans op → Phase
  | .put _ w, ans => Phase.afterPut w ans
  | .get _ none, ans => g.afterRead ans
  | .get _ (some w), ans => Phase.afterReadBack w ans
  | .delete _ _, ans => g.afterDelete ans
  | .newToken _, token =>
    match g with
    | .slot read => .minted read token
    | g => g
  | .register _, registered =>
    match g with
    | .idle (some read) => if (show Bool from registered) then .slot read else .finished none
    | g => g
  | .release _ _ _, _ => .finished g.written?
  | _, _ => g

def sweeping (process i : Nat) : Protocol Op Ans Phase where
  possible _ _ := True
  allowed g op := g.Allows process i op
  advance := Phase.advance

def Op.Bystands (i : Nat) : Op → Prop
  | .put who w => who = i ∧ w.data.sweepToken = []
  | .get who _ | .delete who _ => who = i
  | .unixMs | .choose | .deliver _ | .tick | .crash _ => True
  | .newToken _ | .register _ | .release _ _ _ | .report _ _ _ _ => False

def bystanding (i : Nat) : Protocol Op Ans Phase where
  possible _ _ := True
  allowed _ op := op.Bystands i
  advance g _ _ := g

def Agent.protocol (i : Nat) : Agent → Protocol Op Ans Phase
  | .force process _ => sweeping process i
  | .create _ _ | .drop | .network _ | .time | .crash _ => bystanding i

/-! ## §2. Calls -/

section

variable {process i : Nat} {g : Phase} {w : Versioned Drive} {op : Op}

variable (read : Option (Versioned Drive))

theorem afterDelete_idle (ans : Except RpcError Unit) :
     (Phase.idle read).afterDelete ans = .idle read := by
  cases ans <;> rfl

theorem afterRead_idle (ans : Except RpcError (Versioned Drive)) :
    ∃ read', (Phase.idle read).afterRead ans = .idle read' ∧ ∀ a, read' = some a → ans = .ok a
      ∨ read = some a := by
  cases ans with
  | ok a => exact ⟨some a, rfl, fun b hb => .inl (by rw [Option.some.inj hb])⟩
  | error e => exact ⟨read, by cases e <;> rfl, fun _ ha => .inr ha⟩

theorem sweeper_of_allowed {agent : Agent} (hop : (agent.protocol i).allowed g op)
    (hnot : ¬ op.Bystands i) :
    ∃ process rounds, agent = .force process rounds ∧ g.Allows process i op := by
  cases agent with
  | force process rounds => exact ⟨process, rounds, rfl, hop⟩
  | _ => exact absurd hop hnot

theorem follows_unixMs {α : Type} {Q : Phase → α → Prop} {f : Nat → Call α}
    (h : ∀ now, (f now).Follows (sweeping process i) Q g) :
    (unixMs >>= f).Follows (sweeping process i) Q g :=
  ⟨trivial, fun now _ => h now⟩

theorem follows_choose {α : Type} {Q : Phase → α → Prop} {f : Nat → Call α}
    (h : ∀ n, (f n).Follows (sweeping process i) Q g) :
    (choose >>= f).Follows (sweeping process i) Q g :=
  ⟨trivial, fun n _ => h n⟩

theorem follows_getDrive_idle :
    (getDrive i none).Follows (sweeping process i)
      (fun g r => ∃ read, g = .idle read ∧ ∀ a, r = .ok (some a) → read = some a) (.idle read) := by
  -- each attempt may fail, and the phase then still says what was read before
  refine follows_getDrive (R := fun g => ∃ read, g = .idle read) ?_ ⟨read, rfl⟩
  rintro _ ⟨read, rfl⟩
  refine ⟨⟨rfl, .inl ⟨read, rfl⟩⟩, fun ans => ?_⟩
  cases ans with
  | ok a =>
    refine ⟨⟨some a, rfl, fun b hb => ?_⟩, nofun⟩
    cases hb
    rfl
  | error e =>
    cases e with
    | notFound | retry | transport => exact ⟨⟨read, rfl, nofun⟩, fun _ _ _ => ⟨read, rfl⟩⟩

theorem follows_drop_idle (tries : Nat) (drive : Versioned Drive)
    (read : Option (Versioned Drive)) :
    (dropStaleRecord i tries drive).Follows (sweeping process i) (fun _ _ => True)
      (.idle read) := by
  refine follows_drop (fun _ g => ∃ read, g = .idle read) (fun _ g => ∃ read, g = .idle read)
    (fun _ _ _ => trivial) ?_ ?_ tries ⟨read, rfl⟩
  · intro drive g hg
    refine follows_rssRpcRetry (R := fun g => ∃ read, g = .idle read) ?_ 3 hg
    rintro _ ⟨read, rfl⟩
    refine ⟨⟨rfl, .inl ⟨read, rfl⟩⟩, fun ans _ => ?_⟩
    cases ans with
    | ok u => exact ⟨⟨nofun, fun _ => trivial⟩, nofun⟩
    | error e => exact ⟨⟨fun _ => ⟨read, rfl⟩, fun _ => trivial⟩, fun _ _ _ => ⟨read, rfl⟩⟩
  · rintro drive _ ⟨read, rfl⟩
    refine (follows_getDrive_idle read).mono ?_
    rintro _ r ⟨read, rfl, -⟩
    match r with
    | .error e => trivial
    | .ok none => trivial
    | .ok (some a) =>
      dsimp only
      split
      · exact ⟨read, rfl⟩
      · trivial

/-! ## §3. Lease writes -/

theorem follows_putLease (hg : g.MayWrite w) :
    (putDrive i w).Follows (sweeping process i)
      (fun g r => match r with
        | .ok h => g = .holding w h
        | .error _ => g = .writing w) g := by
  have hput : (rssRpcRetry (perform (Op.put i w)) 3).Follows (sweeping process i)
      (fun g r => match r with
        | .ok version => g = .holding w ⟨version, w.data⟩
        | .error _ => g = .writing w) g := by
    refine follows_rssRpcRetry (R := fun g => g.MayWrite w) ?_ 3 hg
    intro g hg
    refine ⟨⟨rfl, hg⟩, fun ans _ => ?_⟩
    cases ans with
    | ok version => exact ⟨rfl, nofun⟩
    | error e => exact ⟨rfl, fun _ _ _ => rfl⟩
  unfold putDrive
  refine hput.seq ?_
  intro g r hr
  cases r with
  | ok version => exact hr
  | error e => exact hr

def Tells (w : Versioned Drive) (g : Phase) : LeaseWrite × Versioned Drive → Prop
  | (.landed, h) => g = .holding w h
  | (.lost, w') => w' = w ∧ g = .lost w
  | (.unknown, w') => w' = w ∧ g = .writing w

theorem reconcileLease_some (w a : Versioned Drive) :
    reconcileLease w (some a) = if IsWrite w.data a.data then some a else none := by
  unfold reconcileLease
  rw [Option.filter_some]
  by_cases h : IsWrite w.data a.data
  · rw [if_pos h]
    simp [h.1, h.2.1, h.2.2]
  · rw [if_neg h, if_neg]
    intro hall
    exact h (by simpa [IsWrite, and_assoc] using hall)

theorem follows_readBack (w : Versioned Drive) :
    (getDrive i (some w)).Follows (sweeping process i)
      (fun g r => Tells w g (afterUncertainWrite w r)) (.writing w) := by
  -- only an attempt without an answer is made again, and it leaves the phase `writing`
  refine follows_getDrive (R := fun g => g = .writing w) ?_ rfl
  rintro _ rfl
  refine ⟨⟨rfl, rfl⟩, fun ans => ?_⟩
  cases ans with
  | ok a =>
    refine ⟨?_, nofun⟩
    show Tells w (Phase.afterReadBack w (.ok a)) (afterUncertainWrite w (.ok (some a)))
    unfold afterUncertainWrite Phase.afterReadBack
    dsimp only
    rw [reconcileLease_some]
    by_cases h : IsWrite w.data a.data
    · rw [if_pos h, if_pos h]
      rfl
    · rw [if_neg h, if_neg h]
      exact ⟨rfl, rfl⟩
  | error e =>
    cases e with
    | notFound | retry => exact ⟨⟨rfl, rfl⟩, nofun⟩
    | transport => exact ⟨⟨rfl, rfl⟩, fun _ _ _ => rfl⟩

theorem follows_reported {r : LeaseWrite × Versioned Drive} (h : Tells w g r) :
    (reported i w r).Follows (sweeping process i) (Tells w) g := by
  refine ⟨⟨rfl, ?_⟩, fun _ _ => h⟩
  obtain ⟨outcome, handle⟩ := r
  cases outcome with
  | landed =>
    have h : g = .holding w handle := h
    rw [h]
    exact ⟨rfl, rfl, rfl⟩
  | lost =>
    obtain ⟨rfl, rfl⟩ := h
    exact ⟨rfl, rfl, rfl⟩
  | unknown =>
    obtain ⟨rfl, rfl⟩ := h
    exact ⟨rfl, rfl, rfl⟩

theorem follows_writeLease (hg : g.MayWrite w) :
    (writeLease i w).Follows (sweeping process i) (Tells w) g := by
  unfold writeLease
  refine (follows_putLease hg).seq ?_
  intro g r hr
  cases r with
  | ok h => exact follows_reported hr
  | error e =>
    have hr : g = .writing w := hr
    subst hr
    exact (follows_readBack w).seq fun g read hread => follows_reported hread

def Kept (g : Phase) : Option (Bool × Versioned Drive) → Prop
  | none => True
  | some (true, h) => ∃ w, g = .holding w h
  | some (false, _) => ∃ w, g = .lost w

theorem follows_settleLease (w : Versioned Drive) (rounds : Nat) :
    (settleLease i w rounds).Follows (sweeping process i) Kept (.writing w) := by
  induction rounds with
  | zero => trivial
  | succ rounds ih =>
    unfold settleLease
    refine (follows_readBack w).seq fun g read hread => ?_
    refine (follows_reported hread).seq fun g r hr => ?_
    obtain ⟨outcome, handle⟩ := r
    cases outcome with
    | landed => exact ⟨w, hr⟩
    | lost => exact ⟨w, hr.2⟩
    | unknown =>
      obtain ⟨rfl, rfl⟩ := hr
      exact ih

theorem mayWrite_renewed (w h : Versioned Drive) (now : Nat) :
    (Phase.holding w h).MayWrite (renewed h now) := by
  refine ⟨rfl, ⟨⟨rfl, rfl⟩, rfl⟩, ?_⟩
  show h.data.sweepHeartbeatMs < max now (h.data.sweepHeartbeatMs + 1)
  omega

variable (rounds : Nat)

theorem follows_renew (w h : Versioned Drive) :
    (renew i rounds h).Follows (sweeping process i) Kept (.holding w h) := by
  unfold renew
  refine follows_unixMs fun now => ?_
  refine (follows_writeLease (mayWrite_renewed w h now)).seq fun g r hr => ?_
  obtain ⟨outcome, handle⟩ := r
  cases outcome with
  | landed => exact ⟨_, hr⟩
  | lost => exact ⟨_, hr.2⟩
  | unknown =>
    obtain ⟨rfl, rfl⟩ := hr
    exact follows_settleLease _ rounds

/-! ## §4. Sweeps -/

theorem follows_deleteBatch (w h : Versioned Drive) :
    (deleteBatch i rounds h).Follows (sweeping process i)
      (fun g r => match r with
        | none => True
        | some ((_, true), h) => ∃ w, g = .holding w h
        | some ((_, false), _) => ∃ w, g = .lost w) (.holding w h) := by
  induction rounds generalizing w h with
  | zero => trivial
  | succ rounds ih =>
    unfold deleteBatch
    refine follows_choose fun n => ?_
    split
    · exact ⟨w, rfl⟩
    · exact ⟨w, rfl⟩
    · refine (follows_renew rounds w h).seq fun g r hr => ?_
      cases r with
      | none => trivial
      | some kept =>
        obtain ⟨held, handle⟩ := kept
        cases held with
        | true =>
          obtain ⟨w', rfl⟩ := hr
          exact ih w' handle
        | false =>
          obtain ⟨w', rfl⟩ := hr
          exact follows_choose fun _ => ⟨w', rfl⟩

def Went (g : Phase) : Option (Outcome ⊕ Versioned Drive) → Prop
  | none => True
  | some (.inl outcome) => g.Ends outcome
  | some (.inr h) => ∃ w, g = .holding w h

theorem follows_sweepBatches (rounds batches : Nat) (w h : Versioned Drive) :
    (sweepBatches i rounds batches h).Follows (sweeping process i) Went (.holding w h) := by
  induction batches generalizing w h with
  | zero => exact ⟨w, rfl⟩
  | succ batches ih =>
    unfold sweepBatches
    refine (follows_renew rounds w h).seq fun g r hr => ?_
    cases r with
    | none => trivial
    | some kept =>
      obtain ⟨held, handle⟩ := kept
      cases held with
      | false =>
        obtain ⟨w', rfl⟩ := hr
        exact .inl rfl
      | true =>
        obtain ⟨w', rfl⟩ := hr
        refine (follows_deleteBatch rounds w' handle).seq fun g r hr => ?_
        -- an error of a delete, a key that is not authorized any more, a lost lease, or the next
        -- batch
        match r, hr with
        | none, _ => trivial
        | some ((false, true), _), hr =>
          obtain ⟨w'', rfl⟩ := hr
          exact (rfl : Outcome.failed = .failed)
        | some ((false, false), _), hr =>
          obtain ⟨w'', rfl⟩ := hr
          exact .inr rfl
        | some ((true, false), _), hr =>
          obtain ⟨w'', rfl⟩ := hr
          exact .inl rfl
        | some ((true, true), handle), hr =>
          obtain ⟨w'', rfl⟩ := hr
          exact ih w'' handle

theorem follows_sweepPages (rounds pages : Nat) (w h : Versioned Drive) :
    (sweepPages i rounds pages h).Follows (sweeping process i) Went (.holding w h) := by
  induction pages generalizing w h with
  | zero => trivial
  | succ pages ih =>
    unfold sweepPages
    refine follows_choose fun authorized => ?_
    split
    · exact (rfl : Outcome.failed = .failed)
    · refine follows_choose fun page => ?_
      split
      · exact (rfl : Outcome.failed = .failed)
      · exact ⟨w, rfl⟩
      · next batches =>
          refine (follows_sweepBatches rounds (batches + 1) w h).seq fun g r hr => ?_
          match r, hr with
          | none, _ => trivial
          | some (.inl outcome), hr => exact hr
          | some (.inr handle), hr =>
            obtain ⟨w', rfl⟩ := hr
            exact ih w' handle

theorem follows_drop_held (tries : Nat) {h : Versioned Drive} (hg : g = .holding w h
    ∨ g = .dropping w h) :
    (dropStaleRecord i tries h).Follows (sweeping process i)
      (fun g r => match r with
        | .ok () => g = .gone w
        | .error _ => ∃ h, g = .holding w h ∨ g = .dropping w h) g := by
  refine follows_drop (fun h g => g = .holding w h ∨ g = .dropping w h)
    (fun h g => g = .dropping w h) (fun h _ hg => ⟨h, hg⟩) ?_ ?_ tries hg
  · -- a retried deletion starts in `holding` the first time and in `dropping` from then on
    intro h g hg
    refine follows_rssRpcRetry (R := fun g => g = .holding w h ∨ g = .dropping w h) ?_ 3 hg
    intro g hg
    have hallowed : (sweeping process i).allowed g (.delete i h.version) :=
      ⟨rfl, .inr ⟨w, h, hg, rfl⟩⟩
    refine ⟨hallowed, fun ans _ => ?_⟩
    cases ans with
    | ok u =>
      rcases hg with rfl | rfl
      · exact ⟨⟨nofun, fun _ => rfl⟩, nofun⟩
      · exact ⟨⟨nofun, fun _ => rfl⟩, nofun⟩
    | error e =>
      rcases hg with rfl | rfl
      · exact ⟨⟨fun _ => rfl, fun _ => ⟨h, .inr rfl⟩⟩, fun _ _ _ => .inr rfl⟩
      · exact ⟨⟨fun _ => rfl, fun _ => ⟨h, .inr rfl⟩⟩, fun _ _ _ => .inr rfl⟩
  · -- another incarnation that was created meanwhile: the one to drop is gone
    rintro h _ rfl
    refine follows_getDrive (R := fun g => g = .dropping w h) ?_ rfl
    rintro _ rfl
    refine ⟨⟨rfl, .inr ⟨w, h, rfl⟩⟩, fun ans => ?_⟩
    cases ans with
    | ok a =>
      refine ⟨?_, nofun⟩
      show if _ then _ else _
      by_cases hsame : SameIncarnation a.data h.data
      · rw [if_pos hsame]
        exact .inr (if_pos hsame)
      · rw [if_neg hsame]
        exact if_neg hsame
    | error e =>
      cases e with
      | notFound => exact ⟨rfl, nofun⟩
      | retry => exact ⟨⟨h, .inr rfl⟩, nofun⟩
      | transport => exact ⟨⟨h, .inr rfl⟩, fun _ _ _ => rfl⟩

def Ended (g : Phase) : Option Outcome → Prop
  | none => True
  | some outcome => g.Ends outcome

theorem follows_dropAnd {outcome : Outcome} (houtcome : outcome = .done ∨ outcome = .stale)
    (w h : Versioned Drive) :
    (dropAnd i outcome h).Follows (sweeping process i) Ended (.holding w h) := by
  unfold dropAnd
  refine (follows_drop_held 3 (.inl rfl)).seq fun g r hr => ?_
  cases r with
  | ok u =>
    have hr : g = .gone w := hr
    subst hr
    exact houtcome
  | error e =>
    obtain ⟨h', rfl | rfl⟩ := hr
    · exact (rfl : Outcome.failed = .failed)
    · exact (rfl : Outcome.failed = .failed)

theorem follows_sweep (w h : Versioned Drive) :
    (sweep i rounds h).Follows (sweeping process i) Ended (.holding w h) := by
  unfold sweep
  refine follows_choose fun bucket => ?_
  split
  · exact (rfl : Outcome.failed = .failed)
  · exact follows_dropAnd (.inr rfl) w h
  · refine follows_choose fun client => ?_
    split
    · exact (rfl : Outcome.failed = .failed)
    · refine (follows_sweepPages rounds rounds w h).seq fun g r hr => ?_
      match r, hr with
      | none, _ => trivial
      | some (.inl outcome), hr => exact hr
      | some (.inr handle), hr =>
        obtain ⟨w', rfl⟩ := hr
        refine follows_choose fun authorized => ?_
        split
        · exact (rfl : Outcome.failed = .failed)
        · -- the lease is renewed once more before the record is dropped
          refine (follows_renew rounds w' handle).seq fun g r hr => ?_
          match r, hr with
          | none, _ => trivial
          | some (false, _), hr =>
            obtain ⟨w'', rfl⟩ := hr
            exact .inl rfl
          | some (true, handle), hr =>
            obtain ⟨w'', rfl⟩ := hr
            refine follows_choose fun deleted => ?_
            split
            · exact (rfl : Outcome.failed = .failed)
            · exact follows_dropAnd (.inr rfl) w'' handle
            · exact follows_dropAnd (.inl rfl) w'' handle

/-! ## §5. Agents -/

theorem follows_sweepAndRelease (w h : Versioned Drive) :
    (sweepAndRelease i process rounds h).Follows (sweeping process i) (fun _ _ => True)
      (.holding w h) := by
  unfold sweepAndRelease
  refine (follows_sweep rounds w h).seq fun g r hr => ?_
  cases r with
  | none => trivial
  | some outcome => exact ⟨⟨rfl, rfl, hr⟩, fun _ _ => trivial⟩

theorem follows_run_settled (w h : Versioned Drive) :
    (run i process rounds h false).Follows (sweeping process i) (fun _ _ => True)
      (.holding w h) := by
  show (sweepAndRelease i process rounds h).Follows _ _ _
  exact follows_sweepAndRelease rounds w h

theorem follows_run_settling (w : Versioned Drive) :
    (run i process rounds w true).Follows (sweeping process i) (fun _ _ => True) (.writing w) := by
  show Prog.Follows _ _ (settleLease i w rounds >>= _) _
  refine (follows_settleLease w rounds).seq fun g r hr => ?_
  match r, hr with
  | none, _ => trivial
  | some (false, _), hr =>
    obtain ⟨w', rfl⟩ := hr
    exact ⟨⟨rfl, rfl, .inl rfl⟩, fun _ _ => trivial⟩
  | some (true, handle), hr =>
    obtain ⟨w', rfl⟩ := hr
    exact follows_sweepAndRelease rounds w' handle

theorem mayWrite_leased (drive : Versioned Drive) (now : Nat) (token : Bytes) :
    (Phase.minted drive token).MayWrite (leased drive now token) :=
  ⟨rfl, ⟨rfl, rfl⟩, rfl⟩

theorem follows_start (drive : Versioned Drive) :
    (start i process rounds drive).Follows (sweeping process i) (fun _ _ => True)
      (.idle (some drive)) := by
  unfold start
  refine ⟨⟨rfl, drive, rfl⟩, fun registered _ => ?_⟩
  cases registered with
  | false => trivial
  | true =>
    refine follows_unixMs fun now => ?_
    refine ⟨⟨rfl, drive, rfl⟩, fun token _ => ?_⟩
    show Prog.Follows _ _ (writeLease i (leased drive now token) >>= _) (Phase.minted drive token)
    refine (follows_writeLease (mayWrite_leased drive now token)).seq fun g r hr => ?_
    obtain ⟨outcome, handle⟩ := r
    cases outcome with
    | landed =>
      have hr : g = .holding (leased drive now token) handle := hr
      subst hr
      exact follows_run_settled rounds _ handle
    | lost =>
      obtain ⟨rfl, rfl⟩ := hr
      exact ⟨⟨rfl, rfl, .inl rfl⟩, fun _ _ => trivial⟩
    | unknown =>
      obtain ⟨rfl, rfl⟩ := hr
      exact follows_run_settling rounds _

theorem follows_forceDelete :
    (forceDelete i process rounds).Follows (sweeping process i) (fun _ _ => True) (.idle none) := by
  unfold forceDelete
  refine (follows_getDrive_idle none).seq ?_
  rintro _ r ⟨read, rfl, hr⟩
  match r, hr with
  | .error e, _ => trivial
  | .ok none, _ => trivial
  | .ok (some drive), hr =>
    have hread : read = some drive := hr drive rfl
    subst hread
    refine follows_choose fun allowed => ?_
    split
    · trivial
    · exact (follows_drop_idle 3 drive (some drive)).seq fun _ _ _ => trivial
    · refine follows_unixMs fun now => ?_
      split
      · trivial
      · exact follows_start rounds drive

theorem follows_getDrive_bystander : (getDrive i none).Follows (bystanding i) (fun _ _ => True) g :=
  follows_getDrive (R := fun _ => True) (fun _ _ => ⟨rfl, fun _ => ⟨trivial, fun _ _ _ => trivial⟩⟩)
    trivial

theorem follows_drop_bystander (tries : Nat) (drive : Versioned Drive) :
    (dropStaleRecord i tries drive).Follows (bystanding i) (fun _ _ => True) g := by
  refine follows_drop (fun _ _ => True) (fun _ _ => True) (fun _ _ _ => trivial) ?_ ?_ tries trivial
  · intro drive g _
    refine follows_rssRpcRetry (R := fun _ => True) (fun _ _ => ?_) 3 trivial
    exact ⟨rfl, fun _ _ => ⟨⟨fun _ => trivial, fun _ => trivial⟩, fun _ _ _ => trivial⟩⟩
  · refine fun drive g _ => follows_getDrive_bystander.mono fun g r _ => ?_
    match r with
    | .error e => trivial
    | .ok none => trivial
    | .ok (some a) =>
      dsimp only
      split
      · trivial
      · trivial

theorem follows_createRecord (id bucketRoot : Bytes) (tries : Nat) :
    (createRecord i (Drive.new id bucketRoot) tries).Follows (bystanding i) (fun _ _ => True)
      g := by
  induction tries generalizing g with
  | zero => trivial
  | succ tries ih =>
    have hput : (putDrive i ⟨0, Drive.new id bucketRoot⟩).Follows (bystanding i) (fun _ _ => True)
      g := by
      have hcall : (rssRpcRetry (perform (Op.put i ⟨0, Drive.new id bucketRoot⟩)) 3).Follows
          (bystanding i) (fun _ _ => True) g := by
        refine follows_rssRpcRetry (R := fun _ => True) (fun _ _ => ?_) 3 trivial
        exact ⟨⟨rfl, rfl⟩, fun _ _ => ⟨trivial, fun _ _ _ => trivial⟩⟩
      unfold putDrive
      refine hcall.seq fun _ r _ => ?_
      cases r with
      | ok | error => trivial
    unfold createRecord
    refine hput.seq fun g r _ => ?_
    match r with
    | .ok _ => trivial
    | .error .notFound => trivial
    | .error (.transport _) => trivial
    | .error .retry =>
      refine follows_getDrive_bystander.seq fun g found _ => ?_
      match found with
      | .error e => trivial
      | .ok none => exact ih
      | .ok (some existing) =>
        show (if _ then _ else _ : Call _).Follows _ _ _
        split
        · trivial
        · refine (follows_drop_bystander 3 existing).seq fun g r _ => ?_
          cases r with
          | ok u => exact ih
          | error e => trivial

theorem follows_dropIfStale : (dropIfStale i).Follows (bystanding i) (fun _ _ => True) g := by
  unfold dropIfStale
  refine follows_getDrive_bystander.seq fun g found _ => ?_
  match found with
  | .error e => trivial
  | .ok none => trivial
  | .ok (some drive) => exact (follows_drop_bystander 3 drive).seq fun _ _ _ => trivial

theorem follows_agent (agent : Agent) :
    (agent.program i).Follows (agent.protocol i) (fun _ _ => True) (.idle none) := by
  cases agent with
  | force process rounds => exact follows_forceDelete rounds
  | create id bucketRoot => exact follows_createRecord id bucketRoot 3
  | drop => exact follows_dropIfStale
  | network n => exact ⟨trivial, fun _ _ => trivial⟩
  | time => exact ⟨trivial, fun _ _ => trivial⟩
  | crash process => exact ⟨trivial, fun _ _ => trivial⟩

end

end FractalBits.Drives
