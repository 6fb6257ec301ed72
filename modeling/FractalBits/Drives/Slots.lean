/-
  Drives.Slots — a lease and the worker behind it.

  A write that is found lost gives the slot of its process back, though it may still be on its way;
  a sweep that stops with an error leaves its heartbeat. `Settled` names these moments.
-/

import FractalBits.Drives.Lease

namespace FractalBits.Drives

open Lib List Function

/-! ## §1. Moments that settle nothing -/

def Rss.OwnsLive (s : Rss) (i : Nat) : Prop :=
  ∃ a, s.register.stored = some a ∧ (a.data.sweepToken, i) ∈ s.minted
    ∧ a.data.sweepAlive s.clock = true

/-- A read-back finds the version which the write expected only when the write is no longer on its
    way and the record is no live lease of the sweeper; a failed sweep leaves no live lease. -/
def Settled (event : Event Op Rss Choice Nat) : Prop :=
  match event.op with
  | .get i (some w) =>
    event.choice.delivery = .answered →
      ∀ a, event.before.register.stored = some a → a.version = w.version →
        Request.put i w ∉ event.before.flight ∧ ¬ event.before.OwnsLive i
  | .release _ i .failed => ¬ event.before.OwnsLive i
  | _ => True

def lateAgents (i : Nat) : Agent := if i = 0 then .force 0 0 else if i = 1 then .network 0
    else .time

def unanswered (delivery : Delivery) : Choice := { delivery, version := 2 }

/-- The write and three retries time out, the read-back finds the old record, the slot is given
    back; then the first write arrives. -/
def lateSchedule : List (Nat × Choice) :=
  List.replicate 6 (0, answered 2) ++ (0, unanswered .delayed) :: List.replicate 3
    (0, unanswered .dropped) ++ List.replicate 3 (0, answered 2) ++ [(1, answered 2)]

def latePool : Pool Op Ans Unit Rss Nat := pool lateAgents (rssWith staleDrive)

theorem late_lease_without_worker :
    (rssWith staleDrive).Starts ∧
    (∀ event ∈ latePool.trace serve lateSchedule, Lawful event) ∧
    (latePool.trace serve lateSchedule)[11]?.map Event.op
      = some (.report 0 .lost firstLease firstLease) ∧
    (latePool.trace serve lateSchedule)[12]?.map Event.op
      = some (.release 0 0 .leaseLost) ∧
    (latePool.run serve lateSchedule).state.register.stored = some ⟨2, firstLease.data⟩ ∧
    firstLease.data.sweepAlive (latePool.run serve lateSchedule).state.clock = true ∧
    (firstLease.data.sweepToken, 0) ∈ (latePool.run serve lateSchedule).state.minted ∧
    (latePool.run serve lateSchedule).state.crashed 0 = false ∧
    (latePool.run serve lateSchedule).state.running 0 = false := by
  refine ⟨starts_rssWith (by decide), lawful_of_tests (by decide +kernel), ?_, ?_, ?_, ?_, ?_, ?_,
    ?_⟩
  · decide +kernel
  · decide +kernel
  · decide +kernel
  · decide +kernel
  · decide +kernel
  · decide +kernel
  · decide +kernel

/-! ## §2. What is left of a sweeper's writes -/

/-- Of the writes of the sweeper only the last one, `w`, can still take effect. -/
structure Rss.Chained (s : Rss) (i : Nat) (w : Versioned Drive) : Prop where
  puts : ∀ w', s.HasPut i w' → w' = w ∨ s.register.Retired w'.version
  stored : ∀ w' replaced v, Change.put i w' replaced v ∈ s.register.log → w' = w ∨ v = w.version
    ∨ s.register.Retired v

structure Rss.Quiet (s : Rss) (i : Nat) : Prop where
  live : ¬ s.OwnsLive i
  puts : ∀ w, s.HasPut i w → s.register.Retired w.version

def Rss.Absent (s : Rss) (w : Versioned Drive) : Prop := ∀ a, s.register.stored = some a →
    ¬ IsWrite w.data a.data

section

variable {s : Rss} {ch : Choice} {op : Op} {i : Nat} {w a : Versioned Drive} {v : Int}

theorem retired_serve (h : s.register.Retired v) (hfresh : s.register.Fresh ch.version) :
    (serve ch op s).2.register.Retired v := by
  have hserved := served ch op s
  generalize (serve ch op s).2.register = after at hserved ⊢
  cases hserved with
  | same => exact h
  | put => exact h.write hfresh
  | delete => exact h.remove

theorem log_put_serve {replaced : Option (Versioned Drive)}
    (h : Change.put i w replaced v ∈ (serve ch op s).2.register.log) :
    Change.put i w replaced v ∈ s.register.log
      ∨ ((op.request? = some (.put i w) ∨ Request.put i w ∈ s.flight)
        ∧ s.register.accepts w.version = true) := by
  have hserved := served ch op s
  generalize (serve ch op s).2.register = after at hserved h
  cases hserved with
  | same => exact .inl h
  | put who drive hrequest haccepts =>
    rcases mem_append.mp h with h | h
    · exact .inl h
    · cases mem_singleton.mp h
      exact .inr ⟨hrequest, haccepts⟩
  | delete who expected b hrequest hstored hdeletes =>
    rcases mem_append.mp h with h | h
    · exact .inl h
    · cases mem_singleton.mp h

theorem stored_of_past (hfresh : s.register.Fresh ch.version) (ha : a ∈ s.register.past)
    (hstored : (serve ch op s).2.register.stored = some a) : s.register.stored = some a := by
  have hserved := served ch op s
  generalize (serve ch op s).2.register = after at hserved hstored
  cases hserved with
  | same => exact hstored
  | put who drive hrequest haccepts =>
    cases hstored
    exact absurd rfl (hfresh.2 _ ha)
  | delete => cases hstored

theorem clock_serve : s.clock ≤ (serve ch op s).2.clock := by
  cases op with
  | put who drive =>
    show s.clock ≤ (s.send ch (.put who drive) (s.putReply drive ch.version)).2.clock
    rw [send_eq]
  | delete who version =>
    show s.clock ≤ (s.send ch (.delete who version) (s.deleteReply version (ch.value = 0))).2.clock
    rw [send_eq]
  | deliver n =>
    show s.clock ≤ (s.process ch.version n).clock
    rw [process_eq]
  | tick => exact Nat.le_add_right _ _
  | _ => exact le_rfl

theorem sweepAlive_antitone {drive : Drive} {now later : Nat} (hle : now ≤ later)
    (h : drive.sweepAlive later = true) :
    drive.sweepAlive now = true := by
  simp only [Drive.sweepAlive, Bool.and_eq_true, decide_eq_true_eq] at h ⊢
  refine ⟨h.1, ?_⟩
  omega

theorem Rss.Chained.serve (h : s.Chained i w) (hsound : s.register.Sound)
    (hfresh : s.register.Fresh ch.version) (hop : ∀ w', op.request? = some (.put i w') → w' = w) :
    (Drives.serve ch op s).2.Chained i w where
  puts w' hput := by
    rcases hasPut_serve hput with hput | hsent
    · exact (h.puts w' hput).imp_right fun hretired => retired_serve hretired hfresh
    · exact .inl (hop w' hsent)
  stored w' replaced v hput := by
    rcases log_put_serve hput with hput | ⟨hrequest, haccepts⟩
    · exact (h.stored w' replaced v hput).imp_right fun hv => hv.imp_right fun hretired =>
        retired_serve hretired hfresh
    · rcases hrequest with hsent | hflight
      · exact .inl (hop w' hsent)
      · rcases h.puts w' (.inl hflight) with heq | hretired
        · exact .inl heq
        · exact absurd haccepts (by rw [hretired.not_accepts hsound]; exact Bool.false_ne_true)

theorem stored_of_retired (hputs : ∀ w, s.HasPut i w → s.register.Retired w.version)
    (hsound : s.register.Sound) (howned : (serve ch op s).2.Owned)
    (hfresh : s.register.Fresh ch.version) (hop : ∀ w, op.request? ≠ some (.put i w))
    (hstored : (serve ch op s).2.register.stored = some a)
    (htoken : (a.data.sweepToken, i) ∈ (serve ch op s).2.minted) : s.register.stored = some a := by
  obtain ⟨w, replaced, hput, hdata⟩ := howned.origin a (howned.sound.current a hstored) i htoken
  rcases log_put_serve hput with hput | ⟨hrequest, haccepts⟩
  · have hpast := hsound.stamped _ _ _ _ hput
    rw [hdata] at hpast
    exact stored_of_past hfresh hpast hstored
  · rcases hrequest with hsent | hflight
    · exact absurd hsent (hop w)
    · rw [(hputs w (.inl hflight)).not_accepts hsound] at haccepts
      exact nomatch haccepts

theorem mem_minted_of_serve (hmint : op ≠ .newToken i) {token : Bytes}
    (h : (token, i) ∈ (serve ch op s).2.minted) :
    (token, i) ∈ s.minted := by
  rcases of_mem_minted_serve h with h | ⟨who, rfl, heq⟩
  · exact h
  · cases heq
    exact absurd rfl hmint

theorem Rss.Quiet.serve (h : s.Quiet i) (hsound : s.register.Sound)
    (howned : (Drives.serve ch op s).2.Owned) (hfresh : s.register.Fresh ch.version)
    (hop : ∀ w, op.request? ≠ some (.put i w)) (hmint : op ≠ .newToken i) :
    (Drives.serve ch op s).2.Quiet i where
  live := by
    rintro ⟨a, hstored, htoken, halive⟩
    have hbefore := stored_of_retired h.puts hsound howned hfresh hop hstored htoken
    exact h.live ⟨a, hbefore, mem_minted_of_serve hmint htoken, sweepAlive_antitone clock_serve
      halive⟩
  puts w hput := by
    rcases hasPut_serve hput with hput | hsent
    · exact retired_serve (h.puts w hput) hfresh
    · exact absurd hsent (hop w)

theorem Rss.Absent.serve (h : s.Absent w) (hquiet : s.Quiet i)
    (htoken : (w.data.sweepToken, i) ∈ s.minted) (hsound : s.register.Sound)
    (howned : (Drives.serve ch op s).2.Owned) (hfresh : s.register.Fresh ch.version)
    (hop : ∀ w, op.request? ≠ some (.put i w)) : (Drives.serve ch op s).2.Absent w := by
  intro a hstored hwrite
  have hmine : (a.data.sweepToken, i) ∈ (Drives.serve ch op s).2.minted := by
    rw [hwrite.2.1]
    exact mem_minted_serve ch op htoken
  exact h a (stored_of_retired hquiet.puts hsound howned hfresh hop hstored hmine) hwrite

end

/-! ## §3. What a phase leaves -/

def Phase.Calm (i : Nat) (s : Rss) : Phase → Prop
  | .idle _ | .slot _ | .minted _ _ | .finished none => True
  | .writing w | .holding w _ | .dropping w _ => s.Chained i w
  | .lost w => s.Quiet i ∧ s.Absent w
  | .gone _ | .finished (some _) => s.Quiet i

section

variable {s : Rss} {ch : Choice} {op : Op} {process i j : Nat} {w h a : Versioned Drive} {g : Phase}

theorem Rss.LastWrite.retired (hlast : s.LastWrite i w) (howned : s.Owned)
    (hlanded : s.Landed i w h) :
    s.register.Retired w.version := by
  obtain ⟨-, replaced, hput⟩ := hlanded
  exact howned.sound.retired_of_put hput (hlast.ne_zero howned)

theorem Rss.Chained.retired (hchain : s.Chained i w) (hretired : s.register.Retired w.version) :
    ∀ w', s.HasPut i w' → s.register.Retired w'.version := by
  intro w' hput
  rcases hchain.puts w' hput with rfl | h
  · exact hretired
  · exact h

theorem Rss.Chained.next (hchain : s.Chained i w) (howned : s.Owned) (hlast : s.LastWrite i w)
    (hlanded : s.Landed i w h) {w' : Versioned Drive}
    (hversion : w'.version = h.version) : s.Chained i w' := by
  have hretired := hlast.retired howned hlanded
  refine ⟨fun w'' hput => .inr (hchain.retired hretired w'' hput), fun w'' replaced v hput => .inr
    ?_⟩
  rcases hchain.stored w'' replaced v hput with rfl | rfl | hv
  · -- the last write took effect once, and its version is the handle's
    obtain ⟨-, replaced', hput'⟩ := hlanded
    have hsame := howned.sound.put_eq hput hput' rfl (hlast.ne_zero howned)
    obtain ⟨-, -, -, hv⟩ := Change.put.inj hsame
    exact .inl (hv.trans hversion.symm)
  · exact .inr hretired
  · exact .inr hv

theorem Phase.Calm.mayWrite (hcalm : g.Calm i s) (howned : s.Owned) (hfits : g.Fits i s)
    (hw : g.MayWrite w) :
    s.Chained i w := by
  cases g with
  | minted read token =>
    have hnone := hfits.2.2
    exact ⟨fun w' hput => absurd hput (hnone w'), fun w' replaced v hput => absurd
      (.inr ⟨replaced, v, hput⟩) (hnone w')⟩
  | writing written =>
    have hw : w = written := hw
    rw [hw]
    exact hcalm
  | holding written handle =>
    obtain ⟨hlast, hlanded, -⟩ := hfits
    have hchain : s.Chained i written := hcalm
    exact hchain.next howned hlast hlanded hw.1
  | _ => cases hw

theorem Rss.Chained.quiet (hchain : s.Chained i w) (howned : s.Owned) (hlast : s.LastWrite i w)
    (habsent : s.Absent w) (hsettled : ∀ a, s.register.stored = some a → a.version = w.version →
      Request.put i w ∉ s.flight ∧ ¬ s.OwnsLive i) : s.Quiet i where
  live := by
    rintro ⟨a, hstored, htoken, halive⟩
    obtain ⟨w', replaced, hput, hdata⟩ := howned.origin a (howned.sound.current a hstored) i htoken
    rcases hchain.stored w' replaced a.version hput with rfl | hversion | hretired
    · apply habsent a hstored
      rw [hdata]
      exact ⟨rfl, rfl, rfl⟩
    · exact (hsettled a hstored hversion).2 ⟨a, hstored, htoken, halive⟩
    · exact hretired.2 a hstored rfl
  puts w' hput := by
    rcases hchain.puts w' hput with rfl | hretired
    · rcases hput with hflight | ⟨replaced, version, hlog⟩
      · -- it is on its way, so the version it expects is gone
        exact ⟨hlast.known, fun a hstored hversion => (hsettled a hstored hversion).1 hflight⟩
      · exact hlast.retired howned (h := ⟨version, w'.data⟩) ⟨rfl, replaced, hlog⟩
    · exact hretired

theorem Phase.Calm.other (hcalm : g.Calm i s) (hfits : g.Fits i s) (hsound : s.register.Sound)
    (howned : (serve ch op s).2.Owned) (hfresh : s.register.Fresh ch.version)
    (hop : ∀ w, op.request? ≠ some (.put i w)) (hmint : op ≠ .newToken i) :
    g.Calm i (serve ch op s).2 := by
  have hchain : ∀ {w}, s.Chained i w → (serve ch op s).2.Chained i w :=
    fun h => h.serve hsound hfresh fun w' hsent => absurd hsent (hop w')
  have hquiet : s.Quiet i → (serve ch op s).2.Quiet i := fun h =>
    h.serve hsound howned hfresh hop hmint
  cases g with
  | idle | slot | minted => trivial
  | writing w => exact hchain hcalm
  | holding w h => exact hchain hcalm
  | dropping w h => exact hchain hcalm
  | lost w =>
    obtain ⟨hq, habsent⟩ := hcalm
    have hlast : s.LastWrite i w := hfits
    exact ⟨hquiet hq, habsent.serve hq hlast.token hsound howned hfresh hop⟩
  | gone w => exact hquiet hcalm
  | finished written =>
    cases written with
    | none => trivial
    | some w => exact hquiet hcalm

theorem Phase.Calm.readBack (hchain : s.Chained i w) (hlast : s.LastWrite i w) (howned : s.Owned)
    (howned' : (serve ch (.get i (some w)) s).2.Owned) (hfresh : s.register.Fresh ch.version)
    (hsettled : Settled ⟨j, .get i (some w), ch, s⟩) :
    (Phase.afterReadBack w (serve ch (.get i (some w)) s).1).Calm i
      (serve ch (.get i (some w)) s).2 := by
  have hnext : (serve ch (.get i (some w)) s).2.Chained i w :=
    hchain.serve howned.sound hfresh nofun
  have hlost : ch.delivery = .answered → s.Absent w →
    (Phase.lost w).Calm i (serve ch (.get i (some w)) s).2 := by
    intro hanswered habsent
    have hquiet := hchain.quiet howned hlast habsent (hsettled hanswered)
    exact ⟨hquiet.serve howned.sound howned' hfresh nofun nofun,
      habsent.serve hquiet hlast.token howned.sound howned' hfresh nofun⟩
  have hread : (serve ch (.get i (some w)) s).1 = s.read ch := rfl
  rw [hread]
  unfold Rss.read
  cases hd : ch.delivery with
  | answered =>
    dsimp only
    unfold Rss.getReply
    -- what is stored is the write itself, which is then held, or it is not, which is settled
    cases hstored : s.register.stored with
    | none =>
      apply hlost hd
      intro a ha
      rw [hstored] at ha
      cases ha
    | some a =>
      show (if IsWrite w.data a.data then Phase.holding w a else Phase.lost w).Calm i _
      by_cases hwrite : IsWrite w.data a.data
      · rw [if_pos hwrite]
        exact hnext
      · rw [if_neg hwrite]
        apply hlost hd
        intro b hb
        rw [hstored] at hb
        cases hb
        exact hwrite
  | _ => exact hnext

theorem Rss.Chained.quiet_of_without (hchain : s.Chained i w) (howned : s.Owned)
    (hlast : s.LastWrite i w) (hlanded : s.Landed i w h) (hwithout : s.Without w.data) : s.Quiet
    i where
  live := by
    rintro ⟨a, hstored, htoken, -⟩
    obtain ⟨w', replaced, hput, hdata⟩ := howned.origin a (howned.sound.current a hstored) i htoken
    have hsame := hlast.same w' (.inr ⟨replaced, a.version, hput⟩)
    rw [hdata] at hsame
    exact hwithout a hstored hsame
  puts := hchain.retired (hlast.retired howned hlanded)

theorem Phase.Calm.read (hchain : s.Chained i w) (hfits : (Phase.dropping w h).Fits i s)
    (howned : s.Owned) (howned' : (serve ch (.get i none) s).2.Owned)
    (hfresh : s.register.Fresh ch.version) :
    ((Phase.dropping w h).afterRead (serve ch (.get i none) s).1).Calm i
      (serve ch (.get i none) s).2 := by
  obtain ⟨hlast, ⟨h', hlanded⟩, hsame⟩ := hfits
  have hnext : (serve ch (.get i none) s).2.Chained i w := hchain.serve howned.sound hfresh nofun
  -- without a record of the incarnation nothing of the sweeper is live
  have hgone : s.Without w.data → (Phase.gone w).Calm i (serve ch (.get i none) s).2 := by
    intro hwithout
    have hquiet := hchain.quiet_of_without howned hlast hlanded hwithout
    exact hquiet.serve howned.sound howned' hfresh nofun nofun
  generalize hans : (serve ch (.get i none) s).1 = ans
  cases ans with
  | ok a =>
    have hstored := stored_of_get_ok hans
    show (if SameIncarnation a.data h.data then Phase.dropping w a else Phase.gone w).Calm i _
    by_cases ha : SameIncarnation a.data h.data
    · rw [if_pos ha]
      exact hnext
    · rw [if_neg ha]
      apply hgone
      intro b hb hother
      rw [hstored] at hb
      cases hb
      exact ha (hother.trans hsame.symm)
  | error e =>
    cases e with
    | notFound =>
      apply hgone
      intro b hb
      rw [stored_of_get_notFound hans] at hb
      cases hb
    | retry | transport => exact hnext

theorem Phase.Calm.landed (hg : g = .holding w h ∨ g = .dropping w h) (hcalm : g.Calm i s)
    (hfits : g.Fits i s) :
    s.Chained i w ∧ s.LastWrite i w ∧ ∃ h', s.Landed i w h' := by
  rcases hg with rfl | rfl
  · exact ⟨hcalm, hfits.1, h, hfits.2.1⟩
  · exact ⟨hcalm, hfits.1, hfits.2.1⟩

theorem Phase.Calm.delete {version : Int} (hg : g = .holding w h ∨ g = .dropping w h)
    (hcalm : g.Calm i s) (hfits : g.Fits i s) (howned : s.Owned)
    (howned' : (serve ch (.delete i version) s).2.Owned) (hfresh : s.register.Fresh ch.version) :
    (g.afterDelete (serve ch (.delete i version) s).1).Calm i
      (serve ch (.delete i version) s).2 := by
  obtain ⟨hchain, hlast, h', hlanded⟩ := Phase.Calm.landed hg hcalm hfits
  have hkeep : Keeps i s (serve ch (.delete i version) s).2 := keeps_serve nofun
  have hnext : (serve ch (.delete i version) s).2.Chained i w :=
    hchain.serve howned.sound hfresh nofun
  generalize hans : (serve ch (.delete i version) s).1 = ans
  cases ans with
  | ok u =>
    -- the record is gone, and what the sweeper wrote before it cannot come back
    have hquiet : (serve ch (.delete i version) s).2.Quiet i := by
      apply hnext.quiet_of_without howned' (hlast.keep hkeep) (hlanded.keep hkeep)
      intro a ha
      rw [stored_of_delete_ok hans] at ha
      cases ha
    rcases hg with rfl | rfl
    · exact hquiet
    · exact hquiet
  | error e =>
    rcases hg with rfl | rfl
    · exact hnext
    · exact hnext

theorem Phase.Calm.release {outcome : Outcome} (hcalm : g.Calm i s) (hfits : g.Fits i s)
    (howned : s.Owned) (hends : g.Ends outcome)
    (hsettled : outcome = .failed → ¬ s.OwnsLive i) : s.Quiet i := by
  -- a sweep that ends with its lease in hand has failed, so the moment is a settled one
  have hleft : ∀ {w h}, g = .holding w h ∨ g = .dropping w h → outcome = .failed → s.Quiet i := by
    intro w h hg hfailed
    obtain ⟨hchain, hlast, h', hlanded⟩ := Phase.Calm.landed hg hcalm hfits
    exact ⟨hsettled hfailed, hchain.retired (hlast.retired howned hlanded)⟩
  cases g with
  | lost w => exact hcalm.1
  | gone w => exact hcalm
  | holding w h => exact hleft (.inl rfl) hends
  | dropping w h => exact hleft (.inr rfl) hends
  | _ => cases hends

theorem Phase.Calm.own (hcalm : g.Calm i s) (hfits : g.Fits i s) (howned : s.Owned)
    (howned' : (serve ch op s).2.Owned) (hfresh : s.register.Fresh ch.version)
    (hop : g.Allows process i op) (hsettled : Settled ⟨j, op, ch, s⟩) :
    (g.advance op (serve ch op s).1).Calm i (serve ch op s).2 := by
  cases op with
  | put who w =>
    obtain ⟨rfl, hw⟩ := hop
    -- whatever is answered, the new write is the last of the chain
    have hnext : (serve ch (.put who w) s).2.Chained who w := by
      refine (hcalm.mayWrite howned hfits hw).serve howned.sound hfresh fun w' hsent => ?_
      cases hsent
      rfl
    show (Phase.afterPut w (serve ch (.put who w) s).1).Calm who _
    generalize (serve ch (.put who w) s).1 = ans
    cases ans with
    | ok version => exact hnext
    | error e => exact hnext
  | get who about =>
    cases about with
    | none =>
      obtain ⟨rfl, ⟨read, rfl⟩ | ⟨w, h, rfl⟩⟩ := hop
      · -- before the first write there is nothing to be calm about
        show ((Phase.idle read).afterRead (serve ch (.get who none) s).1).Calm who _
        obtain ⟨read', hread, -⟩ := afterRead_idle read (serve ch (.get who none) s).1
        rw [hread]
        trivial
      · exact Phase.Calm.read hcalm hfits howned howned' hfresh
    | some w =>
      obtain ⟨rfl, rfl⟩ := hop
      exact Phase.Calm.readBack hcalm hfits howned howned' hfresh hsettled
  | delete who version =>
    obtain ⟨rfl, ⟨read, rfl⟩ | ⟨w, h, hg, -⟩⟩ := hop
    · show ((Phase.idle read).afterDelete (serve ch (.delete who version) s).1).Calm who _
      rw [afterDelete_idle read (serve ch (.delete who version) s).1]
      trivial
    · exact Phase.Calm.delete hg hcalm hfits howned howned' hfresh
  | unixMs | choose | report => exact hcalm
  | newToken who =>
    obtain ⟨rfl, read, rfl⟩ := hop
    trivial
  | register p =>
    obtain ⟨rfl, read, rfl⟩ := hop
    show (if (!s.running p) = true then Phase.slot read else Phase.finished none).Calm i _
    split <;> trivial
  | release p who outcome =>
    obtain ⟨rfl, rfl, hends⟩ := hop
    -- a sweep that ends may leave its lease behind only at a settled moment
    have hquiet : s.Quiet who := by
      apply hcalm.release hfits howned hends
      intro hfailed
      rw [hfailed] at hsettled
      exact hsettled
    show (Phase.finished g.written?).Calm who _
    cases g.written? with
    | none => trivial
    | some w => exact hquiet.serve howned.sound howned' hfresh nofun nofun
  | deliver | tick | crash => cases hop

end

/-! ## §4. Slots -/

def Phase.held : Phase → Bool
  | .idle _ | .finished _ => false
  | .slot _ | .minted _ _ | .writing _ | .holding _ _ | .lost _ | .dropping _ _ | .gone _ => true

section

variable {s : Rss} {ch : Choice} {op : Op} {process i j p : Nat} {g : Phase}

theorem running_serve : (serve ch op s).2.running =
    match op with
    | .register p => update s.running p true
    | .release p _ _ | .crash p => update s.running p false
    | _ => s.running := by
  cases op with
  | put who drive =>
    show (s.send ch (.put who drive) (s.putReply drive ch.version)).2.running = s.running
    rw [send_eq]
  | delete who version =>
    show (s.send ch (.delete who version) (s.deleteReply version (ch.value = 0))).2.running
      = s.running
    rw [send_eq]
  | deliver n =>
    show (s.process ch.version n).running = s.running
    rw [process_eq]
  | _ => rfl

theorem crashed_serve : (serve ch op s).2.crashed =
    match op with
    | .crash p => update s.crashed p true
    | _ => s.crashed := by
  cases op with
  | put who drive =>
    show (s.send ch (.put who drive) (s.putReply drive ch.version)).2.crashed = s.crashed
    rw [send_eq]
  | delete who version =>
    show (s.send ch (.delete who version) (s.deleteReply version (ch.value = 0))).2.crashed
      = s.crashed
    rw [send_eq]
  | deliver n =>
    show (s.process ch.version n).crashed = s.crashed
    rw [process_eq]
  | _ => rfl

theorem crashed_of_serve (h : (serve ch op s).2.crashed p = false) :
    s.crashed p = false ∧ op ≠ .crash p := by
  rw [crashed_serve] at h
  cases op with
  | crash q =>
    change update s.crashed q true p = false at h
    by_cases hq : p = q
    · rw [hq, update_self] at h
      exact nomatch h.symm
    · rw [update_of_ne hq] at h
      refine ⟨h, fun heq => hq ?_⟩
      cases heq
      rfl
  | _ => exact ⟨h, nofun⟩

theorem running_keep (h : s.running p = true)
    (hrelease : ∀ who outcome, op ≠ .release p who outcome) (hcrash : op ≠ .crash p) :
    (serve ch op s).2.running p = true := by
  rw [running_serve]
  cases op with
  | register q =>
    show update s.running q true p = true
    by_cases hq : p = q
    · rw [hq]
      exact update_self ..
    · rw [update_of_ne hq]
      exact h
  | release q who outcome =>
    show update s.running q false p = true
    rw [update_of_ne fun hq => hrelease who outcome (by rw [hq])]
    exact h
  | crash q =>
    show update s.running q false p = true
    rw [update_of_ne fun hq => hcrash (by rw [hq])]
    exact h
  | _ => exact h

theorem held_of_advance (hop : g.Allows process i op)
    (hheld : (g.advance op (serve ch op s).1).held = true) :
    (g.held = true ∧ ∀ q who outcome, op ≠ .release q who outcome)
      ∨ (op = .register process ∧ s.running process = false) := by
  cases op with
  | put who w =>
    -- a write is allowed only to a sweeper that has its slot
    refine .inl ⟨?_, nofun⟩
    cases g with
    | minted | writing | holding => rfl
    | _ => cases hop.2
  | get who about =>
    refine .inl ⟨?_, nofun⟩
    cases about with
    | none =>
      obtain ⟨rfl, ⟨read, rfl⟩ | ⟨w, h, rfl⟩⟩ := hop
      · change ((Phase.idle read).afterRead (serve ch (.get who none) s).1).held = true at hheld
        obtain ⟨read', hread, -⟩ := afterRead_idle read (serve ch (.get who none) s).1
        rw [hread] at hheld
        cases hheld
      · rfl
    | some w =>
      obtain ⟨rfl, rfl⟩ := hop
      rfl
  | delete who version =>
    refine .inl ⟨?_, nofun⟩
    obtain ⟨rfl, ⟨read, rfl⟩ | ⟨w, h, rfl | rfl, -⟩⟩ := hop
    · change ((Phase.idle read).afterDelete (serve ch (.delete who version) s).1).held
        = true at hheld
      rw [afterDelete_idle read (serve ch (.delete who version) s).1] at hheld
      cases hheld
    · rfl
    · rfl
  | unixMs | choose | report => exact .inl ⟨hheld, nofun⟩
  | newToken who =>
    obtain ⟨rfl, read, rfl⟩ := hop
    exact .inl ⟨rfl, nofun⟩
  | register q =>
    obtain ⟨rfl, read, rfl⟩ := hop
    -- a slot that was taken already ends the sweeper without one
    change (if (!s.running q) = true then Phase.slot read else Phase.finished none).held
      = true at hheld
    cases hrunning : s.running q with
    | false => exact .inr ⟨rfl, rfl⟩
    | true =>
      rw [hrunning] at hheld
      cases hheld
  | release q who outcome => cases hheld
  | deliver | tick | crash => cases hop

end

structure SlotsTaken (agents : Nat → Agent) (s : Rss) (phases : Nat → Phase) : Prop where
  running : ∀ i p rounds, agents i = .force p rounds → (phases i).held = true →
    s.crashed p = false →
    s.running p = true
  alone : ∀ i j p rounds rounds', agents i = .force p rounds → agents j = .force p rounds' →
    (phases i).held = true → (phases j).held = true → s.crashed p = false → i = j

section

variable {agents : Nat → Agent} {s : Rss} {phases : Nat → Phase} {ch : Choice} {op : Op} {i : Nat}

theorem SlotsTaken.held_before (hop : ((agents i).protocol i).allowed (phases i) op)
    {k p rounds : Nat} (hagent : agents k = .force p rounds)
    (hheld : (update phases i (((agents i).protocol i).advance (phases i) op (serve ch op s).1)
    k).held = true) :
    ((phases k).held = true ∧ (k = i → ∀ q who outcome, op ≠ .release q who outcome))
      ∨ (k = i ∧ op = .register p ∧ s.running p = false) := by
  by_cases hk : k = i
  · subst hk
    rw [update_self] at hheld
    rw [hagent] at hop hheld
    rcases held_of_advance hop hheld with ⟨hbefore, hnot⟩ | ⟨hregister, hfree⟩
    · exact .inl ⟨hbefore, fun _ => hnot⟩
    · exact .inr ⟨rfl, hregister, hfree⟩
  · rw [update_of_ne hk] at hheld
    exact .inl ⟨hheld, fun h => absurd h hk⟩

theorem held_of_release (hop : ((agents i).protocol i).allowed (phases i) op) {q who : Nat}
    {outcome : Outcome} (hrelease : op = .release q who outcome) :
    (∃ rounds, agents i = .force q rounds) ∧ (phases i).held = true := by
  subst hrelease
  obtain ⟨process, rounds, hagent, rfl, rfl, hends⟩ := sweeper_of_allowed hop id
  refine ⟨⟨rounds, hagent⟩, ?_⟩
  cases hphase : phases who with
  | lost | holding | dropping | gone => rfl
  | _ =>
    rw [hphase] at hends
    cases hends

theorem SlotsTaken.step (h : SlotsTaken agents s phases)
    (hop : ((agents i).protocol i).allowed (phases i) op) :
    SlotsTaken agents (serve ch op s).2
      (update phases i (((agents i).protocol i).advance (phases i) op (serve ch op s).1)) where
  running k p rounds hagent hheld hcrashed := by
    obtain ⟨halive, hcrash⟩ := crashed_of_serve hcrashed
    rcases SlotsTaken.held_before hop hagent hheld with ⟨hbefore, hnot⟩ | ⟨-, hregister, -⟩
    · refine running_keep (h.running k p rounds hagent hbefore halive) ?_ hcrash
      intro who outcome hrelease
      -- a slot of this process is given back only by the sweeper that has it
      obtain ⟨⟨rounds', hagent'⟩, hheld'⟩ := held_of_release hop hrelease
      exact hnot (h.alone k i p rounds rounds' hagent hagent' hbefore hheld' halive) p who outcome
        hrelease
    · rw [running_serve, hregister]
      exact update_self ..
  alone k l p rounds rounds' hagent hagent' hheld hheld' hcrashed := by
    obtain ⟨halive, -⟩ := crashed_of_serve hcrashed
    rcases SlotsTaken.held_before hop hagent hheld with ⟨hk, -⟩ | ⟨hk, -, hfree⟩
    · rcases SlotsTaken.held_before hop hagent' hheld' with ⟨hl, -⟩ | ⟨-, -, hfree⟩
      · exact h.alone k l p rounds rounds' hagent hagent' hk hl halive
      · exact nomatch hfree.symm.trans (h.running k p rounds hagent hk halive)
    · rcases SlotsTaken.held_before hop hagent' hheld' with ⟨hl, -⟩ | ⟨hl, -, -⟩
      · exact nomatch hfree.symm.trans (h.running l p rounds' hagent' hl halive)
      · rw [hk, hl]

end

/-! ## §5. All settled runs -/

/-- A write that was reported lost at this event: its sweeper writes no more, it is not the record,
    and it did not take effect since. -/
structure LostSince (event : Event Op Rss Choice Nat) (i : Nat) (w : Versioned Drive) (s : Rss)
    (g : Phase) : Prop where
  ended : g = .lost w ∨ g = .finished (some w)
  absent : s.Absent w
  log : ∀ replaced v, Change.put i w replaced v ∈ s.register.log →
    Change.put i w replaced v ∈ event.before.register.log

structure SlotInv (agents : Nat → Agent) (trace : List (Event Op Rss Choice Nat)) (s : Rss)
    (phases : Nat → Phase) : Prop where
  lease : LeaseInv agents trace s phases
  calm : ∀ i process rounds, agents i = .force process rounds → (phases i).Calm i s
  slots : SlotsTaken agents s phases
  lost : ∀ e ∈ trace, ∀ i w h, e.op = .report i .lost w h →
    (∃ process rounds, agents i = .force process rounds) ∧ LostSince e i w s (phases i)

section

variable {agents : Nat → Agent} {trace : List (Event Op Rss Choice Nat)} {s : Rss}
  {phases : Nat → Phase} {ch : Choice} {op : Op} {i j : Nat} {w h : Versioned Drive} {g : Phase}

theorem own_of_allowed (hop : ((agents i).protocol i).allowed g op) (hj : j ≠ i) :
    (∀ w, op.request? ≠ some (.put j w)) ∧ op ≠ .newToken j := by
  have hsigned := signedBy_of_allowed hop
  constructor
  · intro w hsent
    cases op with
    | put who drive =>
      cases hsent
      exact hj hsigned
    | _ => cases hsent
  · intro hmint
    subst hmint
    obtain ⟨process, rounds, -, hsame, -⟩ := sweeper_of_allowed hop id
    exact hj hsame

theorem ended_of_allows {process : Nat} (hop : g.Allows process i op)
    (hg : g = .lost w ∨ g = .finished (some w)) (ans : Ans op) :
    (∀ w', op.request? ≠ some (.put i w')) ∧ op ≠ .newToken i
      ∧ (g.advance op ans = .lost w ∨ g.advance op ans = .finished (some w)) := by
  rcases hg with rfl | rfl
  · cases op with
    | unixMs | choose | report => exact ⟨nofun, nofun, .inl rfl⟩
    | release => exact ⟨nofun, nofun, .inr rfl⟩
    | get who about => cases about <;> simp [Phase.Allows] at hop
    | _ => simp [Phase.Allows, Phase.MayWrite] at hop
  · cases op with
    | unixMs | choose | report => exact ⟨nofun, nofun, .inr rfl⟩
    | get who about => cases about <;> simp [Phase.Allows] at hop
    | _ => simp [Phase.Allows, Phase.MayWrite, Phase.Ends] at hop

theorem lost_of_report (process : Nat) (hop : g.Allows process i (.report j .lost w h)) :
    j = i ∧ g = .lost w := by
  obtain ⟨rfl, hreports⟩ := hop
  refine ⟨rfl, ?_⟩
  cases g with
  | lost written =>
    obtain ⟨-, rfl, rfl⟩ := hreports
    rfl
  | holding | writing => cases hreports.1
  | _ => cases hreports

theorem LostSince.step {event : Event Op Rss Choice Nat} {g' : Phase}
    (hlost : LostSince event i w s g) (hcalm : g.Calm i s) (hfits : g.Fits i s)
    (hsound : s.register.Sound) (howned : (serve ch op s).2.Owned)
    (hfresh : s.register.Fresh ch.version) (hop : ∀ w, op.request? ≠ some (.put i w))
    (hended : g' = .lost w ∨ g' = .finished (some w)) :
    LostSince event i w (serve ch op s).2 g' := by
  obtain ⟨hquiet, htoken⟩ : s.Quiet i ∧ (w.data.sweepToken, i) ∈ s.minted := by
    rcases hlost.ended with rfl | rfl
    · exact ⟨hcalm.1, Rss.LastWrite.token hfits⟩
    · exact ⟨hcalm, Rss.LastWrite.token hfits⟩
  refine ⟨hended, hlost.absent.serve hquiet htoken hsound howned hfresh hop, fun replaced v hput =>
    ?_⟩
  rcases log_put_serve hput with hput | ⟨hrequest, haccepts⟩
  · exact hlost.log replaced v hput
  -- the write did not take effect in this step: a copy on its way expects a version that is retired
  ·
    rcases hrequest with hsent | hflight
    · exact absurd hsent (hop w)
    · rw [(hquiet.puts w (.inl hflight)).not_accepts hsound] at haccepts
      exact nomatch haccepts

theorem SlotInv.step (hinv : SlotInv agents trace s phases)
    (hop : ((agents i).protocol i).allowed (phases i) op) (hlawful : Lawful ⟨i, op, ch, s⟩)
    (hsettled : Settled ⟨i, op, ch, s⟩) :
    SlotInv agents (trace ++ [⟨i, op, ch, s⟩]) (serve ch op s).2
      (update phases i (((agents i).protocol i).advance (phases i) op (serve ch op s).1)) := by
  have hlease := hinv.lease.step hop hlawful
  have hsound := hinv.lease.owned.sound
  refine ⟨hlease, ?_, hinv.slots.step hop, ?_⟩
  · intro k process rounds hagent
    have hfits := hinv.lease.fits k process rounds hagent
    by_cases hk : k = i
    · -- the sweeper's own call
      subst hk
      rw [update_self]
      rw [hagent] at hop ⊢
      exact (hinv.calm k process rounds hagent).own hfits hinv.lease.owned hlease.owned hlawful.1
        hop hsettled
    · -- others neither write nor mint in its name
      rw [update_of_ne hk]
      obtain ⟨hput, hmint⟩ := own_of_allowed hop hk
      exact (hinv.calm k process rounds hagent).other hfits hsound hlease.owned hlawful.1 hput hmint
  · intro e he k w h hreport
    rcases mem_append.mp he with he | he
    · obtain ⟨⟨process, rounds, hagent⟩, hlost⟩ := hinv.lost e he k w h hreport
      have hfits := hinv.lease.fits k process rounds hagent
      have hcalm := hinv.calm k process rounds hagent
      refine ⟨⟨process, rounds, hagent⟩, ?_⟩
      by_cases hk : k = i
      · subst hk
        rw [update_self]
        rw [hagent] at hop ⊢
        obtain ⟨hput, -, hended⟩ := ended_of_allows hop hlost.ended (serve ch op s).1
        exact hlost.step hcalm hfits hsound hlease.owned hlawful.1 hput hended
      · rw [update_of_ne hk]
        exact hlost.step hcalm hfits hsound hlease.owned hlawful.1 (own_of_allowed hop hk).1
          hlost.ended
    · -- the report of this call: the phase says that the write was found lost
      have hevent := mem_singleton.mp he
      subst hevent
      have hreport : op = .report k .lost w h := hreport
      subst hreport
      obtain ⟨process, rounds, hagent, hop⟩ := sweeper_of_allowed hop id
      obtain ⟨rfl, hphase⟩ := lost_of_report process hop
      refine ⟨⟨process, rounds, hagent⟩, ?_⟩
      rw [update_self]
      have hcalm := hinv.calm k process rounds hagent
      rw [hagent]
      show LostSince _ k w s (phases k)
      rw [hphase] at hcalm ⊢
      exact ⟨.inl rfl, hcalm.2, fun _ _ hput => hput⟩

theorem slotInv_run (hstart : s.Starts) {schedule : List (Nat × Choice)}
    (hok : ∀ event ∈ (pool agents s).trace serve schedule, Lawful event ∧ Settled event) :
    ∃ phases, SlotInv agents ((pool agents s).trace serve schedule)
      ((pool agents s).run serve schedule).state phases := by
  have hinit : SlotInv agents [] s fun _ => .idle none :=
    ⟨hstart.leaseInv, fun _ _ _ _ => trivial, ⟨nofun, nofun⟩, fun e he => absurd he not_mem_nil⟩
  exact invariant_run (fun _ _ _ _ _ _ hinv hop hok => hinv.step hop hok.1 hok.2) hinit hok

theorem SlotInv.held_of_ownsLive (hinv : SlotInv agents trace s phases) {process rounds : Nat}
    (hagent : agents i = .force process rounds) (hlive : s.OwnsLive i) :
    (phases i).held = true := by
  have hfits := hinv.lease.fits i process rounds hagent
  have hcalm := hinv.calm i process rounds hagent
  have hput : ∃ w, s.HasPut i w := by
    obtain ⟨a, hstored, htoken, -⟩ := hlive
    obtain ⟨w, replaced, hput, -⟩ :=
      hinv.lease.owned.origin a (hinv.lease.owned.sound.current a hstored) i htoken
    exact ⟨w, .inr ⟨replaced, a.version, hput⟩⟩
  obtain ⟨w, hput⟩ := hput
  cases hphase : phases i with
  | idle read =>
    rw [hphase] at hfits
    exact absurd hput (hfits.2 w)
  | finished written =>
    rw [hphase] at hfits hcalm
    cases written with
    | none => exact absurd hput (hfits w)
    | some w' => exact absurd hlive (Rss.Quiet.live hcalm)
  | _ => rfl

/-- ★ **Leases have workers.** Whatever the gateways do, in every run whose moments are settled: a
    lease write that was reported lost is not the record and has no effect after the report, and the
    slot of a process that did not crash is taken while the record is a live lease of one of its
    sweepers. -/
theorem leases_have_workers (hstart : s.Starts) {schedule : List (Nat × Choice)}
    (hok : ∀ event ∈ (pool agents s).trace serve schedule, Lawful event ∧ Settled event) :
    (∀ e ∈ (pool agents s).trace serve schedule, ∀ i w h, e.op = .report i .lost w h →
      ((pool agents s).run serve schedule).state.Absent w
      ∧ ∀ replaced v, Change.put i w replaced
        v ∈ ((pool agents s).run serve schedule).state.register.log →
        Change.put i w replaced v ∈ e.before.register.log)
    ∧ ∀ i process rounds, agents i = .force process rounds →
      ((pool agents s).run serve schedule).state.OwnsLive i →
      ((pool agents s).run serve schedule).state.crashed process = false →
      ((pool agents s).run serve schedule).state.running process = true := by
  obtain ⟨phases, hinv⟩ := slotInv_run hstart hok
  constructor
  · intro e he i w h hreport
    obtain ⟨-, hlost⟩ := hinv.lost e he i w h hreport
    exact ⟨hlost.absent, hlost.log⟩
  · intro i process rounds hagent hlive hcrashed
    exact hinv.slots.running i process rounds hagent (hinv.held_of_ownsLive hagent hlive) hcrashed

end

/-! ## §6. A write that is lost for good -/

def ownsLive (s : Rss) (i : Nat) : Bool :=
  match s.register.stored with
  | none => false
  | some a => s.minted.contains (a.data.sweepToken, i) && a.data.sweepAlive s.clock

def isSettled (event : Event Op Rss Choice Nat) : Bool :=
  match event.op with
  | .get i (some w) =>
    match event.before.register.stored with
    | none => true
    | some a =>
      a.version != w.version || (!event.before.flight.contains (.put i w) && !ownsLive event.before
      i)
  | .release _ i .failed => !ownsLive event.before i
  | _ => true

theorem not_ownsLive {s : Rss} {i : Nat} (h : ownsLive s i = false) : ¬ s.OwnsLive i := by
  rintro ⟨a, hstored, htoken, halive⟩
  unfold ownsLive at h
  rw [hstored] at h
  simp [htoken, halive] at h

theorem settled_of_isSettled {event : Event Op Rss Choice Nat}
    (h : isSettled event = true) : Settled event := by
  obtain ⟨who, op, ch, s⟩ := event
  cases op with
  | get i about =>
    cases about with
    | none => trivial
    | some w =>
      intro _ a hstored hversion
      have hstored : s.register.stored = some a := hstored
      change (match s.register.stored with
        | none => true
        | some a => a.version != w.version || (!s.flight.contains (.put i w) && !ownsLive s i))
          = true at h
      rw [hstored] at h
      simp only [hversion, bne_self_eq_false, Bool.false_or, Bool.and_eq_true,
        Bool.not_eq_true'] at h
      exact ⟨by simpa using h.1, not_ownsLive h.2⟩
  | release p i outcome =>
    cases outcome with
    | failed =>
      have h : (!ownsLive s i) = true := h
      exact not_ownsLive (by simpa using h)
    | done | leaseLost | stale => trivial
  | _ => trivial

def oneForce (i : Nat) : Agent := if i = 0 then .force 0 0 else .time

def forcePool : Pool Op Ans Unit Rss Nat := pool oneForce (rssWith staleDrive)

def startSchedule : List (Nat × Choice) := List.replicate 7 (0, answered 2) ++ [(0, answered 3)]

def lostSchedule : List (Nat × Choice) :=
  List.replicate 6 (0, answered 2) ++ List.replicate 4 (0, unanswered .dropped) ++ List.replicate 3
    (0, answered 2)

theorem ok_of_tests {schedule : List (Nat × Choice)} {agents : Nat → Agent} {s : Rss}
    (h : ((pool agents s).trace serve schedule).all (fun event => isLawful event && isSettled event)
    = true) :
    ∀ event ∈ (pool agents s).trace serve schedule, Lawful event ∧ Settled event := by
  intro event hevent
  obtain ⟨hlawful, hsettled⟩ := Bool.and_eq_true_iff.mp (all_eq_true.mp h event hevent)
  exact ⟨lawful_of_isLawful hlawful, settled_of_isSettled hsettled⟩

theorem leases_have_workers_at_samples :
    (∃ e ∈ forcePool.trace serve lostSchedule,
      e.op = .report 0 .lost firstLease firstLease ∧
      (forcePool.run serve lostSchedule).state.Absent firstLease) ∧
    (forcePool.run serve startSchedule).state.OwnsLive 0 ∧
    (forcePool.run serve startSchedule).state.running 0 = true := by
  have hstart : (rssWith staleDrive).Starts := starts_rssWith (by decide)
  have hreport : (forcePool.trace serve lostSchedule)[11]?.map Event.op
      = some (.report 0 .lost firstLease firstLease) := by
    decide +kernel
  obtain ⟨e, he, hop⟩ := Option.map_eq_some_iff.mp hreport
  have hmem := mem_of_getElem? he
  have hlive : (forcePool.run serve startSchedule).state.OwnsLive 0 :=
    ⟨⟨2, firstLease.data⟩, by decide +kernel, by decide +kernel, by decide +kernel⟩
  refine ⟨⟨e, hmem, hop, ((leases_have_workers hstart (ok_of_tests (by decide +kernel))).1 e hmem _
    _ _ hop).1⟩, hlive, ?_⟩
  exact (leases_have_workers hstart (ok_of_tests (by decide +kernel))).2 0 0 0 rfl hlive
    (by decide +kernel)

end FractalBits.Drives
