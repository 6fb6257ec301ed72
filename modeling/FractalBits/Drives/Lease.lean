/-
  Drives.Lease — lease writes are fenced.

  A sweeper takes and renews its lease by conditional writes of the drive's record. The token in it
  says whose write it is, so a sweeper that lost the reply can settle it by reading back.
-/

import FractalBits.Drives.Phases

namespace FractalBits.Drives

open Lib List Function

/-! ## §1. Writes and tokens -/

/-- A put of `i` that is under way or has been stored. -/
def Rss.HasPut (s : Rss) (i : Nat) (w : Versioned Drive) : Prop :=
  Request.put i w ∈ s.flight ∨ ∃ replaced version, Change.put i w replaced version ∈ s.register.log

/-- Every token was minted for one sweeper, and only its puts carry it. -/
structure Rss.Owned (s : Rss) : Prop where
  sound : s.register.Sound
  owner : ∀ token i j, (token, i) ∈ s.minted → (token, j) ∈ s.minted → i = j
  named : ∀ token i, (token, i) ∈ s.minted → token ≠ []
  puts : ∀ i w, s.HasPut i w → w.data.sweepToken ≠ [] → (w.data.sweepToken, i) ∈ s.minted
  origin : ∀ a ∈ s.register.past, ∀ i, (a.data.sweepToken, i) ∈ s.minted →
    ∃ w replaced, Change.put i w replaced a.version ∈ s.register.log ∧ w.data = a.data

/-- A new token is not empty, and none that was minted or stored. -/
def FreshTokens (event : Event Op Rss Choice Nat) : Prop :=
  ∀ who, event.op = .newToken who → event.choice.token ≠ []
    ∧ (∀ j, (event.choice.token, j) ∉ event.before.minted)
    ∧ ∀ a ∈ event.before.register.past, a.data.sweepToken ≠ event.choice.token

section

variable {s : Rss} {ch : Choice} {op : Op} {i j : Nat} {w : Versioned Drive}

theorem mem_log_serve (ch : Choice) (op : Op) {c : Change Drive} (h : c ∈ s.register.log) :
    c ∈ (serve ch op s).2.register.log := by
  have hserved := served ch op s
  generalize (serve ch op s).2.register = after at hserved ⊢
  cases hserved with
  | same => exact h
  | put | delete => exact mem_append_left _ h

theorem mem_minted_serve (ch : Choice) (op : Op) {x : Bytes × Nat} (h : x ∈ s.minted) :
    x ∈ (serve ch op s).2.minted := by
  rw [minted_serve]
  split
  · exact mem_cons_of_mem _ h
  · exact h

theorem of_mem_minted_serve {x : Bytes × Nat} (h : x ∈ (serve ch op s).2.minted) :
    x ∈ s.minted ∨ ∃ who, op = .newToken who ∧ x = (ch.token, who) := by
  rw [minted_serve] at h
  split at h
  · next who =>
      rcases mem_cons.mp h with h | h
      · exact .inr ⟨who, rfl, h⟩
      · exact .inl h
  · exact .inl h

theorem hasPut_serve (h : (serve ch op s).2.HasPut i w) :
    s.HasPut i w ∨ op.request? = some (.put i w) := by
  rcases h with hflight | ⟨replaced, version, hlog⟩
  · rcases mem_flight_serve hflight with h | h
    · exact .inl (.inl h)
    · exact .inr h
  · have hserved := served ch op s
    generalize (serve ch op s).2.register = after at hserved hlog
    cases hserved with
    | same => exact .inl (.inr ⟨replaced, version, hlog⟩)
    | put who drive hrequest haccepts =>
      rcases mem_append.mp hlog with hlog | hlog
      · exact .inl (.inr ⟨replaced, version, hlog⟩)
      · cases mem_singleton.mp hlog
        rcases hrequest with hsent | hflight
        · exact .inr hsent
        · exact .inl (.inl hflight)
    | delete who expected a hrequest hstored hdeletes =>
      rcases mem_append.mp hlog with hlog | hlog
      · exact .inl (.inr ⟨replaced, version, hlog⟩)
      · cases mem_singleton.mp hlog

theorem Rss.Owned.serve (h : s.Owned) (hfresh : s.register.Fresh ch.version)
    (htoken : FreshTokens ⟨j, op, ch, s⟩)
    (hsent : ∀ i w, op.request? = some (.put i w) → w.data.sweepToken ≠ [] → (w.data.sweepToken, i)
    ∈ s.minted) :
    (Drives.serve ch op s).2.Owned := by
  have howner : ∀ token i j, (token, i) ∈ (Drives.serve ch op s).2.minted →
      (token, j) ∈ (Drives.serve ch op s).2.minted → i = j := by
    intro token i k hi hk
    rcases of_mem_minted_serve hi with hi' | ⟨who, rfl, hi'⟩
    · rcases of_mem_minted_serve hk with hk' | ⟨who, rfl, hk'⟩
      · exact h.owner token i k hi' hk'
      · cases hk'
        exact absurd hi' ((htoken _ rfl).2.1 i)
    · cases hi'
      rcases of_mem_minted_serve hk with hk' | ⟨who', hop, hk'⟩
      · exact absurd hk' ((htoken _ rfl).2.1 k)
      · cases hop
        cases hk'
        rfl
  have hputs : ∀ i w, s.HasPut i w ∨ op.request? = some (.put i w) → w.data.sweepToken ≠ [] →
      (w.data.sweepToken, i) ∈ s.minted := by
    intro i w hput hne
    rcases hput with hput | hput
    · exact h.puts i w hput hne
    · exact hsent i w hput hne
  have hnamed : ∀ token i, (token, i) ∈ (Drives.serve ch op s).2.minted → token ≠ [] := by
    intro token i hi
    rcases of_mem_minted_serve hi with hi' | ⟨who, rfl, hi'⟩
    · exact h.named token i hi'
    · cases hi'
      exact (htoken _ rfl).1
  refine ⟨sound_serve h.sound hfresh, howner, hnamed, ?_, ?_⟩
  · intro i w hput hne
    exact mem_minted_serve ch op (hputs i w (hasPut_serve hput) hne)
  · intro a ha i hi
    -- a record from before has its token from before, and so has one that is stored now
    have hold : a ∈ s.register.past → ∃ w replaced, Change.put i w replaced a.version
      ∈ (Drives.serve ch op s).2.register.log
        ∧ w.data = a.data := by
      intro ha
      rcases of_mem_minted_serve hi with hi' | ⟨who, rfl, hi'⟩
      · obtain ⟨w, replaced, hput, hdata⟩ := h.origin a ha i hi'
        exact ⟨w, replaced, mem_log_serve ch op hput, hdata⟩
      · exact absurd (congrArg Prod.fst hi') ((htoken _ rfl).2.2 a ha)
    have hserved := served ch op s
    generalize (Drives.serve ch op s).2.register = after at hserved ha hold ⊢
    cases hserved with
    | same | delete => exact hold ha
    | put who drive hrequest haccepts =>
      rcases mem_cons.mp ha with rfl | ha
      · have hmine := hputs who drive (hrequest.symm.imp .inl id) (hnamed _ i hi)
        have hsame : i = who := howner _ i who hi (mem_minted_serve ch op hmine)
        subst hsame
        exact ⟨drive, s.register.stored, mem_append_right _ (mem_singleton.mpr rfl), rfl⟩
      · exact hold ha

end

/-! ## §2. What a sweeper knows -/

/-- `w` is the last put of `i`, over a version that was stored. -/
structure Rss.LastWrite (s : Rss) (i : Nat) (w : Versioned Drive) : Prop where
  token : (w.data.sweepToken, i) ∈ s.minted
  known : ∃ a ∈ s.register.past, a.version = w.version
  latest : ∀ w', s.HasPut i w' → w'.data.sweepHeartbeatMs < w.data.sweepHeartbeatMs ∨ w' = w
  same : ∀ w', s.HasPut i w' → SameIncarnation w'.data w.data

/-- `h` is what the put `w` stored. -/
def Rss.Landed (s : Rss) (i : Nat) (w h : Versioned Drive) : Prop :=
  h.data = w.data ∧ ∃ replaced, Change.put i w replaced h.version ∈ s.register.log

/-- What a sweeper knows in a phase is so. -/
def Phase.Fits (i : Nat) (s : Rss) : Phase → Prop
  | .idle read => (∀ a, read = some a → a ∈ s.register.past) ∧ ∀ w, ¬ s.HasPut i w
  | .slot read => read ∈ s.register.past ∧ ∀ w, ¬ s.HasPut i w
  | .minted read token => read ∈ s.register.past ∧ (token, i) ∈ s.minted ∧ ∀ w, ¬ s.HasPut i w
  | .writing w | .lost w => s.LastWrite i w
  | .holding w h => s.LastWrite i w ∧ s.Landed i w h ∧ s.seen i = some h
  | .dropping w h => s.LastWrite i w ∧ (∃ h, s.Landed i w h) ∧ SameIncarnation h.data w.data
  | .gone w => s.LastWrite i w ∧ ∃ h, s.Landed i w h
  | .finished none => ∀ w, ¬ s.HasPut i w
  | .finished (some w) => s.LastWrite i w

/-- A call of another sweeper: no new put of `i`, and nothing forgotten. -/
structure Keeps (i : Nat) (s s' : Rss) : Prop where
  puts : ∀ w, s'.HasPut i w → s.HasPut i w
  past : ∀ a ∈ s.register.past, a ∈ s'.register.past
  minted : ∀ x ∈ s.minted, x ∈ s'.minted
  log : ∀ c ∈ s.register.log, c ∈ s'.register.log

section

variable {s s' : Rss} {ch : Choice} {op : Op} {process i j : Nat} {w h : Versioned Drive}
    {g : Phase}

theorem keeps_serve (hop : ∀ w, op.request? ≠ some (.put i w)) : Keeps i s (serve ch op s).2 where
  puts w hput := (hasPut_serve hput).resolve_right (hop w)
  past _ ha := mem_past_serve ch op ha
  minted _ hx := mem_minted_serve ch op hx
  log _ hc := mem_log_serve ch op hc

theorem Rss.LastWrite.keep (h : s.LastWrite i w) (hkeep : Keeps i s s') : s'.LastWrite i w where
  token := hkeep.minted _ h.token
  known := by
    obtain ⟨a, ha, hversion⟩ := h.known
    exact ⟨a, hkeep.past a ha, hversion⟩
  latest w' hput := h.latest w' (hkeep.puts w' hput)
  same w' hput := h.same w' (hkeep.puts w' hput)

theorem Rss.LastWrite.ne_zero (h : s.LastWrite i w) (howned : s.Owned) : w.version ≠ 0 := by
  obtain ⟨a, ha, hversion⟩ := h.known
  rw [← hversion]
  exact howned.sound.nonzero a ha

theorem Rss.Landed.keep (hlanded : s.Landed i w h) (hkeep : Keeps i s s') : s'.Landed i w h := by
  obtain ⟨hdata, replaced, hput⟩ := hlanded
  exact ⟨hdata, replaced, hkeep.log _ hput⟩

theorem Phase.Fits.keep (hfits : g.Fits i s) (hkeep : Keeps i s s')
    (hseen : s'.seen i = s.seen i) : g.Fits i s' := by
  have hnone : (∀ w, ¬ s.HasPut i w) → ∀ w, ¬ s'.HasPut i w := fun hnot w hput =>
    hnot w (hkeep.puts w hput)
  cases g with
  | idle read => exact ⟨fun a ha => hkeep.past a (hfits.1 a ha), hnone hfits.2⟩
  | slot read => exact ⟨hkeep.past _ hfits.1, hnone hfits.2⟩
  | minted read token => exact ⟨hkeep.past _ hfits.1, hkeep.minted _ hfits.2.1, hnone hfits.2.2⟩
  | writing w => exact Rss.LastWrite.keep hfits hkeep
  | lost w => exact Rss.LastWrite.keep hfits hkeep
  | holding w h =>
    refine ⟨hfits.1.keep hkeep, hfits.2.1.keep hkeep, ?_⟩
    rw [hseen]
    exact hfits.2.2
  | dropping w h =>
    obtain ⟨hlast, ⟨h', hlanded⟩, hsame⟩ := hfits
    exact ⟨hlast.keep hkeep, ⟨h', hlanded.keep hkeep⟩, hsame⟩
  | gone w =>
    obtain ⟨hlast, h', hlanded⟩ := hfits
    exact ⟨hlast.keep hkeep, h', hlanded.keep hkeep⟩
  | finished written =>
    cases written with
    | none => exact hnone hfits
    | some w => exact Rss.LastWrite.keep hfits hkeep

theorem Phase.Fits.lastWrite (hfits : g.Fits i s) (hw : g.written? = some w) : s.LastWrite i w := by
  cases g with
  | idle | slot | minted => cases hw
  | writing w' =>
    cases hw
    exact hfits
  | lost w' =>
    cases hw
    exact hfits
  | holding w' h =>
    cases hw
    exact hfits.1
  | dropping w' h =>
    cases hw
    exact hfits.1
  | gone w' =>
    cases hw
    exact hfits.1
  | finished written =>
    have hw : written = some w := hw
    subst hw
    exact hfits

variable (howned : s.Owned)

include howned

theorem Phase.Fits.mayWrite (hfits : g.Fits i s) (hw : g.MayWrite w) :
    (w.data.sweepToken, i) ∈ s.minted ∧ (∃ a ∈ s.register.past, a.version = w.version)
      ∧ ∀ w', s.HasPut i w' →
        (w'.data.sweepHeartbeatMs < w.data.sweepHeartbeatMs ∨ w' = w)
          ∧ SameIncarnation w'.data w.data := by
  cases g with
  | minted read token =>
    obtain ⟨hversion, -, htoken⟩ := hw
    refine ⟨?_, ⟨read, hfits.1, hversion.symm⟩, fun w' hput => absurd hput (hfits.2.2 w')⟩
    rw [htoken]
    exact hfits.2.1
  | writing written =>
    have hw : w = written := hw
    subst hw
    have hlast : s.LastWrite i w := hfits
    exact ⟨hlast.token, hlast.known, fun w' hput => ⟨hlast.latest w' hput, hlast.same w' hput⟩⟩
  | holding written handle =>
    obtain ⟨hlast, ⟨hdata, replaced, hput⟩, -⟩ := hfits
    obtain ⟨hversion, ⟨hsame, htoken⟩, hlater⟩ := hw
    rw [hdata] at hsame htoken hlater
    refine ⟨?_, ⟨_, howned.sound.stamped _ _ _ _ hput, hversion.symm⟩,
      fun w' hput' => ⟨.inl ?_, ?_⟩⟩
    · rw [htoken]
      exact hlast.token
    · rcases hlast.latest w' hput' with hlt | rfl
      · omega
      · exact hlater
    · exact (hlast.same w' hput').trans hsame.symm
  | _ => cases hw

/-! ## §3. One call of a sweeper -/

omit howned in
theorem register_of_put_ok {version : Int}
    (hans : (serve ch (.put i w) s).1 = (.ok version : Except RpcError Int)) :
    (serve ch (.put i w) s).2.register = s.register.write i w version := by
  have hans : (s.send ch (.put i w) (s.putReply w ch.version)).1 = .ok version := hans
  show (s.send ch (.put i w) (s.putReply w ch.version)).2.register = _
  unfold Rss.send at hans ⊢
  cases hd : ch.delivery with
  | answered =>
    rw [hd] at hans
    dsimp only at hans ⊢
    unfold Rss.putReply at hans
    rw [apply_put]
    split at hans
    · next haccepts =>
        rw [if_pos haccepts, Except.ok.inj hans]
    · cases hans
  | _ =>
    rw [hd] at hans
    cases hans

theorem lastWrite_put (hfits : g.Fits i s) (hw : g.MayWrite w) :
    (serve ch (.put i w) s).2.LastWrite i w := by
  obtain ⟨htoken, ⟨a, ha, hversion⟩, hbefore⟩ := hfits.mayWrite howned hw
  have hall : ∀ w', (serve ch (.put i w) s).2.HasPut i w' →
      (w'.data.sweepHeartbeatMs < w.data.sweepHeartbeatMs ∨ w' = w)
        ∧ SameIncarnation w'.data w.data := by
    intro w' hput
    rcases hasPut_serve hput with hput | hsent
    · exact hbefore w' hput
    · cases hsent
      exact ⟨.inr rfl, rfl, rfl⟩
  exact ⟨mem_minted_serve ch _ htoken, ⟨a, mem_past_serve ch _ ha, hversion⟩,
    fun w' hput => (hall w' hput).1, fun w' hput => (hall w' hput).2⟩

theorem Phase.Fits.put (hfits : g.Fits i s) (hw : g.MayWrite w) :
    (Phase.afterPut w (serve ch (.put i w) s).1).Fits i (serve ch (.put i w) s).2 := by
  have hlast : (serve ch (.put i w) s).2.LastWrite i w := lastWrite_put howned hfits hw
  generalize hans : (serve ch (.put i w) s).1 = ans
  cases ans with
  | error e => exact hlast
  | ok version =>
    have hregister := register_of_put_ok hans
    refine ⟨hlast, ⟨rfl, s.register.stored, ?_⟩, ?_⟩
    · rw [hregister]
      exact mem_append_right _ (mem_singleton.mpr rfl)
    · have hseen : (serve ch (.put i w) s).2.seen i = (serve ch (.put i w) s).2.register.stored :=
        update_self ..
      rw [hseen, hregister]
      rfl

theorem Rss.LastWrite.landed (hlast : s.LastWrite i w) {a : Versioned Drive}
    (hstored : s.register.stored = some a) (ha : IsWrite w.data a.data) : s.Landed i w a := by
  obtain ⟨-, htoken, hbeat⟩ := ha
  have hmine : (a.data.sweepToken, i) ∈ s.minted := by
    rw [htoken]
    exact hlast.token
  obtain ⟨w', replaced, hput, hdata⟩ := howned.origin a (howned.sound.current a hstored) i hmine
  have hw' : w' = w := by
    rcases hlast.latest w' (.inr ⟨replaced, a.version, hput⟩) with hlt | heq
    · rw [hdata] at hlt
      omega
    · exact heq
  subst hw'
  exact ⟨hdata.symm, replaced, hput⟩

theorem Phase.Fits.readBack (hlast : s.LastWrite i w) :
    (Phase.afterReadBack w (serve ch (.get i (some w)) s).1).Fits i
      (serve ch (.get i (some w)) s).2 := by
  have hkeep : Keeps i s (serve ch (.get i (some w)) s).2 := keeps_serve nofun
  generalize hans : (serve ch (.get i (some w)) s).1 = ans
  cases ans with
  | error e =>
    cases e with
    | notFound | retry | transport => exact hlast.keep hkeep
  | ok a =>
    have hstored := stored_of_get_ok hans
    unfold Phase.afterReadBack
    dsimp only
    by_cases hwrite : IsWrite w.data a.data
    · rw [if_pos hwrite]
      refine ⟨hlast.keep hkeep, (hlast.landed howned hstored hwrite).keep hkeep, ?_⟩
      show update s.seen i s.register.stored i = _
      rw [update_self, hstored]
    · rw [if_neg hwrite]
      exact hlast.keep hkeep

theorem Phase.Fits.read (hfits : g.Fits i s)
    (hg : (∃ read, g = .idle read) ∨ ∃ w h, g = .dropping w h) :
    (g.afterRead (serve ch (.get i none) s).1).Fits i (serve ch (.get i none) s).2 := by
  have hkeep : Keeps i s (serve ch (.get i none) s).2 := keeps_serve nofun
  generalize hans : (serve ch (.get i none) s).1 = ans
  rcases hg with ⟨read, rfl⟩ | ⟨w, h, rfl⟩
  · -- before the slot is taken nothing was written, and a read writes nothing
    obtain ⟨read', hread, hfrom⟩ := afterRead_idle read ans
    rw [hread]
    refine ⟨fun a ha => ?_, fun w hput => hfits.2 w (hkeep.puts w hput)⟩
    rcases hfrom a ha with rfl | ha
    · exact hkeep.past a (howned.sound.current a (stored_of_get_ok hans))
    · exact hkeep.past a (hfits.1 a ha)
  · -- at the end of the sweep only the incarnation decides whether the drop goes on
    obtain ⟨hlast, ⟨h', hlanded⟩, hsame⟩ := hfits
    have hlast := hlast.keep hkeep
    have hlanded := hlanded.keep hkeep
    cases ans with
    | ok a =>
      show (if _ then _ else _ : Phase).Fits i _
      by_cases ha : SameIncarnation a.data h.data
      · rw [if_pos ha]
        exact ⟨hlast, ⟨h', hlanded⟩, ha.trans hsame⟩
      · rw [if_neg ha]
        exact ⟨hlast, h', hlanded⟩
    | error e =>
      cases e with
      | notFound => exact ⟨hlast, h', hlanded⟩
      | retry | transport => exact ⟨hlast, ⟨h', hlanded⟩, hsame⟩

omit howned in
theorem Phase.Fits.delete {version : Int} (hfits : g.Fits i s)
    (hg : (∃ read, g = .idle read) ∨ ∃ w h, g = .holding w h ∨ g = .dropping w h) :
    (g.afterDelete (serve ch (.delete i version) s).1).Fits i
      (serve ch (.delete i version) s).2 := by
  have hkeep : Keeps i s (serve ch (.delete i version) s).2 := keeps_serve nofun
  generalize (serve ch (.delete i version) s).1 = ans
  rcases hg with ⟨read, rfl⟩ | ⟨w, h, rfl | rfl⟩
  · rw [afterDelete_idle read ans]
    exact ⟨fun a ha => hkeep.past a (hfits.1 a ha), fun w hput => hfits.2 w (hkeep.puts w hput)⟩
  · obtain ⟨hlast, hlanded, -⟩ := hfits
    have hlast := hlast.keep hkeep
    have hlanded := hlanded.keep hkeep
    cases ans with
    | ok u => exact ⟨hlast, h, hlanded⟩
    | error e =>
      refine ⟨hlast, ⟨h, hlanded⟩, ?_⟩
      rw [hlanded.1]
      exact ⟨rfl, rfl⟩
  · obtain ⟨hlast, ⟨h', hlanded⟩, hsame⟩ := hfits
    have hlast := hlast.keep hkeep
    have hlanded := hlanded.keep hkeep
    cases ans with
    | ok u => exact ⟨hlast, h', hlanded⟩
    | error e => exact ⟨hlast, ⟨h', hlanded⟩, hsame⟩

theorem Phase.Fits.own (hfits : g.Fits i s) (hop : g.Allows process i op) :
    (g.advance op (serve ch op s).1).Fits i (serve ch op s).2 := by
  cases op with
  | put who w =>
    obtain ⟨rfl, hw⟩ := hop
    exact hfits.put howned hw
  | get who about =>
    cases about with
    | none =>
      obtain ⟨rfl, hg⟩ := hop
      exact hfits.read howned hg
    | some w =>
      obtain ⟨rfl, rfl⟩ := hop
      exact Phase.Fits.readBack howned hfits
  | delete who version =>
    obtain ⟨rfl, hg⟩ := hop
    exact hfits.delete (hg.imp_right fun ⟨w, h, hg, _⟩ => ⟨w, h, hg⟩)
  | unixMs | choose | report => exact hfits.keep (keeps_serve nofun) rfl
  | newToken who =>
    obtain ⟨rfl, read, rfl⟩ := hop
    exact ⟨hfits.1, mem_cons_self, hfits.2⟩
  | register p =>
    obtain ⟨rfl, read, rfl⟩ := hop
    -- `RUNNING.insert` says whether the slot was free
    show (if (!s.running p) = true then Phase.slot read else Phase.finished none).Fits i _
    split
    · exact ⟨hfits.1 read rfl, hfits.2⟩
    · exact hfits.2
  | release p who outcome =>
    obtain ⟨rfl, rfl, hends⟩ := hop
    have hkeep : Keeps who s (serve ch (.release p who outcome) s).2 := keeps_serve nofun
    -- the phase remembers the last write beyond the end of the sweep
    show (Phase.finished g.written?).Fits who _
    cases hw : g.written? with
    | none =>
      cases g with
      | idle | slot | minted | finished => cases hends
      | _ => cases hw
    | some w => exact (hfits.lastWrite hw).keep hkeep
  | deliver | tick | crash => cases hop

end

/-! ## §4. All runs -/

/-- What the last call of the sweeper found or left is what this write stored, directly over the
    version held. -/
structure Rss.Fenced (s : Rss) (i : Nat) (w h : Versioned Drive) : Prop where
  stored : s.seen i = some h
  data : h.data = w.data
  direct : ∃ old, old.version = w.version ∧ Change.put i w (some old) h.version ∈ s.register.log

/-- The invariant of a run: what was reported as landed was fenced. -/
structure LeaseInv (agents : Nat → Agent) (trace : List (Event Op Rss Choice Nat)) (s : Rss)
    (phases : Nat → Phase) : Prop where
  owned : s.Owned
  fits : ∀ i process rounds, agents i = .force process rounds → (phases i).Fits i s
  grown : ∀ e ∈ trace, ∀ c ∈ e.before.register.log, c ∈ s.register.log
  reports : ∀ e ∈ trace, ∀ i w h, e.op = .report i .landed w h → e.who = i ∧ w.version ≠ 0
    ∧ e.before.Fenced i w h

/-- The service draws new versions and tokens. -/
def Lawful (event : Event Op Rss Choice Nat) : Prop := FreshVersions event ∧ FreshTokens event

/-- `Lawful` as a test. -/
def isLawful (event : Event Op Rss Choice Nat) : Bool :=
  event.choice.version != 0 && event.before.register.past.all
    (fun a => a.version != event.choice.version) && match event.op with
      | .newToken _ =>
        event.choice.token != [] && event.before.minted.all (fun x => x.1 != event.choice.token)
          && event.before.register.past.all fun a => a.data.sweepToken != event.choice.token
      | _ => true

theorem lawful_of_isLawful {event : Event Op Rss Choice Nat} (h : isLawful event = true) :
    Lawful event := by
  obtain ⟨hversion, htoken⟩ := Bool.and_eq_true_iff.mp h
  obtain ⟨hzero, hpast⟩ := Bool.and_eq_true_iff.mp hversion
  refine ⟨⟨by simpa using hzero, fun a ha => by simpa using all_eq_true.mp hpast a ha⟩,
    fun who hop => ?_⟩
  rw [hop] at htoken
  simp only [Bool.and_eq_true, bne_iff_ne, all_eq_true] at htoken
  exact ⟨htoken.1.1, fun j hmem => htoken.1.2 _ hmem rfl, htoken.2⟩

section

variable {agents : Nat → Agent} {trace : List (Event Op Rss Choice Nat)} {s : Rss}
  {phases : Nat → Phase} {ch : Choice} {op : Op} {i j : Nat} {w h : Versioned Drive} {g : Phase}

theorem Phase.Allows.signed {process : Nat} (hop : g.Allows process i op) : op.SignedBy i := by
  cases op with
  | put who w => exact hop.1
  | get who about =>
    cases about with
    | none => exact hop.1
    | some w => exact hop.1
  | delete who version => exact hop.1
  | _ => trivial

theorem Op.Bystands.signed (hop : op.Bystands i) : op.SignedBy i := by
  cases op with
  | put who w => exact hop.1
  | get who about => exact hop
  | delete who version => exact hop
  | _ => trivial

theorem signedBy_of_allowed {agent : Agent} (hop : (agent.protocol i).allowed g op) :
    op.SignedBy i := by
  cases agent with
  | force process rounds => exact Phase.Allows.signed hop
  | _ => exact Op.Bystands.signed hop

theorem Phase.Fits.other (hfits : g.Fits i s) (hj : j ≠ i) (hop : op.SignedBy j) :
    g.Fits i (serve ch op s).2 := by
  refine hfits.keep (keeps_serve ?_) (seen_serve ?_)
  · intro w hsent
    cases op with
    | put who drive =>
      cases hsent
      exact hj hop.symm
    | _ => cases hsent
  · rintro who (⟨drive, rfl⟩ | ⟨about, rfl⟩ | ⟨version, rfl⟩)
    · have hop : who = j := hop
      rw [hop]
      exact hj
    · have hop : who = j := hop
      rw [hop]
      exact hj
    · have hop : who = j := hop
      rw [hop]
      exact hj

theorem LeaseInv.report (hinv : LeaseInv agents trace s phases)
    (hop : ((agents i).protocol i).allowed (phases i) (.report j .landed w h)) :
    i = j ∧ w.version ≠ 0 ∧ s.Fenced j w h := by
  obtain ⟨process, rounds, hagent, rfl, hreports⟩ := sweeper_of_allowed hop id
  have hfits := hinv.fits j process rounds hagent
  cases hphase : phases j with
  | holding written handle =>
    rw [hphase] at hreports hfits
    obtain ⟨-, rfl, rfl⟩ := hreports
    obtain ⟨hlast, ⟨hdata, replaced, hput⟩, hseen⟩ := hfits
    have hne := hlast.ne_zero hinv.owned
    obtain ⟨old, rfl, hold⟩ := hinv.owned.sound.replaced_of_put hput hne
    exact ⟨rfl, hne, hseen, hdata, old, hold, hput⟩
  | writing | lost =>
    rw [hphase] at hreports
    cases hreports.1
  | _ =>
    rw [hphase] at hreports
    cases hreports

theorem LeaseInv.step (hinv : LeaseInv agents trace s phases)
    (hop : ((agents i).protocol i).allowed (phases i) op) (hlawful : Lawful ⟨i, op, ch, s⟩) :
    LeaseInv agents (trace ++ [⟨i, op, ch, s⟩]) (serve ch op s).2
      (update phases i (((agents i).protocol i).advance (phases i) op (serve ch op s).1)) := by
  have hsigned := signedBy_of_allowed hop
  refine ⟨hinv.owned.serve hlawful.1 hlawful.2 ?_, ?_, ?_, ?_⟩
  · -- a write with a token is a sweeper's, and the token is its own
    intro k w hsent hne
    cases op with
    | put who drive =>
      cases hsent
      obtain ⟨process, rounds, hagent, rfl, hw⟩ := sweeper_of_allowed hop fun h => hne h.2
      exact ((hinv.fits _ process rounds hagent).mayWrite hinv.owned hw).1
    | _ => cases hsent
  · -- what each sweeper believes: its own call moves its phase, those of others do not touch it
    intro k process rounds hagent
    by_cases hk : k = i
    · subst hk
      rw [update_self]
      rw [hagent] at hop ⊢
      exact (hinv.fits k process rounds hagent).own hinv.owned hop
    · rw [update_of_ne hk]
      exact (hinv.fits k process rounds hagent).other (Ne.symm hk) hsigned
  · -- the log only grows
    intro e he c hc
    rcases mem_append.mp he with he | he
    · exact mem_log_serve ch op (hinv.grown e he c hc)
    · rw [mem_singleton.mp he] at hc
      exact mem_log_serve ch op hc
  · intro e he k w h hreport
    rcases mem_append.mp he with he | he
    · exact hinv.reports e he k w h hreport
    · have hevent := mem_singleton.mp he
      subst hevent
      have hreport : op = .report k .landed w h := hreport
      subst hreport
      exact hinv.report hop

/-- Nothing has been written or minted yet. -/
structure Rss.Starts (s : Rss) : Prop where
  sound : s.register.Sound
  log : s.register.log = []
  flight : s.flight = []
  minted : s.minted = []

theorem Rss.Starts.not_hasPut (hstart : s.Starts) (i : Nat) (w : Versioned Drive) :
    ¬ s.HasPut i w := by
  rintro (hflight | ⟨replaced, version, hlog⟩)
  · rw [hstart.flight] at hflight
    cases hflight
  · rw [hstart.log] at hlog
    cases hlog

theorem Rss.Starts.owned (hstart : s.Starts) : s.Owned := by
  have hnone : ∀ x, x ∉ s.minted := by
    intro x hx
    rw [hstart.minted] at hx
    cases hx
  exact ⟨hstart.sound, fun token i j hi _ => absurd hi (hnone _), fun token i hi => absurd hi
    (hnone _), fun i w hput _ => absurd hput (hstart.not_hasPut i w), fun a _ i hi =>
      absurd hi (hnone _)⟩

/-- The sweepers and gateways, with their programs to run. -/
def pool (agents : Nat → Agent) (s : Rss) : Pool Op Ans Unit Rss Nat where
  state := s
  left i := (agents i).program i

theorem invariant_run {G : List (Event Op Rss Choice Nat) → Rss → (Nat → Phase) → Prop}
    {ok : Event Op Rss Choice Nat → Prop}
    (hstep : ∀ trace s phases i op ch, G trace s phases → ((agents i).protocol i).allowed (phases i)
    op →
      ok ⟨i, op, ch, s⟩ → G (trace ++ [⟨i, op, ch, s⟩]) (serve ch op s).2
        (update phases i (((agents i).protocol i).advance (phases i) op (serve ch op s).1)))
    (hinit : G [] s fun _ => .idle none) {schedule : List (Nat × Choice)}
    (hok : ∀ event ∈ (pool agents s).trace serve schedule, ok event) :
    ∃ phases, G ((pool agents s).trace serve schedule) ((pool agents s).run serve schedule).state
      phases := by
  -- the protocols restrict calls, not answers
  have hpossible : ∀ i op ans, ((agents i).protocol i).possible op ans := by
    intro i op ans
    cases agents i with
    | _ => trivial
  have hleft : ∀ i, ((pool agents s).left i).Follows ((agents i).protocol i) (fun _ _ => True)
    (.idle none) :=
    fun i => follows_agent (agents i)
  obtain ⟨phases, hinv, -⟩ := Pool.follows_invariant
    (fun trace s phases i op ch hinv hop hok => ⟨hpossible i op _, hstep trace s phases i op ch hinv
      hop hok⟩)
    hinit hleft hok
  rw [nil_append] at hinv
  exact ⟨phases, hinv⟩

theorem Rss.Starts.leaseInv (hstart : s.Starts) : LeaseInv agents [] s fun _ => .idle none :=
  ⟨hstart.owned, fun i _ _ _ => ⟨nofun, hstart.not_hasPut i⟩, fun _ he => absurd he not_mem_nil,
    fun _ he => absurd he not_mem_nil⟩

/-- ★ **Lease writes are fenced.** Whatever the gateways do and whichever replies are lost or late:
    a lease write that is reported as landed is what the sweeper's last call found stored, directly
    over the version that it held before. So two reports about writes over one version are about one
    write. -/
theorem lease_writes_fenced (hstart : s.Starts) {schedule : List (Nat × Choice)}
    (hlawful : ∀ event ∈ (pool agents s).trace serve schedule, Lawful event) :
    (∀ e ∈ (pool agents s).trace serve schedule, ∀ i w h, e.op = .report i .landed w h →
      e.who = i ∧ e.before.Fenced i w h)
    ∧ ∀ e ∈ (pool agents s).trace serve schedule, ∀ e' ∈ (pool agents s).trace serve schedule,
      ∀ i w h i' w' h', e.op = .report i .landed w h → e'.op = .report i' .landed w' h' →
        w.version = w'.version →
      i = i' ∧ w = w' ∧ h = h' := by
  obtain ⟨phases, hinv⟩ := invariant_run (fun _ _ _ _ _ _ hinv hop hok => hinv.step hop hok)
    hstart.leaseInv hlawful
  refine ⟨fun e he i w h hop => ?_, ?_⟩
  · obtain ⟨hwho, -, hfenced⟩ := hinv.reports e he i w h hop
    exact ⟨hwho, hfenced⟩
  · intro e he e' he' i w h i' w' h' hop hop' hversion
    obtain ⟨-, hne, hfenced⟩ := hinv.reports e he i w h hop
    obtain ⟨-, -, hfenced'⟩ := hinv.reports e' he' i' w' h' hop'
    obtain ⟨old, -, hput⟩ := hfenced.direct
    obtain ⟨old', -, hput'⟩ := hfenced'.direct
    have hsame := hinv.owned.sound.put_eq (hinv.grown e he _ hput) (hinv.grown e' he' _ hput')
      hversion hne
    obtain ⟨hi, hw, -, hv⟩ := Change.put.inj hsame
    have hdata : h.data = h'.data := by rw [hfenced.data, hfenced'.data, hw]
    exact ⟨hi, hw, Versioned.ext hv hdata⟩

end

/-! ## §5. Two sweeps that start -/

/-- Two sweepers that each force a lease. -/
def twoForces (i : Nat) : Agent := if i < 2 then .force i 0 else .time

/-- A call that is carried out and answered. -/
def answered (version : Int) : Choice :=
  { delivery := .answered, version := version, token := ascii "tok-a", value := 2 }

/-- Both have read the record when the first one's lease is stored and its reply lost. The second
    one's write comes too late, and the first one finds its own lease when it reads back. -/
def contended : List (Nat × Choice) :=
  List.replicate 6 (0, answered 2) ++ List.replicate 6
    (1, { answered 2 with token := ascii "tok-b" })
      ++ (0, { answered 2 with delivery := .replyLost }) :: List.replicate 3 (1, answered 3)
    ++ List.replicate 3 (0, answered 3)

theorem starts_rssWith {a : Versioned Drive} (h : a.version ≠ 0) : (rssWith a).Starts :=
  ⟨sound_rssWith h, rfl, rfl, rfl⟩

/-- The lease that the first sweeper writes. -/
def firstLease : Versioned Drive := leased staleDrive 2 (ascii "tok-a")

theorem lawful_of_tests {agents : Nat → Agent} {s : Rss} {schedule : List (Nat × Choice)}
    (h : ((pool agents s).trace serve schedule).all isLawful = true) :
    ∀ event ∈ (pool agents s).trace serve schedule, Lawful event :=
  fun event hevent => lawful_of_isLawful (all_eq_true.mp h event hevent)

theorem lease_writes_fenced_at_sample :
    ∃ e ∈ (pool twoForces (rssWith staleDrive)).trace serve contended,
      e.op = .report 0 .landed firstLease ⟨2, firstLease.data⟩
        ∧ e.before.Fenced 0 firstLease ⟨2, firstLease.data⟩ := by
  have hreport : ((pool twoForces (rssWith staleDrive)).trace serve contended)[18]?.map Event.op
      = some (.report 0 .landed firstLease ⟨2, firstLease.data⟩) := by decide +kernel
  have hlawful : ∀ event ∈ (pool twoForces (rssWith staleDrive)).trace serve contended,
    Lawful event :=
    lawful_of_tests (by decide +kernel)
  obtain ⟨e, he, hop⟩ := Option.map_eq_some_iff.mp hreport
  have hmem := mem_of_getElem? he
  exact ⟨e, hmem, hop, ((lease_writes_fenced (starts_rssWith (by decide)) hlawful).1 e hmem _ _ _
    hop).2⟩

end FractalBits.Drives
