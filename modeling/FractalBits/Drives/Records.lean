/-
  Drives.Records — dropping and creating drive records.

  Mirrors `drop_stale_record` and the record part of `create_drive` of `drive_routes.rs`.
-/

import FractalBits.Drives.Service

namespace FractalBits.Drives

open Lib List Function

/-! ## §1. Programs -/

def dropStaleRecord (who : Nat) : Nat → Versioned Drive → Call (Except RpcError Unit)
  | 0, _ => return .error .retry
  | tries + 1, drive => do
    match ← deleteDriveRecordIfVersion who drive with
    | .ok () => return .ok ()
    | .error .retry =>
      match ← getDrive who none with
      | .error e => return .error e
      | .ok none => return .ok ()
      | .ok (some current) =>
        if current.data.id ≠ drive.data.id ∨ current.data.bucketRoot ≠ drive.data.bucketRoot
          then return .ok ()
        else dropStaleRecord who tries current
    | .error e => return .error e

/-- The loop of `create_drive` that stores the record of a new drive. -/
def createRecord (who : Nat) (drive : Drive) : Nat → Call Unit
  | 0 => return ()
  | tries + 1 => do
    match ← putDrive who ⟨0, drive⟩ with
    | .ok _ => return ()
    | .error .retry =>
      match ← getDrive who none with
      | .error _ => return ()
      | .ok none => createRecord who drive tries
      | .ok (some existing) =>
        if existing.data.bucketRoot = drive.bucketRoot then return ()
        else
          match ← dropStaleRecord who 3 existing with
          | .error _ => return ()
          | .ok () => createRecord who drive tries
    | .error _ => return ()

/-! ## §2. Incarnations -/

def SameIncarnation (a b : Drive) : Prop := a.id = b.id ∧ a.bucketRoot = b.bucketRoot

instance (a b : Drive) : Decidable (SameIncarnation a b) := inferInstanceAs (Decidable (_ ∧ _))

theorem follows_drop {γ : Type} {P : Protocol Op Ans γ} (Held Late : Versioned Drive → γ → Prop)
    {Q : γ → Except RpcError Unit → Prop} {i : Nat}
    (hstop : ∀ drive g, Held drive g → Q g (.error .retry))
      (hdelete : ∀ drive g, Held drive g → (deleteDriveRecordIfVersion i drive).Follows P
        (fun g r => (r = .error .retry → Late drive g) ∧ (r ≠ .error .retry → Q g r)) g)
    (hread : ∀ drive g, Late drive g → (getDrive i none).Follows P
      (fun g r => match r with
        | .error e => Q g (.error e)
        | .ok none => Q g (.ok ())
        | .ok (some a) => if SameIncarnation a.data drive.data then Held a g else Q g (.ok ())) g)
    (tries : Nat) {drive : Versioned Drive} {g : γ} (hg : Held drive g) :
    (dropStaleRecord i tries drive).Follows P Q g := by
  induction tries generalizing drive g with
  | zero => exact hstop drive g hg
  | succ tries ih =>
    unfold dropStaleRecord
    refine (hdelete drive g hg).seq fun g₁ r hr => ?_
    cases r with
    | ok u => exact hr.2 nofun
    | error e =>
      cases e with
      | notFound | transport => exact hr.2 nofun
      | retry =>
        -- the version moved: read again, and adopt it only for the same incarnation
        refine (hread drive g₁ (hr.1 rfl)).seq fun g₂ found hfound => ?_
        cases found with
        | error e => exact hfound
        | ok found =>
          cases found with
          | none => exact hfound
          | some a =>
            show (if _ then _ else _ : Call _).Follows _ _ _
            by_cases hsame : SameIncarnation a.data drive.data
            · rw [if_neg (by rw [not_or, not_not, not_not]; exact hsame)]
              exact ih ((if_pos hsame).mp hfound)
            · rw [if_pos (by rw [← not_and_or]; exact hsame)]
              exact (if_neg hsame).mp hfound

def Rss.Without (s : Rss) (drive : Drive) : Prop := ∀ a, s.register.stored = some a →
    ¬ SameIncarnation a.data drive

def Op.SignedBy (j : Nat) : Op → Prop
  | .put who _ | .get who _ | .delete who _ => who = j
  | _ => True

def FreshVersions (event : Event Op Rss Choice Nat) : Prop :=
    event.before.register.Fresh event.choice.version

/-- Where a drop is: the record it is to delete, and whether it knows that there was a moment
    without the incarnation. -/
structure Dropping where
  drive : Versioned Drive
  gone : Bool

def Dropping.advance (g : Dropping) : (op : Op) → Ans op → Dropping
  | .delete _ _, ans =>
    match (show Except RpcError Unit from ans) with
    | .ok () => { g with gone := true }
    | .error _ => g
  | .get _ _, ans =>
    match (show Except RpcError (Versioned Drive) from ans) with
    | .ok a =>
      if SameIncarnation a.data g.drive.data then { g with drive := a } else { g with gone := true }
    | .error .notFound => { g with gone := true }
    | .error _ => g
  | _, _ => g

def dropping (i : Nat) : Protocol Op Ans Dropping where
  possible _ _ := True
  allowed g op :=
    match op with
    | .delete who version => who = i ∧ version = g.drive.version
    | .get who _ => who = i
    | _ => False
  advance := Dropping.advance

def signed (j : Nat) : Protocol Op Ans Dropping where
  possible _ _ := True
  allowed _ op := op.SignedBy j
  advance g _ _ := g

section

variable {i : Nat} {drive : Versioned Drive}

theorem follows_dropStaleRecord (i tries : Nat) (drive : Versioned Drive) :
    (dropStaleRecord i tries drive).Follows (dropping i) (fun g r => r = .ok () → g.gone = true)
      ⟨drive, false⟩ := by
  refine follows_drop (fun drive g => g = ⟨drive, false⟩) (fun drive g => g = ⟨drive, false⟩)
    (fun _ _ _ => nofun) ?_ ?_ tries rfl
  · rintro drive g rfl
    refine follows_rssRpcRetry (R := fun g => g = ⟨drive, false⟩) ?_ 3 rfl
    rintro g rfl
    refine ⟨⟨rfl, rfl⟩, fun ans _ => ?_⟩
    cases ans with
    | ok u => exact ⟨⟨nofun, fun _ _ => rfl⟩, nofun⟩
    | error e => exact ⟨⟨fun _ => rfl, fun _ => nofun⟩, fun _ _ _ => rfl⟩
  · -- a read tells the record to delete next, or that there is none
    rintro drive g rfl
    refine follows_getDrive (R := fun g => g = ⟨drive, false⟩) ?_ rfl
    rintro g rfl
    refine ⟨rfl, fun ans => ?_⟩
    cases ans with
    | ok a =>
      refine ⟨?_, nofun⟩
      show if _ then _ else _
      by_cases hsame : SameIncarnation a.data drive.data
      · rw [if_pos hsame]
        exact if_pos hsame
      · rw [if_neg hsame]
        exact fun _ => congrArg Dropping.gone (if_neg hsame)
    | error e =>
      cases e with
      | notFound => exact ⟨fun _ => rfl, nofun⟩
      | retry | transport => exact ⟨nofun, fun _ _ _ => rfl⟩

end

/-! ## §3. Among other programs -/

def Rss.NamesIncarnation (s : Rss) (version : Int) (drive : Drive) : Prop :=
  ∃ a ∈ s.register.past, a.version = version ∧ SameIncarnation a.data drive

structure DropInv (i : Nat) (drive : Drive) (trace : List (Event Op Rss Choice Nat)) (s : Rss)
    (phases : Nat → Dropping) : Prop where
  sound : s.register.Sound
  known : (phases i).drive ∈ s.register.past
  same : SameIncarnation (phases i).drive.data drive
  flight : ∀ version, Request.delete i version ∈ s.flight → s.NamesIncarnation version drive
  log : ∀ a, Change.delete i a ∈ s.register.log → SameIncarnation a.data drive
  gone : (phases i).gone = true → ∃ e ∈ trace, e.who = i ∧ (serve e.choice e.op e.before).2.Without
    drive

section

variable {i j : Nat} {drive : Drive} {s : Rss} {ch : Choice} {op : Op} {version : Int}

variable {a : Versioned Drive}

theorem mem_past_serve (ch : Choice) (op : Op) (h : a ∈ s.register.past) :
    a ∈ (serve ch op s).2.register.past := by
  have hserved := served ch op s
  generalize (serve ch op s).2.register = after at hserved ⊢
  cases hserved with
  | same | delete => exact h
  | put => exact mem_cons_of_mem _ h

theorem Rss.NamesIncarnation.serve (h : s.NamesIncarnation version drive) (ch : Choice) (op : Op) :
    (serve ch op s).2.NamesIncarnation version drive := by
  obtain ⟨a, ha, hversion, hsame⟩ := h
  exact ⟨a, mem_past_serve ch op ha, hversion, hsame⟩

theorem eq_of_deletes {expected : Int} (h : deletes expected a = true) (hne : expected ≠ 0) :
    a.version = expected := by
  unfold deletes at h
  simpa [hne] using h

theorem same_of_deletes (hsound : s.register.Sound) {expected : Int}
    (hnames : s.NamesIncarnation expected drive) (hstored : s.register.stored = some a)
    (hdeletes : deletes expected a = true) :
    SameIncarnation a.data drive := by
  obtain ⟨b, hb, rfl, hsame⟩ := hnames
  have hversion := eq_of_deletes hdeletes (hsound.nonzero b hb)
  rw [hsound.unique a (hsound.current a hstored) b hb hversion]
  exact hsame

theorem log_serve (hsound : s.register.Sound)
    (hflight : ∀ version, Request.delete i version ∈ s.flight →
      s.NamesIncarnation version drive)
    (hsent : ∀ version, op.request? = some (.delete i version) → s.NamesIncarnation version drive)
    (hlog : ∀ a, Change.delete i a ∈ s.register.log → SameIncarnation a.data drive)
    (h : Change.delete i a ∈ (serve ch op s).2.register.log) : SameIncarnation a.data drive := by
  have hserved := served ch op s
  generalize (serve ch op s).2.register = after at hserved h
  cases hserved with
  | same => exact hlog a h
  | put who written hrequest haccepts =>
    rcases mem_append.mp h with h | h
    · exact hlog a h
    · cases mem_singleton.mp h
  | delete who expected b hrequest hstored hdeletes =>
    rcases mem_append.mp h with h | h
    · exact hlog a h
    · cases mem_singleton.mp h
      have hnames : s.NamesIncarnation expected drive := by
        rcases hrequest with hsend | hmem
        · exact hsent expected hsend
        · exact hflight expected hmem
      exact same_of_deletes hsound hnames hstored hdeletes

theorem SameIncarnation.trans {a b c : Drive} (h : SameIncarnation a b) (h' : SameIncarnation b c) :
    SameIncarnation a c :=
  ⟨h.1.trans h'.1, h.2.trans h'.2⟩

theorem SameIncarnation.symm {a b : Drive} (h : SameIncarnation a b) : SameIncarnation b a :=
    ⟨h.1.symm, h.2.symm⟩

theorem stored_of_delete_ok
    (h : (serve ch (.delete i version) s).1 = (.ok () : Except RpcError Unit)) :
    (serve ch (.delete i version) s).2.register.stored = none := by
  have h : (s.send ch (.delete i version) (s.deleteReply version (ch.value = 0))).1 = .ok () := h
  show (s.send ch (.delete i version) (s.deleteReply version (ch.value = 0))).2.register.stored
    = none
  unfold Rss.send at h ⊢
  cases hd : ch.delivery with
  | answered =>
    rw [hd] at h
    dsimp only at h ⊢
    unfold Rss.deleteReply at h
    rw [apply_delete]
    cases hstored : s.register.stored with
    | none => exact hstored
    | some a =>
      rw [hstored] at h
      dsimp only at h ⊢
      split at h
      · next hdeletes =>
          rw [if_pos hdeletes]
          rfl
      · cases h
  | _ =>
    rw [hd] at h
    cases h

theorem stored_of_get_ok {about : Option (Versioned Drive)}
    (h : (serve ch (.get i about) s).1 = (.ok a : Except RpcError (Versioned Drive))) :
    s.register.stored = some a := by
  have h : s.read ch = .ok a := h
  unfold Rss.read at h
  cases hd : ch.delivery with
  | answered =>
    rw [hd] at h
    dsimp only at h
    unfold Rss.getReply at h
    cases hstored : s.register.stored with
    | none =>
      rw [hstored] at h
      cases h
    | some b =>
      rw [hstored] at h
      rw [Except.ok.inj h]
  | _ =>
    rw [hd] at h
    cases h

theorem stored_of_get_notFound {about : Option (Versioned Drive)}
    (h : (serve ch (.get i about) s).1 = (.error .notFound : Except RpcError (Versioned Drive))) :
    s.register.stored = none := by
  have h : s.read ch = .error .notFound := h
  unfold Rss.read at h
  cases hd : ch.delivery with
  | answered =>
    rw [hd] at h
    dsimp only at h
    unfold Rss.getReply at h
    cases hstored : s.register.stored with
    | none => rfl
    | some b =>
      rw [hstored] at h
      cases h
  | _ =>
    rw [hd] at h
    cases h

variable {trace : List (Event Op Rss Choice Nat)} {phases phases' : Nat → Dropping}

theorem DropInv.serve (h : DropInv i drive trace s phases) (hfresh : s.register.Fresh ch.version)
    (hsent : ∀ version, op.request? = some (.delete i version) → s.NamesIncarnation version drive)
    (hknown : (phases' i).drive ∈ (Drives.serve ch op s).2.register.past)
    (hsame : SameIncarnation (phases' i).drive.data drive)
    (hgone : (phases' i).gone = true → (phases i).gone = true
      ∨ j = i ∧ (Drives.serve ch op s).2.Without drive) :
    DropInv i drive (trace ++ [⟨j, op, ch, s⟩]) (Drives.serve ch op s).2 phases' where
  sound := sound_serve h.sound hfresh
  known := hknown
  same := hsame
  flight version hmem := by
    rcases mem_flight_serve hmem with hmem | hsend
    · exact (h.flight version hmem).serve ch op
    · exact (hsent version hsend).serve ch op
  log a hmem := log_serve h.sound h.flight hsent h.log hmem
  gone hg := by
    rcases hgone hg with hold | ⟨rfl, hnow⟩
    · obtain ⟨e, he, hwho, hwithout⟩ := h.gone hold
      exact ⟨e, mem_append_left _ he, hwho, hwithout⟩
    · exact ⟨_, mem_append_right _ (mem_singleton.mpr rfl), rfl, hnow⟩

theorem DropInv.other (h : DropInv i drive trace s phases) (hfresh : s.register.Fresh ch.version)
    (hj : j ≠ i) (hop : op.SignedBy j) (g : Dropping) :
    DropInv i drive (trace ++ [⟨j, op, ch, s⟩]) (Drives.serve ch op s).2 (update phases j g) := by
  have hphase : update phases j g i = phases i := update_of_ne hj.symm _ _
  refine h.serve hfresh ?_ ?_ ?_ ?_
  · intro version hsend
    cases op with
    | delete who v =>
      cases hsend
      exact absurd hop.symm hj
    | _ => cases hsend
  · rw [hphase]
    exact mem_past_serve ch op h.known
  · rw [hphase]
    exact h.same
  · rw [hphase]
    exact .inl

theorem DropInv.own (h : DropInv i drive trace s phases) (hfresh : s.register.Fresh ch.version)
    (hop : (dropping i).allowed (phases i) op) :
    DropInv i drive (trace ++ [⟨i, op, ch, s⟩]) (Drives.serve ch op s).2
      (update phases i ((phases i).advance op (Drives.serve ch op s).1)) := by
  have hnames : s.NamesIncarnation (phases i).drive.version drive := ⟨_, h.known, rfl, h.same⟩
  cases op with
  | delete who version =>
    obtain ⟨rfl, rfl⟩ := hop
    have hsent : ∀ version, (Op.delete who (phases who).drive.version).request? = some
      (.delete who version) →
        s.NamesIncarnation version drive := by
      intro version hsend
      cases hsend
      exact hnames
    generalize hans : (Drives.serve ch (.delete who (phases who).drive.version) s).1 = ans
    cases ans with
    | error e =>
      refine h.serve hfresh hsent ?_ ?_ ?_ <;> rw [update_self]
      · exact mem_past_serve ch _ h.known
      · exact h.same
      · exact .inl
    | ok u =>
      refine h.serve hfresh hsent ?_ ?_ ?_ <;> rw [update_self]
      · exact mem_past_serve ch _ h.known
      · exact h.same
      · refine fun _ => .inr ⟨rfl, fun a ha => ?_⟩
        rw [stored_of_delete_ok hans] at ha
        cases ha
  | get who about =>
    have hop : who = i := hop
    subst hop
    have hsent : ∀ version, (Op.get who about).request? = some (.delete who version) →
        s.NamesIncarnation version drive := nofun
    generalize hans : (Drives.serve ch (.get who about) s).1 = ans
    cases ans with
    | error e =>
      cases e with
      | notFound =>
        refine h.serve hfresh hsent ?_ ?_ ?_ <;> rw [update_self]
        · exact h.known
        · exact h.same
        · refine fun _ => .inr ⟨rfl, fun a ha => ?_⟩
          have ha : s.register.stored = some a := ha
          rw [stored_of_get_notFound hans] at ha
          cases ha
      | retry | transport =>
        refine h.serve hfresh hsent ?_ ?_ ?_ <;> rw [update_self]
        · exact h.known
        · exact h.same
        · exact .inl
    | ok a =>
      have hstored := stored_of_get_ok hans
      by_cases hsame : SameIncarnation a.data (phases who).drive.data
      · have hadvance :
            (phases who).advance (.get who about) (.ok a : Except RpcError (Versioned Drive))
              = { phases who with drive := a } := if_pos hsame
        refine h.serve hfresh hsent ?_ ?_ ?_ <;> rw [update_self, hadvance]
        · exact h.sound.current a hstored
        · exact hsame.trans h.same
        · exact .inl
      · have hadvance :
            (phases who).advance (.get who about) (.ok a : Except RpcError (Versioned Drive))
              = { phases who with gone := true } := if_neg hsame
        refine h.serve hfresh hsent ?_ ?_ ?_ <;> rw [update_self, hadvance]
        · exact h.known
        · exact h.same
        · refine fun _ => .inr ⟨rfl, fun b hb hother => hsame ?_⟩
          have hb : s.register.stored = some b := hb
          rw [hstored] at hb
          cases hb
          exact hother.trans h.same.symm
  | _ => cases hop

/-- ★ **Dropping a stale record.** Among any other programs, and with requests that may be lost,
    answered in vain or late: every record that a drop deletes is of the incarnation it was given,
    and if it succeeds there was a moment during the call without that incarnation. -/
theorem drop_stale_record_incarnation {pool : Pool Op Ans (Except RpcError Unit) Rss Nat}
    {given : Versioned Drive} (hsound : pool.state.register.Sound)
    (hgiven : given ∈ pool.state.register.past)
    (hnew : (∀ version, Request.delete i version ∉ pool.state.flight)
      ∧ ∀ a, Change.delete i a ∉ pool.state.register.log)
    (hdrop : pool.left i = dropStaleRecord i 3 given) (hothers : ∀ j, j ≠ i →
      (pool.left j).Only (Op.SignedBy j))
    {schedule : List (Nat × Choice)} (hfresh : ∀ event ∈ pool.trace Drives.serve schedule,
      FreshVersions event) :
    (∀ a, Change.delete i a ∈ (pool.run Drives.serve schedule).state.register.log →
      SameIncarnation a.data given.data)
      ∧ ((pool.run Drives.serve schedule).left i = .done (.ok ()) →
        ∃ e ∈ pool.trace Drives.serve schedule, e.who = i
          ∧ (Drives.serve e.choice e.op e.before).2.Without given.data) := by
  have hstart : DropInv i given.data [] pool.state fun _ => ⟨given, false⟩ :=
    ⟨hsound, hgiven, ⟨rfl, rfl⟩, fun version hmem => absurd hmem (hnew.1 version),
      fun a hmem => absurd hmem (hnew.2 a), nofun⟩
  have hleft : ∀ j, (pool.left j).Follows (if j = i then dropping i else signed j)
      (fun g r => j = i → r = .ok () → g.gone = true) ⟨given, false⟩ := by
    intro j
    by_cases hj : j = i
    · subst hj
      rw [if_pos rfl, hdrop]
      exact (follows_dropStaleRecord j 3 given).mono fun g r hr _ => hr
    · rw [if_neg hj]
      exact ((hothers j hj).follows (fun _ hop => hop) fun _ _ _ => rfl).mono fun _ _ _ h =>
        absurd h hj
  have hstep : ∀ trace s phases j op ch, DropInv i given.data trace s phases →
      (if j = i then dropping i else signed j).allowed (phases j) op →
        FreshVersions ⟨j, op, ch, s⟩ →
      (if j = i then dropping i else signed j).possible op (Drives.serve ch op s).1
        ∧ DropInv i given.data (trace ++ [⟨j, op, ch, s⟩]) (Drives.serve ch op s).2
          (update phases j
            ((if j = i then dropping i else signed j).advance (phases j) op
              (Drives.serve ch op s).1)) := by
    intro trace s phases j op ch hinv hop hok
    by_cases hj : j = i
    · subst hj
      rw [if_pos rfl] at hop ⊢
      exact ⟨trivial, hinv.own hok hop⟩
    · rw [if_neg hj] at hop ⊢
      exact ⟨trivial, hinv.other hok hj hop _⟩
  obtain ⟨phases, hinv, hfollows⟩ := Pool.follows_invariant hstep hstart hleft hfresh
  rw [nil_append] at hinv
  refine ⟨hinv.log, fun hdone => ?_⟩
  have hend := hfollows i
  rw [hdone] at hend
  exact hinv.gone (hend rfl rfl)

end

/-! ## §4. A drop and a creation -/

def staleDrive : Versioned Drive := ⟨1, Drive.new (ascii "id-1") (ascii "root-1")⟩

def rssWith (a : Versioned Drive) : Rss where
  register := ⟨some a, [a], []⟩
  flight := []
  minted := []
  running := fun _ => false
  crashed := fun _ => false
  clock := 0
  seen := fun _ => none

theorem sound_rssWith {a : Versioned Drive} (h : a.version ≠ 0) : (rssWith a).register.Sound where
  current b hb := by
    cases hb
    exact mem_singleton.mpr rfl
  nonzero b hb := by
    rw [mem_singleton.mp hb]
    exact h
  unique b hb c hc _ := by rw [mem_singleton.mp hb, mem_singleton.mp hc]
  replaced c hc := by cases hc
  expected _ _ _ _ h := by cases h
  stamped _ _ _ _ h := by cases h
  once := List.Pairwise.nil

/-- Another gateway creates the record anew. -/
def dropPool : Pool Op Ans (Except RpcError Unit) Rss Nat where
  state := rssWith staleDrive
  left i :=
    if i = 0 then dropStaleRecord 0 3 staleDrive
    else do
      let _ ← perform (Op.put i ⟨0, Drive.new (ascii "id-2") (ascii "root-2")⟩)
      return .ok ()

/-- The record is deleted and the reply lost; when the deletion is tried again and the record read,
    it is the new one. -/
def dropSchedule : List (Nat × Choice) :=
  (0, { delivery := .replyLost, version := 2 }) :: (1, { delivery := .answered, version := 2 })
    :: List.replicate 2 (0, { delivery := .answered, version := 3 })

theorem drop_stale_record_at_sample :
    (dropPool.run serve dropSchedule).state.register.stored
        = some ⟨2, Drive.new (ascii "id-2") (ascii "root-2")⟩
      ∧ ∃ e ∈ dropPool.trace serve dropSchedule,
        e.who = 0 ∧ (serve e.choice e.op e.before).2.Without staleDrive.data := by
  have hleft : ∀ j, j ≠ 0 → (dropPool.left j).Only (Op.SignedBy j) := by
    intro j hj
    show Prog.Only _ (if j = 0 then _ else _)
    rw [if_neg hj]
    exact ⟨rfl, fun _ => trivial⟩
  have htests : ∀ event ∈ dropPool.trace serve dropSchedule, event.choice.version ≠ 0
      ∧ ∀ a ∈ event.before.register.past, a.version ≠ event.choice.version := by decide +kernel
  have hfresh : ∀ event ∈ dropPool.trace serve dropSchedule, FreshVersions event :=
    fun event hevent => ⟨(htests event hevent).1, (htests event hevent).2⟩
  have hdone : (dropPool.run serve dropSchedule).left 0 = .done (.ok ()) :=
    Prog.eq_done_of_result? (by decide +kernel)
  exact ⟨by decide +kernel, (drop_stale_record_incarnation (sound_rssWith (by decide))
    (mem_singleton.mpr rfl) ⟨fun _ => not_mem_nil, fun _ => not_mem_nil⟩ rfl hleft hfresh).2 hdone⟩

end FractalBits.Drives
