/-
  OvrMap.Row — one overwrite row: its two slots, the fixed 20-byte codec, the reader's decision and
  the writer's merge.

  Mirrors `common/data_types/src/ovr_map.rs`.
-/

import FractalBits.Lib.Bytes

namespace FractalBits.OvrMap

open Lib List

/-! ## §1. Slots and rows -/

inductive RowState
  | written
  | hole
  deriving DecidableEq, Repr

/-- The pre-flush slot of a row. `base` means "resolve as if there were no row". -/
inductive PrevSlot
  | base
  | slot (state : RowState) (version : UInt64)
  deriving DecidableEq, Repr

structure OvrRow where
  curState : RowState
  curVersion : UInt64
  prev : PrevSlot
  deriving DecidableEq, Repr

/-- A fallback slot is a nonzero version strictly below `curVersion`. -/
def PrevSlot.Below (curVersion : UInt64) : PrevSlot → Prop
  | .base => True
  | .slot _ version => version ≠ 0 ∧ version < curVersion

theorem PrevSlot.Below.mono {p : PrevSlot} {v w : UInt64} (h : p.Below v) (hvw : v ≤ w) :
    p.Below w := by
  cases p with
  | base => trivial
  | slot _ version => exact ⟨h.1, by have := h.2; grind⟩

/-- The field invariants a stored row has: `curVersion` is nonzero and a `prev` version is nonzero
    and strictly below it. -/
def OvrRow.WellFormed (row : OvrRow) : Prop :=
  row.curVersion ≠ 0 ∧ row.prev.Below row.curVersion

/-! ## §2. The row codec -/

def ovrRowLen : Nat := 20
def ovrCodecTag : UInt8 := 0x01
def stateWritten : UInt8 := 1
def stateHole : UInt8 := 2
def prevBase : UInt8 := 0

def stateTag : RowState → UInt8
  | .written => stateWritten
  | .hole => stateHole

def tagState (tag : UInt8) : Option RowState :=
  if tag = stateWritten then some .written
  else if tag = stateHole then some .hole
  else none

def u64ToLeBytes (v : UInt64) : Bytes := leBytes 8 v.toNat

def u64FromLeBytes (bs : Bytes) : UInt64 := UInt64.ofNat (ofLeBytes bs)

def OvrRow.encode (row : OvrRow) : Bytes :=
  let (prevState, prevVersion) := match row.prev with
    | .base => (prevBase, (0 : UInt64))
    | .slot state version => (stateTag state, version)
  -- byte 3 holds the flags, reserved as zero
  [ovrCodecTag, stateTag row.curState, prevState, 0]
    ++ u64ToLeBytes row.curVersion ++ u64ToLeBytes prevVersion

def decodePrev (tag : UInt8) (prevVersion curVersion : UInt64) : Option PrevSlot :=
  if tag = prevBase then
    if prevVersion ≠ 0 then none else some .base
  else
    match tagState tag with
    | none => none
    | some state =>
      if prevVersion = 0 ∨ prevVersion ≥ curVersion then none
      else some (.slot state prevVersion)

def OvrRow.decode (buf : Bytes) : Option OvrRow :=
  if buf.length ≠ ovrRowLen ∨ buf.getD 0 0 ≠ ovrCodecTag ∨ buf.getD 3 0 ≠ 0 then none
  else
    let curVersion := u64FromLeBytes ((buf.drop 4).take 8)
    let prevVersion := u64FromLeBytes ((buf.drop 12).take 8)
    (tagState (buf.getD 1 0)).bind fun curState =>
      (decodePrev (buf.getD 2 0) prevVersion curVersion).bind fun prev =>
        if curVersion = 0 then none
        else some { curState, curVersion, prev }

@[simp] theorem u64ToLeBytes_length (v : UInt64) : (u64ToLeBytes v).length = 8 :=
  leBytes_length _ _

@[simp] theorem u64FromLeBytes_toLeBytes (v : UInt64) : u64FromLeBytes (u64ToLeBytes v) = v := by
  have hv : v.toNat < 256 ^ 8 := by have := v.toNat_lt; omega
  rw [u64FromLeBytes, u64ToLeBytes, ofLeBytes_leBytes 8 v.toNat hv, UInt64.ofNat_toNat]

@[simp] theorem tagState_stateTag (s : RowState) : tagState (stateTag s) = some s := by
  cases s <;> rfl

theorem stateTag_ne_prevBase (s : RowState) : stateTag s ≠ prevBase := by
  cases s <;> decide

theorem decode_fields (curTag prevTag : UInt8) (cur prev : UInt64) :
    OvrRow.decode
        ([ovrCodecTag, curTag, prevTag, 0] ++ u64ToLeBytes cur ++ u64ToLeBytes prev)
      = (tagState curTag).bind fun curState =>
          (decodePrev prevTag prev cur).bind fun prevSlot =>
            if cur = 0 then none
            else some { curState, curVersion := cur, prev := prevSlot } := by
  set buf := [ovrCodecTag, curTag, prevTag, 0] ++ u64ToLeBytes cur ++ u64ToLeBytes prev with hbuf
  have hlen : buf.length = ovrRowLen := by simp [hbuf, ovrRowLen]
  have hcur : (buf.drop 4).take 8 = u64ToLeBytes cur := by
    rw [hbuf, append_assoc, drop_left' (by simp), take_left' (by simp)]
  have hprev : (buf.drop 12).take 8 = u64ToLeBytes prev := by
    rw [hbuf, drop_left' (by simp), take_of_length_le (by simp)]
  have hguard : ¬ (buf.length ≠ ovrRowLen ∨ buf.getD 0 0 ≠ ovrCodecTag ∨ buf.getD 3 0 ≠ 0) := by
    rw [hlen]
    simp [hbuf]
  rw [OvrRow.decode, if_neg hguard, hcur, hprev, u64FromLeBytes_toLeBytes,
    u64FromLeBytes_toLeBytes]
  rfl

theorem decode_encode (row : OvrRow) (h : row.WellFormed) :
    OvrRow.decode row.encode = some row := by
  obtain ⟨curState, curVersion, prev⟩ := row
  obtain ⟨hcur, hprev⟩ := h
  cases prev with
  | base =>
    rw [OvrRow.encode, decode_fields]
    simp [decodePrev, hcur]
  | slot state version =>
    obtain ⟨hne, hlt⟩ := hprev
    have hge : ¬ curVersion ≤ version := by grind
    rw [OvrRow.encode, decode_fields]
    simp [decodePrev, hcur, stateTag_ne_prevBase, hne, hge]

theorem decodePrev_below {tag : UInt8} {pv cv : UInt64} {p : PrevSlot}
    (h : decodePrev tag pv cv = some p) : p.Below cv := by
  unfold decodePrev at h
  split at h
  · split at h
    · cases h
    · injection h with h
      subst h
      trivial
  · split at h
    · cases h
    · split at h
      · cases h
      · next hv =>
          injection h with h
          subst h
          exact ⟨by grind, by grind⟩

theorem decode_wellFormed {buf : Bytes} {row : OvrRow} (h : OvrRow.decode buf = some row) :
    row.WellFormed := by
  unfold OvrRow.decode at h
  split at h
  · cases h
  · simp only [Option.bind_eq_some_iff] at h
    obtain ⟨_, _, prev, hprev, h⟩ := h
    split at h
    · cases h
    · next hcur =>
        injection h with h
        subst h
        exact ⟨hcur, decodePrev_below hprev⟩

theorem u64ToLeBytes_fromLeBytes {bs : Bytes} (h : bs.length = 8) :
    u64ToLeBytes (u64FromLeBytes bs) = bs := by
  have hlt := ofLeBytes_lt bs
  have hround := leBytes_ofLeBytes bs
  rw [h] at hlt hround
  rw [u64ToLeBytes, u64FromLeBytes, UInt64.toNat_ofNat_of_lt' hlt, hround]

theorem stateTag_of_tagState {tag : UInt8} {state : RowState} (h : tagState tag = some state) :
    stateTag state = tag := by
  unfold tagState at h
  split at h
  · next htag =>
    cases h
    exact htag.symm
  · split at h
    · next htag =>
      cases h
      exact htag.symm
    · cases h

def PrevSlot.fields : PrevSlot → UInt8 × UInt64
  | .base => (prevBase, 0)
  | .slot state version => (stateTag state, version)

theorem fields_of_decodePrev {tag : UInt8} {pv cv : UInt64} {p : PrevSlot}
    (h : decodePrev tag pv cv = some p) :
    p.fields = (tag, pv) := by
  unfold decodePrev at h
  split at h
  · next htag =>
    split at h
    · cases h
    · next hpv =>
      cases h
      rw [htag, not_not.mp hpv]
      rfl
  · split at h
    · cases h
    · next state htag =>
      split at h
      · cases h
      · cases h
        rw [← stateTag_of_tagState htag]
        rfl

theorem encode_eq_fields (row : OvrRow) :
    row.encode = [ovrCodecTag, stateTag row.curState, row.prev.fields.1, 0]
      ++ u64ToLeBytes row.curVersion ++ u64ToLeBytes row.prev.fields.2 := by
  unfold OvrRow.encode PrevSlot.fields
  cases row.prev <;> rfl

theorem eq_fields_of_length {buf : Bytes} (h : buf.length = ovrRowLen) :
    buf = [buf.getD 0 0, buf.getD 1 0, buf.getD 2 0, buf.getD 3 0] ++ (buf.drop 4).take
      8 ++ (buf.drop 12).take 8 := by
  have hend : (buf.drop 12).take 8 = (buf.drop 4).drop 8 := by
    rw [drop_drop, take_of_length_le (by rw [length_drop, h]; decide)]
  rw [hend, append_assoc, take_append_drop]
  rcases buf with _ | ⟨a, _ | ⟨b, _ | ⟨c, _ | ⟨d, rest⟩⟩⟩⟩
  · cases h
  · cases h
  · cases h
  · cases h
  · rfl

theorem encode_of_decode {buf : Bytes} {row : OvrRow}
    (h : OvrRow.decode buf = some row) : row.encode = buf := by
  unfold OvrRow.decode at h
  split at h
  · cases h
  next hguard =>
  obtain ⟨hlen, htag, hflags⟩ : buf.length = ovrRowLen ∧ buf.getD 0 0 = ovrCodecTag
    ∧ buf.getD 3 0 = 0 := by
    simpa only [not_or, not_not] using hguard
  simp only [Option.bind_eq_some_iff] at h
  obtain ⟨curState, hcur, prev, hprev, h⟩ := h
  split at h
  · cases h
  cases h
  have hslice : ∀ n, n + 8 ≤ 20 → ((buf.drop n).take 8).length = 8 := by
    intro n hn
    rw [length_take, length_drop, hlen]
    unfold ovrRowLen
    omega
  have hbuf := eq_fields_of_length hlen
  rw [htag, hflags] at hbuf
  rw [encode_eq_fields, fields_of_decodePrev hprev]
  dsimp only
  rw [stateTag_of_tagState hcur, u64ToLeBytes_fromLeBytes (hslice 4 (by decide)),
    u64ToLeBytes_fromLeBytes (hslice 12 (by decide))]
  exact hbuf.symm

/-! ## §3. The reader's decision -/

/-- How a reader must fetch one mapped-file block below EOF. -/
inductive BlockResolution
  | hole
  | exact (version : UInt64)
  | base
  | stale
  deriving DecidableEq, Repr

def resolveSlot : RowState → UInt64 → BlockResolution
  | .hole, _ => .hole
  | .written, version => .exact version

def resolveRowFiltered (row : Option OvrRow) (ceiling : UInt64) (isAborted : UInt64 → Bool) :
    BlockResolution :=
  match row with
  | none => .base
  | some row =>
    if row.curVersion ≤ ceiling && !isAborted row.curVersion then
      resolveSlot row.curState row.curVersion
    else
      match row.prev with
      | .base => .base
      | .slot state version =>
        if version ≤ ceiling && !isAborted version then resolveSlot state version
        else .stale

def resolveRow (row : Option OvrRow) (ceiling : UInt64) : BlockResolution :=
  resolveRowFiltered row ceiling fun _ => false

/-! ## §4. The writer's merge -/

/-- The monotone row merge with conditional promotion. `none` means that the write is skipped:
    `version` is no newer than the stored row. -/
def mergeRowForWriteFiltered (old : Option OvrRow) (newState : RowState)
    (version baseCeiling : UInt64) (isAborted : UInt64 → Bool) : Option OvrRow :=
  match old with
  | none => some { curState := newState, curVersion := version, prev := .base }
  | some old =>
    if version ≤ old.curVersion then none
    else
      let prev :=
        if old.curVersion ≤ baseCeiling && !isAborted old.curVersion then
          .slot old.curState old.curVersion
        else old.prev
      some { curState := newState, curVersion := version, prev }

def mergeRowForWrite (old : Option OvrRow) (newState : RowState) (version baseCeiling : UInt64) :
    Option OvrRow :=
  mergeRowForWriteFiltered old newState version baseCeiling fun _ => false

theorem mergeRowForWriteFiltered_wellFormed {old : Option OvrRow} {newState : RowState}
    {version baseCeiling : UInt64} {isAborted : UInt64 → Bool} {row : OvrRow}
    (hversion : version ≠ 0) (hold : ∀ r, old = some r → r.WellFormed)
    (h : mergeRowForWriteFiltered old newState version baseCeiling isAborted = some row) :
    row.WellFormed := by
  cases old with
  | none =>
    injection h with h
    subst h
    exact ⟨hversion, trivial⟩
  | some old =>
    obtain ⟨hcur, hprev⟩ := hold old rfl
    simp only [mergeRowForWriteFiltered] at h
    split at h
    · cases h
    · next hlt =>
        injection h with h
        subst h
        refine ⟨hversion, ?_⟩
        show PrevSlot.Below version (if _ then _ else _)
        split
        · -- the stored `cur` is promoted: it is below the new version
          exact ⟨hcur, by grind⟩
        · -- the stored `prev` is kept: it was below the stored `cur`
          exact hprev.mono (by grind)

end FractalBits.OvrMap
