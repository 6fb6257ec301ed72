/-
  Gateway.BlockSplit — cutting an upload into blocks.

  Mirrors `BlockDataStream::poll_next` of `block_data_stream.rs` (the streaming path) and
  `split_chunks_into_blocks` of `put_object.rs` (the buffered path).
-/

import FractalBits.Lib.Slices
import FractalBits.Streaming.Payload

namespace FractalBits.Gateway

open Lib Streaming List

/-! ## §1. The block stream -/

structure BlockDataStream where
  stream : List (Except PayloadError Bytes)
  chunks : List Bytes
  accumulatedSize : Nat
  blockSize : Nat
  overflow : Option Bytes
  deriving DecidableEq, Repr

def BlockDataStream.new (stream : List (Except PayloadError Bytes)) (blockSize : Nat) :
    BlockDataStream := ⟨stream, [], 0, blockSize, none⟩

inductive BlockPoll
  | again (s : BlockDataStream)
  | block (chunks : List Bytes) (s : BlockDataStream)
  | error (e : PayloadError)
  | finish
  deriving DecidableEq, Repr

def BlockDataStream.push (s : BlockDataStream) (data : Bytes) : BlockDataStream :=
  let remaining := s.blockSize - s.accumulatedSize
  if data.length ≤ remaining then
    { s with accumulatedSize := s.accumulatedSize + data.length, chunks := s.chunks ++ [data],
             overflow := none }
  else
    { s with
      chunks := s.chunks ++ [data.take remaining]
      accumulatedSize := s.accumulatedSize + remaining
      overflow := some (data.drop remaining) }

def BlockDataStream.takeBlock (s : BlockDataStream) : BlockPoll :=
  .block s.chunks { s with chunks := [], accumulatedSize := 0 }

def BlockDataStream.poll (s : BlockDataStream) : BlockPoll :=
  let s := match s.overflow with
    | some overflowData => s.push overflowData
    | none => s
  if s.accumulatedSize = s.blockSize then s.takeBlock
  else
    match s.stream with
    | .ok data :: stream =>
      if data = [] then .again { s with stream } else .again ({ s with stream }.push data)
    | .error e :: _ => .error e
    | [] => if s.accumulatedSize = 0 then .finish else s.takeBlock

def BlockDataStream.collect :
    Nat → BlockDataStream → Option (Except PayloadError (List (List Bytes)))
  | 0, _ => none
  | fuel + 1, s =>
    match s.poll with
    | .again s => s.collect fuel
    | .block chunks s => (s.collect fuel).map (Except.map (chunks :: ·))
    | .error e => some (.error e)
    | .finish => some (.ok [])

def Collects (s : BlockDataStream) (r : Except PayloadError (List (List Bytes))) : Prop :=
  ∃ fuel, s.collect fuel = some r

variable {s : BlockDataStream} {blockSize : Nat} {st : SplitState}

theorem collect_mono {fuel : Nat} {r : Except PayloadError (List (List Bytes))}
    (h : s.collect fuel = some r) (more : Nat) : s.collect (fuel + more) = some r := by
  induction fuel generalizing s r with
  | zero => cases h
  | succ fuel ih =>
    rw [show fuel + 1 + more = fuel + more + 1 by omega]
    unfold BlockDataStream.collect at h ⊢
    cases hp : s.poll with
    | again s' =>
      rw [hp] at h
      exact ih h
    | block chunks s' =>
      rw [hp] at h
      obtain ⟨r', hr', rfl⟩ := Option.map_eq_some_iff.mp h
      show (s'.collect (fuel + more)).map _ = _
      rw [ih hr']
      rfl
    | error e => rw [hp] at h; exact h
    | finish => rw [hp] at h; exact h

theorem Collects.unique {r r' : Except PayloadError (List (List Bytes))}
    (h : Collects s r) (h' : Collects s r') : r = r' := by
  obtain ⟨n, hn⟩ := h
  obtain ⟨n', hn'⟩ := h'
  have h1 := collect_mono hn n'
  have h2 := collect_mono hn' n
  rw [Nat.add_comm, h1] at h2
  injection h2

/-! ## §2. The blocks are slices -/

def BlockDataStream.held (s : BlockDataStream) : Bytes := s.chunks.flatten ++ s.overflow.getD []

structure BlockDataStream.Wf (s : BlockDataStream) : Prop where
  pos : 0 < s.blockSize
  size : s.accumulatedSize = s.chunks.flatten.length
  le : s.accumulatedSize ≤ s.blockSize
  overflow : ∀ o, s.overflow = some o → o ≠ []

theorem push_spec (h : s.Wf) (data : Bytes) :
    (s.push data).Wf ∧ (s.push data).held = s.chunks.flatten ++ data ∧
      (s.push data).stream = s.stream ∧ (s.push data).blockSize = s.blockSize ∧
      ((s.push data).accumulatedSize ≠ s.blockSize → (s.push data).overflow = none) ∧
      ((s.push data).overflow.getD []).length
        = data.length - (s.blockSize - s.accumulatedSize) := by
  obtain ⟨hpos, hsize, hle, -⟩ := h
  unfold BlockDataStream.push BlockDataStream.held
  dsimp only
  split
  · next hfit =>
      refine ⟨⟨hpos, ?_, ?_, fun o ho => by cases ho⟩, by simp, rfl, rfl, fun _ => rfl, ?_⟩
      · simp [hsize]
      · show s.accumulatedSize + data.length ≤ s.blockSize
        omega
      · show 0 = _
        omega
  · next hfit =>
      refine ⟨⟨hpos, ?_, ?_, ?_⟩, ?_, rfl, rfl, ?_, ?_⟩
      · simp only [flatten_append, flatten_cons, flatten_nil, append_nil,
          length_append, length_take]
        omega
      · show s.accumulatedSize + (s.blockSize - s.accumulatedSize) ≤ s.blockSize
        omega
      · intro o ho
        injection ho with ho
        rw [← ho]
        intro hnil
        have := drop_eq_nil_iff.mp hnil
        omega
      · simp [append_assoc]
      · intro hfull
        have hfull : s.accumulatedSize + (s.blockSize - s.accumulatedSize) ≠ s.blockSize := hfull
        omega
      · show (data.drop (s.blockSize - s.accumulatedSize)).length = _
        rw [length_drop]

def BlockDataStream.settled (s : BlockDataStream) : BlockDataStream :=
  match s.overflow with
  | some overflowData => s.push overflowData
  | none => s

def BlockDataStream.work (s : BlockDataStream) (items : List Bytes) : Nat :=
  2 * ((s.overflow.getD []).length + (items.map fun data => data.length + 1).sum)
    + if s.accumulatedSize = 0 then 0 else 1

theorem work_cons (s : BlockDataStream) (data : Bytes) (items : List Bytes) :
    s.work (data :: items) = s.work items + 2 * (data.length + 1) := by
  unfold BlockDataStream.work
  rw [map_cons, sum_cons]
  omega

theorem settled_spec (h : s.Wf) :
    s.settled.Wf ∧ s.settled.held = s.held ∧ s.settled.stream = s.stream ∧
      s.settled.blockSize = s.blockSize ∧
      (s.settled.accumulatedSize = s.blockSize ∨ s.settled.overflow = none) ∧
      (s.settled.overflow.getD []).length ≤ (s.overflow.getD []).length ∧
      (s.settled.accumulatedSize ≠ 0 → s.accumulatedSize = 0 →
        (s.settled.overflow.getD []).length + 1 ≤ (s.overflow.getD []).length) := by
  unfold BlockDataStream.settled
  cases ho : s.overflow with
  | none =>
    refine ⟨h, rfl, rfl, rfl, .inr ho, ?_, fun hne hz => absurd hz hne⟩
    dsimp only
    rw [ho]
  | some o =>
    obtain ⟨hwf, hheld, hstream, hsize, hover, hlen⟩ := push_spec h o
    have hpos : 0 < o.length := length_pos_of_ne_nil (h.overflow o ho)
    refine ⟨hwf, ?_, hstream, hsize, ?_, ?_, fun _ hz => ?_⟩
    · rw [hheld]
      simp [BlockDataStream.held, ho]
    · by_cases hfull : (s.push o).accumulatedSize = s.blockSize
      · exact .inl hfull
      · exact .inr (hover hfull)
    · show ((s.push o).overflow.getD []).length ≤ o.length
      omega
    · show ((s.push o).overflow.getD []).length + 1 ≤ o.length
      have := h.pos
      omega

theorem poll_eq (s : BlockDataStream) :
    s.poll = if s.settled.accumulatedSize = s.settled.blockSize then s.settled.takeBlock
      else match s.settled.stream with
        | .ok data :: stream =>
          if data = [] then .again { s.settled with stream }
            else .again ({ s.settled with stream }.push data)
        | .error e :: _ => .error e
        | [] => if s.settled.accumulatedSize = 0 then .finish else s.settled.takeBlock := rfl

theorem poll_spec (h : s.Wf) {items : List Bytes} (hs : s.stream = items.map .ok) :
    (∃ chunks s', s.poll = .block chunks s' ∧ s'.Wf ∧ s'.blockSize = s.blockSize ∧
      s'.stream = items.map .ok ∧ s.held = chunks.flatten ++ s'.held
        ∧ s'.work items < s.work items ∧
      (chunks.flatten.length = s.blockSize ∨
        (items = [] ∧ s'.held = [] ∧ 0 < chunks.flatten.length
          ∧ chunks.flatten.length ≤ s.blockSize))) ∨
    (∃ data rest s', items = data :: rest ∧ s.poll = .again s' ∧ s'.Wf
      ∧ s'.blockSize = s.blockSize ∧
      s'.stream = rest.map .ok ∧ s'.held = s.held ++ data ∧ s'.work rest < s.work items) ∨
    (items = [] ∧ s.poll = .finish ∧ s.held = []) := by
  obtain ⟨hwf, hheld, hstream, hbs, hover, hlen, hshrink⟩ := settled_spec h
  have hpos := h.pos
  rw [poll_eq, hstream, hs, hbs]
  generalize s.settled = t at *
  -- the state after a block was handed out
  have htaken : ({ t with chunks := [], accumulatedSize := 0 } : BlockDataStream).Wf :=
    ⟨hbs ▸ hpos, rfl, Nat.zero_le _, hwf.overflow⟩
  have hwork : t.accumulatedSize ≠ 0 →
      2 * (t.overflow.getD []).length < 2 * (s.overflow.getD []).length
        + if s.accumulatedSize = 0 then 0 else 1 := by
    intro hne
    by_cases hz : s.accumulatedSize = 0
    · have := hshrink hne hz
      rw [if_pos hz]
      omega
    · rw [if_neg hz]
      omega
  by_cases hfull : t.accumulatedSize = s.blockSize
  · rw [if_pos hfull]
    refine .inl ⟨t.chunks, _, rfl, htaken, hbs, hstream.trans hs, ?_, ?_, .inl ?_⟩
    · rw [← hheld]
      simp [BlockDataStream.held]
    · have := hwork (by omega)
      unfold BlockDataStream.work
      dsimp only
      rw [if_pos rfl]
      omega
    · rw [← hwf.size, hfull]
  · rw [if_neg hfull]
    have hnone : t.overflow = none := by
      rcases hover with hover | hover
      · exact absurd hover hfull
      · exact hover
    have hflat : t.chunks.flatten = s.held := by
      rw [← hheld]
      simp [BlockDataStream.held, hnone]
    cases items with
    | nil =>
      dsimp only [map_nil]
      by_cases hzero : t.accumulatedSize = 0
      · rw [if_pos hzero]
        refine .inr (.inr ⟨rfl, rfl, ?_⟩)
        rw [← hflat]
        exact eq_nil_of_length_eq_zero (by rw [← hwf.size, hzero])
      · rw [if_neg hzero]
        refine .inl ⟨t.chunks, _, rfl, htaken, hbs, hstream.trans hs, ?_, ?_,
          .inr ⟨rfl, ?_, ?_, ?_⟩⟩
        · rw [← hheld]
          simp [BlockDataStream.held]
        · have := hwork hzero
          unfold BlockDataStream.work
          dsimp only
          rw [if_pos rfl]
          omega
        · simp [BlockDataStream.held, hnone]
        · rw [← hwf.size]
          omega
        · rw [← hwf.size, ← hbs]
          exact hwf.le
    | cons data rest =>
      have hnext : ({ t with stream := rest.map .ok } : BlockDataStream).Wf :=
        ⟨hbs ▸ hpos, hwf.size, hwf.le, hwf.overflow⟩
      refine .inr (.inl ?_)
      by_cases hdata : data = []
      · refine ⟨data, rest, _, rfl, if_pos hdata, hnext, hbs, rfl, ?_, ?_⟩
        · rw [hdata, append_nil, ← hheld]
          rfl
        · rw [work_cons]
          unfold BlockDataStream.work
          dsimp only
          split <;> split <;> omega
      · obtain ⟨hwf', hheld', hstream', hbs', -, hlen'⟩ := push_spec hnext data
        refine ⟨data, rest, _, rfl, if_neg hdata, hwf', hbs'.trans hbs, hstream', ?_, ?_⟩
        · rw [hheld', ← hflat]
        · rw [work_cons]
          unfold BlockDataStream.work
          rw [hlen']
          dsimp only
          split <;> split <;> omega

/-- ★ **The blocks of a stream** are its bytes cut into slices of the block size, whatever the
    fragments are. -/
theorem collects_blocks_from (h : s.Wf) {items : List Bytes}
    (hs : s.stream = items.map .ok) :
    ∃ bs, Collects s (.ok bs) ∧ Sliced s.blockSize (bs.map List.flatten) ∧
      (bs.map List.flatten).flatten = s.held ++ items.flatten := by
  -- by induction on the work left; a block goes in front, an item into the state
  induction hw : s.work items using Nat.strong_induction_on generalizing s items with
  | _ w ih =>
    subst hw
    obtain ⟨chunks, s', hpoll, hwf, hbs, hstream, hheld, hwork, hsize⟩ |
      ⟨data, rest, s', rfl, hpoll, hwf, hbs, hstream, hheld, hwork⟩ | ⟨rfl, hpoll, hheld⟩ :=
      poll_spec h hs
    · obtain ⟨bs, ⟨fuel, hfuel⟩, hsliced, hflat⟩ := ih _ hwork hwf hstream rfl
      refine ⟨chunks :: bs, ⟨fuel + 1, ?_⟩, ?_, ?_⟩
      · simp only [BlockDataStream.collect, hpoll, hfuel]
        rfl
      · rw [hbs] at hsliced
        rcases hsize with hfull | ⟨rfl, hnil, hpos, hle⟩
        · exact .full hfull hsliced
        · -- nothing is left after the last block
          have hbsnil : bs.map List.flatten = [] := by
            rw [hnil, flatten_nil, append_nil] at hflat
            have hb := hsliced.bounds h.pos
            rw [hflat, length_nil] at hb
            by_contra hne
            have := hb.2 hne
            omega
          rw [map_cons, hbsnil]
          exact .last hpos hle
      · rw [map_cons, flatten_cons, hflat, hheld, append_assoc]
    · obtain ⟨bs, ⟨fuel, hfuel⟩, hsliced, hflat⟩ := ih _ hwork hwf hstream rfl
      refine ⟨bs, ⟨fuel + 1, ?_⟩, hbs ▸ hsliced, ?_⟩
      · simp only [BlockDataStream.collect, hpoll, hfuel]
      · rw [hflat, hheld, flatten_cons, append_assoc]
    · refine ⟨[], ⟨1, ?_⟩, .nil, ?_⟩
      · simp only [BlockDataStream.collect, hpoll]
      · rw [hheld]
        rfl

theorem collects_blocks (hpos : 0 < blockSize) (items : List Bytes) :
    ∃ bs, Collects (.new (items.map .ok) blockSize) (.ok bs)
      ∧ Sliced blockSize (bs.map List.flatten) ∧
      (bs.map List.flatten).flatten = items.flatten := by
  have hwf : (BlockDataStream.new (items.map .ok) blockSize).Wf :=
    ⟨hpos, rfl, Nat.zero_le _, fun o ho => by cases ho⟩
  exact collects_blocks_from hwf rfl

/-! ## §3. The buffered path -/

structure SplitState where
  blocks : List (List Bytes)
  currentBlock : List Bytes
  currentBlockSize : Nat
  deriving DecidableEq, Repr

/-- The `while` loop over one chunk, run at most `fuel` times. A chunk that meets a full block
    leaves an empty slice in it and closes it. -/
def fillBlocks (blockSize : Nat) : Nat → Bytes → SplitState → Option SplitState
  | 0, _, _ => none
  | fuel + 1, chunkRemaining, st =>
    if chunkRemaining = [] then some st
    else
      let spaceLeft := blockSize - st.currentBlockSize
      if chunkRemaining.length ≤ spaceLeft then
        some { st with
          currentBlockSize := st.currentBlockSize + chunkRemaining.length
          currentBlock := st.currentBlock ++ [chunkRemaining] }
      else
        fillBlocks blockSize fuel (chunkRemaining.drop spaceLeft)
          ⟨st.blocks ++ [st.currentBlock ++ [chunkRemaining.take spaceLeft]], [], 0⟩

def splitChunks (blockSize : Nat) : List Bytes → SplitState → Option SplitState
  | [], st => some st
  | chunk :: chunks, st =>
    (fillBlocks blockSize (chunk.length + 2) chunk st).bind (splitChunks blockSize chunks)

/-- `split_chunks_into_blocks`: `none` if the loop does not end. -/
def splitChunksIntoBlocks (chunks : List Bytes) (blockSize : Nat) : Option (List (List Bytes)) :=
  (splitChunks blockSize chunks ⟨[], [], 0⟩).map fun st =>
    if st.currentBlock = [] then st.blocks else st.blocks ++ [st.currentBlock]

structure SplitState.Wf (blockSize : Nat) (st : SplitState) : Prop where
  full : ∀ b ∈ st.blocks.map List.flatten, b.length = blockSize
  size : st.currentBlockSize = st.currentBlock.flatten.length
  le : st.currentBlockSize ≤ blockSize
  pos : st.currentBlock ≠ [] → 0 < st.currentBlockSize

def SplitState.seen (st : SplitState) : Bytes :=
  (st.blocks.map List.flatten).flatten ++ st.currentBlock.flatten

theorem SplitState.Wf.close (h : st.Wf blockSize) {chunk : Bytes}
    (hlong : blockSize - st.currentBlockSize < chunk.length) :
    SplitState.Wf blockSize
      ⟨st.blocks ++ [st.currentBlock ++ [chunk.take (blockSize - st.currentBlockSize)]], [],
        0⟩ := by
  refine ⟨?_, rfl, Nat.zero_le _, fun hne => absurd rfl hne⟩
  intro b hb
  rw [map_append, mem_append] at hb
  rcases hb with hb | hb
  · exact h.full b hb
  · have hlen := h.size
    have hle := h.le
    simp only [map_cons, map_nil, mem_singleton, flatten_append, flatten_cons,
      flatten_nil, append_nil] at hb
    rw [hb, length_append, length_take, ← hlen]
    omega

theorem fillBlocks_spec (hpos : 0 < blockSize) (fuel : Nat) (chunk : Bytes)
    (h : st.Wf blockSize)
    (hfuel : chunk.length + (if st.currentBlockSize = blockSize then 1 else 0) < fuel) :
    ∃ st', fillBlocks blockSize fuel chunk st = some st' ∧ st'.Wf blockSize ∧
      st'.seen = st.seen ++ chunk := by
  -- on the fuel: a round that closes a block takes bytes away unless the block was full
  induction fuel generalizing chunk st with
  | zero => omega
  | succ fuel ih =>
    unfold fillBlocks
    by_cases hnil : chunk = []
    · rw [if_pos hnil]
      exact ⟨st, rfl, h, by rw [hnil, append_nil]⟩
    · have hlen : 0 < chunk.length := length_pos_of_ne_nil hnil
      have hle := h.le
      rw [if_neg hnil]
      dsimp only
      by_cases hfit : chunk.length ≤ blockSize - st.currentBlockSize
      · rw [if_pos hfit]
        refine ⟨_, rfl, ⟨h.full, ?_, ?_, fun _ => ?_⟩, ?_⟩
        · simp [h.size]
        · show st.currentBlockSize + chunk.length ≤ blockSize
          omega
        · show 0 < st.currentBlockSize + chunk.length
          omega
        · simp [SplitState.seen]
      · rw [if_neg hfit]
        have hfuel' : (chunk.drop (blockSize - st.currentBlockSize)).length
            + (if 0 = blockSize then 1 else 0) < fuel := by
          rw [length_drop, if_neg (by omega)]
          split at hfuel <;> omega
        obtain ⟨st', hst', hwf, hseen⟩ := ih _ (h.close (Nat.lt_of_not_le hfit)) hfuel'
        refine ⟨st', hst', hwf, ?_⟩
        rw [hseen]
        simp [SplitState.seen]

theorem splitChunks_spec (hpos : 0 < blockSize) (chunks : List Bytes)
    (h : st.Wf blockSize) :
    ∃ st', splitChunks blockSize chunks st = some st' ∧ st'.Wf blockSize ∧
      st'.seen = st.seen ++ chunks.flatten := by
  induction chunks generalizing st with
  | nil => exact ⟨st, rfl, h, by simp⟩
  | cons chunk chunks ih =>
    obtain ⟨st₁, h₁, hwf₁, hseen₁⟩ := fillBlocks_spec hpos (chunk.length + 2) chunk h (by
      split <;> omega)
    obtain ⟨st', h', hwf', hseen'⟩ := ih hwf₁
    refine ⟨st', ?_, hwf', ?_⟩
    · unfold splitChunks
      rw [h₁]
      exact h'
    · rw [hseen', hseen₁, flatten_cons, append_assoc]

/-- ★ **The blocks of the buffered path** are the chunks cut into slices of the block size. -/
theorem splitChunksIntoBlocks_sliced (hpos : 0 < blockSize) (chunks : List Bytes) :
    ∃ bs, splitChunksIntoBlocks chunks blockSize = some bs
      ∧ Sliced blockSize (bs.map List.flatten) ∧
      (bs.map List.flatten).flatten = chunks.flatten := by
  have hinit : SplitState.Wf blockSize ⟨[], [], 0⟩ :=
    ⟨by simp, rfl, Nat.zero_le _, fun hne => absurd rfl hne⟩
  obtain ⟨st, hst, hwf, hseen⟩ := splitChunks_spec hpos chunks hinit
  have hseen : st.seen = chunks.flatten := by simpa [SplitState.seen] using hseen
  unfold splitChunksIntoBlocks
  rw [hst, Option.map_some]
  refine ⟨_, rfl, ?_⟩
  by_cases hcur : st.currentBlock = []
  · rw [if_pos hcur, ← hseen]
    exact ⟨Sliced.of_full hwf.full, by simp [SplitState.seen, hcur]⟩
  · rw [if_neg hcur, ← hseen, map_append]
    have hsize := hwf.size
    refine ⟨Sliced.snoc hwf.full ?_ ?_, by simp [SplitState.seen]⟩
    · have := hwf.pos hcur
      omega
    · have := hwf.le
      omega

/-! ## §4. Both paths -/

/-- ★ **Both paths cut an upload alike.** Each of them ends, with blocks of the same contents, which
    are the fragments one after the other: all full but the last, and none for an empty upload. -/
theorem block_paths_agree {blockSize : Nat} (hpos : 1 ≤ blockSize) (fragments : List Bytes) :
    ∃ streamed buffered, Collects (.new (fragments.map .ok) blockSize) (.ok streamed)
      ∧ splitChunksIntoBlocks fragments blockSize = some buffered
      ∧ streamed.map List.flatten = buffered.map List.flatten
      ∧ (streamed.map List.flatten).flatten = fragments.flatten
      ∧ (∀ front last, streamed.map List.flatten = front ++ [last] →
        (∀ block ∈ front, block.length = blockSize) ∧ 0 < last.length ∧ last.length ≤ blockSize)
      ∧ (fragments.flatten = [] → streamed = [] ∧ buffered = []) := by
  obtain ⟨streamed, hcollects, hstreamed, hstream⟩ := collects_blocks hpos fragments
  obtain ⟨buffered, hsplit, hbuffered, hbuffer⟩ := splitChunksIntoBlocks_sliced hpos fragments
  have hsame : streamed.map List.flatten = buffered.map List.flatten :=
    hstreamed.unique hbuffered hpos (hstream.trans hbuffer.symm)
  refine ⟨streamed, buffered, hcollects, hsplit, hsame, hstream, ?_, ?_⟩
  · intro front last hshape
    rw [hshape] at hstreamed
    exact hstreamed.of_snoc hpos
  · intro hempty
    -- no bytes can only be cut into no blocks
    have hnone : streamed.map List.flatten = [] :=
      hstreamed.unique .nil hpos (by rw [hstream, hempty]; rfl)
    exact ⟨map_eq_nil_iff.mp hnone, map_eq_nil_iff.mp (hsame ▸ hnone)⟩

theorem block_paths_agree_sample :
    ∃ streamed buffered, Collects (.new ([[1, 2], [], [3, 4, 5, 6, 7]].map .ok) 3) (.ok streamed)
      ∧ splitChunksIntoBlocks [[1, 2], [], [3, 4, 5, 6, 7]] 3 = some buffered
      ∧ streamed.map List.flatten = buffered.map List.flatten := by
  obtain ⟨streamed, buffered, hcollects, hsplit, hsame, -⟩ :=
    block_paths_agree (show 1 ≤ 3 by decide) [[1, 2], [], [3, 4, 5, 6, 7]]
  exact ⟨streamed, buffered, hcollects, hsplit, hsame⟩

end FractalBits.Gateway
