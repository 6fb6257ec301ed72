/-
  Rpc.Framing — frames on a connection.

  Mirrors `send_task` and `receive_task` (tokio) of `generic_client.rs`.
-/

import FractalBits.Rpc.Header
import FractalBits.Lib.ByteStream

namespace FractalBits.Rpc

open Lib List

variable {H : Type}

/-! ## §1. Sending -/

inductive RpcError where
  | ioError
  | checksumMismatch
  deriving DecidableEq, Repr

structure Frame (H : Type) where
  header : H
  body : List Bytes

structure WriteHalf where
  calls : Nat
  written : Bytes

/-- `write_vectored`. `socket` says of each call how many bytes it is ready to take, or that it
    fails. -/
def WriteHalf.writeVectored (socket : Nat → Option Nat) (writer : WriteHalf) (iov : List Bytes) :
    Except RpcError Nat × WriteHalf :=
  match socket writer.calls with
  | none => (.error .ioError, { writer with calls := writer.calls + 1 })
  | some ready =>
    let written := min ready iov.flatten.length
    (.ok written,
      { calls := writer.calls + 1, written := writer.written ++ iov.flatten.take written })

def frameSlices (codec : HeaderCodec H) (frame : Frame H) : List Bytes :=
  codec.encode (codec.setChecksum frame.header) :: frame.body

def byteSlices (codec : HeaderCodec H) (batch : List (Frame H)) : List Bytes :=
    batch.flatMap (frameSlices codec)

/-- The loop over a batch's slices; `none` when the fuel does not suffice. -/
def writeLoop (socket : Nat → Option Nat) :
    Nat → List Bytes → Nat → WriteHalf → Option (Except RpcError Unit × WriteHalf)
  | 0, _, _, _ => none
  | _ + 1, [], _, writer => some (.ok (), writer)
  | fuel + 1, slice :: slices, offsetInSlice, writer =>
    let iov := ioSlices (slice :: slices) offsetInSlice
    if iov.isEmpty then some (.ok (), writer)
    else
      match writer.writeVectored socket iov with
      | (.error e, writer) => some (.error e, writer)
      | (.ok written, writer) =>
        if written = 0 then some (.error .ioError, writer)
        else
          let position := advance (slice :: slices) offsetInSlice written
          writeLoop socket fuel position.1 position.2 writer

def sendTask (codec : HeaderCodec H) (socket : Nat → Option Nat) (fuel : Nat) :
    List (List (Frame H)) → WriteHalf → Option (Except RpcError Unit × WriteHalf)
  | [], writer => some (.ok (), writer)
  | batch :: batches, writer =>
    if batch.length = 0 then some (.ok (), writer)
    else
      match writeLoop socket fuel (byteSlices codec batch) 0 writer with
      | none => none
      | some (.error e, writer) => some (.error e, writer)
      | some (.ok (), writer) => sendTask codec socket fuel batches writer

def Accepting (socket : Nat → Option Nat) : Prop := ∀ k, ∃ n, 0 < n ∧ socket k = some n

variable {socket : Nat → Option Nat}

theorem WriteHalf.writeVectored_spec (hsocket : Accepting socket) (writer : WriteHalf)
    {iov : List Bytes} (hne : iov.flatten ≠ []) :
    ∃ n, 0 < n ∧ n ≤ iov.flatten.length ∧
      writer.writeVectored socket iov
        = (.ok n,
          { calls := writer.calls + 1, written := writer.written ++ iov.flatten.take n }) := by
  obtain ⟨ready, hpos, hready⟩ := hsocket writer.calls
  have hlength := length_pos_iff.mpr hne
  refine ⟨min ready iov.flatten.length, by omega, Nat.min_le_right _ _, ?_⟩
  unfold WriteHalf.writeVectored
  rw [hready]

theorem ioSlices_isEmpty_iff (slices : List Bytes) (offset : Nat) :
    (ioSlices slices offset).isEmpty = true ↔ (ioSlices slices offset).flatten = [] := by
  rw [List.isEmpty_iff]
  constructor
  · intro h
    rw [h]
    rfl
  · intro h
    apply eq_nil_iff_forall_not_mem.mpr
    intro data hdata
    have hne : (!data.isEmpty) = true := (mem_filter.mp hdata).2
    rw [flatten_eq_nil_iff.mp h data hdata] at hne
    exact Bool.false_ne_true hne

theorem writeLoop_spec (hsocket : Accepting socket) (fuel : Nat) (slices : List Bytes)
    (offset : Nat) (writer : WriteHalf) (hwithin : Within slices offset)
    (hfuel : (slices.flatten.drop offset).length < fuel) :
    ∃ calls, writeLoop socket fuel slices offset writer
      = some (.ok (), { calls, written := writer.written ++ slices.flatten.drop offset }) := by
  induction fuel generalizing slices offset writer with
  | zero => omega
  | succ fuel ih =>
    cases slices with
    | nil =>
      refine ⟨writer.calls, ?_⟩
      rw [flatten_nil, drop_nil, append_nil]
      rfl
    | cons slice slices =>
      have hleft := flatten_ioSlices hwithin
      unfold writeLoop
      by_cases hempty : (ioSlices (slice :: slices) offset).flatten = []
      · -- only empty slices are left
        refine ⟨writer.calls, ?_⟩
        simp only [if_pos ((ioSlices_isEmpty_iff _ _).mpr hempty)]
        rw [← hleft, hempty, append_nil]
      · -- the socket takes `n > 0` bytes, so less is left for the next call
        obtain ⟨n, hpos, hle, hwrite⟩ := writer.writeVectored_spec hsocket hempty
        simp only [if_neg (fun h => hempty ((ioSlices_isEmpty_iff _ _).mp h)), hwrite,
          if_neg (Nat.pos_iff_ne_zero.mp hpos)]
        rw [hleft] at hle ⊢
        obtain ⟨hwithin', hrest⟩ := advance_spec (slice :: slices) offset n hwithin hle
        obtain ⟨calls, hloop⟩ := ih _ _
          { calls := writer.calls + 1, written := writer.written
              ++ ((slice :: slices).flatten.drop offset).take n }
          hwithin' (by rw [hrest, length_drop]; omega)
        refine ⟨calls, ?_⟩
        rw [hloop, hrest, append_assoc, take_append_drop]

def onWire (codec : HeaderCodec H) (frame : Frame H) : Bytes :=
  codec.encode (codec.setChecksum frame.header) ++ frame.body.flatten

theorem flatten_byteSlices (codec : HeaderCodec H) (batch : List (Frame H)) :
    (byteSlices codec batch).flatten = batch.flatMap (onWire codec) := by
  induction batch with
  | nil => rfl
  | cons frame batch ih =>
    unfold byteSlices at ih ⊢
    rw [flatMap_cons, flatten_append, ih, flatMap_cons]
    rfl

theorem sendTask_spec (codec : HeaderCodec H) (hsocket : Accepting socket) (fuel : Nat)
    (batches : List (List (Frame H))) (hne : ∀ batch ∈ batches, batch ≠ [])
    (hfuel : (batches.flatten.flatMap (onWire codec)).length < fuel) (writer : WriteHalf) :
    ∃ calls, sendTask codec socket fuel batches writer
      = some (.ok (),
        { calls, written := writer.written ++ batches.flatten.flatMap (onWire codec) }) := by
  induction batches generalizing writer with
  | nil =>
    refine ⟨writer.calls, ?_⟩
    rw [flatten_nil, flatMap_nil, append_nil]
    rfl
  | cons batch batches ih =>
    rw [flatten_cons, flatMap_append, length_append] at hfuel
    have hbatch : ¬ batch.length = 0 := fun h =>
      hne batch mem_cons_self (eq_nil_of_length_eq_zero h)
    obtain ⟨calls, hwrite⟩ := writeLoop_spec hsocket fuel (byteSlices codec batch) 0 writer
      (within_zero _) (by rw [drop_zero, flatten_byteSlices]; omega)
    rw [drop_zero, flatten_byteSlices] at hwrite
    obtain ⟨calls', hsend⟩ := ih (fun b hb => hne b (mem_cons_of_mem _ hb)) (by omega)
      { calls, written := writer.written ++ batch.flatMap (onWire codec) }
    refine ⟨calls', ?_⟩
    unfold sendTask
    simp only [if_neg hbatch, hwrite]
    rw [hsend, flatten_cons, flatMap_append, append_assoc]

/-! ## §2. Receiving -/

def atHeader : Ending → Except RpcError Unit
  | .eof => .ok ()
  | .ioError => .error .ioError

/-- `receive_task`: the frames handed to `handle_incoming_frame`, and the task's result; `none` when
    the fuel does not suffice. -/
def receiveTask (codec : HeaderCodec H) :
    Nat → ReadHalf UInt8 → Option (List (H × Bytes) × Except RpcError Unit)
  | 0, _ => none
  | fuel + 1, receiver =>
    match receiver.readExact codec.size with
    | .error ending => some ([], atHeader ending)
    | .ok (headerBuf, receiver) =>
      if codec.verifyHeaderChecksum headerBuf = false then some ([], .error .checksumMismatch)
      else
        let header := codec.decode headerBuf
        -- the loop that fills the body reads nothing when the body is empty
        match receiver.readExact (codec.getBodySize header) with
        | .error _ => some ([], .error .ioError)
        | .ok (body, receiver) =>
          if codec.verifyBodyChecksum header body = false then some ([], .error .checksumMismatch)
          else (receiveTask codec fuel receiver).map fun p => ((header, body) :: p.1, p.2)

/-- A frame as it arrives: the bytes of its header and, as many as the header says, of its body. -/
structure Arrival (codec : HeaderCodec H) where
  headerBuf : Bytes
  body : Bytes
  length_headerBuf : headerBuf.length = codec.size
  length_body : body.length = codec.getBodySize (codec.decode headerBuf)

namespace Arrival

variable {codec : HeaderCodec H} (arrival : Arrival codec)

def bytes : Bytes := arrival.headerBuf ++ arrival.body

def headerMatches : Bool := codec.verifyHeaderChecksum arrival.headerBuf

def bodyMatches : Bool :=
  codec.verifyBodyChecksum (codec.decode arrival.headerBuf) arrival.body

def intact : Bool := arrival.headerMatches && arrival.bodyMatches

def handed : H × Bytes := (codec.decode arrival.headerBuf, arrival.body)

end Arrival

/-- A header that does not match: how long its body is cannot be told. -/
structure BadHeader (codec : HeaderCodec H) where
  headerBuf : Bytes
  length_headerBuf : headerBuf.length = codec.size
  mismatch : codec.verifyHeaderChecksum headerBuf = false

section Receiving

variable (codec : HeaderCodec H) {receiver : ReadHalf UInt8} {rest : Bytes}

theorem receiveTask_good {arrival : Arrival codec} (hintact : arrival.intact = true)
    (hfragmented : receiver.Fragmented) (hcontent : receiver.content = arrival.bytes ++ rest) :
    ∃ receiver' : ReadHalf UInt8, receiver'.Fragmented ∧ receiver'.content = rest ∧
      receiver'.ending = receiver.ending ∧
      ∀ fuel, receiveTask codec (fuel + 1) receiver
        = (receiveTask codec fuel receiver').map fun p => (arrival.handed :: p.1, p.2) := by
  obtain ⟨hheader, hbody⟩ : codec.verifyHeaderChecksum arrival.headerBuf = true ∧
      codec.verifyBodyChecksum (codec.decode arrival.headerBuf) arrival.body = true := by
    simpa [Arrival.intact, Arrival.headerMatches, Arrival.bodyMatches] using hintact
  have hbytes : receiver.content = arrival.headerBuf ++ (arrival.body ++ rest) := by
    rw [hcontent, Arrival.bytes, append_assoc]
  obtain ⟨r₁, hread₁, hfragmented₁, hcontent₁, hending₁⟩ := ReadHalf.readExact_spec hfragmented
    hbytes
  obtain ⟨r₂, hread₂, hfragmented₂, hcontent₂, hending₂⟩ := ReadHalf.readExact_spec hfragmented₁
    hcontent₁
  rw [arrival.length_headerBuf] at hread₁
  rw [arrival.length_body] at hread₂
  refine ⟨r₂, hfragmented₂, hcontent₂, hending₂.trans hending₁, fun fuel => ?_⟩
  rw [receiveTask, hread₁]
  simp only [hheader, hread₂, hbody, Bool.true_eq_false, if_false]
  rfl

theorem receiveTask_badHeader (bad : BadHeader codec)
    (hfragmented : receiver.Fragmented) (hcontent : receiver.content = bad.headerBuf ++ rest)
    (fuel : Nat) :
    receiveTask codec (fuel + 1) receiver = some ([], .error .checksumMismatch) := by
  obtain ⟨r₁, hread, -⟩ := ReadHalf.readExact_spec hfragmented hcontent
  rw [bad.length_headerBuf] at hread
  rw [receiveTask, hread]
  simp only [bad.mismatch, if_true]

theorem receiveTask_badBody {arrival : Arrival codec} (hheader : arrival.headerMatches = true)
    (hbad : arrival.bodyMatches = false) (hfragmented : receiver.Fragmented)
    (hcontent : receiver.content = arrival.bytes ++ rest) (fuel : Nat) :
    receiveTask codec (fuel + 1) receiver = some ([], .error .checksumMismatch) := by
  have hbytes : receiver.content = arrival.headerBuf ++ (arrival.body ++ rest) := by
    rw [hcontent, Arrival.bytes, append_assoc]
  obtain ⟨r₁, hread₁, hfragmented₁, hcontent₁, -⟩ := ReadHalf.readExact_spec hfragmented hbytes
  obtain ⟨r₂, hread₂, -⟩ := ReadHalf.readExact_spec hfragmented₁ hcontent₁
  rw [arrival.length_headerBuf] at hread₁
  rw [arrival.length_body] at hread₂
  unfold Arrival.headerMatches at hheader
  unfold Arrival.bodyMatches at hbad
  rw [receiveTask, hread₁]
  simp only [hheader, hread₂, hbad, Bool.true_eq_false, if_false, if_true]

theorem receiveTask_end (hcontent : receiver.content = []) (fuel : Nat) :
    receiveTask codec (fuel + 1) receiver = some ([], atHeader receiver.ending) := by
  have hread : receiver.readExact codec.size = .error receiver.ending := by
    apply ReadHalf.readExact_short
    rw [hcontent]
    exact codec.size_pos
  rw [receiveTask, hread]

theorem receiveTask_intact (arrivals : List (Arrival codec))
    (hintact : ∀ a ∈ arrivals, a.intact = true) (hfragmented : receiver.Fragmented)
    (hcontent : receiver.content = arrivals.flatMap Arrival.bytes ++ rest) :
    ∃ receiver' : ReadHalf UInt8, receiver'.Fragmented ∧ receiver'.content = rest ∧
      receiver'.ending = receiver.ending ∧
      ∀ fuel, receiveTask codec (arrivals.length + fuel) receiver
        = (receiveTask codec fuel receiver').map fun p =>
          (arrivals.map Arrival.handed ++ p.1, p.2) := by
  induction arrivals generalizing receiver with
  | nil =>
    refine ⟨receiver, hfragmented, hcontent, rfl, fun fuel => ?_⟩
    rw [length_nil, Nat.zero_add]
    exact Option.map_id'.symm
  | cons arrival arrivals ih =>
    rw [flatMap_cons, append_assoc] at hcontent
    obtain ⟨r₁, hfragmented₁, hcontent₁, hending₁, hfirst⟩ :=
      receiveTask_good codec (hintact arrival mem_cons_self) hfragmented hcontent
    obtain ⟨r₂, hfragmented₂, hcontent₂, hending₂, hlater⟩ :=
      ih (fun a ha => hintact a (mem_cons_of_mem _ ha)) hfragmented₁ hcontent₁
    refine ⟨r₂, hfragmented₂, hcontent₂, hending₂.trans hending₁, fun fuel => ?_⟩
    rw [length_cons, Nat.add_right_comm, hfirst, hlater, Option.map_map]
    rfl

end Receiving

/-! ## §3. End to end -/

variable (codec : HeaderCodec H)

def WellSized (frame : Frame H) : Prop :=
  codec.getSize frame.header = codec.size + frame.body.flatten.length

instance (codec : HeaderCodec H) (frame : Frame H) : Decidable (WellSized codec frame) :=
  inferInstanceAs (Decidable (_ = _))

def received (frame : Frame H) : H × Bytes :=
  (codec.setChecksum frame.header, frame.body.flatten)

def carriesBodyChecksum (frame : Frame H) : Bool :=
  codec.verifyBodyChecksum (codec.setChecksum frame.header) frame.body.flatten

def Frame.arrival (frame : Frame H) (h : WellSized codec frame) : Arrival codec where
  headerBuf := codec.encode (codec.setChecksum frame.header)
  body := frame.body.flatten
  length_headerBuf := codec.encode_length _
  length_body := by
    rw [codec.decode_encode, HeaderCodec.getBodySize, codec.getSize_setChecksum, h,
      Nat.add_sub_cancel_left]

section EndToEnd

variable {codec : HeaderCodec H} {frame : Frame H} (h : WellSized codec frame)

theorem Frame.arrival_headerMatches : (frame.arrival codec h).headerMatches = true :=
  codec.verify_setChecksum frame.header

theorem Frame.arrival_bodyMatches :
    (frame.arrival codec h).bodyMatches = carriesBodyChecksum codec frame := by
  show codec.verifyBodyChecksum (codec.decode (codec.encode (codec.setChecksum frame.header)))
    frame.body.flatten = _
  rw [codec.decode_encode]
  rfl

theorem Frame.arrival_intact :
    (frame.arrival codec h).intact = carriesBodyChecksum codec frame := by
  rw [Arrival.intact, Frame.arrival_headerMatches, Frame.arrival_bodyMatches, Bool.true_and]

theorem Frame.arrival_handed : (frame.arrival codec h).handed = received codec frame := by
  show (codec.decode (codec.encode (codec.setChecksum frame.header)), frame.body.flatten) = _
  rw [codec.decode_encode]
  rfl

end EndToEnd

def resultOf (codec : HeaderCodec H) (frames : List (Frame H)) (ending : Ending) :
    Except RpcError Unit :=
  if frames.all (carriesBodyChecksum codec) then atHeader ending else .error .checksumMismatch

theorem receiveTask_sent (codec : HeaderCodec H) (frames : List (Frame H))
    (hsized : ∀ f ∈ frames, WellSized codec f) {receiver : ReadHalf UInt8}
    (hfragmented : receiver.Fragmented)
    (hcontent : receiver.content = frames.flatMap (onWire codec)) {fuel : Nat}
    (hfuel : frames.length < fuel) :
    receiveTask codec fuel receiver
      = some ((frames.takeWhile (carriesBodyChecksum codec)).map (received codec),
        resultOf codec frames receiver.ending) := by
  induction frames generalizing receiver fuel with
  | nil =>
    obtain ⟨fuel, rfl⟩ : ∃ n, fuel = n + 1 := ⟨fuel - 1, by simp at hfuel; omega⟩
    exact receiveTask_end codec hcontent fuel
  | cons frame frames ih =>
    rw [length_cons] at hfuel
    obtain ⟨fuel, rfl⟩ : ∃ n, fuel = n + 1 := ⟨fuel - 1, by omega⟩
    have hframe := hsized frame mem_cons_self
    rw [flatMap_cons] at hcontent
    cases hcarries : carriesBodyChecksum codec frame with
    | false =>
      -- the first frame without its checksum ends the task, and is not handed over
      rw [receiveTask_badBody codec (Frame.arrival_headerMatches hframe)
        ((Frame.arrival_bodyMatches hframe).trans hcarries) hfragmented hcontent fuel]
      unfold resultOf
      rw [takeWhile_cons, all_cons, hcarries]
      rfl
    | true =>
      -- the frame is handed over, and the induction goes on with the rest of the stream
      obtain ⟨r₁, hfragmented₁, hcontent₁, hending, hstep⟩ :=
        receiveTask_good codec ((Frame.arrival_intact hframe).trans hcarries) hfragmented hcontent
      have hlater := ih (fun f hf => hsized f (mem_cons_of_mem _ hf)) hfragmented₁ hcontent₁
        (Nat.lt_of_succ_lt_succ hfuel)
      rw [hstep, hlater, hending, Frame.arrival_handed]
      unfold resultOf
      rw [takeWhile_cons, all_cons, hcarries, Bool.true_and]
      rfl

/-- ★ **Framing is exact.** Whatever parts of its batches the socket takes, it was handed the header
    and the body slices of each frame in order. However these bytes are fragmented, the receiver
    hands over the same headers and bodies; and on any stream nothing from, or after, the first
    frame whose header or body checksum does not match. -/
theorem rpc_framing_exact (codec : HeaderCodec H) (batches : List (List (Frame H)))
    (hbatches : ∀ batch ∈ batches, batch ≠ []) (hsized : ∀ f ∈ batches.flatten, WellSized codec f)
    {socket : Nat → Option Nat} (hsocket : Accepting socket) :
    (∀ fuel, (batches.flatten.flatMap (onWire codec)).length < fuel → ∃ calls,
      sendTask codec socket fuel batches ⟨0, []⟩ = some
        (.ok (), ⟨calls, batches.flatten.flatMap (onWire codec)⟩)) ∧
    (∀ receiver : ReadHalf UInt8, receiver.Fragmented → receiver.content = batches.flatten.flatMap
      (onWire codec) →
      ∀ fuel, batches.flatten.length < fuel →
        receiveTask codec fuel receiver
          = some ((batches.flatten.takeWhile (carriesBodyChecksum codec)).map (received codec),
              resultOf codec batches.flatten receiver.ending)) ∧
    (∀ arrivals : List (Arrival codec), (∀ a ∈ arrivals, a.intact = true) →
      ∀ (bad tail : Bytes),
        ((∃ b : BadHeader codec, bad = b.headerBuf) ∨
          ∃ b : Arrival codec, bad = b.bytes ∧ b.headerMatches = true ∧ b.bodyMatches = false) →
        ∀ receiver : ReadHalf UInt8, receiver.Fragmented →
          receiver.content = arrivals.flatMap Arrival.bytes ++ (bad ++ tail) →
          ∀ fuel, arrivals.length < fuel →
            receiveTask codec fuel receiver = some (arrivals.map Arrival.handed,
              .error .checksumMismatch)) := by
  refine ⟨fun fuel hfuel => ?_, fun receiver hfragmented hcontent fuel hfuel => ?_, ?_⟩
  · exact sendTask_spec codec hsocket fuel batches hbatches hfuel ⟨0, []⟩
  · exact receiveTask_sent codec batches.flatten hsized hfragmented hcontent hfuel
  · intro arrivals hintact bad tail hbad receiver hfragmented hcontent fuel hfuel
    -- the intact frames are handed over first, with one round of the loop each
    obtain ⟨more, rfl⟩ : ∃ n, fuel = arrivals.length + (n + 1) :=
      ⟨fuel - arrivals.length - 1, by omega⟩
    obtain ⟨r₁, hfragmented₁, hcontent₁, -, hrun⟩ := receiveTask_intact codec arrivals hintact
      hfragmented hcontent
    have hlast : receiveTask codec (more + 1) r₁ = some ([], .error .checksumMismatch) := by
      rcases hbad with ⟨b, rfl⟩ | ⟨b, rfl, hheader, hbody⟩
      · exact receiveTask_badHeader codec b hfragmented₁ hcontent₁ more
      · exact receiveTask_badBody codec hheader hbody hfragmented₁ hcontent₁ more
    rw [hrun, hlast, Option.map_some, append_nil]

/-! ## §4. A sample connection -/

def countingHash (s : Bytes) : UInt64 := UInt64.ofNat s.length

def sampleHeader (id : UInt32) (bodyLength : Nat) (checksumBody : UInt64) : MessageHeader where
  checksum := 0
  protoVersion := 1
  retryCount := 0
  volumeId := 7
  size := UInt32.ofNat (160 + bodyLength)
  checksumBody := checksumBody
  command := 2
  id := id
  bucketId := Octets.zero 16
  blobId := Octets.zero 16
  version := 1
  blockNumber := 0
  bodyLen := UInt32.ofNat bodyLength
  traceId := 0
  errno := 0
  isNew := 1
  isDeleted := 0
  skipFenceToken := 0
  isRoot := 0
  fenceToken := 0
  reserve1 := Octets.zero 24
  reserve2 := Octets.zero 32

def sampleBatches : List (List (Frame MessageHeader)) :=
  [[⟨sampleHeader 1 3 3, [[10, 20], [], [30]]⟩, ⟨sampleHeader 2 0 0, []⟩],
    [⟨sampleHeader 3 1 9, [[40]]⟩]]

theorem rpc_framing_exact_at_sample :
    (∃ calls, sendTask (bssHeader countingHash) (fun k => some (k % 7 + 1)) 500 sampleBatches
      ⟨0, []⟩ = some
        (.ok (), ⟨calls, sampleBatches.flatten.flatMap (onWire (bssHeader countingHash))⟩)) ∧
    receiveTask (bssHeader countingHash) 4
        ⟨(sampleBatches.flatten.flatMap (onWire (bssHeader countingHash))).map fun b => [b], .eof⟩
      = some ([((sampleHeader 1 3 3).setChecksum countingHash, [10, 20, 30]),
          ((sampleHeader 2 0 0).setChecksum countingHash, [])], .error .checksumMismatch) := by
  have hsocket : Accepting fun k => some (k % 7 + 1) := fun k => ⟨k % 7 + 1, Nat.succ_pos _, rfl⟩
  obtain ⟨hsend, hreceive, -⟩ := rpc_framing_exact (bssHeader countingHash) sampleBatches
    (by decide) (by decide) hsocket
  refine ⟨hsend 500 (by decide +kernel), ?_⟩
  refine (hreceive _ ?_ ?_ 4 (by decide)).trans ?_
  · intro fragment hfragment
    obtain ⟨b, -, rfl⟩ := mem_map.mp hfragment
    exact cons_ne_nil b []
  · exact flatMap_singleton' _
  · decide +kernel

end FractalBits.Rpc
