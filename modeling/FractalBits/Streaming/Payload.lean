/-
  Streaming.Payload — the decoder of `aws-chunked` request bodies.

  Mirrors `S3StreamingPayload::poll_next` of `s3_streaming.rs` with the chunk signatures of
  `aws_signature/src/streaming.rs`. One pass of the source's `loop` is `poll`; `drain` polls until
  the stream ends.
-/

import FractalBits.Lib.Text

namespace FractalBits.Streaming

open Lib

/-! ## §1. Chunk signatures -/

structure Crypto where
  sha256 : Bytes → Bytes
  hmacSha256 : Bytes → Bytes → Bytes

structure ChunkSignatureContext where
  signingKey : Bytes
  /-- formatted `%Y%m%dT%H%M%SZ` -/
  datetime : Bytes
  scopeString : Bytes
  deriving DecidableEq, Repr

structure ChunkSignature where
  signature : Bytes
  deriving DecidableEq, Repr

/-- The signature of a chunk line `<hex-size>;chunk-signature=<signature>`: of the first extension
    with that name. -/
def parseChunkSignature (chunkLine : Bytes) : Option ChunkSignature :=
  match splitOnce 59 chunkLine with
  | none => none
  | some (_, extensions) =>
    (splitAll 59 extensions).findSome? fun extension =>
      (stripPrefix (ascii "chunk-signature=") extension).map fun signature => ⟨trim signature⟩

def emptyPayloadHash : Bytes :=
  ascii "e3b0c44298fc1c149afbf4c8996fb92427ae41e4649b934ca495991b7852b855"

def chunkStringToSign (C : Crypto) (datetime scopeString previousSignature chunkData : Bytes) :
    Bytes :=
  [10].intercalate [ascii "AWS4-HMAC-SHA256-PAYLOAD", datetime, scopeString, previousSignature,
    emptyPayloadHash, hexEncode (C.sha256 chunkData)]

inductive SignatureError
  | cryptoError
  | validationError
  deriving DecidableEq, Repr

def verifyChunkSignature (C : Crypto) (context : ChunkSignatureContext)
    (chunkSignature : ChunkSignature) (previousSignature chunkData : Bytes) :
    Except SignatureError Unit :=
  let stringToSign := chunkStringToSign C context.datetime context.scopeString previousSignature
    chunkData
  match hexDecode chunkSignature.signature with
  | none => .error .cryptoError
  | some expectedSignature =>
    if expectedSignature ≠ C.hmacSha256 context.signingKey stringToSign then .error .validationError
    else .ok ()

/-! ## §2. Trailers -/

structure S3Trailers where
  checksumValue : Option Bytes
  trailerSignature : Option Bytes
  deriving DecidableEq, Repr

def checksumTrailerNames : List Bytes :=
  [ascii "x-amz-checksum-crc32", ascii "x-amz-checksum-crc32c", ascii "x-amz-checksum-crc64nvme",
    ascii "x-amz-checksum-sha1", ascii "x-amz-checksum-sha256"]

def S3Trailers.addLine (trailers : S3Trailers) (line : Bytes) : S3Trailers :=
  match splitOnce 58 (trim line) with
  | none => trailers
  | some (name, value) =>
    let name := toLowercase (trim name)
    let value := trim value
    if name ∈ checksumTrailerNames then
      -- only one checksum type is supported: the first one found
      if trailers.checksumValue.isNone then { trailers with checksumValue := some value }
        else trailers
    else if name = ascii "x-amz-trailer-signature" then
      { trailers with trailerSignature := some value }
    else trailers

def parseS3Trailers (trailerData : Bytes) : S3Trailers :=
  if ¬ utf8Valid trailerData then ⟨none, none⟩
  else (lines trailerData).foldl S3Trailers.addLine ⟨none, none⟩

/-! ## §3. The decoder -/

def usizeMax : Nat := 2 ^ 64 - 1

inductive PayloadError
  | encodingCorrupted
  | incomplete
  /-- an error of the wrapped payload -/
  | inner
  deriving DecidableEq, Repr

inductive S3ChunkState
  | readingChunkSize
  | readingChunkData (remaining : Nat) (chunkSignature : Option ChunkSignature)
  | readingChunkEnd
  | readingTrailers
  | done
  deriving DecidableEq, Repr

structure S3StreamingPayload where
  inner : List (Except PayloadError Bytes)
  state : S3ChunkState
  trailerBuffer : Bytes
  signatureContext : Option ChunkSignatureContext
  previousSignature : Option Bytes
  currentChunkBuffer : Bytes
  deriving DecidableEq, Repr

/-- A turn of the loop in `poll_next`. -/
inductive Poll
  /-- `continue` -/
  | again (p : S3StreamingPayload)
  /-- `Ready(Some(Ok(data)))`; the checksum task is sent the same data -/
  | item (data : Bytes) (p : S3StreamingPayload)
  /-- `Ready(Some(Err(e)))`; the checksum task is sent an error -/
  | error (e : PayloadError)
  /-- `Ready(None)`, after the trailers, if any were found, were sent to the checksum task -/
  | finish (trailers : Option S3Trailers)
  deriving DecidableEq, Repr

def chunkSize (chunkLine : Bytes) : Option Nat :=
  fromStrRadix16 (2 ^ 64) (trim (beforeFirst 59 chunkLine))

variable (p : S3StreamingPayload)

def S3StreamingPayload.takeLine (chunkLine : Bytes) : Poll :=
  if ¬ utf8Valid chunkLine then .error .encodingCorrupted
  else match chunkSize chunkLine with
    | none => .error .encodingCorrupted
    | some 0 => .again { p with state := .readingTrailers }
    | some size =>
      .again { p with state := .readingChunkData size (parseChunkSignature chunkLine) }

def S3StreamingPayload.findLine (otherwise : Poll) : Poll :=
  match position crlf p.trailerBuffer with
  | some lineEnd =>
    { p with trailerBuffer := p.trailerBuffer.drop (lineEnd + 2) }.takeLine
      (p.trailerBuffer.take lineEnd)
  | none => otherwise

def S3StreamingPayload.pollChunkSize : Poll :=
  match p.inner with
  | .ok data :: inner =>
    let p := { p with inner, trailerBuffer := p.trailerBuffer ++ data }
    p.findLine (.again p)
  | .error e :: _ => .error e
  | [] =>
    if p.trailerBuffer ≠ [] then
      -- the remaining buffer is treated as trailers
      p.findLine (.again { p with state := .readingTrailers })
    else .finish none

/-- All data of a chunk was read: verify its signature if there is a context, a signature and a
    previous one. -/
def S3StreamingPayload.endChunk (C : Crypto) (p : S3StreamingPayload)
    (chunkSignature : Option ChunkSignature) : Poll :=
  match p.signatureContext, chunkSignature, p.previousSignature with
  | some context, some sig, some prev =>
    match verifyChunkSignature C context sig prev p.currentChunkBuffer with
    | .error _ => .error .encodingCorrupted
    | .ok () => .again { p with
        previousSignature := some sig.signature
        currentChunkBuffer := []
        state := .readingChunkEnd }
  | _, _, _ => .again { p with currentChunkBuffer := [], state := .readingChunkEnd }

def S3StreamingPayload.yieldData (remaining : Nat)
    (chunkSignature : Option ChunkSignature) (chunkData : Bytes) : Poll :=
  .item chunkData { p with
    currentChunkBuffer :=
      if p.signatureContext.isSome then p.currentChunkBuffer ++ chunkData else p.currentChunkBuffer
    state := .readingChunkData (remaining - chunkData.length) chunkSignature }

def S3StreamingPayload.pollChunkData (C : Crypto) (p : S3StreamingPayload) (remaining : Nat)
    (chunkSignature : Option ChunkSignature) : Poll :=
  if remaining = usizeMax then
    -- pass-through mode
    match p.inner with
    | .ok data :: inner => .item data { p with inner }
    | .error e :: _ => .error e
    | [] => .finish none
  else if remaining = 0 then p.endChunk C chunkSignature
  else if p.trailerBuffer ≠ [] then
    let toTake := min remaining p.trailerBuffer.length
    { p with trailerBuffer := p.trailerBuffer.drop toTake }.yieldData remaining chunkSignature
      (p.trailerBuffer.take toTake)
  else
    match p.inner with
    | .ok data :: inner =>
      let toTake := min remaining data.length
      { p with inner, trailerBuffer := p.trailerBuffer ++ data.drop toTake }.yieldData remaining
        chunkSignature (data.take toTake)
    | .error e :: _ => .error e
    | [] => .error .incomplete

def S3StreamingPayload.takeChunkEnd : Poll :=
  if p.trailerBuffer.length ≥ 2 then
    if p.trailerBuffer.take 2 ≠ crlf then .error .encodingCorrupted
    else .again { p with trailerBuffer := p.trailerBuffer.drop 2, state := .readingChunkSize }
  else .again p

def S3StreamingPayload.pollChunkEnd : Poll :=
  if p.trailerBuffer.length < 2 then
    match p.inner with
    | .ok data :: inner => { p with inner, trailerBuffer := p.trailerBuffer ++ data }.takeChunkEnd
    | .error e :: _ => .error e
    | [] => .error .incomplete
  else p.takeChunkEnd

def S3StreamingPayload.pollTrailers : Poll :=
  match p.inner with
  | .ok data :: inner =>
    let p := { p with inner, trailerBuffer := p.trailerBuffer ++ data }
    match position (crlf ++ crlf) p.trailerBuffer with
    | some endPos => .finish (some (parseS3Trailers (p.trailerBuffer.take endPos)))
    | none => .again p
  | .error e :: _ => .error e
  | [] => .finish none

def S3StreamingPayload.poll (C : Crypto) (p : S3StreamingPayload) : Poll :=
  match p.state with
  | .readingChunkSize => p.pollChunkSize
  | .readingChunkData remaining chunkSignature => p.pollChunkData C remaining chunkSignature
  | .readingChunkEnd => p.pollChunkEnd
  | .readingTrailers => p.pollTrailers
  | .done => .finish none

/-- The payload of a request: `aws-chunked` if `isStreaming`, otherwise passed through. -/
def S3StreamingPayload.start (isStreaming : Bool)
    (signatureInfo : Option (ChunkSignatureContext × Option Bytes))
    (inner : List (Except PayloadError Bytes)) : S3StreamingPayload where
  inner := inner
  state := if isStreaming then .readingChunkSize else .readingChunkData usizeMax none
  trailerBuffer := []
  signatureContext := signatureInfo.map Prod.fst
  previousSignature := signatureInfo.bind Prod.snd
  currentChunkBuffer := []

/-! ## §4. Whole bodies -/

/-- How the stream ends. -/
inductive Ending
  | finished (trailers : Option S3Trailers)
  | failed (e : PayloadError)
  deriving DecidableEq, Repr

structure Outcome where
  items : List Bytes
  ending : Ending
  deriving DecidableEq, Repr

def Outcome.Accepted (o : Outcome) : Prop := ∃ trailers, o.ending = .finished trailers

def Outcome.prepend (items : List Bytes) (o : Outcome) : Outcome :=
    { o with items := items ++ o.items }

/-- The stream is polled until it ends. -/
def drain (C : Crypto) : Nat → S3StreamingPayload → Option Outcome
  | 0, _ => none
  | fuel + 1, p =>
    match p.poll C with
    | .again p => drain C fuel p
    | .item data p => (drain C fuel p).map (Outcome.prepend [data])
    | .error e => some ⟨[], .failed e⟩
    | .finish trailers => some ⟨[], .finished trailers⟩

/-- The stream ends, with this outcome. -/
def Drains (C : Crypto) (p : S3StreamingPayload) (o : Outcome) : Prop :=
    ∃ fuel, drain C fuel p = some o

variable {C : Crypto} {p : S3StreamingPayload} {items : List Bytes} {r : Poll}

theorem drain_mono {fuel : Nat} {o : Outcome} (h : drain C fuel p = some o)
    (more : Nat) : drain C (fuel + more) p = some o := by
  induction fuel generalizing p o with
  | zero => cases h
  | succ fuel ih =>
    rw [show fuel + 1 + more = fuel + more + 1 by omega]
    unfold drain at h ⊢
    cases hp : p.poll C with
    | again p' =>
      rw [hp] at h
      exact ih h
    | item data p' =>
      rw [hp] at h
      obtain ⟨o', ho', rfl⟩ := Option.map_eq_some_iff.mp h
      show (drain C (fuel + more) p').map _ = _
      rw [ih ho']
      rfl
    | error e => rw [hp] at h; exact h
    | finish t => rw [hp] at h; exact h

theorem Drains.unique {o o' : Outcome} (h : Drains C p o)
    (h' : Drains C p o') : o = o' := by
  obtain ⟨n, hn⟩ := h
  obtain ⟨n', hn'⟩ := h'
  have h1 := drain_mono hn n'
  have h2 := drain_mono hn' n
  rw [Nat.add_comm, h1] at h2
  injection h2

/-- `p`, after yielding `items`, gets to the poll result `r`. -/
inductive Leads (C : Crypto) : S3StreamingPayload → List Bytes → Poll → Prop
  | here {p : S3StreamingPayload} {r : Poll} (h : p.poll C = r) : Leads C p [] r
  | again {p p' : S3StreamingPayload} {items : List Bytes} {r : Poll} (h : p.poll C = .again p')
      (hrest : Leads C p' items r) : Leads C p items r
  | item {p p' : S3StreamingPayload} {data : Bytes} {items : List Bytes} {r : Poll}
      (h : p.poll C = .item data p') (hrest : Leads C p' items r) : Leads C p (data :: items) r

theorem Leads.trans {p' : S3StreamingPayload} {items' : List Bytes}
    (h : Leads C p items (.again p')) (h' : Leads C p' items' r) :
    Leads C p (items ++ items') r := by
  generalize hr : Poll.again p' = q at h
  induction h with
  | here h => exact .again (h.trans hr.symm) h'
  | again h _ ih => exact .again h (ih hr)
  | item h _ ih => exact .item h (ih hr)

theorem Leads.congr {q : S3StreamingPayload}
    (h : p.poll C = q.poll C) (hq : Leads C q items r) : Leads C p items r := by
  cases hq with
  | here hq => exact .here (h.trans hq)
  | again hq hrest => exact .again (h.trans hq) hrest
  | item hq hrest => exact .item (h.trans hq) hrest

theorem drains_of_leads
    (h : Leads C p items r) :
    (∀ e, r = .error e → Drains C p ⟨items, .failed e⟩) ∧
    (∀ t, r = .finish t → Drains C p ⟨items, .finished t⟩) := by
  induction h with
  | @here p r h =>
    refine ⟨fun e he => ⟨1, ?_⟩, fun t ht => ⟨1, ?_⟩⟩
    · simp only [drain, h, he]
    · simp only [drain, h, ht]
  | again h _ ih =>
    refine ⟨fun e he => ?_, fun t ht => ?_⟩
    · obtain ⟨n, hn⟩ := ih.1 e he
      exact ⟨n + 1, by simp only [drain, h, hn]⟩
    · obtain ⟨n, hn⟩ := ih.2 t ht
      exact ⟨n + 1, by simp only [drain, h, hn]⟩
  | item h _ ih =>
    refine ⟨fun e he => ?_, fun t ht => ?_⟩
    · obtain ⟨n, hn⟩ := ih.1 e he
      exact ⟨n + 1, by simp only [drain, h, hn]; rfl⟩
    · obtain ⟨n, hn⟩ := ih.2 t ht
      exact ⟨n + 1, by simp only [drain, h, hn]; rfl⟩

end FractalBits.Streaming
