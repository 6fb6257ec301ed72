/-
  Streaming.Encoder — the encoder of chunk-signed bodies, against the decoder.

  Mirrors `calculate_chunk_signature` and `create_streaming_body` of
  `aws_signature/src/streaming.rs`.
-/

import FractalBits.Lib.Hexadecimal
import FractalBits.Lib.Slices
import FractalBits.Streaming.Signed

namespace FractalBits.Streaming

open Lib List

/-! ## §1. The encoder -/

def isizeMax : Nat := 2 ^ 63 - 1

section

variable (C : Crypto) (context : ChunkSignatureContext)

/-- The key length never fails: HMAC takes keys of any length. -/
def calculateChunkSignature (previousSignature chunkData : Bytes) : Bytes :=
  hexEncode (C.hmacSha256 context.signingKey
    (chunkStringToSign C context.datetime context.scopeString previousSignature chunkData))

def chunkLine (size : Nat) (chunkSignature : Bytes) : Bytes :=
  lowerHex size ++ (59 :: ascii "chunk-signature=" ++ chunkSignature)

def writeChunk (st : Bytes × Bytes) (chunk : Bytes) : Bytes × Bytes :=
  let chunkSignature := calculateChunkSignature C context st.2 chunk
  let chunkHeader := chunkLine chunk.length chunkSignature ++ crlf
  (st.1 ++ chunkHeader ++ chunk ++ crlf, chunkSignature)

def createStreamingBody (body : Bytes) (chunkSize : Nat) (seedSignature : Bytes) : Bytes :=
  let st := (chunks chunkSize body).foldl (writeChunk C context) ([], seedSignature)
  let finalChunkSignature := calculateChunkSignature C context st.2 []
  -- `"0;chunk-signature={}\r\n\r\n"`
  let finalHeader := ascii "0" ++ (59 :: ascii "chunk-signature=" ++ finalChunkSignature) ++ crlf
    ++ crlf
  st.1 ++ finalHeader

/-! ## §2. What it writes, as chunks -/

def signedChunks (seed : Bytes) : List Bytes → List Chunk
  | [] => []
  | piece :: pieces =>
    let signature := calculateChunkSignature C context seed piece
    ⟨chunkLine piece.length signature, piece⟩ :: signedChunks signature pieces

def signatureOver (seed : Bytes) (pieces : List Bytes) : Bytes :=
  pieces.foldl (calculateChunkSignature C context) seed

theorem foldl_writeChunk (result seed : Bytes) (pieces : List Bytes) :
    pieces.foldl (writeChunk C context) (result, seed)
      = (result ++ encodeChunks (signedChunks C context seed pieces), signatureOver C context seed
        pieces) := by
  induction pieces generalizing result seed with
  | nil => simp [signedChunks, encodeChunks, signatureOver]
  | cons piece pieces ih =>
    rw [foldl_cons]
    show pieces.foldl (writeChunk C context) (_, calculateChunkSignature C context seed piece) = _
    rw [ih]
    have hcons := encodeChunks_cons
      ⟨chunkLine piece.length (calculateChunkSignature C context seed piece), piece⟩
      (signedChunks C context (calculateChunkSignature C context seed piece) pieces) []
    rw [append_nil, append_nil] at hcons
    rw [signedChunks, hcons]
    simp only [append_assoc]
    rfl

theorem lowerHex_zero : lowerHex 0 = ascii "0" := by decide

theorem createStreamingBody_eq (body : Bytes) (chunkSize : Nat) (seed : Bytes) :
    createStreamingBody C context body chunkSize seed
      = encodeChunks (signedChunks C context seed (chunks chunkSize body))
        ++ (chunkLine 0
          (calculateChunkSignature C context (signatureOver C context seed (chunks chunkSize body))
          []) ++ (crlf ++ crlf)) := by
  unfold createStreamingBody
  rw [foldl_writeChunk]
  show _ ++ (ascii "0" ++ _ ++ crlf ++ crlf) = _
  rw [nil_append, chunkLine, lowerHex_zero, append_assoc (ascii "0" ++ _)]

theorem dataOf_signedChunks (seed : Bytes) (pieces : List Bytes) :
    dataOf (signedChunks C context seed pieces) = pieces.flatten := by
  induction pieces generalizing seed with
  | nil => rfl
  | cons piece pieces ih =>
    show piece ++ dataOf (signedChunks C context _ pieces) = _
    rw [ih, flatten_cons]

end

/-! ## §3. What the decoder reads -/

section

variable {C : Crypto} {context : ChunkSignatureContext} {sig : Bytes} {size : Nat}

theorem printable_chunkLine (hsig : Printable sig) : Printable (chunkLine size sig) :=
  (printable_lowerHex size).append (Printable.append (by decide) hsig)

theorem sizeLine_chunkLine (hsize : size < 2 ^ 64) (hsig : Printable sig) :
    SizeLine (chunkLine size sig) size where
  one_line := (printable_chunkLine hsig).one_line
  utf8 := (printable_chunkLine hsig).utf8Valid
  size := by
    have hno : ∀ b ∈ lowerHex size, (b != 59) = true := by
      intro b hb
      have hne : b ≠ 59 := by
        rintro rfl
        exact not_mem_hexPad (by decide) hb
      simpa using hne
    have hbefore : beforeFirst 59 (chunkLine size sig) = lowerHex size := by
      unfold beforeFirst chunkLine
      rw [takeWhile_append_of_pos hno]
      simp
    unfold chunkSize
    rw [hbefore, (printable_lowerHex size).trim_eq]
    exact fromStrRadix16_lowerHex hsize

theorem parseChunkSignature_chunkLine (hsig : Printable sig) (hsemicolon : 59 ∉ sig) :
    parseChunkSignature (chunkLine size sig) = some ⟨sig⟩ := by
  have hnoSize : (59 : UInt8) ∉ lowerHex size := not_mem_hexPad (by decide)
  have hnoExtension : (59 : UInt8) ∉ ascii "chunk-signature=" ++ sig := by
    intro h
    rcases mem_append.mp h with h | h
    · exact absurd h (by decide)
    · exact hsemicolon h
  have hsplit : splitOnce 59 (chunkLine size sig) = some
    (lowerHex size, ascii "chunk-signature=" ++ sig) :=
    splitOnce_append hnoSize
  unfold parseChunkSignature
  rw [hsplit]
  show (splitAll 59 (ascii "chunk-signature=" ++ sig)).findSome? _ = _
  rw [splitAll_of_not_mem hnoExtension, List.findSome?_singleton, stripPrefix_append]
  show some (ChunkSignature.mk (trim sig)) = _
  rw [hsig.trim_eq]

theorem parseChunkSignature_signed (size : Nat) (prev data : Bytes) :
    parseChunkSignature (chunkLine size (calculateChunkSignature C context prev data))
      = some ⟨calculateChunkSignature C context prev data⟩ :=
  parseChunkSignature_chunkLine (printable_hexEncode _) (not_mem_hexEncode (by decide) _)

theorem chain_signedChunks (seed : Bytes) (pieces : List Bytes) :
    chain C (some context) (some seed) (signedChunks C context seed pieces)
      = some (some (signatureOver C context seed pieces)) := by
  induction pieces generalizing seed with
  | nil => rfl
  | cons piece pieces ih =>
    have hstep : chainStep C (some context) (some seed)
        ⟨chunkLine piece.length (calculateChunkSignature C context seed piece), piece⟩
        = some (some (calculateChunkSignature C context seed piece)) := by
      have hparse :
          parseChunkSignature
            (chunkLine piece.length (calculateChunkSignature C context seed piece)) = some
            ⟨calculateChunkSignature C context seed piece⟩ :=
            parseChunkSignature_signed _ seed piece
      apply chainStep_eq_some_iff.mpr
      constructor
      · unfold signatureAfter
        rw [hparse]
        rfl
      · intro found hfound
        rw [hparse] at hfound
        injection hfound with hfound
        rw [← hfound]
        exact hexDecode_hexEncode _
    rw [signedChunks, chain, hstep]
    exact ih (calculateChunkSignature C context seed piece)

theorem readable_signedChunks {pieces : List Bytes}
    (hpieces : ∀ piece ∈ pieces, 0 < piece.length ∧ piece.length ≤ isizeMax) (seed : Bytes) :
    ∀ c ∈ signedChunks C context seed pieces, c.Readable := by
  induction pieces generalizing seed with
  | nil => exact fun c hc => absurd hc not_mem_nil
  | cons piece pieces ih =>
    intro c hc
    obtain ⟨hpos, hle⟩ := hpieces piece mem_cons_self
    have hlt : piece.length < usizeMax := Nat.lt_of_le_of_lt hle (by decide)
    rcases mem_cons.mp hc with rfl | hc
    · have hline : SizeLine (chunkLine piece.length (calculateChunkSignature C context seed piece))
        piece.length :=
        sizeLine_chunkLine (Nat.lt_of_lt_of_le hlt (by decide)) (printable_hexEncode _)
      exact ⟨hline, hpos, hlt⟩
    · exact ih (fun p hp => hpieces p (mem_cons_of_mem _ hp)) _ c hc

end

/-! ## §4. Encoder and decoder -/

theorem frames_createStreamingBody (C : Crypto) (context : ChunkSignatureContext) {body : Bytes}
    (hbody : body.length ≤ isizeMax) (chunkSize : Nat) (seed : Bytes) :
    Frames (createStreamingBody C context body chunkSize seed)
      (signedChunks C context seed (chunks chunkSize body))
      (.zero (chunkLine 0 (calculateChunkSignature C context
        (signatureOver C context seed (chunks chunkSize body)) [])) crlf) := by
  have hpieces : ∀ piece ∈ chunks chunkSize body, 0 < piece.length ∧ piece.length ≤ isizeMax := by
    intro piece hpiece
    obtain ⟨hpos, -, hle⟩ := length_chunks hpiece
    exact ⟨hpos, hle.trans hbody⟩
  refine ⟨_, createStreamingBody_eq C context body chunkSize seed, readable_signedChunks hpieces
    seed, ?_⟩
  apply rest_zero_iff.mpr
  exact ⟨rfl, sizeLine_chunkLine (by decide) (printable_hexEncode _)⟩

/-- ★ **Encoder and decoder are inverse.** For every body (a slice is at most `isize::MAX` long),
    chunk size, context and seed, and every fragmentation: the decoder, started with that context
    and seed, ends in exactly one way, without an error, and has yielded the body. -/
theorem streaming_body_decodes (C : Crypto) (context : ChunkSignatureContext) (seed : Bytes)
    {body : Bytes} (hbody : body.length ≤ isizeMax) {chunkSize : Nat} (hsize : 1 ≤ chunkSize)
    {fragments : List Bytes} (hfragments : fragments.flatten = createStreamingBody C context body
    chunkSize seed) :
    ∃ o, (∀ o', Drains C (.start true (some (context, some seed)) (fragments.map .ok)) o' ↔ o' = o)
      ∧ o.Accepted ∧ o.items.flatten = body := by
  have hframes := frames_createStreamingBody C context hbody chunkSize seed
  rw [← hfragments] at hframes
  obtain ⟨o, hdrains, haccepted, hitems⟩ := drains_frames C (some context) (some seed) hframes
  have hchain : (chain C (some context) (some seed)
      (signedChunks C context seed (chunks chunkSize body))).isSome = true := by
    rw [chain_signedChunks]
    rfl
  have haccept := haccepted.mpr ⟨hchain, nofun⟩
  refine ⟨o, fun o' => ⟨fun h => h.unique hdrains, fun h => h ▸ hdrains⟩, haccept, ?_⟩
  rw [hitems haccept nofun, dataOf_signedChunks, flatten_chunks hsize]

theorem streaming_body_decodes_bytewise :
    ∃ o, (∀ o', Drains ⟨id, fun _ => id⟩ (.start true (some (⟨[1], [], []⟩, some (ascii "s")))
        (((createStreamingBody ⟨id, fun _ => id⟩ ⟨[1], [], []⟩ (ascii "hello") 2 (ascii "s")).map
          ([·])).map .ok)) o' ↔ o' = o)
      ∧ o.Accepted ∧ o.items.flatten = ascii "hello" := by
  have hsize : 1 ≤ 2 := by decide
  exact streaming_body_decodes _ _ _ (by decide) hsize (by rw [← flatMap_def, flatMap_singleton'])

end FractalBits.Streaming
