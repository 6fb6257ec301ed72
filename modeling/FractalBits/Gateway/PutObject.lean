/-
  Gateway.PutObject — the handlers of `PutObject` and `UploadPart`.

  Mirrors `put_object.rs`, `upload_part.rs`, and the part of `handler.rs` a signed request goes
  through before them. What is outside the process is an outcome of `PutEnv`.
-/

import FractalBits.Gateway.Authentication
import FractalBits.Gateway.BlockSplit
import FractalBits.Gateway.GetObject
import FractalBits.Streaming.Framing

namespace FractalBits.Gateway

open Lib Streaming List
open OvrMap (Uuid)

/-! ## §1. Requests and the environment -/

/-- A request for an object, with its body as it arrives. -/
structure ObjectRequestContext where
  request : HttpRequest
  apiKey : Option ApiKey
  key : Bytes
  checksumValue : Option ChecksumValue
  payload : List (Except PayloadError Bytes)

/-- The blocks and the inodes that are stored. -/
structure World where
  stores : BlobStores
  inodes : Bytes → Option ObjectLayout

/-- What a PUT reads from the services and the server it runs in. -/
structure PutEnv where
  crypto : Crypto
  checksums : Checksums
  calendar : Calendar
  auth : AuthState
  /-- the time when the request arrives -/
  now : Int
  /-- the time when its authentication is extracted again -/
  later : Int
  /-- authentication of a request without an `Authorization` header -/
  authenticateOtherwise : Except S3Error ApiKey
  /-- the bucket's permissions, with the key's refresh -/
  authorize : ApiKey → Except S3Error ApiKey
  backend : BlobStorageBackend
  resolveBucket : Except S3Error Unit
  hasBlobClient : Bool
  /-- `create_data_blob_guid_with_preference` -/
  createGuid : Bool → DataBlobGuid
  /-- the write of the block at this position is acknowledged -/
  acked : Nat → Bool
  /-- block writes in the order in which they complete -/
  completed : List (BlobKey × Bytes) → List (BlobKey × Bytes)
  completed_perm : ∀ writes, (completed writes).Perm writes
  /-- the namespace update, with the cleanup of a replaced object -/
  putInode : Except S3Error Unit
  /-- `Uuid::parse_str` -/
  parseUuid : Bytes → Option Uuid

structure HttpResponse where
  etag : Bytes
  objectSize : Option Nat
  deriving DecidableEq, Repr

/-- A PUT that is answered, and what it stores. -/
structure PutOutcome where
  response : HttpResponse
  world : World
  blocks : List (List Bytes)

def PutOutcome.stored (out : PutOutcome) : Bytes := (out.blocks.map List.flatten).flatten

/-! ## §2. Blocks and layout -/

variable (env : PutEnv)

def PutEnv.blockWrites (guid : DataBlobGuid) (blocks : List (List Bytes)) :
    List (BlobKey × Bytes) :=
  blocks.mapIdx fun i chunks => env.backend.createStorage.putBlobVectored guid (UInt32.ofNat i)
    chunks

def PutEnv.putBlocks (guid : DataBlobGuid) (blocks : List (List Bytes)) (stores : BlobStores) :
    Except S3Error BlobStores :=
  if (List.range blocks.length).all env.acked then
    .ok (writeAll stores (env.completed (env.blockWrites guid blocks)))
  else .error .internalError

def PutEnv.objectLayout (guid : DataBlobGuid) (size : Nat) (headers : Headers)
    (checksum : Option ChecksumValue) : ObjectLayout where
  blockSize := defaultBlockSize
  blobVersion := 1
  mapEpoch := 0
  blobGuid := assignLayoutVolume env.backend guid size
  size := size
  headers := headers
  checksum := checksum

variable (ctx : ObjectRequestContext)

def PutEnv.putLayout (w : World) (stores : BlobStores)
    (blocks : List (List Bytes)) (layout : ObjectLayout) : Except S3Error PutOutcome :=
  match env.putInode with
  | .error e => .error e
  | .ok () => .ok {
      response := ⟨Uuid.asSimple layout.blobGuid.blobId, some layout.size⟩
      world := ⟨stores, Function.update w.inodes ctx.key (some layout)⟩
      blocks }

/-! ## §3. The streaming path -/

def streamingPayload : Bytes := ascii "STREAMING-AWS4-HMAC-SHA256-PAYLOAD"

/-- The context of a chunk-signed request: extracting the authentication again may fail, and then
    there is none. -/
def PutEnv.extractChunkSignatureContext :
    Except S3Error (Option (ChunkSignatureContext × Option Bytes)) :=
  match extractHeaderAuthentication env.calendar env.later ctx.request.headers with
  | .error _ => .ok none
  | .ok none => .ok none -- pre-signed requests declare UNSIGNED-PAYLOAD
  | .ok (some auth) =>
    if auth.contentSha256 = streamingPayload then
      match ctx.apiKey with
      | none => .error .invalidAccessKeyId
      | some apiKey => .ok (some (
          { signingKey := getSigningKey env.crypto env.calendar auth.date apiKey.secretKey
              env.auth.region
            datetime := env.calendar.formatLong auth.date
            scopeString := auth.scopeString },
          some auth.signature))
    else .ok none

def Outcome.stream (o : Outcome) : List (Except PayloadError Bytes) :=
  o.items.map .ok ++
    match o.ending with
    | .finished _ => []
    | .failed e => [.error e]

def ChecksumError.toS3Error : ChecksumError → S3Error
  | .internalError => .internalError
  | .invalidDigest => .invalidDigest

def PutEnv.finishStreaming (guid : DataBlobGuid) (w : World)
    (headers : Headers) (trailerAlgorithm : Option ChecksumAlgorithm) (o : Outcome)
    (blocks : Except PayloadError (List (List Bytes))) : Except S3Error PutOutcome := do
  let .ok blocks := blocks | .error .internalError
  let stores ← env.putBlocks guid blocks w.stores
  let totalSize := (blocks.map fun chunks => (chunks.map List.length).sum).sum % 2 ^ 64
  match checksumTask env.checksums trailerAlgorithm ctx.checksumValue o.messages with
  | .error e => .error (ChecksumError.toS3Error e)
  | .ok checksum =>
    env.putLayout ctx w stores blocks (env.objectLayout guid totalSize headers checksum)

variable (fuel : Nat)

def PutEnv.putObjectStreamingInternal (ctx : ObjectRequestContext)
    (guid : DataBlobGuid) (w : World) : Option (Except S3Error PutOutcome) :=
  match extractMetadataHeaders ctx.request.headers with
  | .error e => some (.error e)
  | .ok headers =>
    match env.extractChunkSignatureContext ctx with
    | .error e => some (.error e)
    | .ok signatureInfo =>
      match requestTrailerChecksumAlgorithm (ctx.request.headers.get (ascii "x-amz-trailer")) with
      | .error e => some (.error (ChecksumError.toS3Error e))
      | .ok trailerAlgorithm =>
        if env.hasBlobClient = false then some (.error .internalError)
        else do
          let o ← drain env.crypto fuel
            (.start (isStreamingRequest ctx.request.headers) signatureInfo ctx.payload)
          let blocks ← (BlockDataStream.new (Outcome.stream o) defaultBlockSize).collect fuel
          return env.finishStreaming ctx guid w headers trailerAlgorithm o blocks

/-! ## §4. The buffered path -/

def bufferPayload : List (Except PayloadError Bytes) → Except S3Error (List Bytes)
  | [] => .ok []
  | .error _ :: _ => .error .internalError
  | .ok chunk :: payload => (bufferPayload payload).map (chunk :: ·)

def calculateChecksumForChunks (K : Checksums) (chunks : List Bytes)
    (expectedChecksum : Option ChecksumValue) :
    Except S3Error (Option ChecksumValue) :=
  match expectedChecksum with
  | some expected =>
    let calculated := K.digest expected.algorithm chunks.flatten
    if calculated ≠ expected.bytes then .error .invalidDigest
      else .ok (some ⟨expected.algorithm, calculated⟩)
  | none => .ok none

def calculateChecksumForChunksWithAlgorithm (K : Checksums) (chunks : List Bytes)
    (algorithm : ChecksumAlgorithm) :
    Option ChecksumValue :=
  some ⟨algorithm, K.digest algorithm chunks.flatten⟩

def blocksOf (chunks : List Bytes) : Option (List (List Bytes)) :=
  if (chunks.map List.length).sum ≤ defaultBlockSize then some [chunks]
  else splitChunksIntoBlocks chunks defaultBlockSize

/-- The checksum of the headers is verified; a declared trailer's is only computed. -/
def PutEnv.bufferedChecksum (chunks : List Bytes) :
    Except S3Error (Option ChecksumValue) :=
  match requestTrailerChecksumAlgorithm (ctx.request.headers.get (ascii "x-amz-trailer")) with
  | .error _ => .error .invalidSignature
  | .ok trailerAlgo =>
    if ctx.checksumValue.isSome then calculateChecksumForChunks env.checksums chunks
      ctx.checksumValue
    else .ok (trailerAlgo.bind (calculateChecksumForChunksWithAlgorithm env.checksums chunks))

def PutEnv.finishBuffered (guid : DataBlobGuid) (w : World)
    (chunks : List Bytes) (blocks : List (List Bytes)) : Except S3Error PutOutcome := do
  let headers ← extractMetadataHeaders ctx.request.headers
  let checksum ← env.bufferedChecksum ctx chunks
  if env.hasBlobClient = false then .error .internalError
  let stores ← env.putBlocks guid blocks w.stores
  env.putLayout ctx w stores blocks (env.objectLayout guid (chunks.map List.length).sum headers
    checksum)

def PutEnv.putObjectWithNoTrailer (guid : DataBlobGuid) (w : World) :
    Option (Except S3Error PutOutcome) :=
  match bufferPayload ctx.payload with
  | .error e => some (.error e)
  | .ok chunks => (blocksOf chunks).map (env.finishBuffered ctx guid w chunks)

/-! ## §5. The handlers -/

/-- Whether the body is buffered before it is stored. -/
inductive PutPath
  | streaming
  | buffered
  deriving DecidableEq, Repr

def PutEnv.putVia (path : PutPath) (ctx : ObjectRequestContext) (guid : DataBlobGuid)
    (w : World) : Option (Except S3Error PutOutcome) :=
  match path with
  | .streaming => env.putObjectStreamingInternal fuel ctx guid w
  | .buffered => env.putObjectWithNoTrailer ctx guid w

def putPath (headers : Headers) : PutPath := if shouldUseStreaming headers then .streaming
    else .buffered

/-- The blob of an upload: erasure coding is preferred for a large or unknown size. -/
def PutEnv.blobGuid (headers : Headers) : DataBlobGuid :=
  let contentLenHint := ((headers.get (ascii "content-length")).bind toStr).bind parseUsize
  env.createGuid (contentLenHint.all fun size => size ≥ defaultBlockSize)

def PutEnv.putObjectHandler (ctx : ObjectRequestContext) (w : World) :
    Option (Except S3Error PutOutcome) :=
  if ctx.key.getLast? = some 47 then some (.error .keyUnsupported)
  else
    match env.resolveBucket with
    | .error e => some (.error e)
    | .ok () =>
      if env.hasBlobClient = false then some (.error .internalError)
      else env.putVia fuel (putPath ctx.request.headers) ctx (env.blobGuid ctx.request.headers) w

def decimal (n : Nat) : Bytes := (Nat.toDigits 10 n).map fun c => UInt8.ofNat c.toNat

def mpuGetPartPrefix (key : Bytes) (uploadId : Uuid) (partNumber : Nat) : Bytes :=
  let partStr := decimal (partNumber - 1)
  key ++ ascii "#" ++ Uuid.asSimple uploadId ++ ascii "/" ++
    if partNumber ≠ 0 then List.replicate (4 - partStr.length) 48 ++ partStr else []

def PutEnv.uploadPartHandler (ctx : ObjectRequestContext) (partNumber : Nat)
    (uploadId : Bytes) (w : World) : Option (Except S3Error PutOutcome) :=
  if ¬ (1 ≤ partNumber ∧ partNumber ≤ 10000) then some (.error .invalidPart)
  else
    match env.parseUuid uploadId with
    | none => some (.error .noSuchUpload)
    | some uploadUuid =>
      (env.putObjectHandler fuel { ctx with key := mpuGetPartPrefix ctx.key uploadUuid partNumber }
        w).map (Except.map fun out =>
          { out with response := ⟨uploadId ++ decimal partNumber, none⟩ })

inductive PutEndpoint
  | putObject
  | uploadPart (partNumber : Nat) (uploadId : Bytes)
  deriving DecidableEq, Repr

/-- The API key a request is handled with: its signature was checked and the key may write to the
    bucket. -/
def PutEnv.authenticate (request : HttpRequest) : Except S3Error ApiKey :=
  match extractHeaderAuthentication env.calendar env.now request.headers with
  | .error _ => .error .authorizationHeaderMalformed
  | .ok none => env.authenticateOtherwise.bind env.authorize
  | .ok (some auth) =>
    (checkSignature env.crypto env.calendar env.auth auth request).bind env.authorize

def PutEnv.anyHandler (request : HttpRequest) (key : Bytes) (endpoint : PutEndpoint)
    (checksumValue : Option ChecksumValue) (payload : List (Except PayloadError Bytes))
    (w : World) :
    Option (Except S3Error PutOutcome) :=
  match env.authenticate request with
  | .error e => some (.error e)
  | .ok apiKey =>
    let ctx : ObjectRequestContext := ⟨request, some apiKey, key, checksumValue, payload⟩
    match endpoint with
    | .putObject => env.putObjectHandler fuel ctx w
    | .uploadPart partNumber uploadId => env.uploadPartHandler fuel ctx partNumber uploadId w

/-! ## §6. Answered uploads -/

variable {env : PutEnv} {ctx : ObjectRequestContext} {guid : DataBlobGuid} {w : World}
    {out : PutOutcome}

/-- What an answered upload of `content` left behind: blocks cut to the block size, or one empty
    block, written in some order, and a layout of its size. -/
structure StoredAs (env : PutEnv) (ctx : ObjectRequestContext) (guid : DataBlobGuid) (w : World)
    (content : Bytes) (out : PutOutcome) : Prop where
  blocks : Sliced defaultBlockSize (out.blocks.map List.flatten)
    ∨ out.blocks.map List.flatten = [[]]
  stored : out.stored = content
  stores : out.world.stores = writeAll w.stores (env.completed (env.blockWrites guid out.blocks))
  inode : ∃ size headers checksum, (size = content.length ∨ size = content.length % 2 ^ 64) ∧
    out.world.inodes ctx.key = some (env.objectLayout guid size headers checksum)

theorem putBlocks_ok {blocks : List (List Bytes)} {stores stores' : BlobStores}
    (h : env.putBlocks guid blocks stores = .ok stores') :
    stores' = writeAll stores (env.completed (env.blockWrites guid blocks)) := by
  unfold PutEnv.putBlocks at h
  split at h
  · injection h with h
    exact h.symm
  · cases h

theorem putLayout_ok {stores : BlobStores} {blocks : List (List Bytes)} {layout : ObjectLayout}
    (h : env.putLayout ctx w stores blocks layout = .ok out) :
    out.blocks = blocks ∧ out.world.stores = stores ∧ out.world.inodes ctx.key = some layout := by
  unfold PutEnv.putLayout at h
  cases hput : env.putInode with
  | error e =>
    rw [hput] at h
    cases h
  | ok u =>
    rw [hput] at h
    injection h with h
    subst h
    exact ⟨rfl, rfl, Function.update_self ..⟩

theorem sum_lengths (chunks : List Bytes) : (chunks.map List.length).sum = chunks.flatten.length :=
  length_flatten.symm

theorem sum_block_sizes (blocks : List (List Bytes)) :
    (blocks.map fun chunks => (chunks.map List.length).sum).sum
      = (blocks.map List.flatten).flatten.length := by
  rw [length_flatten, map_map]
  exact congrArg List.sum (map_congr_left fun chunks _ => sum_lengths chunks)

/-- ★ **An upload answered on the streaming path** stored what its stream decoded to, and the stream
    ended without an error. -/
theorem streaming_cases {fuel : Nat} (h : env.putObjectStreamingInternal fuel ctx guid w = some
    (.ok out)) :
    ∃ signatureInfo o, env.extractChunkSignatureContext ctx = .ok signatureInfo ∧
      Drains env.crypto (.start (isStreamingRequest ctx.request.headers) signatureInfo ctx.payload)
        o ∧
      o.Accepted ∧ StoredAs env ctx guid w o.items.flatten out := by
  unfold PutEnv.putObjectStreamingInternal at h
  cases hmeta : extractMetadataHeaders ctx.request.headers with
  | error e => rw [hmeta] at h; injection h with h; cases h
  | ok headers =>
  cases hctx : env.extractChunkSignatureContext ctx with
  | error e => rw [hmeta, hctx] at h; injection h with h; cases h
  | ok signatureInfo =>
  cases htrailer :
    requestTrailerChecksumAlgorithm (ctx.request.headers.get (ascii "x-amz-trailer")) with
  | error e => rw [hmeta, hctx, htrailer] at h; injection h with h; cases h
  | ok trailerAlgorithm =>
  rw [hmeta, hctx, htrailer] at h
  dsimp only at h
  split at h
  · injection h with h; cases h
  · obtain ⟨o, hdrain, h⟩ := Option.bind_eq_some_iff.mp h
    obtain ⟨blocks, hcollect, h⟩ := Option.bind_eq_some_iff.mp h
    injection h with h
    refine ⟨signatureInfo, o, rfl, ⟨fuel, hdrain⟩, ?_⟩
    unfold PutEnv.finishStreaming at h
    cases blocks with
    | error e => cases h
    | ok blocks =>
    obtain ⟨stores, hput, h⟩ := of_bind_ok h
    cases htask : checksumTask env.checksums trailerAlgorithm ctx.checksumValue o.messages with
    | error e => rw [htask] at h; cases h
    | ok checksum =>
    rw [htask] at h
    -- a stream that failed fails the checksum task
    obtain ⟨trailers, hending⟩ : o.Accepted := by
      cases o with
      | mk items ending =>
        cases ending with
        | finished t => exact ⟨t, rfl⟩
        | failed e =>
          rw [checksumTask_failed] at htask
          cases htask
    obtain ⟨hblocks, hstores, hinode⟩ := putLayout_ok h
    have hstream : Outcome.stream o = o.items.map .ok := by
      unfold Outcome.stream
      rw [hending]
      exact append_nil _
    obtain ⟨bs, hbs, hsliced, hflat⟩ := collects_blocks (show 0 < defaultBlockSize by decide)
      o.items
    have heq : blocks = bs := by
      rw [hstream] at hcollect
      exact Except.ok.inj (Collects.unique ⟨fuel, hcollect⟩ hbs)
    subst heq
    refine ⟨⟨trailers, hending⟩, ?_, ?_, ?_, ?_⟩
    · rw [hblocks]
      exact .inl hsliced
    · unfold PutOutcome.stored
      rw [hblocks, hflat]
    · rw [hstores, hblocks, putBlocks_ok hput]
    · refine ⟨_, headers, checksum, .inr ?_, hinode⟩
      rw [sum_block_sizes, hflat]

variable {chunks : List Bytes}

theorem bufferPayload_ok {payload : List (Except PayloadError Bytes)}
    (h : bufferPayload payload = .ok chunks) : payload = chunks.map .ok := by
  induction payload generalizing chunks with
  | nil =>
    injection h with h
    rw [← h]
    rfl
  | cons item payload ih =>
    cases item with
    | error e => cases h
    | ok chunk =>
      cases hrest : bufferPayload payload with
      | error e => simp [bufferPayload, hrest, Except.map] at h
      | ok rest =>
        simp only [bufferPayload, hrest, Except.map, Except.ok.injEq] at h
        rw [← h, ih hrest, map_cons]

theorem ok_fragments {chunks' : List Bytes}
    (h : chunks.map (Except.ok : Bytes → Except PayloadError Bytes) = chunks'.map .ok) :
    chunks = chunks' :=
  map_injective_iff.mpr (fun _ _ hab => Except.ok.inj hab) h

theorem bufferPayload_map (chunks : List Bytes) : bufferPayload (chunks.map .ok) = .ok chunks := by
  induction chunks with
  | nil => rfl
  | cons chunk chunks ih =>
    rw [map_cons, bufferPayload, ih]
    rfl

theorem blocksOf_spec (chunks : List Bytes) :
    ∃ blocks, blocksOf chunks = some blocks ∧
      (Sliced defaultBlockSize (blocks.map List.flatten) ∨ blocks.map List.flatten = [[]]) ∧
      (blocks.map List.flatten).flatten = chunks.flatten := by
  unfold blocksOf
  rw [sum_lengths]
  by_cases hone : chunks.flatten.length ≤ defaultBlockSize
  · rw [if_pos hone]
    refine ⟨_, rfl, ?_, by simp⟩
    -- one block: of at least one byte, or empty
    by_cases hempty : chunks.flatten = []
    · exact .inr (by rw [map_cons, hempty, map_nil])
    · exact .inl (.last (length_pos_of_ne_nil hempty) hone)
  · rw [if_neg hone]
    obtain ⟨bs, hbs, hsliced, hflat⟩ :=
      splitChunksIntoBlocks_sliced (show 0 < defaultBlockSize by decide) chunks
    exact ⟨bs, hbs, .inl hsliced, hflat⟩

/-- ★ **An upload answered on the buffered path** stored its body as it came. -/
theorem buffered_cases (h : env.putObjectWithNoTrailer ctx guid w = some (.ok out)) :
    ∃ chunks : List Bytes, ctx.payload = chunks.map .ok
      ∧ StoredAs env ctx guid w chunks.flatten out := by
  unfold PutEnv.putObjectWithNoTrailer at h
  cases hbuf : bufferPayload ctx.payload with
  | error e => rw [hbuf] at h; injection h with h; cases h
  | ok chunks =>
  rw [hbuf] at h
  dsimp only at h
  obtain ⟨blocks, hblocksOf, hcut, hflat⟩ := blocksOf_spec chunks
  rw [hblocksOf, Option.map_some] at h
  injection h with h
  unfold PutEnv.finishBuffered at h
  obtain ⟨headers, -, h⟩ := of_bind_ok h
  obtain ⟨checksum, -, h⟩ := of_bind_ok h
  split at h
  · cases h
  · obtain ⟨stores, hput, h⟩ := of_bind_ok h
    obtain ⟨hblocks, hstores, hinode⟩ := putLayout_ok h
    refine ⟨chunks, bufferPayload_ok hbuf, ?_, ?_, ?_, ?_⟩
    · rw [hblocks]
      exact hcut
    · unfold PutOutcome.stored
      rw [hblocks, hflat]
    · rw [hstores, hblocks, putBlocks_ok hput]
    · exact ⟨_, headers, checksum, .inl (sum_lengths chunks), hinode⟩

theorem putObjectHandler_cases {fuel : Nat}
    (h : env.putObjectHandler fuel ctx w = some (.ok out)) :
    env.putVia fuel (putPath ctx.request.headers) ctx (env.blobGuid ctx.request.headers) w = some
      (.ok out) := by
  unfold PutEnv.putObjectHandler at h
  split at h
  · injection h with h
    cases h
  · cases hbucket : env.resolveBucket with
    | error e =>
      rw [hbucket] at h
      injection h with h
      cases h
    | ok u =>
      rw [hbucket] at h
      dsimp only at h
      split at h
      · injection h with h
        cases h
      · exact h

theorem putObjectHandler_eq (w : World) (hkey : ctx.key.getLast? ≠ some 47)
    (hbucket : env.resolveBucket = .ok ()) (hclient : env.hasBlobClient = true) :
    env.putObjectHandler fuel ctx w
      = env.putVia fuel (putPath ctx.request.headers) ctx (env.blobGuid ctx.request.headers) w := by
  unfold PutEnv.putObjectHandler
  rw [if_neg hkey, hbucket]
  dsimp only
  rw [if_neg (by rw [hclient]; exact Bool.noConfusion)]

theorem putObjectWithNoTrailer_ok (hpayload : ctx.payload = chunks.map .ok)
    {headers : Headers} (hmeta : extractMetadataHeaders ctx.request.headers = .ok headers)
    {checksum : Option ChecksumValue} (hchecksum : env.bufferedChecksum ctx chunks = .ok checksum)
    (hclient : env.hasBlobClient = true) (hacked : ∀ i, env.acked i = true)
    (hinode : env.putInode = .ok ()) :
    ∃ out, env.putObjectWithNoTrailer ctx guid w = some (.ok out)
      ∧ out.stored = chunks.flatten := by
  obtain ⟨blocks, hblocks, -, hflat⟩ := blocksOf_spec chunks
  have hput : env.putBlocks guid blocks w.stores
      = .ok (writeAll w.stores (env.completed (env.blockWrites guid blocks))) :=
    if_pos (all_eq_true.mpr fun i _ => hacked i)
  have hfinish : ∃ out, env.finishBuffered ctx guid w chunks blocks = .ok out
    ∧ out.blocks = blocks := by
    unfold PutEnv.finishBuffered PutEnv.putLayout
    rw [hmeta, hchecksum, hclient, hput, hinode]
    exact ⟨_, rfl, rfl⟩
  obtain ⟨out, hout, hwritten⟩ := hfinish
  refine ⟨out, ?_, ?_⟩
  · unfold PutEnv.putObjectWithNoTrailer
    rw [hpayload, bufferPayload_map]
    show (blocksOf chunks).map _ = _
    rw [hblocks, Option.map_some, hout]
  · unfold PutOutcome.stored
    rw [hwritten, hflat]

/-! ## §7. A gateway whose environment never fails -/

def plainEnv (backend : BlobStorageBackend) : PutEnv where
  crypto := ⟨id, fun _ => id⟩
  checksums := ⟨fun _ data => data, id⟩
  calendar := ⟨fun _ => some 0, fun _ => [], fun _ => []⟩
  auth := ⟨[], true, fun _ => none, none⟩
  now := 0
  later := 0
  authenticateOtherwise := .ok ⟨[], []⟩
  authorize := .ok
  backend := backend
  resolveBucket := .ok ()
  hasBlobClient := true
  createGuid := fun _ => ⟨1, 1⟩
  acked := fun _ => true
  completed := id
  completed_perm := fun _ => .refl _
  putInode := .ok ()
  parseUuid := fun _ => none

def plainContext (fragments : List Bytes) : ObjectRequestContext where
  request := ⟨ascii "PUT", ascii "/b/k", [], [], []⟩
  apiKey := none
  key := ascii "/k"
  checksumValue := none
  payload := fragments.map .ok

def emptyWorld : World := ⟨fun _ => none, fun _ => none⟩

end FractalBits.Gateway
