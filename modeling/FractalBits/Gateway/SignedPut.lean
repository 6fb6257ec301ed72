/-
  Gateway.SignedPut — what the signature of an upload covers.

  The value of `x-amz-content-sha256` is part of the signed request, but no path compares a digest
  with the body.
-/

import FractalBits.Gateway.PutObject
import FractalBits.Streaming.Signed

namespace FractalBits.Gateway

open Lib Streaming

/-! ## §1. From the handler to a path -/

variable {env : PutEnv} {w : World} {out : PutOutcome}

theorem uploadPartHandler_cases {fuel : Nat} {ctx : ObjectRequestContext} {partNumber : Nat}
    {uploadId : Bytes} (h : env.uploadPartHandler fuel ctx partNumber uploadId w = some (.ok out)) :
    ∃ key out₀, env.putObjectHandler fuel { ctx with key } w = some (.ok out₀)
      ∧ out.blocks = out₀.blocks := by
  unfold PutEnv.uploadPartHandler at h
  split at h
  · injection h with h
    cases h
  · cases huuid : env.parseUuid uploadId with
    | none =>
      rw [huuid] at h
      injection h with h
      cases h
    | some uploadUuid =>
      rw [huuid] at h
      obtain ⟨r, hr, h⟩ := Option.map_eq_some_iff.mp h
      cases r with
      | error e => cases h
      | ok out₀ =>
        injection h with h
        exact ⟨_, out₀, hr, by rw [← h]⟩

structure SignedBy (env : PutEnv) (request : HttpRequest) (auth : Authentication)
    (apiKey : ApiKey) : Prop where
  extracted : extractHeaderAuthentication env.calendar env.now request.headers = .ok (some auth)
  verified : checkHeaderBasedSignature env.crypto env.calendar env.auth auth request = .ok apiKey

theorem SignedBy.authenticate {request : HttpRequest} {auth : Authentication} {apiKey : ApiKey}
    (h : SignedBy env request auth apiKey) : env.authenticate request = env.authorize apiKey := by
  unfold PutEnv.authenticate checkSignature
  rw [h.extracted]
  dsimp only
  rw [h.verified]
  rfl

theorem anyHandler_cases {fuel : Nat} {request : HttpRequest} {key : Bytes} {endpoint : PutEndpoint}
    {checksumValue : Option ChecksumValue} {payload : List (Except PayloadError Bytes)}
    {auth : Authentication} {apiKey : ApiKey} (hsigned : SignedBy env request auth apiKey)
    (h : env.anyHandler fuel request key endpoint checksumValue payload w = some (.ok out)) :
    ∃ writer ctx guid out₀, env.authorize apiKey = .ok writer ∧ ctx.request = request ∧
      ctx.apiKey = some writer ∧ ctx.payload = payload ∧
      env.putVia fuel (putPath request.headers) ctx guid w = some (.ok out₀)
        ∧ out.blocks = out₀.blocks := by
  unfold PutEnv.anyHandler at h
  rw [hsigned.authenticate] at h
  cases hwriter : env.authorize apiKey with
  | error e =>
    rw [hwriter] at h
    injection h with h
    cases h
  | ok writer =>
    rw [hwriter] at h
    cases endpoint with
    | putObject =>
      exact ⟨writer, _, _, out, rfl, rfl, rfl, rfl, putObjectHandler_cases h, rfl⟩
    | uploadPart partNumber uploadId =>
      obtain ⟨partKey, out₀, hput, hblocks⟩ := uploadPartHandler_cases h
      exact ⟨writer, _, _, out₀, rfl, rfl, rfl, rfl, putObjectHandler_cases hput, hblocks⟩

/-! ## §2. What an upload is bound to -/

section

variable (env : PutEnv)

section

variable (request : HttpRequest)

def PutEnv.chunkContext (writer : ApiKey) :
    Option (ChunkSignatureContext × Option Bytes) :=
  match putPath request.headers with
  | .buffered => none
  | .streaming =>
    match env.extractChunkSignatureContext ⟨request, some writer, [], none, []⟩ with
    | .ok signatureInfo => signatureInfo
    | .error _ => none

section

variable (auth : Authentication)

/-- The chain of chunk signatures was checked: the decoder had a context that starts with the
    request's signature, and what was stored is the data of chunks that are all linked, from that
    signature to the zero-size line. A chunk line without a signature breaks the chain. -/
def ChainChecked (writer : ApiKey)
    (fragments : List Bytes) (stored : Bytes) : Prop :=
  ∃ context, env.chunkContext request writer = some (context, some auth.signature) ∧
    Authenticated env.crypto context auth.signature fragments.flatten stored

def NamesSignedMode (contentSha256 : Bytes) : Prop :=
  contentSha256 = streamingPayload ∨ contentSha256 = streamingPayload ++ ascii "-TRAILER"

def Bound (writer : ApiKey)
    (fragments : List Bytes) (stored : Bytes) : Prop :=
  hexDecode auth.contentSha256 = some (env.crypto.sha256 stored) ∨
  (NamesSignedMode auth.contentSha256 ∧ ChainChecked env request auth writer fragments stored)

/-- The content a body carries: decoded if it is `aws-chunked` and takes the streaming path, and
    otherwise as it came. -/
def Carries (C : Crypto) (headers : Headers) (fragments : List Bytes) (content : Bytes) : Prop :=
  if shouldUseStreaming headers = true ∧ isStreamingRequest headers = true then
    ∃ o, Drains C (.start true none (fragments.map .ok)) o ∧ content = o.items.flatten
  else content = fragments.flatten

def DigestDeclared (fragments : List Bytes) : Prop :=
  ∃ content, Carries env.crypto request.headers fragments content ∧
    hexDecode auth.contentSha256 = some (env.crypto.sha256 content)

/-- The chunks are signed, without signed trailers, and the streaming path finds the authentication
    again. -/
def ChunksVerified : Prop :=
  auth.contentSha256 = streamingPayload ∧ shouldUseStreaming request.headers = true ∧
    ∃ again, extractHeaderAuthentication env.calendar env.later request.headers = .ok (some again)

/-- The sender signed every chunk: the body is a sequence of chunks up to a zero-size one, each
    chunk line carries a signature, and that of the zero-size line is the right one. The decoder
    checks the signatures it meets; it neither asks for one nor looks at that of the last line. -/
def ChunksSigned (writer : ApiKey)
    (fragments : List Bytes) : Prop :=
  ∀ context, env.chunkContext request writer = some (context, some auth.signature) →
    ∃ cs line rest, Frames fragments.flatten cs (.zero line rest) ∧
      SignedThroughout env.crypto context auth.signature cs line

end

end

end

/-! ## §3. The signature context -/

section Context

variable {request : HttpRequest} {auth : Authentication} {apiKey writer : ApiKey}
    {ctx : ObjectRequestContext}

theorem extractChunkSignatureContext_of_ne (ctx : ObjectRequestContext)
    (hsigned : SignedBy env request auth apiKey) (hreq : ctx.request = request)
    (hmode : auth.contentSha256 ≠ streamingPayload) :
    env.extractChunkSignatureContext ctx = .ok none := by
  obtain ⟨parts, -, -, hagain⟩ := extractHeaderAuthentication_parts hsigned.extracted
  unfold PutEnv.extractChunkSignatureContext
  rw [hreq]
  cases hlater : extractHeaderAuthentication env.calendar env.later request.headers with
  | error e => rfl
  | ok r =>
    -- extracted again, it is the same authentication
    rw [hagain _ r hlater]
    exact if_neg hmode

theorem extractChunkSignatureContext_of_eq (ctx : ObjectRequestContext)
    (hsigned : SignedBy env request auth apiKey) (hreq : ctx.request = request)
    (hkey : ctx.apiKey = some writer) (hmode : auth.contentSha256 = streamingPayload)
    {again : Authentication} (hlater : extractHeaderAuthentication env.calendar env.later
    request.headers = .ok (some again)) :
    ∃ context, env.extractChunkSignatureContext ctx = .ok
      (some (context, some auth.signature)) := by
  obtain ⟨parts, -, -, hagain⟩ := extractHeaderAuthentication_parts hsigned.extracted
  have heq : again = auth := Option.some.inj (hagain _ _ hlater)
  unfold PutEnv.extractChunkSignatureContext
  rw [hreq, hlater, heq, hkey]
  exact ⟨_, if_pos hmode⟩

theorem chunkContext_streaming (hpath : putPath request.headers = .streaming)
    (hreq : ctx.request = request) (hkey : ctx.apiKey = some writer)
    {signatureInfo : Option (ChunkSignatureContext × Option Bytes)}
    (h : env.extractChunkSignatureContext ctx = .ok signatureInfo) :
    env.chunkContext request writer = signatureInfo := by
  have hsame : env.extractChunkSignatureContext ⟨request, some writer, [], none, []⟩ = .ok
    signatureInfo := by
    rw [← h]
    unfold PutEnv.extractChunkSignatureContext
    rw [hreq, hkey]
  unfold PutEnv.chunkContext
  rw [hpath]
  dsimp only
  rw [hsame]

theorem putPath_streaming_iff (headers : Headers) :
    putPath headers = .streaming ↔ shouldUseStreaming headers = true := by
  unfold putPath
  cases shouldUseStreaming headers with
  | true => simp
  | false => simp

variable (hsigned : SignedBy env request auth apiKey)

include hsigned

/-- ★ **When the decoder has a context.** -/
theorem chunkContext_iff :
    (∃ context, env.chunkContext request writer = some (context, some auth.signature)) ↔
      ChunksVerified env request auth := by
  constructor
  · rintro ⟨context, hcontext⟩
    have hpath : putPath request.headers = .streaming := by
      cases hpath : putPath request.headers with
      | streaming => rfl
      | buffered =>
        unfold PutEnv.chunkContext at hcontext
        rw [hpath] at hcontext
        cases hcontext
    by_cases hmode : auth.contentSha256 = streamingPayload
    · refine ⟨hmode, (putPath_streaming_iff _).mp hpath, ?_⟩
      cases hlater : extractHeaderAuthentication env.calendar env.later request.headers with
      | error e =>
        -- no second authentication, no context
        have hnone : env.extractChunkSignatureContext ⟨request, some writer, [], none, []⟩
            = .ok none := by
          unfold PutEnv.extractChunkSignatureContext
          rw [hlater]
        rw [chunkContext_streaming hpath rfl rfl hnone] at hcontext
        cases hcontext
      | ok r =>
        obtain ⟨parts, -, -, hagain⟩ := extractHeaderAuthentication_parts hsigned.extracted
        exact ⟨auth, by rw [hagain _ r hlater]⟩
    · have hnone := extractChunkSignatureContext_of_ne ⟨request, some writer, [], none, []⟩ hsigned
        rfl hmode
      rw [chunkContext_streaming hpath rfl rfl hnone] at hcontext
      cases hcontext
  · rintro ⟨hmode, hstream, again, hlater⟩
    obtain ⟨context, hcontext⟩ := extractChunkSignatureContext_of_eq
      ⟨request, some writer, [], none, []⟩ hsigned rfl rfl hmode hlater
    exact ⟨context, chunkContext_streaming ((putPath_streaming_iff _).mpr hstream) rfl rfl hcontext⟩

theorem carries_stored (hreq : ctx.request = request)
    (hmode : auth.contentSha256 ≠ streamingPayload) {fragments : List Bytes}
    (hpayload : ctx.payload = fragments.map .ok) {fuel : Nat} {guid : DataBlobGuid}
    (hput : env.putVia fuel (putPath request.headers) ctx guid w = some (.ok out)) :
    Carries env.crypto request.headers fragments out.stored := by
  unfold Carries
  cases hpath : putPath request.headers with
  | streaming =>
    have hstream := (putPath_streaming_iff _).mp hpath
    rw [hpath] at hput
    obtain ⟨signatureInfo, o, hinfo, hdrains, -, hstored⟩ := streaming_cases hput
    rw [extractChunkSignatureContext_of_ne ctx hsigned hreq hmode] at hinfo
    injection hinfo with hinfo
    rw [← hinfo, hreq, hpayload] at hdrains
    cases hframed : isStreamingRequest request.headers with
    | true =>
      rw [hframed] at hdrains
      rw [if_pos ⟨hstream, rfl⟩]
      exact ⟨o, hdrains, hstored.stored⟩
    | false =>
      -- an unframed body passes as it came
      rw [hframed] at hdrains
      rw [if_neg (by simp), hstored.stored,
        hdrains.unique (drains_unframed env.crypto none fragments)]
  | buffered =>
    have hbuffered : ¬ shouldUseStreaming request.headers = true := by
      intro hstream
      rw [(putPath_streaming_iff _).mpr hstream] at hpath
      cases hpath
    rw [hpath] at hput
    obtain ⟨chunks, hchunks, hstored⟩ := buffered_cases hput
    rw [if_neg (fun h => hbuffered h.1), hstored.stored, ok_fragments (hpayload.symm.trans hchunks)]

/-- What an answered upload tells about its chunks: no signature that was met is wrong, and a body
    that ends with a zero-size line was stored as the data of its chunks. -/
theorem chain_of_answered (hreq : ctx.request = request)
    (hkey : ctx.apiKey = some writer) (hverified : ChunksVerified env request auth)
    {fragments : List Bytes} (hpayload : ctx.payload = fragments.map .ok) {fuel : Nat}
    {guid : DataBlobGuid} (hput : env.putVia fuel (putPath request.headers) ctx guid w = some
    (.ok out)) :
    ∃ context, env.chunkContext request writer = some (context, some auth.signature) ∧
      ∀ cs line rest, Frames fragments.flatten cs (.zero line rest) →
        ¬ WrongSignature env.crypto context auth.signature cs ∧ out.stored = dataOf cs := by
  obtain ⟨hmode, hstream, again, hlater⟩ := hverified
  have hpath := (putPath_streaming_iff _).mpr hstream
  obtain ⟨context, hcontext⟩ := extractChunkSignatureContext_of_eq ctx hsigned hreq hkey hmode
    hlater
  refine ⟨context, chunkContext_streaming hpath hreq hkey hcontext, ?_⟩
  intro cs line rest hframes
  rw [hpath] at hput
  obtain ⟨signatureInfo, o, hinfo, hdrains, haccepted, hstored⟩ := streaming_cases hput
  rw [hcontext] at hinfo
  injection hinfo with hinfo
  -- the mode makes the body `aws-chunked`
  have hframed : isStreamingRequest request.headers = true := by
    obtain ⟨parts, hparts, hsha, -⟩ := extractHeaderAuthentication_parts hsigned.extracted
    obtain ⟨value, hvalue, htext⟩ := extractAuthParts_sha256 hparts
    refine isStreamingRequest_of_sha256 hvalue htext ?_
    rw [← hsha, hmode]
    decide +kernel
  rw [← hinfo, hreq, hpayload, hframed] at hdrains
  obtain ⟨o', hdrains', haccept, hitems⟩ :=
    drains_frames env.crypto (some context) (some auth.signature) hframes
  have heq : o = o' := hdrains.unique hdrains'
  subst heq
  refine ⟨chain_isSome_iff.mp (haccept.mp haccepted).1, ?_⟩
  rw [hstored.stored, hitems haccepted fun _ _ h => by cases h]

/-- The chain of an answered upload was checked exactly if the decoder had a context and the sender
    signed every chunk. -/
theorem chainChecked_iff (hreq : ctx.request = request)
    (hkey : ctx.apiKey = some writer) {fragments : List Bytes}
    (hpayload : ctx.payload = fragments.map .ok) {fuel : Nat} {guid : DataBlobGuid}
    (hput : env.putVia fuel (putPath request.headers) ctx guid w = some (.ok out)) :
    ChainChecked env request auth writer fragments out.stored ↔
      ChunksVerified env request auth ∧ ChunksSigned env request auth writer fragments := by
  constructor
  · rintro ⟨context, hcontext, hauth⟩
    refine ⟨(chunkContext_iff hsigned).mp ⟨context, hcontext⟩, fun context' hcontext' => ?_⟩
    rw [hcontext] at hcontext'
    cases hcontext'
    exact hauth.signedThroughout
  · rintro ⟨hverified, hchunks⟩
    obtain ⟨context, hcontext, hchain⟩ :=
      chain_of_answered hsigned hreq hkey hverified hpayload hput
    obtain ⟨cs, line, rest, hframes, hlines⟩ := hchunks context hcontext
    obtain ⟨hright, hstored⟩ := hchain cs line rest hframes
    refine ⟨context, hcontext, ?_⟩
    rw [hstored]
    exact authenticated_of_signedThroughout hframes hright hlines

end Context

theorem Carries.unique {C : Crypto} {headers : Headers} {fragments : List Bytes} {a b : Bytes}
    (ha : Carries C headers fragments a) (hb : Carries C headers fragments b) : a = b := by
  unfold Carries at ha hb
  split at ha
  · next hcond =>
      rw [if_pos hcond] at hb
      obtain ⟨o, ho, rfl⟩ := ha
      obtain ⟨o', ho', rfl⟩ := hb
      rw [ho.unique ho']
  · next hcond =>
      rw [if_neg hcond] at hb
      rw [ha, hb]

/-! ## §4. Bound uploads -/

theorem hexDecode_streamingPayload : hexDecode streamingPayload = none := by decide +kernel

/-- ★ **When an answered upload is bound to its signature.** A declared digest is never compared, so
    only a sender who declared the right one is bound. The chunk chain is checked exactly under
    `ChunksVerified`, and it covers the body exactly if the sender put a signature on every chunk
    line, the last one included. Two bodies answered under one right digest have the same
    SHA-256. -/
theorem signed_put_bound_iff (env : PutEnv) {request : HttpRequest} {auth : Authentication}
    {apiKey : ApiKey} (hsigned : SignedBy env request auth apiKey) {key : Bytes}
    {endpoint : PutEndpoint} {checksumValue : Option ChecksumValue} {fragments : List Bytes}
    {w : World} {fuel : Nat} {out : PutOutcome}
    (hput : env.anyHandler fuel request key endpoint checksumValue (fragments.map .ok) w = some
    (.ok out)) :
    ∃ writer, env.authorize apiKey = .ok writer ∧
      (Bound env request auth writer fragments out.stored ↔
        DigestDeclared env request auth fragments ∨
          (ChunksVerified env request auth ∧ ChunksSigned env request auth writer fragments)) ∧
      ∀ (fragments' : List Bytes) (w' : World) (fuel' : Nat) (out' : PutOutcome),
        env.anyHandler fuel' request key endpoint checksumValue (fragments'.map .ok) w' = some
          (.ok out') →
        DigestDeclared env request auth fragments → DigestDeclared env request auth fragments' →
        env.crypto.sha256 out.stored = env.crypto.sha256 out'.stored := by
  -- a digest that was declared is the one of what was stored
  have hdigest : ∀ {fragments : List Bytes} {w : World} {fuel : Nat} {out : PutOutcome},
      env.anyHandler fuel request key endpoint checksumValue (fragments.map .ok) w = some
        (.ok out) →
      (DigestDeclared env request auth fragments ↔
        hexDecode auth.contentSha256 = some (env.crypto.sha256 out.stored)) := by
    intro fragments w fuel out hput
    obtain ⟨writer, ctx, guid, out₀, -, hreq, -, hpayload, hvia, hblocks⟩ :=
      anyHandler_cases hsigned hput
    have hstored : out.stored = out₀.stored := by
      unfold PutOutcome.stored
      rw [hblocks]
    have hcarries : hexDecode auth.contentSha256 ≠ none →
      Carries env.crypto request.headers fragments out.stored := by
      intro hsome
      rw [hstored]
      refine carries_stored hsigned hreq (fun hmode => hsome ?_) hpayload hvia
      rw [hmode, hexDecode_streamingPayload]
    constructor
    · rintro ⟨content, hcontent, hhex⟩
      rw [hhex, hcontent.unique (hcarries (by rw [hhex]; simp))]
    · intro hhex
      exact ⟨out.stored, hcarries (by rw [hhex]; simp), hhex⟩
  obtain ⟨writer, ctx, guid, out₀, hwriter, hreq, hkey, hpayload, hvia, hblocks⟩ :=
    anyHandler_cases hsigned hput
  refine ⟨writer, hwriter, ?_, ?_⟩
  · have hstored : out.stored = out₀.stored := by
      unfold PutOutcome.stored
      rw [hblocks]
    have hchain := chainChecked_iff hsigned hreq hkey hpayload hvia
    rw [hdigest hput]
    refine or_congr_right ⟨fun h => hchain.mp (hstored ▸ h.2), fun h => ⟨.inl h.1.1, ?_⟩⟩
    rw [hstored]
    exact hchain.mpr h
  · intro fragments' w' fuel' out' hput' hdecl hdecl'
    have h := (hdigest hput).mp hdecl
    rw [(hdigest hput').mp hdecl'] at h
    exact (Option.some.inj h).symm

/-! ## §5. Two bodies under one digest -/

def sampleHash (data : Bytes) : Bytes := [data.foldl (fun h b => h * 31 + b) 7]

def signedEnv : PutEnv :=
  { plainEnv .allInBssSingleAz with
    crypto := ⟨sampleHash, fun key data => sampleHash (key ++ data)⟩
    calendar := ⟨fun text => if text = ascii "19700101T000000Z" then some 0 else none,
      fun _ => ascii "19700101T000000Z", fun _ => ascii "19700101"⟩
    auth := ⟨ascii "r", false, fun keyId => if keyId = ascii "K" then some ⟨ascii "K", ascii "S"⟩
      else none, none⟩ }

def signedRequest : HttpRequest where
  method := ascii "PUT"
  path := ascii "/b/k"
  canonicalQuery := []
  host := ascii "h"
  headers := [
    (ascii "host", ascii "h"),
    (ascii "authorization", ascii "AWS4-HMAC-SHA256 Credential=K/19700101/r/s3/aws4_request," ++
      ascii "SignedHeaders=host;x-amz-content-sha256;x-amz-date,Signature=66"),
    (ascii "x-amz-content-sha256", hexEncode (sampleHash (ascii "abc"))),
    (ascii "x-amz-date", ascii "19700101T000000Z"),
    (ascii "content-length", ascii "3")]

def signedAuth : Authentication where
  keyId := ascii "K"
  scope := ⟨ascii "19700101", ascii "r", ascii "s3"⟩
  signedHeaders := [ascii "host", ascii "x-amz-content-sha256", ascii "x-amz-date"]
  signature := ascii "66"
  contentSha256 := hexEncode (sampleHash (ascii "abc"))
  date := 0
  scopeString := ascii "19700101/r/s3/aws4_request"
  formattedDate := ascii "19700101T000000Z"

theorem signedRequest_signed : SignedBy signedEnv signedRequest signedAuth ⟨ascii "K", ascii "S"⟩ :=
  ⟨by decide +kernel, by decide +kernel⟩

theorem signedRequest_answered (body : Bytes) :
    ∃ out, signedEnv.anyHandler 1 signedRequest (ascii "/k") .putObject none [.ok body] emptyWorld
      = some (.ok out) ∧ out.stored = body := by
  have hauthenticate := signedRequest_signed.authenticate
  have hkey : (ascii "/k").getLast? ≠ some 47 := by decide +kernel
  have hpath : putPath signedRequest.headers = .buffered := by decide +kernel
  have hmeta : extractMetadataHeaders signedRequest.headers = .ok [] := by decide +kernel
  have htrailer :
      requestTrailerChecksumAlgorithm (signedRequest.headers.get (ascii "x-amz-trailer")) = .ok
        none := by decide +kernel
  let ctx : ObjectRequestContext :=
    ⟨signedRequest, some ⟨ascii "K", ascii "S"⟩, ascii "/k", none, [.ok body]⟩
  have hchecksum : signedEnv.bufferedChecksum ctx [body] = .ok none := by
    unfold PutEnv.bufferedChecksum
    rw [htrailer]
    rfl
  obtain ⟨out, hout, hstored⟩ : ∃ out, signedEnv.putObjectWithNoTrailer ctx
      (signedEnv.blobGuid signedRequest.headers) emptyWorld = some (.ok out)
        ∧ out.stored = [body].flatten :=
    putObjectWithNoTrailer_ok rfl hmeta hchecksum rfl (fun _ => rfl) rfl
  refine ⟨out, ?_, hstored.trans (List.flatten_singleton ..)⟩
  unfold PutEnv.anyHandler
  rw [hauthenticate]
  show signedEnv.putObjectHandler 1 ctx emptyWorld = _
  rw [putObjectHandler_eq 1 emptyWorld hkey rfl rfl, show putPath ctx.request.headers
    = .buffered from hpath]
  exact hout

theorem signed_put_bound_iff_sample :
    ∃ out, signedEnv.anyHandler 1 signedRequest (ascii "/k") .putObject none ([ascii "abc"].map .ok)
        emptyWorld = some (.ok out) ∧
      ∃ writer, signedEnv.authorize ⟨ascii "K", ascii "S"⟩ = .ok writer ∧
        (Bound signedEnv signedRequest signedAuth writer [ascii "abc"] out.stored ↔
          DigestDeclared signedEnv signedRequest signedAuth [ascii "abc"] ∨
            (ChunksVerified signedEnv signedRequest signedAuth ∧
              ChunksSigned signedEnv signedRequest signedAuth writer [ascii "abc"])) ∧
        ∀ (fragments' : List Bytes) (w' : World) (fuel' : Nat) (out' : PutOutcome),
          signedEnv.anyHandler fuel' signedRequest (ascii "/k") .putObject none (fragments'.map .ok)
            w' = some (.ok out') →
          DigestDeclared signedEnv signedRequest signedAuth [ascii "abc"] →
          DigestDeclared signedEnv signedRequest signedAuth fragments' →
          signedEnv.crypto.sha256 out.stored = signedEnv.crypto.sha256 out'.stored := by
  obtain ⟨out, hout, -⟩ := signedRequest_answered (ascii "abc")
  exact ⟨out, hout, signed_put_bound_iff signedEnv signedRequest_signed hout⟩

theorem two_bodies_accepted :
    SignedBy signedEnv signedRequest signedAuth ⟨ascii "K", ascii "S"⟩ ∧
    signedAuth.contentSha256 ∉ [ascii "UNSIGNED-PAYLOAD",
      ascii "STREAMING-UNSIGNED-PAYLOAD-TRAILER"] ∧
    (∃ out, signedEnv.anyHandler 1 signedRequest (ascii "/k") .putObject none [.ok (ascii "abc")]
      emptyWorld = some (.ok out) ∧ out.stored = ascii "abc") ∧
    ∃ out, signedEnv.anyHandler 1 signedRequest (ascii "/k") .putObject none [.ok (ascii "abd")]
      emptyWorld = some (.ok out) ∧ out.stored = ascii "abd" ∧
      ¬ Bound signedEnv signedRequest signedAuth ⟨ascii "K", ascii "S"⟩ [ascii "abd"]
        out.stored := by
  refine ⟨signedRequest_signed, by decide +kernel, signedRequest_answered _, ?_⟩
  obtain ⟨out, hout, hstored⟩ := signedRequest_answered (ascii "abd")
  refine ⟨out, hout, hstored, ?_⟩
  rw [hstored]
  rintro (hdigest | ⟨hmode, -⟩)
  · exact absurd hdigest (by decide +kernel)
  · unfold NamesSignedMode at hmode
    exact absurd hmode (by decide +kernel)

end FractalBits.Gateway
