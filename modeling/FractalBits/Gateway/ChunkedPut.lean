/-
  Gateway.ChunkedPut — whether a body in chunks reaches the decoder.

  `is_streaming_request` of `s3_streaming.rs` decides whether the decoder expects chunks, and
  `should_use_streaming` of `put_object.rs` whether there is a decoder at all.
-/

import FractalBits.Gateway.PutObject

namespace FractalBits.Gateway

open Lib Streaming

/-! ## §1. The two classifiers -/

structure Unannounced (headers : Headers) : Prop where
  trailer : headers.get (ascii "x-amz-trailer") = none
  algorithm : headers.get (ascii "x-amz-checksum-algorithm") = none
  transfer : ∀ encoding, (headers.get (ascii "transfer-encoding")).bind toStr = some encoding →
    contains (toLowercase encoding) (ascii "chunked") = false
  content : ∀ encoding, (headers.get (ascii "content-encoding")).bind toStr = some encoding →
    toLowercase encoding ≠ ascii "aws-chunked"
  short : contentLength headers < defaultBlockSize

theorem any_eq_false_iff {p : Bytes → Bool} {o : Option Bytes} :
    o.any p = false ↔ ∀ a, o = some a → p a = false := by
  cases o with
  | none => simp
  | some a => simp

theorem shouldUseStreaming_eq_false_iff (headers : Headers) :
    shouldUseStreaming headers = false ↔ Unannounced headers := by
  unfold shouldUseStreaming
  constructor
  · intro h
    split at h
    · cases h
    next htrailer =>
    split at h
    · cases h
    next halgorithm =>
    split at h
    · cases h
    next htransfer =>
    split at h
    · cases h
    next hcontent =>
    dsimp only at h
    split at h
    · refine ⟨?_, ?_, ?_, ?_, by simpa using h⟩
      · simpa using htrailer
      · simpa using halgorithm
      · exact any_eq_false_iff.mp (Bool.not_eq_true _ ▸ htransfer)
      · intro encoding henc
        have := any_eq_false_iff.mp (Bool.not_eq_true _ ▸ hcontent) encoding henc
        simpa using this
    · cases h
  · intro h
    have hsize : contentLength headers ≠ usizeMax := by
      have := h.short
      unfold defaultBlockSize at this
      unfold usizeMax
      omega
    have htransfer := any_eq_false_iff.mpr h.transfer
    have hcontent : ((headers.get (ascii "content-encoding")).bind toStr).any
        (fun encoding => toLowercase encoding = ascii "aws-chunked") = false :=
      any_eq_false_iff.mpr fun encoding henc => by simpa using h.content encoding henc
    rw [if_neg (by simp [h.trailer]), if_neg (by simp [h.algorithm]),
      if_neg (by rw [htransfer]; exact Bool.false_ne_true),
        if_neg (by rw [hcontent]; exact Bool.false_ne_true)]
    dsimp only
    rw [if_pos hsize]
    simpa using h.short

theorem putPath_buffered_iff (headers : Headers) :
    putPath headers = .buffered ↔ Unannounced headers := by
  rw [← shouldUseStreaming_eq_false_iff]
  unfold putPath
  cases shouldUseStreaming headers with
  | true => simp
  | false => simp

/-! ## §2. What is stored -/

/-- The stored bytes are the decoded body: what the decoder yielded without an error, which is the
    data of the chunks. -/
structure Decoded (env : PutEnv) (ctx : ObjectRequestContext) (stored : Bytes) : Prop where
  drained : ∃ signatureInfo o, env.extractChunkSignatureContext ctx = .ok signatureInfo ∧
    Drains env.crypto (.start true signatureInfo ctx.payload) o ∧ o.Accepted
      ∧ stored = o.items.flatten
  data : ∀ (fragments : List Bytes) (cs : List Chunk) (t : Tail), ctx.payload = fragments.map .ok →
    Frames fragments.flatten cs t → (∀ line rest, t ≠ .sentinel line rest) → stored = dataOf cs

section

variable {env : PutEnv} {ctx : ObjectRequestContext} {w : World} {fuel : Nat} {out : PutOutcome}

theorem decoded_of_streaming (hframed : isStreamingRequest ctx.request.headers = true)
    (hpath : putPath ctx.request.headers = .streaming)
    (hput : env.putObjectHandler fuel ctx w = some (.ok out)) : Decoded env ctx out.stored := by
  have hvia := putObjectHandler_cases hput
  rw [hpath] at hvia
  obtain ⟨signatureInfo, o, hinfo, hdrains, haccepted, hstored⟩ := streaming_cases hvia
  rw [hframed] at hdrains
  refine ⟨⟨signatureInfo, o, hinfo, hdrains, haccepted, hstored.stored⟩, ?_⟩
  intro fragments cs t hpayload hframes hsentinel
  rw [hpayload] at hdrains
  -- the reading of the body determines what the decoder yields
  obtain ⟨o', hdrains', -, hdata⟩ :=
    drains_frames env.crypto (signatureInfo.map Prod.fst) (signatureInfo.bind Prod.snd) hframes
  have heq : o = o' := hdrains.unique hdrains'
  subst heq
  exact hstored.stored.trans (hdata haccepted hsentinel)

end

/-- ★ **For which headers a body in chunks is stored decoded.** The streaming path is selected, and
    with it every answered PUT stores the decoded body, exactly if the body is not in chunks or
    something besides its framing announces it. -/
theorem chunked_put_decoded_iff (headers : Headers) :
    (isStreamingRequest headers = true →
      putPath headers = .streaming ∧
      ∀ (env : PutEnv) (ctx : ObjectRequestContext) (w : World) (fuel : Nat) (out : PutOutcome),
        ctx.request.headers = headers → env.putObjectHandler fuel ctx w = some (.ok out) →
        Decoded env ctx out.stored) ↔
    (isStreamingRequest headers = true → ¬ Unannounced headers) := by
  constructor
  · intro h hframed hquiet
    have hpath := (h hframed).1
    rw [(putPath_buffered_iff headers).mpr hquiet] at hpath
    cases hpath
  · intro h hframed
    have hpath : putPath headers = .streaming := by
      cases hp : putPath headers with
      | streaming => rfl
      | buffered => exact absurd ((putPath_buffered_iff headers).mp hp) (h hframed)
    refine ⟨hpath, ?_⟩
    intro env ctx w fuel out hheaders hput
    subst hheaders
    exact decoded_of_streaming hframed hpath hput

/-! ## §3. Chunk lines in an object -/

def chunkedHeaders : Headers :=
  [(ascii "content-length", ascii "13"),
    (ascii "x-amz-decoded-content-length", ascii "3"),
    (ascii "content-encoding", ascii "aws-chunked,gzip")]

def chunkedBody : Bytes := ascii "3\r\nabc\r\n0\r\n\r\n"

def chunkedContext : ObjectRequestContext where
  request := ⟨ascii "PUT", ascii "/b/k", [], [], chunkedHeaders⟩
  apiKey := none
  key := ascii "/k"
  checksumValue := none
  payload := [.ok chunkedBody]

theorem chunkedBody_frames :
    Frames chunkedBody [⟨ascii "3", ascii "abc"⟩] (.zero (ascii "0") crlf) := by
  refine ⟨ascii "0\r\n\r\n", by decide +kernel, ?_, ?_⟩
  · intro c hc
    rw [List.mem_singleton.mp hc]
    exact ⟨⟨by decide +kernel, by decide +kernel, by decide +kernel⟩, by decide +kernel, by
      decide +kernel⟩
  · have hline : lineTail (ascii "0") crlf = some (.zero (ascii "0") crlf) := by decide +kernel
    exact Rest.line (by decide +kernel) hline

theorem framing_stored :
    isStreamingRequest chunkedHeaders = true ∧ putPath chunkedHeaders = .buffered ∧
    ∃ out, (plainEnv .allInBssSingleAz).putObjectHandler 1 chunkedContext emptyWorld = some
      (.ok out) ∧
      out.stored = chunkedBody ∧ ¬ Decoded (plainEnv .allInBssSingleAz) chunkedContext
        out.stored := by
  have hpath : putPath chunkedHeaders = .buffered := by decide +kernel
  have hmeta : extractMetadataHeaders chunkedHeaders
      = .ok [(ascii "content-encoding", ascii "aws-chunked,gzip")] := by decide +kernel
  have hchecksum :
      (plainEnv .allInBssSingleAz).bufferedChecksum chunkedContext [chunkedBody] = .ok none := by
    decide +kernel
  obtain ⟨out, hout, hstored⟩ : ∃ out, (plainEnv .allInBssSingleAz).putObjectWithNoTrailer
      chunkedContext ⟨1, 1⟩ emptyWorld = some (.ok out) ∧ out.stored = [chunkedBody].flatten :=
    putObjectWithNoTrailer_ok rfl hmeta hchecksum rfl (fun _ => rfl) rfl
  rw [List.flatten_singleton] at hstored
  refine ⟨by decide +kernel, hpath, out, ?_, hstored, ?_⟩
  · rw [putObjectHandler_eq 1 emptyWorld (by decide +kernel) rfl rfl,
      show putPath chunkedContext.request.headers = .buffered from hpath]
    exact hout
  · intro hdecoded
    have hdata := hdecoded.data [chunkedBody] _ _ rfl
      (by rw [List.flatten_singleton]; exact chunkedBody_frames) (fun line rest h => by cases h)
    rw [hstored] at hdata
    exact absurd hdata (by decide +kernel)

end FractalBits.Gateway
