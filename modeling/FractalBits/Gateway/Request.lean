/-
  Gateway.Request — the headers of a request and what a PUT reads off them.

  Mirrors `should_use_streaming` of `put_object.rs`, `is_streaming_request` of `s3_streaming.rs` and
  `extract_metadata_headers` of `handler/common.rs`.
-/

import FractalBits.Gateway.BlobStorage

namespace FractalBits.Gateway

open Lib Streaming

/-! ## §1. Headers -/

inductive S3Error
  | accessDenied
  | authorizationHeaderMalformed
  | internalError
  | invalidAccessKeyId
  | invalidArgument1
  | invalidDigest
  | invalidObjectState
  | invalidPart
  | invalidSignature
  | invalidURI
  | keyTooLongError
  | keyUnsupported
  | noSuchBucket
  | noSuchKey
  | noSuchUpload
  | noSuchVersion
  | serviceUnavailable
  | signatureDoesNotMatch
  | unexpectedContent
  | unsupportedArgument
  deriving DecidableEq, Repr

def S3Error.asRef : S3Error → Bytes
  | .accessDenied => ascii "AccessDenied"
  | .authorizationHeaderMalformed => ascii "AuthorizationHeaderMalformed"
  | .internalError => ascii "InternalError"
  | .invalidAccessKeyId => ascii "InvalidAccessKeyId"
  | .invalidArgument1 => ascii "InvalidArgument"
  | .invalidDigest => ascii "InvalidDigest"
  | .invalidObjectState => ascii "InvalidObjectState"
  | .invalidPart => ascii "InvalidPart"
  | .invalidSignature => ascii "InvalidSignature"
  | .invalidURI => ascii "InvalidURI"
  | .keyTooLongError => ascii "KeyTooLongError"
  | .keyUnsupported => ascii "KeyUnsupported"
  | .noSuchBucket => ascii "NoSuchBucket"
  | .noSuchKey => ascii "NoSuchKey"
  | .noSuchUpload => ascii "NoSuchUpload"
  | .noSuchVersion => ascii "NoSuchVersion"
  | .serviceUnavailable => ascii "ServiceUnavailable"
  | .signatureDoesNotMatch => ascii "SignatureDoesNotMatch"
  | .unexpectedContent => ascii "UnexpectedContent"
  | .unsupportedArgument => ascii "UnsupportedArgument"

def S3Error.message : S3Error → Bytes
  | .accessDenied => ascii "Access Denied."
  | .authorizationHeaderMalformed =>
    ascii "The authorization header that you provided is not valid."
  | .internalError => ascii "An internal error occurred. Try again."
  | .invalidAccessKeyId =>
    ascii "The access key ID that you provided does not exist in our records."
  | .invalidArgument1 => ascii "The specified argument was not valid."
  | .invalidDigest => ascii "The Content-MD5 or checksum value that you specified is not valid."
  | .invalidObjectState => ascii "The operation is not valid for the current state of the object."
  | .invalidPart =>
    ascii ("One or more of the specified parts could not be found. The part might not have been "
      ++ "uploaded, or the specified entity tag might not have matched the part's entity tag.")
  | .invalidSignature =>
    ascii ("The request signature that the server calculated does not match the signature that you "
      ++ "provided. Check your secret access key and signing method. For more information, see "
      ++ "Signing and authenticating REST requests.")
  | .invalidURI => ascii "The specified URI couldn't be parsed."
  | .keyTooLongError => ascii "Your key is too long."
  | .keyUnsupported => ascii "Your key contains unsupported character(s)."
  | .noSuchBucket => ascii "The specified bucket does not exist."
  | .noSuchKey => ascii "The specified key does not exist."
  | .noSuchUpload => ascii "The specified multipart upload does not exist."
  | .noSuchVersion =>
    ascii "The version ID specified in the request does not match an existing version."
  | .serviceUnavailable => ascii "Service is unable to handle request."
  | .signatureDoesNotMatch =>
    ascii ("The request signature that the server calculated does not match the signature that you "
      ++ "provided. Check your AWS secret access key and signing method.")
  | .unexpectedContent => ascii "This request contains unsupported content."
  | .unsupportedArgument => ascii "The request contained an unsupported argument."

theorem of_bind_ok {ε α β : Type} {x : Except ε α} {f : α → Except ε β} {r : β}
    (h : (x >>= f) = .ok r) : ∃ a, x = .ok a ∧ f a = .ok r := by
  cases x with
  | error e => cases h
  | ok a => exact ⟨a, rfl, h⟩

theorem forall₂_of_mapM {ε α β : Type} {f : α → Except ε β} {l : List α} {r : List β}
    (h : l.mapM f = .ok r) :
    List.Forall₂ (fun a b => f a = .ok b) l r := by
  induction l generalizing r with
  | nil =>
    cases h
    exact .nil
  | cons a l ih =>
    rw [List.mapM_cons] at h
    obtain ⟨b, hb, h⟩ := of_bind_ok h
    obtain ⟨rest, hrest, h⟩ := of_bind_ok h
    cases h
    exact .cons hb (ih hrest)

abbrev Headers := List (Bytes × Bytes)

variable (headers : Headers)

def Headers.get (name : Bytes) : Option Bytes :=
  (headers.find? fun h => h.1 = name).map Prod.snd

/-- `HeaderValue::to_str`: visible ASCII and tabs only. -/
def toStr (value : Bytes) : Option Bytes :=
  if value.all fun b => (0x20 ≤ b && b < 0x7F) || b = 9 then some value else none

def parseUsize (src : Bytes) : Option Nat :=
  let digits := stripPlus src
  if digits.isEmpty ∨ ¬ digits.all (fun b => 48 ≤ b && b ≤ 57) then none
  else
    let value := digits.foldl (fun v b => v * 10 + (b.toNat - 48)) 0
    if value ≤ usizeMax then some value else none

def contains (s pat : Bytes) : Bool := (position pat s).isSome

/-! ## §2. Which path a PUT takes -/

def contentLength : Nat :=
  match headers.get (ascii "content-length") with
  | some cl => (parseUsize ((toStr cl).getD (ascii "0"))).getD usizeMax
  | none => usizeMax

def shouldUseStreaming : Bool :=
  if (headers.get (ascii "x-amz-trailer")).isSome then true
  else if (headers.get (ascii "x-amz-checksum-algorithm")).isSome then true
  else if ((headers.get (ascii "transfer-encoding")).bind toStr).any
      fun encoding => contains (toLowercase encoding) (ascii "chunked") then true
  else if ((headers.get (ascii "content-encoding")).bind toStr).any
      fun encoding => toLowercase encoding = ascii "aws-chunked" then true
  else
    let size := contentLength headers
    if size ≠ usizeMax then decide (size ≥ defaultBlockSize)
    else true -- the size is not known

def isStreamingRequest : Bool :=
  (headers.get (ascii "x-amz-decoded-content-length")).isSome
    || (headers.get (ascii "x-amz-trailer")).isSome
    || ((headers.get (ascii "x-amz-content-sha256")).bind toStr).any fun value =>
      value = ascii "STREAMING-UNSIGNED-PAYLOAD-TRAILER" || (ascii "STREAMING-").isPrefixOf value

theorem isStreamingRequest_of_sha256 {headers : Headers} {sha value : Bytes}
    (hsha : headers.get (ascii "x-amz-content-sha256") = some sha) (hstr : toStr sha = some value)
    (hmode : (ascii "STREAMING-").isPrefixOf value = true) : isStreamingRequest headers = true := by
  unfold isStreamingRequest
  rw [hsha, Option.bind_some, hstr]
  simp [hmode]

/-! ## §3. Metadata -/

def standardHeaders : List Bytes :=
  [ascii "content-type", ascii "cache-control", ascii "content-disposition",
    ascii "content-encoding", ascii "content-language", ascii "expires"]

def keepStandardHeader (headers ret : Headers) (name : Bytes) : Except S3Error Headers :=
  match headers.get name with
  | none => .ok ret
  | some value =>
    match toStr value with
    | some value => .ok (ret ++ [(name, value)])
    | none => .error .unexpectedContent

/-- Keep a user's header, and a redirect to a location of one of three forms. -/
def keepMetaHeader (ret : Headers) (header : Bytes × Bytes) : Except S3Error Headers :=
  if (ascii "x-amz-meta-").isPrefixOf header.1 then
    if utf8Valid header.2 then .ok (ret ++ [header]) else .error .unexpectedContent
  else if header.1 = ascii "x-amz-website-redirect-location" then
    if ¬ utf8Valid header.2 then .error .unexpectedContent
    else if (ascii "/").isPrefixOf header.2 ∨ (ascii "http://").isPrefixOf header.2 ∨
        (ascii "https://").isPrefixOf header.2 then .ok (ret ++ [header])
    else .error .unexpectedContent
  else .ok ret

def extractMetadataHeaders : Except S3Error Headers := do
  let ret ← standardHeaders.foldlM (keepStandardHeader headers) []
  headers.foldlM keepMetaHeader ret

end FractalBits.Gateway
