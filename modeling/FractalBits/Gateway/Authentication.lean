/-
  Gateway.Authentication — requests signed in the `Authorization` header.

  Mirrors `extract_header_authentication` and `CanonicalRequestHasher` of
  `request/extract/authentication.rs`, the header-based check of `signature/payload.rs` and
  `check_signature` of `signature.rs`.
-/

import FractalBits.Gateway.Request

namespace FractalBits.Gateway

open Lib Streaming

/-! ## §1. The header -/

structure Calendar where
  /-- `%Y%m%dT%H%M%SZ` -/
  parseLong : Bytes → Option Int
  formatLong : Int → Bytes
  /-- `%Y%m%d` -/
  formatShort : Int → Bytes

structure AuthError where
  message : String
  deriving DecidableEq, Repr

structure Scope where
  date : Bytes
  region : Bytes
  service : Bytes
  deriving DecidableEq, Repr

structure Authentication where
  keyId : Bytes
  scope : Scope
  /-- sorted, without duplicates -/
  signedHeaders : List Bytes
  signature : Bytes
  contentSha256 : Bytes
  date : Int
  scopeString : Bytes
  formattedDate : Bytes
  deriving DecidableEq, Repr

def insertSorted (x : Bytes) : List Bytes → List Bytes
  | [] => [x]
  | y :: ys => if x = y then y :: ys else if x < y then x :: y :: ys else y :: insertSorted x ys

def parseAuthPart (authPart : Bytes) : Option (Bytes × Bytes) :=
  if 61 ∈ authPart then
    some (authPart.takeWhile (· ≠ 61), (authPart.dropWhile (· ≠ 61)).dropWhile (· = 61))
  else none

/-- The parameters of the header; a later one replaces an earlier one. -/
def parseAuthParams (rest : Bytes) : Except AuthError (List (Bytes × Bytes)) :=
  (splitAll 44 rest).foldlM (fun params authPart =>
    match parseAuthPart (trim authPart) with
    | some param => .ok (param :: params)
    | none => .error ⟨"missing ="⟩) []

def authParam (params : List (Bytes × Bytes)) (name : Bytes) (missing : String) :
    Except AuthError Bytes :=
  match params.find? fun p => p.1 = name with
  | some p => .ok p.2
  | none => .error ⟨missing⟩

def requiredHeader (headers : Headers) (name : Bytes) (missing : String) : Except AuthError Bytes :=
  match headers.get name with
  | none => .error ⟨missing⟩
  | some value =>
    match toStr value with
    | none => .error ⟨"Header error: failed to convert header to a str"⟩
    | some value => .ok value

def parseCredential (cred : Bytes) : Except AuthError (Bytes × Scope) :=
  match splitAll 47 cred with
  | [keyId, date, region, service, ending] =>
    if ending = ascii "aws4_request" then .ok (keyId, ⟨date, region, service⟩)
    else .error ⟨"wrong scope format"⟩
  | _ => .error ⟨"wrong scope format"⟩

def formatScopeString (cal : Calendar) (date : Int) (region service : Bytes) : Bytes :=
  [47].intercalate [cal.formatShort date, region, service, ascii "aws4_request"]

structure AuthParts where
  cred : Bytes
  signedHeaders : Bytes
  signature : Bytes
  contentSha256 : Bytes
  date : Int
  deriving DecidableEq, Repr

def extractAuthParts (cal : Calendar) (headers : Headers) : Except AuthError AuthParts := do
  let authentication ← requiredHeader headers (ascii "authorization") ""
  let some (authKind, rest) := splitOnce 32 authentication
    | .error ⟨"Authorization field too short"⟩
  if authKind ≠ ascii "AWS4-HMAC-SHA256" then .error ⟨"Unsupported authorization method"⟩
  let authParams ← parseAuthParams rest
  let cred ← authParam authParams (ascii "Credential")
    "Could not find Credential in Authorization field"
  let signedHeaders ← authParam authParams (ascii "SignedHeaders")
    "Could not find SignedHeaders in Authorization field"
  let signature ← authParam authParams (ascii "Signature")
    "Could not find Signature in Authorization field"
  let contentSha256 ← requiredHeader headers (ascii "x-amz-content-sha256")
    "Missing x-amz-content-sha256 field"
  let dateText ← requiredHeader headers (ascii "x-amz-date") "Missing x-amz-date field"
  let some date := cal.parseLong dateText | .error ⟨"Invalid date"⟩
  return { cred, signedHeaders, signature, contentSha256, date }

/-- `extract_header_authentication` at the time `now`; `none` without the header. -/
def extractHeaderAuthentication (cal : Calendar) (now : Int) (headers : Headers) :
    Except AuthError (Option Authentication) :=
  match headers.get (ascii "authorization") with
  | none => .ok none
  | some _ => do
    let parts ← extractAuthParts cal headers
    if (now - parts.date).tdiv 3600 > 24 then .error ⟨"Date is too old"⟩
    let (keyId, scope) ← parseCredential parts.cred
    if scope.date ≠ cal.formatShort parts.date then .error ⟨"Date mismatch"⟩
    return some {
      keyId, scope
      signedHeaders := (splitAll 59 parts.signedHeaders).foldr insertSorted []
      signature := parts.signature
      contentSha256 := parts.contentSha256
      date := parts.date
      scopeString := formatScopeString cal parts.date scope.region scope.service
      formattedDate := cal.formatLong parts.date }

variable {cal : Calendar} {headers : Headers}

theorem extractAuthParts_sha256 {parts : AuthParts} (h : extractAuthParts cal headers = .ok parts) :
    ∃ value, headers.get (ascii "x-amz-content-sha256") = some value
      ∧ toStr value = some parts.contentSha256 := by
  have hrequired : requiredHeader headers (ascii "x-amz-content-sha256")
      "Missing x-amz-content-sha256 field" = .ok parts.contentSha256 := by
    unfold extractAuthParts at h
    obtain ⟨authentication, -, h⟩ := of_bind_ok h
    split at h
    · split at h
      · cases h
      · obtain ⟨authParams, -, h⟩ := of_bind_ok h
        obtain ⟨cred, -, h⟩ := of_bind_ok h
        obtain ⟨signedHeaders, -, h⟩ := of_bind_ok h
        obtain ⟨signature, -, h⟩ := of_bind_ok h
        obtain ⟨contentSha256, hsha, h⟩ := of_bind_ok h
        obtain ⟨dateText, -, h⟩ := of_bind_ok h
        split at h
        · injection h with h
          rw [hsha, ← h]
        · cases h
    · cases h
  unfold requiredHeader at hrequired
  cases hget : headers.get (ascii "x-amz-content-sha256") with
  | none =>
    rw [hget] at hrequired
    cases hrequired
  | some value =>
    rw [hget] at hrequired
    dsimp only at hrequired
    cases hstr : toStr value with
    | none =>
      rw [hstr] at hrequired
      cases hrequired
    | some text =>
      rw [hstr] at hrequired
      injection hrequired with hrequired
      exact ⟨value, rfl, by rw [hstr, hrequired]⟩

theorem extractHeaderAuthentication_parts {now : Int} {auth : Authentication}
    (h : extractHeaderAuthentication cal now headers = .ok (some auth)) :
    ∃ parts, extractAuthParts cal headers = .ok parts ∧ auth.contentSha256 = parts.contentSha256 ∧
      ∀ later r, extractHeaderAuthentication cal later headers = .ok r → r = some auth := by
  unfold extractHeaderAuthentication at h ⊢
  cases hget : headers.get (ascii "authorization") with
  | none =>
    rw [hget] at h
    cases h
  | some value =>
    rw [hget] at h
    obtain ⟨parts, hparts, h⟩ := of_bind_ok h
    split at h
    · cases h
    · obtain ⟨⟨keyId, scope⟩, hcred, h⟩ := of_bind_ok h
      dsimp only at h
      split at h
      · cases h
      · injection h with h
        injection h with h
        refine ⟨parts, hparts, by rw [← h], ?_⟩
        -- the time decides only whether the request is refused
        intro later r hr
        obtain ⟨parts', hparts', hr⟩ := of_bind_ok hr
        rw [hparts] at hparts'
        injection hparts' with hparts'
        subst hparts'
        split at hr
        · cases hr
        · obtain ⟨⟨keyId', scope'⟩, hcred', hr⟩ := of_bind_ok hr
          rw [hcred] at hcred'
          injection hcred' with hcred'
          injection hcred' with hkey hscope
          subst hkey hscope
          dsimp only at hr
          split at hr
          · cases hr
          · injection hr with hr
            rw [← hr, ← h]

/-! ## §2. The signature -/

structure HttpRequest where
  method : Bytes
  path : Bytes
  /-- `build_canonical_query_string` of the query string -/
  canonicalQuery : Bytes
  /-- the host of the connection -/
  host : Bytes
  headers : Headers
  deriving DecidableEq, Repr

def replacement : Bytes := [0xEF, 0xBF, 0xBD]

/-- `String::from_utf8_lossy`, in the middle of a character of which `pre` was read and bytes in the
    given ranges are owed. -/
def utf8LossyFrom (pre : Bytes) : List (UInt8 × UInt8) → Bytes → Bytes
  | [], [] => pre
  | _ :: _, [] => replacement
  | owed, b :: s =>
    match owed with
    | (lo, hi) :: owed' =>
      if lo ≤ b ∧ b ≤ hi then
        if owed' = [] then pre ++ [b] ++ utf8LossyFrom [] [] s
          else utf8LossyFrom (pre ++ [b]) owed' s
      else
        -- what was read is replaced; `b` starts anew
        replacement ++ match utf8Follow b with
          | none => replacement ++ utf8LossyFrom [] [] s
          | some [] => b :: utf8LossyFrom [] [] s
          | some owed => utf8LossyFrom [b] owed s
    | [] =>
      match utf8Follow b with
      | none => replacement ++ utf8LossyFrom [] [] s
      | some [] => b :: utf8LossyFrom [] [] s
      | some owed => utf8LossyFrom [b] owed s

def utf8Lossy (s : Bytes) : Bytes := utf8LossyFrom [] [] s

/-- The errors of `signature/error.rs` the check answers; the text of `Other` is kept where it
    decides the answer. -/
inductive SignatureCheckError
  | mismatch
  | other
  deriving DecidableEq, Repr

def SignatureCheckError.toS3Error : SignatureCheckError → S3Error
  | .mismatch => .signatureDoesNotMatch
  | .other => .invalidSignature

def collectSignedHeaders (request : HttpRequest) :
    List Bytes → Except SignatureCheckError (List (Bytes × Bytes))
  | [] => .ok []
  | name :: names => do
    let value ←
      if name = ascii "host" ∧ (request.headers.get (ascii "host")).isNone then .ok request.host
      else
        match request.headers.get name with
        | some value => .ok (trim ((toStr value).getD (utf8Lossy value)))
        | none => .error .other
    let pairs ← collectSignedHeaders request names
    return (name, value) :: pairs

def canonicalRequest (request : HttpRequest) (headerPairs : List (Bytes × Bytes))
    (signedHeaders : List Bytes) (payloadHash : Bytes) : Bytes :=
  request.method ++ [10] ++ request.path ++ [10] ++ request.canonicalQuery ++ [10]
    ++ (headerPairs.map fun p => p.1 ++ [58] ++ p.2 ++ [10]).flatten ++ [10]
    ++ [59].intercalate signedHeaders ++ [10] ++ payloadHash

variable (C : Crypto)

def hashCanonicalRequestStreaming (request : HttpRequest) (signedHeaders : List Bytes)
    (payloadHash : Bytes) : Except SignatureCheckError Bytes := do
  let headerPairs ← collectSignedHeaders request signedHeaders
  return hexEncode (C.sha256 (canonicalRequest request headerPairs signedHeaders payloadHash))

def buildStringToSign (formattedDatetime credentialScope canonicalHash : Bytes) : Bytes :=
  [10].intercalate [ascii "AWS4-HMAC-SHA256", formattedDatetime, credentialScope, canonicalHash]

def getSigningKey (cal : Calendar) (date : Int) (secretKey region : Bytes) : Bytes :=
  let dateKey := C.hmacSha256 (ascii "AWS4" ++ secretKey) (cal.formatShort date)
  let regionKey := C.hmacSha256 dateKey region
  let serviceKey := C.hmacSha256 regionKey (ascii "s3")
  C.hmacSha256 serviceKey (ascii "aws4_request")

structure ApiKey where
  keyId : Bytes
  secretKey : Bytes
  deriving DecidableEq, Repr

structure AuthState where
  region : Bytes
  allowMissingOrBadSignature : Bool
  getApiKey : Bytes → Option ApiKey
  getTestApiKey : Option ApiKey

def verifySignature (signingKey stringToSign expectedSignature : Bytes) :
    Except SignatureCheckError Bool :=
  match hexDecode expectedSignature with
  | none => .error .other
  | some signature => .ok (signature = C.hmacSha256 signingKey stringToSign)

def verifyV4 (cal : Calendar) (app : AuthState) (auth : Authentication) (stringToSign : Bytes) :
    Except SignatureCheckError ApiKey :=
  match app.getApiKey auth.keyId with
  | none => .error .other
  | some key => do
    let verified ← verifySignature C (getSigningKey C cal auth.date key.secretKey app.region)
      stringToSign
      auth.signature
    if verified then return key else .error .mismatch

def checkHeaderBasedSignature (cal : Calendar) (app : AuthState) (auth : Authentication)
    (request : HttpRequest) : Except SignatureCheckError ApiKey := do
  let canonicalHash ← hashCanonicalRequestStreaming C request auth.signedHeaders auth.contentSha256
  verifyV4 C cal app auth (buildStringToSign auth.formattedDate auth.scopeString canonicalHash)

def checkSignature (cal : Calendar) (app : AuthState) (auth : Authentication)
    (request : HttpRequest) : Except S3Error ApiKey :=
  match checkHeaderBasedSignature C cal app auth request with
  | .ok key => .ok key
  | .error e =>
    if app.allowMissingOrBadSignature then
      match app.getTestApiKey with
      | some key => .ok key
      | none => .error .invalidAccessKeyId
    else .error e.toS3Error

end FractalBits.Gateway
