/-
  Gateway.RequestSigner — the repository's own signer against its gateway.

  Mirrors `create_canonical_request`, `string_to_sign`, `calculate_signature`,
  `create_authorization_header` and `sign_request` of `sigv4.rs`. The signer sorts the encoded items
  of the query, the gateway lists them in the order of the names.
-/

import Mathlib.Data.List.Sort
import FractalBits.Gateway.CanonicalQuery
import FractalBits.Lib.Hexadecimal

namespace FractalBits.Gateway

open Lib Streaming List

/-! ## §1. The signer -/

/-- A `BTreeMap<String, String>`. -/
abbrev TextMap := Std.ExtTreeMap Bytes Bytes compare

structure SigningParams where
  accessKeyId : Bytes
  secretAccessKey : Bytes
  region : Bytes
  service : Bytes
  datetime : Int
  deriving DecidableEq, Repr

def createCanonicalRequest (method canonicalUri : Bytes) (queryParams : TextMap)
    (canonicalHeaders signedHeaders : List Bytes) (payloadHash : Bytes) : Bytes :=
  let items := (queryParams.toList.map queryItem).insertionSort (· ≤ ·)
  let canonicalHeadersStr := if canonicalHeaders = [] then []
    else [10].intercalate canonicalHeaders ++ [10]
  [10].intercalate [method, canonicalUri, [38].intercalate items, canonicalHeadersStr,
    [59].intercalate signedHeaders, payloadHash]

def stringToSign (C : Crypto) (cal : Calendar) (datetime : Int)
    (credentialScope canonicalRequest : Bytes) : Bytes :=
  [10].intercalate [ascii "AWS4-HMAC-SHA256", cal.formatLong datetime, credentialScope,
    hexEncode (C.sha256 canonicalRequest)]

def calculateSignature (C : Crypto) (signingKey stringToSign : Bytes) : Bytes :=
  hexEncode (C.hmacSha256 signingKey stringToSign)

def createAuthorizationHeader (accessKeyId credentialScope : Bytes) (signedHeaders : List Bytes)
    (signature : Bytes) :
    Bytes :=
  ascii "AWS4-HMAC-SHA256 Credential=" ++ accessKeyId ++ [47] ++ credentialScope ++ ascii
    ", SignedHeaders=" ++ [59].intercalate signedHeaders ++ ascii ", Signature=" ++ signature

/-- The signature that `sign_request` puts into the header. -/
def SigningParams.sign (C : Crypto) (cal : Calendar) (params : SigningParams)
    (canonicalRequest : Bytes) : Bytes :=
  calculateSignature C (getSigningKey C cal params.datetime params.secretAccessKey params.region)
    (stringToSign C cal params.datetime (formatScopeString cal params.datetime params.region
      params.service) canonicalRequest)

def signRequest (C : Crypto) (cal : Calendar) (params : SigningParams) (method uri : Bytes)
    (queryParams : TextMap) (canonicalHeaders signedHeaders : List Bytes)
    (payloadHash : Bytes) : Bytes :=
  createAuthorizationHeader params.accessKeyId
    (formatScopeString cal params.datetime params.region params.service) signedHeaders
    (params.sign C cal
      (createCanonicalRequest method uri queryParams canonicalHeaders signedHeaders payloadHash))

/-- What the header says, as the gateway extracts it. -/
def SigningParams.authentication (cal : Calendar) (params : SigningParams)
    (signedHeaders : List Bytes) (payloadHash signature : Bytes) : Authentication where
  keyId := params.accessKeyId
  scope := ⟨cal.formatShort params.datetime, params.region, params.service⟩
  signedHeaders := signedHeaders
  signature := signature
  contentSha256 := payloadHash
  date := params.datetime
  scopeString := formatScopeString cal params.datetime params.region params.service
  formattedDate := cal.formatLong params.datetime

/-! ## §2. Headers and texts at the gateway -/

theorem utf8LossyFrom_of_valid (s pre : Bytes) (owed : List (UInt8 × UInt8))
    (hpre : owed = [] → pre = []) (h : utf8ValidFrom owed s = true) :
    utf8LossyFrom pre owed s = pre ++ s := by
  induction s generalizing pre owed with
  | nil => cases owed <;> grind [utf8LossyFrom, utf8ValidFrom]
  | cons b s ih => cases owed <;> grind [utf8LossyFrom, utf8ValidFrom]

theorem utf8Lossy_of_valid {s : Bytes} (h : utf8Valid s = true) : utf8Lossy s = s :=
  utf8LossyFrom_of_valid s [] [] (fun _ => rfl) h

/-- The headers carry a value as the signer has it. -/
def Carried (headers : Headers) (p : Bytes × Bytes) : Prop :=
  headers.get p.1 = some p.2 ∧ trim p.2 = p.2 ∧ utf8Valid p.2 = true

instance (headers : Headers) (p : Bytes × Bytes) : Decidable (Carried headers p) :=
  inferInstanceAs (Decidable (_ ∧ _ ∧ _))

theorem collectSignedHeaders_of_carried {request : HttpRequest} {signed : List (Bytes × Bytes)}
    (h : ∀ p ∈ signed, Carried request.headers p) :
    collectSignedHeaders request (signed.map Prod.fst) = .ok signed := by
  induction signed with
  | nil => rfl
  | cons p signed ih =>
    obtain ⟨hget, htrim, hvalid⟩ := h p mem_cons_self
    have hstr : (toStr p.2).getD (utf8Lossy p.2) = p.2 := by
      rw [utf8Lossy_of_valid hvalid]
      unfold toStr
      split <;> rfl
    have hhost : ¬ (p.1 = ascii "host" ∧ (request.headers.get (ascii "host")).isNone = true) := by
      rintro ⟨hname, hnone⟩
      rw [← hname, hget] at hnone
      cases hnone
    rw [map_cons, collectSignedHeaders, if_neg hhost, hget, ih fun q hq => h q
      (mem_cons_of_mem _ hq)]
    simp only [hstr, htrim]
    rfl

def headerLine (p : Bytes × Bytes) : Bytes := p.1 ++ [58] ++ p.2

theorem headerLines_eq (signed : List (Bytes × Bytes)) :
    (if signed.map headerLine = [] then [] else [10].intercalate (signed.map headerLine) ++ [10]) =
      (signed.map fun p => p.1 ++ [58] ++ p.2 ++ [10]).flatten := by
  induction signed with
  | nil => rfl
  | cons p signed ih =>
    rw [if_neg (by simp)]
    cases signed with
    | nil => simp [headerLine]
    | cons next signed =>
      rw [if_neg (by simp)] at ih
      rw [map_cons, map_cons, intercalate_cons_cons, append_assoc, ← map_cons, ih]
      rfl

theorem createCanonicalRequest_eq_iff {request : HttpRequest} {queryParams : TextMap}
    (hquery : request.canonicalQuery = queryText queryParams.toList) (signed : List (Bytes × Bytes))
    (payloadHash : Bytes) :
    createCanonicalRequest request.method request.path queryParams (signed.map headerLine)
        (signed.map Prod.fst) payloadHash = canonicalRequest request signed (signed.map Prod.fst)
          payloadHash ↔
      (queryParams.toList.map queryItem).Pairwise (· ≤ ·) := by
  have hitems : ∀ item ∈ (queryParams.toList.map queryItem).insertionSort (· ≤ ·), item ≠ []
    ∧ 38 ∉ item :=
    fun _ h => of_mem_items ((perm_insertionSort _ _).mem_iff.mp h)
  have hjoin : [38].intercalate ((queryParams.toList.map queryItem).insertionSort (· ≤ ·)) =
      queryText queryParams.toList ↔ (queryParams.toList.map queryItem).Pairwise (· ≤ ·) := by
    constructor
    · intro h
      have hsame := segments_intercalate hitems
      rw [h, queryText, segments_intercalate fun _ => of_mem_items] at hsame
      rw [hsame]
      exact pairwise_insertionSort ..
    · intro h
      rw [h.insertionSort_eq]
      rfl
  rw [← hjoin, ← hquery]
  unfold createCanonicalRequest canonicalRequest
  rw [headerLines_eq]
  simp [intercalate_cons_cons]

/-! ## §3. The header read back -/

/-- A text that stands between the separators of the `Authorization` header: visible ASCII without
    `,`, `/`, `;` and `=`. -/
def HeaderField (s : Bytes) : Prop := ∀ b ∈ s, (0x21 ≤ b ∧ b ≤ 0x7E)
    ∧ b ∉ ([44, 47, 59, 61] : Bytes)

instance (s : Bytes) : Decidable (HeaderField s) := inferInstanceAs (Decidable (∀ b ∈ s, _))

theorem parseAuthPart_append {name value : Bytes} (hname : 61 ∉ name) (hvalue : 61 ∉ value) :
    parseAuthPart (name ++ 61 :: value) = some (name, value) := by
  have hdrop : value.dropWhile (· = 61) = value := by
    cases value with
    | nil => rfl
    | cons b value =>
      refine dropWhile_cons_of_neg (decide_eq_true_iff.not.mpr ?_)
      rintro rfl
      exact hvalue mem_cons_self
  have hne : ∀ b ∈ name, decide (b ≠ 61) = true := fun b hb => decide_eq_true fun h =>
    hname (h ▸ hb)
  rw [parseAuthPart, if_pos (by simp), takeWhile_append_of_pos hne, dropWhile_append_of_pos hne]
  simp [hdrop]

theorem lt_of_compare {a b : Bytes} (h : compare a b = .lt) : a < b := by
  induction a generalizing b with
  | nil =>
    cases b with
    | nil => cases h
    | cons y b => exact nil_lt_cons y b
  | cons x a ih =>
    cases b with
    | nil => cases h
    | cons y b =>
      rw [List.compare_cons_cons, Ordering.then_eq_lt, Std.compare_eq_lt] at h
      rcases h with h | ⟨hxy, h⟩
      · exact .rel h
      · rw [Std.LawfulEqCmp.eq_of_compare hxy]
        exact .cons (ih h)

theorem foldr_insertSorted {names : List Bytes} (h : names.Pairwise fun a b => compare a b = .lt) :
    names.foldr insertSorted [] = names := by
  induction h with
  | nil => rfl
  | @cons name names hlt _ ih =>
    rw [foldr_cons, ih]
    cases names with
    | nil => rfl
    | cons next names =>
      have hnext : name < next := lt_of_compare (hlt next mem_cons_self)
      have hne : name ≠ next := by
        rintro rfl
        exact List.lt_irrefl _ hnext
      rw [insertSorted, if_neg hne, if_pos hnext]

/-- A value that the gateway reads back: visible ASCII without `,` and `=`. -/
def HeaderValue (s : Bytes) : Prop := ∀ b ∈ s, (0x21 ≤ b ∧ b ≤ 0x7E) ∧ b ≠ 44 ∧ b ≠ 61

theorem HeaderField.value {s : Bytes} (h : HeaderField s) : HeaderValue s := by
  intro b hb
  obtain ⟨hvisible, hnot⟩ := h b hb
  refine ⟨hvisible, ?_, ?_⟩
  · rintro rfl
    exact hnot (by decide)
  · rintro rfl
    exact hnot (by decide)

theorem headerValue_intercalate {sep : UInt8} (hsep : sep = 47 ∨ sep = 59) {parts : List Bytes}
    (h : ∀ s ∈ parts, HeaderField s) : HeaderValue ([sep].intercalate parts) := by
  intro b hb
  rcases of_mem_intercalate hb with rfl | ⟨s, hs, hb⟩
  · rcases hsep with rfl | rfl <;> decide
  · exact (h s hs).value b hb

theorem splitAll_fields {sep : UInt8} (hsep : sep = 47 ∨ sep = 59) {parts : List Bytes}
    (hne : parts ≠ []) (h : ∀ s ∈ parts, HeaderField s) :
    splitAll sep ([sep].intercalate parts) = parts := by
  refine splitAll_intercalate hne fun s hs hmem => (h s hs sep hmem).2 ?_
  rcases hsep with rfl | rfl <;> decide

theorem headerValue_hexEncode (s : Bytes) : HeaderValue (hexEncode s) := by
  intro b hb
  refine ⟨printable_hexEncode s b hb, ?_, ?_⟩
  · rintro rfl
    exact not_mem_hexEncode (by decide) s hb
  · rintro rfl
    exact not_mem_hexEncode (by decide) s hb

theorem HeaderValue.param {name value : Bytes} (hname : HeaderValue name)
    (hvalue : HeaderValue value) :
    Printable (name ++ 61 :: value) ∧ 44 ∉ name ++ 61 :: value ∧
      parseAuthPart (name ++ 61 :: value) = some (name, value) := by
  refine ⟨.append (fun b hb => (hname b hb).1) fun b hb => ?_, ?_, ?_⟩
  · rcases mem_cons.mp hb with rfl | hb
    · decide
    · exact (hvalue b hb).1
  · intro h
    rcases mem_append.mp h with h | h
    · exact (hname 44 h).2.1 rfl
    · exact (hvalue 44 ((mem_cons.mp h).resolve_left (by decide))).2.1 rfl
  · exact parseAuthPart_append (fun h => (hname 61 h).2.2 rfl) fun h => (hvalue 61 h).2.2 rfl

/-- The texts of the header between its commas. -/
def authParts (cred names signature : Bytes) : List Bytes :=
  [ascii "Credential" ++ 61 :: cred, 32 :: (ascii "SignedHeaders" ++ 61 :: names),
    32 :: (ascii "Signature" ++ 61 :: signature)]

theorem parseAuthParams_authParts {cred names signature : Bytes} (hcred : HeaderValue cred)
    (hnames : HeaderValue names) (hsignature : HeaderValue signature) :
    parseAuthParams ([44].intercalate (authParts cred names signature)) =
      .ok [(ascii "Signature", signature), (ascii "SignedHeaders", names),
        (ascii "Credential", cred)] := by
  obtain ⟨hfirst, hcomma₁, hparse₁⟩ :=
    (HeaderField.value (s := ascii "Credential") (by decide +kernel)).param hcred
  obtain ⟨hsecond, hcomma₂, hparse₂⟩ :=
    (HeaderField.value (s := ascii "SignedHeaders") (by decide +kernel)).param hnames
  obtain ⟨hthird, hcomma₃, hparse₃⟩ :=
    (HeaderField.value (s := ascii "Signature") (by decide +kernel)).param hsignature
  have hcomma : ∀ s ∈ authParts cred names signature, 44 ∉ s := by
    simp [authParts, -mem_append, hcomma₁, hcomma₂, hcomma₃]
  have hspace : ∀ s, trim (32 :: s) = trim s := fun _ => rfl
  rw [parseAuthParams, splitAll_intercalate (by simp [authParts]) hcomma]
  simp only [authParts, foldlM_cons, foldlM_nil, hspace, hfirst.trim_eq, hsecond.trim_eq,
    hthird.trim_eq, hparse₁, hparse₂, hparse₃]
  rfl

def SigningParams.credential (cal : Calendar) (params : SigningParams) : List Bytes :=
  [params.accessKeyId, cal.formatShort params.datetime, params.region, params.service,
    ascii "aws4_request"]

theorem createAuthorizationHeader_eq (cal : Calendar) (params : SigningParams) (names : List Bytes)
    (signature : Bytes) :
    createAuthorizationHeader params.accessKeyId
        (formatScopeString cal params.datetime params.region params.service) names signature =
      ascii "AWS4-HMAC-SHA256" ++ 32 :: [44].intercalate
        (authParts ([47].intercalate (params.credential cal)) ([59].intercalate names)
          signature) := by
  have hkind : ascii "AWS4-HMAC-SHA256 Credential=" = ascii "AWS4-HMAC-SHA256" ++ 32 :: ascii
    "Credential" ++ [61] := by
    decide
  have hnames : ascii ", SignedHeaders=" = 44 :: 32 :: (ascii "SignedHeaders" ++ [61]) := by decide
  have hsignature : ascii ", Signature=" = 44 :: 32 :: (ascii "Signature" ++ [61]) := by decide
  rw [createAuthorizationHeader, hkind, hnames, hsignature]
  simp [authParts, SigningParams.credential, formatScopeString, intercalate_cons_cons]

def Readable (headers : Headers) (name value : Bytes) : Prop :=
  headers.get name = some value ∧ toStr value = some value

theorem Readable.required {headers : Headers} {name value : Bytes} (h : Readable headers name value)
    (missing : String) : requiredHeader headers name missing = .ok value := by
  unfold requiredHeader
  rw [h.1]
  dsimp only
  rw [h.2]

/-- The headers of a request that was signed with `params`: the three that the gateway asks for,
    with texts that keep clear of the separators. -/
structure SigningParams.Sent (cal : Calendar) (params : SigningParams) (names : List Bytes)
    (payloadHash authorization : Bytes) (headers : Headers) : Prop where
  authorized : Readable headers (ascii "authorization") authorization
  hashed : Readable headers (ascii "x-amz-content-sha256") payloadHash
  dated : Readable headers (ascii "x-amz-date") (cal.formatLong params.datetime)
  date_parses : cal.parseLong (cal.formatLong params.datetime) = some params.datetime
  names_ne : names ≠ []
  names_fields : ∀ s ∈ names, HeaderField s
  credential_fields : ∀ s ∈ params.credential cal, HeaderField s

/-- The gateway reads out of the header what the signer put there. -/
theorem SigningParams.Sent.extracted {cal : Calendar} {params : SigningParams} {names : List Bytes}
    {payloadHash signature : Bytes} {headers : Headers}
    (h : params.Sent cal names payloadHash (createAuthorizationHeader params.accessKeyId
      (formatScopeString cal params.datetime params.region params.service) names signature) headers)
    (hsorted : names.Pairwise fun a b => compare a b = .lt) (hsignature : HeaderValue signature)
      {now : Int}
    (hnow : (now - params.datetime).tdiv 3600 ≤ 24) :
    extractHeaderAuthentication cal now headers =
      .ok (some (params.authentication cal names payloadHash signature)) := by
  have hcred := headerValue_intercalate (.inl rfl) h.credential_fields
  have hnames := headerValue_intercalate (.inr rfl) h.names_fields
  have hbind : ∀ {α β : Type} (a : α) (f : α → Except AuthError β), (Except.ok a >>= f) = f a :=
    fun _ _ => rfl
  have hparts : extractAuthParts cal headers = .ok ⟨[47].intercalate (params.credential cal),
      [59].intercalate names, signature, payloadHash, params.datetime⟩ := by
    have hkind : 32 ∉ ascii "AWS4-HMAC-SHA256" := by decide
    unfold extractAuthParts
    simp only [h.authorized.required, hbind, createAuthorizationHeader_eq, splitOnce_append hkind,
      ne_eq, not_true, if_false, parseAuthParams_authParts hcred hnames hsignature,
        h.hashed.required, h.dated.required, h.date_parses]
    rfl
  have hcredential : parseCredential ([47].intercalate (params.credential cal)) =
      .ok (params.accessKeyId, ⟨cal.formatShort params.datetime, params.region,
        params.service⟩) := by
    rw [parseCredential, splitAll_fields (.inl rfl) (by simp [credential]) h.credential_fields]
    rfl
  unfold extractHeaderAuthentication
  rw [h.authorized.1]
  dsimp only
  rw [hparts, hbind, if_neg (not_lt.mpr hnow), hcredential, hbind]
  dsimp only
  rw [if_neg fun h => h rfl, splitAll_fields (.inr rfl) h.names_ne h.names_fields,
    foldr_insertSorted hsorted]
  rfl

/-! ## §4. Signed requests -/

theorem verifyV4_of_signature {C : Crypto} {cal : Calendar} {app : AuthState}
    {auth : Authentication} {key : ApiKey} {s : Bytes} (hkey : app.getApiKey auth.keyId = some key)
    (hsignature : auth.signature = calculateSignature C
    (getSigningKey C cal auth.date key.secretKey app.region) s) :
    verifyV4 C cal app auth s = .ok key := by
  unfold verifyV4 verifySignature
  rw [hkey, hsignature, calculateSignature, hexDecode_hexEncode]
  dsimp only
  rw [decide_eq_true rfl]
  rfl

/-- ★ **Signed requests verify.** A request that carries the signed headers and whose query string
    decodes to the parameters, in whatever order and encoding, is hashed as the signer hashes it
    exactly if the encoded items ascend in the order of the names. It then passes the check of a
    gateway of the same region that has the key: out of the header that `sign_request` returns the
    gateway reads the authentication that is checked. -/
theorem signed_requests_verify_iff (C : Crypto) (cal : Calendar) (params : SigningParams)
    (parser : QueryParser) (method path host q payloadHash : Bytes) (queryParams signed : TextMap)
    (headers : Headers) (hquery : (parser.pairs q).Perm queryParams.toList)
    (hcarried : ∀ p ∈ signed.toList, Carried headers p) :
    let request : HttpRequest :=
      { method, path, canonicalQuery := buildCanonicalQueryString parser q, host, headers }
    let names := signed.toList.map Prod.fst
    let created := createCanonicalRequest method path queryParams (signed.toList.map headerLine)
      names payloadHash
    (∃ pairs, collectSignedHeaders request names = .ok pairs ∧
      (created = canonicalRequest request pairs names payloadHash ↔
        (queryParams.toList.map queryItem).Pairwise (· ≤ ·))) ∧
    ((queryParams.toList.map queryItem).Pairwise (· ≤ ·) → ∀ (app : AuthState) (key : ApiKey),
      app.getApiKey params.accessKeyId = some key → key.secretKey = params.secretAccessKey →
      app.region = params.region →
      checkHeaderBasedSignature C cal app
        (params.authentication cal names payloadHash (params.sign C cal created)) request = .ok
          key) ∧
    (∀ now, (now - params.datetime).tdiv 3600 ≤ 24 →
      params.Sent cal names payloadHash (signRequest C cal params method path queryParams
        (signed.toList.map headerLine) names payloadHash) headers →
      extractHeaderAuthentication cal now headers =
        .ok (some (params.authentication cal names payloadHash (params.sign C cal created)))) := by
  intro request names created
  have htext : request.canonicalQuery = queryText queryParams.toList := by
    show buildCanonicalQueryString parser q = _
    rw [buildCanonicalQueryString_eq, queryMap, ofPairs_of_perm hquery]
  have hcollect : collectSignedHeaders request names = .ok signed.toList :=
    collectSignedHeaders_of_carried hcarried
  have hsame := createCanonicalRequest_eq_iff htext signed.toList payloadHash
  refine ⟨⟨signed.toList, hcollect, hsame⟩, ?_, ?_⟩
  · intro hascend app key hkey hsecret hregion
    have hcreated : created = canonicalRequest request signed.toList names payloadHash :=
      hsame.mpr hascend
    unfold checkHeaderBasedSignature hashCanonicalRequestStreaming SigningParams.authentication
    dsimp only
    rw [hcollect]
    show verifyV4 C cal app _ (buildStringToSign _ _ (hexEncode (C.sha256 _))) = _
    rw [← hcreated]
    refine verifyV4_of_signature hkey ?_
    rw [hsecret, hregion]
    rfl
  · intro now hnow hsent
    exact hsent.extracted (pairwise_map.mpr Std.ExtTreeMap.ordered_keys_toList)
      (headerValue_hexEncode _) hnow

def toyCrypto : Crypto := ⟨id, (· ++ ·)⟩

def toyCalendar : Calendar := ⟨fun _ => some 0, fun _ => [], fun _ => []⟩

def toyParams : SigningParams := ⟨[], [], [], [], 0⟩

theorem signed_requests_verify_at_sample :
    let queryParams : TextMap := ofPairs compare [(ascii "from", [97]), (ascii "to", [98])]
    let signed : TextMap := ofPairs compare [(ascii "host", [104])]
    let authorization := signRequest toyCrypto toyCalendar toyParams (ascii "GET") [47] queryParams
      (signed.toList.map headerLine) (signed.toList.map Prod.fst) []
    let request : HttpRequest :=
      { method := ascii "GET", path := [47], host := []
        canonicalQuery := buildCanonicalQueryString formParser (ascii "to=b&from=a")
        headers := [(ascii "host", [104]), (ascii "authorization", authorization),
          (ascii "x-amz-date", []), (ascii "x-amz-content-sha256", [])] }
    ∃ auth, extractHeaderAuthentication toyCalendar 0 request.headers = .ok (some auth) ∧
      checkHeaderBasedSignature toyCrypto toyCalendar ⟨[], false, fun _ => some ⟨[], []⟩, none⟩ auth
        request = .ok ⟨[], []⟩ := by
  intro queryParams signed authorization request
  have hverify := signed_requests_verify_iff toyCrypto toyCalendar toyParams formParser
    (ascii "GET") [47] [] (ascii "to=b&from=a") [] queryParams signed request.headers (by decide)
      (by decide)
  exact ⟨_, hverify.2.2 0 (by decide) ⟨⟨rfl, by decide +kernel⟩, ⟨rfl, rfl⟩, ⟨rfl, rfl⟩,
    rfl, by decide +kernel, by decide +kernel, by decide +kernel⟩, hverify.2.1 (by decide) _ _ rfl
      rfl rfl⟩

-- `-` sorts before `=`: the signer lists `a-` first, the gateway `a`
example :
    ¬ ((ofPairs compare [(ascii "a", [49]), (ascii "a-", [50])] : TextMap).toList.map
    queryItem).Pairwise (· ≤ ·) := by decide

end FractalBits.Gateway
