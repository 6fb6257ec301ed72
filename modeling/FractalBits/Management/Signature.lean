/-
  Management.Signature — the `FBSIG1` signature of management requests.

  Mirrors `mgmt_sig.rs` and `mgmt_auth.rs`. The MAC is fed seven fields, and a newline after each
  but the timestamp and the last.
-/

import FractalBits.Gateway.Request
import FractalBits.Lib.Hexadecimal

namespace FractalBits.Management

open Lib Gateway

/-! ## §1. Headers -/

structure FbSig1Header where
  keyId : Bytes
  timestampMs : UInt64
  nonce : Bytes
  signature : Bytes
  deriving DecidableEq, Repr

structure ApiKey where
  keyId : Bytes
  secretKey : Bytes
  isDeleted : Bool
  deriving DecidableEq, Repr

structure HeaderFields where
  keyId : Option Bytes := none
  timestampMs : Option UInt64 := none
  nonce : Option Bytes := none
  signature : Option Bytes := none

/-- One part of the header; a later part replaces an earlier one of its name, and a value that does
    not parse replaces it by nothing. -/
def headerField (fields : HeaderFields) (part : Bytes) : Option HeaderFields := do
  let (k, v) ← splitOnce 61 (trim part)
  if k = ascii "key_id" then return { fields with keyId := some v }
  else if k = ascii "ts" then return { fields with timestampMs := (parseUsize v).map UInt64.ofNat }
  else if k = ascii "nonce" then return { fields with nonce := hexDecode v }
  else if k = ascii "sig" then return { fields with signature := hexDecode v }
  else none

def parseFbsig1Header (value : Bytes) : Option FbSig1Header := do
  let rest ← stripPrefix (ascii "FBSIG1 ") value
  let fields ← (splitAll 44 rest).foldlM headerField {}
  return ⟨← fields.keyId, ← fields.timestampMs, ← fields.nonce, ← fields.signature⟩

/-! ## §2. The message of the MAC -/

structure MacInput where
  keyId : Bytes
  timestampMs : UInt64
  nonce : Bytes
  method : Bytes
  path : Bytes
  query : Bytes
  bodySha256Hex : Bytes
  deriving DecidableEq, Repr

def MacInput.message (t : MacInput) : Bytes :=
  t.keyId ++ 10
    :: (leBytes 8 t.timestampMs.toNat
      ++ (t.nonce ++ 10
      :: (t.method ++ 10 :: (t.path ++ 10 :: (t.query ++ 10 :: t.bodySha256Hex)))))

structure MacInput.OneLined (t : MacInput) : Prop where
  keyId : 10 ∉ t.keyId
  method : 10 ∉ t.method
  path : 10 ∉ t.path
  query : 10 ∉ t.query
  length : t.bodySha256Hex.length = 64
  digits : ∀ b ∈ t.bodySha256Hex, hexVal b ≠ none

theorem MacInput.OneLined.hash {t : MacInput} (h : t.OneLined) : 10 ∉ t.bodySha256Hex :=
  fun hmem => h.digits 10 hmem (by decide)

theorem tail_inj {nonce nonce' method method' path path' query query' hash hash' : Bytes}
    (hmethod : 10 ∉ method) (hmethod' : 10 ∉ method') (hpath : 10 ∉ path) (hpath' : 10 ∉ path')
    (hquery : 10 ∉ query) (hquery' : 10 ∉ query') (hhash : 10 ∉ hash) (hhash' : 10 ∉ hash')
    (h : nonce ++ 10 :: (method ++ 10 :: (path ++ 10 :: (query ++ 10 :: hash)))
      = nonce' ++ 10 :: (method' ++ 10 :: (path' ++ 10 :: (query' ++ 10 :: hash')))) :
    nonce = nonce' ∧ method = method' ∧ path = path' ∧ query = query' ∧ hash = hash' := by
  have hleft : ∀ a b c d e : Bytes, a ++ 10 :: (b ++ 10 :: (c ++ 10 :: (d ++ 10 :: e)))
      = (((a ++ 10 :: b) ++ 10 :: c) ++ 10 :: d) ++ 10 :: e := by
    intro a b c d e
    simp
  rw [hleft, hleft] at h
  obtain ⟨h, h₁⟩ := append_cons_inj_last hhash hhash' h
  obtain ⟨h, h₂⟩ := append_cons_inj_last hquery hquery' h
  obtain ⟨h, h₃⟩ := append_cons_inj_last hpath hpath' h
  obtain ⟨h, h₄⟩ := append_cons_inj_last hmethod hmethod' h
  exact ⟨h, h₄, h₃, h₂, h₁⟩

theorem MacInput.message_inj {t t' : MacInput} (ht : t.OneLined) (ht' : t'.OneLined)
    (h : t.message = t'.message) : t = t' := by
  unfold MacInput.message at h
  obtain ⟨hkey, h⟩ := append_cons_inj_first ht.keyId ht'.keyId h
  -- the timestamp has eight bytes, whatever they are
  obtain ⟨htime, h⟩ := List.append_inj h (by rw [leBytes_length, leBytes_length])
  have hstamp : t.timestampMs = t'.timestampMs := by
    apply UInt64.toNat_inj.mp
    rw [← ofLeBytes_leBytes 8 t.timestampMs.toNat t.timestampMs.toNat_lt, htime,
      ofLeBytes_leBytes 8 t'.timestampMs.toNat t'.timestampMs.toNat_lt]
  obtain ⟨hnonce, hmethod, hpath, hquery, hhash⟩ :=
    tail_inj ht.method ht'.method ht.path ht'.path ht.query ht'.query ht.hash ht'.hash h
  cases t
  cases t'
  simp only at hkey hstamp hnonce hmethod hpath hquery hhash
  subst hkey hstamp hnonce hmethod hpath hquery hhash
  rfl

/-! ## §3. The check -/

structure Digests where
  hmac : Bytes → Bytes → Bytes
  sha256 : Bytes → Bytes

def mgmtSignature (D : Digests) (secretKey : Bytes) (t : MacInput) : Bytes :=
    D.hmac secretKey t.message

def constantTimeEq (a b : Bytes) : Bool :=
  if a.length ≠ b.length then false
  else (a.zip b).foldl (fun acc p => acc ||| (p.1 ^^^ p.2)) 0 == 0

def mgmtSkewMs : Nat := 300000

def bodySha256Hex (D : Digests) (body : Bytes) : Bytes := hexEncode (D.sha256 body)

structure ManagementRequest where
  method : Bytes
  path : Bytes
  query : Bytes
  body : Bytes
  deriving DecidableEq, Repr

def FbSig1Header.macInput (D : Digests) (hdr : FbSig1Header) (r : ManagementRequest) : MacInput :=
  ⟨hdr.keyId, hdr.timestampMs, hdr.nonce, r.method, r.path, r.query, bodySha256Hex D r.body⟩

def checkFbsig1 (D : Digests) (hdr : FbSig1Header) (apiKey : ApiKey) (r : ManagementRequest)
    (nowMs : UInt64) (required : Bool) : Except String Unit :=
  if apiKey.isDeleted then .error "api key deleted"
  else if required = false then .ok ()
  else if max hdr.timestampMs.toNat nowMs.toNat - min hdr.timestampMs.toNat nowMs.toNat > mgmtSkewMs
    then
    .error "timestamp outside window"
  else if constantTimeEq (mgmtSignature D apiKey.secretKey (hdr.macInput D r)) hdr.signature = false
    then
    .error "bad signature"
  else .ok ()

/-- `fbsig1_auth`, with the texts of its errors: the header, the limit of the body, the key, and the
    check. -/
def fbsig1Auth (D : Digests) (getApiKey : Bytes → Except String ApiKey)
    (authorization : Option Bytes) (r : ManagementRequest) (nowMs : UInt64)
    (required : Bool) : Except String ApiKey := do
  match (authorization.bind toStr).bind parseFbsig1Header with
  | none => throw "missing or malformed FBSIG1 authorization"
  | some hdr =>
    if r.body.length > 64 * 1024 then throw "body over limit"
    let apiKey ← (getApiKey hdr.keyId).mapError ("api key lookup failed: " ++ ·)
    checkFbsig1 D hdr apiKey r nowMs required
    return apiKey

theorem foldl_xor_eq_zero {a b : Bytes} (hlength : a.length = b.length) (acc : UInt8) :
    (a.zip b).foldl (fun acc p => acc ||| (p.1 ^^^ p.2)) acc = 0 ↔ acc = 0 ∧ a = b := by
  induction a generalizing b acc with
  | nil =>
    cases b with
    | nil => simp
    | cons y b => cases hlength
  | cons x a ih =>
    cases b with
    | nil => cases hlength
    | cons y b =>
      rw [List.zip_cons_cons, List.foldl_cons, ih (Nat.succ.inj hlength), UInt8.or_eq_zero_iff,
        UInt8.xor_eq_zero_iff, List.cons.injEq, and_assoc]

theorem constantTimeEq_iff (a b : Bytes) : constantTimeEq a b = true ↔ a = b := by
  unfold constantTimeEq
  by_cases hlength : a.length = b.length
  · rw [if_neg (not_not.mpr hlength), beq_iff_eq, foldl_xor_eq_zero hlength]
    simp
  · rw [if_pos hlength]
    simp only [Bool.false_eq_true, false_iff]
    intro heq
    exact hlength (congrArg List.length heq)

variable {D : Digests} {apiKey : ApiKey} {r : ManagementRequest}

theorem signature_of_accepted {hdr : FbSig1Header}
    {nowMs : UInt64} (h : checkFbsig1 D hdr apiKey r nowMs true = .ok ()) :
    hdr.signature = D.hmac apiKey.secretKey (hdr.macInput D r).message := by
  unfold checkFbsig1 at h
  split at h
  · cases h
  · rw [if_neg (by decide)] at h
    split at h
    · cases h
    · split at h
      · cases h
      · next hsignature =>
        exact ((constantTimeEq_iff _ _).mp (eq_true_of_ne_false hsignature)).symm

structure ManagementRequest.OneLined (r : ManagementRequest) : Prop where
  method : 10 ∉ r.method
  path : 10 ∉ r.path
  query : 10 ∉ r.query

structure Digests.Apart (D : Digests) (hdr : FbSig1Header) (apiKey : ApiKey)
    (r r' : ManagementRequest) : Prop where
  hmac : D.hmac apiKey.secretKey (hdr.macInput D r).message = D.hmac apiKey.secretKey
    (hdr.macInput D r').message →
    (hdr.macInput D r).message = (hdr.macInput D r').message
  sha256 : D.sha256 r.body = D.sha256 r'.body → r.body = r'.body

theorem fbsig1Auth_ok {getApiKey : Bytes → Except String ApiKey} {authorization : Option Bytes}
    {nowMs : UInt64} {required : Bool}
    (h : fbsig1Auth D getApiKey authorization r nowMs required = .ok apiKey) :
    ∃ hdr, (authorization.bind toStr).bind parseFbsig1Header = some hdr
      ∧ getApiKey hdr.keyId = .ok apiKey
      ∧ checkFbsig1 D hdr apiKey r nowMs required = .ok () := by
  unfold fbsig1Auth at h
  cases hheader : (authorization.bind toStr).bind parseFbsig1Header with
  | none =>
    rw [hheader] at h
    cases h
  | some hdr =>
    rw [hheader] at h
    simp only at h
    split at h
    · cases h
    · cases hkey : getApiKey hdr.keyId with
      | error e =>
        rw [hkey] at h
        cases h
      | ok key =>
        rw [hkey] at h
        obtain ⟨found, hfound, h⟩ := of_bind_ok h
        cases hfound
        obtain ⟨u, hcheck, h⟩ := of_bind_ok h
        cases h
        exact ⟨hdr, rfl, hkey, hcheck⟩

theorem request_of_message {hdr : FbSig1Header} {r' : ManagementRequest}
    (hr : r.OneLined) (hr' : r'.OneLined) (hapart : D.Apart hdr apiKey r r')
    (h : (hdr.macInput D r).message = (hdr.macInput D r').message) : r = r' := by
  have hhash : ∀ body, 10 ∉ bodySha256Hex D body := fun body => not_mem_hexEncode (by decide) _
  -- the key id and the timestamp stand in both messages
  have htail := List.append_cancel_left (List.cons.inj (List.append_cancel_left h)).2
  obtain ⟨-, hmethod, hpath, hquery, hbody⟩ :=
    tail_inj hr.method hr'.method hr.path hr'.path hr.query hr'.query (hhash _) (hhash _) htail
  have hdigest : some (D.sha256 r.body) = some (D.sha256 r'.body) := by
    rw [← hexDecode_hexEncode, ← hexDecode_hexEncode, show hexEncode _ = hexEncode _ from hbody]
  have hsame := hapart.sha256 (Option.some.inj hdigest)
  cases r
  cases r'
  simp only at hmethod hpath hquery hsame
  subst hmethod hpath hquery hsame
  rfl

/-- ★ **The signature binds every field.** The messages of the MAC are equal only for equal fields,
    for every nonce; and a header that is accepted for one request is refused for every other, where
    the digests do not collide on the two: by the check, and by the middleware around it. -/
theorem fbsig1_binds_every_field :
    (∀ t t' : MacInput, t.OneLined → t'.OneLined → t.message = t'.message → t = t')
    ∧ ∀ (D : Digests) (hdr : FbSig1Header) (apiKey : ApiKey) (r r' : ManagementRequest)
      (nowMs nowMs' : UInt64), r.OneLined → r'.OneLined → D.Apart hdr apiKey r r' →
        checkFbsig1 D hdr apiKey r nowMs true = .ok () → r ≠ r' →
      (∃ e, checkFbsig1 D hdr apiKey r' nowMs' true = .error e)
        ∧ ∀ getApiKey authorization, (authorization.bind toStr).bind parseFbsig1Header = some hdr →
          getApiKey hdr.keyId = .ok apiKey → ∃ e, fbsig1Auth D getApiKey authorization r' nowMs'
            true = .error e := by
  refine ⟨fun t t' ht ht' h => MacInput.message_inj ht ht' h, ?_⟩
  intro D hdr apiKey r r' nowMs nowMs' hr hr' hapart haccepted hne
  have hrefused : checkFbsig1 D hdr apiKey r' nowMs' true ≠ .ok () := by
    intro hcheck
    have hsame := (signature_of_accepted haccepted).symm.trans (signature_of_accepted hcheck)
    exact hne (request_of_message hr hr' hapart (hapart.hmac hsame))
  constructor
  · cases hcheck : checkFbsig1 D hdr apiKey r' nowMs' true with
    | error e => exact ⟨e, rfl⟩
    | ok u => exact absurd hcheck hrefused
  · intro getApiKey authorization hheader hkey
    cases hauth : fbsig1Auth D getApiKey authorization r' nowMs' true with
    | error e => exact ⟨e, rfl⟩
    | ok key =>
      obtain ⟨hdr', hheader', hkey', hcheck⟩ := fbsig1Auth_ok hauth
      cases hheader.symm.trans hheader'
      cases hkey.symm.trans hkey'
      exact absurd hcheck hrefused

/-! ## §4. A header at another request -/

/-- Digests without a collision: the inputs themselves. -/
def sampleDigests : Digests := ⟨fun key message => key ++ message, id⟩

def sampleKey : ApiKey := ⟨ascii "k1", ascii "secret", false⟩

def sampleRequest : ManagementRequest := ⟨ascii "POST", ascii "/volumes", [], ascii "a"⟩

def otherRequest : ManagementRequest := { sampleRequest with body := ascii "b" }

def sampleSignature : Bytes :=
  mgmtSignature sampleDigests sampleKey.secretKey
    (FbSig1Header.macInput sampleDigests ⟨sampleKey.keyId, 5000, [1, 2], []⟩ sampleRequest)

def sampleHeader : FbSig1Header := ⟨sampleKey.keyId, 5000, [1, 2], sampleSignature⟩

def sampleAuthorization : Bytes :=
  ascii "FBSIG1 key_id=k1, ts=5000, nonce=0102, sig=" ++ hexEncode sampleSignature

theorem sampleDigests_apart (hdr : FbSig1Header) (apiKey : ApiKey) (r r' : ManagementRequest) :
    sampleDigests.Apart hdr apiKey r r' :=
  ⟨List.append_cancel_left, id⟩

theorem fbsig1_binds_every_field_at_sample :
    fbsig1Auth sampleDigests (fun _ => .ok sampleKey) (some sampleAuthorization) sampleRequest 6000
        true = .ok sampleKey
      ∧ (∃ e, checkFbsig1 sampleDigests sampleHeader sampleKey otherRequest 6000 true = .error e)
      ∧ ∃ e, fbsig1Auth sampleDigests (fun _ => .ok sampleKey) (some sampleAuthorization)
        otherRequest 6000 true = .error e := by
  have haccepted :
      checkFbsig1 sampleDigests sampleHeader sampleKey sampleRequest 6000 true = .ok () := by
    decide +kernel
  have hheader : ((some sampleAuthorization).bind toStr).bind parseFbsig1Header = some
    sampleHeader := by
    decide +kernel
  obtain ⟨hcheck, hauth⟩ := fbsig1_binds_every_field.2 sampleDigests sampleHeader sampleKey
    sampleRequest otherRequest 6000 6000 ⟨by decide, by decide, by decide⟩
    ⟨by decide, by decide, by decide⟩ (sampleDigests_apart ..) haccepted (by decide)
  exact ⟨by decide +kernel, hcheck, hauth _ _ hheader rfl⟩

end FractalBits.Management
