/-
  Streaming.Signed — what the chunk signatures of an accepted upload cover.

  The decoder checks a chunk's signature only if the chunk line carries one; it checks none on the
  zero-size line, and it accepts a body that stops where a chunk line should start.
-/

import FractalBits.Streaming.Framing

namespace FractalBits.Streaming

open Lib

/-! ## §1. Links of the chain -/

def ChunkSignature.Matches (C : Crypto) (context : ChunkSignatureContext) (sig : ChunkSignature)
    (prev data : Bytes) : Prop :=
  hexDecode sig.signature = some (C.hmacSha256 context.signingKey
    (chunkStringToSign C context.datetime context.scopeString prev data))

def Linked (C : Crypto) (context : ChunkSignatureContext) (prev line data : Bytes) : Prop :=
  ∃ sig, parseChunkSignature line = some sig ∧ sig.Matches C context prev data

def signatureAfter (prev : Bytes) (c : Chunk) : Bytes :=
  ((parseChunkSignature c.line).map ChunkSignature.signature).getD prev

def lastSignature (seed : Bytes) (cs : List Chunk) : Bytes := cs.foldl signatureAfter seed

def WrongSignature (C : Crypto) (context : ChunkSignatureContext) (seed : Bytes) (cs : List Chunk) :
    Prop :=
  ∃ pre c post sig, cs = pre ++ c :: post ∧ parseChunkSignature c.line = some sig ∧
    ¬ sig.Matches C context (lastSignature seed pre) c.data

section Links

variable {C : Crypto} {context : ChunkSignatureContext}

theorem verifyChunkSignature_ok_iff {sig : ChunkSignature} {prev data : Bytes} :
    verifyChunkSignature C context sig prev data = .ok () ↔ sig.Matches C context prev data := by
  unfold verifyChunkSignature ChunkSignature.Matches
  cases hexDecode sig.signature with
  | none => simp
  | some expected => simp

theorem chainStep_eq_some_iff {prev : Bytes} {c : Chunk} {next : Option Bytes} :
    chainStep C (some context) (some prev) c = some next ↔
      next = some (signatureAfter prev c) ∧
      ∀ sig, parseChunkSignature c.line = some sig → sig.Matches C context prev c.data := by
  unfold chainStep signatureAfter
  cases hsig : parseChunkSignature c.line with
  | none => simp [eq_comm]
  | some sig =>
    simp only [Option.some.injEq, forall_eq', Option.map_some, Option.getD_some]
    rw [← verifyChunkSignature_ok_iff]
    cases verifyChunkSignature C context sig prev c.data with
    | error e => simp
    | ok u => simp [eq_comm]

theorem chain_isSome_iff {seed : Bytes} {cs : List Chunk} :
    (chain C (some context) (some seed) cs).isSome ↔ ¬ WrongSignature C context seed cs := by
  induction cs generalizing seed with
  | nil =>
    refine ⟨fun _ => ?_, fun _ => rfl⟩
    rintro ⟨pre, c, post, sig, h, -⟩
    simp at h
  | cons c cs ih =>
    unfold chain
    by_cases hok : ∀ sig, parseChunkSignature c.line = some sig → sig.Matches C context seed c.data
    · -- the first link holds: a wrong one is further on
      rw [chainStep_eq_some_iff.mpr ⟨rfl, hok⟩]
      show (chain C (some context) (some (signatureAfter seed c)) cs).isSome ↔ _
      rw [ih, not_iff_not]
      constructor
      · rintro ⟨pre, d, post, sig, rfl, hsig, hwrong⟩
        exact ⟨c :: pre, d, post, sig, rfl, hsig, hwrong⟩
      · rintro ⟨pre, d, post, sig, hcs, hsig, hwrong⟩
        cases pre with
        | nil =>
          injection hcs with hc _
          subst hc
          exact absurd (hok sig hsig) hwrong
        | cons c' pre =>
          injection hcs with hc hcs
          subst hc
          exact ⟨pre, d, post, sig, hcs, hsig, hwrong⟩
    · have hnone : chainStep C (some context) (some seed) c = none := by
        cases hstep : chainStep C (some context) (some seed) c with
        | none => rfl
        | some next => exact absurd (chainStep_eq_some_iff.mp hstep).2 hok
      rw [hnone]
      push Not at hok
      obtain ⟨sig, hsig, hwrong⟩ := hok
      refine ⟨fun h => (by cases h), fun h => absurd ⟨[], c, cs, sig, rfl, hsig, hwrong⟩ h⟩

end Links

/-! ## §2. Authenticated bodies -/

/-- **The signatures cover everything that was yielded**: it is the data of chunks that are all
    linked, from the seed to the zero-size line. -/
def Authenticated (C : Crypto) (context : ChunkSignatureContext)
    (seed body yielded : Bytes) : Prop :=
  ∃ cs line rest, body = encodeChunks cs ++ (line ++ (crlf ++ rest)) ∧ (∀ c ∈ cs, c.Readable) ∧
    SizeLine line 0 ∧
    (∀ pre c post, cs = pre ++ c :: post → Linked C context (lastSignature seed pre) c.line
      c.data) ∧
    Linked C context (lastSignature seed cs) line [] ∧
    yielded = dataOf cs

/-- Every chunk line carries a signature, and that of the zero-size line is right. -/
def SignedThroughout (C : Crypto) (context : ChunkSignatureContext) (seed : Bytes)
    (cs : List Chunk) (line : Bytes) : Prop :=
  (∀ c ∈ cs, (parseChunkSignature c.line).isSome) ∧
    Linked C context (lastSignature seed cs) line []

/-- The body is refused, or its chunks are signed up to the zero-size line. -/
def CoversOrFails (C : Crypto) (context : ChunkSignatureContext) (seed body : Bytes) : Prop :=
  ∃ cs t, Frames body cs t ∧
    (t = .malformed ∨ WrongSignature C context seed cs ∨
      ∃ line rest, t = .zero line rest ∧ SignedThroughout C context seed cs line)

/-- An authenticated body is a sequence of signed chunks up to a signed zero-size line. -/
theorem Authenticated.signedThroughout {C : Crypto} {context : ChunkSignatureContext}
    {seed body yielded : Bytes} (h : Authenticated C context seed body yielded) :
    ∃ cs line rest, Frames body cs (.zero line rest) ∧ SignedThroughout C context seed cs line := by
  obtain ⟨cs, line, rest, hbody, hread, hline, hlinks, hlast, -⟩ := h
  refine ⟨cs, line, rest, ⟨_, hbody, hread, rest_zero_iff.mpr ⟨rfl, hline⟩⟩, fun c hc => ?_, hlast⟩
  obtain ⟨pre, post, hsplit⟩ := List.append_of_mem hc
  obtain ⟨sig, hsig, -⟩ := hlinks pre c post hsplit
  rw [hsig]
  rfl

/-- Where every chunk line carries a signature and none is wrong, the chain is complete. -/
theorem authenticated_of_signedThroughout {C : Crypto} {context : ChunkSignatureContext}
    {seed body line rest : Bytes} {cs : List Chunk} (hframes : Frames body cs (.zero line rest))
    (hright : ¬ WrongSignature C context seed cs)
    (hsigned : SignedThroughout C context seed cs line) :
    Authenticated C context seed body (dataOf cs) := by
  obtain ⟨R, hbody, hread, hrest⟩ := hframes
  obtain ⟨rfl, hline⟩ := rest_zero_iff.mp hrest
  refine ⟨cs, line, rest, hbody, hread, hline, fun pre c post hsplit => ?_, hsigned.2, rfl⟩
  have hmem : c ∈ cs := hsplit ▸ List.mem_append_right _ List.mem_cons_self
  obtain ⟨sig, hsig⟩ := Option.isSome_iff_exists.mp (hsigned.1 c hmem)
  exact ⟨sig, hsig, not_not.mp fun hwrong => hright ⟨pre, c, post, sig, hsplit, hsig, hwrong⟩⟩

/-- ★ **When an accepted upload is authenticated.** Every body has one outcome. If it is accepted,
    all it yielded is covered by the chain of signatures exactly when no chunk line lacks its
    signature, the zero-size line is there and its signature is right. -/
theorem signed_upload_authenticated_iff (C : Crypto) (context : ChunkSignatureContext)
    (seed : Bytes) (fragments : List Bytes) :
    ∃ o, (∀ o', Drains C (.start true (some (context, some seed)) (fragments.map .ok)) o'
      ↔ o' = o) ∧
      ((o.Accepted → Authenticated C context seed fragments.flatten o.items.flatten) ↔
        CoversOrFails C context seed fragments.flatten) := by
  obtain ⟨cs, t, hframes⟩ := exists_frames fragments.flatten
  obtain ⟨o, hdrains, haccepted, hitems⟩ :=
    drains_frames C (some context) (some seed) hframes
  refine ⟨o, fun o' => ⟨fun h => h.unique hdrains, fun h => h ▸ hdrains⟩, ?_⟩
  rw [chain_isSome_iff] at haccepted
  constructor
  · intro hauth
    by_cases hacc : o.Accepted
    · obtain ⟨ds, line, rest, hzero, hsigned⟩ := (hauth hacc).signedThroughout
      exact ⟨ds, .zero line rest, hzero, .inr (.inr ⟨line, rest, rfl, hsigned⟩)⟩
    · refine ⟨cs, t, hframes, ?_⟩
      rw [haccepted, not_and_or, not_not, not_not] at hacc
      rcases hacc with hwrong | hmal
      · exact .inr (.inl hwrong)
      · exact .inl hmal
  · rintro ⟨cs', t', hframes', hcond⟩ hacc
    obtain ⟨rfl, rfl⟩ := hframes.unique hframes'
    obtain ⟨hright, hmal⟩ := haccepted.mp hacc
    obtain h | h | ⟨line, rest, rfl, hsigned⟩ := hcond
    · exact absurd h hmal
    · exact absurd h hright
    · rw [hitems hacc fun _ _ h => by cases h]
      exact authenticated_of_signedThroughout hframes hright hsigned

/-! ## §3. An upload without signatures -/

def sampleCrypto : Crypto where
  sha256 data := [UInt8.ofNat data.length]
  hmacSha256 key text := key ++ [UInt8.ofNat text.length]

def sampleContext : ChunkSignatureContext where
  signingKey := ascii "key"
  datetime := ascii "20260101T000000Z"
  scopeString := ascii "20260101/localdev/s3/aws4_request"

def unsignedBody : Bytes := ascii "3\r\nabc\r\n0\r\n\r\n"

theorem unsigned_body_accepted :
    Drains sampleCrypto (.start true (some (sampleContext, some (ascii "5eed"))) [.ok unsignedBody])
      ⟨[ascii "abc"], .finished none⟩ ∧
    ¬ Authenticated sampleCrypto sampleContext (ascii "5eed") unsignedBody (ascii "abc") := by
  refine ⟨⟨9, by decide +kernel⟩, ?_⟩
  rintro ⟨cs, line, rest, hbody, hread, hline, -, ⟨sig, hsig, -⟩, -⟩
  -- the only zero-size line of the body carries no signature
  have hzero : Frames unsignedBody [⟨ascii "3", ascii "abc"⟩] (.zero (ascii "0") crlf) := by
    refine ⟨ascii "0\r\n\r\n", by decide +kernel, ?_, rest_zero_iff.mpr ⟨by decide +kernel, ?_⟩⟩
    · intro c hc
      rw [List.mem_singleton.mp hc]
      exact ⟨⟨by decide +kernel, by decide +kernel, by decide +kernel⟩, by decide, by decide⟩
    · exact ⟨by decide +kernel, by decide +kernel, by decide +kernel⟩
  obtain ⟨-, htail⟩ := hzero.unique ⟨_, hbody, hread, rest_zero_iff.mpr ⟨rfl, hline⟩⟩
  injection htail with hl
  rw [← hl, show parseChunkSignature (ascii "0") = none by decide +kernel] at hsig
  cases hsig

end FractalBits.Streaming
