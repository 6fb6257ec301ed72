/-
  Streaming.Trailers — when the checksum in the trailers is enforced.
-/

import FractalBits.Streaming.Checksum
import FractalBits.Streaming.Framing

namespace FractalBits.Streaming

open Lib List

/-! ## §1. Trailer lines -/

def checksumOfLine (line : Bytes) : Option Bytes :=
  match splitOnce 58 (trim line) with
  | none => none
  | some (name, value) =>
    if toLowercase (trim name) ∈ checksumTrailerNames then some (trim value) else none

theorem addLine_checksumValue (trailers : S3Trailers) (line : Bytes) :
    (trailers.addLine line).checksumValue = trailers.checksumValue.or (checksumOfLine line) := by
  unfold S3Trailers.addLine checksumOfLine
  cases splitOnce 58 (trim line) with
  | none => simp
  | some field =>
    obtain ⟨name, value⟩ := field
    dsimp only
    by_cases hname : toLowercase (trim name) ∈ checksumTrailerNames
    · rw [if_pos hname, if_pos hname]
      cases hv : trailers.checksumValue with
      | none => rfl
      | some v => exact hv
    · rw [if_neg hname, if_neg hname]
      split <;> simp

theorem foldl_addLine_checksumValue (ls : List Bytes) (trailers : S3Trailers) :
    (ls.foldl S3Trailers.addLine trailers).checksumValue
      = trailers.checksumValue.or (ls.findSome? checksumOfLine) := by
  induction ls generalizing trailers with
  | nil => simp
  | cons l ls ih =>
    rw [foldl_cons, ih, addLine_checksumValue, Option.or_assoc, List.findSome?_cons]
    cases checksumOfLine l with
    | none => simp
    | some v => simp

theorem parseS3Trailers_checksumValue {ls : List Bytes} (hls : ∀ l ∈ ls, TextLine l) :
    (parseS3Trailers (joinLines ls)).checksumValue
      = if utf8Valid (joinLines ls) then ls.findSome? checksumOfLine else none := by
  unfold parseS3Trailers
  by_cases hutf : utf8Valid (joinLines ls) = true
  · rw [if_neg (by simpa using hutf), if_pos hutf, lines_joinLines hls, foldl_addLine_checksumValue]
    rfl
  · rw [if_pos (by simpa using hutf), if_neg hutf]

/-! ## §2. Bodies with trailers -/

/-- A body in `aws-chunked` encoding: chunks, the zero-size line, trailer lines with a checksum
    among them, a blank line. -/
structure TrailedBody where
  chunks : List Chunk
  line : Bytes
  trailers : List Bytes
  value : Bytes
  readable : ∀ c ∈ chunks, c.Readable
  zero_line : SizeLine line 0
  text_lines : ∀ l ∈ trailers, TextLine l
  carried : trailers.findSome? checksumOfLine = some value

namespace TrailedBody

variable (B : TrailedBody)

def data : Bytes := dataOf B.chunks

def trailerSection : Bytes := (B.trailers.map (· ++ crlf)).flatten

def encode : Bytes := encodeChunks B.chunks ++ (B.line ++ (crlf ++ (B.trailerSection ++ crlf)))

def units : List Bytes := B.chunks.map Chunk.encode ++ [B.line ++ crlf]

theorem trailers_ne_nil : B.trailers ≠ [] := by
  intro h
  have hv := B.carried
  rw [h] at hv
  cases hv

theorem trailerSection_eq :
    B.trailerSection ++ crlf = joinLines B.trailers ++ (crlf ++ (crlf ++ [])) := by
  have hjoin : ∀ ls : List Bytes, ls ≠ [] → (ls.map (· ++ crlf)).flatten
      = joinLines ls ++ crlf := by
    intro ls
    induction ls with
    | nil => intro h; exact absurd rfl h
    | cons l ls ih =>
      intro _
      cases ls with
      | nil => simp [joinLines]
      | cons next ls =>
        have ih := ih (by simp)
        rw [map_cons, flatten_cons, ih]
        simp [joinLines]
  unfold trailerSection
  rw [hjoin B.trailers B.trailers_ne_nil]
  simp

end TrailedBody

theorem trailersSeen_eq {fragments : List Bytes} (hne : fragments ≠ []) (buffer : Bytes) :
    trailersSeen buffer fragments
      = (position (crlf ++ crlf) (buffer ++ fragments.flatten)).map fun endPos =>
          parseS3Trailers ((buffer ++ fragments.flatten).take endPos) := by
  induction fragments generalizing buffer with
  | nil => exact absurd rfl hne
  | cons f fs ih =>
    unfold trailersSeen
    rw [flatten_cons, ← append_assoc]
    cases hp : position (crlf ++ crlf) (buffer ++ f) with
    | some endPos =>
      have hle : endPos ≤ (buffer ++ f).length := by
        have := position_le hp
        omega
      rw [position_append hp]
      simp only [Option.map_some]
      rw [take_append_of_le_length hle]
    | none =>
      cases fs with
      | nil => simp [trailersSeen, hp]
      | cons g gs => exact ih (by simp) (buffer ++ f)

theorem trailersSeen_trailed (B : TrailedBody) {buffer : Bytes} {fragments : List Bytes}
    (hne : fragments ≠ []) (hbytes : buffer ++ fragments.flatten = B.trailerSection ++ crlf) :
    trailersSeen buffer fragments = some (parseS3Trailers (joinLines B.trailers)) := by
  rw [trailersSeen_eq hne, hbytes, B.trailerSection_eq,
    position_blank B.trailers_ne_nil B.text_lines, Option.map_some, take_left]

section Outcome

variable (C : Crypto) (ctx : Option ChunkSignatureContext) (prev : Option Bytes)

theorem drains_trailed (B : TrailedBody) {fragments : List Bytes}
    (hbytes : fragments.flatten = B.encode) :
    (chain C ctx prev B.chunks = none → ∃ items e,
      Drains C (payloadAt ctx prev .readingChunkSize [] [] fragments) ⟨items, .failed e⟩) ∧
    (∀ prev', chain C ctx prev B.chunks = some prev' → ∃ items,
      items.flatten = B.data ∧
      Drains C (payloadAt ctx prev .readingChunkSize [] [] fragments) ⟨items, .finished
        (if LeavesUnread 1 [] fragments B.units then some (parseS3Trailers (joinLines B.trailers))
          else none)⟩) := by
  obtain ⟨hbad, hgood⟩ := leads_chunks C ctx prev B.readable
    (show [] ++ fragments.flatten = _ from hbytes)
  refine ⟨fun hchain => ?_, fun prev' hchain => ?_⟩
  · obtain ⟨items, e, hleads⟩ := hbad hchain
    exact ⟨items, e, (drains_of_leads hleads).1 e rfl⟩
  · obtain ⟨items, b₁, fs₁, hitems, hunits, hrest, hleads⟩ := hgood prev' hchain
    obtain ⟨b₂, fs₂, hreads, hzero⟩ := leads_zero B.zero_line hrest
    -- what is unread after the zero-size line
    have hunread : 1 ≤ fs₂.length ↔ LeavesUnread 1 [] fragments B.units :=
      (hunits.append (.cons hreads .nil)).unread_iff (by omega)
    have hrest₂ : b₂ ++ fs₂.flatten = B.trailerSection ++ crlf :=
      hreads.rest (by rw [hrest, append_assoc])
    have hseen : trailersSeen b₂ fs₂ = if LeavesUnread 1 [] fragments B.units then
        some (parseS3Trailers (joinLines B.trailers)) else none := by
      by_cases hne : fs₂ = []
      · have hnot : ¬ LeavesUnread 1 [] fragments B.units := by
          intro h
          have := hunread.mpr h
          rw [hne, length_nil] at this
          omega
        rw [if_neg hnot, hne]
        rfl
      · have hpos : 1 ≤ fs₂.length := length_pos_of_ne_nil hne
        rw [if_pos (hunread.mp hpos), trailersSeen_trailed B hne hrest₂]
    refine ⟨items, hitems, ?_⟩
    rw [← hseen]
    have hall := hleads hzero
    rw [append_nil] at hall
    exact (drains_of_leads hall).2 _ rfl

end Outcome

/-! ## §3. Enforcement -/

section Enforcement

variable (K : Checksums) (C : Crypto)
  (signatureInfo : Option (ChunkSignatureContext × Option Bytes)) (header : Bytes)
    (algo : ChecksumAlgorithm) (expected : Option ChecksumValue) (B : TrailedBody)

def Kept (o : Outcome) : Prop := ∃ r, withChecksumsFull K (some header) expected o = .ok r

def TrailedBody.Right : Prop := B.value = K.base64 (K.digest algo B.data)

def HeaderRight : Prop := ∀ e, expected = some e → e = ⟨algo, K.digest algo B.data⟩

def WronglySigned : Prop :=
  chain C (signatureInfo.map Prod.fst) (signatureInfo.bind Prod.snd) B.chunks = none

/-- The value in the trailers is compared: a fragment is unread when the zero-size line was taken,
    and the trailers are valid text. -/
def Compared (fragments : List Bytes) : Prop :=
  LeavesUnread 1 [] fragments B.units ∧ utf8Valid (joinLines B.trailers) = true

/-- The value in the trailers is right or compared, or the upload is refused, but for an empty body
    with a checksum in the request header. -/
def TrailersEnforced (fragments : List Bytes) : Prop :=
  B.Right K algo ∨ WronglySigned C signatureInfo B ∨
    (¬ (B.data = [] ∧ expected.isSome) ∧ (¬ HeaderRight K algo expected B ∨ Compared B fragments))

theorem kept_trailed_iff (hheader : requestTrailerChecksumAlgorithm (some header) = .ok (some algo))
    {fragments : List Bytes} (hbytes : fragments.flatten = B.encode) :
    ∃ o, (∀ o', Drains C (.start true signatureInfo (fragments.map .ok)) o' ↔ o' = o) ∧
      (Kept K header expected o ↔ ¬ WronglySigned C signatureInfo B ∧
        ((B.data = [] ∧ expected.isSome) ∨
          ((Compared B fragments → B.Right K algo) ∧ HeaderRight K algo expected B))) := by
  obtain ⟨hbad, hgood⟩ := drains_trailed C (signatureInfo.map Prod.fst)
    (signatureInfo.bind Prod.snd) B hbytes
  have hkept : ∀ o, Kept K header expected o ↔
      ∃ r, checksumTask K (some algo) expected o.messages = .ok r := by
    intro o
    unfold Kept withChecksumsFull
    rw [hheader]
  cases hchain : chain C (signatureInfo.map Prod.fst) (signatureInfo.bind Prod.snd) B.chunks with
  | none =>
    obtain ⟨items, e, hdrains⟩ := hbad hchain
    refine ⟨_, fun o' => ⟨fun h => h.unique hdrains, fun h => h ▸ hdrains⟩, ?_⟩
    rw [hkept, checksumTask_failed]
    constructor
    · rintro ⟨r, h⟩
      cases h
    · rintro ⟨h, -⟩
      exact absurd hchain h
  | some prev' =>
    obtain ⟨items, hitems, hdrains⟩ := hgood prev' hchain
    refine ⟨_, fun o' => ⟨fun h => h.unique hdrains, fun h => h ▸ hdrains⟩, ?_⟩
    have hsigned : ¬ WronglySigned C signatureInfo B := by
      intro h
      have h : chain C _ _ B.chunks = none := h
      rw [hchain] at h
      cases h
    rw [hkept, checksumTask_finished, hitems, ChecksumTask.finish_ok_iff]
    simp only [hsigned, not_false_eq_true, true_and]
    -- what is compared is the value the trailers carry
    have hseen : (∀ v, ((if LeavesUnread 1 [] fragments B.units then
          some (parseS3Trailers (joinLines B.trailers)) else none).bind S3Trailers.checksumValue)
          = some v → v = K.base64 (K.digest algo B.data))
            ↔ (Compared B fragments → B.Right K algo) := by
      unfold Compared TrailedBody.Right
      by_cases hleft : LeavesUnread 1 [] fragments B.units
      · rw [if_pos hleft, Option.bind_some, parseS3Trailers_checksumValue B.text_lines, B.carried]
        by_cases hutf : utf8Valid (joinLines B.trailers) = true
        · simp [hleft, hutf]
        · simp [hutf]
      · simp [hleft]
    rw [hseen]
    exact Iff.rfl

/-- ★ **When the checksum in the trailers is enforced.** Every body with trailers has one outcome.
    If the upload is kept, the value in the trailers is the checksum of the decoded bytes — exactly
    under `TrailersEnforced`; and between two splits of which both meet that condition, whether the
    upload is kept does not depend on the split. -/
theorem trailer_checksum_enforced_iff
    (hheader : requestTrailerChecksumAlgorithm (some header) = .ok (some algo))
    {fragments : List Bytes} (hbytes : fragments.flatten = B.encode) :
    ∃ o, (∀ o', Drains C (.start true signatureInfo (fragments.map .ok)) o' ↔ o' = o) ∧
      ((Kept K header expected o → B.Right K algo) ↔
        TrailersEnforced K C signatureInfo algo expected B fragments) ∧
      ∀ fragments' : List Bytes, fragments'.flatten = B.encode →
        TrailersEnforced K C signatureInfo algo expected B fragments →
        TrailersEnforced K C signatureInfo algo expected B fragments' →
        ∀ o', Drains C (.start true signatureInfo (fragments'.map .ok)) o' →
          (Kept K header expected o ↔ Kept K header expected o') := by
  obtain ⟨o, huniq, hkept⟩ := kept_trailed_iff K C signatureInfo header algo expected B hheader
    hbytes
  -- the condition is enough, for any split
  have henough : ∀ {fs : List Bytes} {o : Outcome}, (Kept K header expected o ↔
      ¬ WronglySigned C signatureInfo B ∧ ((B.data = [] ∧ expected.isSome) ∨
        ((Compared B fs → B.Right K algo) ∧ HeaderRight K algo expected B))) →
      TrailersEnforced K C signatureInfo algo expected B fs → Kept K header expected o →
      B.Right K algo := by
    intro fs o hiff henf hk
    obtain ⟨hsigned, hcases⟩ := hiff.mp hk
    obtain hright | hwrong | ⟨hnonempty, hrest⟩ := henf
    · exact hright
    · exact absurd hwrong hsigned
    · obtain hempty | ⟨hcompare, hhdr⟩ := hcases
      · exact absurd hempty hnonempty
      · obtain hnot | hcompared := hrest
        · exact absurd hhdr hnot
        · exact hcompare hcompared
  refine ⟨o, huniq, ⟨fun hprop => ?_, henough hkept⟩, ?_⟩
  · by_cases hright : B.Right K algo
    · exact .inl hright
    · -- the upload is not kept: one of the reasons applies
      have hnot := mt hprop hright
      rw [hkept] at hnot
      refine .inr ?_
      by_cases hwrong : WronglySigned C signatureInfo B
      · exact .inl hwrong
      · refine .inr ⟨fun hempty => hnot ⟨hwrong, .inl hempty⟩, ?_⟩
        by_cases hhdr : HeaderRight K algo expected B
        · refine .inr (by_contra fun hcmp => hnot ⟨hwrong, .inr ⟨?_, hhdr⟩⟩)
          exact fun h => absurd h hcmp
        · exact .inl hhdr
  · intro fragments' hbytes' henf henf' o' hdrains'
    obtain ⟨o₂, huniq', hkept'⟩ :=
      kept_trailed_iff K C signatureInfo header algo expected B hheader hbytes'
    rw [(huniq' o').mp hdrains']
    -- with the right value the comparison makes no difference
    have hsame : B.Right K algo → (Kept K header expected o ↔ Kept K header expected o₂) := by
      intro hright
      rw [hkept, hkept']
      refine and_congr_right fun _ => or_congr_right (and_congr_left fun _ => ?_)
      exact ⟨fun _ _ => hright, fun _ _ => hright⟩
    constructor
    · intro hk
      exact (hsame (henough hkept henf hk)).mp hk
    · intro hk
      exact (hsame (henough hkept' henf' hk)).mpr hk

end Enforcement

/-! ## §4. A wrong checksum, in one fragment and in three -/

def sampleChecksums : Checksums where
  digest _ data := [UInt8.ofNat data.length]
  base64 := hexEncode

def sampleTrailed : TrailedBody where
  chunks := [⟨ascii "3", ascii "abc"⟩]
  line := ascii "0"
  trailers := [ascii "x-amz-checksum-crc32:AAAA"]
  value := ascii "AAAA"
  readable := by
    intro c hc
    rw [mem_singleton.mp hc]
    exact ⟨⟨by decide +kernel, by decide +kernel, by decide +kernel⟩, by decide, by decide⟩
  zero_line := ⟨by decide +kernel, by decide +kernel, by decide +kernel⟩
  text_lines := by
    intro l hl
    rw [mem_singleton.mp hl]
    exact ⟨by decide, by decide, by decide⟩
  carried := by decide +kernel

def sampleSplit : List Bytes :=
  [ascii "3\r\nabc\r\n", ascii "0\r\n", ascii "x-amz-checksum-crc32:AAAA\r\n\r\n"]

theorem trailer_checksum_enforced_sample :
    requestTrailerChecksumAlgorithm (some (ascii "x-amz-checksum-crc32")) = .ok (some .crc32) ∧
    sampleSplit.flatten = sampleTrailed.encode ∧
    ∃ o, (∀ o', Drains ⟨id, fun _ => id⟩ (.start true none (sampleSplit.map .ok)) o' ↔ o' = o) ∧
      ((Kept sampleChecksums (ascii "x-amz-checksum-crc32") none o →
          sampleTrailed.Right sampleChecksums .crc32) ↔
        TrailersEnforced sampleChecksums ⟨id, fun _ => id⟩ none .crc32 none sampleTrailed
          sampleSplit) ∧
      ∀ fragments' : List Bytes, fragments'.flatten = sampleTrailed.encode →
        TrailersEnforced sampleChecksums ⟨id, fun _ => id⟩ none .crc32 none sampleTrailed
          sampleSplit →
        TrailersEnforced sampleChecksums ⟨id, fun _ => id⟩ none .crc32 none sampleTrailed
          fragments' →
        ∀ o', Drains ⟨id, fun _ => id⟩ (.start true none (fragments'.map .ok)) o' →
          (Kept sampleChecksums (ascii "x-amz-checksum-crc32") none o ↔
            Kept sampleChecksums (ascii "x-amz-checksum-crc32") none o') :=
  ⟨by decide +kernel, by decide +kernel,
    trailer_checksum_enforced_iff sampleChecksums ⟨id, fun _ => id⟩ none
      (ascii "x-amz-checksum-crc32") .crc32 none sampleTrailed (by decide +kernel)
        (by decide +kernel)⟩

theorem wrong_checksum_depends_on_split :
    ¬ sampleTrailed.Right sampleChecksums .crc32 ∧
    Drains ⟨id, fun _ => id⟩ (.start true none [.ok sampleTrailed.encode])
      ⟨[ascii "abc"], .finished none⟩ ∧
    withChecksumsFull sampleChecksums (some (ascii "x-amz-checksum-crc32")) none
      ⟨[ascii "abc"], .finished none⟩ = .ok (some ⟨.crc32, [3]⟩) ∧
    Drains ⟨id, fun _ => id⟩ (.start true none (sampleSplit.map .ok))
      ⟨[ascii "abc"], .finished (some ⟨some (ascii "AAAA"), none⟩)⟩ ∧
    withChecksumsFull sampleChecksums (some (ascii "x-amz-checksum-crc32")) none
      ⟨[ascii "abc"], .finished (some ⟨some (ascii "AAAA"), none⟩)⟩ = .error .invalidDigest := by
  refine ⟨?_, ⟨9, by decide +kernel⟩, by decide +kernel, ⟨9, by decide +kernel⟩, by decide +kernel⟩
  show ¬ (ascii "AAAA" = hexEncode [UInt8.ofNat (dataOf [⟨ascii "3", ascii "abc"⟩]).length])
  decide +kernel

end FractalBits.Streaming
