/-
  Streaming.Framing — how the decoder reads a body, whatever the network fragments.

  A body is read as complete chunks followed by a tail: the zero-size line, a line with the
  pass-through sentinel `2^64 - 1`, a cut, or something malformed.
-/

import FractalBits.Lib.Fragments
import FractalBits.Streaming.Payload

namespace FractalBits.Streaming

open Lib S3StreamingPayload List

/-! ## §1. Readings of a body -/

structure Chunk where
  line : Bytes
  data : Bytes
  deriving DecidableEq, Repr

def Chunk.encode (c : Chunk) : Bytes := c.line ++ (crlf ++ (c.data ++ crlf))

def encodeChunks (cs : List Chunk) : Bytes := (cs.map Chunk.encode).flatten

def dataOf (cs : List Chunk) : Bytes := (cs.map Chunk.data).flatten

structure SizeLine (line : Bytes) (n : Nat) : Prop where
  one_line : position crlf line = none
  utf8 : utf8Valid line = true
  size : chunkSize line = some n

structure Chunk.Readable (c : Chunk) : Prop where
  line : SizeLine c.line c.data.length
  pos : 0 < c.data.length
  lt : c.data.length < usizeMax

inductive Tail
  | cut
  | zero (line rest : Bytes)
  | sentinel (line rest : Bytes)
  | malformed
  deriving DecidableEq, Repr

/-- The tail that starts with the line `line`; none when a complete chunk does. -/
def lineTail (line rest : Bytes) : Option Tail :=
  if ¬ utf8Valid line then some .malformed
  else match chunkSize line with
    | none => some .malformed
    | some n =>
      if n = 0 then some (.zero line rest)
      else if n = usizeMax then some (.sentinel line rest)
      else if rest.length < n + 2 ∨ (rest.drop n).take 2 ≠ crlf then some .malformed
      else none

inductive Rest : Bytes → Tail → Prop
  | cut {R : Bytes} (h : position crlf R = none) : Rest R .cut
  | line {line rest : Bytes} {t : Tail} (hline : position crlf line = none)
      (h : lineTail line rest = some t) : Rest (line ++ (crlf ++ rest)) t

def Frames (body : Bytes) (cs : List Chunk) (t : Tail) : Prop :=
  ∃ R, body = encodeChunks cs ++ R ∧ (∀ c ∈ cs, c.Readable) ∧ Rest R t

theorem encodeChunks_cons (c : Chunk) (cs : List Chunk) (R : Bytes) :
    encodeChunks (c :: cs) ++ R = c.line
      ++ (crlf ++ (c.data ++ (crlf ++ (encodeChunks cs ++ R)))) := by
  simp [encodeChunks, Chunk.encode]

theorem line_cases (body : Bytes) :
    position crlf body = none ∨
    ∃ line rest, position crlf line = none ∧ body = line ++ (crlf ++ rest) := by
  cases h : position crlf body with
  | none => exact .inl rfl
  | some i => exact .inr ⟨body.take i, body.drop (i + 2), position_take h, position_some h⟩

variable {line rest : Bytes} {t : Tail}

theorem chunkSize_le {n : Nat} (h : chunkSize line = some n) : n ≤ usizeMax := by
  unfold chunkSize fromStrRadix16 at h
  split at h
  · cases h
  · obtain ⟨-, hlt⟩ := Option.filter_eq_some_iff.mp h
    have hlt : n < 2 ^ 64 := by simpa using hlt
    unfold usizeMax
    omega

theorem SizeLine.unique {n n' : Nat} (h : SizeLine line n) (h' : SizeLine line n') :
    n = n' := by
  have := h.size.symm.trans h'.size
  injection this

theorem lineTail_some (hline : position crlf line = none)
    (h : lineTail line rest = some t) :
    (t = .malformed ∧ (utf8Valid line = false ∨ chunkSize line = none)) ∨
    (t = .zero line rest ∧ SizeLine line 0) ∨ (t = .sentinel line rest ∧ SizeLine line usizeMax) ∨
    (t = .malformed ∧ ∃ n, SizeLine line n ∧ 0 < n ∧ n < usizeMax ∧
      (rest.length < n + 2 ∨ (rest.drop n).take 2 ≠ crlf)) := by
  unfold lineTail at h
  split at h
  · next hutf =>
      injection h with h
      exact .inl ⟨h.symm, .inl (by simpa using hutf)⟩
  · next hutf =>
      have hutf : utf8Valid line = true := by simpa using hutf
      split at h
      · next hsize =>
          injection h with h
          exact .inl ⟨h.symm, .inr hsize⟩
      · next n hsize =>
          have hsl : SizeLine line n := ⟨hline, hutf, hsize⟩
          have hle := chunkSize_le hsize
          split at h
          · next hzero =>
              injection h with h
              exact .inr (.inl ⟨h.symm, hzero ▸ hsl⟩)
          · split at h
            · next hmax =>
                injection h with h
                exact .inr (.inr (.inl ⟨h.symm, hmax ▸ hsl⟩))
            · split at h
              · next hrest =>
                  injection h with h
                  exact .inr (.inr (.inr ⟨h.symm, n, hsl, by omega, by omega, hrest⟩))
              · cases h

theorem lineTail_none (hline : position crlf line = none) :
    lineTail line rest = none ↔
      ∃ data R, rest = data ++ (crlf ++ R) ∧ (Chunk.mk line data).Readable := by
  constructor
  · intro h
    unfold lineTail at h
    split at h
    · cases h
    · next hutf =>
        have hutf : utf8Valid line = true := by simpa using hutf
        split at h
        · cases h
        · next n hsize =>
            have hle := chunkSize_le hsize
            split at h
            · cases h
            · split at h
              · cases h
              · split at h
                · cases h
                · next hrest =>
                    rw [not_or, not_not, Nat.not_lt] at hrest
                    have hlen : (rest.take n).length = n := by
                      rw [length_take]
                      omega
                    refine ⟨rest.take n, rest.drop (n + 2), ?_, ?_, ?_, ?_⟩
                    · rw [← hrest.2, ← drop_drop, take_append_drop, take_append_drop]
                    · exact ⟨hline, hutf, hlen.symm ▸ hsize⟩
                    · show 0 < (rest.take n).length
                      omega
                    · show (rest.take n).length < usizeMax
                      omega
  · rintro ⟨data, R, rfl, hread⟩
    have hpos : 0 < data.length := hread.pos
    have hlt : data.length < usizeMax := hread.lt
    have hsize : chunkSize line = some data.length := hread.line.size
    have htwo : crlf.length = 2 := rfl
    have hcrlf : ((data ++ (crlf ++ R)).drop data.length).take 2 = crlf := by
      rw [drop_left, ← htwo, take_left]
    unfold lineTail
    rw [if_neg (by simp [show utf8Valid line = true from hread.line.utf8]), hsize]
    simp only
    rw [if_neg (by omega), if_neg (by omega), if_neg]
    rw [not_or, not_not]
    refine ⟨?_, hcrlf⟩
    simp only [length_append]
    omega

theorem exists_frames (body : Bytes) : ∃ cs t, Frames body cs t := by
  -- by induction on the length: a complete chunk leaves a shorter body
  induction hn : body.length using Nat.strong_induction_on generalizing body with
  | _ n ih =>
    subst hn
    rcases line_cases body with hcut | ⟨line, rest, hline, rfl⟩
    · exact ⟨[], .cut, body, rfl, by simp, .cut hcut⟩
    · cases htail : lineTail line rest with
      | some t => exact ⟨[], t, _, rfl, by simp, .line hline htail⟩
      | none =>
        obtain ⟨data, B, rfl, hread⟩ := (lineTail_none hline).mp htail
        obtain ⟨cs, t, R, rfl, hcs, ht⟩ := ih B.length (by
          simp only [length_append]
          have : crlf.length = 2 := rfl
          omega) B rfl
        refine ⟨⟨line, data⟩ :: cs, t, R, (encodeChunks_cons ⟨line, data⟩ cs R).symm, ?_, ht⟩
        intro c hc
        rcases mem_cons.mp hc with rfl | hc
        · exact hread
        · exact hcs c hc

theorem line_unique {line' rest' : Bytes} (h : position crlf line = none)
    (h' : position crlf line' = none) (heq : line ++ (crlf ++ rest) = line' ++ (crlf ++ rest')) :
    line = line' ∧ rest = rest' := by
  have hlen : line.length = line'.length := by
    have h1 := position_crlf h rest
    rw [heq, position_crlf h' rest'] at h1
    injection h1 with h1
    exact h1.symm
  obtain ⟨hline, hrest⟩ := append_inj heq hlen
  exact ⟨hline, append_cancel_left hrest⟩

theorem rest_line (hline : position crlf line = none)
    (h : Rest (line ++ (crlf ++ rest)) t) : lineTail line rest = some t := by
  generalize hB : line ++ (crlf ++ rest) = B at h
  cases h with
  | cut h =>
    rw [← hB, position_crlf hline] at h
    cases h
  | line hline' h =>
    obtain ⟨rfl, rfl⟩ := line_unique hline hline' hB
    exact h

theorem Rest.unique {R : Bytes} {t' : Tail} (h : Rest R t) (h' : Rest R t') : t = t' := by
  cases h with
  | cut h =>
    cases h' with
    | cut _ => rfl
    | line hline _ =>
      rw [position_crlf hline] at h
      cases h
  | line hline h =>
    have := rest_line hline h'
    rw [h] at this
    injection this

theorem rest_zero_iff {R : Bytes} :
    Rest R (.zero line rest) ↔ R = line ++ (crlf ++ rest) ∧ SizeLine line 0 := by
  constructor
  · intro h
    cases h with
    | line hone h =>
      obtain ⟨h, -⟩ | ⟨h, hline⟩ | ⟨h, -⟩ | ⟨h, -⟩ := lineTail_some hone h
      · cases h
      · injection h with hl hr
        subst hl hr
        exact ⟨rfl, hline⟩
      · cases h
      · cases h
  · rintro ⟨rfl, hline⟩
    refine .line hline.one_line ?_
    unfold lineTail
    rw [if_neg (by simp [hline.utf8]), hline.size]
    rfl

theorem Frames.unique {body : Bytes} {cs cs' : List Chunk} {t' : Tail} (h : Frames body cs t)
    (h' : Frames body cs' t') : cs = cs' ∧ t = t' := by
  -- a complete chunk is no tail
  have hchunk : ∀ {c : Chunk} {ds : List Chunk} {R : Bytes} {t : Tail}, c.Readable →
      ¬ Rest (encodeChunks (c :: ds) ++ R) t := by
    intro c ds R t hc hrest
    rw [encodeChunks_cons] at hrest
    have hsome := rest_line hc.line.one_line hrest
    rw [(lineTail_none hc.line.one_line).mpr ⟨c.data, _, rfl, hc⟩] at hsome
    cases hsome
  obtain ⟨R, rfl, hcs, ht⟩ := h
  obtain ⟨R', heq, hcs', ht'⟩ := h'
  induction cs generalizing cs' with
  | nil =>
    cases cs' with
    | nil => exact ⟨rfl, ht.unique ((show R = R' from heq) ▸ ht')⟩
    | cons c ds =>
      have heq : R = encodeChunks (c :: ds) ++ R' := heq
      exact absurd (heq ▸ ht) (hchunk (hcs' c mem_cons_self))
  | cons c ds ih =>
    cases cs' with
    | nil =>
      have heq : encodeChunks (c :: ds) ++ R = R' := heq
      exact absurd (heq ▸ ht') (hchunk (hcs c mem_cons_self))
    | cons c' ds' =>
      have hc := hcs c mem_cons_self
      have hc' := hcs' c' mem_cons_self
      rw [encodeChunks_cons, encodeChunks_cons] at heq
      obtain ⟨hline, hrest⟩ := line_unique hc.line.one_line hc'.line.one_line heq
      have hlen : c.data.length = c'.data.length := hc.line.unique (hline ▸ hc'.line)
      obtain ⟨hdata, hrest⟩ := append_inj hrest hlen
      obtain ⟨hds, htt⟩ := ih (fun d hd => hcs d (mem_cons_of_mem _ hd))
        (append_cancel_left hrest) (fun d hd => hcs' d (mem_cons_of_mem _ hd))
      obtain ⟨line, data⟩ := c
      obtain ⟨line', data'⟩ := c'
      have hline : line = line' := hline
      have hdata : data = data' := hdata
      rw [hline, hdata, hds, htt]
      exact ⟨rfl, rfl⟩

/-! ## §2. The machine between two lines -/

section Machine

variable {C : Crypto} {ctx : Option ChunkSignatureContext} {prev : Option Bytes}

def payloadAt (ctx : Option ChunkSignatureContext) (prev : Option Bytes) (state : S3ChunkState)
    (chunkBuffer buffer : Bytes) (fragments : List Bytes) : S3StreamingPayload where
  inner := fragments.map .ok
  state := state
  trailerBuffer := buffer
  signatureContext := ctx
  previousSignature := prev
  currentChunkBuffer := chunkBuffer

variable {line rest buffer : Bytes} {fragments : List Bytes} {remaining : Nat}

theorem leads_line (hline : position crlf line = none)
    (hbytes : buffer ++ fragments.flatten = line ++ (crlf ++ rest)) :
    ∃ buffer' fragments', ReadsFetching buffer fragments (line ++ crlf) buffer' fragments' ∧
      Leads C (payloadAt ctx prev .readingChunkSize [] buffer fragments) []
        ((payloadAt ctx prev .readingChunkSize [] buffer' fragments').takeLine line) := by
  have htwo : crlf.length = 2 := rfl
  have hpos := position_crlf hline rest
  -- a line end found in a prefix of the bytes is the one of `line`
  have hfound : ∀ {seen more : Bytes} {i : Nat}, seen ++ more = line ++ (crlf ++ rest) →
      position crlf seen = some i → seen.take i = line
        ∧ seen = (line ++ crlf) ++ seen.drop (i + 2) := by
    intro seen more i hsplit hi
    have hall := position_append hi more
    rw [hsplit, hpos] at hall
    injection hall with hall
    have hseen := position_some hi
    have htake : seen.take i = line := by
      have := congrArg (List.take line.length) hsplit
      rw [take_left] at this
      rw [← this, hall]
      have hlen : i ≤ seen.length := by
        have := position_le hi
        omega
      exact (take_append_of_le_length hlen).symm
    refine ⟨htake, ?_⟩
    rw [htake] at hseen
    rw [append_assoc]
    exact hseen
  induction fragments generalizing buffer with
  | nil =>
    simp only [flatten_nil, append_nil] at hbytes
    subst hbytes
    refine ⟨rest, [], .last (by rw [← append_assoc]; exact .here), .here ?_⟩
    have hne : line ++ (crlf ++ rest) ≠ [] := by simp [crlf]
    simp only [poll, payloadAt, pollChunkSize, map_nil,
      if_pos hne, findLine, hpos]
    rw [take_left, ← drop_drop, drop_left, ← htwo, drop_left]
  | cons f fs ih =>
    rw [flatten_cons, ← append_assoc] at hbytes
    cases hp : position crlf (buffer ++ f) with
    | some i =>
      obtain ⟨htake, hsplit⟩ := hfound hbytes hp
      refine ⟨(buffer ++ f).drop (i + 2), fs, .fetch ?_, .here ?_⟩
      · conv => arg 1; rw [hsplit]
        exact .here
      simp only [poll, payloadAt, pollChunkSize,
        map_cons, findLine, hp, htake]
    | none =>
      obtain ⟨b', fs', hb', hleads⟩ := ih hbytes
      have hshort : (buffer ++ f).length < (line ++ crlf).length := by
        refine Nat.lt_of_not_le fun hle => ?_
        have htake := congrArg (List.take (line ++ crlf).length) hbytes
        rw [take_append_of_le_length hle, ← append_assoc, take_left] at htake
        rw [← take_append_drop (line ++ crlf).length (buffer ++ f), htake, append_assoc,
          position_crlf hline] at hp
        cases hp
      refine ⟨b', fs', .fetch (hb'.reads hshort), .again ?_ hleads⟩
      simp only [poll, payloadAt, pollChunkSize,
        map_cons, findLine, hp]

theorem leads_cut (h : position crlf (buffer ++ fragments.flatten) = none) :
    Leads C (payloadAt ctx prev .readingChunkSize [] buffer fragments) [] (.finish none) := by
  induction fragments generalizing buffer with
  | nil =>
    simp only [flatten_nil, append_nil] at h
    by_cases hne : buffer = []
    · subst hne
      exact .here rfl
    · have hstep : (payloadAt ctx prev .readingChunkSize [] buffer []).poll C
          = .again (payloadAt ctx prev .readingTrailers [] buffer []) := by
        simp only [poll, payloadAt, pollChunkSize,
          map_nil, ne_eq, hne, not_false_eq_true, if_true, findLine, h]
      exact .again hstep (.here rfl)
  | cons f fs ih =>
    rw [flatten_cons, ← append_assoc] at h
    have hp : position crlf (buffer ++ f) = none := by
      cases hp : position crlf (buffer ++ f) with
      | none => rfl
      | some i =>
        rw [position_append hp] at h
        cases h
    refine .again ?_ (ih h)
    simp only [poll, payloadAt, pollChunkSize,
      map_cons, findLine, hp]

def chunkBufferAfter (ctx : Option ChunkSignatureContext) (chunkBuffer data : Bytes) : Bytes :=
  if ctx.isSome then chunkBuffer ++ data else chunkBuffer

theorem chunkBufferAfter_append (ctx : Option ChunkSignatureContext) (b x y : Bytes) :
    chunkBufferAfter ctx (chunkBufferAfter ctx b x) y = chunkBufferAfter ctx b (x ++ y) := by
  unfold chunkBufferAfter
  split
  · rw [append_assoc]
  · rfl

theorem min_slices (remaining : Nat) (bytes : Bytes) :
    bytes.take (min remaining bytes.length) = bytes.take remaining ∧
    bytes.drop (min remaining bytes.length) = bytes.drop remaining ∧
    remaining - (bytes.take remaining).length = remaining - bytes.length := by
  refine ⟨take_eq_take_min.symm, ?_, ?_⟩
  · rcases Nat.le_total remaining bytes.length with h | h
    · rw [Nat.min_eq_left h]
    · rw [Nat.min_eq_right h, drop_length, drop_eq_nil_of_le h]
  · rw [length_take]
    omega

section

variable (C ctx prev) (sig : Option ChunkSignature)

theorem poll_data_fragment (chunkBuffer f : Bytes)
    (fs : List Bytes) (hpos : 0 < remaining) (hlt : remaining < usizeMax) :
    (payloadAt ctx prev (.readingChunkData remaining sig) chunkBuffer [] (f :: fs)).poll C
      = .item (f.take remaining) (payloadAt ctx prev
          (.readingChunkData (remaining - f.length) sig)
          (chunkBufferAfter ctx chunkBuffer (f.take remaining)) (f.drop remaining) fs) := by
  obtain ⟨htake, hdrop, hrem⟩ := min_slices remaining f
  simp only [poll, payloadAt, pollChunkData,
    if_neg (Nat.ne_of_lt hlt), if_neg (Nat.ne_of_gt hpos), ne_eq, not_true_eq_false, if_false,
    map_cons, yieldData, htake, hdrop, hrem, chunkBufferAfter, nil_append]

theorem poll_data_buffer (chunkBuffer : Bytes)
    {buffer : Bytes} (fs : List Bytes) (hpos : 0 < remaining) (hlt : remaining < usizeMax)
    (hne : buffer ≠ []) :
    (payloadAt ctx prev (.readingChunkData remaining sig) chunkBuffer buffer fs).poll C
      = (payloadAt ctx prev (.readingChunkData remaining sig) chunkBuffer [] (buffer :: fs)).poll
        C := by
  obtain ⟨htake, hdrop, hrem⟩ := min_slices remaining buffer
  rw [poll_data_fragment C ctx prev sig chunkBuffer buffer fs hpos hlt]
  simp only [poll, payloadAt, pollChunkData,
    if_neg (Nat.ne_of_lt hlt), if_neg (Nat.ne_of_gt hpos), if_pos hne, yieldData,
    htake, hdrop, hrem, chunkBufferAfter]

theorem poll_data_end (chunkBuffer buffer : Bytes) (fs : List Bytes) :
    (payloadAt ctx prev (.readingChunkData 0 sig) chunkBuffer buffer fs).poll C
      = (payloadAt ctx prev (.readingChunkData 0 sig) chunkBuffer buffer fs).endChunk C sig := by
  have hmax : (0 : Nat) ≠ usizeMax := by decide
  simp only [poll, payloadAt, pollChunkData, if_neg hmax,
    if_true]

theorem leads_data_fragments (fragments : List Bytes) (remaining : Nat)
    (chunkBuffer : Bytes) (hlt : remaining < usizeMax) :
    (remaining ≤ fragments.flatten.length → ∃ items buffer' fragments',
      items.flatten = fragments.flatten.take remaining ∧
      Reads [] fragments (fragments.flatten.take remaining) buffer' fragments' ∧
      Leads C (payloadAt ctx prev (.readingChunkData remaining sig) chunkBuffer [] fragments) items
        ((payloadAt ctx prev (.readingChunkData 0 sig)
          (chunkBufferAfter ctx chunkBuffer (fragments.flatten.take remaining))
          buffer' fragments').endChunk C sig)) ∧
    (fragments.flatten.length < remaining → ∃ items,
      Leads C (payloadAt ctx prev (.readingChunkData remaining sig) chunkBuffer [] fragments) items
        (.error .incomplete)) := by
  induction fragments generalizing remaining chunkBuffer with
  | nil =>
    refine ⟨fun hle => ?_, fun hgt => ⟨[], .here ?_⟩⟩
    · have hzero : remaining = 0 := by simpa using hle
      subst hzero
      refine ⟨[], [], [], rfl, .nil, .here ?_⟩
      rw [poll_data_end]
      simp [chunkBufferAfter]
    · have hpos : 0 < remaining := by simpa using hgt
      simp only [poll, payloadAt, pollChunkData,
        if_neg (Nat.ne_of_lt hlt), if_neg (Nat.ne_of_gt hpos), ne_eq, not_true_eq_false, if_false,
        map_nil]
  | cons f fs ih =>
    rcases Nat.eq_zero_or_pos remaining with rfl | hpos
    · refine ⟨fun _ => ⟨[], [], f :: fs, by simp, by rw [take_zero]; exact .nil, .here ?_⟩,
        fun hgt => by omega⟩
      rw [poll_data_end]
      simp [chunkBufferAfter]
    · have hpoll := poll_data_fragment C ctx prev sig chunkBuffer f fs hpos hlt
      rcases Nat.lt_or_ge f.length remaining with hshort | hlong
      · -- the fragment is used up
        have htake : f.take remaining = f := take_of_length_le (by omega)
        have hdrop : f.drop remaining = [] := drop_eq_nil_of_le (by omega)
        rw [htake, hdrop] at hpoll
        obtain ⟨henough, hfew⟩ := ih (remaining - f.length) (chunkBufferAfter ctx chunkBuffer f)
          (by omega)
        have hflat : (f :: fs).flatten.take remaining = f ++ fs.flatten.take
          (remaining - f.length) := by
          rw [flatten_cons, take_append, htake]
        have hlen : (f :: fs).flatten.length = f.length + fs.flatten.length := by
          rw [flatten_cons, length_append]
        refine ⟨fun hle => ?_, fun hgt => ?_⟩
        · obtain ⟨items, b', fs', hitems, hb', hleads⟩ := henough (by omega)
          have hreads : Reads [] (f :: fs) ((f :: fs).flatten.take remaining) b' fs' := by
            refine .more ?_ ?_
            · rw [length_take, length_nil]
              omega
            · rw [nil_append, hflat]
              simpa using hb'.after f
          rw [chunkBufferAfter_append, ← hflat] at hleads
          exact ⟨f :: items, b', fs', by rw [flatten_cons, hitems, hflat], hreads,
            .item hpoll hleads⟩
        · obtain ⟨items, hleads⟩ := hfew (by omega)
          exact ⟨f :: items, .item hpoll hleads⟩
      · -- the chunk ends inside the fragment
        have hzero : remaining - f.length = 0 := by omega
        rw [hzero] at hpoll
        have hflat : (f :: fs).flatten.take remaining = f.take remaining := by
          rw [flatten_cons, take_append_of_le_length hlong]
        refine ⟨fun _ => ⟨[f.take remaining], f.drop remaining, fs, ?_, ?_, ?_⟩, fun hgt => ?_⟩
        · rw [hflat]
          simp
        · rw [hflat]
          refine .more ?_ ?_
          · rw [length_take, length_nil]
            omega
          · rw [nil_append]
            conv => arg 1; rw [← take_append_drop remaining f]
            exact .here
        · rw [hflat]
          exact .item hpoll (.here (poll_data_end ..))
        · rw [flatten_cons, length_append] at hgt
          omega

end

theorem leads_data (sig : Option ChunkSignature) (hpos : 0 < remaining) (hlt : remaining < usizeMax)
    {data : Bytes} (hbytes : buffer ++ fragments.flatten = data ++ rest)
    (hdata : data.length = remaining) :
    ∃ items buffer' fragments', items.flatten = data ∧
      Reads buffer fragments data buffer' fragments' ∧
      Leads C (payloadAt ctx prev (.readingChunkData remaining sig) [] buffer fragments) items
        ((payloadAt ctx prev (.readingChunkData 0 sig) (chunkBufferAfter ctx [] data)
          buffer' fragments').endChunk C sig) := by
  have htake : (data ++ rest).take remaining = data := by rw [← hdata, take_left]
  have hlen : remaining ≤ (data ++ rest).length := by rw [length_append]; omega
  by_cases hne : buffer = []
  · subst hne
    rw [nil_append] at hbytes
    have hfs := (leads_data_fragments C ctx prev sig fragments remaining [] hlt).1
    rw [hbytes, htake] at hfs
    exact hfs hlen
  · have hfs := (leads_data_fragments C ctx prev sig (buffer :: fragments) remaining [] hlt).1
    rw [flatten_cons, hbytes, htake] at hfs
    obtain ⟨items, b', fs', hitems, hb', hleads⟩ := hfs hlen
    refine ⟨items, b', fs', hitems, ?_, hleads.congr (poll_data_buffer C ctx prev sig [] fragments
      hpos hlt hne)⟩
    exact hb'.of_cons (by omega)

theorem leads_data_incomplete (sig : Option ChunkSignature) (hlt : remaining < usizeMax)
    (hbytes : (buffer ++ fragments.flatten).length < remaining) :
    ∃ items, Leads C (payloadAt ctx prev (.readingChunkData remaining sig) [] buffer fragments)
      items (.error .incomplete) := by
  by_cases hne : buffer = []
  · subst hne
    exact (leads_data_fragments C ctx prev sig fragments remaining [] hlt).2 hbytes
  · obtain ⟨items, hleads⟩ :=
      (leads_data_fragments C ctx prev sig (buffer :: fragments) remaining [] hlt).2
      (by rwa [flatten_cons])
    exact ⟨items, hleads.congr (poll_data_buffer C ctx prev sig [] fragments (by omega) hlt hne)⟩

theorem leads_chunkEnd {bytes : Bytes} (hbytes : buffer ++ fragments.flatten = bytes) :
    (bytes.length < 2 ∨ bytes.take 2 ≠ crlf → ∃ e,
      Leads C (payloadAt ctx prev .readingChunkEnd [] buffer fragments) [] (.error e)) ∧
    (∀ rest, bytes = crlf ++ rest → ∃ buffer' fragments',
      Reads buffer fragments crlf buffer' fragments' ∧
      Leads C (payloadAt ctx prev .readingChunkEnd [] buffer fragments) []
        (.again (payloadAt ctx prev .readingChunkSize [] buffer' fragments'))) := by
  have htwo : crlf.length = 2 := rfl
  -- once two bytes are buffered the end is decided
  have hdecide : ∀ (b : Bytes) (fs : List Bytes), 2 ≤ b.length → b ++ fs.flatten = bytes →
      (bytes.length < 2 ∨ bytes.take 2 ≠ crlf →
        (payloadAt ctx prev .readingChunkEnd [] b fs).takeChunkEnd = .error .encodingCorrupted) ∧
      (∀ rest, bytes = crlf ++ rest → Reads b fs crlf (b.drop 2) fs ∧
        (payloadAt ctx prev .readingChunkEnd [] b fs).takeChunkEnd
          = .again (payloadAt ctx prev .readingChunkSize [] (b.drop 2) fs)) := by
    intro b fs hb hsplit
    have htake : b.take 2 = bytes.take 2 := by
      rw [← hsplit, take_append_of_le_length hb]
    refine ⟨fun hbad => ?_, fun rest hrest => ?_⟩
    · have hne : b.take 2 ≠ crlf := by
        rcases hbad with hshort | hne
        · rw [← hsplit, length_append] at hshort
          omega
        · rw [htake]
          exact hne
      simp only [takeChunkEnd, payloadAt, ge_iff_le, if_pos hb]
      exact if_pos hne
    · have heq : b.take 2 = crlf := by rw [htake, hrest, ← htwo, take_left]
      refine ⟨?_, ?_⟩
      · conv => arg 1; rw [← take_append_drop 2 b, heq]
        exact .here
      · simp only [takeChunkEnd, payloadAt, ge_iff_le, if_pos hb, heq, ne_eq,
          not_true_eq_false, if_false]
  induction fragments generalizing buffer with
  | nil =>
    by_cases hb : buffer.length < 2
    · have herr : (payloadAt ctx prev .readingChunkEnd [] buffer []).poll C = .error
        .incomplete := by
        simp only [poll, payloadAt, pollChunkEnd, if_pos hb,
          map_nil]
      refine ⟨fun _ => ⟨_, .here herr⟩, fun rest hrest => ?_⟩
      simp only [flatten_nil, append_nil] at hbytes
      rw [hbytes, hrest, length_append] at hb
      omega
    · have hpoll : (payloadAt ctx prev .readingChunkEnd [] buffer []).poll C
          = (payloadAt ctx prev .readingChunkEnd [] buffer []).takeChunkEnd := by
        simp only [poll, payloadAt, pollChunkEnd]
        exact if_neg hb
      obtain ⟨hbad, hgood⟩ := hdecide buffer [] (by omega) hbytes
      refine ⟨fun h => ⟨_, .here (hpoll.trans (hbad h))⟩, fun rest hrest => ?_⟩
      exact ⟨_, _, (hgood rest hrest).1, .here (hpoll.trans (hgood rest hrest).2)⟩
  | cons f fs ih =>
    by_cases hb : buffer.length < 2
    · have hpoll : (payloadAt ctx prev .readingChunkEnd [] buffer (f :: fs)).poll C
          = (payloadAt ctx prev .readingChunkEnd [] (buffer ++ f) fs).takeChunkEnd := by
        simp only [poll, payloadAt, pollChunkEnd, if_pos hb,
          map_cons]
      have hsplit : (buffer ++ f) ++ fs.flatten = bytes := by
        rw [append_assoc, ← flatten_cons]
        exact hbytes
      by_cases hbf : 2 ≤ (buffer ++ f).length
      · obtain ⟨hbad, hgood⟩ := hdecide (buffer ++ f) fs hbf hsplit
        refine ⟨fun h => ⟨_, .here (hpoll.trans (hbad h))⟩, fun rest hrest => ?_⟩
        exact ⟨_, _, .more hb (hgood rest hrest).1, .here (hpoll.trans (hgood rest hrest).2)⟩
      · -- still not enough: the same state with one fragment less
        have hagain : (payloadAt ctx prev .readingChunkEnd [] (buffer ++ f) fs).takeChunkEnd
            = .again (payloadAt ctx prev .readingChunkEnd [] (buffer ++ f) fs) := by
          simp only [takeChunkEnd, payloadAt, ge_iff_le, if_neg hbf]
        obtain ⟨hbad, hgood⟩ := ih hsplit
        refine ⟨fun h => ?_, fun rest hrest => ?_⟩
        · obtain ⟨e, hleads⟩ := hbad h
          exact ⟨e, .again (hpoll.trans hagain) hleads⟩
        · obtain ⟨b', fs', hb', hleads⟩ := hgood rest hrest
          exact ⟨b', fs', .more hb hb', .again (hpoll.trans hagain) hleads⟩
    · have hpoll : (payloadAt ctx prev .readingChunkEnd [] buffer (f :: fs)).poll C
          = (payloadAt ctx prev .readingChunkEnd [] buffer (f :: fs)).takeChunkEnd := by
        simp only [poll, payloadAt, pollChunkEnd]
        exact if_neg hb
      obtain ⟨hbad, hgood⟩ := hdecide buffer (f :: fs) (by omega) hbytes
      refine ⟨fun h => ⟨_, .here (hpoll.trans (hbad h))⟩, fun rest hrest => ?_⟩
      exact ⟨_, _, (hgood rest hrest).1, .here (hpoll.trans (hgood rest hrest).2)⟩

/-! ## §3. Chains of chunks -/

/-- The signature the next chunk is chained to. None: the chunk's signature is wrong. Without a
    context, a signature or a previous one nothing is checked. -/
def chainStep (C : Crypto) (ctx : Option ChunkSignatureContext) (prev : Option Bytes) (c : Chunk) :
    Option (Option Bytes) :=
  match ctx, parseChunkSignature c.line, prev with
  | some context, some sig, some previous =>
    match verifyChunkSignature C context sig previous c.data with
    | .error _ => none
    | .ok () => some (some sig.signature)
  | _, _, _ => some prev

def chain (C : Crypto) (ctx : Option ChunkSignatureContext) (prev : Option Bytes) :
    List Chunk → Option (Option Bytes)
  | [] => some prev
  | c :: cs => (chainStep C ctx prev c).bind fun prev => chain C ctx prev cs

variable (C ctx prev) in
theorem endChunk_eq (c : Chunk) (buffer : Bytes) (fragments : List Bytes) :
    (payloadAt ctx prev (.readingChunkData 0 (parseChunkSignature c.line))
      (chunkBufferAfter ctx [] c.data) buffer fragments).endChunk C (parseChunkSignature c.line)
      = match chainStep C ctx prev c with
        | none => .error .encodingCorrupted
        | some prev' => .again (payloadAt ctx prev' .readingChunkEnd [] buffer fragments) := by
  unfold endChunk chainStep payloadAt chunkBufferAfter
  cases ctx with
  | none => rfl
  | some context =>
    cases parseChunkSignature c.line with
    | none => rfl
    | some sig =>
      cases prev with
      | none => rfl
      | some previous =>
        simp only [Option.isSome_some, if_true, nil_append]
        cases verifyChunkSignature C context sig previous c.data with
        | error e => rfl
        | ok u => rfl

theorem takeLine_size {n : Nat} (hline : SizeLine line n) (hpos : 0 < n) (buffer : Bytes)
    (fragments : List Bytes) :
    (payloadAt ctx prev .readingChunkSize [] buffer fragments).takeLine line
      = .again (payloadAt ctx prev (.readingChunkData n (parseChunkSignature line)) [] buffer
        fragments) := by
  unfold takeLine
  rw [if_neg (by simp [hline.utf8]), hline.size]
  cases n with
  | zero => omega
  | succ n => rfl

theorem leads_chunk {c : Chunk} (hc : c.Readable)
    (hbytes : buffer ++ fragments.flatten = c.encode ++ rest) :
    (chainStep C ctx prev c = none → ∃ items e,
      Leads C (payloadAt ctx prev .readingChunkSize [] buffer fragments) items (.error e)) ∧
    (∀ prev', chainStep C ctx prev c = some prev' → ∃ items buffer' fragments',
      items.flatten = c.data ∧ ReadsFetching buffer fragments c.encode buffer' fragments' ∧
      Leads C (payloadAt ctx prev .readingChunkSize [] buffer fragments) items
        (.again (payloadAt ctx prev' .readingChunkSize [] buffer' fragments'))) := by
  -- the line
  have hline : buffer ++ fragments.flatten = c.line ++ (crlf ++ (c.data ++ (crlf ++ rest))) := by
    rw [hbytes]
    simp [Chunk.encode]
  obtain ⟨b₁, fs₁, hreads₁, hleads₁⟩ := leads_line hc.line.one_line hline
  rw [takeLine_size hc.line hc.pos] at hleads₁
  have hrest₁ : b₁ ++ fs₁.flatten = c.data ++ (crlf ++ rest) :=
    hreads₁.rest (by rw [hline, append_assoc])
  -- the data
  obtain ⟨items, b₂, fs₂, hitems, hreads₂, hleads₂⟩ := leads_data (parseChunkSignature c.line)
    hc.pos hc.lt hrest₁ rfl
  rw [endChunk_eq] at hleads₂
  have hrest₂ : b₂ ++ fs₂.flatten = crlf ++ rest := hreads₂.rest hrest₁
  refine ⟨fun hstep => ?_, fun prev' hstep => ?_⟩
  · rw [hstep] at hleads₂
    exact ⟨_, _, hleads₁.trans hleads₂⟩
  · rw [hstep] at hleads₂
    -- the line end after the data
    obtain ⟨b₃, fs₃, hreads₃, hleads₃⟩ :=
      (leads_chunkEnd hrest₂).2 rest rfl
    refine ⟨items, b₃, fs₃, hitems, ?_, ?_⟩
    · have hreads := (hreads₁.trans hreads₂).trans hreads₃
      simpa [Chunk.encode] using hreads
    · simpa using (hleads₁.trans hleads₂).trans hleads₃

variable (C ctx prev) in
theorem leads_chunks {cs : List Chunk} (hcs : ∀ c ∈ cs, c.Readable)
    (hbytes : buffer ++ fragments.flatten = encodeChunks cs ++ rest) :
    (chain C ctx prev cs = none → ∃ items e,
      Leads C (payloadAt ctx prev .readingChunkSize [] buffer fragments) items (.error e)) ∧
    (∀ prev', chain C ctx prev cs = some prev' → ∃ items buffer' fragments',
      items.flatten = dataOf cs ∧ ReadsUnits buffer fragments (cs.map Chunk.encode) buffer'
        fragments' ∧
      buffer' ++ fragments'.flatten = rest ∧
      ∀ {items' r}, Leads C (payloadAt ctx prev' .readingChunkSize [] buffer' fragments') items' r →
        Leads C (payloadAt ctx prev .readingChunkSize [] buffer fragments) (items ++ items')
          r) := by
  induction cs generalizing prev fragments buffer with
  | nil =>
    refine ⟨fun h => (by cases h), fun prev' h => ?_⟩
    injection h with h
    subst h
    exact ⟨[], buffer, fragments, rfl, .nil, hbytes, fun hleads => hleads⟩
  | cons c cs ih =>
    have hbytes : buffer ++ fragments.flatten = c.encode ++ (encodeChunks cs ++ rest) := by
      rw [hbytes]
      simp [encodeChunks]
    obtain ⟨hbad, hgood⟩ := leads_chunk (hcs c mem_cons_self) hbytes
    unfold chain
    cases hstep : chainStep C ctx prev c with
    | none => exact ⟨fun _ => hbad hstep, fun prev' h => by cases h⟩
    | some prev₁ =>
      obtain ⟨items, b₁, fs₁, hitems, hreads, hleads⟩ := hgood prev₁ hstep
      obtain ⟨ihbad, ihgood⟩ := ih prev₁ (fun d hd => hcs d (mem_cons_of_mem _ hd))
        (hreads.rest hbytes)
      refine ⟨fun h => ?_, fun prev' h => ?_⟩
      · obtain ⟨items', e, hleads'⟩ := ihbad h
        exact ⟨_, e, hleads.trans hleads'⟩
      · obtain ⟨items', b', fs', hitems', hreads', hrest', hleads'⟩ := ihgood prev' h
        refine ⟨items ++ items', b', fs', ?_, .cons hreads hreads', hrest', fun hl => ?_⟩
        · rw [flatten_append, hitems, hitems']
          simp [dataOf]
        · rw [append_assoc]
          exact hleads.trans (hleads' hl)

/-! ## §4. Tails -/

/-- The trailers that are found. The buffer is searched only after a fragment was fetched. -/
def trailersSeen (buffer : Bytes) : List Bytes → Option S3Trailers
  | [] => none
  | f :: fs =>
    match position (crlf ++ crlf) (buffer ++ f) with
    | some endPos => some (parseS3Trailers ((buffer ++ f).take endPos))
    | none => trailersSeen (buffer ++ f) fs

theorem leads_trailers :
    Leads C (payloadAt ctx prev .readingTrailers [] buffer fragments) []
      (.finish (trailersSeen buffer fragments)) := by
  induction fragments generalizing buffer with
  | nil => exact .here rfl
  | cons f fs ih =>
    unfold trailersSeen
    cases hp : position (crlf ++ crlf) (buffer ++ f) with
    | some endPos =>
      refine .here ?_
      simp only [poll, payloadAt, pollTrailers,
        map_cons, hp]
    | none =>
      refine .again ?_ ih
      simp only [poll, payloadAt, pollTrailers,
        map_cons, hp]

theorem leads_zero (hline : SizeLine line 0)
    (hbytes : buffer ++ fragments.flatten = line ++ (crlf ++ rest)) :
    ∃ buffer' fragments', ReadsFetching buffer fragments (line ++ crlf) buffer' fragments' ∧
      Leads C (payloadAt ctx prev .readingChunkSize [] buffer fragments) []
        (.finish (trailersSeen buffer' fragments')) := by
  obtain ⟨b', fs', hreads, hleads⟩ := leads_line hline.one_line hbytes
  have htake : (payloadAt ctx prev .readingChunkSize [] b' fs').takeLine line
      = .again (payloadAt ctx prev .readingTrailers [] b' fs') := by
    unfold takeLine
    rw [if_neg (by simp [hline.utf8]), hline.size]
    rfl
  rw [htake] at hleads
  exact ⟨b', fs', hreads, hleads.trans (leads_trailers)⟩

theorem leads_passThrough {sig : Option ChunkSignature} {chunkBuffer : Bytes} :
    Leads C (payloadAt ctx prev (.readingChunkData usizeMax sig) chunkBuffer buffer fragments)
      fragments (.finish none) := by
  induction fragments with
  | nil => exact .here rfl
  | cons f fs ih => exact .item rfl ih

theorem leads_sentinel (hline : SizeLine line usizeMax)
    (hbytes : buffer ++ fragments.flatten = line ++ (crlf ++ rest)) :
    ∃ items, Leads C (payloadAt ctx prev .readingChunkSize [] buffer fragments) items
      (.finish none) := by
  obtain ⟨b', fs', -, hleads⟩ := leads_line hline.one_line hbytes
  rw [takeLine_size hline (by decide)] at hleads
  exact ⟨_, hleads.trans (leads_passThrough)⟩

theorem leads_malformed (hone : position crlf line = none)
    (htail : lineTail line rest = some .malformed)
    (hbytes : buffer ++ fragments.flatten = line ++ (crlf ++ rest)) :
    ∃ items e, Leads C (payloadAt ctx prev .readingChunkSize [] buffer fragments) items
      (.error e) := by
  obtain ⟨b₁, fs₁, hreads₁, hleads₁⟩ := leads_line hone hbytes
  have hrest₁ : b₁ ++ fs₁.flatten = rest := hreads₁.rest (by rw [hbytes, append_assoc])
  obtain ⟨-, hline⟩ | ⟨h, -⟩ | ⟨h, -⟩ | ⟨-, n, hline, hpos, hlt, hrest⟩ := lineTail_some hone htail
  · -- no size can be read
    refine ⟨[], .encodingCorrupted, ?_⟩
    have htake : (payloadAt ctx prev .readingChunkSize [] b₁ fs₁).takeLine line
        = .error .encodingCorrupted := by
      unfold takeLine
      split
      · rfl
      · next hutf =>
          rcases hline with hline | hline
          · exact absurd hline (by simpa using hutf)
          · rw [hline]
    rwa [htake] at hleads₁
  · cases h
  · cases h
  · rw [takeLine_size hline hpos] at hleads₁
    rcases Nat.lt_or_ge rest.length n with hshort | hlong
    · -- the data ends early
      obtain ⟨items, hleads₂⟩ := leads_data_incomplete (parseChunkSignature line) hlt
        (by rw [hrest₁]; exact hshort)
      exact ⟨_, _, hleads₁.trans hleads₂⟩
    · -- the data is there but its line end is not
      have hdata : (rest.take n).length = n := by
        rw [length_take]
        omega
      obtain ⟨items, b₂, fs₂, -, hreads₂, hleads₂⟩ := leads_data (parseChunkSignature line) hpos hlt
        (by rw [hrest₁, take_append_drop] : _ = rest.take n ++ rest.drop n) hdata
      have hrest₂ : b₂ ++ fs₂.flatten = rest.drop n :=
        hreads₂.rest (by rw [hrest₁, take_append_drop])
      have hend := endChunk_eq C ctx prev ⟨line, rest.take n⟩ b₂ fs₂
      simp only at hend
      rw [hend] at hleads₂
      cases hstep : chainStep C ctx prev ⟨line, rest.take n⟩ with
      | none =>
        rw [hstep] at hleads₂
        exact ⟨_, _, hleads₁.trans hleads₂⟩
      | some prev' =>
        rw [hstep] at hleads₂
        have hbad : (rest.drop n).length < 2 ∨ (rest.drop n).take 2 ≠ crlf := by
          rw [length_drop]
          rcases hrest with hrest | hrest
          · exact .inl (by omega)
          · exact .inr hrest
        obtain ⟨e, hleads₃⟩ :=
          (leads_chunkEnd hrest₂).1 hbad
        exact ⟨_, e, (hleads₁.trans hleads₂).trans hleads₃⟩

theorem leads_tail {R : Bytes} {t : Tail} (ht : Rest R t)
    (hbytes : buffer ++ fragments.flatten = R) :
    (t = .malformed → ∃ items e,
      Leads C (payloadAt ctx prev .readingChunkSize [] buffer fragments) items (.error e)) ∧
    (t ≠ .malformed → ∃ items trailers,
      Leads C (payloadAt ctx prev .readingChunkSize [] buffer fragments) items (.finish trailers) ∧
      ((∀ line rest, t ≠ .sentinel line rest) → items = [])) := by
  cases ht with
  | cut h =>
    refine ⟨fun h => (by cases h), fun _ => ⟨[], none, leads_cut ?_, fun _ => rfl⟩⟩
    rw [hbytes]
    exact h
  | @line line rest _ hone h =>
    refine ⟨fun hmal => leads_malformed hone (hmal ▸ h) hbytes, fun hne => ?_⟩
    obtain ⟨ht, -⟩ | ⟨rfl, hline⟩ | ⟨rfl, hline⟩ | ⟨ht, -⟩ := lineTail_some hone h
    · exact absurd ht hne
    · obtain ⟨b', fs', -, hleads⟩ := leads_zero hline hbytes
      exact ⟨[], _, hleads, fun _ => rfl⟩
    · obtain ⟨items, hleads⟩ := leads_sentinel hline hbytes
      exact ⟨items, none, hleads, fun hns => absurd rfl (hns line rest)⟩
    · exact absurd ht hne

variable (C ctx prev) in
/-- ★ **Acceptance depends on the reading of the body only**: the signatures that are checked must
    be right and the tail must not be malformed. Without a sentinel the yielded bytes are the data
    of the complete chunks. -/
theorem drains_frames {cs : List Chunk} {t : Tail}
    (h : Frames fragments.flatten cs t) :
    ∃ o, Drains C (payloadAt ctx prev .readingChunkSize [] [] fragments) o ∧
      (o.Accepted ↔ (chain C ctx prev cs).isSome ∧ t ≠ .malformed) ∧
      (o.Accepted → (∀ line rest, t ≠ .sentinel line rest) → o.items.flatten = dataOf cs) := by
  obtain ⟨R, hbody, hcs, ht⟩ := h
  obtain ⟨hbad, hgood⟩ := leads_chunks C ctx prev hcs (show [] ++ fragments.flatten = _ from hbody)
  have hfailed : ∀ {items : List Bytes} {e : PayloadError},
    ¬ (Outcome.mk items (.failed e)).Accepted := by
    rintro items e ⟨t, ht⟩
    cases ht
  cases hchain : chain C ctx prev cs with
  | none =>
    obtain ⟨items, e, hleads⟩ := hbad hchain
    refine ⟨_, (drains_of_leads hleads).1 e rfl, ⟨fun h => absurd h hfailed, ?_⟩,
      fun h => absurd h hfailed⟩
    rintro ⟨h, -⟩
    cases h
  | some prev' =>
    obtain ⟨items, b', fs', hitems, -, hrest, hleads⟩ := hgood prev' hchain
    obtain ⟨hmal, hfine⟩ := leads_tail ht hrest
    by_cases hm : t = .malformed
    · obtain ⟨items', e, hl⟩ := hmal hm
      refine ⟨_, (drains_of_leads (hleads hl)).1 e rfl, ⟨fun h => absurd h hfailed, ?_⟩,
        fun h => absurd h hfailed⟩
      rintro ⟨-, h⟩
      exact absurd hm h
    · obtain ⟨items', tr, hl, hnone⟩ := hfine hm
      refine ⟨_, (drains_of_leads (hleads hl)).2 tr rfl, ⟨fun _ => ⟨rfl, hm⟩, fun _ => ⟨tr, rfl⟩⟩,
        ?_⟩
      intro _ hns
      rw [hnone hns, append_nil]
      exact hitems

end Machine

theorem drains_unframed (C : Crypto) (signatureInfo : Option (ChunkSignatureContext × Option Bytes))
    (fragments : List Bytes) :
    Drains C (.start false signatureInfo (fragments.map .ok)) ⟨fragments, .finished none⟩ :=
  (drains_of_leads leads_passThrough).2 none rfl

end FractalBits.Streaming
