/-
  Streaming.Complete — which bodies the decoder accepts, against the grammar of `aws-chunked`.
-/

import FractalBits.Streaming.Framing

namespace FractalBits.Streaming

open Lib List

/-! ## §1. The grammar -/

def sizeField (line : Bytes) : Bytes := trim (beforeFirst 59 line)

def plainSize (line : Bytes) : Option Nat :=
  if (sizeField line).isEmpty then none else hexValueFrom 0 (sizeField line)

structure WellFormedLine (line : Bytes) (n : Nat) : Prop where
  one_line : position crlf line = none
  size : plainSize line = some n

/-- **A well-formed body**: chunks of exactly the size their line says, then a zero-size line;
    `yielded` is the data of the chunks. -/
def WellFormedBody (body yielded : Bytes) : Prop :=
  ∃ cs line rest, body = encodeChunks cs ++ (line ++ (crlf ++ rest)) ∧
    (∀ c ∈ cs, WellFormedLine c.line c.data.length ∧ 0 < c.data.length) ∧
    WellFormedLine line 0 ∧ yielded = dataOf cs

def Unsigned (line : Bytes) : Prop := (sizeField line).head? ≠ some 43

theorem hexValueFrom_plus (acc : Nat) (src : Bytes) : hexValueFrom acc (43 :: src) = none := by
  unfold hexValueFrom
  have hplus : hexVal 43 = none := by decide
  rw [hplus]

theorem plainSize_eq_some_iff {line : Bytes} {n : Nat} (hn : n < 2 ^ 64) :
    plainSize line = some n ↔ chunkSize line = some n ∧ Unsigned line := by
  unfold plainSize Unsigned
  show _ ↔ fromStrRadix16 (2 ^ 64) (sizeField line) = some n ∧ _
  unfold fromStrRadix16 stripPlus
  generalize sizeField line = field
  by_cases hsign : field.head? = some 43
  · -- a sign: the grammar has no such number
    obtain ⟨rest, rfl⟩ : ∃ rest, field = 43 :: rest := by
      cases field with
      | nil => cases hsign
      | cons b rest =>
        injection hsign with hb
        exact ⟨rest, by rw [hb]⟩
    rw [hexValueFrom_plus]
    simp
  · rw [if_neg hsign]
    simp only [ne_eq, hsign, not_false_eq_true, and_true]
    split
    · exact Iff.rfl
    · rw [Option.filter_eq_some_iff]
      exact ⟨fun h => ⟨h, decide_eq_true hn⟩, fun h => h.1⟩

/-! ## §2. Well-formed bodies are read as written -/

theorem WellFormedLine.sizeLine {line rest : Bytes} {n : Nat} {t : Tail} (h : WellFormedLine line n)
    (hn : n < usizeMax) (htail : lineTail line rest = some t) (ht : t ≠ .malformed) :
    SizeLine line n := by
  have hmax : usizeMax < 2 ^ 64 := by decide
  have hsize := ((plainSize_eq_some_iff (by omega)).mp h.size).1
  refine ⟨h.one_line, ?_, hsize⟩
  by_contra hutf
  unfold lineTail at htail
  rw [if_pos (by simpa using hutf)] at htail
  injection htail with htail
  exact ht htail.symm

theorem wellFormed_frames {ds cs : List Chunk} {line rest : Bytes} {t : Tail}
    (hds : ∀ c ∈ ds, WellFormedLine c.line c.data.length ∧ 0 < c.data.length)
    (hlen : ∀ c ∈ ds, c.data.length < usizeMax) (hline : WellFormedLine line 0)
    (hframes : Frames (encodeChunks ds ++ (line ++ (crlf ++ rest))) cs t) (ht : t ≠ .malformed) :
    cs = ds ∧ t = .zero line rest := by
  have hmax : usizeMax < 2 ^ 64 := by decide
  -- by induction on the chunks as written; the first line is the same in both
  induction ds generalizing cs with
  | nil =>
    obtain ⟨R, hbody, hcs, hrest⟩ := hframes
    change line ++ (crlf ++ rest) = _ at hbody
    have hzero := ((plainSize_eq_some_iff (by decide)).mp hline.size).1
    cases cs with
    | nil =>
      change _ = R at hbody
      subst hbody
      have htail := rest_line hline.one_line hrest
      have hsl := hline.sizeLine (by decide) htail ht
      have hrest' : Rest (line ++ (crlf ++ rest)) (.zero line rest) := rest_zero_iff.mpr ⟨rfl, hsl⟩
      exact ⟨rfl, hrest.unique hrest'⟩
    | cons c cs =>
      rw [encodeChunks_cons] at hbody
      have hc := hcs c mem_cons_self
      obtain ⟨rfl, -⟩ := line_unique hline.one_line hc.line.one_line hbody
      have hsize := hc.line.size
      rw [hzero] at hsize
      injection hsize with hsize
      have := hc.pos
      omega
  | cons d ds ih =>
    obtain ⟨hd, hpos⟩ := hds d mem_cons_self
    have hdlen := hlen d mem_cons_self
    have hsize := ((plainSize_eq_some_iff (by omega)).mp hd.size).1
    obtain ⟨R, hbody, hcs, hrest⟩ := hframes
    rw [encodeChunks_cons] at hbody
    cases cs with
    | nil =>
      -- the written chunk would have to be a tail
      change _ = R at hbody
      subst hbody
      have htail := rest_line hd.one_line hrest
      have hsl := hd.sizeLine hdlen htail ht
      rw [(lineTail_none hd.one_line).mpr ⟨d.data, _, rfl, ⟨hsl, hpos, hdlen⟩⟩] at htail
      cases htail
    | cons c cs =>
      rw [encodeChunks_cons] at hbody
      have hc := hcs c mem_cons_self
      obtain ⟨hl, hbody⟩ := line_unique hd.one_line hc.line.one_line hbody
      have hsame : d.data.length = c.data.length := by
        have hsize' := hc.line.size
        rw [← hl, hsize] at hsize'
        injection hsize'
      obtain ⟨hdata, hbody⟩ := append_inj hbody hsame
      have hbody := append_cancel_left hbody
      obtain ⟨rfl, rfl⟩ := ih (fun e he => hds e (mem_cons_of_mem _ he))
        (fun e he => hlen e (mem_cons_of_mem _ he))
        ⟨R, hbody, fun e he => hcs e (mem_cons_of_mem _ he), hrest⟩
      have hcd : c = d := by
        obtain ⟨cl, cd⟩ := c
        obtain ⟨dl, dd⟩ := d
        change dl = cl at hl
        change dd = cd at hdata
        rw [hl, hdata]
      exact ⟨by rw [hcd], rfl⟩

theorem length_le_encodeChunks {cs : List Chunk} {c : Chunk} (h : c ∈ cs) :
    c.data.length ≤ (encodeChunks cs).length := by
  induction cs with
  | nil => cases h
  | cons d ds ih =>
    have hsplit : (encodeChunks (d :: ds)).length
        = d.line.length + 2 + d.data.length + 2 + (encodeChunks ds).length := by
      simp only [encodeChunks, map_cons, flatten_cons, Chunk.encode, length_append]
      have : crlf.length = 2 := rfl
      omega
    rcases mem_cons.mp h with rfl | h
    · omega
    · have := ih h
      omega

/-! ## §3. Acceptance and well-formedness -/

def RefusedOrTerminated (body : Bytes) : Prop :=
  ∃ cs t, Frames body cs t ∧
    (t = .malformed ∨ ∃ line rest, t = .zero line rest ∧ (∀ c ∈ cs, Unsigned c.line)
      ∧ Unsigned line)

theorem chain_without_context (C : Crypto) (prev : Option Bytes) (cs : List Chunk) :
    chain C none prev cs = some prev := by
  induction cs with
  | nil => rfl
  | cons c cs ih => exact ih

/-- ★ **When acceptance means well-formedness.** Every body has one outcome. If the body is refused,
    or its chunks are followed by a zero-size line and no size has a sign, then acceptance means
    that the body is well formed and the data of its chunks was yielded; and for a body of less than
    `2^64 - 1` bytes only then. -/
theorem accepted_body_well_formed_iff (C : Crypto) (fragments : List Bytes) :
    ∃ o, (∀ o', Drains C (.start true none (fragments.map .ok)) o' ↔ o' = o) ∧
      (RefusedOrTerminated fragments.flatten →
        o.Accepted → WellFormedBody fragments.flatten o.items.flatten) ∧
      (fragments.flatten.length < usizeMax →
        (o.Accepted → WellFormedBody fragments.flatten o.items.flatten) →
          RefusedOrTerminated fragments.flatten) := by
  have hmax : usizeMax < 2 ^ 64 := by decide
  obtain ⟨cs, t, hframes⟩ := exists_frames fragments.flatten
  obtain ⟨o, hdrains, haccepted, hitems⟩ := drains_frames C none none hframes
  rw [chain_without_context] at haccepted
  refine ⟨o, fun o' => ⟨fun h => h.unique hdrains, fun h => h ▸ hdrains⟩, ?_, ?_⟩
  · rintro ⟨cs', t', hframes', hcond⟩ hacc
    obtain ⟨rfl, rfl⟩ := hframes.unique hframes'
    obtain h | ⟨line, rest, rfl, hchunks, hzero⟩ := hcond
    · exact absurd h (haccepted.mp hacc).2
    · obtain ⟨R, hbody, hread, hrest⟩ := hframes
      obtain ⟨rfl, hline⟩ := rest_zero_iff.mp hrest
      refine ⟨cs, line, rest, hbody, fun c hc => ⟨⟨?_, ?_⟩, (hread c hc).pos⟩, ⟨hline.one_line, ?_⟩,
        hitems hacc (fun _ _ h => by cases h)⟩
      · exact (hread c hc).line.one_line
      · have hlt := (hread c hc).lt
        exact (plainSize_eq_some_iff (by omega)).mpr ⟨(hread c hc).line.size, hchunks c hc⟩
      · exact (plainSize_eq_some_iff (by decide)).mpr ⟨hline.size, hzero⟩
  · intro hlen hwf
    by_cases hacc : o.Accepted
    · obtain ⟨ds, line, rest, hbody, hds, hline, -⟩ := hwf hacc
      have hdlen : ∀ c ∈ ds, c.data.length < usizeMax := by
        intro c hc
        have := length_le_encodeChunks hc
        rw [hbody, length_append] at hlen
        omega
      rw [hbody] at hframes ⊢
      obtain ⟨rfl, rfl⟩ := wellFormed_frames hds hdlen hline hframes (haccepted.mp hacc).2
      refine ⟨cs, _, hframes, .inr ⟨line, rest, rfl, fun c hc => ?_, ?_⟩⟩
      · have := hdlen c hc
        exact ((plainSize_eq_some_iff (by omega)).mp (hds c hc).1.size).2
      · exact ((plainSize_eq_some_iff (by decide)).mp hline.size).2
    · refine ⟨cs, t, hframes, .inl ?_⟩
      by_contra ht
      exact hacc (haccepted.mpr ⟨rfl, ht⟩)

def cutBody : Bytes := ascii "3\r\nabc\r\n"

theorem cut_body_accepted :
    Drains ⟨id, fun _ => id⟩ (.start true none [.ok cutBody]) ⟨[ascii "abc"], .finished none⟩ ∧
    ¬ WellFormedBody cutBody (ascii "abc") := by
  refine ⟨⟨9, by decide +kernel⟩, ?_⟩
  rintro ⟨ds, line, rest, hbody, hds, hline, -⟩
  -- the decoder reads one chunk and then a cut, so there is no zero-size line
  have hcut : Frames cutBody [⟨ascii "3", ascii "abc"⟩] .cut := by
    refine ⟨[], by decide +kernel, fun c hc => ?_, .cut rfl⟩
    rw [mem_singleton.mp hc]
    exact ⟨⟨by decide +kernel, by decide +kernel, by decide +kernel⟩, by decide, by decide⟩
  have hdlen : ∀ c ∈ ds, c.data.length < usizeMax := by
    intro c hc
    have hle := length_le_encodeChunks hc
    have hlen := congrArg List.length hbody
    rw [length_append, show cutBody.length = 8 by decide] at hlen
    have : 8 < usizeMax := by decide
    omega
  rw [hbody] at hcut
  obtain ⟨-, h⟩ := wellFormed_frames hds hdlen hline hcut (by decide)
  cases h

end FractalBits.Streaming
