/-
  Lib.Text — UTF-8 texts as byte strings.
-/

import Mathlib.Data.List.TakeWhile
import FractalBits.Lib.Bytes

namespace FractalBits.Lib

open List

/-! ## §1. Validity -/

/-- The ranges of the bytes that follow a leading byte of a UTF-8 character. -/
def utf8Follow (b : UInt8) : Option (List (UInt8 × UInt8)) :=
  if b ≤ 0x7F then some []
  else if 0xC2 ≤ b ∧ b ≤ 0xDF then some [(0x80, 0xBF)]
  else if b = 0xE0 then some [(0xA0, 0xBF), (0x80, 0xBF)]
  else if b = 0xED then some [(0x80, 0x9F), (0x80, 0xBF)]
  else if 0xE1 ≤ b ∧ b ≤ 0xEF then some [(0x80, 0xBF), (0x80, 0xBF)]
  else if b = 0xF0 then some [(0x90, 0xBF), (0x80, 0xBF), (0x80, 0xBF)]
  else if 0xF1 ≤ b ∧ b ≤ 0xF3 then some [(0x80, 0xBF), (0x80, 0xBF), (0x80, 0xBF)]
  else if b = 0xF4 then some [(0x80, 0x8F), (0x80, 0xBF), (0x80, 0xBF)]
  else none

def utf8ValidFrom : List (UInt8 × UInt8) → Bytes → Bool
  | [], [] => true
  | _ :: _, [] => false
  | [], b :: s =>
    match utf8Follow b with
    | none => false
    | some follow => utf8ValidFrom follow s
  | (lo, hi) :: follow, b :: s => decide (lo ≤ b ∧ b ≤ hi) && utf8ValidFrom follow s

def utf8Valid (s : Bytes) : Bool := utf8ValidFrom [] s

/-! ## §2. White space -/

def stripSpace : Bytes → Option Bytes
  | [] => none
  | b :: s =>
    if (9 ≤ b ∧ b ≤ 13) ∨ b = 0x20 then some s
    else match b, s with
      | 0xC2, c :: s => if c = 0x85 ∨ c = 0xA0 then some s else none
      | 0xE1, 0x9A :: 0x80 :: s => some s
      | 0xE2, 0x80 :: c :: s =>
        if (0x80 ≤ c ∧ c ≤ 0x8A) ∨ c = 0xA8 ∨ c = 0xA9 ∨ c = 0xAF then some s else none
      | 0xE2, 0x81 :: 0x9F :: s => some s
      | 0xE3, 0x80 :: 0x80 :: s => some s
      | _, _ => none

def stripSpaceRev : Bytes → Option Bytes
  | [] => none
  | b :: s =>
    if (9 ≤ b ∧ b ≤ 13) ∨ b = 0x20 then some s
    else match b, s with
      | 0x85, 0xC2 :: s => some s
      | 0xA0, 0xC2 :: s => some s
      | 0x80, 0x9A :: 0xE1 :: s => some s
      | 0x9F, 0x81 :: 0xE2 :: s => some s
      | 0x80, 0x80 :: 0xE3 :: s => some s
      | c, 0x80 :: 0xE2 :: s =>
        if (0x80 ≤ c ∧ c ≤ 0x8A) ∨ c = 0xA8 ∨ c = 0xA9 ∨ c = 0xAF then some s else none
      | _, _ => none

def stripWhile (strip : Bytes → Option Bytes) : Nat → Bytes → Bytes
  | 0, s => s
  | n + 1, s =>
    match strip s with
    | none => s
    | some t => stripWhile strip n t

def trimStart (s : Bytes) : Bytes := stripWhile stripSpace s.length s

def trimEnd (s : Bytes) : Bytes := (stripWhile stripSpaceRev s.length s.reverse).reverse

def trim (s : Bytes) : Bytes := trimEnd (trimStart s)

/-! ## §3. Splitting -/

/-- The part before the first `sep`, or everything: `split(sep).next()`. -/
def beforeFirst (sep : UInt8) (s : Bytes) : Bytes := s.takeWhile (· != sep)

def splitAll (sep : UInt8) : Bytes → List Bytes
  | [] => [[]]
  | c :: s =>
    if c = sep then [] :: splitAll sep s
    else match splitAll sep s with
      | [] => [[c]]
      | part :: parts => (c :: part) :: parts

def segments (sep : UInt8) (s : Bytes) : List Bytes := (splitAll sep s).filter (· ≠ [])

/-- `percent_decode_str`: a percent sign without two digits stays. -/
def percentDecode : Bytes → Bytes
  | [] => []
  | [b] => [b]
  | [b, c] => [b, c]
  | b :: high :: low :: rest =>
    match if b = 37 then (hexVal high).bind fun h => (hexVal low).map fun l => 16 * h + l
      else none with
    | some decoded => UInt8.ofNat decoded :: percentDecode rest
    | none => b :: percentDecode (high :: low :: rest)

def stripSuffixByte (b : UInt8) (s : Bytes) : Bytes :=
  if s.getLast? = some b then s.dropLast else s

/-- `str::lines`: split after every line feed; a carriage return before it is part of the end. -/
def lines (s : Bytes) : List Bytes :=
  let parts := splitAll 10 s
  let ended := parts.dropLast.map (stripSuffixByte 13)
  match parts.getLast? with
  | some [] => ended
  | some last => ended ++ [last]
  | none => ended

/-- `str::to_lowercase` as far as ASCII results go: of the other letters only the Kelvin sign has
    one. -/
def toLowercase : Bytes → Bytes
  | 0xE2 :: 0x84 :: 0xAA :: s => 0x6B :: toLowercase s
  | b :: s => (if 65 ≤ b ∧ b ≤ 90 then b + 32 else b) :: toLowercase s
  | [] => []

/-! ## §4. Searching -/

def position (pat : Bytes) : Bytes → Option Nat
  | [] => none
  | c :: s => if pat.isPrefixOf (c :: s) then some 0 else (position pat s).map (· + 1)

theorem position_cons (pat : Bytes) (c : UInt8) (s : Bytes) : position pat (c :: s)
    = if pat.isPrefixOf (c :: s) then some 0 else (position pat s).map (· + 1) := rfl

def crlf : Bytes := [13, 10]

variable {pat s a : Bytes} {i : Nat}

theorem position_some (h : position pat s = some i) :
    s = s.take i ++ (pat ++ s.drop (i + pat.length)) := by
  induction s generalizing i with
  | nil => cases h
  | cons c s ih =>
    unfold position at h
    split at h
    · next hp =>
        injection h with h
        subst h
        obtain ⟨t, ht⟩ := isPrefixOf_iff_prefix.mp hp
        rw [← ht]
        simp
    · obtain ⟨j, hj, rfl⟩ := Option.map_eq_some_iff.mp h
      have hs := ih hj
      rw [show j + 1 + pat.length = j + pat.length + 1 by omega]
      simp only [take_succ_cons, drop_succ_cons, cons_append]
      exact congrArg (c :: ·) hs

theorem position_le (h : position pat s = some i) : i + pat.length ≤ s.length := by
  induction s generalizing i with
  | nil => cases h
  | cons c s ih =>
    unfold position at h
    split at h
    · next hp =>
        injection h with h
        have := (List.isPrefixOf_iff_prefix.mp hp).length_le
        omega
    · obtain ⟨j, hj, rfl⟩ := Option.map_eq_some_iff.mp h
      have := ih hj
      rw [length_cons]
      omega

theorem position_append (h : position pat s = some i) (t : Bytes) :
    position pat (s ++ t) = some i := by
  induction s generalizing i with
  | nil => cases h
  | cons c s ih =>
    have hlen : pat.length ≤ (c :: s).length := by
      have := position_le h
      omega
    have hpre : pat.isPrefixOf (c :: s ++ t) = pat.isPrefixOf (c :: s) := by
      rw [Bool.eq_iff_iff, isPrefixOf_iff_prefix, isPrefixOf_iff_prefix]
      refine ⟨fun hp => ?_, fun hp => hp.trans (prefix_append _ _)⟩
      exact prefix_of_prefix_length_le hp (prefix_append _ _) hlen
    rw [cons_append] at hpre ⊢
    rw [position_cons] at h ⊢
    rw [hpre]
    split at h
    · next hp => rw [if_pos hp]; exact h
    · next hp =>
        obtain ⟨j, hj, rfl⟩ := Option.map_eq_some_iff.mp h
        rw [if_neg hp, ih hj]
        rfl

theorem position_crlf {line : Bytes} (h : position crlf line = none) (rest : Bytes) :
    position crlf (line ++ (crlf ++ rest)) = some line.length := by
  induction line with
  | nil => rfl
  | cons c line ih =>
    unfold position at h
    split at h
    · cases h
    · next hp =>
        have hline : position crlf line = none := by simpa using h
        -- a match at `c` would end inside the line, or need `\n` where `\r` stands
        have hnot : crlf.isPrefixOf (c :: (line ++ (crlf ++ rest))) = false := by
          cases line with
          | nil => simp [crlf, List.isPrefixOf]
          | cons d line => simpa [crlf, List.isPrefixOf] using hp
        rw [cons_append, position_cons, hnot, ih hline]
        rfl

theorem position_take (h : position pat s = some i) :
    position pat (s.take i) = none := by
  induction s generalizing i with
  | nil => cases h
  | cons c s ih =>
    unfold position at h
    split at h
    · injection h with h
      subst h
      rfl
    · next hp =>
        obtain ⟨j, hj, rfl⟩ := Option.map_eq_some_iff.mp h
        rw [take_succ_cons, position_cons]
        have hnot : ¬ pat.isPrefixOf (c :: s.take j) = true := by
          intro hpre
          refine hp (List.isPrefixOf_iff_prefix.mpr ?_)
          refine (List.isPrefixOf_iff_prefix.mp hpre).trans ?_
          exact cons_prefix_cons.mpr ⟨rfl, take_prefix j s⟩
        rw [if_neg hnot, ih hj]
        rfl

/-! ## §5. Texts of several lines -/

structure TextLine (line : Bytes) : Prop where
  ne_nil : line ≠ []
  no_cr : 13 ∉ line
  no_lf : 10 ∉ line

def joinLines : List Bytes → Bytes
  | [] => []
  | [line] => line
  | line :: next :: rest => line ++ (crlf ++ joinLines (next :: rest))

theorem position_skip {c : UInt8} (ha : c ∉ a) (pat s : Bytes) :
    position (c :: pat) (a ++ s) = (position (c :: pat) s).map (· + a.length) := by
  induction a with
  | nil => simp
  | cons d a ih =>
    have hc : c ≠ d := fun h => ha (h ▸ mem_cons_self)
    have hnot : (c :: pat).isPrefixOf (d :: (a ++ s)) = false := by
      simp [List.isPrefixOf, hc]
    rw [cons_append, position_cons, hnot, ih fun h => ha (mem_cons_of_mem _ h)]
    simp only [Bool.false_eq_true, if_false, Option.map_map, length_cons]
    congr 1

theorem position_blank {ls : List Bytes} (hne : ls ≠ []) (hls : ∀ l ∈ ls, TextLine l)
    (rest : Bytes) :
    position (crlf ++ crlf) (joinLines ls ++ (crlf ++ (crlf ++ rest))) = some
      (joinLines ls).length := by
  induction ls with
  | nil => exact absurd rfl hne
  | cons l ls ih =>
    have hl := hls l mem_cons_self
    cases ls with
    | nil =>
      show position (13 :: [10, 13, 10]) (l ++ _) = some l.length
      rw [position_skip hl.no_cr]
      simp [crlf, position, List.isPrefixOf]
    | cons next ls =>
      have hnext := hls next (mem_cons_of_mem _ mem_cons_self)
      have ih := ih (by simp) fun m hm => hls m (mem_cons_of_mem _ hm)
      show position (13 :: [10, 13, 10]) ((l ++ (crlf ++ joinLines (next :: ls))) ++ _)
        = some (l ++ (crlf ++ joinLines (next :: ls))).length
      rw [append_assoc, position_skip hl.no_cr, append_assoc]
      -- the line end before `next` is followed by no second one
      obtain ⟨c, tail, hc, hcr⟩ : ∃ c tail, joinLines (next :: ls) = c :: tail
        ∧ (13 : UInt8) ≠ c := by
        obtain ⟨c, tail, rfl⟩ := exists_cons_of_ne_nil hnext.ne_nil
        have hcr : (13 : UInt8) ≠ c := fun h => hnext.no_cr (h ▸ mem_cons_self)
        cases ls with
        | nil => exact ⟨c, tail, rfl, hcr⟩
        | cons _ _ => exact ⟨c, _, rfl, hcr⟩
      change position (13 :: [10, 13, 10]) _ = _ at ih
      rw [hc] at ih ⊢
      have hfirst :
          position (13 :: [10, 13, 10]) (crlf ++ ((c :: tail) ++ (crlf ++ (crlf ++ rest))))
            = (position (13 :: [10, 13, 10]) ((c :: tail) ++ (crlf ++ (crlf ++ rest)))).map
            (· + 2) := by
        show position _ (13 :: 10 :: c :: (tail ++ _)) = _
        rw [position_cons, position_cons]
        simp [List.isPrefixOf, hcr, Option.map_map, Function.comp_def]
      rw [hfirst, ih]
      simp only [Option.map_some, length_append, length_cons, crlf, length_nil]
      congr 1
      omega

theorem splitAll_of_not_mem {sep : UInt8} (ha : sep ∉ a) : splitAll sep a = [a] := by
  induction a with
  | nil => rfl
  | cons c a ih =>
    have hc : c ≠ sep := fun h => ha (h ▸ mem_cons_self)
    unfold splitAll
    rw [if_neg hc, ih fun h => ha (mem_cons_of_mem _ h)]

theorem splitAll_append {sep : UInt8} (ha : sep ∉ a) (s : Bytes) :
    splitAll sep (a ++ sep :: s) = a :: splitAll sep s := by
  induction a with
  | nil =>
    show splitAll sep (sep :: s) = _
    rw [splitAll, if_pos rfl]
  | cons c a ih =>
    have hc : c ≠ sep := fun h => ha (h ▸ mem_cons_self)
    show splitAll sep (c :: (a ++ sep :: s)) = _
    rw [splitAll, if_neg hc, ih fun h => ha (mem_cons_of_mem _ h)]

theorem splitAll_ne_nil (sep : UInt8) (s : Bytes) : splitAll sep s ≠ [] := by
  cases s with
  | nil => simp [splitAll]
  | cons c s =>
    unfold splitAll
    split
    · simp
    · split <;> simp

theorem splitAll_intercalate {sep : UInt8} {parts : List Bytes} (hne : parts ≠ [])
    (h : ∀ part ∈ parts, sep ∉ part) : splitAll sep ([sep].intercalate parts) = parts := by
  induction parts with
  | nil => exact absurd rfl hne
  | cons part rest ih =>
    have hsep := h part mem_cons_self
    cases rest with
    | nil => rw [intercalate_singleton, splitAll_of_not_mem hsep]
    | cons next rest =>
      rw [intercalate_cons_cons, append_assoc, singleton_append, splitAll_append hsep,
        ih (by simp) fun p hp => h p (mem_cons_of_mem _ hp)]

theorem segments_intercalate {sep : UInt8} {parts : List Bytes} (h : ∀ part ∈ parts, part ≠ []
    ∧ sep ∉ part) :
    segments sep ([sep].intercalate parts) = parts := by
  cases parts with
  | nil => rfl
  | cons part rest =>
    rw [segments, splitAll_intercalate (by simp) fun p hp => (h p hp).2]
    exact filter_eq_self.mpr fun p hp => decide_eq_true (h p hp).1

theorem of_mem_intercalate {sep b : UInt8} {parts : List Bytes} (hb : b ∈ [sep].intercalate parts) :
    b = sep ∨ ∃ part ∈ parts, b ∈ part := by
  induction parts with
  | nil => cases hb
  | cons part rest ih =>
    cases rest with
    | nil => exact .inr ⟨part, mem_cons_self, by simpa using hb⟩
    | cons next rest =>
      rw [intercalate_cons_cons, mem_append, mem_append, mem_singleton] at hb
      rcases hb with (hb | hb) | hb
      · exact .inr ⟨part, mem_cons_self, hb⟩
      · exact .inl hb
      · exact (ih hb).imp_right fun ⟨p, hp, h⟩ => ⟨p, mem_cons_of_mem _ hp, h⟩

def terminated (sep : UInt8) (parts : List Bytes) : Bytes := parts.flatMap (· ++ [sep])

section

variable {sep : UInt8} {parts parts' : List Bytes}

theorem terminated_cons (sep : UInt8) (part : Bytes) (parts : List Bytes) :
    terminated sep (part :: parts) = part ++ sep :: terminated sep parts := by
  simp [terminated]

theorem terminated_splitAll (sep : UInt8) (s : Bytes) :
    terminated sep (splitAll sep s) = s ++ [sep] := by
  induction s with
  | nil => rfl
  | cons c s ih =>
    unfold splitAll
    split
    · next hc => rw [terminated_cons, ih, hc]; rfl
    · obtain ⟨part, parts, hparts⟩ := exists_cons_of_ne_nil (splitAll_ne_nil sep s)
      rw [hparts, terminated_cons] at ih
      rw [hparts]
      show terminated sep ((c :: part) :: parts) = _
      rw [terminated_cons, cons_append, ih, cons_append]

theorem not_mem_of_mem_splitAll {part : Bytes} (h : part ∈ splitAll sep s) : sep ∉ part := by
  induction s generalizing part with
  | nil => rw [mem_singleton.mp h]; exact not_mem_nil
  | cons c s ih =>
    unfold splitAll at h
    split at h
    · rcases mem_cons.mp h with rfl | h
      · exact not_mem_nil
      · exact ih h
    · next hc =>
      obtain ⟨first, parts, hparts⟩ := exists_cons_of_ne_nil (splitAll_ne_nil sep s)
      rw [hparts] at h ih
      rcases mem_cons.mp h with rfl | h
      · exact not_mem_cons_of_ne_of_not_mem (Ne.symm hc) (ih mem_cons_self)
      · exact ih (mem_cons_of_mem _ h)

theorem terminated_prefix_iff (h : ∀ part ∈ parts, sep ∉ part) (h' : ∀ part ∈ parts', sep ∉ part) :
    terminated sep parts <+: terminated sep parts' ↔ parts <+: parts' := by
  induction parts generalizing parts' with
  | nil => exact ⟨fun _ => nil_prefix, fun _ => nil_prefix⟩
  | cons part parts ih =>
    obtain ⟨hpart, hparts⟩ := forall_mem_cons.mp h
    cases parts' with
    | nil =>
      rw [terminated_cons]
      simp [terminated]
    | cons part' parts' =>
      obtain ⟨hpart', hparts'⟩ := forall_mem_cons.mp h'
      rw [terminated_cons, terminated_cons, cons_prefix_cons, ← ih hparts hparts']
      constructor
      · rintro ⟨rest, hrest⟩
        rw [append_assoc, cons_append] at hrest
        obtain ⟨hfirst, hmore⟩ := append_cons_inj_first hpart hpart' hrest
        exact ⟨hfirst, rest, hmore⟩
      · rintro ⟨rfl, rest, hrest⟩
        exact ⟨rest, by rw [← hrest, append_assoc, cons_append]⟩

theorem splitAll_of_terminated (h : ∀ part ∈ parts, sep ∉ part)
    (hs : terminated sep parts = s ++ [sep]) :
    splitAll sep s = parts := by
  have hsplit : ∀ part ∈ splitAll sep s, sep ∉ part := fun _ => not_mem_of_mem_splitAll
  rw [← terminated_splitAll] at hs
  have hfront := (terminated_prefix_iff h hsplit).mp (hs ▸ prefix_refl _)
  have hback := (terminated_prefix_iff hsplit h).mp (hs ▸ prefix_refl _)
  exact hback.eq_of_length (Nat.le_antisymm hback.length_le hfront.length_le)

end

theorem percentDecode_cons {b : UInt8} (hb : b ≠ 37) (s : Bytes) :
    percentDecode (b :: s) = b :: percentDecode s := by
  cases s with
  | nil => rfl
  | cons high s =>
    cases s with
    | nil => rfl
    | cons low s => rw [percentDecode, if_neg hb]

theorem percentDecode_percent {high low : UInt8} {h l : Nat} (hh : hexVal high = some h)
    (hl : hexVal low = some l) (s : Bytes) : percentDecode (37 :: high :: low :: s) = UInt8.ofNat
    (16 * h + l) :: percentDecode s := by
  rw [percentDecode, if_pos rfl, hh, hl]
  rfl

theorem lines_cons {l : Bytes} (hl : 10 ∉ l) (s : Bytes) :
    lines (l ++ (crlf ++ s)) = l :: lines s := by
  have hsplit : splitAll 10 (l ++ (crlf ++ s)) = (l ++ [13]) :: splitAll 10 s := by
    have hcr : (10 : UInt8) ∉ l ++ [13] := by simp [hl]
    have := splitAll_append hcr s
    rwa [append_assoc] at this
  obtain ⟨p, ps, hps⟩ := exists_cons_of_ne_nil (splitAll_ne_nil 10 s)
  unfold lines
  rw [hsplit, hps]
  have hstrip : stripSuffixByte 13 (l ++ [13]) = l := by simp [stripSuffixByte]
  simp only [dropLast_cons_cons, map_cons, hstrip, List.getLast?_cons_cons, cons_append]
  split <;> simp_all

theorem lines_joinLines {ls : List Bytes} (hls : ∀ l ∈ ls, TextLine l) :
    lines (joinLines ls) = ls := by
  induction ls with
  | nil => rfl
  | cons l ls ih =>
    have hl := hls l mem_cons_self
    cases ls with
    | nil =>
      show lines l = [l]
      unfold lines
      rw [splitAll_of_not_mem hl.no_lf]
      obtain ⟨c, tail, rfl⟩ := exists_cons_of_ne_nil hl.ne_nil
      rfl
    | cons next ls =>
      show lines (l ++ (crlf ++ joinLines (next :: ls))) = _
      rw [lines_cons hl.no_lf, ih fun m hm => hls m (mem_cons_of_mem _ hm)]

def hexEncode (s : Bytes) : Bytes := s.flatMap fun b =>
    [hexDigit (b.toNat / 16), hexDigit (b.toNat % 16)]

/-- `hex::decode`: pairs of digits of either case. -/
def hexDecode : Bytes → Option Bytes
  | [] => some []
  | [_] => none
  | a :: b :: s =>
    match hexVal a, hexVal b, hexDecode s with
    | some x, some y, some t => some (UInt8.ofNat (x * 16 + y) :: t)
    | _, _, _ => none

end FractalBits.Lib
