/-
  Gateway.CanonicalQuery — the query string in a signed request.

  Mirrors `uri_encode` of `sigv4.rs` and the two canonical query strings of `signature/payload.rs`.
  The gateway reads the parameters into a map, so of a repeated name only the last value is signed.
-/

import FractalBits.Gateway.Authentication
import FractalBits.Lib.LastWins

namespace FractalBits.Gateway

open Lib Streaming List

/-! ## §1. Percent-encoding -/

def unreserved (b : UInt8) : Bool :=
  (97 ≤ b && b ≤ 122) || (65 ≤ b && b ≤ 90) || (48 ≤ b && b ≤ 57) || b = 95 || b = 45 || b = 126
    || b = 46

def upperHexDigit (d : Nat) : UInt8 :=
  if d < 10 then UInt8.ofNat (48 + d) else UInt8.ofNat (55 + d)

/-- One byte; those of a character that is not ASCII are all reserved. -/
def uriEncodeByte (encodeSlash : Bool) (b : UInt8) : Bytes :=
  if unreserved b ∨ b = 47 ∧ encodeSlash = false then [b]
  else [37, upperHexDigit (b.toNat / 16), upperHexDigit (b.toNat % 16)]

def uriEncode (string : Bytes) (encodeSlash : Bool) : Bytes :=
    string.flatMap (uriEncodeByte encodeSlash)

theorem hexVal_upperHexDigit (d : Nat) (hd : d < 16) :
    hexVal (upperHexDigit d) = some d ∧ unreserved (upperHexDigit d) = true := by
  revert d
  decide

theorem of_mem_uriEncode {b : UInt8} {s : Bytes} (h : b ∈ uriEncode s true) :
    unreserved b = true ∨ b = 37 := by
  obtain ⟨c, -, hb⟩ := mem_flatMap.mp h
  unfold uriEncodeByte at hb
  have hc : c.toNat < 256 := c.toNat_lt
  split at hb
  · next hunreserved =>
    rw [mem_singleton.mp hb]
    exact .inl (hunreserved.resolve_right (by simp))
  · simp only [mem_cons, not_mem_nil, or_false] at hb
    rcases hb with rfl | rfl | rfl
    · exact .inr rfl
    · exact .inl (hexVal_upperHexDigit _ (by omega)).2
    · exact .inl (hexVal_upperHexDigit _ (by omega)).2

theorem not_mem_uriEncode {b : UInt8} (hb : unreserved b = false) (hpercent : b ≠ 37) (s : Bytes) :
    b ∉ uriEncode s true := by
  intro h
  rcases of_mem_uriEncode h with h | h
  · rw [hb] at h
    cases h
  · exact hpercent h

theorem percentDecode_uriEncode (s : Bytes) : percentDecode (uriEncode s true) = s := by
  induction s with
  | nil => rfl
  | cons b s ih =>
    show percentDecode (uriEncodeByte true b ++ uriEncode s true) = b :: s
    have hb : b.toNat < 256 := b.toNat_lt
    unfold uriEncodeByte
    split
    · next hunreserved =>
      have hpercent : b ≠ 37 := by
        rintro rfl
        simp [unreserved] at hunreserved
      rw [singleton_append, percentDecode_cons hpercent, ih]
    · show percentDecode (37 :: _ :: _ :: uriEncode s true) = _
      rw [percentDecode_percent (hexVal_upperHexDigit (b.toNat / 16) (by omega)).1
        (hexVal_upperHexDigit (b.toNat % 16) (by omega)).1, ih, Nat.div_add_mod, UInt8.ofNat_toNat]

/-! ## §2. Query strings -/

/-- The pairs that a query string stands for; only the empty string has to stand for none. -/
structure QueryParser where
  pairs : Bytes → List (Bytes × Bytes)
  pairs_nil : pairs [] = []

def formDecode (s : Bytes) : Bytes := percentDecode (s.map fun b => if b = 43 then 32 else b)

variable (parser : QueryParser) (queryStr : Bytes)

def rawPairs : List (Bytes × Bytes) :=
  (segments 38 queryStr).map fun segment =>
    match splitOnce 61 segment with
    | some (name, value) => (formDecode name, formDecode value)
    | none => (formDecode segment, [])

def decodedPairs : List (Bytes × Bytes) :=
  (rawPairs queryStr).map fun p => (utf8Lossy p.1, utf8Lossy p.2)

/-- The parser that the gateway calls. -/
def formParser : QueryParser := ⟨decodedPairs, rfl⟩

/-- `Query::<BTreeMap<String, String>>::from_query`, which does not fail. -/
def queryMap : Std.ExtTreeMap Bytes Bytes compare := ofPairs compare (parser.pairs queryStr)

def queryItem (p : Bytes × Bytes) : Bytes := uriEncode p.1 true ++ 61 :: uriEncode p.2 true

def pushItem (items : Bytes) (p : Bytes × Bytes) : Bytes :=
  (if items = [] then items else items ++ [38]) ++ queryItem p

def buildCanonicalQueryString : Bytes :=
  if queryStr = [] then [] else (queryMap parser queryStr).toList.foldl pushItem []

def buildCanonicalQueryStringFiltered : Bytes :=
  if queryStr = [] then []
  else (queryMap parser queryStr).toList.foldl
    (fun items p => if p.1 = ascii "X-Amz-Signature" then items else pushItem items p) []

def queryText (l : List (Bytes × Bytes)) : Bytes := [38].intercalate (l.map queryItem)

theorem formDecode_uriEncode (s : Bytes) : formDecode (uriEncode s true) = s := by
  have hplus : (uriEncode s true).map (fun b => if b = 43 then 32 else b) = uriEncode s true := by
    refine map_congr_left (fun b hb => if_neg ?_) |>.trans (map_id _)
    rintro rfl
    exact not_mem_uriEncode (by decide) (by decide) s hb
  rw [formDecode, hplus, percentDecode_uriEncode]

theorem of_mem_items {l : List (Bytes × Bytes)} {item : Bytes} (h : item ∈ l.map queryItem) :
    item ≠ [] ∧ 38 ∉ item := by
  obtain ⟨p, -, rfl⟩ := mem_map.mp h
  have hand : ∀ s, 38 ∉ uriEncode s true := not_mem_uriEncode (by decide) (by decide)
  exact ⟨by simp [queryItem], by simp [queryItem, hand]⟩

theorem rawPairs_queryText (l : List (Bytes × Bytes)) : rawPairs (queryText l) = l := by
  rw [rawPairs, queryText, segments_intercalate fun _ => of_mem_items, map_map]
  refine (map_congr_left fun p _ => ?_).trans (map_id _)
  have hequals : 61 ∉ uriEncode p.1 true := not_mem_uriEncode (by decide) (by decide) _
  simp only [Function.comp_apply, queryItem, splitOnce_append hequals, formDecode_uriEncode, id]

theorem foldl_pushItem (l : List (Bytes × Bytes)) : l.foldl pushItem [] = queryText l := by
  have hjoin : ∀ (s t : Bytes) rest, [38].intercalate ((s ++ t) :: rest) = s ++ [38].intercalate
    (t :: rest) := by
    intro s t rest
    cases rest with
    | nil => simp
    | cons next rest => simp only [intercalate_cons_cons, append_assoc]
  have hpush : ∀ (l : List (Bytes × Bytes)) (items : Bytes), items ≠ [] →
      l.foldl pushItem items = [38].intercalate (items :: l.map queryItem) := by
    intro l
    induction l with
    | nil =>
      intro items _
      exact intercalate_singleton.symm
    | cons p rest ih =>
      intro items hitems
      rw [foldl_cons, pushItem, if_neg hitems, ih _ (by simp), hjoin, map_cons,
        intercalate_cons_cons]
  cases l with
  | nil => rfl
  | cons p rest => exact hpush rest (queryItem p) (by simp [queryItem])

theorem queryMap_nil : queryMap parser [] = ∅ := by
  rw [queryMap, parser.pairs_nil]
  rfl

theorem buildCanonicalQueryString_eq (q : Bytes) :
    buildCanonicalQueryString parser q = queryText (queryMap parser q).toList := by
  unfold buildCanonicalQueryString
  split
  · next hq =>
    subst hq
    rw [queryMap_nil]
    rfl
  · exact foldl_pushItem _

theorem buildCanonicalQueryStringFiltered_eq (q : Bytes) :
    buildCanonicalQueryStringFiltered parser q = queryText
      ((queryMap parser q).toList.filter fun p => p.1 ≠ ascii "X-Amz-Signature") := by
  unfold buildCanonicalQueryStringFiltered
  split
  · next hq =>
    subst hq
    rw [queryMap_nil]
    rfl
  · rw [← foldl_pushItem, foldl_filter]
    simp

/-! ## §3. What is signed -/

theorem perm_iff_of_queryText (keep : Bytes → Bool) {q₁ q₂ : Bytes}
    (h : queryText ((queryMap parser q₁).toList.filter fun p => keep p.1) =
      queryText ((queryMap parser q₂).toList.filter fun p => keep p.1)) :
    ((parser.pairs q₁).filter fun p => keep p.1).Perm ((parser.pairs q₂).filter fun p => keep p.1) ↔
      (shadowed ((parser.pairs q₁).filter fun p => keep p.1)).Perm
        (shadowed ((parser.pairs q₂).filter fun p => keep p.1)) := by
  have hkept : ∀ q, ((queryMap parser q).toList.filter fun p => keep p.1).Perm
      (kept ((parser.pairs q).filter fun p => keep p.1)) := by
    intro q
    rw [kept_filter]
    exact (toList_ofPairs _).filter _
  have hsame : (queryMap parser q₁).toList.filter (fun p => keep p.1)
    = (queryMap parser q₂).toList.filter fun p => keep p.1 := by
    rw [← rawPairs_queryText ((queryMap parser q₁).toList.filter _), h, rawPairs_queryText]
  have hperm := (hsame ▸ (hkept q₁).symm).trans (hkept q₂)
  have hsplit := fun q => kept_append_shadowed ((parser.pairs q).filter fun p => keep p.1)
  rw [← (hsplit q₁).congr_left, ← (hsplit q₂).congr_right, (hperm.append_right _).congr_left]
  exact perm_append_left_iff _

def presignedPairs (q : Bytes) : List (Bytes × Bytes) :=
  (parser.pairs q).filter fun p => p.1 ≠ ascii "X-Amz-Signature"

/-- ★ **What the signature covers.** Of two query strings with one canonical text the pairs are
    permutations of each other exactly if those are that a later pair of the same name replaces; so
    they are if no name is repeated. -/
theorem canonical_query_covers_iff (parser : QueryParser) (q₁ q₂ : Bytes) :
    (buildCanonicalQueryString parser q₁ = buildCanonicalQueryString parser q₂ →
      ((parser.pairs q₁).Perm (parser.pairs q₂) ↔
        (shadowed (parser.pairs q₁)).Perm (shadowed (parser.pairs q₂)))) ∧
    (buildCanonicalQueryStringFiltered parser q₁ = buildCanonicalQueryStringFiltered parser q₂ →
      ((presignedPairs parser q₁).Perm (presignedPairs parser q₂) ↔
        (shadowed (presignedPairs parser q₁)).Perm (shadowed (presignedPairs parser q₂)))) ∧
    (((parser.pairs q₁).map Prod.fst).Nodup → ((parser.pairs q₂).map Prod.fst).Nodup →
      (shadowed (parser.pairs q₁)).Perm (shadowed (parser.pairs q₂)) ∧
      (shadowed (presignedPairs parser q₁)).Perm (shadowed (presignedPairs parser q₂))) := by
  refine ⟨?_, ?_, ?_⟩
  · intro h
    rw [buildCanonicalQueryString_eq, buildCanonicalQueryString_eq] at h
    simpa using perm_iff_of_queryText parser (fun _ => true) (by simpa using h)
  · intro h
    rw [buildCanonicalQueryStringFiltered_eq, buildCanonicalQueryStringFiltered_eq] at h
    exact perm_iff_of_queryText parser (fun name => name ≠ ascii "X-Amz-Signature") h
  · intro h₁ h₂
    have hpresigned : ∀ q, ((parser.pairs q).map Prod.fst).Nodup →
      shadowed (presignedPairs parser q) = [] := by
      intro q hq
      exact shadowed_of_nodup (hq.sublist (filter_sublist.map _))
    rw [shadowed_of_nodup h₁, shadowed_of_nodup h₂, hpresigned q₁ h₁, hpresigned q₂ h₂]
    exact ⟨.refl _, .refl _⟩

theorem repeated_parameter_unsigned :
    buildCanonicalQueryString formParser (ascii "a=1&a=2") = buildCanonicalQueryString formParser
      (ascii "a=2") ∧
    buildCanonicalQueryStringFiltered formParser (ascii "a=1&a=2")
      = buildCanonicalQueryStringFiltered formParser (ascii "a=2") ∧
    ¬ (formParser.pairs (ascii "a=1&a=2")).Perm (formParser.pairs (ascii "a=2")) ∧
    ¬ (presignedPairs formParser (ascii "a=1&a=2")).Perm
      (presignedPairs formParser (ascii "a=2")) := by
  refine ⟨by decide, by decide, fun h => ?_, fun h => ?_⟩
  · exact absurd h.length_eq (by decide)
  · exact absurd h.length_eq (by decide)

end FractalBits.Gateway
