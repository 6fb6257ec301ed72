/-
  Objects.Listing — listing a bucket, page by page.

  Mirrors `list_objects.rs` and `list_objects_v2.rs`. The token for the next page is the last key
  that was shown.
-/

import FractalBits.Lib.FilteredPages
import FractalBits.Objects.Handlers

namespace FractalBits.Objects

open Lib Streaming Gateway List

/-! ## §1. The handlers -/

structure ListedObject where
  key : Bytes
  lastModified : Nat
  etag : Bytes
  size : Nat
  deriving DecidableEq, Repr

def fromLayoutAndKey (object : Layout) (key : Bytes) : Except ObjectLayoutError ListedObject := do
  let etag ← object.etag
  let size ← object.size
  return ⟨key, object.timestamp, etag, size⟩

abbrev Entry := Bytes × Option Layout

structure Listing where
  objs : List ListedObject
  commonPrefixes : List Bytes
  lastKey : Option Bytes
  deriving DecidableEq, Repr

/-- One entry: an empty inode is a common prefix, and a layout that is not listable is passed over
    before the last key is set. -/
def listEntry (listing : Listing) (entry : Entry) : Except S3Error Listing :=
  match entry.2 with
  | none =>
    .ok
      { listing with commonPrefixes := listing.commonPrefixes ++ [entry.1.drop 1],
                     lastKey := some entry.1 }
  | some object =>
    if object.isListable = false then .ok listing
    else do
      let obj ← (fromLayoutAndKey object (entry.1.drop 1)).mapError ObjectLayoutError.toS3Error
      return { listing with objs := listing.objs ++ [obj], lastKey := some entry.1 }

structure ListReply where
  objs : List ListedObject
  commonPrefixes : List Bytes
  nextContinuationToken : Option Bytes
  deriving DecidableEq, Repr

def listObjects (resp : ListInodesResponse) : Except S3Error ListReply := do
  let (entries, hasMore) ← (parseListInodes resp).mapError NssError.toS3Error
  let listing ← entries.foldlM listEntry ⟨[], [], none⟩
  return ⟨listing.objs, listing.commonPrefixes,
    if hasMore = false then none else listing.lastKey.map fun key => key.drop 1⟩

structure ListCall where
  maxKeys : Nat
  keyPrefix : Bytes
  delimiter : Bytes
  startAfter : Bytes
  deriving DecidableEq, Repr

/-- The encoding must be `url` and the delimiter a slash, if they are given. -/
def checkListOpts (encodingType delimiter : Option Bytes) : Except S3Error Unit :=
  if encodingType.any fun encoding => encoding ≠ ascii "url" then .error .invalidArgument1
  else if delimiter.getD [] ≠ [] ∧ delimiter.getD [] ≠ ascii "/" then .error .unsupportedArgument
  else .ok ()

structure ListObjectsOpts where
  delimiter : Option Bytes := none
  encodingType : Option Bytes := none
  marker : Option Bytes := none
  maxKeys : Option Nat := none
  keyPrefix : Option Bytes := none

def ListObjectsOpts.call (opts : ListObjectsOpts) : Except S3Error ListCall := do
  checkListOpts opts.encodingType opts.delimiter
  return ⟨opts.maxKeys.getD 1000, 47 :: opts.keyPrefix.getD [], opts.delimiter.getD [],
    match opts.marker with
    | some marker => 47 :: marker
    | none => []⟩

structure ListObjectsV2Opts where
  listType : Option Bytes := none
  continuationToken : Option Bytes := none
  delimiter : Option Bytes := none
  encodingType : Option Bytes := none
  maxKeys : Option Nat := none
  keyPrefix : Option Bytes := none
  startAfter : Option Bytes := none

def ListObjectsV2Opts.call (opts : ListObjectsV2Opts) : Except S3Error ListCall :=
  if opts.listType ≠ some (ascii "2") then .error .invalidArgument1
  else do
    checkListOpts opts.encodingType opts.delimiter
    let startAfter := opts.startAfter.getD (opts.continuationToken.getD [])
    return ⟨opts.maxKeys.getD 1000, 47 :: opts.keyPrefix.getD [], opts.delimiter.getD [],
      if startAfter = [] then [] else 47 :: startAfter⟩

/-! ## §2. A client that follows the tokens -/

inductive ListApi
  | listObjects
  | listObjectsV2
  deriving DecidableEq, Repr

def ListApi.call (api : ListApi) (maxKeys : Nat) (keyPrefix : Bytes) (token : Option Bytes) : Except
    S3Error ListCall :=
  match api with
  | .listObjects =>
    ListObjectsOpts.call { marker := token, maxKeys := some maxKeys, keyPrefix := some keyPrefix }
  | .listObjectsV2 =>
    ListObjectsV2Opts.call
      { listType := some (ascii "2"), continuationToken := token, maxKeys := some maxKeys,
        keyPrefix := some keyPrefix }

section

variable (api : ListApi) (nss : ListCall → ListInodesResponse) (maxKeys : Nat) (keyPrefix : Bytes)

def listPage (token : Option Bytes) : Except S3Error ListReply := do
  let call ← api.call maxKeys keyPrefix token
  listObjects (nss call)

/-- The objects of all pages: each request carries the token of the last reply. -/
def followTokens : Nat → Option Bytes → Option (Except S3Error (List ListedObject))
  | 0, _ => none
  | n + 1, token =>
    match listPage api nss maxKeys keyPrefix token with
    | .error e => some (.error e)
    | .ok reply =>
      match reply.nextContinuationToken with
      | none => some (.ok reply.objs)
      | some next => (followTokens n (some next)).map fun r => r.map (reply.objs ++ ·)

end

/-! ## §3. The bucket and the service -/

structure BucketContent where
  entries : List Entry
  ascending : entries.Pairwise fun a b => compare a.1 b.1 = .lt
  userKey : ∀ e ∈ entries, ∃ name, name ≠ [] ∧ e.1 = 47 :: name
  noNul : ∀ e ∈ entries, e.1.getLast? ≠ some 0

def BucketContent.under (bucket : BucketContent) (keyPrefix : Bytes) : List Entry :=
  bucket.entries.filter fun e => keyPrefix.isPrefixOf e.1

def BucketContent.after (bucket : BucketContent) (keyPrefix startAfter : Bytes) : List Entry :=
  bucket.entries.filter fun e => keyPrefix.isPrefixOf e.1 && decide (compare startAfter e.1 = .lt)

def Entry.wire (e : Entry) : Bytes × Inode :=
  (e.1, match e.2 with
    | some layout => .layout layout
    | none => .empty)

def PageOf (lo hi : Nat) (l : List Entry) (resp : ListInodesResponse) : Prop :=
  ∃ n, n ≤ hi ∧ (lo ≤ n ∨ l.length ≤ n) ∧ resp = .ok ((l.take n).map Entry.wire)
    (decide (n < l.length))

def Replies (p : Nat) (bucket : BucketContent) (nss : ListCall → ListInodesResponse) : Prop :=
  ∀ call, p ≤ call.maxKeys → PageOf p call.maxKeys (bucket.after call.keyPrefix call.startAfter)
    (nss call)

def Entry.shown (e : Entry) : Bool :=
  match e.2 with
  | none => true
  | some object => object.isListable

def Entry.kept (e : Entry) : Option (Bytes × Layout) := (e.2.filter Layout.isListable).map (e.1, ·)

def ListsOnce (api : ListApi) (nss : ListCall → ListInodesResponse) (bucket : BucketContent)
    (keyPrefix : Bytes) (maxKeys : Nat) : Prop :=
  ∃ n objs, followTokens api nss maxKeys keyPrefix n none = some (.ok objs)
    ∧ objs.map ListedObject.key = ((bucket.under (47 :: keyPrefix)).filterMap Entry.kept).map
      fun e => e.1.drop 1

/-! ## §4. One reply -/

theorem listEntries_wire {l : List Entry} (hnul : ∀ e ∈ l, e.1.getLast? ≠ some 0) :
    listEntries (l.map Entry.wire) = .ok l := by
  induction l with
  | nil => rfl
  | cons e l ih =>
    have hrest := ih fun x hx => hnul x (mem_cons_of_mem _ hx)
    obtain ⟨key, layout⟩ := e
    cases layout with
    | none =>
      show (listEntries (l.map Entry.wire)).map ((key, none) :: ·) = _
      rw [hrest]
      rfl
    | some object =>
      show (listEntries (l.map Entry.wire)).map ((trimEndMatches 0 key, some object) :: ·) = _
      rw [hrest, trimEndMatches_of_getLast? (hnul (key, some object) mem_cons_self)]
      rfl

def listedObject (e : Bytes × Layout) : Except S3Error ListedObject :=
  (fromLayoutAndKey e.2 (e.1.drop 1)).mapError ObjectLayoutError.toS3Error

def lastShown (l : List Entry) : Option Entry := l.reverse.find? Entry.shown

theorem lastShown_cons (e : Entry) (l : List Entry) :
    lastShown (e :: l) = (lastShown l).or (if e.shown then some e else none) := by
  unfold lastShown
  rw [reverse_cons, List.find?_append, List.find?_singleton]

theorem key_of_listedObject {e : Bytes × Layout} {obj : ListedObject}
    (h : listedObject e = .ok obj) :
    obj.key = e.1.drop 1 := by
  unfold listedObject fromLayoutAndKey at h
  cases hetag : e.2.etag with
  | error x => rw [hetag] at h; cases h
  | ok etag =>
    cases hsize : e.2.size with
    | error x => rw [hetag, hsize] at h; cases h
    | ok size =>
      rw [hetag, hsize] at h
      cases h
      rfl

theorem foldlM_listEntry (l : List Entry) (listing : Listing) :
    l.foldlM listEntry listing = ((l.filterMap Entry.kept).mapM listedObject).map fun objs =>
      { objs := listing.objs ++ objs
        commonPrefixes := listing.commonPrefixes ++ l.filterMap fun e =>
          if e.2.isNone then some (e.1.drop 1) else none
        lastKey := ((lastShown l).map Prod.fst).or listing.lastKey } := by
  induction l generalizing listing with
  | nil =>
    show Except.ok listing = .ok _
    simp [lastShown]
  | cons e l ih =>
    obtain ⟨key, layout⟩ := e
    rw [foldlM_cons, lastShown_cons]
    cases layout with
    | none =>
      show l.foldlM listEntry _ = _
      rw [ih]
      have hkept : Entry.kept (key, none) = none := rfl
      have hshown : Entry.shown (key, none) = true := rfl
      rw [filterMap_cons_none hkept, hshown]
      cases lastShown l <;> simp
    | some object =>
      cases hlist : object.isListable with
      | false =>
        have hentry : listEntry listing (key, some object) = .ok listing := by
          show (if object.isListable = false then _ else _) = _
          rw [if_pos hlist]
        have hkept : Entry.kept (key, some object) = none := by
          unfold Entry.kept
          simp [Option.filter, hlist]
        have hshown : Entry.shown (key, some object) = false := hlist
        rw [hentry, filterMap_cons_none hkept, hshown]
        show l.foldlM listEntry listing = _
        rw [ih]
        cases lastShown l <;> simp
      | true =>
        have hkept : Entry.kept (key, some object) = some (key, object) := by
          unfold Entry.kept
          simp [Option.filter, hlist]
        have hshown : Entry.shown (key, some object) = true := hlist
        have hentry : listEntry listing (key, some object) = (listedObject (key, object)).map
          fun obj =>
            { listing with objs := listing.objs ++ [obj], lastKey := some key } := by
          show (if object.isListable = false then _ else _) = _
          rw [hlist, if_neg (by decide)]
          unfold listedObject
          cases (fromLayoutAndKey object (key.drop 1)).mapError ObjectLayoutError.toS3Error <;> rfl
        rw [hentry, filterMap_cons_some hkept, mapM_cons, hshown]
        cases listedObject (key, object) with
        | error e => rfl
        | ok obj =>
          show l.foldlM listEntry _ = _
          rw [ih]
          cases (l.filterMap Entry.kept).mapM listedObject with
          | error e => rfl
          | ok objs => cases lastShown l <;> simp [Except.map, bind, Except.bind, pure, Except.pure]

theorem listObjects_reply {page : List Entry} (hnul : ∀ e ∈ page, e.1.getLast? ≠ some 0)
    (hasMore : Bool) :
    listObjects (.ok (page.map Entry.wire) hasMore)
      = ((page.filterMap Entry.kept).mapM listedObject).map fun objs =>
        ⟨objs, page.filterMap fun e => if e.2.isNone then some (e.1.drop 1) else none,
          if hasMore = false then none else (lastShown page).map fun e => e.1.drop 1⟩ := by
  have hparse : parseListInodes (.ok (page.map Entry.wire) hasMore) = .ok (page, hasMore) := by
    show (listEntries (page.map Entry.wire)).map (·, hasMore) = _
    rw [listEntries_wire hnul]
    rfl
  unfold listObjects
  rw [hparse]
  show (page.foldlM listEntry ⟨[], [], none⟩ >>= _) = _
  rw [foldlM_listEntry]
  cases (page.filterMap Entry.kept).mapM listedObject with
  | error e => rfl
  | ok objs =>
    cases hasMore with
    | false => rfl
    | true => cases hlast : lastShown page <;> rfl

theorem listObjects_page {page : List Entry} (hnul : ∀ e ∈ page, e.1.getLast? ≠ some 0)
    (hasMore : Bool) :
    ∃ commonPrefixes, listObjects (.ok (page.map Entry.wire) hasMore)
      = ((page.filterMap Entry.kept).mapM listedObject).map fun objs =>
        ⟨objs, commonPrefixes, if hasMore = false then none
          else (lastShown page).map fun e => e.1.drop 1⟩ :=
  ⟨_, listObjects_reply hnul hasMore⟩

/-! ## §5. Pages of the bucket -/

def startAfterOf : Option Bytes → Bytes
  | none => []
  | some token => 47 :: token

theorem ListApi.call_eq (api : ListApi) (maxKeys : Nat) (keyPrefix : Bytes) {token : Option Bytes}
    (htoken : token ≠ some []) :
    api.call maxKeys keyPrefix token = .ok ⟨maxKeys, 47 :: keyPrefix, [], startAfterOf token⟩ := by
  cases token with
  | none => cases api <;> rfl
  | some name =>
    have hname : name ≠ [] := fun h => htoken (by rw [h])
    cases api with
    | listObjects => rfl
    | listObjectsV2 =>
      show Except.ok (ListCall.mk maxKeys (47 :: keyPrefix) [] (if name = [] then []
        else 47 :: name)) = _
      rw [if_neg hname]
      rfl

namespace BucketContent

variable {bucket : BucketContent} {keyPrefix startAfter : Bytes}

theorem mem_of_after {e : Entry} (h : e ∈ bucket.after keyPrefix startAfter) :
    e ∈ bucket.entries ∧ compare startAfter e.1 = .lt := by
  obtain ⟨hmem, hcond⟩ := mem_filter.mp h
  exact ⟨hmem, of_decide_eq_true (Bool.and_eq_true_iff.mp hcond).2⟩

theorem after_nil (bucket : BucketContent) (keyPrefix : Bytes) :
    bucket.after keyPrefix [] = bucket.under keyPrefix := by
  refine filter_congr fun e he => ?_
  obtain ⟨name, -, hname⟩ := bucket.userKey e he
  have hlt : compare ([] : Bytes) e.1 = .lt := by rw [hname]; rfl
  rw [hlt, decide_eq_true rfl, Bool.and_true]

theorem after_of_split {front back : List Entry} {e : Entry}
    (h : bucket.after keyPrefix startAfter = front ++ e :: back) :
    bucket.after keyPrefix e.1 = back := by
  have hafter : compare startAfter e.1 = .lt := (mem_of_after (by rw [h]; simp)).2
  have hfilter : bucket.after keyPrefix e.1
      = (bucket.after keyPrefix startAfter).filter fun x => decide (compare e.1 x.1 = .lt) := by
    unfold after
    rw [filter_filter]
    refine filter_congr fun x _ => ?_
    by_cases hx : compare e.1 x.1 = .lt
    · have htrans : compare startAfter x.1 = .lt := Std.TransCmp.lt_trans hafter hx
      simp [hx, htrans]
    · simp [hx]
  have hsorted : (front ++ e :: back).Pairwise fun a b => compare a.1 b.1 = .lt := by
    rw [← h]
    exact bucket.ascending.filter _
  obtain ⟨-, hcons, hfront⟩ := pairwise_append.mp hsorted
  rw [hfilter, h, filter_append, filter_cons]
  have hself : decide (compare e.1 e.1 = .lt) = false := by rw [Std.compare_self]; rfl
  have hnone : front.filter (fun x => decide (compare e.1 x.1 = .lt)) = [] := by
    refine filter_eq_nil_iff.mpr fun x hx => ?_
    have hlt := hfront x hx e mem_cons_self
    rw [Std.OrientedCmp.gt_of_lt hlt]
    decide
  have hall : back.filter (fun x => decide (compare e.1 x.1 = .lt)) = back :=
    filter_eq_self.mpr fun x hx => decide_eq_true ((pairwise_cons.mp hcons).1 x hx)
  rw [hnone, hself, hall]
  rfl

end BucketContent

theorem lastShown_cases (page : List Entry) :
    (lastShown page = none ∧ ∀ e ∈ page, e.shown = false)
      ∨ ∃ front e hidden, page = front ++ e :: hidden ∧ lastShown page = some e ∧ e.shown = true
        ∧ ∀ x ∈ hidden, x.shown = false := by
  unfold lastShown
  cases hfind : page.reverse.find? Entry.shown with
  | none =>
    refine .inl ⟨rfl, fun e he => ?_⟩
    have hnot := List.find?_eq_none.mp hfind e (mem_reverse.mpr he)
    simpa using hnot
  | some e =>
    obtain ⟨he, hidden, front, hsplit, hhidden⟩ := List.find?_eq_some_iff_append.mp hfind
    refine .inr ⟨front.reverse, e, hidden.reverse, ?_, rfl, he, fun x hx => ?_⟩
    · have := congrArg List.reverse hsplit
      simpa using this
    · simpa using hhidden x (mem_reverse.mp hx)

/-! ## §6. Following the tokens -/

section

variable {api : ListApi} {nss : ListCall → ListInodesResponse} {bucket : BucketContent}
  {keyPrefix : Bytes} {maxKeys lo hi : Nat}

def Pages (nss : ListCall → ListInodesResponse) (bucket : BucketContent) (keyPrefix : Bytes)
    (maxKeys lo hi : Nat) :
    Prop :=
  ∀ token, PageOf lo hi (bucket.after (47 :: keyPrefix) (startAfterOf token))
    (nss ⟨maxKeys, 47 :: keyPrefix, [], startAfterOf token⟩)

variable {token : Option Bytes} {e : Entry} {objs : List ListedObject} {l : List (Bytes × Layout)}

theorem listPage_page (api : ListApi) (hpages : Pages nss bucket keyPrefix maxKeys lo hi)
    (htoken : token ≠ some []) :
    ∃ page rest commonPrefixes, bucket.after (47 :: keyPrefix) (startAfterOf token) = page ++ rest
      ∧ page.length ≤ hi ∧ (rest ≠ [] → lo ≤ page.length)
      ∧ listPage api nss maxKeys keyPrefix token
        = ((page.filterMap Entry.kept).mapM listedObject).map fun objs =>
        ⟨objs, commonPrefixes, if rest = [] then none
          else (lastShown page).map fun e => e.1.drop 1⟩ := by
  obtain ⟨n, hhi, hlo, hresp⟩ := hpages token
  generalize hl : bucket.after (47 :: keyPrefix) (startAfterOf token) = l at hlo hresp ⊢
  have hnul : ∀ e ∈ l.take n, e.1.getLast? ≠ some 0 := by
    intro e he
    have hmem : e ∈ bucket.after (47 :: keyPrefix) (startAfterOf token) := by
      rw [hl]
      exact mem_of_mem_take he
    exact bucket.noNul e (BucketContent.mem_of_after hmem).1
  obtain ⟨commonPrefixes, hreply⟩ := listObjects_page hnul (decide (n < l.length))
  refine ⟨l.take n, l.drop n, commonPrefixes, (take_append_drop n l).symm, ?_, ?_, ?_⟩
  · exact Nat.le_trans (length_take_le ..) hhi
  · intro hrest
    have hlt : n < l.length := by
      by_contra hge
      exact hrest (drop_eq_nil_of_le (by omega))
    rw [length_take]
    omega
  · have hmore : decide (n < l.length) = false ↔ l.drop n = [] := by
      rw [decide_eq_false_iff_not, drop_eq_nil_iff]
      omega
    unfold listPage
    rw [ListApi.call_eq api maxKeys keyPrefix htoken]
    show listObjects (nss _) = _
    rw [hresp, hreply]
    simp only [hmore]

theorem startAfterOf_token (he : e ∈ bucket.entries) :
    startAfterOf (some (e.1.drop 1)) = e.1 ∧ some (e.1.drop 1) ≠ some [] := by
  obtain ⟨name, hne, hname⟩ := bucket.userKey e he
  rw [hname]
  exact ⟨rfl, fun h => hne (Option.some.inj h)⟩

theorem mapM_listedObject_append {front back : List (Bytes × Layout)} {more : List ListedObject}
    (hfront : front.mapM listedObject = .ok objs) (hback : back.mapM listedObject = .ok more) :
    (front ++ back).mapM listedObject = .ok (objs ++ more) := by
  rw [mapM_append, hfront]
  show (back.mapM listedObject >>= fun y => .ok (objs ++ y)) = _
  rw [hback]
  rfl

theorem exists_mapM_listedObject (h : ∀ o ∈ l, ∃ obj, listedObject o = .ok obj) :
    ∃ objs, l.mapM listedObject = .ok objs := by
  induction l with
  | nil => exact ⟨[], rfl⟩
  | cons o l ih =>
    obtain ⟨obj, hobj⟩ := h o mem_cons_self
    obtain ⟨objs, hobjs⟩ := ih fun x hx => h x (mem_cons_of_mem _ hx)
    refine ⟨obj :: objs, ?_⟩
    rw [mapM_cons, hobj]
    show (l.mapM listedObject >>= fun y => .ok (obj :: y)) = _
    rw [hobjs]
    rfl

theorem kept_of_hidden (e : Entry) (h : e.shown = false) : e.kept = none := by
  obtain ⟨key, layout⟩ := e
  cases layout with
  | none => cases h
  | some object =>
    have hlist : object.isListable = false := h
    unfold Entry.kept
    simp [Option.filter, hlist]

theorem kept_of_split {front hidden : List Entry} (hhidden : ∀ x ∈ hidden, x.shown = false) :
    (front ++ e :: hidden).filterMap Entry.kept = (front ++ [e]).filterMap Entry.kept := by
  have hnone : hidden.filterMap Entry.kept = [] :=
    filterMap_eq_nil_iff.mpr fun x hx => kept_of_hidden x (hhidden x hx)
  have hsplit : front ++ e :: hidden = (front ++ [e]) ++ hidden := by simp
  rw [hsplit, filterMap_append, hnone, append_nil]

theorem walk_of_followTokens (hpages : Pages nss bucket keyPrefix maxKeys lo hi) {n : Nat}
    (htoken : token ≠ some [])
    (h : followTokens api nss maxKeys keyPrefix n token = some (.ok objs)) :
    ∃ out, Walk lo hi Entry.shown Entry.kept (bucket.after (47 :: keyPrefix) (startAfterOf token))
      out
      ∧ out.mapM listedObject = .ok objs := by
  induction n generalizing token objs with
  | zero => cases h
  | succ n ih =>
    obtain ⟨page, rest, commonPrefixes, hafter, hhi, hlo, hpage⟩ := listPage_page api hpages htoken
    rw [followTokens, hpage] at h
    rw [hafter]
    cases hobjs : (page.filterMap Entry.kept).mapM listedObject with
    | error e =>
      rw [hobjs] at h
      cases h
    | ok first =>
      rw [hobjs] at h
      by_cases hrest : rest = []
      · -- the last page
        subst hrest
        have heq : first = objs := Except.ok.inj (Option.some.inj h)
        rw [append_nil]
        exact ⟨_, .last hhi, by rw [hobjs, heq]⟩
      · rcases lastShown_cases page with ⟨hlast, hhidden⟩ | ⟨front, e, hidden, rfl, hlast, he,
          hhidden⟩
        · -- nothing is shown, and there is no token
          simp only [Except.map, hrest, hlast] at h
          have heq : first = objs := Except.ok.inj (Option.some.inj h)
          exact ⟨_, .stuck hrest (hlo hrest) hhi hhidden, by rw [hobjs, heq]⟩
        · have hsplit : bucket.after (47 :: keyPrefix) (startAfterOf token) = front ++ e
            :: (hidden ++ rest) := by
            rw [hafter]
            simp
          have hmem : e ∈ bucket.entries := (BucketContent.mem_of_after (by rw [hsplit]; simp)).1
          obtain ⟨hstart, hne⟩ := startAfterOf_token hmem
          simp only [Except.map, hrest, hlast, if_false] at h
          cases hnext : followTokens api nss maxKeys keyPrefix n (some (e.1.drop 1)) with
          | none =>
            simp only [Option.map] at h
            rw [hnext] at h
            cases h
          | some r =>
            simp only [Option.map] at h
            rw [hnext] at h
            cases r with
            | error err => cases h
            | ok more =>
              have heq : first ++ more = objs := Except.ok.inj (Option.some.inj h)
              obtain ⟨out, hwalk, hout⟩ := ih hne hnext
              rw [hstart, BucketContent.after_of_split hsplit] at hwalk
              rw [kept_of_split hhidden] at hobjs
              refine ⟨(front ++ [e]).filterMap Entry.kept ++ out, ?_, ?_⟩
              · rw [append_assoc]
                exact .more hrest (hlo hrest) hhi he hhidden hwalk
              · rw [mapM_listedObject_append hobjs hout, heq]

theorem followTokens_ends (api : ListApi) (hpages : Pages nss bucket keyPrefix maxKeys lo hi)
    (htoken : token ≠ some [])
    (hlisted : ∀ e ∈ bucket.after (47 :: keyPrefix) (startAfterOf token), ∀ o ∈ e.kept, ∃ obj,
    listedObject o = .ok obj) :
    ∃ n objs, followTokens api nss maxKeys keyPrefix n token = some (.ok objs) := by
  generalize hl : bucket.after (47 :: keyPrefix) (startAfterOf token) = l at hlisted
  induction hlen : l.length using Nat.strong_induction_on generalizing token l with
  | _ len ih =>
    obtain ⟨page, rest, commonPrefixes, hafter, hhi, hlo, hpage⟩ := listPage_page api hpages htoken
    rw [hl] at hafter
    obtain ⟨first, hfirst⟩ :
        ∃ first, (page.filterMap Entry.kept).mapM listedObject = .ok first := by
      refine exists_mapM_listedObject fun o ho => ?_
      obtain ⟨e, he, hkept⟩ := mem_filterMap.mp ho
      exact hlisted e (by rw [hafter]; exact mem_append_left _ he) o hkept
    rw [hfirst] at hpage
    by_cases hrest : rest = []
    · refine ⟨1, first, ?_⟩
      rw [followTokens, hpage]
      simp only [Except.map, hrest, if_true]
    · rcases lastShown_cases page with ⟨hlast, -⟩ | ⟨front, e, hidden, rfl, hlast, he, -⟩
      · refine ⟨1, first, ?_⟩
        rw [followTokens, hpage]
        simp only [Except.map, hrest, hlast, if_false, Option.map]
      · have hsplit : bucket.after (47 :: keyPrefix) (startAfterOf token) = front ++ e
          :: (hidden ++ rest) := by
          rw [hl, hafter]
          simp
        have hmem : e ∈ bucket.entries := (BucketContent.mem_of_after (by rw [hsplit]; simp)).1
        obtain ⟨hstart, hne⟩ := startAfterOf_token hmem
        have hnext : bucket.after (47 :: keyPrefix) (startAfterOf (some (e.1.drop 1)))
            = hidden ++ rest := by
          rw [hstart]
          exact BucketContent.after_of_split hsplit
        have hlist : l = front ++ e :: (hidden ++ rest) := hl.symm.trans hsplit
        have hshort : (hidden ++ rest).length < len := by
          rw [← hlen, hlist]
          simp only [length_append, length_cons]
          omega
        obtain ⟨n, objs, hmore⟩ := ih _ hshort hne _ hnext
          (fun x hx => hlisted x (by rw [hlist]; simp only [mem_append, mem_cons] at hx ⊢; tauto))
            rfl
        refine ⟨n + 1, first ++ objs, ?_⟩
        rw [followTokens, hpage]
        simp only [Except.map, hrest, hlast, if_false, Option.map, hmore]

/-! ## §7. When every object is found -/

theorem keys_of_mapM (h : l.mapM listedObject = .ok objs) :
    objs.map ListedObject.key = l.map fun e => e.1.drop 1 := by
  have hkeys : List.Forall₂ (fun e obj => e.1.drop 1 = ListedObject.key obj) l objs :=
    (forall₂_of_mapM h).imp fun e obj hobj => (key_of_listedObject hobj).symm
  have heq := forall₂_map_left_iff.mpr (forall₂_map_right_iff.mpr hkeys)
  rw [forall₂_eq_eq_eq] at heq
  exact heq.symm

theorem listedObject_ok_iff {o : Bytes × Layout} (h : o.2.isListable = true) :
    (∃ obj, listedObject o = .ok obj) ↔ ∀ data, o.2.state ≠ .indirect data := by
  obtain ⟨key, object⟩ := o
  unfold listedObject fromLayoutAndKey Layout.etag Layout.size
  unfold Layout.isListable at h
  cases hstate : object.state with
  | normal guid core | symlink target core => exact ⟨fun _ => nofun, fun _ => ⟨_, rfl⟩⟩
  | mpu state =>
    cases state with
    | uploading =>
      rw [hstate] at h
      cases h
    | completed core => exact ⟨fun _ => nofun, fun _ => ⟨_, rfl⟩⟩
  | special data | directory data =>
    rw [hstate] at h
    cases h
  | indirect data =>
    refine ⟨fun ⟨obj, hobj⟩ => ?_, fun hne => (hne data rfl).elim⟩
    cases hobj

theorem listedObject_of_mapM
    (h : l.mapM listedObject = .ok objs) : ∀ o ∈ l, ∃ obj, listedObject o = .ok obj := by
  have hall := forall₂_of_mapM h
  clear h
  induction hall with
  | nil => exact fun o ho => by cases ho
  | cons hobj _ ih => exact forall_mem_cons.mpr ⟨⟨_, hobj⟩, ih⟩

theorem kept_eq_some {o : Bytes × Layout} :
    e.kept = some o ↔ e = (o.1, some o.2) ∧ o.2.isListable = true := by
  obtain ⟨key, layout⟩ := e
  obtain ⟨key', object⟩ := o
  unfold Entry.kept
  cases layout with
  | none => simp
  | some layout =>
    simp only [Option.filter]
    constructor
    · intro h
      split at h
      · next hlist =>
        cases h
        exact ⟨rfl, hlist⟩
      · cases h
    · rintro ⟨heq, hlist⟩
      cases heq
      rw [if_pos hlist]
      rfl

def NoIndirection (l : List Entry) : Prop := ∀ e ∈ l, ∀ object, e.2 = some object →
    ∀ data, object.state ≠ .indirect data

theorem noIndirection_iff (l : List Entry) :
    NoIndirection l ↔ ∀ e ∈ l, ∀ o ∈ e.kept, ∃ obj, listedObject o = .ok obj := by
  constructor
  · intro h e he o ho
    obtain ⟨rfl, hlist⟩ := kept_eq_some.mp ho
    exact (listedObject_ok_iff hlist).mpr (h _ he o.2 rfl)
  · intro h e he object hobject data hstate
    have hlist : object.isListable = true := by
      unfold Layout.isListable
      rw [hstate]
    have hkept : e.kept = some (e.1, object) := kept_eq_some.mpr ⟨by rw [← hobject], hlist⟩
    exact (listedObject_ok_iff hlist).mp (h e he _ hkept) data hstate

def exactly (p : Nat) (bucket : BucketContent) (call : ListCall) : ListInodesResponse :=
  let l := bucket.after call.keyPrefix call.startAfter
  .ok ((l.take p).map Entry.wire) (decide (p < l.length))

theorem replies_exactly (p : Nat) (bucket : BucketContent) : Replies p bucket (exactly p bucket) :=
  fun _ hmax => ⟨p, hmax, .inl le_rfl, rfl⟩

/-- ★ **When the tokens lead to every object.** Whatever service answers at least `p` keys at a
    time, the listing is complete: exactly if behind `p` unlistable entries in a row there is no
    object, and no entry is an indirection. -/
theorem tokens_list_all_iff (api : ListApi) (bucket : BucketContent) (keyPrefix : Bytes)
    {p maxKeys : Nat} (hmax : p ≤ maxKeys) :
    (∀ nss, Replies p bucket nss → ListsOnce api nss bucket keyPrefix maxKeys)
      ↔ NoGap Entry.shown Entry.kept p (bucket.under (47 :: keyPrefix))
        ∧ NoIndirection (bucket.under (47 :: keyPrefix)) := by
  have hstart : bucket.after (47 :: keyPrefix) (startAfterOf none) = bucket.under
    (47 :: keyPrefix) :=
    bucket.after_nil _
  have hnone : (none : Option Bytes) ≠ some [] := nofun
  constructor
  · intro h
    obtain ⟨n, objs, hfollow, hkeys⟩ := h _ (replies_exactly p bucket)
    have hpages : Pages (exactly p bucket) bucket keyPrefix maxKeys p p :=
      fun token => ⟨p, le_rfl, .inl le_rfl, rfl⟩
    obtain ⟨out, hwalk, hout⟩ := walk_of_followTokens hpages hnone hfollow
    rw [hstart] at hwalk
    have hlen : out.length = ((bucket.under (47 :: keyPrefix)).filterMap Entry.kept).length := by
      have := congrArg List.length ((keys_of_mapM hout).symm.trans hkeys)
      simpa only [length_map] using this
    have hgap : NoGap Entry.shown Entry.kept p (bucket.under (47 :: keyPrefix)) := by
      intro pre run post hsplit hrun hhidden e he
      by_contra hkept
      -- what was found is from before the gap, and `e` is behind it
      obtain ⟨seen, hseen, rfl⟩ := hwalk.lost kept_of_hidden hsplit hrun hhidden (ne_nil_of_mem he)
      have hbefore : (seen.filterMap Entry.kept).length ≤ (pre.filterMap Entry.kept).length :=
        (hseen.sublist.filterMap _).length_le
      have hbehind : 0 < (post.filterMap Entry.kept).length := by
        obtain ⟨o, ho⟩ := Option.ne_none_iff_exists'.mp hkept
        exact length_pos_of_mem (mem_filterMap.mpr ⟨e, he, ho⟩)
      rw [hsplit, filterMap_append, filterMap_append, length_append, length_append] at hlen
      omega
    refine ⟨hgap, (noIndirection_iff _).mpr fun e he o ho => ?_⟩
    rw [hwalk.complete hgap] at hout
    exact listedObject_of_mapM hout o (mem_filterMap.mpr ⟨e, he, ho⟩)
  · rintro ⟨hgap, hdirect⟩ nss hnss
    have hpages : Pages nss bucket keyPrefix maxKeys p maxKeys := 
      fun token => hnss ⟨maxKeys, 47 :: keyPrefix, [], startAfterOf token⟩ hmax
    obtain ⟨n, objs, hfollow⟩ := followTokens_ends api hpages hnone
      (by rw [hstart]; exact (noIndirection_iff _).mp hdirect)
    obtain ⟨out, hwalk, hout⟩ := walk_of_followTokens hpages hnone hfollow
    rw [hstart] at hwalk
    refine ⟨n, objs, hfollow, ?_⟩
    rw [keys_of_mapM hout, hwalk.complete hgap]

def twoKeys (first : Layout) : BucketContent where
  entries :=
    [(ascii "/a", some first),
    (ascii "/b", some (completedLayout (uploadingLayout 2 0) 3 [] [] none))]
  ascending := by simp only [pairwise_cons]; decide
  userKey := by
    intro e he
    simp only [mem_cons, not_mem_nil, or_false] at he
    rcases he with rfl | rfl
    · exact ⟨ascii "a", by decide, rfl⟩
    · exact ⟨ascii "b", by decide, rfl⟩
  noNul := by
    intro e he
    simp only [mem_cons, not_mem_nil, or_false] at he
    rcases he with rfl | rfl
    · show (ascii "/a").getLast? ≠ some 0
      decide
    · show (ascii "/b").getLast? ≠ some 0
      decide

theorem tokens_list_all_at_sample :
    1 ≤ 1 ∧ ∀ nss, Replies 1 (twoKeys (completedSample 3)) nss →
      ListsOnce .listObjectsV2 nss (twoKeys (completedSample 3)) [] 1 := by
  refine ⟨Nat.le_refl 1, (tokens_list_all_iff .listObjectsV2 _ [] (Nat.le_refl 1)).mpr ⟨?_, ?_⟩⟩
  · intro pre run post hsplit hrun hhidden
    exfalso
    -- both entries are shown
    obtain ⟨x, rfl⟩ := length_eq_one_iff.mp hrun
    have hmem : x ∈ (twoKeys (completedSample 3)).under (47 :: []) := by
      rw [hsplit]
      simp
    have hx : x ∈ (twoKeys (completedSample 3)).entries := (mem_filter.mp hmem).1
    simp only [twoKeys, mem_cons, not_mem_nil, or_false] at hx
    have hhid := hhidden x (by simp)
    rcases hx with rfl | rfl <;> cases hhid
  · intro e he object hobject data hstate
    have hx : e ∈ (twoKeys (completedSample 3)).entries := (mem_filter.mp he).1
    simp only [twoKeys, mem_cons, not_mem_nil, or_false] at hx
    rcases hx with rfl | rfl <;> cases hobject <;> cases hstate

theorem tokens_end_at_hidden_page :
    Replies 1 (twoKeys pendingSample) (exactly 1 (twoKeys pendingSample))
      ∧ ¬ ListsOnce .listObjectsV2 (exactly 1 (twoKeys pendingSample)) (twoKeys pendingSample) []
        1 := by
  refine ⟨replies_exactly 1 _, ?_⟩
  rintro ⟨n, objs, hfollow, hkeys⟩
  cases n with
  | zero => cases hfollow
  | succ n =>
    have hnothing : followTokens .listObjectsV2 (exactly 1 (twoKeys pendingSample)) 1 [] (n + 1)
        none = some (.ok []) := by
      have hpage : listPage .listObjectsV2 (exactly 1 (twoKeys pendingSample)) 1 [] none
          = .ok ⟨[], [], none⟩ := by rfl
      rw [followTokens, hpage]
    rw [hnothing] at hfollow
    cases hfollow
    exact absurd hkeys (by decide)

end

end FractalBits.Objects
