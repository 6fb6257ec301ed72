/-
  Objects.StartAfter — ListObjectsV2 with a start and a token.

  Mirrors the merge of `start-after` and `continuation-token` in `list_objects_v2_handler`: a start
  that is given takes the place of the token.
-/

import FractalBits.Objects.Listing

namespace FractalBits.Objects

open Lib Streaming Gateway List

/-! ## §1. Requests and paginators -/

def listObjectsV2 (nss : ListCall → ListInodesResponse) (opts : ListObjectsV2Opts) : Except S3Error
    ListReply := do
  let call ← opts.call
  listObjects (nss call)

def ListReply.keys (reply : ListReply) : List Bytes :=
    reply.objs.map ListedObject.key ++ reply.commonPrefixes

/-- The pages of a client that sends its query again with each token. It stops at an error, and at a
    reply without a token. -/
def paginate (nss : ListCall → ListInodesResponse) (opts : ListObjectsV2Opts) :
    Nat → Option Bytes → Option (List ListReply)
  | 0, _ => none
  | n + 1, token =>
    match listObjectsV2 nss { opts with continuationToken := token } with
    | .error _ => some []
    | .ok reply =>
      match reply.nextContinuationToken with
      | none => some [reply]
      | some next => (paginate nss opts n (some next)).map (reply :: ·)

def Increasing (pages : List ListReply) : Prop :=
  pages.Pairwise fun first second => ∀ key ∈ first.keys, ∀ key' ∈ second.keys,
    compare key key' = .lt

/-! ## §2. The service -/

/-- What is left for a call. Keys behind the delimiter are one common prefix. -/
def remaining (content : Bytes → BucketContent) (call : ListCall) : List Entry :=
  (content call.delimiter).after call.keyPrefix call.startAfter

/-- A service whose replies are the next entries strictly after the start, any number up to the
    limit. -/
def Honest (content : Bytes → BucketContent) (nss : ListCall → ListInodesResponse) : Prop :=
  ∀ call, PageOf 0 call.maxKeys (remaining content call) (nss call)

def upTo (n : Nat) (content : Bytes → BucketContent) (call : ListCall) : ListInodesResponse :=
  .ok (((remaining content call).take (min n call.maxKeys)).map Entry.wire)
    (decide (min n call.maxKeys < (remaining content call).length))

theorem honest_upTo (n : Nat) (content : Bytes → BucketContent) : Honest content (upTo n content) :=
  fun call => ⟨min n call.maxKeys, Nat.min_le_right .., .inl (Nat.zero_le _), rfl⟩

def Reaches (n : Nat) (l : List Entry) (e : Entry) (back : List Entry) : Prop :=
  ∃ front, l = front ++ e :: back ∧ front.length < n ∧ NoIndirection (front ++ [e]) ∧ e.shown = true

section

variable {content : Bytes → BucketContent} {nss : ListCall → ListInodesResponse}
  {opts : ListObjectsV2Opts} {call : ListCall} {reply : ListReply}

theorem compare_slash (a b : Bytes) : compare (47 :: a) (47 :: b) = compare a b := by
  show List.compareLex compare (47 :: a) (47 :: b) = List.compareLex compare a b
  rw [List.compareLex_cons_cons]
  rfl

variable {e : Entry} {token : Option Bytes} {n : Nat} {l : List Entry}

theorem compare_of_remaining {start : Bytes} (he : e ∈ remaining content call)
    (hstart : call.startAfter = if start = [] then [] else 47 :: start) :
    compare start (e.1.drop 1) = .lt := by
  obtain ⟨hmem, hlt⟩ := BucketContent.mem_of_after he
  obtain ⟨name, hne, hname⟩ := (content call.delimiter).userKey e hmem
  rw [hname] at hlt ⊢
  by_cases hempty : start = []
  · rw [hempty]
    cases name with
    | nil => exact absurd rfl hne
    | cons _ _ => rfl
  · rw [hstart, if_neg hempty, compare_slash] at hlt
    exact hlt

theorem ListObjectsV2Opts.call_cases (opts : ListObjectsV2Opts) :
    (∃ err, ∀ token, ListObjectsV2Opts.call { opts with continuationToken := token } = .error err)
      ∨ ∀ token, ListObjectsV2Opts.call { opts with continuationToken := token }
        = .ok ⟨opts.maxKeys.getD 1000, 47 :: opts.keyPrefix.getD [], opts.delimiter.getD [],
          if opts.startAfter.getD (token.getD []) = [] then []
            else 47 :: opts.startAfter.getD (token.getD [])⟩ := by
  unfold ListObjectsV2Opts.call
  by_cases htype : opts.listType ≠ some (ascii "2")
  · exact .inl ⟨_, fun _ => if_pos htype⟩
  · cases hcheck : checkListOpts opts.encodingType opts.delimiter with
    | error err =>
      refine .inl ⟨err, fun token => ?_⟩
      rw [if_neg htype]
      show (checkListOpts opts.encodingType opts.delimiter >>= _) = _
      rw [hcheck]
      rfl
    | ok _ =>
      refine .inr fun token => ?_
      rw [if_neg htype]
      show (checkListOpts opts.encodingType opts.delimiter >>= _) = _
      rw [hcheck]
      rfl

theorem listObjectsV2_of_start (hstart : opts.startAfter ≠ none) (token : Option Bytes) :
    listObjectsV2 nss { opts with continuationToken := token } = listObjectsV2 nss opts := by
  obtain ⟨a, ha⟩ := Option.ne_none_iff_exists'.mp hstart
  unfold listObjectsV2 ListObjectsV2Opts.call
  simp only [ha, Option.getD_some]

theorem startAfter_of_call (hstart : opts.startAfter = none) {token : Bytes}
    (htoken : opts.continuationToken = some token) (hcall : opts.call = .ok call) :
    call.startAfter = if token = [] then [] else 47 :: token := by
  rcases opts.call_cases with ⟨err, herr⟩ | hok
  · cases hcall.symm.trans (herr opts.continuationToken)
  · cases hcall.symm.trans (hok opts.continuationToken)
    rw [hstart, htoken]
    rfl

/-! ## §3. One reply -/

theorem shown_iff (e : Entry) : e.shown = true ↔ e.2.isNone = true ∨ ∃ o, e.kept = some o := by
  obtain ⟨key, layout⟩ := e
  cases layout with
  | none => exact ⟨fun _ => .inl rfl, fun _ => rfl⟩
  | some object =>
    constructor
    · intro h
      exact .inr ⟨(key, object), kept_eq_some.mpr ⟨rfl, h⟩⟩
    · rintro (h | ⟨o, ho⟩)
      · cases h
      · obtain ⟨heq, hlist⟩ := kept_eq_some.mp ho
        cases heq
        exact hlist

theorem mem_keys_iff {page : List Entry} {objs : List ListedObject}
    (hobjs : (page.filterMap Entry.kept).mapM listedObject = .ok objs) (key : Bytes) :
    key ∈ ListReply.keys ⟨objs, page.filterMap fun e => if e.2.isNone then some (e.1.drop 1)
      else none, token⟩ ↔ ∃ e ∈ page, e.shown = true ∧ e.1.drop 1 = key := by
  unfold ListReply.keys
  rw [mem_append, keys_of_mapM hobjs, mem_map, mem_filterMap]
  constructor
  · rintro (⟨o, ho, rfl⟩ | ⟨e, he, hkey⟩)
    · obtain ⟨e, he, hkept⟩ := mem_filterMap.mp ho
      obtain ⟨rfl, -⟩ := kept_eq_some.mp hkept
      exact ⟨_, he, (shown_iff _).mpr (.inr ⟨_, hkept⟩), rfl⟩
    · by_cases hnone : e.2.isNone = true
      · rw [if_pos hnone] at hkey
        exact ⟨e, he, (shown_iff e).mpr (.inl hnone), Option.some.inj hkey⟩
      · rw [if_neg hnone] at hkey
        cases hkey
  · rintro ⟨e, he, hshown, rfl⟩
    rcases (shown_iff e).mp hshown with hnone | ⟨o, ho⟩
    · exact .inr ⟨e, he, if_pos hnone⟩
    · refine .inl ⟨o, mem_filterMap.mpr ⟨e, he, ho⟩, ?_⟩
      rw [(kept_eq_some.mp ho).1]

theorem noIndirection_iff_mapM (page : List Entry) :
    NoIndirection page ↔ ∃ objs, (page.filterMap Entry.kept).mapM listedObject = .ok objs := by
  rw [noIndirection_iff]
  constructor
  · intro h
    refine exists_mapM_listedObject fun o ho => ?_
    obtain ⟨e, he, hkept⟩ := mem_filterMap.mp ho
    exact h e he o hkept
  · rintro ⟨objs, hobjs⟩ e he o ho
    exact listedObject_of_mapM hobjs o (mem_filterMap.mpr ⟨e, he, ho⟩)

structure Reflects (page rest : List Entry) (reply : ListReply) : Prop where
  direct : NoIndirection page
  keys : ∀ key, key ∈ reply.keys ↔ ∃ e ∈ page, e.shown = true ∧ e.1.drop 1 = key
  token : reply.nextContinuationToken = if rest = [] then none else (lastShown page).map fun e =>
    e.1.drop 1

theorem noNul_of_remaining (he : e ∈ remaining content call) : e.1.getLast? ≠ some 0 :=
  (content call.delimiter).noNul e (BucketContent.mem_of_after he).1

theorem reflects_take (h : listObjects (.ok (((remaining content call).take n).map Entry.wire)
      (decide (n < (remaining content call).length))) = .ok reply) :
    Reflects ((remaining content call).take n) ((remaining content call).drop n) reply := by
  rw [listObjects_reply fun e he => noNul_of_remaining (mem_of_mem_take he)] at h
  cases hobjs : (((remaining content call).take n).filterMap Entry.kept).mapM listedObject with
  | error err =>
    rw [hobjs] at h
    cases h
  | ok objs =>
    rw [hobjs] at h
    cases h
    refine ⟨(noIndirection_iff_mapM _).mpr ⟨objs, hobjs⟩, mem_keys_iff hobjs, ?_⟩
    have hmore : decide (n < (remaining content call).length) = false
      ↔ (remaining content call).drop n = [] := by
      rw [decide_eq_false_iff_not, drop_eq_nil_iff]
      omega
    simp only [hmore]

theorem Honest.answered (hnss : Honest content nss) (h : listObjects (nss call) = .ok reply) :
    ∃ n, n ≤ call.maxKeys ∧ Reflects ((remaining content call).take n)
      ((remaining content call).drop n) reply := by
  obtain ⟨n, hn, -, hresp⟩ := hnss call
  rw [hresp] at h
  exact ⟨n, hn, reflects_take h⟩

theorem listObjects_upTo
    (hdirect : NoIndirection ((remaining content call).take (min n call.maxKeys))) :
    ∃ reply, listObjects (upTo n content call) = .ok reply := by
  obtain ⟨objs, hobjs⟩ := (noIndirection_iff_mapM _).mp hdirect
  unfold upTo
  rw [listObjects_reply fun e he => noNul_of_remaining (mem_of_mem_take he), hobjs]
  exact ⟨_, rfl⟩

theorem Reflects.reaches {limit : Nat} (h : Reflects (l.take n) (l.drop n) reply)
    (hn : n ≤ limit) {front hidden : List Entry} (hsplit : l.take n = front ++ e :: hidden)
    (hshown : e.shown = true) : Reaches limit l e (hidden ++ l.drop n) := by
  have hlen : front.length < n := by
    have hle := length_take_le n l
    rw [hsplit, length_append, length_cons] at hle
    omega
  refine ⟨front, ?_, by omega, fun x hx => h.direct x ?_, hshown⟩
  · calc l = l.take n ++ l.drop n := (take_append_drop n l).symm
      _ = front ++ e :: (hidden ++ l.drop n) := by rw [hsplit]; simp
  · rw [hsplit]
    simp only [mem_append, mem_cons] at hx ⊢
    tauto

theorem Reaches.answered {back : List Entry}
    (h : Reaches call.maxKeys (remaining content call) e back) :
    ∃ n reply, listObjects (upTo n content call) = .ok reply ∧ e.1.drop 1 ∈ reply.keys
      ∧ (back ≠ [] → reply.nextContinuationToken = some (e.1.drop 1)) := by
  obtain ⟨front, hsplit, hlen, hdirect, hshown⟩ := h
  have hmin : min (front.length + 1) call.maxKeys = front.length + 1 := by omega
  have hpage : (remaining content call).take (front.length + 1) = front ++ [e] := by
    rw [hsplit, take_append, take_of_length_le (Nat.le_succ _)]
    simp
  have hrest : (remaining content call).drop (front.length + 1) = back := by
    rw [hsplit, drop_append]
    simp
  rw [← hpage, ← hmin] at hdirect
  obtain ⟨reply, hreply⟩ := listObjects_upTo hdirect
  have hreflects := hreply
  unfold upTo at hreflects
  rw [hmin] at hreflects
  replace hreflects := reflects_take hreflects
  rw [hpage, hrest] at hreflects
  refine ⟨front.length + 1, reply, hreply, (hreflects.keys _).mpr ⟨e, by simp, hshown, rfl⟩,
    fun hback => ?_⟩
  have hlast : lastShown (front ++ [e]) = some e := by
    unfold lastShown
    rw [reverse_append, reverse_singleton, singleton_append, List.find?_cons, hshown]
  rw [hreflects.token, if_neg hback, hlast]
  rfl

/-! ## §4. Page after page -/

theorem remaining_of_token (hstart : opts.startAfter = none) (htoken : token ≠ some [])
    (hcall : ListObjectsV2Opts.call { opts with continuationToken := token } = .ok call) :
    call.startAfter = startAfterOf token
      ∧ call.keyPrefix = 47 :: opts.keyPrefix.getD []
        ∧ call.delimiter = opts.delimiter.getD [] := by
  rcases opts.call_cases with ⟨err, herr⟩ | hok
  · rw [herr] at hcall
    cases hcall
  · rw [hok token, hstart] at hcall
    cases hcall
    refine ⟨?_, rfl, rfl⟩
    cases token with
    | none => rfl
    | some name => exact if_neg fun h => htoken (congrArg some h)

theorem listObjectsV2_cases (hnss : Honest content nss) (hstart : opts.startAfter = none)
    (htoken : token ≠ some [])
    (hl : (content (opts.delimiter.getD [])).after (47 :: opts.keyPrefix.getD [])
    (startAfterOf token) = l) :
    (∃ err, listObjectsV2 nss { opts with continuationToken := token } = .error err)
      ∨ ∃ n reply, listObjectsV2 nss { opts with continuationToken := token } = .ok reply
        ∧ Reflects (l.take n) (l.drop n) reply := by
  unfold listObjectsV2
  cases hcall : ListObjectsV2Opts.call { opts with continuationToken := token } with
  | error err => exact .inl ⟨err, rfl⟩
  | ok call =>
    obtain ⟨hafter, hprefix, hdelimiter⟩ := remaining_of_token hstart htoken hcall
    have hleft : remaining content call = l := by
      unfold remaining
      rw [hafter, hprefix, hdelimiter, hl]
    show (∃ err, listObjects (nss call) = _) ∨ ∃ n reply, listObjects (nss call) = _ ∧ _
    cases hreply : listObjects (nss call) with
    | error err => exact .inl ⟨err, rfl⟩
    | ok reply =>
      obtain ⟨n, -, hreflects⟩ := hnss.answered hreply
      rw [hleft] at hreflects
      exact .inr ⟨n, reply, rfl, hreflects⟩

theorem Reflects.token_some {page rest : List Entry} {next : Bytes} (h : Reflects page rest reply)
    (hnext : reply.nextContinuationToken = some next) :
    ∃ front e hidden, page = front ++ e :: hidden ∧ next = e.1.drop 1 ∧ rest ≠ [] ∧ e.shown = true
      ∧ ∀ key ∈ reply.keys, ∃ x ∈ front ++ [e], x.1.drop 1 = key := by
  rw [h.token] at hnext
  by_cases hrest : rest = []
  · rw [if_pos hrest] at hnext
    cases hnext
  · rw [if_neg hrest] at hnext
    rcases lastShown_cases page with ⟨hlast, -⟩ | ⟨front, e, hidden, hpage, hlast, he, hhidden⟩
    · rw [hlast] at hnext
      cases hnext
    · rw [hlast] at hnext
      refine ⟨front, e, hidden, hpage, (Option.some.inj hnext).symm, hrest, he, fun key hkey => ?_⟩
      obtain ⟨x, hx, hshown, hkey⟩ := (h.keys key).mp hkey
      refine ⟨x, ?_, hkey⟩
      rw [hpage] at hx
      simp only [mem_append, mem_cons, not_mem_nil, or_false] at hx ⊢
      rcases hx with hx | hx | hx
      · exact .inl hx
      · exact .inr hx
      · rw [hhidden x hx] at hshown
        cases hshown

def Within (l : List Entry) (pages : List ListReply) : Prop :=
  ∀ reply ∈ pages, ∀ key ∈ ListReply.keys reply, ∃ e ∈ l, e.1.drop 1 = key

theorem compare_names {bucket : BucketContent} {a b : Entry} (ha : a ∈ bucket.entries)
    (hb : b ∈ bucket.entries) (h : compare a.1 b.1 = .lt) :
    compare (a.1.drop 1) (b.1.drop 1) = .lt := by
  obtain ⟨name, -, hname⟩ := bucket.userKey a ha
  obtain ⟨name', -, hname'⟩ := bucket.userKey b hb
  rw [hname, hname', compare_slash] at h
  rw [hname, hname']
  exact h

theorem Increasing.cons {bucket : BucketContent} {front back : List Entry} {pages : List ListReply}
    (hl : l.Sublist bucket.entries) (hsplit : l = front ++ e :: back)
    (hkeys : ∀ key ∈ reply.keys, ∃ x ∈ front ++ [e], x.1.drop 1 = key) (hpages : Increasing pages)
    (hwithin : Within back pages) : Increasing (reply :: pages) := by
  refine pairwise_cons.mpr ⟨fun second hsecond key hkey key' hkey' => ?_, hpages⟩
  obtain ⟨x, hx, rfl⟩ := hkeys key hkey
  obtain ⟨y, hy, rfl⟩ := hwithin second hsecond key' hkey'
  have hl' : l = (front ++ [e]) ++ back := by rw [hsplit]; simp
  have hsorted : ((front ++ [e]) ++ back).Pairwise fun a b => compare a.1 b.1 = .lt := by
    rw [← hl']
    exact bucket.ascending.sublist hl
  refine compare_names (hl.subset ?_) (hl.subset ?_) ((pairwise_append.mp hsorted).2.2 x hx y hy)
  · rw [hl']
    exact mem_append_left _ hx
  · rw [hl']
    exact mem_append_right _ hy

theorem paginate_ends (hnss : Honest content nss) (hstart : opts.startAfter = none)
    (htoken : token ≠ some []) :
    ∃ n pages, paginate nss opts n token = some pages ∧ Increasing pages
      ∧ Within ((content (opts.delimiter.getD [])).after (47 :: opts.keyPrefix.getD [])
        (startAfterOf token)) pages := by
  generalize hl : (content (opts.delimiter.getD [])).after (47 :: opts.keyPrefix.getD [])
    (startAfterOf token) = l
  induction hlen : l.length using Nat.strong_induction_on generalizing token l with
  | _ len ih =>
    rcases listObjectsV2_cases hnss hstart htoken hl with ⟨err, herr⟩
      | ⟨n, reply, hreply, hreflects⟩
    · refine ⟨1, [], ?_, List.Pairwise.nil, fun _ h => absurd h not_mem_nil⟩
      rw [paginate, herr]
    · cases htok : reply.nextContinuationToken with
      | none =>
        refine ⟨1, [reply], ?_, pairwise_singleton _ _, fun r hr key hkey => ?_⟩
        · rw [paginate, hreply]
          simp only [htok]
        · rw [mem_singleton.mp hr] at hkey
          obtain ⟨e, he, -, hkey⟩ := (hreflects.keys key).mp hkey
          exact ⟨e, mem_of_mem_take he, hkey⟩
      | some next =>
        obtain ⟨front, e, hidden, hpage, rfl, -, -, hkeys⟩ := hreflects.token_some htok
        have hsplit : l = front ++ e :: (hidden ++ l.drop n) := by
          calc l = l.take n ++ l.drop n := (take_append_drop n l).symm
            _ = front ++ e :: (hidden ++ l.drop n) := by rw [hpage]; simp
        generalize hidden ++ l.drop n = back at hsplit
        have hmem : e ∈ (content (opts.delimiter.getD [])).entries :=
          (BucketContent.mem_of_after (by rw [hl, hsplit]; simp)).1
        obtain ⟨hafter, hne⟩ := startAfterOf_token hmem
        have hnext : (content (opts.delimiter.getD [])).after (47 :: opts.keyPrefix.getD [])
            (startAfterOf (some (e.1.drop 1))) = back := by
          rw [hafter]
          exact BucketContent.after_of_split (hl.trans hsplit)
        have hshort : back.length < len := by
          rw [← hlen, hsplit, length_append, length_cons]
          omega
        obtain ⟨m, pages, hpages, hincreasing, hwithin⟩ := ih _ hshort hne _ hnext rfl
        refine ⟨m + 1, reply :: pages, ?_, ?_, ?_⟩
        · rw [paginate, hreply]
          simp only [htok, hpages, Option.map_some]
        · have hsub : l.Sublist (content (opts.delimiter.getD [])).entries := by
            rw [← hl]
            exact filter_sublist
          exact hincreasing.cons hsub hsplit hkeys hwithin
        · intro r hr key hkey
          rcases mem_cons.mp hr with rfl | hr
          · obtain ⟨x, hx, hkey⟩ := (hreflects.keys key).mp hkey
            exact ⟨x, mem_of_mem_take hx, hkey.2⟩
          · obtain ⟨x, hx, hkey⟩ := hwithin r hr key hkey
            exact ⟨x, by rw [hsplit]; exact mem_append_right _ (mem_cons_of_mem _ hx), hkey⟩

theorem paginate_loops (hstart : opts.startAfter ≠ none) {next : Bytes}
    (hreply : listObjectsV2 nss opts = .ok reply) (hnext : reply.nextContinuationToken = some next)
    (n : Nat) (token : Option Bytes) :
    paginate nss opts n token = none := by
  induction n generalizing token with
  | zero => rfl
  | succ n ih =>
    rw [paginate, listObjectsV2_of_start hstart, hreply]
    simp only [hnext, ih, Option.map_none]

/-! ## §5. Progress -/

variable (content : Bytes → BucketContent)

def Advances (opts : ListObjectsV2Opts) (token : Bytes) : Prop :=
  ∀ nss, Honest content nss → ∀ reply, listObjectsV2 nss opts = .ok reply →
    ∀ key ∈ reply.keys, compare token key = .lt

def Finishes (opts : ListObjectsV2Opts) : Prop :=
  ∀ nss, Honest content nss → ∃ n pages, paginate nss opts n none = some pages ∧ Increasing pages

theorem advances_iff {opts : ListObjectsV2Opts} {token : Bytes}
    (htoken : opts.continuationToken = some token) :
    Advances content opts token ↔ ∀ call, opts.startAfter ≠ none → opts.call = .ok call →
      ∀ e back, Reaches call.maxKeys (remaining content call) e back →
        compare token (e.1.drop 1) = .lt := by
  constructor
  · intro h call _ hcall e back hreach
    obtain ⟨n, reply, hreply, hkey, -⟩ := hreach.answered
    refine h _ (honest_upTo n content) reply ?_ _ hkey
    unfold listObjectsV2
    rw [hcall]
    exact hreply
  · intro h nss hnss reply hreply key hkey
    unfold listObjectsV2 at hreply
    obtain ⟨call, hcall, hreply⟩ := of_bind_ok hreply
    obtain ⟨n, hn, hreflects⟩ := hnss.answered hreply
    obtain ⟨e, he, hshown, rfl⟩ := (hreflects.keys key).mp hkey
    by_cases hstart : opts.startAfter = none
    · -- the page starts after the token itself
      exact compare_of_remaining (mem_of_mem_take he) (startAfter_of_call hstart htoken hcall)
    · obtain ⟨front, hidden, hsplit⟩ := append_of_mem he
      exact h call hstart hcall e _ (hreflects.reaches hn hsplit hshown)

theorem finishes_iff (opts : ListObjectsV2Opts) :
    Finishes content opts ↔ ∀ call, opts.startAfter ≠ none → opts.call = .ok call →
      ∀ e back, Reaches call.maxKeys (remaining content call) e back → back = [] := by
  constructor
  · intro h call hstart hcall e back hreach
    by_contra hback
    obtain ⟨m, reply, hreply, -, hnext⟩ := hreach.answered
    have hpage : listObjectsV2 (upTo m content) opts = .ok reply := by
      unfold listObjectsV2
      rw [hcall]
      exact hreply
    obtain ⟨n, pages, hpages, -⟩ := h _ (honest_upTo m content)
    rw [paginate_loops hstart hpage (hnext hback)] at hpages
    cases hpages
  · intro h nss hnss
    by_cases hstart : opts.startAfter = none
    · have hnone : (none : Option Bytes) ≠ some [] := nofun
      obtain ⟨n, pages, hpages, hincreasing, -⟩ := paginate_ends hnss hstart hnone
      exact ⟨n, pages, hpages, hincreasing⟩
    · -- the first page is the last
      cases hreply : listObjectsV2 nss opts with
      | error err =>
        refine ⟨1, [], ?_, List.Pairwise.nil⟩
        rw [paginate, listObjectsV2_of_start hstart, hreply]
      | ok reply =>
        have hnone : reply.nextContinuationToken = none := by
          unfold listObjectsV2 at hreply
          obtain ⟨call, hcall, hreply⟩ := of_bind_ok hreply
          obtain ⟨n, hn, hreflects⟩ := hnss.answered hreply
          cases hnext : reply.nextContinuationToken with
          | none => rfl
          | some next =>
            obtain ⟨front, e, hidden, hpage, -, hrest, he, -⟩ := hreflects.token_some hnext
            have hback := h call hstart hcall e _ (hreflects.reaches hn hpage he)
            exact absurd (append_eq_nil_iff.mp hback).2 hrest
        refine ⟨1, [reply], ?_, pairwise_singleton _ _⟩
        rw [paginate, listObjectsV2_of_start hstart, hreply]
        simp only [hnone]

/-- ★ **When a listing makes progress.** Every key is behind the token: exactly if there is no
    start, or no entry that a page from the start can show is up to the token. And a paginator sees
    increasing pages and finishes: exactly if it has no start, or no entry that its first page can
    end with has another behind it. -/
theorem tokens_advance_iff (content : Bytes → BucketContent) (opts : ListObjectsV2Opts) :
    (∀ token, opts.continuationToken = some token →
      (Advances content opts token ↔ ∀ call, opts.startAfter ≠ none → opts.call = .ok call →
        ∀ e back, Reaches call.maxKeys (remaining content call) e back →
          compare token (e.1.drop 1) = .lt))
      ∧ (Finishes content opts ↔ ∀ call, opts.startAfter ≠ none → opts.call = .ok call →
        ∀ e back, Reaches call.maxKeys (remaining content call) e back → back = []) :=
  ⟨fun _ htoken => advances_iff content htoken, finishes_iff content opts⟩

def oneKeyQuery (startAfter : Option Bytes) (token : Option Bytes) : ListObjectsV2Opts :=
  { listType := some (ascii "2"), maxKeys := some 1, startAfter := startAfter, continuationToken :=
      token }

def twoObjects (_delimiter : Bytes) : BucketContent := twoKeys (completedSample 3)

theorem tokens_advance_at_sample :
    Advances twoObjects (oneKeyQuery none (some (ascii "a"))) (ascii "a")
      ∧ Finishes twoObjects (oneKeyQuery none none) :=
  ⟨((tokens_advance_iff twoObjects (oneKeyQuery none (some (ascii "a")))).1 _ rfl).mpr fun _ h =>
    absurd rfl h, (tokens_advance_iff twoObjects (oneKeyQuery none none)).2.mpr fun _ h =>
      absurd rfl h⟩

theorem start_hides_token :
    ¬ Advances twoObjects (oneKeyQuery (some (ascii "A")) (some (ascii "a"))) (ascii "a")
      ∧ ¬ Finishes twoObjects (oneKeyQuery (some (ascii "A")) none) := by
  have hpage : ∀ token, ∃ reply, listObjectsV2 (upTo 1 twoObjects)
    (oneKeyQuery (some (ascii "A")) token) = .ok reply
      ∧ reply.keys = [ascii "a"] ∧ reply.nextContinuationToken = some (ascii "a") :=
    fun _ => ⟨_, rfl, rfl, rfl⟩
  constructor
  · intro h
    obtain ⟨reply, hreply, hkeys, -⟩ := hpage (some (ascii "a"))
    have hlt := h _ (honest_upTo 1 twoObjects) reply hreply (ascii "a")
      (by rw [hkeys]; exact mem_singleton_self _)
    rw [Std.compare_self] at hlt
    cases hlt
  · intro h
    obtain ⟨reply, hreply, -, hnext⟩ := hpage none
    obtain ⟨n, pages, hpages, -⟩ := h _ (honest_upTo 1 twoObjects)
    rw [paginate_loops (Option.some_ne_none _) hreply hnext] at hpages
    cases hpages

end

end FractalBits.Objects
