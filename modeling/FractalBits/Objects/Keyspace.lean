/-
  Objects.Keyspace — the keys that requests reach.

  User keys start with a slash. A request stays inside if all keys and prefixes it passes to the
  namespace service are user keys, and its handler does not panic.
-/

import FractalBits.Objects.Completion
import FractalBits.Objects.Rename
import FractalBits.Objects.Requests

namespace FractalBits.Objects

open Lib Streaming Gateway List
open OvrMap (Uuid)

attribute [local irreducible] Uuid.asSimple

/-! ## §1. User keys -/

def UserKey (key : Bytes) : Prop := key.head? = some 47

instance (key : Bytes) : Decidable (UserKey key) := inferInstanceAs (Decidable (_ = _))

theorem userKey_cons (name : Bytes) : UserKey (47 :: name) := rfl

variable {key : Bytes}

theorem UserKey.append (h : UserKey key) (tail : Bytes) : UserKey (key ++ tail) := by
  cases key with
  | nil => cases h
  | cons b key => exact h

theorem UserKey.extend {keyPrefix : Bytes} (h : UserKey keyPrefix) (hunderKey : keyPrefix <+: key) :
    UserKey key := by
  obtain ⟨tail, rfl⟩ := hunderKey
  exact h.append tail

theorem UserKey.trimEndMatches (h : UserKey key) : UserKey (trimEndMatches 0 key) := by
  obtain ⟨name, rfl⟩ : ∃ name, key = 47 :: name := by
    cases key with
    | nil => cases h
    | cons b name => exact ⟨name, by rw [Option.some.inj h]⟩
  have hne : (47 : UInt8) ≠ 0 := by decide
  obtain ⟨tail, htrim⟩ := trimEndMatches_append_cons hne [] name
  rw [nil_append] at htrim
  rw [htrim]
  exact userKey_cons tail

theorem UserKey.mpuGetPartPrefix (h : UserKey key) (uploadId : Uuid) (partNumber : Nat) :
    UserKey (mpuGetPartPrefix key uploadId partNumber) := by
  unfold Gateway.mpuGetPartPrefix
  exact (((h.append _).append _).append _).append _

theorem UserKey.percentDecode (h : UserKey key) : UserKey (percentDecode key) := by
  match key, h with
  | [b], h => exact h
  | [b, c], h => exact h
  | b :: high :: low :: rest, h =>
    have hb : b = 47 := Option.some.inj h
    subst hb
    exact userKey_cons _

theorem userKey_bucketAndKeyName {rootDomain : Bytes} {headers : Headers} {path bucket : Bytes}
    (hpath : UserKey path)
    (h : bucketAndKeyName rootDomain headers path = .ok (bucket, key)) : UserKey key := by
  unfold bucketAndKeyName at h
  have hkey : ∀ b k, UserKey k → (if utf8Valid (percentDecode k) = false then .error .invalidURI
      else do
        checkKeyName (percentDecode k)
        return (b, percentDecode k) : Except S3Error (Bytes × Bytes)) = .ok (bucket, key) →
          UserKey key := by
    intro b k hk h
    split at h
    · cases h
    · obtain ⟨-, -, h⟩ := of_bind_ok h
      cases h
      exact hk.percentDecode
  cases hhost : buketNameFromHost rootDomain headers with
  | none =>
    rw [hhost] at h
    exact hkey _ _ (userKey_cons _) h
  | some host =>
    rw [hhost] at h
    exact hkey _ _ hpath h

/-! ## §2. Staying inside -/

/-- Calls that name user keys only; the rows of a blob are listed under an internal one. -/
def Op.Inside : Op → Prop
  | .getInode key | .putInode key _ | .deleteInode key => UserKey key
  | .listInodes _ keyPrefix _ => UserKey keyPrefix
  | .loadRowMap _ _ => False
  | _ => True

/-- There is a part with the number of the request; a page of no parts is asked for only if there
    are none. -/
def Endpoint.Fits (count : Nat) : Endpoint → Prop
  | .getObject (some partNumber) _ => 1 ≤ partNumber ∧ partNumber ≤ count
  | .listParts opts => opts.maxParts = some 0 → count = 0
  | _ => True

/-- Answers where no object is mapped, the keys of a listing have its prefix, and there are enough
    of them. -/
def Endpoint.Tame (endpoint : Endpoint) : (op : Op) → Ans op → Prop
  | .getInode _, ans => ∀ layout, ans = .ok (.ok (.layout layout)) → layout.isMapped = false
  | .listInodes _ keyPrefix _, ans => ∀ inodes more, ans = .ok (.ok inodes more) →
    (∀ e ∈ inodes, keyPrefix <+: e.1) ∧ endpoint.Fits (inodes.countP fun e => e.2.decode.isSome)
  | _, _ => True

def userKeys (endpoint : Endpoint) : Protocol Op Ans Unit where
  possible := endpoint.Tame
  allowed _ op := op.Inside
  advance _ _ _ := ()

section

variable {α : Type} {endpoint : Endpoint}

def Stays (endpoint : Endpoint) (Q : α → Prop) (x : Handler α) : Prop :=
  x.run.Follows (userKeys endpoint) (fun _ r => ∀ a, r = .ok a → Q a) ()

variable {key : Bytes} {call : ListCall}

theorem retries_userKeys : Retries (userKeys endpoint) () :=
    ⟨⟨trivial, fun _ => rfl⟩, trivial, fun _ => rfl⟩

/-! ## §3. Calls -/

variable (hkey : UserKey key)

include hkey

theorem stays_putInode (value : Inode) (rounds : Nat) :
    Obeys (userKeys endpoint) (fun _ => True) (nss rounds (perform (Op.putInode key value))) :=
  (follows_putInode retries_userKeys hkey rfl rounds).mono fun _ _ _ _ _ => trivial

variable (rounds : Nat)

theorem stays_deleteInode :
    Obeys (userKeys endpoint) (fun _ => True) (nss rounds (perform (Op.deleteInode key))) :=
  (follows_deleteInode retries_userKeys hkey rfl rounds).mono fun _ _ _ _ _ => trivial

omit hkey in
theorem userKey_listed {maxKeys : Nat} {keyPrefix startAfter : Bytes}
    {inodes : List (Bytes × Inode)} {more : Bool} (hunderKey : UserKey keyPrefix)
    (hans : endpoint.Tame (.listInodes maxKeys keyPrefix startAfter) (.ok (.ok inodes more))) :
    ∀ e ∈ inodes, UserKey (trimEndMatches 0 e.1) :=
  fun e he => (hunderKey.extend ((hans inodes more rfl).1 e he)).trimEndMatches

omit hkey in
theorem readable_userKeys : Readable (userKeys endpoint) UserKey fun layout =>
    layout.isMapped = false where
  retries := retries_userKeys
  client := trivial
  blob _ _ _ _ := trivial
  get _ hkey := hkey
  read _ layout hans := hans layout rfl
  rows _ h hmapped := absurd (h.symm.trans hmapped) Bool.false_ne_true
  part _ uploadId partNumber hkey := hkey.mpuGetPartPrefix uploadId partNumber
  list _ _ _ hunder := hunder
  listed _ _ _ _ _ hunder hans := userKey_listed hunder hans

omit hkey in
theorem length_rawObjects {inodes : List (Bytes × Inode)} {mpus : List (Bytes × Layout)}
    (h : rawObjects inodes = .ok mpus) : mpus.length = inodes.countP fun e =>
    e.2.decode.isSome := by
  induction inodes generalizing mpus with
  | nil =>
    cases h
    rfl
  | cons e inodes ih =>
    obtain ⟨key, value⟩ := e
    rw [countP_cons]
    cases value with
    | raw bytes =>
      by_cases hempty : bytes = []
      · subst hempty
        rw [show Inode.raw [] = .empty from rfl, rawObjects_empty] at h
        rw [ih h]
        rfl
      · rw [rawObjects_raw key hempty] at h
        cases h
    | layout object =>
      rw [rawObjects_layout] at h
      cases hrest : rawObjects inodes with
      | error e =>
        rw [hrest] at h
        cases h
      | ok rest =>
        rw [hrest] at h
        cases h
        rw [length_cons, ih hrest]
        rfl

omit hkey in
theorem stays_listRawObjects {keyPrefix : Bytes} (hunderKey : UserKey keyPrefix)
    (rounds maxParts : Nat) (startAfter : Bytes) :
    Obeys (userKeys endpoint) (fun mpus => (∀ part ∈ mpus, UserKey part.1)
      ∧ endpoint.Fits mpus.length) (listRawObjects rounds maxParts keyPrefix startAfter) := by
  refine (follows_listRawObjects retries_userKeys hunderKey rfl rounds).mono ?_
  rintro _ r ⟨ans, hans, -, rfl⟩ mpus hmpus
  obtain ⟨inodes, more, rfl, hraw⟩ := page_of_listResult hmpus
  obtain ⟨-, hfits⟩ := hans inodes more rfl
  refine ⟨fun part hpart => ?_, by rw [length_rawObjects hraw]; exact hfits⟩
  obtain ⟨k, hk, htrim⟩ := mem_of_rawObjects hraw hpart
  rw [htrim]
  exact userKey_listed hunderKey hans _ hk

/-! ## §4. Handlers that change the namespace -/

omit hkey in
theorem cleans_userKeys {keyPrefix : Bytes} (hunderKey : UserKey keyPrefix) :
    Cleans (userKeys endpoint) (fun _ => True) keyPrefix UserKey fun _ => True where
  retries _ _ := retries_userKeys
  client _ _ := ⟨trivial, fun _ => trivial⟩
  send _ _ _ _ := ⟨trivial, fun _ => trivial⟩
  delete _ _ _ hk := ⟨hk, rfl, fun _ => trivial⟩
  list _ _ _ _ _ hunder :=
    ⟨hunderKey.extend hunder, rfl, fun _ => trivial, fun _ _ hans e he =>
      ⟨userKey_listed (hunderKey.extend hunder) hans e he, fun _ _ => trivial⟩⟩

omit hkey in
theorem stays_deleteParts {mpus : List (Bytes × Layout)} (hmpus : ∀ part ∈ mpus, UserKey part.1) :
    Obeys (userKeys endpoint) (fun _ => True) (deleteParts rounds mpus) :=
  obeys_of_follows ((cleans_userKeys (userKey_cons [])).deleteParts trivial rounds
    fun part hpart => ⟨hmpus part hpart, fun _ _ => trivial⟩)

theorem stays_deleteObjectByKey :
    Obeys (userKeys endpoint) (fun _ => True) (deleteObjectByKey rounds key) := by
  unfold deleteObjectByKey
  refine (obeys_getBlobClient trivial).bind fun client _ => ?_
  split
  · exact obeys_throw _
  · refine (stays_deleteInode hkey rounds).bind fun resp _ => ?_
    refine obeys_orFail_bind fun removed => ?_
    exact obeys_of_follows ((cleans_userKeys (hkey.append _)).cleanUpRemoved trivial rounds
      fun _ _ => trivial)

theorem stays_putObject (upload : Upload) :
    Obeys (userKeys endpoint) (fun _ => True) (putObject rounds key upload) := by
  refine obeys_of_follows (follows_put (R := fun _ => True) (fun _ _ _ _ => ⟨trivial, fun _ => rfl⟩)
    ?_ ?_ trivial rounds)
  · exact fun _ _ => ⟨retries_userKeys, hkey, rfl, fun _ => trivial⟩
  · exact fun _ _ _ => (cleans_userKeys (userKey_cons [])).enqueueBlobDeletion trivial fun _ _ =>
      trivial

theorem stays_createMultipartUpload (versionId : Uuid)
    (timestamp : Nat) : Obeys (userKeys endpoint) (fun _ => True)
    (createMultipartUpload rounds key versionId timestamp) := by
  unfold createMultipartUpload
  refine obeys_orFail_bind fun _ => ?_
  exact (stays_putInode hkey _ rounds).bind fun _ _ => obeys_pure trivial

variable (parseUuid : Bytes → Option Uuid)

theorem stays_uploadPart
    (partNumber : Nat) (uploadId : Bytes) (upload : Upload) :
    Obeys (userKeys endpoint) (fun _ => True) (uploadPart rounds parseUuid key partNumber uploadId
      upload) := by
  unfold uploadPart
  split
  · exact obeys_throw _
  · split
    · exact obeys_throw _
    · exact stays_putObject (hkey.mpuGetPartPrefix _ _) rounds upload

omit hkey in
theorem stays_deleteInvalidParts {keys : List Bytes} (hkeys : ∀ key ∈ keys, UserKey key) :
    Obeys (userKeys endpoint) (fun _ => True) (deleteInvalidParts rounds keys) := by
  induction keys with
  | nil => exact obeys_pure trivial
  | cons key keys ih =>
    unfold deleteInvalidParts
    refine (stays_deleteObjectByKey (hkeys key mem_cons_self) rounds).bind fun _ _ => ?_
    exact ih fun k hk => hkeys k (mem_cons_of_mem _ hk)

omit hkey in
theorem userKey_invalidPartKeys {mpuObjs : List (Bytes × Layout)} {tally tally' : PartTally}
    (h : mpuObjs.foldlM tallyPart tally = .ok tally') (hmpus : ∀ part ∈ mpuObjs, UserKey part.1)
    (htally : ∀ k ∈ tally.invalidPartKeys, UserKey k) : ∀ k ∈ tally'.invalidPartKeys,
    UserKey k := by
  induction mpuObjs generalizing tally with
  | nil =>
    cases h
    exact htally
  | cons part mpuObjs ih =>
    rw [foldlM_cons] at h
    obtain ⟨next, hnext, h⟩ := of_bind_ok h
    refine ih h (fun x hx => hmpus x (mem_cons_of_mem _ hx)) ?_
    unfold tallyPart at hnext
    obtain ⟨partNumber, -, hnext⟩ := of_bind_ok hnext
    split at hnext
    · cases hnext
      intro k hk
      rcases mem_append.mp hk with hk | hk
      · exact htally k hk
      · rw [mem_singleton.mp hk]
        exact hmpus part mem_cons_self
    · obtain ⟨checksum, -, hnext⟩ := of_bind_ok hnext
      obtain ⟨size, -, hnext⟩ := of_bind_ok hnext
      cases hnext
      exact htally

theorem stays_completeListed (K : Checksums) (req : CompleteRequest)
    (headers : Headers) (partNumbers : List Nat) (object : Layout) {mpuObjs : List (Bytes × Layout)}
    (hmpus : ∀ part ∈ mpuObjs, UserKey part.1) :
    Obeys (userKeys endpoint) (fun _ => True) (completeListed rounds K key req headers partNumbers
      object mpuObjs) := by
  unfold completeListed
  refine (obeys_orFail (Q := fun tally => ∀ k ∈ tally.invalidPartKeys, UserKey k) id
    fun tally htally => ?_).bind fun tally htally => ?_
  · exact userKey_invalidPartKeys htally hmpus nofun
  · refine obeys_orFail_bind fun _ => ?_
    refine (stays_deleteInvalidParts rounds fun k hk => htally k
      ((req.order_perm _).mem_iff.mp hk)).bind fun _ _ => ?_
    unfold putCompleted
    refine (stays_putInode hkey _ rounds).bind fun resp _ => ?_
    exact obeys_orFail_bind fun _ => obeys_pure trivial

theorem stays_completeMultipartUpload (K : Checksums)
    (uploadId : Bytes) (req : CompleteRequest) :
    Obeys (userKeys endpoint) (fun _ => True) (completeMultipartUpload rounds K key uploadId
      req) := by
  unfold completeMultipartUpload
  refine obeys_orFail_bind fun headers => ?_
  refine obeys_orFail_bind fun partNumbers => ?_
  refine (readable_userKeys.getRawObject hkey).bind fun object _ => ?_
  refine obeys_orFail_bind fun _ => ?_
  refine (stays_listRawObjects (hkey.mpuGetPartPrefix _ _) rounds _ _).bind fun mpuObjs hmpus => ?_
  exact stays_completeListed hkey rounds K req headers partNumbers object hmpus.1

theorem stays_abortMultipartUpload
    (uploadId : Bytes) :
    Obeys (userKeys endpoint) (fun _ => True) (abortMultipartUpload rounds parseUuid key
      uploadId) := by
  unfold abortMultipartUpload
  split
  · exact obeys_throw _
  · refine (obeys_getInode retries_userKeys hkey rounds).bind fun resp _ => ?_
    split
    · unfold abortFound
      split
      · exact obeys_throw _
      · refine (stays_listRawObjects (hkey.mpuGetPartPrefix _ _) rounds _ _).bind
          fun parts hparts => ?_
        refine (stays_deleteParts rounds hparts.1).bind fun _ _ => ?_
        refine (stays_deleteInode hkey rounds).bind fun resp _ => ?_
        exact obeys_orFail_bind fun _ => obeys_pure trivial
    · exact obeys_throw _
    · exact obeys_throw _

omit hkey in
theorem follows_deleteObjects (keys : List Bytes) :
    (deleteObjects rounds keys).Follows (userKeys endpoint) (fun _ _ => True) () := by
  induction keys with
  | nil => exact trivial
  | cons key keys ih =>
    unfold deleteObjects
    have hdelete : (deleteObjectByKey rounds (47 :: key)).run.Follows (userKeys endpoint)
      (fun _ _ => True) () :=
      Prog.Follows.mono (stays_deleteObjectByKey (userKey_cons key) rounds) fun _ _ _ => trivial
    exact hdelete.seq fun _ _ _ => ih

/-! ## §5. Handlers that read -/

theorem stays_getPartContent (object : Layout) {partNumber : Nat}
    (hfits : ∀ count, endpoint.Fits count → 1 ≤ partNumber ∧ partNumber ≤ count) :
    Obeys (userKeys endpoint) (fun r => r ≠ none)
      (getPartContent rounds key object partNumber) := by
  unfold getPartContent
  refine (obeys_getBlobClient trivial).bind fun client _ => ?_
  split
  · exact obeys_throw _
  · refine (stays_listRawObjects (hkey.mpuGetPartPrefix _ _) rounds _ _).bind fun mpus hmpus => ?_
    obtain ⟨hpos, hle⟩ := hfits _ hmpus.2
    have hlt : partNumber - 1 < mpus.length := by omega
    rw [if_neg (by omega), List.getElem?_eq_getElem hlt]
    refine obeys_orFail_bind fun _ => ?_
    refine (obeys_lift (Readable.partsStream fun part hpart => ?_)).bind fun items _ =>
      obeys_pure nofun
    rw [mem_singleton.mp hpart]
    exact readable_userKeys.fullPart (hmpus.1 _ (getElem_mem hlt))

theorem stays_getObjectOrPart (partNumber : Option Nat)
    (parseRange : RangeParser) :
    Obeys (userKeys (.getObject partNumber parseRange)) (fun r => r ≠ none)
      (getObjectOrPart rounds key partNumber parseRange) := by
  unfold getObjectOrPart
  cases partNumber with
  | none => exact (readable_userKeys.getObject hkey parseRange).bind fun _ _ => obeys_pure nofun
  | some partNumber =>
    refine (readable_userKeys.getRawObject hkey).bind fun object hmapped => ?_
    refine obeys_orFail_bind fun totalSize => ?_
    refine obeys_orFail_bind fun range => ?_
    split
    · exact obeys_throw _
    · split
      · exact stays_getPartContent hkey rounds object fun count hfits => hfits
      · exact (readable_userKeys.getObjectContent hkey hmapped).bind fun _ _ => obeys_pure nofun

omit hkey in
theorem cut_ne_none (parts : List ListedPart) (partNumberMarker : Option Nat) {maxParts : Nat}
    (h : maxParts = 0 → parts = []) : cut false parts partNumberMarker maxParts ≠ none := by
  -- without the check of the overflow some parts are dropped
  obtain ⟨n, hn⟩ : ∃ n, cutBeginning false parts partNumberMarker = some (parts.drop n) := by
    cases partNumberMarker with
    | none => exact ⟨0, rfl⟩
    | some marker => exact ⟨_, rfl⟩
  rw [cut, hn, Option.bind_some, cutEnd]
  split
  · next hlen =>
    have hne : (parts.drop n).take maxParts ≠ [] := by
      intro hnil
      rcases take_eq_nil_iff.mp hnil with hzero | hnil
      · rw [h hzero, drop_nil] at hlen
        exact absurd hlen (Nat.not_lt_zero _)
      · rw [hnil] at hlen
        exact absurd hlen (Nat.not_lt_zero _)
    dsimp only
    rw [List.getLast?_eq_some_getLast hne]
    exact nofun
  · exact nofun

theorem stays_listParts
    (opts : ListPartsOpts) :
    Obeys (userKeys (.listParts opts)) (fun r => r ≠ none)
      (listParts rounds parseUuid key opts) := by
  unfold listParts
  refine (readable_userKeys.getRawObject hkey).bind fun object _ => ?_
  split
  · exact obeys_throw _
  · split
    · exact obeys_throw _
    · unfold fetchMpuParts
      split
      · exact obeys_throw _
      · refine (stays_listRawObjects (hkey.mpuGetPartPrefix _ _) rounds _ _).bind fun mpus hmpus =>
          ?_
        refine (obeys_orFail (Q := fun parts => parts.length = mpus.length) _ ?_).bind
          fun parts hparts => ?_
        · exact fun parts hmap => (forall₂_of_mapM hmap).length_eq.symm
        · refine obeys_pure (cut_ne_none _ _ fun hzero => ?_)
          have hmax : opts.maxParts = some 0 := by
            cases hopts : opts.maxParts with
            | none => rw [hopts] at hzero; cases hzero
            | some n => rw [hopts] at hzero; rw [show n = 0 from hzero]
          have hnil : parts = [] := length_eq_zero_iff.mp (hparts.trans (hmpus.2 hmax))
          rw [hnil]
          rfl

theorem stays_headObject :
    Obeys (userKeys endpoint) (fun _ => True) (headObject rounds key) := by
  unfold headObject
  refine (readable_userKeys.getRawObject hkey).bind fun object _ => ?_
  refine obeys_orFail_bind fun _ => ?_
  exact obeys_orFail_bind fun _ => obeys_pure trivial

omit hkey in
theorem stays_readAttribute (attributes : List Bytes) (name : Bytes)
    (value : Except ObjectLayoutError α) :
    Obeys (userKeys endpoint) (fun _ => True) (readAttribute attributes name value) := by
  unfold readAttribute
  split
  · exact obeys_orFail_bind fun _ => obeys_pure trivial
  · exact obeys_pure trivial

theorem stays_getObjectAttributes (attributes : List Bytes) :
    Obeys (userKeys endpoint) (fun _ => True) (getObjectAttributes rounds key attributes) := by
  unfold getObjectAttributes
  refine (readable_userKeys.getRawObject hkey).bind fun object _ => ?_
  refine (stays_readAttribute _ _ _).bind fun _ _ => ?_
  exact (stays_readAttribute _ _ _).bind fun _ _ => stays_readAttribute _ _ _

theorem stays_copyObject (allowRead : Bytes → Bool)
    (copySource : Bytes) (uploadOf : Bytes → Upload) :
    Obeys (userKeys endpoint) (fun _ => True) (copyObject rounds allowRead key copySource
      uploadOf) := by
  unfold copyObject
  extract_lets source
  split
  · exact obeys_throw _
  · split
    next sourceBucket sourceKey hsource =>
    have hsourceKey : UserKey sourceKey := by
      rw [← (Prod.mk.inj hsource).2]
      exact userKey_cons _
    split
    · exact obeys_throw _
    · refine (readable_userKeys.getRawObject hsourceKey).bind fun object hmapped => ?_
      refine (readable_userKeys.getObjectContent hsourceKey hmapped).bind fun content _ => ?_
      refine obeys_orFail_bind fun body => ?_
      exact stays_putObject hkey rounds _

omit hkey in
theorem stays_listBucket (hcall : UserKey call.keyPrefix) (rounds : Nat) :
    Obeys (userKeys endpoint) (fun _ => True) (listBucket rounds call) := by
  unfold listBucket
  have hlist : Obeys (userKeys endpoint) (fun _ => True)
      (nss rounds (perform (Op.listInodes call.maxKeys call.keyPrefix call.startAfter))) := by
    refine follows_nss retries_userKeys ?_ rounds
    exact ⟨hcall, fun ans _ => ⟨fun _ _ => trivial, fun _ _ _ => rfl⟩⟩
  exact hlist.bind fun resp _ => obeys_orFail _ fun _ _ => trivial

omit hkey in
theorem userKey_listObjects {opts : ListObjectsOpts} (h : opts.call = .ok call) :
    UserKey call.keyPrefix := by
  unfold ListObjectsOpts.call at h
  obtain ⟨-, -, h⟩ := of_bind_ok h
  cases h
  exact userKey_cons _

omit hkey in
theorem userKey_listObjectsV2 {opts : ListObjectsV2Opts} (h : opts.call = .ok call) :
    UserKey call.keyPrefix := by
  unfold ListObjectsV2Opts.call at h
  split at h
  · cases h
  · obtain ⟨-, -, h⟩ := of_bind_ok h
    cases h
    exact userKey_cons _

end

/-! ## §6. Requests -/

def Handling.Inside (endpoint : Endpoint) : Handling → Prop
  | .calls handler => Stays endpoint (fun r => r ≠ none) handler
  | .rename srcPath dstPath => UserKey srcPath ∧ UserKey dstPath

/-- A rename has a user key as its source, and that of an object neither moves nor makes a key that
    ends with a slash. -/
def Endpoint.Proper (key : Bytes) : Endpoint → Prop
  | .renameFolder srcPath => UserKey srcPath
  | .renameObject srcPath => UserKey srcPath ∧ srcPath.getLast? ≠ some 47 ∧ key.getLast? ≠ some 47
  | _ => True

theorem inside_of {α : Type} {endpoint : Endpoint} {handler : Handler α}
    (h : Obeys (userKeys endpoint) (fun _ => True) handler) :
    (Handling.of handler).Inside endpoint :=
  h.bind fun _ _ => obeys_pure nofun

theorem inside_ofPanicking {α : Type} {endpoint : Endpoint} {handler : Handler (Option α)}
    (h : Obeys (userKeys endpoint) (fun r => r ≠ none) handler) : (Handling.ofPanicking
    handler).Inside endpoint := by
  refine h.bind fun r hr => obeys_pure ?_
  cases r with
  | none => exact absurd rfl hr
  | some a => exact nofun

theorem inside_handle_iff (hkey : UserKey key) (env : RequestEnv) (endpoint : Endpoint) :
    (endpoint.handle env key).Inside endpoint ↔ endpoint.Proper key := by
  cases endpoint with
  | renameFolder srcPath =>
    refine ⟨fun h => h.1, fun h => ⟨h, ?_⟩⟩
    split
    · exact hkey
    · exact hkey.append _
  | renameObject srcPath =>
    show (if srcPath.getLast? = some 47 ∨ key.getLast? = some 47 then Handling.calls (return none)
      else .rename srcPath key).Inside _ ↔ _
    split
    · next hslash =>
      refine ⟨fun h => (h none rfl rfl).elim, fun h => ?_⟩
      rcases hslash with hslash | hslash
      · exact (h.2.1 hslash).elim
      · exact (h.2.2 hslash).elim
    · next hslash =>
      push Not at hslash
      exact ⟨fun h => ⟨h.1, hslash⟩, fun h => ⟨h.1, hkey⟩⟩
  | headObject => exact ⟨fun _ => trivial, fun _ => inside_of (stays_headObject hkey _)⟩
  | getObject partNumber parseRange =>
    exact ⟨fun _ => trivial, fun _ => inside_ofPanicking (stays_getObjectOrPart hkey _ _ _)⟩
  | getObjectAttributes attributes =>
    exact ⟨fun _ => trivial, fun _ => inside_of (stays_getObjectAttributes hkey _ _)⟩
  | listObjects opts =>
    refine ⟨fun _ => trivial, fun _ => inside_of ?_⟩
    exact (obeys_orFail _ fun _ hcall => userKey_listObjects hcall).bind fun _ hcall =>
      stays_listBucket hcall _
  | listObjectsV2 opts =>
    refine ⟨fun _ => trivial, fun _ => inside_of ?_⟩
    exact (obeys_orFail _ fun _ hcall => userKey_listObjectsV2 hcall).bind fun _ hcall =>
      stays_listBucket hcall _
  | listParts opts =>
    exact ⟨fun _ => trivial, fun _ => inside_ofPanicking (stays_listParts hkey _ _ _)⟩
  | listMultipartUploads => exact ⟨fun _ => trivial, fun _ => inside_of (obeys_pure trivial)⟩
  | putObject upload => exact ⟨fun _ => trivial, fun _ => inside_of (stays_putObject hkey _ _)⟩
  | uploadPart partNumber uploadId upload =>
    exact ⟨fun _ => trivial, fun _ => inside_of (stays_uploadPart hkey _ _ _ _ _)⟩
  | copyObject copySource uploadOf =>
    exact ⟨fun _ => trivial, fun _ => inside_of (stays_copyObject hkey _ _ _ _)⟩
  | createMultipartUpload versionId timestamp =>
    exact ⟨fun _ => trivial, fun _ => inside_of (stays_createMultipartUpload hkey _ _ _)⟩
  | completeMultipartUpload uploadId req =>
    exact ⟨fun _ => trivial, fun _ => inside_of (stays_completeMultipartUpload hkey _ _ _ _)⟩
  | deleteObjects keys =>
    refine ⟨fun _ => trivial, fun _ => inside_of ?_⟩
    exact obeys_orFail_bind fun keys => obeys_lift (follows_deleteObjects _ keys)
  | deleteObject => exact ⟨fun _ => trivial, fun _ => inside_of (stays_deleteObjectByKey hkey _)⟩
  | abortMultipartUpload uploadId =>
    exact ⟨fun _ => trivial, fun _ => inside_of (stays_abortMultipartUpload hkey _ _ _)⟩

/-- ★ **Which requests stay inside the user keys.** In every run where no object that is read is
    mapped, there is a part with the number that is asked for, and a page of no parts is not asked
    of an upload with parts, a request stays inside: exactly if its key is refused or it is proper,
    and so unless it is a rename. -/
theorem requests_stay_inside_iff (env : RequestEnv) (r : S3Request) :
    (r.handle env).Inside r.endpoint
      ↔ ∀ bucket key, bucketAndKeyName env.rootDomain r.headers r.path = .ok (bucket, key) →
        r.endpoint.Proper key := by
  unfold S3Request.handle
  cases hname : bucketAndKeyName env.rootDomain r.headers r.path with
  | error e => exact ⟨fun _ => nofun, fun _ => obeys_throw e⟩
  | ok name =>
    obtain ⟨bucket, key⟩ := name
    have hkey : UserKey key := userKey_bucketAndKeyName r.path_slash hname
    refine (inside_handle_iff hkey env r.endpoint).trans ⟨fun h bucket' key' heq => ?_,
      fun h => h bucket key rfl⟩
    cases heq
    exact h

def internalSite : Site where
  inodes := (∅ : Namespace).insert (ascii "@ovr/x") (.raw [1])
  stores := fun _ => none
  queue := []

def sampleEnv : RequestEnv where
  rounds := 0
  rootDomain := ascii "localhost"
  K := sampleChecksums
  parseUuid := sampleParse
  allowRead := fun _ => true

theorem rename_moves_internal_row :
    ¬ (S3Request.handle ⟨[], ascii "/b/k", rfl, .renameObject (ascii "@ovr/x")⟩ sampleEnv).Inside
        (.renameObject (ascii "@ovr/x"))
      ∧ renameObject (ascii "@ovr/x") (ascii "/k") [.answered] internalSite
        = .answered (.ok ()) (internalSite.renamed (ascii "@ovr/x") (ascii "/k") (.raw [1]))
      ∧ ¬ (S3Request.handle ⟨[], ascii "/b/k", rfl, .renameObject (ascii "/a/")⟩ sampleEnv).Inside
        (.renameObject (ascii "/a/")) := by
  have hname : bucketAndKeyName sampleEnv.rootDomain [] (ascii "/b/k") = .ok
    (ascii "b", ascii "/k") := by decide
  have hkey : UserKey (ascii "/k") := rfl
  have hinside :
      ∀ srcPath, (S3Request.handle ⟨[], ascii "/b/k", rfl, .renameObject srcPath⟩ sampleEnv).Inside
        (.renameObject srcPath) → UserKey srcPath ∧ srcPath.getLast? ≠ some 47 := by
    intro srcPath h
    unfold S3Request.handle at h
    rw [hname] at h
    have hproper := (inside_handle_iff hkey sampleEnv (.renameObject srcPath)).mp h
    exact ⟨hproper.1, hproper.2.1⟩
  refine ⟨fun h => ?_, ?_, fun h => ?_⟩
  · exact absurd (hinside _ h).1 (by decide)
  · have hstored : internalSite.inodes[ascii "@ovr/x"]? = some (.raw [1]) :=
      Std.ExtTreeMap.getElem?_insert_self
    have hfree : internalSite.inodes[ascii "/k"]? = none := by
      show ((∅ : Namespace).insert (ascii "@ovr/x") (.raw [1]))[ascii "/k"]? = none
      rw [Std.ExtTreeMap.getElem?_insert, if_neg (by decide)]
      rfl
    have hrename : internalSite.rename (ascii "@ovr/x") (ascii "/k")
        = (.ok .empty, internalSite.renamed (ascii "@ovr/x") (ascii "/k") (.raw [1])) := by
      unfold Site.rename
      rw [hstored, hfree]
      rfl
    unfold renameObject renameAttempts renameAttempt
    rw [if_neg (by decide), if_neg (by decide), hrename]
    rfl
  · exact absurd rfl (hinside _ h).2

end FractalBits.Objects
