/-
  Client.Transfer — recursive moves and downloads of `fractal-s3`.

  Mirrors `move_prefix`, `move_object` and `download_prefix_and_delete` of `commands/mv.rs` and
  `download_prefix` and `download_file` of `commands/cp.rs`.
-/

import FractalBits.Filesystem.Scope
import FractalBits.Gateway.Request

namespace FractalBits.Client

open Lib Gateway List Function
open Filesystem (IsName IsPath)

/-! ## §1. Destinations -/

/-- `Path::file_name`: the last component, unless it is `..`. -/
def fileName (path : Bytes) : Option Bytes :=
  (((splitAll 47 path).filter fun c => c ≠ [] ∧ c ≠ ascii ".").getLast?).filter (· ≠ ascii "..")

/-- The key below the prefix, without leading slashes. -/
def relativeKey (srcPrefix key : Bytes) : Bytes :=
  ((stripPrefix srcPrefix key).getD key).dropWhile (· == 47)

/-- `new_key` of `move_prefix`: a slash goes between the two where none is. -/
def newKey (dstPrefix relative : Bytes) : Bytes :=
  if dstPrefix = [] ∨ dstPrefix.getLast? = some 47 then dstPrefix ++ relative
  else dstPrefix ++ ascii "/" ++ relative

/-- `dst_key` of `move_object`; a key without a name is an error. -/
def objectKey (srcKey dstKey : Bytes) : Option Bytes :=
  if dstKey = [] ∨ dstKey.getLast? = some 47 then (fileName srcKey).map (dstKey ++ ·)
    else some dstKey

/-- Where `move_prefix` has `move_object` put a key. -/
def moveTarget (srcPrefix dstPrefix key : Bytes) : Option Bytes :=
  objectKey key (newKey dstPrefix (relativeKey srcPrefix key))

/-- The name a key gets below the directory of a download. -/
def downloadName (srcPrefix key : Bytes) : Bytes :=
  if relativeKey srcPrefix key = [] then (fileName key).getD (ascii "file")
    else relativeKey srcPrefix key

/-- One component of a path, as the file system follows it. -/
def follow (dir : List Bytes) (component : Bytes) : List Bytes :=
  if component = [] ∨ component = ascii "." then dir
  else if component = ascii ".." then dir.dropLast
  else dir ++ [component]

/-- Where `dir.join(path)` is, for a path that does not start with a slash. -/
def resolve (dir : List Bytes) (path : Bytes) : List Bytes := (splitAll 47 path).foldl follow dir

/-- `target_path` of the download of a key. -/
def targetPath (dir : List Bytes) (srcPrefix key : Bytes) : List Bytes :=
    resolve dir (downloadName srcPrefix key)

/-! ## §2. The commands -/

/-- What a copy is made of. -/
inductive CopySource
  | emptyBody
  | object (key : Bytes)
  deriving DecidableEq, Repr

/-- The body that is copied. -/
def CopySource.read (bucket : Bytes → Option Bytes) : CopySource → Option Bytes
  | .emptyBody => some []
  | .object key => bucket key

/-- What the gateway copies for `copy_source`, in which the key stands unencoded. The client sends
    no control characters, and blanks at the end of a header are dropped. `CopyObject` decodes the
    text; a header that `to_str` refuses is not seen, and the request is a PUT of its empty body. -/
def copySource (key : Bytes) : Option CopySource :=
  if key.any fun b => (b < 0x20 && b ≠ 9) || b = 0x7F then none
  else
    match toStr (key.reverse.dropWhile fun b => b = 0x20 || b = 9).reverse with
    | none => some .emptyBody
    | some text =>
      if utf8Valid (percentDecode text) then some (.object (percentDecode text)) else none

section

variable {Place : Type} [DecidableEq Place]

/-- Copies the objects of the keys in their order, each to its place; a key that is copied is
    deleted at once, or not at all. An object is read by `source`. -/
def copyAll (place : Bytes → Option Place) (source : Bytes → Option CopySource) (deletes : Bool) :
    List Bytes → (Bytes → Option Bytes) × (Place → Option Bytes) →
      Option ((Bytes → Option Bytes) × (Place → Option Bytes))
  | [], s => some s
  | key :: keys, s => do
    let target ← place key
    let object ← (← source key).read s.1
    copyAll place source deletes keys
      (if deletes then update s.1 key none else s.1,
        update s.2 target (some object))

end

/-- `move_prefix` between buckets: `CopyObject` and `DeleteObject` for each key. -/
def movePrefixAcross (srcPrefix dstPrefix : Bytes) (keys : List Bytes) :=
  copyAll (moveTarget srcPrefix dstPrefix) copySource true keys

/-- The path of a rename starts with a slash. -/
def renamePath (key : Bytes) : Bytes := if key.head? = some 47 then key else 47 :: key

/-- Where a rename puts the object of a key. -/
def renamedTo (received : Bytes → Option Bytes) (srcPrefix dstPrefix key : Bytes) : Option Bytes :=
  (moveTarget srcPrefix dstPrefix key).bind fun target => received (renamePath target)

/-- `move_prefix` within a bucket, by renames, which are refused if the destination is there. The
    destination stands in the URL unencoded: `received` is the path that the gateway finds there. -/
def movePrefixWithin (received : Bytes → Option Bytes) (srcPrefix dstPrefix : Bytes) :
    List Bytes → (Bytes → Option Bytes) → Option (Bytes → Option Bytes)
  | [], bucket => some bucket
  | key :: keys, bucket => do
    let path ← renamedTo received srcPrefix dstPrefix key
    let object ← bucket (renamePath key)
    if (bucket path).isSome then none
    else
      movePrefixWithin received srcPrefix dstPrefix keys
        (update (update bucket (renamePath key) none) path (some object))

/-- `download_prefix_and_delete`; `creates` says which files can be created. -/
def downloadPrefixAndDelete (creates : List Bytes → Bool) (dir : List Bytes) (srcPrefix : Bytes)
    (keys : List Bytes) (s : (Bytes → Option Bytes) × (List Bytes → Option Bytes)) :
    Option ((Bytes → Option Bytes) × (List Bytes → Option Bytes)) :=
  (copyAll (fun key => (some (targetPath dir srcPrefix key)).filter creates)
    (fun key => some (.object key)) false keys s).map fun s' =>
    (fun key => if key ∈ keys then none else s'.1 key, s'.2)

/-- `download_file`: the file that is created for a path, which is in it if that is a directory. -/
def downloadFile (isDir : List Bytes → Bool) (key : Bytes) (path : List Bytes) : Option
    (List Bytes) :=
  if isDir path then (fileName key).map (resolve path) else some path

/-- The files that `download_prefix` creates; it stops at a key without a name. -/
def downloadPrefix (isDir : List Bytes → Bool) (dir : List Bytes) (srcPrefix : Bytes) :
    List Bytes → List (List Bytes)
  | [] => []
  | key :: keys =>
    match downloadFile isDir key (targetPath dir srcPrefix key) with
    | none => []
    | some file => file :: downloadPrefix isDir dir srcPrefix keys

/-! ## §3. How far a path climbs -/

/-- `follow` from a directory that is not known. -/
def climbStep (r : Nat × List Bytes) (component : Bytes) : Nat × List Bytes :=
  if component = [] ∨ component = ascii "." then r
  else if component = ascii ".." then (if r.2 = [] then (r.1 + 1, []) else (r.1, r.2.dropLast))
  else (r.1, r.2 ++ [component])

/-- The levels above its start that a path leaves, and the names it then adds. -/
def climb (path : Bytes) : Nat × List Bytes := (splitAll 47 path).foldl climbStep (0, [])

/-- Where a climb from `dir` ends. -/
def landing (dir : List Bytes) (r : Nat × List Bytes) : List Bytes :=
    dir.take (dir.length - r.1) ++ r.2

theorem follow_landing (dir : List Bytes) (r : Nat × List Bytes) (component : Bytes) :
    follow (landing dir r) component = landing dir (climbStep r component) := by
  unfold follow climbStep
  split
  · rfl
  split
  · split
    · next hnone =>
      unfold landing
      rw [hnone, append_nil, append_nil, dropLast_eq_take, take_take, length_take]
      congr 1
      omega
    · next hsome => exact dropLast_append_of_ne_nil hsome
  · exact append_assoc ..

theorem resolve_eq (dir : List Bytes) (path : Bytes) :
    resolve dir path = landing dir (climb path) := by
  have hrun : ∀ (components : List Bytes) (r : Nat × List Bytes),
      components.foldl follow (landing dir r) = landing dir (components.foldl climbStep r) := by
    intro components
    induction components with
    | nil => exact fun _ => rfl
    | cons component components ih =>
      intro r
      rw [foldl_cons, foldl_cons, follow_landing, ih]
  have hstart : landing dir (0, []) = dir := by
    simp [landing]
  have hend := hrun (splitAll 47 path) (0, [])
  rwa [hstart] at hend

theorem isPath_climb (path : Bytes) : IsPath (climb path).2 := by
  have hrun : ∀ (components : List Bytes) (r : Nat × List Bytes), (∀ c ∈ components, 47 ∉ c) →
    IsPath r.2 →
      IsPath (components.foldl climbStep r).2 := by
    intro components
    induction components with
    | nil => exact fun _ _ hr => hr
    | cons component components ih =>
      intro r hslash hr
      obtain ⟨hfirst, hrest⟩ := forall_mem_cons.mp hslash
      refine ih _ hrest ?_
      unfold climbStep
      split
      · exact hr
      next hskip =>
      split
      · split
        · exact nofun
        · exact hr.of_prefix (List.dropLast_prefix _)
      next hdots =>
      obtain ⟨hne, hdot⟩ := not_or.mp hskip
      intro name hname
      rcases mem_append.mp hname with hname | hname
      · exact hr name hname
      · rw [mem_singleton.mp hname]
        exact ⟨⟨hne, hdot, hdots⟩, hfirst⟩
  exact hrun _ _ (fun _ => not_mem_of_mem_splitAll) nofun

theorem resolve_name (dir : List Bytes) {name : Bytes} (h : IsName name) (hslash : 47 ∉ name) :
    resolve dir name = dir ++ [name] := by
  rw [resolve, splitAll_of_not_mem hslash]
  show follow dir name = _
  rw [follow, if_neg (not_or.mpr ⟨h.ne_nil, h.ne_dot⟩), if_neg h.ne_dots]

theorem isName_of_fileName {path name : Bytes} (h : fileName path = some name) :
    IsName name ∧ 47 ∉ name := by
  obtain ⟨hlast, hdots⟩ := Option.filter_eq_some_iff.mp h
  obtain ⟨hmem, hkept⟩ := mem_filter.mp (mem_of_getLast? hlast)
  simp only [ne_eq, decide_eq_true_eq] at hkept hdots
  exact ⟨⟨hkept.1, hkept.2, hdots⟩, not_mem_of_mem_splitAll hmem⟩

/-! ## §4. Files inside the destination -/

theorem inside_iff (path : Bytes) : (∀ dir, IsPath dir → dir <+: resolve dir path)
    ↔ (climb path).1 = 0 := by
  constructor
  · intro h
    by_contra hclimbs
    -- a directory whose only name is not the one that the path adds first
    obtain ⟨name, hname, hfirst⟩ : ∃ name, (IsName name ∧ 47 ∉ name)
      ∧ (climb path).2.head? ≠ some name := by
      by_cases hfirst : (climb path).2.head? = some (ascii "a")
      · exact ⟨ascii "b", ⟨⟨by decide, by decide, by decide⟩, by decide⟩, by rw [hfirst]; decide⟩
      · exact ⟨ascii "a", ⟨⟨by decide, by decide, by decide⟩, by decide⟩, hfirst⟩
    have hdir : IsPath [name] := fun other hother => mem_singleton.mp hother ▸ hname
    obtain ⟨rest, hrest⟩ := h [name] hdir
    have hlevels : [name].length - (climb path).1 = 0 := by
      rw [length_singleton]
      omega
    rw [resolve_eq, landing, hlevels, take_zero, nil_append] at hrest
    exact hfirst (by rw [← hrest]; rfl)
  · intro h dir _
    rw [resolve_eq, landing, h, Nat.sub_zero, take_length]
    exact prefix_append _ _

theorem prefix_of_downloadFile {isDir : List Bytes → Bool} {key : Bytes}
    {dir path file : List Bytes} (hpath : dir <+: path)
    (h : downloadFile isDir key path = some file) : dir <+: file := by
  unfold downloadFile at h
  split at h
  · obtain ⟨name, hname, rfl⟩ := Option.map_eq_some_iff.mp h
    obtain ⟨hvalid, hslash⟩ := isName_of_fileName hname
    rw [resolve_name path hvalid hslash]
    exact hpath.trans (prefix_append _ _)
  · cases h
    exact hpath

theorem prefix_of_mem_downloadPrefix {isDir : List Bytes → Bool} {dir file : List Bytes}
    {srcPrefix : Bytes} {keys : List Bytes}
    (hpath : ∀ key ∈ keys, dir <+: targetPath dir srcPrefix key)
    (h : file ∈ downloadPrefix isDir dir srcPrefix keys) :
    dir <+: file := by
  induction keys with
  | nil => cases h
  | cons key keys ih =>
    obtain ⟨hfirst, hrest⟩ := forall_mem_cons.mp hpath
    unfold downloadPrefix at h
    split at h
    · cases h
    · next created hcreated =>
      rcases mem_cons.mp h with rfl | h
      · exact prefix_of_downloadFile hfirst hcreated
      · exact ih hrest h

/-- ★ **A recursive download writes inside its destination exactly if no key climbs** above its
    start by more `..` than there are names before them. -/
theorem recursive_download_inside_iff (srcPrefix : Bytes) (keys : List Bytes) :
    (∀ dir, IsPath dir →
        (∀ isDir, ∀ file ∈ downloadPrefix isDir dir srcPrefix keys, dir <+: file)
        ∧ ∀ key ∈ keys, dir <+: targetPath dir srcPrefix key)
      ↔ ∀ key ∈ keys, (climb (downloadName srcPrefix key)).1 = 0 := by
  constructor
  · intro h key hkey
    exact (inside_iff _).mp fun dir hdir => (h dir hdir).2 key hkey
  · intro h dir hdir
    have htargets : ∀ key ∈ keys, dir <+: targetPath dir srcPrefix key := fun key hkey =>
      (inside_iff _).mpr (h key hkey) dir hdir
    exact ⟨fun isDir file hfile => prefix_of_mem_downloadPrefix htargets hfile, htargets⟩

theorem download_escapes :
    downloadPrefix (fun _ => false) [ascii "home", ascii "u"] (ascii "p/") [ascii "p/../../etc/x"]
      = [[ascii "etc", ascii "x"]]
    ∧ targetPath [ascii "home", ascii "u"] (ascii "p/") (ascii "p/../../etc/x")
      = [ascii "etc", ascii "x"]
    ∧ ¬ [ascii "home", ascii "u"] <+: [ascii "etc", ascii "x"] := by
  decide

/-! ## §5. Objects that are kept -/

/-- No two keys have one image. -/
def DistinctOn {Image : Type} (keys : List Bytes) (f : Bytes → Option Image) : Prop :=
  ∀ k ∈ keys, ∀ k' ∈ keys, ∀ t, f k = some t → f k' = some t → k = k'

section

variable {Place : Type} {place : Bytes → Option Place} {source : Bytes → Option CopySource}
  {keys gone : List Bytes}

theorem DistinctOn.tail {k : Bytes} (h : DistinctOn (k :: keys) place) : DistinctOn keys place :=
  fun a ha b hb => h a (mem_cons_of_mem _ ha) b (mem_cons_of_mem _ hb)

/-- The copies can all be made, one after the other: each key has a place, and it is read where
    nothing is gone. -/
def Movable (place : Bytes → Option Place) (source : Bytes → Option CopySource) :
    List Bytes → List Bytes → Prop
  | _, [] => True
  | gone, key :: keys => (∃ t, place key = some t) ∧
    (∃ origin, source key = some origin ∧ ∀ x ∈ gone, origin ≠ .object x) ∧
    Movable place source (key :: gone) keys

variable [DecidableEq Place] {deletes : Bool}
  {s s' : (Bytes → Option Bytes) × (Place → Option Bytes)}

theorem movable_of_copyAll (h : copyAll place source true keys s = some s')
    (hgone : ∀ x ∈ gone, s.1 x = none) : Movable place source gone keys := by
  induction keys generalizing s gone with
  | nil => trivial
  | cons key keys ih =>
    obtain ⟨target, htarget, h⟩ := Option.bind_eq_some_iff.mp h
    obtain ⟨origin, horigin, h⟩ := Option.bind_eq_some_iff.mp h
    obtain ⟨object, hobject, h⟩ := Option.bind_eq_some_iff.mp h
    refine ⟨⟨target, htarget⟩, ⟨origin, horigin, ?_⟩, ih h ?_⟩
    · rintro x hx rfl
      exact nomatch hobject.symm.trans (hgone x hx)
    · intro x hx
      show update s.1 key none x = none
      rw [update_apply]
      split
      · rfl
      · next hne => exact hgone x ((mem_cons.mp hx).resolve_left hne)

theorem copyAll_of_movable (h : Movable place source gone keys)
    (hstored : ∀ x, x ∉ gone → (s.1 x).isSome) :
    ∃ s', copyAll place source true keys s = some s' := by
  induction keys generalizing s gone with
  | nil => exact ⟨s, rfl⟩
  | cons key keys ih =>
    obtain ⟨⟨target, htarget⟩, ⟨origin, horigin, hnot⟩, hrest⟩ := h
    obtain ⟨object, hobject⟩ : ∃ object, origin.read s.1 = some object := by
      cases origin with
      | emptyBody => exact ⟨[], rfl⟩
      | object x => exact Option.isSome_iff_exists.mp (hstored x fun hx => hnot x hx rfl)
    unfold copyAll
    rw [htarget, horigin]
    simp only [Option.bind_eq_bind, Option.bind_some, hobject]
    refine ih hrest fun x hx => ?_
    have hne : x ≠ key := fun h => hx (h ▸ mem_cons_self)
    show (update s.1 key none x).isSome
    rw [update_of_ne hne]
    exact hstored x fun h => hx (mem_cons_of_mem _ h)

/-- What was read before is not read differently later: a delete leaves nothing to read. -/
theorem read_of_deleted {bucket : Bytes → Option Bytes} {key object : Bytes} {origin : CopySource}
    (h : origin.read (if deletes then update bucket key none else bucket) = some object) :
    origin.read bucket = some object := by
  cases deletes with
  | false => exact h
  | true =>
    cases origin with
    | emptyBody => exact h
    | object x =>
      have hupdate : update bucket key none x = some object := h
      rw [update_apply] at hupdate
      split at hupdate
      · cases hupdate
      · exact hupdate

/-- Where places are distinct, each holds in the end what its key's source held in the beginning. -/
theorem copyAll_keeps (h : copyAll place source deletes keys s = some s') (hkeys : keys.Nodup)
    (hplaces : DistinctOn keys place) :
    (∀ k ∈ keys, ∃ t origin object, place k = some t ∧ source k = some origin ∧
        origin.read s.1 = some object ∧ s'.2 t = some object)
      ∧ (∀ t, (∀ k ∈ keys, place k ≠ some t) → s'.2 t = s.2 t) := by
  induction keys generalizing s with
  | nil =>
    cases h
    exact ⟨nofun, fun _ _ => rfl⟩
  | cons key keys ih =>
    obtain ⟨target, htarget, h⟩ := Option.bind_eq_some_iff.mp h
    obtain ⟨origin, horigin, h⟩ := Option.bind_eq_some_iff.mp h
    obtain ⟨object, hobject, h⟩ := Option.bind_eq_some_iff.mp h
    obtain ⟨hkey, hrest⟩ := nodup_cons.mp hkeys
    obtain ⟨hkept, hframe⟩ := ih h hrest hplaces.tail
    have hother : ∀ k ∈ keys, place k ≠ some target := by
      intro k hk hsame
      have heq := hplaces key mem_cons_self k (mem_cons_of_mem _ hk) target htarget hsame
      exact hkey (heq ▸ hk)
    refine ⟨fun k hk => ?_, fun t ht => ?_⟩
    · rcases mem_cons.mp hk with rfl | hk
      · refine ⟨target, origin, object, htarget, horigin, hobject, ?_⟩
        rw [hframe target hother]
        exact update_self ..
      · obtain ⟨t, origin', object', ht, horigin', hread, heq⟩ := hkept k hk
        exact ⟨t, origin', object', ht, horigin', read_of_deleted hread, heq⟩
    · rw [hframe t fun k hk => ht k (mem_cons_of_mem _ hk)]
      refine update_of_ne (fun heq => ?_) _ _
      exact ht key mem_cons_self (heq ▸ htarget)

end

/-- After a run of renames every key has a path of its own, with what the key had; what lies
    elsewhere stays, and only a key that is moved makes room for another. -/
theorem movePrefixWithin_keeps {received : Bytes → Option Bytes} {srcPrefix dstPrefix : Bytes}
    {keys : List Bytes} {bucket bucket' : Bytes → Option Bytes}
    (h : movePrefixWithin received srcPrefix dstPrefix keys bucket = some bucket')
    (hkeys : keys.Nodup) (hlisted : ∀ k ∈ keys, (bucket (renamePath k)).isSome)
    (hpaths : ∀ k ∈ keys, ∀ k' ∈ keys, renamePath k = renamePath k' → k = k') :
    DistinctOn keys (renamedTo received srcPrefix dstPrefix)
      ∧ (∀ k ∈ keys, ∃ path, renamedTo received srcPrefix dstPrefix k = some path ∧
        bucket' path = bucket (renamePath k))
      ∧ ∀ path, (bucket path).isSome → (∀ k ∈ keys, path ≠ renamePath k) →
        bucket' path = bucket path
          ∧ ∀ k ∈ keys, renamedTo received srcPrefix dstPrefix k ≠ some path := by
  induction keys generalizing bucket with
  | nil =>
    cases h
    exact ⟨nofun, nofun, fun _ _ _ => ⟨rfl, nofun⟩⟩
  | cons key keys ih =>
    obtain ⟨there, hthere, h⟩ := Option.bind_eq_some_iff.mp h
    obtain ⟨object, hobject, h⟩ := Option.bind_eq_some_iff.mp h
    split at h
    · cases h
    next hfree =>
    obtain ⟨hkey, hrest⟩ := nodup_cons.mp hkeys
    obtain ⟨-, hlisted⟩ := forall_mem_cons.mp hlisted
    -- what is stored at another path is neither moved nor in the way
    have hstays : ∀ path, (bucket path).isSome → path ≠ renamePath key → path ≠ there ∧
        update (update bucket (renamePath key) none) there (some object) path
          = bucket path := by
      intro path hpath hne
      have hother : path ≠ there := fun heq => hfree (heq ▸ hpath)
      exact ⟨hother, by rw [update_of_ne hother, update_of_ne hne]⟩
    have hothers : ∀ k ∈ keys, renamePath k ≠ renamePath key := fun k hk heq =>
      hkey (hpaths k (mem_cons_of_mem _ hk) key mem_cons_self heq ▸ hk)
    have hlater : ∀ k ∈ keys, _ := fun k hk =>
      hstays (renamePath k) (hlisted k hk) (hothers k hk)
    obtain ⟨hdistinct, hkept, hframe⟩ := ih h hrest
      (fun k hk => by rw [(hlater k hk).2]; exact hlisted k hk)
      fun k hk k' hk' => hpaths k (mem_cons_of_mem _ hk) k' (mem_cons_of_mem _ hk')
    -- the path that is taken now stays, and no later key is moved there
    obtain ⟨hsame, htaken⟩ := hframe there (by rw [update_self]; rfl)
      fun k hk => (hlater k hk).1.symm
    refine ⟨?_, fun k hk => ?_, fun path hpath hpaths => ?_⟩
    · intro k hk k' hk' path hpath hpath'
      rcases mem_cons.mp hk with hfirst | hk
      · rcases mem_cons.mp hk' with hfirst' | hk'
        · rw [hfirst, hfirst']
        · exact absurd (hpath'.trans (hpath.symm.trans (hfirst ▸ hthere))) (htaken k' hk')
      · rcases mem_cons.mp hk' with hfirst' | hk'
        · exact absurd (hpath.trans (hpath'.symm.trans (hfirst' ▸ hthere))) (htaken k hk)
        · exact hdistinct k hk k' hk' path hpath hpath'
    · rcases mem_cons.mp hk with rfl | hk
      · exact ⟨there, hthere, by rw [hsame, update_self, hobject]⟩
      · obtain ⟨path, hpath, heq⟩ := hkept k hk
        exact ⟨path, hpath, heq.trans (hlater k hk).2⟩
    · obtain ⟨hfirst, hmore⟩ := forall_mem_cons.mp hpaths
      obtain ⟨hother, hnow⟩ := hstays path hpath hfirst
      obtain ⟨hstill, hnot⟩ := hframe path (by rw [hnow]; exact hpath) hmore
      refine ⟨hstill.trans hnow, forall_mem_cons.mpr ⟨fun heq => hother ?_, hnot⟩⟩
      exact Option.some.inj (heq.symm.trans hthere)

/-- The target of a key below the destination. -/
def moveName (srcPrefix key : Bytes) : Option Bytes := objectKey key (relativeKey srcPrefix key)

/-- The prefix all targets start with. -/
def destination (dstPrefix : Bytes) : Bytes := newKey dstPrefix []

theorem moveTarget_eq (srcPrefix dstPrefix key : Bytes) :
    moveTarget srcPrefix dstPrefix key = (moveName srcPrefix key).map
      (destination dstPrefix ++ ·) := by
  have hnew : ∀ relative, newKey dstPrefix relative = destination dstPrefix ++ relative := by
    intro relative
    unfold destination newKey
    split
    · rw [append_nil]
    · rw [append_nil]
  have hslash : destination dstPrefix = [] ∨ (destination dstPrefix).getLast? = some 47 := by
    unfold destination newKey
    split
    · next h => rwa [append_nil]
    · exact .inr (by rw [append_nil]; exact List.getLast?_concat)
  have hends : ∀ relative : Bytes, (destination dstPrefix ++ relative = []
      ∨ (destination dstPrefix ++ relative).getLast? = some 47)
        ↔ (relative = [] ∨ relative.getLast? = some 47) := by
    intro relative
    rcases eq_nil_or_concat relative with rfl | ⟨front, last, rfl⟩
    · rw [append_nil]
      exact ⟨fun _ => .inl rfl, fun _ => hslash⟩
    · simp [← append_assoc]
  unfold moveTarget moveName objectKey
  rw [hnew]
  simp only [hends]
  split
  · rw [Option.map_map]
    congr 1
    funext name
    exact append_assoc ..
  · rfl

/-- From some directory the two lead to the same file. -/
def Coincide (r r' : Nat × List Bytes) : Prop := r'.1 ≤ r.1 ∧ r'.2 <:+ r.2
    ∧ r.2.length ≤ r'.2.length + (r.1 - r'.1)

theorem coincide_of_landing_eq {dir : List Bytes} {r r' : Nat × List Bytes} (hle : r'.1 ≤ r.1)
    (h : landing dir r = landing dir r') : Coincide r r' := by
  have hsplit : dir.take (dir.length - r'.1) = dir.take (dir.length - r.1)
      ++ (dir.drop (dir.length - r.1)).take (dir.length - r'.1 - (dir.length - r.1)) := by
    rw [← take_add]
    congr 1
    omega
  unfold landing at h
  rw [hsplit, append_assoc] at h
  have hnames := append_cancel_left h
  refine ⟨hle, ⟨_, hnames.symm⟩, ?_⟩
  rw [hnames, length_append, length_take]
  omega

theorem landing_eq_of_coincide {r r' : Nat × List Bytes} (hr : IsPath r.2) (h : Coincide r r') :
    ∃ dir, IsPath dir ∧ landing dir r = landing dir r' := by
  obtain ⟨hle, ⟨left, hleft⟩, hlen⟩ := h
  rw [← hleft, length_append] at hlen
  refine ⟨left ++ List.replicate r'.1 (ascii "d"), fun name hname => ?_, ?_⟩
  · rcases mem_append.mp hname with hname | hname
    · exact hr name (hleft ▸ mem_append_left _ hname)
    · rw [eq_of_mem_replicate hname]
      exact ⟨⟨by decide, by decide, by decide⟩, by decide⟩
  · have hnone : left.length + r'.1 - r.1 = 0 := by omega
    unfold landing
    rw [length_append, length_replicate, hnone, Nat.add_sub_cancel, take_left, take_zero,
      nil_append, hleft]

theorem distinct_targets_iff (srcPrefix : Bytes) (keys : List Bytes) :
    (∀ dir, IsPath dir → DistinctOn keys fun key => some (targetPath dir srcPrefix key))
      ↔ ∀ k ∈ keys, ∀ k' ∈ keys, Coincide (climb (downloadName srcPrefix k))
        (climb (downloadName srcPrefix k')) → k = k' := by
  constructor
  · intro h k hk k' hk' hcoincide
    obtain ⟨dir, hdir, hsame⟩ := landing_eq_of_coincide (isPath_climb _) hcoincide
    rw [← resolve_eq, ← resolve_eq] at hsame
    exact h dir hdir k hk k' hk' _ rfl (congrArg some hsame.symm)
  · intro h dir _ k hk k' hk' t ht ht'
    have hsame : targetPath dir srcPrefix k = targetPath dir srcPrefix k' :=
      Option.some.inj (ht.trans ht'.symm)
    unfold targetPath at hsame
    rw [resolve_eq, resolve_eq] at hsame
    rcases Nat.le_total (climb (downloadName srcPrefix k')).1
      (climb (downloadName srcPrefix k)).1 with hle | hle
    · exact h k hk k' hk' (coincide_of_landing_eq hle hsame)
    · exact (h k' hk' k hk (coincide_of_landing_eq hle hsame.symm)).symm

theorem distinct_moveTarget_iff (srcPrefix dstPrefix : Bytes) (keys : List Bytes) :
    DistinctOn keys (moveTarget srcPrefix dstPrefix) ↔ DistinctOn keys (moveName srcPrefix) := by
  constructor
  · intro h k hk k' hk' t ht ht'
    refine h k hk k' hk' (destination dstPrefix ++ t) ?_ ?_
    · rw [moveTarget_eq, ht]
      rfl
    · rw [moveTarget_eq, ht']
      rfl
  · intro h k hk k' hk' t ht ht'
    rw [moveTarget_eq] at ht ht'
    obtain ⟨name, hname, rfl⟩ := Option.map_eq_some_iff.mp ht
    obtain ⟨name', hname', heq⟩ := Option.map_eq_some_iff.mp ht'
    exact h k hk k' hk' name hname (append_cancel_left heq ▸ hname')

/-! ## §6. Keys that clash -/

/-- The key is the prefix, some slashes, and a rest that does not begin with one. -/
def SplitsAs (srcPrefix key rest : Bytes) : Prop :=
  (∃ slashes, key = srcPrefix ++ (List.replicate slashes 47 ++ rest)) ∧ rest.head? ≠ some 47

/-- Such a rest gets the name of its key appended. -/
def IsFolder (rest : Bytes) : Prop := rest = [] ∨ rest.getLast? = some 47

/-- Two keys that are moved to one place: they differ in the slashes after the prefix only, and have
    the same name if they are folders; or one is a folder, and the other what its name makes it. -/
inductive Clash (srcPrefix : Bytes) : Bytes → Bytes → Prop
  | slashes {k k' rest : Bytes} (h : SplitsAs srcPrefix k rest) (h' : SplitsAs srcPrefix k' rest)
      (hfile : ¬ IsFolder rest) : Clash srcPrefix k k'
  | folders {k k' rest name : Bytes} (h : SplitsAs srcPrefix k rest)
      (h' : SplitsAs srcPrefix k' rest) (hfolder : IsFolder rest) (hname : fileName k = some name)
      (hname' : fileName k' = some name) : Clash srcPrefix k k'
  | folderFile {k k' rest name : Bytes} (h : SplitsAs srcPrefix k rest) (hfolder : IsFolder rest)
      (hname : fileName k = some name) (h' : SplitsAs srcPrefix k' (rest ++ name)) :
      Clash srcPrefix k k'

section

variable {srcPrefix k k' rest rest' name name' : Bytes}

theorem relativeKey_eq_iff (h : srcPrefix <+: k) :
    relativeKey srcPrefix k = rest ↔ SplitsAs srcPrefix k rest := by
  obtain ⟨tail, rfl⟩ := h
  have hrelative : relativeKey srcPrefix (srcPrefix ++ tail) = tail.dropWhile (· == 47) := by
    rw [relativeKey, stripPrefix_append, Option.getD_some]
  rw [hrelative]
  constructor
  · rintro rfl
    refine ⟨⟨(tail.takeWhile (· == 47)).length, ?_⟩, fun hhead => ?_⟩
    · have hslashes : tail.takeWhile (· == 47)
          = List.replicate (tail.takeWhile (· == 47)).length 47 :=
        eq_replicate_of_mem fun b hb => by simpa using mem_takeWhile_imp hb
      rw [← hslashes, takeWhile_append_dropWhile]
    · have hnot := List.head?_dropWhile_not (· == (47 : UInt8)) tail
      rw [hhead] at hnot
      simp at hnot
  · rintro ⟨⟨slashes, heq⟩, hhead⟩
    rw [append_cancel_left heq, dropWhile_append_of_pos (by simp)]
    cases rest with
    | nil => rfl
    | cons b rest => exact dropWhile_cons_of_neg (by simpa using hhead)

theorem not_isFolder_append (hname : fileName k = some name) : ¬ IsFolder (rest ++ name) := by
  obtain ⟨hvalid, hslash⟩ := isName_of_fileName hname
  rintro (h | h)
  · exact hvalid.ne_nil (append_eq_nil_iff.mp h).2
  · rw [List.getLast?_append_of_ne_nil _ hvalid.ne_nil] at h
    exact hslash (mem_of_getLast? h)

/-- A folder ends where its name begins. -/
theorem folder_append_inj (hfolder : IsFolder rest) (hfolder' : IsFolder rest')
    (hname : 47 ∉ name) (hname' : 47 ∉ name') (h : rest ++ name = rest' ++ name') :
    rest = rest' ∧ name = name' := by
  have hsplit : ∀ {r : Bytes}, IsFolder r → r ≠ [] → ∃ front, r = front ++ [47] := by
    intro r hr hne
    exact ⟨r.dropLast, (dropLast_append_getLast? _ (hr.resolve_left hne)).symm⟩
  by_cases hne : rest = []
  · by_cases hne' : rest' = []
    · subst hne hne'
      exact ⟨rfl, h⟩
    · obtain ⟨front, rfl⟩ := hsplit hfolder' hne'
      subst hne
      exact absurd (show 47 ∈ name by rw [show name = _ from h]; simp) hname
  · obtain ⟨front, rfl⟩ := hsplit hfolder hne
    by_cases hne' : rest' = []
    · subst hne'
      exact absurd (show 47 ∈ name' by rw [← show _ = name' from h]; simp) hname'
    · obtain ⟨front', rfl⟩ := hsplit hfolder' hne'
      rw [append_assoc, append_assoc] at h
      obtain ⟨hfront, hsame⟩ := append_cons_inj_last hname hname' h
      exact ⟨by rw [hfront], hsame⟩

end

theorem SplitsAs.relativeKey {srcPrefix k rest : Bytes} (h : SplitsAs srcPrefix k rest) :
    relativeKey srcPrefix k = rest := by
  obtain ⟨slashes, heq⟩ := h.1
  exact (relativeKey_eq_iff ⟨_, heq.symm⟩).mpr h

theorem SplitsAs.moveName_file {srcPrefix k rest : Bytes} (h : SplitsAs srcPrefix k rest)
    (hfile : ¬ IsFolder rest) : moveName srcPrefix k = some rest := by
  rw [moveName, h.relativeKey]
  exact if_neg hfile

theorem SplitsAs.moveName_folder {srcPrefix k rest name : Bytes} (h : SplitsAs srcPrefix k rest)
    (hfolder : IsFolder rest) (hname : fileName k = some name) :
    moveName srcPrefix k = some (rest ++ name) := by
  rw [moveName, h.relativeKey, objectKey, hname]
  exact if_pos hfolder

theorem moveName_cases {srcPrefix k t : Bytes} (h : srcPrefix <+: k)
    (hsome : moveName srcPrefix k = some t) : ∃ rest, SplitsAs srcPrefix k rest ∧
      ((¬ IsFolder rest ∧ t = rest)
        ∨ (IsFolder rest ∧ ∃ name, fileName k = some name ∧ t = rest ++ name)) := by
  refine ⟨_, (relativeKey_eq_iff h).mp rfl, ?_⟩
  unfold moveName objectKey at hsome
  split at hsome
  · next hfolder =>
    obtain ⟨name, hname, rfl⟩ := Option.map_eq_some_iff.mp hsome
    exact .inr ⟨hfolder, name, hname, rfl⟩
  · next hfile => exact .inl ⟨hfile, (Option.some.inj hsome).symm⟩

theorem Clash.sameName {srcPrefix k k' : Bytes} (h : Clash srcPrefix k k') :
    ∃ t, moveName srcPrefix k = some t ∧ moveName srcPrefix k' = some t := by
  cases h with
  | slashes h h' hfile => exact ⟨_, h.moveName_file hfile, h'.moveName_file hfile⟩
  | folders h h' hfolder hname hname' =>
    exact ⟨_, h.moveName_folder hfolder hname, h'.moveName_folder hfolder hname'⟩
  | folderFile h hfolder hname h' =>
    exact ⟨_, h.moveName_folder hfolder hname, h'.moveName_file (not_isFolder_append hname)⟩

theorem clash_of_sameName {srcPrefix k k' t : Bytes} (h : srcPrefix <+: k) (h' : srcPrefix <+: k')
    (ht : moveName srcPrefix k = some t) (ht' : moveName srcPrefix k' = some t) :
    Clash srcPrefix k k' ∨ Clash srcPrefix k' k := by
  obtain ⟨rest, hrest, hcase⟩ := moveName_cases h ht
  obtain ⟨rest', hrest', hcase'⟩ := moveName_cases h' ht'
  rcases hcase with ⟨hfile, rfl⟩ | ⟨hfolder, name, hname, rfl⟩
  · rcases hcase' with ⟨hfile', rfl⟩ | ⟨hfolder', name', hname', rfl⟩
    · exact .inl (.slashes hrest hrest' hfile)
    · exact .inr (.folderFile hrest' hfolder' hname' hrest)
  · rcases hcase' with ⟨hfile', rfl⟩ | ⟨hfolder', name', hname', heq⟩
    · exact .inl (.folderFile hrest hfolder hname hrest')
    · obtain ⟨rfl, rfl⟩ := folder_append_inj hfolder hfolder' (isName_of_fileName hname).2
        (isName_of_fileName hname').2 heq
      exact .inl (.folders hrest hrest' hfolder hname hname')

theorem distinctOn_moveName_iff {srcPrefix : Bytes} {keys : List Bytes}
    (hunder : ∀ k ∈ keys, srcPrefix <+: k) :
    DistinctOn keys (moveName srcPrefix)
      ↔ ∀ k ∈ keys, ∀ k' ∈ keys, Clash srcPrefix k k' → k = k' := by
  constructor
  · intro h k hk k' hk' hclash
    obtain ⟨t, ht, ht'⟩ := hclash.sameName
    exact h k hk k' hk' t ht ht'
  · intro h k hk k' hk' t ht ht'
    rcases clash_of_sameName (hunder k hk) (hunder k' hk') ht ht' with hclash | hclash
    · exact h k hk k' hk' hclash
    · exact (h k' hk' k hk hclash).symm

/-! ## §7. Moves that lose nothing -/

/-- The copies of a move between buckets can all be made; a bucket has no object with the empty
    key. -/
def CopiesGoThrough (srcPrefix : Bytes) (keys : List Bytes) : Prop :=
  Movable (moveName srcPrefix) copySource [[]] keys

theorem movable_moveTarget_iff {srcPrefix : Bytes} (dstPrefix : Bytes) {gone keys : List Bytes} :
    Movable (moveTarget srcPrefix dstPrefix) copySource gone keys
      ↔ Movable (moveName srcPrefix) copySource gone keys := by
  induction keys generalizing gone with
  | nil => exact Iff.rfl
  | cons key keys ih =>
    refine and_congr ?_ (and_congr_right fun _ => ih)
    rw [← Option.isSome_iff_exists, ← Option.isSome_iff_exists, moveTarget_eq, Option.isSome_map]

/-- If all copies go through and none loses an object, every key is read at itself: with a bucket
    whose objects are all different. -/
theorem own_source_of_kept {srcPrefix : Bytes} {keys : List Bytes} (hkeys : keys.Nodup)
    (hplaces : DistinctOn keys (moveTarget srcPrefix []))
    (hkept : ∀ s s', s.1 [] = none → movePrefixAcross srcPrefix [] keys s = some s' →
      ∀ k ∈ keys, ∃ t, moveTarget srcPrefix [] k = some t ∧ s'.2 t = s.1 k)
    (hgoes : CopiesGoThrough srcPrefix keys) : ∀ k ∈ keys, copySource k = some (.object k) := by
  let s : (Bytes → Option Bytes) × (Bytes → Option Bytes) :=
    (fun x => if x = [] then none else some (1 :: x), fun _ => none)
  obtain ⟨s', hrun⟩ := copyAll_of_movable (s := s) ((movable_moveTarget_iff []).mpr hgoes)
    fun x hx => by simp [s, show x ≠ [] by simpa using hx]
  intro k hk
  obtain ⟨t, ht, hsame⟩ := hkept s s' rfl hrun k hk
  obtain ⟨t', origin, object, ht', horigin, hread, hstored⟩ :=
    (copyAll_keeps hrun hkeys hplaces).1 k hk
  cases ht.symm.trans ht'
  have hobject : ∀ {x}, s.1 x = some object → object = 1 :: x := by
    intro x hx
    by_cases hnil : x = []
    · simp [s, hnil] at hx
    · simpa [s, hnil, eq_comm] using hx
  have hown := hobject (hsame.symm.trans hstored)
  cases origin with
  | emptyBody =>
    cases hread
    cases hown
  | object x =>
    rw [horigin, tail_eq_of_cons_eq ((hobject hread).symm.trans hown)]

/-- ★ **When a recursive move loses no object.** Between buckets: no two keys clash, and if all
    copies go through, every key is its own `copy_source`. In a directory: no two keys lead to one
    file. Within a bucket a move that would overwrite is refused, whatever the gateway makes of the
    destination. -/
theorem recursive_move_loses_nothing_iff (srcPrefix : Bytes) {keys : List Bytes}
    (hkeys : keys.Nodup) (hunder : ∀ k ∈ keys, srcPrefix <+: k) :
    ((∀ dstPrefix, DistinctOn keys (moveTarget srcPrefix dstPrefix)
        ∧ ∀ s s', s.1 [] = none → movePrefixAcross srcPrefix dstPrefix keys s = some s' →
          ∀ k ∈ keys, ∃ t, moveTarget srcPrefix dstPrefix k = some t ∧ s'.2 t = s.1 k)
      ↔ (∀ k ∈ keys, ∀ k' ∈ keys, Clash srcPrefix k k' → k = k')
        ∧ (CopiesGoThrough srcPrefix keys → ∀ k ∈ keys, copySource k = some (.object k)))
    ∧ ((∀ dir, IsPath dir → DistinctOn keys (fun key => some (targetPath dir srcPrefix key))
        ∧ ∀ creates s s', downloadPrefixAndDelete creates dir srcPrefix keys s = some s' →
          ∀ k ∈ keys, s'.2 (targetPath dir srcPrefix k) = s.1 k)
      ↔ ∀ k ∈ keys, ∀ k' ∈ keys,
          Coincide (climb (downloadName srcPrefix k)) (climb (downloadName srcPrefix k')) → k = k')
    ∧ ∀ received dstPrefix bucket bucket',
        (∀ k ∈ keys, k.head? ≠ some 47 ∧ (bucket (47 :: k)).isSome) →
        movePrefixWithin received srcPrefix dstPrefix keys bucket = some bucket' →
        DistinctOn keys (renamedTo received srcPrefix dstPrefix)
          ∧ ∀ k ∈ keys, ∃ path, renamedTo received srcPrefix dstPrefix k = some path
            ∧ bucket' path = bucket (47 :: k) := by
  refine ⟨⟨fun h => ?_, fun h dstPrefix => ?_⟩, ⟨fun h => ?_, fun h dir hdir => ?_⟩,
    fun received dstPrefix bucket bucket' hlisted hrun => ?_⟩
  · have hnames := (distinct_moveTarget_iff srcPrefix [] keys).mp (h []).1
    exact ⟨(distinctOn_moveName_iff hunder).mp hnames, own_source_of_kept hkeys (h []).1 (h []).2⟩
  · have htargets := (distinct_moveTarget_iff srcPrefix dstPrefix keys).mpr
      ((distinctOn_moveName_iff hunder).mpr h.1)
    refine ⟨htargets, fun s s' hempty hrun k hk => ?_⟩
    have hgoes : CopiesGoThrough srcPrefix keys :=
      (movable_moveTarget_iff dstPrefix).mp (movable_of_copyAll hrun (by simpa using hempty))
    obtain ⟨t, origin, object, ht, horigin, hread, hstored⟩ :=
      (copyAll_keeps hrun hkeys htargets).1 k hk
    cases horigin.symm.trans (h.2 hgoes k hk)
    exact ⟨t, ht, hstored.trans hread.symm⟩
  · exact (distinct_targets_iff srcPrefix keys).mp fun dir hdir => (h dir hdir).1
  · have htargets := (distinct_targets_iff srcPrefix keys).mpr h dir hdir
    refine ⟨htargets, fun creates s s' hrun k hk => ?_⟩
    obtain ⟨copied, hcopied, rfl⟩ := Option.map_eq_some_iff.mp hrun
    have hplaces : DistinctOn keys fun key => (some (targetPath dir srcPrefix key)).filter
      creates :=
      fun a ha b hb t ht ht' => htargets a ha b hb t (Option.filter_eq_some_iff.mp ht).1
        (Option.filter_eq_some_iff.mp ht').1
    obtain ⟨t, origin, object, ht, horigin, hread, hstored⟩ :=
      (copyAll_keeps hcopied hkeys hplaces).1 k hk
    cases horigin
    rw [Option.some.inj (Option.filter_eq_some_iff.mp ht).1]
    exact hstored.trans hread.symm
  · have hpath : ∀ k ∈ keys, renamePath k = 47 :: k := fun k hk => if_neg (hlisted k hk).1
    obtain ⟨hdistinct, hkept, -⟩ := movePrefixWithin_keeps hrun hkeys
      (fun k hk => by rw [hpath k hk]; exact (hlisted k hk).2)
      fun k hk k' hk' heq => by
        rw [hpath k hk, hpath k' hk'] at heq
        exact tail_eq_of_cons_eq heq
    refine ⟨hdistinct, fun k hk => ?_⟩
    rw [← hpath k hk]
    exact hkept k hk

/-- Two objects under one prefix, moved to another bucket. -/
def twoObjects : (Bytes → Option Bytes) × (Bytes → Option Bytes) :=
  (fun key => if key = ascii "p/x" then some [1] else if key = ascii "p/y" then some [2] else none,
    fun _ => none)

theorem recursive_move_loses_nothing_at_sample :
    ∃ s', movePrefixAcross (ascii "p") (ascii "d") [ascii "p/x", ascii "p/y"] twoObjects = some s'
      ∧ ∀ k ∈ [ascii "p/x", ascii "p/y"],
        ∃ t, moveTarget (ascii "p") (ascii "d") k = some t ∧ s'.2 t = twoObjects.1 k := by
  have hunder : ∀ k ∈ [ascii "p/x", ascii "p/y"], ascii "p" <+: k := by decide
  have hnames : ∀ k ∈ [ascii "p/x", ascii "p/y"], ∀ k' ∈ [ascii "p/x", ascii "p/y"],
      moveName (ascii "p") k = moveName (ascii "p") k' → k = k' := by decide
  have hsources : ∀ k ∈ [ascii "p/x", ascii "p/y"], copySource k = some (.object k) := by decide
  exact ⟨_, rfl, (((recursive_move_loses_nothing_iff (ascii "p") (by decide) hunder).1.mpr
    ⟨(distinctOn_moveName_iff hunder).mp fun k hk k' hk' _ ht ht' =>
      hnames k hk k' hk' (ht.trans ht'.symm), fun _ => hsources⟩) (ascii "d")).2
    twoObjects _ rfl rfl⟩

/-- `a/x` and `ax` are both moved to `d/x`, and `p/%41` is read where `p/A` is: an object is gone
    in both moves. -/
theorem recursive_move_loses_object :
    (movePrefixAcross (ascii "a") (ascii "d") [ascii "a/x", ascii "ax"]
        (fun key => if key = ascii "a/x" then some [1] else some [2], fun _ => none)).map
      (fun s => (s.1 (ascii "a/x"), s.1 (ascii "ax"), s.2 (ascii "d/x")))
        = some (none, none, some [2])
    ∧ moveTarget (ascii "a") (ascii "d") (ascii "a/x") = some (ascii "d/x")
    ∧ moveTarget (ascii "a") (ascii "d") (ascii "ax") = some (ascii "d/x")
    ∧ (movePrefixAcross (ascii "p") (ascii "d") [ascii "p/%41", ascii "p/A"]
        (fun key => if key = ascii "p/%41" then some [1] else some [2], fun _ => none)).map
      (fun s => (s.1 (ascii "p/%41"), s.1 (ascii "p/A"), s.2 (ascii "d/%41"), s.2 (ascii "d/A")))
        = some (none, none, some [2], some [2]) := by
  decide

end FractalBits.Client
