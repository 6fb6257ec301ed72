/-
  Filesystem.Scope — the directory a mount is confined to.

  Mirrors `common/data_types/src/scope.rs`. A scope is the text of a path, a list of directory names
  (`scopeText`).
-/

import FractalBits.Lib.Text
import Mathlib.Data.List.Infix

namespace FractalBits.Filesystem

open Lib List

/-! ## §1. Scopes -/

/-- The scope of a whole bucket. -/
def rootScope : Bytes := ascii "/"

/-- Why a scope is refused. -/
inductive ScopeError
  | notAbsolute
  | noTrailingSlash
  | emptySegment
  | dotSegment
  deriving DecidableEq, Repr

/-- A segment is a name other than `.` and `..`. -/
def checkSegment (segment : Bytes) : Except ScopeError Unit :=
  if segment = [] then .error .emptySegment
  else if segment = ascii "." ∨ segment = ascii ".." then .error .dotSegment
  else .ok ()

/-- The scope of a text, the empty one being the root. -/
def normalizeScope (scope : Bytes) : Except ScopeError Bytes :=
  if scope = [] ∨ scope = rootScope then .ok rootScope
  else if scope.head? ≠ some 47 then .error .notAbsolute
  else if scope.getLast? ≠ some 47 then .error .noTrailingSlash
  else do
    (splitAll 47 ((scope.take (scope.length - 1)).drop 1)).forM checkSegment
    .ok scope

/-- The keys of a scope are those that start with it. -/
def inScope (scope key : Bytes) : Bool := scope.isPrefixOf key

/-- The ancestors that end at a slash at `stop` or later; the last is the scope. -/
def scopeAncestorsFrom (scope : Bytes) (stop : Nat) : List Bytes :=
  match h : position [47] (scope.drop stop) with
  | none => []
  | some next => scope.take (stop + next + 1) :: scopeAncestorsFrom scope (stop + next + 1)
termination_by scope.length - stop
decreasing_by
  have hle := position_le h
  rw [length_drop, length_singleton] at hle
  omega

/-- The directories from below the root down to the scope. -/
def scopeAncestors (scope : Bytes) : List Bytes :=
  if scope = rootScope then [] else scopeAncestorsFrom scope 1

/-! ## §2. Paths -/

/-- A directory can have this name. -/
structure IsName (name : Bytes) : Prop where
  ne_nil : name ≠ []
  ne_dot : name ≠ ascii "."
  ne_dots : name ≠ ascii ".."

/-- The names, each with its slash, after that of the root. -/
def scopeText (path : List Bytes) : Bytes := 47 :: terminated 47 path

/-- The names from the root to a directory. -/
def IsPath (path : List Bytes) : Prop := ∀ name ∈ path, IsName name ∧ 47 ∉ name

section

variable {path path' : List Bytes} {scope : Bytes}

theorem forM_checkSegment (segments : List Bytes) :
    segments.forM checkSegment = .ok () ↔ ∀ segment ∈ segments, IsName segment := by
  induction segments with
  | nil => exact ⟨fun _ _ h => absurd h not_mem_nil, fun _ => rfl⟩
  | cons segment segments ih =>
    have hcheck : checkSegment segment = .ok () ↔ IsName segment := by
      unfold checkSegment
      constructor
      · intro h
        split at h
        · cases h
        · split at h
          · cases h
          · next hne hdots => exact ⟨hne, fun h => hdots (.inl h), fun h => hdots (.inr h)⟩
      · intro h
        rw [if_neg h.ne_nil, if_neg (not_or.mpr ⟨h.ne_dot, h.ne_dots⟩)]
    rw [forall_mem_cons, ← ih, ← hcheck]
    show (checkSegment segment >>= fun _ => segments.forM checkSegment) = .ok () ↔ _
    cases checkSegment segment with
    | error e => exact ⟨nofun, nofun⟩
    | ok u => exact ⟨fun h => ⟨rfl, h⟩, fun h => h.2⟩

theorem normalizeScope_between (inner : Bytes) :
    normalizeScope (47 :: (inner ++ [47])) = .ok (47 :: (inner ++ [47]))
      ↔ ∀ name ∈ splitAll 47 inner, IsName name := by
  have hslice : ((47 :: (inner ++ [47])).take ((47 :: (inner ++ [47])).length - 1)).drop
    1 = inner := by simp
  have hroot : ¬ (47 :: (inner ++ [47]) = [] ∨ 47 :: (inner ++ [47]) = rootScope) := by
    simp [rootScope, ascii]
  have hlast : (47 :: (inner ++ [47])).getLast? = some 47 := by
    rw [← cons_append]
    exact List.getLast?_concat
  rw [← forM_checkSegment]
  unfold normalizeScope
  rw [if_neg hroot, if_neg (by simp), if_neg (not_not.mpr hlast), hslice]
  cases (splitAll 47 inner).forM checkSegment with
  | error e => exact ⟨nofun, nofun⟩
  | ok u => exact ⟨fun _ => rfl, fun _ => rfl⟩

theorem between_of_normalizeScope {s : Bytes} (h : normalizeScope scope = .ok s) :
    (scope = [] ∨ scope = rootScope) ∧ s = rootScope
      ∨ s = scope ∧ ∃ inner, scope = 47 :: (inner ++ [47]) := by
  unfold normalizeScope at h
  split at h
  · next hroot =>
    cases h
    exact .inl ⟨hroot, rfl⟩
  next hroot =>
  split at h
  · cases h
  next hhead =>
  split at h
  · cases h
  next hlast =>
  refine .inr ⟨?_, ?_⟩
  · cases hcheck : (splitAll 47 ((scope.take (scope.length - 1)).drop 1)).forM checkSegment with
    | error e =>
      rw [hcheck] at h
      cases h
    | ok u =>
      rw [hcheck] at h
      cases h
      rfl
  · cases scope with
    | nil => exact absurd (.inl rfl) hroot
    | cons c rest =>
      obtain rfl : c = 47 := Option.some.inj (not_not.mp hhead)
      rcases eq_nil_or_concat rest with rfl | ⟨inner, last, rfl⟩
      · exact absurd (.inr rfl) hroot
      · rw [concat_eq_append, ← cons_append, List.getLast?_concat] at hlast
        obtain rfl : last = 47 := Option.some.inj (not_not.mp hlast)
        exact ⟨inner, by rw [concat_eq_append]⟩

theorem exists_path {p : Bytes} (h : normalizeScope p = .ok scope) :
    ∃ path, IsPath path ∧ scope = scopeText path := by
  rcases between_of_normalizeScope h with ⟨-, hroot⟩ | ⟨rfl, inner, rfl⟩
  · exact ⟨[], nofun, hroot⟩
  · refine ⟨splitAll 47 inner, fun name hname => ?_, ?_⟩
    · exact ⟨(normalizeScope_between inner).mp h name hname, not_mem_of_mem_splitAll hname⟩
    · rw [scopeText, terminated_splitAll]

theorem normalizeScope_scopeText (h : IsPath path) :
    normalizeScope (scopeText path) = .ok (scopeText path) := by
  cases path with
  | nil => rfl
  | cons name rest =>
    have hsep : ∀ part ∈ name :: rest, 47 ∉ part := fun part hpart => (h part hpart).2
    obtain ⟨inner, hinner⟩ : ∃ inner, terminated 47 (name :: rest) = inner ++ [47] := by
      obtain ⟨front, last, hlast⟩ := (name :: rest).eq_nil_or_concat.resolve_left (cons_ne_nil _ _)
      exact ⟨terminated 47 front ++ last, by simp [hlast, terminated]⟩
    rw [scopeText, hinner, normalizeScope_between, splitAll_of_terminated hsep hinner]
    exact fun part hpart => (h part hpart).1

theorem scopeText_prefix_iff (h : IsPath path) (h' : IsPath path') :
    scopeText path <+: scopeText path' ↔ path <+: path' := by
  rw [scopeText, scopeText, cons_prefix_cons, terminated_prefix_iff (fun n hn => (h n hn).2)
    fun n hn => (h' n hn).2]
  exact and_iff_right rfl

theorem scopeText_eq_root_iff : scopeText path = rootScope ↔ path = [] := by
  cases path with
  | nil => exact ⟨fun _ => rfl, fun _ => rfl⟩
  | cons name rest => simp [scopeText, terminated, rootScope, ascii]

end

/-! ## §3. The directories down to a scope -/

section

variable {scope : Bytes} {stop : Nat}

theorem scopeAncestorsFrom_none (h : position [47] (scope.drop stop) = none) :
    scopeAncestorsFrom scope stop = [] := by
  unfold scopeAncestorsFrom
  split
  · rfl
  · next hsome =>
    rw [h] at hsome
    cases hsome

theorem scopeAncestorsFrom_some {next : Nat} (h : position [47] (scope.drop stop) = some next) :
    scopeAncestorsFrom scope stop
      = scope.take (stop + next + 1) :: scopeAncestorsFrom scope (stop + next + 1) := by
  rw [scopeAncestorsFrom]
  split
  · next hnone =>
    rw [h] at hnone
    cases hnone
  · next hsome =>
    rw [h] at hsome
    cases hsome
    rfl

end

theorem scopeAncestorsFrom_terminated {path : List Bytes} (h : ∀ name ∈ path, 47 ∉ name)
    (front : Bytes) :
    scopeAncestorsFrom (front ++ terminated 47 path) front.length
      = path.inits.tail.map fun down => front ++ terminated 47 down := by
  induction path generalizing front with
  | nil => exact scopeAncestorsFrom_none (by rw [drop_left]; rfl)
  | cons name path ih =>
    obtain ⟨hname, hpath⟩ := forall_mem_cons.mp h
    have hnext : position [47] ((front ++ terminated 47 (name :: path)).drop front.length) = some
      name.length := by
      rw [drop_left, terminated_cons, position_skip hname, position_cons]
      simp
    have hfront : ∀ path, front ++ terminated 47 (name :: path) = (front ++ name ++ [47])
      ++ terminated 47 path := by
      intro path
      simp [terminated_cons]
    have hlen : front.length + name.length + 1 = (front ++ name ++ [47]).length := by
      simp [Nat.add_assoc]
    obtain ⟨downs, hdowns⟩ : ∃ downs, path.inits = [] :: downs := by
      cases path <;> exact ⟨_, rfl⟩
    rw [scopeAncestorsFrom_some hnext, hlen, hfront, take_left, ih hpath, List.inits, hdowns]
    simp [terminated]

theorem scopeAncestors_scopeText {path : List Bytes} (h : IsPath path) :
    scopeAncestors (scopeText path) = path.inits.tail.map scopeText := by
  unfold scopeAncestors
  split
  · next hroot =>
    rw [scopeText_eq_root_iff.mp hroot]
    rfl
  · exact scopeAncestorsFrom_terminated (fun name hname => (h name hname).2) [47]

theorem lt_length_of_mem_ancestors {scope a : Bytes} {stop : Nat}
    (h : a ∈ scopeAncestorsFrom scope stop) :
    stop < a.length := by
  fun_induction scopeAncestorsFrom scope stop with
  | case1 => cases h
  | case2 stop next hnext ih =>
    have hle := position_le hnext
    rw [length_drop, length_singleton] at hle
    rcases mem_cons.mp h with rfl | h
    · rw [length_take]
      omega
    · have := ih h
      omega

theorem pairwise_scopeAncestorsFrom (scope : Bytes) (stop : Nat) :
    (scopeAncestorsFrom scope stop).Pairwise fun a b => a.length < b.length := by
  fun_induction scopeAncestorsFrom scope stop with
  | case1 => exact .nil
  | case2 stop next hnext ih =>
    refine pairwise_cons.mpr ⟨fun a ha => ?_, ih⟩
    have hlt := lt_length_of_mem_ancestors ha
    rw [length_take]
    omega

theorem mem_inits_tail {path path' : List Bytes} :
    path ∈ path'.inits.tail ↔ path ≠ [] ∧ path <+: path' := by
  cases path' with
  | nil => simp
  | cons name rest =>
    cases path with
    | nil => simp
    | cons first path => simp [cons_prefix_cons, eq_comm, and_comm, mem_inits]

theorem getLast?_inits (path : List Bytes) : path.inits.getLast? = some path := by
  induction path with
  | nil => rfl
  | cons name path ih =>
    rw [List.inits, List.getLast?_cons, List.getLast?_map, ih]
    rfl

theorem mem_scopeAncestors_iff {path : List Bytes} (h : IsPath path) {a : Bytes} :
    a ∈ scopeAncestors (scopeText path) ↔ ∃ down, down ≠ [] ∧ down <+: path
      ∧ a = scopeText down := by
  rw [scopeAncestors_scopeText h, mem_map]
  simp only [mem_inits_tail, and_assoc, eq_comm]

theorem IsPath.of_prefix {path down : List Bytes} (h : IsPath path) (hdown : down <+: path) :
    IsPath down :=
  fun name hname => h name (hdown.subset hname)

theorem getLast?_scopeAncestors {path : List Bytes} (h : IsPath path) (hne : path ≠ []) :
    (scopeAncestors (scopeText path)).getLast? = some (scopeText path) := by
  obtain ⟨name, rest, rfl⟩ := exists_cons_of_ne_nil hne
  rw [scopeAncestors_scopeText h, List.inits, tail_cons, List.getLast?_map, List.getLast?_map,
    getLast?_inits]
  rfl

theorem inScope_iff {path path' : List Bytes} (h : IsPath path) (h' : IsPath path') :
    inScope (scopeText path) (scopeText path') = true
      ↔ scopeText path = rootScope ∨ scopeText path ∈ scopeAncestors (scopeText path') := by
  rw [inScope, isPrefixOf_iff_prefix, scopeText_prefix_iff h h', scopeText_eq_root_iff,
    mem_scopeAncestors_iff h']
  constructor
  · intro hprefix
    by_cases hroot : path = []
    · exact .inl hroot
    · exact .inr ⟨path, hroot, hprefix, rfl⟩
  · rintro (rfl | ⟨down, -, hdown, heq⟩)
    · exact nil_prefix
    · rw [← scopeText_prefix_iff h h', heq]
      exact (scopeText_prefix_iff (h'.of_prefix hdown) h').mpr hdown

/-- ★ **Scopes form the ancestor order of directories.** -/
theorem scopes_form_ancestor_order :
    (∀ p, (∃ s, normalizeScope p = .ok s) ↔ p = [] ∨ p = rootScope
      ∨ ∃ inner, p = 47 :: (inner ++ [47]) ∧ ∀ segment ∈ splitAll 47 inner,
          segment ≠ [] ∧ segment ≠ ascii "." ∧ segment ≠ ascii "..")
    ∧ normalizeScope [] = .ok rootScope
    ∧ (∀ p s, p ≠ [] → normalizeScope p = .ok s → s = p)
    ∧ (∀ p s, normalizeScope p = .ok s →
        (scopeAncestors s).Pairwise (fun a b => a.length < b.length)
        ∧ (∀ a ∈ scopeAncestors s, a ≠ rootScope ∧ normalizeScope a = .ok a ∧ a <+: s)
        ∧ (s ≠ rootScope → (scopeAncestors s).getLast? = some s))
    ∧ ∀ p q s t, normalizeScope p = .ok s → normalizeScope q = .ok t →
        (inScope s t = true ↔ s = rootScope ∨ s ∈ scopeAncestors t) := by
  refine ⟨fun p => ⟨?_, ?_⟩, rfl, ?_, ?_, ?_⟩
  · rintro ⟨s, hs⟩
    rcases between_of_normalizeScope hs with ⟨hroot, -⟩ | ⟨rfl, inner, rfl⟩
    · exact hroot.imp_right .inl
    · refine .inr (.inr ⟨inner, rfl, fun segment hsegment => ?_⟩)
      have hname := (normalizeScope_between inner).mp hs segment hsegment
      exact ⟨hname.ne_nil, hname.ne_dot, hname.ne_dots⟩
  · rintro (rfl | rfl | ⟨inner, rfl, hnames⟩)
    · exact ⟨_, rfl⟩
    · exact ⟨_, rfl⟩
    · refine ⟨_, (normalizeScope_between inner).mpr fun segment hsegment => ?_⟩
      obtain ⟨hne, hdot, hdots⟩ := hnames segment hsegment
      exact ⟨hne, hdot, hdots⟩
  · intro p s hp hs
    rcases between_of_normalizeScope hs with ⟨hroot, rfl⟩ | ⟨rfl, -⟩
    · exact (hroot.resolve_left hp).symm
    · rfl
  · intro p s hs
    obtain ⟨path, hpath, rfl⟩ := exists_path hs
    refine ⟨?_, fun a ha => ?_, fun hroot => ?_⟩
    · unfold scopeAncestors
      split
      · exact .nil
      · exact pairwise_scopeAncestorsFrom _ 1
    · obtain ⟨down, hne, hdown, rfl⟩ := (mem_scopeAncestors_iff hpath).mp ha
      have hsub := hpath.of_prefix hdown
      exact ⟨fun h => hne (scopeText_eq_root_iff.mp h), normalizeScope_scopeText hsub,
        (scopeText_prefix_iff hsub hpath).mpr hdown⟩
    · exact getLast?_scopeAncestors hpath fun hnil => hroot (scopeText_eq_root_iff.mpr hnil)
  · intro p q s t hs ht
    obtain ⟨path, hpath, rfl⟩ := exists_path hs
    obtain ⟨path', hpath', rfl⟩ := exists_path ht
    exact inScope_iff hpath hpath'

end FractalBits.Filesystem
