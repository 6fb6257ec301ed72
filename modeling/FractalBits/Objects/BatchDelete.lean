/-
  Objects.BatchDelete — the response of `DeleteObjects`.

  Mirrors `DeleteResult` and `delete_objects_handler` of `delete_objects.rs`.
-/

import FractalBits.Objects.Multipart
import FractalBits.Objects.Requests

namespace FractalBits.Objects

open Lib Gateway List

/-! ## §1. The handler -/

structure Deleted where
  deleteMarker : Option Bool := none
  deleteMarkerVersionId : Option Bytes := none
  key : Bytes
  versionId : Option Bytes := none
  deriving DecidableEq, Repr

structure DeleteError where
  code : Bytes
  key : Bytes
  message : Bytes
  versionId : Bytes
  deriving DecidableEq, Repr

structure DeleteResult where
  deleted : List Deleted := []
  error : Option DeleteError := none
  deriving DecidableEq, Repr

def deletedEntry (key : Bytes) : Deleted := { key }

def errorEntry (key : Bytes) (e : S3Error) : DeleteError := ⟨e.asRef, key, e.message, []⟩

def recordDelete (result : DeleteResult) (key : Bytes) : Except S3Error Unit → DeleteResult
  | .ok () => { result with deleted := result.deleted ++ [deletedEntry key] }
  | .error e =>
    -- deleting an object that is not there is allowed
    if e = .noSuchKey then { result with deleted := result.deleted ++ [deletedEntry key] }
    else { result with error := some (errorEntry key e) }

section

variable (rounds : Nat)

def deleteEach (result : DeleteResult) : List Bytes → Call DeleteResult
  | [] => return result
  | key :: keys => do
    let outcome ← (deleteObjectByKey rounds (47 :: key)).run
    deleteEach (recordDelete result key outcome) keys

def deleteObjectsHandler (toBeDeleted : Except S3Error (List Bytes)) : Handler DeleteResult := do
  let keys ← orFail id toBeDeleted
  ExceptT.lift (deleteEach rounds {} keys)

/-! ## §2. The answers of a batch -/

def batchOutcomes {σ : Type} (serve : (op : Op) → σ → Ans op × σ) :
    List Bytes → σ → List (Bytes × Except S3Error Unit) × σ
  | [], s => ([], s)
  | key :: keys, s =>
    let run := (deleteObjectByKey rounds (47 :: key)).run.exec serve s
    let rest := batchOutcomes serve keys run.2
    ((key, run.1) :: rest.1, rest.2)

variable {σ : Type} (serve : (op : Op) → σ → Ans op × σ)

theorem batchOutcomes_keys (keys : List Bytes) (s : σ) :
    (batchOutcomes rounds serve keys s).1.map Prod.fst = keys := by
  induction keys generalizing s with
  | nil => rfl
  | cons key keys ih =>
    show key :: (batchOutcomes rounds serve keys _).1.map Prod.fst = _
    rw [ih]

theorem exec_deleteEach (result : DeleteResult) (keys : List Bytes) (s : σ) :
    (deleteEach rounds result keys).exec serve s
      = ((batchOutcomes rounds serve keys s).1.foldl (fun result o => recordDelete result o.1 o.2)
          result, (batchOutcomes rounds serve keys s).2) := by
  induction keys generalizing result s with
  | nil => rfl
  | cons key keys ih =>
    unfold deleteEach
    rw [exec_bind, ih]
    rfl

end

/-! ## §3. What the response holds -/

def countsDeleted : Except S3Error Unit → Bool
  | .ok () => true
  | .error e => e = .noSuchKey

def failure? (o : Bytes × Except S3Error Unit) : Option DeleteError :=
  match o.2 with
  | .ok () => none
  | .error e => if e = .noSuchKey then none else some (errorEntry o.1 e)

def deletion? (o : Bytes × Except S3Error Unit) : Option Deleted :=
  if countsDeleted o.2 then some (deletedEntry o.1) else none

theorem recordDelete_eq (result : DeleteResult) (o : Bytes × Except S3Error Unit) :
    recordDelete result o.1 o.2
      = ⟨result.deleted ++ (deletion? o).toList, (failure? o).or result.error⟩ := by
  obtain ⟨key, outcome⟩ := o
  cases outcome with
  | ok u => rfl
  | error e =>
    by_cases he : e = .noSuchKey
    · subst he
      rfl
    · simp [recordDelete, deletion?, failure?, countsDeleted, he]

variable (outcomes : List (Bytes × Except S3Error Unit))

theorem foldl_recordDelete (result : DeleteResult) :
    outcomes.foldl (fun result o => recordDelete result o.1 o.2) result
      = ⟨result.deleted ++ outcomes.filterMap deletion?, (outcomes.filterMap failure?).getLast?.or
        result.error⟩ := by
  induction outcomes generalizing result with
  | nil => simp
  | cons o outcomes ih =>
    rw [foldl_cons, ih, recordDelete_eq]
    cases hd : deletion? o with
    | none =>
      cases hf : failure? o with
      | none => simp [hd, hf]
      | some e =>
        rw [filterMap_cons_none hd, filterMap_cons_some hf, List.getLast?_cons]
        cases (outcomes.filterMap failure?).getLast? with
        | none => simp
        | some last => simp
    | some d =>
      cases hf : failure? o with
      | none => simp [hd, hf]
      | some e =>
        rw [filterMap_cons_some hd, filterMap_cons_some hf, List.getLast?_cons]
        cases (outcomes.filterMap failure?).getLast? with
        | none => simp
        | some last => simp

/-! ## §4. Accounting -/

/-- **A batch is accounted for**: every key stands in the response once for each request, as its
    delete answered. -/
structure Accounted {σ : Type} (keys : List Bytes)
    (outcomes : List (Bytes × Except S3Error Unit) × σ)
    (run : Except S3Error DeleteResult × σ) : Prop where
  processed : outcomes.1.map Prod.fst = keys
  completed : run.2 = outcomes.2
  answered : ∃ result, run.1 = .ok result
    ∧ result.deleted.Perm (outcomes.1.filterMap deletion?)
    ∧ result.error.toList.Perm (outcomes.1.filterMap failure?)

def failures : Nat :=
  outcomes.countP fun o => !countsDeleted o.2

theorem length_filterMap_failure? :
    (outcomes.filterMap failure?).length = failures outcomes := by
  unfold failures
  induction outcomes with
  | nil => rfl
  | cons o outcomes ih =>
    obtain ⟨key, outcome⟩ := o
    rw [countP_cons]
    cases outcome with
    | ok u =>
      rw [filterMap_cons_none (show failure? (key, .ok u) = none from rfl), ih]
      rfl
    | error e =>
      by_cases he : e = .noSuchKey
      · rw [filterMap_cons_none (by simp [failure?, he]), ih]
        simp [countsDeleted, he]
      · rw [filterMap_cons_some (show failure? (key, .error e) = some (errorEntry key e) by
          simp [failure?, he]), length_cons, ih]
        simp [countsDeleted, he]

theorem getLast?_toList_perm_iff {α : Type} (l : List α) :
    l.getLast?.toList.Perm l ↔ l.length ≤ 1 := by
  constructor
  · intro h
    rw [← h.length_eq]
    cases l.getLast? with
    | none => exact Nat.zero_le 1
    | some a => exact Nat.le_refl 1
  · intro h
    match l, h with
    | [], _ => exact .refl _
    | [a], _ => exact .refl _

/-- ★ **When a batch is accounted for.** For every list of keys, with repetitions, and whatever the
    services answer to the calls of the deletes: the response accounts for every key if and only if
    at most one delete fails. -/
theorem batch_accounted_iff {σ : Type} (serve : (op : Op) → σ → Ans op × σ) (rounds : Nat)
    (keys : List Bytes) (s : σ) :
    Accounted keys (batchOutcomes rounds serve keys s)
      ((deleteObjectsHandler rounds (.ok keys)).run.exec serve s)
        ↔ failures (batchOutcomes rounds serve keys s).1 ≤ 1 := by
  have hrun : (deleteObjectsHandler rounds (.ok keys)).run.exec serve s
      = (.ok ⟨(batchOutcomes rounds serve keys s).1.filterMap deletion?,
          ((batchOutcomes rounds serve keys s).1.filterMap failure?).getLast?⟩,
        (batchOutcomes rounds serve keys s).2) := by
    show (ExceptT.lift (deleteEach rounds {} keys) : Handler DeleteResult).run.exec serve s = _
    rw [exec_lift, exec_deleteEach, foldl_recordDelete, Option.or_none, nil_append]
  rw [← length_filterMap_failure?, ← getLast?_toList_perm_iff, hrun]
  constructor
  · rintro ⟨-, -, result, hresult, -, herror⟩
    cases hresult
    exact herror
  · intro herror
    exact ⟨batchOutcomes_keys rounds serve keys s, rfl, _, rfl, .refl _, herror⟩

theorem second_error_replaces_first :
    (deleteObjectsHandler 0 (.ok [ascii "a", ascii "b"])).run.exec (sampleCluster.serve .dropped)
      emptySite = (.ok ⟨[], some (errorEntry (ascii "b") .internalError)⟩, emptySite)
    ∧ (batchOutcomes 0 (sampleCluster.serve .dropped) [ascii "a", ascii "b"] emptySite).1
      = [(ascii "a", .error .internalError), (ascii "b", .error .internalError)] :=
  ⟨rfl, rfl⟩

end FractalBits.Objects
