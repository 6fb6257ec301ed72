/-
  Objects.Observed — a GET whose calls are answered at different moments.

  Others may change the site between the calls of a GET. Retries come to one attempt (§1).
-/

import FractalBits.Lib.Observation
import FractalBits.Objects.Read

namespace FractalBits.Objects

open Lib Streaming Gateway
open OvrMap (Uuid OvrRowMap)

variable {R : Nat → (op : Op) → Ans op → Prop} {t t' : Nat}

/-! ## §1. Calls -/

section

variable {α : Type} {attempt : Call (Except RpcError α)} {r : Except RpcError α} {rounds : Nat}

theorem observes_nssRpcRetry (h : Observes R t (nssRpcRetry rounds attempt) t' r) :
    Observes R t attempt t' r := by
  have hrule : RetryRule attempt (fun p => ∀ t t' r, Observes R t p t' r →
      Observes R t attempt t' r) fun p => ∀ t t' r, Observes R t p t' r → settled r = true →
        Observes R t attempt t' r := by
    refine ⟨fun _ _ _ h => h, fun p hp t t' r h _ => hp t t' r h, ?_, ?_, ?_, ?_⟩
    · intro t t' r h hset
      obtain ⟨rfl, -⟩ := h.done_eq
      exact nomatch hset
    · intro p q hp hq t t' r h
      obtain ⟨u, first, hfirst, h⟩ := h.bind
      split at h
      · next hset =>
        obtain ⟨rfl, hle⟩ := h.done_eq
        exact (hp t u _ hfirst hset).mono le_rfl hle
      · exact (hq u t' r h).mono hfirst.le le_rfl
    · intro f hf t t' r h
      obtain ⟨u, ans, hask, h⟩ := h.bind
      exact (hf ans u t' r h).mono hask.le le_rfl
    · intro f hf t t' r h
      obtain ⟨u, ans, hask, h⟩ := h.bind
      exact (hf ans u t' r h).mono hask.le le_rfl
  exact hrule.nssRpcRetry rounds t t' r h

theorem observes_nss {r : Except S3Error α} (h : Observes R t (nss rounds attempt).run t' r) :
    ∃ result, Observes R t attempt t' result ∧ r = result.mapError RpcError.toS3Error := by
  unfold nss at h
  obtain ⟨u, result, hresult, h⟩ := h.lift_bind
  obtain ⟨rfl, hle⟩ := h.done_eq
  exact ⟨result, (observes_nssRpcRetry hresult).mono le_rfl hle, rfl⟩

end

section

variable {rounds : Nat} {key : Bytes}

theorem observes_getRawObject {r : Except S3Error Layout}
    (h : Observes R t (getRawObject rounds key).run t' r) :
    (∃ e, r = .error e) ∨ ∃ u object, r = .ok object ∧ t ≤ u ∧ u ≤ t'
      ∧ R u (.getInode key) (.ok (.ok (.layout object))) := by
  unfold getRawObject at h
  rcases h.run_bind with ⟨e, he, -⟩ | ⟨u, resp, hresp, h⟩
  · exact .inl ⟨e, he⟩
  · obtain ⟨rfl, hle⟩ := h.done_eq
    obtain ⟨result, hcall, hresult⟩ := observes_nss hresp
    obtain ⟨w, hw, hwu, hans⟩ := hcall.perform
    cases result with
    | error e => cases hresult
    | ok resp' =>
      cases hresult
      cases resp with
      | errNotFound | errNoSuchRootBlob | errOther => exact .inl ⟨_, rfl⟩
      | ok value =>
        cases value with
        | raw bytes => exact .inl ⟨_, rfl⟩
        | layout object => exact .inr ⟨w, object, rfl, hw, hwu.trans hle, hans⟩

theorem observes_listRawObjects {maxParts : Nat} {keyPrefix startAfter : Bytes}
    {r : Except S3Error (List (Bytes × Layout))}
    (h : Observes R t (listRawObjects rounds maxParts keyPrefix startAfter).run t' r) :
    ∃ u ans, t ≤ u ∧ u ≤ t' ∧ R u (.listInodes maxParts keyPrefix startAfter) ans
      ∧ r = listResult ans := by
  unfold listRawObjects at h
  rcases h.run_bind with ⟨e, rfl, hresp⟩ | ⟨u, resp, hresp, h⟩
  · obtain ⟨result, hcall, hresult⟩ := observes_nss hresp
    obtain ⟨w, hw, hwt, hans⟩ := hcall.perform
    cases result with
    | ok resp => cases hresult
    | error e' =>
      cases hresult
      exact ⟨w, _, hw, hwt, hans, rfl⟩
  · rw [listRawObjects_decodes] at h
    obtain ⟨rfl, hle⟩ := h.done_eq
    obtain ⟨result, hcall, hresult⟩ := observes_nss hresp
    obtain ⟨w, hw, hwu, hans⟩ := hcall.perform
    cases result with
    | error e => cases hresult
    | ok resp' =>
      cases hresult
      exact ⟨w, _, hw, hwu.trans hle, hans, rfl⟩

end

/-! ## §2. Answers that stay the same -/

section

variable {rounds : Nat}

theorem steady_nss {α : Type} {attempt : Call (Except RpcError α)} {result : Except RpcError α}
    (h : Steady R t attempt result) :
    Steady R t (nss rounds attempt).run (result.mapError RpcError.toS3Error) := by
  intro u t' r hu hobs
  obtain ⟨result', hattempt, rfl⟩ := observes_nss hobs
  rw [h u t' result' hu hattempt]

theorem steady_getRawObject {key : Bytes} {resp : GetInodeResponse}
    (h : Steady R t (perform (Op.getInode key)) (.ok resp)) :
    Steady R t (getRawObject rounds key).run ((parseGetInode resp).mapError NssError.toS3Error) :=
  (steady_nss h).run_ok (steady_done _)

def validated (layout : Layout) : Except S3Error Layout → Except S3Error Unit
  | .ok current =>
    if sameCommittedReadSnapshot layout current then .ok () else .error .internalError
  | .error .noSuchKey | .error .noSuchBucket => .error .internalError
  | .error e => .error e

theorem steady_validateBaseMiss {key : Bytes} {layout : Layout} {r : Except S3Error Layout}
    (h : Steady R t (getRawObject rounds key).run r) :
    Steady R t (validateBaseMiss rounds key layout).run (validated layout r) := by
  refine h.run_lift.run_ok ?_
  cases r with
  | error e =>
    cases e <;> exact steady_done _
  | ok current =>
    unfold validated
    dsimp only
    split
    · exact steady_done _
    · exact steady_done _

end

/-! ## §3. Blobs that do not change -/

structure ReadsAs (R : Nat → (op : Op) → Ans op → Prop) (t rounds : Nat) (ctx : ReadContext)
    (src : BlobSource) :
    Prop where
  blocks : ∀ block version, Steady R t (perform (Op.getBlob src.guid block version src.location))
    (.ok (ctx.impl.getBlob ctx.stores src.guid block version src.location))
  validates : Steady R t (validateBaseMiss rounds src.key src.layout).run ctx.validateBaseMiss

section

variable {rounds : Nat} {ctx : ReadContext} {src : BlobSource}

theorem steady_readBlock (h : ReadsAs R t rounds ctx src) (block : UInt32) (contentLen : Nat) :
    Steady R t (readBlock rounds src block contentLen).run
      (ctx.readBlock src.guid block contentLen src.blockSize src.location src.rows
        src.ceiling) := by
  unfold readBlock ReadContext.readBlock
  cases blockFetchPlan src.rows block src.ceiling src.blockSize contentLen with
  | zeros => exact steady_done _
  | stale => exact steady_done _
  | fetch version readLen missIsLoss =>
    have hblock :
      Steady R t (ExceptT.mk (perform (Op.getBlob src.guid block version src.location)) :
        Handler (Option Bytes)).run
          (.ok (ctx.impl.getBlob ctx.stores src.guid block version src.location)) :=
      h.blocks block version
    dsimp only
    cases hbody : ctx.impl.getBlob ctx.stores src.guid block version src.location with
    | some body =>
      rw [hbody] at hblock
      exact hblock.run_ok (steady_done _)
    | none =>
      rw [hbody] at hblock
      refine hblock.run_ok ?_
      dsimp only
      cases missIsLoss with
      | true => exact steady_done _
      | false =>
        have hvalidates := h.validates
        rw [if_neg Bool.false_ne_true, if_neg Bool.false_ne_true]
        cases hctx : ctx.validateBaseMiss with
        | error e =>
          rw [hctx] at hvalidates
          exact hvalidates.run_error
        | ok u =>
          rw [hctx] at hvalidates
          exact hvalidates.run_ok (steady_done _)

theorem steady_readBlocks (h : ReadsAs R t rounds ctx src) (is : List Nat) :
    Steady R t (readBlocks rounds src is) (is.map fun i =>
      ctx.readBlock src.guid (UInt32.ofNat i) (src.contentLen i) src.blockSize src.location src.rows
        src.ceiling) := by
  induction is with
  | nil => exact steady_done _
  | cons i is ih =>
    unfold readBlocks
    exact (steady_readBlock h _ _).bind (ih.bind (steady_done _))

theorem steady_getFullBlobStream (h : ReadsAs R t rounds ctx src) :
    Steady R t (getFullBlobStream rounds src).run
      (ctx.getFullBlobStream src.guid src.numBlocks src.size src.blockSize src.location src.rows
        src.ceiling) := by
  unfold getFullBlobStream ReadContext.getFullBlobStream
  split
  · exact steady_done _
  · have hfirst := steady_readBlock h 0 (if src.numBlocks = 1 then src.size else src.blockSize)
    dsimp only
    cases hread : ctx.readBlock src.guid 0 (if src.numBlocks = 1 then src.size else src.blockSize)
        src.blockSize src.location src.rows src.ceiling with
    | error e =>
      rw [hread] at hfirst
      exact hfirst.run_error
    | ok firstBlock =>
      rw [hread] at hfirst
      refine hfirst.run_ok ?_
      dsimp only
      split
      · exact steady_done _
      · exact (steady_readBlocks h _).run_lift.run_ok (steady_done _)

def partItems : Except S3Error Body → Body
  | .ok items => items
  | .error e => [.error e]

theorem steady_partsStream {ι Part : Type} {stream : Part → Handler Body} {xs : List ι}
    {part : ι → Part} {result : ι → Except S3Error Body}
    (h : ∀ x ∈ xs, Steady R t (stream (part x)).run (result x)) :
    Steady R t (partsStream stream (xs.map part)) (xs.flatMap fun x => partItems (result x)) := by
  induction xs with
  | nil => exact steady_done _
  | cons x xs ih =>
    rw [List.map_cons]
    unfold partsStream
    refine (h x List.mem_cons_self).bind ?_
    refine (ih fun y hy => h y (List.mem_cons_of_mem _ hy)).bind ?_
    rw [List.flatMap_cons]
    cases result x with
    | ok items | error e => exact steady_done _

end

end FractalBits.Objects
