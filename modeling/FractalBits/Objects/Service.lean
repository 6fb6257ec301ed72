/-
  Objects.Service — what the gateway's object handlers call: the namespace service (NSS), the block
  stores and the deletion queue.

  Mirrors the replies of `nss_ops.proto`, their parsers in `common/file_ops/src/lib.rs`, the retry
  loops of `rpc_clients/client_common/src/lib.rs`, and `get_raw_object` and `list_raw_objects` of
  `handler/common.rs`.
-/

import FractalBits.Lib.Pool
import FractalBits.Objects.Layout

namespace FractalBits.Objects

open Lib Streaming Gateway
open OvrMap (Uuid OvrRowMap)

/-! ## §1. The namespace -/

/-- A stored value: a serialized layout, or bytes that are none. -/
inductive Inode
  | layout (layout : Layout)
  | raw (bytes : Bytes)
  deriving DecidableEq, Repr

def Inode.empty : Inode := .raw []

def Inode.isEmpty (inode : Inode) : Bool := inode = .empty

def Inode.decode : Inode → Option Layout
  | .layout l => some l
  | .raw _ => none

/-- The blob that the stored value refers to. -/
def Inode.blob : Inode → Option DataBlobGuid
  | .layout object => object.blobGuid.toOption
  | .raw _ => none

/-- The keys of a bucket, in the order of NSS. -/
abbrev Namespace := Std.ExtTreeMap Bytes Inode compare

/-- NSS keys are NUL-terminated on the wire. -/
def nulTerminated (key : Bytes) : Bytes := key ++ [0]

def wireStartAfter (startAfter : Bytes) : Bytes :=
  if startAfter.getLast? = some 47 then startAfter else nulTerminated startAfter

/-- The entries under the prefix and after `startAfter`, as keys on the wire. -/
def Namespace.matching (ns : Namespace) (keyPrefix startAfter : Bytes) : List (Bytes × Inode) :=
  ns.toList.filter fun e =>
    keyPrefix.isPrefixOf (nulTerminated e.1) && compare (wireStartAfter startAfter)
      (nulTerminated e.1) = .lt

/-! ## §2. Calls -/

/-- Errors of a call: one that is retried and one that is not. -/
inductive RpcError
  | connectionClosed
  | decodeError
  deriving DecidableEq, Repr

def RpcError.retryable : RpcError → Bool
  | .connectionClosed => true
  | .decodeError => false

inductive GetInodeResponse
  | ok (value : Inode)
  | errNotFound
  | errNoSuchRootBlob
  | errOther
  deriving DecidableEq, Repr

/-- `ok` carries the value that was replaced. -/
inductive PutInodeResponse
  | ok (old : Inode)
  | errNoSuchRootBlob
  | errOther
  deriving DecidableEq, Repr

/-- `ok` carries the value that was deleted. -/
inductive DeleteInodeResponse
  | ok (old : Inode)
  | errNotFound
  | errAlreadyDeleted
  | errNoSuchRootBlob
  | errOther
  deriving DecidableEq, Repr

inductive ListInodesResponse
  | ok (inodes : List (Bytes × Inode)) (hasMore : Bool)
  | errNoSuchRootBlob
  | errOther
  deriving DecidableEq, Repr

/-- The calls of the object handlers. Listings have no delimiter and do not skip parts. -/
inductive Op
  | getInode (key : Bytes)
  | putInode (key : Bytes) (value : Inode)
  | deleteInode (key : Bytes)
  | listInodes (maxKeys : Nat) (keyPrefix startAfter : Bytes)
  /-- whether the time for failing over is up -/
  | failoverExpired
  /-- whether there is a client for a new address -/
  | refreshNssAddress
  | getBlobClient
  | putBlock (key : BlobKey) (body : Bytes)
  | getBlob (guid : DataBlobGuid) (block : UInt32) (version : UInt64) (location : BlobLocation)
  | loadRowMap (blobId : Uuid) (mapEpoch : UInt64)
  | sendDeletion (request : BlobDeletionRequest)
  deriving DecidableEq

/-- The answers; `getBlob` answers none for `BlockNotFound`. -/
abbrev Ans : Op → Type
  | .getInode _ => Except RpcError GetInodeResponse
  | .putInode _ _ => Except RpcError PutInodeResponse
  | .deleteInode _ => Except RpcError DeleteInodeResponse
  | .listInodes _ _ _ => Except RpcError ListInodesResponse
  | .failoverExpired => Bool
  | .refreshNssAddress => Bool
  | .getBlobClient => Bool
  | .putBlock _ _ => Bool
  | .getBlob _ _ _ _ => Except S3Error (Option Bytes)
  | .loadRowMap _ _ => Except S3Error OvrRowMap
  | .sendDeletion _ => Bool

/-! ## §3. The services -/

/-- What becomes of a call. -/
inductive Delivery
  | answered
  /-- applied, and the reply does not come back -/
  | replyLost
  /-- applied, and the reply cannot be read -/
  | garbled
  /-- never arrives -/
  | dropped
  /-- answered with an error -/
  | refused
  /-- answered that the bucket is not there -/
  | noRootBlob
  deriving DecidableEq, Repr

def Delivery.applied : Delivery → Bool
  | .answered | .replyLost | .garbled => true
  | .dropped | .refused | .noRootBlob => false

/-- What the services store: inodes, blocks, and the queue of blobs to delete. -/
structure Site where
  inodes : Namespace
  stores : BlobStores
  queue : List BlobDeletionRequest

/-- What does not change: the most keys of one listing reply, the block store, and the rows of
    mapped blobs. -/
structure Cluster where
  clamp : Nat
  impl : BlobStorageImpl
  rows : Uuid → UInt64 → Except S3Error OvrRowMap

/-- A page of a listing, and whether there is more. -/
def Cluster.listPage (cluster : Cluster) (ns : Namespace) (maxKeys : Nat)
    (keyPrefix startAfter : Bytes) :
    List (Bytes × Inode) × Bool :=
  let found := ns.matching keyPrefix startAfter
  let limit := min maxKeys cluster.clamp
  (found.take limit, decide (limit < found.length))

/-- A call to the namespace service that, if it arrives, answers `reply` and leaves `applied`. -/
def deliver {Resp : Type} (d : Delivery) (site applied : Site)
    (reply errNoSuchRootBlob errOther : Resp) :
    Except RpcError Resp × Site :=
  match d with
  | .answered => (.ok reply, applied)
  | .replyLost => (.error .connectionClosed, applied)
  | .garbled => (.error .decodeError, applied)
  | .dropped => (.error .connectionClosed, site)
  | .refused => (.ok errOther, site)
  | .noRootBlob => (.ok errNoSuchRootBlob, site)

/-- What a call answers, delivered in this way, and what it leaves. -/
def Cluster.serve (cluster : Cluster) (d : Delivery) : (op : Op) → Site → Ans op × Site
  | .getInode key, s =>
    deliver d s s (match s.inodes[key]? with | some value => .ok value | none => .errNotFound)
      .errNoSuchRootBlob .errOther
  | .putInode key value, s =>
    deliver d s { s with inodes := s.inodes.insert key value } (.ok (s.inodes[key]?.getD .empty))
      .errNoSuchRootBlob .errOther
  | .deleteInode key, s =>
    deliver d s { s with inodes := s.inodes.erase key }
      (match s.inodes[key]? with | some value => .ok value | none => .errNotFound)
      .errNoSuchRootBlob .errOther
  | .listInodes maxKeys keyPrefix startAfter, s =>
    let page := cluster.listPage s.inodes maxKeys keyPrefix startAfter
    deliver d s s (.ok page.1 page.2) .errNoSuchRootBlob .errOther
  | .failoverExpired, s => (d = .answered, s)
  | .refreshNssAddress, s => (d = .answered, s)
  | .getBlobClient, s => (d = .answered, s)
  | .putBlock key body, s =>
    match d with
    | .answered => (true, { s with stores := Function.update s.stores key (some body) })
    | .replyLost | .garbled =>
      (false, { s with stores := Function.update s.stores key (some body) })
    | .dropped | .refused | .noRootBlob => (false, s)
  | .getBlob guid block version location, s =>
    if d = .answered then (.ok (cluster.impl.getBlob s.stores guid block version location), s)
    else (.error .internalError, s)
  | .loadRowMap blobId mapEpoch, s => (cluster.rows blobId mapEpoch, s)
  | .sendDeletion request, s =>
    if d = .answered then (true, { s with queue := s.queue ++ [request] }) else (false, s)

/-- The services when every call gets through. -/
abbrev Cluster.answer (cluster : Cluster) : (op : Op) → Site → Ans op × Site :=
    cluster.serve .answered

/-! ## §4. Retries -/

/-- A program that makes calls to the services. -/
abbrev Call (α : Type) := Prog Op Ans α

/-- A call, with who makes it, how it is delivered and the site it finds. -/
abbrev CallEvent := Event Op Site Delivery Nat

/-- The calls of a run, in their order. -/
abbrev Trace := List CallEvent

/-- The loop of `rpc_retry!`: errors that can be retried are, `retries` times. -/
def rpcRetry {α : Type} (attempt : Call (Except RpcError α)) : Nat → Call (Except RpcError α)
  | 0 => attempt
  | retries + 1 => do
    match ← attempt with
    | .ok val => return .ok val
    | .error e => if e.retryable then rpcRetry attempt retries else return .error e

/-- A result that ends the failover loop: a reply, or an error that is not retried. -/
def settled {α : Type} : Except RpcError α → Bool
  | .ok _ => true
  | .error e => !e.retryable

def atNewAddress {α : Type} (attempt : Call (Except RpcError α)) (refreshed : Bool) :
    Call (Except RpcError α) :=
  if refreshed then rpcRetry attempt 3 else return .error .connectionClosed

/-- The failover loop of `__nss_rpc_retry_body!`, for at most `rounds` rounds. -/
def failover {α : Type} (attempt : Call (Except RpcError α)) : Nat → Call (Except RpcError α)
  | 0 => rpcRetry attempt 3
  | rounds + 1 => do
    let expired ← perform .failoverExpired
    if expired then rpcRetry attempt 3
    else
      let refreshed ← perform .refreshNssAddress
      let newAddress ← atNewAddress attempt refreshed
      if settled newAddress then return newAddress
      else
        let sameAddress ← rpcRetry attempt 3
        if settled sameAddress then return sameAddress else failover attempt rounds

def nssRpcRetry {α : Type} (rounds : Nat) (attempt : Call (Except RpcError α)) :
    Call (Except RpcError α) := do
  let initial ← rpcRetry attempt 3
  if settled initial then return initial else failover attempt rounds

/-! ## §5. Handlers -/

/-- A handler ends with a value or with the error that is answered. -/
abbrev Handler (α : Type) := ExceptT S3Error (Prog Op Ans) α

def RpcError.toS3Error (e : RpcError) : S3Error :=
  if e.retryable then .serviceUnavailable else .internalError

def ObjectLayoutError.toS3Error : ObjectLayoutError → S3Error
  | .invalidState => .invalidObjectState

inductive NssError
  | notFound
  | noSuchRootBlob
  | internal
  | deserialization
  deriving DecidableEq, Repr

def NssError.toS3Error : NssError → S3Error
  | .notFound => .noSuchKey
  | .noSuchRootBlob => .noSuchBucket
  | .internal => .internalError
  | .deserialization => .internalError

/-- The `?` operator: an error becomes the handler's answer. -/
def orFail {ε α : Type} (toS3Error : ε → S3Error) (r : Except ε α) : Handler α :=
  ExceptT.mk (pure (r.mapError toS3Error))

/-- A call to the namespace service with its retries, and `?`. -/
def nss {α : Type} (rounds : Nat) (attempt : Call (Except RpcError α)) : Handler α := do
  let result ← ExceptT.lift (nssRpcRetry rounds attempt)
  orFail RpcError.toS3Error result

def parseGetInode : GetInodeResponse → Except NssError Layout
  | .ok value =>
    match value.decode with
    | some layout => .ok layout
    | none => .error .deserialization
  | .errNotFound => .error .notFound
  | .errNoSuchRootBlob => .error .noSuchRootBlob
  | .errOther => .error .internal

def parsePutInode : PutInodeResponse → Except NssError Inode
  | .ok old => .ok old
  | .errNoSuchRootBlob => .error .noSuchRootBlob
  | .errOther => .error .internal

def parseDeleteInode : DeleteInodeResponse → Except NssError (Option Inode)
  | .ok old => .ok (some old)
  | .errNotFound | .errAlreadyDeleted => .ok none
  | .errNoSuchRootBlob => .error .noSuchRootBlob
  | .errOther => .error .internal

def listEntries : List (Bytes × Inode) → Except NssError (List (Bytes × Option Layout))
  | [] => .ok []
  | (key, inode) :: rest =>
    if inode.isEmpty then (listEntries rest).map ((key, none) :: ·)
    else
      match inode.decode with
      | some layout => (listEntries rest).map ((trimEndMatches 0 key, some layout) :: ·)
      | none => .error .deserialization

def parseListInodes : ListInodesResponse → Except NssError (List (Bytes × Option Layout) × Bool)
  | .ok inodes hasMore => (listEntries inodes).map (·, hasMore)
  | .errNoSuchRootBlob => .error .noSuchRootBlob
  | .errOther => .error .internal

def getRawObject (rounds : Nat) (key : Bytes) : Handler Layout := do
  let resp ← nss rounds (perform (Op.getInode key))
  orFail NssError.toS3Error (parseGetInode resp)

/-- `list_raw_objects`: one reply, whatever it says about more keys. -/
def listRawObjects (rounds maxParts : Nat) (keyPrefix startAfter : Bytes) :
    Handler (List (Bytes × Layout)) := do
  let resp ← nss rounds (perform (Op.listInodes maxParts keyPrefix startAfter))
  let (entries, _) ← orFail NssError.toS3Error (parseListInodes resp)
  return entries.filterMap fun entry => entry.2.map (entry.1, ·)

def enqueueBlobDeletion (object : Layout) : Call (Except ObjectLayoutError Unit) :=
  match newBlobDeletionRequest object with
  | .error e => return .error e
  | .ok request => do
    let client ← perform .getBlobClient
    if client then
      let sent ← perform (.sendDeletion request)
      return if sent then .ok () else .error .invalidState
    else return .error .invalidState

def mpuGetUploadsPrefix (key : Bytes) : Bytes := key ++ ascii "#"

def rejectTrailingSlashKey (key : Bytes) : Except S3Error Unit :=
  if key.getLast? = some 47 then .error .keyUnsupported else .ok ()

/-! ## §6. Calls that are answered -/

section

variable {σ : Type} {serve : (op : Op) → σ → Ans op × σ} {α : Type}

theorem exec_orFail_ok {ε : Type} (toS3Error : ε → S3Error) (a : α) (s : σ) :
    (orFail toS3Error (.ok a)).run.exec serve s = (.ok a, s) := rfl

theorem exec_orFail_error {ε : Type} (toS3Error : ε → S3Error) (e : ε) (s : σ) :
    (orFail toS3Error (.error e) : Handler α).run.exec serve s = (.error (toS3Error e), s) := rfl

variable {attempt : Call (Except RpcError α)} {s s' : σ} {r : α}

variable (h : attempt.exec serve s = (.ok r, s'))

include h

theorem exec_rpcRetry
    (retries : Nat) :
    (rpcRetry attempt retries).exec serve s = (.ok r, s') := by
  cases retries with
  | zero => exact h
  | succ retries =>
    unfold rpcRetry
    rw [exec_bind, h]
    rfl

theorem exec_nssRpcRetry
    (rounds : Nat) :
    (nssRpcRetry rounds attempt).exec serve s = (.ok r, s') := by
  unfold nssRpcRetry
  rw [exec_bind, exec_rpcRetry h]
  rfl

theorem exec_nss
    (rounds : Nat) :
    (nss rounds attempt).run.exec serve s = (.ok r, s') := by
  unfold nss
  rw [exec_of_ok (exec_lift _ s), exec_nssRpcRetry h]
  rfl

end

/-! ## §7. The retry loops -/

/-- What one attempt has, retries have: `S` says it of a program that answers like an attempt, `W`
    of one that does so if its answer is settled. -/
structure RetryRule {α : Type} (attempt : Call (Except RpcError α))
    (S W : Call (Except RpcError α) → Prop) :
    Prop where
  attempt : S attempt
  weaken : ∀ p, S p → W p
  noAddress : W (return .error .connectionClosed)
  orElse : ∀ p q, W p → S q → S (p >>= fun r => if settled r then return r else q)
  expired : ∀ f : Bool → Call (Except RpcError α), (∀ b, S (f b)) →
    S (perform Op.failoverExpired >>= f)
  refresh : ∀ f : Bool → Call (Except RpcError α), (∀ b, S (f b)) →
    S (perform Op.refreshNssAddress >>= f)

section

variable {α : Type} {attempt : Call (Except RpcError α)} {S W : Call (Except RpcError α) → Prop}

theorem RetryRule.rpcRetry (h : RetryRule attempt S W) (retries : Nat) :
    S (rpcRetry attempt retries) := by
  induction retries with
  | zero => exact h.attempt
  | succ retries ih =>
    have hloop : Objects.rpcRetry attempt (retries + 1)
        = attempt >>= fun r => if settled r then return r
          else Objects.rpcRetry attempt retries := by
      refine congrArg (attempt >>= ·) (funext fun r => ?_)
      cases r with
      | ok val => rfl
      | error e => cases e <;> rfl
    rw [hloop]
    exact h.orElse _ _ (h.weaken _ h.attempt) ih

theorem RetryRule.failover (h : RetryRule attempt S W) (rounds : Nat) :
    S (failover attempt rounds) := by
  induction rounds with
  | zero => exact h.rpcRetry 3
  | succ rounds ih =>
    refine h.expired _ fun expired => ?_
    split
    · exact h.rpcRetry 3
    · refine h.refresh _ fun refreshed => h.orElse (atNewAddress attempt refreshed) _ ?_ ?_
      · unfold atNewAddress
        split
        · exact h.weaken _ (h.rpcRetry 3)
        · exact h.noAddress
      · exact h.orElse _ _ (h.weaken _ (h.rpcRetry 3)) ih

theorem RetryRule.nssRpcRetry (h : RetryRule attempt S W) (rounds : Nat) :
    S (nssRpcRetry rounds attempt) :=
  h.orElse _ _ (h.weaken _ (h.rpcRetry 3)) (h.failover rounds)

theorem retryable_of_not_settled {r : Except RpcError α} (h : ¬ settled r = true) :
    ∃ e, r = .error e ∧ e.retryable = true := by
  cases r with
  | ok val => exact absurd rfl h
  | error e => exact ⟨e, rfl, by simpa [settled] using h⟩

end

/-! ## §8. What calls keep -/

/-- The errors satisfy `E`, and the values `P`. -/
def Answers {α : Type} (E : S3Error → Prop) (P : α → Prop) : Except S3Error α → Prop
  | .ok a => P a
  | .error e => E e

section

variable {cluster : Cluster} {ok : Op → Delivery → Prop} {I : Site → Prop} {α : Type}
  {attempt : Call (Except RpcError α)} {P : Except RpcError α → Prop}

theorem keeps_nssRpcRetry (h : attempt.Keeps cluster.serve ok I P) (rounds : Nat) :
    (nssRpcRetry rounds attempt).Keeps cluster.serve ok I P := by
  have hrule : RetryRule attempt (·.Keeps cluster.serve ok I P)
      (·.Keeps cluster.serve ok I fun r => settled r = true → P r) := by
    refine ⟨h, fun p hp => hp.mono fun r hr _ => hr, fun hset => (Bool.false_ne_true hset).elim, ?_,
      ?_, ?_⟩
    · intro p q hp hq
      refine hp.bind fun r hr => ?_
      split
      · next hset => exact hr hset
      · exact hq
    · exact fun f hf ch s _ hs => ⟨hs, hf _⟩
    · exact fun f hf ch s _ hs => ⟨hs, hf _⟩
  exact hrule.nssRpcRetry rounds

theorem ensures_nssRpcRetry {guard : Site → Op → Prop} {Q : Except RpcError α → Site → Prop}
    (hguard : ∀ s, I s → guard s .failoverExpired ∧ guard s .refreshNssAddress)
    (h : ∀ s, I s → attempt.Ensures cluster.serve ok guard Q s)
    (hretry : ∀ e s, Q (.error e) s → I s) (rounds : Nat) {s : Site} (hs : I s) :
    (nssRpcRetry rounds attempt).Ensures cluster.serve ok guard Q s := by
  have hrule : RetryRule attempt (fun p => ∀ s, I s → p.Ensures cluster.serve ok guard Q s)
      fun p => ∀ s, I s → p.Ensures cluster.serve ok guard (fun r s' => if settled r then Q r s'
        else I s') s := by
    refine ⟨h, fun p hp s hs => (hp s hs).mono fun r s' hr => ?_, fun s hs => hs, ?_, ?_, ?_⟩
    · split
      · exact hr
      · next hset =>
        obtain ⟨e, rfl, -⟩ := retryable_of_not_settled hset
        exact hretry e s' hr
    · intro p q hp hq s hs
      refine (hp s hs).bind fun r s' hr => ?_
      split
      · next hset => rwa [if_pos hset] at hr
      · next hset =>
        rw [if_neg hset] at hr
        exact hq s' hr
    · exact fun f hf s hs => ⟨(hguard s hs).1, fun ch _ => hf _ s hs⟩
    · exact fun f hf s hs => ⟨(hguard s hs).2, fun ch _ => hf _ s hs⟩
  exact hrule.nssRpcRetry rounds s hs

/-- Every call may be made. -/
def Unguarded (_ : Site) (_ : Op) : Prop := True

theorem ensures_nss {Q : Except S3Error α → Site → Prop}
    (h : ∀ s, I s → attempt.Ensures cluster.serve ok Unguarded
      (fun r s' => Q (r.mapError RpcError.toS3Error) s' ∧ ∀ e, r = .error e → I s') s)
    (rounds : Nat) {s : Site} (hs : I s) : (nss rounds attempt).run.Ensures cluster.serve ok
      Unguarded Q s := by
  unfold nss
  rw [run_lift_bind]
  refine (ensures_nssRpcRetry (fun _ _ => ⟨trivial, trivial⟩) h (fun e _ hr => hr.2 e rfl) rounds
    hs).bind ?_
  exact fun r s' hr => hr.1

theorem keeps_nss {E : S3Error → Prop} {P : α → Prop}
    (h : attempt.Keeps cluster.serve ok I fun r => Answers E P (r.mapError RpcError.toS3Error))
    (rounds : Nat) :
    (nss rounds attempt).run.Keeps cluster.serve ok I (Answers E P) := by
  unfold nss
  exact keeps_lift_bind (keeps_nssRpcRetry h rounds) fun r hr => hr

end

/-! ## §9. Calls that follow a protocol -/

section

variable {γ α : Type} {P : Protocol Op Ans γ} {g : γ} {attempt : Call (Except RpcError α)}
  {R : γ → Except RpcError α → Prop}

/-- The calls of the retry loop are allowed and change no phase. -/
structure Retries (P : Protocol Op Ans γ) (g : γ) : Prop where
  expired : P.allowed g .failoverExpired ∧ ∀ ans, P.advance g .failoverExpired ans = g
  refresh : P.allowed g .refreshNssAddress ∧ ∀ ans, P.advance g .refreshNssAddress ans = g

theorem follows_nssRpcRetry (hP : Retries P g) (h : attempt.Follows P R g)
    (hretry : ∀ g' e, R g' (.error e) → e.retryable = true → g' = g) (rounds : Nat) :
    (nssRpcRetry rounds attempt).Follows P R g := by
  have hrule : RetryRule attempt (·.Follows P R g)
      (·.Follows P (fun g' r => if settled r then R g' r else g' = g) g) := by
    refine ⟨h, ?_, rfl, ?_, ?_, ?_⟩
    · intro p hp
      refine hp.mono fun g' r hr => ?_
      split
      · exact hr
      · next hset =>
        obtain ⟨e, rfl, he⟩ := retryable_of_not_settled hset
        exact hretry g' e hr he
    · intro p q hp hq
      refine (hp.mono fun g' r hr => ?_).bind
      split
      · next hset => rwa [if_pos hset] at hr
      · next hset =>
        rw [if_neg hset] at hr
        rwa [hr]
    · exact fun f hf => ⟨hP.expired.1, fun ans _ => by rw [hP.expired.2]; exact hf ans⟩
    · exact fun f hf => ⟨hP.refresh.1, fun ans _ => by rw [hP.refresh.2]; exact hf ans⟩
  exact hrule.nssRpcRetry rounds

theorem follows_nss {S : γ → Except S3Error α → Prop} (hP : Retries P g)
    (h : attempt.Follows P (fun g' r => S g' (r.mapError RpcError.toS3Error)
      ∧ ∀ e, r = .error e → e.retryable = true → g' = g) g) (rounds : Nat) :
    (nss rounds attempt).run.Follows P S g := by
  unfold nss
  refine follows_lift_bind (follows_nssRpcRetry hP h (fun g' e hr he => hr.2 e rfl he) rounds) ?_
  intro g' r hr
  exact hr.1

end

end FractalBits.Objects
