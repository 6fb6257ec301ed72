/-
  Objects.Endpoints — the endpoint of a request, and the calls it makes.

  Mirrors `endpoint.rs` and the `authorization_type` of the endpoints. What a request does is the
  handler that its endpoint is dispatched to.

  Main results:
  * `reads_of_not_write`: an endpoint without need of the right to write only reads.
  * `get_and_head_only_read`: so does every request with the method GET or HEAD.
-/

import FractalBits.Objects.Keyspace

namespace FractalBits.Objects

open Lib Gateway
open OvrMap (Uuid)

attribute [local irreducible] Uuid.asSimple

/-! ## §1. Endpoints -/

/-- The commands that are told apart; no other one is implemented. -/
inductive ApiCommand
  | attributes | delete | renameFolder | renameObject | uploads | other
  deriving DecidableEq, Repr

structure ApiSignature where
  uploadId : Option Bytes
  partNumber : Option Nat
  listType : Option Bytes
  xAmzCopySource : Option Bytes

inductive Method
  | head
  | get
  | put
  | post
  | delete
  | other
  deriving DecidableEq, Repr

inductive Route
  | createBucket | deleteBucket | headBucket | listBuckets
  | headObject
  | getObject | getObjectAttributes | listMultipartUploads | listObjects | listObjectsV2 | listParts
  | putObject | uploadPart (partNumber : Nat) (uploadId : Bytes) | copyObject | renameFolder
    | renameObject
  | completeMultipartUpload (uploadId : Bytes) | createMultipartUpload | deleteObjects
  | abortMultipartUpload (uploadId : Bytes) | deleteObject
  deriving DecidableEq, Repr

inductive RouteError
  | notImplemented
  | methodNotAllowed
  deriving DecidableEq, Repr

def getEndpoint (apiCmd : Option ApiCommand) (apiSig : ApiSignature) (key : Bytes) : Except
    RouteError Route :=
  match apiCmd with
  | none =>
    if key = [47] then .ok (if apiSig.listType.isSome then .listObjectsV2 else .listObjects)
    else .ok (if apiSig.uploadId.isSome then .listParts else .getObject)
  | some .attributes => .ok .getObjectAttributes
  | some .uploads => if key = [47] then .ok .listMultipartUploads else .error .notImplemented
  | some _ => .error .notImplemented

def putEndpoint (apiCmd : Option ApiCommand) (apiSig : ApiSignature) : Except RouteError Route :=
  match apiCmd, apiSig.partNumber, apiSig.uploadId, apiSig.xAmzCopySource with
  | some .renameFolder, none, none, none => .ok .renameFolder
  | some .renameObject, none, none, none => .ok .renameObject
  | none, some partNumber, some uploadId, none => .ok (.uploadPart partNumber uploadId)
  | none, none, none, some _ => .ok .copyObject
  | none, none, none, none => .ok .putObject
  | _, _, _, _ => .error .notImplemented

def postEndpoint (apiCmd : Option ApiCommand) (apiSig : ApiSignature) : Except RouteError Route :=
  match apiCmd, apiSig.uploadId with
  | some .delete, none => .ok .deleteObjects
  | some .uploads, none => .ok .createMultipartUpload
  | none, some uploadId => .ok (.completeMultipartUpload uploadId)
  | _, _ => .error .notImplemented

def deleteEndpoint (apiSig : ApiSignature) : Except RouteError Route :=
  match apiSig.uploadId with
  | some uploadId => .ok (.abortMultipartUpload uploadId)
  | none => .ok .deleteObject

def objectEndpoint (method : Method) (key : Bytes) (apiCmd : Option ApiCommand)
    (apiSig : ApiSignature) :
    Except RouteError Route :=
  match method with
  | .head => .ok .headObject
  | .get => getEndpoint apiCmd apiSig key
  | .put => putEndpoint apiCmd apiSig
  | .post => postEndpoint apiCmd apiSig
  | .delete => deleteEndpoint apiSig
  | .other => .error .methodNotAllowed

/-- `from_extractors`: the requests of buckets come first. -/
def fromExtractors (method : Method) (bucketName key : Bytes) (apiCmd : Option ApiCommand)
    (apiSig : ApiSignature) :
    Except RouteError Route :=
  if key = [47] then
    match method with
    | .head => .ok .headBucket
    | .put => .ok .createBucket
    | .delete => .ok .deleteBucket
    | .get => if bucketName = [] then .ok .listBuckets else objectEndpoint method key apiCmd apiSig
    | .post =>
      if apiCmd = some .delete then objectEndpoint method key apiCmd apiSig
      else .error .notImplemented
    | .other => .error .notImplemented
  else objectEndpoint method key apiCmd apiSig

/-- The right that a key needs for an endpoint. -/
inductive Authorization
  | none
  | read
  | write
  | owner
  deriving DecidableEq, Repr

def Route.authorizationType : Route → Authorization
  | .createBucket | .listBuckets => .none
  | .deleteBucket => .owner
  | .headBucket | .headObject | .getObject | .getObjectAttributes | .listMultipartUploads
    | .listObjects | .listObjectsV2
  | .listParts => .read
  | _ => .write

def Endpoint.route : Endpoint → Route
  | .headObject => .headObject
  | .getObject _ _ => .getObject
  | .getObjectAttributes _ => .getObjectAttributes
  | .listObjects _ => .listObjects
  | .listObjectsV2 _ => .listObjectsV2
  | .listParts _ => .listParts
  | .listMultipartUploads => .listMultipartUploads
  | .putObject _ => .putObject
  | .uploadPart partNumber uploadId _ => .uploadPart partNumber uploadId
  | .copyObject _ _ => .copyObject
  | .renameFolder _ => .renameFolder
  | .renameObject _ => .renameObject
  | .createMultipartUpload _ _ => .createMultipartUpload
  | .completeMultipartUpload uploadId _ => .completeMultipartUpload uploadId
  | .deleteObjects _ => .deleteObjects
  | .deleteObject => .deleteObject
  | .abortMultipartUpload uploadId => .abortMultipartUpload uploadId

/-! ## §2. Endpoints that read -/

/-- Every call that the request makes is a reading one, whatever the answers: none puts or deletes
    an inode, puts a block or queues a deletion. -/
def Handling.Reads (handling : Handling) : Prop :=
  ∃ handler, handling = .calls handler ∧ Obeys readOnly (fun _ => True) handler

section

variable {α : Type} {rounds : Nat} {key : Bytes}

theorem reads_of {handler : Handler α} (h : Obeys readOnly (fun _ => True) handler) : (Handling.of
    handler).Reads :=
  ⟨_, rfl, h.bind fun _ _ => obeys_pure trivial⟩

theorem reads_ofPanicking {handler : Handler (Option α)}
    (h : Obeys readOnly (fun _ => True) handler) :
    (Handling.ofPanicking handler).Reads :=
  ⟨_, rfl, h.bind fun _ _ => obeys_pure trivial⟩

theorem reads_getRawObject : Obeys readOnly (fun _ => True) (getRawObject rounds key) :=
  readable_readOnly.getRawObject trivial

theorem reads_readAttribute (attributes : List Bytes) (name : Bytes)
    (value : Except ObjectLayoutError α) :
    Obeys readOnly (fun _ => True) (readAttribute attributes name value) := by
  unfold readAttribute
  split
  · exact obeys_orFail_bind fun _ => obeys_pure trivial
  · exact obeys_pure trivial

theorem reads_getPartContent (object : Layout) (partNumber : Nat) :
    Obeys readOnly (fun _ => True) (getPartContent rounds key object partNumber) := by
  refine (obeys_getBlobClient rfl).bind fun client _ => ?_
  split
  · exact obeys_throw _
  · refine (readable_readOnly.listRawObjects trivial _ _).bind fun mpus _ => ?_
    split
    · exact obeys_pure trivial
    · refine obeys_orFail_bind fun _ => (obeys_lift (Readable.partsStream fun part _ => ?_)).bind
        fun _ _ =>
        obeys_pure trivial
      exact readable_readOnly.fullPart trivial

theorem reads_getObjectOrPart (partNumber : Option Nat) (parseRange : RangeParser) :
    Obeys readOnly (fun _ => True) (getObjectOrPart rounds key partNumber parseRange) := by
  cases partNumber with
  | none => exact (readable_readOnly.getObject trivial parseRange).bind fun _ _ =>
    obeys_pure trivial
  | some partNumber =>
    refine reads_getRawObject.bind fun object _ => obeys_orFail_bind fun _ =>
      obeys_orFail_bind fun range => ?_
    split
    · exact obeys_throw _
    · split
      · exact reads_getPartContent object partNumber
      · exact (readable_readOnly.getObjectContent trivial trivial).bind fun _ _ =>
          obeys_pure trivial

theorem reads_listParts (parseUuid : Bytes → Option Uuid) (opts : ListPartsOpts) :
    Obeys readOnly (fun _ => True) (listParts rounds parseUuid key opts) := by
  unfold listParts
  refine reads_getRawObject.bind fun object _ => ?_
  split
  · exact obeys_throw _
  · split
    · exact obeys_throw _
    · unfold fetchMpuParts
      split
      · exact obeys_throw _
      · refine (readable_readOnly.listRawObjects trivial _ _).bind fun _ _ =>
          obeys_orFail_bind fun _ => ?_
        exact obeys_pure trivial

theorem reads_listBucket (call : Except S3Error ListCall) :
    Obeys readOnly (fun _ => True) (orFail id call >>= listBucket rounds) := by
  refine obeys_orFail_bind fun call => ?_
  have hlist : Obeys readOnly (fun _ => True)
      (nss rounds (perform (Op.listInodes call.maxKeys call.keyPrefix call.startAfter))) := by
    refine follows_nss readable_readOnly.retries ?_ rounds
    exact ⟨rfl, fun _ _ => ⟨fun _ _ => trivial, fun _ _ _ => rfl⟩⟩
  exact hlist.bind fun _ _ => obeys_orFail _ fun _ _ => trivial

theorem reads_of_not_write {endpoint : Endpoint} (h : endpoint.route.authorizationType ≠ .write)
    (env : RequestEnv) (key : Bytes) : (endpoint.handle env key).Reads := by
  cases endpoint with
  | headObject =>
    refine reads_of (reads_getRawObject.bind fun _ _ => obeys_orFail_bind fun _ => obeys_orFail_bind
      fun _ => ?_)
    exact obeys_pure trivial
  | getObject partNumber parseRange =>
    exact reads_ofPanicking (reads_getObjectOrPart partNumber parseRange)
  | getObjectAttributes attributes =>
    refine reads_of (reads_getRawObject.bind fun _ _ => (reads_readAttribute _ _ _).bind fun _ _ =>
      ?_)
    exact (reads_readAttribute _ _ _).bind fun _ _ => reads_readAttribute _ _ _
  | listObjects | listObjectsV2 => exact reads_of (reads_listBucket _)
  | listParts opts => exact reads_ofPanicking (reads_listParts _ opts)
  | listMultipartUploads => exact reads_of (obeys_pure trivial)
  | _ => exact absurd rfl h

end

/-! ## §3. Methods that read -/

theorem not_write_of_getEndpoint {apiCmd : Option ApiCommand} {apiSig : ApiSignature} {key : Bytes}
    {route : Route} (h : getEndpoint apiCmd apiSig key = .ok route) :
    route.authorizationType ≠ .write := by
  unfold getEndpoint at h
  split at h
  · split at h <;> cases h <;> split <;> exact nofun
  · cases h
    exact nofun
  · split at h <;> cases h
    exact nofun
  · cases h

/-- ★ **GET and HEAD only read**: a request with one of these methods makes reading calls, whatever
    its query and headers say, and whatever the services answer. -/
theorem get_and_head_only_read {method : Method} (hmethod : method = .get ∨ method = .head)
    {bucketName key : Bytes} {apiCmd : Option ApiCommand} {apiSig : ApiSignature}
    {endpoint : Endpoint} (hroute : fromExtractors method bucketName key apiCmd apiSig = .ok
    endpoint.route) (env : RequestEnv) : (endpoint.handle env key).Reads := by
  refine reads_of_not_write ?_ env key
  generalize endpoint.route = route at hroute
  rcases hmethod with rfl | rfl
  · change (if key = [47] then if bucketName = [] then _ else getEndpoint apiCmd apiSig key else _)
      = _ at hroute
    split at hroute
    · split at hroute
      · cases hroute
        exact nofun
      · exact not_write_of_getEndpoint hroute
    · exact not_write_of_getEndpoint hroute
  · change (if key = [47] then _ else Except.ok Route.headObject) = _ at hroute
    split at hroute <;> cases hroute <;> exact nofun

theorem get_of_parts_only_reads :
    fromExtractors .get (ascii "b") (ascii "/k") none ⟨some [], none, none, none⟩ = .ok .listParts
      ∧ ((Endpoint.listParts ⟨none, none, []⟩).handle sampleEnv (ascii "/k")).Reads :=
  ⟨rfl, get_and_head_only_read (.inl rfl)
    (show fromExtractors .get (ascii "b") _ none ⟨some [], none, none, none⟩ = _ from rfl)
      sampleEnv⟩

end FractalBits.Objects
