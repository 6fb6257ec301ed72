/-
  Objects.Requests — object requests and the keys they reach.

  Mirrors `bucket_name_and_key.rs`, the dispatch of `handler.rs` to the handlers of object
  endpoints, and those handlers that the other modules do not have. A request comes with its options
  parsed.
-/

import Mathlib.Data.List.ReduceOption
import FractalBits.Lib.BinarySearch
import FractalBits.Objects.Listing
import FractalBits.Objects.Read

namespace FractalBits.Objects

open Lib Streaming Gateway
open OvrMap (Uuid)

/-! ## §1. Bucket and key -/

def getBucketAndKeyFromPath (fullKey : Bytes) : Bytes × Bytes :=
  let path := fullKey.dropWhile fun c => c = 47
  (path.takeWhile fun c => c ≠ 47, 47 :: (path.dropWhile fun c => c ≠ 47).drop 1)

/-- `buket_name_from_host`: the bucket of a virtual-hosted-style request. -/
def buketNameFromHost (rootDomain : Bytes) (headers : Headers) : Option Bytes := do
  let hostHeader ← headers.get (ascii "host")
  let host ← toStr hostHeader
  if rootDomain.isSuffixOf host then
    let bucketEndPos := host.length - rootDomain.length
    if bucketEndPos > 0 then
      let bucket := trimEndMatches 46 (host.take bucketEndPos)
      if bucket = [] then none else some bucket
    else none
  else none

def bucketAndKeyName (rootDomain : Bytes) (headers : Headers) (path : Bytes) :
    Except S3Error (Bytes × Bytes) :=
  let (bucket, key) := match buketNameFromHost rootDomain headers with
    | some bucket => (bucket, path)
    | none => getBucketAndKeyFromPath path
  let key := percentDecode key
  if utf8Valid key = false then .error .invalidURI
  else do
    checkKeyName key
    return (bucket, key)

/-! ## §2. Handlers

  An answer without a value is a panic of the handler. -/

section

variable (rounds : Nat)

def headObject (key : Bytes) : Handler Unit := do
  let object ← getRawObject rounds key
  let _ ← orFail ObjectLayoutError.toS3Error object.etag
  let _ ← orFail ObjectLayoutError.toS3Error object.size
  return ()

def readAttribute {α : Type} (attributes : List Bytes) (name : Bytes)
    (value : Except ObjectLayoutError α) : Handler Unit :=
  if name ∈ attributes then do
    let _ ← orFail ObjectLayoutError.toS3Error value
    return ()
  else return ()

def getObjectAttributes (key : Bytes) (attributes : List Bytes) : Handler Unit := do
  let object ← getRawObject rounds key
  readAttribute attributes (ascii "etag") object.etag
  readAttribute attributes (ascii "checksum") object.checksum
  readAttribute attributes (ascii "objectsize") object.size

/-- `get_object_content` of the part with a number. `swap_remove` panics where there is no such
    part, and so does it for number 0, of which `n - 1` is no index. -/
def getPartContent (key : Bytes) (object : Layout) (partNumber : Nat) :
    Handler (Option Body) := do
  let client ← ExceptT.lift (perform Op.getBlobClient)
  if client = false then throw .internalError
  else
    let mpus ← listRawObjects rounds 10000 (mpuGetPartPrefix key object.versionId 0) []
    match if partNumber = 0 then none else mpus[partNumber - 1]? with
    | none => return none
    | some part =>
      let _ ← orFail ObjectLayoutError.toS3Error part.2.size
      let items ← ExceptT.lift (partsStream (fullPart rounds) [part])
      return some items

/-- `get_object_handler` with the query's part number, which only a completed upload looks at. -/
def getObjectOrPart (key : Bytes) (partNumber : Option Nat) (parseRange : RangeParser) :
    Handler (Option Body) :=
  match partNumber with
  | none => do
    let items ← getObject rounds key parseRange
    return some items
  | some partNumber => do
    let object ← getRawObject rounds key
    let totalSize ← orFail ObjectLayoutError.toS3Error object.size
    let range ← orFail id (parseRange totalSize)
    match range with
    | some _ => throw .invalidArgument1
    | none =>
      match object.state with
      | .mpu (.completed _) => getPartContent rounds key object partNumber
      | _ =>
        let content ← getObjectContent rounds key object
        return some content.1

structure ListPartsOpts where
  maxParts : Option Nat
  partNumberMarker : Option Nat
  uploadId : Bytes

structure ListedPart where
  partNumber : Nat
  etag : Bytes
  size : Nat
  lastModified : Nat
  checksum : Option ChecksumValue
  deriving DecidableEq, Repr

/-- One listed key; a layout without an ETag or a size is passed over. -/
def listPart (part : Bytes × Layout) : Except S3Error (Option ListedPart) :=
  match part.2.etag, part.2.size with
  | .ok etag, .ok size => do
    let partNumber ← mpuParsePartNumber part.1
    let checksum ← part.2.checksum.mapError ObjectLayoutError.toS3Error
    return some ⟨partNumber, etag, size, part.2.timestamp, checksum⟩
  | _, _ => return none

variable (overflowChecks : Bool)

/-- `marker + 1` of `u32`: a panic where overflow is checked. -/
def nextNumber (marker : Nat) : Option Nat :=
  if overflowChecks = true ∧ marker + 1 = 2 ^ 32 then none else some ((marker + 1) % 2 ^ 32)

def orderOf (next : Nat) (part : ListedPart) : Ordering := compare part.partNumber next

def cutBeginning (parts : List ListedPart) : Option Nat → Option (List ListedPart)
  | none => some parts
  | some marker => do
    let next ← nextNumber overflowChecks marker
    let partIdx := searchIndex (binarySearchBy (orderOf next) parts)
    return parts.drop partIdx

def cutEnd (parts : List ListedPart) (maxParts : Nat) : Option (List ListedPart × Option Nat) :=
  if parts.length > maxParts then do
    let parts := parts.take maxParts
    -- `parts.last().unwrap()`
    let last ← parts.getLast?
    return (parts, some last.partNumber)
  else some (parts, none)

def cut (parts : List ListedPart) (partNumberMarker : Option Nat) (maxParts : Nat) :
    Option (List ListedPart × Option Nat) :=
  (cutBeginning overflowChecks parts partNumberMarker).bind (cutEnd · maxParts)

def fetchMpuParts (parseUuid : Bytes → Option Uuid) (key : Bytes)
    (opts : ListPartsOpts) (maxParts : Nat) : Handler (Option (List ListedPart × Option Nat)) :=
  match parseUuid opts.uploadId with
  | none => throw .noSuchUpload
  | some uploadId => do
    let mpus ← listRawObjects rounds 10000 (mpuGetPartPrefix key uploadId 0) []
    let parts ← orFail id (mpus.mapM listPart)
    return cut overflowChecks parts.reduceOption opts.partNumberMarker maxParts

def listParts (parseUuid : Bytes → Option Uuid) (key : Bytes) (opts : ListPartsOpts) :
    Handler (Option (List ListedPart × Option Nat)) := do
  let object ← getRawObject rounds key
  if Uuid.asSimple object.versionId ≠ opts.uploadId then throw .noSuchUpload
  else if object.state ≠ .mpu .uploading then throw .invalidObjectState
  else
    fetchMpuParts rounds false parseUuid key opts (opts.maxParts.getD 1000)

def collectItems (items : Body) : Except S3Error Bytes :=
  match items.mapM id with
  | .ok chunks => .ok chunks.flatten
  | .error _ => .error .internalError

/-- `copy_object_handler`: a GET of the source and a PUT of its bytes. `allowRead` are the buckets
    that the key of the request may read. -/
def copyObject (allowRead : Bytes → Bool) (key copySource : Bytes)
    (uploadOf : Bytes → Upload) : Handler Unit :=
  let copySource := percentDecode copySource
  if utf8Valid copySource = false then throw .unexpectedContent
  else
    let (sourceBucket, sourceKey) := getBucketAndKeyFromPath copySource
    if allowRead sourceBucket = false then throw .accessDenied
    else do
      let object ← getRawObject rounds sourceKey
      let content ← getObjectContent rounds sourceKey object
      let body ← orFail id (collectItems content.1)
      putObject rounds key (uploadOf body)

/-- `delete_objects_handler`: an error of one key does not stop the others. -/
def deleteObjects : List Bytes → Call Unit
  | [] => return ()
  | key :: keys => do
    let _ ← (deleteObjectByKey rounds (47 :: key)).run
    deleteObjects keys

def listBucket (call : ListCall) : Handler ListReply := do
  let resp ← nss rounds (perform (Op.listInodes call.maxKeys call.keyPrefix call.startAfter))
  orFail id (listObjects resp)

end

/-! ## §3. Dispatch -/

inductive Endpoint
  | headObject
  | getObject (partNumber : Option Nat) (parseRange : RangeParser)
  | getObjectAttributes (attributes : List Bytes)
  | listObjects (opts : ListObjectsOpts)
  | listObjectsV2 (opts : ListObjectsV2Opts)
  | listParts (opts : ListPartsOpts)
  | listMultipartUploads
  | putObject (upload : Upload)
  | uploadPart (partNumber : Nat) (uploadId : Bytes) (upload : Upload)
  | copyObject (copySource : Bytes) (uploadOf : Bytes → Upload)
  | renameFolder (srcPath : Bytes)
  | renameObject (srcPath : Bytes)
  | createMultipartUpload (versionId : Uuid) (timestamp : Nat)
  | completeMultipartUpload (uploadId : Bytes) (req : CompleteRequest)
  | deleteObjects (keys : Except S3Error (List Bytes))
  | deleteObject
  | abortMultipartUpload (uploadId : Bytes)

structure RequestEnv where
  rounds : Nat
  rootDomain : Bytes
  K : Checksums
  parseUuid : Bytes → Option Uuid
  allowRead : Bytes → Bool

/-- What a request comes to: calls of its handler, or one rename, which is retried. -/
inductive Handling
  | calls (handler : Handler (Option Unit))
  | rename (srcPath dstPath : Bytes)

def Handling.of {α : Type} (handler : Handler α) : Handling :=
  .calls do
    let _ ← handler
    return some ()

def Handling.ofPanicking {α : Type} (handler : Handler (Option α)) : Handling :=
  .calls do
    let r ← handler
    return r.map fun _ => ()

/-- The handler of an endpoint, for a key. The source of a rename is its query option as it is. -/
def Endpoint.handle (env : RequestEnv) (key : Bytes) : Endpoint → Handling
  | .headObject => .of (Objects.headObject env.rounds key)
  | .getObject partNumber parseRange =>
    .ofPanicking (getObjectOrPart env.rounds key partNumber parseRange)
  | .getObjectAttributes attributes => .of (Objects.getObjectAttributes env.rounds key attributes)
  | .listObjects opts => .of (orFail id opts.call >>= listBucket env.rounds)
  | .listObjectsV2 opts => .of (orFail id opts.call >>= listBucket env.rounds)
  | .listParts opts => .ofPanicking (Objects.listParts env.rounds env.parseUuid key opts)
  | .listMultipartUploads => .of (return () : Handler Unit)
  | .putObject upload => .of (Objects.putObject env.rounds key upload)
  | .uploadPart partNumber uploadId upload =>
    .of (Objects.uploadPart env.rounds env.parseUuid key partNumber uploadId upload)
  | .copyObject copySource uploadOf =>
    .of (Objects.copyObject env.rounds env.allowRead key copySource uploadOf)
  | .renameFolder srcPath => .rename srcPath (if key.getLast? = some 47 then key else key ++ [47])
  | .renameObject srcPath =>
    if srcPath.getLast? = some 47 ∨ key.getLast? = some 47 then .calls (return none)
      else .rename srcPath key
  | .createMultipartUpload versionId timestamp =>
    .of (Objects.createMultipartUpload env.rounds key versionId timestamp)
  | .completeMultipartUpload uploadId req =>
    .of (Objects.completeMultipartUpload env.rounds env.K key uploadId req)
  | .deleteObjects keys =>
    .of (orFail id keys >>= fun keys => ExceptT.lift (Objects.deleteObjects env.rounds keys))
  | .deleteObject => .of (deleteObjectByKey env.rounds key)
  | .abortMultipartUpload uploadId =>
    .of (Objects.abortMultipartUpload env.rounds env.parseUuid key uploadId)

/-- A request for an object or the objects of a bucket. The path of a request target in origin form
    starts with a slash. -/
structure S3Request where
  headers : Headers
  path : Bytes
  path_slash : path.head? = some 47
  endpoint : Endpoint

def S3Request.handle (r : S3Request) (env : RequestEnv) : Handling :=
  match bucketAndKeyName env.rootDomain r.headers r.path with
  | .error e => .calls (throw e)
  | .ok (_, key) => r.endpoint.handle env key

end FractalBits.Objects
