/-
  Rpc.Header — the headers of RPC messages.

  Mirrors `MessageHeaderTrait` and `ProtobufMessageHeader` of `rpc_codecs/codec_common` and
  `MessageHeader` of `rpc_codecs/bss_codec`.
-/

import FractalBits.Lib.Fields

namespace FractalBits.Rpc

open Lib List

/-! ## §1. The trait -/

/-- The default implementation: the checksum stands first and covers the other bytes of a header of
    `size` bytes. -/
def verifyHeaderChecksumRaw (xxh3 : Bytes → UInt64) (size : Nat) (headerBytes : Bytes) : Bool :=
  if headerBytes.length < size then false
  else
    let storedChecksum := UInt64.ofNat (ofLeBytes (headerBytes.take 8))
    let bytesToHash := (headerBytes.take size).drop 8
    storedChecksum == xxh3 bytesToHash

/-- `MessageHeaderTrait`, with what its implementations have in common. -/
structure HeaderCodec (H : Type) where
  /-- `size_of::<Self>()` -/
  size : Nat
  encode : H → Bytes
  decode : Bytes → H
  getId : H → UInt32
  getSize : H → Nat
  setChecksum : H → H
  verifyHeaderChecksum : Bytes → Bool
  verifyBodyChecksum : H → Bytes → Bool
  size_pos : 0 < size
  encode_length : ∀ h, (encode h).length = size
  decode_encode : ∀ h, decode (encode h) = h
  getSize_setChecksum : ∀ h, getSize (setChecksum h) = getSize h
  verify_setChecksum : ∀ h, verifyHeaderChecksum (encode (setChecksum h)) = true

def HeaderCodec.getBodySize {H : Type} (codec : HeaderCodec H) (header : H) : Nat :=
    codec.getSize header - codec.size

theorem verifyHeaderChecksumRaw_of_checksum (xxh3 : Bytes → UInt64) {size : Nat} {rest : Bytes}
    (hsize : size = 8 + rest.length) (old : Nat) :
    verifyHeaderChecksumRaw xxh3 size (leBytes 8 (xxh3 ((leBytes 8 old ++ rest).drop 8)).toNat
      ++ rest) = true := by
  rw [hsize, drop_left' (leBytes_length _ _)]
  have hlength : (leBytes 8 (xxh3 rest).toNat ++ rest).length = 8 + rest.length := by
    rw [length_append, leBytes_length]
  have hstored : (leBytes 8 (xxh3 rest).toNat ++ rest).take 8 = leBytes 8 (xxh3 rest).toNat :=
    take_left' (leBytes_length _ _)
  have hhashed : (leBytes 8 (xxh3 rest).toNat ++ rest).drop 8 = rest :=
    drop_left' (leBytes_length _ _)
  unfold verifyHeaderChecksumRaw
  rw [if_neg (by omega), hstored, take_of_length_le (Nat.le_of_eq hlength), hhashed, u64_le]
  exact beq_self_eq_true _

/-! ## §2. The header of blob storage -/

structure MessageHeader where
  checksum : UInt64
  protoVersion : UInt8
  retryCount : UInt8
  volumeId : UInt16
  /-- the header and its body -/
  size : UInt32
  checksumBody : UInt64
  /-- the bits of an `i32` -/
  command : UInt32
  id : UInt32
  bucketId : Octets 16
  blobId : Octets 16
  version : UInt64
  blockNumber : UInt32
  bodyLen : UInt32
  traceId : UInt64
  /-- the bits of an `i32` -/
  errno : UInt32
  isNew : UInt8
  isDeleted : UInt8
  skipFenceToken : UInt8
  isRoot : UInt8
  fenceToken : UInt64
  reserve1 : Octets 24
  reserve2 : Octets 32
  deriving DecidableEq

namespace MessageHeader

variable (h : MessageHeader)

def restFields : List Bytes :=
  [[h.protoVersion], [h.retryCount], leBytes 2 h.volumeId.toNat, leBytes 4 h.size.toNat,
    leBytes 8 h.checksumBody.toNat, leBytes 4 h.command.toNat, leBytes 4 h.id.toNat, h.bucketId.val,
      h.blobId.val, leBytes 8 h.version.toNat,
    leBytes 4 h.blockNumber.toNat, leBytes 4 h.bodyLen.toNat, leBytes 8 h.traceId.toNat,
      leBytes 4 h.errno.toNat,
    [h.isNew], [h.isDeleted], [h.skipFenceToken], [h.isRoot], leBytes 8 h.fenceToken.toNat,
      h.reserve1.val,
    h.reserve2.val]

def widths : List Nat := [8, 1, 1, 2, 4, 8, 4, 4, 16, 16, 8, 4, 4, 8, 4, 1, 1, 1, 1, 8, 24, 32]

def encode : Bytes := leBytes 8 h.checksum.toNat ++ h.restFields.flatten

def decode (src : Bytes) : MessageHeader :=
  let field := fun i => (cutFields widths src).getD i []
  let number := fun i => ofLeBytes (field i)
  let byte := fun i => (field i).headD 0
  { checksum := UInt64.ofNat (number 0)
    protoVersion := byte 1
    retryCount := byte 2
    volumeId := UInt16.ofNat (number 3)
    size := UInt32.ofNat (number 4)
    checksumBody := UInt64.ofNat (number 5)
    command := UInt32.ofNat (number 6)
    id := UInt32.ofNat (number 7)
    bucketId := Octets.ofBytes 16 (field 8)
    blobId := Octets.ofBytes 16 (field 9)
    version := UInt64.ofNat (number 10)
    blockNumber := UInt32.ofNat (number 11)
    bodyLen := UInt32.ofNat (number 12)
    traceId := UInt64.ofNat (number 13)
    errno := UInt32.ofNat (number 14)
    isNew := byte 15
    isDeleted := byte 16
    skipFenceToken := byte 17
    isRoot := byte 18
    fenceToken := UInt64.ofNat (number 19)
    reserve1 := Octets.ofBytes 24 (field 20)
    reserve2 := Octets.ofBytes 32 (field 21) }

def setChecksum (xxh3 : Bytes → UInt64) (h : MessageHeader) : MessageHeader :=
  { h with checksum := xxh3 (h.encode.drop 8) }

def verifyBodyChecksum (xxh3 : Bytes → UInt64) (h : MessageHeader) (body : Bytes) : Bool :=
  h.checksumBody == xxh3 body

theorem length_restFields : h.restFields.flatten.length = 152 := by
  simp [restFields]

theorem length_encode : h.encode.length = 160 := by
  rw [encode, length_append, leBytes_length, length_restFields]

theorem decode_encode : decode h.encode = h := by
  have hcut : cutFields widths h.encode = leBytes 8 h.checksum.toNat :: h.restFields :=
    cutFields_of_widths (leBytes 8 h.checksum.toNat :: h.restFields) (by simp [widths, restFields])
  unfold decode
  rw [hcut]
  show MessageHeader.mk _ _ _ _ _ _ _ _ _ _ _ _ _ _ _ _ _ _ _ _ _ _ = h
  simp only [restFields, getD_cons_zero, getD_cons_succ, u16_le, u32_le, u64_le, headD_cons,
    Octets.ofBytes_val]

theorem verify_setChecksum (xxh3 : Bytes → UInt64) (h : MessageHeader) :
    verifyHeaderChecksumRaw xxh3 160 (h.setChecksum xxh3).encode = true :=
  verifyHeaderChecksumRaw_of_checksum xxh3 (by rw [length_restFields]) h.checksum.toNat

end MessageHeader

def bssHeader (xxh3 : Bytes → UInt64) : HeaderCodec MessageHeader where
  size := 160
  encode := MessageHeader.encode
  decode := MessageHeader.decode
  getId := MessageHeader.id
  getSize := fun h => h.size.toNat
  setChecksum := MessageHeader.setChecksum xxh3
  verifyHeaderChecksum := verifyHeaderChecksumRaw xxh3 160
  verifyBodyChecksum := MessageHeader.verifyBodyChecksum xxh3
  size_pos := by decide
  encode_length := MessageHeader.length_encode
  decode_encode := MessageHeader.decode_encode
  getSize_setChecksum := fun _ => rfl
  verify_setChecksum := MessageHeader.verify_setChecksum xxh3

/-! ## §3. The header of the protobuf protocols -/

structure ProtobufMessageHeader where
  checksum : UInt64
  protoVersion : UInt8
  retryCount : UInt8
  reserved0 : UInt16
  size : UInt32
  checksumBody : UInt64
  id : UInt32
  /-- the bits of an `i32` -/
  command : UInt32
  traceId : UInt64
  reserved1 : UInt64
  deriving DecidableEq

def emptyBodyChecksum : UInt64 := 0x2d06800538d394c2

namespace ProtobufMessageHeader

variable (h : ProtobufMessageHeader)

def restFields : List Bytes :=
  [[h.protoVersion], [h.retryCount], leBytes 2 h.reserved0.toNat, leBytes 4 h.size.toNat,
    leBytes 8 h.checksumBody.toNat, leBytes 4 h.id.toNat, leBytes 4 h.command.toNat,
      leBytes 8 h.traceId.toNat, leBytes 8 h.reserved1.toNat]

def widths : List Nat := [8, 1, 1, 2, 4, 8, 4, 4, 8, 8]

def encode : Bytes := leBytes 8 h.checksum.toNat ++ h.restFields.flatten

def decode (src : Bytes) : ProtobufMessageHeader :=
  let field := fun i => (cutFields widths src).getD i []
  let number := fun i => ofLeBytes (field i)
  let byte := fun i => (field i).headD 0
  { checksum := UInt64.ofNat (number 0)
    protoVersion := byte 1
    retryCount := byte 2
    reserved0 := UInt16.ofNat (number 3)
    size := UInt32.ofNat (number 4)
    checksumBody := UInt64.ofNat (number 5)
    id := UInt32.ofNat (number 6)
    command := UInt32.ofNat (number 7)
    traceId := UInt64.ofNat (number 8)
    reserved1 := UInt64.ofNat (number 9) }

def setChecksum (xxh3 : Bytes → UInt64) (h : ProtobufMessageHeader) : ProtobufMessageHeader :=
  { h with checksum := xxh3 (h.encode.drop 8) }

def verifyBodyChecksum (xxh3 : Bytes → UInt64) (h : ProtobufMessageHeader) (body : Bytes) : Bool :=
  let calculated := if body.isEmpty then emptyBodyChecksum else xxh3 body
  h.checksumBody == calculated

theorem length_restFields : h.restFields.flatten.length = 40 := by
  simp [restFields]

theorem length_encode : h.encode.length = 48 := by
  rw [encode, length_append, leBytes_length, length_restFields]

theorem decode_encode : decode h.encode = h := by
  have hcut : cutFields widths h.encode = leBytes 8 h.checksum.toNat :: h.restFields :=
    cutFields_of_widths (leBytes 8 h.checksum.toNat :: h.restFields) (by simp [widths, restFields])
  unfold decode
  rw [hcut]
  show ProtobufMessageHeader.mk _ _ _ _ _ _ _ _ _ _ = h
  simp only [restFields, getD_cons_zero, getD_cons_succ, u16_le, u32_le, u64_le, headD_cons]

theorem verify_setChecksum (xxh3 : Bytes → UInt64) (h : ProtobufMessageHeader) :
    verifyHeaderChecksumRaw xxh3 48 (h.setChecksum xxh3).encode = true :=
  verifyHeaderChecksumRaw_of_checksum xxh3 (by rw [length_restFields]) h.checksum.toNat

end ProtobufMessageHeader

def protobufHeader (xxh3 : Bytes → UInt64) : HeaderCodec ProtobufMessageHeader where
  size := 48
  encode := ProtobufMessageHeader.encode
  decode := ProtobufMessageHeader.decode
  getId := ProtobufMessageHeader.id
  getSize := fun h => h.size.toNat
  setChecksum := ProtobufMessageHeader.setChecksum xxh3
  verifyHeaderChecksum := verifyHeaderChecksumRaw xxh3 48
  verifyBodyChecksum := ProtobufMessageHeader.verifyBodyChecksum xxh3
  size_pos := by decide
  encode_length := ProtobufMessageHeader.length_encode
  decode_encode := ProtobufMessageHeader.decode_encode
  getSize_setChecksum := fun _ => rfl
  verify_setChecksum := ProtobufMessageHeader.verify_setChecksum xxh3

end FractalBits.Rpc
