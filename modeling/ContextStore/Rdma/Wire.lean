import ContextStore.Codec.Reader
import Mathlib.Data.UInt

/-!
# RDMA の制御 protocol

`client-rs/src/rdma.rs` の組み立てと読み取り、`rdma/wire.rs` の送受信。
-/

namespace ContextStore.Wire

open Codec

/-! ## tag -/

def msgHello : UInt8 := 1
def msgGetReq : UInt8 := 2
def msgGetResp : UInt8 := 3
def msgPutReq : UInt8 := 4
def msgPutReady : UInt8 := 5
def msgPutResp : UInt8 := 7
def msgGetDescriptorReq : UInt8 := 8
def msgPutIfAbsentReq : UInt8 := 9
def msgPutWithOptionsReq : UInt8 := 10
def msgPutIfAbsentWithOptionsReq : UInt8 := 11
def msgGetDescriptorStripesReq : UInt8 := 12
def msgPutStripesReq : UInt8 := 13
def msgPutStripesResp : UInt8 := 14
def msgGetDescriptorStripesSgeReq : UInt8 := 15
def msgBye : UInt8 := 99

def putResultFailed : UInt8 := 0
def putResultStored : UInt8 := 1

/-- 送受信の失敗。 -/
inductive WireError where
  | eof (len : ℕ)
  | utf8 (field : String)
  | tooLong (field : String)
  | tooMany (what : String) (count : ℕ)
  | emptySegmentList
  | noSegment
  | noStripes
  | missingKey
  | unexpectedTag (tag : UInt8)
  | wrongTag (wanted tag : UInt8)
deriving DecidableEq

abbrev Recv (α : Type) := Reader WireError α

/-! ## 部品 -/

/-- `read_exact`。 -/
def readExact (len : ℕ) : Recv (List UInt8) := take (.eof len) len

/-- `u16::to_le_bytes`。 -/
def u16le (x : UInt16) : List UInt8 := leBytes 2 x.toNat

/-- `u32::to_le_bytes`。 -/
def u32le (x : UInt32) : List UInt8 := leBytes 4 x.toNat

/-- `u64::to_le_bytes`。 -/
def u64le (x : UInt64) : List UInt8 := leBytes 8 x.toNat

/-- `i64::to_le_bytes`。 -/
def i64le (x : Int64) : List UInt8 := u64le x.toUInt64

def readU8 : Recv UInt8 := do
  let b ← readExact 1
  return b.headD 0

def readU16 : Recv ℕ := do
  let b ← readExact 2
  return leValue b

def readU32 : Recv UInt32 := do
  let b ← readExact 4
  return UInt32.ofNat (leValue b)

def readU64 : Recv UInt64 := do
  let b ← readExact 8
  return UInt64.ofNat (leValue b)

def readI64 : Recv Int64 := do
  let x ← readU64
  return x.toInt64

/-- `String::from_utf8`。 -/
def fromUtf8 (field : String) (bytes : List UInt8) : Except WireError String :=
  match String.fromUTF8? ⟨bytes.toArray⟩ with
  | some s => .ok s
  | none => .error (.utf8 field)

/-- `as_bytes`。 -/
def asBytes (s : String) : List UInt8 := s.toUTF8.data.toList

def readStringU16 (field : String) : Recv String := do
  let len ← readU16
  let bytes ← readExact len
  fromUtf8 field bytes

def pushString (value : String) (field : String) : Except WireError (List UInt8) :=
  let bytes := asBytes value
  if bytes.length ≤ 65535 then .ok (u16le (UInt16.ofNat bytes.length) ++ bytes)
  else .error (.tooLong field)

def pushCount (what : String) (count : ℕ) : Except WireError (List UInt8) :=
  if count ≤ 65535 then .ok (u16le (UInt16.ofNat count)) else .error (.tooMany what count)

/-! ## 要求の中身 -/

structure ObjectDescriptor where
  key : Option (String × String)
  objectHandle : String
  objectGeneration : UInt64
  contentEtag : String
  layoutVersion : UInt64
  size : UInt64
  isStriped : Bool
  stripeCount : UInt32
  chunkSize : UInt64

abbrev Segment := UInt64 × UInt32 × UInt64

structure GetReqMsg where
  key : String
  dstAddr : UInt64
  dstRkey : UInt32
  maxSize : UInt64

/-- `DescriptorGetReqMsg`。 -/
structure DescriptorGetReqMsg where
  key : String
  objectHandle : String
  objectGeneration : UInt64
  contentEtag : String
  layoutVersion : UInt64
  size : UInt64
  isStriped : Bool
  stripeCount : UInt32
  chunkSize : UInt64
  dstAddr : UInt64
  dstRkey : UInt32
  maxSize : UInt64
  stripes : List UInt32
  dstSegments : List Segment

/-- `PutReqMsg`。 -/
structure PutReqMsg where
  key : String
  size : UInt64
  ttlSeconds : Int64

/-- `PutStripesReqMsg`。 -/
structure PutStripesReqMsg where
  key : String
  objectHandle : String
  objectGeneration : UInt64
  layoutVersion : UInt64
  chunkSize : UInt64
  totalSize : UInt64
  stripes : List (UInt32 × UInt64)

inductive RequestMsg where
  | bye
  | put (ifNotExists : Bool) (msg : PutReqMsg)
  | putStripes (msg : PutStripesReqMsg)
  | getDescriptor (msg : DescriptorGetReqMsg)
  | get (msg : GetReqMsg)

/-- `canonical_key`。 -/
def canonicalKey (ns objectKey : String) : String :=
  toString ns.utf8ByteSize ++ ":" ++ ns ++ objectKey

/-- `build_get_request`。 -/
def buildGetRequest (key : String) (addr : UInt64) (rkey : UInt32) (maxSize : UInt64) :
    Except WireError (List UInt8) := do
  let key ← pushString key "key"
  return [msgGetReq] ++ key ++ u64le addr ++ u32le rkey ++ u64le maxSize

/-- `build_descriptor_get_request`。 -/
def buildDescriptorGetRequest (key : String) (d : ObjectDescriptor) (addr : UInt64)
    (rkey : UInt32) (maxSize : UInt64) : Except WireError (List UInt8) := do
  let key ← pushString key "key"
  let objectHandle ← pushString d.objectHandle "object_handle"
  let contentEtag ← pushString d.contentEtag "content_etag"
  return [msgGetDescriptorReq] ++ key ++ objectHandle ++ u64le d.objectGeneration ++ contentEtag ++
    u64le d.layoutVersion ++ u64le d.size ++ [d.isStriped.toUInt8] ++ u32le d.stripeCount ++
    u64le d.chunkSize ++ u64le addr ++ u32le rkey ++ u64le maxSize

def withOptions (message : UInt8) : Bool :=
  message == msgPutWithOptionsReq || message == msgPutIfAbsentWithOptionsReq

/-- `build_put_request`。 -/
def buildPutRequest (message : UInt8) (key : String) (size : UInt64) (ttlSeconds : Int64) :
    Except WireError (List UInt8) := do
  let key ← pushString key "key"
  return [message] ++ key ++ u64le size ++ (if withOptions message then i64le ttlSeconds else [])

def ObjectDescriptor.canonical (d : ObjectDescriptor) : Except WireError String :=
  match d.key with
  | none => .error .missingKey
  | some (ns, objectKey) => .ok (canonicalKey ns objectKey)

def getDescriptorInto (d : ObjectDescriptor) (addr : UInt64) (rkey : UInt32) (available : UInt64) :
    Except WireError (List UInt8) := do
  let key ← d.canonical
  buildDescriptorGetRequest key d addr rkey available

def getDescriptorStripesInto (d : ObjectDescriptor) (stripes : List UInt32) (addr : UInt64)
    (rkey : UInt32) (available : UInt64) : Except WireError (List UInt8) :=
  if stripes.isEmpty then getDescriptorInto d addr rkey available
  else do
    let request ← getDescriptorInto d addr rkey available
    let request := request.set 0 msgGetDescriptorStripesReq
    let count ← pushCount "stripes" stripes.length
    return request ++ count ++ stripes.flatMap u32le

def segmentBytes (s : Segment) : List UInt8 := u64le s.1 ++ u32le s.2.1 ++ u64le s.2.2

def getDescriptorStripesSge (d : ObjectDescriptor) (stripes : List UInt32) :
    List Segment → Except WireError (List UInt8)
  | [] => .error .noSegment
  | s :: rest => do
    let segments := s :: rest
    let total := (segments.map fun s => s.2.2).sum
    let request ← getDescriptorInto d s.1 s.2.1 total
    let request := request.set 0 msgGetDescriptorStripesSgeReq
    let count ← pushCount "stripes" stripes.length
    let segCount ← pushCount "segments" segments.length
    return request ++ count ++ stripes.flatMap u32le ++ segCount ++ segments.flatMap segmentBytes

/-- `put_key_from` の選ぶ tag。 -/
def putMessage (ifNotExists : Bool) (ttlSeconds : Int64) : UInt8 :=
  match ifNotExists, ttlSeconds != 0 with
  | true, true => msgPutIfAbsentWithOptionsReq
  | true, false => msgPutIfAbsentReq
  | false, true => msgPutWithOptionsReq
  | false, false => msgPutReq

def putKeyFrom (key : String) (size : UInt64) (ifNotExists : Bool) (ttlSeconds : Int64) :
    Except WireError (List UInt8) :=
  buildPutRequest (putMessage ifNotExists ttlSeconds) key size ttlSeconds

def stripeLenBytes (s : UInt32 × UInt64) : List UInt8 := u32le s.1 ++ u64le s.2

def putStripesFrom (d : ObjectDescriptor) (stripes : List (UInt32 × UInt64)) :
    Except WireError (List UInt8) :=
  if stripes.isEmpty then .error .noStripes
  else do
    let key ← d.canonical
    let key ← pushString key "key"
    let objectHandle ← pushString d.objectHandle "object_handle"
    let count ← pushCount "stripes" stripes.length
    return [msgPutStripesReq] ++ key ++ objectHandle ++ u64le d.objectGeneration ++
      u64le d.layoutVersion ++ u64le d.chunkSize ++ u64le d.size ++ count ++
      stripes.flatMap stripeLenBytes

/-- `u8` の真偽。 -/
def readBool : Recv Bool := do
  let b ← readU8
  return b != 0

def readList {α : Type} (d : Recv α) : Recv (List α) := do
  let count ← readU16
  readMany d count

def readSegment : Recv Segment := do
  let addr ← readU64
  let rkey ← readU32
  let len ← readU64
  return (addr, rkey, len)

def readSegments : Recv (List Segment) := do
  let count ← readU16
  if count = 0 then throw .emptySegmentList
  readMany readSegment count

def readWhen {α : Type} (present : Bool) (d : Recv α) (absent : α) : Recv α :=
  if present then d else pure absent

def recvDescriptorGetReqBodyExt (withStripes withSegments : Bool) : Recv DescriptorGetReqMsg := do
  let key ← readStringU16 "key"
  let objectHandle ← readStringU16 "object_handle"
  let objectGeneration ← readU64
  let contentEtag ← readStringU16 "content_etag"
  let layoutVersion ← readU64
  let size ← readU64
  let isStriped ← readBool
  let stripeCount ← readU32
  let chunkSize ← readU64
  let dstAddr ← readU64
  let dstRkey ← readU32
  let maxSize ← readU64
  let stripes ← readWhen withStripes (readList readU32) []
  let dstSegments ← readWhen withSegments readSegments []
  return { key, objectHandle, objectGeneration, contentEtag, layoutVersion, size, isStriped,
           stripeCount, chunkSize, dstAddr, dstRkey, maxSize, stripes, dstSegments }

/-- `recv_put_req_body`。 -/
def recvPutReqBody (withOptions : Bool) : Recv PutReqMsg := do
  let key ← readStringU16 "key"
  let size ← readU64
  let ttlSeconds ← readWhen withOptions readI64 0
  return { key, size, ttlSeconds }

def readStripeLen : Recv (UInt32 × UInt64) := do
  let idx ← readU32
  let len ← readU64
  return (idx, len)

/-- `recv_put_stripes_req_body`。 -/
def recvPutStripesReqBody : Recv PutStripesReqMsg := do
  let key ← readStringU16 "key"
  let objectHandle ← readStringU16 "object_handle"
  let objectGeneration ← readU64
  let layoutVersion ← readU64
  let chunkSize ← readU64
  let totalSize ← readU64
  let stripes ← readList readStripeLen
  return { key, objectHandle, objectGeneration, layoutVersion, chunkSize, totalSize, stripes }

def recvGetReqBody : Recv GetReqMsg := do
  let key ← readStringU16 "key"
  let dstAddr ← readU64
  let dstRkey ← readU32
  let maxSize ← readU64
  return { key, dstAddr, dstRkey, maxSize }

def recvRequest : Recv RequestMsg := do
  let tag ← readU8
  if tag == msgBye then return .bye
  else if tag == msgPutReq || tag == msgPutIfAbsentReq || tag == msgPutWithOptionsReq ||
      tag == msgPutIfAbsentWithOptionsReq then
    let ifNotExists := tag == msgPutIfAbsentReq || tag == msgPutIfAbsentWithOptionsReq
    let options := tag == msgPutWithOptionsReq || tag == msgPutIfAbsentWithOptionsReq
    return .put ifNotExists (← recvPutReqBody options)
  else if tag == msgPutStripesReq then return .putStripes (← recvPutStripesReqBody)
  else if tag == msgGetDescriptorReq || tag == msgGetDescriptorStripesReq ||
      tag == msgGetDescriptorStripesSgeReq then
    return .getDescriptor (← recvDescriptorGetReqBodyExt (tag != msgGetDescriptorReq)
      (tag == msgGetDescriptorStripesSgeReq))
  else if tag != msgGetReq then throw (.unexpectedTag tag)
  else return .get (← recvGetReqBody)

/-! ## 要求 -/

inductive Request where
  | get (key : String) (addr : UInt64) (rkey : UInt32) (available : UInt64)
  | descriptor (d : ObjectDescriptor) (addr : UInt64) (rkey : UInt32) (available : UInt64)
  | stripeSubset (d : ObjectDescriptor) (idxs : List UInt32) (addr : UInt64) (rkey : UInt32)
      (available : UInt64)
  | scatter (d : ObjectDescriptor) (stripes : List UInt32) (segments : List Segment)
  | put (key : String) (size : UInt64) (ifNotExists : Bool) (ttlSeconds : Int64)
  | putStripes (d : ObjectDescriptor) (stripes : List (UInt32 × UInt64))

def Request.build : Request → Except WireError (List UInt8)
  | .get key addr rkey available => buildGetRequest key addr rkey available
  | .descriptor d addr rkey available => getDescriptorInto d addr rkey available
  | .stripeSubset d idxs addr rkey available =>
    getDescriptorStripesInto d idxs addr rkey available
  | .scatter d stripes segments => getDescriptorStripesSge d stripes segments
  | .put key size ifNotExists ttlSeconds => putKeyFrom key size ifNotExists ttlSeconds
  | .putStripes d stripes => putStripesFrom d stripes

def ObjectDescriptor.getMsg (d : ObjectDescriptor) (key : String) (dstAddr : UInt64)
    (dstRkey : UInt32) (maxSize : UInt64) (stripes : List UInt32) (dstSegments : List Segment) :
    DescriptorGetReqMsg where
  key := key
  objectHandle := d.objectHandle
  objectGeneration := d.objectGeneration
  contentEtag := d.contentEtag
  layoutVersion := d.layoutVersion
  size := d.size
  isStriped := d.isStriped
  stripeCount := d.stripeCount
  chunkSize := d.chunkSize
  dstAddr := dstAddr
  dstRkey := dstRkey
  maxSize := maxSize
  stripes := stripes
  dstSegments := dstSegments

def ObjectDescriptor.putMsg (d : ObjectDescriptor) (key : String)
    (stripes : List (UInt32 × UInt64)) : PutStripesReqMsg where
  key := key
  objectHandle := d.objectHandle
  objectGeneration := d.objectGeneration
  layoutVersion := d.layoutVersion
  chunkSize := d.chunkSize
  totalSize := d.size
  stripes := stripes

def ObjectDescriptor.key? (d : ObjectDescriptor) : Option String :=
  d.key.map fun (ns, objectKey) => canonicalKey ns objectKey

def Request.message : Request → Option RequestMsg
  | .get key addr rkey available => some (.get ⟨key, addr, rkey, available⟩)
  | .descriptor d addr rkey available =>
    d.key?.map fun key => .getDescriptor (d.getMsg key addr rkey available [] [])
  | .stripeSubset d idxs addr rkey available =>
    d.key?.map fun key => .getDescriptor (d.getMsg key addr rkey available idxs [])
  | .scatter d stripes segments => do
    let key ← d.key?
    let first ← segments.head?
    return .getDescriptor
      (d.getMsg key first.1 first.2.1 (segments.map fun s => s.2.2).sum stripes segments)
  | .put key size ifNotExists ttlSeconds => some (.put ifNotExists ⟨key, size, ttlSeconds⟩)
  | .putStripes d stripes => d.key?.map fun key => .putStripes (d.putMsg key stripes)

/-! ## 部品の往復 -/

theorem reads_readExact (bs : List UInt8) : Reads (readExact bs.length) bs bs :=
  Reads.take _ rfl

variable {bs : List UInt8}

theorem Reads.last {α β : Type} {d : Recv α} {f : α → β} {a : α} (hd : Reads d bs a) :
    Reads (d >>= fun x => pure (f x)) bs (f a) := by
  have := hd.bind (f := fun x => pure (f x)) (Reads.pure (f a))
  rwa [List.append_nil] at this

theorem reads_readU8 (b : UInt8) : Reads readU8 [b] b :=
  Reads.last (f := fun bs : List UInt8 => bs.headD 0) (reads_readExact [b])

theorem reads_readBool (b : Bool) : Reads readBool [b.toUInt8] b := by
  have := Reads.last (f := fun x : UInt8 => x != 0) (reads_readU8 b.toUInt8)
  cases b <;> exact this

theorem reads_readU16 {n : ℕ} (h : n ≤ 65535) : Reads readU16 (u16le (UInt16.ofNat n)) n := by
  have hn : (UInt16.ofNat n).toNat = n :=
    UInt16.toNat_ofNat_of_lt (show n < 65536 by omega)
  have hlen : (u16le (UInt16.ofNat n)).length = 2 := length_leBytes 2 _
  have := Reads.last (f := leValue) (Reads.take (WireError.eof 2) hlen)
  have hval : leValue (u16le (UInt16.ofNat n)) = n := by
    rw [u16le, leValue_leBytes (by rw [hn]; omega), hn]
  rwa [hval] at this

theorem reads_readU32 (x : UInt32) : Reads readU32 (u32le x) x := by
  have hlen : (u32le x).length = 4 := length_leBytes 4 _
  have := Reads.last (f := fun bs => UInt32.ofNat (leValue bs)) (Reads.take (WireError.eof 4) hlen)
  rwa [u32le, leValue_leBytes x.toNat_lt, UInt32.ofNat_toNat] at this

theorem reads_readU64 (x : UInt64) : Reads readU64 (u64le x) x := by
  have hlen : (u64le x).length = 8 := length_leBytes 8 _
  have := Reads.last (f := fun bs => UInt64.ofNat (leValue bs)) (Reads.take (WireError.eof 8) hlen)
  rwa [u64le, leValue_leBytes x.toNat_lt, UInt64.ofNat_toNat] at this

theorem reads_readI64 (x : Int64) : Reads readI64 (i64le x) x := by
  have := Reads.last (f := UInt64.toInt64) (reads_readU64 x.toUInt64)
  rwa [Int64.toInt64_toUInt64] at this

theorem fromUtf8_asBytes (field s : String) : fromUtf8 field (asBytes s) = .ok s := by
  have hbytes : (⟨(asBytes s).toArray⟩ : ByteArray) = s.toUTF8 := by
    rw [asBytes, Array.toArray_toList]
  have hvalid : s.toUTF8.IsValidUTF8 := s.isValidUTF8
  unfold fromUtf8
  rw [hbytes, String.fromUTF8?, dif_pos hvalid]
  rfl

theorem reads_pushString {value field field' : String} (h : pushString value field = .ok bs) :
    Reads (readStringU16 field') bs value := by
  unfold pushString at h
  dsimp only at h
  split at h
  next hle =>
    cases h
    refine (reads_readU16 hle).bind ?_
    have hlast : Reads (fromUtf8 field' (asBytes value) : Recv String) [] value := by
      rw [fromUtf8_asBytes]
      exact Reads.pure value
    have := (reads_readExact (asBytes value)).bind
      (f := fun bytes => (fromUtf8 field' bytes : Recv String)) hlast
    rwa [List.append_nil] at this
  next => cases h

variable {what : String}

theorem reads_pushCount {α : Type} {d : Recv α} {enc : α → List UInt8} {as : List α}
    (h : pushCount what as.length = .ok bs) (hd : ∀ a, Reads d (enc a) a) :
    Reads (readList d) (bs ++ as.flatMap enc) as := by
  unfold pushCount at h
  split at h
  next hle =>
    cases h
    exact (reads_readU16 hle).bind (Reads.readMany fun a _ => hd a)
  next => cases h

theorem reads_readSegment (s : Segment) : Reads readSegment (segmentBytes s) s := by
  obtain ⟨addr, rkey, len⟩ := s
  unfold segmentBytes
  rw [List.append_assoc]
  exact (reads_readU64 addr).bind ((reads_readU32 rkey).bind (Reads.last (reads_readU64 len)))

theorem reads_readSegments {segments : List Segment} (h : pushCount what segments.length = .ok bs)
    (hne : segments ≠ []) :
    Reads readSegments (bs ++ segments.flatMap segmentBytes) segments := by
  unfold pushCount at h
  split at h
  next hle =>
    cases h
    refine (reads_readU16 hle).bind ?_
    simp_all [Reads.readMany, reads_readSegment]
  next => cases h

theorem reads_readStripeLen (s : UInt32 × UInt64) : Reads readStripeLen (stripeLenBytes s) s := by
  obtain ⟨idx, len⟩ := s
  exact (reads_readU32 idx).bind (Reads.last (reads_readU64 len))

variable {d : ObjectDescriptor} {key : String}

theorem key?_of_canonical (h : d.canonical = .ok key) :
    d.key? = some key := by
  unfold ObjectDescriptor.canonical at h
  unfold ObjectDescriptor.key?
  grind

variable {available addr : UInt64} {rkey : UInt32}

theorem reads_descriptorBody {request : List UInt8}
    (h : getDescriptorInto d addr rkey available = .ok request) :
    ∃ key body, d.key? = some key ∧ request = msgGetDescriptorReq :: body ∧
      ∀ {w g : Bool} {cs ss : List UInt8} {stripes : List UInt32} {segments : List Segment},
        Reads (readWhen w (readList readU32) []) cs stripes →
        Reads (readWhen g readSegments []) ss segments →
        Reads (recvDescriptorGetReqBodyExt w g) (body ++ (cs ++ ss))
          (d.getMsg key addr rkey available stripes segments) := by
  obtain ⟨key, hkey, h⟩ := ok_of_bind h
  obtain ⟨k, hk, h⟩ := ok_of_bind h
  obtain ⟨o, ho, h⟩ := ok_of_bind h
  obtain ⟨e, he, h⟩ := ok_of_bind h
  cases h
  refine ⟨key, k ++ o ++ u64le d.objectGeneration ++ e ++ u64le d.layoutVersion ++ u64le d.size ++
    [d.isStriped.toUInt8] ++ u32le d.stripeCount ++ u64le d.chunkSize ++ u64le addr ++ u32le rkey ++
    u64le available, key?_of_canonical hkey, rfl, fun hs hg => ?_⟩
  simp only [List.append_assoc]
  refine (reads_pushString hk).bind <| (reads_pushString ho).bind <|
    (reads_readU64 d.objectGeneration).bind <| (reads_pushString he).bind <|
    (reads_readU64 d.layoutVersion).bind <| (reads_readU64 d.size).bind <|
    (reads_readBool d.isStriped).bind <| (reads_readU32 d.stripeCount).bind <|
    (reads_readU64 d.chunkSize).bind <| (reads_readU64 addr).bind <|
    (reads_readU32 rkey).bind <| (reads_readU64 available).bind <| hs.bind ?_
  exact Reads.last hg

theorem reads_recvRequest_getDescriptor {tag : UInt8} {body : List UInt8}
    {msg : DescriptorGetReqMsg}
    (htag : tag = msgGetDescriptorReq ∨ tag = msgGetDescriptorStripesReq ∨
      tag = msgGetDescriptorStripesSgeReq)
    (h : Reads (recvDescriptorGetReqBodyExt (tag != msgGetDescriptorReq)
      (tag == msgGetDescriptorStripesSgeReq)) body msg) :
    Reads recvRequest (tag :: body) (.getDescriptor msg) := by
  refine (reads_readU8 tag).bind ?_
  rcases htag with rfl | rfl | rfl <;> exact Reads.last h

variable {frame : List UInt8}

theorem reads_descriptor (h : getDescriptorInto d addr rkey available = .ok frame) :
    ∃ key, d.key? = some key ∧ Reads recvRequest frame
      (.getDescriptor (d.getMsg key addr rkey available [] [])) := by
  obtain ⟨key, body, hkey, rfl, hbody⟩ := reads_descriptorBody h
  refine ⟨key, hkey, reads_recvRequest_getDescriptor (.inl rfl) ?_⟩
  have := hbody (w := false) (g := false) (Reads.pure []) (Reads.pure [])
  rwa [List.append_nil, List.append_nil] at this

theorem reads_stripeSubset {idxs : List UInt32}
    (h : getDescriptorStripesInto d idxs addr rkey available = .ok frame) :
    ∃ key, d.key? = some key ∧ Reads recvRequest frame
      (.getDescriptor (d.getMsg key addr rkey available idxs [])) := by
  unfold getDescriptorStripesInto at h
  split at h
  next hnil =>
    rw [List.isEmpty_iff.mp hnil]
    exact reads_descriptor h
  next =>
    obtain ⟨request, hreq, h⟩ := ok_of_bind h
    obtain ⟨count, hcount, h⟩ := ok_of_bind h
    obtain ⟨key, body, hkey, rfl, hbody⟩ := reads_descriptorBody hreq
    cases h
    refine ⟨key, hkey, ?_⟩
    have := hbody (w := true) (g := false) (reads_pushCount hcount reads_readU32) (Reads.pure [])
    rw [List.append_nil, ← List.append_assoc] at this
    exact reads_recvRequest_getDescriptor (.inr (.inl rfl)) this

theorem reads_scatter {stripes : List UInt32} {s : Segment} {rest : List Segment}
    (h : getDescriptorStripesSge d stripes (s :: rest) = .ok frame) :
    ∃ key, d.key? = some key ∧ Reads recvRequest frame
      (.getDescriptor (d.getMsg key s.1 s.2.1 ((s :: rest).map fun s => s.2.2).sum stripes
        (s :: rest))) := by
  obtain ⟨request, hreq, h⟩ := ok_of_bind h
  obtain ⟨count, hcount, h⟩ := ok_of_bind h
  obtain ⟨segCount, hseg, h⟩ := ok_of_bind h
  obtain ⟨key, body, hkey, rfl, hbody⟩ := reads_descriptorBody hreq
  cases h
  refine ⟨key, hkey, ?_⟩
  have := hbody (w := true) (g := true) (reads_pushCount hcount reads_readU32)
    (reads_readSegments hseg (List.cons_ne_nil s rest))
  simp only [← List.append_assoc] at this
  exact reads_recvRequest_getDescriptor (.inr (.inr rfl)) this

theorem reads_get (h : buildGetRequest key addr rkey available = .ok frame) :
    Reads recvRequest frame (.get ⟨key, addr, rkey, available⟩) := by
  obtain ⟨k, hk, h⟩ := ok_of_bind h
  cases h
  simp only [List.append_assoc]
  refine (reads_readU8 msgGetReq).bind ?_
  refine Reads.last (d := recvGetReqBody) ?_
  exact (reads_pushString hk).bind <| (reads_readU64 addr).bind <|
    (reads_readU32 rkey).bind <| Reads.last (reads_readU64 available)

theorem reads_put {size : UInt64} {ifNotExists : Bool} {ttlSeconds : Int64}
    (h : putKeyFrom key size ifNotExists ttlSeconds = .ok frame) :
    Reads recvRequest frame (.put ifNotExists ⟨key, size, ttlSeconds⟩) := by
  obtain ⟨k, hk, h⟩ := ok_of_bind h
  cases h
  simp only [List.append_assoc]
  refine (reads_readU8 _).bind ?_
  have hlegacy : ∀ {t : Int64}, (t != 0) = false → t = 0 := fun h => by simpa using h
  unfold putMessage
  cases ifNotExists <;> cases httl : ttlSeconds != 0
  case false.false =>
    rw [hlegacy httl]
    exact Reads.last (d := recvPutReqBody false) ((reads_pushString hk).bind
      ((reads_readU64 size).bind (Reads.pure _)))
  case false.true =>
    exact Reads.last (d := recvPutReqBody true) ((reads_pushString hk).bind
      ((reads_readU64 size).bind (Reads.last (reads_readI64 ttlSeconds))))
  case true.false =>
    rw [hlegacy httl]
    exact Reads.last (d := recvPutReqBody false) ((reads_pushString hk).bind
      ((reads_readU64 size).bind (Reads.pure _)))
  case true.true =>
    exact Reads.last (d := recvPutReqBody true) ((reads_pushString hk).bind
      ((reads_readU64 size).bind (Reads.last (reads_readI64 ttlSeconds))))

theorem reads_putStripes {stripes : List (UInt32 × UInt64)}
    (h : putStripesFrom d stripes = .ok frame) :
    ∃ key, d.key? = some key ∧
      Reads recvRequest frame (.putStripes (d.putMsg key stripes)) := by
  unfold putStripesFrom at h
  split at h
  next => cases h
  next =>
    obtain ⟨key, hkey, h⟩ := ok_of_bind h
    obtain ⟨k, hk, h⟩ := ok_of_bind h
    obtain ⟨o, ho, h⟩ := ok_of_bind h
    obtain ⟨count, hcount, h⟩ := ok_of_bind h
    cases h
    refine ⟨key, key?_of_canonical hkey, ?_⟩
    simp only [List.append_assoc]
    refine (reads_readU8 msgPutStripesReq).bind ?_
    refine Reads.last (d := recvPutStripesReqBody) ?_
    exact (reads_pushString hk).bind <| (reads_pushString ho).bind <|
      (reads_readU64 d.objectGeneration).bind <| (reads_readU64 d.layoutVersion).bind <|
      (reads_readU64 d.chunkSize).bind <| (reads_readU64 d.size).bind <|
      Reads.last (reads_pushCount hcount reads_readStripeLen)

theorem recvRequest_build {r : Request} (h : r.build = .ok frame) :
    ∃ m, r.message = some m ∧ Reads recvRequest frame m := by
  cases r with
  | get key addr rkey available => exact ⟨_, rfl, reads_get h⟩
  | descriptor d addr rkey available =>
    obtain ⟨key, hkey, hreads⟩ := reads_descriptor h
    exact ⟨_, by rw [Request.message, hkey]; rfl, hreads⟩
  | stripeSubset d idxs addr rkey available =>
    obtain ⟨key, hkey, hreads⟩ := reads_stripeSubset h
    exact ⟨_, by rw [Request.message, hkey]; rfl, hreads⟩
  | scatter d stripes segments =>
    cases segments with
    | nil => cases h
    | cons s rest =>
      obtain ⟨key, hkey, hreads⟩ := reads_scatter h
      exact ⟨_, by rw [Request.message, hkey]; rfl, hreads⟩
  | put key size ifNotExists ttlSeconds => exact ⟨_, rfl, reads_put h⟩
  | putStripes d stripes =>
    obtain ⟨key, hkey, hreads⟩ := reads_putStripes h
    exact ⟨_, by rw [Request.message, hkey]; rfl, hreads⟩

def Short (s : String) : Prop := (asBytes s).length ≤ 65535

def Request.Accepted : Request → Prop
  | .get key _ _ _ => Short key
  | .descriptor d _ _ _ =>
    (∃ key, d.key? = some key ∧ Short key) ∧ Short d.objectHandle ∧ Short d.contentEtag
  | .stripeSubset d idxs _ _ _ =>
    ((∃ key, d.key? = some key ∧ Short key) ∧ Short d.objectHandle ∧ Short d.contentEtag) ∧
      idxs.length ≤ 65535
  | .scatter d stripes segments =>
    ((∃ key, d.key? = some key ∧ Short key) ∧ Short d.objectHandle ∧ Short d.contentEtag) ∧
      stripes.length ≤ 65535 ∧ segments ≠ [] ∧ segments.length ≤ 65535
  | .put key _ _ _ => Short key
  | .putStripes d stripes =>
    (∃ key, d.key? = some key ∧ Short key) ∧ Short d.objectHandle ∧ stripes ≠ [] ∧
      stripes.length ≤ 65535

theorem short_of_readStringU16 {field s : String} {bs rest : List UInt8}
    (h : (readStringU16 field).run bs = .ok (s, rest)) : Short s := by
  obtain ⟨len, cs, hlen, h⟩ := run_of_bind h
  obtain ⟨bytes, ds, hbytes, h⟩ := run_of_bind h
  have hcount : bytes.length = len := length_of_take hbytes
  have hlt : len < 65536 := by
    obtain ⟨b, es, hb, h'⟩ := run_of_bind hlen
    cases h'
    have := leValue_lt b
    rwa [length_of_take hb] at this
  have hs : asBytes s = bytes := by
    obtain ⟨x, hx, hrest⟩ := ok_of_bind h
    cases hrest
    unfold fromUtf8 at hx
    split at hx
    next heq =>
      cases hx
      rw [String.fromUTF8?] at heq
      split at heq
      · cases heq
        rfl
      · cases heq
    next => cases hx
  show (asBytes s).length ≤ 65535
  rw [hs]
  omega

theorem pushString_short {value field : String} (h : Short value) :
    pushString value field = .ok (u16le (UInt16.ofNat (asBytes value).length) ++ asBytes value) :=
  if_pos h

theorem pushCount_short {count : ℕ} (h : count ≤ 65535) :
    pushCount what count = .ok (u16le (UInt16.ofNat count)) := if_pos h

theorem canonical_of_key? (h : d.key? = some key) :
    d.canonical = .ok key := by
  unfold ObjectDescriptor.key? at h
  unfold ObjectDescriptor.canonical
  grind

theorem getDescriptorInto_short
    (h : (∃ key, d.key? = some key ∧ Short key) ∧ Short d.objectHandle ∧ Short d.contentEtag)
    (addr : UInt64) (rkey : UInt32) (available : UInt64) :
    ∃ request, getDescriptorInto d addr rkey available = .ok request := by
  obtain ⟨⟨key, hkey, hk⟩, ho, he⟩ := h
  exact exists_ok_bind (canonical_of_key? hkey) <| exists_ok_bind (pushString_short hk) <|
    exists_ok_bind (pushString_short ho) <| exists_ok_bind (pushString_short he) ⟨_, rfl⟩

theorem build_of_accepted {r : Request} (h : r.Accepted) : ∃ frame, r.build = .ok frame := by
  cases r with
  | get key addr rkey available => exact exists_ok_bind (pushString_short h) ⟨_, rfl⟩
  | descriptor d addr rkey available => exact getDescriptorInto_short h addr rkey available
  | stripeSubset d idxs addr rkey available =>
    obtain ⟨hd, hlen⟩ := h
    obtain ⟨request, hreq⟩ := getDescriptorInto_short hd addr rkey available
    show ∃ frame, getDescriptorStripesInto d idxs addr rkey available = .ok frame
    unfold getDescriptorStripesInto
    split
    next => exact ⟨request, hreq⟩
    simp_all [exists_ok_bind, pushCount_short]
  | scatter d stripes segments =>
    obtain ⟨hd, hlen, hne, hsegs⟩ := h
    cases segments with
    | nil => exact absurd rfl hne
    | cons s rest =>
      obtain ⟨request, hreq⟩ := getDescriptorInto_short hd s.1 s.2.1
        ((s :: rest).map fun s => s.2.2).sum
      exact exists_ok_bind hreq <| exists_ok_bind (pushCount_short hlen) <|
        exists_ok_bind (pushCount_short hsegs) ⟨_, rfl⟩
  | put key size ifNotExists ttlSeconds => exact exists_ok_bind (pushString_short h) ⟨_, rfl⟩
  | putStripes d stripes =>
    obtain ⟨⟨key, hkey, hk⟩, ho, hne, hlen⟩ := h
    show ∃ frame, putStripesFrom d stripes = .ok frame
    unfold putStripesFrom
    rw [if_neg (fun he => hne (List.isEmpty_iff.mp he))]
    exact exists_ok_bind (canonical_of_key? hkey) <| exists_ok_bind (pushString_short hk) <|
      exists_ok_bind (pushString_short ho) <| exists_ok_bind (pushCount_short hlen) ⟨_, rfl⟩

/-! ## 応答 -/

structure QpInfo where
  qpn : UInt32
  psn : UInt32
  gid : List UInt8
  gid_length : gid.length = 16

/-- `GetRespMsg`。 -/
structure GetRespMsg where
  found : Bool
  bytesWritten : UInt64
  numChunks : UInt32
deriving DecidableEq

structure PutReadyMsg where
  ok : Bool
  dstAddr : UInt64
  dstRkey : UInt32

structure PutStripeLocation where
  stripeIndex : UInt32
  deviceId : UInt32
  storageHandle : String
  checksum : String

inductive Response where
  | hello (info : QpInfo)
  | get (msg : GetRespMsg)
  | putReady (msg : PutReadyMsg)
  | putResp (ok : Bool)
  | putResult (result : UInt8)
  | putStripes (ok : Bool) (stripes : List PutStripeLocation)

/-- `QpInfo::to_bytes`。 -/
def QpInfo.toBytes (i : QpInfo) : List UInt8 := u32le i.qpn ++ u32le i.psn ++ i.gid

/-- `send_get_resp`。 -/
def sendGetResp (msg : GetRespMsg) : List UInt8 :=
  [msgGetResp, msg.found.toUInt8] ++ u64le msg.bytesWritten ++ u32le msg.numChunks

/-- `send_put_ready`。 -/
def sendPutReady (msg : PutReadyMsg) : List UInt8 :=
  [msgPutReady, msg.ok.toUInt8] ++ u64le msg.dstAddr ++ u32le msg.dstRkey

def pushLocation (loc : PutStripeLocation) : Except WireError (List UInt8) := do
  let storageHandle ← pushString loc.storageHandle "storage_handle"
  let checksum ← pushString loc.checksum "checksum"
  return u32le loc.stripeIndex ++ u32le loc.deviceId ++ storageHandle ++ checksum

def pushLocations : List PutStripeLocation → Except WireError (List UInt8)
  | [] => .ok []
  | loc :: locs => do
    let bytes ← pushLocation loc
    let rest ← pushLocations locs
    return bytes ++ rest

/-- `send_put_stripes_resp`。 -/
def sendPutStripesResp (ok : Bool) (stripes : List PutStripeLocation) :
    Except WireError (List UInt8) := do
  let count ← pushCount "stripe results" stripes.length
  let locations ← pushLocations stripes
  return [msgPutStripesResp, ok.toUInt8] ++ count ++ locations

def Response.build : Response → Except WireError (List UInt8)
  | .hello info => .ok ([msgHello] ++ info.toBytes)
  | .get msg => .ok (sendGetResp msg)
  | .putReady msg => .ok (sendPutReady msg)
  | .putResp ok => .ok [msgPutResp, if ok then putResultStored else putResultFailed]
  | .putResult result => .ok [msgPutResp, result]
  | .putStripes ok stripes => sendPutStripesResp ok stripes

/-- client の得る値。 -/
inductive Reply where
  | hello (qpn psn : UInt32) (gid : List UInt8)
  | get (bytes : Option UInt64)
  | putReady (msg : PutReadyMsg)
  | putResult (result : UInt8)
  | putStripes (ok : Bool) (stripes : List PutStripeLocation)

def expectTag (wanted : UInt8) : Recv Unit := do
  let tag ← readU8
  if tag != wanted then throw (.wrongTag wanted tag)

/-- `read_hello`。 -/
def readHello : Recv Reply := do
  expectTag msgHello
  let payload ← readExact 24
  return .hello (UInt32.ofNat (leValue (payload.take 4)))
    (UInt32.ofNat (leValue ((payload.drop 4).take 4))) (payload.drop 8)

/-- `read_get_response`。 -/
def readGetResponse : Recv Reply := do
  expectTag msgGetResp
  let body ← readExact 13
  return .get (if body.headD 0 = 0 then none
    else some (UInt64.ofNat (leValue ((body.drop 1).take 8))))

/-- `read_put_ready`。 -/
def readPutReady : Recv Reply := do
  expectTag msgPutReady
  let body ← readExact 13
  return .putReady {
    ok := body.headD 0 != 0
    dstAddr := UInt64.ofNat (leValue ((body.drop 1).take 8))
    dstRkey := UInt32.ofNat (leValue ((body.drop 9).take 4)) }

/-- `read_put_result`。 -/
def readPutResult : Recv Reply := do
  expectTag msgPutResp
  let result ← readU8
  return .putResult result

def readLocation : Recv PutStripeLocation := do
  let stripeIndex ← readU32
  let deviceId ← readU32
  let storageHandle ← readStringU16 "storage_handle"
  let checksum ← readStringU16 "checksum"
  return { stripeIndex, deviceId, storageHandle, checksum }

/-- `read_put_stripes_resp`。 -/
def readPutStripesResp : Recv Reply := do
  expectTag msgPutStripesResp
  let ok ← readBool
  let stripes ← readList readLocation
  return .putStripes ok stripes

def Response.reader : Response → Recv Reply
  | .hello _ => readHello
  | .get _ => readGetResponse
  | .putReady _ => readPutReady
  | .putResp _ => readPutResult
  | .putResult _ => readPutResult
  | .putStripes _ _ => readPutStripesResp

def Response.reply : Response → Reply
  | .hello info => .hello info.qpn info.psn info.gid
  | .get msg => .get (if msg.found then some msg.bytesWritten else none)
  | .putReady msg => .putReady msg
  | .putResp ok => .putResult (if ok then putResultStored else putResultFailed)
  | .putResult result => .putResult result
  | .putStripes ok stripes => .putStripes ok stripes

theorem reads_expectTag (wanted : UInt8) : Reads (expectTag wanted) [wanted] () := by
  have htag : Reads (if wanted != wanted then throw (.wrongTag wanted wanted) else pure () :
      Recv Unit) [] () := by
    rw [if_neg (by simp)]
    exact Reads.pure ()
  have := (reads_readU8 wanted).bind (f := fun tag => (if tag != wanted then
    throw (.wrongTag wanted tag) else pure () : Recv Unit)) htag
  rwa [List.append_nil] at this

theorem leValue_u32le (x : UInt32) : UInt32.ofNat (leValue (u32le x)) = x := by
  rw [u32le, leValue_leBytes x.toNat_lt, UInt32.ofNat_toNat]

theorem leValue_u64le (x : UInt64) : UInt64.ofNat (leValue (u64le x)) = x := by
  rw [u64le, leValue_leBytes x.toNat_lt, UInt64.ofNat_toNat]

theorem length_u32le (x : UInt32) : (u32le x).length = 4 := length_leBytes 4 _

theorem length_u64le (x : UInt64) : (u64le x).length = 8 := length_leBytes 8 _

theorem body_slices (b : UInt8) (x : UInt64) (y : UInt32) :
    let body := [b] ++ u64le x ++ u32le y
    body.length = 13 ∧ body.headD 0 = b ∧ (body.drop 1).take 8 = u64le x ∧
      (body.drop 9).take 4 = u32le y := by
  have hx := length_u64le x
  have hy := length_u32le y
  simp_all

theorem reads_fixedBody {n : ℕ} (tag : UInt8) {body : List UInt8} (hlen : body.length = n)
    (f : List UInt8 → Reply) :
    Reads (do expectTag tag; let b ← readExact n; return f b) (tag :: body) (f body) :=
  (reads_expectTag tag).bind (Reads.last (Reads.take _ hlen))

theorem reads_hello (info : QpInfo) :
    Reads readHello ([msgHello] ++ info.toBytes) (Response.hello info).reply := by
  obtain ⟨qpn, psn, gid, hgid⟩ := info
  have hq := length_u32le qpn
  have hp := length_u32le psn
  have hlen : (u32le qpn ++ u32le psn ++ gid).length = 24 := by simp [hq, hp, hgid]
  have hqpn : (u32le qpn ++ u32le psn ++ gid).take 4 = u32le qpn := by
    rw [List.append_assoc, ← hq, List.take_left]
  have hpsn : ((u32le qpn ++ u32le psn ++ gid).drop 4).take 4 = u32le psn := by
    rw [List.append_assoc, ← hq, List.drop_left, hq, ← hp, List.take_left]
  have hrest : (u32le qpn ++ u32le psn ++ gid).drop 8 = gid := by
    rw [show 8 = (u32le qpn ++ u32le psn).length by simp [hq, hp], List.drop_left]
  have := reads_fixedBody msgHello hlen fun payload =>
    .hello (UInt32.ofNat (leValue (payload.take 4)))
      (UInt32.ofNat (leValue ((payload.drop 4).take 4))) (payload.drop 8)
  rwa [hqpn, hpsn, hrest, leValue_u32le, leValue_u32le] at this

theorem reads_getResp (msg : GetRespMsg) :
    Reads readGetResponse (sendGetResp msg) (Response.get msg).reply := by
  obtain ⟨found, bytes, chunks⟩ := msg
  obtain ⟨hlen, hhead, hbytes, -⟩ := body_slices found.toUInt8 bytes chunks
  have := reads_fixedBody msgGetResp hlen fun body =>
    .get (if body.headD 0 = 0 then none else some (UInt64.ofNat (leValue ((body.drop 1).take 8))))
  rw [hhead, hbytes, leValue_u64le] at this
  cases found <;> exact this

theorem reads_putReady (msg : PutReadyMsg) :
    Reads readPutReady (sendPutReady msg) (Response.putReady msg).reply := by
  obtain ⟨ok, addr, rkey⟩ := msg
  obtain ⟨hlen, hhead, haddr, hrkey⟩ := body_slices ok.toUInt8 addr rkey
  have := reads_fixedBody msgPutReady hlen fun body =>
    .putReady {
      ok := body.headD 0 != 0
      dstAddr := UInt64.ofNat (leValue ((body.drop 1).take 8))
      dstRkey := UInt32.ofNat (leValue ((body.drop 9).take 4)) }
  rw [hhead, haddr, hrkey, leValue_u64le, leValue_u32le] at this
  cases ok <;> exact this

theorem reads_putResult (result : UInt8) :
    Reads readPutResult [msgPutResp, result] (Response.putResult result).reply :=
  (reads_expectTag msgPutResp).bind (Reads.last (reads_readU8 result))

theorem reads_pushLocation {loc : PutStripeLocation} (h : pushLocation loc = .ok bs) :
    Reads readLocation bs loc := by
  obtain ⟨s, hs, h⟩ := ok_of_bind h
  obtain ⟨c, hc, h⟩ := ok_of_bind h
  cases h
  simp only [List.append_assoc]
  exact (reads_readU32 loc.stripeIndex).bind <| (reads_readU32 loc.deviceId).bind <|
    (reads_pushString hs).bind <| Reads.last (reads_pushString hc)

theorem reads_pushLocations {locs : List PutStripeLocation} (h : pushLocations locs = .ok bs) :
    Reads (readMany readLocation locs.length) bs locs := by
  induction locs generalizing bs with
  | nil =>
    cases h
    exact Reads.pure []
  | cons loc locs ih =>
    obtain ⟨b, hb, h⟩ := ok_of_bind h
    obtain ⟨rest, hrest, h⟩ := ok_of_bind h
    cases h
    exact (reads_pushLocation hb).bind (Reads.last (ih hrest))

theorem reads_putStripesResp {ok : Bool} {stripes : List PutStripeLocation}
    (h : sendPutStripesResp ok stripes = .ok frame) :
    Reads readPutStripesResp frame (Response.putStripes ok stripes).reply := by
  obtain ⟨count, hcount, h⟩ := ok_of_bind h
  obtain ⟨locations, hlocs, h⟩ := ok_of_bind h
  cases h
  unfold pushCount at hcount
  split at hcount
  next hle =>
    cases hcount
    have hlist : Reads (readList readLocation)
        (u16le (UInt16.ofNat stripes.length) ++ locations) stripes :=
      (reads_readU16 hle).bind (reads_pushLocations hlocs)
    rw [List.append_assoc]
    exact (reads_expectTag msgPutStripesResp).bind ((reads_readBool ok).bind (Reads.last hlist))
  next => cases hcount

theorem reader_build {r : Response} (h : r.build = .ok frame) :
    Reads r.reader frame r.reply := by
  cases r with
  | hello info =>
    cases h
    exact reads_hello info
  | get msg =>
    cases h
    exact reads_getResp msg
  | putReady msg =>
    cases h
    exact reads_putReady msg
  | putResp ok =>
    cases h
    exact reads_putResult _
  | putResult result =>
    cases h
    exact reads_putResult result
  | putStripes ok stripes => exact reads_putStripesResp h

/-! ## まとめ -/

/-- **制御 protocol の両端は一致する。** -/
theorem codecs_agree :
    (∀ r : Request, r.Accepted → ∃ frame, r.build = .ok frame) ∧
    (∀ (r : Request) (frame rest : List UInt8), r.build = .ok frame →
      ∃ m, r.message = some m ∧ recvRequest.run (frame ++ rest) = .ok (m, rest)) ∧
    (∀ (r : Response) (frame rest : List UInt8), r.build = .ok frame →
      r.reader.run (frame ++ rest) = .ok (r.reply, rest)) := by
  refine ⟨fun r => build_of_accepted, fun r frame rest h => ?_, fun r frame rest h => ?_⟩
  · obtain ⟨m, hm, hreads⟩ := recvRequest_build h
    exact ⟨m, hm, hreads rest⟩
  · exact reader_build h rest

theorem codecs_agree_put :
    (∃ frame, (Request.put "0:k" 3 true 60).build = .ok frame ∧
      recvRequest.run (frame ++ [1, 2]) = .ok (.put true ⟨"0:k", 3, 60⟩, [1, 2])) ∧
    (Response.get ⟨true, 3, 1⟩).reader.run (sendGetResp ⟨true, 3, 1⟩ ++ [9]) =
      .ok (.get (some 3), [9]) := by
  have haccepted : (Request.put "0:k" 3 true 60).Accepted := by
    show (asBytes "0:k").length ≤ 65535
    decide
  obtain ⟨hbuild, hreq, hresp⟩ := codecs_agree
  obtain ⟨frame, hframe⟩ := hbuild _ haccepted
  obtain ⟨m, hm, hrun⟩ := hreq _ frame [1, 2] hframe
  cases hm
  exact ⟨⟨frame, hframe, hrun⟩, hresp (.get ⟨true, 3, 1⟩) _ [9] rfl⟩

theorem numChunks_dropped :
    (⟨true, 5, 1⟩ : GetRespMsg) ≠ ⟨true, 5, 2⟩ ∧
      readGetResponse.run (sendGetResp ⟨true, 5, 1⟩) =
        readGetResponse.run (sendGetResp ⟨true, 5, 2⟩) ∧
      readGetResponse.run (sendGetResp ⟨true, 5, 1⟩) = .ok (.get (some 5), []) :=
  ⟨by decide, rfl, rfl⟩

end ContextStore.Wire
