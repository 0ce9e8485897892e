import ContextStore.Conc.Duplex
import ContextStore.Rdma
import ContextStore.Rdma.Wire

/-!
# RDMA の接続のやりとり
-/

namespace ContextStore.Wire

open Codec Conc Conc.Duplex

def msgPutCommit : UInt8 := 6

def putResultExists : UInt8 := 2

/-! ## client -/

/-- `RegisteredBuffer`。 -/
structure RegisteredBuffer where
  addr : UInt64
  rkey : UInt32
  lkey : UInt32
  len : UInt64

inductive CallError where
  | destination
  | source
  | wire (e : WireError)
  | rejectedPut
  | unpersistedPut
  | resultCode (result : UInt8)
  | rejectedStripes
  | unpersistedStripes

/-- `destination`。 -/
def RegisteredBuffer.destination (b : RegisteredBuffer) (offset : UInt64) :
    Except CallError (UInt64 × UInt32 × UInt64) :=
  if b.len ≤ offset then .error .destination
  else .ok (b.addr + offset, b.rkey, b.len - offset)

/-- `source`。 -/
def RegisteredBuffer.source (b : RegisteredBuffer) (offset size : UInt64) :
    Except CallError (UInt64 × UInt32) :=
  if offset.toNat + size.toNat ≤ b.len.toNat then .ok (b.addr + offset, b.lkey)
  else .error .source

inductive Call where
  | getInto (key : String) (buffer : RegisteredBuffer) (offset : UInt64)
  | getDescriptorInto (d : ObjectDescriptor) (buffer : RegisteredBuffer) (offset : UInt64)
  | getDescriptorStripesInto (d : ObjectDescriptor) (stripes : List UInt32)
      (buffer : RegisteredBuffer) (offset : UInt64)
  | getDescriptorStripesSge (d : ObjectDescriptor) (stripes : List UInt32)
      (segments : List Segment)
  | putKeyFrom (key : String) (buffer : RegisteredBuffer) (offset size : UInt64)
      (ifNotExists : Bool) (ttlSeconds : Int64)
  | putStripesFrom (d : ObjectDescriptor) (stripes : List (UInt32 × UInt64 × UInt64))
      (buffer : RegisteredBuffer)

/-- 呼び出しの結果。 -/
inductive Outcome where
  | got (bytes : Option UInt64)
  | put (stored : Bool)
  | acks (stripes : List PutStripeLocation)
  | failed (e : CallError)
  | transport

inductive ClientAsk where
  | writeRemote (srcAddr : UInt64) (srcLkey : UInt32) (dstAddr : UInt64) (dstRkey : UInt32)
      (size : UInt64)

abbrev ClientIo := Peer WireError Reply ClientAsk fun _ => Bool

def Call.request : Call → Except CallError Request
  | .getInto key buffer offset => do
    let (addr, rkey, available) ← buffer.destination offset
    return .get key addr rkey available
  | .getDescriptorInto d buffer offset => do
    let _ ← d.canonical.mapError .wire
    let (addr, rkey, available) ← buffer.destination offset
    return .descriptor d addr rkey available
  | .getDescriptorStripesInto d stripes buffer offset => do
    let _ ← d.canonical.mapError .wire
    let (addr, rkey, available) ← buffer.destination offset
    return .stripeSubset d stripes addr rkey available
  | .getDescriptorStripesSge d stripes segments => .ok (.scatter d stripes segments)
  | .putKeyFrom key buffer offset size ifNotExists ttlSeconds => do
    let _ ← buffer.source offset size
    return .put key size ifNotExists ttlSeconds
  | .putStripesFrom d stripes _ => .ok (.putStripes d (stripes.map fun s => (s.1, s.2.2)))

def Call.frame (c : Call) : Except CallError (List UInt8) := do
  let r ← c.request
  r.build.mapError .wire

def await (d : Recv Reply) (outcome : Except Unit Reply → Outcome) : ClientIo Outcome := do
  return outcome (← Peer.recv d)

def commit (d : Recv Reply) (outcome : Except Unit Reply → Outcome) : ClientIo Outcome := do
  match ← Peer.send [msgPutCommit] with
  | .error _ => return .transport
  | .ok _ => await d outcome

/-- `read_get_response` の結果。 -/
def getOutcome : Except Unit Reply → Outcome
  | .ok (.get bytes) => .got bytes
  | _ => .transport

def putOutcome (ifNotExists : Bool) : Except Unit Reply → Outcome
  | .ok (.putResult result) =>
    if result = putResultStored then .put true
    else if result = putResultExists ∧ ifNotExists then .put false
    else if result = putResultFailed then .failed .unpersistedPut
    else .failed (.resultCode result)
  | _ => .transport

def refusedOutcome (ifNotExists : Bool) : Except Unit Reply → Outcome
  | .ok (.putResult result) =>
    if ifNotExists ∧ result = putResultExists then .put false else .failed .rejectedPut
  | _ => .transport

def stripesOutcome : Except Unit Reply → Outcome
  | .ok (.putStripes ok stripes) => if ok then .acks stripes else .failed .unpersistedStripes
  | _ => .transport

def putExchange (srcAddr : UInt64) (lkey : UInt32) (size : UInt64) (ifNotExists : Bool) :
    ClientIo Outcome := do
  match ← Peer.recv readPutReady with
  | .ok (.putReady ready) =>
    if ready.ok then
      if ← Peer.ask (.writeRemote srcAddr lkey ready.dstAddr ready.dstRkey size) then
        commit readPutResult (putOutcome ifNotExists)
      else return .transport
    else await readPutResult (refusedOutcome ifNotExists)
  | _ => return .transport

def writeStripes (buffer : RegisteredBuffer) (ready : PutReadyMsg) :
    List (UInt32 × UInt64 × UInt64) → UInt64 → ClientIo (Option Outcome)
  | [], _ => return none
  | (_, offset, len) :: stripes, dstOffset =>
    match buffer.source offset len with
    | .error e => return some (.failed e)
    | .ok (srcAddr, lkey) => do
      if ← Peer.ask (.writeRemote srcAddr lkey (ready.dstAddr + dstOffset) ready.dstRkey len) then
        writeStripes buffer ready stripes (dstOffset + len)
      else return some .transport

def commitStripes : Option Outcome → ClientIo Outcome
  | some outcome => return outcome
  | none => commit readPutStripesResp stripesOutcome

def putStripesExchange (stripes : List (UInt32 × UInt64 × UInt64)) (buffer : RegisteredBuffer) :
    ClientIo Outcome := do
  match ← Peer.recv readPutReady with
  | .ok (.putReady ready) =>
    if ready.ok then writeStripes buffer ready stripes 0 >>= commitStripes
    else return .failed .rejectedStripes
  | _ => return .transport

def Call.exchange : Call → ClientIo Outcome
  | .putKeyFrom _ buffer offset size ifNotExists _ =>
    putExchange (buffer.addr + offset) buffer.lkey size ifNotExists
  | .putStripesFrom _ stripes buffer => putStripesExchange stripes buffer
  | _ => await readGetResponse getOutcome

def Call.run (c : Call) : ClientIo Outcome :=
  match c.frame with
  | .error e => return .failed e
  | .ok frame => do
    match ← Peer.send frame with
    | .error _ => return .transport
    | .ok _ => c.exchange

/-! ## server -/

/-- loop の読むもの。 -/
inductive Incoming where
  | request (msg : RequestMsg)
  | byte (b : UInt8)

def recvIncoming : Recv Incoming := Incoming.request <$> recvRequest

def recvByte : Recv Incoming := Incoming.byte <$> readU8

inductive ServerAsk where
  | alloc (size : UInt64)
  | allocStripes (size : UInt64)
  | putFromPtr (ifNotExists : Bool) (key : ObjectKey) (msg : PutReqMsg)
  | putPlacementChunk (key : ObjectKey) (msg : PutStripesReqMsg) (stripeIndex : UInt32)
      (deviceStripeIndex : ℕ)
  | deletePlacementChunk (storageHandle : String)
  | get (msg : GetReqMsg)
  | getDescriptor (msg : DescriptorGetReqMsg)

abbrev ServerAsk.Ans : ServerAsk → Type
  | .alloc _ => Option (UInt64 × UInt32)
  | .allocStripes _ => Option (UInt64 × UInt32)
  | .putFromPtr _ _ _ => Option Bool
  | .putPlacementChunk _ _ _ _ => Option (UInt32 × String × String)
  | .deletePlacementChunk _ => Unit
  | .get _ => Option GetRespMsg
  | .getDescriptor _ => Option GetRespMsg

abbrev ServerIo := Peer WireError Incoming ServerAsk ServerAsk.Ans

def ServerAsk.issue (a : ServerAsk) : ServerIo a.Ans := Peer.ask a

def allocExtent (size : UInt64) : ServerIo (Option (UInt64 × UInt32)) :=
  (ServerAsk.alloc size).issue

/-- `alloc` を 1 回。 -/
def allocStripes (size : UInt64) : ServerIo (Option (UInt64 × UInt32)) :=
  (ServerAsk.allocStripes size).issue

/-- `put_placement_chunk`。 -/
def putPlacementChunk (key : ObjectKey) (msg : PutStripesReqMsg) (idx : UInt32) (ordinal : ℕ) :
    ServerIo (Option (UInt32 × String × String)) :=
  (ServerAsk.putPlacementChunk key msg idx ordinal).issue

def reply (bytes : List UInt8) : ServerIo Bool := do
  match ← Peer.send bytes with
  | .error _ => return false
  | .ok _ => return true

def refuse (result : List UInt8) : ServerIo Bool := do
  match ← Peer.send (sendPutReady ⟨false, 0, 0⟩) with
  | .error _ => return false
  | .ok _ => reply result

def awaitCommit (committed : ServerIo Bool) : ServerIo Bool := do
  match ← Peer.recv recvByte with
  | .ok (.byte tag) => if tag = msgPutCommit then committed else return false
  | _ => return false

def grant (extent : UInt64 × UInt32) (committed : ServerIo Bool) : ServerIo Bool := do
  match ← Peer.send (sendPutReady ⟨true, extent.1, extent.2⟩) with
  | .error _ => return false
  | .ok _ => awaitCommit committed

def maxPutSize : UInt64 := 4 * 1024 * 1024 * 1024

def putResultCode : Option Bool → UInt8
  | some true => putResultStored
  | some false => putResultExists
  | none => putResultFailed

def persistPut (ifNotExists : Bool) (msg : PutReqMsg) : ServerIo Bool :=
  match Rdma.parseStringKey msg.key with
  | .error _ => return false
  | .ok key => do
    let result ← (ServerAsk.putFromPtr ifNotExists key msg).issue
    let code := putResultCode result
    if ifNotExists then reply [msgPutResp, code]
    else reply [msgPutResp, if code = putResultStored then putResultStored else putResultFailed]

/-- `handle_put`。 -/
def handlePut (ifNotExists : Bool) (msg : PutReqMsg) : ServerIo Bool := do
  if msg.size = 0 ∨ maxPutSize < msg.size then refuse [msgPutResp, putResultFailed]
  else
    match ← allocExtent msg.size with
    | none => refuse [msgPutResp, putResultFailed]
    | some extent => grant extent (persistPut ifNotExists msg)

def invalidStripes (chunkSize : UInt64) (stripes : List (UInt32 × UInt64)) : Bool :=
  let total := (stripes.map Prod.snd).sum
  stripes.isEmpty || total == 0 || maxPutSize < total ||
    stripes.any fun s => s.2 == 0 || chunkSize < s.2

def putChunks (key : ObjectKey) (msg : PutStripesReqMsg) :
    List (UInt32 × UInt64) → List PutStripeLocation →
    ServerIo (Except (List PutStripeLocation) (List PutStripeLocation))
  | [], locations => return .ok locations
  | (idx, _) :: stripes, locations => do
    match ← putPlacementChunk key msg idx locations.length with
    | none => return .error locations
    | some (deviceId, storageHandle, checksum) =>
      putChunks key msg stripes (locations ++ [⟨idx, deviceId, storageHandle, checksum⟩])

def rollback : List PutStripeLocation → ServerIo Unit
  | [] => return ()
  | loc :: locations => do
    let _ ← (ServerAsk.deletePlacementChunk loc.storageHandle).issue
    rollback locations

def stripesFailed : List UInt8 := [msgPutStripesResp, 0, 0, 0]

def persistStripes (msg : PutStripesReqMsg) : ServerIo Bool :=
  match Rdma.parseStringKey msg.key with
  | .error _ => return false
  | .ok key => do
    match ← putChunks key msg msg.stripes [] with
    | .error locations =>
      rollback locations
      reply stripesFailed
    | .ok locations =>
      match sendPutStripesResp true locations with
      | .error _ => return false
      | .ok bytes => reply bytes

/-- `handle_put_stripes`。 -/
def handlePutStripes (msg : PutStripesReqMsg) : ServerIo Bool := do
  if invalidStripes msg.chunkSize msg.stripes then refuse stripesFailed
  else
    match ← allocStripes (msg.stripes.map Prod.snd).sum with
    | none => refuse stripesFailed
    | some extent => grant extent (persistStripes msg)

def answerGet : Option GetRespMsg → ServerIo Bool
  | none => return false
  | some msg => reply (sendGetResp msg)

def serve : ServerIo Bool := do
  match ← Peer.recv recvIncoming with
  | .ok (.request (.put ifNotExists msg)) => handlePut ifNotExists msg
  | .ok (.request (.putStripes msg)) => handlePutStripes msg
  | .ok (.request (.getDescriptor msg)) => answerGet (← (ServerAsk.getDescriptor msg).issue)
  | .ok (.request (.get msg)) => answerGet (← (ServerAsk.get msg).issue)
  | _ => return false

/-! ## 接続 -/

def starved : WireError → Bool
  | .eof _ => true
  | _ => false

abbrev Wires :=
  Link WireError Reply Incoming ClientAsk ServerAsk (fun _ => Bool) ServerAsk.Ans Outcome

abbrev Move := LinkStep ClientAsk ServerAsk (fun _ => Bool) ServerAsk.Ans Call

def connection : Setup WireError Reply Incoming ClientAsk ServerAsk (fun _ => Bool) ServerAsk.Ans
    Call Outcome := ⟨starved, serve, Call.run⟩

end ContextStore.Wire
