import Mathlib.Data.List.Sort
import ContextStore.Placement

/-!
# node をまたぐ書き込みと読み出し

`kv-service/server/src/api/service.rs` のうち、stripe を複数の data node に置く部分。
-/

namespace ContextStore

open Conc

variable {ν : Type}

abbrev Svc (ν : Type) := ExceptT Status (Io ν)

/-- `map_err(Status::from)`。 -/
def liftRes {α : Type} (x : Res ν α) : Svc ν α :=
  ExceptT.mk (x.run >>= fun r => .ret (r.mapError Status.ofKVError))

def clockNow : Svc ν Int := ExceptT.lift (issue .now)

def netTo (dst : ν) : Io ν (Except String Unit) := issue (.net dst)

namespace Service

open Placement

variable (E : Env ν) (n : ν)

def isExpired (m : BlockMeta) : Svc ν Bool := do
  let now ← clockNow
  pure (m.isExpiredAt now)

def expiredCurrent (key : ObjectKey) (m : BlockMeta) : Res ν Bool := do
  match ← Metadata.getBlock key.toStringKey with
  | none => pure false
  | some current =>
    let expired ← Storage.isExpired current
    pure (expired && current.identityMatches m)

/-- `purge_expired_object_locked`。 -/
def purgeExpiredObjectLocked (key : ObjectKey) (m : BlockMeta) : Svc ν Bool := do
  if !(← isExpired m) then pure false
  else if placementHasRemoteChunks E n (placementFromMeta E n key m) then
    if !(← liftRes (expiredCurrent key m)) then pure false
    else
      let now ← clockNow
      let retired ← liftRes (Metadata.retireBlockIfMatches key.toStringKey m
        (now + (E.cfg n).gcGraceSeconds))
      if !retired then pure false
      else
        Memory.invalidate n key.toStringKey
        pure true
  else liftRes (Storage.purgeIfExpired E n key m)

/-- `purge_expired_object`。 -/
def purgeExpiredObject (key : ObjectKey) (m : BlockMeta) : Svc ν Bool := do
  if !(← isExpired m) then pure false
  else withLock n .service key.toStringKey (purgeExpiredObjectLocked E n key m)

def metadataGetLive (key : ObjectKey) : Svc ν (Option BlockMeta) := do
  match ← liftRes (Metadata.getBlock key.toStringKey) with
  | none => pure none
  | some m =>
    if !(← isExpired m) then pure (some m)
    else if ← purgeExpiredObject E n key m then pure none
    else
      match ← liftRes (Metadata.getBlock key.toStringKey) with
      | none => pure none
      | some current => pure (if ← isExpired current then none else some current)

/-! ## RPC -/

def callNode {α : Type} (node : DataNode) (what : String) (body : ν → Svc ν α) : Svc ν α := do
  match E.resolve node.grpcEndpoint with
  | none => throw ⟨.unavailable, "connect data node " ++ node.nodeId ++ ": connect data node"⟩
  | some dst =>
    match ← netTo dst with
    | .error e => throw ⟨.unavailable, "connect data node " ++ node.nodeId ++
        ": connect data node: " ++ e⟩
    | .ok () =>
      match ← netTo dst with
      | .error e => throw ⟨.unavailable, what ++ node.nodeId ++ ": " ++ e⟩
      | .ok () =>
        match ← attempt (body dst) with
        | .error s => throw ⟨.unavailable, what ++ node.nodeId ++ ": " ++ s.message⟩
        | .ok a =>
          match ← netTo dst with
          | .error e => throw ⟨.unavailable, what ++ node.nodeId ++ ": " ++ e⟩
          | .ok () => pure a

def writtenLocation (node : DataNode) (stripeIndex offset : Nat) (data : Bytes)
    (written : Nat × String × String) : ChunkLocation where
  stripeIndex := u32 stripeIndex
  nodeId := node.nodeId
  grpcEndpoint := node.grpcEndpoint
  rdmaEndpoint := node.rdmaEndpoint
  deviceId := written.1
  storageHandle := written.2.1
  offset := offset
  length := data.length
  checksum := written.2.2

def putLocalChunk (node : DataNode) (key : ObjectKey) (desc : ObjectDescriptor)
    (stripeIndex offset : Nat) (data : Bytes) : Svc ν ChunkLocation := do
  match localDeviceStripeIndex E n key stripeIndex with
  | none => throw ⟨.failedPrecondition, "stripe assigned to a different data node"⟩
  | some deviceStripeIndex =>
    let written ← liftRes (Storage.putPlacementChunk E n key stripeIndex deviceStripeIndex
      desc.objectGeneration desc.layoutVersion data)
    pure (writtenLocation node stripeIndex offset data written)

def putPlacementChunkRpc (key : ObjectKey) (desc : ObjectDescriptor) (stripeIndex chunkSize : Nat)
    (data : Bytes) : Svc ν ChunkLocation :=
  putLocalChunk E n (E.cfg n).localNode key desc stripeIndex (stripeIndex * chunkSize) data

def validateActive (key : ObjectKey) (desc : ObjectDescriptor)
    (placement : Option PlacementDescriptor) : Svc ν Unit := do
  match placement with
  | none => pure ()
  | some p =>
    match ← metadataGetLive E n key with
    | none => throw ⟨.notFound, "key not found"⟩
    | some active =>
      ofExcept (validateDescriptor desc active)
      ofExcept (validatePlacementDescriptor E n key active (some p))

def readChunkFile (desc : ObjectDescriptor) (chunk : ChunkLocation) : Svc ν Bytes := do
  let expected := if desc.isStriped then some chunk.checksum else none
  match ← liftRes (Storage.readPlacementChunk E n chunk.storageHandle chunk.length expected) with
  | none => throw ⟨.notFound, "placement chunk not found"⟩
  | some data => pure data

def readPlacementChunkRpc (desc : ObjectDescriptor) (placement : Option PlacementDescriptor)
    (chunk : ChunkLocation) : Svc ν Bytes := do
  let key ← ofExcept (keyFromDescriptor desc)
  validateActive E n key desc placement
  ofExcept ((Storage.validatePlacementChunkHandle E n key chunk.stripeIndex desc.objectGeneration
    desc.layoutVersion chunk.deviceId chunk.storageHandle).mapError Status.ofKVError)
  readChunkFile E n desc chunk

def deletePlacementChunkRpc (chunk : ChunkLocation) : Svc ν Bool :=
  liftRes (Storage.deletePlacementChunk E n chunk.storageHandle)

def putChunkOnNode (node : DataNode) (key : ObjectKey) (desc : ObjectDescriptor)
    (stripeIndex offset chunkSize : Nat) (data : Bytes) : Svc ν ChunkLocation :=
  if (E.cfg n).isLocalNode node then putLocalChunk E n node key desc stripeIndex offset data
  else callNode E node "put chunk to " fun dst =>
    putPlacementChunkRpc E dst key desc (u32 stripeIndex) chunkSize data

/-- `read_chunk_from_placement`。 -/
def readChunkFromPlacement (desc : ObjectDescriptor) (placement : PlacementDescriptor)
    (chunk : ChunkLocation) : Svc ν (Nat × Bytes) := do
  if (E.cfg n).isLocalNode chunk.node then
    let data ← readChunkFile E n desc chunk
    pure (chunk.stripeIndex, data)
  else
    let data ← callNode E chunk.node "read chunk from " fun dst =>
      readPlacementChunkRpc E dst desc (some placement) chunk
    pure (chunk.stripeIndex, data)

def joinResults {α : Type} (tasks : List (Svc ν α)) : Svc ν (List (Except Status α)) :=
  ExceptT.lift (joinAll pickNext (tasks.map ExceptT.run))

def allOk {α : Type} : List (Except Status α) → Except Status (List α)
  | [] => .ok []
  | .error e :: _ => .error e
  | .ok a :: rest => (allOk rest).map (a :: ·)

/-- `read_chunks_by_placement`。 -/
def readChunksByPlacement (desc : ObjectDescriptor) (placement : PlacementDescriptor) :
    Svc ν (List Bytes) := do
  let validation := { placement with chunks := [] }
  let results ← joinResults (placement.chunks.map (readChunkFromPlacement E n desc validation))
  let indexed ← ofExcept (allOk results)
  pure ((indexed.insertionSort fun a b => a.1 ≤ b.1).map (·.2))

/-- `delete_chunk_from_placement`。 -/
def deleteChunkFromPlacement (chunk : ChunkLocation) : Svc ν Unit := do
  if (E.cfg n).isLocalNode chunk.node then
    let _ ← liftRes (Storage.deletePlacementChunk E n chunk.storageHandle)
  else
    let _ ← callNode E chunk.node "delete chunk from " fun dst =>
      deletePlacementChunkRpc E dst chunk

def rollbackChunks : List ChunkLocation → Io ν Unit
  | [] => pure ()
  | c :: cs => do
    let _ ← (deleteChunkFromPlacement E n c).run
    rollbackChunks cs

/-- `delete_distributed_chunks`。 -/
def deleteDistributedChunks (placement : PlacementDescriptor) : Svc ν Unit := do
  let results ← joinResults (placement.chunks.map (deleteChunkFromPlacement E n))
  let _ ← ofExcept (allOk results)

def sortLocations (locations : List ChunkLocation) : List ChunkLocation :=
  locations.insertionSort fun a b => a.stripeIndex ≤ b.stripeIndex

def distributedMeta (prepared : BlockMeta) (chunkSize total : Nat)
    (locations : List ChunkLocation) : BlockMeta :=
  { prepared with
    size := total
    filePath := ""
    deviceId := ((locations.head?).map ChunkLocation.deviceId).getD 0
    striping := some {
      chunkSize := chunkSize
      chunkDevices := locations.map ChunkLocation.deviceId
      chunkPaths := locations.map ChunkLocation.storageHandle
      totalSize := total
      chunkLocations := locations
      chunkChecksums := locations.map ChunkLocation.checksum } }

def commitMeta (key : ObjectKey) (m : BlockMeta) (notBefore : Int) (ifAbsent : Bool) :
    Res ν Bool :=
  if ifAbsent then Metadata.putBlockIfAbsent key.toStringKey m
  else do
    let _ ← Metadata.replaceBlock key.toStringKey m notBefore
    pure true

/-- `i` 番の stripe。 -/
def stripeOf (chunkSize : Nat) (data : Bytes) (i : Nat) : Bytes :=
  (data.drop (i * chunkSize)).take (min (i * chunkSize + chunkSize) data.length - i * chunkSize)

def stripeTasks (key : ObjectKey) (data : Bytes) (desc : ObjectDescriptor) (chunkSize : Nat) :
    List (Svc ν ChunkLocation) :=
  (List.range (Storage.divCeil data.length chunkSize)).map fun i =>
    putChunkOnNode E n (selectDataNode E n key i) key desc i (i * chunkSize) chunkSize
      (stripeOf chunkSize data i)

/-- `put_distributed_bytes_impl`。 -/
def putDistributedBytesImpl (key : ObjectKey) (data : Bytes) (m : BlockMeta) (ifAbsent : Bool) :
    Svc ν Bool := do
  let total := data.length
  let chunkSize := (E.cfg n).stripingChunkSize
  let prepared ← liftRes (Storage.prepareWriteMeta E key m total)
  let desc := makeDistributedDescriptor key prepared (Storage.divCeil total chunkSize) chunkSize
  let results ← joinResults (stripeTasks E n key data desc chunkSize)
  let written ← ofExcept (allOk results)
  let locations := sortLocations written
  if (E.cfg n).verifyStripeChecksums ∧ locations.any (fun l => l.checksum = "") then
    rollbackChunks E n locations
    throw ⟨.failedPrecondition,
      "stripe integrity is enabled but a data node did not return a checksum"⟩
  else
    Memory.invalidate n key.toStringKey
    let now ← clockNow
    match ← attempt (liftRes (commitMeta key
        (distributedMeta prepared chunkSize total locations) (now + (E.cfg n).gcGraceSeconds)
        ifAbsent)) with
    | .ok true => pure true
    | .ok false =>
      rollbackChunks E n locations
      pure false
    | .error e =>
      rollbackChunks E n locations
      throw e

def invoke (key : ObjectKey) (data : Bytes) : Svc ν Unit := ExceptT.lift (issue (.invoke key data))

/-- `put_distributed_bytes`。 -/
def putDistributedBytes (key : ObjectKey) (data : Bytes) (m : BlockMeta) : Svc ν Unit := do
  invoke key data
  withLock n .service key.toStringKey do
    let _ ← putDistributedBytesImpl E n key data m false

def existsLive (key : ObjectKey) : Svc ν Bool := do
  match ← liftRes (Metadata.getBlock key.toStringKey) with
  | none => pure false
  | some existing =>
    if !(← isExpired existing) then pure true
    else
      let _ ← purgeExpiredObjectLocked E n key existing
      pure false

/-- `put_distributed_bytes_if_absent`。 -/
def putDistributedBytesIfAbsent (key : ObjectKey) (data : Bytes) (m : BlockMeta) : Svc ν Bool := do
  invoke key data
  withLock n .service key.toStringKey do
    if ← existsLive E n key then pure false
    else putDistributedBytesImpl E n key data m true

end Service

end ContextStore
