import ContextStore.DistributedStream

/-!
# gRPC の service

`kv-service/server/src/api/service.rs` の RPC と GC。
-/

namespace ContextStore

open Conc

variable {ν : Type}

structure KvMetadata where
  numTokens : Int
  numLayers : Int
  dtype : String
  compressed : Bool
  createdAt : Int
deriving DecidableEq, Repr

/-- `pb::PutOptions`。 -/
structure PutOptions where
  ttlSeconds : Int
  ifNotExists : Bool
deriving DecidableEq, Repr

/-- `meta_from_pb`。 -/
def metaFromPb (now : Int) (m : Option KvMetadata) (options : Option PutOptions) : BlockMeta where
  deviceId := 0
  filePath := ""
  size := 0
  objectHandle := ""
  objectGeneration := 1
  contentEtag := ""
  layoutVersion := 1
  createdAt := match m with
    | some m => if 0 < m.createdAt then m.createdAt else now
    | none => now
  lastAccessedAt := now
  ttlSeconds := match options with
    | some o => max o.ttlSeconds 0
    | none => 0
  numTokens := match m with
    | some m => m.numTokens
    | none => 0
  numLayers := match m with
    | some m => m.numLayers
    | none => 0
  dtype := match m with
    | some m => m.dtype
    | none => "bfloat16"
  compressed := match m with
    | some m => m.compressed
    | none => false
  striping := none

/-- `put_options_if_not_exists`。 -/
def putOptionsIfNotExists (options : Option PutOptions) : Bool :=
  match options with
  | some o => o.ifNotExists
  | none => false

structure PutRequest where
  key : Option ObjectKey
  data : Bytes
  metadata : Option KvMetadata
  options : Option PutOptions
deriving DecidableEq, Repr

structure PutStreamHead where
  key : Option ObjectKey
  metadata : Option KvMetadata
  options : Option PutOptions
  totalSize : Nat
deriving DecidableEq, Repr

namespace Service

open Placement

variable (E : Env ν) (n : ν)

def requireKey (key : Option ObjectKey) (message : String) : Svc ν ObjectKey :=
  match key with
  | some key => pure key
  | none => throw ⟨.invalidArgument, message⟩

/-! ## 読み出し -/

def remotePlacement (key : ObjectKey) (m : Option BlockMeta) :
    Option (BlockMeta × PlacementDescriptor) :=
  match m with
  | none => none
  | some m =>
    let placement := placementFromMeta E n key m
    if placementHasRemoteChunks E n placement then some (m, placement) else none

def get (key : Option ObjectKey) : Svc ν (Option Bytes) := do
  let key ← requireKey key "missing key"
  let m ← metadataGetLive E n key
  match remotePlacement E n key m with
  | some (m, placement) =>
    let chunks ← readChunksByPlacement E n (descriptorFromMeta key m) placement
    pure (some chunks.flatten)
  | none =>
    let r ← liftRes (Memory.get E n key)
    pure (r.map (·.1))

def exists_ (key : Option ObjectKey) : Svc ν Bool := do
  let key ← requireKey key "missing key"
  liftRes (Memory.exists_ E n key)

def getBatch (keys : List ObjectKey) : Svc ν (List (Option Bytes)) := do
  let results ← Memory.getBatch E n keys
  pure (results.map fun r =>
    match r with
    | .ok (some (data, _)) => some data
    | _ => none)

/-- `get_stream` の送り方。 -/
inductive StreamSource where
  | remote (segments : List Bytes)
  | cached (segments : List Bytes)
  | pipeline (stripe : StripingInfo)
  | buffered (segments : List Bytes)

def streamSource (key : Option ObjectKey) : Svc ν StreamSource := do
  let key ← requireKey key "missing key"
  let m ← metadataGetLive E n key
  match remotePlacement E n key m with
  | some (m, placement) =>
    let segments ← readChunksByPlacement E n (descriptorFromMeta key m) placement
    pure (.remote segments)
  | none =>
    match ← Memory.peekChunks n key with
    | some (segments, _) => pure (.cached segments)
    | none =>
      match m.bind BlockMeta.striping with
      | some stripe => pure (.pipeline stripe)
      | none =>
        match ← liftRes (Memory.getChunks E n key) with
        | some (segments, _) => pure (.buffered segments)
        | none => throw ⟨.notFound, "key not found"⟩

def collect : StreamSource → Svc ν Bytes
  | .remote segments => pure segments.flatten
  | .cached segments => pure segments.flatten
  | .pipeline stripe => do
    let results ← joinResults ((List.range stripe.chunkPaths.length).map fun i =>
      liftRes (Storage.readStripedChunkAt E n stripe i))
    let segments ← ofExcept (allOk results)
    pure segments.flatten
  | .buffered segments => pure segments.flatten

def getStream (key : Option ObjectKey) : Svc ν Bytes := do
  let source ← streamSource E n key
  collect E n source

def readByDescriptor (desc : ObjectDescriptor) (placement : Option PlacementDescriptor) :
    Svc ν (Option Bytes) := do
  let key ← ofExcept (keyFromDescriptor desc)
  match ← metadataGetLive E n key with
  | none => pure none
  | some active =>
    ofExcept (validateDescriptor desc active)
    ofExcept (validatePlacementDescriptor E n key active placement)
    match remotePlacement E n key (some active) with
    | some (_, fresh) =>
      let chunks ← readChunksByPlacement E n desc fresh
      pure (some chunks.flatten)
    | none =>
      let r ← liftRes (Storage.getWithMeta E n key active)
      pure (r.map (·.1))

def putBytes (key : ObjectKey) (data : Bytes) (m : BlockMeta) (ifNotExists : Bool) :
    Svc ν Bool := do
  if distributedPlacementEnabled E n data.length then
    if ifNotExists then putDistributedBytesIfAbsent E n key data m
    else
      putDistributedBytes E n key data m
      pure true
  else if ifNotExists then liftRes (Memory.putIfAbsent E n key data m)
  else
    liftRes (Memory.put E n key data m)
    pure true

def put (req : PutRequest) : Svc ν Bool := do
  let key ← requireKey req.key "missing key"
  let now ← clockNow
  putBytes E n key req.data (metaFromPb now req.metadata req.options)
    (putOptionsIfNotExists req.options)

def delete (key : Option ObjectKey) : Svc ν Bool := do
  let key ← requireKey key "missing key"
  let ok ← liftRes (Storage.retire E n key)
  Memory.invalidate n key.toStringKey
  pure ok

def batchItems : List PutRequest → Svc ν (List (ObjectKey × Bytes × BlockMeta × Bool))
  | [] => pure []
  | item :: items => do
    let key ← requireKey item.key "missing key in batch item"
    let now ← clockNow
    let rest ← batchItems items
    pure ((key, item.data, metaFromPb now item.metadata item.options,
      putOptionsIfNotExists item.options) :: rest)

def putOne (key : ObjectKey) (data : Bytes) (m : BlockMeta) (ifNotExists : Bool) : Res ν Bool :=
  if ifNotExists then Memory.putIfAbsent E n key data m
  else do
    Memory.put E n key data m
    pure true

def putEach : List (ObjectKey × Bytes × BlockMeta × Bool) → Io ν (List Bool)
  | [] => pure []
  | (key, data, m, ifNotExists) :: items => do
    let r ← (putOne E n key data m ifNotExists).run
    let rest ← putEach items
    pure ((r.toOption).getD false :: rest)

def putBatch (items : List PutRequest) : Svc ν (List Bool) := do
  let items ← batchItems items
  if items.any (fun it => it.2.2.2) then putEach E n items
  else
    let results ← Memory.putBatch E n (items.map fun it => (it.1, it.2.1, it.2.2.1))
    pure (results.map fun r => r.toOption.isSome)

def receiveAll : List PutChunk → Bool → List Bytes → Svc ν (List Bytes)
  | chunks, sawLast, segments =>
    if sawLast then pure segments
    else do
      match ← receiveNext with
      | .error e => throw ⟨.internal, e⟩
      | .ok () =>
        match chunks with
        | [] => pure segments
        | c :: rest => receiveAll rest c.isLast (segments ++ [c.data])

def putSegments (key : ObjectKey) (segments : List Bytes) (m : BlockMeta) (ifNotExists : Bool) :
    Svc ν Bool := do
  let total := (segments.map List.length).sum
  if distributedPlacementEnabled E n total then
    if ifNotExists then putDistributedBytesIfAbsent E n key segments.flatten m
    else
      putDistributedBytes E n key segments.flatten m
      pure true
  else if ifNotExists then liftRes (Memory.putChunksIfAbsent E n key segments m)
  else
    liftRes (Memory.putChunks E n key segments m)
    pure true

def putStream (head : PutStreamHead) (chunks : List PutChunk) : Svc ν Bool := do
  match ← receiveNext with
  | .error e => throw ⟨.internal, e⟩
  | .ok () =>
    match chunks with
    | [] => throw ⟨.invalidArgument, "empty stream"⟩
    | first :: rest =>
      let key ← requireKey head.key "first chunk must include key"
      let now ← clockNow
      let m := metaFromPb now head.metadata head.options
      let ifNotExists := putOptionsIfNotExists head.options
      if 0 < head.totalSize ∧ distributedPlacementEnabled E n head.totalSize then
        putDistributedStream E n key m head.totalSize first rest ifNotExists
      else
        let segments ← receiveAll rest first.isLast [first.data]
        putSegments E n key segments m ifNotExists

structure PrepareRequest where
  key : Option ObjectKey
  size : Nat
  metadata : Option KvMetadata
  options : Option PutOptions
deriving DecidableEq, Repr

def plannedChunks (key : ObjectKey) (size chunkSize : Nat) : List ChunkLocation :=
  (List.range (Storage.divCeil size chunkSize)).map fun i =>
    let node := selectDataNode E n key i
    { stripeIndex := u32 i
      nodeId := node.nodeId
      grpcEndpoint := node.grpcEndpoint
      rdmaEndpoint := node.rdmaEndpoint
      deviceId := 0
      storageHandle := ""
      offset := i * chunkSize
      length := min (i * chunkSize + chunkSize) size - i * chunkSize
      checksum := "" }

def alreadyTaken (key : ObjectKey) (ifNotExists : Bool) : Svc ν Bool :=
  if ifNotExists then do pure (← metadataGetLive E n key).isSome else pure false

/-- `prepare_distributed_put`。 -/
def prepareDistributedPut (req : PrepareRequest) :
    Svc ν (Except String (ObjectDescriptor × PlacementDescriptor)) := do
  let key ← requireKey req.key "missing key"
  if req.size = 0 then pure (.error "empty object")
  else if !distributedPlacementEnabled E n req.size then
    pure (.error "below striping threshold or single data node")
  else
    if ← alreadyTaken E n key (putOptionsIfNotExists req.options) then
      pure (.error "already exists")
    else
      let now ← clockNow
      let chunkSize := (E.cfg n).stripingChunkSize
      let prepared ← liftRes (Storage.prepareWriteMeta E key
        (metaFromPb now req.metadata req.options) req.size)
      let self := (E.cfg n).localNode
      pure (.ok (makeDistributedDescriptor key prepared (Storage.divCeil req.size chunkSize)
          chunkSize,
        { key := some key
          placementEpoch := placementEpoch E n
          placementPolicyId := placementPolicyId
          layoutHash := ""
          primaryNodeId := self.nodeId
          primaryGrpcEndpoint := self.grpcEndpoint
          primaryRdmaEndpoint := self.rdmaEndpoint
          chunks := plannedChunks E n key req.size chunkSize }))

/-- `pb::CommitDistributedPutRequest`。 -/
structure CommitRequest where
  key : Option ObjectKey
  descriptor : Option ObjectDescriptor
  chunks : List ChunkLocation
  metadata : Option KvMetadata
  options : Option PutOptions
deriving DecidableEq, Repr

def coversLayout (stripeCount : Nat) (chunks : List ChunkLocation) : Bool :=
  decide (chunks.length = stripeCount) &&
    (chunks.map ChunkLocation.stripeIndex == List.range chunks.length)

def committedMeta (now : Int) (req : CommitRequest) (desc : ObjectDescriptor)
    (chunks : List ChunkLocation) : BlockMeta :=
  let total := (chunks.map ChunkLocation.length).sum % 2 ^ 64
  { metaFromPb now req.metadata req.options with
    size := total
    objectGeneration := desc.objectGeneration
    layoutVersion := desc.layoutVersion
    objectHandle := desc.objectHandle
    contentEtag := desc.contentEtag
    filePath := ""
    deviceId := ((chunks.head?).map ChunkLocation.deviceId).getD 0
    striping := some {
      chunkSize := desc.chunkSize
      chunkDevices := chunks.map ChunkLocation.deviceId
      chunkPaths := chunks.map ChunkLocation.storageHandle
      totalSize := total
      chunkLocations := chunks
      chunkChecksums := chunks.map ChunkLocation.checksum } }

/-- `commit_distributed_put`。 -/
def commitDistributedPut (req : CommitRequest) : Svc ν Bool := do
  let key ← requireKey req.key "missing key"
  match req.descriptor with
  | none => throw ⟨.invalidArgument, "missing descriptor"⟩
  | some desc =>
    if req.chunks = [] then throw ⟨.invalidArgument, "no stripe locations"⟩
    else
      let chunks := sortLocations req.chunks
      if !coversLayout desc.stripeCount chunks then
        throw ⟨.invalidArgument, "stripe locations do not cover the prepared layout"⟩
      else if (E.cfg n).verifyStripeChecksums ∧ chunks.any (fun c => c.checksum = "") then
        throw ⟨.failedPrecondition,
          "stripe integrity is enabled but a stripe location lacks a checksum"⟩
      else
        let now ← clockNow
        let m := committedMeta now req desc chunks
        Memory.invalidate n key.toStringKey
        let later ← clockNow
        let committed ← liftRes (commitMeta key m (later + (E.cfg n).gcGraceSeconds)
          (putOptionsIfNotExists req.options))
        if !committed then
          rollbackChunks E n (chunks.map fun c => { c with nodeId := "" })
          pure false
        else pure true

/-! ## GC -/

def rescheduled (task : GcTask) (now : Int) : GcTask :=
  let attempts := min (task.attempts + 1) (2 ^ 32 - 1)
  { task with
    attempts := attempts
    notBefore := now + min (5 * 2 ^ min attempts 6) 300 }

/-- `reschedule_gc_task`。 -/
def rescheduleGcTask (task : GcTask) (now : Int) : Io ν Unit := do
  let _ ← (Metadata.rescheduleGcTask (rescheduled task now)).run
  pure ()

def gcTask (now : Int) (task : GcTask) : Io ν Unit := do
  match ObjectKey.fromStringKey task.key with
  | .error _ =>
    let _ ← (Metadata.completeGcTask task.id).run
    pure ()
  | .ok key =>
    match ← (Metadata.getBlock task.key).run with
    | .error _ => rescheduleGcTask task now
    | .ok current =>
      if current.any (fun m => m.identityMatches task.retired) then rescheduleGcTask task now
      else
        match ← (deleteDistributedChunks E n (placementFromMeta E n key task.retired)).run with
        | .error _ => rescheduleGcTask task now
        | .ok () =>
          match ← (Metadata.completeGcTask task.id).run with
          | .error _ => rescheduleGcTask task now
          | .ok () => pure ()

def gcTasks (now : Int) : List GcTask → Io ν Unit
  | [] => pure ()
  | task :: tasks => do
    gcTask E n now task
    gcTasks now tasks

/-- `run_gc_once`。 -/
def runGcOnce : Io ν Unit := do
  let now ← issue .now
  match ← (Metadata.takeDueGcTasks now (E.cfg n).gcMaxTasksPerRun
      (E.cfg n).gcTaskLeaseSeconds).run with
  | .error _ => pure ()
  | .ok tasks => gcTasks E n now tasks

end Service

end ContextStore
