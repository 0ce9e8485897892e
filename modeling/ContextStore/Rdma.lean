import ContextStore.Service

/-!
# RDMA の data plane

`kv-service/server/src/rdma/server.rs` の GET と PUT。
-/

namespace ContextStore

open Conc

variable {ν : Type}

/-- `anyhow::Result` を返す関数。 -/
abbrev Any (ν : Type) := ExceptT String (Io ν)

def liftAny {α : Type} (x : Res ν α) : Any ν α :=
  ExceptT.mk (x.run >>= fun r => .ret (r.mapError KVError.display))

def clientIo : Any ν Unit := ExceptT.mk (issue .receive)

namespace Rdma

variable (E : Env ν) (n : ν)

/-- `parse_string_key`。 -/
def parseStringKey (s : String) : Except String ObjectKey :=
  (ObjectKey.fromStringKey s).mapError fun e =>
    "invalid key format: " ++ s ++ " (" ++ e.display ++ ")"

def chunkIsLocal (c : NodeConfig) (l : ChunkLocation) : Bool :=
  let nodeId := if c.envNodeId ≠ "" then c.envNodeId else c.clusterNodeId
  let grpc := if c.envGrpcAdvertise ≠ "" then c.envGrpcAdvertise else c.clusterGrpcAdvertise
  let rdma := if c.envRdmaAdvertise ≠ "" then c.envRdmaAdvertise else c.clusterRdmaAdvertise
  nodeId ≠ "" && l.nodeId == nodeId || grpc ≠ "" && l.grpcEndpoint == grpc ||
    rdma ≠ "" && l.rdmaEndpoint == rdma

def placementSpansMultipleNodes (m : BlockMeta) : Bool :=
  match m.striping with
  | none => false
  | some s =>
    let ids := (s.chunkLocations.map fun l =>
      if l.nodeId ≠ "" then l.nodeId
      else if l.rdmaEndpoint ≠ "" then l.rdmaEndpoint else l.grpcEndpoint).filter (· ≠ "")
    match ids with
    | [] => false
    | first :: rest => rest.any (· ≠ first)

/-! ## slab の確保 -/

def maxEvictRounds : Nat := 5

def allocRetry (size cap : Nat) : Nat → Nat → Io ν Bool
  | 0, _ => pure false
  | rounds + 1, mult => do
    let () ← l1 n (.evictToFree (min (size * mult) cap))
    if ← issue (.slabAlloc n size) then pure true
    else allocRetry size cap rounds (mult * 2)

def allocExtent (size : Nat) : Io ν (Option Bool) :=
  match (E.cfg n).slabCapacity with
  | none => pure none
  | some cap => do
    if ← issue (.slabAlloc n size) then pure (some true)
    else
      let ok ← allocRetry n size cap maxEvictRounds 2
      pure (some ok)

def extentCapacity (size : Nat) : Nat := (size + 4095) / 4096 * 4096

/-! ## GET -/

def postEvents : Nat → List (Nat × Except KVError Bytes) → Any ν Bytes
  | _, [] => pure []
  | i, (expected, .ok data) :: events =>
    if data.length = expected then do
      clientIo
      let rest ← postEvents (i + 1) events
      pure (data ++ rest)
    else throw ("stripe " ++ toString i ++ " short read: expected " ++ toString expected ++
      " bytes, got " ++ toString data.length)
  | i, (_, .error e) :: _ => throw ("stripe " ++ toString i ++ " read failed: " ++ e.display)

def tryServeGetViaSlabWithMeta (key : ObjectKey) (m : BlockMeta) (maxSize : Nat) :
    Any ν (Option Bytes) := do
  if m.size = 0 then pure (some [])
  else if maxSize < m.size then
    throw ("client buf too small: size=" ++ toString m.size ++ " max=" ++ toString maxSize)
  else
    match ← allocExtent E n m.size with
    | none => throw "rdma slab not set"
    | some false => throw ("slab full after 5 evict rounds (need " ++ toString m.size ++ " bytes)")
    | some true =>
      match ← attempt (liftAny (Storage.getIntoPtrStreamWithMeta E n key m
          (extentCapacity m.size))) with
      | .error e => throw ("storage.get_into_ptr_stream: " ++ e)
      | .ok none => pure none
      | .ok (some events) =>
        let data ← postEvents 0 events
        if events = [] then throw "no stripes posted"
        else
          if !(E.cfg n).envForceDiskRead then
            Memory.insertChunksFromSlab E n key.toStringKey data m
          pure (some data)

def cacheLookup (key : ObjectKey) : Io ν (Option (List Bytes × BlockMeta)) :=
  if (E.cfg n).envForceDiskRead then pure none else Memory.getChunksSlab E n key

def serveGet (segments : List Bytes) (maxSize : Nat) : Any ν (Option Bytes) := do
  if maxSize < segments.flatten.length then pure none
  else
    clientIo
    pure (some segments.flatten)

def serveMiss (key : ObjectKey) (maxSize : Nat) : Any ν (Except String (Option Bytes)) := do
  match ← liftAny (Metadata.getBlock key.toStringKey) with
  | none => pure (.ok none)
  | some m =>
    if placementSpansMultipleNodes m then pure (.ok none)
    else if ← liftAny (Storage.isExpired m) then
      let _ ← liftAny (Storage.purgeIfExpired E n key m)
      pure (.ok none)
    else attempt (tryServeGetViaSlabWithMeta E n key m maxSize)

def keyGet (rawKey : String) (maxSize : Nat) : Any ν (Option Bytes) := do
  let key ← ofExcept (parseStringKey rawKey)
  match ← cacheLookup E n key with
  | some (segments, _) => serveGet segments maxSize
  | none =>
    match ← serveMiss E n key maxSize with
    | .ok r => pure r
    | .error _ =>
      match ← attempt (liftAny (Memory.getChunks E n key)) with
      | .ok (some (segments, _)) => serveGet segments maxSize
      | .ok none => pure none
      | .error _ => pure none

/-- `meta_matches_descriptor`。 -/
def metaMatchesDescriptor (m : BlockMeta) (d : ObjectDescriptor) : Bool :=
  m.objectHandle == d.objectHandle && m.objectGeneration == d.objectGeneration &&
  m.contentEtag == d.contentEtag && m.layoutVersion == d.layoutVersion && m.size == d.size

def checkDescriptor (d : ObjectDescriptor) : Except String Unit :=
  if d.objectHandle = "" then .error "descriptor missing object_handle"
  else if d.objectGeneration = 0 ∨ d.layoutVersion = 0 then
    .error ("descriptor has invalid version: generation=" ++ toString d.objectGeneration ++
      " layout=" ++ toString d.layoutVersion)
  else if d.isStriped ∧ (d.stripeCount = 0 ∨ d.chunkSize = 0) then
    .error "striped descriptor missing stripe layout"
  else .ok ()

def descriptorGet (rawKey : String) (d : ObjectDescriptor) (maxSize : Nat) :
    Any ν (Option Bytes) := do
  let key ← ofExcept (parseStringKey rawKey)
  ofExcept (checkDescriptor d)
  match ← liftAny (Metadata.getBlock key.toStringKey) with
  | none => pure none
  | some active =>
    if ← liftAny (Storage.isExpired active) then
      let _ ← liftAny (Storage.purgeIfExpired E n key active)
      pure none
    else if !metaMatchesDescriptor active d then pure none
    else if placementSpansMultipleNodes active then pure none
    else
      match (← cacheLookup E n key).filter (fun e => metaMatchesDescriptor e.2 d) with
      | some (segments, _) => serveGet segments maxSize
      | none =>
        match ← attempt (tryServeGetViaSlabWithMeta E n key active maxSize) with
        | .ok r => pure r
        | .error _ =>
          match ← attempt (liftAny (Storage.getChunksWithMeta E n key active)) with
          | .ok (some (segments, _)) => serveGet segments maxSize
          | .ok none => pure none
          | .error _ => pure none

/-! ## PUT -/

/-- `PUT_RESULT_*`。 -/
inductive PutResult where
  | stored
  | exists_
  | failed
deriving DecidableEq, Repr

def putMeta (now : Int) (ttlSeconds : Int) : BlockMeta where
  deviceId := 0
  filePath := ""
  size := 0
  objectHandle := ""
  objectGeneration := 1
  contentEtag := ""
  layoutVersion := 1
  createdAt := now
  lastAccessedAt := now
  ttlSeconds := max ttlSeconds 0
  numTokens := 0
  numLayers := 1
  dtype := "uint8"
  compressed := false
  striping := none

def maxPutSize : Nat := 4 * 1024 * 1024 * 1024

def injectStored (rawKey : String) (data : Bytes) : Io ν Unit := do
  match ← (Metadata.getBlock rawKey).run with
  | .ok (some m) => Memory.insertChunksFromSlab E n rawKey data m
  | _ => pure ()

/-- `handle_put`。 -/
def handlePut (rawKey : String) (data : Bytes) (ttlSeconds : Int) (ifNotExists : Bool) :
    Any ν PutResult := do
  if data.length = 0 ∨ maxPutSize < data.length then pure .failed
  else if (← allocExtent E n data.length) ≠ some true then pure .failed
  else
    clientIo
    let key ← ofExcept (parseStringKey rawKey)
    let now ← liftAny timestamp
    let m := putMeta now ttlSeconds
    let r ← attempt (liftAny (if ifNotExists then Storage.putFromPtrWithOptions E n key data m true
      else do
        Storage.putFromPtr E n key data m
        pure true))
    match r with
    | .error _ => pure .failed
    | .ok false => pure .exists_
    | .ok true =>
      injectStored E n rawKey data
      pure .stored

structure PutStripeLocation where
  stripeIndex : Nat
  deviceId : Nat
  storageHandle : String
  checksum : String
deriving DecidableEq, Repr

def rollbackStripes : List PutStripeLocation → Io ν Unit
  | [] => pure ()
  | l :: ls => do
    let _ ← (Storage.deletePlacementChunk E n l.storageHandle).run
    rollbackStripes ls

def writeStripes (key : ObjectKey) (generation layoutVersion : Nat) :
    List (Nat × Bytes) → List PutStripeLocation → Io ν (Option (List PutStripeLocation))
  | [], locations => pure (some locations)
  | (idx, data) :: stripes, locations => do
    match ← (Storage.putPlacementChunk E n key idx locations.length generation layoutVersion
        data).run with
    | .ok (deviceId, handle, checksum) =>
      writeStripes key generation layoutVersion stripes
        (locations ++ [⟨idx, deviceId, handle, checksum⟩])
    | .error _ =>
      rollbackStripes E n locations
      pure none

def refusesStripes (chunkSize : Nat) (stripes : List (Nat × Bytes)) : Bool :=
  let total := (stripes.map fun s => s.2.length).sum
  stripes.isEmpty || total == 0 || decide (maxPutSize < total) ||
    stripes.any fun s => s.2.length == 0 || decide (chunkSize < s.2.length)

/-- `handle_put_stripes`。 -/
def handlePutStripes (rawKey : String) (generation layoutVersion chunkSize : Nat)
    (stripes : List (Nat × Bytes)) : Any ν (Option (List PutStripeLocation)) := do
  let total := (stripes.map fun s => s.2.length).sum
  if refusesStripes chunkSize stripes then pure none
  else if (E.cfg n).slabCapacity.isNone then pure none
  else if !(← issue (.slabAlloc n total)) then pure none
  else
    clientIo
    let key ← ofExcept (parseStringKey rawKey)
    writeStripes E n key generation layoutVersion stripes []

end Rdma

end ContextStore
