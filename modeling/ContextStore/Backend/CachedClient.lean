import ContextStore.Conc.System
import ContextStore.Placement
import ContextStore.Util.OrderedDict
import Mathlib.Data.List.Sort

/-!
# descriptor を覚える client

`contextstore/kvservice_client/client.py` の `get_cached` と `get_stream_chunks_cached`。
-/

namespace ContextStore

open Conc

namespace Client

/-! ## 型 -/

structure Descriptor where
  key : ObjectKey
  objectHandle : String
  objectGeneration : Nat
  contentEtag : String
  layoutVersion : Nat
  size : Nat
  isStriped : Bool
  stripeCount : Nat
  chunkSize : Nat
deriving DecidableEq

structure Placement where
  key : ObjectKey
  placementEpoch : Nat
  placementPolicyId : String
  layoutHash : String
  primaryNodeId : String
  primaryGrpcEndpoint : String
  primaryRdmaEndpoint : String
  chunks : List ChunkLocation
deriving DecidableEq

/-- `_to_pb_descriptor`。 -/
def Descriptor.toPb (d : Descriptor) : ObjectDescriptor where
  key := some d.key
  objectHandle := d.objectHandle
  objectGeneration := d.objectGeneration
  contentEtag := d.contentEtag
  layoutVersion := d.layoutVersion
  size := d.size
  isStriped := d.isStriped
  stripeCount := d.stripeCount
  chunkSize := d.chunkSize

/-- `_from_pb_descriptor`。 -/
def Descriptor.fromPb (d : ObjectDescriptor) : Descriptor where
  key := d.key.getD ⟨"", ""⟩
  objectHandle := d.objectHandle
  objectGeneration := d.objectGeneration
  contentEtag := d.contentEtag
  layoutVersion := d.layoutVersion
  size := d.size
  isStriped := d.isStriped
  stripeCount := d.stripeCount
  chunkSize := d.chunkSize

/-- `_to_pb_placement`。 -/
def Placement.toPb (p : Placement) : PlacementDescriptor where
  key := some p.key
  placementEpoch := p.placementEpoch
  placementPolicyId := p.placementPolicyId
  layoutHash := p.layoutHash
  primaryNodeId := p.primaryNodeId
  primaryGrpcEndpoint := p.primaryGrpcEndpoint
  primaryRdmaEndpoint := p.primaryRdmaEndpoint
  chunks := p.chunks

/-- `_from_pb_placement`。 -/
def Placement.fromPb (p : PlacementDescriptor) : Placement where
  key := p.key.getD ⟨"", ""⟩
  placementEpoch := p.placementEpoch
  placementPolicyId := p.placementPolicyId
  layoutHash := p.layoutHash
  primaryNodeId := p.primaryNodeId
  primaryGrpcEndpoint := p.primaryGrpcEndpoint
  primaryRdmaEndpoint := p.primaryRdmaEndpoint
  chunks := p.chunks

/-- `ObjectLookupResult`。 -/
structure LookupResult where
  descriptor : Descriptor
  placement : Option Placement
deriving DecidableEq

/-- `ReadByDescriptor` の応答。 -/
structure DataRead where
  data : Bytes
  descriptor : Descriptor
  placement : Option Placement
deriving DecidableEq

structure StreamRead where
  chunks : List Bytes
  descriptor : Option Descriptor
  placement : Option Placement
deriving DecidableEq

/-- `_same_descriptor_identity`。 -/
def sameDescriptorIdentity (a b : Descriptor) : Bool :=
  a.objectHandle == b.objectHandle && a.objectGeneration == b.objectGeneration &&
    a.contentEtag == b.contentEtag && a.layoutVersion == b.layoutVersion && a.size == b.size

/-- `_same_content_identity`。 -/
def sameContentIdentity (a b : Descriptor) : Bool :=
  a.objectGeneration == b.objectGeneration && a.contentEtag == b.contentEtag && a.size == b.size

def Placement.requiresChunkFanout (p : Placement) : Bool :=
  let endpoint (c : ChunkLocation) : String :=
    if c.grpcEndpoint = "" then p.primaryGrpcEndpoint else c.grpcEndpoint
  1 < p.chunks.length && 1 < (p.chunks.map endpoint).dedup.length

end Client

open Client

/-! ## 命令 -/

/-- 命令。 -/
inductive ClientCmd where
  | cachedLookup (key : ObjectKey)
  | cacheDescriptor (d : Descriptor) (p : Option Placement)
  | evict (key : ObjectKey)
  | lookup (key : ObjectKey)
  | readByDescriptor (d : Descriptor) (p : Option Placement)
  | readStream (d : Descriptor) (p : Option Placement)
  | readChunk (d : Descriptor) (p : Placement) (c : ChunkLocation)
  | pick (bound : Nat)

@[reducible] def ClientCmd.Resp : ClientCmd → Type
  | .cachedLookup _ => Option LookupResult
  | .cacheDescriptor _ _ => Unit
  | .evict _ => Unit
  | .lookup _ => Except StatusCode (Option LookupResult)
  | .readByDescriptor _ _ => Except StatusCode (Option DataRead)
  | .readStream _ _ => Except StatusCode StreamRead
  | .readChunk _ _ _ => Except StatusCode Bytes
  | .pick _ => Nat

abbrev ClientIo := Prog ClientCmd ClientCmd.Resp

abbrev ClientEvent := Event ClientCmd ClientCmd.Resp

abbrev ClientHist := Trace ClientCmd ClientCmd.Resp

namespace Client

abbrev issue (c : ClientCmd) : ClientIo c.Resp := Prog.issue c

def pickNext (bound : Nat) : ClientIo Nat := issue (.pick bound)

def gather (cmds : List ClientCmd) : ClientIo (List ClientEvent) :=
  joinAll pickNext (cmds.map fun c => do
    let r ← issue c
    pure ⟨c, r⟩)

/-! ## 読み出し -/

/-- 読めたもの。 -/
structure Got (α : Type) where
  value : α
  descriptor : Descriptor
  placement : Option Placement

structure ReadKind (α : Type) where
  commands : Descriptor → Option Placement → List ClientCmd
  result : Descriptor → Option Placement → List ClientEvent → Except StatusCode (Option (Got α))

/-- `LookupObject` の応答。 -/
def looked : Option ClientEvent → Except StatusCode (Option LookupResult)
  | some ⟨.lookup _, r⟩ => r
  | _ => .error .internal

def objectRead : ReadKind Bytes where
  commands d p := [.readByDescriptor d p]
  result _ _
    | [⟨.readByDescriptor _ _, r⟩] =>
      r.map fun found => found.map fun read => ⟨read.data, read.descriptor, read.placement⟩
    | _ => .error .internal

def piece : ClientEvent → Except StatusCode (Nat × Bytes)
  | ⟨.readChunk _ _ c, r⟩ => r.map fun data => (c.stripeIndex, data)
  | _ => .error .internal

def assemble (indexed : List (Nat × Bytes)) : List Bytes :=
  (indexed.insertionSort fun a b => a.1 ≤ b.1).map (·.2)

def streamRead : ReadKind (List Bytes) where
  commands d
    | some p =>
      if p.requiresChunkFanout then p.chunks.map (.readChunk d p) else [.readStream d (some p)]
    | none => [.readStream d none]
  result d p
    | [⟨.readStream _ _, r⟩] =>
      r.map fun read => some ⟨read.chunks, read.descriptor.getD d, read.placement <|> p⟩
    | events => (events.mapM piece).map fun indexed => some ⟨assemble indexed, d, p⟩

section
variable {α : Type} (kind : ReadKind α) (key : ObjectKey) (strict : Bool)

/-- `_cache_lookup`。 -/
def cacheLookup (l : LookupResult) : ClientIo Unit :=
  issue (.cacheDescriptor l.descriptor l.placement)

def readByFreshLookup (l : LookupResult) : ClientIo (Except StatusCode (Option α)) := do
  let events ← gather (kind.commands l.descriptor l.placement)
  match kind.result l.descriptor l.placement events with
  | .error e => pure (.error e)
  | .ok none =>
    let () ← issue (.evict l.descriptor.key)
    pure (.ok none)
  | .ok (some got) =>
    let () ← issue (.cacheDescriptor got.descriptor got.placement)
    pure (.ok (some got.value))

def readAfterLookup : ClientIo (Except StatusCode (Option α)) := do
  match ← issue (.lookup key) with
  | .error e => pure (.error e)
  | .ok none =>
    let () ← issue (.evict key)
    pure (.ok none)
  | .ok (some l) =>
    let () ← cacheLookup l
    readByFreshLookup kind l

def withoutLookup (e : StatusCode) (read : Except StatusCode (Option (Got α))) :
    ClientIo (Except StatusCode (Option α)) := do
  if strict then pure (.error e)
  else
    match read with
    | .ok (some got) =>
      let () ← issue (.cacheDescriptor got.descriptor got.placement)
      pure (.ok (some got.value))
    | _ =>
      let () ← issue (.evict key)
      pure (.ok none)

def withLookup (fresh : LookupResult) (read : Except StatusCode (Option (Got α))) :
    ClientIo (Except StatusCode (Option α)) := do
  let () ← cacheLookup fresh
  match read with
  | .error code =>
    if code = .failedPrecondition ∨ code = .notFound then readByFreshLookup kind fresh
    else pure (.error code)
  | .ok none => readByFreshLookup kind fresh
  | .ok (some got) =>
    if sameDescriptorIdentity got.descriptor fresh.descriptor then pure (.ok (some got.value))
    else if sameContentIdentity got.descriptor fresh.descriptor then
      let () ← cacheLookup fresh
      pure (.ok (some got.value))
    else readByFreshLookup kind fresh

def cachedRead : ClientIo (Except StatusCode (Option α)) := do
  match ← issue (.cachedLookup key) with
  | none => readAfterLookup kind key
  | some cached =>
    let events ← gather (.lookup key :: kind.commands cached.descriptor cached.placement)
    let read := kind.result cached.descriptor cached.placement events.tail
    match looked events.head? with
    | .error e => withoutLookup key strict e read
    | .ok none =>
      let () ← issue (.evict key)
      pure (.ok none)
    | .ok (some fresh) => withLookup kind fresh read

end

/-- `get_cached`。 -/
def getCached (key : ObjectKey) (strict : Bool) : ClientIo (Except StatusCode (Option Bytes)) :=
  cachedRead objectRead key strict

/-- `get_stream_chunks_cached`。 -/
def getStreamChunksCached (key : ObjectKey) (strict : Bool) :
    ClientIo (Except StatusCode (Option (List Bytes))) :=
  cachedRead streamRead key strict

end Client

structure Files where
  file : (nodeId storageHandle : String) → Option Bytes
  content : ObjectKey → BlockMeta → Bytes

structure ClientWorld where
  current : ObjectKey → Option BlockMeta
  cache : List (String × LookupResult)
  capacity : Nat

inductive ClientChoice (ν : Type) where
  | ok
  | serve (n : ν) (withDescriptor withPlacement : Bool) (chunks : List Bytes)
  | fail (code : StatusCode)
  | num (i : Nat)

namespace ClientWorld

/-- `_cached_lookup`。 -/
def cachedLookup (w : ClientWorld) (key : ObjectKey) : ClientWorld × Option LookupResult :=
  if w.capacity = 0 then (w, none)
  else
    match Lru.peek key.toStringKey w.cache with
    | none => (w, none)
    | some r => ({ w with cache := OrderedDict.moveToEnd key.toStringKey w.cache }, some r)

/-- `_cache_descriptor`。 -/
def cacheDescriptor (w : ClientWorld) (d : Descriptor) (p : Option Placement) : ClientWorld :=
  if w.capacity = 0 then w
  else
    let cacheKey := d.key.toStringKey
    let placement := p <|> (Lru.peek cacheKey w.cache).bind LookupResult.placement
    let cache := OrderedDict.moveToEnd cacheKey (OrderedDict.set cacheKey ⟨d, placement⟩ w.cache)
    { w with cache := cache.drop (cache.length - w.capacity) }

/-- `_evict_descriptor`。 -/
def evict (w : ClientWorld) (key : ObjectKey) : ClientWorld :=
  { w with cache := Lru.erase key.toStringKey w.cache }

variable {ν : Type} (E : Env ν) (F : Files)

def validates (n : ν) (m : BlockMeta) (d : Descriptor) (p : Option Placement) : Bool :=
  (Placement.validateDescriptor d.toPb m).isOk &&
    (Placement.validatePlacementDescriptor E n d.key m (p.map Placement.toPb)).isOk

def servedDescriptor (key : ObjectKey) (m : BlockMeta) : Descriptor :=
  .fromPb (Placement.descriptorFromMeta key m)

def servedPlacement (n : ν) (key : ObjectKey) (m : BlockMeta) (withPlacement : Bool) :
    Option Placement :=
  if withPlacement then some (.fromPb (Placement.placementFromMeta E n key m)) else none

def exec : (c : ClientCmd) → ClientChoice ν → ClientWorld → Option (ClientWorld × c.Resp)
  | .cachedLookup key, .ok, w => some (w.cachedLookup key)
  | .cacheDescriptor d p, .ok, w => some (w.cacheDescriptor d p, ())
  | .evict key, .ok, w => some (w.evict key, ())
  | .lookup key, .serve n _ withPlacement _, w =>
    some (w, .ok ((w.current key).map fun m =>
      ⟨servedDescriptor key m, servedPlacement E n key m withPlacement⟩))
  | .lookup _, .fail code, w => some (w, .error code)
  | .readByDescriptor d p, .serve n _ withPlacement _, w =>
    match w.current d.key with
    | none => some (w, .ok none)
    | some m =>
      if validates E n m d p then
        some (w, .ok (some ⟨F.content d.key m, servedDescriptor d.key m,
          servedPlacement E n d.key m withPlacement⟩))
      else some (w, .error .failedPrecondition)
  | .readByDescriptor _ _, .fail code, w => some (w, .error code)
  | .readStream d p, .serve n withDescriptor withPlacement chunks, w =>
    match w.current d.key with
    | none => some (w, .error .notFound)
    | some m =>
      if validates E n m d p then
        if chunks.flatten = F.content d.key m then
          some (w, .ok ⟨chunks, if withDescriptor then some (servedDescriptor d.key m) else none,
            servedPlacement E n d.key m withPlacement⟩)
        else none
      else some (w, .error .failedPrecondition)
  | .readStream _ _, .fail code, w => some (w, .error code)
  | .readChunk d p c, .serve n _ _ _, w =>
    match w.current d.key with
    | none => some (w, .error .notFound)
    | some m =>
      if validates E n m d (some p) then
        match F.file c.nodeId c.storageHandle with
        | none => some (w, .error .notFound)
        | some data => some (w, .ok data)
      else some (w, .error .failedPrecondition)
  | .readChunk _ _ _, .fail code, w => some (w, .error code)
  | .pick _, .num i, w => some (w, i)
  | _, _, _ => none

end ClientWorld

end ContextStore
