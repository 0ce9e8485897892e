import ContextStore.MemoryTier

/-!
# 配置
-/

namespace ContextStore

/-! ## gRPC の失敗 -/

inductive StatusCode where
  | invalidArgument
  | notFound
  | alreadyExists
  | failedPrecondition
  | internal
  | unavailable
deriving DecidableEq, Repr

/-- `tonic::Status`。 -/
structure Status where
  code : StatusCode
  message : String
deriving DecidableEq, Repr

def Status.ofKVError : KVError → Status
  | .notFound m => ⟨.notFound, m⟩
  | .alreadyExists m => ⟨.alreadyExists, m⟩
  | .invalidArgument m => ⟨.invalidArgument, m⟩
  | e => ⟨.internal, e.display⟩

/-- `as u32`。 -/
def u32 (n : Nat) : Nat := n % 2 ^ 32

theorem u32_of_lt {n : Nat} (h : n < 2 ^ 32) : u32 n = n := Nat.mod_eq_of_lt h

namespace ObjectKey

/-- `usize` の構文解析。 -/
def parseUsize (s : List Char) : Option Nat :=
  let digits := if s.head? = some '+' then s.tail else s
  if digits = [] ∨ !digits.all Char.isDigit then none
  else
    let value := digits.foldl (fun acc c => acc * 10 + (c.toNat - '0'.toNat)) 0
    if value < 2 ^ 64 then some value else none

def takeBytes (n : Nat) : List Char → Option (List Char × List Char)
  | [] => if n = 0 then some ([], []) else none
  | c :: rest =>
    if n = 0 then some ([], c :: rest)
    else if c.utf8Size ≤ n then
      (takeBytes (n - c.utf8Size) rest).map fun (a, b) => (c :: a, b)
    else none

/-- `from_string_key`。 -/
def fromStringKey (value : String) : Except KVError ObjectKey :=
  let lenPart := value.toList.takeWhile (· ≠ ':')
  match value.toList.dropWhile (· ≠ ':') with
  | [] => .error (.invalidArgument ("invalid object key encoding: " ++ value))
  | _ :: rest =>
    match parseUsize lenPart with
    | none => .error (.invalidArgument ("invalid namespace length in object key: " ++ value))
    | some nsLen =>
      match takeBytes nsLen rest with
      | none => .error (.invalidArgument ("invalid namespace boundary in object key: " ++ value))
      | some (ns, obj) => .ok ⟨String.ofList ns, String.ofList obj⟩

end ObjectKey

variable {ν : Type}

namespace Placement

variable (E : Env ν) (n : ν)

/-- `distributed_placement_enabled`。 -/
def distributedPlacementEnabled (len : Nat) : Bool :=
  decide (0 < (E.cfg n).stripingThreshold ∧ (E.cfg n).stripingThreshold < len ∧
    1 < (E.cfg n).configuredDataNodes.length)

def nodeBase (key : ObjectKey) : Nat :=
  (E.ext.hash64 (utf8 key.toStringKey)).toNat % (E.cfg n).configuredDataNodes.length

def selectDataNode (key : ObjectKey) (stripeIndex : Nat) : DataNode :=
  let nodes := (E.cfg n).configuredDataNodes
  nodes.getD ((nodeBase E n key + stripeIndex) % nodes.length) (E.cfg n).localNode

def isLocalSlot (key : ObjectKey) (offset : Nat) : Bool :=
  (E.cfg n).isLocalNode (selectDataNode E n key offset)

def localDeviceStripeIndex (key : ObjectKey) (stripeIndex : Nat) : Option Nat :=
  let nodes := (E.cfg n).configuredDataNodes
  let localCount := nodes.countP (E.cfg n).isLocalNode
  if localCount = 0 then none
  else if !isLocalSlot E n key stripeIndex then none
  else
    let fullCycles := stripeIndex / nodes.length
    let remainder := stripeIndex % nodes.length
    let localInPartialCycle := (List.range (remainder + 1)).countP (isLocalSlot E n key)
    some (fullCycles * localCount + localInPartialCycle - 1)

/-! ## descriptor -/

/-- `placement_policy_id`。 -/
def placementPolicyId : String := "object_hash_v1"

def epochSeed : String :=
  let head := "policy=" ++ placementPolicyId ++
    "|striping_threshold=" ++ toString (E.cfg n).stripingThreshold ++
    "|striping_chunk_size=" ++ toString (E.cfg n).stripingChunkSize ++
    "|devices=" ++ toString (E.cfg n).router.numDevices
  ((E.cfg n).configuredDataNodes.zipIdx).foldl (fun seed (node, idx) =>
    seed ++ "|node" ++ toString idx ++ "=" ++ node.nodeId ++ ":" ++ node.grpcEndpoint ++ ":" ++
      node.rdmaEndpoint) head

/-- `placement_epoch`。 -/
def placementEpoch : Nat := max (E.ext.hash64 (utf8 (epochSeed E n))).toNat 1

end Placement

/-- `pb::ObjectDescriptor`。 -/
structure ObjectDescriptor where
  key : Option ObjectKey
  objectHandle : String
  objectGeneration : Nat
  contentEtag : String
  layoutVersion : Nat
  size : Nat
  isStriped : Bool
  stripeCount : Nat
  chunkSize : Nat
deriving DecidableEq, Repr

/-- `pb::PlacementDescriptor`。 -/
structure PlacementDescriptor where
  key : Option ObjectKey
  placementEpoch : Nat
  placementPolicyId : String
  layoutHash : String
  primaryNodeId : String
  primaryGrpcEndpoint : String
  primaryRdmaEndpoint : String
  chunks : List ChunkLocation
deriving DecidableEq, Repr

namespace ChunkLocation

def node (c : ChunkLocation) : DataNode := ⟨c.nodeId, c.grpcEndpoint, c.rdmaEndpoint⟩

end ChunkLocation

namespace Placement

variable (E : Env ν) (n : ν)

def descriptorHandle (key : ObjectKey) (m : BlockMeta) : String :=
  if m.objectHandle ≠ "" then m.objectHandle
  else "v1:" ++ key.toStringKey ++ ":g" ++ toString m.objectGeneration ++ ":l" ++
    toString m.layoutVersion

/-- `descriptor_from_meta`。 -/
def descriptorFromMeta (key : ObjectKey) (m : BlockMeta) : ObjectDescriptor where
  key := some key
  objectHandle := descriptorHandle key m
  objectGeneration := m.objectGeneration
  contentEtag := m.contentEtag
  layoutVersion := m.layoutVersion
  size := m.size
  isStriped := m.striping.isSome
  stripeCount := match m.striping with
    | some s => u32 s.chunkPaths.length
    | none => 0
  chunkSize := match m.striping with
    | some s => s.chunkSize
    | none => 0

/-- `make_distributed_descriptor`。 -/
def makeDistributedDescriptor (key : ObjectKey) (m : BlockMeta) (stripeCount chunkSize : Nat) :
    ObjectDescriptor :=
  { descriptorFromMeta key m with
    isStriped := true, stripeCount := u32 stripeCount, chunkSize := chunkSize }

def chunksFromMeta (m : BlockMeta) : List ChunkLocation :=
  let self := (E.cfg n).localNode
  match m.striping with
  | some s =>
    if s.chunkLocations.length = s.chunkPaths.length then s.chunkLocations
    else s.chunkPaths.mapIdx fun i path => {
      stripeIndex := u32 i
      nodeId := self.nodeId
      grpcEndpoint := self.grpcEndpoint
      rdmaEndpoint := self.rdmaEndpoint
      deviceId := s.chunkDevices.getD i 0
      storageHandle := path
      offset := i * s.chunkSize
      length := min (s.totalSize - i * s.chunkSize) s.chunkSize
      checksum := s.chunkChecksums.getD i "" }
  | none => [{
      stripeIndex := 0
      nodeId := self.nodeId
      grpcEndpoint := self.grpcEndpoint
      rdmaEndpoint := self.rdmaEndpoint
      deviceId := m.deviceId
      storageHandle := m.filePath
      offset := 0
      length := m.size
      checksum := "" }]

def layoutSeed (key : ObjectKey) (m : BlockMeta) (epoch : Nat) (chunks : List ChunkLocation) :
    String :=
  let head := key.toStringKey ++ "|g" ++ toString m.objectGeneration ++ "|l" ++
    toString m.layoutVersion ++ "|epoch" ++ toString epoch ++ "|" ++ placementPolicyId ++ "|" ++
    toString chunks.length
  chunks.foldl (fun seed c =>
    seed ++ "|" ++ toString c.stripeIndex ++ ":" ++ c.nodeId ++ ":" ++ toString c.deviceId ++ ":" ++
      toString c.offset ++ ":" ++ c.storageHandle) head

/-- `placement_from_meta`。 -/
def placementFromMeta (key : ObjectKey) (m : BlockMeta) : PlacementDescriptor :=
  let chunks := chunksFromMeta E n m
  let epoch := placementEpoch E n
  { key := some key
    placementEpoch := epoch
    placementPolicyId := placementPolicyId
    layoutHash := hex16 (E.ext.hash64 (utf8 (layoutSeed key m epoch chunks)))
    primaryNodeId := (E.cfg n).localNode.nodeId
    primaryGrpcEndpoint := (E.cfg n).localNode.grpcEndpoint
    primaryRdmaEndpoint := (E.cfg n).localNode.rdmaEndpoint
    chunks := chunks }

/-- `placement_has_remote_chunks`。 -/
def placementHasRemoteChunks (p : PlacementDescriptor) : Bool :=
  p.chunks.any fun c => !(E.cfg n).isLocalNode c.node

/-! ## 検査 -/

/-- `key_from_descriptor`。 -/
def keyFromDescriptor (d : ObjectDescriptor) : Except Status ObjectKey :=
  match d.key with
  | some key => .ok key
  | none => .error ⟨.invalidArgument, "descriptor missing key"⟩

/-- `validate_descriptor`。 -/
def validateDescriptor (d : ObjectDescriptor) (m : BlockMeta) : Except Status Unit :=
  if d.objectGeneration ≠ m.objectGeneration ∨ d.contentEtag ≠ m.contentEtag ∨
      d.layoutVersion ≠ m.layoutVersion ∨ d.size ≠ m.size ∨ d.objectHandle ≠ m.objectHandle then
    .error ⟨.failedPrecondition, "stale descriptor"⟩
  else .ok ()

/-- `validate_placement_descriptor`。 -/
def validatePlacementDescriptor (key : ObjectKey) (m : BlockMeta)
    (placement : Option PlacementDescriptor) : Except Status Unit :=
  match placement with
  | none => .ok ()
  | some p =>
    match p.key with
    | none => .error ⟨.invalidArgument, "placement descriptor missing key"⟩
    | some k =>
      let expected := placementFromMeta E n key m
      if k ≠ key then .error ⟨.failedPrecondition, "stale placement descriptor"⟩
      else if p.placementEpoch ≠ expected.placementEpoch ∨
          p.placementPolicyId ≠ expected.placementPolicyId ∨
          p.layoutHash ≠ expected.layoutHash then
        .error ⟨.failedPrecondition, "stale placement descriptor"⟩
      else .ok ()

end Placement

end ContextStore
