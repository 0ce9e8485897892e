import ContextStore.Paths

/-!
# KV service の backend

`contextstore/storage/kvservice.py` の `KVServiceBackend`。
-/

namespace ContextStore

open Conc

structure KvConfig where
  parallel : Nat
  parallel_pos : 0 < parallel
  rdmaFallbackToGrpc : Bool
  supportsPut : Bool
  supportsDescriptorGet : Nat → Bool
  rdmaBufSizeMb : Nat

/-- `_encode_object_key`。 -/
def encodeObjectKey (key layer : String) : String :=
  toString key.utf8ByteSize ++ ":" ++ key ++ layer

def Kv.partitionCount (total n : Nat) : List Nat :=
  if n ≤ 1 then [total]
  else (List.range n).map fun i => if i < total % n then total / n + 1 else total / n

namespace KvConfig

variable (cfg : KvConfig)

/-- `i` 番の lane の layer 名。 -/
def partLayer (layer : String) (i : Nat) : String :=
  if cfg.parallel = 1 then layer
  else layer ++ "_p" ++ toString i ++ "of" ++ toString cfg.parallel

/-- `i` 番の lane の object。 -/
def laneKey (key layer : String) (i : Nat) : String := encodeObjectKey key (cfg.partLayer layer i)

def laneSegments (segments : List Bytes) (i : Nat) : List Bytes :=
  let sizes := Kv.partitionCount segments.length cfg.parallel
  (segments.drop (sizes.take i).sum).take (sizes.getD i 0)

/-- `i` 番の lane に書くもの。 -/
def partSegments (segments : List Bytes) (i : Nat) : List Bytes :=
  if cfg.parallel = 1 then segments
  else if (cfg.laneSegments segments i).isEmpty then [[0]] else cfg.laneSegments segments i

def bufSize : Nat := max (cfg.rdmaBufSizeMb / cfg.parallel) 256 * 1024 * 1024

def received (data : Bytes) : Bytes := if data.length ≤ cfg.bufSize then data else []

end KvConfig

def rdmaPutThreshold : Nat := 4 * 1024 * 1024

/-! ## 命令 -/

inductive KvCmd where
  | rdmaEnabled
  | pool
  | resetPool
  | rdmaPut (okey : String) (segments : List Bytes)
  | putStream (okey : String) (segments : List Bytes)
  | lookup (okey : String)
  | getDescriptor (okey : String) (version : Nat)
  | rdmaGet (okey : String)
  | getStream (okey : String)
  | exists (okey : String)
  | delete (okey : String)
  | pick (bound : Nat)

@[reducible] def KvCmd.Resp : KvCmd → Type
  | .rdmaEnabled => Bool
  | .pool => Bool
  | .resetPool => Unit
  | .rdmaPut _ _ => Except Unit Bool
  | .putStream _ _ => Except Unit Bool
  | .lookup _ => Except Unit (Option Nat)
  | .getDescriptor _ _ => Except Unit Bytes
  | .rdmaGet _ => Except Unit Bytes
  | .getStream _ => Except Unit (Option (List Bytes))
  | .exists _ => Except Unit Bool
  | .delete _ => Except Unit Unit
  | .pick _ => Nat

abbrev KvIo := Prog KvCmd KvCmd.Resp

abbrev KvHist := Trace KvCmd KvCmd.Resp

namespace Kv

variable (cfg : KvConfig)

abbrev issue (c : KvCmd) : KvIo c.Resp := Prog.issue c

def pickLane (bound : Nat) : KvIo Nat := issue (.pick bound)

/-! ## 書き込み -/

/-- `supports_rdma_put`。 -/
def supportsRdmaPut : KvIo Bool := do
  let enabled ← issue .rdmaEnabled
  if !enabled || cfg.parallel ≠ 1 then pure false
  else
    let pool ← issue .pool
    pure (pool && cfg.supportsPut)

/-- `_try_rdma_put`。 -/
def tryRdmaPut (okey : String) (segments : List Bytes) : Nat → KvIo Bool
  | 0 => pure false
  | left + 1 => do
    if !(← supportsRdmaPut cfg) then pure false
    else if !(← issue .pool) then pure false
    else
      match ← issue (.rdmaPut okey segments) with
      | .ok done => pure done
      | .error _ =>
        if left = 0 then pure false
        else
          let () ← issue .resetPool
          tryRdmaPut okey segments left

def rdmaPutFirst (okey : String) (segments : List Bytes) : KvIo (Option (Except Unit Unit)) := do
  if cfg.parallel ≠ 1 then pure none
  else if !(← issue .rdmaEnabled) then pure none
  else if segments.flatten.length < rdmaPutThreshold then pure none
  else if ← tryRdmaPut cfg okey segments 2 then pure (some (.ok ()))
  else if !cfg.rdmaFallbackToGrpc then pure (some (.error ()))
  else pure none

def succeeded : Except Unit Bool → Bool
  | .ok true => true
  | _ => false

/-- `put_chunks`。 -/
def putChunks (key layer : String) (segments : List Bytes) : KvIo (Except Unit Unit) := do
  match ← rdmaPutFirst cfg (cfg.laneKey key layer 0) segments with
  | some r => pure r
  | none =>
    let rs ← joinAll pickLane ((List.range cfg.parallel).map fun i =>
      issue (.putStream (cfg.laneKey key layer i) (cfg.partSegments segments i)))
    pure (if rs.all succeeded then .ok () else .error ())

/-! ## 読み出し -/

def lookupDescriptor (okey : String) : KvIo (Option Nat) := do
  match ← issue (.lookup okey) with
  | .ok d => pure d
  | .error _ => pure none

def rdmaGetOne (lane : Nat) (okey : String) : KvIo (Except Unit Bytes) := do
  match ← lookupDescriptor okey, cfg.supportsDescriptorGet lane with
  | some d, true =>
    match ← issue (.getDescriptor okey d) with
    | .error e => pure (.error e)
    | .ok [] =>
      match ← lookupDescriptor okey with
      | some fresh => if fresh ≠ d then issue (.getDescriptor okey fresh) else pure (.ok [])
      | none => pure (.ok [])
    | .ok data => pure (.ok data)
  | _, _ => issue (.rdmaGet okey)

inductive Verdict where
  | hit
  | miss
  | broken
deriving DecidableEq

def verdict : List (Except Unit Bytes) → Verdict
  | [] => .hit
  | .error _ :: _ => .broken
  | .ok [] :: _ => .miss
  | .ok _ :: rest => verdict rest

def rdmaMerge (datas : List Bytes) : Option (List Bytes) :=
  let merged := datas.filter fun data => data.length ≠ 1
  if merged.isEmpty then none else some merged

/-- `_get_chunks_rdma`。 -/
def getChunksRdma (key layer : String) : Nat → KvIo (Except Unit (Option (List Bytes)))
  | 0 => pure (.error ())
  | left + 1 => do
    if !(← issue .pool) then pure (.error ())
    else
      let results ← joinAll pickLane ((List.range cfg.parallel).map fun i =>
        rdmaGetOne cfg i (cfg.laneKey key layer i))
      match verdict results with
      | .miss => pure (.ok none)
      | .hit => pure (.ok (rdmaMerge (results.filterMap Except.toOption)))
      | .broken =>
        if left = 0 then pure (.error ())
        else
          let () ← issue .resetPool
          getChunksRdma key layer left

def getOne (okey : String) : KvIo (Option (List Bytes)) := do
  match ← issue (.getStream okey) with
  | .ok r => pure r
  | .error _ => pure none

def mergeParts (parts : List (List Bytes)) : Option (List Bytes) :=
  let merged := parts.flatten.filter fun seg => seg != [0]
  if merged.isEmpty then none else some merged

def grpcMerge (parts : List (Option (List Bytes))) : Option (List Bytes) :=
  if !parts.all Option.isSome then none
  else if cfg.parallel = 1 then
    if (parts.filterMap id).flatten.isEmpty then none else some (parts.filterMap id).flatten
  else mergeParts (parts.filterMap id)

def getChunksGrpc (key layer : String) : KvIo (Option (List Bytes)) := do
  let parts ← joinAll pickLane ((List.range cfg.parallel).map fun i =>
    getOne (cfg.laneKey key layer i))
  pure (grpcMerge cfg parts)

def rdmaGetFirst (key layer : String) : KvIo (Option (Except Unit (Option (List Bytes)))) := do
  if !(← issue .rdmaEnabled) then pure none
  else
    match ← getChunksRdma cfg key layer 2 with
    | .ok r => pure (some (.ok r))
    | .error _ => if cfg.rdmaFallbackToGrpc then pure none else pure (some (.error ()))

/-- `get_chunks`。 -/
def getChunks (key layer : String) : KvIo (Except Unit (Option (List Bytes))) := do
  match ← rdmaGetFirst cfg key layer with
  | some r => pure r
  | none =>
    let r ← getChunksGrpc cfg key layer
    pure (.ok r)

def combinedLayer : String := "__combined__"

/-- `exists`。 -/
def existsKey (key : String) : KvIo Bool := do
  match ← issue (.exists (encodeObjectKey key combinedLayer)) with
  | .ok found => pure found
  | .error _ => pure false

/-- `delete`。 -/
def deleteKey (key : String) : KvIo Unit := do
  let _ ← issue (.delete (encodeObjectKey key combinedLayer))
  pure ()

end Kv

/-! ## server -/

structure KvObject where
  version : Nat
  content : Bytes
deriving DecidableEq

structure KvWorld where
  objects : String → Option KvObject
  nextVersion : Nat
  rdmaEnabled : Bool
  connected : Bool

/-- 環境の選択。 -/
inductive KvChoice where
  | ok
  | refuse
  | fail
  | lost
  | chunks (cs : List Bytes)
  | num (i : Nat)

def KvChoice.commits : KvChoice → Bool
  | .ok => true
  | .lost => true
  | _ => false

namespace KvWorld

def contentD (objects : String → Option KvObject) (okey : String) : Bytes :=
  ((objects okey).map KvObject.content).getD []

def put (w : KvWorld) (okey : String) (content : Bytes) : KvWorld :=
  { w with
    objects := fun k => if k = okey then some ⟨w.nextVersion, content⟩ else w.objects k
    nextVersion := w.nextVersion + 1 }

def erase (w : KvWorld) (okey : String) : KvWorld :=
  { w with objects := fun k => if k = okey then none else w.objects k }

def ofVersion (objects : String → Option KvObject) (okey : String) (version : Nat) : Bytes :=
  match objects okey with
  | some o => if o.version = version then o.content else []
  | none => []

def exec (cfg : KvConfig) : (c : KvCmd) → KvChoice → KvWorld → Option (KvWorld × c.Resp)
  | .rdmaEnabled, .ok, w => some (w, w.rdmaEnabled)
  | .pool, .ok, w => some ({ w with connected := true }, true)
  | .pool, .fail, w =>
    if w.connected then none
    else some ({ w with rdmaEnabled := w.rdmaEnabled && !cfg.rdmaFallbackToGrpc }, false)
  | .resetPool, .ok, w => some ({ w with connected := false }, ())
  | .rdmaPut okey segments, .ok, w =>
    if segments.flatten.length ≤ cfg.bufSize then some (w.put okey segments.flatten, .ok true)
    else some (w, .ok false)
  | .rdmaPut okey segments, .lost, w =>
    if segments.flatten.length ≤ cfg.bufSize then some (w.put okey segments.flatten, .error ())
    else none
  | .rdmaPut _ _, .fail, w => some (w, .error ())
  | .putStream okey segments, .ok, w => some (w.put okey segments.flatten, .ok true)
  | .putStream okey segments, .lost, w => some (w.put okey segments.flatten, .error ())
  | .putStream _ _, .refuse, w => some (w, .ok false)
  | .putStream _ _, .fail, w => some (w, .error ())
  | .lookup okey, .ok, w => some (w, .ok ((w.objects okey).map KvObject.version))
  | .lookup _, .refuse, w => some (w, .ok none)
  | .lookup _, .fail, w => some (w, .error ())
  | .getDescriptor okey version, .ok, w =>
    some (w, .ok (cfg.received (ofVersion w.objects okey version)))
  | .getDescriptor _ _, .fail, w => some (w, .error ())
  | .rdmaGet okey, .ok, w => some (w, .ok (cfg.received (contentD w.objects okey)))
  | .rdmaGet _, .fail, w => some (w, .error ())
  | .getStream okey, .chunks cs, w =>
    match w.objects okey with
    | some o => if cs.flatten = o.content then some (w, .ok (some cs)) else none
    | none => none
  | .getStream okey, .ok, w =>
    match w.objects okey with
    | some _ => none
    | none => some (w, .ok none)
  | .getStream _, .fail, w => some (w, .error ())
  | .exists okey, .ok, w => some (w, .ok (w.objects okey).isSome)
  | .exists _, .fail, w => some (w, .error ())
  | .delete okey, .ok, w => some (w.erase okey, .ok ())
  | .delete okey, .lost, w => some (w.erase okey, .error ())
  | .delete _, .fail, w => some (w, .error ())
  | .pick _, .num i, w => some (w, i)
  | _, _, _ => none

end KvWorld

/-- `n` 個の lane の設定。 -/
def Kv.laneConfig (n : Nat) (h : 0 < n) : KvConfig := ⟨n, h, true, true, fun _ => true, 512⟩

def Kv.emptyWorld (rdmaEnabled : Bool) : KvWorld := ⟨fun _ => none, 0, rdmaEnabled, false⟩

end ContextStore
