import ContextStore.Conc.Conform
import ContextStore.Redis
import ContextStore.L1

/-!
# cluster の状態と命令

任意個の node が 1 つの Redis を共有し、各 node が自分の disk と L1 を持つ。
-/

namespace ContextStore

open Conc

/-! ## 設定 -/

/-- `DataNode`。 -/
structure DataNode where
  nodeId : String
  grpcEndpoint : String
  rdmaEndpoint : String
deriving DecidableEq, Repr

structure NodeConfig where
  router : ShardRouter
  stripingThreshold : Nat
  stripingChunkSizeCfg : Nat
  rdmaStreamChunkSizeCfg : Nat
  verifyStripeChecksums : Bool
  gcGraceSeconds : Nat
  gcMaxTasksPerRun : Nat
  gcTaskLeaseSeconds : Nat
  memoryCapacityMb : Nat
  slabCapacity : Option Nat
  apiListen : String
  clusterNodeId : String
  clusterGrpcAdvertise : String
  clusterRdmaAdvertise : String
  envNodeId : String
  envGrpcAdvertise : String
  envRdmaAdvertise : String
  clusterDataNodes : List DataNode
  envForceDiskRead : Bool

namespace NodeConfig

variable (c : NodeConfig)

def stripingChunkSize : Nat := max c.stripingChunkSizeCfg 1

theorem stripingChunkSize_pos : 0 < c.stripingChunkSize := by
  unfold stripingChunkSize; omega

def capacityBytes : Nat := c.memoryCapacityMb * 1024 * 1024

/-- `local_node`。 -/
def localNode : DataNode where
  nodeId := if c.envNodeId ≠ "" then c.envNodeId
    else if c.clusterNodeId ≠ "" then c.clusterNodeId else "local"
  grpcEndpoint := if c.envGrpcAdvertise ≠ "" then c.envGrpcAdvertise
    else if c.clusterGrpcAdvertise ≠ "" then c.clusterGrpcAdvertise else c.apiListen
  rdmaEndpoint := if c.envRdmaAdvertise ≠ "" then c.envRdmaAdvertise else c.clusterRdmaAdvertise

/-- `configured_data_nodes`。 -/
def configuredDataNodes : List DataNode :=
  if c.clusterDataNodes = [] then [c.localNode]
  else c.clusterDataNodes.map fun n =>
    { n with nodeId := if n.nodeId = "" then n.grpcEndpoint else n.nodeId }

theorem configuredDataNodes_ne_nil : c.configuredDataNodes ≠ [] := by
  unfold configuredDataNodes
  split
  · simp
  next h => simpa using h

/-- `is_local_node`。 -/
def isLocalNode (d : DataNode) : Bool :=
  d.nodeId == c.localNode.nodeId || d.grpcEndpoint == c.localNode.grpcEndpoint

end NodeConfig

structure Env (ν : Type) where
  ext : Externs
  cfg : ν → NodeConfig
  resolve : String → Option ν

/-! ## 命令 -/

inductive RedisCmd where
  | getBlock (key : String)
  | putBlockIfAbsent (key : String) (m : BlockMeta)
  | replaceBlock (key : String) (m : BlockMeta) (notBefore : Int)
  | retireBlock (key : String) (notBefore : Int)
  | retireBlockIfMatches (key : String) (expected : BlockMeta) (notBefore : Int)
  | deleteBlockIfMatches (key : String) (generation : Nat)
  | nextGeneration (key : String)
  | takeDueGcTasks (now : Int) (limit leaseSeconds : Nat)
  | zremInflight (id : String)
  | delTask (id : String)
  | hsetTask (id : String) (p : GcPayload)
  | zaddDue (id : String) (score : Int)
deriving DecidableEq

@[reducible] def RedisCmd.Reply : RedisCmd → Type
  | .getBlock _ => Option BlockMeta
  | .putBlockIfAbsent _ _ => Bool
  | .replaceBlock _ _ _ => Option BlockMeta
  | .retireBlock _ _ => Option BlockMeta
  | .retireBlockIfMatches _ _ _ => Bool
  | .deleteBlockIfMatches _ _ => Bool
  | .nextGeneration _ => Nat
  | .takeDueGcTasks _ _ _ => List GcPayload
  | .zremInflight _ => Unit
  | .delTask _ => Unit
  | .hsetTask _ _ => Unit
  | .zaddDue _ _ => Unit

def Redis.apply (X : Externs) (r : Redis) : (c : RedisCmd) → Redis × c.Reply
  | .getBlock key => (r, r.blocks key)
  | .putBlockIfAbsent key m => r.putBlockIfAbsent key m
  | .replaceBlock key m nb => r.replaceBlock X key m nb
  | .retireBlock key nb => r.retireBlock X key nb
  | .retireBlockIfMatches key m nb => r.retireBlockIfMatches X key m nb
  | .deleteBlockIfMatches key g => r.deleteBlockIfMatches key g
  | .nextGeneration key => r.nextGeneration key
  | .takeDueGcTasks now limit lease => r.takeDueGcTasks now limit lease
  | .zremInflight id => ({ r with gcInflight := r.gcInflight.rem id }, ())
  | .delTask id => ({ r with gcTasks := Function.update r.gcTasks id none }, ())
  | .hsetTask id p => ({ r with gcTasks := Function.update r.gcTasks id (some p) }, ())
  | .zaddDue id score => ({ r with gcDue := r.gcDue.add id score }, ())

inductive L1Cmd where
  | getCache (key : String)
  | getCacheMany (keys : List String)
  | getChunks (key : String)
  | popCache (key : String)
  | popChunks (key : String)
  | insertCache (key : String) (e : CacheEntry)
  | insertChunks (key : String) (e : ChunksCacheEntry) (budget : Option Nat)
  | evictToFree (need : Nat)

@[reducible] def L1Cmd.Reply : L1Cmd → Type
  | .getCache _ => Option CacheEntry
  | .getCacheMany _ => List (Option CacheEntry)
  | .getChunks _ => Option ChunksCacheEntry
  | .popCache _ => Unit
  | .popChunks _ => Unit
  | .insertCache _ _ => Unit
  | .insertChunks _ _ _ => Unit
  | .evictToFree _ => Unit

def L1.apply (capacity : Nat) (l : L1) : (c : L1Cmd) → L1 × c.Reply
  | .getCache key => l.getCache key
  | .getCacheMany keys => l.getCacheMany keys
  | .getChunks key => l.getChunks key
  | .popCache key => (l.popCache key, ())
  | .popChunks key => (l.popChunks key, ())
  | .insertCache key e => (l.insertCache key e capacity, ())
  | .insertChunks key e budget => (l.insertChunks key e budget, ())
  | .evictToFree need => (L1.evictToFree need l.chunksCache.length 0 l, ())

inductive LockClass where
  | storage
  | service
deriving DecidableEq, Repr

inductive Cmd (ν : Type) where
  | invoke (key : ObjectKey) (data : Bytes)
  | now
  | redis (c : RedisCmd)
  | reconnect
  | fileExists (n : ν) (path : String)
  | readFile (n : ν) (path : String)
  | readRange (n : ν) (path : String) (offset length : Nat)
  | writeFile (n : ν) (path : String) (data : Bytes)
  | deleteFile (n : ν) (path : String)
  | lock (n : ν) (cls : LockClass) (key : String)
  | unlock (n : ν) (cls : LockClass) (key : String)
  | l1 (n : ν) (c : L1Cmd)
  | net (dst : ν)
  | receive
  | slabAlloc (n : ν) (size : Nat)
  | pick (bound : Nat)

@[reducible] def Cmd.Resp {ν : Type} : Cmd ν → Type
  | .invoke _ _ => Unit
  | .now => Int
  | .redis c => Except String c.Reply
  | .reconnect => Except String Unit
  | .fileExists _ _ => Bool
  | .readFile _ _ => Except IoError Bytes
  | .readRange _ _ _ _ => Except IoError Bytes
  | .writeFile _ _ _ => Except IoError Unit
  | .deleteFile _ _ => Except IoError Unit
  | .lock _ _ _ => Unit
  | .unlock _ _ _ => Unit
  | .l1 _ c => c.Reply
  | .net _ => Except String Unit
  | .receive => Except String Unit
  | .slabAlloc _ _ => Bool
  | .pick _ => Nat

/-- 環境の選択。 -/
inductive Choice where
  | ok
  | fail (msg : String)
  | lost (msg : String)
  | num (i : Nat)
deriving DecidableEq, Repr

structure World (ν : Type) where
  redis : Redis
  disk : ν → String → Option Bytes
  l1 : ν → L1
  held : ν → LockClass → String → Bool
  clock : Int

def World.init {ν : Type} (clock : Int) : World ν :=
  ⟨Redis.empty, fun _ _ => none, fun _ => L1.empty, fun _ _ _ => false, clock⟩

section Exec

variable {ν : Type} [DecidableEq ν]

def setFile (d : ν → String → Option Bytes) (n : ν) (p : String) (v : Option Bytes) :
    ν → String → Option Bytes :=
  Function.update d n (Function.update (d n) p v)

def setLock (h : ν → LockClass → String → Bool) (n : ν) (cls : LockClass) (key : String)
    (b : Bool) : ν → LockClass → String → Bool :=
  Function.update h n (Function.update (h n) cls (Function.update (h n cls) key b))

theorem setLock_setLock {h : ν → LockClass → String → Bool} {n : ν} {cls : LockClass} {key : String}
    (hfree : h n cls key = false) : setLock (setLock h n cls key true) n cls key false = h := by
  simp [setLock, ← hfree]

def readWhole : Option Bytes → Except IoError Bytes
  | some data => .ok data
  | none => .error ⟨true, "No such file or directory (os error 2)"⟩

def exec (E : Env ν) : (c : Cmd ν) → Choice → World ν → Option (World ν × c.Resp)
  | .invoke _ _, .ok, w => some (w, ())
  | .now, .ok, w => some (w, w.clock)
  | .redis c, .ok, w =>
    let (r, reply) := w.redis.apply E.ext c
    some ({ w with redis := r }, .ok reply)
  | .redis c, .lost msg, w =>
    some ({ w with redis := (w.redis.apply E.ext c).1 }, .error msg)
  | .redis _, .fail msg, w => some (w, .error msg)
  | .reconnect, .ok, w => some (w, .ok ())
  | .reconnect, .fail msg, w => some (w, .error msg)
  | .fileExists n p, .ok, w => some (w, (w.disk n p).isSome)
  | .fileExists _ _, .fail _, w => some (w, false)
  | .readFile n p, .ok, w => some (w, readWhole (w.disk n p))
  | .readFile _ _, .fail msg, w => some (w, .error ⟨false, msg⟩)
  | .readRange n p off len, .ok, w =>
    some (w, (readWhole (w.disk n p)).map fun data => (data.drop off).take len)
  | .readRange _ _ _ _, .fail msg, w => some (w, .error ⟨false, msg⟩)
  | .writeFile n p data, .ok, w =>
    some ({ w with disk := setFile w.disk n p (some data) }, .ok ())
  | .writeFile _ _ _, .fail msg, w => some (w, .error ⟨false, msg⟩)
  | .deleteFile n p, .ok, w => some ({ w with disk := setFile w.disk n p none }, .ok ())
  | .deleteFile _ _, .fail msg, w => some (w, .error ⟨false, msg⟩)
  | .lock n cls key, .ok, w =>
    if w.held n cls key then none
    else some ({ w with held := setLock w.held n cls key true }, ())
  | .unlock n cls key, .ok, w => some ({ w with held := setLock w.held n cls key false }, ())
  | .l1 n c, .ok, w =>
    let (l, reply) := (w.l1 n).apply (E.cfg n).capacityBytes c
    some ({ w with l1 := Function.update w.l1 n l }, reply)
  | .net _, .ok, w => some (w, .ok ())
  | .net _, .fail msg, w => some (w, .error msg)
  | .receive, .ok, w => some (w, .ok ())
  | .receive, .fail msg, w => some (w, .error msg)
  | .slabAlloc _ _, .ok, w => some (w, true)
  | .slabAlloc _ _, .fail _, w => some (w, false)
  | .pick _, .num i, w => some (w, i)
  | _, _, _ => none

inductive EnvStep (ν : Type) where
  | tick (d : Nat)
  | loseFile (n : ν) (path : String)

def envStep : EnvStep ν → World ν → World ν
  | .tick d, w => { w with clock := w.clock + d }
  | .loseFile n p, w => { w with disk := setFile w.disk n p none }

end Exec

/-! ## program の型 -/

abbrev Io (ν : Type) := Prog (Cmd ν) Cmd.Resp

abbrev Res (ν : Type) := ExceptT KVError (Io ν)

abbrev issue {ν : Type} (c : Cmd ν) : Io ν c.Resp := Prog.issue c

end ContextStore
