import ContextStore.Conc.Prog
import ContextStore.Data
import ContextStore.Tensor.Index
import ContextStore.Util.OrderedDict

/-!
# host memory の L1

`contextstore/storage/host_memory.py` の `HostMemoryBackend`。
-/

namespace ContextStore

open Conc

abbrev CacheKey := String × String

def tensorBytes (t : Dense.Tensor) : Nat := t.numel * t.dtype.itemsize

/-- `HostMemoryBackend` の状態。 -/
structure HostCache (μ : Type) where
  cache : List (CacheKey × Bytes)
  tensorCache : List (CacheKey × Dense.Tensor)
  metaCache : List (String × μ)
  usedBytes : Int

namespace HostCache

variable {μ : Type}

def empty : HostCache μ := ⟨[], [], [], 0⟩

/-- `_evict_if_needed`。 -/
def evict (capacity : Int) : Nat → HostCache μ → HostCache μ
  | 0, c => c
  | fuel + 1, c =>
    if capacity < c.usedBytes then
      match c.cache, c.tensorCache with
      | (_, data) :: rest, _ =>
        evict capacity fuel { c with cache := rest, usedBytes := c.usedBytes - data.length }
      | [], (_, t) :: rest =>
        evict capacity fuel { c with tensorCache := rest, usedBytes := c.usedBytes - tensorBytes t }
      | [], [] => c
    else c

/-- `_evict_if_needed`。 -/
def evictIfNeeded (capacity : Int) (c : HostCache μ) : HostCache μ :=
  c.evict capacity (c.cache.length + c.tensorCache.length)

def setMeta (key : String) (m : Option μ) (c : HostCache μ) : HostCache μ :=
  match m with
  | none => c
  | some m => { c with metaCache := OrderedDict.set key m c.metaCache }

/-- `put` の lock の中。 -/
def put (capacity : Int) (ck : CacheKey) (data : Bytes) (m : Option μ) (c : HostCache μ) :
    HostCache μ :=
  let c := match Lru.peek ck c.cache with
    | some old => { c with
        cache := OrderedDict.moveToEnd ck c.cache
        usedBytes := c.usedBytes - old.length }
    | none => c
  let c := { c with
    cache := OrderedDict.set ck data c.cache
    usedBytes := c.usedBytes + data.length
    tensorCache := Lru.erase ck c.tensorCache }
  (c.setMeta ck.1 m).evictIfNeeded capacity

/-- `put_tensor` の lock の中。 -/
def putTensor (capacity : Int) (ck : CacheKey) (pinned : Dense.Tensor) (m : Option μ)
    (c : HostCache μ) : HostCache μ :=
  let freed : Int := match Lru.peek ck c.cache, Lru.peek ck c.tensorCache with
    | some old, _ => old.length
    | none, some old => tensorBytes old
    | none, none => 0
  let c := { c with
    tensorCache := OrderedDict.moveToEnd ck (OrderedDict.set ck pinned c.tensorCache)
    cache := Lru.erase ck c.cache
    usedBytes := c.usedBytes - freed + tensorBytes pinned }
  (c.setMeta ck.1 m).evictIfNeeded capacity

/-- `get_tensor`。 -/
def getTensor (ck : CacheKey) (c : HostCache μ) : HostCache μ × Option Dense.Tensor :=
  ({ c with tensorCache := OrderedDict.moveToEnd ck c.tensorCache }, Lru.peek ck c.tensorCache)

/-- `get` の最初の lock の中。 -/
def lookup (ck : CacheKey) (c : HostCache μ) : HostCache μ × Option Bytes :=
  ({ c with cache := OrderedDict.moveToEnd ck c.cache }, Lru.peek ck c.cache)

def insert (ck : CacheKey) (data : Bytes) (c : HostCache μ) : HostCache μ :=
  { c with
    cache := OrderedDict.moveToEnd ck (OrderedDict.set ck data c.cache)
    usedBytes := c.usedBytes + data.length }

def insertFetched (capacity : Int) (ck : CacheKey) (data : Bytes) (c : HostCache μ) : HostCache μ :=
  (c.insert ck data).evictIfNeeded capacity

def lookupOne (layer : String) (acc : HostCache μ × List (Option Bytes) × List (Nat × String))
    (ki : String × Nat) : HostCache μ × List (Option Bytes) × List (Nat × String) :=
  let (c, results, misses) := acc
  match Lru.peek (ki.1, layer) c.cache with
  | some data =>
    ({ c with cache := OrderedDict.moveToEnd (ki.1, layer) c.cache }, results.set ki.2 (some data),
      misses)
  | none => (c, results, misses ++ [(ki.2, ki.1)])

def lookupMany (keys : List String) (layer : String) (c : HostCache μ) :
    HostCache μ × List (Option Bytes) × List (Nat × String) :=
  keys.zipIdx.foldl (lookupOne layer) (c, List.replicate keys.length none, [])

def insertOne (layer : String) (acc : HostCache μ × List (Option Bytes))
    (x : (Nat × String) × Option Bytes) : HostCache μ × List (Option Bytes) :=
  let c := match x.2 with
    | none => acc.1
    | some data => acc.1.insert (x.1.2, layer) data
  (c, acc.2.set x.1.1 x.2)

def insertMany (capacity : Int) (layer : String) (misses : List (Nat × String))
    (fetched : List (Option Bytes)) (results : List (Option Bytes)) (c : HostCache μ) :
    HostCache μ × List (Option Bytes) :=
  let (c, results) := (misses.zip fetched).foldl (insertOne layer) (c, results)
  (c.evictIfNeeded capacity, results)

/-- `delete` の lock の中。 -/
def delete (key : String) (c : HostCache μ) : HostCache μ :=
  { cache := c.cache.filter fun e => e.1.1 ≠ key
    tensorCache := c.tensorCache.filter fun e => e.1.1 ≠ key
    metaCache := Lru.erase key c.metaCache
    usedBytes := c.usedBytes
      - ((c.cache.filter fun e => e.1.1 = key).map fun e => (e.2.length : Int)).sum
      - ((c.tensorCache.filter fun e => e.1.1 = key).map fun e => (tensorBytes e.2 : Int)).sum }

end HostCache

/-! ## 命令 -/

inductive HostSection (μ : Type) where
  | put (ck : CacheKey) (data : Bytes) (m : Option μ)
  | putTensor (ck : CacheKey) (pinned : Dense.Tensor) (m : Option μ)
  | getTensor (ck : CacheKey)
  | lookup (ck : CacheKey)
  | insertFetched (ck : CacheKey) (data : Bytes)
  | lookupMany (keys : List String) (layer : String)
  | insertMany (layer : String) (misses : List (Nat × String)) (fetched : List (Option Bytes))
      (results : List (Option Bytes))
  | delete (key : String)

@[reducible] def HostSection.Reply {μ : Type} : HostSection μ → Type
  | .put _ _ _ => Unit
  | .putTensor _ _ _ => Unit
  | .getTensor _ => Option Dense.Tensor
  | .lookup _ => Option Bytes
  | .insertFetched _ _ => Unit
  | .lookupMany _ _ => List (Option Bytes) × List (Nat × String)
  | .insertMany _ _ _ _ => List (Option Bytes)
  | .delete _ => Unit

def HostCache.apply {μ : Type} (capacity : Int) (c : HostCache μ) :
    (s : HostSection μ) → HostCache μ × s.Reply
  | .put ck data m => (c.put capacity ck data m, ())
  | .putTensor ck pinned m => (c.putTensor capacity ck pinned m, ())
  | .getTensor ck => c.getTensor ck
  | .lookup ck => c.lookup ck
  | .insertFetched ck data => (c.insertFetched capacity ck data, ())
  | .lookupMany keys layer => c.lookupMany keys layer
  | .insertMany layer misses fetched results => c.insertMany capacity layer misses fetched results
  | .delete key => (c.delete key, ())

inductive HostCmd (μ : Type) where
  | put (key layer : String) (data : Bytes) (m : Option μ)
  | get (key layer : String)
  | getParallel (keys : List String) (layer : String)
  | delete (key : String)
  | putChunks (key layer : String) (segments : List Bytes) (m : Option μ)
  | getChunks (key layer : String)
  | putChunksFrom (key layer : String) (region offset size : Nat) (content : Bytes)
  | locked (s : HostSection μ)

@[reducible] def HostCmd.Resp {μ : Type} : HostCmd μ → Type
  | .put _ _ _ _ => Unit
  | .get _ _ => Option Bytes
  | .getParallel _ _ => List (Option Bytes)
  | .delete _ => Unit
  | .putChunks _ _ _ _ => Unit
  | .getChunks _ _ => Option (List Bytes)
  | .putChunksFrom _ _ _ _ _ _ => Bool
  | .locked s => s.Reply

structure Caps where
  putChunks : Bool
  getChunks : Bool
  putChunksFrom : Bool
deriving DecidableEq, Repr

namespace HostMemory

variable {μ : Type}

abbrev Io (μ : Type) := Prog (HostCmd μ) HostCmd.Resp

abbrev issue (c : HostCmd μ) : Io μ c.Resp := Prog.issue c

abbrev locked (s : HostSection μ) : Io μ s.Reply := Prog.issue (HostCmd.locked s)

def put (key layer : String) (data : Bytes) (m : Option μ) : Io μ Unit := do
  let () ← issue (.put key layer data m)
  let () ← locked (.put (key, layer) data m)
  pure ()

def putTensor (key layer : String) (tensor : Dense.Tensor) (data : Bytes) (m : Option μ) :
    Io μ Unit := do
  let () ← issue (.put key layer data m)
  let () ← locked (.putTensor (key, layer) tensor m)
  pure ()

def getTensor (key layer : String) : Io μ (Option Dense.Tensor) := locked (.getTensor (key, layer))

def get (key layer : String) : Io μ (Option Bytes) := do
  match ← locked (.lookup (key, layer)) with
  | some data => pure (some data)
  | none =>
    match ← issue (.get key layer) with
    | none => pure none
    | some data =>
      let () ← locked (.insertFetched (key, layer) data)
      pure (some data)

def delete (key : String) : Io μ Unit := do
  let () ← locked (.delete key)
  let () ← issue (.delete key)
  pure ()

def fetchMisses (layer : String) (results : List (Option Bytes)) (misses : List (Nat × String)) :
    Io μ (List (Option Bytes)) :=
  if misses = [] then pure results
  else do
    let fetched ← issue (.getParallel (misses.map Prod.snd) layer)
    locked (.insertMany layer misses fetched results)

def getParallel (keys : List String) (layer : String) : Io μ (List (Option Bytes)) := do
  let looked ← locked (.lookupMany keys layer)
  fetchMisses layer looked.1 looked.2

variable (caps : Caps)

def putChunks (key layer : String) (segments : List Bytes) (m : Option μ) : Io μ Unit :=
  if caps.putChunks then issue (.putChunks key layer segments m)
  else put key layer segments.flatten m

def getChunks (key layer : String) : Io μ (Option (List Bytes)) :=
  if caps.getChunks then issue (.getChunks key layer)
  else do
    let data ← get key layer
    pure (data.map fun d => [d])

def putChunksFrom (key layer : String) (region offset size : Nat) (content : Bytes) : Io μ Bool :=
  if caps.putChunksFrom then issue (.putChunksFrom key layer region offset size content)
  else pure false

end HostMemory

/-! ## 操作 -/

/-- 呼び出し。 -/
inductive HostOp (μ : Type) where
  | put (key layer : String) (data : Bytes) (m : Option μ)
  | putTensor (key layer : String) (tensor : Dense.Tensor) (data : Bytes) (m : Option μ)
  | putChunks (key layer : String) (segments : List Bytes) (m : Option μ)
  | putChunksFrom (key layer : String) (region offset size : Nat) (content : Bytes)
  | getTensor (key layer : String)
  | get (key layer : String)
  | getParallel (keys : List String) (layer : String)
  | getChunks (key layer : String)
  | delete (key : String)

inductive HostAnswer where
  | done
  | bytes (data : Option Bytes)
  | many (data : List (Option Bytes))
  | chunks (data : Option (List Bytes))
  | tensor (t : Option Dense.Tensor)
  | flag (ok : Bool)

def HostOp.prog {μ : Type} (caps : Caps) : HostOp μ → HostMemory.Io μ HostAnswer
  | .put key layer data m => do
    let () ← HostMemory.put key layer data m
    pure .done
  | .putTensor key layer tensor data m => do
    let () ← HostMemory.putTensor key layer tensor data m
    pure .done
  | .putChunks key layer segments m => do
    let () ← HostMemory.putChunks caps key layer segments m
    pure .done
  | .putChunksFrom key layer region offset size content => do
    let ok ← HostMemory.putChunksFrom caps key layer region offset size content
    pure (.flag ok)
  | .getTensor key layer => do
    let t ← HostMemory.getTensor key layer
    pure (.tensor t)
  | .get key layer => do
    let data ← HostMemory.get key layer
    pure (.bytes data)
  | .getParallel keys layer => do
    let data ← HostMemory.getParallel keys layer
    pure (.many data)
  | .getChunks key layer => do
    let data ← HostMemory.getChunks caps key layer
    pure (.chunks data)
  | .delete key => do
    let () ← HostMemory.delete key
    pure .done

end ContextStore
