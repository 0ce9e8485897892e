import ContextStore.Util.Lru
import ContextStore.Data

/-!
# memory tier の状態
-/

namespace ContextStore

/-- `cache` の要素。 -/
structure CacheEntry where
  data : Bytes
  blockMeta : BlockMeta
deriving DecidableEq, Repr

/-- `chunks_cache` の要素。 -/
structure ChunksCacheEntry where
  segments : List Bytes
  blockMeta : BlockMeta
  totalSize : Nat
  slab : Bool
deriving DecidableEq, Repr

structure L1 where
  cache : List (String × CacheEntry)
  chunksCache : List (String × ChunksCacheEntry)
  currentSize : UInt64

def maxCacheEntries : Nat := 1000000

namespace L1

def empty : L1 := ⟨[], [], 0⟩

variable (l : L1)

/-- `cache.get`。 -/
def getCache (key : String) : L1 × Option CacheEntry :=
  ({ l with cache := Lru.touch key l.cache }, Lru.peek key l.cache)

def getCacheMany (keys : List String) : L1 × List (Option CacheEntry) :=
  keys.foldl (fun acc key =>
    let (l, e) := acc.1.getCache key
    (l, acc.2 ++ [e])) (l, [])

/-- `chunks_cache.get`。 -/
def getChunks (key : String) : L1 × Option ChunksCacheEntry :=
  ({ l with chunksCache := Lru.touch key l.chunksCache }, Lru.peek key l.chunksCache)

/-- `invalidate_l1_entry` の前半。 -/
def popCache (key : String) : L1 :=
  match Lru.peek key l.cache with
  | none => l
  | some e => { l with
      cache := Lru.erase key l.cache
      currentSize := l.currentSize - UInt64.ofNat e.data.length }

/-- `invalidate_l1_entry` の後半。 -/
def popChunks (key : String) : L1 :=
  match Lru.peek key l.chunksCache with
  | none => l
  | some e => { l with
      chunksCache := Lru.erase key l.chunksCache
      currentSize := l.currentSize - UInt64.ofNat e.totalSize }

def evictCache (size capacity : Nat) : Nat → L1 → L1
  | 0, l => l
  | fuel + 1, l =>
    if capacity < l.currentSize.toNat + size then
      match l.cache.getLast? with
      | none => l
      | some e => evictCache size capacity fuel { l with
          cache := l.cache.dropLast
          currentSize := l.currentSize - UInt64.ofNat e.2.data.length }
    else l

/-- `cache_insert` の lock の中。 -/
def insertCache (key : String) (e : CacheEntry) (capacity : Nat) : L1 :=
  let size := e.data.length
  let l := evictCache size capacity l.cache.length l
  let freed := match Lru.peek key l.cache with
    | some old => UInt64.ofNat old.data.length
    | none => 0
  { l with
    cache := Lru.put maxCacheEntries key e l.cache
    currentSize := l.currentSize - freed + UInt64.ofNat size }

def evictChunks (size budget : Nat) : Nat → L1 → L1
  | 0, l => l
  | fuel + 1, l =>
    if budget < l.currentSize.toNat + size then
      match l.chunksCache.getLast? with
      | none => l
      | some e => evictChunks size budget fuel { l with
          chunksCache := l.chunksCache.dropLast
          currentSize := l.currentSize - UInt64.ofNat e.2.totalSize }
    else l

def insertChunks (key : String) (e : ChunksCacheEntry) (budget : Option Nat) : L1 :=
  let l := match budget with
    | some b => evictChunks e.totalSize b l.chunksCache.length l
    | none => l
  let freed := match Lru.peek key l.chunksCache with
    | some old => UInt64.ofNat old.totalSize
    | none => 0
  { l with
    chunksCache := Lru.put maxCacheEntries key e l.chunksCache
    currentSize := l.currentSize - freed + UInt64.ofNat e.totalSize }

def evictToFree (need : Nat) : Nat → Nat → L1 → L1
  | 0, _, l => l
  | fuel + 1, freed, l =>
    if freed < need then
      match l.chunksCache.getLast? with
      | none => l
      | some e => evictToFree need fuel (freed + e.2.totalSize) { l with
          chunksCache := l.chunksCache.dropLast
          currentSize := l.currentSize - UInt64.ofNat e.2.totalSize }
    else l

end L1

end ContextStore
