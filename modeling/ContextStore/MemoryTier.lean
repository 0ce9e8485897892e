import ContextStore.StorageRead

/-!
# memory tier

`kv-service/server/src/memory_tier.rs`。
-/

namespace ContextStore

open Conc

variable {ν : Type}

def l1 (n : ν) (c : L1Cmd) : Io ν c.Reply := issue (.l1 n c)

namespace Memory

variable (E : Env ν) (n : ν)

def invalidate (key : String) : Io ν Unit := do
  let () ← l1 n (.popCache key)
  let () ← l1 n (.popChunks key)
  pure ()

/-- `cache_insert`。 -/
def cacheInsert (key : String) (data : Bytes) (m : BlockMeta) : Io ν Unit := do
  if (E.cfg n).capacityBytes < data.length then pure ()
  else
    invalidate n key
    let () ← l1 n (.insertCache key ⟨data, m⟩)
    pure ()

def maybeSlabBacked (totalSize : Nat) : Io ν Bool :=
  match (E.cfg n).slabCapacity with
  | none => pure false
  | some _ => issue (.slabAlloc n totalSize)

/-- `chunks_cache_insert`。 -/
def chunksCacheInsert (key : String) (segments : List Bytes) (m : BlockMeta) (totalSize : Nat) :
    Io ν Unit := do
  if (E.cfg n).capacityBytes < totalSize then pure ()
  else
    invalidate n key
    let slab ← maybeSlabBacked E n totalSize
    let () ← l1 n (.insertChunks key ⟨segments, m, totalSize, slab⟩ (some (E.cfg n).capacityBytes))
    pure ()

/-- `insert_chunks_from_slab`。 -/
def insertChunksFromSlab (key : String) (extent : Bytes) (m : BlockMeta) : Io ν Unit := do
  if extent.length = 0 then pure ()
  else
    invalidate n key
    let budget := max (E.cfg n).capacityBytes ((E.cfg n).slabCapacity.getD 0)
    let () ← l1 n (.insertChunks key ⟨[extent], m, extent.length, true⟩
      (if 0 < budget then some budget else none))
    pure ()

/-- `purge_expired_l1_entry`。 -/
def purgeExpiredL1Entry (key : ObjectKey) (m : BlockMeta) : Res ν Unit := do
  invalidate n key.toStringKey
  let _ ← Storage.purgeIfExpired E n key m
  pure ()

/-! ## 読み出し -/

def fromL1 {α : Type} (key : ObjectKey) (entry : Option α) (metaOf : α → BlockMeta)
    (usable : BlockMeta → Bool) : Res ν (Option (Option α)) := do
  match entry with
  | none => pure (some none)
  | some e =>
    if ← Storage.isExpired (metaOf e) then
      purgeExpiredL1Entry E n key (metaOf e)
      pure none
    else pure (some (if usable (metaOf e) then some e else none))

def getOr (key : ObjectKey) (usable : BlockMeta → Bool)
    (fallback : Res ν (Option (Bytes × BlockMeta))) : Res ν (Option (Bytes × BlockMeta)) := do
  let entry ← l1 n (.getCache key.toStringKey)
  match ← fromL1 E n key entry CacheEntry.blockMeta usable with
  | none => pure none
  | some (some e) => pure (some (e.data, e.blockMeta))
  | some none =>
    match ← fallback with
    | none => pure none
    | some (data, m) =>
      cacheInsert E n key.toStringKey data m
      pure (some (data, m))

def getChunksOr (key : ObjectKey) (usable : BlockMeta → Bool)
    (fallback : Res ν (Option (List Bytes × BlockMeta))) :
    Res ν (Option (List Bytes × BlockMeta)) := do
  let entry ← l1 n (.getChunks key.toStringKey)
  match ← fromL1 E n key entry ChunksCacheEntry.blockMeta usable with
  | none => pure none
  | some (some e) => pure (some (e.segments, e.blockMeta))
  | some none =>
    match ← fallback with
    | none => pure none
    | some (segments, m) =>
      chunksCacheInsert E n key.toStringKey segments m (segments.map List.length).sum
      pure (some (segments, m))

/-- `get`。 -/
def get (key : ObjectKey) : Res ν (Option (Bytes × BlockMeta)) :=
  getOr E n key (fun _ => true) (Storage.get E n key)

/-- `get_with_meta`。 -/
def getWithMeta (key : ObjectKey) (expected : BlockMeta) : Res ν (Option (Bytes × BlockMeta)) :=
  getOr E n key (fun m => m.identityMatches expected) (Storage.getWithMeta E n key expected)

/-- `get_chunks`。 -/
def getChunks (key : ObjectKey) : Res ν (Option (List Bytes × BlockMeta)) :=
  getChunksOr E n key (fun _ => true) (Storage.getChunks E n key)

/-- `get_chunks_with_meta`。 -/
def getChunksWithMeta (key : ObjectKey) (expected : BlockMeta) :
    Res ν (Option (List Bytes × BlockMeta)) :=
  getChunksOr E n key (fun m => m.identityMatches expected)
    (Storage.getChunksWithMeta E n key expected)

/-- `peek_chunks`。 -/
def peekChunks (key : ObjectKey) : Io ν (Option (List Bytes × BlockMeta)) := do
  let entry ← l1 n (.getChunks key.toStringKey)
  pure (entry.map fun e => (e.segments, e.blockMeta))

def getChunksSlab (key : ObjectKey) : Io ν (Option (List Bytes × BlockMeta)) := do
  let entry ← l1 n (.getChunks key.toStringKey)
  match entry with
  | none => pure none
  | some e =>
    let now ← issue .now
    if e.blockMeta.isExpiredAt now then
      invalidate n key.toStringKey
      let _ ← (Storage.purgeIfExpired E n key e.blockMeta).run
      pure none
    else pure (if e.slab then some (e.segments, e.blockMeta) else none)

/-- `exists`。 -/
def exists_ (key : ObjectKey) : Res ν Bool := do
  let entry ← l1 n (.getCache key.toStringKey)
  match ← fromL1 E n key entry CacheEntry.blockMeta (fun _ => true) with
  | none => pure false
  | some (some _) => pure true
  | some none =>
    let entry ← l1 n (.getChunks key.toStringKey)
    match ← fromL1 E n key entry ChunksCacheEntry.blockMeta (fun _ => true) with
    | none => pure false
    | some (some _) => pure true
    | some none => Storage.exists_ E n key

abbrev GetResult := Except KVError (Option (Bytes × BlockMeta))

def splitCached (now : Int) : List ObjectKey → List (Option CacheEntry) →
    List (Option GetResult) × List (ObjectKey × BlockMeta) × List ObjectKey
  | key :: keys, entry :: entries =>
    let (results, expired, toFetch) := splitCached now keys entries
    match entry with
    | none => (none :: results, expired, key :: toFetch)
    | some e =>
      if e.blockMeta.isExpiredAt now then
        (some (.ok none) :: results, (key, e.blockMeta) :: expired, toFetch)
      else (some (.ok (some (e.data, e.blockMeta))) :: results, expired, toFetch)
  | _, _ => ([], [], [])

def purgeBatch (keys : List ObjectKey) :
    List (ObjectKey × BlockMeta) → List (Option GetResult) → Io ν (List (Option GetResult))
  | [], results => pure results
  | (key, m) :: expired, results => do
    invalidate n key.toStringKey
    let results ← match ← (Storage.purgeIfExpired E n key m).run with
      | .ok _ => pure results
      | .error e => pure (results.set (keys.idxOf key) (some (.error e)))
    purgeBatch keys expired results

def insertResult (key : ObjectKey) : GetResult → Io ν Unit
  | .ok (some (data, m)) => cacheInsert E n key.toStringKey data m
  | _ => pure ()

def insertFetched : List ObjectKey → List GetResult → Io ν Unit
  | key :: keys, r :: rs => do
    insertResult E n key r
    insertFetched keys rs
  | _, _ => pure ()

def mergeFetched : List (Option GetResult) → List GetResult → List GetResult
  | [], _ => []
  | some r :: results, fetched => r :: mergeFetched results fetched
  | none :: results, r :: fetched => r :: mergeFetched results fetched
  | none :: results, [] => .ok none :: mergeFetched results []

def fetchMissing (keys : List ObjectKey) : Io ν (List GetResult) :=
  if keys = [] then pure [] else Storage.getBatch E n keys

/-- `get_batch`。 -/
def getBatch (keys : List ObjectKey) : Io ν (List GetResult) := do
  let entries ← l1 n (.getCacheMany (keys.map ObjectKey.toStringKey))
  let now ← issue .now
  let (results, expired, toFetch) := splitCached now keys entries
  let results ← purgeBatch E n keys expired results
  let fetched ← fetchMissing E n toFetch
  insertFetched E n toFetch fetched
  pure (mergeFetched results fetched)

/-! ## 書き込み -/

def storedMeta (key : ObjectKey) (fallback : BlockMeta) : Res ν BlockMeta := do
  let m ← Metadata.getBlock key.toStringKey
  pure (m.getD fallback)

/-- `put`。 -/
def put (key : ObjectKey) (data : Bytes) (m : BlockMeta) : Res ν Unit := do
  Storage.put E n key data m
  let stored ← storedMeta key m
  invalidate n key.toStringKey
  cacheInsert E n key.toStringKey data stored

/-- `put_if_absent`。 -/
def putIfAbsent (key : ObjectKey) (data : Bytes) (m : BlockMeta) : Res ν Bool := do
  if !(← Storage.putIfAbsent E n key data m) then pure false
  else
    let stored ← storedMeta key m
    invalidate n key.toStringKey
    cacheInsert E n key.toStringKey data stored
    pure true

/-- `put_chunks`。 -/
def putChunks (key : ObjectKey) (segments : List Bytes) (m : BlockMeta) : Res ν Unit := do
  Storage.putChunks E n key segments m
  let stored ← storedMeta key m
  invalidate n key.toStringKey
  chunksCacheInsert E n key.toStringKey segments stored (segments.map List.length).sum

/-- `put_chunks_if_absent`。 -/
def putChunksIfAbsent (key : ObjectKey) (segments : List Bytes) (m : BlockMeta) : Res ν Bool := do
  if !(← Storage.putChunksIfAbsent E n key segments m) then pure false
  else
    let stored ← storedMeta key m
    invalidate n key.toStringKey
    chunksCacheInsert E n key.toStringKey segments stored (segments.map List.length).sum
    pure true

def insertWritten (key : ObjectKey) (data : Bytes) (m : BlockMeta) :
    Except KVError Unit → Io ν Unit
  | .ok () => do
    let stored ← (storedMeta key m).run
    invalidate n key.toStringKey
    cacheInsert E n key.toStringKey data (stored.toOption.getD m)
  | .error _ => pure ()

def insertStored : List (ObjectKey × Bytes × BlockMeta) → List (Except KVError Unit) → Io ν Unit
  | (key, data, m) :: items, r :: rs => do
    insertWritten E n key data m r
    insertStored items rs
  | _, _ => pure ()

/-- `put_batch`。 -/
def putBatch (items : List (ObjectKey × Bytes × BlockMeta)) : Io ν (List (Except KVError Unit)) :=
  do
  let results ← Storage.putBatch E n items
  insertStored E n items results
  pure results

end Memory

end ContextStore
