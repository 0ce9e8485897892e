import ContextStore.Metadata

/-!
# storage tier: 書き込み

`kv-service/server/src/storage_tier.rs` の書き込み側。
-/

namespace ContextStore

open Conc

variable {ν : Type}

def withLock {ε α : Type} (n : ν) (cls : LockClass) (key : String)
    (body : ExceptT ε (Io ν) α) : ExceptT ε (Io ν) α := ExceptT.mk do
  let () ← issue (.lock n cls key)
  let r ← body.run
  let () ← issue (.unlock n cls key)
  pure r

def pickNext (bound : Nat) : Io ν Nat := issue (.pick bound)

/-! ## executor -/

/-- `executor.file_exists`。 -/
def fileExists (n : ν) (path : String) : Io ν Bool := issue (.fileExists n path)

/-- `executor.delete_file`。 -/
def deleteFile (n : ν) (path : String) : Io ν (Except IoError Unit) := issue (.deleteFile n path)

/-- `write_file_on_device`。 -/
def writeFile (n : ν) (path : String) (data : Bytes) : Io ν (Except IoError Unit) :=
  issue (.writeFile n path data)

def ofIo {α : Type} (x : Except IoError α) : Res ν α :=
  match x with
  | .ok a => pure a
  | .error e => throw (.io e)

def ofExcept {ε α : Type} (x : Except ε α) : ExceptT ε (Io ν) α := ExceptT.mk (.ret x)

def writeBatch (n : ν) (items : List (String × Bytes)) : Io ν (List (Except IoError Unit)) :=
  joinAll pickNext (items.map fun it => writeFile n it.1 it.2)

namespace Storage

variable (E : Env ν) (n : ν)

/-! ## 検査和 -/

/-- `checksum_bytes`。 -/
def checksumBytes (data : Bytes) : String := hex16 (E.ext.hash64 data)

/-- `checksum_segments`。 -/
def checksumSegments (segments : List Bytes) : String := checksumBytes E segments.flatten

def checksumIfEnabled (data : Bytes) : String :=
  if (E.cfg n).verifyStripeChecksums then checksumBytes E data else ""

def gcNotBefore : Res ν Int := do
  let now ← timestamp
  pure (now + (E.cfg n).gcGraceSeconds)

/-- `retire`（`delete`）。 -/
def retire (key : ObjectKey) : Res ν Bool := do
  let notBefore ← gcNotBefore E n
  let old ← Metadata.retireBlock key.toStringKey notBefore
  pure old.isSome

def contentEtag (key : ObjectKey) (generation size : Nat) (createdAt : Int) : String :=
  hex16 (E.ext.hash64 (utf8 (key.toStringKey ++ "|generation=" ++ toString generation ++
    "|size=" ++ toString size ++ "|created_at=" ++ toString createdAt)))

def objectHandle (key : ObjectKey) (generation layoutVersion size : Nat) (createdAt : Int) :
    String :=
  "ctxobj-v1-" ++ key.objectDigest E.ext ++ "-g" ++ toString generation ++ "-l" ++
    toString layoutVersion ++ "-" ++
    hex16 (E.ext.hash64 (utf8 (key.toStringKey ++ "|generation=" ++ toString generation ++
      "|layout=" ++ toString layoutVersion ++ "|size=" ++ toString size ++
      "|created_at=" ++ toString createdAt)))

def preparedMeta (key : ObjectKey) (m : BlockMeta) (size generation : Nat) : BlockMeta :=
  { m with
    size := size
    objectGeneration := generation
    layoutVersion := 1
    objectHandle := objectHandle E key generation 1 size m.createdAt
    contentEtag := contentEtag E key generation size m.createdAt }

def prepareWriteMeta (key : ObjectKey) (m : BlockMeta) (size : Nat) : Res ν BlockMeta := do
  let generation ← Metadata.nextGeneration key.toStringKey
  pure (preparedMeta E key m size generation)

/-- `delete_paths_best_effort`。 -/
def deletePathsBestEffort : List String → Io ν Unit
  | [] => pure ()
  | p :: ps => do
    let _ ← deleteFile n p
    deletePathsBestEffort ps

/-- `commit_metadata_with_rollback`。 -/
def commitMetadataWithRollback (key : ObjectKey) (m : BlockMeta) (newPaths : List String)
    (ifAbsent : Bool) : Res ν Bool := do
  let strKey := key.toStringKey
  let result ← attempt (if ifAbsent then Metadata.putBlockIfAbsent strKey m else do
    let notBefore ← gcNotBefore E n
    let _ ← Metadata.replaceBlock strKey m notBefore
    pure true)
  match result with
  | .ok true => pure true
  | .ok false =>
    deletePathsBestEffort n newPaths
    pure false
  | .error e =>
    deletePathsBestEffort n newPaths
    throw e

/-! ## 期限切れ -/

def isExpired (m : BlockMeta) : Res ν Bool := do
  let now ← timestamp
  pure (m.isExpiredAt now)

def deleteExpiredCurrentLocked (key : ObjectKey) (expected : BlockMeta) : Res ν Bool := do
  let strKey := key.toStringKey
  match ← Metadata.getBlock strKey with
  | none => pure false
  | some current =>
    if !(← isExpired current) || !(current.identityMatches expected) then pure false
    else
      let notBefore ← gcNotBefore E n
      Metadata.retireBlockIfMatches strKey current notBefore

def purgeIfExpired (key : ObjectKey) (m : BlockMeta) : Res ν Bool := do
  if !(← isExpired m) then pure false
  else withLock n .storage key.toStringKey (deleteExpiredCurrentLocked E n key m)

def shouldStripe (len : Nat) : Bool :=
  decide (0 < (E.cfg n).stripingThreshold ∧ (E.cfg n).stripingThreshold < len ∧
    1 < (E.cfg n).router.numDevices)

def putWhole (key : ObjectKey) (data : Bytes) (m : BlockMeta) (ifAbsent : Bool) : Res ν Bool := do
  let m ← prepareWriteMeta E key m data.length
  let deviceId := (E.cfg n).router.route E.ext key
  let path := (E.cfg n).router.keyToVersionedPath E.ext key deviceId m.objectGeneration
    m.layoutVersion
  ofIo (← writeFile n path data)
  let m := { m with filePath := path, size := data.length, deviceId := deviceId, striping := none }
  commitMetadataWithRollback E n key m [path] ifAbsent

def firstError : List (Except IoError Unit) → Option (Nat × IoError)
  | [] => none
  | .error e :: _ => some (0, e)
  | .ok () :: rest => (firstError rest).map fun x => (x.1 + 1, x.2)

def stripeDevice (key : ObjectKey) (i : Nat) : Nat := (E.cfg n).router.chunkDevice E.ext key i

def stripePath (key : ObjectKey) (m : BlockMeta) (i : Nat) : String :=
  (E.cfg n).router.chunkVersionedPath E.ext key i (stripeDevice E n key i) m.objectGeneration
    m.layoutVersion

def writeStripes (key : ObjectKey) (stripes : List Bytes) (total : Nat) (m : BlockMeta)
    (ifAbsent : Bool) : Res ν Bool := do
  let idx := List.range stripes.length
  let chunkDevices := idx.map (stripeDevice E n key)
  let chunkPaths := idx.map (stripePath E n key m)
  let chunkChecksums := if (E.cfg n).verifyStripeChecksums then stripes.map (checksumBytes E)
    else []
  let results ← writeBatch n (chunkPaths.zip stripes)
  match firstError results with
  | some (i, e) =>
    deletePathsBestEffort n (chunkPaths.take i)
    throw (.io e)
  | none =>
    let m := { m with
      size := total
      deviceId := chunkDevices.headD 0
      filePath := ""
      striping := some {
        chunkSize := (E.cfg n).stripingChunkSize
        chunkDevices := chunkDevices
        chunkPaths := chunkPaths
        totalSize := total
        chunkLocations := []
        chunkChecksums := chunkChecksums } }
    commitMetadataWithRollback E n key m chunkPaths ifAbsent

def fillStripe (stripeEnd : Nat) : List Bytes → Nat → Nat → List Bytes × List Bytes × Nat
  | [], offset, _ => ([], [], offset)
  | seg :: rest, offset, filled =>
    if filled < stripeEnd then
      let take := min (seg.length - offset) (stripeEnd - filled)
      let piece := if take = seg.length ∧ offset = 0 then seg else (seg.drop offset).take take
      if offset + take = seg.length then
        let (pieces, rest', offset') := fillStripe stripeEnd rest 0 (filled + take)
        (piece :: pieces, rest', offset')
      else
        ([piece], seg :: rest, offset + take)
    else ([], seg :: rest, offset)

def rebucket (chunkSize total : Nat) : List Nat → List Bytes → Nat → List (List Bytes)
  | [], _, _ => []
  | i :: idx, rest, offset =>
    let stripeStart := i * chunkSize
    let stripeEnd := min (stripeStart + chunkSize) total
    let (pieces, rest', offset') := fillStripe stripeEnd rest offset stripeStart
    pieces :: rebucket chunkSize total idx rest' offset'

/-- `put_striped_chunks_impl`。 -/
def putStripedChunksImpl (key : ObjectKey) (segments : List Bytes) (total : Nat) (m : BlockMeta)
    (ifAbsent : Bool) : Res ν Bool := do
  let m ← prepareWriteMeta E key m total
  let chunkSize := (E.cfg n).stripingChunkSize
  let nStripes := (total + chunkSize - 1) / chunkSize
  let stripes := rebucket chunkSize total (List.range nStripes) segments 0
  writeStripes E n key (stripes.map List.flatten) total m ifAbsent

/-- `put_striped_chunks`。 -/
def putStripedChunks (key : ObjectKey) (segments : List Bytes) (total : Nat) (m : BlockMeta) :
    Res ν Unit := do
  let _ ← putStripedChunksImpl E n key segments total m false
  pure ()

/-- `put_striped`。 -/
def putStriped (key : ObjectKey) (data : Bytes) (m : BlockMeta) : Res ν Unit := do
  let total := data.length
  let chunkSize := (E.cfg n).stripingChunkSize
  let count := (total + chunkSize - 1) / chunkSize
  let segments := (List.range count).map fun i =>
    let start := i * chunkSize
    let stop := min (start + chunkSize) total
    (data.drop start).take (stop - start)
  putStripedChunks E n key segments total m

/-- `usize::div_ceil`。 -/
def divCeil (a b : Nat) : Nat := a / b + if a % b = 0 then 0 else 1

/-- `put_from_ptr_striped`。 -/
def putFromPtrStriped (key : ObjectKey) (mem : Bytes) (m : BlockMeta) (ifNotExists : Bool) :
    Res ν Bool := do
  let total := mem.length
  let m ← prepareWriteMeta E key m total
  let chunkSize := (E.cfg n).stripingChunkSize
  let nStripes := divCeil total chunkSize
  let stripes := (List.range nStripes).map fun i =>
    let stripeStart := i * chunkSize
    let stripeEnd := min (stripeStart + chunkSize) total
    (mem.drop stripeStart).take (stripeEnd - stripeStart)
  writeStripes E n key stripes total m ifNotExists

def invoke (key : ObjectKey) (data : Bytes) : Res ν Unit := ExceptT.lift (issue (.invoke key data))

/-- `put`。 -/
def put (key : ObjectKey) (data : Bytes) (m : BlockMeta) : Res ν Unit := do
  invoke key data
  withLock n .storage key.toStringKey do
    if shouldStripe E n data.length then putStriped E n key data m
    else
      let _ ← putWhole E n key data m false
      pure ()

def existsLive (key : ObjectKey) : Res ν Bool := do
  match ← Metadata.getBlock key.toStringKey with
  | none => pure false
  | some existing =>
    if !(← isExpired existing) then pure true
    else
      let _ ← deleteExpiredCurrentLocked E n key existing
      pure false

/-- `put_if_absent`。 -/
def putIfAbsent (key : ObjectKey) (data : Bytes) (m : BlockMeta) : Res ν Bool := do
  invoke key data
  withLock n .storage key.toStringKey do
    if ← existsLive E n key then pure false
    else if shouldStripe E n data.length then
      putStripedChunksImpl E n key [data] data.length m true
    else putWhole E n key data m true

/-- `put_chunks`。 -/
def putChunks (key : ObjectKey) (segments : List Bytes) (m : BlockMeta) : Res ν Unit := do
  let total := (segments.map List.length).sum
  if !shouldStripe E n total then put E n key segments.flatten m
  else
    invoke key segments.flatten
    withLock n .storage key.toStringKey (putStripedChunks E n key segments total m)

/-- `put_chunks_if_absent`。 -/
def putChunksIfAbsent (key : ObjectKey) (segments : List Bytes) (m : BlockMeta) : Res ν Bool := do
  let total := (segments.map List.length).sum
  if !shouldStripe E n total then putIfAbsent E n key segments.flatten m
  else
    invoke key segments.flatten
    withLock n .storage key.toStringKey do
      if ← existsLive E n key then pure false
      else putStripedChunksImpl E n key segments total m true

/-- `put_from_ptr_with_options`。 -/
def putFromPtrWithOptions (key : ObjectKey) (mem : Bytes) (m : BlockMeta) (ifNotExists : Bool) :
    Res ν Bool := do
  if mem.length = 0 then throw (.internal "put_from_ptr: empty data")
  else
    invoke key mem
    withLock n .storage key.toStringKey do
      if ← (if ifNotExists then existsLive E n key else pure false) then pure false
      else if !shouldStripe E n mem.length then putWhole E n key mem m ifNotExists
      else putFromPtrStriped E n key mem m ifNotExists

/-- `put_from_ptr`。 -/
def putFromPtr (key : ObjectKey) (mem : Bytes) (m : BlockMeta) : Res ν Unit := do
  let _ ← putFromPtrWithOptions E n key mem m false
  pure ()

/-- `put_batch`。 -/
def putBatch : List (ObjectKey × Bytes × BlockMeta) → Io ν (List (Except KVError Unit))
  | [] => pure []
  | (key, data, m) :: items => do
    let r ← (put E n key data m).run
    let rest ← putBatch items
    pure (r :: rest)

end Storage

end ContextStore
