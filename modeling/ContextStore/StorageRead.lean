import ContextStore.StorageWrite

/-!
# storage tier: 読み出し

`kv-service/server/src/storage_tier.rs` の読み出し側。
-/

namespace ContextStore

open Conc

variable {ν : Type}

def readBatch (n : ν) (paths : List String) : Io ν (List (Except IoError Bytes)) :=
  joinAll pickNext (paths.map fun p => issue (.readFile n p))

/-- `read_file_on_device`。 -/
def readFile (n : ν) (path : String) : Io ν (Except IoError Bytes) := issue (.readFile n path)

theorem forall₂_of_mapM_ok {α β ε : Type} {f : α → Except ε β} : ∀ {xs : List α} {ys : List β},
    xs.mapM f = .ok ys → List.Forall₂ (fun x y => f x = .ok y) xs ys
  | [], _, h => by cases h; exact .nil
  | x :: xs, ys, h => by
    rw [List.mapM_cons] at h
    cases hx : f x with
    | error e => rw [hx] at h; cases h
    | ok y =>
      cases hxs : xs.mapM f with
      | error e => rw [hx, hxs] at h; cases h
      | ok rest =>
        rw [hx, hxs] at h
        cases h
        exact .cons hx (forall₂_of_mapM_ok hxs)

namespace Storage

variable (E : Env ν) (n : ν)

/-- `delete_metadata_if_current`。 -/
def deleteMetadataIfCurrent (key : ObjectKey) (m : BlockMeta) : Res ν Bool :=
  Metadata.deleteBlockIfMatches key.toStringKey m

/-- `meta_path_or_route`。 -/
def metaPathOrRoute (key : ObjectKey) (m : BlockMeta) : String :=
  if m.filePath = "" then (E.cfg n).router.keyToPath E.ext key else m.filePath

/-! ## 検査和 -/

/-- `expected_stripe_checksum`。 -/
def expectedStripeChecksum (stripe : StripingInfo) (i : Nat) : Except KVError (Option String) :=
  if !(E.cfg n).verifyStripeChecksums then .ok none
  else match stripe.chunkChecksums[i]?.filter (· ≠ "") with
    | some c => .ok (some c)
    | none => .error (.notFound ("striped object has no checksum for stripe " ++ toString i ++
        "; rewrite required"))

/-- `verify_stripe_bytes`。 -/
def verifyStripeBytes (stripe : StripingInfo) (i : Nat) (data : Bytes) : Except KVError Unit :=
  match expectedStripeChecksum E n stripe i with
  | .error e => .error e
  | .ok none => .ok ()
  | .ok (some expected) =>
    if checksumBytes E data = expected then .ok ()
    else .error (.notFound ("striped object checksum mismatch for stripe " ++ toString i))

def stripeReadError (i : Nat) (e : IoError) : KVError :=
  if (KVError.io e).isNotFoundError then
    .notFound ("striped object missing chunk " ++ toString i)
  else .internal ("read striped chunk " ++ toString i ++ ": " ++ (KVError.io e).display)

def checkStripes (stripe : StripingInfo) :
    Nat → List (Except IoError Bytes) → Except KVError (List Bytes)
  | _, [] => .ok []
  | i, r :: rest =>
    match r with
    | .error e => .error (stripeReadError i e)
    | .ok chunk =>
      match verifyStripeBytes E n stripe i chunk with
      | .error e => .error e
      | .ok () => (checkStripes stripe (i + 1) rest).map (chunk :: ·)

/-- `read_striped_chunks`。 -/
def readStripedChunks (stripe : StripingInfo) : Res ν (List Bytes) := do
  let results ← readBatch n stripe.chunkPaths
  ofExcept (checkStripes E n stripe 0 results)

/-- `read_striped`。 -/
def readStriped (stripe : StripingInfo) : Res ν Bytes := do
  let segments ← readStripedChunks E n stripe
  pure segments.flatten

def orPurgeMissing {α : Type} (key : ObjectKey) (m : BlockMeta) (read : Res ν α) :
    Res ν (Option α) := do
  match ← attempt read with
  | .ok data => pure (some data)
  | .error (.notFound _) =>
    let _ ← deleteMetadataIfCurrent key m
    pure none
  | .error e => throw e

/-- `get_chunks_with_meta`。 -/
def getChunksWithMeta (key : ObjectKey) (m : BlockMeta) :
    Res ν (Option (List Bytes × BlockMeta)) := do
  if ← purgeIfExpired E n key m then pure none
  else match m.striping with
    | some stripe =>
      let r ← orPurgeMissing key m (readStripedChunks E n stripe)
      pure (r.map fun segments => (segments, m))
    | none =>
      let path := metaPathOrRoute E n key m
      if !(← fileExists n path) then
        let _ ← deleteMetadataIfCurrent key m
        pure none
      else
        let data ← ofIo (← readFile n path)
        pure (some ([data], m))

/-- `get_with_meta`。 -/
def getWithMeta (key : ObjectKey) (m : BlockMeta) : Res ν (Option (Bytes × BlockMeta)) := do
  if ← purgeIfExpired E n key m then pure none
  else match m.striping with
    | some stripe =>
      let r ← orPurgeMissing key m (readStriped E n stripe)
      pure (r.map fun data => (data, m))
    | none =>
      let path := metaPathOrRoute E n key m
      if !(← fileExists n path) then
        let _ ← deleteMetadataIfCurrent key m
        pure none
      else
        let data ← ofIo (← readFile n path)
        pure (some (data, m))

/-- `get`。 -/
def get (key : ObjectKey) : Res ν (Option (Bytes × BlockMeta)) := do
  match ← Metadata.getBlock key.toStringKey with
  | none => pure none
  | some m => getWithMeta E n key m

/-- `get_chunks`。 -/
def getChunks (key : ObjectKey) : Res ν (Option (List Bytes × BlockMeta)) := do
  match ← Metadata.getBlock key.toStringKey with
  | none => pure none
  | some m => getChunksWithMeta E n key m

/-- `stripe_files_exist`。 -/
def stripeFilesExist : List String → Io ν Bool
  | [] => pure true
  | p :: ps => do
    if ← fileExists n p then stripeFilesExist ps else pure false

def filesPresent (key : ObjectKey) (m : BlockMeta) : Io ν Bool :=
  match m.striping with
  | some stripe => stripeFilesExist n stripe.chunkPaths
  | none => fileExists n (metaPathOrRoute E n key m)

/-- `exists`。 -/
def exists_ (key : ObjectKey) : Res ν Bool := do
  match ← Metadata.getBlock key.toStringKey with
  | none => pure false
  | some m =>
    if ← isExpired m then
      let _ ← attempt (purgeIfExpired E n key m)
      pure false
    else
      if ← filesPresent E n key m then pure true
      else
        let _ ← deleteMetadataIfCurrent key m
        pure false

inductive Slot where
  | done (r : Except KVError (Option (Bytes × BlockMeta)))
  | pending (path : String) (m : BlockMeta)

def batchSlot (key : ObjectKey) : Res ν Slot := do
  match ← Metadata.getBlock key.toStringKey with
  | none => pure (.done (.ok none))
  | some m =>
    if ← purgeIfExpired E n key m then pure (.done (.ok none))
    else match m.striping with
      | some stripe =>
        let r ← orPurgeMissing key m (readStriped E n stripe)
        pure (.done (.ok (r.map fun data => (data, m))))
      | none =>
        let path := metaPathOrRoute E n key m
        if !(← fileExists n path) then
          let _ ← deleteMetadataIfCurrent key m
          pure (.done (.ok none))
        else pure (.pending path m)

def batchSlots : List ObjectKey → Io ν (List Slot)
  | [] => pure []
  | key :: keys => do
    let s ← (batchSlot E n key).run
    let rest ← batchSlots keys
    pure ((match s with | .ok s => s | .error e => .done (.error e)) :: rest)

def ioRequests (slots : List Slot) : List (Nat × String × BlockMeta) :=
  slots.zipIdx.filterMap fun
    | (.done _, _) => none
    | (.pending path m, i) => some (i, path, m)

def planned : Slot → Option (Except KVError (Option (Bytes × BlockMeta)))
  | .done r => some r
  | .pending _ _ => none

theorem mem_ioRequests {slots : List Slot} {x : Nat × String × BlockMeta} :
    x ∈ ioRequests slots ↔ slots[x.1]? = some (.pending x.2.1 x.2.2) := by
  obtain ⟨i, path, m⟩ := x
  unfold ioRequests
  rw [List.mem_filterMap]
  constructor
  · rintro ⟨⟨slot, j⟩, hmem, h⟩
    cases slot with
    | done r => cases h
    | pending path' m' =>
      cases h
      exact List.mk_mem_zipIdx_iff_getElem?.mp hmem
  · intro h
    exact ⟨(.pending path m, i), List.mk_mem_zipIdx_iff_getElem?.mpr h, rfl⟩

def readResult (r : Except IoError Bytes) (m : BlockMeta) :
    Except KVError (Option (Bytes × BlockMeta)) :=
  match r with
  | .ok data => .ok (some (data, m))
  | .error e => .error (.io e)

def pathLe (a b : String) : Bool :=
  !List.lex (pathComponents b) (pathComponents a)
    fun x y => List.lex x y fun c d => Nat.blt c.toNat d.toNat

def getBatch (keys : List ObjectKey) :
    Io ν (List (Except KVError (Option (Bytes × BlockMeta)))) := do
  let slots ← batchSlots E n keys
  let reqs := (ioRequests slots).mergeSort fun a b => pathLe a.2.1 b.2.1
  let reads ← readBatch n (reqs.map fun r => r.2.1)
  let results := (reqs.zip reads).foldl
    (fun acc x => acc.set x.1.1 (some (readResult x.2 x.1.2.2))) (slots.map planned)
  pure (results.map fun r => r.getD (.error (.internal "missing slot")))

structure Range where
  stripe : Nat
  path : String
  offset : Nat
  length : Nat
deriving DecidableEq, Repr

def rdmaStreamChunkSize : Nat := max (E.cfg n).rdmaStreamChunkSizeCfg 4096 / 4096 * 4096

def stripeRanges (step i : Nat) (path : String) (stripeLen : Nat) : List Range :=
  (List.range ((stripeLen + step - 1) / step)).map fun j =>
    ⟨i, path, j * step, min (stripeLen - j * step) step⟩

def streamRanges (stripe : StripingInfo) : List (List Range) :=
  stripe.chunkPaths.mapIdx fun i p =>
    stripeRanges (rdmaStreamChunkSize E n) i p
      (min ((i + 1) * stripe.chunkSize) stripe.totalSize - i * stripe.chunkSize)

def alignedLength (len : Nat) : Nat := (len + 4095) / 4096 * 4096

def checkRange (stripe : StripingInfo) (capacity : Nat) (r : Range) : Except KVError Range :=
  let cap := capacity - (r.stripe * stripe.chunkSize + r.offset)
  if cap < alignedLength r.length then
    .error (.internal ("stripe " ++ toString r.stripe ++ " stream offset " ++ toString r.offset ++
      " cap " ++ toString cap ++ " < aligned " ++ toString (alignedLength r.length)))
  else .ok r

def streamPlan (stripe : StripingInfo) (capacity : Nat) : Except KVError (List (List Range)) :=
  (streamRanges E n stripe).mapM fun ranges => ranges.mapM (checkRange stripe capacity)

theorem checkRange_eq_ok {stripe : StripingInfo} {capacity : Nat} {r r' : Range}
    (h : checkRange stripe capacity r = .ok r') : r = r' := by
  unfold checkRange at h
  dsimp only at h
  split at h
  next => cases h
  next => exact Except.ok.inj h

theorem streamPlan_eq_ok {stripe : StripingInfo} {capacity : Nat} {plan : List (List Range)}
    (h : streamPlan E n stripe capacity = .ok plan) : plan = streamRanges E n stripe := by
  have hgroups := forall₂_of_mapM_ok h
  have heq : List.Forall₂ Eq (streamRanges E n stripe) plan := by
    refine hgroups.imp fun ranges ranges' hr => ?_
    have hrs : List.Forall₂ Eq ranges ranges' :=
      (forall₂_of_mapM_ok hr).imp fun _ _ => checkRange_eq_ok
    rwa [List.forall₂_eq_eq_eq] at hrs
  rw [List.forall₂_eq_eq_eq] at heq
  exact heq.symm

def readIntoPtr (path : String) (ptr capacity : Nat) : Res ν Bytes :=
  if ptr % 4096 ≠ 0 then throw (.internal "read_aligned_into_ptr: ptr not 4K-aligned")
  else if capacity % 4096 ≠ 0 then
    throw (.internal ("read_aligned_into_ptr: capacity " ++ toString capacity ++
      " not 4K-aligned"))
  else do
    let data ← ofIo (← readFile n path)
    if capacity < alignedLength data.length then
      throw (.internal ("read_aligned_into_ptr: capacity " ++ toString capacity ++
        " < aligned requested range " ++ toString (alignedLength data.length) ++
        " (file_offset=0, request_length=0, file_size=" ++ toString data.length ++ ")"))
    else pure data

def readIntoPtrBatch (reqs : List (String × Nat × Nat)) : Io ν (List (Except KVError Bytes)) :=
  joinAll pickNext (reqs.map fun r => (readIntoPtr n r.1 r.2.1 r.2.2).run)

def readRange (r : Range) : Io ν (Except IoError Bytes) :=
  issue (.readRange n r.path r.offset r.length)

def readRanges (plan : List (List Range)) : Io ν (List (List (Except IoError Bytes))) :=
  joinAll pickNext (plan.map fun ranges => joinAll pickNext (ranges.map (readRange n)))

def forwardRange (key : ObjectKey) (m : BlockMeta) (idx : Nat) (r : Range) :
    Io ν (Except KVError Bytes) := do
  match ← readRange n r with
  | .ok data => pure (.ok data)
  | .error e =>
    if (KVError.io e).isNotFoundError then
      let _ ← (deleteMetadataIfCurrent key m).run
      pure (.error (.notFound ("striped object missing chunk " ++ toString idx)))
    else pure (.error (.io e))

def forwardRanges (key : ObjectKey) (m : BlockMeta) (ranges : List Range) :
    Io ν (List (Except KVError Bytes)) :=
  joinAll pickNext (ranges.mapIdx (forwardRange n key m))

def rangesError (stripe : StripingInfo) (i : Nat) (ranges : List Range)
    (results : List (Except IoError Bytes)) : Option KVError :=
  let readError := (ranges.zip results).findSome? fun (r, result) =>
    match result with
    | .ok data =>
      if data.length = r.length then none
      else some (.notFound ("striped object short read for stripe " ++ toString i))
    | .error e => some (stripeReadError i e)
  match readError with
  | some e => some e
  | none =>
    match stripe.chunkChecksums[i]?.filter (· ≠ "") with
    | none => some (.notFound ("striped object has no checksum for stripe " ++ toString i ++
        "; rewrite required"))
    | some expected =>
      let data := (results.map fun r => (r.toOption).getD []).flatten
      if checksumBytes E data = expected then none
      else some (.notFound ("striped object checksum mismatch for stripe " ++ toString i))

def forwardStripes (key : ObjectKey) (m : BlockMeta) (stripe : StripingInfo) :
    Nat → List (List Range × List (Except IoError Bytes)) → Bool →
      Io ν (List (Except KVError Bytes))
  | _, [], _ => pure []
  | i, (ranges, results) :: rest, deleted => do
    match rangesError E stripe i ranges results with
    | some e =>
      if !deleted then
        let _ ← (deleteMetadataIfCurrent key m).run
        let more ← forwardStripes key m stripe (i + 1) rest true
        pure (.error e :: more)
      else
        let more ← forwardStripes key m stripe (i + 1) rest deleted
        pure (.error e :: more)
    | none =>
      let more ← forwardStripes key m stripe (i + 1) rest deleted
      pure (results.map (fun r => r.mapError KVError.io) ++ more)

/-- `get_into_ptr_stream_with_meta`。 -/
def getIntoPtrStreamWithMeta (key : ObjectKey) (m : BlockMeta) (capacity : Nat) :
    Res ν (Option (List (Nat × Except KVError Bytes))) := do
  if ← purgeIfExpired E n key m then pure none
  else match m.striping with
    | none =>
      let path := metaPathOrRoute E n key m
      if !(← fileExists n path) then
        let _ ← deleteMetadataIfCurrent key m
        pure none
      else
        let r ← attempt (readIntoPtr n path 0 capacity)
        pure (some [(m.size, r)])
    | some stripe =>
      if capacity < stripe.totalSize then
        throw (.internal ("get_into_ptr_stream: capacity " ++ toString capacity ++ " < total " ++
          toString stripe.totalSize))
      else
        let plan ← ofExcept (streamPlan E n stripe capacity)
        if (E.cfg n).verifyStripeChecksums then
          let results ← readRanges n plan
          let events ← forwardStripes E key m stripe 0 (plan.zip results) false
          pure (some ((plan.flatten.map Range.length).zip events))
        else
          let events ← forwardRanges n key m plan.flatten
          pure (some ((plan.flatten.map Range.length).zip events))

/-- `get_into_ptr_stream`。 -/
def getIntoPtrStream (key : ObjectKey) (capacity : Nat) :
    Res ν (Option (List (Nat × Except KVError Bytes))) := do
  match ← Metadata.getBlock key.toStringKey with
  | none => pure none
  | some m =>
    if ← purgeIfExpired E n key m then pure none
    else getIntoPtrStreamWithMeta E n key m capacity

def intoPtrRequest (stripe : StripingInfo) (capacity i : Nat) (path : String) :
    Except KVError (String × Nat × Nat) :=
  let stripeOffset := i * stripe.chunkSize
  let alignedStripe :=
    alignedLength (min ((i + 1) * stripe.chunkSize) stripe.totalSize - stripeOffset)
  let stripeCap := min (capacity - stripeOffset) (alignedLength stripe.chunkSize)
  if stripeCap < alignedStripe then
    .error (.internal ("stripe " ++ toString i ++ " cap " ++ toString stripeCap ++ " < aligned " ++
      toString alignedStripe))
  else .ok (path, stripeOffset, stripeCap)

def checkIntoPtr (stripe : StripingInfo) :
    Nat → List (Except KVError Bytes) → Except KVError (Option (List Bytes))
  | _, [] => .ok (some [])
  | i, r :: rest =>
    match r with
    | .error e =>
      if e.isNotFoundError then .ok none
      else .error (.internal ("read stripe " ++ toString i ++ " into ptr: " ++ e.display))
    | .ok data =>
      if data.length ≠
          min ((i + 1) * stripe.chunkSize) stripe.totalSize - i * stripe.chunkSize then .ok none
      else match verifyStripeBytes E n stripe i data with
        | .error (.notFound _) => .ok none
        | _ => (checkIntoPtr stripe (i + 1) rest).map (·.map (data :: ·))

/-- `get_into_ptr`。 -/
def getIntoPtr (key : ObjectKey) (capacity : Nat) :
    Res ν (Option (Nat × List Bytes × BlockMeta)) := do
  match ← Metadata.getBlock key.toStringKey with
  | none => pure none
  | some m =>
    if ← purgeIfExpired E n key m then pure none
    else match m.striping with
      | none =>
        let path := metaPathOrRoute E n key m
        if !(← fileExists n path) then
          let _ ← deleteMetadataIfCurrent key m
          pure none
        else
          let data ← readIntoPtr n path 0 capacity
          pure (some (data.length, [data], m))
      | some stripe =>
        if capacity < stripe.totalSize then
          throw (.internal ("get_into_ptr: capacity " ++ toString capacity ++ " < total " ++
            toString stripe.totalSize))
        else
          let reqs ← ofExcept ((stripe.chunkPaths.mapIdx fun i p => (i, p)).mapM fun (i, p) =>
            intoPtrRequest stripe capacity i p)
          let results ← readIntoPtrBatch n reqs
          match ← ofExcept (checkIntoPtr E n stripe 0 results) with
          | none =>
            let _ ← deleteMetadataIfCurrent key m
            pure none
          | some parts => pure (some (stripe.totalSize, parts, m))

def stripePathAt (stripe : StripingInfo) (i : Nat) : Except KVError (Nat × String) :=
  match stripe.chunkPaths[i]? with
  | none => .error (.internal ("stripe index " ++ toString i ++ " out of range"))
  | some path =>
    if i < stripe.chunkDevices.length then .ok (i, path)
    else .error (.internal ("stripe device index " ++ toString i ++ " out of range"))

def checkStripeAt (stripe : StripingInfo) (i : Nat) (r : Except IoError Bytes) :
    Except KVError (Nat × Bytes) :=
  match r with
  | .error e => .error (stripeReadError i e)
  | .ok chunk => (verifyStripeBytes E n stripe i chunk).map fun () => (i, chunk)

def readStripedChunksAt (stripe : StripingInfo) (indices : List Nat) :
    Res ν (List (Nat × Bytes)) := do
  let targets ← ofExcept (indices.mapM (stripePathAt stripe))
  let results ← readBatch n (targets.map (·.2))
  ofExcept ((targets.zip results).mapM fun (t, r) => checkStripeAt E n stripe t.1 r)

def readStripedChunkAt (stripe : StripingInfo) (index : Nat) : Res ν Bytes := do
  match ← readStripedChunksAt E n stripe [index] with
  | [] => throw (.internal "read stripe subset returned no result")
  | (_, chunk) :: _ => pure chunk

def putPlacementChunk (key : ObjectKey) (stripeIndex deviceStripeIndex generation
    layoutVersion : Nat) (data : Bytes) : Res ν (Nat × String × String) := do
  let deviceId := (E.cfg n).router.chunkDevice E.ext key deviceStripeIndex
  let path := (E.cfg n).router.chunkVersionedPath E.ext key stripeIndex deviceId generation
    layoutVersion
  let checksum := checksumIfEnabled E n data
  ofIo (← writeFile n path data)
  pure (deviceId, path, checksum)

def ensureManagedPath (path : String) : Except KVError Unit :=
  if (E.cfg n).router.devices.any (pathStartsWith path) then .ok ()
  else .error (.invalidArgument ("storage_handle outside managed devices: " ++ path))

/-- `validate_placement_chunk_handle`。 -/
def validatePlacementChunkHandle (key : ObjectKey) (stripeIndex generation layoutVersion deviceId :
    Nat) (storageHandle : String) : Except KVError Unit := do
  ensureManagedPath E n storageHandle
  if (E.cfg n).router.numDevices ≤ deviceId then
    throw (.invalidArgument ("placement chunk device out of range: " ++ toString deviceId))
  let expected := (E.cfg n).router.chunkVersionedPath E.ext key stripeIndex deviceId generation
    layoutVersion
  if pathComponents storageHandle ≠ pathComponents expected then
    throw (.invalidArgument ("placement chunk handle does not match descriptor: " ++
      storageHandle))

def checkPlacementChunk (path : String) (data : Bytes) (expectedLen : Nat)
    (expectedChecksum : Option String) : Except KVError Unit := do
  if 0 < expectedLen ∧ data.length ≠ expectedLen then
    throw (.internal ("placement chunk length mismatch: expected " ++ toString expectedLen ++
      " got " ++ toString data.length ++ " (" ++ path ++ ")"))
  if (E.cfg n).verifyStripeChecksums then
    match expectedChecksum with
    | none => pure ()
    | some expected =>
      if expected = "" then throw (.notFound "placement chunk has no checksum; rewrite required")
      if checksumBytes E data ≠ expected then
        throw (.notFound "placement chunk checksum mismatch")

/-- `read_placement_chunk`。 -/
def readPlacementChunk (path : String) (expectedLen : Nat) (expectedChecksum : Option String) :
    Res ν (Option Bytes) := do
  ofExcept (ensureManagedPath E n path)
  if !(← fileExists n path) then pure none
  else
    let data ← ofIo (← readFile n path)
    ofExcept (checkPlacementChunk E n path data expectedLen expectedChecksum)
    pure (some data)

/-- `delete_placement_chunk`。 -/
def deletePlacementChunk (path : String) : Res ν Bool := do
  ofExcept (ensureManagedPath E n path)
  let existed ← fileExists n path
  ofIo (← deleteFile n path)
  pure existed

end Storage

end ContextStore
