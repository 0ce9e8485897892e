import ContextStore.Distributed

/-!
# 受け取りながらの書き込み

`put_distributed_stream_impl`。
-/

namespace ContextStore

open Conc

variable {ν : Type}

structure PutChunk where
  data : Bytes
  isLast : Bool
deriving DecidableEq, Repr

def receivedData : List PutChunk → Bytes
  | [] => []
  | c :: cs => if c.isLast then c.data else c.data ++ receivedData cs

namespace Service

open Placement

variable (E : Env ν) (n : ν)

/-- `MAX_INFLIGHT_STRIPES`。 -/
def maxInflightStripes : Nat := 4

structure StreamState (ν : Type) where
  inflight : List (Svc ν ChunkLocation)
  locations : List ChunkLocation
  firstErr : Option Status
  curSegments : List Bytes
  curFilled : Nat
  nextStripe : Nat
  receivedTotal : Nat

def StreamState.start : StreamState ν := ⟨[], [], none, [], 0, 0, 0⟩

def absorb (st : StreamState ν) : Except Status ChunkLocation → StreamState ν
  | .ok location => { st with locations := st.locations ++ [location] }
  | .error e => { st with firstErr := st.firstErr <|> some e }

def joinNext (st : StreamState ν) : Io ν (StreamState ν) := do
  let i ← pickNext st.inflight.length
  match st.inflight[i % st.inflight.length]? with
  | none => pure st
  | some task =>
    let r ← task.run
    pure (absorb { st with inflight := st.inflight.eraseIdx (i % st.inflight.length) } r)

def waitBelow (bound : Nat) : Nat → StreamState ν → Io ν (StreamState ν)
  | 0, st => pure st
  | fuel + 1, st =>
    if bound ≤ st.inflight.length then do
      let st ← joinNext st
      waitBelow bound fuel st
    else pure st

structure StreamCtx where
  key : ObjectKey
  desc : ObjectDescriptor
  chunkSize : Nat
  declaredTotal : Nat

variable (ctx : StreamCtx)

/-- `dispatch_stripe!`。 -/
def dispatchStripe (segments : List Bytes) (st : StreamState ν) : Io ν (StreamState ν) := do
  let i := st.nextStripe
  let st ← waitBelow maxInflightStripes st.inflight.length { st with nextStripe := i + 1 }
  if st.firstErr.isNone then
    pure { st with
      inflight := st.inflight ++ [putChunkOnNode E n (selectDataNode E n ctx.key i) ctx.key ctx.desc
        i (i * ctx.chunkSize) ctx.chunkSize segments.flatten] }
  else pure st

/-- `feed!` の loop。 -/
def feedLoop : Nat → Bytes → StreamState ν → Io ν (StreamState ν)
  | 0, _, st => pure st
  | fuel + 1, data, st =>
    if data = [] then pure st
    else
      let need := ctx.chunkSize - st.curFilled
      if data.length < need then
        pure { st with
          curFilled := st.curFilled + data.length, curSegments := st.curSegments ++ [data] }
      else do
        let st ← dispatchStripe E n ctx (st.curSegments ++ [data.take need])
          { st with curSegments := [], curFilled := 0 }
        feedLoop fuel (data.drop need) st

def feed (data : Bytes) (st : StreamState ν) : Io ν (StreamState ν) :=
  feedLoop E n ctx data.length data { st with receivedTotal := st.receivedTotal + data.length }

def dropInflight : List (Svc ν ChunkLocation) → Io ν Unit
  | [] => pure ()
  | task :: tasks => do
    let i ← pickNext 2
    if i = 0 then dropInflight tasks
    else
      let _ ← task.run
      dropInflight tasks

def receiveNext : Svc ν (Except String Unit) := ExceptT.lift (issue .receive)

def receiveLoop : List PutChunk → Bool → StreamState ν → Svc ν (StreamState ν)
  | chunks, sawLast, st =>
    if sawLast || st.firstErr.isSome then pure st
    else do
      match ← receiveNext with
      | .error e =>
        dropInflight st.inflight
        throw ⟨.internal, e⟩
      | .ok () =>
        match chunks with
        | [] => pure st
        | c :: rest =>
          let st ← feed E n ctx c.data st
          receiveLoop rest c.isLast st

def flushPartial (st : StreamState ν) : Io ν (StreamState ν) :=
  if st.firstErr.isNone ∧ st.curSegments ≠ [] then
    dispatchStripe E n ctx st.curSegments { st with curSegments := [] }
  else pure st

def flushAndDrain (st : StreamState ν) : Io ν (StreamState ν) := do
  let st ← flushPartial E n ctx st
  waitBelow 1 st.inflight.length st

def checkLength (st : StreamState ν) : Option Status :=
  match st.firstErr with
  | some e => some e
  | none =>
    if st.receivedTotal = ctx.declaredTotal then none
    else some ⟨.invalidArgument, "stream length mismatch: declared " ++
      toString ctx.declaredTotal ++ " received " ++ toString st.receivedTotal⟩

/-- `put_distributed_stream_impl`。 -/
def putDistributedStreamImpl (key : ObjectKey) (m : BlockMeta) (declaredTotal : Nat)
    (first : PutChunk) (rest : List PutChunk) (ifAbsent : Bool) : Svc ν Bool := do
  let chunkSize := (E.cfg n).stripingChunkSize
  let prepared ← liftRes (Storage.prepareWriteMeta E key m declaredTotal)
  let ctx : StreamCtx := {
    key := key
    desc := makeDistributedDescriptor key prepared (Storage.divCeil declaredTotal chunkSize)
      chunkSize
    chunkSize := chunkSize
    declaredTotal := declaredTotal }
  let st ← feed E n ctx first.data StreamState.start
  let st ← receiveLoop E n ctx rest first.isLast st
  let st ← flushAndDrain E n ctx st
  match checkLength ctx st with
  | some e =>
    rollbackChunks E n st.locations
    throw e
  | none =>
    let locations := sortLocations st.locations
    Memory.invalidate n key.toStringKey
    let now ← clockNow
    let committed ← liftRes (commitMeta key
      (distributedMeta prepared chunkSize declaredTotal locations)
      (now + (E.cfg n).gcGraceSeconds) ifAbsent)
    if !committed then
      rollbackChunks E n locations
      pure false
    else pure true

def existsLiveIf (key : ObjectKey) (ifAbsent : Bool) : Svc ν Bool :=
  if ifAbsent then existsLive E n key else pure false

def putDistributedStream (key : ObjectKey) (m : BlockMeta) (declaredTotal : Nat)
    (first : PutChunk) (rest : List PutChunk) (ifAbsent : Bool) : Svc ν Bool := do
  invoke key (receivedData (first :: rest))
  withLock n .service key.toStringKey do
    if ← existsLiveIf E n key ifAbsent then pure false
    else putDistributedStreamImpl E n key m declaredTotal first rest ifAbsent

end Service

end ContextStore
