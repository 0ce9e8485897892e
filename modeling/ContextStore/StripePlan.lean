import ContextStore.Conc.Expand
import ContextStore.DistributedStream

/-!
# stripe の送り出しの計画
-/

namespace ContextStore

open Conc

variable {ν : Type}

namespace Service

open Placement

structure Stripe where
  index : Nat
  offset : Nat
  node : DataNode
  data : Bytes
deriving DecidableEq, Repr

inductive StripeCmd where
  | prepare (size : Nat)
  | spawn (s : Stripe)
  | pick (bound : Nat)
  | join (desc : ObjectDescriptor) (s : Stripe)
  | receive
  | rollback (locations : List ChunkLocation)
  | commit (m : BlockMeta)

@[reducible] def StripeCmd.Resp : StripeCmd → Type
  | .prepare _ => Except Status BlockMeta
  | .spawn _ => Unit
  | .pick _ => Nat
  | .join _ _ => Except Status ChunkLocation
  | .receive => Except String Unit
  | .rollback _ => Unit
  | .commit _ => Except Status Bool

abbrev PlanIo := Prog StripeCmd StripeCmd.Resp

abbrev PlanSvc := ExceptT Status PlanIo

variable (E : Env ν) (n : ν)

def Stripe.task (key : ObjectKey) (desc : ObjectDescriptor) (s : Stripe) : Svc ν ChunkLocation :=
  putChunkOnNode E n s.node key desc s.index s.offset (E.cfg n).stripingChunkSize s.data

def commitPlaced (key : ObjectKey) (ifAbsent : Bool) (m : BlockMeta) : Svc ν Bool := do
  Memory.invalidate n key.toStringKey
  let now ← clockNow
  liftRes (commitMeta key m (now + (E.cfg n).gcGraceSeconds) ifAbsent)

def StripeCmd.body (key : ObjectKey) (m : BlockMeta) (ifAbsent : Bool) :
    (c : StripeCmd) → Io ν c.Resp
  | .prepare size => (liftRes (Storage.prepareWriteMeta E key m size)).run
  | .spawn _ => pure ()
  | .pick bound => pickNext bound
  | .join desc s => (s.task E n key desc).run
  | .receive => issue .receive
  | .rollback locations => rollbackChunks E n locations
  | .commit committed => (commitPlaced E n key ifAbsent committed).run

def streamCtx (key : ObjectKey) (prepared : BlockMeta) (total : Nat) : StreamCtx where
  key := key
  desc := makeDistributedDescriptor key prepared
    (Storage.divCeil total (E.cfg n).stripingChunkSize) (E.cfg n).stripingChunkSize
  chunkSize := (E.cfg n).stripingChunkSize
  declaredTotal := total

namespace Plan

/-! ## 粗い命令 -/

def prepare (size : Nat) : PlanSvc BlockMeta := Prog.issue (StripeCmd.prepare size)

def spawn (s : Stripe) : PlanIo Unit := Prog.issue (StripeCmd.spawn s)

def pick (bound : Nat) : PlanIo Nat := Prog.issue (StripeCmd.pick bound)

def join (desc : ObjectDescriptor) (s : Stripe) : PlanIo (Except Status ChunkLocation) :=
  Prog.issue (StripeCmd.join desc s)

def receiveNext : PlanIo (Except String Unit) := Prog.issue StripeCmd.receive

def rollback (locations : List ChunkLocation) : PlanIo Unit :=
  Prog.issue (StripeCmd.rollback locations)

def commit (m : BlockMeta) : PlanSvc Bool := Prog.issue (StripeCmd.commit m)

structure State where
  inflight : List Stripe
  locations : List ChunkLocation
  firstErr : Option Status
  curSegments : List Bytes
  curFilled : Nat
  nextStripe : Nat
  receivedTotal : Nat

def State.start : State := ⟨[], [], none, [], 0, 0, 0⟩

/-- `absorb`。 -/
def absorb (st : State) : Except Status ChunkLocation → State
  | .ok location => { st with locations := st.locations ++ [location] }
  | .error e => { st with firstErr := st.firstErr <|> some e }

variable (ctx : StreamCtx)

/-- `join_next`。 -/
def joinNext (st : State) : PlanIo State := do
  let i ← pick st.inflight.length
  match st.inflight[i % st.inflight.length]? with
  | none => pure st
  | some s =>
    let r ← join ctx.desc s
    pure (absorb { st with inflight := st.inflight.eraseIdx (i % st.inflight.length) } r)

def waitBelow (bound : Nat) : Nat → State → PlanIo State
  | 0, st => pure st
  | fuel + 1, st =>
    if bound ≤ st.inflight.length then do
      let st ← joinNext ctx st
      waitBelow bound fuel st
    else pure st

def stripe (i : Nat) (data : Bytes) : Stripe :=
  ⟨i, i * ctx.chunkSize, selectDataNode E n ctx.key i, data⟩

/-- `dispatch_stripe!`。 -/
def dispatchStripe (segments : List Bytes) (st : State) : PlanIo State := do
  let i := st.nextStripe
  let st ← waitBelow ctx maxInflightStripes st.inflight.length { st with nextStripe := i + 1 }
  if st.firstErr.isNone then
    spawn (stripe E n ctx i segments.flatten)
    pure { st with inflight := st.inflight ++ [stripe E n ctx i segments.flatten] }
  else pure st

/-- `feed!` の loop。 -/
def feedLoop : Nat → Bytes → State → PlanIo State
  | 0, _, st => pure st
  | fuel + 1, data, st =>
    if data = [] then pure st
    else
      let need := ctx.chunkSize - st.curFilled
      if data.length < need then
        pure { st with
          curFilled := st.curFilled + data.length, curSegments := st.curSegments ++ [data] }
      else do
        let st ← dispatchStripe E n ctx (st.curSegments ++ [data.take need])
          { st with curSegments := [], curFilled := 0 }
        feedLoop fuel (data.drop need) st

/-- `feed!`。 -/
def feed (data : Bytes) (st : State) : PlanIo State :=
  feedLoop E n ctx data.length data { st with receivedTotal := st.receivedTotal + data.length }

def dropInflight : List Stripe → PlanIo Unit
  | [] => pure ()
  | s :: stripes => do
    let i ← pick 2
    if i = 0 then dropInflight stripes
    else
      let _ ← join ctx.desc s
      dropInflight stripes

def receiveLoop : List PutChunk → Bool → State → PlanSvc State
  | chunks, sawLast, st =>
    if sawLast || st.firstErr.isSome then pure st
    else do
      match ← ExceptT.lift receiveNext with
      | .error e =>
        ExceptT.lift (dropInflight ctx st.inflight)
        throw ⟨.internal, e⟩
      | .ok () =>
        match chunks with
        | [] => pure st
        | c :: rest =>
          let st ← ExceptT.lift (feed E n ctx c.data st)
          receiveLoop rest c.isLast st

def flushPartial (st : State) : PlanIo State :=
  if st.firstErr.isNone ∧ st.curSegments ≠ [] then
    dispatchStripe E n ctx st.curSegments { st with curSegments := [] }
  else pure st

def flushAndDrain (st : State) : PlanIo State := do
  let st ← flushPartial E n ctx st
  waitBelow ctx 1 st.inflight.length st

def checkLength (st : State) : Option Status :=
  match st.firstErr with
  | some e => some e
  | none =>
    if st.receivedTotal = ctx.declaredTotal then none
    else some ⟨.invalidArgument, "stream length mismatch: declared " ++
      toString ctx.declaredTotal ++ " received " ++ toString st.receivedTotal⟩

def finishStream (prepared : BlockMeta) (st : State) : PlanSvc Bool :=
  match checkLength ctx st with
  | some e => do
    ExceptT.lift (rollback st.locations)
    throw e
  | none => do
    let committed ← commit
      (distributedMeta prepared ctx.chunkSize ctx.declaredTotal (sortLocations st.locations))
    if !committed then
      ExceptT.lift (rollback (sortLocations st.locations))
      pure false
    else pure true

/-- `put_distributed_stream_impl`。 -/
def putStream (key : ObjectKey) (declaredTotal : Nat) (first : PutChunk) (rest : List PutChunk) :
    PlanSvc Bool := do
  let prepared ← prepare declaredTotal
  let ctx := streamCtx E n key prepared declaredTotal
  let st ← ExceptT.lift (feed E n ctx first.data .start)
  let st ← receiveLoop E n ctx rest first.isLast st
  let st ← ExceptT.lift (flushAndDrain E n ctx st)
  finishStream ctx prepared st

def stripes (data : Bytes) : List Stripe :=
  (List.range (Storage.divCeil data.length ctx.chunkSize)).map fun i =>
    stripe E n ctx i (stripeOf ctx.chunkSize data i)

def spawnAll : List Stripe → PlanIo Unit
  | [] => pure ()
  | s :: rest => do
    spawn s
    spawnAll rest

def finishBytes (prepared : BlockMeta) (locations : List ChunkLocation) : PlanSvc Bool :=
  if (E.cfg n).verifyStripeChecksums ∧ locations.any (fun l => l.checksum = "") then do
    ExceptT.lift (rollback locations)
    throw ⟨.failedPrecondition,
      "stripe integrity is enabled but a data node did not return a checksum"⟩
  else do
    match ← attempt (commit
        (distributedMeta prepared ctx.chunkSize ctx.declaredTotal locations)) with
    | .ok true => pure true
    | .ok false =>
      ExceptT.lift (rollback locations)
      pure false
    | .error e =>
      ExceptT.lift (rollback locations)
      throw e

/-- `put_distributed_bytes_impl`。 -/
def putBytes (key : ObjectKey) (data : Bytes) : PlanSvc Bool := do
  let prepared ← prepare data.length
  let ctx := streamCtx E n key prepared data.length
  ExceptT.lift (spawnAll (stripes E n ctx data))
  let results ← ExceptT.lift (joinAll pick ((stripes E n ctx data).map (join ctx.desc)))
  let written ← ExceptT.mk (.ret (allOk results))
  finishBytes E n ctx prepared (sortLocations written)

/-! ## 展開 -/

section Expand

variable (key : ObjectKey) (m : BlockMeta) (ifAbsent : Bool)

def State.toStream (st : State) : StreamState ν :=
  ⟨st.inflight.map (Stripe.task E n key ctx.desc), st.locations, st.firstErr, st.curSegments,
    st.curFilled, st.nextStripe, st.receivedTotal⟩

@[simp] theorem expand_prepare (size : Nat) :
    expandExcept (StripeCmd.body E n key m ifAbsent) (prepare size) =
      liftRes (Storage.prepareWriteMeta E key m size) :=
  Prog.expand_issue (R := StripeCmd.Resp) (StripeCmd.body E n key m ifAbsent) _

@[simp] theorem expand_spawn (s : Stripe) :
    (spawn s).expand (StripeCmd.body E n key m ifAbsent) = .ret () :=
  Prog.expand_issue (R := StripeCmd.Resp) (StripeCmd.body E n key m ifAbsent) _

@[simp] theorem expand_pick (bound : Nat) :
    (pick bound).expand (StripeCmd.body E n key m ifAbsent) = pickNext bound :=
  Prog.expand_issue (R := StripeCmd.Resp) (StripeCmd.body E n key m ifAbsent) _

@[simp] theorem expand_join (desc : ObjectDescriptor) (s : Stripe) :
    (join desc s).expand (StripeCmd.body E n key m ifAbsent) = (s.task E n key desc).run :=
  Prog.expand_issue (R := StripeCmd.Resp) (StripeCmd.body E n key m ifAbsent) _

@[simp] theorem expand_receiveNext :
    receiveNext.expand (StripeCmd.body E n key m ifAbsent) = issue .receive :=
  Prog.expand_issue (R := StripeCmd.Resp) (StripeCmd.body E n key m ifAbsent) _

@[simp] theorem expand_rollback (locations : List ChunkLocation) :
    (rollback locations).expand (StripeCmd.body E n key m ifAbsent) =
      rollbackChunks E n locations :=
  Prog.expand_issue (R := StripeCmd.Resp) (StripeCmd.body E n key m ifAbsent) _

@[simp] theorem expand_commit (committed : BlockMeta) :
    expandExcept (StripeCmd.body E n key m ifAbsent) (commit committed) =
      commitPlaced E n key ifAbsent committed :=
  Prog.expand_issue (R := StripeCmd.Resp) (StripeCmd.body E n key m ifAbsent) _

theorem expand_joinNext (st : State) :
    State.toStream E n ctx key <$> (joinNext ctx st).expand (StripeCmd.body E n key m ifAbsent) =
      Service.joinNext (st.toStream E n ctx key) := by
  simp only [joinNext, Service.joinNext, Prog.expand_bind, map_bind, expand_pick, State.toStream,
    List.length_map, List.getElem?_map]
  congr 1
  funext i
  cases st.inflight[i % st.inflight.length]? with
  | none => rfl
  | some s =>
    simp only [Option.map_some, Prog.expand_bind, expand_join, map_bind]
    congr 1
    funext r
    cases r <;> simp [absorb, Service.absorb, List.eraseIdx_map, State.toStream]

theorem expand_waitBelow (bound fuel : Nat) (st : State) :
    State.toStream E n ctx key <$>
        (waitBelow ctx bound fuel st).expand (StripeCmd.body E n key m ifAbsent) =
      Service.waitBelow bound fuel (st.toStream E n ctx key) := by
  induction fuel generalizing st with
  | zero => rfl
  | succ fuel ih =>
    have hlen : (st.toStream E n ctx key).inflight.length = st.inflight.length :=
      List.length_map _
    rw [waitBelow, Service.waitBelow, hlen]
    split
    · grind [Prog.expand_bind, map_bind, expand_joinNext, bind_map_left]
    · rfl

theorem expand_dispatchStripe (hkey : ctx.key = key)
    (hsize : ctx.chunkSize = (E.cfg n).stripingChunkSize) (segments : List Bytes) (st : State) :
    State.toStream E n ctx key <$>
        (dispatchStripe E n ctx segments st).expand (StripeCmd.body E n key m ifAbsent) =
      Service.dispatchStripe E n ctx segments (st.toStream E n ctx key) := by
  unfold dispatchStripe Service.dispatchStripe
  have hwait := expand_waitBelow E n ctx key m ifAbsent maxInflightStripes st.inflight.length
    { st with nextStripe := st.nextStripe + 1 }
  have hlen : (st.toStream E n ctx key).inflight.length = st.inflight.length :=
    List.length_map _
  rw [Prog.expand_bind, map_bind, hlen]
  refine Eq.trans ?_ (congrArg (· >>= _) hwait)
  rw [bind_map_left]
  congr 1
  funext st'
  have herr : (st'.toStream E n ctx key).firstErr = st'.firstErr := rfl
  rw [herr]
  split
  · simp_all [State.toStream, Stripe.task, stripe]
  · rfl

theorem expand_feedLoop (hkey : ctx.key = key)
    (hsize : ctx.chunkSize = (E.cfg n).stripingChunkSize) (fuel : Nat) (data : Bytes)
    (st : State) :
    State.toStream E n ctx key <$>
        (feedLoop E n ctx fuel data st).expand (StripeCmd.body E n key m ifAbsent) =
      Service.feedLoop E n ctx fuel data (st.toStream E n ctx key) := by
  induction fuel generalizing data st with
  | zero => rfl
  | succ fuel ih =>
    have hfilled : (st.toStream E n ctx key).curFilled = st.curFilled := rfl
    rw [feedLoop, Service.feedLoop, hfilled]
    split
    · rfl
    · dsimp only
      split
      · rfl
      · have hdisp := expand_dispatchStripe E n ctx key m ifAbsent hkey hsize
          (st.curSegments ++ [data.take (ctx.chunkSize - st.curFilled)])
          { st with curSegments := [], curFilled := 0 }
        rw [Prog.expand_bind, map_bind]
        refine Eq.trans ?_ (congrArg (· >>= _) hdisp)
        rw [bind_map_left]
        simp only [ih]

theorem expand_feed (hkey : ctx.key = key) (hsize : ctx.chunkSize = (E.cfg n).stripingChunkSize)
    (data : Bytes) (st : State) :
    State.toStream E n ctx key <$>
        (feed E n ctx data st).expand (StripeCmd.body E n key m ifAbsent) =
      Service.feed E n ctx data (st.toStream E n ctx key) :=
  expand_feedLoop E n ctx key m ifAbsent hkey hsize _ _ _

theorem expand_dropInflight (ss : List Stripe) :
    (dropInflight ctx ss).expand (StripeCmd.body E n key m ifAbsent) =
      Service.dropInflight (ss.map (Stripe.task E n key ctx.desc)) := by
  induction ss with
  | nil => rfl
  | cons s ss ih =>
    simp only [dropInflight, Service.dropInflight, List.map_cons, Prog.expand_bind, expand_pick]
    congr 1
    funext i
    split
    · exact ih
    · simp only [Prog.expand_bind, expand_join, ih]

theorem expand_receive {st : State} {f : PlanSvc State} {g : Svc ν (StreamState ν)}
    (hf : State.toStream E n ctx key <$>
      expandExcept (StripeCmd.body E n key m ifAbsent) f = g) :
    State.toStream E n ctx key <$> expandExcept (StripeCmd.body E n key m ifAbsent) (do
        match ← ExceptT.lift receiveNext with
        | .error e =>
          ExceptT.lift (dropInflight ctx st.inflight)
          throw ⟨.internal, e⟩
        | .ok () => f) = (do
        match ← Service.receiveNext with
        | .error e =>
          Service.dropInflight (st.toStream E n ctx key).inflight
          throw ⟨.internal, e⟩
        | .ok () => g) := by
  rw [expandExcept_bind, map_bind, expandExcept_lift, expand_receiveNext]
  refine bind_congr fun r => ?_
  cases r with
  | ok _ => exact hf
  | error e =>
    dsimp only
    rw [expandExcept_bind, map_bind, expandExcept_lift, expand_dropInflight]
    rfl

theorem expand_receiveLoop (hkey : ctx.key = key)
    (hsize : ctx.chunkSize = (E.cfg n).stripingChunkSize) (chunks : List PutChunk)
    (sawLast : Bool) (st : State) :
    State.toStream E n ctx key <$>
        expandExcept (StripeCmd.body E n key m ifAbsent) (receiveLoop E n ctx chunks sawLast st) =
      Service.receiveLoop E n ctx chunks sawLast (st.toStream E n ctx key) := by
  have herr : ∀ st : State, (st.toStream E n ctx key).firstErr = st.firstErr := fun _ => rfl
  induction chunks generalizing sawLast st with
  | nil =>
    rw [receiveLoop, Service.receiveLoop, herr]
    split
    · rfl
    · exact expand_receive E n ctx key m ifAbsent rfl
  | cons c rest ih =>
    rw [receiveLoop, Service.receiveLoop, herr]
    split
    · rfl
    · refine expand_receive E n ctx key m ifAbsent ?_
      rw [expandExcept_bind, map_bind, expandExcept_lift,
        ← expand_feed E n ctx key m ifAbsent hkey hsize]
      refine Eq.trans ?_ (congrArg (· >>= _) (lift_map _ _).symm)
      rw [bind_map_left]
      simp only [ih]

theorem expand_flushPartial (hkey : ctx.key = key)
    (hsize : ctx.chunkSize = (E.cfg n).stripingChunkSize) (st : State) :
    State.toStream E n ctx key <$>
        (flushPartial E n ctx st).expand (StripeCmd.body E n key m ifAbsent) =
      Service.flushPartial E n ctx (st.toStream E n ctx key) := by
  have herr : (st.toStream E n ctx key).firstErr = st.firstErr := rfl
  have hseg : (st.toStream E n ctx key).curSegments = st.curSegments := rfl
  rw [flushPartial, Service.flushPartial, herr, hseg]
  split
  · exact expand_dispatchStripe E n ctx key m ifAbsent hkey hsize _ _
  · rfl

theorem expand_flushAndDrain (hkey : ctx.key = key)
    (hsize : ctx.chunkSize = (E.cfg n).stripingChunkSize) (st : State) :
    State.toStream E n ctx key <$>
        (flushAndDrain E n ctx st).expand (StripeCmd.body E n key m ifAbsent) =
      Service.flushAndDrain E n ctx (st.toStream E n ctx key) := by
  have hlen : ∀ st : State, (st.toStream E n ctx key).inflight.length = st.inflight.length :=
    fun _ => List.length_map _
  rw [flushAndDrain, Service.flushAndDrain, Prog.expand_bind, map_bind,
    ← expand_flushPartial E n ctx key m ifAbsent hkey hsize, bind_map_left]
  simp only [expand_waitBelow, hlen]

theorem expand_then {α : Type} {x : PlanSvc State} {y : Svc ν (StreamState ν)}
    {k : State → PlanSvc α} {k' : StreamState ν → Svc ν α}
    (hx : State.toStream E n ctx key <$>
      expandExcept (StripeCmd.body E n key m ifAbsent) x = y)
    (hk : ∀ st, expandExcept (StripeCmd.body E n key m ifAbsent) (k st) =
      k' (st.toStream E n ctx key)) :
    expandExcept (StripeCmd.body E n key m ifAbsent) (x >>= k) = y >>= k' := by
  rw [expandExcept_bind, ← hx, bind_map_left]
  exact bind_congr hk

theorem expand_lift_then {α : Type} {p : PlanIo State} {q : Io ν (StreamState ν)}
    {k : State → PlanSvc α} {k' : StreamState ν → Svc ν α}
    (hp : State.toStream E n ctx key <$> p.expand (StripeCmd.body E n key m ifAbsent) = q)
    (hk : ∀ st, expandExcept (StripeCmd.body E n key m ifAbsent) (k st) =
      k' (st.toStream E n ctx key)) :
    expandExcept (StripeCmd.body E n key m ifAbsent) (ExceptT.lift p >>= k) =
      ExceptT.lift q >>= k' := by
  grind [expand_then, expandExcept_lift, lift_map]

theorem expand_finishStream (hsize : ctx.chunkSize = (E.cfg n).stripingChunkSize)
    (prepared : BlockMeta) (st : State) :
    expandExcept (StripeCmd.body E n key m ifAbsent) (finishStream ctx prepared st) = (do
      match Service.checkLength ctx (st.toStream E n ctx key) with
      | some e =>
        rollbackChunks E n (st.toStream E n ctx key).locations
        throw e
      | none =>
        let locations := sortLocations (st.toStream E n ctx key).locations
        Memory.invalidate n key.toStringKey
        let now ← clockNow
        let committed ← liftRes (commitMeta key
          (distributedMeta prepared (E.cfg n).stripingChunkSize ctx.declaredTotal locations)
          (now + (E.cfg n).gcGraceSeconds) ifAbsent)
        if !committed then
          rollbackChunks E n locations
          pure false
        else pure true) := by
  have hcheck : Service.checkLength ctx (st.toStream E n ctx key) = checkLength ctx st := rfl
  rw [finishStream, hcheck]
  cases checkLength ctx st with
  | some e =>
    dsimp only
    rw [expandExcept_bind, expandExcept_lift, expand_rollback]
    rfl
  | none =>
    dsimp only
    rw [expandExcept_bind, expand_commit, hsize]
    simp only [commitPlaced, bind_assoc]
    refine bind_congr fun _ => bind_congr fun now => bind_congr fun committed => ?_
    cases committed with
    | true => rfl
    | false =>
      rw [Bool.not_false, if_pos rfl, if_pos rfl, expandExcept_bind, expandExcept_lift,
        expand_rollback]
      rfl

theorem expand_putStream (declaredTotal : Nat) (first : PutChunk) (rest : List PutChunk) :
    expandExcept (StripeCmd.body E n key m ifAbsent) (putStream E n key declaredTotal first rest) =
      putDistributedStreamImpl E n key m declaredTotal first rest ifAbsent := by
  unfold putStream putDistributedStreamImpl
  rw [expandExcept_bind, expand_prepare]
  refine bind_congr fun prepared => ?_
  refine expand_lift_then E n _ key m ifAbsent (expand_feed E n _ key m ifAbsent rfl rfl _ _)
    fun st₁ => ?_
  refine expand_then E n _ key m ifAbsent
    (expand_receiveLoop E n _ key m ifAbsent rfl rfl _ _ _) fun st₂ => ?_
  refine expand_lift_then E n _ key m ifAbsent (expand_flushAndDrain E n _ key m ifAbsent rfl rfl _)
    fun st₃ => ?_
  exact expand_finishStream E n _ key m ifAbsent rfl prepared st₃

theorem expand_spawnAll (ss : List Stripe) :
    (spawnAll ss).expand (StripeCmd.body E n key m ifAbsent) = .ret () := by
  induction ss with
  | nil => rfl
  | cons s ss ih =>
    rw [spawnAll, Prog.expand_bind, expand_spawn]
    exact ih

theorem expand_joinStripes (hkey : ctx.key = key)
    (hsize : ctx.chunkSize = (E.cfg n).stripingChunkSize) (data : Bytes) :
    expandExcept (StripeCmd.body E n key m ifAbsent)
        (ExceptT.lift (joinAll pick ((stripes E n ctx data).map (join ctx.desc)))) =
      joinResults (stripeTasks E n key data ctx.desc ctx.chunkSize) := by
  rw [expandExcept_lift, Prog.expand_joinAll]
  simp only [expand_pick, List.map_map, stripes, joinResults, stripeTasks]
  grind [List.map_congr_left, expand_join, Stripe.task, stripe]

theorem expand_finishBytes (hsize : ctx.chunkSize = (E.cfg n).stripingChunkSize)
    (prepared : BlockMeta) (locations : List ChunkLocation) :
    expandExcept (StripeCmd.body E n key m ifAbsent) (finishBytes E n ctx prepared locations) = (
      if (E.cfg n).verifyStripeChecksums ∧ locations.any (fun l => l.checksum = "") then do
        rollbackChunks E n locations
        throw ⟨.failedPrecondition,
          "stripe integrity is enabled but a data node did not return a checksum"⟩
      else do
        Memory.invalidate n key.toStringKey
        let now ← clockNow
        match ← attempt (liftRes (commitMeta key
            (distributedMeta prepared (E.cfg n).stripingChunkSize ctx.declaredTotal locations)
            (now + (E.cfg n).gcGraceSeconds) ifAbsent)) with
        | .ok true => pure true
        | .ok false =>
          rollbackChunks E n locations
          pure false
        | .error e =>
          rollbackChunks E n locations
          throw e) := by
  unfold finishBytes
  split
  · rw [expandExcept_bind, expandExcept_lift, expand_rollback]
    rfl
  · have hplaced : ∀ committed, attempt (commitPlaced E n key ifAbsent committed) = (do
        Memory.invalidate n key.toStringKey
        let now ← clockNow
        attempt (liftRes (commitMeta key committed (now + (E.cfg n).gcGraceSeconds) ifAbsent))) :=
      fun committed => (attempt_lift_bind _ _).trans (bind_congr fun _ => attempt_lift_bind _ _)
    rw [expandExcept_bind, expandExcept_attempt, expand_commit, hsize, hplaced]
    simp only [bind_assoc]
    refine bind_congr fun _ => bind_congr fun now => bind_congr fun r => ?_
    rcases r with e | (_ | _)
    · dsimp only
      rw [expandExcept_bind, expandExcept_lift, expand_rollback]
      rfl
    · dsimp only
      rw [expandExcept_bind, expandExcept_lift, expand_rollback]
      rfl
    · rfl

theorem expand_putBytes (data : Bytes) :
    expandExcept (StripeCmd.body E n key m ifAbsent) (putBytes E n key data) =
      putDistributedBytesImpl E n key data m ifAbsent := by
  unfold putBytes putDistributedBytesImpl
  rw [expandExcept_bind, expand_prepare]
  refine bind_congr fun prepared => ?_
  rw [expandExcept_bind, expandExcept_lift, expand_spawnAll]
  refine (expandExcept_bind _ _ _).trans ?_
  rw [expand_joinStripes E n _ key m ifAbsent rfl rfl]
  refine bind_congr fun results => ?_
  rw [expandExcept_bind]
  refine bind_congr fun written => ?_
  exact expand_finishBytes E n _ key m ifAbsent rfl prepared _

end Expand

end Plan

end Service

end ContextStore
