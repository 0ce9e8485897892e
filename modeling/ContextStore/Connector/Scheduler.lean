import ContextStore.Connector.PrefixIndex

/-!
# vLLM connector: scheduler 側

`contextstore/connector.py` の `_SchedulerImpl`。
-/

namespace ContextStore

namespace Connector

/-- `_Spec`。 -/
structure Spec where
  reqId : String
  prefixKey : String
  gpuBlockIds : List Nat
  numTokens : Nat
deriving DecidableEq, Repr

/-- `ContextStoreMeta`。 -/
structure Meta where
  storeSpecs : List Spec
  loadSpecs : List Spec
deriving DecidableEq, Repr

structure Request where
  requestId : String
  promptTokenIds : List Nat
deriving DecidableEq, Repr

/-- `_pending_loads` の値。 -/
structure PendingLoad where
  request : Request
  blocks : List (List Nat)
  numExternalTokens : Nat
deriving DecidableEq, Repr

def PendingLoad.blockIds (p : PendingLoad) : List Nat := p.blocks.head?.getD []

structure NewRequest where
  reqId : String
  promptTokenIds : List Nat
  blockIds : List (List Nat)
deriving DecidableEq, Repr

/-- `SchedulerOutput`。 -/
structure SchedulerOutput where
  scheduledNewReqs : List NewRequest
  cachedReqIds : List String
  cachedNewBlockIds : List (Option (List (List Nat)))
  resumedReqIds : List String
deriving DecidableEq, Repr

/-- `_SchedulerImpl` の状態。 -/
structure Sched where
  index : PrefixIndex
  pendingLoads : List (String × PendingLoad)
  storePromptTokens : String → Option (List Nat)
  storeBlockIds : String → Option (List Nat)

namespace Sched

def initial : Sched := ⟨.empty, [], fun _ => none, fun _ => none⟩

variable (c : Config) (s : Sched)

/-! ## 照合 -/

def wantsProbe (tokens : List Nat) : Bool :=
  decide (s.index.lookupPrefix c tokens < c.fullCacheable tokens)

def probeFound (tokens : List Nat) (probe : Option (String → String → Bool)) : Bool :=
  match probe with
  | none => false
  | some answer =>
    (c.probeLayerNames (c.fullCacheable tokens / c.blockSize)).all
      (answer (c.prefixKey tokens (c.fullCacheable tokens)))

def matchPrefix (tokens : List Nat) (probe : Option (String → String → Bool)) :
    PrefixIndex × Nat :=
  if s.wantsProbe c tokens && probeFound c tokens probe then
    (s.index.registerPrefix c tokens (c.fullCacheable tokens), c.fullCacheable tokens)
  else (s.index, s.index.lookupPrefix c tokens)

/-- `get_num_new_matched_tokens`。 -/
def getNumNewMatchedTokens (request : Request) (numComputedTokens : Nat)
    (probe : Option (String → String → Bool)) : Sched × Nat :=
  let (index, matched) := s.matchPrefix c request.promptTokenIds probe
  let external :=
    if matched ≤ numComputedTokens then 0
    else min (matched - numComputedTokens) (request.promptTokenIds.length - numComputedTokens - 1)
  ({ s with index := index }, external)

def assign {β : Type} (key : String) (value : β) : List (String × β) → List (String × β)
  | [] => [(key, value)]
  | (k, v) :: rest => if k = key then (key, value) :: rest else (k, v) :: assign key value rest

/-- `update_state_after_alloc`。 -/
def updateStateAfterAlloc (request : Request) (blocks : List (List Nat))
    (numExternalTokens : Nat) : Sched :=
  if 0 < numExternalTokens then
    { s with pendingLoads :=
        assign request.requestId ⟨request, blocks, numExternalTokens⟩ s.pendingLoads }
  else s

/-! ## 指示 -/

def loadSpec (reqId : String) (p : PendingLoad) : Option Spec :=
  let tokens := p.request.promptTokenIds
  let ids := p.blockIds
  if ids.isEmpty then none
  else
    let matched := s.index.lookupPrefix c tokens
    if matched = 0 then none
    else
      let n := min (matched / c.blockSize) ids.length
      if n = 0 then none
      else some ⟨reqId, c.prefixKey tokens (n * c.blockSize), ids.take n, n * c.blockSize⟩

def trackNew (s : Sched) (r : NewRequest) : Sched :=
  let s := if r.promptTokenIds.isEmpty then s
    else { s with storePromptTokens :=
      Function.update s.storePromptTokens r.reqId (some r.promptTokenIds) }
  match r.blockIds.head? with
  | some (b :: bs) =>
    { s with storeBlockIds := Function.update s.storeBlockIds r.reqId (some (b :: bs)) }
  | _ => s

def trackCached (resumed : List String) (s : Sched) (r : String × Option (List (List Nat))) :
    Sched :=
  match r.2.bind List.head? with
  | some (b :: bs) =>
    let old := if r.1 ∈ resumed then [] else (s.storeBlockIds r.1).getD []
    { s with storeBlockIds := Function.update s.storeBlockIds r.1 (some (old ++ b :: bs)) }
  | _ => s

def storeSpec (reqId : String) : Option Spec :=
  match s.storePromptTokens reqId, s.storeBlockIds reqId with
  | some tokens, some ids =>
    let n := tokens.length / c.blockSize
    if tokens.isEmpty || ids.isEmpty || n == 0 || decide (ids.length < n) then none
    else if n * c.blockSize ≤ s.index.lookupPrefix c tokens then none
    else some ⟨reqId, c.prefixKey tokens (n * c.blockSize), ids.take n, n * c.blockSize⟩
  | _, _ => none

def activeReqIds (out : SchedulerOutput) : List String :=
  (out.scheduledNewReqs.map NewRequest.reqId ++ out.cachedReqIds).dedup

def track (out : SchedulerOutput) : Sched :=
  (out.cachedReqIds.zip out.cachedNewBlockIds).foldl (trackCached out.resumedReqIds)
    (out.scheduledNewReqs.foldl trackNew s)

def loadSpecs : List Spec := s.pendingLoads.filterMap fun (reqId, p) => s.loadSpec c reqId p

/-- `build_connector_meta`。 -/
def buildConnectorMeta (out : SchedulerOutput) : Sched × Meta :=
  let s' := s.track out
  ({ s' with pendingLoads := [] },
    { storeSpecs := (activeReqIds out).filterMap (s'.storeSpec c)
      loadSpecs := s.loadSpecs c })

/-- `request_finished`。 -/
def requestFinished (request : Request) (blockIds : List Nat) : Sched × Bool :=
  (if blockIds.isEmpty then s
    else { s with storeBlockIds :=
      Function.update s.storeBlockIds request.requestId (some blockIds) }, false)

variable {c s}

theorem loadSpec_eq_some {reqId : String} {p : PendingLoad} {spec : Spec}
    (h : s.loadSpec c reqId p = some spec) :
    ∃ n, 0 < n ∧
      n = min (s.index.lookupPrefix c p.request.promptTokenIds / c.blockSize) p.blockIds.length ∧
      spec = ⟨reqId, c.prefixKey p.request.promptTokenIds (n * c.blockSize), p.blockIds.take n,
        n * c.blockSize⟩ := by
  unfold loadSpec at h
  grind

theorem mem_loadSpecs {spec : Spec} (h : spec ∈ s.loadSpecs c) :
    ∃ reqId p, (reqId, p) ∈ s.pendingLoads ∧ s.loadSpec c reqId p = some spec := by
  obtain ⟨⟨reqId, p⟩, hmem, hspec⟩ := List.mem_filterMap.mp h
  exact ⟨reqId, p, hmem, hspec⟩

@[simp] theorem index_track (out : SchedulerOutput) : (s.track out).index = s.index := by
  have hcached : ∀ (rs : List (String × Option (List (List Nat)))) (s : Sched),
      (rs.foldl (trackCached out.resumedReqIds) s).index = s.index := by
    intro rs
    induction rs with
    | nil => intro s; rfl
    | cons r rs ih =>
      intro s
      rw [List.foldl_cons, ih]
      unfold trackCached
      split <;> rfl
  have hnew : ∀ (rs : List NewRequest) (s : Sched), (rs.foldl trackNew s).index = s.index := by
    intro rs
    induction rs with
    | nil => intro s; rfl
    | cons r rs ih =>
      intro s
      rw [List.foldl_cons, ih]
      unfold trackNew
      dsimp only
      split <;> split <;> rfl
  unfold track
  rw [hcached, hnew]

end Sched

def longRequest : Request := ⟨"a", [1, 2, 3, 4, 5]⟩

end Connector

end ContextStore
