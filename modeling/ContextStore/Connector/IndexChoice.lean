import ContextStore.Connector.PrefixRegistry
import ContextStore.Connector.Scheduler

/-!
# scheduler と索引の選択
-/

namespace ContextStore

namespace Connector

abbrev RedisIndex := List String

namespace RedisIndex

variable (c : Config)

/-- `lookup_prefix`。 -/
def lookupPrefix (members : RedisIndex) (tokens : List Nat) : Nat :=
  ((List.range (tokens.length / c.blockSize)).takeWhile fun i =>
    members.contains (c.computeBlockKey tokens i)).length * c.blockSize

def registerPrefix (_members : RedisIndex) (_tokens : List Nat) (_numTokens : Nat) :
    Except String RedisIndex :=
  .error "'RedisPrefixIndex' object has no attribute 'register_prefix'"

end RedisIndex

def loadSpecBy (c : Config) (lookup : List Nat → Nat) (reqId : String) (p : PendingLoad) :
    Option Spec :=
  let tokens := p.request.promptTokenIds
  let ids := p.blockIds
  if ids.isEmpty then none
  else
    let matched := lookup tokens
    if matched = 0 then none
    else
      let n := min (matched / c.blockSize) ids.length
      if n = 0 then none
      else some ⟨reqId, c.prefixKey tokens (n * c.blockSize), ids.take n, n * c.blockSize⟩

def storeSpecBy (c : Config) (lookup : List Nat → Nat) (s : Sched) (reqId : String) :
    Option Spec :=
  match s.storePromptTokens reqId, s.storeBlockIds reqId with
  | some tokens, some ids =>
    let n := tokens.length / c.blockSize
    if tokens.isEmpty || ids.isEmpty || n == 0 || decide (ids.length < n) then none
    else if n * c.blockSize ≤ lookup tokens then none
    else some ⟨reqId, c.prefixKey tokens (n * c.blockSize), ids.take n, n * c.blockSize⟩
  | _, _ => none

structure RedisSched where
  members : RedisIndex
  tables : Sched

namespace RedisSched

def initial : RedisSched := ⟨[], .initial⟩

variable (c : Config) (s : RedisSched)

def matchPrefix (tokens : List Nat) (probe : Option (String → String → Bool)) :
    RedisIndex × Nat :=
  let matched := s.members.lookupPrefix c tokens
  if decide (matched < c.fullCacheable tokens) && Sched.probeFound c tokens probe then
    match s.members.registerPrefix tokens (c.fullCacheable tokens) with
    | .ok members => (members, c.fullCacheable tokens)
    | .error _ => (s.members, matched)
  else (s.members, matched)

/-- `get_num_new_matched_tokens`。 -/
def getNumNewMatchedTokens (request : Request) (numComputedTokens : Nat)
    (probe : Option (String → String → Bool)) : RedisSched × Nat :=
  let (members, matched) := s.matchPrefix c request.promptTokenIds probe
  let external :=
    if matched ≤ numComputedTokens then 0
    else min (matched - numComputedTokens) (request.promptTokenIds.length - numComputedTokens - 1)
  ({ s with members }, external)

/-- `build_connector_meta`。 -/
def buildConnectorMeta (out : SchedulerOutput) : RedisSched × Meta :=
  let lookup := s.members.lookupPrefix c
  let tables := s.tables.track out
  ({ s with tables := { tables with pendingLoads := [] } },
    { storeSpecs := (Sched.activeReqIds out).filterMap (storeSpecBy c lookup tables)
      loadSpecs := s.tables.pendingLoads.filterMap fun (reqId, p) => loadSpecBy c lookup reqId p })

end RedisSched

inductive SchedulerCall where
  | matchTokens (request : Request) (numComputedTokens : Nat)
      (probe : Option (String → String → Bool))
  | alloc (request : Request) (blocks : List (List Nat)) (numExternalTokens : Nat)
  | build (out : SchedulerOutput)
  | finish (request : Request) (blockIds : List Nat)

/-- 返すもの。 -/
inductive SchedulerAnswer where
  | matched (n : Nat)
  | done
  | built (m : Meta)
deriving DecidableEq

def Sched.call (c : Config) (s : Sched) : SchedulerCall → Sched × SchedulerAnswer
  | .matchTokens request n probe =>
    ((s.getNumNewMatchedTokens c request n probe).1,
      .matched (s.getNumNewMatchedTokens c request n probe).2)
  | .alloc request blocks n => (s.updateStateAfterAlloc request blocks n, .done)
  | .build out => ((s.buildConnectorMeta c out).1, .built (s.buildConnectorMeta c out).2)
  | .finish request ids => ((s.requestFinished request ids).1, .done)

def RedisSched.call (c : Config) (s : RedisSched) : SchedulerCall → RedisSched × SchedulerAnswer
  | .matchTokens request n probe =>
    ((s.getNumNewMatchedTokens c request n probe).1,
      .matched (s.getNumNewMatchedTokens c request n probe).2)
  | .alloc request blocks n =>
    ({ s with tables := s.tables.updateStateAfterAlloc request blocks n }, .done)
  | .build out => ((s.buildConnectorMeta c out).1, .built (s.buildConnectorMeta c out).2)
  | .finish request ids => ({ s with tables := (s.tables.requestFinished request ids).1 }, .done)

def answersOf {σ : Type} (call : σ → SchedulerCall → σ × SchedulerAnswer) :
    σ → List SchedulerCall → List SchedulerAnswer
  | _, [] => []
  | s, e :: es => (call s e).2 :: answersOf call (call s e).1 es

def Misses (c : Config) : SchedulerCall → Prop
  | .matchTokens request _ probe =>
    0 < c.fullCacheable request.promptTokenIds →
      Sched.probeFound c request.promptTokenIds probe = false
  | _ => True

structure Alike (s : Sched) (r : RedisSched) : Prop where
  tables : r.tables = s
  index : s.index = .empty
  members : r.members = []

variable {c : Config} {s : Sched} {r : RedisSched}

theorem lookupPrefix_empty (tokens : List Nat) : PrefixIndex.empty.lookupPrefix c tokens = 0 := by
  rw [Indexes.empty.lookupPrefix_eq]
  simp [agreement, longestCommon]

theorem redisLookup_nil (tokens : List Nat) : RedisIndex.lookupPrefix c [] tokens = 0 := by
  unfold RedisIndex.lookupPrefix
  cases List.range (tokens.length / c.blockSize) <;> simp

theorem Alike.lookup (h : Alike s r) :
    r.members.lookupPrefix c = s.index.lookupPrefix c := by
  funext tokens
  rw [h.members, h.index, lookupPrefix_empty, redisLookup_nil]

theorem Alike.call (h : Alike s r) {e : SchedulerCall} (hmiss : Misses c e) :
    (s.call c e).2 = (r.call c e).2 ∧ Alike (s.call c e).1 (r.call c e).1 := by
  have hlookup := h.lookup (c := c)
  obtain ⟨rfl, hindex, hmembers⟩ := h
  cases e with
  | matchTokens request n probe =>
    have hzero : r.tables.index.lookupPrefix c request.promptTokenIds = 0 := by
      rw [hindex, lookupPrefix_empty]
    have hhit : (decide (0 < c.fullCacheable request.promptTokenIds) &&
        Sched.probeFound c request.promptTokenIds probe) = false := by
      by_cases hpos : 0 < c.fullCacheable request.promptTokenIds
      · simp [hmiss hpos]
      · simp [hpos]
    have hmemory : r.tables.matchPrefix c request.promptTokenIds probe =
        (r.tables.index, 0) := by
      rw [Sched.matchPrefix, Sched.wantsProbe, hzero, hhit]
      rfl
    have hredis : r.matchPrefix c request.promptTokenIds probe = (r.members, 0) := by
      rw [RedisSched.matchPrefix, hlookup, hzero, hhit]
      rfl
    simp only [Sched.call, RedisSched.call, Sched.getNumNewMatchedTokens,
      RedisSched.getNumNewMatchedTokens, hmemory, hredis]
    exact ⟨trivial, rfl, hindex, hmembers⟩
  | alloc request blocks n =>
    refine ⟨rfl, rfl, ?_, hmembers⟩
    simp only [Sched.call, Sched.updateStateAfterAlloc]
    split <;> exact hindex
  | build out =>
    refine ⟨?_, rfl, (Sched.index_track out).trans hindex, hmembers⟩
    have htrack : storeSpecBy c (r.tables.index.lookupPrefix c) (r.tables.track out) =
        (r.tables.track out).storeSpec c := by
      rw [← Sched.index_track out]
      rfl
    simp only [Sched.call, RedisSched.call, Sched.buildConnectorMeta,
      RedisSched.buildConnectorMeta, hlookup, htrack]
    rfl
  | finish request ids =>
    refine ⟨rfl, rfl, ?_, hmembers⟩
    simp only [Sched.call, Sched.requestFinished]
    split <;> exact hindex

/-- **照合が一度も当たらない間は、どちらの索引でも scheduler は同じ数と同じ指示を返す。** -/
theorem answers_agree (c : Config) {calls : List SchedulerCall}
    (hmiss : ∀ e ∈ calls, Misses c e) :
    answersOf (Sched.call c) .initial calls = answersOf (RedisSched.call c) .initial calls := by
  have hrun : ∀ {s : Sched} {r : RedisSched}, Alike s r →
      answersOf (Sched.call c) s calls = answersOf (RedisSched.call c) r calls := by
    induction calls with
    | nil => exact fun _ => rfl
    | cons e calls ih =>
      intro s r h
      obtain ⟨he, hrest⟩ := List.forall_mem_cons.mp hmiss
      obtain ⟨hanswer, hnext⟩ := h.call he
      exact congrArg₂ List.cons hanswer (ih hrest hnext)
  exact hrun ⟨rfl, rfl, rfl⟩

def oneRequest (found : Bool) : List SchedulerCall :=
  [.matchTokens longRequest 0 (some fun _ _ => found), .alloc longRequest [[7, 8]] 4,
    .build ⟨[⟨"a", [1, 2, 3, 4, 5], [[7, 8]]⟩], [], [], []⟩]

theorem answers_agree_missed :
    answersOf (Sched.call sampleConfig) .initial (oneRequest false) =
      answersOf (RedisSched.call sampleConfig) .initial (oneRequest false) :=
  answers_agree sampleConfig (List.forall_mem_cons.mpr ⟨fun _ => by decide, by simp [Misses]⟩)

theorem answers_differ :
    answersOf (Sched.call sampleConfig) .initial (oneRequest true) =
        [.matched 4, .done, .built ⟨[], [⟨"a", sampleDigest "m:1,2,3,4", [7, 8], 4⟩]⟩] ∧
      answersOf (RedisSched.call sampleConfig) .initial (oneRequest true) =
        [.matched 0, .done, .built ⟨[⟨"a", sampleDigest "m:1,2,3,4", [7, 8], 4⟩], []⟩] := by
  decide +kernel

end Connector

end ContextStore
