import ContextStore.Conc.System
import ContextStore.Data
import Mathlib.Algebra.Order.Field.Rat
import Mathlib.Tactic.Linarith

/-!
# 複数の storage server をまたぐ backend

`contextstore/storage/ha_kvservice.py` の `HaKVServiceBackend`。
-/

namespace ContextStore

open Conc

/-- breaker の状態。 -/
inductive BreakerState where
  | closed
  | opened
  | halfOpen
deriving DecidableEq, Repr

/-- `_CircuitBreaker`。 -/
structure Breaker where
  state : BreakerState
  openedAt : ℚ
  trialInflight : Bool
deriving DecidableEq

namespace Breaker

def init : Breaker := ⟨.closed, 0, false⟩

/-- `allow`。 -/
def allow (cooldown clock : ℚ) (b : Breaker) : Breaker × Bool :=
  match b.state with
  | .closed => (b, true)
  | .opened =>
    if cooldown ≤ clock - b.openedAt then
      ({ b with state := .halfOpen, trialInflight := true }, true)
    else (b, false)
  | .halfOpen => if b.trialInflight then (b, false) else ({ b with trialInflight := true }, true)

/-- `record`。 -/
def record (clock : ℚ) (ok : Bool) (b : Breaker) : Breaker :=
  if ok then { b with state := .closed, trialInflight := false }
  else ⟨.opened, clock, false⟩

end Breaker

/-! ## 命令 -/

inductive ChildCall (μ : Type) where
  | put (key layer : String) (data : Bytes) (m : Option μ)
  | get (key layer : String)
  | exists (key : String)
  | delete (key : String)
  | getMeta (key : String)
  | capacityUsage
  | listKeys
  | getParallel (keys : List String) (layer : String)
  | putChunks (key layer : String) (segments : List Bytes) (m : Option μ)
  | getChunks (key layer : String)
  | probeLayerExists (key layer : String)
  | ensureRdmaRegion (ptr size : Nat)
  | getChunksInto (key layer : String) (region offset : Nat)
  | putChunksFrom (key layer : String) (region offset size : Nat)

@[reducible] def ChildCall.Ret {μ : Type} : ChildCall μ → Type
  | .put _ _ _ _ => Unit
  | .get _ _ => Option Bytes
  | .exists _ => Bool
  | .delete _ => Unit
  | .getMeta _ => Option μ
  | .capacityUsage => Option (Nat × Nat)
  | .listKeys => Option (List String)
  | .getParallel _ _ => Option (List (Option Bytes))
  | .putChunks _ _ _ _ => Unit
  | .getChunks _ _ => Option (List Bytes)
  | .probeLayerExists _ _ => Bool
  | .ensureRdmaRegion _ _ => Option Nat
  | .getChunksInto _ _ _ _ => Option Nat
  | .putChunksFrom _ _ _ _ _ => Bool

inductive HaCmd (n : Nat) (μ : Type) where
  | allow (idx : Fin n) (direct : Bool)
  | record (idx : Fin n) (ok : Bool)
  | child (idx : Fin n) (c : ChildCall μ)
  | assignRegion (ptr size : Nat)
  | lookupRegion (haId : Nat)

@[reducible] def HaCmd.Resp {n : Nat} {μ : Type} : HaCmd n μ → Type
  | .allow _ _ => Bool
  | .record _ _ => Unit
  | .child _ c => Except String c.Ret
  | .assignRegion _ _ => Nat
  | .lookupRegion _ => Option (Nat × Nat)

structure HaConfig (n : Nat) where
  pos : 0 < n
  cooldown : ℚ
  md5 : String → Nat
  hasEnsureRdmaRegion : Fin n → Bool
  hasGetChunksInto : Fin n → Bool
  hasPutChunksFrom : Fin n → Bool

def HaConfig.route {n : Nat} (cfg : HaConfig n) (key : String) : Fin n :=
  ⟨cfg.md5 key % n, Nat.mod_lt _ cfg.pos⟩

structure HaState (n : Nat) where
  breakers : Fin n → Breaker
  regions : List (Nat × (Nat × Nat))
  nextRegionId : Nat
  clock : ℚ

def HaState.init (n : Nat) (clock : ℚ) : HaState n := ⟨fun _ => .init, [], 1, clock⟩

namespace Ha

variable {n : Nat} {μ : Type}

abbrev Io (n : Nat) (μ : Type) := Prog (HaCmd n μ) HaCmd.Resp

abbrev issue (c : HaCmd n μ) : Io n μ c.Resp := Prog.issue c

/-! ## 呼び出し -/

/-- `_call`。 -/
def call (idx : Fin n) (c : ChildCall μ) : Io n μ (Option c.Ret) := do
  if ← issue (.allow idx false) then
    match ← issue (.child idx c) with
    | .ok result =>
      let () ← issue (.record idx true)
      pure (some result)
    | .error _ =>
      let () ← issue (.record idx false)
      pure none
  else pure none

variable (cfg : HaConfig n)

def put (key layer : String) (data : Bytes) (m : Option μ) : Io n μ Unit := do
  let _ ← call (cfg.route key) (.put key layer data m)
  pure ()

def get (key layer : String) : Io n μ (Option Bytes) := do
  let r ← call (cfg.route key) (.get key layer)
  pure r.join

/-- `exists`。 -/
def existsKey (key : String) : Io n μ Bool := do
  let r ← call (cfg.route key) (.exists key)
  pure (r.getD false)

def delete (key : String) : Io n μ Unit := do
  let _ ← call (cfg.route key) (.delete key)
  pure ()

def getMeta (key : String) : Io n μ (Option μ) := do
  let r ← call (cfg.route key) (.getMeta key)
  pure r.join

def callEach (c : ChildCall μ) : List (Fin n) → Io n μ (List (Option c.Ret))
  | [] => pure []
  | idx :: rest => do
    let r ← call idx c
    let rs ← callEach c rest
    pure (r :: rs)

def capacityUsage : Io n μ (Nat × Nat) := do
  let rs ← callEach .capacityUsage (List.finRange n)
  let used := rs.filterMap Option.join
  pure ((used.map Prod.fst).sum, (used.map Prod.snd).sum)

def listKeys : Io n μ (List String) := do
  let rs ← callEach .listKeys (List.finRange n)
  pure (rs.filterMap Option.join).flatten.eraseDups

def groups (keys : List String) : List (Fin n × List (Nat × String)) :=
  (keys.map cfg.route).eraseDups.map fun idx =>
    (idx, (keys.zipIdx.filter fun ki => cfg.route ki.1 = idx).map fun ki => (ki.2, ki.1))

def placeFetched (items : List (Nat × String)) (fetched : List (Option Bytes))
    (results : List (Option Bytes)) : List (Option Bytes) :=
  (items.zip fetched).foldl (fun results x => results.set x.1.1 x.2) results

def fetchGroups (layer : String) :
    List (Fin n × List (Nat × String)) → List (Option Bytes) → Io n μ (List (Option Bytes))
  | [], results => pure results
  | (idx, items) :: rest, results => do
    let fetched ← call idx (.getParallel (items.map Prod.snd) layer)
    match fetched.join with
    | none => fetchGroups layer rest results
    | some fetched => fetchGroups layer rest (placeFetched items fetched results)

def getParallel (keys : List String) (layer : String) : Io n μ (List (Option Bytes)) :=
  fetchGroups layer (groups cfg keys) (List.replicate keys.length none)

def putChunks (key layer : String) (segments : List Bytes) (m : Option μ) : Io n μ Unit := do
  let _ ← call (cfg.route key) (.putChunks key layer segments m)
  pure ()

def getChunks (key layer : String) : Io n μ (Option (List Bytes)) := do
  let r ← call (cfg.route key) (.getChunks key layer)
  pure r.join

def probeLayerExists (key layer : String) : Io n μ Bool := do
  let r ← call (cfg.route key) (.probeLayerExists key layer)
  pure (r.getD false)

/-! ## RDMA の領域 -/

def ensureRdmaRegion (ptr size : Nat) : Io n μ Nat := do
  let haId ← issue (.assignRegion ptr size)
  let _ ← callEach (.ensureRdmaRegion ptr size)
    ((List.finRange n).filter fun idx => cfg.hasEnsureRdmaRegion idx)
  pure haId

def translateRegion (idx : Fin n) (haId : Nat) : Io n μ (Option Nat) := do
  match ← issue (.lookupRegion haId) with
  | none => pure none
  | some (ptr, size) =>
    if cfg.hasEnsureRdmaRegion idx then
      let r ← call idx (.ensureRdmaRegion ptr size)
      pure r.join
    else pure none

/-- `get_chunks_into`。 -/
def getChunksInto (key layer : String) (region offset : Nat) : Io n μ (Option Nat) := do
  let idx := cfg.route key
  if ← issue (.allow idx true) then
    match ← translateRegion cfg idx region with
    | none => pure none
    | some rid =>
      if cfg.hasGetChunksInto idx then
        match ← issue (.child idx (.getChunksInto key layer rid offset)) with
        | .ok filled =>
          let () ← issue (.record idx true)
          pure filled
        | .error _ =>
          let () ← issue (.record idx false)
          pure none
      else pure none
  else pure none

/-- `put_chunks_from`。 -/
def putChunksFrom (key layer : String) (region offset size : Nat) : Io n μ Bool := do
  let idx := cfg.route key
  if ← issue (.allow idx true) then
    match ← translateRegion cfg idx region with
    | none => pure false
    | some rid =>
      if cfg.hasPutChunksFrom idx then
        match ← issue (.child idx (.putChunksFrom key layer rid offset size)) with
        | .ok ok =>
          let () ← issue (.record idx true)
          pure ok
        | .error _ =>
          let () ← issue (.record idx false)
          pure false
      else pure false
  else pure false

end Ha

/-- 呼び出し。 -/
inductive HaOp (μ : Type) where
  | put (key layer : String) (data : Bytes) (m : Option μ)
  | get (key layer : String)
  | exists (key : String)
  | delete (key : String)
  | getMeta (key : String)
  | capacityUsage
  | listKeys
  | getParallel (keys : List String) (layer : String)
  | putChunks (key layer : String) (segments : List Bytes) (m : Option μ)
  | getChunks (key layer : String)
  | probeLayerExists (key layer : String)
  | ensureRdmaRegion (ptr size : Nat)
  | getChunksInto (key layer : String) (region offset : Nat)
  | putChunksFrom (key layer : String) (region offset size : Nat)

@[reducible] def HaOp.Ret {μ : Type} : HaOp μ → Type
  | .put _ _ _ _ => Unit
  | .get _ _ => Option Bytes
  | .exists _ => Bool
  | .delete _ => Unit
  | .getMeta _ => Option μ
  | .capacityUsage => Nat × Nat
  | .listKeys => List String
  | .getParallel _ _ => List (Option Bytes)
  | .putChunks _ _ _ _ => Unit
  | .getChunks _ _ => Option (List Bytes)
  | .probeLayerExists _ _ => Bool
  | .ensureRdmaRegion _ _ => Nat
  | .getChunksInto _ _ _ _ => Option Nat
  | .putChunksFrom _ _ _ _ _ => Bool

variable {n : Nat} {μ : Type}

def HaOp.run (cfg : HaConfig n) : (op : HaOp μ) → Ha.Io n μ op.Ret
  | .put key layer data m => Ha.put cfg key layer data m
  | .get key layer => Ha.get cfg key layer
  | .exists key => Ha.existsKey cfg key
  | .delete key => Ha.delete cfg key
  | .getMeta key => Ha.getMeta cfg key
  | .capacityUsage => Ha.capacityUsage
  | .listKeys => Ha.listKeys
  | .getParallel keys layer => Ha.getParallel cfg keys layer
  | .putChunks key layer segments m => Ha.putChunks cfg key layer segments m
  | .getChunks key layer => Ha.getChunks cfg key layer
  | .probeLayerExists key layer => Ha.probeLayerExists cfg key layer
  | .ensureRdmaRegion ptr size => Ha.ensureRdmaRegion cfg ptr size
  | .getChunksInto key layer region offset => Ha.getChunksInto cfg key layer region offset
  | .putChunksFrom key layer region offset size => Ha.putChunksFrom cfg key layer region offset size

abbrev HaAnswer (μ : Type) := Σ op : HaOp μ, op.Ret

def HaOp.prog (cfg : HaConfig n) (op : HaOp μ) : Ha.Io n μ (HaAnswer μ) := do
  let r ← op.run cfg
  pure ⟨op, r⟩

/-! ## 系 -/

abbrev ChildReplies (μ : Type) := (c : ChildCall μ) → Except String c.Ret

def HaState.assign (ptr size : Nat) (s : HaState n) : HaState n × Nat :=
  match s.regions.find? fun r => r.2 = (ptr, size) with
  | some r => (s, r.1)
  | none =>
    ({ s with
      regions := s.regions ++ [(s.nextRegionId, (ptr, size))]
      nextRegionId := s.nextRegionId + 1 }, s.nextRegionId)

def haExec (cfg : HaConfig n) :
    (c : HaCmd n μ) → ChildReplies μ → HaState n → Option (HaState n × c.Resp)
  | .allow idx _, _, s =>
    let (b, ok) := (s.breakers idx).allow cfg.cooldown s.clock
    some ({ s with breakers := Function.update s.breakers idx b }, ok)
  | .record idx ok, _, s =>
    some ({ s with
      breakers := Function.update s.breakers idx ((s.breakers idx).record s.clock ok) }, ())
  | .child _ c, replies, s => some (s, replies c)
  | .assignRegion ptr size, _, s => some (s.assign ptr size)
  | .lookupRegion haId, _, s =>
    some (s, (s.regions.find? fun r => r.1 = haId).map Prod.snd)

structure HaSeen (n : Nat) where
  clock : ℚ
  before : Fin n → BreakerState

def haMachine (μ : Type) (cfg : HaConfig n) :
    Machine (HaState n) (HaCmd n μ) HaCmd.Resp (ChildReplies μ) {d : ℚ // 0 ≤ d} (HaSeen n) where
  exec := haExec cfg
  env d s := { s with clock := s.clock + d.1 }
  observe _ _ _ s := ⟨s.clock, fun idx => (s.breakers idx).state⟩

abbrev HaRun (n : Nat) (μ : Type) :=
  Config (HaState n) (HaOp μ) (HaCmd n μ) HaCmd.Resp (HaAnswer μ) (HaSeen n)

abbrev HaMove (μ : Type) := Act (HaOp μ) (ChildReplies μ) {d : ℚ // 0 ≤ d}

abbrev HaLog (n : Nat) (μ : Type) := List (Entry (HaCmd n μ) HaCmd.Resp (HaSeen n))

def HaReach (cfg : HaConfig n) (P : HaRun n μ → HaMove μ → Prop) (c : HaRun n μ) : Prop :=
  ∃ t, (haMachine μ cfg).Reach (HaOp.prog cfg) (HaState.init n t) P c

end ContextStore
