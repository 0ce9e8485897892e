import ContextStore.Cluster.Op

/-!
# cluster の走り
-/

namespace ContextStore

open Conc

variable {ν : Type}

/-- 呼び出し。 -/
inductive Call (ν : Type) where
  | op (o : Op ν)
  | prepare (n : ν) (req : Service.PrepareRequest)
  | putStripes (n : ν) (rawKey : String) (generation layoutVersion chunkSize : Nat)
      (stripes : List (Nat × Bytes))
  | commit (n : ν) (req : Service.CommitRequest)
  | readChunk (n : ν) (desc : ObjectDescriptor) (placement : Option PlacementDescriptor)
      (chunk : ChunkLocation)
  | deleteChunk (n : ν) (chunk : ChunkLocation)

inductive Returned where
  | op (a : Answer)
  | prepared (r : Option (Except String (ObjectDescriptor × PlacementDescriptor)))
  | written (r : Option (Option (List Rdma.PutStripeLocation)))
  | committed (r : Result)
  | chunk (r : Option Bytes)
  | removed (r : Option Bool)

def Call.prog (E : Env ν) : Call ν → Io ν Returned
  | .op o => do
    let a ← o.prog E
    pure (.op a)
  | .prepare n req => do
    let r ← (Service.prepareDistributedPut E n req).run
    pure (.prepared r.toOption)
  | .putStripes n rawKey generation layoutVersion chunkSize stripes => do
    let r ← (Rdma.handlePutStripes E n rawKey generation layoutVersion chunkSize stripes).run
    pure (.written r.toOption)
  | .commit n req => do
    let r ← (Service.commitDistributedPut E n req).run
    pure (.committed (storedBy r))
  | .readChunk n desc placement chunk => do
    let r ← (Service.readPlacementChunkRpc E n desc placement chunk).run
    pure (.chunk r.toOption)
  | .deleteChunk n chunk => do
    let r ← (Service.deletePlacementChunkRpc E n chunk).run
    pure (.removed r.toOption)

/-! ## 効果 -/

inductive Removal where
  | deleted
  | expired
  | purged
deriving DecidableEq, Repr

inductive Effect where
  | silent
  | committed (s : String) (m : BlockMeta) (b : Bytes)
  | removed (s : String) (old : BlockMeta) (how : Removal)
deriving DecidableEq, Repr

def RedisCmd.effect (r : Redis) (b : Bytes) : RedisCmd → Effect
  | .putBlockIfAbsent s m =>
    match r.blocks s with
    | some _ => .silent
    | none => .committed s m b
  | .replaceBlock s m _ => .committed s m b
  | .retireBlock s _ =>
    match r.blocks s with
    | some old => .removed s old .deleted
    | none => .silent
  | .retireBlockIfMatches s expected _ =>
    match r.blocks s with
    | some old => if Redis.luaIdentityMatches old expected then .removed s old .expired else .silent
    | none => .silent
  | .deleteBlockIfMatches s g =>
    match r.blocks s with
    | some old =>
      if luaNumber old.objectGeneration = luaNumber g then .removed s old .purged else .silent
    | none => .silent
  | _ => .silent

def payload (t : Hist ν) : Bytes :=
  match (ledger t).draws with
  | d :: _ => d.data
  | [] => []

def observe (t : Hist ν) (c : Cmd ν) (x : Choice) (w : World ν) : Effect :=
  match c, x with
  | .redis c, .ok => c.effect w.redis (payload t)
  | .redis c, .lost _ => c.effect w.redis (payload t)
  | _, _ => .silent

/-! ## 系 -/

section Cluster

variable [DecidableEq ν] (E : Env ν)

def cluster : Machine (World ν) (Cmd ν) Cmd.Resp Choice (EnvStep ν) Effect where
  exec := exec E
  env := envStep
  observe := observe

abbrev State (ν : Type) := Config (World ν) (Call ν) (Cmd ν) Cmd.Resp Returned Effect

abbrev Move (ν : Type) := Act (Call ν) Choice (EnvStep ν)

abbrev Log (ν : Type) := List (Entry (Cmd ν) Cmd.Resp Effect)

def Reachable (P : State ν → Move ν → Prop) (c : State ν) : Prop :=
  ∃ clock, (cluster E).Reach (Call.prog E) (World.init clock) P c

def Cmd.default : Cmd ν → Choice
  | .pick _ => .num 0
  | _ => .ok

def playCluster (ok : State ν → Move ν → Bool) (clock : Int)
    (lines : List (Machine.Line (Call ν) Choice (EnvStep ν))) : Option (State ν) :=
  (cluster E).play (Call.prog E) ok Cmd.default lines (Machine.start (World.init clock))

variable {E}

theorem Reachable.of_play {ok : State ν → Move ν → Bool} {clock : Int}
    {lines : List (Machine.Line (Call ν) Choice (EnvStep ν))} {c : State ν}
    (h : playCluster E ok clock lines = some c) : Reachable E (fun c a => ok c a = true) c :=
  ⟨clock, Machine.Reach.play .start h⟩

theorem Reachable.exists_of_play (ok : State ν → Move ν → Bool) (clock : Int)
    (lines : List (Machine.Line (Call ν) Choice (EnvStep ν))) (check : State ν → Bool)
    (h : (playCluster E ok clock lines).any check = true) :
    ∃ c, Reachable E (fun c a => ok c a = true) c ∧ check c = true := by
  cases hc : playCluster E ok clock lines with
  | none => rw [hc] at h; cases h
  | some c => rw [hc] at h; exact ⟨c, .of_play hc, h⟩

theorem Reachable.exists_of_act (ok : State ν → Move ν → Bool) (clock : Int)
    (before after : List (Machine.Line (Call ν) Choice (EnvStep ν))) (a : Move ν)
    (check : State ν → State ν → Bool)
    (h : ((playCluster E ok clock before).any fun c₀ =>
      (((cluster E).apply (Call.prog E) a c₀).bind
        ((cluster E).play (Call.prog E) ok Cmd.default after)).any (check c₀)) = true) :
    ∃ c₀ c₁ c, Reachable E (fun c a => ok c a = true) c₀ ∧
      (cluster E).apply (Call.prog E) a c₀ = some c₁ ∧
      (cluster E).Steps (Call.prog E) (fun c a => ok c a = true) c₁ c ∧ check c₀ c = true := by
  obtain ⟨c₀, hc₀, h⟩ := (Option.any_eq_true _ _).mp h
  obtain ⟨c, hc, hcheck⟩ := (Option.any_eq_true _ _).mp h
  obtain ⟨c₁, hc₁, hc⟩ := Option.bind_eq_some_iff.mp hc
  exact ⟨c₀, c₁, c, .of_play hc₀, hc₁, Machine.Steps.play .refl hc, hcheck⟩

end Cluster

def hexNibble (n : Nat) : Char := if n < 10 then Char.ofNat (48 + n) else Char.ofNat (87 + n)

theorem hexNibble_ok : ∀ n < 16, (hexNibble n).isDigit = true ∨
    'a' ≤ hexNibble n ∧ hexNibble n ≤ 'f' := by decide

def sampleDigest (s : String) : List Char :=
  ((utf8 s).flatMap (fun b => [hexNibble (b.toNat / 16), hexNibble (b.toNat % 16)]) ++
    List.replicate 32 '0').take 32

theorem sampleDigest_isHex (s : String) : IsHexDigest (String.ofList (sampleDigest s)) := by
  unfold IsHexDigest
  rw [String.toList_ofList]
  refine ⟨?_, fun c hc => ?_⟩
  · simp_all [sampleDigest]
  · rcases List.mem_append.mp (List.mem_of_mem_take hc) with hc | hc
    · obtain ⟨b, -, hc⟩ := List.mem_flatMap.mp hc
      have hb := b.toNat_lt
      rcases List.mem_cons.mp hc with rfl | hc
      · exact hexNibble_ok _ (by omega)
      · rw [List.mem_singleton.mp hc]
        exact hexNibble_ok _ (by omega)
    · rw [List.eq_of_mem_replicate hc]
      exact .inl rfl

def sampleExt : Externs where
  hash64 := fun b => UInt64.ofNat (b.foldl (fun h x => h * 31 + x.toNat) 7)
  md5 := fun s => ⟨_, sampleDigest_isHex s⟩
  gcTaskId := fun key m => key ++ "@" ++ toString m.objectGeneration

/-- `i` 番の node。 -/
def sampleNode (i : Fin 2) : DataNode :=
  if i = 0 then ⟨"a", "a:1", "a:2"⟩ else ⟨"b", "b:1", "b:2"⟩

def sampleConfig (i : Fin 2) (verify : Bool) (dataNodes : List DataNode) : NodeConfig where
  router := ⟨["/d0", "/d1"], "kv", by decide⟩
  stripingThreshold := 4
  stripingChunkSizeCfg := 2
  rdmaStreamChunkSizeCfg := 2
  verifyStripeChecksums := verify
  gcGraceSeconds := 0
  gcMaxTasksPerRun := 8
  gcTaskLeaseSeconds := 10
  memoryCapacityMb := 1
  slabCapacity := some 1048576
  apiListen := (sampleNode i).grpcEndpoint
  clusterNodeId := (sampleNode i).nodeId
  clusterGrpcAdvertise := ""
  clusterRdmaAdvertise := ""
  envNodeId := ""
  envGrpcAdvertise := ""
  envRdmaAdvertise := ""
  clusterDataNodes := dataNodes
  envForceDiskRead := false

def sample (verify : Fin 2 → Bool) (dataNodes : List DataNode) : Env (Fin 2) where
  ext := sampleExt
  cfg := fun i => sampleConfig i (verify i) dataNodes
  resolve := fun endpoint =>
    if endpoint = "a:1" then some 0 else if endpoint = "b:1" then some 1 else none

def samplePlain : Env (Fin 2) := sample (fun _ => false) []

def sampleSpread : Env (Fin 2) := sample (fun _ => false) [sampleNode 0, sampleNode 1]

def nodeA : Fin 2 := ⟨0, Nat.two_pos⟩

def nodeB : Fin 2 := ⟨1, Nat.one_lt_two⟩

def alone {ν : Type} (i : Nat) (call : Call ν) :
    List (Machine.Line (Call ν) Choice (EnvStep ν)) :=
  [.act (.spawn call), .solo i 400]

def putRequest (key : String) (data : Bytes) : PutRequest := ⟨some ⟨"", key⟩, data, none, none⟩

end ContextStore
