import ContextStore.Cluster.Run
import ContextStore.Protocol.TwoPhase
import ContextStore.Protocol.Draws

/-!
# 記録から読み取る record

命令 1 つが共有状態をどう変えるか、記録の効果が Redis の record とどう対応するか。
-/

namespace ContextStore

open Conc

variable {ν : Type}

def Cmd.redis? : Cmd ν → Option RedisCmd
  | .redis c => some c
  | _ => none

section Exec

variable [DecidableEq ν] {E : Env ν} {w w' : World ν}

theorem exec_redis {c : RedisCmd} {x : Choice} {r : Except String c.Reply}
    (h : exec E (.redis c) x w = some (w', r)) :
    (x = .ok ∧ w' = { w with redis := (w.redis.apply E.ext c).1 } ∧
      r = .ok (w.redis.apply E.ext c).2) ∨
    (∃ msg, x = .lost msg ∧ w' = { w with redis := (w.redis.apply E.ext c).1 } ∧
      r = .error msg) ∨
    ∃ msg, x = .fail msg ∧ w' = w ∧ r = .error msg := by
  cases x with
  | ok => cases h; exact .inl ⟨rfl, rfl, rfl⟩
  | lost msg => cases h; exact .inr (.inl ⟨msg, rfl, rfl, rfl⟩)
  | fail msg => cases h; exact .inr (.inr ⟨msg, rfl, rfl, rfl⟩)
  | num i => cases h

theorem exec_redis_eq {c : Cmd ν} {x : Choice} {r : c.Resp} (hc : c.redis? = none)
    (h : exec E c x w = some (w', r)) : w'.redis = w.redis := by
  cases c with
  | redis rc => cases hc
  | lock n cls key =>
    cases x with
    | ok =>
      grind [exec]
    | _ => cases h
  | _ => cases x <;> cases h <;> rfl

end Exec

section Call

variable (E : Env ν)

def Call.guard : Call ν → Hist ν → Cmd ν → Prop
  | .op o => Guard E o.role
  | .prepare n _ => PrepareGuard E n
  | .putStripes n _ _ _ _ _ => StripesGuard E n
  | .commit n req => CommitGuard E n req
  | .readChunk n _ _ _ => Guard E (plainRole n)
  | .deleteChunk n chunk => RemoveGuard E n chunk

def Call.post : Call ν → Hist ν → Returned → Prop
  | .op _, t, .op a => Settled E t a.verdict
  | _, _, _ => True

variable {E}

theorem Call.conforms (call : Call ν) :
    Conforms (call.guard E) (call.post E) [] (call.prog E) := by
  cases call with
  | op o => exact Conforms.bind o.conforms fun _ _ _ h => h
  | prepare n req => exact Issues.bind prepareDistributedPut_issues fun _ _ => trivial
  | putStripes n rawKey generation layoutVersion chunkSize stripes =>
    exact Issues.bind handlePutStripes_issues fun _ _ => trivial
  | commit n req => exact Issues.bind commitDistributedPut_issues fun _ _ => trivial
  | readChunk n desc placement chunk =>
    exact Issues.bind readPlacementChunkRpc_issues fun _ _ => trivial
  | deleteChunk n chunk => exact Issues.bind deletePlacementChunkRpc_issues fun _ _ => trivial

def histOf (i : Nat) (log : Log ν) : Hist ν := log.filterMap (Entry.event? i)

@[simp] theorem histOf_ran_self (i : Nat) (e : Event (Cmd ν) Cmd.Resp) (o : Effect) (log : Log ν) :
    histOf i (.ran i e o :: log) = e :: histOf i log :=
  List.filterMap_cons_some (Entry.event?_ran_self i e o)

variable {i : Nat}

theorem histOf_suffix {older log : Log ν} (h : older <:+ log) :
    histOf i older <:+ histOf i log := by
  obtain ⟨newer, rfl⟩ := h
  exact ⟨newer.filterMap (Entry.event? i), (List.filterMap_append ..).symm⟩

variable [DecidableEq ν] {P : State ν → Move ν → Prop} {c : State ν}

theorem Reachable.thread_of_ran (h : Reachable E P c) {e : Event (Cmd ν) Cmd.Resp}
    {o : Effect} (hm : .ran i e o ∈ c.log) : ∃ th, c.threads[i]? = some th := by
  obtain ⟨clock, h⟩ := h
  exact ⟨_, List.getElem?_eq_getElem (h.lt_of_ran i e o hm)⟩

variable {th : Thread (Call ν) (Cmd ν) Cmd.Resp Returned} {older : Log ν}

theorem Reachable.guarded (h : Reachable E P c) (hth : c.threads[i]? = some th)
    (hs : older <:+ c.log) : Guarded (th.label.guard E) (histOf i older) := by
  obtain ⟨clock, h⟩ := h
  have hguard := h.guarded (G := fun call => call.guard E) (fun _ call _ => call.conforms) th
    (List.mem_of_getElem? hth)
  rw [h.trace_eq i th hth] at hguard
  exact hguard.suffix (histOf_suffix hs)

theorem Reachable.rule (h : Reachable E P c) (hth : c.threads[i]? = some th)
    {e : Event (Cmd ν) Cmd.Resp} {o : Effect}
    (hs : .ran i e o :: older <:+ c.log) : th.label.guard E (histOf i older) e.1 := by
  have hguard := h.guarded hth hs
  rw [histOf_ran_self] at hguard
  exact hguard.head

theorem Reachable.ledgerOk (h : Reachable E P c) (hth : c.threads[i]? = some th) {o : Op ν}
    (ho : th.label = .op o) (hs : older <:+ c.log) :
    LedgerOk E o.role (ledger (histOf i older)) := by
  have hguard := h.guarded hth hs
  rw [ho] at hguard
  exact ledger_ok o.not_writes_of_collects hguard

end Call

def published : Entry (Cmd ν) Cmd.Resp Effect → Option (String × BlockMeta)
  | .ran _ _ (.committed s m _) => some (s, m)
  | _ => none

variable {s : String}

theorem observe_committed {t : Hist ν} {c : Cmd ν} {x : Choice} {w : World ν}
    {m : BlockMeta} {b : Bytes} (h : observe t c x w = .committed s m b) :
    ∃ rc, c = .redis rc ∧ rc.publishes = some (s, m) := by
  have heffect : ∀ rc : RedisCmd, rc.effect w.redis (payload t) = .committed s m b →
      rc.publishes = some (s, m) := by
    intro rc h
    cases rc with
    | putBlockIfAbsent s' m' =>
      unfold RedisCmd.effect at h
      dsimp only at h
      split at h
      · cases h
      · cases h; rfl
    | replaceBlock s' m' nb => cases h; rfl
    | retireBlock s' nb =>
      unfold RedisCmd.effect at h
      dsimp only at h
      split at h <;> cases h
    | retireBlockIfMatches s' m' nb =>
      grind [RedisCmd.effect]
    | deleteBlockIfMatches s' g =>
      grind [RedisCmd.effect]
    | _ => cases h
  cases c with
  | redis rc =>
    cases x with
    | ok => exact ⟨rc, rfl, heffect rc h⟩
    | lost msg => exact ⟨rc, rfl, heffect rc h⟩
    | _ => cases h
  | _ => cases x <;> cases h

theorem published_ran {i : Nat} {e : Event (Cmd ν) Cmd.Resp} {o : Effect}
    {m : BlockMeta} (h : published (.ran i e o) = some (s, m)) : ∃ b, o = .committed s m b := by
  cases o with
  | committed s' m' b => cases h; exact ⟨b, rfl⟩
  | _ => cases h

section Observed

variable [DecidableEq ν] {E : Env ν} {P : State ν → Move ν → Prop} {c : State ν}

theorem Reachable.observed (h : Reachable E P c) {i : Nat} {e : Event (Cmd ν) Cmd.Resp}
    {o : Effect} {older : Log ν} (hs : .ran i e o :: older <:+ c.log) :
    ∃ x w, o = observe (histOf i older) e.1 x w := by
  obtain ⟨clock, h⟩ := h
  revert hs
  refine Machine.Reach.induct (I := fun c => Entry.ran i e o :: older <:+ c.log →
    ∃ x w, o = observe (histOf i older) e.1 x w) ?_ ?_ ?_ ?_ ?_ h
  · intro hs
    cases List.suffix_nil.mp hs
  · simp_all [List.suffix_cons_iff]
  · intro c j x th m k w' r hc _ ih hth _ _ hs
    rcases List.suffix_cons_iff.mp hs with heq | hs
    · cases heq
      rw [hc.trace_eq i th hth]
      exact ⟨x, c.world, rfl⟩
    · exact ih hs
  · simp_all [List.suffix_cons_iff]
  · intro c e _ _ ih hs
    exact ih hs

end Observed

abbrev Records := String → Option (BlockMeta × Bytes)

def Effect.on (f : Records) : Effect → Records
  | .silent => f
  | .committed s m b => Function.update f s (some (m, b))
  | .removed s _ _ => Function.update f s none

def Effect.key : Effect → Option String
  | .silent => none
  | .committed s _ _ => some s
  | .removed s _ _ => some s

theorem Effect.on_of_ne {o : Effect} {f : Records} (h : o.key ≠ some s) :
    o.on f s = f s := by
  cases o with
  | silent => rfl
  | committed s' m b => exact Function.update_of_ne (fun hs => h (by rw [hs]; rfl)) _ _
  | removed s' old how => exact Function.update_of_ne (fun hs => h (by rw [hs]; rfl)) _ _

def record : Log ν → Records
  | [] => fun _ => none
  | .ran _ _ o :: log => o.on (record log)
  | _ :: log => record log

theorem Redis.apply_blocks (X : Externs) {r : Redis} (c : RedisCmd) (b : Bytes) {f : Records}
    (hf : ∀ s, r.blocks s = (f s).map Prod.fst) (s : String) :
    (r.apply X c).1.blocks s = ((c.effect r b).on f s).map Prod.fst := by
  have hset : ∀ s' (v : Option (BlockMeta × Bytes)),
      Function.update r.blocks s' (v.map Prod.fst) s = (Function.update f s' v s).map Prod.fst := by
    grind
  cases c with
  | putBlockIfAbsent s' m =>
    show (r.putBlockIfAbsent s' m).1.blocks s = _
    unfold Redis.putBlockIfAbsent RedisCmd.effect
    dsimp only
    cases r.blocks s' with
    | some old => exact hf s
    | none => exact hset s' (some (m, b))
  | replaceBlock s' m nb =>
    show (r.replaceBlock X s' m nb).1.blocks s = _
    unfold Redis.replaceBlock RedisCmd.effect
    dsimp only
    cases r.blocks s' <;> exact hset s' (some (m, b))
  | retireBlock s' nb =>
    show (r.retireBlock X s' nb).1.blocks s = _
    unfold Redis.retireBlock RedisCmd.effect
    dsimp only
    cases r.blocks s' with
    | some old => exact hset s' none
    | none => exact hf s
  | retireBlockIfMatches s' expected nb =>
    show (r.retireBlockIfMatches X s' expected nb).1.blocks s = _
    unfold Redis.retireBlockIfMatches RedisCmd.effect
    dsimp only
    cases r.blocks s' with
    | none => exact hf s
    | some old =>
      dsimp only
      split
      · exact hset s' none
      · exact hf s
  | deleteBlockIfMatches s' g =>
    show (r.deleteBlockIfMatches s' g).1.blocks s = _
    unfold Redis.deleteBlockIfMatches RedisCmd.effect
    dsimp only
    cases r.blocks s' with
    | none => exact hf s
    | some old =>
      dsimp only
      split
      · exact hset s' none
      · exact hf s
  | takeDueGcTasks now limit lease =>
    show (r.takeDueGcTasks now limit lease).1.blocks s = _
    obtain ⟨due, inflight, h⟩ := Redis.takeDueGcTasks_frame (r := r) now limit lease
    rw [h]
    exact hf s
  | _ => exact hf s

section Reachable

variable [DecidableEq ν] {E : Env ν} {P : State ν → Move ν → Prop} {c : State ν}

theorem Redis.apply_blocks_of_ne (X : Externs) {r : Redis} (c : RedisCmd) (b : Bytes) {s : String}
    (h : (c.effect r b).key ≠ some s) : (r.apply X c).1.blocks s = r.blocks s := by
  have hf : ∀ s, r.blocks s = ((r.blocks s).map fun m => (m, b)).map Prod.fst := by
    intro s
    cases r.blocks s <;> rfl
  rw [Redis.apply_blocks X c b (f := fun s => (r.blocks s).map fun m => (m, b)) hf s,
    Effect.on_of_ne h, ← hf s]

theorem Reachable.blocks_eq (h : Reachable E P c) (s : String) :
    c.world.redis.blocks s = (record c.log s).map Prod.fst := by
  obtain ⟨clock, h⟩ := h
  refine Machine.Reach.induct (I := fun c => ∀ s,
    c.world.redis.blocks s = (record c.log s).map Prod.fst) ?_ ?_ ?_ ?_ ?_ h s
  · intro s
    rfl
  · intro c l _ _ ih
    exact ih
  · intro c i x th m k w' r _ _ ih _ _ hexec s
    cases m with
    | redis rc =>
      rcases exec_redis hexec with ⟨rfl, rfl, rfl⟩ | ⟨msg, rfl, rfl, rfl⟩ | ⟨msg, rfl, rfl, rfl⟩
      · exact Redis.apply_blocks E.ext rc _ ih s
      · exact Redis.apply_blocks E.ext rc _ ih s
      · exact ih s
    | _ =>
      show w'.redis.blocks s = _
      rw [exec_redis_eq rfl hexec]
      exact ih s
  · intro c i th a _ _ ih _ _ _
    exact ih
  · intro c e _ _ ih s
    cases e <;> exact ih s

end Reachable

end ContextStore
