import ContextStore.Cluster.Run

/-!
# GC の待ち行列

退いた record の task がいつ積まれ、取り出すときに何が読み戻されるか。
-/

namespace ContextStore

open Conc Cjson

def retiredTask (X : Externs) (s : String) (old : BlockMeta) (notBefore : Int) : GcTask :=
  ⟨X.gcTaskId s old, s, old, notBefore, 0⟩

def RedisCmd.enqueued (X : Externs) (r : Redis) : RedisCmd → Option GcTask
  | .replaceBlock s _ nb => (r.blocks s).map fun old => retiredTask X s old nb
  | .retireBlock s nb => (r.blocks s).map fun old => retiredTask X s old nb
  | .retireBlockIfMatches s expected nb =>
    (r.blocks s).bind fun old =>
      if Redis.luaIdentityMatches old expected then some (retiredTask X s old nb) else none
  | _ => none

namespace Redis

variable {X : Externs} {r : Redis}

theorem enqueue_gcTasks (s : String) (old : BlockMeta) (nb : Int) :
    (r.enqueue X s old nb).gcTasks (retiredTask X s old nb).id =
      some (.cjson (retiredTask X s old nb)) :=
  Function.update_self _ _ _

theorem apply_of_enqueued {c : RedisCmd} {t : GcTask} (h : c.enqueued X r = some t) :
    ∃ s old nb v, r.blocks s = some old ∧ t = retiredTask X s old nb ∧
      (r.apply X c).1 = (r.setBlock s v).enqueue X s old nb := by
  cases c with
  | replaceBlock s m nb =>
    obtain ⟨old, hold, rfl⟩ := Option.map_eq_some_iff.mp h
    exact ⟨s, old, nb, some m, hold, rfl, by simp [apply, replaceBlock, hold]⟩
  | retireBlock s nb =>
    obtain ⟨old, hold, rfl⟩ := Option.map_eq_some_iff.mp h
    exact ⟨s, old, nb, none, hold, rfl, by simp [apply, retireBlock, hold]⟩
  | retireBlockIfMatches s expected nb =>
    obtain ⟨old, hold, hif⟩ := Option.bind_eq_some_iff.mp h
    split at hif
    next hm =>
      cases hif
      exact ⟨s, old, nb, none, hold, rfl, by simp [apply, retireBlockIfMatches, hold, hm]⟩
    next => cases hif
  | _ => cases h

theorem apply_enqueued {c : RedisCmd} {t : GcTask} (h : c.enqueued X r = some t) :
    (∃ s old nb, r.blocks s = some old ∧ t = retiredTask X s old nb) ∧
      (r.apply X c).1.gcTasks t.id = some (.cjson t) := by
  grind [apply_of_enqueued, enqueue_gcTasks]

/-! ## 借りる -/

variable {p : GcPayload}

theorem mem_claim {lease : Int} {acc : Redis × List GcPayload} {id : String}
    (h : p ∈ (claim lease acc id).2) : p ∈ acc.2 ∨ acc.1.gcTasks id = some p := by
  unfold claim at h
  grind

theorem mem_claims {lease : Int} {ids : List String} {acc : Redis × List GcPayload}
    (h : p ∈ (ids.foldl (claim lease) acc).2) :
    p ∈ acc.2 ∨ ∃ id, acc.1.gcTasks id = some p := by
  induction ids generalizing acc with
  | nil => exact .inl h
  | cons id ids ih =>
    rcases ih h with h | ⟨id', h⟩
    · rcases mem_claim h with h | h
      · exact .inl h
      · exact .inr ⟨id, h⟩
    · obtain ⟨due, inflight, hframe⟩ := claim_frame lease acc id
      rw [hframe] at h
      exact .inr ⟨id', h⟩

theorem mem_takeDueGcTasks {now : Int} {limit lease : Nat}
    (h : p ∈ (r.takeDueGcTasks now limit lease).2) : ∃ id, r.gcTasks id = some p := by
  rcases mem_claims h with h | ⟨id, h⟩
  · cases h
  · obtain ⟨due, inflight, hframe⟩ := reclaim_frame (r := r) now
    rw [hframe] at h
    exact ⟨id, h⟩

end Redis

/-! ## 読み戻し -/

theorem exists_mapM {α β : Type} {f : α → Option β} {l : List α} (h : ∀ a ∈ l, (f a).isSome) :
    ∃ bs, l.mapM f = some bs ∧ ∀ a ∈ l, ∀ b, f a = some b → b ∈ bs := by
  induction l with
  | nil => exact ⟨[], rfl, fun _ ha => nomatch ha⟩
  | cons a l ih =>
    obtain ⟨b, hb⟩ := Option.isSome_iff_exists.mp (h a List.mem_cons_self)
    obtain ⟨bs, hbs, hmem⟩ := ih fun a' ha' => h a' (List.mem_cons_of_mem _ ha')
    refine ⟨b :: bs, by rw [List.mapM_cons, hb, hbs]; rfl, fun a' ha' b' hb' => ?_⟩
    grind

theorem parse_retiredTask (X : Externs) (s : String) (old : BlockMeta) (nb : Int) :
    (GcPayload.cjson (retiredTask X s old nb)).parse =
      when (old.cjsonOk && cjsonInt nb) (retiredTask X s old nb) := by
  rw [GcPayload.parse_cjson]
  show when (_ && true) _ = _
  rw [Bool.and_true]
  rfl

def Redis.onlyTask (id : String) (p : GcPayload) : Redis :=
  { Redis.empty with
    gcTasks := Function.update (fun _ => none) id (some p)
    gcDue := [(id, 0)] }

theorem Redis.onlyTask_gcTasks_self (id : String) (p : GcPayload) :
    (Redis.onlyTask id p).gcTasks id = some p := by
  show Function.update (fun _ => (none : Option GcPayload)) id (some p) id = some p
  exact Function.update_self _ _ _

theorem Redis.onlyTask_gcTasks_of_ne {id id' : String} (h : id' ≠ id) (p : GcPayload) :
    (Redis.onlyTask id p).gcTasks id' = none := by
  show Function.update (fun _ => (none : Option GcPayload)) id (some p) id' = none
  exact Function.update_of_ne h _ _

theorem Redis.takeDueGcTasks_onlyTask (id : String) (p : GcPayload) :
    ((Redis.onlyTask id p).takeDueGcTasks 0 1 0).2 = [p] := by
  show (claim 0 (Redis.onlyTask id p, []) id).2 = [p]
  unfold claim
  dsimp only
  rw [Redis.onlyTask_gcTasks_self]
  rfl

theorem gcTask_survives_iff {X : Externs} {r : Redis} {c : RedisCmd} {t : GcTask}
    (h : c.enqueued X r = some t) :
    (∃ p, (r.apply X c).1.gcTasks t.id = some p ∧
      ∀ (r' : Redis) (now : Int) (limit lease : Nat), r'.gcTasks t.id = some p →
        (∀ id q, id ≠ t.id → r'.gcTasks id = some q → q.parse.isSome) →
        ∃ tasks, (r'.takeDueGcTasks now limit lease).2.mapM GcPayload.parse = some tasks ∧
          (p ∈ (r'.takeDueGcTasks now limit lease).2 →
            ∃ t' ∈ tasks, t'.id = t.id ∧ t'.key = t.key ∧ t'.retired = t.retired)) ↔
    t.retired.cjsonOk = true ∧ cjsonInt t.notBefore = true := by
  obtain ⟨⟨s, old, nb, -, rfl⟩, hput⟩ := Redis.apply_enqueued h
  have hparse := parse_retiredTask X s old nb
  constructor
  ·
    rintro ⟨p, hp, hall⟩
    rw [hput] at hp
    cases hp
    obtain ⟨tasks, htasks, -⟩ := hall (Redis.onlyTask (retiredTask X s old nb).id
      (.cjson (retiredTask X s old nb))) 0 1 0 (Redis.onlyTask_gcTasks_self _ _)
      fun id q hid hq => by
        rw [Redis.onlyTask_gcTasks_of_ne hid] at hq
        cases hq
    rw [Redis.takeDueGcTasks_onlyTask, List.mapM_cons, hparse] at htasks
    obtain ⟨t', ht', -⟩ := Option.bind_eq_some_iff.mp htasks
    exact Bool.and_eq_true_iff.mp (when_eq_some_iff.mp ht').1
  · rintro ⟨hok, hnb⟩
    rw [show old.cjsonOk = true from hok, show cjsonInt nb = true from hnb] at hparse
    refine ⟨_, hput, fun r' now limit lease hr' hothers => ?_⟩
    have hreadable : ∀ q ∈ (r'.takeDueGcTasks now limit lease).2, q.parse.isSome := by
      intro q hq
      obtain ⟨id, hid⟩ := Redis.mem_takeDueGcTasks hq
      by_cases heq : id = (retiredTask X s old nb).id
      · rw [heq, hr'] at hid
        cases hid
        rw [hparse]
        rfl
      · exact hothers id q heq hid
    obtain ⟨tasks, htasks, hmem⟩ := exists_mapM hreadable
    exact ⟨tasks, htasks, fun hp => ⟨_, hmem _ hp _ hparse, rfl, rfl, rfl⟩⟩

theorem gcTask_survives_whole :
    let m : BlockMeta := { metaFromPb 7 none none with filePath := "/d0/kv/a", size := 3 }
    let r := Redis.empty.setBlock "0:k" (some m)
    let t := retiredTask sampleExt "0:k" m 9
    ∃ p, (r.apply sampleExt (.retireBlock "0:k" 9)).1.gcTasks t.id = some p ∧
      ∀ (r' : Redis) (now : Int) (limit lease : Nat), r'.gcTasks t.id = some p →
        (∀ id q, id ≠ t.id → r'.gcTasks id = some q → q.parse.isSome) →
        ∃ tasks, (r'.takeDueGcTasks now limit lease).2.mapM GcPayload.parse = some tasks ∧
          (p ∈ (r'.takeDueGcTasks now limit lease).2 →
            ∃ t' ∈ tasks, t'.id = t.id ∧ t'.key = t.key ∧ t'.retired = t.retired) := by
  intro m r t
  exact (gcTask_survives_iff (c := .retireBlock "0:k" 9) (t := t) (by decide +kernel)).mpr
    ⟨by decide +kernel, by decide +kernel⟩

theorem gcTask_lost_striped :
    ∃ c : State (Fin 2), Reachable samplePlain (fun _ _ => true = true) c ∧
      (c.world.redis.takeDueGcTasks 0 8 10).2.mapM GcPayload.parse = none ∧
      ∃ p ∈ (c.world.redis.takeDueGcTasks 0 8 10).2, p.parse.isSome := by
  obtain ⟨c, hc, hcheck⟩ := Reachable.exists_of_play (E := samplePlain) (fun _ _ => true) 0
    (alone 0 (.op (.put 0 (putRequest "x" [1, 2, 3, 4, 5]))) ++
      alone 1 (.op (.put 0 (putRequest "x" [6]))) ++
      alone 2 (.op (.put 0 (putRequest "y" [7]))) ++
      alone 3 (.op (.put 0 (putRequest "y" [8]))))
    (fun c =>
      let payloads := (c.world.redis.takeDueGcTasks 0 8 10).2
      decide ((payloads.mapM GcPayload.parse) = none) && payloads.any fun p => p.parse.isSome)
    (by decide +kernel)
  grind

end ContextStore
