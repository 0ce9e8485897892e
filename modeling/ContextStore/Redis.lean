import Mathlib.Logic.Function.Basic
import ContextStore.Payload
import ContextStore.Router

/-!
# Redis に置かれた metadata
-/

namespace ContextStore

/-! ## sorted set -/

abbrev Zset := List (String × Int)

namespace Zset

def rem (m : String) (z : Zset) : Zset := z.filter fun e => e.1 ≠ m

def insert (m : String) (s : Int) : Zset → Zset
  | [] => [(m, s)]
  | e :: z => if s < e.2 ∨ (s = e.2 ∧ m < e.1) then (m, s) :: e :: z else e :: insert m s z

/-- `ZADD`。 -/
def add (m : String) (s : Int) (z : Zset) : Zset := insert m s (rem m z)

/-- `ZRANGEBYSCORE -inf max`。 -/
def upTo (max : Int) (z : Zset) : List String := (z.filter fun e => decide (e.2 ≤ max)).map (·.1)

end Zset

/-! ## 状態と命令 -/

structure Redis where
  blocks : String → Option BlockMeta
  generations : String → Nat
  gcTasks : String → Option GcPayload
  gcDue : Zset
  gcInflight : Zset

namespace Redis

def empty : Redis := ⟨fun _ => none, fun _ => 0, fun _ => none, [], []⟩

variable (X : Externs) (r : Redis)

def enqueue (key : String) (old : BlockMeta) (notBefore : Int) : Redis :=
  let id := X.gcTaskId key old
  { r with
    gcTasks := Function.update r.gcTasks id (some (.cjson ⟨id, key, old, notBefore, 0⟩))
    gcDue := r.gcDue.add id notBefore }

def setBlock (key : String) (m : Option BlockMeta) : Redis :=
  { r with blocks := Function.update r.blocks key m }

/-- `SET key value NX`。 -/
def putBlockIfAbsent (key : String) (m : BlockMeta) : Redis × Bool :=
  match r.blocks key with
  | some _ => (r, false)
  | none => (r.setBlock key (some m), true)

/-- `replace_block` の script。 -/
def replaceBlock (key : String) (m : BlockMeta) (notBefore : Int) : Redis × Option BlockMeta :=
  match r.blocks key with
  | some old => ((r.setBlock key (some m)).enqueue X key old notBefore, some old)
  | none => (r.setBlock key (some m), none)

/-- `retire_block` の script。 -/
def retireBlock (key : String) (notBefore : Int) : Redis × Option BlockMeta :=
  match r.blocks key with
  | some old => ((r.setBlock key none).enqueue X key old notBefore, some old)
  | none => (r, none)

def luaIdentityMatches (actual expected : BlockMeta) : Bool :=
  actual.objectHandle == expected.objectHandle &&
  luaNumber actual.objectGeneration == luaNumber expected.objectGeneration &&
  luaNumber actual.layoutVersion == luaNumber expected.layoutVersion &&
  actual.contentEtag == expected.contentEtag &&
  luaNumber actual.size == luaNumber expected.size

def retireBlockIfMatches (key : String) (expected : BlockMeta) (notBefore : Int) : Redis × Bool :=
  match r.blocks key with
  | none => (r, false)
  | some cur =>
    if luaIdentityMatches cur expected then
      ((r.setBlock key none).enqueue X key cur notBefore, true)
    else (r, false)

def deleteBlockIfMatches (key : String) (generation : Nat) : Redis × Bool :=
  match r.blocks key with
  | none => (r, false)
  | some cur =>
    if luaNumber cur.objectGeneration = luaNumber generation then (r.setBlock key none, true)
    else (r, false)

def nextGeneration (key : String) : Redis × Nat :=
  let current := r.generations key
  let base := match r.blocks key with
    | some m => max current (luaNumber m.objectGeneration)
    | none => current
  let next := luaNumber (base + 1)
  ({ r with generations := Function.update r.generations key next }, next)

def reclaim (now : Int) : Redis :=
  (r.gcInflight.upTo now).foldl (fun r id =>
    { r with gcInflight := r.gcInflight.rem id, gcDue := r.gcDue.add id now }) r

def claim (lease : Int) (acc : Redis × List GcPayload) (id : String) : Redis × List GcPayload :=
  let r := { acc.1 with gcDue := acc.1.gcDue.rem id }
  match r.gcTasks id with
  | none => (r, acc.2)
  | some p => ({ r with gcInflight := r.gcInflight.add id lease }, acc.2 ++ [p])

/-- `take_due_gc_tasks` の script。 -/
def takeDueGcTasks (now : Int) (limit leaseSeconds : Nat) : Redis × List GcPayload :=
  let r := r.reclaim now
  ((r.gcDue.upTo now).take limit).foldl (claim (now + leaseSeconds)) (r, [])

variable {r}

theorem reclaim_frame (now : Int) :
    ∃ due inflight, r.reclaim now = { r with gcDue := due, gcInflight := inflight } := by
  unfold reclaim
  generalize r.gcInflight.upTo now = ids
  induction ids generalizing r with
  | nil => exact ⟨_, _, rfl⟩
  | cons id ids ih => simp_all

theorem claim_frame (lease : Int) (acc : Redis × List GcPayload) (id : String) :
    ∃ due inflight, (claim lease acc id).1 =
      { acc.1 with gcDue := due, gcInflight := inflight } := by
  unfold claim
  dsimp only
  split <;> exact ⟨_, _, rfl⟩

theorem claims_frame (lease : Int) (ids : List String) (acc : Redis × List GcPayload) :
    ∃ due inflight, (ids.foldl (claim lease) acc).1 =
      { acc.1 with gcDue := due, gcInflight := inflight } := by
  induction ids generalizing acc with
  | nil => exact ⟨_, _, rfl⟩
  | cons id ids ih =>
    obtain ⟨due, inflight, h⟩ := claim_frame lease acc id
    obtain ⟨due', inflight', h'⟩ := ih (claim lease acc id)
    exact ⟨due', inflight', by rw [List.foldl_cons, h', h]⟩

theorem takeDueGcTasks_frame (now : Int) (limit leaseSeconds : Nat) :
    ∃ due inflight, (r.takeDueGcTasks now limit leaseSeconds).1 =
      { r with gcDue := due, gcInflight := inflight } := by
  obtain ⟨due, inflight, h⟩ := reclaim_frame (r := r) now
  unfold takeDueGcTasks
  dsimp only
  rw [h]
  exact claims_frame _ _ _

end Redis

end ContextStore
