import ContextStore.World

/-!
# metadata の client

`MetadataService`（Redis backend）の関数。
-/

namespace ContextStore

open Conc

variable {ν : Type}

def sendRedis (c : RedisCmd) : Io ν (Except String c.Reply) := issue (.redis c)

def reconnect : Res ν (Except String Unit) := ExceptT.lift (issue .reconnect)

def timestamp : Res ν Int := ExceptT.lift (issue .now)

namespace Metadata

def runWithReconnect {α : Type} (op : String) (command : Io ν (Except String α)) : Res ν α := do
  match ← command with
  | .ok value => pure value
  | .error first =>
    match ← reconnect with
    | .error e => throw (.metadata e)
    | .ok () =>
      match ← command with
      | .ok value => pure value
      | .error second => throw (.metadata ("redis " ++ op ++ " failed after reconnect: " ++
          second ++ "; first error: " ++ first))

def getBlock (key : String) : Res ν (Option BlockMeta) :=
  runWithReconnect "get_block" (sendRedis (.getBlock key))

def putBlockIfAbsent (key : String) (m : BlockMeta) : Res ν Bool :=
  runWithReconnect "put_block_if_absent" (sendRedis (.putBlockIfAbsent key m))

def replaceBlock (key : String) (m : BlockMeta) (notBefore : Int) : Res ν (Option BlockMeta) :=
  runWithReconnect "replace block metadata and enqueue GC"
    (sendRedis (.replaceBlock key m notBefore))

def retireBlock (key : String) (notBefore : Int) : Res ν (Option BlockMeta) :=
  runWithReconnect "retire block metadata and enqueue GC" (sendRedis (.retireBlock key notBefore))

def retireBlockIfMatches (key : String) (expected : BlockMeta) (notBefore : Int) : Res ν Bool :=
  runWithReconnect "retire matching block metadata"
    (sendRedis (.retireBlockIfMatches key expected notBefore))

def deleteBlockIfMatches (key : String) (expected : BlockMeta) : Res ν Bool :=
  runWithReconnect "delete_block_if_matches"
    (sendRedis (.deleteBlockIfMatches key expected.objectGeneration))

def nextGeneration (key : String) : Res ν Nat :=
  runWithReconnect "next_generation" (sendRedis (.nextGeneration key))

def takeDueGcTasks (now : Int) (limit leaseSeconds : Nat) : Res ν (List GcTask) := do
  let payloads ← runWithReconnect "claim due GC tasks"
    (sendRedis (.takeDueGcTasks now limit leaseSeconds))
  match payloads.mapM GcPayload.parse with
  | some tasks => pure tasks
  | none => throw (.metadata "deserialize GC task")

/-- `ZREM` と `DEL` の 2 命令。 -/
def completeGcTask (id : String) : Res ν Unit :=
  runWithReconnect "complete GC task" do
    match ← sendRedis (.zremInflight id) with
    | .error e => pure (.error e)
    | .ok () => sendRedis (.delTask id)

def rescheduleGcTask (t : GcTask) : Res ν Unit :=
  runWithReconnect "reschedule GC task" do
    match ← sendRedis (.zremInflight t.id) with
    | .error e => pure (.error e)
    | .ok () =>
      match ← sendRedis (.hsetTask t.id (.serde t)) with
      | .error e => pure (.error e)
      | .ok () => sendRedis (.zaddDue t.id t.notBefore)

end Metadata

end ContextStore
