import ContextStore.Backend.LaneRoundtrip
import ContextStore.Codec.Percent
import ContextStore.Conc.Transition

/-!
# KVBM の adapter

`contextstore/kvbm/backend.py` の `KVBMContextStoreBackend` を `KVServiceBackend` の上で使う。
-/

namespace ContextStore

open Conc

/-! ## 鍵 -/

/-- `KVBMBlockKey`。 -/
structure BlockKey where
  modelId : String
  sequenceHash : String
  blockIndex : Int
  tpRank : Int := 0
  nameSpace : String := "default"
  prefixHash : String := ""
  layoutVersion : String := "v1"
deriving DecidableEq

def quoteSafe (b : UInt8) : Bool :=
  (0x30 ≤ b && b ≤ 0x39) || (0x41 ≤ b && b ≤ 0x5A) || (0x61 ≤ b && b ≤ 0x7A) ||
    b == 0x5F || b == 0x2E || b == 0x2D || b == 0x7E

/-- `_escape_component`。 -/
def escapeComponent (value : String) : String :=
  String.ofList (Percent.encode quoteSafe (utf8 value))

namespace BlockKey

/-- `storage_key` が繋ぐ部分。 -/
def parts (k : BlockKey) : List String :=
  ["kvbm", k.layoutVersion, k.nameSpace, k.modelId, k.sequenceHash,
    if k.prefixHash = "" then "-" else k.prefixHash,
    "tp" ++ toString k.tpRank, "b" ++ toString k.blockIndex]

/-- `storage_key`。 -/
def storageKey (k : BlockKey) : String := ":".intercalate (k.parts.map escapeComponent)

def canonical (k : BlockKey) : BlockKey :=
  { k with prefixHash := if k.prefixHash = "" then "-" else k.prefixHash }

end BlockKey

theorem utf8_inj {s t : String} (h : utf8 s = utf8 t) : s = t := by
  refine String.toByteArray_inj.mp (ByteArray.ext (Array.toList_inj.mp h))

theorem escapeComponent_inj {s t : String} (h : escapeComponent s = escapeComponent t) : s = t :=
  utf8_inj (Percent.encode_injective (by decide) (String.ofList_injective h))

theorem colon_notMem_escapeComponent (s : String) : ':' ∉ (escapeComponent s).toList := by
  rw [escapeComponent, String.toList_ofList]
  exact Percent.notMem_encode 0x3A (by decide) (by decide) (by decide) _

theorem toString_int_inj {m n : Int} (h : toString m = toString n) : m = n := by
  have hneg : ∀ k l : Nat, toString k ≠ "-" ++ toString l := by
    grind [ShardRouter.notMem_toString_nat, String.toList_append, List.mem_cons_self]
  cases m with
  | ofNat m =>
    cases n with
    | ofNat n => exact congrArg Int.ofNat (ShardRouter.toString_nat_inj (congrArg String.toList h))
    | negSucc n => exact absurd h (hneg m (n + 1))
  | negSucc m =>
    cases n with
    | ofNat n => exact absurd h.symm (hneg n (m + 1))
    | negSucc n =>
      have h : "-" ++ toString (m + 1) = "-" ++ toString (n + 1) := h
      have h := ShardRouter.toString_nat_inj
        (congrArg String.toList (String.append_right_inj _ |>.mp h))
      rw [Nat.succ.inj h]

namespace BlockKey

theorem parts_inj {k k' : BlockKey} (h : k.storageKey = k'.storageKey) : k.parts = k'.parts := by
  have hsplit : ∀ k : BlockKey, k.storageKey.toList.splitOn ':' =
      (k.parts.map escapeComponent).map String.toList := by
    intro k
    rw [storageKey, String.toList_intercalate]
    refine List.splitOn_intercalate ':' (fun l hl => ?_) (by simp [parts])
    obtain ⟨_, hs, rfl⟩ := List.mem_map.mp hl
    obtain ⟨s, -, rfl⟩ := List.mem_map.mp hs
    exact colon_notMem_escapeComponent s
  have heq : (k.parts.map escapeComponent).map String.toList =
      (k'.parts.map escapeComponent).map String.toList := by
    rw [← hsplit, ← hsplit, h]
  have hinj : Function.Injective fun s => (escapeComponent s).toList :=
    fun s t hst => escapeComponent_inj (String.toList_inj.mp hst)
  rw [List.map_map, List.map_map] at heq
  exact List.map_injective_iff.mpr hinj heq

theorem canonical_of_storageKey {k k' : BlockKey} (h : k.storageKey = k'.storageKey) :
    k.canonical = k'.canonical := by
  have hparts := parts_inj h
  simp only [parts, List.cons.injEq, true_and, and_true] at hparts
  obtain ⟨hlayout, hns, hmodel, hseq, hhash, htp, hblock⟩ := hparts
  have htp := toString_int_inj (String.append_right_inj _ |>.mp htp)
  have hblock := toString_int_inj (String.append_right_inj _ |>.mp hblock)
  simp_all [canonical]

end BlockKey

namespace Kv

/-- `_object_key`。 -/
def objectKey (modelId key layer : String) : ObjectKey :=
  ⟨if modelId = "" then "default" else modelId, encodeObjectKey key layer⟩

def rdmaStringKey (modelId key layer : String) : String := (objectKey modelId key layer).toStringKey

end Kv

namespace BlockKey

theorem storageKey_of_canonical {k k' : BlockKey} (h : k.canonical = k'.canonical) :
    k.storageKey = k'.storageKey := by
  have hparts : ∀ k : BlockKey, k.canonical.parts = k.parts := by
    intro k
    unfold canonical parts
    by_cases hempty : k.prefixHash = "" <;> simp [hempty]
  rw [storageKey, storageKey, ← hparts k, ← hparts k', h]

theorem rdmaStringKey_eq_iff (modelId layer : String) (k k' : BlockKey) :
    Kv.rdmaStringKey modelId k.storageKey layer = Kv.rdmaStringKey modelId k'.storageKey layer ↔
      k.canonical = k'.canonical := by
  constructor
  · intro heq
    have hobject := ObjectKey.toStringKey_inj heq
    exact canonical_of_storageKey (encodeObjectKey_inj (ObjectKey.mk.inj hobject).2).1
  · intro h
    rw [storageKey_of_canonical h]

def plainBlock : BlockKey := { modelId := "m", sequenceHash := "s", blockIndex := 0 }

/-- 空の `prefix_hash` の block と `-` の block は、同じ object になる。 -/
theorem rdmaStringKey_shared :
    plainBlock ≠ { plainBlock with prefixHash := "-" } ∧ ∀ modelId layer : String,
      Kv.rdmaStringKey modelId plainBlock.storageKey layer =
        Kv.rdmaStringKey modelId { plainBlock with prefixHash := "-" }.storageKey layer :=
  ⟨by decide, fun _ _ => rfl⟩

end BlockKey

/-! ## 呼び出し -/

namespace Kvbm

variable (cfg : KvConfig) (layer : String)

/-- `put_block`。 -/
def putBlock (k : BlockKey) (data : Bytes) : KvIo (Except Unit Unit) :=
  Kv.putChunks cfg k.storageKey layer [data]

/-- `get_block`。 -/
def getBlock (k : BlockKey) : KvIo (Except Unit (Option Bytes)) := do
  let r ← Kv.getChunks cfg k.storageKey layer
  pure (r.map fun chunks => chunks.map List.flatten)

/-- `exists_block`。 -/
def existsBlock (k : BlockKey) : KvIo Bool := Kv.existsKey k.storageKey

/-- `delete_block`。 -/
def deleteBlock (k : BlockKey) : KvIo Unit := Kv.deleteKey k.storageKey

/-- 呼び出し。 -/
inductive BlockOp where
  | putBlock (k : BlockKey) (data : Bytes)
  | getBlock (k : BlockKey)
  | existsBlock (k : BlockKey)
  | deleteBlock (k : BlockKey)
deriving DecidableEq

inductive BlockAnswer where
  | stored (r : Except Unit Unit)
  | loaded (r : Except Unit (Option Bytes))
  | found (b : Bool)
  | deleted

def BlockOp.key : BlockOp → BlockKey
  | .putBlock k _ => k
  | .getBlock k => k
  | .existsBlock k => k
  | .deleteBlock k => k

def BlockOp.prog : BlockOp → KvIo BlockAnswer
  | .putBlock k data => do
    let r ← Kvbm.putBlock cfg layer k data
    pure (.stored r)
  | .getBlock k => do
    let r ← Kvbm.getBlock cfg layer k
    pure (.loaded r)
  | .existsBlock k => do
    let b ← Kvbm.existsBlock k
    pure (.found b)
  | .deleteBlock k => do
    let () ← Kvbm.deleteBlock k
    pure .deleted

abbrev BlockLog := List (BlockOp × BlockAnswer)

structure BlockState where
  world : KvWorld
  log : BlockLog

abbrev BlockMove := BlockOp × List KvChoice

def BlockState.call (s : BlockState) (m : BlockMove) : Option (KvWorld × KvHist × BlockAnswer) :=
  (m.1.prog cfg layer).perform (KvWorld.exec cfg) m.2 s.world []

def machine (rdma : Bool) : Transition BlockState BlockMove where
  start := ⟨Kv.emptyWorld rdma, []⟩
  step s m := (s.call cfg layer m).map fun (w, _, a) => ⟨w, (m.1, a) :: s.log⟩

end Kvbm

end ContextStore
