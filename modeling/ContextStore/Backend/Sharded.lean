import Mathlib.Logic.Function.Basic
import Mathlib.Tactic.Common
import ContextStore.Data

/-!
# device に分けた保存
-/

namespace ContextStore

namespace Sharded

/-- `json.dumps` と `json.loads`。 -/
structure MetaJson (μ : Type) where
  dumps : μ → Bytes
  loads : Bytes → Option μ
  loads_dumps : ∀ m, loads (dumps m) = some m

abbrev Directory := String → Option Bytes

abbrev LocalStore := String → Option Directory

def layerFile (layer : String) : String := layer ++ ".bin"

def metaFile : String := "meta.json"

namespace LocalStore

variable {μ : Type} (J : MetaJson μ)

/-- `put`。 -/
def put (root : LocalStore) (key layer : String) (data : Bytes) (m : Option μ) : LocalStore :=
  let dir := (root key).getD fun _ => none
  let dir := Function.update dir (layerFile layer) (some data)
  let dir := match m with
    | none => dir
    | some m => Function.update dir metaFile (some (J.dumps m))
  Function.update root key (some dir)

/-- `get`。 -/
def get (root : LocalStore) (key layer : String) : Option Bytes :=
  (root key).bind fun dir => dir (layerFile layer)

/-- `exists`。 -/
def exists_ (root : LocalStore) (key : String) : Bool := (root key).isSome

/-- `delete`。 -/
def delete (root : LocalStore) (key : String) : LocalStore := Function.update root key none

/-- `get_meta`。 -/
def getMeta (root : LocalStore) (key : String) : Option μ :=
  ((root key).bind fun dir => dir metaFile).bind J.loads

end LocalStore

structure Sharding where
  numShards : ℕ
  numShards_pos : 0 < numShards
  stripePolicy : String
  md5 : String → ℕ

variable {μ : Type}

namespace Sharding

variable (D : Sharding)

def shardOf (s : String) : Fin D.numShards := ⟨D.md5 s % D.numShards, Nat.mod_lt _ D.numShards_pos⟩

/-- `_shard_for_key`。 -/
def shardForKey (key layer : String) : Fin D.numShards :=
  if D.stripePolicy = "layer" ∧ layer ≠ "" then D.shardOf layer else D.shardOf key

abbrev Shards := Fin D.numShards → LocalStore

def emptyShards : D.Shards := fun _ _ => none

variable (J : MetaJson μ)

/-- `put`。 -/
def put (S : D.Shards) (key layer : String) (data : Bytes) (m : Option μ) : D.Shards :=
  let id := D.shardForKey key layer
  Function.update S id ((S id).put J key layer data m)

/-- `get`。 -/
def get (S : D.Shards) (key layer : String) : Option Bytes :=
  (S (D.shardForKey key layer)).get key layer

/-- `get_parallel`。 -/
def getParallel (S : D.Shards) (keys : List String) (layer : String) : List (Option Bytes) :=
  keys.map fun key => D.get S key layer

/-- `exists`。 -/
def exists_ (S : D.Shards) (key : String) : Bool := (S (D.shardForKey key "")).exists_ key

/-- `delete`。 -/
def delete (S : D.Shards) (key : String) : D.Shards := fun id => (S id).delete key

/-- `get_meta`。 -/
def getMeta (S : D.Shards) (key : String) : Option μ :=
  (S (D.shardForKey key "")).getMeta J key

end Sharding

/-! ## 呼び出し -/

inductive ShardCall (μ : Type) where
  | put (key layer : String) (data : Bytes) (m : μ)
  | get (key layer : String)
  | getParallel (keys : List String) (layer : String)
  | exists_ (key : String)
  | getMeta (key : String)
  | delete (key : String)

/-- 答え。 -/
inductive ShardReply (μ : Type) where
  | done
  | data (r : Option Bytes)
  | many (r : List (Option Bytes))
  | present (r : Bool)
  | info (r : Option μ)

section Run

variable (D : Sharding) (J : MetaJson μ)

def exec (S : D.Shards) : ShardCall μ → D.Shards × ShardReply μ
  | .put key layer data m => (D.put J S key layer data (some m), .done)
  | .get key layer => (S, .data (D.get S key layer))
  | .getParallel keys layer => (S, .many (D.getParallel S keys layer))
  | .exists_ key => (S, .present (D.exists_ S key))
  | .getMeta key => (S, .info (D.getMeta J S key))
  | .delete key => (D.delete S key, .done)

def after (calls : List (ShardCall μ)) : D.Shards :=
  calls.foldl (fun S call => (exec D J S call).1) D.emptyShards

end Run

/-! ## 仕様 -/

abbrev Shelf (μ : Type) := String → String → Option (Bytes × μ)

def ShardCall.shelve (K : Shelf μ) : ShardCall μ → Shelf μ
  | .put key layer data m => Function.update K key (Function.update (K key) layer (some (data, m)))
  | .delete key => Function.update K key fun _ => none
  | _ => K

def Shelf.after (calls : List (ShardCall μ)) : Shelf μ :=
  calls.foldl ShardCall.shelve fun _ _ => none

def Shelf.Stored (K : Shelf μ) (key : String) : Prop := ∃ layer e, K key layer = some e

def Right (K : Shelf μ) : ShardCall μ → ShardReply μ → Prop
  | .get key layer, .data r => r = (K key layer).map Prod.fst
  | .getParallel keys layer, .many r => r = keys.map fun key => (K key layer).map Prod.fst
  | .exists_ key, .present r => r = true ↔ K.Stored key
  | .getMeta key, .info r =>
    K.Stored key → ∃ layer data m, K key layer = some (data, m) ∧ r = some m
  | .put _ _ _ _, .done => True
  | .delete _, .done => True
  | _, _ => False

def OnKeyShard (D : Sharding) (K : Shelf μ) : ShardCall μ → Prop
  | .exists_ key => K.Stored key →
    ∃ layer e, K key layer = some e ∧ D.shardForKey key layer = D.shardForKey key ""
  | .getMeta key => K.Stored key →
    ∃ layer e, K key layer = some e ∧ D.shardForKey key layer = D.shardForKey key ""
  | _ => True

/-! ## file の名前 -/

theorem layerFile_inj {layer layer' : String} :
    layerFile layer = layerFile layer' ↔ layer = layer' := by
  simp_all [layerFile]

theorem layerFile_ne_metaFile (layer : String) : layerFile layer ≠ metaFile := by
  intro h
  have h := congrArg (fun s => s.toList.reverse.take 2) h
  simp [layerFile, metaFile] at h

namespace LocalStore

variable {J : MetaJson μ} {root : LocalStore} {key : String} {data : Bytes} {m : μ}

theorem put_of_ne {layer : String} {m : Option μ} {key' : String} (h : key' ≠ key) :
    root.put J key layer data m key' = root key' := Function.update_of_ne h ..

theorem exists_put {layer : String} {m : Option μ} :
    (root.put J key layer data m).exists_ key = true := by
  unfold exists_ put
  rw [Function.update_self]
  rfl

theorem get_put (layer layer' : String) :
    (root.put J key layer data (some m)).get key layer' =
      if layer' = layer then some data else root.get key layer' := by
  unfold get put
  simp only [Function.update_self, Option.bind_some, ne_eq, layerFile_ne_metaFile,
    not_false_eq_true, Function.update_of_ne]
  by_cases h : layer' = layer
  · rw [if_pos h, h, Function.update_self]
  · rw [if_neg h, Function.update_of_ne (fun heq => h (layerFile_inj.mp heq))]
    cases root key <;> rfl

theorem getMeta_put (layer : String) :
    (root.put J key layer data (some m)).getMeta J key = some m := by
  unfold getMeta put
  simp [J.loads_dumps]

theorem getMeta_of_not_exists (h : ¬ root.exists_ key = true) : root.getMeta J key = none := by
  simp_all [exists_, getMeta]

end LocalStore

def Shelf.On (D : Sharding) (K : Shelf μ) (key : String) (id : Fin D.numShards) : Prop :=
  ∃ layer e, K key layer = some e ∧ D.shardForKey key layer = id

theorem Shelf.On.stored {D : Sharding} {K : Shelf μ} {key : String} {id : Fin D.numShards}
    (h : K.On D key id) : K.Stored key := by
  obtain ⟨layer, e, he, -⟩ := h
  exact ⟨layer, e, he⟩

structure Mirrors (D : Sharding) (J : MetaJson μ) (S : D.Shards) (K : Shelf μ) : Prop where
  get : ∀ key layer, D.get S key layer = (K key layer).map Prod.fst
  present : ∀ id key, (S id).exists_ key = true ↔ K.On D key id
  info : ∀ id key, K.On D key id → ∃ layer data m, K key layer = some (data, m) ∧
    D.shardForKey key layer = id ∧ (S id).getMeta J key = some m

section Shelve

variable {K : Shelf μ} {key layer : String} {data : Bytes} {m : μ}

theorem shelve_put_self :
    (ShardCall.put key layer data m).shelve K key layer = some (data, m) := by
  simp [ShardCall.shelve]

theorem shelve_put_of_layer_ne {layer' : String} (h : layer' ≠ layer) :
    (ShardCall.put key layer data m).shelve K key layer' = K key layer' := by
  simp [ShardCall.shelve, h]

theorem shelve_put_of_ne {key' : String} (h : key' ≠ key) :
    (ShardCall.put key layer data m).shelve K key' = K key' := Function.update_of_ne h ..

end Shelve

namespace Mirrors

variable {D : Sharding} {J : MetaJson μ} {S : D.Shards} {K : Shelf μ}

theorem empty : Mirrors D J D.emptyShards fun _ _ => none where
  get := fun _ _ => rfl
  present := by
    intro id key
    refine iff_of_false (by simp [Sharding.emptyShards, LocalStore.exists_]) ?_
    rintro ⟨layer, e, he, -⟩
    cases he
  info := by
    rintro id key ⟨layer, e, he, -⟩
    cases he

theorem on_put_of_ne {key key' layer : String} {data : Bytes} {m : μ} (h : key' ≠ key)
    (id : Fin D.numShards) :
    ((ShardCall.put key layer data m).shelve K).On D key' id ↔ K.On D key' id := by
  unfold Shelf.On
  rw [shelve_put_of_ne h]

theorem on_put {key layer : String} {data : Bytes} {m : μ} (id : Fin D.numShards) :
    ((ShardCall.put key layer data m).shelve K).On D key id ↔
      D.shardForKey key layer = id ∨ K.On D key id := by
  constructor
  · rintro ⟨layer', e, he, hid⟩
    by_cases h : layer' = layer
    · exact .inl (h ▸ hid)
    · rw [shelve_put_of_layer_ne h] at he
      exact .inr ⟨layer', e, he, hid⟩
  · rintro (hid | ⟨layer', e, he, hid⟩)
    · exact ⟨layer, (data, m), shelve_put_self, hid⟩
    · by_cases h : layer' = layer
      · exact ⟨layer, (data, m), shelve_put_self, h ▸ hid⟩
      · exact ⟨layer', e, by rw [shelve_put_of_layer_ne h, he], hid⟩

theorem put (h : Mirrors D J S K) (key layer : String) (data : Bytes) (m : μ) :
    Mirrors D J (D.put J S key layer data (some m))
      ((ShardCall.put key layer data m).shelve K) := by
  have hself : D.put J S key layer data (some m) (D.shardForKey key layer) =
      (S (D.shardForKey key layer)).put J key layer data (some m) := Function.update_self ..
  have hother : ∀ id, id ≠ D.shardForKey key layer →
      D.put J S key layer data (some m) id = S id := fun id hid => Function.update_of_ne hid ..
  constructor
  case get =>
    intro key' layer'
    have hold := h.get key' layer'
    unfold Sharding.get at hold ⊢
    by_cases hkey : key' = key
    · subst hkey
      by_cases hlayer : layer' = layer
      · rw [hlayer, hself, LocalStore.get_put, if_pos rfl, shelve_put_self]
        rfl
      · rw [shelve_put_of_layer_ne hlayer, ← hold]
        by_cases hid : D.shardForKey key' layer' = D.shardForKey key' layer
        · rw [hid, hself, LocalStore.get_put, if_neg hlayer]
        · rw [hother _ hid]
    · rw [shelve_put_of_ne hkey, ← hold]
      by_cases hid : D.shardForKey key' layer' = D.shardForKey key layer
      · rw [hid, hself]
        unfold LocalStore.get
        rw [LocalStore.put_of_ne hkey]
      · rw [hother _ hid]
  case present =>
    intro id key'
    by_cases hkey : key' = key
    · subst hkey
      rw [on_put, ← h.present]
      by_cases hid : id = D.shardForKey key' layer
      · rw [hid, hself, LocalStore.exists_put]
        simp
      · rw [hother id hid]
        simp [Ne.symm hid]
    · rw [on_put_of_ne hkey, ← h.present]
      by_cases hid : id = D.shardForKey key layer
      · rw [hid, hself]
        unfold LocalStore.exists_
        rw [LocalStore.put_of_ne hkey]
      · rw [hother id hid]
  case info =>
    intro id key' hon
    by_cases hkey : key' = key
    · subst hkey
      by_cases hid : id = D.shardForKey key' layer
      ·
        refine ⟨layer, data, m, shelve_put_self, hid.symm, ?_⟩
        rw [hid, hself, LocalStore.getMeta_put]
      · rcases (on_put id).mp hon with heq | hon
        · exact absurd heq.symm hid
        · obtain ⟨layer', data', m', hk, hshard, hmeta⟩ := h.info id key' hon
          have hlayer : layer' ≠ layer := by
            rintro rfl
            exact hid hshard.symm
          grind [shelve_put_of_layer_ne]
    · obtain ⟨layer', data', m', hk, hshard, hmeta⟩ :=
        h.info id key' ((on_put_of_ne hkey id).mp hon)
      refine ⟨layer', data', m', by rw [shelve_put_of_ne hkey, hk], hshard, ?_⟩
      by_cases hid : id = D.shardForKey key layer
      · simp_all [LocalStore.getMeta, LocalStore.put_of_ne]
      · rw [hother id hid, hmeta]

theorem delete (h : Mirrors D J S K) (key : String) :
    Mirrors D J (D.delete S key) ((ShardCall.delete key).shelve K) := by
  have hgone : ∀ id, D.delete S key id key = none := fun id => Function.update_self ..
  have hother : ∀ {key'}, key' ≠ key → ∀ id, D.delete S key id key' = S id key' :=
    fun hkey id => Function.update_of_ne hkey ..
  have hshelf : ∀ {key'}, key' ≠ key → (ShardCall.delete key).shelve K key' = K key' :=
    fun hkey => Function.update_of_ne hkey ..
  have hempty : (ShardCall.delete key).shelve K key = fun _ => none := Function.update_self ..
  have hon : ∀ {key'}, key' ≠ key → ∀ id,
      (((ShardCall.delete key).shelve K).On D key' id ↔ K.On D key' id) := by
    intro key' hkey id
    unfold Shelf.On
    rw [hshelf hkey]
  have hnone : ∀ id, ¬ ((ShardCall.delete key).shelve K).On D key id := by
    rintro id ⟨layer, e, he, -⟩
    rw [hempty] at he
    cases he
  constructor
  case get =>
    intro key' layer
    have hold := h.get key' layer
    unfold Sharding.get LocalStore.get at hold ⊢
    by_cases hkey : key' = key
    · rw [hkey, hgone, hempty]
      rfl
    · rw [hother hkey, hshelf hkey, hold]
  case present =>
    intro id key'
    by_cases hkey : key' = key
    · subst hkey
      refine iff_of_false ?_ (hnone id)
      unfold LocalStore.exists_
      rw [hgone]
      exact Bool.false_ne_true
    · rw [hon hkey, ← h.present]
      unfold LocalStore.exists_
      rw [hother hkey]
  case info =>
    intro id key' hin
    by_cases hkey : key' = key
    · subst hkey
      exact absurd hin (hnone id)
    · obtain ⟨layer, data, m, hk, hshard, hmeta⟩ := h.info id key' ((hon hkey id).mp hin)
      refine ⟨layer, data, m, by rw [hshelf hkey, hk], hshard, ?_⟩
      rw [← hmeta]
      unfold LocalStore.getMeta
      rw [hother hkey]

theorem exec (h : Mirrors D J S K) (call : ShardCall μ) :
    Mirrors D J (exec D J S call).1 (call.shelve K) := by
  cases call with
  | put key layer data m => exact h.put key layer data m
  | delete key => exact h.delete key
  | get key layer => exact h
  | getParallel keys layer => exact h
  | exists_ key => exact h
  | getMeta key => exact h

theorem after (calls : List (ShardCall μ)) :
    Mirrors D J (after D J calls) (Shelf.after calls) := by
  unfold Sharded.after Shelf.after
  have hstart : Mirrors D J D.emptyShards fun _ _ => none := empty
  generalize D.emptyShards = S at hstart
  generalize (fun _ _ => none : Shelf μ) = K at hstart
  induction calls generalizing S K with
  | nil => exact hstart
  | cons call calls ih => exact ih _ _ (hstart.exec call)

end Mirrors

/-! ## 答え -/

theorem sharded_finds_iff (D : Sharding) (J : MetaJson μ) (calls : List (ShardCall μ))
    (call : ShardCall μ) :
    Right (Shelf.after calls) call (exec D J (after D J calls) call).2 ↔
      OnKeyShard D (Shelf.after calls) call := by
  have h : Mirrors D J (after D J calls) (Shelf.after calls) := .after calls
  cases call with
  | put key layer data m => exact Iff.rfl
  | delete key => exact Iff.rfl
  | get key layer => exact iff_of_true (h.get key layer) trivial
  | getParallel keys layer =>
    exact iff_of_true (List.map_congr_left fun key _ => h.get key layer) trivial
  | exists_ key =>
    have hpresent := h.present (D.shardForKey key "") key
    constructor
    · intro hright hstored
      exact hpresent.mp (hright.mpr hstored)
    · intro hon
      exact ⟨fun hr => (hpresent.mp hr).stored, fun hstored => hpresent.mpr (hon hstored)⟩
  | getMeta key =>
    constructor
    · intro hright hstored
      by_contra hon
      obtain ⟨layer, data, m, -, hmeta⟩ := hright hstored
      have hnone : D.getMeta J (after D J calls) key = none :=
        LocalStore.getMeta_of_not_exists fun hr => hon ((h.present _ _).mp hr)
      rw [hnone] at hmeta
      cases hmeta
    · intro hon hstored
      obtain ⟨layer, data, m, hk, -, hmeta⟩ := h.info _ key (hon hstored)
      exact ⟨layer, data, m, hk, hmeta⟩

/-- `x` と `y` の md5。 -/
def xyMd5 (s : String) : ℕ :=
  if s = "y" then 86828518130618008439946455853590066269
  else 209794194358692857395451740504350025638

def layerSharding : Sharding := ⟨2, Nat.two_pos, "layer", xyMd5⟩

def unitJson : MetaJson Unit := ⟨fun _ => [], fun _ => some (), fun _ => rfl⟩

/-- **layer を書いた直後に、`exists` が無いと答え、`get_meta` が何も返さない。** -/
theorem sharded_exists_misses :
    Shelf.after [.put "x" "y" [1] ()] "x" "y" = some ([1], ()) ∧
      (exec layerSharding unitJson (after layerSharding unitJson [.put "x" "y" [1] ()])
        (.exists_ "x")).2 = .present false ∧
      (exec layerSharding unitJson (after layerSharding unitJson [.put "x" "y" [1] ()])
        (.getMeta "x")).2 = .info none :=
  ⟨rfl, rfl, rfl⟩

end Sharded

end ContextStore
