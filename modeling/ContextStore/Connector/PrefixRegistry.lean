import Mathlib.Data.Set.Function
import ContextStore.Connector.PrefixIndex

/-!
# prefix の索引: 登録と取り消し

`contextstore/index/prefix_index.py` の `PrefixIndex` の全体。
-/

namespace ContextStore

namespace Connector

/-- `PrefixIndex` の変数。 -/
structure Registry where
  registered : List String
  prefixLengths : String → Option Nat
  root : PrefixIndex
  blockKeyPaths : String → Option (List (List Nat))

def Registry.empty : Registry := ⟨[], fun _ => none, .empty, fun _ => none⟩

def NodeValue.addKey (key : String) (v : NodeValue) : NodeValue :=
  { v with blockKeys := v.blockKeys.insert key }

def NodeValue.discardKey (key : String) (v : NodeValue) : NodeValue :=
  { v with blockKeys := v.blockKeys.filter (· ≠ key) }

/-- `compute_block_key`。 -/
def Config.computeBlockKey (c : Config) (tokens : List Nat) (blockIdx : Nat) : String :=
  c.digest (c.payload (tokens.take ((blockIdx + 1) * c.blockSize)))

namespace Registry

variable (c : Config)

def enter (mark : String → NodeValue → NodeValue) (S : Registry) (tokens : List Nat)
    (keys : List String) : Registry :=
  { S with
    registered := keys.foldl (fun set key => set.insert key) S.registered
    root := S.root.visit .fresh
      (keys.zipIdx.map fun e => (c.blockTuple tokens e.2, mark e.1))
    blockKeyPaths := keys.zipIdx.foldl (fun paths e => Function.update paths e.1
      (some ((List.range (e.2 + 1)).map (c.blockTuple tokens)))) S.blockKeyPaths }

/-- `register_blocks`。 -/
def registerBlocks (S : Registry) (tokens : List Nat) (numTokens : Nat) :
    List String × Registry :=
  let keys := c.blockKeys tokens (numTokens / c.blockSize)
  (keys, S.enter c NodeValue.addKey tokens keys)

/-- `register_prefix`。 -/
def registerPrefix (S : Registry) (tokens : List Nat) (numTokens : Nat) : String × Registry :=
  let key := c.prefixKey tokens numTokens
  let keys := c.blockKeys tokens (numTokens / c.blockSize)
  (key, { S.enter c NodeValue.register tokens keys with
    prefixLengths := Function.update S.prefixLengths key (some numTokens) })

/-- `remove_blocks` の 1 つの key。 -/
def removeBlock (S : Registry) (key : String) : Registry :=
  let registered := S.registered.filter (· ≠ key)
  match S.blockKeyPaths key with
  | none => { S with registered }
  | some path =>
    { S with
      registered
      root := S.root.amend (NodeValue.discardKey key) path
      blockKeyPaths := Function.update S.blockKeyPaths key none }

/-- `remove_blocks`。 -/
def removeBlocks (S : Registry) (keys : List String) : Registry := keys.foldl removeBlock S

/-- `lookup_prefix`。 -/
def lookupPrefix (S : Registry) (tokens : List Nat) : Nat := S.root.lookupPrefix c tokens

end Registry

inductive IndexCall where
  | registerBlocks (tokens : List Nat) (numTokens : Nat)
  | registerPrefix (tokens : List Nat) (numTokens : Nat)
  | removeBlocks (keys : List String)

def IndexCall.exec (c : Config) (S : Registry) : IndexCall → Registry
  | .registerBlocks tokens numTokens => (S.registerBlocks c tokens numTokens).2
  | .registerPrefix tokens numTokens => (S.registerPrefix c tokens numTokens).2
  | .removeBlocks keys => S.removeBlocks keys

def Registry.after (c : Config) (calls : List IndexCall) : Registry :=
  calls.foldl (IndexCall.exec c) .empty

/-! ## 仕様 -/

def Config.fullBlocks (c : Config) (tokens : List Nat) (numTokens : Nat) : Nat :=
  min (numTokens / c.blockSize) (tokens.length / c.blockSize)

def Config.keysOf (c : Config) (tokens : List Nat) (numTokens : Nat) : List String :=
  (List.range (c.fullBlocks tokens numTokens)).map (c.computeBlockKey tokens)

/-- key の集合。 -/
structure KeySet where
  current : String → Bool
  prefixed : String → Bool

def KeySet.none : KeySet := ⟨fun _ => false, fun _ => false⟩

def IndexCall.spec (c : Config) (K : KeySet) : IndexCall → KeySet
  | .registerBlocks tokens numTokens =>
    { K with current := fun k => (c.keysOf tokens numTokens).contains k || K.current k }
  | .registerPrefix tokens numTokens =>
    { current := fun k => (c.keysOf tokens numTokens).contains k || K.current k
      prefixed := fun k => (c.keysOf tokens numTokens).contains k || K.prefixed k }
  | .removeBlocks keys => { K with current := fun k => K.current k && !keys.contains k }

def KeySet.after (c : Config) (calls : List IndexCall) : KeySet :=
  calls.foldl (IndexCall.spec c) .none

def Config.queryKeys (c : Config) (tokens : List Nat) : List String :=
  (List.range (tokens.length / c.blockSize)).map (c.computeBlockKey tokens)

def KeySet.leadingRun (c : Config) (K : KeySet) (tokens : List Nat) : Nat :=
  ((c.queryKeys tokens).takeWhile K.current).length

def IndexCall.tokens : IndexCall → List (List Nat)
  | .registerBlocks tokens _ => [tokens]
  | .registerPrefix tokens _ => [tokens]
  | .removeBlocks _ => []

def Config.blockPayloads (c : Config) (sources : List (List Nat)) : Set String :=
  { s | ∃ tokens ∈ sources, ∃ i < tokens.length / c.blockSize,
    s = c.payload (tokens.take ((i + 1) * c.blockSize)) }

namespace Config

variable {c : Config} {tokens : List Nat}

theorem payload_nil : c.payload [] = c.modelId ++ ":" := by
  simp [payload]

theorem payload_concat (tokens : List Nat) (tok : Nat) :
    c.payload (tokens ++ [tok]) =
      (if 0 < tokens.length then c.payload tokens ++ "," else c.payload tokens) ++
        toString tok := by
  by_cases hnil : tokens = []
  · subst hnil
    simp [payload]
  · simp_all [List.length_pos_iff, payload, String.intercalate_append_of_ne_nil,
      String.append_assoc]

theorem blockKeysLoop_block {before : List Nat} {block : List Nat} (hne : block ≠ [])
    (hlen : before.length % c.blockSize + block.length = c.blockSize) (rest : List Nat) :
    c.blockKeysLoop (c.payload before) before.length (block ++ rest) =
      c.digest (c.payload (before ++ block)) ::
        c.blockKeysLoop (c.payload (before ++ block)) (before ++ block).length rest := by
  induction block generalizing before with
  | nil => exact absurd rfl hne
  | cons tok block ih =>
    rw [List.cons_append, blockKeysLoop, ← payload_concat]
    have hlength : (before ++ [tok]).length = before.length + 1 := by simp
    have hlt : before.length % c.blockSize < c.blockSize := Nat.mod_lt _ c.blockSize_pos
    rw [List.length_cons] at hlen
    by_cases hlast : block = []
    ·
      subst hlast
      have hmod : (before.length + 1) % c.blockSize = 0 := by
        rw [Nat.add_mod]
        simp_all
      rw [if_pos hmod, List.nil_append, ← hlength]
    · have hpos : 0 < block.length := List.length_pos_iff.mpr hlast
      have hmod : (before.length + 1) % c.blockSize = before.length % c.blockSize + 1 := by
        rw [Nat.add_mod, Nat.mod_eq_of_lt (a := 1) (by omega), Nat.mod_eq_of_lt (by omega)]
      grind

theorem blockKeysLoop_eq (before : List Nat) (hbefore : before.length % c.blockSize = 0)
    (l : List Nat) :
    c.blockKeysLoop (c.payload before) before.length l =
      (List.range (l.length / c.blockSize)).map fun i =>
        c.digest (c.payload (before ++ l.take ((i + 1) * c.blockSize))) := by
  have hpos := c.blockSize_pos
  induction hl : l.length / c.blockSize generalizing before l with
  | zero =>
    have hlen := c.length_blockKeysLoop (c.payload before) before.length l
    have hsmall : l.length < c.blockSize := (Nat.div_eq_zero_iff_lt hpos).mp hl
    have hzero : (before.length + l.length) / c.blockSize = before.length / c.blockSize := by
      obtain ⟨q, hq⟩ := Nat.dvd_of_mod_eq_zero hbefore
      rw [hq, Nat.mul_add_div hpos, Nat.mul_div_cancel_left _ hpos, hl, Nat.add_zero]
    simp_all
  | succ n ih =>
    have hge : c.blockSize ≤ l.length := by
      by_contra hlt
      rw [Nat.div_eq_of_lt (by omega)] at hl
      omega
    have hblock : (l.take c.blockSize).length = c.blockSize := by
      rw [List.length_take, Nat.min_eq_left hge]
    have hrest : (l.drop c.blockSize).length / c.blockSize = n := by
      have := Nat.div_eq_sub_div hpos hge
      rw [List.length_drop]
      omega
    have hnext : (before ++ l.take c.blockSize).length % c.blockSize = 0 := by
      rw [List.length_append, hblock, Nat.add_mod_right, hbefore]
    conv_lhs => rw [← List.take_append_drop c.blockSize l]
    rw [blockKeysLoop_block (List.length_pos_iff.mp (by omega)) (by omega),
      ih _ hnext _ hrest, List.range_succ_eq_map, List.map_cons, List.map_map, Nat.zero_add,
      Nat.one_mul]
    refine congrArg _ (List.map_congr_left fun i _ => ?_)
    simp_all [Nat.succ_mul, Nat.add_comm, List.take_add]

theorem blockKeys_eq (tokens : List Nat) (numTokens : Nat) :
    c.blockKeys tokens (numTokens / c.blockSize) = c.keysOf tokens numTokens := by
  have hpos := c.blockSize_pos
  unfold blockKeys keysOf fullBlocks
  rw [← payload_nil]
  refine (blockKeysLoop_eq [] (Nat.zero_mod _) _).trans ?_
  have hcount : (tokens.take (numTokens / c.blockSize * c.blockSize)).length / c.blockSize =
      min (numTokens / c.blockSize) (tokens.length / c.blockSize) := by
    rw [List.length_take]
    rcases Nat.le_total (numTokens / c.blockSize * c.blockSize) tokens.length with hle | hle
    · simp_all [Nat.le_div_iff_mul_le]
    · grind [Nat.min_eq_right, Nat.div_le_div_right, Nat.mul_div_cancel]
  rw [hcount]
  refine List.map_congr_left fun i hi => ?_
  have hi : i + 1 ≤ numTokens / c.blockSize :=
    (Nat.succ_le_of_lt (List.mem_range.mp hi)).trans (Nat.min_le_left _ _)
  simp_all [computeBlockKey, List.take_take]

def pathKey (c : Config) (path : List (List Nat)) : String := c.digest (c.payload path.flatten)

theorem flatten_take_blocks {n : Nat} (hn : n ≤ tokens.length / c.blockSize) :
    ((c.blocks tokens).take n).flatten = tokens.take (n * c.blockSize) := by
  induction n with
  | zero => simp
  | succ n ih =>
    have hlt : n < (c.blocks tokens).length := by rwa [length_blocks]
    rw [List.take_succ_eq_append_getElem hlt, List.flatten_append, ih (by omega), Nat.succ_mul,
      List.take_add]
    simp [blocks, blockTuple]

theorem pathKey_take {n : Nat} (hn : n < tokens.length / c.blockSize) :
    c.pathKey ((c.blocks tokens).take (n + 1)) = c.computeBlockKey tokens n := by
  unfold pathKey computeBlockKey
  rw [flatten_take_blocks hn]

def IsPath (c : Config) (sources : List (List Nat)) (path : List (List Nat)) : Prop :=
  ∃ tokens ∈ sources, ∃ i < tokens.length / c.blockSize, path = (c.blocks tokens).take (i + 1)

theorem IsPath.exists_cons {sources : List (List Nat)} {p : List (List Nat)}
    (hp : c.IsPath sources p) : ∃ b bs, p = b :: bs := by
  obtain ⟨tokens, -, i, hi, rfl⟩ := hp
  refine List.exists_cons_of_length_pos ?_
  rw [List.length_take, length_blocks]
  omega

theorem IsPath.eq_of_pathKey {sources : List (List Nat)}
    (hinj : Set.InjOn c.digest (c.blockPayloads sources)) {p q : List (List Nat)}
    (hp : c.IsPath sources p) (hq : c.IsPath sources q) (h : c.pathKey p = c.pathKey q) :
    p = q := by
  obtain ⟨tokens, hmem, i, hi, rfl⟩ := hp
  obtain ⟨tokens', hmem', j, hj, rfl⟩ := hq
  rw [pathKey_take hi, pathKey_take hj] at h
  have htake := payload_inj (hinj ⟨tokens, hmem, i, hi, rfl⟩ ⟨tokens', hmem', j, hj, rfl⟩ h)
  rw [← blocks_take hi, ← blocks_take hj, htake]

theorem prefix_take_blocks_iff {m : Nat} (hm : m ≤ tokens.length / c.blockSize)
    {p : List (List Nat)} (hp : p ≠ []) :
    p <+: (c.blocks tokens).take m ↔ ∃ i < m, p = (c.blocks tokens).take (i + 1) := by
  have hlen : ((c.blocks tokens).take m).length = m := by
    rw [List.length_take, length_blocks, Nat.min_eq_left hm]
  constructor
  · intro hpre
    have hle := hpre.length_le
    have hpos : 0 < p.length := List.length_pos_iff.mpr hp
    have htake := List.prefix_iff_eq_take.mp hpre
    grind [Nat.sub_add_cancel]
  · rintro ⟨i, hi, rfl⟩
    exact List.take_prefix_take_left hi

theorem fullBlocks_le (c : Config) (tokens : List Nat) (numTokens : Nat) :
    c.fullBlocks tokens numTokens ≤ tokens.length / c.blockSize := Nat.min_le_right _ _

theorem mem_keysOf_iff {numTokens : Nat} {k : String} :
    k ∈ c.keysOf tokens numTokens ↔
      ∃ i < c.fullBlocks tokens numTokens, k = c.pathKey ((c.blocks tokens).take (i + 1)) := by
  have hle := c.fullBlocks_le tokens numTokens
  unfold keysOf
  rw [List.mem_map]
  constructor
  · rintro ⟨i, hi, rfl⟩
    have hi := List.mem_range.mp hi
    exact ⟨i, hi, (pathKey_take (by omega)).symm⟩
  · rintro ⟨i, hi, rfl⟩
    exact ⟨i, List.mem_range.mpr hi, (pathKey_take (by omega)).symm⟩

end Config

section Table

variable {α : Type} {f : α → String} {g : α → List (List Nat)} {k : String}

theorem foldl_update_of_forall_ne (l : List α) (m : String → Option (List (List Nat)))
    (h : ∀ e ∈ l, f e ≠ k) :
    (l.foldl (fun m e => Function.update m (f e) (some (g e))) m) k = m k := by
  induction l generalizing m with
  | nil => rfl
  | cons e l ih =>
    simp_all [symm]

theorem foldl_update_of_mem (l : List α) (m : String → Option (List (List Nat)))
    {v : List (List Nat)} (hmem : ∃ e ∈ l, f e = k) (hv : ∀ e ∈ l, f e = k → g e = v) :
    (l.foldl (fun m e => Function.update m (f e) (some (g e))) m) k = some v := by
  induction l generalizing m with
  | nil => exact absurd hmem (by simp)
  | cons e l ih =>
    rw [List.foldl_cons]
    by_cases hlater : ∃ e' ∈ l, f e' = k
    · exact ih _ hlater fun e' he' => hv e' (List.mem_cons_of_mem _ he')
    ·
      have hnone : ∀ e' ∈ l, f e' ≠ k := fun e' he' heq => hlater ⟨e', he', heq⟩
      obtain ⟨e', he', heq⟩ := hmem
      have hhead : f e = k := by
        grind
      simp_all [foldl_update_of_forall_ne]

theorem mem_foldl_insert (keys : List String) (set : List String) :
    k ∈ keys.foldl (fun set key => set.insert key) set ↔ k ∈ keys ∨ k ∈ set := by
  induction keys generalizing set with
  | nil => simp
  | cons key keys ih =>
    rw [List.foldl_cons, ih, List.mem_insert_iff, List.mem_cons]
    tauto

end Table

/-! ## 登録の loop -/

namespace Registry

variable {c : Config} {mark : String → NodeValue → NodeValue} {S : Registry} {tokens : List Nat}
  {numTokens : Nat}

theorem enter_steps :
    ((c.keysOf tokens numTokens).zipIdx.map fun e => (c.blockTuple tokens e.2, mark e.1)) =
      Trie.steps (fun p => mark (c.pathKey p))
        ((c.blocks tokens).take (c.fullBlocks tokens numTokens)) := by
  have hle := c.fullBlocks_le tokens numTokens
  refine List.ext_getElem ?_ fun i h₁ h₂ => ?_
  · simp [Trie.steps, Config.keysOf, Config.length_blocks, Nat.min_eq_left hle]
  · have hi : i < c.fullBlocks tokens numTokens := by simpa [Config.keysOf] using h₁
    simp only [Trie.steps, Config.keysOf, List.getElem_map, List.getElem_zipIdx, List.getElem_range,
      List.getElem_mapIdx, List.getElem_take, List.take_take, Nat.zero_add]
    rw [Nat.min_eq_left hi, Config.pathKey_take (by omega)]
    simp [Config.blocks]

theorem enter_valueAt {b : List Nat} {bs : List (List Nat)} :
    (S.enter c mark tokens (c.keysOf tokens numTokens)).root.valueAt .fresh (b :: bs) =
      if (b :: bs) <+: (c.blocks tokens).take (c.fullBlocks tokens numTokens) then
        mark (c.pathKey (b :: bs)) (S.root.valueAt .fresh (b :: bs))
      else S.root.valueAt .fresh (b :: bs) := by
  unfold enter
  dsimp only
  rw [enter_steps, Trie.valueAt_visit]

theorem enter_paths_of_not_mem {k : String} (hk : k ∉ c.keysOf tokens numTokens) :
    (S.enter c mark tokens (c.keysOf tokens numTokens)).blockKeyPaths k = S.blockKeyPaths k := by
  refine foldl_update_of_forall_ne _ _ fun e he heq => hk ?_
  rw [← heq]
  exact (List.mem_zipIdx' he).2 ▸ List.getElem_mem _

theorem enter_paths_of_lt {sources : List (List Nat)}
    (hinj : Set.InjOn c.digest (c.blockPayloads sources)) (hsource : tokens ∈ sources) {i : Nat}
    (hi : i < c.fullBlocks tokens numTokens) :
    (S.enter c mark tokens (c.keysOf tokens numTokens)).blockKeyPaths
        (c.pathKey ((c.blocks tokens).take (i + 1))) =
      some ((c.blocks tokens).take (i + 1)) := by
  have hle := c.fullBlocks_le tokens numTokens
  have hlen : (c.keysOf tokens numTokens).length = c.fullBlocks tokens numTokens := by
    simp [Config.keysOf]
  have hpath : ∀ j < c.fullBlocks tokens numTokens,
      (List.range (j + 1)).map (c.blockTuple tokens) = (c.blocks tokens).take (j + 1) := by
    intro j hj
    unfold Config.blocks
    rw [← List.map_take, List.take_range, Nat.min_eq_left (by omega)]
  have hget : ∀ e ∈ (c.keysOf tokens numTokens).zipIdx, e.2 < c.fullBlocks tokens numTokens ∧
      e.1 = c.pathKey ((c.blocks tokens).take (e.2 + 1)) := by
    grind [Config.pathKey_take, Config.keysOf]
  refine foldl_update_of_mem _ _ ?_ fun e he heq => ?_
  · refine ⟨((c.keysOf tokens numTokens)[i], i), ?_, ?_⟩
    · rw [List.mk_mem_zipIdx_iff_getElem?]
      exact List.getElem?_eq_getElem _
    · exact (hget _ (by
        rw [List.mk_mem_zipIdx_iff_getElem?]
        exact List.getElem?_eq_getElem _)).2
  · obtain ⟨hlt, hkey⟩ := hget e he
    rw [hpath e.2 hlt]
    exact Config.IsPath.eq_of_pathKey hinj ⟨tokens, hsource, e.2, by omega, rfl⟩
      ⟨tokens, hsource, i, by omega, rfl⟩ (hkey.symm.trans heq)

end Registry

structure Tracks (c : Config) (sources : List (List Nat)) (S : Registry) (K : KeySet) : Prop where
  paths : ∀ k p, S.blockKeyPaths k = some p → c.IsPath sources p ∧ k = c.pathKey p
  current : ∀ k, K.current k = true ↔ (S.blockKeyPaths k).isSome
  registered : ∀ k, k ∈ S.registered ↔ K.current k = true
  keys : ∀ b bs k, k ∈ (S.root.valueAt .fresh (b :: bs)).blockKeys ↔
    S.blockKeyPaths k = some (b :: bs)
  counts : ∀ p, c.IsPath sources p →
    (0 < (S.root.valueAt .fresh p).prefixCount ↔ K.prefixed (c.pathKey p) = true)

namespace Tracks

variable {c : Config} {sources : List (List Nat)} {S : Registry} {K : KeySet}

theorem empty : Tracks c sources .empty .none where
  paths := by
    intro k p h
    cases h
  current := by
    intro k
    simp [KeySet.none, Registry.empty]
  registered := by
    intro k
    simp [KeySet.none, Registry.empty]
  keys := by
    intro b bs k
    simp [Registry.empty, PrefixIndex.empty, Trie.valueAt_leaf, NodeValue.fresh]
  counts := by
    intro p _
    simp [KeySet.none, Registry.empty, PrefixIndex.empty, Trie.valueAt_leaf, NodeValue.fresh]

theorem enter (h : Tracks c sources S K)
    (hinj : Set.InjOn c.digest (c.blockPayloads sources)) {tokens : List Nat}
    (hsource : tokens ∈ sources) (numTokens : Nat) (mark : String → NodeValue → NodeValue)
    (up : Bool)
    (hkeys : ∀ k v, (mark k v).blockKeys = v.blockKeys.insert k)
    (hcount : ∀ k v, (mark k v).prefixCount = v.prefixCount + up.toNat) :
    Tracks c sources (S.enter c mark tokens (c.keysOf tokens numTokens))
      ⟨fun k => (c.keysOf tokens numTokens).contains k || K.current k,
        fun k => (up && (c.keysOf tokens numTokens).contains k) || K.prefixed k⟩ := by
  have hle := c.fullBlocks_le tokens numTokens
  have hisPath : ∀ i < c.fullBlocks tokens numTokens,
      c.IsPath sources ((c.blocks tokens).take (i + 1)) := fun i hi =>
    ⟨tokens, hsource, i, by omega, rfl⟩
  have hmem : ∀ p, c.IsPath sources p →
      (p <+: (c.blocks tokens).take (c.fullBlocks tokens numTokens) ↔
        c.pathKey p ∈ c.keysOf tokens numTokens) := by
    intro p hp
    obtain ⟨b, bs, rfl⟩ := hp.exists_cons
    rw [Config.prefix_take_blocks_iff hle (List.cons_ne_nil b bs), Config.mem_keysOf_iff]
    constructor
    · rintro ⟨i, hi, heq⟩
      exact ⟨i, hi, by rw [heq]⟩
    · rintro ⟨i, hi, heq⟩
      exact ⟨i, hi, hp.eq_of_pathKey hinj (hisPath i hi) heq⟩
  constructor
  case paths =>
    intro k p hk
    by_cases hin : k ∈ c.keysOf tokens numTokens
    · obtain ⟨i, hi, rfl⟩ := Config.mem_keysOf_iff.mp hin
      rw [Registry.enter_paths_of_lt hinj hsource hi] at hk
      cases hk
      exact ⟨hisPath i hi, rfl⟩
    · rw [Registry.enter_paths_of_not_mem hin] at hk
      exact h.paths k p hk
  case current =>
    intro k
    rw [Bool.or_eq_true, List.contains_iff_mem]
    by_cases hin : k ∈ c.keysOf tokens numTokens
    · obtain ⟨i, hi, rfl⟩ := Config.mem_keysOf_iff.mp hin
      simp [Registry.enter_paths_of_lt hinj hsource hi, hin]
    · rw [Registry.enter_paths_of_not_mem hin, ← h.current]
      simp [hin]
  case registered =>
    intro k
    rw [Bool.or_eq_true, List.contains_iff_mem, ← h.registered]
    exact mem_foldl_insert _ _
  case keys =>
    intro b bs k
    rw [Registry.enter_valueAt]
    by_cases hpre : (b :: bs) <+: (c.blocks tokens).take (c.fullBlocks tokens numTokens)
    · obtain ⟨i, hi, hpath⟩ := (Config.prefix_take_blocks_iff hle (List.cons_ne_nil _ _)).mp hpre
      rw [if_pos hpre, hkeys, List.mem_insert_iff, h.keys]
      constructor
      · intro hk
        have hkey : k = c.pathKey (b :: bs) := hk.elim id fun hk => (h.paths k _ hk).2
        rw [hkey, hpath]
        exact Registry.enter_paths_of_lt hinj hsource hi
      · intro hk
        by_cases hin : k ∈ c.keysOf tokens numTokens
        · obtain ⟨j, hj, rfl⟩ := Config.mem_keysOf_iff.mp hin
          rw [Registry.enter_paths_of_lt hinj hsource hj] at hk
          exact .inl (congrArg c.pathKey (Option.some.inj hk))
        · rw [Registry.enter_paths_of_not_mem hin] at hk
          exact .inr hk
    · rw [if_neg hpre, h.keys]
      by_cases hin : k ∈ c.keysOf tokens numTokens
      · obtain ⟨j, hj, rfl⟩ := Config.mem_keysOf_iff.mp hin
        rw [Registry.enter_paths_of_lt hinj hsource hj]
        have hne : (c.blocks tokens).take (j + 1) ≠ b :: bs := by
          intro heq
          exact hpre (heq ▸ List.take_prefix_take_left hj)
        constructor
        · intro hk
          obtain ⟨hp, hkey⟩ := h.paths _ _ hk
          exact absurd ((hisPath j hj).eq_of_pathKey hinj hp hkey) hne
        · intro hk
          exact absurd (Option.some.inj hk) hne
      · rw [Registry.enter_paths_of_not_mem hin]
  case counts =>
    intro p hp
    have hold := h.counts p hp
    obtain ⟨b, bs, rfl⟩ := hp.exists_cons
    rw [Registry.enter_valueAt]
    dsimp only
    by_cases hpre : (b :: bs) <+: (c.blocks tokens).take (c.fullBlocks tokens numTokens)
    · rw [if_pos hpre, hcount, List.contains_iff_mem.mpr ((hmem _ hp).mp hpre), Bool.and_true,
        Bool.or_eq_true, ← hold]
      cases up <;> simp
    · have hout : (c.keysOf tokens numTokens).contains (c.pathKey (b :: bs)) = false :=
        eq_false_of_ne_true fun hin => hpre ((hmem _ hp).mpr (List.contains_iff_mem.mp hin))
      rw [if_neg hpre, hout, Bool.and_false, Bool.false_or]
      exact hold

theorem removeBlock (h : Tracks c sources S K) (key : String) :
    Tracks c sources (S.removeBlock key)
      { K with current := fun k => K.current k && !(k == key) } := by
  have hregistered : ∀ k, k ∈ S.registered.filter (· ≠ key) ↔
      (K.current k && !(k == key)) = true := by
    intro k
    rw [List.mem_filter, h.registered]
    simp
  cases hkey : S.blockKeyPaths key with
  | none =>
    have hcurrent : ∀ k, (K.current k && !(k == key)) = true ↔ K.current k = true := by
      intro k
      rw [Bool.and_eq_true, and_iff_left_iff_imp]
      intro hk
      have hsome := (h.current k).mp hk
      grind
    have hremove : S.removeBlock key = { S with registered := S.registered.filter (· ≠ key) } := by
      unfold Registry.removeBlock
      rw [hkey]
    rw [hremove]
    exact ⟨h.paths, fun k => (hcurrent k).trans (h.current k), hregistered, h.keys, h.counts⟩
  | some path =>
    have hremove : S.removeBlock key =
        { S with
          registered := S.registered.filter (· ≠ key)
          root := S.root.amend (NodeValue.discardKey key) path
          blockKeyPaths := Function.update S.blockKeyPaths key none } := by
      unfold Registry.removeBlock
      rw [hkey]
    obtain ⟨hpath, -⟩ := h.paths key path hkey
    obtain ⟨b, bs, rfl⟩ := hpath.exists_cons
    have hsome : (S.root.at? (b :: bs)).isSome := by
      have hmem := (h.keys b bs key).mpr hkey
      unfold Trie.valueAt at hmem
      cases hat : S.root.at? (b :: bs) with
      | some v => rfl
      | none =>
        rw [hat] at hmem
        exact absurd hmem List.not_mem_nil
    rw [hremove]
    constructor
    case paths =>
      grind [paths]
    case current =>
      grind [current]
    case registered => exact hregistered
    case keys =>
      intro b' bs' k
      dsimp only
      rw [Trie.valueAt_amend hsome]
      by_cases heq : k = key
      · rw [heq, Function.update_self]
        refine iff_of_false ?_ (by simp)
        by_cases hp : b' :: bs' = b :: bs
        · rw [if_pos hp]
          simp [NodeValue.discardKey]
        · rw [if_neg hp, h.keys, hkey]
          exact fun hc => hp (Option.some.inj hc).symm
      · rw [Function.update_of_ne heq, ← h.keys]
        by_cases hp : b' :: bs' = b :: bs
        · rw [if_pos hp]
          simp [NodeValue.discardKey, heq]
        · rw [if_neg hp]
    case counts =>
      intro p hp
      dsimp only
      rw [← h.counts p hp, Trie.valueAt_amend hsome]
      by_cases hpath : p = b :: bs
      · rw [if_pos hpath]
        rfl
      · rw [if_neg hpath]

theorem removeBlocks (h : Tracks c sources S K) (keys : List String) :
    Tracks c sources (S.removeBlocks keys)
      { K with current := fun k => K.current k && !keys.contains k } := by
  unfold Registry.removeBlocks
  induction keys generalizing S K with
  | nil =>
    simp_all
  | cons key keys ih =>
    have hsame : (fun k => K.current k && !(key :: keys).contains k) =
        fun k => (K.current k && !(k == key)) && !keys.contains k := by
      funext k
      rw [List.contains_cons, Bool.not_or, Bool.and_assoc]
    rw [hsame, List.foldl_cons]
    exact ih (h.removeBlock key)

theorem exec (h : Tracks c sources S K) (hinj : Set.InjOn c.digest (c.blockPayloads sources))
    {call : IndexCall} (hsource : ∀ tokens ∈ call.tokens, tokens ∈ sources) :
    Tracks c sources (call.exec c S) (call.spec c K) := by
  cases call with
  | registerBlocks tokens numTokens =>
    have hin := hsource tokens (List.mem_singleton.mpr rfl)
    unfold IndexCall.exec IndexCall.spec Registry.registerBlocks
    dsimp only
    rw [Config.blockKeys_eq]
    simpa using h.enter hinj hin numTokens NodeValue.addKey false (fun k v => rfl) fun k v => rfl
  | registerPrefix tokens numTokens =>
    have hin := hsource tokens (List.mem_singleton.mpr rfl)
    have hnext := h.enter hinj hin numTokens NodeValue.register true (fun k v => rfl)
      fun k v => rfl
    unfold IndexCall.exec IndexCall.spec Registry.registerPrefix
    dsimp only
    rw [Config.blockKeys_eq]
    simp only [Bool.true_and] at hnext
    exact ⟨hnext.paths, hnext.current, hnext.registered, hnext.keys, hnext.counts⟩
  | removeBlocks keys => exact h.removeBlocks keys

theorem after (hinj : Set.InjOn c.digest (c.blockPayloads sources)) (calls : List IndexCall)
    (hsource : ∀ call ∈ calls, ∀ tokens ∈ call.tokens, tokens ∈ sources) :
    Tracks c sources (Registry.after c calls) (KeySet.after c calls) := by
  unfold Registry.after KeySet.after
  have hstart : Tracks c sources .empty .none := empty
  generalize Registry.empty = S at hstart
  generalize KeySet.none = K at hstart
  induction calls generalizing S K with
  | nil => exact hstart
  | cons call calls ih =>
    grind [exec]

theorem marked_iff (h : Tracks c sources S K)
    (hinj : Set.InjOn c.digest (c.blockPayloads sources)) {p : List (List Nat)}
    (hp : c.IsPath sources p) :
    S.root.Marked NodeValue.registered p ↔
      (K.current (c.pathKey p) || K.prefixed (c.pathKey p)) = true := by
  rw [Trie.marked_iff_valueAt (show NodeValue.registered .fresh = false from rfl), Bool.or_eq_true,
    ← h.counts p hp, h.current]
  obtain ⟨b, bs, rfl⟩ := hp.exists_cons
  have hkeys : (S.blockKeyPaths (c.pathKey (b :: bs))).isSome ↔
      (S.root.valueAt .fresh (b :: bs)).blockKeys ≠ [] := by
    constructor
    · intro hsome
      obtain ⟨q, hq⟩ := Option.isSome_iff_exists.mp hsome
      obtain ⟨hqpath, hqkey⟩ := h.paths _ _ hq
      rw [← hp.eq_of_pathKey hinj hqpath hqkey] at hq
      exact List.ne_nil_of_mem ((h.keys b bs _).mpr hq)
    · intro hne
      obtain ⟨k, hk⟩ := List.exists_mem_of_ne_nil _ hne
      have hk := (h.keys b bs k).mp hk
      rw [← (h.paths k _ hk).2, hk]
      rfl
  rw [hkeys]
  simp [NodeValue.registered]

end Tracks

/-! ## 答え -/

theorem le_length_takeWhile_iff {α : Type} {p : α → Bool} {l : List α} {m : Nat} :
    m ≤ (l.takeWhile p).length ↔
      m ≤ l.length ∧ ∀ j a, j < m → l[j]? = some a → p a = true := by
  induction l generalizing m with
  | nil => simp
  | cons a l ih =>
    cases m with
    | zero => simp
    | succ m =>
      by_cases ha : p a = true
      · rw [List.takeWhile_cons_of_pos ha, List.length_cons, List.length_cons,
          Nat.add_le_add_iff_right, Nat.add_le_add_iff_right, ih]
        grind
      · rw [List.takeWhile_cons_of_neg ha]
        exact iff_of_false (by simp) fun h => ha (h.2 0 a (by omega) rfl)

theorem length_takeWhile_or_eq_iff {α : Type} {p q : α → Bool} {l : List α} :
    (l.takeWhile fun a => p a || q a).length = (l.takeWhile p).length ↔
      ∀ a, (l.dropWhile p).head? = some a → q a = false := by
  induction l with
  | nil => simp
  | cons a l ih =>
    by_cases hp : p a = true
    · simp [hp, ih]
    · by_cases hq : q a = true
      · simp [hp, hq]
      · simp [hp, hq]

namespace Tracks

variable {c : Config} {sources : List (List Nat)} {S : Registry} {K : KeySet}

theorem lookupPrefix_eq (h : Tracks c sources S K)
    (hinj : Set.InjOn c.digest (c.blockPayloads sources)) {tokens : List Nat}
    (hsource : tokens ∈ sources) :
    S.lookupPrefix c tokens =
      ((c.queryKeys tokens).takeWhile fun k => K.current k || K.prefixed k).length *
        c.blockSize := by
  unfold Registry.lookupPrefix PrefixIndex.lookupPrefix
  refine congrArg (· * c.blockSize) (eq_of_forall_le_iff fun m => ?_)
  rw [Trie.le_walk_iff, le_length_takeWhile_iff]
  have hlen : (c.queryKeys tokens).length = (c.blocks tokens).length := by
    simp [Config.queryKeys, Config.length_blocks]
  rw [hlen]
  refine and_congr_right fun hm => ?_
  have hmark : ∀ j, j < (c.blocks tokens).length →
      (S.root.Marked NodeValue.registered ((c.blocks tokens).take (j + 1)) ↔
        (K.current (c.computeBlockKey tokens j) || K.prefixed (c.computeBlockKey tokens j)) =
          true) := by
    intro j hj
    rw [Config.length_blocks] at hj
    rw [h.marked_iff hinj ⟨tokens, hsource, j, hj, rfl⟩, Config.pathKey_take hj]
  have hkeys : ∀ j, j < (c.blocks tokens).length →
      (c.queryKeys tokens)[j]? = some (c.computeBlockKey tokens j) := by
    intro j hj
    rw [Config.length_blocks] at hj
    simp [Config.queryKeys, hj]
  constructor
  · grind
  · intro hall j hpos hjm
    obtain ⟨j, rfl⟩ := Nat.exists_eq_succ_of_ne_zero (Nat.pos_iff_ne_zero.mp hpos)
    exact (hmark j (by omega)).mpr (hall j _ (by omega) (hkeys j (by omega)))

end Tracks

theorem lookupPrefix_exact_iff (c : Config) (calls : List IndexCall) (tokens : List Nat)
    (hinj : Set.InjOn c.digest
      (c.blockPayloads (tokens :: calls.flatMap IndexCall.tokens))) :
    (Registry.after c calls).lookupPrefix c tokens =
        c.blockSize * (KeySet.after c calls).leadingRun c tokens ↔
      ∀ key, ((c.queryKeys tokens).dropWhile (KeySet.after c calls).current).head? = some key →
        (KeySet.after c calls).prefixed key = false := by
  have htracks : Tracks c (tokens :: calls.flatMap IndexCall.tokens) (Registry.after c calls)
      (KeySet.after c calls) := Tracks.after hinj calls fun call hcall ts hts =>
    List.mem_cons_of_mem _ (List.mem_flatMap.mpr ⟨call, hcall, hts⟩)
  rw [htracks.lookupPrefix_eq hinj List.mem_cons_self, Nat.mul_comm,
    Nat.mul_right_inj (Nat.pos_iff_ne_zero.mp c.blockSize_pos), ← length_takeWhile_or_eq_iff]
  rfl

theorem injOn_blockPayloads_sample (sources : List (List Nat)) :
    Set.InjOn sampleConfig.digest (sampleConfig.blockPayloads sources) := by
  refine sampleDigest_injOn.mono ?_
  rintro _ ⟨tokens, -, i, -, rfl⟩
  exact ⟨_, rfl⟩

def registerThenRemove (c : Config) (tokens : List Nat) : List IndexCall :=
  [.registerPrefix tokens c.blockSize, .removeBlocks [c.computeBlockKey tokens 0]]

/-- **取り消した block が一致し続ける。** -/
theorem lookupPrefix_outlives_removal :
    (Registry.after sampleConfig (registerThenRemove sampleConfig [1, 2])).lookupPrefix
        sampleConfig [1, 2] = 2 ∧
      ∀ key, (KeySet.after sampleConfig
        (registerThenRemove sampleConfig [1, 2])).current key = false := by
  constructor
  · have hinj := injOn_blockPayloads_sample [[1, 2]]
    have htracks : Tracks sampleConfig [[1, 2]] _ _ :=
      Tracks.after hinj (registerThenRemove sampleConfig [1, 2])
        (by simp [registerThenRemove, IndexCall.tokens])
    rw [htracks.lookupPrefix_eq hinj (List.mem_singleton.mpr rfl)]
    simp [Config.queryKeys, KeySet.after, registerThenRemove, IndexCall.spec, Config.keysOf,
      Config.fullBlocks, sampleConfig]
  · intro key
    simp [KeySet.after, registerThenRemove, IndexCall.spec, KeySet.none, Config.keysOf,
      Config.fullBlocks, sampleConfig]

theorem lookupPrefix_exact_iff_removed :
    (Registry.after sampleConfig [.registerPrefix [1, 2] 2, .registerBlocks [1, 2, 3, 4] 4,
        .removeBlocks [sampleConfig.computeBlockKey [1, 2, 3, 4] 1]]).lookupPrefix sampleConfig
          [1, 2, 3, 4] =
      2 * (KeySet.after sampleConfig [.registerPrefix [1, 2] 2, .registerBlocks [1, 2, 3, 4] 4,
        .removeBlocks [sampleConfig.computeBlockKey [1, 2, 3, 4] 1]]).leadingRun sampleConfig
          [1, 2, 3, 4] :=
  (lookupPrefix_exact_iff sampleConfig _ [1, 2, 3, 4] (injOn_blockPayloads_sample _)).mpr (by
    intro key hkey
    have hkey : some (sampleConfig.computeBlockKey [1, 2, 3, 4] 1) = some key := hkey
    rw [← Option.some.inj hkey]
    decide)

end Connector

end ContextStore
