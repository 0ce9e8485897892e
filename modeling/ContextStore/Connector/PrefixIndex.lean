import ContextStore.Index.Trie
import Mathlib.Tactic.Common

/-!
# vLLM connector: prefix の索引

`contextstore/index/prefix_index.py` の `PrefixIndex` と、object の名前の作り方。
-/

namespace ContextStore

namespace Connector

structure Config where
  modelId : String
  blockSize : Nat
  blockSize_pos : 0 < blockSize
  tpSize : Nat
  parallel : Nat
  parallel_pos : 0 < parallel
  digest : String → String

namespace Config

variable (c : Config)

/-! ## 名前 -/

def payload (tokens : List Nat) : String :=
  c.modelId ++ ":" ++ ",".intercalate (tokens.map toString)

def prefixKey (tokens : List Nat) (numTokens : Nat) : String :=
  c.digest (c.payload (tokens.take numTokens))

def layerName (numBlocks rank : Nat) : String :=
  "blocks_" ++ toString numBlocks ++ if 1 < c.tpSize then "_tp" ++ toString rank else ""

def partLayer (layer : String) (i : Nat) : String :=
  layer ++ if 1 < c.parallel then "_p" ++ toString i ++ "of" ++ toString c.parallel else ""

def ranks : List Nat := List.range (max c.tpSize 1)

def probeLayerNames (numBlocks : Nat) : List String :=
  c.ranks.map fun rank => c.partLayer (c.layerName numBlocks rank) 0

def fullCacheable (tokens : List Nat) : Nat := tokens.length / c.blockSize * c.blockSize

/-! ## 索引 -/

/-- `_block_tuple`。 -/
def blockTuple (tokens : List Nat) (i : Nat) : List Nat :=
  (tokens.drop (i * c.blockSize)).take c.blockSize

def blocks (tokens : List Nat) : List (List Nat) :=
  (List.range (tokens.length / c.blockSize)).map (c.blockTuple tokens)

/-- `_block_keys` の loop。 -/
def blockKeysLoop (buf : String) (idx : Nat) : List Nat → List String
  | [] => []
  | tok :: rest =>
    let buf := (if 0 < idx then buf ++ "," else buf) ++ toString tok
    if (idx + 1) % c.blockSize = 0 then c.digest buf :: blockKeysLoop buf (idx + 1) rest
    else blockKeysLoop buf (idx + 1) rest

/-- `_block_keys`。 -/
def blockKeys (tokens : List Nat) (numBlocks : Nat) : List String :=
  c.blockKeysLoop (c.modelId ++ ":") 0 (tokens.take (numBlocks * c.blockSize))

end Config

/-- `_TrieNode` の値。 -/
structure NodeValue where
  blockKeys : List String
  prefixCount : Nat

/-- `_TrieNode.registered`。 -/
def NodeValue.registered (v : NodeValue) : Bool :=
  !v.blockKeys.isEmpty || decide (0 < v.prefixCount)

/-- `PrefixIndex` の trie。 -/
abbrev PrefixIndex := Trie (List Nat) NodeValue

def NodeValue.fresh : NodeValue := ⟨[], 0⟩

def PrefixIndex.empty : PrefixIndex := .leaf .fresh

def NodeValue.register (key : String) (v : NodeValue) : NodeValue :=
  ⟨v.blockKeys.insert key, v.prefixCount + 1⟩

namespace PrefixIndex

variable (c : Config)

/-- `lookup_prefix`。 -/
def lookupPrefix (index : PrefixIndex) (tokens : List Nat) : Nat :=
  index.walk NodeValue.registered (c.blocks tokens) * c.blockSize

/-- `register_prefix`。 -/
def registerPrefix (index : PrefixIndex) (tokens : List Nat) (numTokens : Nat) : PrefixIndex :=
  index.visit .fresh ((c.blockKeys tokens (numTokens / c.blockSize)).zipIdx.map fun (key, i) =>
    (c.blockTuple tokens i, NodeValue.register key))

end PrefixIndex

theorem toList_payload (c : Config) (tokens : List Nat) :
    (c.payload tokens).toList = (c.modelId ++ ":").toList ++
      [','].intercalate (tokens.map fun t => Nat.toDigits 10 t) := by
  unfold Config.payload
  rw [String.toList_append, String.toList_intercalate, List.map_map]
  simp_all [List.map_congr_left]

theorem payload_inj {c : Config} {tokens tokens' : List Nat}
    (h : c.payload tokens = c.payload tokens') : tokens = tokens' := by
  have hdigits : ∀ ts : List Nat, ∀ l ∈ ts.map fun t => Nat.toDigits 10 t, ',' ∉ l := by
    intro ts l hl hc
    obtain ⟨t, -, rfl⟩ := List.mem_map.mp hl
    exact absurd (Nat.isDigit_of_mem_toDigits (by decide) (by decide) hc) (by decide)
  have hinj : Function.Injective fun t => Nat.toDigits 10 t := by
    intro m n hmn
    grind [Nat.ofDigitChars_ten_toDigits]
  have hnonempty : ∀ (t : Nat) (ts : List Nat),
      [','].intercalate ((t :: ts).map fun t => Nat.toDigits 10 t) ≠ [] := by
    intro t ts hnil
    have hsplit := List.splitOn_intercalate ',' (hdigits (t :: ts)) (by simp)
    simp_all
  have heq := congrArg String.toList h
  rw [toList_payload, toList_payload] at heq
  have heq := List.append_cancel_left heq
  cases tokens with
  | nil =>
    cases tokens' with
    | nil => rfl
    | cons t ts => exact absurd heq.symm (hnonempty t ts)
  | cons t ts =>
    cases tokens' with
    | nil => exact absurd heq (hnonempty t ts)
    | cons t' ts' =>
      have hsplit := congrArg (List.splitOn ',') heq
      rw [List.splitOn_intercalate ',' (hdigits _) (by simp),
        List.splitOn_intercalate ',' (hdigits _) (by simp)] at hsplit
      exact List.map_injective_iff.mpr hinj hsplit

/-! ## block の列 -/

namespace Config

variable {c : Config} {tokens : List Nat}

theorem length_blocks : (c.blocks tokens).length = tokens.length / c.blockSize := by
  simp [blocks]

theorem blocks_take {n : Nat} (hn : n ≤ tokens.length / c.blockSize) :
    c.blocks (tokens.take (n * c.blockSize)) = (c.blocks tokens).take n := by
  have hlen : n * c.blockSize ≤ tokens.length :=
    (Nat.mul_le_mul_right _ hn).trans (Nat.div_mul_le_self _ _)
  have hcount : (tokens.take (n * c.blockSize)).length / c.blockSize = n := by
    simp_all [blockSize_pos]
  unfold blocks
  rw [hcount, ← List.map_take, List.take_range, Nat.min_eq_left hn]
  refine List.map_congr_left fun i hi => ?_
  have hi : i < n := List.mem_range.mp hi
  have hroom : c.blockSize ≤ n * c.blockSize - i * c.blockSize := by
    rw [← Nat.sub_mul]
    exact Nat.le_mul_of_pos_left _ (by omega)
  unfold blockTuple
  rw [List.drop_take, List.take_take, Nat.min_eq_left hroom]

theorem length_blockKeysLoop (buf : String) (idx : Nat) (tokens : List Nat) :
    (c.blockKeysLoop buf idx tokens).length =
      (idx + tokens.length) / c.blockSize - idx / c.blockSize := by
  induction tokens generalizing buf idx with
  | nil => simp [blockKeysLoop]
  | cons tok rest ih =>
    have hmono : (idx + 1) / c.blockSize ≤ (idx + 1 + rest.length) / c.blockSize :=
      Nat.div_le_div_right (by omega)
    have hsucc := @Nat.succ_div idx c.blockSize
    have hlen : idx + (tok :: rest).length = idx + 1 + rest.length := by
      rw [List.length_cons]; omega
    rw [hlen]
    unfold blockKeysLoop
    dsimp only
    split
    next hmod =>
      rw [if_pos (Nat.dvd_of_mod_eq_zero hmod)] at hsucc
      rw [List.length_cons, ih]
      omega
    next hmod =>
      rw [if_neg fun hd => hmod (Nat.mod_eq_zero_of_dvd hd)] at hsucc
      rw [ih]
      omega

theorem length_blockKeys {n : Nat} (hn : n ≤ tokens.length / c.blockSize) :
    (c.blockKeys tokens n).length = n := by
  have hlen : n * c.blockSize ≤ tokens.length :=
    (Nat.mul_le_mul_right _ hn).trans (Nat.div_mul_le_self _ _)
  simp_all [blockKeys, length_blockKeysLoop, blockSize_pos]

end Config

def Indexes (c : Config) (index : PrefixIndex) (R : List (List Nat)) : Prop :=
  ∀ b bs, index.Marked NodeValue.registered (b :: bs) ↔ ∃ r ∈ R, (b :: bs) <+: c.blocks r

def agreement (c : Config) (R : List (List Nat)) (tokens : List Nat) : Nat :=
  longestCommon (c.blocks tokens) (R.map c.blocks)

namespace Indexes

variable {c : Config} {index : PrefixIndex} {R : List (List Nat)} {tokens : List Nat}

theorem empty : Indexes c .empty [] := by
  intro b bs
  grind [Trie.not_marked_leaf, PrefixIndex.empty]

theorem registerPrefix (h : Indexes c index R) {n : Nat} (hn : n ≤ tokens.length / c.blockSize) :
    Indexes c (index.registerPrefix c tokens (n * c.blockSize))
      (tokens.take (n * c.blockSize) :: R) := by
  intro b bs
  have hpath : ((c.blockKeys tokens n).zipIdx.map fun (key, i) =>
      (c.blockTuple tokens i, NodeValue.register key)).map Prod.fst =
      c.blocks (tokens.take (n * c.blockSize)) := by
    rw [Config.blocks_take hn, List.map_map]
    have hfst : (Prod.fst ∘ fun ((key, i) : String × Nat) =>
        (c.blockTuple tokens i, NodeValue.register key)) = c.blockTuple tokens ∘ Prod.snd := by
      funext ⟨key, i⟩
      rfl
    rw [hfst, ← List.map_map, List.zipIdx_map_snd, Config.length_blockKeys hn]
    unfold Config.blocks
    rw [← List.map_take, List.take_range, Nat.min_eq_left hn, List.range_eq_range']
  unfold PrefixIndex.registerPrefix
  rw [Nat.mul_div_cancel _ c.blockSize_pos, Trie.marked_visit, h b bs, hpath]
  · simp [or_comm]
  · intro s hs v
    obtain ⟨⟨key, i⟩, -, rfl⟩ := List.mem_map.mp hs
    simp [NodeValue.register, NodeValue.registered]

theorem lookupPrefix_eq (h : Indexes c index R) (tokens : List Nat) :
    index.lookupPrefix c tokens = agreement c R tokens * c.blockSize := by
  unfold PrefixIndex.lookupPrefix agreement
  refine congrArg (· * c.blockSize) (eq_of_forall_le_iff fun m => ?_)
  rcases Nat.eq_zero_or_pos m with rfl | hpos
  · simp
  rw [Trie.le_walk_iff, le_longestCommon_iff hpos]
  simp only [List.mem_map, exists_exists_and_eq_and, le_commonLength_iff]
  have hmark : ∀ j, 0 < j → j ≤ (c.blocks tokens).length →
      (index.Marked NodeValue.registered ((c.blocks tokens).take j) ↔
        ∃ r ∈ R, (c.blocks tokens).take j <+: c.blocks r) := by
    intro j h₀ h₁
    obtain ⟨b, bs, hb⟩ := List.exists_cons_of_length_pos (l := (c.blocks tokens).take j)
      (by rw [List.length_take]; omega)
    rw [hb]
    exact h b bs
  constructor
  · grind
  · rintro ⟨r, hr, hm, hpre⟩
    refine ⟨hm, fun j h₀ h₁ => (hmark j h₀ (h₁.trans hm)).mpr ⟨r, hr, ?_⟩⟩
    exact (List.take_prefix_take_left h₁).trans hpre

end Indexes

/-! ## 例の設定 -/

def sampleDigest (text : String) : String :=
  if text = "m:1,2" then "ab81380179b32b030efabba40185495c"
  else if text = "m:1,2,3,4" then "d3d6a9b82ca103d6bc5bdcc04bebc102"
  else if text = "m:1,2,8,9" then "12918ba072d151804b5a1c355b617404"
  else text

def sampleConfig : Config := ⟨"m", 2, Nat.two_pos, 1, 1, Nat.one_pos, sampleDigest⟩

theorem sampleDigest_injOn : Set.InjOn sampleDigest (Set.range sampleConfig.payload) := by
  have hcolon : ∀ tokens, ':' ∈ (sampleConfig.payload tokens).toList := by
    intro tokens
    simp [Config.payload, sampleConfig]
  rintro _ ⟨tokens, rfl⟩ _ ⟨tokens', rfl⟩ h
  have hleft := hcolon tokens
  have hright := hcolon tokens'
  generalize sampleConfig.payload tokens = p at h hleft ⊢
  generalize sampleConfig.payload tokens' = q at h hright ⊢
  unfold sampleDigest at h
  split_ifs at h <;> subst_vars
  all_goals first
    | rfl
    | exact absurd h (by decide)
    | exact absurd hleft (by decide)
    | exact absurd hright (by decide)

end Connector

end ContextStore
