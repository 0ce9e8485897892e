import Mathlib.Data.List.GetD
import Mathlib.Data.List.Rotate
import ContextStore.Cluster.Run
import ContextStore.Conc.Perform

/-!
# stripe の、node の中での順番
-/

namespace ContextStore

section Cycle

variable {p : ℕ → Bool} {period : ℕ}

theorem countP_range_add (p : ℕ → Bool) (a b : ℕ) :
    (List.range (a + b)).countP p =
      (List.range a).countP p + (List.range b).countP fun k => p (a + k) := by
  rw [List.range_add, List.countP_append, List.countP_map]
  rfl

theorem periodic_mul (hp : ∀ k, p (period + k) = p k) (q k : ℕ) : p (q * period + k) = p k := by
  induction q with
  | zero => rw [Nat.zero_mul, Nat.zero_add]
  | succ q ih =>
    grind

theorem countP_range_cycle (hp : ∀ k, p (period + k) = p k) (q r : ℕ) :
    (List.range (q * period + r)).countP p =
      q * (List.range period).countP p + (List.range r).countP p := by
  have hcycles : (List.range (q * period)).countP p = q * (List.range period).countP p := by
    induction q with
    | zero => simp
    | succ q ih =>
      have hlast : (List.range period).countP (fun k => p (q * period + k)) =
          (List.range period).countP p :=
        List.countP_congr fun k _ => by rw [periodic_mul hp]
      rw [Nat.succ_mul, countP_range_add, ih, hlast, Nat.succ_mul]
  have hrest : (List.range r).countP (fun k => p (q * period + k)) = (List.range r).countP p :=
    List.countP_congr fun k _ => by rw [periodic_mul hp]
  rw [countP_range_add, hcycles, hrest]

theorem countP_range_next {i j : ℕ} (hi : p i = true) (hij : i < j)
    (hgap : ∀ k, i < k → k < j → p k = false) :
    (List.range j).countP p = (List.range i).countP p + 1 := by
  obtain ⟨d, rfl⟩ : ∃ d, j = (i + 1) + d := ⟨j - (i + 1), by omega⟩
  have hnone : (List.range d).countP (fun k => p (i + 1 + k)) = 0 := by
    grind
  simp_all [countP_range_add]

end Cycle

namespace Placement

variable {ν : Type} {E : Env ν} {n : ν} {key : ObjectKey}

theorem length_configuredDataNodes_pos : 0 < (E.cfg n).configuredDataNodes.length :=
  List.length_pos_iff.mpr (E.cfg n).configuredDataNodes_ne_nil

theorem isLocalSlot_periodic (E : Env ν) (n : ν) (key : ObjectKey) (k : ℕ) :
    isLocalSlot E n key ((E.cfg n).configuredDataNodes.length + k) = isLocalSlot E n key k := by
  unfold isLocalSlot selectDataNode
  dsimp only
  rw [Nat.add_left_comm, Nat.add_mod_left]

theorem map_selectDataNode_range :
    (List.range (E.cfg n).configuredDataNodes.length).map (selectDataNode E n key) =
      (E.cfg n).configuredDataNodes.rotate (nodeBase E n key) := by
  refine List.ext_getElem (by simp) fun k hk _ => ?_
  have hpos := length_configuredDataNodes_pos (E := E) (n := n)
  simp_all [Nat.mod_lt, selectDataNode, Nat.add_comm]

theorem countP_isLocalSlot_cycle :
    (List.range (E.cfg n).configuredDataNodes.length).countP (isLocalSlot E n key) =
      (E.cfg n).configuredDataNodes.countP (E.cfg n).isLocalNode := by
  have hmap : (List.range (E.cfg n).configuredDataNodes.length).countP (isLocalSlot E n key) =
      ((List.range (E.cfg n).configuredDataNodes.length).map
        (selectDataNode E n key)).countP (E.cfg n).isLocalNode := by
    rw [List.countP_map]
    rfl
  rw [hmap, map_selectDataNode_range]
  exact (List.rotate_perm _ _).countP_eq _

theorem selectDataNode_mem (i : ℕ) :
    selectDataNode E n key i ∈ (E.cfg n).configuredDataNodes := by
  simp_all [selectDataNode, Nat.mod_lt, length_configuredDataNodes_pos]

theorem localDeviceStripeIndex_eq (i : ℕ) :
    localDeviceStripeIndex E n key i =
      if isLocalSlot E n key i then
        some ((List.range i).countP (isLocalSlot E n key)) else none := by
  by_cases hlocal : isLocalSlot E n key i = true
  · have hcount : ¬ (E.cfg n).configuredDataNodes.countP (E.cfg n).isLocalNode = 0 := fun h =>
      List.countP_eq_zero.mp h _ (selectDataNode_mem i) hlocal
    have hsplit : i / (E.cfg n).configuredDataNodes.length * (E.cfg n).configuredDataNodes.length +
        i % (E.cfg n).configuredDataNodes.length = i := Nat.div_add_mod' _ _
    have hrest : isLocalSlot E n key (i % (E.cfg n).configuredDataNodes.length) = true := by
      rw [← hlocal]
      conv_rhs => rw [← hsplit]
      exact (periodic_mul (isLocalSlot_periodic E n key) _ _).symm
    have hpartial : (List.range (i % (E.cfg n).configuredDataNodes.length + 1)).countP
        (isLocalSlot E n key) =
          (List.range (i % (E.cfg n).configuredDataNodes.length)).countP
            (isLocalSlot E n key) + 1 :=
      countP_range_next hrest (Nat.lt_succ_self _) fun k h₁ h₂ => by omega
    have hcycle := countP_range_cycle (isLocalSlot_periodic E n key)
      (i / (E.cfg n).configuredDataNodes.length) (i % (E.cfg n).configuredDataNodes.length)
    simp_all [countP_isLocalSlot_cycle, localDeviceStripeIndex]
  · unfold localDeviceStripeIndex
    simp [hlocal]

theorem localDeviceStripeIndex_exact (E : Env ν) (n : ν) (key : ObjectKey) (i : ℕ) :
    ((localDeviceStripeIndex E n key i).isSome ↔
        (E.cfg n).isLocalNode (selectDataNode E n key i) = true) ∧
      (∀ ordinal, localDeviceStripeIndex E n key i = some ordinal →
        ordinal = (List.range i).countP fun j =>
          (E.cfg n).isLocalNode (selectDataNode E n key j)) ∧
      ∀ j, i < j → (E.cfg n).isLocalNode (selectDataNode E n key i) = true →
        (E.cfg n).isLocalNode (selectDataNode E n key j) = true →
        (∀ k, i < k → k < j → (E.cfg n).isLocalNode (selectDataNode E n key k) = false) →
        ∃ a b, localDeviceStripeIndex E n key i = some a ∧
          localDeviceStripeIndex E n key j = some b ∧
          (E.cfg n).router.chunkDevice E.ext key b =
            ((E.cfg n).router.chunkDevice E.ext key a + 1) % (E.cfg n).router.numDevices := by
  refine ⟨?_, ?_, ?_⟩
  · rw [localDeviceStripeIndex_eq]
    change _ ↔ isLocalSlot E n key i = true
    split <;> simp_all
  · intro ordinal h
    rw [localDeviceStripeIndex_eq] at h
    split at h
    · exact (Option.some.inj h).symm
    · cases h
  · intro j hij hi hj hgap
    refine ⟨_, _, (localDeviceStripeIndex_eq i).trans (if_pos hi),
      (localDeviceStripeIndex_eq j).trans (if_pos hj), ?_⟩
    rw [countP_range_next (p := isLocalSlot E n key) hi hij hgap]
    unfold ShardRouter.chunkDevice
    rw [Nat.mod_add_mod, Nat.add_assoc]

def sampleTwice : Env (Fin 2) :=
  sample (fun _ => false) [sampleNode nodeA, sampleNode nodeB, sampleNode nodeA]

theorem localDeviceStripeIndex_exact_twice :
    ∃ a b, localDeviceStripeIndex sampleTwice nodeA ⟨"", "x"⟩ 4 = some a ∧
      localDeviceStripeIndex sampleTwice nodeA ⟨"", "x"⟩ 6 = some b ∧
      (sampleTwice.cfg nodeA).router.chunkDevice sampleTwice.ext ⟨"", "x"⟩ b =
        ((sampleTwice.cfg nodeA).router.chunkDevice sampleTwice.ext ⟨"", "x"⟩ a + 1) %
          (sampleTwice.cfg nodeA).router.numDevices :=
  (localDeviceStripeIndex_exact sampleTwice nodeA ⟨"", "x"⟩ 4).2.2 6 (by decide) (by decide)
    (by decide) fun k h₁ h₂ => by
      obtain rfl : k = 5 := by omega
      decide

end Placement

open Conc

namespace NodeConfig

variable (c : NodeConfig)

def SetsNodeId : Prop := c.envNodeId ≠ "" ∨ c.clusterNodeId ≠ ""

def SetsGrpcEndpoint : Prop := c.envGrpcAdvertise ≠ "" ∨ c.clusterGrpcAdvertise ≠ ""

def SetsRdmaEndpoint : Prop := c.envRdmaAdvertise ≠ "" ∨ c.clusterRdmaAdvertise ≠ ""

def SharesSetting (node : DataNode) : Prop :=
  (c.SetsNodeId ∧ node.nodeId = c.localNode.nodeId) ∨
    (c.SetsGrpcEndpoint ∧ node.grpcEndpoint = c.localNode.grpcEndpoint) ∨
    (c.SetsRdmaEndpoint ∧ node.rdmaEndpoint = c.localNode.rdmaEndpoint)

variable {c}

theorem sharesSetting_localNode :
    c.SharesSetting c.localNode ↔
      c.SetsNodeId ∨ c.SetsGrpcEndpoint ∨ c.SetsRdmaEndpoint := by
  simp only [SharesSetting, and_true]

end NodeConfig

theorem ite_ne_empty {env cluster : String} :
    (if env ≠ "" then env else cluster) ≠ "" ↔ env ≠ "" ∨ cluster ≠ "" := by
  by_cases h : env = "" <;> simp [h]

theorem ite_default {env cluster default : String} (h : env ≠ "" ∨ cluster ≠ "") :
    (if env ≠ "" then env else if cluster ≠ "" then cluster else default) =
      if env ≠ "" then env else cluster := by
  by_cases henv : env = ""
  · rw [if_neg (not_not.mpr henv), if_neg (not_not.mpr henv), if_pos (h.resolve_left (· henv))]
  · rw [if_pos henv, if_pos henv]

theorem chunkIsLocal_iff (c : NodeConfig) (l : ChunkLocation) :
    Rdma.chunkIsLocal c l = true ↔ c.SharesSetting l.node := by
  have hid (h : c.SetsNodeId) : c.localNode.nodeId =
      if c.envNodeId ≠ "" then c.envNodeId else c.clusterNodeId := ite_default h
  have hgrpc (h : c.SetsGrpcEndpoint) : c.localNode.grpcEndpoint =
      if c.envGrpcAdvertise ≠ "" then c.envGrpcAdvertise else c.clusterGrpcAdvertise :=
    ite_default h
  simp only [Rdma.chunkIsLocal, Bool.or_eq_true, Bool.and_eq_true, beq_iff_eq, decide_eq_true_eq,
    ite_ne_empty, NodeConfig.SharesSetting, or_assoc]
  refine or_congr (and_congr_right fun h => ?_)
    (or_congr (and_congr_right fun h => ?_) Iff.rfl)
  · rw [hid h]
    rfl
  · rw [hgrpc h]
    rfl

theorem putLocalChunk_node {ν : Type} (E : Env ν) (n : ν) (node : DataNode) (key : ObjectKey)
    (desc : ObjectDescriptor) (i offset : ℕ) (data : Bytes) (t : Hist ν) :
    Yields (fun _ c => c.node = node) t
      (Service.putLocalChunk E n node key desc i offset data) := by
  unfold Service.putLocalChunk
  split
  · exact .throw
  · exact .skip fun _ _ _ => .pure rfl

theorem own_stripes_recognised_iff {ν : Type} (E : Env ν) (n : ν) (node : DataNode)
    (key : ObjectKey) (desc : ObjectDescriptor) (i offset chunkSize : ℕ) (data : Bytes)
    (t : Hist ν) :
    ((E.cfg n).isLocalNode node = true →
      Yields (fun _ l => (E.cfg n).isLocalNode l.node = true ∧ l.node = node ∧
          (Rdma.chunkIsLocal (E.cfg n) l = true ↔ (E.cfg n).SharesSetting node))
        t (Service.putChunkOnNode E n node key desc i offset chunkSize data)) ∧
    Yields (fun _ l => (E.cfg n).isLocalNode l.node = true ∧ l.node = (E.cfg n).localNode ∧
        (Rdma.chunkIsLocal (E.cfg n) l = true ↔ (E.cfg n).SetsNodeId ∨
          (E.cfg n).SetsGrpcEndpoint ∨ (E.cfg n).SetsRdmaEndpoint))
      t (Service.putPlacementChunkRpc E n key desc i chunkSize data) := by
  constructor
  · intro hlocal
    unfold Service.putChunkOnNode
    rw [if_pos hlocal]
    refine (putLocalChunk_node E n node key desc i offset data t).weaken ?_
    rintro t' l - rfl
    exact ⟨hlocal, rfl, chunkIsLocal_iff _ l⟩
  · refine (putLocalChunk_node E n _ key desc i _ data t).weaken ?_
    intro t' l _ hnode
    have hlocal : (E.cfg n).isLocalNode l.node = true := by
      rw [hnode]
      simp [NodeConfig.isLocalNode]
    refine ⟨hlocal, hnode, ?_⟩
    rw [chunkIsLocal_iff, hnode]
    exact NodeConfig.sharesSetting_localNode

def sampleStripe : ObjectDescriptor := ⟨none, "", 1, "", 1, 2, true, 1, 2⟩

/-- 識別子だけを設定した node は、その識別子で一覧にあれば、自分の stripe を見分ける。 -/
theorem own_stripes_recognised_iff_listed :
    (sampleSpread.cfg nodeA).SharesSetting (sampleNode nodeA) ∧
      Yields (fun _ l => (sampleSpread.cfg nodeA).isLocalNode l.node = true ∧
          l.node = sampleNode nodeA ∧ (Rdma.chunkIsLocal (sampleSpread.cfg nodeA) l = true ↔
            (sampleSpread.cfg nodeA).SharesSetting (sampleNode nodeA))) []
        (Service.putChunkOnNode sampleSpread nodeA (sampleNode nodeA) ⟨"", "k"⟩ sampleStripe 0 0 2
          [1, 2]) := by
  refine ⟨.inl ⟨.inr (by decide), by decide⟩, ?_⟩
  exact (own_stripes_recognised_iff sampleSpread nodeA (sampleNode nodeA) _ _ _ _ _ _ _).1
    (by decide)

def sampleRenamed : Env (Fin 2) :=
  sample (fun _ => false) [⟨"x", "a:1", "a:2"⟩, sampleNode nodeB]

/-- **endpoint を待ち受けの番地で補った node は、自分の書いた stripe を RDMA では見分けない。** -/
theorem renamed_stripe_unrecognised : ∃ w t c,
    (Service.putChunkOnNode sampleRenamed nodeA ⟨"x", "a:1", "a:2"⟩ ⟨"", "k"⟩ sampleStripe 0 0 2
      [1, 2]).run.perform (exec sampleRenamed) [.ok] (World.init 0) [] = some (w, t, .ok c) ∧
    (sampleRenamed.cfg nodeA).isLocalNode c.node = true ∧
    Rdma.chunkIsLocal (sampleRenamed.cfg nodeA) c = false := by
  have hrun : (((Service.putChunkOnNode sampleRenamed nodeA ⟨"x", "a:1", "a:2"⟩ ⟨"", "k"⟩
      sampleStripe 0 0 2 [1, 2]).run.perform (exec sampleRenamed) [.ok] (World.init 0) []).any
      fun x => x.2.2.toOption.any fun c => (sampleRenamed.cfg nodeA).isLocalNode c.node = true ∧
        Rdma.chunkIsLocal (sampleRenamed.cfg nodeA) c = false) = true := by decide +kernel
  obtain ⟨⟨w, t, r⟩, hperform, hok⟩ := (Option.any_eq_true _ _).mp hrun
  cases r with
  | error e => cases hok
  | ok c => exact ⟨w, t, c, hperform, of_decide_eq_true hok⟩

end ContextStore
