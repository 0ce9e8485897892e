import ContextStore.Conc.Conform
import ContextStore.Rdma.Exchange
import ContextStore.Rdma.Slab

/-!
# stripe の RDMA PUT が格納する byte

`rdma/server.rs` の `handle_put_stripes` が slab から切り出して格納する stripe。
-/

namespace ContextStore.Wire.StripePut

open Conc Slab

structure Chunk where
  stripeIndex : UInt32
  data : List UInt8
deriving DecidableEq

def slice (mem : ℕ → UInt8) (start len : ℕ) : List UInt8 := (List.range' start len).map mem

section

variable (mem : ℕ → UInt8) (base : ℕ)

def storeStripes (placed : ℕ → Bool) :
    List (UInt32 × UInt64) → UInt64 → List Chunk → Except (List Chunk) (List Chunk)
  | [], _, chunks => .ok chunks
  | (idx, len) :: stripes, offset, chunks =>
    let stripe := slice mem (base + offset.toNat) len.toNat
    if placed chunks.length then
      storeStripes placed stripes (offset + len) (chunks ++ [⟨idx, stripe⟩])
    else .error chunks

def cut : List (UInt32 × UInt64) → ℕ → List Chunk
  | [], _ => []
  | (idx, len) :: stripes, offset =>
    ⟨idx, slice mem (base + offset) len.toNat⟩ :: cut stripes (offset + len.toNat)

end

def handlePutStripes (slab : RdmaSlab) (mem : ℕ → UInt8) (placed : ℕ → Bool)
    (req : PutStripesReqMsg) : Option (SlabExtent × Except (List Chunk) (List Chunk)) :=
  let total := (req.stripes.map Prod.snd).sum
  if invalidStripes req.chunkSize req.stripes then none
  else
    (slab.alloc total.toNat).map fun (extent, _) =>
      (extent, storeStripes mem extent.offset placed req.stripes 0 [])

def stored : Except (List Chunk) (List Chunk) → List Chunk
  | .ok chunks | .error chunks => chunks

def total (stripes : List (UInt32 × UInt64)) : ℕ := (stripes.map fun s => s.2.toNat).sum

variable {mem : ℕ → UInt8} {placed : ℕ → Bool} {stripes : List (UInt32 × UInt64)}

/-! ## 和 -/

theorem total_cons (s : UInt32 × UInt64) (stripes : List (UInt32 × UInt64)) :
    total (s :: stripes) = s.2.toNat + total stripes := List.sum_cons

theorem toNat_sum (h : total stripes < 2 ^ 64) :
    (stripes.map Prod.snd).sum.toNat = total stripes := by
  induction stripes with
  | nil => rfl
  | cons s stripes ih =>
    rw [total_cons] at h ⊢
    rw [List.map_cons, List.sum_cons, UInt64.toNat_add, ih (by omega), Nat.mod_eq_of_lt h]

theorem total_take_le (i : ℕ) : total (stripes.take i) ≤ total stripes := by
  have hsplit : total stripes = total (stripes.take i) + total (stripes.drop i) := by
    unfold total
    rw [← List.sum_append, ← List.map_append, List.take_append_drop]
  omega

/-! ## 切り出し -/

theorem stored_storeStripes {base : ℕ} {offset : UInt64} (chunks : List Chunk)
    (h : offset.toNat + total stripes < 2 ^ 64) :
    ∃ k, stored (storeStripes mem base placed stripes offset chunks) =
      chunks ++ (cut mem base stripes offset.toNat).take k := by
  induction stripes generalizing offset chunks with
  | nil => exact ⟨0, (List.append_nil chunks).symm⟩
  | cons s stripes ih =>
    rw [total_cons] at h
    have hnext : (offset + s.2).toNat = offset.toNat + s.2.toNat := by
      rw [UInt64.toNat_add, Nat.mod_eq_of_lt (by omega)]
    unfold storeStripes
    dsimp only
    split
    next =>
      have hlt : (offset + s.2).toNat + total stripes < 2 ^ 64 := by omega
      obtain ⟨k, hk⟩ := ih (chunks ++ [⟨s.1, slice mem (base + offset.toNat) s.2.toNat⟩]) hlt
      exact ⟨k + 1, by rw [hk, hnext, List.append_assoc]; rfl⟩
    next => exact ⟨0, (List.append_nil chunks).symm⟩

theorem getElem?_cut {base n i : ℕ} {c : Chunk} (h : (cut mem base stripes n)[i]? = some c) :
    ∃ s, stripes[i]? = some s ∧
      c = ⟨s.1, slice mem (base + (n + total (stripes.take i))) s.2.toNat⟩ ∧
      total (stripes.take (i + 1)) = total (stripes.take i) + s.2.toNat := by
  induction stripes generalizing n i with
  | nil => cases h
  | cons s stripes ih =>
    cases i with
    | zero =>
      cases h
      exact ⟨s, rfl, rfl, by simp [total]⟩
    | succ i =>
      obtain ⟨s', hs', rfl, htotal⟩ := ih h
      simp only [List.take_succ_cons, total_cons] at htotal ⊢
      exact ⟨s', hs', by rw [Nat.add_assoc], by omega⟩

theorem extract_slice {start len a b : ℕ} (h : b ≤ len) :
    (slice mem start len).extract a b = slice mem (start + a) (b - a) := by
  unfold slice
  rw [List.extract, ← List.map_drop, ← List.map_take, List.drop_range', Nat.mul_one]
  refine congrArg _ (List.ext_getElem ?_ fun i _ _ => ?_)
  · simp only [List.length_take, List.length_range']
    omega
  · simp only [List.getElem_take, List.getElem_range']

theorem len_of_alloc {slab slab' : RdmaSlab} {size : ℕ} {e : SlabExtent}
    (h : slab.alloc size = some (e, slab')) : e.len = size := by
  unfold RdmaSlab.alloc at h
  split at h
  next => cases h
  next =>
    obtain ⟨p, -, hp⟩ := Option.map_eq_some_iff.mp h
    cases hp
    rfl

def Agrees : Except (List PutStripeLocation) (List PutStripeLocation) →
    Except (List Chunk) (List Chunk) → Prop
  | .ok locations, .ok chunks | .error locations, .error chunks =>
    locations.map PutStripeLocation.stripeIndex = chunks.map Chunk.stripeIndex
  | _, _ => False

def PlacedBy (placed : ℕ → Bool) (key : ObjectKey) (msg : PutStripesReqMsg)
    (t : Trace (Duplex.Port WireError Incoming ServerAsk) (Duplex.Port.Resp ServerAsk.Ans)) :
    Prop :=
  ∀ idx ordinal (answer : Option (UInt32 × String × String)),
    ⟨.ask (.putPlacementChunk key msg idx ordinal), answer⟩ ∈ t → answer.isSome = placed ordinal

theorem putChunks_agrees {key : ObjectKey} {msg : PutStripesReqMsg} {placed : ℕ → Bool} {base : ℕ}
    {t : Trace _ _} {locations : List PutStripeLocation} {chunks : List Chunk} {offset : UInt64}
    (hsame : locations.map PutStripeLocation.stripeIndex = chunks.map Chunk.stripeIndex) :
    Conforms (fun _ _ => True) (fun t' r => PlacedBy placed key msg t' →
      Agrees r (storeStripes mem base placed stripes offset chunks)) t
      (putChunks key msg stripes locations) := by
  induction stripes generalizing t locations chunks offset with
  | nil => exact fun _ => hsame
  | cons s stripes ih =>
    obtain ⟨idx, len⟩ := s
    have hlen : locations.length = chunks.length := by simpa using congrArg List.length hsame
    refine ⟨trivial, fun (answer : Option (UInt32 × String × String)) => ?_⟩
    cases answer with
    | none =>
      intro hplaced
      have hfailed : placed chunks.length = false :=
        hlen ▸ (hplaced idx locations.length none List.mem_cons_self).symm
      rw [storeStripes, hfailed]
      exact hsame
    | some x =>
      obtain ⟨deviceId, storageHandle, checksum⟩ := x
      let location : PutStripeLocation := ⟨idx, deviceId, storageHandle, checksum⟩
      let chunk : Chunk := ⟨idx, slice mem (base + offset.toNat) len.toNat⟩
      have hnext : (locations ++ [location]).map PutStripeLocation.stripeIndex =
          (chunks ++ [chunk]).map Chunk.stripeIndex := by
        rw [List.map_append, List.map_append, hsame]
        rfl
      refine (@ih _ _ _ (offset + len) hnext).weaken fun t' r hs h hplaced => ?_
      have hstored : placed chunks.length = true :=
        hlen ▸ (hplaced idx locations.length _ (hs.subset List.mem_cons_self)).symm
      rw [storeStripes, if_pos hstored]
      exact h hplaced

def sent (chunks : List Chunk) : List (ℕ × Bytes) :=
  chunks.map fun c => (c.stripeIndex.toNat, c.data)

theorem map_length_cut (base offset : ℕ) :
    (sent (cut mem base stripes offset)).map (fun s => s.2.length) =
      stripes.map fun s => s.2.toNat := by
  induction stripes generalizing offset with
  | nil => rfl
  | cons s stripes ih =>
    rw [cut, sent, List.map_cons, List.map_cons, List.map_cons]
    refine congrArg₂ List.cons ?_ (ih _)
    simp [slice]

theorem refusesStripes_cut {chunkSize : UInt64} (base : ℕ) (h : total stripes < 2 ^ 64) :
    Rdma.refusesStripes chunkSize.toNat (sent (cut mem base stripes 0)) =
      invalidStripes chunkSize stripes := by
  have hzero : ∀ x : UInt64, (x.toNat == 0) = (x == 0) := by
    intro x
    rw [Bool.eq_iff_iff, beq_iff_eq, beq_iff_eq, ← UInt64.toNat_inj, UInt64.toNat_zero]
  have hlens : (sent (cut mem base stripes 0)).map (fun s => s.2.length) = _ :=
    map_length_cut base 0
  have hempty : (sent (cut mem base stripes 0)).isEmpty = stripes.isEmpty := by
    cases stripes <;> rfl
  have hany : (sent (cut mem base stripes 0)).any
      (fun s => s.2.length == 0 || decide (chunkSize.toNat < s.2.length)) =
        stripes.any fun s => s.2 == 0 || chunkSize < s.2 := by
    have hmap := congrArg (List.any · fun len => len == 0 || decide (chunkSize.toNat < len)) hlens
    rw [List.any_map, List.any_map] at hmap
    refine hmap.trans (congrArg (List.any stripes) (funext fun s => ?_))
    dsimp only [Function.comp]
    rw [hzero]
    rfl
  have htotal : (stripes.map fun s => s.2.toNat).sum = (stripes.map Prod.snd).sum.toNat :=
    (toNat_sum h).symm
  unfold Rdma.refusesStripes invalidStripes
  dsimp only
  rw [hempty, hany, hlens, htotal, hzero]
  rfl
/-! ## まとめ -/

def StoredExactly (mem : ℕ → UInt8) (stripes : List (UInt32 × UInt64)) (extent : SlabExtent)
    (chunks : List Chunk) : Prop :=
  total stripes = extent.len ∧
    ∀ (i : ℕ) (c : Chunk), chunks[i]? = some c →
      (∃ len, stripes[i]? = some (c.stripeIndex, len)) ∧
      c.data = (slice mem extent.offset extent.len).extract
        (total (stripes.take i)) (total (stripes.take (i + 1)))

theorem stored_exactly_iff {slab : RdmaSlab} {req : PutStripesReqMsg} {extent : SlabExtent}
    {result : Except (List Chunk) (List Chunk)}
    (h : handlePutStripes slab mem placed req = some (extent, result)) :
    StoredExactly mem req.stripes extent (stored result) ↔ total req.stripes < 2 ^ 64 := by
  unfold handlePutStripes at h
  dsimp only at h
  split at h
  next => cases h
  next =>
    obtain ⟨⟨e, slab'⟩, halloc, hmk⟩ := Option.map_eq_some_iff.mp h
    cases hmk
    have hgranted := len_of_alloc halloc
    constructor
    · rintro ⟨hlen, -⟩
      rw [hlen, hgranted]
      exact UInt64.toNat_lt _
    · intro hfit
      have hlen : total req.stripes = e.len := by rw [← toNat_sum hfit, hgranted]
      refine ⟨hlen, fun i c hc => ?_⟩
      obtain ⟨k, hk⟩ : ∃ k, stored (storeStripes mem e.offset placed req.stripes 0 []) = _ :=
        stored_storeStripes [] (by rwa [UInt64.toNat_zero, Nat.zero_add])
      rw [hk, List.nil_append, List.getElem?_take] at hc
      split at hc
      next =>
        obtain ⟨s, hs, rfl, htotal⟩ := getElem?_cut hc
        refine ⟨⟨s.2, hs⟩, ?_⟩
        rw [extract_slice (hlen ▸ total_take_le (i + 1)), htotal, Nat.add_sub_cancel_left,
          UInt64.toNat_zero, Nat.zero_add]
      next => cases hc

def sampleReq (chunkSize : UInt64) (lens : List UInt64) : PutStripesReqMsg :=
  ⟨"0:k", "h", 1, 1, chunkSize, 0, lens.map fun len => (0, len)⟩

def sampleSlab : RdmaSlab := ⟨8192, Slab.FreeList.new 8192⟩

theorem stored_exactly_iff_two : ∃ e r,
    handlePutStripes sampleSlab (fun n => UInt8.ofNat n) (fun _ => true) (sampleReq 4 [4, 3]) =
      some (e, r) ∧
      StoredExactly (fun n => UInt8.ofNat n) (sampleReq 4 [4, 3]).stripes e (stored r) ∧
      e.len = 7 ∧
      stored r = [⟨0, [0, 1, 2, 3]⟩, ⟨0, [4, 5, 6]⟩] := by
  refine ⟨⟨0, 7, 4096⟩, .ok [⟨0, [0, 1, 2, 3]⟩, ⟨0, [4, 5, 6]⟩], ?_⟩
  have hrun : handlePutStripes sampleSlab (fun n => UInt8.ofNat n) (fun _ => true)
      (sampleReq 4 [4, 3]) =
        some (⟨0, 7, 4096⟩, .ok [⟨0, [0, 1, 2, 3]⟩, ⟨0, [4, 5, 6]⟩]) := by
    decide +kernel
  exact ⟨hrun, (stored_exactly_iff hrun).mpr (by decide), rfl, rfl⟩

/-- 長さの和が回ると、7 byte の区間に 2 ^ 64 + 7 byte を受け付ける。 -/
theorem wrapped_total_granted : ∃ e r,
    handlePutStripes sampleSlab (fun n => UInt8.ofNat n) (fun _ => false)
      (sampleReq (2 ^ 62) [2 ^ 62, 2 ^ 62, 2 ^ 62, 2 ^ 62, 7]) = some (e, r) ∧ e.len = 7 ∧
    total (sampleReq (2 ^ 62) [2 ^ 62, 2 ^ 62, 2 ^ 62, 2 ^ 62, 7]).stripes = 2 ^ 64 + 7 :=
  ⟨⟨0, 7, 4096⟩, .error [], by decide +kernel, rfl, by decide +kernel⟩

end ContextStore.Wire.StripePut
