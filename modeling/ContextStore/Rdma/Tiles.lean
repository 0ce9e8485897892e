import ContextStore.Rdma.Arrival

/-!
# 読む範囲は重ならず、全ての byte を 1 度ずつ覆う
-/

namespace ContextStore.Serve

open Storage

/-! ## 覆う byte -/

def Piece.covers (x : ℕ) (p : Piece) : Bool := decide (p.object ≤ x ∧ x < p.object + p.length)

def Piece.Targets (ptr : ℕ) (p : Piece) (y : ℕ) : Prop :=
  ptr + p.source ≤ y ∧ y < ptr + p.source + Rdma.extentCapacity p.length

def Piece.Aligned (ptr : ℕ) (p : Piece) : Prop := (ptr + p.source) % 4096 = 0

theorem countP_covers (plan : List Piece) (x : ℕ) :
    plan.countP (Piece.covers x) = (plan.flatMap Piece.bytes).count x := by
  induction plan with
  | nil => rfl
  | cons p plan ih =>
    have hone : p.bytes.count x = if p.covers x then 1 else 0 := by
      rw [Piece.bytes, List.count_range_1', Piece.covers]
      simp
    rw [List.countP_cons, List.flatMap_cons, List.count_append, ih, hone, Nat.add_comm]

variable {s : StripingInfo}

theorem mem_stripe_iff (hpos : 0 < s.chunkSize) {i x : ℕ} :
    (i * s.chunkSize ≤ x ∧ x < i * s.chunkSize + stripeLen s i) ↔
      x < s.totalSize ∧ x / s.chunkSize = i := by
  have hiff : x / s.chunkSize = i ↔ _ := Nat.div_eq_iff hpos
  grind [stripeLen]

variable {plan : List Piece}

theorem fits_subsetPlan {streamChunk : ℕ} {capacity : ℕ} {indices : List ℕ}
    {cursor : ℕ}
    (h : subsetPlan streamChunk s capacity indices cursor = some plan) :
    ∀ p ∈ plan, p.fits capacity = true := by
  induction indices generalizing cursor plan with
  | nil =>
    cases h
    exact fun p hp => (List.not_mem_nil hp).elim
  | cons i indices ih =>
    obtain ⟨-, -, _, rest, rfl, hfits, hrest, rfl⟩ := subsetPlan_cons h
    exact List.forall_mem_append.mpr ⟨List.all_eq_true.mp hfits, ih hrest⟩

theorem count_stripeBytes (hpos : 0 < s.chunkSize) {indices : List ℕ}
    (hnodup : indices.Nodup) (x : ℕ) : (indices.flatMap (stripeBytes s)).count x =
      if x < s.totalSize ∧ x / s.chunkSize ∈ indices then 1 else 0 := by
  induction indices with
  | nil => simp
  | cons i indices ih =>
    obtain ⟨hnot, hnodup⟩ := List.nodup_cons.mp hnodup
    rw [List.flatMap_cons, List.count_append, ih hnodup, stripeBytes, List.count_range_1']
    simp only [mem_stripe_iff hpos, List.mem_cons]
    by_cases hi : x / s.chunkSize = i
    ·
      simp [hi, hnot]
    · simp [hi]

/-! ## 計画 -/

structure Tiling (ptr capacity : ℕ) (wanted : ℕ → Prop) (plan : List Piece) : Prop where
  disjoint : plan.Pairwise fun p q => p.Aligned ptr → q.Aligned ptr →
    ∀ y, ¬ (p.Targets ptr y ∧ q.Targets ptr y)
  within : ∀ p ∈ plan, ∀ y, p.Targets ptr y → ptr ≤ y ∧ y < ptr + capacity
  once : ∀ x, wanted x → plan.countP (Piece.covers x) = 1
  only : ∀ x, ¬ wanted x → plan.countP (Piece.covers x) = 0

theorem Apart.disjoint (h : Apart plan) (ptr : ℕ) :
    plan.Pairwise fun p q => p.Aligned ptr → q.Aligned ptr →
      ∀ y, ¬ (p.Targets ptr y ∧ q.Targets ptr y) := by
  refine h.imp fun {p q} hpq hp hq y hy => ?_
  unfold Piece.Aligned at hp hq
  obtain ⟨⟨-, hlt⟩, hle, -⟩ := hy
  have hgap : p.source + Rdma.extentCapacity p.length ≤ q.source := by
    unfold Rdma.extentCapacity
    omega
  omega

theorem Tiling.of_apart {ptr capacity : ℕ} {wanted : ℕ → Prop} [DecidablePred wanted]
    (hapart : Apart plan) (hfits : ∀ p ∈ plan, p.fits capacity = true)
    (hcount : ∀ x, plan.countP (Piece.covers x) = if wanted x then 1 else 0) :
    Tiling ptr capacity wanted plan where
  disjoint := hapart.disjoint ptr
  within := by
    intro p hp y hy
    have hfit := of_decide_eq_true (hfits p hp)
    obtain ⟨hle, hlt⟩ := hy
    omega
  once := fun x hx => (hcount x).trans (if_pos hx)
  only := fun x hx => (hcount x).trans (if_neg hx)

theorem stream_plans_tile (C : Config) {m : BlockMeta} {s : StripingInfo} (hlaid : WellLaid m s)
    (ptr capacity : ℕ) :
    (∀ plan, wholePlan C.streamChunk s capacity = some plan →
      Tiling ptr capacity (fun x => x < s.totalSize) plan) ∧
    ∀ indices plan, indices.Nodup → (∀ i ∈ indices, i < s.chunkPaths.length) →
      subsetPlan C.streamChunk s capacity indices 0 = some plan →
      Tiling ptr capacity (fun x => x < s.totalSize ∧ x / s.chunkSize ∈ indices) plan := by
  constructor
  · intro plan h
    have hplan := wholePlan_eq_some h
    have hfits : ∀ p ∈ plan, p.fits capacity = true := by
      unfold wholePlan at h
      grind
    refine Tiling.of_apart ?_ hfits fun x => ?_
    · rw [hplan]
      exact (planned_wholePieces C.streamChunk_pos hlaid le_rfl).apart
    · rw [hplan, countP_covers, bytes_wholePieces C.streamChunk_pos, flatMap_stripeBytes hlaid,
        List.nodup_range.count, hlaid.size]
      simp
  · intro indices plan hnodup _ h
    obtain ⟨hi, -, hplanned⟩ := planned_subsetPlan C.streamChunk_pos h
    refine Tiling.of_apart hplanned.apart (fits_subsetPlan h) fun x => ?_
    rw [countP_covers, bytes_subsetPlan C.streamChunk_pos h,
      count_stripeBytes hlaid.positive hnodup]

theorem stream_plans_tile_packed :
    ∃ plan, subsetPlan sampleConfig.streamChunk longStriping 16384 [1, 0] 0 = some plan ∧
      Tiling 4096 16384 (fun x => x < 8200 ∧ x / 8192 ∈ [1, 0]) plan :=
  ⟨_, rfl, (stream_plans_tile sampleConfig (longStriping_laid _ rfl) 4096 16384).2 [1, 0] _
    (by decide) (by decide) rfl⟩

def ofRange (s : StripingInfo) (r : Storage.Range) : Piece :=
  ⟨r.stripe, r.stripe * s.chunkSize + r.offset, r.stripe * s.chunkSize + r.offset, r.offset,
    r.length⟩

theorem toOption_mapM {α ε : Type} {f : α → Except ε α} {ok : α → Bool} {xs : List α}
    (h : ∀ x ∈ xs, (f x).toOption = if ok x then some x else none) :
    (xs.mapM f).toOption = if xs.all ok then some xs else none := by
  induction xs with
  | nil => rfl
  | cons x xs ih =>
    obtain ⟨hx, hxs⟩ := List.forall_mem_cons.mp h
    have ih := ih hxs
    rw [List.mapM_cons, List.all_cons]
    generalize f x = y at hx ⊢
    generalize xs.mapM f = ys at ih ⊢
    cases hok : ok x with
    | false =>
      rw [hok] at hx
      cases y with
      | error e => rfl
      | ok y => cases hx
    | true =>
      rw [hok] at hx
      cases y with
      | error e => cases hx
      | ok y =>
        cases hx
        rw [Bool.true_and]
        cases hall : xs.all ok <;> rw [hall] at ih <;> cases ys <;> cases ih <;> rfl

theorem toOption_checkRange {capacity : ℕ} {r : Storage.Range}
    (hpos : 0 < r.length) : (checkRange s capacity r).toOption =
      if (ofRange s r).fits capacity then some r else none := by
  unfold checkRange Piece.fits ofRange alignedLength Rdma.extentCapacity
  dsimp only
  have hal : 0 < (r.length + 4095) / 4096 * 4096 := by omega
  split
  next h => rw [if_neg (by simp; omega)]; rfl
  next h => rw [if_pos (by simp; omega)]; rfl

theorem length_pos_of_mem_stripeRanges {step i len : ℕ} {path : String} {r : Storage.Range}
    (hstep : 0 < step) (h : r ∈ stripeRanges step i path len) : 0 < r.length := by
  obtain ⟨j, hj, rfl⟩ := List.mem_map.mp h
  have hlt := List.mem_range.mp hj
  have hle : (j + 1) * step ≤ len + step - 1 := (Nat.le_div_iff_mul_le hstep).mp hlt
  rw [Nat.add_mul, Nat.one_mul] at hle
  show 0 < min (len - j * step) step
  omega

theorem map_ofRange_stripeRanges {step : ℕ} (hstep : 0 < step) (i : ℕ)
    (path : String) (len : ℕ) : (stripeRanges step i path len).map (ofRange s) =
      stripePieces step i (i * s.chunkSize) (i * s.chunkSize) len := by
  unfold stripeRanges stripePieces
  rw [List.map_map, divCeil_eq _ hstep]
  rfl

theorem wholePlan_eq {ν : Type} (E : Env ν) (n : ν) (s : StripingInfo) (capacity : ℕ) :
    wholePlan (rdmaStreamChunkSize E n) s capacity =
      if capacity < s.totalSize then none
      else (Storage.streamPlan E n s capacity).toOption.map fun plan =>
        plan.flatten.map (ofRange s) := by
  have hstep : 0 < rdmaStreamChunkSize E n := by
    unfold rdmaStreamChunkSize
    omega
  have hranges : ∀ ranges ∈ streamRanges E n s, (ranges.mapM (checkRange s capacity)).toOption =
      if ranges.all (fun r => (ofRange s r).fits capacity) then some ranges else none := by
    intro ranges hmem
    obtain ⟨i, hi, rfl⟩ := List.mem_mapIdx.mp hmem
    exact toOption_mapM fun r hr => toOption_checkRange (length_pos_of_mem_stripeRanges hstep hr)
  have hpieces : (streamRanges E n s).flatten.map (ofRange s) =
      (List.range s.chunkPaths.length).flatMap fun i =>
        stripePieces (rdmaStreamChunkSize E n) i (i * s.chunkSize) (i * s.chunkSize)
          (min ((i + 1) * s.chunkSize) s.totalSize - i * s.chunkSize) := by
    unfold streamRanges
    rw [List.map_flatten, List.mapIdx_eq_zipIdx_map, List.map_map, List.flatMap_def,
      List.range_eq_range', ← List.zipIdx_map_snd, List.map_map]
    congr 1
    exact List.map_congr_left fun x _ => map_ofRange_stripeRanges hstep x.2 x.1 _
  unfold wholePlan Storage.streamPlan
  rw [toOption_mapM hranges]
  dsimp only
  rw [← hpieces, List.all_map, List.all_flatten, Function.comp_def]
  split
  · rfl
  · split <;> rfl

end ContextStore.Serve
