import ContextStore.Cluster.L1Size

/-!
# memory tier の byte 数の上限
-/

namespace ContextStore

open Conc

/-! ## counter -/

theorem toNat_sub_ofNat {a : UInt64} {n : ℕ} (h : n ≤ a.toNat) :
    (a - UInt64.ofNat n).toNat = a.toNat - n := by
  have hlt : n < 2 ^ 64 := h.trans_lt a.toNat_lt
  have hn : (UInt64.ofNat n).toNat = n := UInt64.toNat_ofNat_of_lt hlt
  rw [UInt64.toNat_sub_of_le _ _ (UInt64.le_iff_toNat_le.mpr (hn.symm ▸ h)), hn]

theorem toNat_add_ofNat {a : UInt64} {n : ℕ} (h : a.toNat + n < 2 ^ 64) :
    (a + UInt64.ofNat n).toNat = a.toNat + n := by
  simp_all

structure Balanced (capacity total : ℕ) (counter : UInt64) : Prop where
  le : total ≤ capacity
  drift : ∃ lost ≤ capacity, counter.toNat = total + lost

namespace Balanced

variable {capacity total total' : ℕ} {counter : UInt64}

theorem shrink (h : Balanced capacity total counter) {n : ℕ} (hn : n + total' = total) :
    Balanced capacity total' (counter - UInt64.ofNat n) := by
  obtain ⟨lost, hlost, hsize⟩ := h.drift
  have hle := h.le
  refine ⟨by omega, lost, hlost, ?_⟩
  rw [toNat_sub_ofNat (by omega)]
  omega

theorem insert (h : Balanced capacity total counter) (hcap : 2 * capacity < 2 ^ 64)
    (freed dropped size : ℕ) (hfreed : freed ≤ total)
    (hsum : total' + freed + dropped = total + size)
    (hroom : counter.toNat + size ≤ capacity ∨ (freed = 0 ∧ dropped = 0 ∧ total' ≤ capacity)) :
    Balanced capacity total' (counter - UInt64.ofNat freed + UInt64.ofNat size) := by
  obtain ⟨lost, hlost, hsize⟩ := h.drift
  have hle := h.le
  have hsub : (counter - UInt64.ofNat freed).toNat = counter.toNat - freed :=
    toNat_sub_ofNat (by omega)
  have hadd : (counter - UInt64.ofNat freed + UInt64.ofNat size).toNat =
      counter.toNat - freed + size := by
    rw [toNat_add_ofNat, hsub]
    rw [hsub]
    omega
  refine ⟨by omega, lost + dropped, by omega, ?_⟩
  rw [hadd]
  omega

theorem put {υ : Type} (f : υ → ℕ) {entries : List (String × υ)} (hd : Lru.Distinct entries)
    {other : ℕ} (h : Balanced capacity (Lru.weight f entries + other) counter)
    (hcap : 2 * capacity < 2 ^ 64) (key : String) (v : υ)
    (hroom : counter.toNat + f v ≤ capacity ∨ entries = [] ∧ other + f v ≤ capacity) :
    Balanced capacity (Lru.weight f (Lru.put maxCacheEntries key v entries) + other)
      (counter - UInt64.ofNat (((Lru.peek key entries).map f).getD 0) + UInt64.ofNat (f v)) := by
  obtain ⟨dropped, hsum, hempty⟩ := Lru.weight_put_dropped f maxCacheEntries key v hd
  have hfreed : ((Lru.peek key entries).map f).getD 0 ≤ Lru.weight f entries := by
    cases hp : Lru.peek key entries with
    | none => exact Nat.zero_le _
    | some old =>
      have hw := Lru.weight_erase f hd hp
      simp only [Option.map_some, Option.getD_some]
      omega
  refine h.insert hcap _ dropped _ (by omega) (by omega) (hroom.imp id fun hnil => ?_)
  grind [Lru.weight_nil]

end Balanced

namespace L1

/-- `cache` にある byte 数。 -/
def cacheBytes (l : L1) : ℕ := Lru.weight (fun e => e.data.length) l.cache

def chunksBytes (l : L1) : ℕ := Lru.weight (fun e => e.totalSize) l.chunksCache

structure Within (capacity : ℕ) (l : L1) : Prop where
  cache : Lru.Distinct l.cache
  chunks : Lru.Distinct l.chunksCache
  balanced : Balanced capacity l.total l.currentSize

def Spares (capacity : ℕ) (l : L1) : L1Cmd → Prop
  | .insertCache _ e => l.chunksBytes + e.data.length ≤ capacity
  | .insertChunks _ e budget => budget = some capacity ∧ l.cacheBytes + e.totalSize ≤ capacity
  | _ => True

variable {capacity : ℕ} {l : L1}

theorem Within.empty (capacity : ℕ) : L1.empty.Within capacity :=
  ⟨.nil, .nil, Nat.zero_le _, 0, Nat.zero_le _, rfl⟩

theorem Within.touchCache (h : l.Within capacity) (key : String) :
    Within capacity { l with cache := Lru.touch key l.cache } := by
  refine ⟨h.cache.touch key, h.chunks, ?_⟩
  have htotal : L1.total { l with cache := Lru.touch key l.cache } = l.total := by
    simp only [total, Lru.weight_touch _ key h.cache]
  rw [htotal]
  exact h.balanced

theorem Within.touchChunks (h : l.Within capacity) (key : String) :
    Within capacity { l with chunksCache := Lru.touch key l.chunksCache } := by
  refine ⟨h.cache, h.chunks.touch key, ?_⟩
  have htotal : L1.total { l with chunksCache := Lru.touch key l.chunksCache } = l.total := by
    simp only [total, Lru.weight_touch _ key h.chunks]
  rw [htotal]
  exact h.balanced

theorem Within.getCacheMany (h : l.Within capacity) (keys : List String) :
    (l.getCacheMany keys).1.Within capacity := by
  unfold L1.getCacheMany
  suffices hfold : ∀ acc : L1 × List (Option CacheEntry), acc.1.Within capacity →
      (keys.foldl (fun acc key =>
        ((acc.1.getCache key).1, acc.2 ++ [(acc.1.getCache key).2])) acc).1.Within capacity from
    hfold (l, []) h
  induction keys with
  | nil => exact fun _ h => h
  | cons key keys ih => exact fun acc h => ih _ (h.touchCache key)

theorem Within.shrinkCache (h : l.Within capacity) {cache : List (String × CacheEntry)} {n : ℕ}
    (hd : Lru.Distinct cache)
    (hn : n + Lru.weight (fun e => e.data.length) cache = l.cacheBytes) :
    Within capacity { l with cache := cache, currentSize := l.currentSize - UInt64.ofNat n } := by
  refine ⟨hd, h.chunks, h.balanced.shrink ?_⟩
  simp only [total, cacheBytes] at hn ⊢
  omega

theorem Within.shrinkChunks (h : l.Within capacity) {chunks : List (String × ChunksCacheEntry)}
    {n : ℕ} (hd : Lru.Distinct chunks)
    (hn : n + Lru.weight (fun e => e.totalSize) chunks = l.chunksBytes) :
    Within capacity { l with
      chunksCache := chunks, currentSize := l.currentSize - UInt64.ofNat n } := by
  refine ⟨h.cache, hd, h.balanced.shrink ?_⟩
  simp only [total, chunksBytes] at hn ⊢
  omega

theorem Within.popCache (h : l.Within capacity) (key : String) :
    (l.popCache key).Within capacity := by
  unfold L1.popCache
  split
  · exact h
  next e he =>
    have hw := Lru.weight_erase (fun e : CacheEntry => e.data.length) h.cache he
    exact h.shrinkCache (h.cache.erase key) hw

theorem Within.popChunks (h : l.Within capacity) (key : String) :
    (l.popChunks key).Within capacity := by
  unfold L1.popChunks
  split
  · exact h
  next e he => exact h.shrinkChunks (h.chunks.erase key) (Lru.weight_erase _ h.chunks he)

theorem Within.evictToFree (h : l.Within capacity) (need fuel freed : ℕ) :
    (evictToFree need fuel freed l).Within capacity := by
  induction fuel generalizing l freed with
  | zero => exact h
  | succ fuel ih =>
    unfold L1.evictToFree
    split
    · split
      · exact h
      next e he => exact ih (h.shrinkChunks h.chunks.dropLast (Lru.weight_dropLast _ he)) _
    · exact h

/-! ## 追い出し -/

theorem chunksCache_evictCache (size capacity fuel : ℕ) (l : L1) :
    (evictCache size capacity fuel l).chunksCache = l.chunksCache := by
  induction fuel generalizing l with
  | zero => rfl
  | succ fuel ih =>
    grind [evictCache]

theorem cache_evictChunks (size budget fuel : ℕ) (l : L1) :
    (evictChunks size budget fuel l).cache = l.cache := by
  induction fuel generalizing l with
  | zero => rfl
  | succ fuel ih =>
    grind [evictChunks]

theorem Within.evictCache (h : l.Within capacity) (size : ℕ) {fuel : ℕ}
    (hfuel : l.cache.length ≤ fuel) :
    (evictCache size capacity fuel l).Within capacity ∧
      ((evictCache size capacity fuel l).currentSize.toNat + size ≤ capacity ∨
        (evictCache size capacity fuel l).cache = []) := by
  induction fuel generalizing l with
  | zero => exact ⟨h, .inr (List.length_eq_zero_iff.mp (Nat.le_zero.mp hfuel))⟩
  | succ fuel ih =>
    unfold L1.evictCache
    by_cases hfull : capacity < l.currentSize.toNat + size
    · rw [if_pos hfull]
      split
      next hnone => exact ⟨h, .inr (List.getLast?_eq_none_iff.mp hnone)⟩
      next e he =>
        have hw := Lru.weight_dropLast (fun e : CacheEntry => e.data.length) he
        refine ih (h.shrinkCache h.cache.dropLast hw) ?_
        rw [List.length_dropLast]
        omega
    · rw [if_neg hfull]
      exact ⟨h, .inl (Nat.not_lt.mp hfull)⟩

theorem Within.evictChunks (h : l.Within capacity) (size : ℕ) {fuel : ℕ}
    (hfuel : l.chunksCache.length ≤ fuel) :
    (evictChunks size capacity fuel l).Within capacity ∧
      ((evictChunks size capacity fuel l).currentSize.toNat + size ≤ capacity ∨
        (evictChunks size capacity fuel l).chunksCache = []) := by
  induction fuel generalizing l with
  | zero => exact ⟨h, .inr (List.length_eq_zero_iff.mp (Nat.le_zero.mp hfuel))⟩
  | succ fuel ih =>
    unfold L1.evictChunks
    by_cases hfull : capacity < l.currentSize.toNat + size
    · rw [if_pos hfull]
      split
      next hnone => exact ⟨h, .inr (List.getLast?_eq_none_iff.mp hnone)⟩
      next e he =>
        refine ih (h.shrinkChunks h.chunks.dropLast (Lru.weight_dropLast _ he)) ?_
        rw [List.length_dropLast]
        omega
    · rw [if_neg hfull]
      exact ⟨h, .inl (Nat.not_lt.mp hfull)⟩

/-! ## 挿入 -/

theorem Within.putCache (h : l.Within capacity) (hcap : 2 * capacity < 2 ^ 64) (key : String)
    (e : CacheEntry) (hroom : l.currentSize.toNat + e.data.length ≤ capacity ∨
      l.cache = [] ∧ l.chunksBytes + e.data.length ≤ capacity) :
    Within capacity { l with
      cache := Lru.put maxCacheEntries key e l.cache
      currentSize := l.currentSize - (match Lru.peek key l.cache with
        | some old => UInt64.ofNat old.data.length
        | none => 0) + UInt64.ofNat e.data.length } := by
  refine ⟨h.cache.put _ key e, h.chunks, ?_⟩
  have hput := h.balanced.put (fun e : CacheEntry => e.data.length) h.cache hcap key e hroom
  cases hp : Lru.peek key l.cache with
  | none =>
    rw [hp] at hput
    exact hput
  | some old =>
    rw [hp] at hput
    exact hput

theorem Within.putChunks (h : l.Within capacity) (hcap : 2 * capacity < 2 ^ 64) (key : String)
    (e : ChunksCacheEntry) (hroom : l.currentSize.toNat + e.totalSize ≤ capacity ∨
      l.chunksCache = [] ∧ l.cacheBytes + e.totalSize ≤ capacity) :
    Within capacity { l with
      chunksCache := Lru.put maxCacheEntries key e l.chunksCache
      currentSize := l.currentSize - (match Lru.peek key l.chunksCache with
        | some old => UInt64.ofNat old.totalSize
        | none => 0) + UInt64.ofNat e.totalSize } := by
  refine ⟨h.cache, h.chunks.put _ key e, ?_⟩
  have hswap : Balanced capacity (l.chunksBytes + l.cacheBytes) l.currentSize := by
    rw [Nat.add_comm]
    exact h.balanced
  have hput := hswap.put (fun e : ChunksCacheEntry => e.totalSize) h.chunks hcap key e hroom
  rw [Nat.add_comm] at hput
  cases hp : Lru.peek key l.chunksCache with
  | none =>
    rw [hp] at hput
    exact hput
  | some old =>
    rw [hp] at hput
    exact hput

theorem Within.insertCache (h : l.Within capacity) (hcap : 2 * capacity < 2 ^ 64) (key : String)
    (e : CacheEntry) (hspare : l.chunksBytes + e.data.length ≤ capacity) :
    (l.insertCache key e capacity).Within capacity := by
  obtain ⟨hevict, hroom⟩ := h.evictCache e.data.length (Nat.le_refl l.cache.length)
  refine hevict.putCache hcap key e (hroom.imp id fun hnil => ⟨hnil, ?_⟩)
  unfold chunksBytes at hspare ⊢
  rw [chunksCache_evictCache]
  exact hspare

theorem Within.insertChunks (h : l.Within capacity) (hcap : 2 * capacity < 2 ^ 64) (key : String)
    (e : ChunksCacheEntry) (hspare : l.cacheBytes + e.totalSize ≤ capacity) :
    (l.insertChunks key e (some capacity)).Within capacity := by
  obtain ⟨hevict, hroom⟩ := h.evictChunks e.totalSize (Nat.le_refl l.chunksCache.length)
  refine hevict.putChunks hcap key e (hroom.imp id fun hnil => ⟨hnil, ?_⟩)
  unfold cacheBytes at hspare ⊢
  rw [cache_evictChunks]
  exact hspare

theorem Within.apply (h : l.Within capacity) (hcap : 2 * capacity < 2 ^ 64) (c : L1Cmd)
    (hspare : l.Spares capacity c) : (l.apply capacity c).1.Within capacity := by
  cases c with
  | getCache key => exact h.touchCache key
  | getCacheMany keys => exact h.getCacheMany keys
  | getChunks key => exact h.touchChunks key
  | popCache key => exact h.popCache key
  | popChunks key => exact h.popChunks key
  | insertCache key e => exact h.insertCache hcap key e hspare
  | insertChunks key e budget =>
    obtain ⟨rfl, hspare⟩ := hspare
    exact h.insertChunks hcap key e hspare
  | evictToFree need => exact h.evictToFree need _ 0

theorem le_weight_put {υ : Type} (f : υ → ℕ) (cap : ℕ) (key : String) (v : υ)
    (entries : List (String × υ)) : f v ≤ Lru.weight f (Lru.put cap key v entries) := by
  unfold Lru.put
  split <;> exact Nat.le_add_right _ _

theorem le_total_insertCache (l : L1) (key : String) (e : CacheEntry) (capacity : ℕ) :
    l.chunksBytes + e.data.length ≤ (l.insertCache key e capacity).total := by
  have hput := le_weight_put (fun e : CacheEntry => e.data.length) maxCacheEntries key e
    (L1.evictCache e.data.length capacity l.cache.length l).cache
  have hchunks := chunksCache_evictCache e.data.length capacity l.cache.length l
  simp only [total, L1.insertCache, chunksBytes, hchunks]
  omega

theorem le_total_insertChunks (l : L1) (key : String) (e : ChunksCacheEntry) (budget : ℕ) :
    l.cacheBytes + e.totalSize ≤ (l.insertChunks key e (some budget)).total := by
  have hput := le_weight_put (fun e : ChunksCacheEntry => e.totalSize) maxCacheEntries key e
    (L1.evictChunks e.totalSize budget l.chunksCache.length l).chunksCache
  have hcache := cache_evictChunks e.totalSize budget l.chunksCache.length l
  simp only [total, L1.insertChunks, cacheBytes, hcache]
  omega

end L1

variable {ν : Type} [DecidableEq ν] {E : Env ν}

inductive MemoryCall where
  | get (key : ObjectKey)
  | getChunks (key : ObjectKey)
  | getBatch (keys : List ObjectKey)
  | put (key : ObjectKey) (data : Bytes) (m : BlockMeta)
  | putChunks (key : ObjectKey) (segments : List Bytes) (m : BlockMeta)
  | putBatch (items : List (ObjectKey × Bytes × BlockMeta))

def MemoryCall.prog (E : Env ν) (n : ν) : MemoryCall → Io ν Unit
  | .get key => do
    let _ ← (Memory.get E n key).run
    pure ()
  | .getChunks key => do
    let _ ← (Memory.getChunks E n key).run
    pure ()
  | .getBatch keys => do
    let _ ← Memory.getBatch E n keys
    pure ()
  | .put key data m => do
    let _ ← (Memory.put E n key data m).run
    pure ()
  | .putChunks key segments m => do
    let _ ← (Memory.putChunks E n key segments m).run
    pure ()
  | .putBatch items => do
    let _ ← Memory.putBatch E n items
    pure ()

abbrev MemoryState (ν : Type) := Config (World ν) (ν × MemoryCall) (Cmd ν) Cmd.Resp Unit Effect

def MemoryReach (E : Env ν) (P : MemoryState ν → Act (ν × MemoryCall) Choice (EnvStep ν) → Prop)
    (c : MemoryState ν) : Prop :=
  ∃ clock, (cluster E).Reach (fun nc => nc.2.prog E nc.1) (World.init clock) P c

def Spared {L α O X ε : Type} (E : Env ν) (c : Config (World ν) L (Cmd ν) Cmd.Resp α O) :
    Act L X ε → Prop
  | .run i _ => ∀ th n cmd k, c.threads[i]? = some th → th.prog = .cmd (.l1 n cmd) k →
      (c.world.l1 n).Spares (E.cfg n).capacityBytes cmd
  | _ => True

theorem Reach.l1_within {L α : Type} {prog : L → Io ν α} {clock : Int}
    {c : Config (World ν) L (Cmd ν) Cmd.Resp α Effect}
    (hcap : ∀ n, 2 * (E.cfg n).capacityBytes < 2 ^ 64)
    (h : (cluster E).Reach prog (World.init clock) (Spared E) c) :
    ∀ n, (c.world.l1 n).Within (E.cfg n).capacityBytes := by
  refine Machine.Reach.induct (I := fun c => ∀ n, (c.world.l1 n).Within (E.cfg n).capacityBytes)
    ?_ ?_ ?_ ?_ ?_ h
  · exact fun n => .empty _
  · exact fun _ _ _ _ ih => ih
  · intro c i x th m k w' r _ hspare ih hth hp hexec n
    show (w'.l1 n).Within (E.cfg n).capacityBytes
    rcases exec_l1_cases hexec with heq | ⟨n', cmd, rfl, heq⟩
    · rw [heq]
      exact ih n
    · rw [heq]
      by_cases hn : n = n'
      · subst hn
        rw [Function.update_self]
        exact (ih n).apply (hcap n) cmd (hspare th n cmd k hth hp)
      · rw [Function.update_of_ne hn]
        exact ih n
  · exact fun _ _ _ _ _ _ ih _ _ _ => ih
  · intro c e _ _ ih n
    cases e <;> exact ih n

/-- **byte 数の上限は、もう一方の cache と合わせて収まる要素だけを入れる限り守られる。** -/
theorem memory_budget_kept (hcap : ∀ n, 2 * (E.cfg n).capacityBytes < 2 ^ 64) :
    (∀ c : MemoryState ν, MemoryReach E (Spared E) c → ∀ n,
      (c.world.l1 n).total ≤ (E.cfg n).capacityBytes) ∧
    (∀ (l : L1) key e capacity, capacity < l.chunksBytes + e.data.length →
      capacity < (l.insertCache key e capacity).total) ∧
    ∀ (l : L1) key e capacity, capacity < l.cacheBytes + e.totalSize →
      capacity < (l.insertChunks key e (some capacity)).total := by
  refine ⟨?_, fun l key e capacity h => ?_, fun l key e capacity h => ?_⟩
  · rintro c ⟨clock, h⟩ n
    exact (Reach.l1_within hcap h n).balanced.le
  · exact h.trans_le (l.le_total_insertCache key e capacity)
  · exact h.trans_le (l.le_total_insertChunks key e capacity)

instance (capacity : ℕ) (l : L1) : (c : L1Cmd) → Decidable (l.Spares capacity c)
  | .insertCache .. => inferInstanceAs (Decidable (_ ≤ _))
  | .insertChunks .. => inferInstanceAs (Decidable (_ ∧ _))
  | .getCache _ | .getCacheMany _ | .getChunks _ | .popCache _ | .popChunks _ | .evictToFree _ =>
    inferInstanceAs (Decidable True)

def allSpare (E : Env ν) (c : MemoryState ν) : Bool :=
  c.threads.all fun th => match th.prog with
    | .cmd (.l1 n cmd) _ => decide ((c.world.l1 n).Spares (E.cfg n).capacityBytes cmd)
    | _ => true

omit [DecidableEq ν] in
theorem spared_of_allSpare {c : MemoryState ν} (h : allSpare E c = true)
    (a : Act (ν × MemoryCall) Choice (EnvStep ν)) : Spared E c a := by
  cases a with
  | run i x =>
    intro th n cmd k hth hp
    have hspare := List.all_eq_true.mp h th (List.mem_of_getElem? hth)
    rw [hp] at hspare
    exact of_decide_eq_true hspare
  | _ => trivial

def sparingPuts : List (Machine.Line (Fin 2 × MemoryCall) Choice (EnvStep (Fin 2))) :=
  [.act (.spawn (nodeA, .put ⟨"", "x"⟩ [1, 2] fillMeta)), .solo 0 40, .act (.finish 0),
   .act (.spawn (nodeA, .putChunks ⟨"", "y"⟩ [[3]] fillMeta)), .solo 1 40, .act (.finish 1)]

theorem memory_budget_kept_small : ∃ c : MemoryState (Fin 2),
    MemoryReach samplePlain (Spared samplePlain) c ∧ (c.world.l1 nodeA).total = 3 ∧
    (c.world.l1 nodeA).total ≤ (samplePlain.cfg nodeA).capacityBytes := by
  have hplay : (((cluster samplePlain).play (fun nc => MemoryCall.prog samplePlain nc.1 nc.2)
      (fun c _ => allSpare samplePlain c) Cmd.default sparingPuts
      (Machine.start (World.init 0))).any
      fun c => (c.world.l1 nodeA).total = 3) = true := by decide +kernel
  obtain ⟨c, hc, htotal⟩ := (Option.any_eq_true _ _).mp hplay
  have hreach : MemoryReach samplePlain (Spared samplePlain) c :=
    ⟨0, (Machine.Reach.play .start hc).mono fun c a h => spared_of_allSpare h a⟩
  refine ⟨c, hreach, of_decide_eq_true htotal, ?_⟩
  exact (memory_budget_kept (by decide)).1 c hreach nodeA

theorem putWhole_run (n : ν) (key : ObjectKey) (data : Bytes) (m : BlockMeta) (w : World ν) :
    ∃ w', (Storage.putWhole E n key data m false).run.run (fun c w => exec E c c.default w) w =
      some (w', .ok true) ∧ w'.l1 = w.l1 ∧ w'.held = w.held :=
  ⟨_, rfl, rfl, rfl⟩

variable {data : Bytes} {w : World ν} {n : ν}

theorem storagePut_run {key : ObjectKey} (m : BlockMeta)
    (hsplit : Storage.shouldStripe E n data.length = false)
    (hfree : w.held n .storage key.toStringKey = false) :
    ∃ w', (Storage.put E n key data m).run.run (fun c w => exec E c c.default w) w =
      some (w', .ok ()) ∧ w'.l1 = w.l1 ∧ w'.held = w.held := by
  obtain ⟨w₁, hrun, hl1, hheld⟩ := putWhole_run (E := E) n key data m
    { w with held := setLock w.held n .storage key.toStringKey true }
  have hput : (Storage.put E n key data m).run = .cmd (.invoke key data) fun _ =>
      .cmd (.lock n .storage key.toStringKey) fun _ =>
        (if Storage.shouldStripe E n data.length = true then Storage.putStriped E n key data m
          else do
            let _ ← Storage.putWhole E n key data m false
            pure ()).run >>= fun r => .cmd (.unlock n .storage key.toStringKey) fun _ => .ret r :=
    rfl
  have hinvoke : exec E (.invoke key data) (.invoke key data : Cmd ν).default w = some (w, ()) :=
    rfl
  have hlock : exec E (.lock n .storage key.toStringKey)
      (Cmd.default (.lock n .storage key.toStringKey)) w =
      some ({ w with held := setLock w.held n .storage key.toStringKey true }, ()) := by
    simp [exec, hfree, Cmd.default]
  have hbody : (do
      let _ ← Storage.putWhole E n key data m false
      pure () : Res ν Unit).run.run (fun c w => exec E c c.default w)
      { w with held := setLock w.held n .storage key.toStringKey true } = some (w₁, .ok ()) :=
    Prog.run_bind_of_run hrun _
  rw [hput, hsplit, if_neg Bool.false_ne_true]
  refine ⟨{ w₁ with held := setLock w₁.held n .storage key.toStringKey false }, ?_, hl1, ?_⟩
  · simp only [Prog.run, hlock, hinvoke]
    exact Prog.run_bind_of_run hbody _
  · rw [hheld]
    exact setLock_setLock hfree

theorem afterPut_run {key : ObjectKey} (m : BlockMeta)
    (hsplit : Storage.shouldStripe E n data.length = false)
    (hfree : w.held n .storage key.toStringKey = false)
    (insert : BlockMeta → Io ν Unit) {l : BlockMeta → L1}
    (hinsert : ∀ stored (w' : World ν), w'.l1 = w.l1 →
      (insert stored).run (fun c w => exec E c c.default w) w' =
        some ({ w' with l1 := Function.update w'.l1 n (l stored) }, ())) :
    ∃ w' stored, (do
        Storage.put E n key data m
        let stored ← Memory.storedMeta key m
        ExceptT.lift (insert stored) : Res ν Unit).run.run (fun c w => exec E c c.default w) w =
      some (w', .ok ()) ∧ w'.l1 n = l stored ∧ w'.held = w.held := by
  obtain ⟨w₁, hput, hl1, hheld⟩ := storagePut_run (E := E) m hsplit hfree
  obtain ⟨stored, hstored⟩ : ∃ stored, (Memory.storedMeta key m).run.run
      (fun c w => exec E c c.default w) w₁ = some (w₁, .ok stored) := ⟨_, rfl⟩
  refine ⟨{ w₁ with l1 := Function.update w₁.l1 n (l stored) }, stored, ?_, ?_, hheld⟩
  · refine (Prog.run_bind_of_run hput _).trans ((Prog.run_bind_of_run hstored _).trans ?_)
    exact Prog.run_bind_of_run (hinsert stored w₁ hl1) _
  · exact Function.update_self ..

def L1.single (key : String) (e : CacheEntry) : L1 := ⟨[(key, e)], [], UInt64.ofNat e.data.length⟩

@[simp] theorem L1.insertCache_empty (key : String) (e : CacheEntry) (capacity : ℕ) :
    ((((L1.empty.popCache key).popChunks key).popCache key).popChunks key).insertCache key e
      capacity = L1.single key e := by
  simp [L1.popCache, L1.popChunks, L1.insertCache, L1.empty, L1.evictCache, Lru.put, Lru.peek,
    L1.single, maxCacheEntries]

theorem L1.single_pop {key key' : String} (e : CacheEntry) (h : key ≠ key') :
    ((L1.single key e).popCache key').popChunks key' = L1.single key e := by
  simp [L1.popCache, L1.popChunks, Lru.peek, L1.single, h]

theorem memoryPut_run (key : ObjectKey) (m : BlockMeta)
    (hsplit : Storage.shouldStripe E n data.length = false)
    (hfree : w.held n .storage key.toStringKey = false)
    (hsize : data.length ≤ (E.cfg n).capacityBytes) (hempty : w.l1 n = .empty) :
    ∃ w' stored, (Memory.put E n key data m).run.run (fun c w => exec E c c.default w) w =
      some (w', .ok ()) ∧ w'.l1 n = .single key.toStringKey ⟨data, stored⟩ ∧ w'.held = w.held := by
  refine afterPut_run m hsplit hfree (fun stored => do
    Memory.invalidate n key.toStringKey
    Memory.cacheInsert E n key.toStringKey data stored) fun stored w' hl1 => ?_
  simp only [Memory.cacheInsert, if_neg (Nat.not_lt.mpr hsize)]
  simp [Memory.invalidate, l1, Prog.issue, Prog.run, exec, Cmd.default, L1.apply, hl1, hempty,
    L1.insertCache_empty]

theorem memoryPutChunks_run (key : ObjectKey) {key₀ : String} {e : CacheEntry}
    (segments : List Bytes) (m : BlockMeta)
    (hslab : (E.cfg n).slabCapacity = none)
    (hsplit : Storage.shouldStripe E n (segments.map List.length).sum = false)
    (hfree : w.held n .storage key.toStringKey = false)
    (hsize : (segments.map List.length).sum ≤ (E.cfg n).capacityBytes)
    (hl : w.l1 n = .single key₀ e) (hne : key₀ ≠ key.toStringKey) :
    ∃ w' stored, (Memory.putChunks E n key segments m).run.run (fun c w => exec E c c.default w) w =
      some (w', .ok ()) ∧ w'.l1 n = (L1.single key₀ e).insertChunks key.toStringKey
        ⟨segments, stored, (segments.map List.length).sum, false⟩
        (some (E.cfg n).capacityBytes) := by
  have hput : Storage.putChunks E n key segments m = Storage.put E n key segments.flatten m := by
    unfold Storage.putChunks
    simp [hsplit]
  have hlen : Storage.shouldStripe E n segments.flatten.length = false := by
    rw [List.length_flatten]
    exact hsplit
  unfold Memory.putChunks
  rw [hput]
  have hinsert : ∀ stored (w' : World ν), w'.l1 = w.l1 → (do
      Memory.invalidate n key.toStringKey
      Memory.chunksCacheInsert E n key.toStringKey segments stored
        (segments.map List.length).sum).run (fun c w => exec E c c.default w) w' =
      some ({ w' with
        l1 := Function.update w'.l1 n ((L1.single key₀ e).insertChunks key.toStringKey
          ⟨segments, stored, (segments.map List.length).sum, false⟩
          (some (E.cfg n).capacityBytes)) }, ()) := by
    intro stored w' hl1
    simp only [Memory.chunksCacheInsert, if_neg (Nat.not_lt.mpr hsize), Memory.maybeSlabBacked,
      hslab]
    simp [Memory.invalidate, l1, Prog.issue, Prog.run, exec, Cmd.default, L1.apply, hl1, hl,
      L1.single_pop e hne]
  obtain ⟨w', stored, hrun, hl', -⟩ := afterPut_run m hlen hfree _ hinsert
  exact ⟨w', stored, hrun, hl'⟩

def budgetEnv : Env (Fin 2) :=
  { samplePlain with
    cfg := fun i => { sampleConfig i false [] with stripingThreshold := 0, slabCapacity := none } }

theorem budgetEnv_split (n : Fin 2) (len : ℕ) : Storage.shouldStripe budgetEnv n len = false := rfl

theorem budgetEnv_capacity (n : Fin 2) : (budgetEnv.cfg n).capacityBytes = 1048576 := by
  simp [budgetEnv, sampleConfig, NodeConfig.capacityBytes]

theorem reach_exceeded {capacity : ℕ}
    (hcapacity : (budgetEnv.cfg nodeA).capacityBytes = capacity) (hpos : 0 < capacity)
    (hdata : data.length = capacity) :
    ∃ c : MemoryState (Fin 2), MemoryReach budgetEnv (fun _ _ => True) c ∧
      c.threads.map (·.label) = [(nodeA, .put ⟨"", "x"⟩ data fillMeta),
        (nodeA, .putChunks ⟨"", "y"⟩ [[1]] fillMeta)] ∧
      (∀ th ∈ c.threads, th.finished = true) ∧ capacity < (c.world.l1 nodeA).total := by
  obtain ⟨w₁, m₁, hput, hl₁, hheld⟩ := memoryPut_run (E := budgetEnv) (n := nodeA) ⟨"", "x"⟩
    fillMeta (w := World.init 0) (budgetEnv_split _ data.length) rfl
    (hdata.trans hcapacity.symm).le rfl
  obtain ⟨w₂, m₂, hchunks, hl₂⟩ := memoryPutChunks_run (E := budgetEnv) (n := nodeA) ⟨"", "y"⟩
    [[1]] fillMeta rfl (budgetEnv_split _ _) (by rw [hheld]; rfl)
    (by rw [hcapacity]; exact hpos) hl₁ (by decide)
  have hstart : (cluster budgetEnv).Reach
      (fun nc : Fin 2 × MemoryCall => nc.2.prog budgetEnv nc.1) (World.init 0) (fun _ _ => True)
      (Machine.start (World.init 0)) := .start
  have hrun₁ : (MemoryCall.prog budgetEnv nodeA (.put ⟨"", "x"⟩ data fillMeta)).run
      (fun c w => exec budgetEnv c c.default w) (World.init 0) = some (w₁, ()) :=
    Prog.run_bind_of_run hput _
  have hrun₂ : (MemoryCall.prog budgetEnv nodeA (.putChunks ⟨"", "y"⟩ [[1]] fillMeta)).run
      (fun c w => exec budgetEnv c c.default w) w₁ = some (w₂, ()) :=
    Prog.run_bind_of_run hchunks _
  obtain ⟨t₁, log₁, h₁⟩ := hstart.alone (fun _ _ => trivial) (nodeA, .put ⟨"", "x"⟩ data fillMeta)
    hrun₁
  obtain ⟨t₂, log₂, h₂⟩ := h₁.alone (fun _ _ => trivial)
    (nodeA, .putChunks ⟨"", "y"⟩ [[1]] fillMeta) hrun₂
  refine ⟨_, ⟨0, h₂⟩, rfl, by simp [Machine.start], ?_⟩
  have hle := (L1.single (ObjectKey.toStringKey ⟨"", "x"⟩) ⟨data, m₁⟩).le_total_insertChunks
    (ObjectKey.toStringKey ⟨"", "y"⟩) ⟨[[1]], m₂, 1, false⟩ capacity
  have hbytes : (L1.single (ObjectKey.toStringKey ⟨"", "x"⟩) ⟨data, m₁⟩).cacheBytes =
      capacity := hdata
  grind

/-- **上限は破れる。** -/
theorem memory_budget_exceeded : ∃ c : MemoryState (Fin 2),
    MemoryReach budgetEnv (fun _ _ => True) c ∧
    c.threads.map (·.label) = [(nodeA, .put ⟨"", "x"⟩ (List.replicate 1048576 0) fillMeta),
      (nodeA, .putChunks ⟨"", "y"⟩ [[1]] fillMeta)] ∧
    (∀ th ∈ c.threads, th.finished = true) ∧
    (budgetEnv.cfg nodeA).capacityBytes < (c.world.l1 nodeA).total := by
  have hcapacity := budgetEnv_capacity nodeA
  obtain ⟨c, hc, hlabels, hfin, hlt⟩ := reach_exceeded hcapacity (by omega) List.length_replicate
  refine ⟨c, hc, hlabels, hfin, ?_⟩
  rw [hcapacity]
  exact hlt

end ContextStore
