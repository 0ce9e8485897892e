import ContextStore.Cluster.Run

/-!
# memory tier の大きさ counter
-/

namespace ContextStore

open Conc

/-! ## 1 回の lock -/

theorem ofNat_sub_add {t old new t' : Nat} (h : t' + old = t + new) :
    UInt64.ofNat t - UInt64.ofNat old + UInt64.ofNat new = UInt64.ofNat t' := by
  have hsum : UInt64.ofNat t' + UInt64.ofNat old = UInt64.ofNat t + UInt64.ofNat new := by
    rw [← UInt64.ofNat_add, ← UInt64.ofNat_add, h]
  grind

theorem ofNat_sub_of_add {a b c : Nat} (h : a + b = c) :
    UInt64.ofNat c - UInt64.ofNat a = UInt64.ofNat b := by
  rw [← h, Nat.add_comm, UInt64.ofNat_add, UInt64.add_sub_cancel]

namespace L1

def total (l : L1) : Nat :=
  Lru.weight (fun e => e.data.length) l.cache + Lru.weight (fun e => e.totalSize) l.chunksCache

structure Exact (l : L1) : Prop where
  cache : Lru.Distinct l.cache
  chunks : Lru.Distinct l.chunksCache
  cacheLe : l.cache.length ≤ maxCacheEntries
  chunksLe : l.chunksCache.length ≤ maxCacheEntries
  size : l.currentSize = UInt64.ofNat l.total

def Roomy (l : L1) : L1Cmd → Prop
  | .insertCache key _ => Lru.peek key l.cache ≠ none ∨ l.cache.length < maxCacheEntries
  | .insertChunks key _ _ =>
    Lru.peek key l.chunksCache ≠ none ∨ l.chunksCache.length < maxCacheEntries
  | _ => True

theorem Exact.empty : L1.empty.Exact :=
  ⟨.nil, .nil, Nat.zero_le _, Nat.zero_le _, rfl⟩

variable {l : L1}

theorem Exact.shrinkCache (h : l.Exact) {cache : List (String × CacheEntry)} {n : Nat}
    (hd : Lru.Distinct cache) (hle : cache.length ≤ l.cache.length)
    (hn : n + Lru.weight (fun e => e.data.length) cache =
      Lru.weight (fun e => e.data.length) l.cache) :
    Exact { l with cache := cache, currentSize := l.currentSize - UInt64.ofNat n } := by
  refine ⟨hd, h.chunks, hle.trans h.cacheLe, h.chunksLe, ?_⟩
  rw [h.size]
  apply ofNat_sub_of_add
  simp only [total]
  omega

theorem Exact.shrinkChunks (h : l.Exact) {chunks : List (String × ChunksCacheEntry)} {n : Nat}
    (hd : Lru.Distinct chunks) (hle : chunks.length ≤ l.chunksCache.length)
    (hn : n + Lru.weight (fun e => e.totalSize) chunks =
      Lru.weight (fun e => e.totalSize) l.chunksCache) :
    Exact { l with chunksCache := chunks, currentSize := l.currentSize - UInt64.ofNat n } := by
  refine ⟨h.cache, hd, h.cacheLe, hle.trans h.chunksLe, ?_⟩
  rw [h.size]
  apply ofNat_sub_of_add
  simp only [total]
  omega

theorem Exact.touchCache (h : l.Exact) (key : String) :
    Exact { l with cache := Lru.touch key l.cache } := by
  refine ⟨h.cache.touch key, h.chunks, ?_, h.chunksLe, ?_⟩
  · rw [Lru.length_touch key h.cache]
    exact h.cacheLe
  · simpa only [total, Lru.weight_touch _ key h.cache] using h.size

theorem Exact.getCacheMany (h : l.Exact) (keys : List String) : (l.getCacheMany keys).1.Exact := by
  unfold L1.getCacheMany
  suffices hfold : ∀ acc : L1 × List (Option CacheEntry), acc.1.Exact →
      (keys.foldl (fun acc key =>
        ((acc.1.getCache key).1, acc.2 ++ [(acc.1.getCache key).2])) acc).1.Exact from
    hfold (l, []) h
  induction keys with
  | nil => exact fun _ h => h
  | cons key keys ih => exact fun acc h => ih _ (h.touchCache key)

theorem Exact.getChunks (h : l.Exact) (key : String) : (l.getChunks key).1.Exact := by
  refine ⟨h.cache, h.chunks.touch key, h.cacheLe, ?_, ?_⟩
  · simp_all [L1.getChunks, Lru.length_touch, chunks, chunksLe]
  · simpa only [L1.getChunks, total, Lru.weight_touch _ key h.chunks] using h.size

theorem Exact.popCache (h : l.Exact) (key : String) : (l.popCache key).Exact := by
  unfold L1.popCache
  split
  · exact h
  next e he =>
    have hlen := Lru.length_erase_lt h.cache he
    have hw := Lru.weight_erase (fun e : CacheEntry => e.data.length) h.cache he
    exact h.shrinkCache (h.cache.erase key) (by omega) hw

theorem Exact.popChunks (h : l.Exact) (key : String) : (l.popChunks key).Exact := by
  unfold L1.popChunks
  split
  · exact h
  next e he =>
    have hlen := Lru.length_erase_lt h.chunks he
    have hw := Lru.weight_erase (fun e : ChunksCacheEntry => e.totalSize) h.chunks he
    exact h.shrinkChunks (h.chunks.erase key) (by omega) hw

/-! ## 追い出し -/

theorem Exact.evictCache (size capacity fuel : Nat) (h : l.Exact) :
    (evictCache size capacity fuel l).Exact ∧
      (evictCache size capacity fuel l).cache <+: l.cache := by
  induction fuel generalizing l with
  | zero => exact ⟨h, List.prefix_refl _⟩
  | succ fuel ih =>
    unfold L1.evictCache
    by_cases hfull : capacity < l.currentSize.toNat + size
    · rw [if_pos hfull]
      split
      · exact ⟨h, List.prefix_refl _⟩
      next e he =>
        have hdrop := h.shrinkCache h.cache.dropLast (List.dropLast_sublist _).length_le
          (Lru.weight_dropLast _ he)
        exact ⟨(ih hdrop).1, (ih hdrop).2.trans (List.dropLast_prefix _)⟩
    · rw [if_neg hfull]
      exact ⟨h, List.prefix_refl _⟩

theorem Exact.dropChunks (h : l.Exact) {e : String × ChunksCacheEntry}
    (he : l.chunksCache.getLast? = some e) :
    Exact { l with
      chunksCache := l.chunksCache.dropLast
      currentSize := l.currentSize - UInt64.ofNat e.2.totalSize } :=
  h.shrinkChunks h.chunks.dropLast (List.dropLast_sublist _).length_le (Lru.weight_dropLast _ he)

theorem Exact.evictChunks (size budget fuel : Nat) (h : l.Exact) :
    (evictChunks size budget fuel l).Exact ∧
      (evictChunks size budget fuel l).chunksCache <+: l.chunksCache := by
  induction fuel generalizing l with
  | zero => exact ⟨h, List.prefix_refl _⟩
  | succ fuel ih =>
    unfold L1.evictChunks
    by_cases hfull : budget < l.currentSize.toNat + size
    · rw [if_pos hfull]
      split
      · exact ⟨h, List.prefix_refl _⟩
      next e he =>
        have hrest := ih (h.dropChunks he)
        exact ⟨hrest.1, hrest.2.trans (List.dropLast_prefix _)⟩
    · rw [if_neg hfull]
      exact ⟨h, List.prefix_refl _⟩

theorem Exact.evictToFree (need fuel freed : Nat) (h : l.Exact) :
    (evictToFree need fuel freed l).Exact := by
  induction fuel generalizing l freed with
  | zero => exact h
  | succ fuel ih =>
    grind [L1.evictToFree, dropChunks]

/-! ## 挿入 -/

theorem Exact.putCache (h : l.Exact) (key : String) (e : CacheEntry)
    (hroom : Lru.peek key l.cache = none → l.cache.length < maxCacheEntries) :
    Exact { l with
      cache := Lru.put maxCacheEntries key e l.cache
      currentSize := l.currentSize - (match Lru.peek key l.cache with
        | some old => UInt64.ofNat old.data.length
        | none => 0) + UInt64.ofNat e.data.length } := by
  refine ⟨h.cache.put _ key e, h.chunks, Lru.length_put_le e h.cache h.cacheLe hroom,
    h.chunksLe, ?_⟩
  have hw := Lru.weight_put (fun e : CacheEntry => e.data.length) e h.cache hroom
  dsimp only
  rw [h.size]
  split
  next old hold =>
    rw [hold, Option.map_some, Option.getD_some] at hw
    apply ofNat_sub_add
    simp only [total]
    omega
  next hnone =>
    rw [hnone, Option.map_none, Option.getD_none] at hw
    refine @ofNat_sub_add _ 0 _ _ ?_
    simp only [total]
    omega

theorem Exact.putChunks (h : l.Exact) (key : String) (e : ChunksCacheEntry)
    (hroom : Lru.peek key l.chunksCache = none → l.chunksCache.length < maxCacheEntries) :
    Exact { l with
      chunksCache := Lru.put maxCacheEntries key e l.chunksCache
      currentSize := l.currentSize - (match Lru.peek key l.chunksCache with
        | some old => UInt64.ofNat old.totalSize
        | none => 0) + UInt64.ofNat e.totalSize } := by
  refine ⟨h.cache, h.chunks.put _ key e, h.cacheLe,
    Lru.length_put_le e h.chunks h.chunksLe hroom, ?_⟩
  have hw := Lru.weight_put (fun e : ChunksCacheEntry => e.totalSize) e h.chunks hroom
  dsimp only
  rw [h.size]
  split
  next old hold =>
    rw [hold, Option.map_some, Option.getD_some] at hw
    apply ofNat_sub_add
    simp only [total]
    omega
  next hnone =>
    rw [hnone, Option.map_none, Option.getD_none] at hw
    refine @ofNat_sub_add _ 0 _ _ ?_
    simp only [total]
    omega

theorem Exact.insertCache (h : l.Exact) (key : String) (e : CacheEntry) (capacity : Nat)
    (hroom : Lru.peek key l.cache ≠ none ∨ l.cache.length < maxCacheEntries) :
    (l.insertCache key e capacity).Exact := by
  obtain ⟨hevict, hp⟩ := h.evictCache e.data.length capacity l.cache.length
  exact hevict.putCache key e (Lru.room_of_prefix hp h.cacheLe hroom)

theorem Exact.insertChunks (h : l.Exact) (key : String) (e : ChunksCacheEntry)
    (budget : Option Nat)
    (hroom : Lru.peek key l.chunksCache ≠ none ∨ l.chunksCache.length < maxCacheEntries) :
    (l.insertChunks key e budget).Exact := by
  cases budget with
  | none =>
    exact h.putChunks key e (Lru.room_of_prefix (List.prefix_refl _) h.chunksLe hroom)
  | some b =>
    obtain ⟨hevict, hp⟩ := h.evictChunks e.totalSize b l.chunksCache.length
    exact hevict.putChunks key e (Lru.room_of_prefix hp h.chunksLe hroom)

theorem Exact.apply (h : l.Exact) (capacity : Nat) (c : L1Cmd) (hroom : l.Roomy c) :
    (l.apply capacity c).1.Exact := by
  cases c with
  | getCache key => exact h.touchCache key
  | getCacheMany keys => exact h.getCacheMany keys
  | getChunks key => exact h.getChunks key
  | popCache key => exact h.popCache key
  | popChunks key => exact h.popChunks key
  | insertCache key e => exact h.insertCache key e capacity hroom
  | insertChunks key e budget => exact h.insertChunks key e budget hroom
  | evictToFree need => exact h.evictToFree need _ 0

end L1

variable {ν : Type} [DecidableEq ν] {E : Env ν}

inductive TierCall where
  | cacheInsert (key : String) (data : Bytes) (m : BlockMeta)
  | chunksCacheInsert (key : String) (segments : List Bytes) (m : BlockMeta) (totalSize : Nat)
  | insertChunksFromSlab (key : String) (extent : Bytes) (m : BlockMeta)
  | invalidate (key : String)
  | evictChunksCacheToFree (need : Nat)
  | get (key : String)
  | getParallel (keys : List String)
  | getChunks (key : String)

def TierCall.prog (E : Env ν) (n : ν) : TierCall → Io ν Unit
  | .cacheInsert key data m => Memory.cacheInsert E n key data m
  | .chunksCacheInsert key segments m size => Memory.chunksCacheInsert E n key segments m size
  | .insertChunksFromSlab key extent m => Memory.insertChunksFromSlab E n key extent m
  | .invalidate key => Memory.invalidate n key
  | .evictChunksCacheToFree need => l1 n (.evictToFree need)
  | .get key => do
    let _ ← l1 n (.getCache key)
    pure ()
  | .getParallel keys => do
    let _ ← l1 n (.getCacheMany keys)
    pure ()
  | .getChunks key => do
    let _ ← l1 n (.getChunks key)
    pure ()

abbrev TierState (ν : Type) := Config (World ν) (ν × TierCall) (Cmd ν) Cmd.Resp Unit Effect

abbrev TierMove (ν : Type) := Act (ν × TierCall) Choice (EnvStep ν)

def TierReach (E : Env ν) (P : TierState ν → TierMove ν → Prop) (c : TierState ν) : Prop :=
  ∃ clock, (cluster E).Reach (fun nc => nc.2.prog E nc.1) (World.init clock) P c

def Roomy {L α O X ε : Type} (c : Config (World ν) L (Cmd ν) Cmd.Resp α O) : Act L X ε → Prop
  | .run i _ => ∀ th n cmd k, c.threads[i]? = some th → th.prog = .cmd (.l1 n cmd) k →
      (c.world.l1 n).Roomy cmd
  | _ => True

theorem exec_l1_cases {m : Cmd ν} {x : Choice} {r : m.Resp} {w w' : World ν}
    (h : exec E m x w = some (w', r)) : w'.l1 = w.l1 ∨ ∃ n c, m = .l1 n c ∧
      w'.l1 = Function.update w.l1 n ((w.l1 n).apply (E.cfg n).capacityBytes c).1 := by
  cases m with
  | l1 n c =>
    cases x with
    | ok => cases h; exact .inr ⟨n, c, rfl, rfl⟩
    | _ => cases h
  | lock n cls key =>
    cases x with
    | ok =>
      grind [exec]
    | _ => cases h
  | _ => cases x <;> cases h <;> exact .inl rfl

theorem Reach.l1_exact {L α : Type} {prog : L → Io ν α} {clock : Int}
    {c : Config (World ν) L (Cmd ν) Cmd.Resp α Effect}
    (h : (cluster E).Reach prog (World.init clock) Roomy c) : ∀ n, (c.world.l1 n).Exact := by
  refine Machine.Reach.induct (I := fun c => ∀ n, (c.world.l1 n).Exact) ?_ ?_ ?_ ?_ ?_ h
  · exact fun _ => .empty
  · exact fun _ _ _ _ ih => ih
  · intro c i x th m k w' r _ hroom ih hth hp hexec n
    show (w'.l1 n).Exact
    rcases exec_l1_cases hexec with heq | ⟨n', cmd, rfl, heq⟩
    · rw [heq]
      exact ih n
    · rw [heq]
      by_cases hn : n = n'
      · subst hn
        rw [Function.update_self]
        exact (ih n).apply _ cmd (hroom th n cmd k hth hp)
      · rw [Function.update_of_ne hn]
        exact ih n
  · exact fun _ _ _ _ _ _ ih _ _ _ => ih
  · intro c e _ _ ih n
    cases e <;> exact ih n

/-- **counter は正確である。** -/
theorem size_counter_exact {c : TierState ν} (h : TierReach E Roomy c) (n : ν) :
    (c.world.l1 n).currentSize = UInt64.ofNat (c.world.l1 n).total ∧
      ((c.world.l1 n).total < 2 ^ 64 →
        (c.world.l1 n).currentSize.toNat = (c.world.l1 n).total) := by
  obtain ⟨clock, h⟩ := h
  have hsize := (Reach.l1_exact h n).size
  simp_all

def hasRoom (c : TierState (Fin 2)) : Bool :=
  decide (∀ n, (c.world.l1 n).cache.length < maxCacheEntries ∧
    (c.world.l1 n).chunksCache.length < maxCacheEntries)

theorem roomy_of_hasRoom {c : TierState (Fin 2)} (h : hasRoom c = true) (a : TierMove (Fin 2)) :
    Roomy c a := by
  have hroom := of_decide_eq_true h
  cases a with
  | run i x =>
    intro th n cmd k _ _
    cases cmd with
    | insertCache key e => exact .inr (hroom n).1
    | insertChunks key e budget => exact .inr (hroom n).2
    | _ => trivial
  | _ => trivial

def fillMeta : BlockMeta := ⟨0, "", 1, "", 1, "", 1, 0, 0, 0, 0, 0, "", false, none⟩

def crossedInserts : List (Machine.Line (Fin 2 × TierCall) Choice (EnvStep (Fin 2))) :=
  [.act (.spawn (nodeA, .cacheInsert "k" [1] fillMeta)),
   .act (.spawn (nodeA, .chunksCacheInsert "k" [[1, 2], [3]] fillMeta 3)),
   .act (.run 0 .ok), .act (.run 1 .ok), .act (.run 0 .ok), .act (.run 1 .ok),
   .solo 1 2, .solo 0 1, .act (.finish 0), .act (.finish 1)]

theorem size_counter_exact_crossed : ∃ c : TierState (Fin 2), TierReach samplePlain Roomy c ∧
    (c.world.l1 0).total = 4 ∧
    ((c.world.l1 0).currentSize = UInt64.ofNat (c.world.l1 0).total ∧
      ((c.world.l1 0).total < 2 ^ 64 →
        (c.world.l1 0).currentSize.toNat = (c.world.l1 0).total)) := by
  have hplay : (((cluster samplePlain).play (fun nc => TierCall.prog samplePlain nc.1 nc.2)
      (fun c _ => hasRoom c) Cmd.default crossedInserts (Machine.start (World.init 0))).any
      fun c => (c.world.l1 0).total = 4) = true := by decide +kernel
  obtain ⟨c, hc, htotal⟩ := (Option.any_eq_true _ _).mp hplay
  have hreach : TierReach samplePlain Roomy c :=
    ⟨0, (Machine.Reach.play .start hc).mono fun c a h => roomy_of_hasRoom h a⟩
  exact ⟨c, hreach, of_decide_eq_true htotal, size_counter_exact hreach 0⟩

/-- `i` 番の鍵。 -/
def fillKey (i : Nat) : String := String.ofList (List.replicate i 'k')

theorem fillKey_injective {i j : Nat} (h : fillKey i = fillKey j) : i = j := by
  have hlen := congrArg (fun s => s.toList.length) h
  simpa [fillKey] using hlen

def fillEntry : CacheEntry := ⟨[0], fillMeta⟩

theorem fillEntry_length : fillEntry.data.length = 1 := rfl

def filled : Nat → List (String × CacheEntry)
  | 0 => []
  | i + 1 => (fillKey i, fillEntry) :: filled i

@[simp] theorem filled_length (i : Nat) : (filled i).length = i := by
  induction i with
  | zero => rfl
  | succ i ih => simp [filled, ih]

theorem filled_weight (i : Nat) : Lru.weight (fun e => e.data.length) (filled i) = i := by
  induction i with
  | zero => rfl
  | succ i ih =>
    rw [filled, Lru.weight_cons, ih, fillEntry_length, Nat.add_comm]

variable {i : Nat}

theorem filled_dropLast_weight (hi : 0 < i) :
    Lru.weight (fun e => e.data.length) (filled i).dropLast + 1 = i := by
  have hlast : (filled i).getLast? = some (fillKey 0, fillEntry) := by
    induction i with
    | zero => omega
    | succ i ih =>
      grind [filled, filled]
  have hw := Lru.weight_dropLast (fun e : CacheEntry => e.data.length) hlast
  grind [filled_weight, fillEntry_length]

theorem peek_filled {i j : Nat} (h : i ≤ j) : Lru.peek (fillKey j) (filled i) = none := by
  induction i with
  | zero => rfl
  | succ i ih =>
    have hne : fillKey i ≠ fillKey j := fun heq => by have := fillKey_injective heq; omega
    simpa [filled, Lru.peek, hne] using ih (by omega)

/-- `i` 件入れた L1。 -/
def filledL1 (i : Nat) : L1 := ⟨filled i, [], UInt64.ofNat i⟩

theorem filledL1_pop (i : Nat) :
    ((filledL1 i).popCache (fillKey i)).popChunks (fillKey i) = filledL1 i := by
  have hpop : (filledL1 i).popCache (fillKey i) = filledL1 i := by
    unfold L1.popCache filledL1
    simp [peek_filled (Nat.le_refl i)]
  rw [hpop]
  rfl

theorem filledL1_evict {i capacity : Nat} (h : i + 1 ≤ capacity) (hi : i < 2 ^ 64) (fuel : Nat) :
    L1.evictCache 1 capacity fuel (filledL1 i) = filledL1 i := by
  cases fuel with
  | zero => rfl
  | succ fuel =>
    unfold L1.evictCache
    have hsize : (filledL1 i).currentSize.toNat = i := UInt64.toNat_ofNat_of_lt hi
    rw [if_neg (by rw [hsize]; omega)]

theorem filledL1_insert {i capacity : Nat} (h : i + 1 ≤ capacity) (hi : i < 2 ^ 64) :
    (filledL1 i).insertCache (fillKey i) fillEntry capacity =
      ⟨(fillKey i, fillEntry) ::
        if maxCacheEntries ≤ i then (filled i).dropLast else filled i, [],
          UInt64.ofNat (i + 1)⟩ := by
  have hevict : L1.evictCache fillEntry.data.length capacity (filledL1 i).cache.length
      (filledL1 i) = filledL1 i := filledL1_evict h hi _
  have hnone : Lru.peek (fillKey i) (filledL1 i).cache = none := peek_filled (Nat.le_refl i)
  unfold L1.insertCache
  dsimp only
  rw [hevict, hnone]
  dsimp only
  rw [Lru.put, hnone]
  simp only [filledL1, filled_length, UInt64.sub_zero]
  rw [UInt64.ofNat_add]
  rfl

theorem cacheInsert_run {n : ν} {key : String} {e : CacheEntry} {w : World ν} {l : L1}
    (h : e.data.length ≤ (E.cfg n).capacityBytes)
    (hl : (((w.l1 n).popCache key).popChunks key).insertCache key e (E.cfg n).capacityBytes = l) :
    (Memory.cacheInsert E n key e.data e.blockMeta).run (fun c w => exec E c c.default w) w =
      some ({ w with l1 := Function.update w.l1 n l }, ()) := by
  subst hl
  unfold Memory.cacheInsert
  rw [if_neg (by omega)]
  simp [Memory.invalidate, l1, Prog.issue, Prog.run, exec, Cmd.default, L1.apply]

theorem reach_insert {c : TierState (Fin 2)}
    (hc : TierReach samplePlain (fun _ _ => True) c) (hfin : ∀ th ∈ c.threads, th.finished = true)
    (hl : c.world.l1 0 = filledL1 i) :
    ∃ c' : TierState (Fin 2), TierReach samplePlain (fun _ _ => True) c' ∧
      (∀ th ∈ c'.threads, th.finished = true) ∧
      c'.world.l1 0 = (filledL1 i).insertCache (fillKey i) fillEntry 1048576 := by
  obtain ⟨clock, hc⟩ := hc
  have hrun : (Memory.cacheInsert samplePlain 0 (fillKey i) fillEntry.data
      fillEntry.blockMeta).run (fun c w => exec samplePlain c c.default w) c.world = some (_, ()) :=
    cacheInsert_run (by decide) rfl
  obtain ⟨t, log, hc'⟩ := hc.alone (fun _ _ => trivial)
    (0, .cacheInsert (fillKey i) fillEntry.data fillEntry.blockMeta) hrun
  refine ⟨_, ⟨clock, hc'⟩, ?_, ?_⟩
  · grind
  · dsimp only
    rw [Function.update_self, hl, filledL1_pop]
    rfl

theorem reach_filled (hi : i ≤ maxCacheEntries) :
    ∃ c : TierState (Fin 2), TierReach samplePlain (fun _ _ => True) c ∧
      (∀ th ∈ c.threads, th.finished = true) ∧ c.world.l1 0 = filledL1 i := by
  induction i with
  | zero => exact ⟨_, ⟨0, .start⟩, fun _ h => (List.not_mem_nil h).elim, rfl⟩
  | succ i ih =>
    obtain ⟨c, hc, hfin, hl⟩ := ih (by omega)
    obtain ⟨c', hc', hfin', hl'⟩ := reach_insert hc hfin hl
    refine ⟨c', hc', hfin', ?_⟩
    have hmax : maxCacheEntries = 1000000 := rfl
    rw [hl', filledL1_insert (by omega) (by omega), if_neg (by omega)]
    rfl

theorem reach_overflow (hi : i = maxCacheEntries) :
    ∃ c : TierState (Fin 2), TierReach samplePlain (fun _ _ => True) c ∧
      (∀ th ∈ c.threads, th.finished = true) ∧ (c.world.l1 0).total = i ∧
      (c.world.l1 0).currentSize.toNat = i + 1 := by
  have hmax : i = 1000000 := hi
  obtain ⟨c, hc, hfin, hl⟩ := reach_filled hi.le
  obtain ⟨c', hc', hfin', hl'⟩ := reach_insert hc hfin hl
  rw [filledL1_insert (by omega) (by omega), if_pos hi.ge] at hl'
  refine ⟨c', hc', hfin', ?_, ?_⟩
  · have hdrop : Lru.weight (fun e => e.data.length) (filled i).dropLast + 1 = i :=
      filled_dropLast_weight (by omega)
    rw [hl', L1.total, Lru.weight_cons, Lru.weight_nil, fillEntry_length]
    omega
  · rw [hl']
    exact UInt64.toNat_ofNat_of_lt (by rw [hmax]; decide)

/-- **counter はずれる。** -/
theorem size_counter_drifts : ∃ c : TierState (Fin 2), TierReach samplePlain (fun _ _ => True) c ∧
    (∀ th ∈ c.threads, th.finished = true) ∧ (c.world.l1 0).total = maxCacheEntries ∧
    (c.world.l1 0).currentSize.toNat = maxCacheEntries + 1 :=
  reach_overflow rfl

end ContextStore
