import ContextStore.Backend.HostMemory
import ContextStore.Conc.System

/-!
# host memory の大きさ counter
-/

namespace ContextStore

open Conc

variable {μ : Type}

namespace HostCache

def total (c : HostCache μ) : Nat :=
  Lru.weight (fun d => d.length) c.cache + Lru.weight tensorBytes c.tensorCache

structure Exact (c : HostCache μ) : Prop where
  cache : Lru.Distinct c.cache
  tensor : Lru.Distinct c.tensorCache
  size : c.usedBytes = c.total

def fetchedKeys (layer : String) (misses : List (Nat × String)) (fetched : List (Option Bytes)) :
    List CacheKey :=
  (misses.zip fetched).filterMap fun x => x.2.map fun _ => (x.1.2, layer)

def Clean (c : HostCache μ) : HostSection μ → Prop
  | .put ck _ _ => Lru.peek ck c.tensorCache = none
  | .putTensor ck _ _ => Lru.peek ck c.cache = none ∨ Lru.peek ck c.tensorCache = none
  | .insertFetched ck _ => Lru.peek ck c.cache = none
  | .insertMany layer misses fetched _ => (fetchedKeys layer misses fetched).Nodup ∧
      ∀ ck ∈ fetchedKeys layer misses fetched, Lru.peek ck c.cache = none
  | _ => True

variable {c : HostCache μ} {capacity : Int}

theorem Exact.empty : (HostCache.empty : HostCache μ).Exact := ⟨.nil, .nil, rfl⟩

/-! ## 追い出し -/

theorem Exact.popCache (h : c.Exact) {k : CacheKey} {data : Bytes} {rest : List (CacheKey × Bytes)}
    (hc : c.cache = (k, data) :: rest) :
    Exact { c with cache := rest, usedBytes := c.usedBytes - data.length } := by
  have hd := h.cache
  have hs := h.size
  rw [hc] at hd
  refine ⟨hd.sublist (List.sublist_cons_self _ _), h.tensor, ?_⟩
  simp only [total, hc, Lru.weight_cons] at hs ⊢
  omega

theorem Exact.popTensor (h : c.Exact) {k : CacheKey} {t : Dense.Tensor}
    {rest : List (CacheKey × Dense.Tensor)} (hc : c.tensorCache = (k, t) :: rest) :
    Exact { c with tensorCache := rest, usedBytes := c.usedBytes - tensorBytes t } := by
  have hd := h.tensor
  have hs := h.size
  rw [hc] at hd
  refine ⟨h.cache, hd.sublist (List.sublist_cons_self _ _), ?_⟩
  simp only [total, hc, Lru.weight_cons] at hs ⊢
  omega

theorem Exact.le_of_empty (h : c.Exact) (hc : c.cache = []) (ht : c.tensorCache = [])
    (hcap : 0 ≤ capacity) : c.usedBytes ≤ capacity := by
  have hs := h.size
  simp only [total, hc, ht, Lru.weight_nil] at hs
  omega

theorem Exact.evict (h : c.Exact) {fuel : Nat}
    (hfuel : c.cache.length + c.tensorCache.length ≤ fuel) :
    (c.evict capacity fuel).Exact ∧
      (0 ≤ capacity → (c.evict capacity fuel).usedBytes ≤ capacity) := by
  induction fuel generalizing c with
  | zero =>
    have hc : c.cache = [] := List.length_eq_zero_iff.mp (by omega)
    have ht : c.tensorCache = [] := List.length_eq_zero_iff.mp (by omega)
    exact ⟨h, h.le_of_empty hc ht⟩
  | succ fuel ih =>
    unfold HostCache.evict
    split
    · grind [popCache, popTensor, le_of_empty]
    next hle => exact ⟨h, fun _ => by omega⟩

def Bounded (capacity : Int) (c : HostCache μ) : Prop :=
  c.Exact ∧ (0 ≤ capacity → c.usedBytes ≤ capacity)

theorem Exact.evictIfNeeded (h : c.Exact) (capacity : Int) :
    Bounded capacity (c.evictIfNeeded capacity) :=
  h.evict (Nat.le_refl _)

theorem Exact.setMeta (h : c.Exact) (key : String) (m : Option μ) : (c.setMeta key m).Exact := by
  cases m with
  | none => exact h
  | some m => exact ⟨h.cache, h.tensor, h.size⟩

theorem Bounded.moveCache (h : Bounded capacity c) (ck : CacheKey) :
    Bounded capacity { c with cache := OrderedDict.moveToEnd ck c.cache } := by
  refine ⟨⟨OrderedDict.distinct_moveToEnd h.1.cache ck, h.1.tensor, ?_⟩, h.2⟩
  have hs := h.1.size
  simpa only [total, OrderedDict.weight_moveToEnd _ ck h.1.cache] using hs

theorem Bounded.getTensor (h : Bounded capacity c) (ck : CacheKey) :
    Bounded capacity (c.getTensor ck).1 := by
  refine ⟨⟨h.1.cache, OrderedDict.distinct_moveToEnd h.1.tensor ck, ?_⟩, h.2⟩
  have hs := h.1.size
  simpa only [HostCache.getTensor, total, OrderedDict.weight_moveToEnd _ ck h.1.tensor] using hs

theorem Exact.writeCache (h : c.Exact) (ck : CacheKey) (data : Bytes) {used : Int}
    (hused : used + (((Lru.peek ck c.cache).map fun d => d.length).getD 0 : Nat) =
      c.usedBytes + data.length) :
    Exact { c with cache := OrderedDict.write ck data c.cache, usedBytes := used } := by
  have hs := h.size
  have hw := OrderedDict.weight_write_add (fun d : Bytes => d.length) ck data h.cache
  refine ⟨OrderedDict.distinct_write h.cache ck data, h.tensor, ?_⟩
  simp only [total] at hs ⊢
  omega

theorem Exact.put (h : c.Exact) (ck : CacheKey) (data : Bytes) (m : Option μ)
    (hck : Lru.peek ck c.tensorCache = none) : Bounded capacity (c.put capacity ck data m) := by
  unfold HostCache.put
  refine Exact.evictIfNeeded (Exact.setMeta ?_ _ _) capacity
  cases hk : Lru.peek ck c.cache with
  | none =>
    have hself : OrderedDict.moveToEnd ck c.cache = c.cache := by simp [OrderedDict.moveToEnd, hk]
    have hset := OrderedDict.set_moveToEnd ck data c.cache
    simp_all [Lru.erase_of_peek_none, writeCache]
  | some old =>
    grind [OrderedDict.set_moveToEnd, Lru.erase_of_peek_none, writeCache]

theorem Exact.putTensor (h : c.Exact) (ck : CacheKey) (pinned : Dense.Tensor) (m : Option μ)
    (hck : Lru.peek ck c.cache = none ∨ Lru.peek ck c.tensorCache = none) :
    Bounded capacity (c.putTensor capacity ck pinned m) := by
  unfold HostCache.putTensor
  refine Exact.evictIfNeeded (Exact.setMeta ?_ _ _) capacity
  have hs := h.size
  have hw := OrderedDict.weight_write_add tensorBytes ck pinned h.tensor
  refine ⟨h.cache.erase ck, ?_, ?_⟩
  · dsimp only
    rw [OrderedDict.moveToEnd_set]
    exact OrderedDict.distinct_write h.tensor ck pinned
  · simp only [total, OrderedDict.moveToEnd_set] at hs ⊢
    cases hk : Lru.peek ck c.cache with
    | none =>
      rw [Lru.erase_of_peek_none hk]
      grind
    | some old =>
      have ht : Lru.peek ck c.tensorCache = none :=
        hck.resolve_left (by rw [hk]; exact Option.some_ne_none old)
      have he := Lru.weight_erase (fun d : Bytes => d.length) h.cache hk
      grind

theorem Exact.insert (h : c.Exact) {ck : CacheKey} (data : Bytes)
    (hck : Lru.peek ck c.cache = none) :
    (c.insert ck data).Exact := by
  unfold HostCache.insert
  rw [OrderedDict.moveToEnd_set]
  exact h.writeCache ck data (by simp [hck])

theorem peek_insert_of_ne {ck ck' : CacheKey} (data : Bytes) (hne : ck' ≠ ck)
    (hck : Lru.peek ck' c.cache = none) : Lru.peek ck' (c.insert ck data).cache = none := by
  unfold HostCache.insert
  rw [OrderedDict.moveToEnd_set]
  refine Lru.peek_eq_none.mpr fun e he => ?_
  rcases OrderedDict.mem_write he with rfl | he
  · exact Ne.symm hne
  · exact Lru.peek_eq_none.mp hck e he.1

theorem Exact.insertMany (h : c.Exact) (layer : String) (misses : List (Nat × String))
    (fetched results : List (Option Bytes)) (hnodup : (fetchedKeys layer misses fetched).Nodup)
    (hnew : ∀ ck ∈ fetchedKeys layer misses fetched, Lru.peek ck c.cache = none) :
    Bounded capacity (c.insertMany capacity layer misses fetched results).1 := by
  unfold HostCache.insertMany
  refine Exact.evictIfNeeded ?_ capacity
  unfold fetchedKeys at hnodup hnew
  generalize misses.zip fetched = pairs at hnodup hnew
  induction pairs generalizing c results with
  | nil => exact h
  | cons x pairs ih =>
    obtain ⟨⟨idx, key⟩, data⟩ := x
    rw [List.foldl_cons]
    cases data with
    | none =>
      simp only [List.filterMap_cons, Option.map_none] at hnodup hnew
      exact ih h _ hnodup hnew
    | some data =>
      simp only [List.filterMap_cons, Option.map_some] at hnodup hnew
      obtain ⟨hnot, hnodup⟩ := List.nodup_cons.mp hnodup
      have hkey := hnew _ List.mem_cons_self
      refine ih (h.insert data hkey) _ hnodup fun ck hck => ?_
      grind [peek_insert_of_ne]

theorem Bounded.lookupMany (h : Bounded capacity c) (keys : List String) (layer : String) :
    Bounded capacity (c.lookupMany keys layer).1 := by
  unfold HostCache.lookupMany
  suffices hfold : ∀ (pairs : List (String × Nat))
      (acc : HostCache μ × List (Option Bytes) × List (Nat × String)), Bounded capacity acc.1 →
      Bounded capacity (pairs.foldl (lookupOne layer) acc).1 from hfold _ _ h
  intro pairs
  induction pairs with
  | nil => exact fun _ h => h
  | cons p pairs ih =>
    intro acc hacc
    refine ih _ ?_
    unfold lookupOne
    dsimp only
    split
    · exact hacc.moveCache _
    · exact hacc

theorem weight_filter {υ : Type} (f : υ → Nat) (p : CacheKey × υ → Prop) [DecidablePred p]
    (l : List (CacheKey × υ)) :
    (Lru.weight f (l.filter fun e => ¬ p e) : Int) +
      ((l.filter fun e => p e).map fun e => (f e.2 : Int)).sum = Lru.weight f l := by
  induction l with
  | nil => rfl
  | cons e l ih =>
    by_cases he : p e
    · simp [he] at ih ⊢
      omega
    · simp [he] at ih ⊢
      omega

theorem sum_nonneg {υ : Type} (f : υ → Nat) (l : List (CacheKey × υ)) :
    0 ≤ (l.map fun e => (f e.2 : Int)).sum := by
  induction l with
  | nil => exact Int.le_refl 0
  | cons e l ih =>
    rw [List.map_cons, List.sum_cons]
    omega

theorem Bounded.delete (h : Bounded capacity c) (key : String) :
    Bounded capacity (c.delete key) := by
  have hs := h.1.size
  have hc := weight_filter (fun d : Bytes => d.length) (fun e => e.1.1 = key) c.cache
  have ht := weight_filter tensorBytes (fun e => e.1.1 = key) c.tensorCache
  have hc0 := sum_nonneg (fun d : Bytes => d.length) (c.cache.filter fun e => e.1.1 = key)
  have ht0 := sum_nonneg tensorBytes (c.tensorCache.filter fun e => e.1.1 = key)
  refine ⟨⟨h.1.cache.sublist List.filter_sublist, h.1.tensor.sublist List.filter_sublist, ?_⟩,
    fun hcap => ?_⟩
  · simp only [HostCache.delete, total, ne_eq] at hs ⊢
    omega
  · have hle := h.2 hcap
    simp only [HostCache.delete]
    omega

theorem Bounded.apply (h : Bounded capacity c) (s : HostSection μ) (hclean : c.Clean s) :
    Bounded capacity (c.apply capacity s).1 := by
  cases s with
  | put ck data m => exact h.1.put ck data m hclean
  | putTensor ck pinned m => exact h.1.putTensor ck pinned m hclean
  | getTensor ck => exact h.getTensor ck
  | lookup ck => exact h.moveCache ck
  | insertFetched ck data => exact (h.1.insert data hclean).evictIfNeeded capacity
  | lookupMany keys layer => exact h.lookupMany keys layer
  | insertMany layer misses fetched results =>
    exact h.1.insertMany layer misses fetched results hclean.1 hclean.2
  | delete key => exact h.delete key

end HostCache

inductive WrappedReply where
  | done
  | bytes (data : Option Bytes)
  | many (data : List (Option Bytes))
  | chunks (data : Option (List Bytes))
  | flag (ok : Bool)

def hostExec (capacity : Int) :
    (c : HostCmd μ) → WrappedReply → HostCache μ → Option (HostCache μ × c.Resp)
  | .put _ _ _ _, .done, c => some (c, ())
  | .get _ _, .bytes data, c => some (c, data)
  | .getParallel _ _, .many data, c => some (c, data)
  | .delete _, .done, c => some (c, ())
  | .putChunks _ _ _ _, .done, c => some (c, ())
  | .getChunks _ _, .chunks data, c => some (c, data)
  | .putChunksFrom _ _ _ _ _ _, .flag ok, c => some (c, ok)
  | .locked s, .done, c => some (c.apply capacity s)
  | _, _, _ => none

def hostMachine (μ : Type) (capacity : Int) :
    Machine (HostCache μ) (HostCmd μ) HostCmd.Resp WrappedReply Empty Unit where
  exec := hostExec capacity
  env := nofun
  observe _ _ _ _ := ()

abbrev HostState (μ : Type) :=
  Config (HostCache μ) (HostOp μ) (HostCmd μ) HostCmd.Resp HostAnswer Unit

abbrev HostMove (μ : Type) := Act (HostOp μ) WrappedReply Empty

def HostReach (caps : Caps) (capacity : Int) (P : HostState μ → HostMove μ → Prop)
    (c : HostState μ) : Prop :=
  (hostMachine μ capacity).Reach (HostOp.prog caps) .empty P c

def CleanMove (c : HostState μ) : HostMove μ → Prop
  | .run i _ => ∀ th s k, c.threads[i]? = some th → th.prog = .cmd (.locked s) k → c.world.Clean s
  | _ => True

theorem hostExec_cases {capacity : Int} {m : HostCmd μ} {x : WrappedReply} {w w' : HostCache μ}
    {r : m.Resp} (h : hostExec capacity m x w = some (w', r)) :
    w' = w ∨ ∃ s, m = .locked s ∧ w' = (w.apply capacity s).1 := by
  cases m with
  | locked s =>
    cases x with
    | done =>
      simp_all [hostExec]
    | _ => cases h
  | _ =>
    cases x <;> cases h
    exact .inl rfl

/-- **counter は正確である。** -/
theorem host_counter_exact {caps : Caps} {capacity : Int} {c : HostState μ}
    (h : HostReach caps capacity CleanMove c) :
    c.world.usedBytes = c.world.total ∧ (0 ≤ capacity → c.world.usedBytes ≤ capacity) := by
  have hinv : c.world.Bounded capacity := by
    refine Machine.Reach.induct (I := fun c => c.world.Bounded capacity) ?_ ?_ ?_ ?_ ?_ h
    · exact ⟨.empty, fun hcap => hcap⟩
    · exact fun _ _ _ _ ih => ih
    · intro c i x th m k w' r _ hclean ih hth hp hexec
      rcases hostExec_cases hexec with rfl | ⟨s, rfl, rfl⟩
      · exact ih
      · exact ih.apply s (hclean th s k hth hp)
    · exact fun _ _ _ _ _ _ ih _ _ _ => ih
    · exact fun _ e => e.elim
  exact ⟨hinv.1.size, hinv.2⟩

instance HostCache.decidableClean (c : HostCache μ) : (s : HostSection μ) → Decidable (c.Clean s)
  | .put ck _ _ => inferInstanceAs (Decidable (Lru.peek ck c.tensorCache = none))
  | .putTensor ck _ _ => inferInstanceAs
      (Decidable (Lru.peek ck c.cache = none ∨ Lru.peek ck c.tensorCache = none))
  | .insertFetched ck _ => inferInstanceAs (Decidable (Lru.peek ck c.cache = none))
  | .insertMany layer misses fetched _ => inferInstanceAs
      (Decidable ((fetchedKeys layer misses fetched).Nodup ∧
        ∀ ck ∈ fetchedKeys layer misses fetched, Lru.peek ck c.cache = none))
  | .getTensor _ | .lookup _ | .lookupMany _ _ | .delete _ => inferInstanceAs (Decidable True)

def cleanCheck (c : HostState μ) : HostMove μ → Bool
  | .run i _ =>
    match (c.threads[i]?).map Thread.prog with
    | some (.cmd (.locked s) _) => c.world.Clean s
    | _ => true
  | _ => true

theorem cleanMove_of_check {c : HostState μ} {a : HostMove μ} (h : cleanCheck c a = true) :
    CleanMove c a := by
  cases a with
  | run i x =>
    intro th s k hth hp
    simpa [cleanCheck, hth, hp] using h
  | _ => trivial

def replyFor : HostCmd μ → WrappedReply
  | .get _ _ => .bytes (some [7, 7])
  | .getParallel _ _ => .many [some [1], none]
  | .getChunks _ _ => .chunks none
  | .putChunksFrom _ _ _ _ _ _ => .flag true
  | _ => .done

def playHost (capacity : Int) (ok : HostState Unit → HostMove Unit → Bool)
    (lines : List (Machine.Line (HostOp Unit) WrappedReply Empty)) : Option (HostState Unit) :=
  (hostMachine Unit capacity).play (HostOp.prog ⟨true, true, true⟩) ok replyFor lines
    (Machine.start .empty)

def smallTensor : Dense.Tensor := ⟨[2], ⟨"uint8", 1⟩, [0, 0], rfl⟩

def crossedGets : List (Machine.Line (HostOp Unit) WrappedReply Empty) :=
  [.act (.spawn (.get "a" "l")), .act (.spawn (.get "b" "l")),
   .solo 0 2, .solo 1 3, .solo 0 1,
   .act (.spawn (.getParallel ["c", "d"] "l")), .solo 2 3,
   .act (.spawn (.putTensor "a" "l" smallTensor [0, 0] none)), .solo 3 2]

theorem host_counter_exact_crossed : ∃ c : HostState Unit,
    HostReach ⟨true, true, true⟩ 4 CleanMove c ∧ c.world.total = 3 ∧
      (c.world.usedBytes = c.world.total ∧ (0 ≤ (4 : Int) → c.world.usedBytes ≤ 4)) := by
  have hplay : ((playHost 4 cleanCheck crossedGets).any fun c => c.world.total = 3) = true := by
    decide +kernel
  obtain ⟨c, hc, htotal⟩ := (Option.any_eq_true _ _).mp hplay
  have hreach : HostReach ⟨true, true, true⟩ 4 CleanMove c :=
    (Machine.Reach.play .start hc).mono fun _ _ h => cleanMove_of_check h
  exact ⟨c, hreach, of_decide_eq_true htotal, host_counter_exact hreach⟩

/-- **counter はずれる。** -/
theorem host_counter_drifts : ∃ c : HostState Unit,
    HostReach ⟨true, true, true⟩ 100 (fun _ _ => True) c ∧
      (∀ th ∈ c.threads, th.finished = true) ∧ c.world.usedBytes = 3 ∧ c.world.total = 1 := by
  have hplay : ((playHost 100 (fun _ _ => true)
      [.act (.spawn (.putTensor "a" "l" smallTensor [0, 0] none)), .solo 0 2, .act (.finish 0),
       .act (.spawn (.put "a" "l" [1] none)), .solo 1 2, .act (.finish 1)]).any fun c =>
        (c.threads.all fun th => th.finished) && decide (c.world.usedBytes = 3) &&
          decide (c.world.total = 1)) = true := by
    decide +kernel
  obtain ⟨c, hc, hcheck⟩ := (Option.any_eq_true _ _).mp hplay
  simp only [Bool.and_eq_true, List.all_eq_true, decide_eq_true_eq] at hcheck
  exact ⟨c, (Machine.Reach.play .start hc).mono fun _ _ _ => trivial, hcheck.1.1, hcheck.1.2,
    hcheck.2⟩

end ContextStore
