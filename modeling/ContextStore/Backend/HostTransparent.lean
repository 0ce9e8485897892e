import ContextStore.Backend.HostMemory

/-!
# host memory の L1 は透過か

`HostMemoryBackend` を通した読み出しと、包んだ backend を直接使った読み出しを比べる。
-/

namespace ContextStore

open Conc

variable {σ μ : Type}

structure Wrapped (σ μ : Type) where
  put : String → String → Bytes → Option μ → σ → σ
  get : String → String → σ → σ × Option Bytes
  getParallel : List String → String → σ → σ × List (Option Bytes)
  delete : String → σ → σ
  putChunks : Option (String → String → List Bytes → Option μ → σ → σ)
  getChunks : Option (String → String → σ → σ × Option (List Bytes))
  putChunksFrom : Option (String → String → Nat → Nat → Nat → Bytes → σ → σ × Bool)

namespace Wrapped

variable (B : Wrapped σ μ) (capacity : Int)

def caps : Caps := ⟨B.putChunks.isSome, B.getChunks.isSome, B.putChunksFrom.isSome⟩

def exec : (c : HostCmd μ) → σ × HostCache μ → (σ × HostCache μ) × c.Resp
  | .put key layer data m, (s, c) => ((B.put key layer data m s, c), ())
  | .get key layer, (s, c) => (((B.get key layer s).1, c), (B.get key layer s).2)
  | .getParallel keys layer, (s, c) =>
    (((B.getParallel keys layer s).1, c), (B.getParallel keys layer s).2)
  | .delete key, (s, c) => ((B.delete key s, c), ())
  | .putChunks key layer segments m, (s, c) =>
    match B.putChunks with
    | some f => ((f key layer segments m s, c), ())
    | none => ((s, c), ())
  | .getChunks key layer, (s, c) =>
    match B.getChunks with
    | some f => (((f key layer s).1, c), (f key layer s).2)
    | none => ((s, c), none)
  | .putChunksFrom key layer region offset size content, (s, c) =>
    match B.putChunksFrom with
    | some f =>
      (((f key layer region offset size content s).1, c),
        (f key layer region offset size content s).2)
    | none => ((s, c), false)
  | .locked sec, (s, c) => ((s, (c.apply capacity sec).1), (c.apply capacity sec).2)

def through (op : HostOp μ) (s : σ × HostCache μ) : (σ × HostCache μ) × HostAnswer :=
  (op.prog B.caps).eval (B.exec capacity) s

def direct : HostOp μ → σ → σ × HostAnswer
  | .put key layer data m, s => (B.put key layer data m s, .done)
  | .putTensor key layer _ data m, s => (B.put key layer data m s, .done)
  | .putChunks key layer segments m, s =>
    match B.putChunks with
    | some f => (f key layer segments m s, .done)
    | none => (B.put key layer segments.flatten m s, .done)
  | .putChunksFrom key layer region offset size content, s =>
    match B.putChunksFrom with
    | some f =>
      ((f key layer region offset size content s).1,
        .flag (f key layer region offset size content s).2)
    | none => (s, .flag false)
  | .getTensor _ _, s => (s, .tensor none)
  | .get key layer, s => ((B.get key layer s).1, .bytes (B.get key layer s).2)
  | .getParallel keys layer, s =>
    ((B.getParallel keys layer s).1, .many (B.getParallel keys layer s).2)
  | .getChunks key layer, s =>
    match B.getChunks with
    | some f => ((f key layer s).1, .chunks (f key layer s).2)
    | none => ((B.get key layer s).1, .chunks ((B.get key layer s).2.map fun d => [d]))
  | .delete key, s => (B.delete key s, .done)

def throughAll : List (HostOp μ) → σ × HostCache μ → List HostAnswer
  | [], _ => []
  | op :: ops, s => (B.through capacity op s).2 :: throughAll ops (B.through capacity op s).1

def directAll : List (HostOp μ) → σ → List HostAnswer
  | [], _ => []
  | op :: ops, s => (B.direct op s).2 :: directAll ops (B.direct op s).1

end Wrapped

structure MapLike (B : Wrapped σ μ) where
  view : σ → CacheKey → Option Bytes
  put : ∀ key layer data m s,
    view (B.put key layer data m s) = Function.update (view s) (key, layer) (some data)
  get : ∀ key layer s,
    view (B.get key layer s).1 = view s ∧ (B.get key layer s).2 = view s (key, layer)
  getParallel : ∀ keys layer s, view (B.getParallel keys layer s).1 = view s ∧
    (B.getParallel keys layer s).2 = keys.map fun key => view s (key, layer)
  delete : ∀ key s, view (B.delete key s) = fun ck => if ck.1 = key then none else view s ck
  putChunks : ∀ f, B.putChunks = some f → ∀ key layer segments m s,
    view (f key layer segments m s) =
      Function.update (view s) (key, layer) (some segments.flatten)
  getChunks : ∀ f, B.getChunks = some f → ∀ key layer s, view (f key layer s).1 = view s
  putChunksFrom : ∀ f, B.putChunksFrom = some f → ∀ key layer region offset size content,
    ∃ ok : Bool, ∀ s, (f key layer region offset size content s).2 = ok ∧
      view (f key layer region offset size content s).1 =
        if ok then Function.update (view s) (key, layer) (some content) else view s

namespace HostCache

theorem evict_cache_subset (capacity : Int) (fuel : Nat) (c : HostCache μ) :
    (c.evict capacity fuel).cache ⊆ c.cache := by
  induction fuel generalizing c with
  | zero => exact List.Subset.refl _
  | succ fuel ih =>
    unfold evict
    split
    · split
      next k data rest hc =>
        refine List.Subset.trans (ih _) ?_
        rw [hc]
        exact List.subset_cons_self _ _
      next => exact ih _
      next => exact List.Subset.refl _
    · exact List.Subset.refl _

variable {c : HostCache μ} {ck : CacheKey} {e : CacheKey × Bytes}

theorem setMeta_cache (key : String) (m : Option μ) (c : HostCache μ) :
    (c.setMeta key m).cache = c.cache := by
  cases m <;> rfl

theorem mem_put {capacity : Int} {data : Bytes} {m : Option μ}
    (h : e ∈ (c.put capacity ck data m).cache) : e = (ck, data) ∨ e ∈ c.cache ∧ e.1 ≠ ck := by
  have h := evict_cache_subset _ _ _ h
  rw [setMeta_cache] at h
  refine OrderedDict.mem_write ?_
  rw [← OrderedDict.set_moveToEnd]
  cases hk : Lru.peek ck c.cache with
  | none => simpa [hk, OrderedDict.moveToEnd] using h
  | some old => simpa [hk] using h

theorem mem_putTensor {capacity : Int} {pinned : Dense.Tensor} {m : Option μ}
    (h : e ∈ (c.putTensor capacity ck pinned m).cache) : e ∈ c.cache ∧ e.1 ≠ ck := by
  have h := evict_cache_subset _ _ _ h
  rw [setMeta_cache] at h
  exact Lru.mem_erase.mp h

theorem mem_insert {data : Bytes} (h : e ∈ (c.insert ck data).cache) :
    e = (ck, data) ∨ e ∈ c.cache := by
  unfold insert at h
  rw [OrderedDict.moveToEnd_set] at h
  rcases OrderedDict.mem_write h with h | h
  · exact .inl h
  · exact .inr h.1

def Coherent (v : CacheKey → Option Bytes) (c : HostCache μ) : Prop :=
  ∀ e ∈ c.cache, v e.1 = some e.2

variable {v : CacheKey → Option Bytes}

theorem Coherent.peek (h : c.Coherent v) {data : Bytes} (hk : Lru.peek ck c.cache = some data) :
    v ck = some data :=
  h _ (Lru.mem_of_peek hk)

theorem Coherent.moveToEnd (h : c.Coherent v) (ck : CacheKey) :
    Coherent v { c with cache := OrderedDict.moveToEnd ck c.cache } :=
  fun e he => h e (OrderedDict.mem_of_mem_moveToEnd he)

theorem Coherent.evictIfNeeded (h : c.Coherent v) (capacity : Int) :
    (c.evictIfNeeded capacity).Coherent v :=
  fun e he => h e (evict_cache_subset _ _ _ he)

theorem Coherent.insert (h : c.Coherent v) {data : Bytes} (hv : v ck = some data) :
    (c.insert ck data).Coherent v := by
  intro e he
  rcases mem_insert he with rfl | he
  · exact hv
  · exact h e he

theorem Coherent.update (h : c.Coherent v) (hck : ∀ e ∈ c.cache, e.1 ≠ ck) (data : Option Bytes) :
    c.Coherent (Function.update v ck data) := by
  intro e he
  rw [Function.update_of_ne (hck e he)]
  exact h e he

section Many

variable {layer : String} {keys : List String}

/-- `i` 番目の結果は正しい。 -/
def Answered (v : CacheKey → Option Bytes) (layer : String) (keys : List String)
    (results : List (Option Bytes)) (i : Nat) : Prop :=
  ∀ k, keys[i]? = some k → results[i]? = some (v (k, layer))

variable (v layer) in
theorem answered_set {results : List (Option Bytes)} (hlen : results.length = keys.length) {i : Nat}
    {k : String} (hk : keys[i]? = some k) :
    Answered v layer keys (results.set i (v (k, layer))) i ∧ ∀ j, Answered v layer keys results j →
      Answered v layer keys (results.set i (v (k, layer))) j := by
  have hi : i < results.length := hlen ▸ (List.getElem?_eq_some_iff.mp hk).1
  have hself : Answered v layer keys (results.set i (v (k, layer))) i := by
    intro k' hk'
    simp_all
  refine ⟨hself, fun j hj => ?_⟩
  by_cases hij : j = i
  · rw [hij]
    exact hself
  · intro k' hk'
    rw [List.getElem?_set_ne (Ne.symm hij)]
    exact hj k' hk'

theorem eq_of_answered {results : List (Option Bytes)} (hlen : results.length = keys.length)
    (h : ∀ i < keys.length, Answered v layer keys results i) :
    results = keys.map fun k => v (k, layer) := by
  refine List.ext_getElem? fun i => ?_
  rw [List.getElem?_map]
  by_cases hi : i < keys.length
  · have hk := List.getElem?_eq_getElem hi
    rw [hk]
    exact h i hi _ hk
  · simp_all

structure Looked (v : CacheKey → Option Bytes) (keys : List String)
    (acc : HostCache μ × List (Option Bytes) × List (Nat × String)) : Prop where
  coherent : acc.1.Coherent v
  length : acc.2.1.length = keys.length
  misses : ∀ m ∈ acc.2.2, keys[m.1]? = some m.2

def Settled (v : CacheKey → Option Bytes) (layer : String) (keys : List String)
    (acc : HostCache μ × List (Option Bytes) × List (Nat × String)) (i : Nat) : Prop :=
  Answered v layer keys acc.2.1 i ∨ ∃ k, (i, k) ∈ acc.2.2

theorem lookupOne_looked {acc : HostCache μ × List (Option Bytes) × List (Nat × String)}
    (h : Looked v keys acc) {ki : String × Nat} (hk : keys[ki.2]? = some ki.1) :
    Looked v keys (lookupOne layer acc ki) ∧ Settled v layer keys (lookupOne layer acc ki) ki.2 ∧
      ∀ i, Settled v layer keys acc i → Settled v layer keys (lookupOne layer acc ki) i := by
  obtain ⟨c, results, misses⟩ := acc
  unfold lookupOne
  dsimp only
  split
  next data hdata =>
    have hv := h.coherent.peek hdata
    obtain ⟨hself, hothers⟩ := answered_set v layer h.length hk
    rw [hv] at hself hothers
    refine ⟨⟨h.coherent.moveToEnd _, ?_, h.misses⟩, .inl hself, fun i hi => ?_⟩
    · rw [List.length_set]
      exact h.length
    · exact hi.imp_left (hothers i)
  next hnone =>
    refine ⟨⟨h.coherent, h.length, fun m hm => ?_⟩, .inr ⟨ki.1, ?_⟩, fun i hi => ?_⟩
    · rcases List.mem_append.mp hm with hm | hm
      · exact h.misses m hm
      · rw [List.mem_singleton.mp hm]
        exact hk
    · exact List.mem_append_right _ (List.mem_singleton.mpr rfl)
    · exact hi.imp_right fun ⟨k, hm⟩ => ⟨k, List.mem_append_left _ hm⟩

theorem lookupMany_looked (h : c.Coherent v) (keys : List String) (layer : String) :
    Looked v keys (c.lookupMany keys layer) ∧
      ∀ i < keys.length, Settled v layer keys (c.lookupMany keys layer) i := by
  have hloop : ∀ (pairs : List (String × Nat)) acc, (∀ p ∈ pairs, keys[p.2]? = some p.1) →
      Looked v keys acc →
      Looked v keys (pairs.foldl (lookupOne layer) acc) ∧
        ∀ i, (Settled v layer keys acc i ∨ ∃ p ∈ pairs, p.2 = i) →
          Settled v layer keys (pairs.foldl (lookupOne layer) (acc : HostCache μ × _)) i := by
    intro pairs
    induction pairs with
    | nil =>
      simp
    | cons p pairs ih =>
      intro acc hpairs hacc
      obtain ⟨hlooked, hself, hothers⟩ := lookupOne_looked hacc (hpairs p List.mem_cons_self)
      obtain ⟨hend, hall⟩ := ih _ (fun q hq => hpairs q (List.mem_cons_of_mem _ hq)) hlooked
      refine ⟨hend, fun i hi => hall i ?_⟩
      rcases hi with hi | ⟨q, hq, rfl⟩
      · exact .inl (hothers i hi)
      · grind
  have hpairs : ∀ p ∈ keys.zipIdx, keys[p.2]? = some p.1 := fun p hp =>
    List.mk_mem_zipIdx_iff_getElem?.mp hp
  obtain ⟨hlooked, hall⟩ := hloop keys.zipIdx (c, List.replicate keys.length none, []) hpairs
    ⟨h, List.length_replicate, fun _ hm => (List.not_mem_nil hm).elim⟩
  refine ⟨hlooked, fun i hi => hall i (.inr ⟨(keys[i], i), ?_, rfl⟩)⟩
  exact List.mk_mem_zipIdx_iff_getElem?.mpr (List.getElem?_eq_getElem hi)

theorem insertMany_answered (capacity : Int) {results : List (Option Bytes)}
    {misses : List (Nat × String)} (h : Looked v keys (c, results, misses))
    (hsettled : ∀ i < keys.length, Settled v layer keys (c, results, misses) i) :
    (c.insertMany capacity layer misses (misses.map fun m => v (m.2, layer)) results).1.Coherent v ∧
      (c.insertMany capacity layer misses (misses.map fun m => v (m.2, layer)) results).2 =
        keys.map fun k => v (k, layer) := by
  have hloop : ∀ (ms : List (Nat × String)) (acc : HostCache μ × List (Option Bytes)),
      (∀ m ∈ ms, keys[m.1]? = some m.2) → acc.1.Coherent v → acc.2.length = keys.length →
      ((ms.zip (ms.map fun m => v (m.2, layer))).foldl (insertOne layer) acc).1.Coherent v ∧
      ((ms.zip (ms.map fun m => v (m.2, layer))).foldl (insertOne layer) acc).2.length =
        keys.length ∧
      ∀ i, (Answered v layer keys acc.2 i ∨ ∃ m ∈ ms, m.1 = i) → Answered v layer keys
        ((ms.zip (ms.map fun m => v (m.2, layer))).foldl (insertOne layer) acc).2 i := by
    intro ms
    induction ms with
    | nil =>
      simp_all
    | cons m ms ih =>
      intro acc hms hc hlen
      obtain ⟨hself, hothers⟩ := answered_set v layer hlen (hms m List.mem_cons_self)
      have hcoh : (insertOne layer acc (m, v (m.2, layer))).1.Coherent v := by
        unfold insertOne
        dsimp only
        split
        · exact hc
        next data hdata => exact hc.insert hdata
      have hlen' : (insertOne layer acc (m, v (m.2, layer))).2.length = keys.length := by
        unfold insertOne
        rw [List.length_set]
        exact hlen
      obtain ⟨hc', hl', hall⟩ := ih _ (fun q hq => hms q (List.mem_cons_of_mem _ hq)) hcoh hlen'
      rw [List.map_cons, List.zip_cons_cons, List.foldl_cons]
      refine ⟨hc', hl', fun i hi => hall i ?_⟩
      rcases hi with hi | ⟨q, hq, rfl⟩
      · exact .inl (hothers i hi)
      · rcases List.mem_cons.mp hq with rfl | hq
        · exact .inl hself
        · exact .inr ⟨q, hq, rfl⟩
  obtain ⟨hc, hlen, hall⟩ := hloop misses (c, results) h.misses h.coherent h.length
  refine ⟨hc.evictIfNeeded capacity, ?_⟩
  refine eq_of_answered hlen fun i hi => hall i ?_
  exact (hsettled i hi).imp_right fun ⟨k, hm⟩ => ⟨(i, k), hm, rfl⟩

end Many

end HostCache

def HostOp.passesThrough (caps : Caps) : HostOp μ → Option CacheKey
  | .putChunks key layer _ _ => if caps.putChunks then some (key, layer) else none
  | .putChunksFrom key layer _ _ _ _ => if caps.putChunksFrom then some (key, layer) else none
  | _ => none

def Uncached (caps : Caps) (op : HostOp μ) (c : HostCache μ) : Prop :=
  ∀ ck, op.passesThrough caps = some ck → Lru.peek ck c.cache = none

def HostOp.isRead : HostOp μ → Bool
  | .get _ _ => true
  | .getParallel _ _ => true
  | _ => false

structure CallAgrees {B : Wrapped σ μ} (M : MapLike B) (op : HostOp μ)
    (r : (σ × HostCache μ) × HostAnswer) (d : σ × HostAnswer) : Prop where
  coherent : r.1.2.Coherent (M.view r.1.1)
  view : M.view r.1.1 = M.view d.1
  answer : op.isRead = true → r.2 = d.2

section Step

variable {B : Wrapped σ μ} (M : MapLike B) (capacity : Int) {s s' : σ} {c : HostCache μ}
  (hview : M.view s = M.view s')

include hview

theorem put_agrees (hc : c.Coherent (M.view s)) (key layer : String) (data : Bytes) (m : Option μ) :
    (c.put capacity (key, layer) data m).Coherent (M.view (B.put key layer data m s)) ∧
      M.view (B.put key layer data m s) = M.view (B.put key layer data m s') := by
  refine ⟨fun e he => ?_, by rw [M.put, M.put, hview]⟩
  rw [M.put]
  rcases HostCache.mem_put he with rfl | ⟨he, hne⟩
  · exact Function.update_self ..
  · rw [Function.update_of_ne hne]
    exact hc e he

theorem get_agrees (hc : c.Coherent (M.view s)) (key layer : String) :
    ((HostMemory.get key layer : HostMemory.Io μ _).eval (B.exec capacity) (s, c)).1.2.Coherent
        (M.view ((HostMemory.get key layer).eval (B.exec capacity) (s, c)).1.1) ∧
      M.view ((HostMemory.get key layer).eval (B.exec capacity) (s, c)).1.1 =
        M.view (B.get key layer s').1 ∧
      ((HostMemory.get key layer).eval (B.exec capacity) (s, c)).2 = (B.get key layer s').2 := by
  have hmoved := hc.moveToEnd (key, layer)
  obtain ⟨hv, hr⟩ := M.get key layer s
  obtain ⟨hv', hr'⟩ := M.get key layer s'
  cases hk : Lru.peek (key, layer) c.cache with
  | some data =>
    have hdata := hc.peek hk
    simp only [HostMemory.get, Prog.issue, Prog.cmd_bind, Prog.ret_bind, Prog.eval_cmd,
      Wrapped.exec, HostCache.apply, HostCache.lookup, hk, Prog.pure_eq_ret, Prog.eval_ret]
    refine ⟨hmoved, hview.trans hv'.symm, ?_⟩
    rw [hr', ← hview, hdata]
  | none =>
    simp only [HostMemory.get, Prog.issue, Prog.cmd_bind, Prog.ret_bind, Prog.eval_cmd,
      Wrapped.exec, HostCache.apply, HostCache.lookup, hk]
    cases hget : (B.get key layer s).2 with
    | none =>
      simp_all
    | some data =>
      simp only [Prog.eval_cmd, Wrapped.exec, HostCache.apply, Prog.pure_eq_ret, Prog.eval_ret]
      have hdata : M.view s (key, layer) = some data := by rw [← hr, hget]
      refine ⟨?_, by rw [hv, hv', hview], by rw [hr', ← hview, hdata]⟩
      rw [hv]
      exact (hmoved.insert hdata).evictIfNeeded capacity

theorem fetchMisses_agrees {keys : List String} {layer : String} {results : List (Option Bytes)}
    {misses : List (Nat × String)} (hlooked : HostCache.Looked (M.view s) keys (c, results, misses))
    (hsettled : ∀ i < keys.length,
      HostCache.Settled (M.view s) layer keys (c, results, misses) i) :
    ((HostMemory.fetchMisses layer results misses : HostMemory.Io μ _).eval (B.exec capacity)
        (s, c)).1.2.Coherent
        (M.view ((HostMemory.fetchMisses layer results misses).eval (B.exec capacity) (s, c)).1.1) ∧
      M.view ((HostMemory.fetchMisses layer results misses).eval (B.exec capacity) (s, c)).1.1 =
        M.view (B.getParallel keys layer s').1 ∧
      ((HostMemory.fetchMisses layer results misses).eval (B.exec capacity) (s, c)).2 =
        (B.getParallel keys layer s').2 := by
  obtain ⟨hv', hr'⟩ := M.getParallel keys layer s'
  unfold HostMemory.fetchMisses
  by_cases hmiss : misses = []
  · rw [if_pos hmiss, Prog.pure_eq_ret, Prog.eval_ret]
    refine ⟨hlooked.coherent, hview.trans hv'.symm, ?_⟩
    rw [hr', ← hview]
    refine HostCache.eq_of_answered hlooked.length fun i hi => ?_
    rcases hsettled i hi with h | ⟨k, hm⟩
    · exact h
    · rw [hmiss] at hm
      exact (List.not_mem_nil hm).elim
  · obtain ⟨hv, hr⟩ := M.getParallel (misses.map Prod.snd) layer s
    rw [List.map_map] at hr
    obtain ⟨hcoh, hres⟩ := HostCache.insertMany_answered capacity hlooked hsettled
    rw [if_neg hmiss]
    simp only [Prog.issue, Prog.cmd_bind, Prog.ret_bind, Prog.eval_cmd, Wrapped.exec,
      HostCache.apply, Prog.eval_ret, hr]
    refine ⟨?_, by rw [hv, hv', hview], ?_⟩
    · rw [hv]
      exact hcoh
    · rw [hr', ← hview]
      exact hres

theorem getParallel_agrees (hc : c.Coherent (M.view s)) (keys : List String) (layer : String) :
    ((HostMemory.getParallel keys layer : HostMemory.Io μ _).eval (B.exec capacity)
        (s, c)).1.2.Coherent
        (M.view ((HostMemory.getParallel keys layer).eval (B.exec capacity) (s, c)).1.1) ∧
      M.view ((HostMemory.getParallel keys layer).eval (B.exec capacity) (s, c)).1.1 =
        M.view (B.getParallel keys layer s').1 ∧
      ((HostMemory.getParallel keys layer).eval (B.exec capacity) (s, c)).2 =
        (B.getParallel keys layer s').2 := by
  obtain ⟨hlooked, hsettled⟩ := HostCache.lookupMany_looked hc keys layer
  exact fetchMisses_agrees M capacity hview hlooked hsettled

theorem putTensor_agrees (hc : c.Coherent (M.view s)) (key layer : String) (tensor : Dense.Tensor)
    (data : Bytes) (m : Option μ) :
    (c.putTensor capacity (key, layer) tensor m).Coherent (M.view (B.put key layer data m s)) ∧
      M.view (B.put key layer data m s) = M.view (B.put key layer data m s') := by
  refine ⟨fun e he => ?_, by rw [M.put, M.put, hview]⟩
  obtain ⟨he, hne⟩ := HostCache.mem_putTensor he
  rw [M.put, Function.update_of_ne hne]
  exact hc e he

theorem delete_agrees (hc : c.Coherent (M.view s)) (key : String) :
    (c.delete key).Coherent (M.view (B.delete key s)) ∧
      M.view (B.delete key s) = M.view (B.delete key s') := by
  refine ⟨fun e he => ?_, by rw [M.delete, M.delete, hview]⟩
  obtain ⟨he, hne⟩ := List.mem_filter.mp he
  rw [M.delete]
  dsimp only
  rw [if_neg (by simpa using hne)]
  exact hc e he

theorem through_agrees (hc : c.Coherent (M.view s)) (op : HostOp μ)
    (hquiet : Uncached B.caps op c) :
    CallAgrees M op (B.through capacity op (s, c)) (B.direct op s') := by
  unfold Wrapped.through HostOp.prog
  cases op with
  | put key layer data m =>
    obtain ⟨hcoh, hv⟩ := put_agrees M capacity hview hc key layer data m
    exact ⟨hcoh, hv, fun h => nomatch h⟩
  | putTensor key layer tensor data m =>
    obtain ⟨hcoh, hv⟩ := putTensor_agrees M capacity hview hc key layer tensor data m
    exact ⟨hcoh, hv, fun h => nomatch h⟩
  | delete key =>
    obtain ⟨hcoh, hv⟩ := delete_agrees M hview hc key
    exact ⟨hcoh, hv, fun h => nomatch h⟩
  | getTensor key layer => exact ⟨hc, hview, fun h => nomatch h⟩
  | get key layer =>
    obtain ⟨hcoh, hv, hr⟩ := get_agrees M capacity hview hc key layer
    simp only [Prog.eval_bind, Prog.pure_eq_ret, Prog.eval_ret]
    exact ⟨hcoh, hv, fun _ => congrArg HostAnswer.bytes hr⟩
  | getParallel keys layer =>
    obtain ⟨hcoh, hv, hr⟩ := getParallel_agrees M capacity hview hc keys layer
    simp only [Prog.eval_bind, Prog.pure_eq_ret, Prog.eval_ret]
    exact ⟨hcoh, hv, fun _ => congrArg HostAnswer.many hr⟩
  | putChunks key layer segments m =>
    cases hf : B.putChunks with
    | none =>
      obtain ⟨hcoh, hv⟩ := put_agrees M capacity hview hc key layer segments.flatten m
      simp only [HostMemory.putChunks, Wrapped.caps, Wrapped.direct, hf, Option.isSome_none,
        Bool.false_eq_true, if_false]
      exact ⟨hcoh, hv, fun h => nomatch h⟩
    | some f =>
      have hnone := hquiet (key, layer) (by simp [HostOp.passesThrough, Wrapped.caps, hf])
      simp only [HostMemory.putChunks, Wrapped.caps, Wrapped.direct, hf, Option.isSome_some,
        if_true, Prog.issue, Prog.eval_bind, Prog.eval_cmd, Prog.eval_ret, Wrapped.exec,
        Prog.pure_eq_ret]
      refine ⟨?_, ?_, fun h => nomatch h⟩
      · rw [M.putChunks f hf]
        exact hc.update (Lru.peek_eq_none.mp hnone) _
      · rw [M.putChunks f hf, M.putChunks f hf, hview]
  | putChunksFrom key layer region offset size content =>
    cases hf : B.putChunksFrom with
    | none =>
      simp only [HostMemory.putChunksFrom, Wrapped.caps, Wrapped.direct, hf, Option.isSome_none,
        Bool.false_eq_true, if_false]
      exact ⟨hc, hview, fun h => nomatch h⟩
    | some f =>
      have hnone := hquiet (key, layer) (by simp [HostOp.passesThrough, Wrapped.caps, hf])
      obtain ⟨ok, hok⟩ := M.putChunksFrom f hf key layer region offset size content
      simp only [HostMemory.putChunksFrom, Wrapped.caps, Wrapped.direct, hf, Option.isSome_some,
        if_true, Prog.issue, Prog.eval_bind, Prog.eval_cmd, Prog.eval_ret, Wrapped.exec,
        Prog.pure_eq_ret]
      refine ⟨?_, ?_, fun h => nomatch h⟩
      · rw [(hok s).2]
        split
        · exact hc.update (Lru.peek_eq_none.mp hnone) _
        · exact hc
      · rw [(hok s).2, (hok s').2, hview]
  | getChunks key layer =>
    cases hf : B.getChunks with
    | none =>
      obtain ⟨hcoh, hv, -⟩ := get_agrees M capacity hview hc key layer
      simp only [HostMemory.getChunks, Wrapped.caps, Wrapped.direct, hf, Option.isSome_none,
        Bool.false_eq_true, if_false, Prog.eval_bind, Prog.pure_eq_ret, Prog.eval_ret]
      exact ⟨hcoh, hv, fun h => nomatch h⟩
    | some f =>
      have hv := M.getChunks f hf key layer
      simp only [HostMemory.getChunks, Wrapped.caps, Wrapped.direct, hf, Option.isSome_some,
        if_true, Prog.issue, Prog.eval_bind, Prog.eval_cmd, Prog.eval_ret, Wrapped.exec,
        Prog.pure_eq_ret]
      refine ⟨?_, by rw [hv, hv, hview], fun h => nomatch h⟩
      rw [hv]
      exact hc

end Step

def UncachedAll (B : Wrapped σ μ) (capacity : Int) : List (HostOp μ) → σ × HostCache μ → Prop
  | [], _ => True
  | op :: ops, s =>
    Uncached B.caps op s.2 ∧ UncachedAll B capacity ops (B.through capacity op s).1

theorem throughAll_agrees {B : Wrapped σ μ} (M : MapLike B) (capacity : Int) {ops : List (HostOp μ)}
    {s : σ × HostCache μ} {s' : σ} (hc : s.2.Coherent (M.view s.1)) (hview : M.view s.1 = M.view s')
    (hquiet : UncachedAll B capacity ops s) {i : Nat} {op : HostOp μ} (hi : ops[i]? = some op)
    (hread : op.isRead = true) :
    (B.throughAll capacity ops s)[i]? = (B.directAll ops s')[i]? := by
  induction ops generalizing s s' i with
  | nil => cases hi
  | cons op' ops ih =>
    have hstep := through_agrees M capacity hview hc op' hquiet.1
    cases i with
    | zero =>
      obtain rfl : op' = op := Option.some.inj hi
      exact congrArg some (hstep.answer hread)
    | succ i => exact ih hstep.coherent hstep.view hquiet.2 hi

/-- **L1 は透過である。** -/
theorem host_reads_agree {B : Wrapped σ μ} (M : MapLike B) (capacity : Int) (ops : List (HostOp μ))
    (s : σ) (hquiet : UncachedAll B capacity ops (s, .empty)) (i : Nat) (op : HostOp μ)
    (hi : ops[i]? = some op) (hread : op.isRead = true) :
    (B.throughAll capacity ops (s, .empty))[i]? = (B.directAll ops s)[i]? :=
  throughAll_agrees M capacity (fun _ he => (List.not_mem_nil he).elim) rfl hquiet hi hread

def mapBackend : Wrapped (CacheKey → Option Bytes) Unit where
  put key layer data _ v := Function.update v (key, layer) (some data)
  get key layer v := (v, v (key, layer))
  getParallel keys layer v := (v, keys.map fun key => v (key, layer))
  delete key v := fun ck => if ck.1 = key then none else v ck
  putChunks := some fun key layer segments _ v =>
    Function.update v (key, layer) (some segments.flatten)
  getChunks := some fun key layer v => (v, (v (key, layer)).map fun d => [d])
  putChunksFrom := some fun key layer _ _ _ content v =>
    (Function.update v (key, layer) (some content), true)

def mapBackendLike : MapLike mapBackend where
  view v := v
  put _ _ _ _ _ := rfl
  get _ _ _ := ⟨rfl, rfl⟩
  getParallel _ _ _ := ⟨rfl, rfl⟩
  delete _ _ := rfl
  putChunks _ hf _ _ _ _ _ := by cases hf; rfl
  getChunks _ hf _ _ _ := by cases hf; rfl
  putChunksFrom _ hf _ _ _ _ _ _ := ⟨true, fun _ => by cases hf; exact ⟨rfl, rfl⟩⟩

def chunksThenReads : List (HostOp Unit) :=
  [.putChunks "k" "l" [[1], [2]] none, .get "k" "l", .getParallel ["k", "k"] "l"]

theorem host_reads_agree_repeated :
    UncachedAll mapBackend 8 chunksThenReads (fun _ => none, .empty) ∧
      (mapBackend.throughAll 8 chunksThenReads (fun _ => none, .empty))[2]? =
        (mapBackend.directAll chunksThenReads fun _ => none)[2]? := by
  have hquiet : UncachedAll mapBackend 8 chunksThenReads (fun _ => none, .empty) := by
    refine ⟨fun ck _ => rfl, fun ck h => ?_, fun ck h => ?_, trivial⟩
    · cases h
    · cases h
  exact ⟨hquiet, host_reads_agree mapBackendLike 8 chunksThenReads _ hquiet 2 _ rfl rfl⟩

def putThenChunks : List (HostOp Unit) :=
  [.put "k" "l" [1] none, .putChunks "k" "l" [[2]] none, .get "k" "l"]

/-- **cache にある鍵を素通しで書くと、古い値が返る。** -/
theorem host_read_stale : Nonempty (MapLike mapBackend) ∧
    (mapBackend.throughAll 8 putThenChunks (fun _ => none, .empty))[2]? =
      some (.bytes (some [1])) ∧
    (mapBackend.directAll putThenChunks fun _ => none)[2]? = some (.bytes (some [2])) :=
  ⟨⟨mapBackendLike⟩, rfl, rfl⟩

end ContextStore
