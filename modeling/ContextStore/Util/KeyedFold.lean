import Mathlib.Data.List.Nodup

/-!
# 鍵ごとの畳み込み

畳み込みの 1 歩が自分の鍵の値だけを変えるとき、鍵ごとの最後の値。
-/

namespace ContextStore

variable {σ α β κ : Type} {f : σ → α → σ} {k : α → κ} {g : σ → κ → β}

theorem foldl_of_notMem (hf : ∀ s a id, id ≠ k a → g (f s a) id = g s id) {xs : List α}
    {id : κ} (h : id ∉ xs.map k) (s : σ) : g (xs.foldl f s) id = g s id := by
  induction xs generalizing s with
  | nil => rfl
  | cons x xs ih => simp_all

theorem foldl_of_mem (hf : ∀ s a id, id ≠ k a → g (f s a) id = g s id) {xs : List α}
    (hnodup : (xs.map k).Nodup) {a : α} (ha : a ∈ xs) (s : σ) :
    ∃ s', g s' (k a) = g s (k a) ∧ g (xs.foldl f s) (k a) = g (f s' a) (k a) := by
  induction xs generalizing s with
  | nil => cases ha
  | cons x xs ih =>
    rw [List.map_cons, List.nodup_cons] at hnodup
    rw [List.foldl_cons]
    rcases List.mem_cons.mp ha with rfl | ha
    · exact ⟨s, rfl, foldl_of_notMem hf hnodup.1 _⟩
    · obtain ⟨s', hs', hg⟩ := ih hnodup.2 ha (f s x)
      grind

theorem foldl_set_eq (i : α → ℕ) (v : α → β) (xs : List α) (acc : List β) :
    xs.foldl (fun acc x => acc.set (i x) (v x)) acc =
      (xs.map fun x => (i x, v x)).foldl (fun acc x => acc.set x.1 x.2) acc := by
  rw [List.foldl_map]

variable {xs : List (ℕ × β)}

theorem foldl_set_of_mem (hnodup : (xs.map Prod.fst).Nodup) {x : ℕ × β}
    (hx : x ∈ xs) {acc : List β} (hi : x.1 < acc.length) :
    (xs.foldl (fun acc x => acc.set x.1 x.2) acc)[x.1]? = some x.2 := by
  obtain ⟨acc', hsame, hval⟩ := foldl_of_mem (f := fun (acc : List β) (x : ℕ × β) =>
    acc.set x.1 x.2) (k := Prod.fst) (g := fun (acc : List β) i => acc[i]?)
    (fun s a i hne => List.getElem?_set_ne (Ne.symm hne)) hnodup hx acc
  have hlt : x.1 < acc'.length := by
    rw [List.getElem?_eq_getElem hi] at hsame
    exact (List.getElem?_eq_some_iff.mp hsame).1
  rw [hval, List.getElem?_set_self hlt]

theorem foldl_set_of_notMem {i : ℕ} (h : i ∉ xs.map Prod.fst)
    (acc : List β) : (xs.foldl (fun acc x => acc.set x.1 x.2) acc)[i]? = acc[i]? :=
  foldl_of_notMem (f := fun (acc : List β) (x : ℕ × β) => acc.set x.1 x.2) (k := Prod.fst)
    (g := fun (acc : List β) i => acc[i]?)
    (fun _ _ _ hne => List.getElem?_set_ne (Ne.symm hne)) h acc

theorem length_foldl_set (i : α → ℕ) (v : α → β) (xs : List α) (acc : List β) :
    (xs.foldl (fun acc x => acc.set (i x) (v x)) acc).length = acc.length := by
  induction xs generalizing acc with
  | nil => rfl
  | cons x xs ih => rw [List.foldl_cons, ih, List.length_set]

theorem foldl_set_forall {P : ℕ → β → Prop} (hxs : ∀ x ∈ xs, P x.1 x.2)
    {acc : List β} (hacc : ∀ i b, acc[i]? = some b → P i b) {i : ℕ} {b : β}
    (h : (xs.foldl (fun acc x => acc.set x.1 x.2) acc)[i]? = some b) : P i b := by
  induction xs generalizing acc with
  | nil => exact hacc i b h
  | cons x xs ih =>
    refine ih (fun y hy => hxs y (List.mem_cons_of_mem _ hy)) ?_ h
    intro j c hc
    rw [List.getElem?_set] at hc
    split at hc
    next hj =>
      split at hc
      · cases hc
        rw [← hj]
        exact hxs x List.mem_cons_self
      · cases hc
    · exact hacc j c hc

end ContextStore
