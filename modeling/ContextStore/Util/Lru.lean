import Mathlib.Algebra.Order.Ring.Nat
import Mathlib.Data.List.Basic

/-!
# LRU の連想列

最近使ったものを先頭に置く連想列。
-/

namespace Lru

variable {κ υ : Type}

/-! ## 連想列 -/

def Distinct (l : List (κ × υ)) : Prop := (l.map Prod.fst).Nodup

theorem Distinct.nil : Distinct ([] : List (κ × υ)) := List.nodup_nil

variable {l l' : List (κ × υ)}

theorem Distinct.sublist (h : Distinct l) (hs : l'.Sublist l) :
    Distinct l' :=
  List.Nodup.sublist (hs.map _) h

theorem Distinct.dropLast (h : Distinct l) : Distinct l.dropLast :=
  h.sublist (List.dropLast_sublist l)

def weight (f : υ → Nat) (l : List (κ × υ)) : Nat := (l.map fun e => f e.2).sum

@[simp] theorem weight_nil (f : υ → Nat) : weight f ([] : List (κ × υ)) = 0 := rfl

@[simp] theorem weight_cons (f : υ → Nat) (e : κ × υ) (l : List (κ × υ)) :
    weight f (e :: l) = f e.2 + weight f l := rfl

theorem length_eq_weight (l : List (κ × υ)) : l.length = weight (fun _ => 1) l := by
  simp [weight]

theorem weight_dropLast (f : υ → Nat) {e : κ × υ} (h : l.getLast? = some e) :
    f e.2 + weight f l.dropLast = weight f l := by
  obtain ⟨l', rfl⟩ := List.getLast?_eq_some_iff.mp h
  simp [weight]
  omega

/-! ## 操作 -/

variable [DecidableEq κ]

/-- `k` の値。 -/
def peek (k : κ) (l : List (κ × υ)) : Option υ := (l.find? fun e => e.1 = k).map (·.2)

/-- `k` を取り除く。 -/
def erase (k : κ) (l : List (κ × υ)) : List (κ × υ) := l.filter fun e => e.1 ≠ k

/-- `k` を先頭に移す。 -/
def touch (k : κ) (l : List (κ × υ)) : List (κ × υ) :=
  match peek k l with
  | none => l
  | some v => (k, v) :: erase k l

/-- `k` を先頭に置く。 -/
def put (cap : Nat) (k : κ) (v : υ) (l : List (κ × υ)) : List (κ × υ) :=
  match peek k l with
  | some _ => (k, v) :: erase k l
  | none => (k, v) :: if cap ≤ l.length then l.dropLast else l

variable {k : κ}

theorem mem_of_peek {v : υ} (h : peek k l = some v) : (k, v) ∈ l := by
  obtain ⟨e, he, rfl⟩ := Option.map_eq_some_iff.mp h
  grind

theorem mem_erase {e : κ × υ} :
    e ∈ erase k l ↔ e ∈ l ∧ e.1 ≠ k := by
  simp [erase]

theorem peek_erase (k : κ) (l : List (κ × υ)) : peek k (erase k l) = none := by
  rw [peek, Option.map_eq_none_iff, List.find?_eq_none]
  intro e he
  simpa using (mem_erase.mp he).2

theorem peek_eq_none : peek k l = none ↔ ∀ e ∈ l, e.1 ≠ k := by
  rw [peek, Option.map_eq_none_iff, List.find?_eq_none]
  simp

theorem Distinct.erase (h : Distinct l) (k : κ) : Distinct (erase k l) :=
  h.sublist List.filter_sublist

theorem Distinct.cons (h : Distinct l) (hk : peek k l = none) (v : υ) :
    Distinct ((k, v) :: l) := by
  refine List.nodup_cons.mpr ⟨?_, h⟩
  intro hm
  obtain ⟨e, he, heq⟩ := List.mem_map.mp hm
  exact peek_eq_none.mp hk e he heq

theorem Distinct.touch (h : Distinct l) (k : κ) : Distinct (touch k l) := by
  unfold Lru.touch
  split
  · exact h
  · exact (h.erase k).cons (peek_erase k l) _

theorem peek_eq_none_of_subset (h : peek k l = none) (hs : l' ⊆ l) : peek k l' = none :=
  peek_eq_none.mpr fun e he => peek_eq_none.mp h e (hs he)

theorem Distinct.put (h : Distinct l) (cap : Nat) (k : κ) (v : υ) :
    Distinct (put cap k v l) := by
  unfold Lru.put
  split
  · exact (h.erase k).cons (peek_erase k l) v
  next hk =>
    split
    · exact h.dropLast.cons (peek_eq_none_of_subset hk (List.dropLast_subset l)) v
    · exact h.cons hk v

theorem erase_of_peek_none (h : peek k l = none) : erase k l = l := by
  refine List.filter_eq_self.mpr fun e he => ?_
  simpa using peek_eq_none.mp h e he

theorem weight_erase (f : υ → Nat) {v : υ} (hd : Distinct l) (h : peek k l = some v) :
    f v + weight f (erase k l) = weight f l := by
  induction l with
  | nil => cases h
  | cons e l ih =>
    obtain ⟨hnot, hd⟩ := List.nodup_cons.mp hd
    by_cases he : e.1 = k
    ·
      have hnone : peek k l = none := by
        refine peek_eq_none.mpr fun e' he' heq => hnot ?_
        rw [he, ← heq]
        exact List.mem_map_of_mem he'
      have hv : e.2 = v := by simpa [peek, he] using h
      grind [erase.eq_1, erase_of_peek_none, weight_cons]
    · have hv : peek k l = some v := by simpa [peek, he] using h
      have herase : erase k (e :: l) = e :: erase k l :=
        List.filter_cons_of_pos (by simpa using he)
      rw [herase, weight_cons, weight_cons, ← ih hd hv]
      omega

theorem weight_touch (f : υ → Nat) (k : κ) (hd : Distinct l) :
    weight f (touch k l) = weight f l := by
  unfold touch
  split
  · rfl
  next v hv => exact weight_erase f hd hv

theorem length_touch (k : κ) (hd : Distinct l) :
    (touch k l).length = l.length := by
  rw [length_eq_weight, length_eq_weight, weight_touch _ k hd]

theorem length_erase_lt {v : υ} (hd : Distinct l) (h : peek k l = some v) :
    (erase k l).length + 1 = l.length := by
  grind [weight_erase, length_eq_weight]

theorem weight_put (f : υ → Nat) {cap : Nat} (v : υ) (hd : Distinct l)
    (hroom : peek k l = none → l.length < cap) :
    weight f (put cap k v l) + ((peek k l).map f).getD 0 = weight f l + f v := by
  unfold put
  split
  next old hold =>
    grind [weight_erase, weight_cons]
  next hnone =>
    rw [if_neg (by have := hroom hnone; omega)]
    simp [hnone]
    omega

theorem weight_put_dropped (f : υ → Nat) (cap : Nat) (k : κ) (v : υ) (hd : Distinct l) :
    ∃ dropped, weight f (put cap k v l) + ((peek k l).map f).getD 0 + dropped =
      weight f l + f v ∧ (l = [] → dropped = 0) := by
  by_cases hroom : peek k l = none → l.length < cap
  · simp_all [weight_put]
  · rw [Classical.not_imp] at hroom
    obtain ⟨hnone, hfull⟩ := hroom
    cases hlast : l.getLast? with
    | none =>
      obtain rfl : l = [] := List.getLast?_eq_none_iff.mp hlast
      refine ⟨0, ?_, fun _ => rfl⟩
      simp [put, hnone]
    | some e =>
      have hw := weight_dropLast f hlast
      refine ⟨f e.2, ?_, fun hnil => ?_⟩
      · simp only [put, hnone, if_pos (Nat.not_lt.mp hfull), weight_cons, Option.map_none,
          Option.getD_none]
        omega
      · rw [hnil] at hlast
        cases hlast

theorem room_of_prefix {cap : Nat} (hp : l' <+: l) (hle : l.length ≤ cap)
    (h : peek k l ≠ none ∨ l.length < cap) :
    peek k l' = none → l'.length < cap := by
  intro hnone
  have hlen := hp.length_le
  rcases h with h | h
  ·
    have hne : l'.length ≠ l.length := by
      intro heq
      rw [hp.eq_of_length heq] at hnone
      exact h hnone
    omega
  · omega

theorem length_put_le {cap : Nat} (v : υ) (hd : Distinct l) (hle : l.length ≤ cap)
    (hroom : peek k l = none → l.length < cap) :
    (put cap k v l).length ≤ cap := by
  have hw := weight_put (fun _ => 1) v hd hroom
  rw [← length_eq_weight, ← length_eq_weight] at hw
  cases hk : peek k l with
  | none =>
    have := hroom hk
    rw [hk] at hw
    simp at hw
    omega
  | some old =>
    rw [hk] at hw
    simp at hw
    omega

end Lru
