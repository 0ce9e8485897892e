import ContextStore.Util.Lru

/-!
# 順序つきの辞書

Python の `OrderedDict`: 古いものが先頭に来る連想列。
-/

namespace OrderedDict

open Lru

variable {κ υ : Type} [DecidableEq κ]

/-- `d[k] = v`。 -/
def set (k : κ) (v : υ) (d : List (κ × υ)) : List (κ × υ) :=
  match peek k d with
  | none => d ++ [(k, v)]
  | some _ => d.map fun e => if e.1 = k then (k, v) else e

/-- `d.move_to_end(k)`。 -/
def moveToEnd (k : κ) (d : List (κ × υ)) : List (κ × υ) :=
  match peek k d with
  | none => d
  | some v => erase k d ++ [(k, v)]

def write (k : κ) (v : υ) (d : List (κ × υ)) : List (κ × υ) := erase k d ++ [(k, v)]

theorem peek_append_self (k : κ) (v : υ) (d : List (κ × υ)) :
    peek k (erase k d ++ [(k, v)]) = some v := by
  have hnone : (erase k d).find? (fun e => e.1 = k) = none := by
    simpa [peek] using peek_erase k d
  simp [peek, List.find?_append, hnone]

theorem erase_append_self (k : κ) (v : υ) (d : List (κ × υ)) :
    erase k (erase k d ++ [(k, v)]) = erase k d := by
  simp [erase]

variable {d : List (κ × υ)} {k : κ}

theorem map_replace_of_ne {v : υ} (h : ∀ e ∈ d, e.1 ≠ k) :
    d.map (fun e => if e.1 = k then (k, v) else e) = d := by
  refine (List.map_congr_left fun e he => ?_).trans (List.map_id d)
  exact if_neg (h e he)

theorem set_moveToEnd (k : κ) (v : υ) (d : List (κ × υ)) :
    set k v (moveToEnd k d) = write k v d := by
  unfold moveToEnd write
  split
  next hnone => rw [set, hnone, erase_of_peek_none hnone]
  simp_all [set, peek_append_self, map_replace_of_ne, mem_erase]

theorem erase_map_replace (k : κ) (v : υ) (d : List (κ × υ)) :
    erase k (d.map fun e => if e.1 = k then (k, v) else e) = erase k d := by
  induction d with
  | nil => rfl
  | cons e d ih =>
    unfold erase at ih ⊢
    rw [List.map_cons, List.filter_cons, List.filter_cons, ih]
    by_cases he : e.1 = k <;> simp [he]

theorem peek_map_replace (v : υ) (h : peek k d ≠ none) :
    peek k (d.map fun e => if e.1 = k then (k, v) else e) = some v := by
  induction d with
  | nil => exact absurd rfl h
  | cons e d ih =>
    by_cases he : e.1 = k
    · simp [peek, he]
    · have hd : peek k d ≠ none := by simpa [peek, he] using h
      have := ih hd
      simpa [peek, he] using this

theorem moveToEnd_set (k : κ) (v : υ) (d : List (κ × υ)) :
    moveToEnd k (set k v d) = write k v d := by
  unfold set
  split
  next hnone =>
    have hself : d ++ [(k, v)] = erase k d ++ [(k, v)] := by rw [erase_of_peek_none hnone]
    rw [hself, moveToEnd, peek_append_self, erase_append_self]
    rfl
  next old hold =>
    rw [moveToEnd, peek_map_replace v (by rw [hold]; exact Option.some_ne_none old),
      erase_map_replace]
    rfl

theorem mem_write {e : κ × υ} {v : υ} (h : e ∈ write k v d) :
    e = (k, v) ∨ e ∈ d ∧ e.1 ≠ k := by
  rcases List.mem_append.mp h with h | h
  · exact .inr (mem_erase.mp h)
  · exact .inl (List.mem_singleton.mp h)

theorem mem_of_mem_moveToEnd {e : κ × υ} (h : e ∈ moveToEnd k d) :
    e ∈ d := by
  unfold moveToEnd at h
  split at h
  · exact h
  next v hv =>
    rcases mem_write h with rfl | h
    · exact mem_of_peek hv
    · exact h.1

theorem distinct_write (hd : Distinct d) (k : κ) (v : υ) :
    Distinct (write k v d) := by
  have hperm : (write k v d).Perm ((k, v) :: erase k d) := List.perm_append_singleton _ _
  exact (hperm.map Prod.fst).nodup_iff.mpr ((hd.erase k).cons (peek_erase k d) v)

theorem weight_write (f : υ → Nat) (k : κ) (v : υ) (d : List (κ × υ)) :
    weight f (write k v d) = weight f (erase k d) + f v := by
  simp [weight, write]

theorem distinct_moveToEnd (hd : Distinct d) (k : κ) :
    Distinct (moveToEnd k d) := by
  unfold moveToEnd
  split
  · exact hd
  · exact distinct_write hd k _

theorem weight_moveToEnd (f : υ → Nat) (k : κ) (hd : Distinct d) :
    weight f (moveToEnd k d) = weight f d := by
  unfold moveToEnd
  split
  · rfl
  next v hv =>
    have hw := weight_erase f hd hv
    rw [show erase k d ++ [(k, v)] = write k v d from rfl, weight_write]
    omega

theorem weight_write_add (f : υ → Nat) (k : κ) (v : υ) (hd : Distinct d) :
    weight f (write k v d) + ((peek k d).map f).getD 0 = weight f d + f v := by
  rw [weight_write]
  cases hk : peek k d with
  | none => simp [erase_of_peek_none hk]
  | some old =>
    grind [weight_erase]

end OrderedDict
