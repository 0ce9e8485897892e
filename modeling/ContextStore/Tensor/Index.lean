import Mathlib.Algebra.BigOperators.Group.List.Basic
import Mathlib.Data.List.GetD
import Mathlib.Data.List.Nodup
import Mathlib.Tactic.Ring

/-!
# 連続な tensor と、1 つの次元に沿った選択と書き込み

要素を行優先で byte に並べた tensor。
-/

namespace Dense

section Grid

variable {α β : Type}

def grid (m : Nat) (xs : List α) (f : Nat → α → List β) : List β :=
  (List.range m).flatMap fun o => xs.flatMap (f o)

def cell (n w : Nat) (data : List β) (o i : Nat) : List β := (data.drop ((o * n + i) * w)).take w

theorem slice_flatMap {f : α → List β} {w : Nat} {xs : List α}
    (hw : ∀ x ∈ xs, (f x).length = w) {i : Nat} {x : α} (hx : xs[i]? = some x) :
    ((xs.flatMap f).drop (i * w)).take w = f x := by
  induction xs generalizing i with
  | nil => cases hx
  | cons y ys ih =>
    have hy := hw y List.mem_cons_self
    cases i with
    | zero =>
      simp_all
    | succ i =>
      rw [List.flatMap_cons, Nat.succ_mul, Nat.add_comm, ← List.drop_drop, List.drop_left' hy]
      exact ih (fun x h => hw x (List.mem_cons_of_mem _ h)) hx

theorem length_flatMap_const {f : α → List β} {w : Nat} {xs : List α}
    (hw : ∀ x ∈ xs, (f x).length = w) : (xs.flatMap f).length = xs.length * w := by
  induction xs with
  | nil => simp
  | cons x xs ih =>
    rw [List.flatMap_cons, List.length_append, hw x List.mem_cons_self,
      ih fun y hy => hw y (List.mem_cons_of_mem _ hy), List.length_cons, Nat.succ_mul, Nat.add_comm]

theorem flatMap_take_drop (l : List β) (w k : Nat) :
    ((List.range k).flatMap fun i => (l.drop (i * w)).take w) = l.take (k * w) := by
  induction k with
  | zero => simp
  | succ k ih =>
    rw [List.range_succ, List.flatMap_append, ih, List.flatMap_singleton, Nat.succ_mul,
      List.take_add]

variable {m n w : Nat} {xs : List α} {f : Nat → α → List β} {data : List β} {o i : Nat}

theorem length_grid (hw : ∀ o < m, ∀ x ∈ xs, (f o x).length = w) :
    (grid m xs f).length = m * xs.length * w := by
  unfold grid
  rw [length_flatMap_const (w := xs.length * w) fun o ho =>
    length_flatMap_const (hw o (List.mem_range.mp ho)), List.length_range, Nat.mul_assoc]

theorem cell_grid (hw : ∀ o < m, ∀ x ∈ xs, (f o x).length = w) (ho : o < m) {x : α}
    (hx : xs[i]? = some x) : cell xs.length w (grid m xs f) o i = f o x := by
  have hi : i < xs.length := (List.getElem?_eq_some_iff.mp hx).1
  have houter := slice_flatMap (f := fun o => xs.flatMap (f o)) (w := xs.length * w)
    (fun o ho => length_flatMap_const (hw o (List.mem_range.mp ho))) (List.getElem?_range ho)
  have hinner := slice_flatMap (hw o ho) hx
  have hroom : w ≤ xs.length * w - i * w := by
    rw [← Nat.sub_mul]
    exact Nat.le_mul_of_pos_left _ (by omega)
  unfold cell grid
  rw [← hinner, ← houter, List.drop_take, List.take_take, Nat.min_eq_left hroom, List.drop_drop]
  congr 2
  ring

theorem length_cell (hdata : data.length = m * n * w) (ho : o < m) (hi : i < n) :
    (cell n w data o i).length = w := by
  have hbound : (o * n + i + 1) * w ≤ m * n * w := by
    refine Nat.mul_le_mul_right _ ?_
    calc o * n + i + 1 ≤ o * n + n := by omega
      _ = (o + 1) * n := by ring
      _ ≤ m * n := Nat.mul_le_mul_right _ ho
  have hsplit : (o * n + i + 1) * w = (o * n + i) * w + w := by ring
  unfold cell
  rw [List.length_take, List.length_drop, hdata]
  omega

end Grid

section CopyRows

variable {β : Type}

def copyRows (ids : List Nat) (src : Nat → β) (row : Nat → β) : Nat → β :=
  ids.zipIdx.foldl (fun row (b, j) => Function.update row b (src j)) row

theorem foldl_update_of_ne {src : Nat → β} {b : Nat} {pairs : List (Nat × Nat)} {row : Nat → β}
    (h : ∀ x ∈ pairs, x.1 ≠ b) :
    pairs.foldl (fun row (b, j) => Function.update row b (src j)) row b = row b := by
  induction pairs generalizing row with
  | nil => rfl
  | cons x pairs ih =>
    simp_all [symm]

variable {ids : List Nat} {src row : Nat → β} {b : Nat}

theorem copyRows_of_notMem (h : b ∉ ids) : copyRows ids src row b = row b := by
  refine foldl_update_of_ne fun x hx hb => h ?_
  rw [← hb]
  exact List.fst_mem_of_mem_zipIdx hx

variable (src row) in
theorem copyRows_of_mem (h : b ∈ ids) :
    ∃ j : Nat, ids[j]? = some b ∧ copyRows ids src row b = src j := by
  have hloop : ∀ (pairs : List (Nat × Nat)) (row : Nat → β), (∃ j, (b, j) ∈ pairs) →
      ∃ j, (b, j) ∈ pairs ∧
        pairs.foldl (fun row (b, j) => Function.update row b (src j)) row b = src j := by
    intro pairs
    induction pairs with
    | nil => rintro row ⟨j, hj⟩; cases hj
    | cons x pairs ih =>
      rintro row ⟨j, hj⟩
      by_cases hlater : ∃ j, (b, j) ∈ pairs
      · obtain ⟨j', hmem, heq⟩ := ih (Function.update row x.1 (src x.2)) hlater
        exact ⟨j', List.mem_cons_of_mem _ hmem, heq⟩
      ·
        rcases List.mem_cons.mp hj with rfl | hj
        · refine ⟨j, List.mem_cons_self, ?_⟩
          rw [List.foldl_cons, foldl_update_of_ne fun y hy hb =>
            hlater ⟨y.2, by rw [← hb]; exact hy⟩]
          exact Function.update_self ..
        · exact absurd ⟨j, hj⟩ hlater
  obtain ⟨j, hj⟩ := List.mem_iff_getElem?.mp h
  obtain ⟨j', hmem, heq⟩ := hloop ids.zipIdx row ⟨j, List.mk_mem_zipIdx_iff_getElem?.mpr hj⟩
  exact ⟨j', List.mk_mem_zipIdx_iff_getElem?.mp hmem, heq⟩

theorem copyRows_getElem? (hd : ids.Nodup) {k : Nat} (hk : ids[k]? = some b) :
    copyRows ids src row b = src k := by
  obtain ⟨j, hj, heq⟩ := copyRows_of_mem src row (List.mem_of_getElem? hk)
  obtain ⟨hjlt, hjb⟩ := List.getElem?_eq_some_iff.mp hj
  obtain ⟨hklt, hkb⟩ := List.getElem?_eq_some_iff.mp hk
  have hjk : j = k := (List.Nodup.getElem_inj_iff hd).mp (hjb.trans hkb.symm)
  rw [heq, hjk]

end CopyRows

/-! ## tensor -/

structure Dtype where
  name : String
  itemsize : Nat
deriving DecidableEq, Repr

/-- 連続な tensor。 -/
structure Tensor where
  shape : List Nat
  dtype : Dtype
  data : List UInt8
  length_eq : data.length = shape.prod * dtype.itemsize

namespace Tensor

variable (t : Tensor) (d : Nat)

/-- `numel()`。 -/
def numel : Nat := t.shape.prod

/-- `size(d)`。 -/
def size : Nat := t.shape.getD d 1

/-- `d` より外側の添字の数。 -/
def outer : Nat := (t.shape.take d).prod

def inner : Nat := (t.shape.drop (d + 1)).prod * t.dtype.itemsize

def row (o i : Nat) : List UInt8 := cell (t.size d) (t.inner d) t.data o i

/-- `select(d, i)` の中身。 -/
def block (i : Nat) : List UInt8 := (List.range (t.outer d)).flatMap fun o => t.row d o i

theorem length_data : t.data.length = t.outer d * t.size d * t.inner d := by
  have hprod : t.shape.prod = (t.shape.take d).prod * t.size d * (t.shape.drop (d + 1)).prod := by
    by_cases hd : d < t.shape.length
    · have hset := List.prod_set t.shape d t.shape[d]
      simp_all [size.eq_1]
    · have hle := Nat.le_of_not_lt hd
      rw [List.take_of_length_le hle, List.drop_of_length_le (by omega), size,
        List.getD_eq_default _ _ hle, List.prod_nil, Nat.mul_one, Nat.mul_one]
  rw [t.length_eq, hprod]
  unfold outer inner
  ring

theorem length_row {o i : Nat} (ho : o < t.outer d) (hi : i < t.size d) :
    (t.row d o i).length = t.inner d :=
  length_cell (t.length_data d) ho hi

theorem length_block {i : Nat} (hi : i < t.size d) :
    (t.block d i).length = t.outer d * t.inner d := by
  unfold block
  rw [length_flatMap_const fun o ho => t.length_row d (List.mem_range.mp ho) hi, List.length_range]

theorem length_set {n : Nat} (hd : d < t.shape.length) {data : List UInt8}
    (h : data.length = t.outer d * n * t.inner d) :
    data.length = (t.shape.set d n).prod * t.dtype.itemsize := by
  rw [h, List.prod_set, if_pos hd]
  unfold outer inner
  ring

/-- `index_select(d, ids)`。 -/
def indexSelect (ids : List Nat) : Except String Tensor :=
  if h : d < t.shape.length ∧ ∀ i ∈ ids, i < t.size d then
    .ok ⟨t.shape.set d ids.length, t.dtype, grid (t.outer d) ids (t.row d),
      t.length_set d h.1 (length_grid fun _ ho i hi => t.length_row d ho (h.2 i hi))⟩
  else .error "index out of range in self"

theorem outer_inner_of_set {t src : Tensor} {d n : Nat} (hd : d < t.shape.length)
    (hs : src.shape = t.shape.set d n) (ht : src.dtype = t.dtype) :
    src.outer d = t.outer d ∧ src.size d = n ∧ src.inner d = t.inner d := by
  refine ⟨?_, ?_, ?_⟩
  · rw [outer, outer, hs, List.take_set_of_le (Nat.le_refl d)]
  · rw [size, hs, List.getD_eq_getElem _ _ (by simpa using hd), List.getElem_set_self]
  · rw [inner, inner, hs, ht, List.drop_set_of_lt (Nat.lt_succ_self d)]

variable {ids : List Nat}

theorem length_copyRows {t src : Tensor} {d : Nat} (hd : d < t.shape.length)
    (hs : src.shape = t.shape.set d ids.length) (ht : src.dtype = t.dtype) :
    ∀ o < t.outer d, ∀ i ∈ List.range (t.size d),
      (copyRows ids (src.row d o) (t.row d o) i).length = t.inner d := by
  obtain ⟨hout, hn, hw⟩ := outer_inner_of_set hd hs ht
  intro o ho i hi
  by_cases hmem : i ∈ ids
  · obtain ⟨j, hj, heq⟩ := copyRows_of_mem (src.row d o) (t.row d o) hmem
    rw [heq, ← hw]
    exact src.length_row d (hout ▸ ho) (hn ▸ (List.getElem?_eq_some_iff.mp hj).1)
  · simp_all [copyRows_of_notMem, length_row]

/-- `index_copy_(d, ids, src)`。 -/
def indexCopy (ids : List Nat) (src : Tensor) : Except String Tensor :=
  if h : d < t.shape.length ∧ src.shape = t.shape.set d ids.length ∧ src.dtype = t.dtype ∧
      ∀ i ∈ ids, i < t.size d then
    .ok ⟨t.shape, t.dtype,
      grid (t.outer d) (List.range (t.size d)) fun o => copyRows ids (src.row d o) (t.row d o), by
        rw [length_grid (length_copyRows h.1 h.2.1 h.2.2.1), List.length_range, ← t.length_data d,
          t.length_eq]⟩
  else .error "index_copy_(): source and index do not fit the destination"

variable {t d}

theorem indexSelect_ok (hd : d < t.shape.length) (hids : ∀ i ∈ ids, i < t.size d) :
    ∃ g, t.indexSelect d ids = .ok g ∧ g.data = grid (t.outer d) ids (t.row d) := by
  unfold indexSelect
  rw [dif_pos ⟨hd, hids⟩]
  exact ⟨_, rfl, rfl⟩

theorem indexCopy_ok {src : Tensor} (hd : d < t.shape.length)
    (hs : src.shape = t.shape.set d ids.length) (ht : src.dtype = t.dtype)
    (hids : ∀ i ∈ ids, i < t.size d) :
    ∃ t', t.indexCopy d ids src = .ok t' ∧ t'.shape = t.shape ∧ t'.dtype = t.dtype ∧
      ∀ o < t.outer d, ∀ i < t.size d,
        t'.row d o i = copyRows ids (src.row d o) (t.row d o) i := by
  unfold indexCopy
  rw [dif_pos ⟨hd, hs, ht, hids⟩]
  refine ⟨_, rfl, rfl, rfl, ?_⟩
  intro o ho i hi
  have hcell := cell_grid (length_copyRows hd hs ht) ho (List.getElem?_range hi)
  rw [List.length_range] at hcell
  exact hcell

theorem block_congr {t t' : Tensor} {i i' : Nat} (hout : t.outer d = t'.outer d)
    (h : ∀ o < t.outer d, t.row d o i = t'.row d o i') : t.block d i = t'.block d i' := by
  unfold block
  rw [← hout]
  refine List.flatMap_congr fun o ho => ?_
  exact h o (List.mem_range.mp ho)

theorem indexCopy_blocks {t₀ src : Tensor} {ids dst : List Nat} (hd : d < t.shape.length)
    (hout : t.outer d = t₀.outer d) (hdst : ∀ i ∈ dst, i < t.size d) (hnodup : dst.Nodup)
    (hs : src.shape = t.shape.set d dst.length) (ht : src.dtype = t.dtype)
    (hsrc : ∀ o < t.outer d, ∀ (k b : Nat), ids[k]? = some b → src.row d o k = t₀.row d o b) :
    ∃ t', t.indexCopy d dst src = .ok t' ∧ t'.shape = t.shape ∧ t'.dtype = t.dtype ∧
      (∀ (k b b' : Nat), ids[k]? = some b → dst[k]? = some b' → t'.block d b' = t₀.block d b) ∧
      ∀ b < t.size d, b ∉ dst → t'.block d b = t.block d b := by
  obtain ⟨t', hok, hshape', hdtype', hrow⟩ := indexCopy_ok hd hs ht hdst
  have hout' : t'.outer d = t.outer d := by rw [outer, outer, hshape']
  refine ⟨t', hok, hshape', hdtype', ?_, ?_⟩
  · intro k b b' hb hb'
    refine block_congr (hout'.trans hout) fun o ho => ?_
    grind [copyRows_getElem?]
  · grind [block_congr, copyRows_of_notMem]

theorem indexCopy_indexSelect {t₀ src : Tensor} {ids dst : List Nat} (hd : d < t.shape.length)
    (hshape : t.shape = t₀.shape) (hdtype : t.dtype = t₀.dtype) (hlen : ids.length = dst.length)
    (hids : ∀ i ∈ ids, i < t₀.size d) (hdst : ∀ i ∈ dst, i < t.size d) (hnodup : dst.Nodup)
    (hs : src.shape = t.shape.set d dst.length) (ht : src.dtype = t.dtype)
    (hdata : src.data = grid (t₀.outer d) ids (t₀.row d)) :
    ∃ t', t.indexCopy d dst src = .ok t' ∧ t'.shape = t.shape ∧ t'.dtype = t.dtype ∧
      (∀ (k b b' : Nat), ids[k]? = some b → dst[k]? = some b' → t'.block d b' = t₀.block d b) ∧
      ∀ b < t.size d, b ∉ dst → t'.block d b = t.block d b := by
  obtain ⟨-, hn, hw⟩ := outer_inner_of_set hd hs ht
  have hout : t.outer d = t₀.outer d := by rw [outer, outer, hshape]
  have hin : t.inner d = t₀.inner d := by rw [inner, inner, hshape, hdtype]
  refine indexCopy_blocks hd hout hdst hnodup hs ht fun o ho k b hb => ?_
  grind [row.eq_1, cell_grid, length_row]

end Tensor

end Dense
