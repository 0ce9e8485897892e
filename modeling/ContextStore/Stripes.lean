import ContextStore.Distributed

/-!
# stripe への分け方
-/

namespace ContextStore

open Service Storage

variable {cs : Nat}

/-! ## 個数 -/

theorem divCeil_eq (a : Nat) (hcs : 0 < cs) : divCeil a cs = (a + cs - 1) / cs := by
  have hlt := Nat.mod_lt a hcs
  have hsplit : a + cs - 1 = (a % cs + cs - 1) + cs * (a / cs) := by
    have := Nat.div_add_mod a cs
    omega
  rw [hsplit, Nat.add_mul_div_left _ _ hcs]
  unfold divCeil
  split
  next h =>
    have : (a % cs + cs - 1) / cs = 0 := Nat.div_eq_of_lt (by omega)
    omega
  next h =>
    have : (a % cs + cs - 1) / cs = 1 := by
      rw [show a % cs + cs - 1 = (a % cs - 1) + cs by omega, Nat.add_div_right _ hcs,
        Nat.div_eq_of_lt (show a % cs - 1 < cs by omega)]
    omega

theorem le_divCeil_mul (a : Nat) (hcs : 0 < cs) : a ≤ divCeil a cs * cs := by
  unfold divCeil
  have hdm := Nat.div_add_mod a cs
  have hlt := Nat.mod_lt a hcs
  rw [Nat.add_mul, Nat.mul_comm (a / cs)]
  split <;> omega

theorem mul_lt_of_lt_divCeil {a i : Nat} (hcs : 0 < cs) (hi : i < divCeil a cs) : i * cs < a := by
  have hdm := Nat.div_add_mod a cs
  unfold divCeil at hi
  split at hi
  next h =>
    have : i * cs + cs ≤ a / cs * cs := by
      rw [← Nat.succ_mul]; exact Nat.mul_le_mul_right cs (by omega)
    rw [Nat.mul_comm] at hdm
    omega
  next h =>
    have : i * cs ≤ a / cs * cs := Nat.mul_le_mul_right cs (by omega)
    rw [Nat.mul_comm] at hdm
    omega

theorem divCeil_le_of_le_mul {a n : Nat} (hcs : 0 < cs) (h : a ≤ n * cs) : divCeil a cs ≤ n := by
  rw [divCeil_eq a hcs]
  exact Nat.lt_succ_iff.mp ((Nat.div_lt_iff_lt_mul hcs).mpr (by rw [Nat.succ_mul]; omega))

theorem getElem?_map_range {α : Type} {f : Nat → α} {n i : Nat} {x : α} :
    ((List.range n).map f)[i]? = some x ↔ i < n ∧ f i = x := by
  grind

/-! ## 1 つの stripe -/

theorem stripeOf_eq (data : Bytes) (i : Nat) :
    stripeOf cs data i = (data.drop (i * cs)).take cs := by
  grind [stripeOf, List.length_drop]

theorem length_stripeOf (data : Bytes) (i : Nat) :
    (stripeOf cs data i).length = min cs (data.length - i * cs) := by
  rw [stripeOf_eq, List.length_take, List.length_drop]

theorem flatten_stripes_take (data : Bytes) (n : Nat) :
    ((List.range n).map (stripeOf cs data)).flatten = data.take (n * cs) := by
  induction n with
  | zero => simp
  | succ n ih =>
    simp_all [List.range_succ, stripeOf_eq, Nat.succ_mul, List.take_add]

theorem flatten_stripes (data : Bytes) (hcs : 0 < cs) :
    ((List.range (divCeil data.length cs)).map (stripeOf cs data)).flatten = data := by
  rw [flatten_stripes_take, List.take_of_length_le (le_divCeil_mul _ hcs)]

def CursorOk (rest : List Bytes) (offset : Nat) : Prop :=
  ∀ seg more, rest = seg :: more → offset ≤ seg.length

theorem fillStripe_spec (stripeEnd : Nat) :
    ∀ (rest : List Bytes) (offset filled : Nat), CursorOk rest offset →
      (fillStripe stripeEnd rest offset filled).1.flatten =
          (rest.flatten.drop offset).take (stripeEnd - filled) ∧
        (fillStripe stripeEnd rest offset filled).2.1.flatten.drop
            (fillStripe stripeEnd rest offset filled).2.2 =
          (rest.flatten.drop offset).drop (stripeEnd - filled) ∧
        CursorOk (fillStripe stripeEnd rest offset filled).2.1
          (fillStripe stripeEnd rest offset filled).2.2 := by
  intro rest
  induction rest with
  | nil =>
    simp_all [fillStripe]
  | cons seg rest ih =>
    intro offset filled hc
    have hoff : offset ≤ seg.length := hc seg rest rfl
    unfold fillStripe
    split
    next hlt =>
      generalize htake : min (seg.length - offset) (stripeEnd - filled) = take
      have hpiece : (if take = seg.length ∧ offset = 0 then seg else (seg.drop offset).take take) =
          (seg.drop offset).take take := by
        split
        next h => obtain ⟨h₁, rfl⟩ := h; simp [h₁]
        · rfl
      simp only [hpiece]
      split
      next hfull =>
        have htake' : take = seg.length - offset := by omega
        obtain ⟨h₁, h₂, h₃⟩ := ih 0 (filled + take) (fun s more h => Nat.zero_le _)
        grind [List.take_append, List.drop_append]
      next hpart =>
        have htake' : take = stripeEnd - filled := by omega
        have hle : take ≤ (seg.drop offset).length := by rw [List.length_drop]; omega
        refine ⟨?_, ?_, ?_⟩
        · grind
        · rw [← htake', List.drop_drop]
        · intro s more h
          cases h
          show offset + take ≤ seg.length
          omega
    simp_all

theorem rebucket_spec (data : Bytes) :
    ∀ (n j : Nat) (rest : List Bytes) (offset : Nat), CursorOk rest offset →
      rest.flatten.drop offset = data.drop (j * cs) →
      (rebucket cs data.length (List.range' j n) rest offset).map List.flatten =
        (List.range' j n).map (stripeOf cs data) := by
  intro n
  induction n with
  | zero => intros; rfl
  | succ n ih =>
    intro j rest offset hc hrest
    obtain ⟨h₁, h₂, h₃⟩ := fillStripe_spec (min (j * cs + cs) data.length) rest offset (j * cs) hc
    rw [List.range'_succ]
    simp only [rebucket, List.map_cons]
    rw [h₁, hrest]
    congr 1
    refine ih (j + 1) _ _ h₃ ?_
    rw [h₂, hrest, List.drop_drop, Nat.succ_mul]
    grind [List.drop_of_length_le]

theorem rebucket_eq (segments : List Bytes) (n : Nat) :
    (rebucket cs segments.flatten.length (List.range n) segments 0).map List.flatten =
      (List.range n).map (stripeOf cs segments.flatten) := by
  rw [List.range_eq_range']
  refine rebucket_spec segments.flatten n 0 segments 0 ?_ (by simp)
  intro seg more _
  exact Nat.zero_le _

end ContextStore
