import Mathlib.Logic.Function.Basic
import Mathlib.Data.List.Infix
import Mathlib.Order.MinMax

/-!
# 印のついた trie

節ごとに値を持つ trie。
-/

namespace ContextStore

inductive Trie (κ β : Type) where
  | node (children : κ → Option (Trie κ β)) (value : β)

namespace Trie

variable {κ β : Type}

def value : Trie κ β → β
  | .node _ v => v

def children : Trie κ β → κ → Option (Trie κ β)
  | .node ch _ => ch

def leaf (v : β) : Trie κ β := .node (fun _ => none) v

def update (f : β → β) : Trie κ β → Trie κ β
  | .node ch v => .node ch (f v)

@[simp] theorem value_update (f : β → β) (t : Trie κ β) : (t.update f).value = f t.value := by
  cases t; rfl

@[simp] theorem children_update (f : β → β) (t : Trie κ β) :
    (t.update f).children = t.children := by
  cases t; rfl

def visit [DecidableEq κ] (init : β) (t : Trie κ β) : List (κ × (β → β)) → Trie κ β
  | [] => t
  | (k, f) :: rest =>
    let child := (t.children k).getD (leaf init)
    .node (Function.update t.children k (some (visit init (child.update f) rest))) t.value

def walk (ok : β → Bool) (t : Trie κ β) : List κ → Nat
  | [] => 0
  | k :: ks =>
    match t.children k with
    | none => 0
    | some child => if ok child.value then walk ok child ks + 1 else 0

def at? (t : Trie κ β) : List κ → Option β
  | [] => some t.value
  | k :: ks => (t.children k).bind fun child => child.at? ks

def valueAt (init : β) (t : Trie κ β) (p : List κ) : β := (t.at? p).getD init

def amend [DecidableEq κ] (f : β → β) (t : Trie κ β) : List κ → Trie κ β
  | [] => t.update f
  | k :: ks =>
    match t.children k with
    | none => t.update f
    | some child => .node (Function.update t.children k (some (amend f child ks))) t.value

def Marked (ok : β → Bool) (t : Trie κ β) (p : List κ) : Prop :=
  ∃ v, t.at? p = some v ∧ ok v = true

variable {ok : β → Bool} {t : Trie κ β}

theorem marked_cons {k : κ} {ks : List κ} :
    t.Marked ok (k :: ks) ↔ ∃ child, t.children k = some child ∧ child.Marked ok ks := by
  constructor
  · rintro ⟨v, hv, hok⟩
    obtain ⟨child, hc, hv⟩ := Option.bind_eq_some_iff.mp hv
    exact ⟨child, hc, v, hv, hok⟩
  · rintro ⟨child, hc, v, hv, hok⟩
    exact ⟨v, Option.bind_eq_some_iff.mpr ⟨child, hc, hv⟩, hok⟩

theorem marked_nil : t.Marked ok [] ↔ ok t.value = true := by
  constructor
  · rintro ⟨v, hv, hok⟩
    cases hv
    exact hok
  · exact fun h => ⟨t.value, rfl, h⟩

theorem not_marked_leaf {v : β} {k : κ} {ks : List κ} :
    ¬ (leaf v : Trie κ β).Marked ok (k :: ks) := by
  rw [marked_cons]
  rintro ⟨child, hc, -⟩
  cases hc

theorem marked_update {f : β → β} {k : κ} {ks : List κ} :
    (t.update f).Marked ok (k :: ks) ↔ t.Marked ok (k :: ks) := by
  rw [marked_cons, marked_cons, children_update]

theorem marked_visit [DecidableEq κ] {init : β} {steps : List (κ × (β → β))}
    (hmark : ∀ s ∈ steps, ∀ v, ok (s.2 v) = true) {k : κ} {ks : List κ} :
    (t.visit init steps).Marked ok (k :: ks) ↔
      t.Marked ok (k :: ks) ∨ (k :: ks) <+: steps.map Prod.fst := by
  induction steps generalizing t k ks with
  | nil => simp [visit]
  | cons s steps ih =>
    obtain ⟨j, f⟩ := s
    have hrest : ∀ s ∈ steps, ∀ v, ok (s.2 v) = true :=
      fun s hs => hmark s (List.mem_cons_of_mem _ hs)
    rw [List.map_cons, List.cons_prefix_cons, marked_cons]
    by_cases hk : k = j
    · subst hk
      have hchild : (t.visit init ((k, f) :: steps)).children k =
          some ((((t.children k).getD (leaf init)).update f).visit init steps) :=
        Function.update_self ..
      simp only [hchild, Option.some.injEq, exists_eq_left', true_and]
      cases ks with
      | nil =>
        have hroot : ∀ (steps : List (κ × (β → β))) (t : Trie κ β),
            (t.visit init steps).value = t.value := by
          intro steps t
          cases steps <;> rfl
        simp_all [marked_nil]
      | cons k' ks' =>
        rw [ih hrest, marked_update, marked_cons (t := t)]
        cases hc : t.children k with
        | some child => simp
        | none =>
          grind [not_marked_leaf]
    · simp_all [children, visit, marked_cons]

theorem le_walk_iff {q : List κ} {m : Nat} :
    m ≤ t.walk ok q ↔ m ≤ q.length ∧ ∀ j, 0 < j → j ≤ m → t.Marked ok (q.take j) := by
  induction q generalizing t m with
  | nil =>
    simp only [walk, List.length_nil, Nat.le_zero_eq]
    grind
  | cons k ks ih =>
    by_cases hm : m = 0
    · grind
    obtain ⟨m, rfl⟩ := Nat.exists_eq_succ_of_ne_zero hm
    have hone : t.Marked ok ((k :: ks).take 1) ↔
        ∃ child, t.children k = some child ∧ ok child.value = true := by
      show t.Marked ok [k] ↔ _
      simp only [marked_cons, marked_nil]
    cases hc : t.children k with
    | none =>
      constructor
      · intro h
        simp [walk, hc] at h
      · grind
    | some child =>
      by_cases hok : ok child.value = true
      · have hstep : ∀ j, t.Marked ok ((k :: ks).take (j + 1)) ↔ child.Marked ok (ks.take j) := by
          intro j
          rw [List.take_succ_cons, marked_cons]
          simp [hc]
        simp only [walk, hc, hok, if_true, Nat.succ_eq_add_one, Nat.add_le_add_iff_right,
          List.length_cons, ih]
        refine and_congr_right fun _ => ⟨fun h j h₀ h₁ => ?_, fun h j h₀ h₁ => ?_⟩
        · obtain ⟨j, rfl⟩ := Nat.exists_eq_succ_of_ne_zero (Nat.pos_iff_ne_zero.mp h₀)
          grind
        · exact (hstep j).mp (h (j + 1) (by omega) (by omega))
      · constructor
        · intro h
          simp [walk, hc, hok] at h
        · grind

section ValueAt

variable {init : β} {k : κ} {ks : List κ}

theorem marked_iff_valueAt (hinit : ok init = false) {p : List κ} :
    t.Marked ok p ↔ ok (t.valueAt init p) = true := by
  unfold Marked valueAt
  cases t.at? p with
  | none => simp [hinit]
  | some v => simp

theorem valueAt_nil : t.valueAt init [] = t.value := rfl

theorem valueAt_cons :
    t.valueAt init (k :: ks) = ((t.children k).getD (leaf init)).valueAt init ks := by
  unfold valueAt
  rw [at?]
  cases t.children k with
  | some child => rfl
  | none =>
    cases ks with
    | nil => rfl
    | cons k' ks' => rfl

theorem valueAt_update_cons {f : β → β} :
    (t.update f).valueAt init (k :: ks) = t.valueAt init (k :: ks) := by
  rw [valueAt_cons, valueAt_cons, children_update]

theorem valueAt_leaf {p : List κ} : (leaf init : Trie κ β).valueAt init p = init := by
  cases p with
  | nil => rfl
  | cons k ks => rfl

def steps (G : List κ → β → β) (path : List κ) : List (κ × (β → β)) :=
  path.mapIdx fun i k => (k, G (path.take (i + 1)))

theorem steps_cons (G : List κ → β → β) (k : κ) (path : List κ) :
    steps G (k :: path) = (k, G [k]) :: steps (fun q => G (k :: q)) path := by
  unfold steps
  rw [List.mapIdx_cons]
  rfl

variable [DecidableEq κ]

theorem value_visit (l : List (κ × (β → β))) : (t.visit init l).value = t.value := by
  cases l <;> rfl

theorem valueAt_visit (G : List κ → β → β) (path : List κ) :
    (t.visit init (steps G path)).valueAt init (k :: ks) =
      if (k :: ks) <+: path then G (k :: ks) (t.valueAt init (k :: ks))
      else t.valueAt init (k :: ks) := by
  induction path generalizing t k ks G with
  | nil => simp [steps, visit]
  | cons j path ih =>
    rw [steps_cons, valueAt_cons]
    simp only [List.cons_prefix_cons]
    by_cases hk : k = j
    · subst hk
      have hchild : (t.visit init ((k, G [k]) :: steps (fun q => G (k :: q)) path)).children k =
          some ((((t.children k).getD (leaf init)).update (G [k])).visit init
            (steps (fun q => G (k :: q)) path)) := Function.update_self ..
      rw [hchild, Option.getD_some]
      cases ks with
      | nil => simp [valueAt_nil, value_visit, valueAt_cons]
      | cons k' ks' =>
        rw [ih, valueAt_update_cons, ← valueAt_cons (t := t)]
        simp
    · simp_all [children, visit, valueAt_cons]

theorem valueAt_amend {f : β → β} {path : List κ} (hpath : (t.at? path).isSome)
    (p : List κ) :
    (t.amend f path).valueAt init p =
      if p = path then f (t.valueAt init p) else t.valueAt init p := by
  induction path generalizing t p with
  | nil =>
    cases p with
    | nil => simp [amend, valueAt_nil]
    | cons k ks => simp [amend, valueAt_update_cons]
  | cons j path ih =>
    obtain ⟨v, hv⟩ := Option.isSome_iff_exists.mp hpath
    obtain ⟨child, hc, hchild⟩ := Option.bind_eq_some_iff.mp hv
    have hamend : t.amend f (j :: path) =
        .node (Function.update t.children j (some (child.amend f path))) t.value := by
      rw [amend, hc]
    rw [hamend]
    cases p with
    | nil => simp [valueAt_nil, value]
    | cons k ks =>
      rw [valueAt_cons, valueAt_cons (t := t)]
      by_cases hk : k = j
      · subst hk
        have hnew : (node (Function.update t.children k (some (child.amend f path)))
            t.value).children k = some (child.amend f path) := Function.update_self ..
        simp_all
      · simp_all [children]

end ValueAt

end Trie

def commonLength {α : Type} [DecidableEq α] : List α → List α → Nat
  | a :: as, b :: bs => if a = b then commonLength as bs + 1 else 0
  | _, _ => 0

theorem le_commonLength_iff {α : Type} [DecidableEq α] {p q : List α} {m : Nat} :
    m ≤ commonLength p q ↔ m ≤ p.length ∧ p.take m <+: q := by
  induction p generalizing q m with
  | nil =>
    simp_all [commonLength]
  | cons a as ih =>
    cases m with
    | zero => simp
    | succ m =>
      cases q with
      | nil => simp [commonLength]
      | cons b bs =>
        by_cases hab : a = b
        · subst hab
          simp [commonLength, ih, List.cons_prefix_cons]
        · simp [commonLength, hab, List.cons_prefix_cons]

def longestCommon {α : Type} [DecidableEq α] (p : List α) (qs : List (List α)) : Nat :=
  (qs.map (commonLength p)).foldr max 0

theorem le_longestCommon_iff {α : Type} [DecidableEq α] {p : List α} {qs : List (List α)} {m : Nat}
    (hm : 0 < m) : m ≤ longestCommon p qs ↔ ∃ q ∈ qs, m ≤ commonLength p q := by
  induction qs with
  | nil => simp [longestCommon]; omega
  | cons q qs ih =>
    simp_all [longestCommon]

end ContextStore
