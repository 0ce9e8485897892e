import Mathlib.Data.Finset.Max
import Mathlib.Data.Set.Pairwise.Basic
import Mathlib.Order.CompletePartialOrder
import Mathlib.Order.Interval.Set.Basic
import Mathlib.Tactic.Common

/-!
# 空き区間の集合
-/

namespace Alloc

section Ends

variable {α : Type*} [LinearOrder α] {s : Finset α} {a : α}

def least? (s : Finset α) : Option α := if h : s.Nonempty then some (s.min' h) else none

def greatest? (s : Finset α) : Option α := if h : s.Nonempty then some (s.max' h) else none

theorem least?_eq_some_iff : least? s = some a ↔ a ∈ s ∧ ∀ b ∈ s, a ≤ b := by
  unfold least?
  grind [Finset.min'_mem, Finset.min'_le, le_antisymm]

theorem least?_eq_none_iff : least? s = none ↔ s = ∅ := by
  unfold least?
  simp

theorem greatest?_eq_some_iff : greatest? s = some a ↔ a ∈ s ∧ ∀ b ∈ s, b ≤ a := by
  unfold greatest?
  grind [Finset.max'_mem, Finset.le_max', le_antisymm]

theorem greatest?_eq_none_iff : greatest? s = none ↔ s = ∅ := by
  unfold greatest?
  simp

end Ends

/-! ## 区間 -/

structure Block where
  off : ℕ
  len : ℕ
deriving DecidableEq, Repr

namespace Block

def stop (b : Block) : ℕ := b.off + b.len

def cells (b : Block) : Set ℕ := Set.Ico b.off b.stop

theorem mem_cells {b : Block} {x : ℕ} : x ∈ b.cells ↔ b.off ≤ x ∧ x < b.stop := Iff.rfl

def Apart (a b : Block) : Prop := a.stop ≤ b.off ∨ b.stop ≤ a.off

def Spaced (a b : Block) : Prop := a.stop < b.off ∨ b.stop < a.off

theorem Apart.symm {a b : Block} (h : a.Apart b) : b.Apart a := Or.symm h

theorem Spaced.symm {a b : Block} (h : a.Spaced b) : b.Spaced a := Or.symm h

theorem Spaced.apart {a b : Block} (h : a.Spaced b) : a.Apart b := h.imp le_of_lt le_of_lt

theorem Apart.mono {a a' b : Block} (h : a.Apart b) (hoff : a.off ≤ a'.off)
    (hstop : a'.stop ≤ a.stop) : a'.Apart b := by
  rcases h with h | h
  · exact .inl (hstop.trans h)
  · exact .inr (h.trans hoff)

theorem Apart.disjoint {a b : Block} (h : a.Apart b) : Disjoint a.cells b.cells := by
  rw [Set.disjoint_left]
  rintro x ⟨hax, hxa⟩ ⟨hbx, hxb⟩
  rcases h with h | h <;> omega

theorem apart_of_disjoint {a b : Block} (ha : 0 < a.len) (hb : 0 < b.len)
    (h : Disjoint a.cells b.cells) : a.Apart b := by
  by_contra hn
  unfold Apart stop at hn
  rw [not_or] at hn
  rw [Set.disjoint_left] at h
  refine h (a := max a.off b.off) ?_ ?_
  · rw [mem_cells, stop]; omega
  · rw [mem_cells, stop]; omega

end Block

variable {B : Set Block} {b c m : Block} {n : ℕ}

def cells (B : Set Block) : Set ℕ := {x | ∃ b ∈ B, x ∈ b.cells}

structure Coalesced (B : Set Block) : Prop where
  pos : ∀ b ∈ B, 0 < b.len
  spaced : B.Pairwise Block.Spaced

theorem Coalesced.run_in_block (h : Coalesced B) {a : ℕ} (hn : 0 < n)
    (hrun : Set.Ico a (a + n) ⊆ cells B) : ∃ b ∈ B, b.off ≤ a ∧ a + n ≤ b.stop := by
  obtain ⟨b, hb, hle, hlt⟩ := hrun (Set.mem_Ico.mpr ⟨le_refl a, by omega⟩)
  refine ⟨b, hb, hle, ?_⟩
  by_contra hover
  obtain ⟨b', hb', hle', hlt'⟩ := hrun (Set.mem_Ico.mpr ⟨hlt.le, not_le.mp hover⟩)
  have hne : b ≠ b' := by
    rintro rfl
    omega
  rcases h.spaced hb hb' hne with hs | hs <;> omega

/-! ## 切り出す -/

def carve (B : Set Block) (b : Block) (n : ℕ) : Set Block :=
  {c | c ∈ B ∧ c ≠ b ∨ n < b.len ∧ c = ⟨b.off + n, b.len - n⟩}

theorem Coalesced.carve (h : Coalesced B) (hb : b ∈ B) : Coalesced (Alloc.carve B b n) := by
  have hrest : ∀ c ∈ B, c ≠ b → n < b.len → Block.Spaced c ⟨b.off + n, b.len - n⟩ := by
    intro c hc hne hlt
    have hsp := h.spaced hc hb hne
    unfold Block.Spaced Block.stop at hsp ⊢
    dsimp only
    omega
  constructor
  · rintro c (⟨hc, -⟩ | ⟨hlt, rfl⟩)
    · exact h.pos c hc
    · exact Nat.sub_pos_of_lt hlt
  · rintro c (⟨hc, hcb⟩ | ⟨hlt, rfl⟩) d (⟨hd, hdb⟩ | ⟨hlt', rfl⟩) hne
    · exact h.spaced hc hd hne
    · exact hrest c hc hcb hlt'
    · exact (hrest d hd hdb hlt).symm
    · exact absurd rfl hne

theorem Coalesced.cells_carve (h : Coalesced B) (hb : b ∈ B) (hn : n ≤ b.len) :
    cells (Alloc.carve B b n) = cells B \ Set.Ico b.off (b.off + n) := by
  ext x
  constructor
  · rintro ⟨c, ⟨hc, hne⟩ | ⟨hlt, rfl⟩, hx⟩
    · refine ⟨⟨c, hc, hx⟩, fun ⟨hbx, hxn⟩ => ?_⟩
      have hin : x ∈ b.cells := ⟨hbx, by unfold Block.stop; omega⟩
      exact Set.disjoint_left.mp (h.spaced hc hb hne).apart.disjoint hx hin
    · obtain ⟨hle, hlt'⟩ := hx
      unfold Block.stop at hlt'
      dsimp only at hle hlt'
      refine ⟨⟨b, hb, ⟨by omega, by unfold Block.stop; omega⟩⟩, fun ⟨_, hxn⟩ => by omega⟩
  · rintro ⟨⟨c, hc, hx⟩, hout⟩
    by_cases hcb : c = b
    · subst hcb
      obtain ⟨hle, hlt⟩ := hx
      have hge : c.off + n ≤ x := by
        by_contra hlt'
        exact hout ⟨hle, not_le.mp hlt'⟩
      unfold Block.stop at hlt
      refine ⟨_, .inr ⟨by omega, rfl⟩, hge, ?_⟩
      unfold Block.stop
      dsimp only
      omega
    · exact ⟨c, .inl ⟨hc, hcb⟩, hx⟩

/-! ## 返す -/

def LeftOf (B : Set Block) (c : Block) : Option Block → Prop
  | none => ∀ b ∈ B, b.stop ≠ c.off
  | some l => l ∈ B ∧ l.stop = c.off

def RightOf (B : Set Block) (c : Block) : Option Block → Prop
  | none => ∀ b ∈ B, b.off ≠ c.stop
  | some r => r ∈ B ∧ r.off = c.stop

def mergedOff (c : Block) : Option Block → ℕ
  | none => c.off
  | some l => l.off

def mergedStop (c : Block) : Option Block → ℕ
  | none => c.stop
  | some r => r.stop

def merged (c : Block) (left right : Option Block) : Block :=
  ⟨mergedOff c left, mergedStop c right - mergedOff c left⟩

def give (B : Set Block) (c : Block) (left right : Option Block) : Set Block :=
  insert (merged c left right) {b | b ∈ B ∧ some b ≠ left ∧ some b ≠ right}

section Give

variable {left right : Option Block}

theorem mergedOff_le (hl : LeftOf B c left) : mergedOff c left ≤ c.off := by
  cases left with
  | none => exact le_refl _
  | some l =>
    have := hl.2
    unfold Block.stop at this
    show l.off ≤ c.off
    omega

theorem le_mergedStop (hr : RightOf B c right) : c.stop ≤ mergedStop c right := by
  cases right with
  | none => exact le_refl _
  | some r =>
    have := hr.2
    show c.stop ≤ r.stop
    unfold Block.stop at this ⊢
    omega

theorem stop_merged (hl : LeftOf B c left) (hr : RightOf B c right) :
    (merged c left right).stop = mergedStop c right := by
  have h₁ := mergedOff_le hl
  have h₂ := le_mergedStop hr
  unfold Block.stop at h₂
  unfold merged
  rw [Block.stop]
  dsimp only
  omega

theorem Coalesced.spaced_merged (h : Coalesced B) (hc : ∀ b ∈ B, b.Apart c)
    (hl : LeftOf B c left) (hr : RightOf B c right) (hb : b ∈ B) (hnl : some b ≠ left)
    (hnr : some b ≠ right) : b.Spaced (merged c left right) := by
  rcases hc b hb with hlt | hlt
  · left
    show b.stop < mergedOff c left
    cases left with
    | none => exact lt_of_le_of_ne hlt (hl b hb)
    | some l =>
      rcases h.spaced hb hl.1 (fun he => hnl (congrArg some he)) with hs | hs
      · exact hs
      · have := hl.2
        unfold Block.stop at *
        omega
  · right
    rw [stop_merged hl hr]
    cases right with
    | none => exact lt_of_le_of_ne hlt (fun he => hr b hb he.symm)
    | some r =>
      rcases h.spaced hb hr.1 (fun he => hnr (congrArg some he)) with hs | hs
      · have := hr.2
        unfold Block.stop at *
        omega
      · exact hs

theorem Coalesced.give (h : Coalesced B) (hpos : 0 < c.len) (hc : ∀ b ∈ B, b.Apart c)
    (hl : LeftOf B c left) (hr : RightOf B c right) :
    Coalesced (Alloc.give B c left right) := by
  have hsp : ∀ b ∈ B, some b ≠ left → some b ≠ right → b.Spaced (merged c left right) :=
    fun b hb hnl hnr => h.spaced_merged hc hl hr hb hnl hnr
  constructor
  · rintro b (rfl | ⟨hb, -⟩)
    · have h₁ := mergedOff_le hl
      have h₂ := le_mergedStop hr
      unfold Block.stop at h₂
      show 0 < mergedStop c right - mergedOff c left
      omega
    · exact h.pos b hb
  · rintro b (rfl | ⟨hb, hbl, hbr⟩) d (rfl | ⟨hd, hdl, hdr⟩) hne
    · exact absurd rfl hne
    · exact (hsp d hd hdl hdr).symm
    · exact hsp b hb hbl hbr
    · exact h.spaced hb hd hne

theorem cells_give (hl : LeftOf B c left) (hr : RightOf B c right) :
    cells (give B c left right) = cells B ∪ c.cells := by
  have hstop := stop_merged hl hr
  ext x
  constructor
  · rintro ⟨b, rfl | ⟨hb, -⟩, hx⟩
    ·
      rw [Block.mem_cells, hstop] at hx
      obtain ⟨hle, hlt⟩ := hx
      by_cases hxl : x < c.off
      · cases left with
        | none => exact absurd hle (not_le.mpr hxl)
        | some l => exact .inl ⟨l, hl.1, hle, hl.2 ▸ hxl⟩
      by_cases hxr : x < c.stop
      · exact .inr ⟨not_lt.mp hxl, hxr⟩
      · cases right with
        | none => exact absurd hlt hxr
        | some r => exact .inl ⟨r, hr.1, hr.2 ▸ not_lt.mp hxr, hlt⟩
    · exact .inl ⟨b, hb, hx⟩
  · have h₁ := mergedOff_le hl
    have h₂ := le_mergedStop hr
    have hmerged : ∀ {x}, mergedOff c left ≤ x → x < mergedStop c right →
        x ∈ cells (give B c left right) :=
      fun hle hlt => ⟨_, Set.mem_insert _ _, hle, hstop ▸ hlt⟩
    rintro (⟨b, hb, hle, hlt⟩ | ⟨hle, hlt⟩)
    · by_cases hbl : some b = left
      · subst hbl
        exact hmerged hle (lt_of_lt_of_le hlt (by rw [hl.2]; unfold Block.stop at h₂; omega))
      by_cases hbr : some b = right
      · subst hbr
        exact hmerged (h₁.trans (by have := hr.2; unfold Block.stop at this; omega)) hlt
      · exact ⟨b, Set.mem_insert_of_mem _ ⟨hb, hbl, hbr⟩, hle, hlt⟩
    · exact hmerged (h₁.trans hle) (lt_of_lt_of_le hlt h₂)

end Give

end Alloc
