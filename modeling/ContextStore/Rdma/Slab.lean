import ContextStore.Alloc.Blocks
import Mathlib.Algebra.BigOperators.Group.Finset.Basic
import Mathlib.Algebra.Order.Ring.Nat
import Mathlib.Data.Finmap
import Mathlib.Data.Prod.Lex

/-!
# slab の free-list

`rdma/slab.rs` の allocator。
-/

namespace ContextStore.Slab

open Alloc

/-! ## model -/

/-- `SLAB_ALIGN`。 -/
def slabAlign : ℕ := 4096

/-- `HUGE_ALIGN`。 -/
def hugeAlign : ℕ := 2 * 1024 * 1024

/-- `round_up`。 -/
def roundUp (n align : ℕ) : ℕ := ((n + align - 1) % 2 ^ 64) &&& (2 ^ 64 - 1 - (align - 1))

/-- `FreeList`。 -/
structure FreeList where
  byOffset : Finmap fun _ : ℕ => ℕ
  bySize : Finset (ℕ ×ₗ ℕ)
  bytesFree : ℕ
  bytesUsed : ℕ
  highWatermark : ℕ
  total : ℕ

namespace FreeList

/-- `FreeList::new`。 -/
def new (total : ℕ) : FreeList where
  byOffset := Finmap.singleton 0 total
  bySize := {toLex (total, 0)}
  bytesFree := total
  bytesUsed := 0
  highWatermark := 0
  total := total

/-- `insert_block`。 -/
def insertBlock (f : FreeList) (offset len : ℕ) : FreeList :=
  { f with
    byOffset := f.byOffset.insert offset len
    bySize := insert (toLex (len, offset)) f.bySize }

/-- `remove_block`。 -/
def removeBlock (f : FreeList) (offset len : ℕ) : FreeList :=
  { f with
    byOffset := f.byOffset.erase offset
    bySize := f.bySize.erase (toLex (len, offset)) }

def bestFit (f : FreeList) (size : ℕ) : Option (ℕ × ℕ) :=
  (least? (f.bySize.filter (toLex (size, 0) ≤ ·))).map ofLex

def leftNeighbor (f : FreeList) (start : ℕ) : Option (ℕ × ℕ) :=
  (greatest? (f.byOffset.keys.filter (· < start))).bind fun off =>
    (f.byOffset.lookup off).map fun len => (off, len)

/-- `FreeList::alloc`。 -/
def alloc (f : FreeList) (size : ℕ) : Option (ℕ × FreeList) :=
  match f.bestFit size with
  | none => none
  | some (blkLen, blkOff) =>
    let g := f.removeBlock blkOff blkLen
    let g := if size < blkLen then g.insertBlock (blkOff + size) (blkLen - size) else g
    let used := g.bytesUsed + size
    some (blkOff, { g with
      bytesFree := g.bytesFree - size
      bytesUsed := used
      highWatermark := if g.highWatermark < used then used else g.highWatermark })

def takeRight (f : FreeList) (stop : ℕ) : Option ℕ → FreeList × ℕ
  | some rlen => (f.removeBlock stop rlen, stop + rlen)
  | none => (f, stop)

def takeLeft (f : FreeList) (start : ℕ) : Option (ℕ × ℕ) → FreeList × ℕ
  | some (loff, llen) => if loff + llen = start then (f.removeBlock loff llen, loff) else (f, start)
  | none => (f, start)

/-- `FreeList::free`。 -/
def free (f : FreeList) (offset cap : ℕ) : FreeList :=
  let f := { f with bytesFree := f.bytesFree + cap, bytesUsed := f.bytesUsed - cap }
  let stop := offset + cap
  let right := f.byOffset.lookup stop
  let left := f.leftNeighbor offset
  let (f, stop) := f.takeRight stop right
  let (f, start) := f.takeLeft offset left
  f.insertBlock start (stop - start)

end FreeList

structure RdmaSlab where
  len : ℕ
  freeList : FreeList

/-- `SlabExtent`。 -/
structure SlabExtent where
  offset : ℕ
  len : ℕ
  capacity : ℕ
deriving DecidableEq

/-- `RdmaSlab::new`。 -/
def RdmaSlab.new (sizeBytes : ℕ) : Option RdmaSlab :=
  let len := roundUp (max sizeBytes hugeAlign) hugeAlign
  if len = 0 then none else some { len, freeList := FreeList.new len }

/-- `RdmaSlab::alloc`。 -/
def RdmaSlab.alloc (s : RdmaSlab) (size : ℕ) : Option (SlabExtent × RdmaSlab) :=
  if size = 0 then none
  else
    let cap := roundUp size slabAlign
    (s.freeList.alloc cap).map fun (offset, freeList) =>
      ({ offset, len := size, capacity := cap }, { s with freeList })

/-- `SlabExtent` の `Drop`。 -/
def RdmaSlab.dropExtent (s : RdmaSlab) (e : SlabExtent) : RdmaSlab :=
  { s with freeList := s.freeList.free e.offset e.capacity }

structure Heap where
  slab : RdmaSlab
  live : List SlabExtent

inductive SlabOp where
  | alloc (size : ℕ)
  | drop (i : ℕ)

def Heap.step (h : Heap) : SlabOp → Heap
  | .alloc size =>
    match h.slab.alloc size with
    | none => h
    | some (e, slab) => { slab, live := e :: h.live }
  | .drop i =>
    match h.live[i]? with
    | none => h
    | some e => { slab := h.slab.dropExtent e, live := h.live.eraseIdx i }

def Heap.run (h : Heap) (ops : List SlabOp) : Heap := ops.foldl Heap.step h

def Heap.fresh (slab : RdmaSlab) : Heap := { slab, live := [] }

/-! ## 切り上げ -/

theorem land_not_low {x k : ℕ} (hx : x < 2 ^ 64) (hk : k ≤ 64) :
    x &&& (2 ^ 64 - 1 - (2 ^ k - 1)) = x / 2 ^ k * 2 ^ k := by
  have hle : 2 ^ k ≤ 2 ^ 64 := Nat.pow_le_pow_right (by omega) hk
  have hpos : 0 < 2 ^ k := Nat.two_pow_pos k
  refine Nat.eq_of_testBit_eq fun i => ?_
  rw [Nat.testBit_and, show 2 ^ 64 - 1 - (2 ^ k - 1) = 2 ^ 64 - ((2 ^ k - 1) + 1) by omega,
    Nat.testBit_two_pow_sub_succ (show 2 ^ k - 1 < 2 ^ 64 by omega), Nat.testBit_two_pow_sub_one,
    Nat.mul_comm, Nat.testBit_two_pow_mul, Nat.testBit_div_two_pow]
  by_cases hik : i < k
  · simp [hik]
  · by_cases hi : i < 64
    · simp [hik, hi, show k ≤ i by omega, show i - k + k = i by omega]
    · have hbit : x.testBit i = false :=
        Nat.testBit_lt_two_pow (lt_of_lt_of_le hx (Nat.pow_le_pow_right (by omega) (by omega)))
      simp [hbit, show i - k + k = i by omega]

theorem roundUp_eq {n k : ℕ} (hk : k ≤ 64) :
    roundUp n (2 ^ k) = (n + 2 ^ k - 1) % 2 ^ 64 / 2 ^ k * 2 ^ k :=
  land_not_low (Nat.mod_lt _ (by decide)) hk

theorem roundUp_slabAlign (n : ℕ) :
    roundUp n slabAlign = (n + 4095) % 2 ^ 64 / 4096 * 4096 := by
  rw [show slabAlign = 2 ^ 12 by decide, roundUp_eq (by decide), Nat.add_sub_assoc (by decide)]
  simp only [Nat.reducePow, Nat.reduceSub]

theorem roundUp_hugeAlign (n : ℕ) :
    roundUp n hugeAlign = (n + 2097151) % 2 ^ 64 / 2097152 * 2097152 := by
  rw [show hugeAlign = 2 ^ 21 by decide, roundUp_eq (by decide), Nat.add_sub_assoc (by decide)]
  simp only [Nat.reducePow, Nat.reduceSub]

/-! ## 索引 -/

namespace FreeList

variable {f g : FreeList} {off len size : ℕ}

def Agree (f : FreeList) : Prop :=
  ∀ off len, f.byOffset.lookup off = some len ↔ toLex (len, off) ∈ f.bySize

def blocks (f : FreeList) : Set Block := {b | toLex (b.len, b.off) ∈ f.bySize}

def freeBytes (f : FreeList) : ℕ := ∑ p ∈ f.bySize, (ofLex p).1

theorem Agree.mem_blocks (h : f.Agree) {b : Block} :
    b ∈ f.blocks ↔ f.byOffset.lookup b.off = some b.len := (h b.off b.len).symm

theorem Agree.insertBlock (h : f.Agree) (hnone : f.byOffset.lookup off = none) :
    (f.insertBlock off len).Agree := by
  intro o l
  show (f.byOffset.insert off len).lookup o = some l ↔
    toLex (l, o) ∈ insert (toLex (len, off)) f.bySize
  rw [Finset.mem_insert, ← h o l]
  by_cases ho : o = off
  · subst ho
    rw [Finmap.lookup_insert, hnone]
    simp [eq_comm]
  · rw [Finmap.lookup_insert_of_ne _ ho]
    simp [ho]

theorem Agree.removeBlock (h : f.Agree) (hsome : f.byOffset.lookup off = some len) :
    (f.removeBlock off len).Agree := by
  intro o l
  show (f.byOffset.erase off).lookup o = some l ↔
    toLex (l, o) ∈ f.bySize.erase (toLex (len, off))
  rw [Finset.mem_erase, ← h o l]
  by_cases ho : o = off
  · subst ho
    rw [Finmap.lookup_erase, hsome]
    simp [eq_comm]
  · rw [Finmap.lookup_erase_ne ho]
    simp [ho]

theorem blocks_insertBlock (f : FreeList) (off len : ℕ) :
    (f.insertBlock off len).blocks = insert ⟨off, len⟩ f.blocks := by
  ext ⟨o, l⟩
  simp [blocks, FreeList.insertBlock, and_comm]

theorem blocks_removeBlock (f : FreeList) (off len : ℕ) :
    (f.removeBlock off len).blocks = f.blocks \ {⟨off, len⟩} := by
  ext ⟨o, l⟩
  simp [blocks, FreeList.removeBlock, and_comm]

theorem Agree.freeBytes_insertBlock (h : f.Agree) (hnone : f.byOffset.lookup off = none) :
    (f.insertBlock off len).freeBytes = f.freeBytes + len := by
  have hnot : toLex (len, off) ∉ f.bySize := fun hmem => by
    rw [(h off len).mpr hmem] at hnone
    cases hnone
  show ∑ p ∈ insert (toLex (len, off)) f.bySize, (ofLex p).1 = _
  rw [Finset.sum_insert hnot, Nat.add_comm]
  rfl

theorem Agree.freeBytes_removeBlock (h : f.Agree) (hsome : f.byOffset.lookup off = some len) :
    (f.removeBlock off len).freeBytes + len = f.freeBytes :=
  Finset.sum_erase_add _ _ ((h off len).mp hsome)

/-! ## 切り出し -/

theorem bestFit_eq_some {p : ℕ × ℕ} (h : f.bestFit size = some p) :
    toLex p ∈ f.bySize ∧ size ≤ p.1 := by
  obtain ⟨q, hq, rfl⟩ := Option.map_eq_some_iff.mp h
  obtain ⟨hmem, -⟩ := least?_eq_some_iff.mp hq
  obtain ⟨hmem, hle⟩ := Finset.mem_filter.mp hmem
  refine ⟨hmem, ?_⟩
  rcases Prod.Lex.toLex_le_toLex.mp hle with hlt | ⟨heq, -⟩
  · exact hlt.le
  · exact heq.le

theorem bestFit_eq_none : f.bestFit size = none ↔ ∀ b ∈ f.blocks, b.len < size := by
  unfold bestFit
  rw [Option.map_eq_none_iff, least?_eq_none_iff, Finset.filter_eq_empty_iff]
  constructor
  · intro h b hb
    by_contra hge
    refine h hb (Prod.Lex.toLex_le_toLex.mpr ?_)
    omega
  · intro h p hp hle
    have hlt : (ofLex p).1 < size := h ⟨(ofLex p).2, (ofLex p).1⟩ hp
    have hle' : size < (ofLex p).1 ∨ size = (ofLex p).1 ∧ 0 ≤ (ofLex p).2 :=
      Prod.Lex.toLex_le_toLex.mp hle
    omega

theorem alloc_eq_none_iff : f.alloc size = none ↔ ∀ b ∈ f.blocks, b.len < size := by
  grind [bestFit_eq_none, alloc]

/-- `alloc` の前後の関係。 -/
structure Carved (f : FreeList) (size off : ℕ) (g : FreeList) : Prop where
  agree : g.Agree
  carved : ∃ b ∈ f.blocks, b.off = off ∧ size ≤ b.len ∧ g.blocks = carve f.blocks b size
  bytes : g.freeBytes + size = f.freeBytes
  bytesFree : g.bytesFree = f.bytesFree - size
  bytesUsed : g.bytesUsed = f.bytesUsed + size
  total : g.total = f.total

theorem lookup_eq_none (h : f.Agree) (hco : Coalesced f.blocks) {b : Block} (hb : b ∈ f.blocks)
    (hlt : b.off < off) (hle : off ≤ b.stop) : f.byOffset.lookup off = none := by
  cases hl : f.byOffset.lookup off with
  | none => rfl
  | some len =>
    have hmem : (⟨off, len⟩ : Block) ∈ f.blocks := h.mem_blocks.mpr hl
    have hne : b ≠ ⟨off, len⟩ := fun he => by
      have := congrArg Block.off he
      dsimp only at this
      omega
    rcases hco.spaced hb hmem hne with hs | hs
    · dsimp only at hs
      omega
    · unfold Block.stop at hs
      dsimp only at hs
      omega

theorem alloc_spec (h : f.Agree) (hco : Coalesced f.blocks) (hsize : 0 < size)
    (ha : f.alloc size = some (off, g)) : f.Carved size off g := by
  unfold alloc at ha
  split at ha
  next => cases ha
  next blkLen blkOff hfit =>
    obtain ⟨hmem, hle⟩ := bestFit_eq_some hfit
    have hb : (⟨blkOff, blkLen⟩ : Block) ∈ f.blocks := hmem
    have hlook : f.byOffset.lookup blkOff = some blkLen := h.mem_blocks.mp hb
    have hagree := h.removeBlock hlook
    have hbytes := h.freeBytes_removeBlock hlook
    have hrest : size < blkLen → (f.removeBlock blkOff blkLen).byOffset.lookup (blkOff + size)
        = none := by
      intro hlt
      show (f.byOffset.erase blkOff).lookup (blkOff + size) = none
      rw [Finmap.lookup_erase_ne (by omega)]
      refine lookup_eq_none h hco hb (by dsimp only; omega) ?_
      unfold Block.stop
      dsimp only
      omega
    cases ha
    by_cases hlt : size < blkLen
    · simp only [if_pos hlt]
      refine ⟨hagree.insertBlock (hrest hlt), ⟨_, hb, rfl, hle, ?_⟩, ?_, rfl, rfl, rfl⟩
      · show ((f.removeBlock off blkLen).insertBlock (off + size) (blkLen - size)).blocks = _
        rw [blocks_insertBlock, blocks_removeBlock]
        ext c
        simp [carve, hlt, or_comm]
      · grind [freeBytes, Agree.freeBytes_insertBlock]
    · simp only [if_neg hlt]
      refine ⟨hagree, ⟨_, hb, rfl, hle, ?_⟩, ?_, rfl, rfl, rfl⟩
      · show (f.removeBlock off blkLen).blocks = _
        rw [blocks_removeBlock]
        ext c
        simp [carve, hlt]
      · show (f.removeBlock off blkLen).freeBytes + size = _
        omega

/-! ## 返却 -/

def leftBlock (f : FreeList) (start : ℕ) : Option Block :=
  match f.leftNeighbor start with
  | some (loff, llen) => if loff + llen = start then some ⟨loff, llen⟩ else none
  | none => none

def rightBlock (f : FreeList) (stop : ℕ) : Option Block :=
  (f.byOffset.lookup stop).map fun len => ⟨stop, len⟩

def removeOpt (f : FreeList) : Option Block → FreeList
  | none => f
  | some b => f.removeBlock b.off b.len

theorem takeRight_eq (f : FreeList) (c : Block) (r : Option ℕ) :
    f.takeRight c.stop r = (f.removeOpt (r.map fun len => ⟨c.stop, len⟩),
      mergedStop c (r.map fun len => ⟨c.stop, len⟩)) := by
  cases r <;> rfl

theorem takeLeft_eq (f g : FreeList) (c : Block) :
    g.takeLeft c.off (f.leftNeighbor c.off) = (g.removeOpt (f.leftBlock c.off),
      mergedOff c (f.leftBlock c.off)) := by
  unfold leftBlock takeLeft
  cases f.leftNeighbor c.off with
  | none => rfl
  | some p =>
    obtain ⟨loff, llen⟩ := p
    dsimp only
    split <;> rfl

theorem free_eq (f : FreeList) (c : Block) :
    f.free c.off c.len = ((({ f with
        bytesFree := f.bytesFree + c.len
        bytesUsed := f.bytesUsed - c.len } : FreeList).removeOpt (f.rightBlock c.stop)).removeOpt
          (f.leftBlock c.off)).insertBlock (mergedOff c (f.leftBlock c.off))
        (mergedStop c (f.rightBlock c.stop) - mergedOff c (f.leftBlock c.off)) := by
  unfold free
  dsimp only
  rw [show c.off + c.len = c.stop from rfl, takeRight_eq]
  dsimp only
  rw [show ({ f with bytesFree := f.bytesFree + c.len, bytesUsed := f.bytesUsed - c.len } :
    FreeList).leftNeighbor c.off = f.leftNeighbor c.off from rfl, takeLeft_eq]
  rfl

theorem rightBlock_rightOf (h : f.Agree) (c : Block) :
    RightOf f.blocks c (f.rightBlock c.stop) := by
  unfold rightBlock
  cases hl : f.byOffset.lookup c.stop with
  | none =>
    intro b hb he
    rw [h.mem_blocks, he, hl] at hb
    cases hb
  | some len => exact ⟨h.mem_blocks.mpr hl, rfl⟩

theorem leftBlock_leftOf (h : f.Agree) (hco : Coalesced f.blocks) (c : Block) :
    LeftOf f.blocks c (f.leftBlock c.off) := by
  have hkey : ∀ b ∈ f.blocks, b.stop = c.off → b.off ∈ f.byOffset.keys.filter (· < c.off) := by
    intro b hb hstop
    have hpos := hco.pos b hb
    refine Finset.mem_filter.mpr ⟨Finmap.mem_keys.mpr ?_, by unfold Block.stop at hstop; omega⟩
    exact Finmap.mem_iff.mpr ⟨_, h.mem_blocks.mp hb⟩
  unfold leftBlock leftNeighbor
  cases hg : greatest? (f.byOffset.keys.filter (· < c.off)) with
  | none =>
    intro b hb hstop
    have := hkey b hb hstop
    rw [greatest?_eq_none_iff.mp hg] at this
    exact absurd this (Finset.notMem_empty _)
  | some loff =>
    obtain ⟨hmem, hmax⟩ := greatest?_eq_some_iff.mp hg
    obtain ⟨hmem, hlt⟩ := Finset.mem_filter.mp hmem
    obtain ⟨llen, hlook⟩ := Finmap.mem_iff.mp (Finmap.mem_keys.mp hmem)
    have hl : (⟨loff, llen⟩ : Block) ∈ f.blocks := h.mem_blocks.mpr hlook
    simp only [Option.bind_some, hlook, Option.map_some]
    split
    next hadj => exact ⟨hl, hadj⟩
    next hadj =>
      intro b hb hstop
      have hle := hmax b.off (hkey b hb hstop)
      have hne : b ≠ ⟨loff, llen⟩ := by
        rintro rfl
        exact hadj hstop
      have := hco.pos b hb
      rcases hco.spaced hb hl hne with hs | hs <;> unfold Block.stop at * <;> dsimp only at * <;>
        omega

theorem Agree.removeOpt (h : f.Agree) {o : Option Block} (ho : ∀ b, o = some b → b ∈ f.blocks) :
    (f.removeOpt o).Agree := by
  cases o with
  | none => exact h
  | some b => exact h.removeBlock (h.mem_blocks.mp (ho b rfl))

theorem blocks_removeOpt (f : FreeList) (o : Option Block) :
    (f.removeOpt o).blocks = {b | b ∈ f.blocks ∧ some b ≠ o} := by
  cases o with
  | none => simp [FreeList.removeOpt]
  | some c =>
    show (f.removeBlock c.off c.len).blocks = _
    rw [blocks_removeBlock]
    ext b
    simp

def lenOf : Option Block → ℕ
  | none => 0
  | some b => b.len

theorem Agree.freeBytes_removeOpt (h : f.Agree) {o : Option Block}
    (ho : ∀ b, o = some b → b ∈ f.blocks) : (f.removeOpt o).freeBytes + lenOf o = f.freeBytes := by
  cases o with
  | none => rfl
  | some b => exact h.freeBytes_removeBlock (h.mem_blocks.mp (ho b rfl))

/-- `free` の前後の関係。 -/
structure Given (f : FreeList) (c : Block) (g : FreeList) : Prop where
  agree : g.Agree
  given : ∃ left right, LeftOf f.blocks c left ∧ RightOf f.blocks c right ∧
    g.blocks = give f.blocks c left right
  bytes : g.freeBytes = f.freeBytes + c.len
  bytesFree : g.bytesFree = f.bytesFree + c.len
  bytesUsed : g.bytesUsed = f.bytesUsed - c.len
  total : g.total = f.total

theorem removeOpt_counters (f : FreeList) (o : Option Block) :
    (f.removeOpt o).bytesFree = f.bytesFree ∧ (f.removeOpt o).bytesUsed = f.bytesUsed ∧
      (f.removeOpt o).total = f.total := by
  cases o <;> exact ⟨rfl, rfl, rfl⟩

theorem len_merged {B : Set Block} {c : Block} {left right : Option Block}
    (hl : LeftOf B c left) (hr : RightOf B c right) :
    mergedStop c right - mergedOff c left = lenOf left + c.len + lenOf right := by
  cases left with
  | none => cases right with
    | none =>
      show c.off + c.len - c.off = 0 + c.len + 0
      omega
    | some r =>
      have := hr.2
      show r.stop - c.off = _
      unfold Block.stop lenOf at *
      dsimp only
      omega
  | some l => cases right with
    | none =>
      have := hl.2
      show c.stop - l.off = _
      unfold Block.stop lenOf at *
      dsimp only
      omega
    | some r =>
      have := hl.2
      have := hr.2
      show r.stop - l.off = _
      unfold Block.stop lenOf at *
      dsimp only
      omega

theorem free_spec (h : f.Agree) (hco : Coalesced f.blocks) {c : Block} (hpos : 0 < c.len)
    (hc : ∀ b ∈ f.blocks, b.Apart c) : f.Given c (f.free c.off c.len) := by
  have hl := leftBlock_leftOf h hco c
  have hr := rightBlock_rightOf h c
  rw [free_eq]
  generalize f.leftBlock c.off = left at *
  generalize f.rightBlock c.stop = right at *
  generalize hg₀ : ({ f with
        bytesFree := f.bytesFree + c.len
        bytesUsed := f.bytesUsed - c.len } : FreeList) = g₀
  have hb₀ : g₀.blocks = f.blocks := by rw [← hg₀]; rfl
  have ha₀ : g₀.Agree := by rw [← hg₀]; exact h
  have hs₀ : g₀.freeBytes = f.freeBytes := by rw [← hg₀]; rfl
  have hright : ∀ b, right = some b → b ∈ g₀.blocks := by
    rintro b rfl
    exact hb₀ ▸ hr.1
  have hleft : ∀ b, left = some b → b ∈ (g₀.removeOpt right).blocks := by
    rintro b rfl
    rw [blocks_removeOpt, hb₀]
    refine ⟨hl.1, ?_⟩
    rintro rfl
    have h₁ := hl.2
    have h₂ := hr.2
    unfold Block.stop at h₁ h₂
    omega
  have hmem : ((g₀.removeOpt right).removeOpt left).blocks =
      {b | b ∈ f.blocks ∧ some b ≠ left ∧ some b ≠ right} := by
    rw [blocks_removeOpt, blocks_removeOpt, hb₀]
    ext b
    simp only [Set.mem_ofPred_eq]
    tauto
  have hagree := (ha₀.removeOpt hright).removeOpt hleft
  have hnone : ((g₀.removeOpt right).removeOpt left).byOffset.lookup (mergedOff c left) = none := by
    cases hlk : ((g₀.removeOpt right).removeOpt left).byOffset.lookup (mergedOff c left) with
    | none => rfl
    | some len =>
      have hb : (⟨mergedOff c left, len⟩ : Block) ∈
          ((g₀.removeOpt right).removeOpt left).blocks := hagree.mem_blocks.mpr hlk
      rw [hmem] at hb
      have hsp := hco.spaced_merged hc hl hr hb.1 hb.2.1 hb.2.2
      rcases hsp with hs | hs <;> unfold merged Block.stop at hs <;> dsimp only at hs <;> omega
  obtain ⟨hf₁, hu₁, ht₁⟩ := removeOpt_counters g₀ right
  obtain ⟨hf₂, hu₂, ht₂⟩ := removeOpt_counters (g₀.removeOpt right) left
  refine ⟨hagree.insertBlock hnone, ⟨left, right, hl, hr, ?_⟩, ?_, ?_, ?_, ?_⟩
  · rw [blocks_insertBlock, hmem]
    rfl
  · grind [Agree.freeBytes_insertBlock, len_merged, Agree.freeBytes_removeOpt, Agree.removeOpt]
  · show ((g₀.removeOpt right).removeOpt left).bytesFree = _
    rw [hf₂, hf₁, ← hg₀]
  · show ((g₀.removeOpt right).removeOpt left).bytesUsed = _
    rw [hu₂, hu₁, ← hg₀]
  · show ((g₀.removeOpt right).removeOpt left).total = _
    rw [ht₂, ht₁, ← hg₀]

end FreeList

def SlabExtent.block (e : SlabExtent) : Block := ⟨e.offset, e.capacity⟩

def Heap.liveBytes (h : Heap) : ℕ := (h.live.map SlabExtent.capacity).sum

def Fits (len : ℕ) (b : Block) : Prop :=
  slabAlign ∣ b.off ∧ slabAlign ∣ b.len ∧ 0 < b.len ∧ b.stop ≤ len

structure Wf (h : Heap) : Prop where
  agree : h.slab.freeList.Agree
  coalesced : Coalesced h.slab.freeList.blocks
  liveApart : h.live.Pairwise fun a b => a.block.Apart b.block
  freeApart : ∀ e ∈ h.live, ∀ b ∈ h.slab.freeList.blocks, b.Apart e.block
  freeFits : ∀ b ∈ h.slab.freeList.blocks, Fits h.slab.len b
  liveFits : ∀ e ∈ h.live, Fits h.slab.len e.block
  bytes : h.slab.freeList.freeBytes + h.liveBytes = h.slab.len
  bytesFree : h.slab.freeList.bytesFree = h.slab.freeList.freeBytes
  bytesUsed : h.slab.freeList.bytesUsed = h.liveBytes
  covered : ∀ x < h.slab.len, x ∈ cells h.slab.freeList.blocks ∨ ∃ e ∈ h.live, x ∈ e.block.cells

def Heap.FreeRun (h : Heap) (a n : ℕ) : Prop :=
  a + n ≤ h.slab.len ∧ ∀ x, a ≤ x → x < a + n → ∀ e ∈ h.live, x ∉ e.block.cells

def SlabOp.Rounds : SlabOp → Prop
  | .alloc size => size + 4095 < 2 ^ 64
  | .drop _ => True

theorem dvd_roundUp (n : ℕ) : slabAlign ∣ roundUp n slabAlign := by
  rw [roundUp_slabAlign]
  exact Nat.dvd_mul_left 4096 _

theorem roundUp_pos {n : ℕ} (h0 : n ≠ 0) (hn : n + 4095 < 2 ^ 64) : 0 < roundUp n slabAlign := by
  rw [roundUp_slabAlign, Nat.mod_eq_of_lt hn]
  omega

theorem Wf.fresh {size : ℕ} {s : RdmaSlab} (hs : RdmaSlab.new size = some s) :
    Wf (Heap.fresh s) := by
  unfold RdmaSlab.new at hs
  dsimp only at hs
  split at hs
  next => cases hs
  next hne =>
    have hdvd : slabAlign ∣ roundUp (max size hugeAlign) hugeAlign := by
      rw [roundUp_hugeAlign]
      exact Nat.dvd_trans ⟨512, rfl⟩ (Nat.dvd_mul_left 2097152 _)
    generalize roundUp (max size hugeAlign) hugeAlign = len at *
    cases hs
    have hblocks : (FreeList.new len).blocks = {⟨0, len⟩} := by
      ext ⟨o, l⟩
      simp [FreeList.blocks, FreeList.new, and_comm]
    have hsum : (FreeList.new len).freeBytes = len := Finset.sum_singleton _ _
    refine ⟨?_, ⟨?_, ?_⟩, List.Pairwise.nil, nofun, ?_, nofun, ?_, ?_, rfl, ?_⟩
    · intro o l
      show (Finmap.singleton 0 len : Finmap fun _ : ℕ => ℕ).lookup o = some l ↔
        toLex (l, o) ∈ ({toLex (len, 0)} : Finset (ℕ ×ₗ ℕ))
      rw [Finset.mem_singleton]
      by_cases ho : o = 0
      · subst ho
        rw [Finmap.lookup_singleton_eq]
        simp [eq_comm]
      · have hnot : o ∉ (Finmap.singleton 0 len : Finmap fun _ : ℕ => ℕ) := by
          rw [Finmap.mem_singleton]
          exact ho
        rw [Finmap.lookup_eq_none.mpr hnot]
        simp [ho]
    · intro b hb
      have hb' : b ∈ (FreeList.new len).blocks := hb
      rw [hblocks] at hb'
      cases hb'
      exact Nat.pos_of_ne_zero hne
    · show (FreeList.new len).blocks.Pairwise _
      rw [hblocks]
      exact Set.pairwise_singleton _ _
    · intro b hb
      have hb' : b ∈ (FreeList.new len).blocks := hb
      rw [hblocks] at hb'
      cases hb'
      exact ⟨Nat.dvd_zero _, hdvd, Nat.pos_of_ne_zero hne, (Nat.zero_add len).le⟩
    · show (FreeList.new len).freeBytes + 0 = len
      rw [Nat.add_zero, hsum]
    · exact hsum.symm
    · intro x hx
      refine .inl ⟨⟨0, len⟩, ?_, Nat.zero_le x, lt_of_lt_of_eq hx (Nat.zero_add len).symm⟩
      show (⟨0, len⟩ : Block) ∈ (FreeList.new len).blocks
      rw [hblocks]
      rfl

section Step

variable {h : Heap}

theorem Wf.alloc (hw : Wf h) {cap off size : ℕ} {g : FreeList} (hcap : 0 < cap)
    (hdvd : slabAlign ∣ cap) (hg : h.slab.freeList.alloc cap = some (off, g)) :
    Wf ⟨{ h.slab with freeList := g }, ⟨off, size, cap⟩ :: h.live⟩ := by
  obtain ⟨hagree, ⟨b, hb, rfl, hle, hblocks⟩, hbytes, hfree, hused, -⟩ :=
    FreeList.alloc_spec hw.agree hw.coalesced hcap hg
  have hfits := hw.freeFits b hb
  have hsub : (⟨b.off, cap⟩ : Block).stop ≤ b.stop := by
    unfold Block.stop
    dsimp only
    omega
  have hrest : (⟨b.off + cap, b.len - cap⟩ : Block).stop = b.stop := by
    unfold Block.stop
    dsimp only
    omega
  have hmem : ∀ {c}, c ∈ g.blocks → c ∈ h.slab.freeList.blocks ∧ c ≠ b ∨
      cap < b.len ∧ c = ⟨b.off + cap, b.len - cap⟩ := fun hc => by rwa [hblocks] at hc
  refine ⟨hagree, hblocks ▸ hw.coalesced.carve hb, ?_, ?_, ?_, ?_, ?_, ?_, ?_, ?_⟩
  · refine List.pairwise_cons.mpr ⟨fun e he => ?_, hw.liveApart⟩
    exact (hw.freeApart e he b hb).mono (le_refl _) hsub
  · intro e he c hc
    rcases List.mem_cons.mp he with rfl | he
    · rcases hmem hc with ⟨hc, hne⟩ | ⟨-, rfl⟩
      · have hapart := (hw.coalesced.spaced hb hc hne.symm).apart
        exact Block.Apart.symm (hapart.mono (le_refl _) hsub)
      · exact .inr (le_refl _)
    · rcases hmem hc with ⟨hc, -⟩ | ⟨-, rfl⟩
      · exact hw.freeApart e he c hc
      · exact (hw.freeApart e he b hb).mono (Nat.le_add_right _ _) hrest.le
  · intro c hc
    rcases hmem hc with ⟨hc, -⟩ | ⟨hlt, rfl⟩
    · exact hw.freeFits c hc
    · exact ⟨Nat.dvd_add hfits.1 hdvd, Nat.dvd_sub hfits.2.1 hdvd, Nat.sub_pos_of_lt hlt,
        hrest ▸ hfits.2.2.2⟩
  · intro e he
    rcases List.mem_cons.mp he with rfl | he
    · exact ⟨hfits.1, hdvd, hcap, hsub.trans hfits.2.2.2⟩
    · exact hw.liveFits e he
  · have := hw.bytes
    show g.freeBytes + (cap + h.liveBytes) = h.slab.len
    omega
  · have := hw.bytesFree
    show g.bytesFree = g.freeBytes
    omega
  · have := hw.bytesUsed
    show g.bytesUsed = cap + h.liveBytes
    omega
  · intro x hx
    rcases hw.covered x hx with hc | ⟨e, he, hxe⟩
    · by_cases hin : x ∈ Set.Ico b.off (b.off + cap)
      · exact .inr ⟨_, List.mem_cons_self, hin⟩
      · grind [Coalesced.cells_carve, coalesced]
    · exact .inr ⟨e, List.mem_cons_of_mem _ he, hxe⟩

theorem Wf.dropExtent (hw : Wf h) {e : SlabExtent} {rest : List SlabExtent}
    (hperm : (e :: rest).Perm h.live) : Wf ⟨h.slab.dropExtent e, rest⟩ := by
  have hpair : (e :: rest).Pairwise fun a b => a.block.Apart b.block :=
    (hperm.pairwise_iff fun h => h.symm).mpr hw.liveApart
  obtain ⟨hapart, hpair⟩ := List.pairwise_cons.mp hpair
  have hlive : ∀ {a}, a ∈ rest → a ∈ h.live := fun ha =>
    hperm.subset (List.mem_cons_of_mem _ ha)
  have he : e ∈ h.live := hperm.subset List.mem_cons_self
  have hsum : h.liveBytes = e.capacity + (rest.map SlabExtent.capacity).sum :=
    ((hperm.map SlabExtent.capacity).sum_eq).symm
  obtain ⟨hoff, hlen, hpos, hstop⟩ := hw.liveFits e he
  obtain ⟨hagree, ⟨left, right, hl, hr, hblocks⟩, hbytes, hfree, hused, -⟩ :=
    FreeList.free_spec hw.agree hw.coalesced hpos (hw.freeApart e he)
  change (h.slab.dropExtent e).freeList.Agree at hagree
  change (h.slab.dropExtent e).freeList.blocks = _ at hblocks
  change (h.slab.dropExtent e).freeList.freeBytes = _ at hbytes
  change (h.slab.dropExtent e).freeList.bytesFree = _ at hfree
  change (h.slab.dropExtent e).freeList.bytesUsed = _ at hused
  have hco := hw.coalesced.give hpos (hw.freeApart e he) hl hr
  have hcells := cells_give hl hr
  rw [← hblocks] at hco hcells
  have hlenMerged := FreeList.len_merged hl hr
  have hfits : Fits h.slab.len (merged e.block left right) := by
    refine ⟨?_, ?_, ?_, ?_⟩
    · cases left with
      | none => exact hoff
      | some l => exact (hw.freeFits l hl.1).1
    · show slabAlign ∣ mergedStop e.block right - mergedOff e.block left
      rw [hlenMerged]
      refine Nat.dvd_add (Nat.dvd_add ?_ hlen) ?_
      · cases left with
        | none => exact Nat.dvd_zero _
        | some l => exact (hw.freeFits l hl.1).2.1
      · cases right with
        | none => exact Nat.dvd_zero _
        | some r => exact (hw.freeFits r hr.1).2.1
    · show 0 < mergedStop e.block right - mergedOff e.block left
      omega
    · rw [stop_merged hl hr]
      cases right with
      | none => exact hstop
      | some r => exact (hw.freeFits r hr.1).2.2.2
  have hmem : ∀ {c}, c ∈ (h.slab.dropExtent e).freeList.blocks →
      c = merged e.block left right ∨ c ∈ h.slab.freeList.blocks := by
    intro c hc
    rw [hblocks] at hc
    exact hc.imp id fun hc => hc.1
  refine ⟨hagree, hco, hpair, ?_, ?_, fun a ha => hw.liveFits a (hlive ha), ?_, ?_, ?_, ?_⟩
  · intro a ha c hc
    refine Block.apart_of_disjoint (hco.pos c hc) (hw.liveFits a (hlive ha)).2.2.1 ?_
    rw [Set.disjoint_left]
    intro x hx hxa
    have hin : x ∈ cells (h.slab.dropExtent e).freeList.blocks := ⟨c, hc, hx⟩
    rw [hcells] at hin
    rcases hin with ⟨b, hb, hxb⟩ | hxe
    · exact Set.disjoint_left.mp (hw.freeApart a (hlive ha) b hb).disjoint hxb hxa
    · exact Set.disjoint_left.mp (hapart a ha).disjoint hxe hxa
  · intro c hc
    rcases hmem hc with rfl | hc
    · exact hfits
    · exact hw.freeFits c hc
  · have := hw.bytes
    show (h.slab.dropExtent e).freeList.freeBytes + (rest.map SlabExtent.capacity).sum = h.slab.len
    rw [hbytes]
    show _ + e.capacity + _ = _
    omega
  · simp_all [bytesFree]
  · have := hw.bytesUsed
    show (h.slab.dropExtent e).freeList.bytesUsed = (rest.map SlabExtent.capacity).sum
    rw [hused]
    show _ - e.capacity = _
    omega
  · intro x hx
    show x ∈ cells (h.slab.dropExtent e).freeList.blocks ∨ _
    rw [hcells]
    rcases hw.covered x hx with hc | ⟨a, ha, hxa⟩
    · exact .inl (.inl hc)
    · grind

theorem Wf.step (hw : Wf h) {op : SlabOp} (hop : op.Rounds) : Wf (h.step op) := by
  cases op with
  | alloc size =>
    show Wf (match h.slab.alloc size with
      | none => h
      | some (e, slab) => { slab, live := e :: h.live })
    unfold RdmaSlab.alloc
    by_cases h0 : size = 0
    · rw [if_pos h0]
      exact hw
    · rw [if_neg h0]
      dsimp only
      cases hg : h.slab.freeList.alloc (roundUp size slabAlign) with
      | none => exact hw
      | some p => exact hw.alloc (roundUp_pos h0 hop) (dvd_roundUp size) hg
  | drop i =>
    show Wf (match h.live[i]? with
      | none => h
      | some e => { slab := h.slab.dropExtent e, live := h.live.eraseIdx i })
    cases hi : h.live[i]? with
    | none => exact hw
    | some e =>
      obtain ⟨hlt, rfl⟩ := List.getElem?_eq_some_iff.mp hi
      exact hw.dropExtent (List.getElem_cons_eraseIdx_perm hlt)

theorem Wf.run {ops : List SlabOp} (hops : ∀ op ∈ ops, op.Rounds) (hw : Wf h) :
    Wf (h.run ops) := by
  induction ops generalizing h with
  | nil => exact hw
  | cons op ops ih =>
    exact ih (fun o ho => hops o (List.mem_cons_of_mem _ ho)) (hw.step (hops op List.mem_cons_self))

theorem Wf.alloc_isSome_iff (hw : Wf h) {size : ℕ} (h0 : 0 < size) (hsize : size + 4095 < 2 ^ 64) :
    (h.slab.alloc size).isSome ↔ ∃ a n, roundUp size slabAlign ≤ n ∧ h.FreeRun a n := by
  have hpos := roundUp_pos (Nat.ne_of_gt h0) hsize
  have hnone : h.slab.alloc size = none ↔
      ∀ b ∈ h.slab.freeList.blocks, b.len < roundUp size slabAlign := by
    unfold RdmaSlab.alloc
    rw [if_neg (Nat.ne_of_gt h0), Option.map_eq_none_iff, FreeList.alloc_eq_none_iff]
  rw [← Option.ne_none_iff_isSome, Ne, hnone]
  constructor
  · intro hex
    push Not at hex
    obtain ⟨b, hb, hle⟩ := hex
    refine ⟨b.off, b.len, hle, (hw.freeFits b hb).2.2.2, fun x hx hlt e he hxe => ?_⟩
    exact Set.disjoint_left.mp (hw.freeApart e he b hb).disjoint ⟨hx, hlt⟩ hxe
  · rintro ⟨a, n, hle, hin, hrun⟩ hall
    have hcells : Set.Ico a (a + n) ⊆ cells h.slab.freeList.blocks := by
      grind [covered]
    obtain ⟨b, hb, hoff, hstop⟩ := hw.coalesced.run_in_block (by omega) hcells
    have := hall b hb
    unfold Block.stop at hstop
    omega

end Step

/-- **slab の free-list は正しい allocator である。** -/
theorem slab_correct {sizeBytes : ℕ} {s : RdmaSlab} (hs : RdmaSlab.new sizeBytes = some s)
    {ops : List SlabOp} (hops : ∀ op ∈ ops, op.Rounds) :
    Wf ((Heap.fresh s).run ops) ∧ ∀ size, size + 4095 < 2 ^ 64 →
      ((((Heap.fresh s).run ops).slab.alloc size).isSome ↔
        0 < size ∧ ∃ a n, roundUp size slabAlign ≤ n ∧ ((Heap.fresh s).run ops).FreeRun a n) := by
  have hw := (Wf.fresh hs).run hops
  refine ⟨hw, fun size hsize => ?_⟩
  rcases Nat.eq_zero_or_pos size with rfl | h0
  · exact ⟨nofun, fun h => absurd h.1 (lt_irrefl 0)⟩
  · simp_all [Wf.alloc_isSome_iff]

theorem slab_correct_small :
    RdmaSlab.new 1 = some ⟨2097152, FreeList.new 2097152⟩ ∧
      Wf ((Heap.fresh ⟨2097152, FreeList.new 2097152⟩).run
        [.alloc 5000, .alloc 1, .drop 1, .alloc 9000]) := by
  have hs : RdmaSlab.new 1 = some ⟨2097152, FreeList.new 2097152⟩ := rfl
  have hops : ∀ op ∈ [SlabOp.alloc 5000, .alloc 1, .drop 1, .alloc 9000], op.Rounds := by
    simp [SlabOp.Rounds]
  exact ⟨hs, (slab_correct hs hops).1⟩

theorem alloc_zero_refused :
    RdmaSlab.new 1 = some ⟨2097152, FreeList.new 2097152⟩ ∧
      (Heap.fresh ⟨2097152, FreeList.new 2097152⟩).slab.alloc 0 = none ∧
      roundUp 0 slabAlign ≤ 2097152 ∧
      (Heap.fresh ⟨2097152, FreeList.new 2097152⟩).FreeRun 0 2097152 :=
  ⟨rfl, rfl, by decide, le_refl _, fun _ _ _ _ he => by cases he⟩

example : roundUp (2 ^ 64 - 1) slabAlign = 0 := by decide

end ContextStore.Slab
