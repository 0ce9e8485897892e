import ContextStore.Stripes

/-!
# 公開された record の配置

分割された record の配置が整っていること（`WellLaid`）。
-/

namespace ContextStore

open Service Storage

/-- `i` 番の stripe の長さ。 -/
def StripingInfo.stripeLength (s : StripingInfo) (i : Nat) : Nat :=
  if i + 1 < s.chunkPaths.length then s.chunkSize else s.totalSize - i * s.chunkSize

structure WellLaid (m : BlockMeta) (s : StripingInfo) : Prop where
  positive : 0 < s.chunkSize
  devices : s.chunkDevices.length = s.chunkPaths.length
  count : s.chunkPaths.length = divCeil s.totalSize s.chunkSize
  located : s.chunkLocations = [] ∨ s.chunkLocations.length = s.chunkPaths.length
  offset : ∀ (i : Nat) l, s.chunkLocations[i]? = some l →
    l.stripeIndex = i ∧ l.offset = i * s.chunkSize
  length : ∀ (i : Nat) l, s.chunkLocations[i]? = some l → l.length = s.stripeLength i
  size : m.size = s.totalSize
  sum : s.totalSize = ((List.range s.chunkPaths.length).map s.stripeLength).sum

theorem succ_divCeil_mul {a cs i : Nat} (hcs : 0 < cs) (hi : ¬ i + 1 < divCeil a cs)
    (hlt : i < divCeil a cs) : a ≤ i * cs + cs := by
  have hle := le_divCeil_mul a hcs
  rw [show divCeil a cs = i + 1 by omega, Nat.add_mul] at hle
  omega

variable {s : StripingInfo}

theorem StripingInfo.stripeLength_eq {b : Bytes} (hcs : 0 < s.chunkSize)
    (htotal : s.totalSize = b.length)
    (hcount : s.chunkPaths.length = divCeil s.totalSize s.chunkSize) {i : Nat}
    (hi : i < s.chunkPaths.length) : s.stripeLength i = (stripeOf s.chunkSize b i).length := by
  rw [length_stripeOf, ← htotal]
  unfold stripeLength
  rw [hcount] at hi ⊢
  split
  next hlt =>
    have := mul_lt_of_lt_divCeil hcs hlt
    rw [Nat.add_mul] at this
    omega
  next hlast =>
    have := succ_divCeil_mul hcs hlast hi
    omega

theorem StripingInfo.sum_stripeLength (hcs : 0 < s.chunkSize)
    (hcount : s.chunkPaths.length = divCeil s.totalSize s.chunkSize) :
    ((List.range s.chunkPaths.length).map s.stripeLength).sum = s.totalSize := by
  have hlen : (List.replicate s.totalSize (0 : UInt8)).length = s.totalSize := List.length_replicate
  have hmap : (List.range s.chunkPaths.length).map s.stripeLength =
      ((List.range s.chunkPaths.length).map
        (stripeOf s.chunkSize (List.replicate s.totalSize (0 : UInt8)))).map List.length := by
    rw [List.map_map]
    refine List.map_congr_left fun i hi => ?_
    exact stripeLength_eq hcs hlen.symm hcount (List.mem_range.mp hi)
  have hflat := flatten_stripes (List.replicate s.totalSize (0 : UInt8)) hcs
  rw [hlen, ← hcount] at hflat
  rw [hmap, ← List.length_flatten, hflat, hlen]

theorem WellLaid.of_stripes {m : BlockMeta} {b : Bytes} (hcs : 0 < s.chunkSize)
    (hdev : s.chunkDevices.length = s.chunkPaths.length) (htotal : s.totalSize = b.length)
    (hsize : m.size = b.length)
    (hcount : s.chunkPaths.length = divCeil s.totalSize s.chunkSize)
    (hlocated : s.chunkLocations = [] ∨ s.chunkLocations.length = s.chunkPaths.length)
    (hloc : ∀ (i : Nat) l, s.chunkLocations[i]? = some l → l.stripeIndex = i ∧
      l.offset = i * s.chunkSize ∧ l.length = (stripeOf s.chunkSize b i).length) :
    WellLaid m s where
  positive := hcs
  devices := hdev
  count := hcount
  located := hlocated
  offset := fun i l hl => ⟨(hloc i l hl).1, (hloc i l hl).2.1⟩
  length := by
    intro i l hl
    have hi : i < s.chunkPaths.length := by
      grind
    rw [(hloc i l hl).2.2, StripingInfo.stripeLength_eq hcs htotal hcount hi]
  size := hsize.trans htotal.symm
  sum := (StripingInfo.sum_stripeLength hcs hcount).symm

end ContextStore
