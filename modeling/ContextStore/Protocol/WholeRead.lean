import ContextStore.Protocol.ReadPurge

/-!
# 読み出しの長さ

storage tier の読み出しの多くは、file から読めた分をそのまま返す。
-/

namespace ContextStore.Purge

open Conc Storage

variable {ν : Type}

/-! ## 条件 -/

def Returned.Exact : Returned → Prop
  | .object _ m parts => parts.flatten.length = m.size
  | .copied _ m count parts => count = m.size ∧ parts.flatten.length = m.size
  | .chunk _ len data => data.length = len

def Covers (m : BlockMeta) (s : StripingInfo) : Prop :=
  s.totalSize = m.size ∧ s.totalSize ≤ s.chunkPaths.length * s.chunkSize

def readPaths (E : Env ν) (n : ν) (key : ObjectKey) (m : BlockMeta) : List String :=
  match m.striping with
  | none => [metaPathOrRoute E n key m]
  | some s => s.chunkPaths

def FilesAddUp (E : Env ν) (n : ν) (d : Disk) (key : ObjectKey) (m : BlockMeta) : Prop :=
  ((readPaths E n key m).map fun p => ((d p).getD []).length).sum = m.size

def Returned.Intact (E : Env ν) (n : ν) (d : Disk) : Returned → Prop
  | .object key m _ => FilesAddUp E n d key m
  | .copied key m _ _ =>
    match m.striping with
    | none => FilesAddUp E n d key m
    | some s => Covers m s
  | .chunk path len _ => len = 0 → (d path).getD [] = []

def Served (n : ν) (d : Disk) (t : Hist ν) : Prop :=
  ∀ p data, Seen t (.readFile n p) (.ok data) → d p = some data

def Sized (s : StripingInfo) (i : Nat) (parts : List Bytes) : Prop :=
  ∀ (j : Nat) part, parts[j]? = some part → part.length = recordedLength s (i + j)

theorem Sized.flatten_length {s : StripingInfo} : ∀ {parts : List Bytes} {i : Nat},
    Sized s i parts → parts.flatten.length =
      min ((i + parts.length) * s.chunkSize) s.totalSize - min (i * s.chunkSize) s.totalSize
  | [], i, _ => by simp
  | part :: parts, i, h => by
    have hfirst := h 0 part rfl
    have hrest : Sized s (i + 1) parts := by
      intro j p hp
      rw [h (j + 1) p hp]
      congr 1
      omega
    have hle : i * s.chunkSize ≤ (i + 1) * s.chunkSize := Nat.mul_le_mul_right _ (by omega)
    have hle' : (i + 1) * s.chunkSize ≤ (i + 1 + parts.length) * s.chunkSize :=
      Nat.mul_le_mul_right _ (by omega)
    rw [Nat.add_zero, recordedLength] at hfirst
    rw [List.flatten_cons, List.length_append, hfirst, hrest.flatten_length, List.length_cons,
      show i + (parts.length + 1) = i + 1 + parts.length by omega]
    omega

theorem Sized.total {s : StripingInfo} {parts : List Bytes} (h : Sized s 0 parts)
    (hlen : parts.length = s.chunkPaths.length) :
    parts.flatten.length = min (s.chunkPaths.length * s.chunkSize) s.totalSize := by
  rw [h.flatten_length, Nat.zero_add, Nat.zero_mul, hlen]
  omega

section Reads

variable {E : Env ν} {n : ν} {d : Disk} {t : Hist ν} {key : ObjectKey} {m : BlockMeta}
  {s : StripingInfo} {path : ReadPath}

theorem sum_lengths_of_seen {paths : List String} {parts : List Bytes} (hd : Served n d t)
    (h : List.Forall₂ (fun p part => Seen t (.readFile n p) (.ok part)) paths parts) :
    (paths.map fun p => ((d p).getD []).length).sum = parts.flatten.length := by
  induction h with
  | nil => rfl
  | cons hp _ ih =>
    rw [List.map_cons, List.sum_cons, ih, hd _ _ hp, List.flatten_cons, List.length_append]
    rfl

theorem readAs_length_iff {data : Bytes} (h : ReadAs E n t key m data) (hd : Served n d t) :
    data.length = m.size ↔ FilesAddUp E n d key m := by
  unfold ReadAs at h
  unfold FilesAddUp readPaths
  generalize m.striping = striping at h ⊢
  cases striping with
  | none =>
    have hsum := sum_lengths_of_seen hd (.cons h .nil)
    rw [List.flatten_singleton] at hsum
    rw [hsum]
  | some s =>
    obtain ⟨parts, rfl, hall⟩ := h
    rw [sum_lengths_of_seen hd hall]

theorem checkIntoPtr_sized : ∀ {rs : List (Except KVError Bytes)} {i : Nat} {parts : List Bytes},
    checkIntoPtr E n s i rs = .ok (some parts) → parts.length = rs.length ∧ Sized s i parts
  | [], i, parts, h => by
    cases h
    exact ⟨rfl, fun j part hj => by cases hj⟩
  | .error e :: rs, i, parts, h => by
    simp only [checkIntoPtr] at h
    split at h <;> cases h
  | .ok data :: rs, i, parts, h => by
    simp only [checkIntoPtr] at h
    split at h
    · cases h
    next hlen =>
      split at h
      · cases h
      · cases hrest : checkIntoPtr E n s (i + 1) rs with
        | error e => rw [hrest] at h; cases h
        | ok more =>
          rw [hrest] at h
          obtain ⟨rest, rfl, rfl⟩ := Option.map_eq_some_iff.mp (Except.ok.inj h)
          obtain ⟨hl, hs⟩ := checkIntoPtr_sized hrest
          refine ⟨congrArg (· + 1) hl, ?_⟩
          rintro (_ | j) part hj
          · cases hj
            exact not_not.mp hlen
          · rw [hs j part hj]
            congr 1
            omega

theorem copiedAs_exact_iff {count : Nat} {parts : List Bytes}
    (h : CopiedAs E n t key m count parts) (hd : Served n d t) :
    Returned.Exact (.copied key m count parts) ↔
      Returned.Intact E n d (.copied key m count parts) := by
  cases hst : m.striping with
  | none =>
    simp only [CopiedAs, hst] at h
    obtain ⟨data, rfl, rfl, hseen⟩ := h
    have hiff := readAs_length_iff (ReadAs.whole (E := E) hst hseen) hd
    simp only [Returned.Exact, Returned.Intact, hst, List.flatten_singleton, and_self]
    exact hiff
  | some s =>
    simp only [CopiedAs, hst] at h
    obtain ⟨rfl, results, hlen, hcheck⟩ := h
    obtain ⟨hparts, hsized⟩ := checkIntoPtr_sized hcheck
    have htotal := hsized.total (hparts.trans hlen)
    simp only [Returned.Exact, Returned.Intact, hst, Covers, htotal]
    constructor
    · rintro ⟨hsize, hmin⟩
      exact ⟨hsize, by omega⟩
    · rintro ⟨hsize, hcover⟩
      exact ⟨hsize, by omega⟩

theorem Returned.FromFiles.exact_iff {x : Returned} (h : x.FromFiles E n t) (hd : Served n d t) :
    x.Exact ↔ x.Intact E n d := by
  cases x with
  | object key m parts => exact readAs_length_iff h hd
  | copied key m count parts => exact copiedAs_exact_iff h hd
  | chunk path len data =>
    simp only [Exact, Intact, hd _ _ h.1, Option.getD_some]
    constructor
    · rintro hlen rfl
      exact List.length_eq_zero_iff.mp hlen
    · intro hempty
      rcases Nat.eq_zero_or_pos len with hzero | hpos
      · rw [hempty hzero, hzero]
        rfl
      · exact h.2 hpos

theorem reads_return_whole_iff {rs : List Returned} (hrun : (path.prog E n).Leads [] t rs)
    (hd : Served n d t) : ∀ x ∈ rs, (x.Exact ↔ x.Intact E n d) :=
  fun x hx => (ReadPath.conforms.leads hrun x hx).exact_iff hd

end Reads

def readHist (data : Bytes) : Hist (Fin 2) :=
  [⟨.readFile nodeA "a", .ok data⟩, ⟨.fileExists nodeA "a", true⟩, ⟨.now, 0⟩,
    ⟨.redis (.getBlock heldKey.toStringKey), .ok (some wholeMeta)⟩]

theorem readHist_leads (data : Bytes) : ((ReadPath.get heldKey).prog checked nodeA).Leads []
    (readHist data) [.object heldKey wholeMeta [data]] :=
  ⟨.ok (some wholeMeta), (0 : Int), true, .ok data, rfl, rfl⟩

theorem readHist_served (data : Bytes) :
    Served nodeA (fun p => if p = "a" then some data else none) (readHist data) := by
  intro p data' h
  simp only [Seen, readHist, List.mem_cons, List.not_mem_nil, or_false] at h
  rcases h with h | h | h | h <;> cases h
  rfl

theorem reads_return_whole_iff_two : Returned.Exact (.object heldKey wholeMeta [[1, 2]]) :=
  (reads_return_whole_iff (readHist_leads [1, 2]) (readHist_served [1, 2]) _
    List.mem_cons_self).mpr rfl

/-- **record より短い file の object は、短いまま返る。** -/
theorem short_file_returned :
    (∃ w' t, ((ReadPath.get heldKey).prog checked nodeA).perform (exec checked)
      [.ok, .ok, .ok, .ok] (heldWorld wholeMeta [1] [3]) [] =
        some (w', t, [.object heldKey wholeMeta [[1]]])) ∧
    (∃ w' t, ((ReadPath.getChunks heldKey).prog samplePlain nodeA).perform (exec samplePlain)
      [.ok, .ok, .num 0, .ok, .num 0, .ok] (heldWorld heldMeta [1] [3]) [] =
        some (w', t, [.object heldKey heldMeta [[1], [3]]])) ∧
    ¬ Returned.Exact (.object heldKey wholeMeta [[1]]) ∧
    ¬ Returned.Exact (.object heldKey heldMeta [[1], [3]]) := by
  refine ⟨⟨_, _, rfl⟩, ⟨_, _, rfl⟩, ?_, ?_⟩
  · simp [Returned.Exact, wholeMeta]
  · simp [Returned.Exact, heldMeta]

end ContextStore.Purge
