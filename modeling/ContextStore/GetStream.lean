import ContextStore.Conc.Expand
import ContextStore.Conc.ReadAhead
import ContextStore.Layout
import ContextStore.Cluster.Run

/-!
# `get_stream` の断片

RPC `get_stream` は object を `DataChunk` に分けて送る。
-/

namespace ContextStore.Service

open Placement Storage Conc

/-- `pb::DataChunk`。 -/
structure DataChunk where
  data : Bytes
  offset : ℕ
  totalSize : ℕ
  isLast : Bool

/-! ## 断片 -/

/-- `SUB_CHUNK`。 -/
def subChunk : ℕ := 4 * 1024 * 1024

/-- `READ_AHEAD`。 -/
def readAhead : ℕ := 4

def segmentChunks (size total base : ℕ) (last : ℕ → Bool) (seg : Bytes) : List DataChunk :=
  (List.range (divCeil seg.length size)).map fun i =>
    ⟨stripeOf size seg i, base + i * size, total, last i⟩

def pushChunks (size total : ℕ) : ℕ → List Bytes → List DataChunk
  | _, [] => []
  | runningOffset, seg :: segments =>
    segmentChunks size total runningOffset (fun _ => false) seg ++
      pushChunks size total (runningOffset + seg.length) segments

def markLast (chunks : List DataChunk) : List DataChunk :=
  match chunks.getLast? with
  | none => []
  | some c => chunks.dropLast ++ [{ c with isLast := true }]

def bufferedChunks (segments : List Bytes) : List DataChunk :=
  markLast (pushChunks subChunk (segments.map List.length).sum 0 segments)

def stripeChunks (stripe : StripingInfo) (i : ℕ) (seg : Bytes) : List DataChunk :=
  segmentChunks subChunk stripe.totalSize (i * stripe.chunkSize)
    (fun k => i + 1 == stripe.chunkPaths.length && k + 1 == divCeil seg.length subChunk) seg

def stripePipeline (stripe : StripingInfo) (reads : ℕ → Except Status Bytes) :
    ReadAhead.Job Bytes DataChunk Status where
  count := stripe.chunkPaths.length
  window := readAhead
  room := 64
  outcome := reads
  emit := stripeChunks stripe

/-! ## 断片の位置 -/

def joined (chunks : List DataChunk) : Bytes := (chunks.map DataChunk.data).flatten

@[simp] theorem joined_nil : joined [] = [] := rfl

@[simp] theorem joined_append (a b : List DataChunk) : joined (a ++ b) = joined a ++ joined b := by
  simp [joined]

def Runs : ℕ → List DataChunk → Prop
  | _, [] => True
  | base, c :: cs => c.offset = base ∧ Runs (base + c.data.length) cs

theorem runs_append {base : ℕ} {a b : List DataChunk} :
    Runs base (a ++ b) ↔ Runs base a ∧ Runs (base + (joined a).length) b := by
  induction a generalizing base with
  | nil => simp [Runs]
  | cons c cs ih =>
    have hlen : (joined (c :: cs)).length = c.data.length + (joined cs).length := by
      simp [joined]
    rw [List.cons_append, Runs, Runs, ih, hlen, Nat.add_assoc, and_assoc]

theorem Runs.offset {base : ℕ} {chunks : List DataChunk} (h : Runs base chunks) {k : ℕ}
    {c : DataChunk} (hk : chunks[k]? = some c) :
    c.offset = base + ((chunks.take k).map fun c => c.data.length).sum := by
  induction chunks generalizing base k with
  | nil => cases hk
  | cons c' cs ih =>
    cases k with
    | zero =>
      obtain rfl : c' = c := Option.some.inj hk
      exact h.1
    | succ k =>
      rw [ih h.2 hk, List.take_succ_cons, List.map_cons, List.sum_cons, Nat.add_assoc]

theorem subChunk_pos : 0 < subChunk := by decide

section Segment

variable {size : ℕ} (hsize : 0 < size) (total base : ℕ) (last : ℕ → Bool) (seg : Bytes)

include hsize in
theorem joined_segmentChunks : joined (segmentChunks size total base last seg) = seg := by
  have hmap : (segmentChunks size total base last seg).map DataChunk.data =
      (List.range (divCeil seg.length size)).map (stripeOf size seg) := by
    simp_all [segmentChunks]
  unfold joined
  rw [hmap, flatten_stripes seg hsize]

include hsize in
theorem runs_segmentChunks : Runs base (segmentChunks size total base last seg) := by
  have hfrom : ∀ m k, k + m = divCeil seg.length size →
      Runs (base + k * size) ((List.range' k m).map fun i =>
        ⟨stripeOf size seg i, base + i * size, total, last i⟩) := by
    intro m
    induction m with
    | zero => exact fun _ _ => trivial
    | succ m ih =>
      intro k hk
      rw [List.range'_succ, List.map_cons]
      refine ⟨rfl, ?_⟩
      cases m with
      | zero => trivial
      | succ m =>
        have hlt : (k + 1) * size < seg.length :=
          mul_lt_of_lt_divCeil hsize (by omega)
        grind [length_stripeOf]
  have hzero := hfrom _ 0 (Nat.zero_add _)
  rw [Nat.zero_mul, Nat.add_zero, ← List.range_eq_range'] at hzero
  exact hzero

include hsize in
theorem segmentChunks_concat (h : seg ≠ []) :
    ∃ k c, divCeil seg.length size = k + 1 ∧ c.isLast = last k ∧
      segmentChunks size total base last seg = (List.range k).map (fun i =>
        ⟨stripeOf size seg i, base + i * size, total, last i⟩) ++ [c] := by
  have hpos : divCeil seg.length size ≠ 0 := by
    intro hzero
    have hle := le_divCeil_mul seg.length hsize
    simp_all
  obtain ⟨k, hk⟩ := Nat.exists_eq_succ_of_ne_zero hpos
  simp_all [segmentChunks, List.range_succ]

end Segment

/-! ## 全体 -/

def Flagged (chunks : List DataChunk) : Prop :=
  ∀ (k : ℕ) c, chunks[k]? = some c → (c.isLast = true ↔ k + 1 = chunks.length)

theorem flagged_concat {init : List DataChunk} {c : DataChunk}
    (hinit : ∀ c' ∈ init, c'.isLast = false) (hlast : c.isLast = true) : Flagged (init ++ [c]) := by
  intro k c' hk
  rw [List.length_append, List.length_singleton]
  by_cases hlt : k < init.length
  · rw [List.getElem?_append_left hlt] at hk
    rw [hinit c' (List.mem_of_getElem? hk)]
    refine ⟨fun hno => ?_, fun heq => ?_⟩
    · cases hno
    · omega
  · obtain ⟨hk', hget⟩ := List.getElem?_eq_some_iff.mp hk
    have heq : k = init.length := by
      rw [List.length_append, List.length_singleton] at hk'
      omega
    subst heq
    rw [List.getElem_concat_length rfl] at hget
    rw [← hget]
    exact iff_of_true hlast rfl

structure Framed (object : Bytes) (chunks : List DataChunk) : Prop where
  data : (chunks.map DataChunk.data).flatten = object
  offset : ∀ (k : ℕ) c, chunks[k]? = some c →
    c.offset = ((chunks.take k).map fun c => c.data.length).sum
  total : ∀ c ∈ chunks, c.totalSize = object.length
  last : ∀ (k : ℕ) c, chunks[k]? = some c → (c.isLast = true ↔ k + 1 = chunks.length)

theorem Framed.of_runs {object : Bytes} {chunks : List DataChunk} (hruns : Runs 0 chunks)
    (hdata : joined chunks = object) (htotal : ∀ c ∈ chunks, c.totalSize = object.length)
    (hlast : Flagged chunks) : Framed object chunks where
  data := hdata
  offset := fun k c hk => by rw [hruns.offset hk, Nat.zero_add]
  total := htotal
  last := hlast

section Buffered

variable {size : ℕ} (hsize : 0 < size) (total : ℕ)

include hsize in
theorem joined_pushChunks (base : ℕ) (segments : List Bytes) :
    joined (pushChunks size total base segments) = segments.flatten := by
  induction segments generalizing base with
  | nil => rfl
  | cons seg segments ih =>
    rw [pushChunks, joined_append, joined_segmentChunks hsize, ih, List.flatten_cons]

include hsize in
theorem runs_pushChunks (base : ℕ) (segments : List Bytes) :
    Runs base (pushChunks size total base segments) := by
  induction segments generalizing base with
  | nil => trivial
  | cons seg segments ih =>
    simp_all [pushChunks, runs_append, runs_segmentChunks, joined_segmentChunks]

theorem mem_pushChunks {base : ℕ} {segments : List Bytes} {c : DataChunk}
    (h : c ∈ pushChunks size total base segments) : c.totalSize = total ∧ c.isLast = false := by
  induction segments generalizing base with
  | nil => exact (List.not_mem_nil h).elim
  | cons seg segments ih =>
    rw [pushChunks] at h
    rcases List.mem_append.mp h with h | h
    · obtain ⟨i, -, rfl⟩ := List.mem_map.mp h
      exact ⟨rfl, rfl⟩
    · exact ih h

theorem Framed.markLast {object : Bytes} {chunks : List DataChunk} (hruns : Runs 0 chunks)
    (hdata : joined chunks = object)
    (hmem : ∀ c ∈ chunks, c.totalSize = object.length ∧ c.isLast = false) :
    Framed object (markLast chunks) := by
  unfold Service.markLast
  split
  next hnone =>
    obtain rfl : chunks = [] := List.getLast?_eq_none_iff.mp hnone
    exact .of_runs trivial hdata (fun c hc => (List.not_mem_nil hc).elim) fun k c hk => by cases hk
  next c hlast =>
    obtain ⟨init, rfl⟩ := List.getLast?_eq_some_iff.mp hlast
    rw [List.dropLast_concat]
    have hjoined : joined (init ++ [{ c with isLast := true }]) = joined (init ++ [c]) := by
      simp [joined]
    refine .of_runs ?_ (hjoined.trans hdata) (fun c' hc' => ?_) (flagged_concat ?_ rfl)
    · obtain ⟨hinit, hoffset, -⟩ := runs_append.mp hruns
      exact runs_append.mpr ⟨hinit, hoffset, trivial⟩
    · rcases List.mem_append.mp hc' with hc' | hc'
      · exact (hmem c' (List.mem_append_left _ hc')).1
      · rw [List.mem_singleton.mp hc']
        exact (hmem c (List.mem_append_right _ List.mem_cons_self)).1
    · exact fun c' hc' => (hmem c' (List.mem_append_left _ hc')).2

end Buffered

theorem framed_bufferedChunks (segments : List Bytes) :
    Framed segments.flatten (bufferedChunks segments) := by
  refine .markLast (runs_pushChunks subChunk_pos _ _ _) (joined_pushChunks subChunk_pos _ _ _)
    fun c hc => ?_
  rw [List.length_flatten]
  exact mem_pushChunks _ hc

section Pipeline

variable {stripe : StripingInfo} {object : Bytes}

def chunksUpTo (stripe : StripingInfo) (object : Bytes) (n : ℕ) : List DataChunk :=
  (List.range n).flatMap fun i => stripeChunks stripe i (stripeOf stripe.chunkSize object i)

theorem chunksUpTo_succ (stripe : StripingInfo) (object : Bytes) (n : ℕ) :
    chunksUpTo stripe object (n + 1) = chunksUpTo stripe object n ++
      stripeChunks stripe n (stripeOf stripe.chunkSize object n) := by
  simp_all [chunksUpTo, List.range_succ]

theorem joined_chunksUpTo (n : ℕ) :
    joined (chunksUpTo stripe object n) = object.take (n * stripe.chunkSize) := by
  rw [← flatten_stripes_take]
  induction n with
  | zero => rfl
  | succ n ih =>
    rw [chunksUpTo_succ, joined_append, ih, stripeChunks, joined_segmentChunks subChunk_pos,
      List.range_succ, List.map_append, List.flatten_append, List.map_singleton,
      List.flatten_singleton]

theorem runs_chunksUpTo (hchunk : 0 < stripe.chunkSize) {n : ℕ}
    (hn : n ≤ divCeil object.length stripe.chunkSize) : Runs 0 (chunksUpTo stripe object n) := by
  induction n with
  | zero => trivial
  | succ n ih =>
    rw [chunksUpTo_succ]
    refine runs_append.mpr ⟨ih (Nat.le_of_succ_le hn), ?_⟩
    have hlt : n * stripe.chunkSize < object.length := mul_lt_of_lt_divCeil hchunk hn
    rw [joined_chunksUpTo, List.length_take, Nat.min_eq_left hlt.le, Nat.zero_add]
    exact runs_segmentChunks subChunk_pos _ _ _ _

theorem mem_chunksUpTo {n : ℕ} {c : DataChunk} (h : c ∈ chunksUpTo stripe object n) :
    c.totalSize = stripe.totalSize ∧ (n < stripe.chunkPaths.length → c.isLast = false) := by
  obtain ⟨i, hi, hc⟩ := List.mem_flatMap.mp h
  obtain ⟨k, -, rfl⟩ := List.mem_map.mp hc
  grind

theorem framed_chunksUpTo {m : BlockMeta} (hlaid : WellLaid m stripe)
    (hobject : stripe.totalSize = object.length) :
    Framed object (chunksUpTo stripe object stripe.chunkPaths.length) := by
  have hcount := hlaid.count
  rw [hobject] at hcount
  refine .of_runs (runs_chunksUpTo hlaid.positive hcount.le) ?_ (fun c hc => ?_) ?_
  · rw [joined_chunksUpTo, hcount]
    exact List.take_of_length_le (le_divCeil_mul _ hlaid.positive)
  · exact (mem_chunksUpTo hc).1.trans hobject
  ·
    cases hn : stripe.chunkPaths.length with
    | zero => exact fun k c hk => by cases hk
    | succ n =>
      have hlt : n * stripe.chunkSize < object.length :=
        mul_lt_of_lt_divCeil hlaid.positive (by omega)
      have hne : stripeOf stripe.chunkSize object n ≠ [] := by
        have hlen : (stripeOf stripe.chunkSize object n).length ≠ 0 := by
          have := hlaid.positive
          rw [length_stripeOf]
          omega
        exact fun hnil => hlen (by rw [hnil]; rfl)
      obtain ⟨k, c, hk, hlast, hconcat⟩ := segmentChunks_concat subChunk_pos stripe.totalSize
        (n * stripe.chunkSize) (fun k => n + 1 == stripe.chunkPaths.length &&
          k + 1 == divCeil (stripeOf stripe.chunkSize object n).length subChunk) _ hne
      rw [chunksUpTo_succ, stripeChunks, hconcat, ← List.append_assoc]
      refine flagged_concat (fun c' hc' => ?_) ?_
      · rcases List.mem_append.mp hc' with hc' | hc'
        · exact (mem_chunksUpTo hc').2 (by omega)
        · grind
      · simp [hlast, hn, hk]

end Pipeline

/-! ## 送るもの -/

def StripeFile (stripe : StripingInfo) (i : ℕ) (p : String) : Prop :=
  stripe.chunkPaths[i]? = some p ∨
    ∃ l, stripe.chunkLocations[i]? = some l ∧ l.storageHandle = p

variable {ν : Type} {E : Env ν} {n : ν} {t t' : Hist ν} {key : ObjectKey} {m : BlockMeta}
  {object : Bytes} {stripe : StripingInfo} {source : StreamSource}

structure Whole (E : Env ν) (n : ν) (key : ObjectKey) (object : Bytes) (t : Hist ν) : Prop where
  laid : ∀ m stripe, Looked t key.toStringKey m → m.striping = some stripe →
    WellLaid m stripe ∧ stripe.totalSize = object.length
  stripes : ∀ m stripe i p dst data, Looked t key.toStringKey m → m.striping = some stripe →
    StripeFile stripe i p → Seen t (.readFile dst p) (.ok data) →
    data = stripeOf stripe.chunkSize object i
  files : ∀ m data, Looked t key.toStringKey m → m.striping = none →
    Seen t (.readFile n (metaPathOrRoute E n key m)) (.ok data) → data = object
  cached : ∀ e, Peeked t n key.toStringKey e → e.segments.flatten = object

theorem flatten_laid (hlaid : WellLaid m stripe) (htotal : stripe.totalSize = object.length) :
    ((List.range stripe.chunkPaths.length).map (stripeOf stripe.chunkSize object)).flatten =
      object := by
  rw [hlaid.count, htotal]
  exact flatten_stripes object hlaid.positive

theorem eq_stripes {f : ℕ → Bytes} {parts : List Bytes} {count : ℕ} (hlen : parts.length = count)
    (h : ∀ i (hi : i < parts.length), parts.get ⟨i, hi⟩ = f i) :
    parts = (List.range count).map f := by
  refine List.ext_get (by simp [hlen]) fun i hi hi' => ?_
  rw [h i hi]
  simp

theorem Whole.read {data : Bytes} (hw : Whole E n key object t) (hl : Looked t key.toStringKey m)
    (h : ReadAs E n t key m data) : data = object := by
  cases hst : m.striping with
  | none =>
    unfold ReadAs at h
    rw [hst] at h
    exact hw.files m data hl hst h
  | some stripe =>
    unfold ReadAs at h
    rw [hst] at h
    obtain ⟨parts, rfl, hparts⟩ := h
    obtain ⟨hlaid, htotal⟩ := hw.laid m stripe hl hst
    rw [eq_stripes (f := stripeOf stripe.chunkSize object) hparts.length_eq.symm fun i hi => ?_]
    · exact flatten_laid hlaid htotal
    · have hi' : i < stripe.chunkPaths.length := hparts.length_eq ▸ hi
      exact hw.stripes m stripe i _ n _ hl hst (.inl (List.getElem?_eq_getElem hi'))
        (hparts.get hi' hi)

theorem striped_of_remote {p : PlacementDescriptor}
    (h : remotePlacement E n key (some m) = some (m, p)) :
    ∃ stripe, m.striping = some stripe ∧ p.chunks = stripe.chunkLocations ∧ p.chunks ≠ [] := by
  have hself : ∀ c : ChunkLocation, c.nodeId = (E.cfg n).localNode.nodeId →
      (E.cfg n).isLocalNode c.node = true := by
    intro c hc
    unfold NodeConfig.isLocalNode ChunkLocation.node
    rw [hc, beq_self_eq_true, Bool.true_or]
  have hremote : ∃ c ∈ chunksFromMeta E n m, (E.cfg n).isLocalNode c.node = false := by
    unfold remotePlacement at h
    dsimp only at h
    split at h
    next hany =>
      obtain ⟨c, hc, hnot⟩ := List.any_eq_true.mp hany
      exact ⟨c, hc, by simpa using hnot⟩
    next => cases h
  obtain ⟨c, hc, hnot⟩ := hremote
  rw [(remotePlacement_eq h).2]
  have hne := List.ne_nil_of_mem hc
  unfold chunksFromMeta at hc hne ⊢
  cases hst : m.striping with
  | none =>
    rw [hst] at hc
    rw [List.mem_singleton.mp hc, hself _ rfl] at hnot
    cases hnot
  | some stripe =>
    rw [hst] at hc hne
    dsimp only at hc hne ⊢
    split at hc
    next heq =>
      rw [if_pos heq] at hne ⊢
      exact ⟨stripe, rfl, rfl, hne⟩
    next =>
      obtain ⟨i, hi, rfl⟩ := List.mem_mapIdx.mp hc
      rw [hself _ rfl] at hnot
      cases hnot

theorem Whole.gathered {parts : List (ℕ × Bytes)} (hw : Whole E n key object t)
    (hl : Looked t key.toStringKey m) (hst : m.striping = some stripe)
    (hne : stripe.chunkLocations ≠ []) (h : GatheredFrom t stripe.chunkLocations parts) :
    assemble parts = object := by
  obtain ⟨hlaid, htotal⟩ := hw.laid m stripe hl hst
  have hcount : stripe.chunkLocations.length = stripe.chunkPaths.length :=
    hlaid.located.resolve_left hne
  have hparts : parts = (List.range stripe.chunkPaths.length).map fun i =>
      (i, stripeOf stripe.chunkSize object i) := by
    refine List.ext_get (by simp [← hcount, h.length_eq]) fun i hi hi' => ?_
    have hi'' : i < stripe.chunkLocations.length := h.length_eq ▸ hi
    obtain ⟨hindex, dst, hread⟩ := h.get hi'' hi
    have hloc := List.getElem?_eq_getElem hi''
    replace hindex := hindex.trans (hlaid.offset i _ hloc).1
    have hdata := hw.stripes m stripe i _ dst _ hl hst (.inr ⟨_, hloc, rfl⟩) hread
    have hpart : parts.get ⟨i, hi⟩ = (i, stripeOf stripe.chunkSize object i) :=
      Prod.ext hindex hdata
    rw [hpart, List.get_eq_getElem, List.getElem_map, List.getElem_range]
  have hsorted : parts.Pairwise fun a b => a.1 ≤ b.1 := by
    rw [hparts, List.pairwise_map]
    exact List.pairwise_lt_range.imp Nat.le_of_lt
  unfold assemble
  rw [List.Pairwise.insertionSort_eq hsorted, hparts, List.map_map]
  exact flatten_laid hlaid htotal

def StreamSource.Serves (reads : ℕ → Except Status Bytes) (object : Bytes) : StreamSource → Prop
  | .remote segments => segments.flatten = object
  | .cached segments => segments.flatten = object
  | .pipeline stripe => (∃ m, WellLaid m stripe) ∧ stripe.totalSize = object.length ∧
      ∀ i < stripe.chunkPaths.length, reads i = .ok (stripeOf stripe.chunkSize object i)
  | .buffered segments => segments.flatten = object

def StreamSource.ReadBy (E : Env ν) (n : ν) (key : ObjectKey) (object : Bytes) (t : Hist ν)
    (reads : ℕ → Except Status Bytes) : StreamSource → Prop
  | .pipeline stripe => ∀ i < stripe.chunkPaths.length, ∃ t' data, reads i = .ok data ∧
      (liftRes (readStripedChunkAt E n stripe i)).run.Leads t t' (reads i) ∧ Whole E n key object t'
  | _ => True

theorem Whole.serves {reads : ℕ → Except Status Bytes} (hw : Whole E n key object t)
    (h : StreamFrom E n t key source) (hreads : source.ReadBy E n key object t reads) :
    source.Serves reads object := by
  cases source with
  | remote segments =>
    obtain ⟨m, p, parts, hp, hl, -, hparts, hsegments⟩ := h
    obtain ⟨stripe, hst, hchunks, hne⟩ := striped_of_remote hp
    rw [hchunks] at hparts hne
    exact hsegments.symm.trans (hw.gathered hl hst hne hparts)
  | cached segments =>
    obtain ⟨e, he, rfl⟩ := h
    exact hw.cached e he
  | pipeline stripe =>
    obtain ⟨m, hl, -, hst⟩ := h
    obtain ⟨hlaid, htotal⟩ := hw.laid m stripe hl hst
    refine ⟨⟨m, hlaid⟩, htotal, fun i hi => ?_⟩
    obtain ⟨t', data, hok, hrun, hw'⟩ := hreads i hi
    obtain ⟨path, hpath, hread⟩ :=
      Conforms.leads (readStripedChunkAt_gives (R := .any ν)).liftRes hrun data hok
    rw [hok, hw'.stripes m stripe i path n data (hl.mono hrun.suffix) hst (.inl hpath) hread]
  | buffered segments =>
    obtain ⟨m, hgot⟩ := h
    cases hgot with
    | chunked e he _ hb _ => exact hb.symm.trans (hw.cached e he)
    | acquired h => exact hw.read h.looked h.read

def StreamSource.Delivers (reads : ℕ → Except Status Bytes)
    (items : List (Except Status DataChunk)) : StreamSource → Prop
  | .remote segments => items = (bufferedChunks segments).map .ok
  | .cached segments => items = (bufferedChunks segments).map .ok
  | .pipeline stripe => ∃ s, (ReadAhead.system (stripePipeline stripe reads)).Reach
      ReadAhead.Stays s ∧ ReadAhead.Quiet (stripePipeline stripe reads) s ∧ s.received = items
  | .buffered segments => items = (bufferedChunks segments).map .ok

theorem readAhead_pos : 0 < readAhead := Nat.succ_pos 3

/-! ## RPC -/

theorem getStream_frames (hrun : (streamSource E n (some key)).run.Leads [] t (.ok source))
    (hwhole : Whole E n key object t) (reads : ℕ → Except Status Bytes)
    (hreads : source.ReadBy E n key object t reads) :
    (∃ items, source.Delivers reads items) ∧
    (∀ items, source.Delivers reads items →
      ∃ chunks, items = chunks.map .ok ∧ Framed object chunks) ∧
    ∀ stripe P s, source = .pipeline stripe →
      (ReadAhead.system (stripePipeline stripe reads)).Reach P s →
      ∃ chunks rest, Framed object chunks ∧ chunks.map .ok = s.received ++ rest := by
  obtain ⟨_, ⟨⟩, hfrom⟩ := Conforms.leads (streamSource_gives (R := .any ν) trivial) hrun _ rfl
  have hserves := hwhole.serves hfrom hreads
  have hbuffered : ∀ segments : List Bytes, segments.flatten = object → ∀ items,
      items = (bufferedChunks segments).map Except.ok →
      ∃ chunks, items = chunks.map (Except.ok (ε := Status)) ∧ Framed object chunks := by
    rintro segments rfl _ rfl
    exact ⟨_, rfl, framed_bufferedChunks segments⟩
  cases source with
  | remote segments =>
    exact ⟨⟨_, rfl⟩, hbuffered segments hserves, fun stripe P s hs => by cases hs⟩
  | cached segments =>
    exact ⟨⟨_, rfl⟩, hbuffered segments hserves, fun stripe P s hs => by cases hs⟩
  | buffered segments =>
    exact ⟨⟨_, rfl⟩, hbuffered segments hserves, fun stripe P s hs => by cases hs⟩
  | pipeline stripe =>
    obtain ⟨⟨m, hlaid⟩, htotal, hreads⟩ := hserves
    have hframed := framed_chunksUpTo hlaid htotal
    refine ⟨?_, fun items hitems => ?_, fun stripe' P s hs hreach => ?_⟩
    · obtain ⟨s, -, hreach, hquiet⟩ :=
        ReadAhead.exists_quiet (J := stripePipeline stripe reads) readAhead_pos hreads .start
      exact ⟨s.received, s, hreach, hquiet, rfl⟩
    · obtain ⟨s, hreach, hquiet, rfl⟩ := hitems
      have hordered := ReadAhead.ordered_of_reach readAhead_pos hreads hreach
      refine ⟨_, ?_, hframed⟩
      exact hordered.quiet (ReadAhead.connected_of_reach hreach) (Nat.succ_pos 63) hquiet
    · cases hs
      obtain ⟨rest, hrest⟩ := ReadAhead.received_of_reach readAhead_pos hreads hreach
      exact ⟨_, rest, hframed, hrest⟩

def shortStriping : StripingInfo := ⟨2, [0, 0], ["a", "b"], 3, [], []⟩

def shortMeta : BlockMeta :=
  { metaFromPb 0 none none with size := 3, striping := some shortStriping }

def shortKey : ObjectKey := ⟨"", "x"⟩

def shortStart : Hist (Fin 2) :=
  [⟨.l1 nodeA (.getChunks shortKey.toStringKey), none⟩, ⟨.now, 0⟩,
    ⟨.redis (.getBlock shortKey.toStringKey), .ok (some shortMeta)⟩]

def shortPath (i : ℕ) : String := shortStriping.chunkPaths.getD i ""

/-- `i` 番の stripe を読んだ。 -/
def shortRead (i : ℕ) : Hist (Fin 2) :=
  ⟨.readFile nodeA (shortPath i), .ok (stripeOf 2 [1, 2, 3] i)⟩ :: ⟨.pick 1, 0⟩ :: shortStart

theorem wellLaid_short : WellLaid shortMeta shortStriping := by
  refine ⟨by decide, rfl, by decide, .inl rfl, fun i l hl => ?_, fun i l hl => ?_, rfl, by decide⟩
  · cases hl
  · cases hl

theorem whole_short {t : Hist (Fin 2)}
    (hlooked : ∀ m, Looked t shortKey.toStringKey m → m = shortMeta)
    (hread : ∀ dst p data, Seen t (.readFile dst p) (.ok data) →
      ∃ i < 2, p = shortPath i ∧ data = stripeOf 2 [1, 2, 3] i)
    (hpeek : ∀ e, ¬ Peeked t nodeA shortKey.toStringKey e) :
    Whole samplePlain nodeA shortKey [1, 2, 3] t where
  laid := by
    intro m stripe hl hst
    cases hlooked m hl
    cases hst
    exact ⟨wellLaid_short, rfl⟩
  stripes := by
    intro m stripe j p dst data hl hst hfile hseen
    cases hlooked m hl
    cases hst
    obtain ⟨i, hi, rfl, rfl⟩ := hread dst p data hseen
    rcases hfile with hj | ⟨l, hl, -⟩
    · have hinj : ∀ i < 2, ∀ j < 2, shortStriping.chunkPaths[j]? = some (shortPath i) → j = i := by
        decide
      rw [hinj i hi j (List.getElem?_eq_some_iff.mp hj).1 hj]
      rfl
    · cases hl
  files := by
    intro m data hl hst
    cases hlooked m hl
    cases hst
  cached := fun e he => absurd he (hpeek e)

theorem getStream_frames_short :
    ∃ chunks, (StreamSource.pipeline shortStriping).Delivers
        (fun i => .ok (stripeOf 2 [1, 2, 3] i)) (chunks.map .ok) ∧
      Framed [1, 2, 3] chunks := by
  have hrun : (streamSource samplePlain nodeA (some shortKey)).run.Leads [] shortStart
      (.ok (.pipeline shortStriping)) := ⟨.ok (some shortMeta), 0, none, rfl, rfl⟩
  have hstart : Whole samplePlain nodeA shortKey [1, 2, 3] shortStart := by
    refine whole_short (fun m hm => ?_) (fun dst p data hseen => ?_) fun e he => ?_
    · simpa [Looked, shortStart] using hm
    · simp [Seen, shortStart] at hseen
    · simp [Peeked, shortStart] at he
  have hreads : (StreamSource.pipeline shortStriping).ReadBy samplePlain nodeA shortKey [1, 2, 3]
      shortStart fun i => .ok (stripeOf 2 [1, 2, 3] i) := by
    intro i hi
    refine ⟨shortRead i, _, rfl, ?_, whole_short (fun m hm => ?_) (fun dst p data hseen => ?_)
      fun e he => ?_⟩
    · have hi' : i = 0 ∨ i = 1 := Nat.le_one_iff_eq_zero_or_eq_one.mp (Nat.lt_succ_iff.mp hi)
      rcases hi' with rfl | rfl <;> exact ⟨0, .ok _, rfl, rfl⟩
    · simpa [Looked, shortRead, shortStart] using hm
    · obtain ⟨⟨-, rfl⟩, rfl⟩ : (dst = nodeA ∧ p = shortPath i) ∧ data = stripeOf 2 [1, 2, 3] i := by
        simpa [Seen, shortRead, shortStart] using hseen
      exact ⟨i, hi, rfl, rfl⟩
    · simp [Peeked, shortRead, shortStart] at he
  obtain ⟨⟨items, hitems⟩, hframes, -⟩ := getStream_frames hrun hstart _ hreads
  obtain ⟨chunks, rfl, hframed⟩ := hframes items hitems
  exact ⟨chunks, hitems, hframed⟩

end ContextStore.Service
