import ContextStore.Connector.Gpu
import ContextStore.Connector.Scheduler
import ContextStore.Connector.SpecCopy

/-!
# vLLM connector: worker の load

`contextstore/connector.py` の `start_load_kv`。
-/

namespace ContextStore

namespace Connector

structure LoadOutcome where
  supportsZerocopy : Except Unit Bool
  ensureRdmaRegion : Except Unit Unit
  getChunksInto : Except Unit (Option Bytes)
  getChunks : Except Unit (Option (List Bytes))

/-- worker の設定。 -/
structure Worker where
  layers : List Layer
  layers_ne : layers ≠ []
  rdmaFallbackToGrpc : Bool

namespace Worker

variable (w : Worker)

def expectedBytes (spec : Spec) : Nat := Gpu.totalBytes w.layers spec.gpuBlockIds.length

def loadZerocopy (spec : Spec) (o : LoadOutcome) (gpu : Gpu) : Except Unit (Option Gpu) :=
  if spec.gpuBlockIds.isEmpty || w.expectedBytes spec == 0 then .ok none
  else
    match o.ensureRdmaRegion with
    | .error _ => .ok none
    | .ok () =>
      match o.getChunksInto with
      | .error e => .error e
      | .ok none => .ok none
      | .ok (some data) =>
        if data.length = w.expectedBytes spec then
          .ok (some (Gpu.scatter w.layers spec.gpuBlockIds data gpu))
        else .ok none

/-- `_deserialize_spec_into_chunks`。 -/
def deserializeInto (spec : Spec) (chunks : List Bytes) (gpu : Gpu) : Except Unit Gpu :=
  if spec.gpuBlockIds.isEmpty || chunks.flatten.isEmpty then .ok gpu
  else if chunks.flatten.length = w.expectedBytes spec then
    .ok (Gpu.scatter w.layers spec.gpuBlockIds chunks.flatten gpu)
  else .error ()

def loadChunks (spec : Spec) (o : LoadOutcome) (gpu : Gpu) : Except Unit Gpu :=
  match o.getChunks with
  | .error e => .error e
  | .ok none => .ok (Gpu.zeroFill w.layers spec.gpuBlockIds gpu)
  | .ok (some []) => .ok (Gpu.zeroFill w.layers spec.gpuBlockIds gpu)
  | .ok (some (ch :: chs)) => w.deserializeInto spec (ch :: chs) gpu

/-- `_load_blocks_from_service`。 -/
def loadBlocksFromService (spec : Spec) (o : LoadOutcome) (gpu : Gpu) : Except Unit Gpu :=
  match o.supportsZerocopy with
  | .error e => .error e
  | .ok false => w.loadChunks spec o gpu
  | .ok true =>
    match w.loadZerocopy spec o gpu with
    | .error e => .error e
    | .ok (some gpu') => .ok gpu'
    | .ok none => if w.rdmaFallbackToGrpc then w.loadChunks spec o gpu else .error ()

def loadOne (gpu : Gpu) (x : Spec × LoadOutcome) : Gpu :=
  match w.loadBlocksFromService x.1 x.2 gpu with
  | .ok gpu' => gpu'
  | .error _ => gpu

/-- `start_load_kv`。 -/
def startLoadKv (specs : List (Spec × LoadOutcome)) (gpu : Gpu) : Gpu := specs.foldl w.loadOne gpu

def Transfers (spec : Spec) (o : LoadOutcome) (data : Bytes) : Prop :=
  o.supportsZerocopy = .ok true ∧ o.ensureRdmaRegion = .ok () ∧
    o.getChunksInto = .ok (some data) ∧ data.length = w.expectedBytes spec

def FallsBack (spec : Spec) (o : LoadOutcome) : Prop :=
  o.supportsZerocopy = .ok false ∨
  (o.supportsZerocopy = .ok true ∧ w.rdmaFallbackToGrpc = true ∧
    (o.ensureRdmaRegion = .error () ∨ o.getChunksInto = .ok none ∨
      ∃ data, o.getChunksInto = .ok (some data) ∧ data.length ≠ w.expectedBytes spec))

def Streams (spec : Spec) (o : LoadOutcome) (data : Bytes) : Prop :=
  w.FallsBack spec o ∧ ∃ chunks, o.getChunks = .ok (some chunks) ∧ chunks.flatten = data ∧
    data.length = w.expectedBytes spec

def Misses (spec : Spec) (o : LoadOutcome) : Prop :=
  w.FallsBack spec o ∧ (o.getChunks = .ok none ∨ o.getChunks = .ok (some []))

def Delivers (spec : Spec) (o : LoadOutcome) (data : Bytes) : Prop :=
  w.Transfers spec o data ∨ w.Streams spec o data

def Lands (spec : Spec) (o : LoadOutcome) : Prop :=
  w.Misses spec o ∨ ∃ data, w.Delivers spec o data

variable {w} {spec : Spec} {o : LoadOutcome} {gpu : Gpu}

theorem expectedBytes_pos (hids : spec.gpuBlockIds ≠ []) : 0 < w.expectedBytes spec := by
  obtain ⟨l, ls, hl⟩ := List.exists_cons_of_ne_nil w.layers_ne
  have hfirst : 0 < l.blockBytes * spec.gpuBlockIds.length :=
    Nat.mul_pos l.blockBytes_pos (List.length_pos_of_ne_nil hids)
  simp_all [expectedBytes, Gpu.totalBytes, Gpu.layerSizes]

variable (gpu) in
theorem loadChunks_cases (hids : spec.gpuBlockIds ≠ []) :
    (((o.getChunks = .ok none ∨ o.getChunks = .ok (some [])) ∧
      w.loadChunks spec o gpu = .ok (Gpu.zeroFill w.layers spec.gpuBlockIds gpu)) ∨
    (∃ chunks, o.getChunks = .ok (some chunks) ∧
      chunks.flatten.length = w.expectedBytes spec ∧
      w.loadChunks spec o gpu =
        .ok (Gpu.scatter w.layers spec.gpuBlockIds chunks.flatten gpu))) ∨
    ((∀ chunks, o.getChunks = .ok (some chunks) → chunks ≠ [] ∧
        chunks.flatten.length ≠ w.expectedBytes spec) ∧ o.getChunks ≠ .ok none ∧
      (w.loadChunks spec o gpu = .ok gpu ∨ w.loadChunks spec o gpu = .error ())) := by
  unfold loadChunks
  cases hget : o.getChunks with
  | error e => exact .inr ⟨nofun, nofun, .inr rfl⟩
  | ok r =>
    rcases r with _ | (_ | ⟨ch, chs⟩)
    · exact .inl (.inl ⟨.inl rfl, rfl⟩)
    · exact .inl (.inl ⟨.inr rfl, rfl⟩)
    · dsimp only
      unfold deserializeInto
      have hempty : spec.gpuBlockIds.isEmpty = false := by
        simpa [List.isEmpty_iff] using hids
      by_cases hlen : (ch :: chs).flatten.length = w.expectedBytes spec
      · have hne : (ch :: chs).flatten.isEmpty = false := by
          rw [← Bool.not_eq_true, List.isEmpty_iff_length_eq_zero, hlen]
          exact Nat.pos_iff_ne_zero.mp (expectedBytes_pos hids)
        simp_all
      · grind

variable (gpu) in
theorem loadZerocopy_cases (hids : spec.gpuBlockIds ≠ []) :
    (∃ data, o.ensureRdmaRegion = .ok () ∧ o.getChunksInto = .ok (some data) ∧
      data.length = w.expectedBytes spec ∧
      w.loadZerocopy spec o gpu = .ok (some (Gpu.scatter w.layers spec.gpuBlockIds data gpu))) ∨
    ((o.ensureRdmaRegion = .error () ∨ o.getChunksInto = .ok none ∨
        ∃ data, o.getChunksInto = .ok (some data) ∧ data.length ≠ w.expectedBytes spec) ∧
      w.loadZerocopy spec o gpu = .ok none) ∨
    (o.ensureRdmaRegion = .ok () ∧ o.getChunksInto = .error () ∧
      w.loadZerocopy spec o gpu = .error ()) := by
  have hskip : (spec.gpuBlockIds.isEmpty || w.expectedBytes spec == 0) = false := by
    have := Nat.pos_iff_ne_zero.mp (expectedBytes_pos (w := w) hids)
    simp [hids, this]
  unfold loadZerocopy
  rw [hskip]
  simp only [Bool.false_eq_true, if_false]
  cases hregion : o.ensureRdmaRegion with
  | error e => exact .inr (.inl ⟨.inl rfl, rfl⟩)
  | ok u =>
    grind

inductive Effect (w : Worker) (spec : Spec) (o : LoadOutcome) (gpu : Gpu) : Gpu → Prop where
  | missed (h : w.Misses spec o) : Effect w spec o gpu (Gpu.zeroFill w.layers spec.gpuBlockIds gpu)
  | delivered (data : Bytes) (h : w.Delivers spec o data) :
      Effect w spec o gpu (Gpu.scatter w.layers spec.gpuBlockIds data gpu)
  | nothing (h : ¬ w.Lands spec o) : Effect w spec o gpu gpu

theorem not_lands (htransfers : ∀ data, ¬ w.Transfers spec o data)
    (hback : w.FallsBack spec o → (∀ chunks, o.getChunks = .ok (some chunks) → chunks ≠ [] ∧
      chunks.flatten.length ≠ w.expectedBytes spec) ∧ o.getChunks ≠ .ok none) :
    ¬ w.Lands spec o := by
  rintro (⟨hf, hmiss⟩ | ⟨data, htr | ⟨hf, chunks, hget, rfl, hlen⟩⟩)
  · simp_all
  · exact htransfers data htr
  · exact ((hback hf).1 chunks hget).2 hlen

theorem effect_of_fallsBack (hids : spec.gpuBlockIds ≠ []) (hback : w.FallsBack spec o)
    (htransfers : ∀ data, ¬ w.Transfers spec o data)
    (hload : w.loadBlocksFromService spec o gpu = w.loadChunks spec o gpu) :
    Effect w spec o gpu (w.loadOne gpu (spec, o)) := by
  unfold loadOne
  rw [hload]
  rcases loadChunks_cases (w := w) (o := o) gpu hids with
    (⟨hmiss, heq⟩ | ⟨chunks, hget, hlen, heq⟩) | ⟨hchunks, hnone, heq⟩
  · rw [heq]
    exact .missed ⟨hback, hmiss⟩
  · rw [heq]
    exact .delivered _ (.inr ⟨hback, chunks, hget, rfl, hlen⟩)
  · have hnot := not_lands htransfers fun _ => ⟨hchunks, hnone⟩
    rcases heq with heq | heq <;> rw [heq] <;> exact .nothing hnot

theorem loadOne_effect (hids : spec.gpuBlockIds ≠ []) :
    Effect w spec o gpu (w.loadOne gpu (spec, o)) := by
  cases hsup : o.supportsZerocopy with
  | error e =>
    have hload : w.loadBlocksFromService spec o gpu = .error e := by
      unfold loadBlocksFromService
      rw [hsup]
    have hnot : ¬ w.Lands spec o := by
      refine not_lands (fun data h => ?_) fun h => ?_
      · cases hsup.symm.trans h.1
      · rcases h with h | h
        · cases hsup.symm.trans h
        · cases hsup.symm.trans h.1
    unfold loadOne
    rw [hload]
    exact .nothing hnot
  | ok zerocopy =>
    cases zerocopy with
    | false =>
      refine effect_of_fallsBack hids (.inl hsup) (fun data h => ?_) ?_
      · cases hsup.symm.trans h.1
      · unfold loadBlocksFromService
        rw [hsup]
    | true =>
      have hnotfalse : o.supportsZerocopy ≠ .ok false := by
        rw [hsup]
        nofun
      rcases loadZerocopy_cases (w := w) (o := o) gpu hids with
        ⟨data, hregion, hget, hlen, heq⟩ | ⟨hfail, heq⟩ | ⟨hregion, hget, heq⟩
      · have hload : w.loadBlocksFromService spec o gpu =
            .ok (Gpu.scatter w.layers spec.gpuBlockIds data gpu) := by
          simp_all [loadBlocksFromService]
        unfold loadOne
        rw [hload]
        exact .delivered data (.inl ⟨hsup, hregion, hget, hlen⟩)
      · have htransfers : ∀ data, ¬ w.Transfers spec o data := by
          rintro data ⟨-, hregion, hget, hlen⟩
          simp_all
        cases hfb : w.rdmaFallbackToGrpc with
        | true =>
          refine effect_of_fallsBack hids (.inr ⟨hsup, hfb, hfail⟩) htransfers ?_
          simp_all [loadBlocksFromService]
        | false =>
          have hload : w.loadBlocksFromService spec o gpu = .error () := by
            simp_all [loadBlocksFromService]
          have hnot : ¬ w.Lands spec o := by
            refine not_lands htransfers ?_
            rintro (h | ⟨-, h, -⟩)
            · exact absurd h hnotfalse
            · cases hfb.symm.trans h
          unfold loadOne
          rw [hload]
          exact .nothing hnot
      · have hload : w.loadBlocksFromService spec o gpu = .error () := by
          simp_all [loadBlocksFromService]
        have hnot : ¬ w.Lands spec o := by
          refine not_lands (fun data h => ?_) ?_
          · cases hget.symm.trans h.2.2.1
          · rintro (h | ⟨-, -, h | h | ⟨data, h, -⟩⟩)
            · exact absurd h hnotfalse
            · cases hregion.symm.trans h
            · cases hget.symm.trans h
            · cases hget.symm.trans h
        unfold loadOne
        rw [hload]
        exact .nothing hnot

/-! ## 指示の列 -/

theorem loadOne_of_notMem {k r b : Nat} (h : b ∉ spec.gpuBlockIds) :
    w.loadOne gpu (spec, o) k r b = gpu k r b := by
  by_cases hids : spec.gpuBlockIds = []
  ·
    have hchunks : ∀ gpu', w.loadChunks spec o gpu = .ok gpu' → gpu' k r b = gpu k r b := by
      intro gpu' hload
      unfold loadChunks at hload
      split at hload
      · cases hload
      · cases hload
        exact Gpu.overwrite_of_notMem h
      · cases hload
        exact Gpu.overwrite_of_notMem h
      · simp_all [deserializeInto]
    have hzero : w.loadZerocopy spec o gpu = .ok none := by
      unfold loadZerocopy
      simp [hids]
    unfold loadOne
    cases hload : w.loadBlocksFromService spec o gpu with
    | error e => rfl
    | ok gpu' =>
      grind [loadBlocksFromService]
  · have heffect : Effect w spec o gpu (w.loadOne gpu (spec, o)) := loadOne_effect hids
    generalize w.loadOne gpu (spec, o) = gpu' at heffect ⊢
    cases heffect with
    | missed _ => exact Gpu.overwrite_of_notMem h
    | delivered data _ => exact Gpu.overwrite_of_notMem h
    | nothing _ => rfl

def Clean (w : Worker) (specs : List (Spec × LoadOutcome)) (gpu : Gpu) (k r b : Nat) (l : Layer) :
    Prop :=
  gpu k r b = l.zeros ∨ ∃ x ∈ specs, ∃ data, w.Delivers x.1 x.2 data ∧
    ∃ j : Nat, x.1.gpuBlockIds[j]? = some b ∧
      gpu k r b = Gpu.storedRow w.layers x.1.gpuBlockIds.length data k r j

variable {specs : List (Spec × LoadOutcome)} {k r b : Nat} {l : Layer}

def Landed (w : Worker) (specs : List (Spec × LoadOutcome)) (b : Nat) : Prop :=
  ∃ x ∈ specs, b ∈ x.1.gpuBlockIds ∧ w.Lands x.1 x.2

variable (specs gpu b) in
theorem startLoadKv_block (hl : w.layers[k]? = some l) (hr : r < l.rows) :
    (w.Landed specs b ∧ w.Clean specs (w.startLoadKv specs gpu) k r b l) ∨
      (¬ w.Landed specs b ∧ w.startLoadKv specs gpu k r b = gpu k r b) := by
  induction specs using List.reverseRecOn with
  | nil =>
    refine .inr ⟨?_, rfl⟩
    rintro ⟨x, hx, -⟩
    cases hx
  | append_singleton specs x ih =>
    obtain ⟨spec, o⟩ := x
    have hfold : w.startLoadKv (specs ++ [(spec, o)]) gpu =
        w.loadOne (w.startLoadKv specs gpu) (spec, o) := by
      unfold startLoadKv
      rw [List.foldl_append]
      rfl
    have hlast : (spec, o) ∈ specs ++ [(spec, o)] := List.mem_append_right _ List.mem_cons_self
    rw [hfold]
    have hframe : b ∉ spec.gpuBlockIds → w.loadOne (w.startLoadKv specs gpu) (spec, o) k r b =
        w.startLoadKv specs gpu k r b := loadOne_of_notMem
    have heffect : spec.gpuBlockIds ≠ [] → Effect w spec o (w.startLoadKv specs gpu)
        (w.loadOne (w.startLoadKv specs gpu) (spec, o)) := loadOne_effect
    generalize w.loadOne (w.startLoadKv specs gpu) (spec, o) = gpu' at hframe heffect ⊢
    have hkeep : gpu' k r b = w.startLoadKv specs gpu k r b →
        ¬ (b ∈ spec.gpuBlockIds ∧ w.Lands spec o) →
        (w.Landed (specs ++ [(spec, o)]) b ∧ w.Clean (specs ++ [(spec, o)]) gpu' k r b l) ∨
          (¬ w.Landed (specs ++ [(spec, o)]) b ∧ gpu' k r b = gpu k r b) := by
      intro hsame hnot
      rcases ih with ⟨⟨y, hy, hyb⟩, hclean⟩ | ⟨hnone, heq⟩
      · refine .inl ⟨⟨y, List.mem_append_left _ hy, hyb⟩, ?_⟩
        rcases hclean with hz | ⟨z, hz, data, hdel, j, hj, heq⟩
        · exact .inl (hsame.trans hz)
        · exact .inr ⟨z, List.mem_append_left _ hz, data, hdel, j, hj, hsame.trans heq⟩
      · refine .inr ⟨?_, hsame.trans heq⟩
        rintro ⟨y, hy, hyb⟩
        rcases List.mem_append.mp hy with hy | hy
        · exact hnone ⟨y, hy, hyb⟩
        · cases List.mem_singleton.mp hy
          exact hnot hyb
    by_cases hb : b ∈ spec.gpuBlockIds
    · cases heffect (List.ne_nil_of_mem hb) with
      | missed hmiss =>
        refine .inl ⟨⟨_, hlast, hb, .inl hmiss⟩, .inl ?_⟩
        exact Gpu.zeroFill_of_mem hl hr hb
      | delivered data hdel =>
        obtain ⟨j, hj, heq⟩ := Gpu.overwrite_of_mem (w.startLoadKv specs gpu)
          (Gpu.storedRow w.layers spec.gpuBlockIds.length data) hl hr hb
        refine .inl ⟨⟨_, hlast, hb, .inr ⟨data, hdel⟩⟩, .inr ?_⟩
        exact ⟨_, hlast, data, hdel, j, hj, heq⟩
      | nothing hnot => exact hkeep rfl fun h => hnot h.2
    · exact hkeep (hframe hb) fun h => hb h.1

def ones (w : Worker) : Gpu := fun k _ _ =>
  (w.layers[k]?.map fun l => List.replicate l.rowBytes 1).getD []

theorem ones_ne_zeros (hl : w.layers[k]? = some l) : w.ones k r b ≠ l.zeros := by
  obtain ⟨n, hn⟩ := Nat.exists_eq_succ_of_ne_zero (Nat.pos_iff_ne_zero.mp l.rowBytes_pos)
  simp_all [ones, Layer.zeros.eq_1]

theorem start_load_clean_iff (w : Worker) (specs : List (Spec × LoadOutcome)) :
    (∀ gpu, ∀ x ∈ specs, ∀ b ∈ x.1.gpuBlockIds, ∀ k l, w.layers[k]? = some l → ∀ r < l.rows,
      w.Clean specs (w.startLoadKv specs gpu) k r b l) ↔
    ∀ x ∈ specs, ∀ b ∈ x.1.gpuBlockIds,
      ∃ y ∈ specs, b ∈ y.1.gpuBlockIds ∧ w.Lands y.1 y.2 := by
  constructor
  · intro h x hx b hb
    obtain ⟨l, ls, hls⟩ := List.exists_cons_of_ne_nil w.layers_ne
    have hl : w.layers[0]? = some l := by
      rw [hls]
      rfl
    by_contra hnone
    have hkept : w.startLoadKv specs w.ones 0 0 b = w.ones 0 0 b := by
      rcases startLoadKv_block w.ones specs b hl l.rows_pos with
        ⟨hlanded, -⟩ | ⟨-, heq⟩
      · exact absurd hlanded hnone
      · exact heq
    rcases h w.ones x hx b hb 0 l hl 0 l.rows_pos with hz | ⟨y, hy, data, hdel, j, hj, -⟩
    · exact ones_ne_zeros hl (hkept.symm.trans hz)
    · exact hnone ⟨y, hy, List.mem_of_getElem? hj, .inr ⟨data, hdel⟩⟩
  · intro h gpu x hx b hb k l hl r hr
    rcases startLoadKv_block gpu specs b hl hr with
      ⟨-, hclean⟩ | ⟨hnone, -⟩
    · exact hclean
    · exact absurd (h x hx b hb) hnone

def sampleWorker : Worker where
  layers := [⟨false, 1, Nat.one_pos⟩]
  layers_ne := by decide
  rdmaFallbackToGrpc := true

def sampleSpec : Spec := ⟨"r", "k", [7], 2⟩

def raising : LoadOutcome := ⟨.ok false, .ok (), .ok none, .error ()⟩

theorem start_load_dirty :
    ∃ gpu, sampleWorker.startLoadKv [(sampleSpec, raising)] gpu 0 0 7 = gpu 0 0 7 ∧
      ¬ sampleWorker.Clean [(sampleSpec, raising)]
        (sampleWorker.startLoadKv [(sampleSpec, raising)] gpu) 0 0 7 ⟨false, 1, by decide⟩ := by
  refine ⟨sampleWorker.ones, rfl, ?_⟩
  rintro (hz | ⟨x, hx, data, hdel, -⟩)
  · exact absurd hz (by decide)
  · cases List.mem_singleton.mp hx
    rcases hdel with ⟨hsup, -⟩ | ⟨-, chunks, hget, -⟩
    · cases hsup
    · cases hget

end Worker

open Dense

namespace SpecCopy

variable {ids : List Nat} {dtype : Dtype} {pinned : Bytes} {offset : Nat} {t : Tensor}

structure Shaped (t : Tensor) (l : Layer) : Prop where
  kvFirst : l.kvFirst = decide (4 ≤ t.shape.length ∧ t.shape[0]? = some 2)
  rowBytes : l.rowBytes = t.inner (blockDim t)

def gpuOf (layers : List Tensor) : Gpu := fun k r b =>
  (layers[k]?.map fun t => t.row (blockDim t) r b).getD []

theorem Shaped.rows {l : Layer} (h : Shaped t l) : l.rows = t.outer (blockDim t) := by
  unfold Layer.rows Tensor.outer blockDim
  rw [h.kvFirst]
  by_cases hkv : 4 ≤ t.shape.length ∧ t.shape[0]? = some 2
  · have hfirst : t.shape.take 1 = [2] := by
      rw [List.take_one, List.head?_eq_getElem?, hkv.2]
      rfl
    rw [if_pos (decide_eq_true hkv), if_pos hkv, hfirst]
    rfl
  · rw [if_neg (by simpa using hkv), if_neg hkv]
    rfl

theorem Shaped.segSize {l : Layer} (h : Shaped t l) (n : Nat) : l.blockBytes * n = segSize t n := by
  rw [segSize_eq, Layer.blockBytes, h.rows, h.rowBytes]
  ring

theorem Shaped.layerSizes {layers : List Tensor} {ls : List Layer}
    (h : List.Forall₂ Shaped layers ls) (n : Nat) :
    Gpu.layerSizes ls n = layers.map (SpecCopy.segSize · n) := by
  induction h with
  | nil => rfl
  | cons ht _ ih => exact congrArg₂ List.cons (ht.segSize n) ih

structure Scattered (ids : List Nat) (segment : Bytes) (t t' : Tensor) : Prop where
  form : SameForm t t'
  rows : ∀ r < t.outer (blockDim t), ∀ b < numBlocks t, t'.row (blockDim t) r b =
    copyRows ids (cell ids.length (t.inner (blockDim t)) segment r) (t.row (blockDim t) r) b

theorem scatterLayers_rows {layers : List Tensor} (h : ∀ t ∈ layers, Addressed ids t)
    (hdtype : ∀ t ∈ layers, t.dtype = dtype)
    (hlen : offset + (layers.map (segSize · ids.length)).sum ≤ pinned.length) :
    ∃ layers', scatterLayers dtype ids pinned (layers.zip (layers.map (segSize · ids.length)))
        offset = .ok layers' ∧ layers'.length = layers.length ∧
      ∀ k t t', layers[k]? = some t → layers'[k]? = some t' → Scattered ids ((pinned.drop (offset +
        ((layers.map (segSize · ids.length)).take k).sum)).take (segSize t ids.length)) t t' := by
  induction layers generalizing offset with
  | nil => exact ⟨[], rfl, rfl, fun k t t' ht => by cases ht⟩
  | cons t layers ih =>
    obtain ⟨ht, h⟩ := List.forall_mem_cons.mp h
    obtain ⟨hdt, hdtype⟩ := List.forall_mem_cons.mp hdtype
    rw [List.map_cons, List.sum_cons, ← Nat.add_assoc] at hlen
    obtain ⟨layers', hscatter, hlength, hall⟩ := ih h hdtype hlen
    generalize hseg : (pinned.drop offset).take (segSize t ids.length) = segment
    have hlength' : segment.length = segSize t ids.length := by
      rw [← hseg, List.length_take, List.length_drop]
      omega
    have hsize := size_segment ht hdt hlength'
    let g : Tensor := ⟨_, dtype, segment, hsize⟩
    have hg : g.shape = t.shape.set (blockDim t) ids.length := fullShape_eq ht.shape _
    obtain ⟨t', hcopy, hshape, hdtype', hrows⟩ :=
      Tensor.indexCopy_ok (blockDim_lt ht.shape) hg hdt.symm ht.inRange
    refine ⟨t' :: layers', scatterLayers_cons hseg hsize hcopy hscatter,
      congrArg Nat.succ hlength, ?_⟩
    intro k s s' hs hs'
    cases k with
    | zero =>
      cases hs
      cases hs'
      refine ⟨⟨hshape.symm, hdtype'.symm⟩, fun r hr b hb => ?_⟩
      obtain ⟨-, hn, hw⟩ := Tensor.outer_inner_of_set (blockDim_lt ht.shape) hg hdt.symm
      rw [hrows r hr b hb, List.take_zero, List.sum_nil, Nat.add_zero, hseg, ← hn, ← hw]
      rfl
    | succ k =>
      have := hall k s s' hs hs'
      rw [List.map_cons, List.take_succ_cons, List.sum_cons, ← Nat.add_assoc]
      exact this

theorem gpuOf_scattered {layers layers' : List Tensor} {ls : List Layer} {data : Bytes}
    (hshaped : List.Forall₂ Shaped layers ls) (hlength : layers'.length = layers.length)
    (hrows : ∀ k t t', layers[k]? = some t → layers'[k]? = some t' → Scattered ids ((data.drop (0 +
      ((layers.map (segSize · ids.length)).take k).sum)).take (segSize t ids.length)) t t')
    {k r b : Nat} (ht : layers[k]? = some t) (hr : r < t.outer (blockDim t))
    (hb : b < numBlocks t) :
    gpuOf layers' k r b = Gpu.scatter ls ids data (gpuOf layers) k r b := by
  obtain ⟨hk, heq⟩ := List.getElem?_eq_some_iff.mp ht
  have hk' : k < ls.length := hshaped.length_eq ▸ hk
  have hform : Shaped t ls[k] := heq ▸ hshaped.get hk hk'
  have hl : ls[k]? = some ls[k] := List.getElem?_eq_getElem hk'
  obtain ⟨t', ht'⟩ : ∃ t', layers'[k]? = some t' := ⟨_, List.getElem?_eq_getElem (hlength ▸ hk)⟩
  have hnew := hrows k t t' ht ht'
  have hleft : gpuOf layers' k r b = t'.row (blockDim t) r b := by
    rw [hnew.form.blockDim]
    simp only [gpuOf, ht', Option.map_some, Option.getD_some]
  rw [hleft, hnew.rows r hr b hb]
  unfold Gpu.scatter Gpu.overwrite
  rw [hl]
  dsimp only
  rw [if_pos (hform.rows ▸ hr)]
  refine congrFun (congrArg₂ (copyRows ids) (funext fun j => ?_) (funext fun b => ?_)) b
  · unfold Gpu.storedRow Gpu.layerOffset cell
    rw [hl, Shaped.layerSizes hshaped]
    dsimp only
    rw [hform.segSize, hform.rowBytes, Nat.zero_add]
  · simp only [gpuOf, ht, Option.map_some, Option.getD_some]

theorem deserialize_error (P : Pinned) {w : SpecCopy.Worker} (hlayers : w.layers ≠ [])
    (hids : ids ≠ []) (h : ∀ t ∈ w.layers, Addressed ids t)
    (hdtype : ∀ t ∈ w.layers, t.dtype = dtype) {chunks : List Bytes} (hne : chunks.flatten ≠ [])
    (hlen : chunks.flatten.length ≠ (w.layers.map (segSize · ids.length)).sum) :
    ∃ e, deserializeSpecIntoChunks P w ids chunks chunks.flatten.length = .error e := by
  obtain ⟨offsets, hlayout⟩ := specByteLayout_ok hids h hdtype
  unfold deserializeSpecIntoChunks
  split
  next hnil => exact absurd hnil hlayers
  next =>
    rw [if_neg (not_skipped hids hne rfl), hlayout]
    exact ⟨_, if_pos hlen⟩

end SpecCopy

open SpecCopy in
theorem Worker.deserializeInto_refined {w : Worker} {W : SpecCopy.Worker} (P : Pinned) {spec : Spec}
    {dtype : Dtype} (hshaped : List.Forall₂ Shaped W.layers w.layers)
    (h : ∀ t ∈ W.layers, Addressed spec.gpuBlockIds t) (hdtype : ∀ t ∈ W.layers, t.dtype = dtype)
    (chunks : List Bytes) :
    (w.deserializeInto spec chunks (gpuOf W.layers) = .error () ∧
      ∃ e, deserializeSpecIntoChunks P W spec.gpuBlockIds chunks chunks.flatten.length =
        .error e) ∨
    ∃ gpu W', w.deserializeInto spec chunks (gpuOf W.layers) = .ok gpu ∧
      deserializeSpecIntoChunks P W spec.gpuBlockIds chunks chunks.flatten.length = .ok W' ∧
      ∀ k t, W.layers[k]? = some t → ∀ r < t.outer (blockDim t), ∀ b < numBlocks t,
        gpuOf W'.layers k r b = gpu k r b := by
  have hexpected : w.expectedBytes spec =
      (W.layers.map (SpecCopy.segSize · spec.gpuBlockIds.length)).sum := by
    rw [Worker.expectedBytes, Gpu.totalBytes, Shaped.layerSizes hshaped]
  unfold Worker.deserializeInto
  by_cases hnothing : spec.gpuBlockIds = [] ∨ chunks.flatten = []
  ·
    refine .inr ⟨_, W, if_pos (by simpa [List.isEmpty_iff] using hnothing), ?_,
      fun _ _ _ _ _ _ _ => rfl⟩
    unfold deserializeSpecIntoChunks
    split
    · rfl
    · refine if_pos (hnothing.imp (fun hnil => ?_) fun hnil => .inr ?_)
      · rw [hnil]
        rfl
      · rw [hnil]
        rfl
  · obtain ⟨hids, hdata⟩ := not_or.mp hnothing
    rw [if_neg (by simpa [List.isEmpty_iff] using hnothing)]
    by_cases hlen : chunks.flatten.length = w.expectedBytes spec
    · have htotal := hlen.trans hexpected
      obtain ⟨layers', hscatter, hlength, hrows⟩ :=
        scatterLayers_rows h hdtype (by rw [Nat.zero_add, htotal])
      rw [if_pos hlen]
      exact .inr ⟨_, _, rfl, deserialize_of_scatter P hids h hdtype hdata rfl htotal hscatter,
        fun k t ht r hr b hb => gpuOf_scattered hshaped hlength hrows ht hr hb⟩
    · have hlayers : W.layers ≠ [] := fun hnil => w.layers_ne (by
        rw [hnil] at hshaped
        exact List.forall₂_nil_left_iff.mp hshaped)
      rw [if_neg hlen]
      exact .inl ⟨rfl, deserialize_error P hlayers hids h hdtype hdata (hexpected ▸ hlen)⟩

end Connector

end ContextStore
