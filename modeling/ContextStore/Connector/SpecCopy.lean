import ContextStore.Connector.Gpu

/-!
# vLLM connector: tensor の byte と 1 つの列

`contextstore/connector.py` の `_spec_byte_layout` `_copy_spec_to_pinned`
`_deserialize_spec_into_chunks`。
-/

namespace ContextStore

namespace Connector.SpecCopy

open Dense

structure Worker where
  layers : List Tensor
  pinnedBuf : Option Bytes

structure Pinned where
  alloc : Nat → Bytes
  length_alloc : ∀ n, (alloc n).length = n

def blockDim (t : Tensor) : Nat := if 4 ≤ t.shape.length ∧ t.shape[0]? = some 2 then 1 else 0

def numBlocks (t : Tensor) : Nat := t.size (blockDim t)

def blockOf (t : Tensor) (b : Nat) : Bytes := t.block (blockDim t) b

def perBlockNumel (t : Tensor) : Except String Nat :=
  if blockDim t < t.shape.length ∧ 0 < numBlocks t then .ok (t.shape.eraseIdx (blockDim t)).prod
  else .error "index 0 is out of bounds for dimension with size 0"

def offsetsFrom (start : Nat) : List Nat → List Nat
  | [] => [start]
  | s :: sizes => start :: offsetsFrom (start + s) sizes

def specByteLayout (layers : List Tensor) (nBlocks : Nat) :
    Except String (List Nat × List Nat × Nat) :=
  match layers with
  | [] => .ok ([], [], 0)
  | sample :: _ => do
    let sizes ← layers.mapM fun t => do
      let numel ← perBlockNumel t
      pure (numel * nBlocks * sample.dtype.itemsize)
    let offsets := offsetsFrom 0 sizes
    pure (sizes, offsets, offsets.getLastD 0)

def ensurePinned (P : Pinned) (w : Worker) (nbytes : Nat) : Worker × Bytes :=
  let fresh := P.alloc (max nbytes (nbytes * 5 / 4))
  let buf := match w.pinnedBuf with
    | none => fresh
    | some buf => if buf.length < nbytes then fresh else buf
  ({ w with pinnedBuf := some buf }, buf.take nbytes)

def copyInto (dst : Bytes) (offset size : Nat) (src : Bytes) : Except String Bytes :=
  if ((dst.drop offset).take size).length = src.length then
    .ok (dst.take offset ++ src ++ dst.drop (offset + src.length))
  else .error "size mismatch in copy"

/-! ## 写し出し -/

def copyLayers (ids : List Nat) : List (Tensor × Nat) → Nat → Bytes → Except String Bytes
  | [], _, pinned => .ok pinned
  | (t, segSize) :: rest, offset, pinned => do
    let gathered ← t.indexSelect (blockDim t) ids
    let pinned ← copyInto pinned offset segSize gathered.data
    copyLayers ids rest (offset + segSize) pinned

def copySpecToPinned (P : Pinned) (w : Worker) (ids : List Nat) (pinnedBuf : Option Bytes) :
    Except String (Worker × Bytes × Nat) :=
  if ids.length = 0 ∨ w.layers = [] then .ok (w, [], 0)
  else do
    let (sizes, _, total) ← specByteLayout w.layers ids.length
    let (w, pinned) ← match pinnedBuf with
      | some buf =>
        if total ≤ buf.length then .ok (w, buf.take total)
        else .error s!"pinned_buf too small: {buf.length} < {total}"
      | none => .ok (ensurePinned P w total)
    let pinned ← copyLayers ids (w.layers.zip sizes) 0 pinned
    pure (w, pinned, total)

/-- `_serialize_spec`。 -/
def serializeSpec (P : Pinned) (w : Worker) (ids : List Nat) (pinnedBuf : Option Bytes) :
    Except String (Worker × Bytes) := do
  let (w, pinned, total) ← copySpecToPinned P w ids pinnedBuf
  if total = 0 then pure (w, []) else pure (w, pinned)

/-! ## 書き戻し -/

def fillPinned : List Bytes → Nat → Bytes → Except String Bytes
  | [], _, pinned => .ok pinned
  | ch :: chunks, cursor, pinned =>
    if ch.length = 0 then fillPinned chunks cursor pinned
    else do
      let pinned ← copyInto pinned cursor ch.length ch
      fillPinned chunks (cursor + ch.length) pinned

def fullShape (t : Tensor) (nBlocks : Nat) : List Nat :=
  if 4 ≤ t.shape.length ∧ t.shape[0]? = some 2 then [2, nBlocks] ++ t.shape.drop 2
  else [nBlocks] ++ t.shape.drop 1

def tensorOf (shape : List Nat) (dtype : Dtype) (seg : Bytes) : Except String Tensor :=
  if h : seg.length = shape.prod * dtype.itemsize then .ok ⟨shape, dtype, seg, h⟩
  else .error "size mismatch in copy"

def scatterLayers (dtype : Dtype) (ids : List Nat) (pinned : Bytes) :
    List (Tensor × Nat) → Nat → Except String (List Tensor)
  | [], _ => .ok []
  | (t, segSize) :: rest, offset => do
    let gpuTmp ← tensorOf (fullShape t ids.length) dtype ((pinned.drop offset).take segSize)
    let t' ← t.indexCopy (blockDim t) ids gpuTmp
    let rest' ← scatterLayers dtype ids pinned rest (offset + segSize)
    pure (t' :: rest')

/-- `_deserialize_spec_into_chunks`。 -/
def deserializeSpecIntoChunks (P : Pinned) (w : Worker) (ids : List Nat) (chunks : List Bytes)
    (totalBytes : Nat) : Except String Worker :=
  match w.layers with
  | [] => .ok w
  | sample :: _ =>
    if ids.length = 0 ∨ chunks = [] ∨ totalBytes = 0 then .ok w
    else do
      let (sizes, _, expected) ← specByteLayout w.layers ids.length
      if totalBytes ≠ expected then
        .error (s!"deserialize_spec_into_chunks size mismatch: got {totalBytes} expected {expected}"
          ++ s!" (n_blocks={ids.length}, layers={w.layers.length})")
      else
        let (w, pinned) := ensurePinned P w totalBytes
        let pinned ← fillPinned chunks 0 pinned
        let layers ← scatterLayers sample.dtype ids pinned (w.layers.zip sizes) 0
        pure { w with layers := layers }

/-! ## 大きさ -/

structure Addressed (ids : List Nat) (t : Tensor) : Prop where
  shape : t.shape ≠ []
  inRange : ∀ i ∈ ids, i < numBlocks t

variable {t : Tensor}

theorem blockDim_lt (h : t.shape ≠ []) : blockDim t < t.shape.length := by
  have hpos := List.length_pos_iff.mpr h
  unfold blockDim
  split
  next hkv => omega
  next => exact hpos

def gathered (ids : List Nat) (t : Tensor) : Bytes :=
  grid (t.outer (blockDim t)) ids (t.row (blockDim t))

def serialized (layers : List Tensor) (ids : List Nat) : Bytes := layers.flatMap (gathered ids)

def segSize (t : Tensor) (nBlocks : Nat) : Nat :=
  (t.shape.eraseIdx (blockDim t)).prod * nBlocks * t.dtype.itemsize

theorem segSize_eq (t : Tensor) (n : Nat) :
    segSize t n = t.outer (blockDim t) * n * t.inner (blockDim t) := by
  unfold segSize Tensor.outer Tensor.inner
  rw [List.eraseIdx_eq_take_drop_succ, List.prod_append]
  ring

variable {ids : List Nat}

theorem length_gathered (h : Addressed ids t) :
    (gathered ids t).length = segSize t ids.length := by
  rw [segSize_eq]
  exact length_grid fun o ho i hi => t.length_row _ ho (h.inRange i hi)

variable {layers : List Tensor}

theorem length_serialized (h : ∀ t ∈ layers, Addressed ids t) :
    (serialized layers ids).length = (layers.map fun t => segSize t ids.length).sum := by
  unfold serialized
  rw [List.length_flatMap]
  congr 1
  exact List.map_congr_left fun t ht => length_gathered (h t ht)

theorem offsetsFrom_last (start : Nat) (sizes : List Nat) :
    (offsetsFrom start sizes).getLastD 0 = start + sizes.sum := by
  induction sizes generalizing start with
  | nil => rfl
  | cons s sizes ih =>
    grind [offsetsFrom.eq_2]

theorem mapM_ok {α β : Type} {f : α → Except String β} {g : α → β} {xs : List α}
    (h : ∀ x ∈ xs, f x = .ok (g x)) : xs.mapM f = .ok (xs.map g) := by
  induction xs with
  | nil => rfl
  | cons x xs ih =>
    rw [List.mapM_cons, h x List.mem_cons_self, ih fun y hy => h y (List.mem_cons_of_mem _ hy)]
    rfl

theorem perBlockNumel_ok (hids : ids ≠ []) (h : Addressed ids t) :
    perBlockNumel t = .ok (t.shape.eraseIdx (blockDim t)).prod := by
  obtain ⟨i, hi⟩ := List.exists_mem_of_ne_nil ids hids
  have hpos : 0 < numBlocks t := Nat.lt_of_le_of_lt (Nat.zero_le i) (h.inRange i hi)
  exact if_pos ⟨blockDim_lt h.shape, hpos⟩

variable {dtype : Dtype}

theorem specByteLayout_ok (hids : ids ≠ [])
    (h : ∀ t ∈ layers, Addressed ids t) (hdtype : ∀ t ∈ layers, t.dtype = dtype) :
    ∃ offsets, specByteLayout layers ids.length =
      .ok (layers.map (segSize · ids.length), offsets,
        (layers.map (segSize · ids.length)).sum) := by
  cases layers with
  | nil => exact ⟨[], rfl⟩
  | cons sample layers =>
    have hsizes : ((sample :: layers).mapM fun t => do
        let numel ← perBlockNumel t
        pure (numel * ids.length * sample.dtype.itemsize) : Except String (List Nat)) =
        .ok ((sample :: layers).map (segSize · ids.length)) := by
      refine mapM_ok fun t ht => ?_
      rw [perBlockNumel_ok hids (h t ht), hdtype sample List.mem_cons_self, ← hdtype t ht]
      rfl
    unfold specByteLayout
    dsimp only
    rw [hsizes]
    refine ⟨offsetsFrom 0 ((sample :: layers).map (segSize · ids.length)), ?_⟩
    dsimp only [bind, Except.bind, pure, Except.pure]
    rw [offsetsFrom_last, Nat.zero_add]

variable {offset : Nat}

theorem copyInto_ok {dst src : Bytes} {size : Nat} (hsize : src.length = size)
    (hroom : offset + size ≤ dst.length) :
    copyInto dst offset size src = .ok (dst.take offset ++ src ++ dst.drop (offset + size)) := by
  unfold copyInto
  rw [if_pos (by rw [List.length_take, List.length_drop]; omega), hsize]

variable {pinned : Bytes}

theorem copyLayers_ok (h : ∀ t ∈ layers, Addressed ids t)
    (hlen : offset + (layers.map (segSize · ids.length)).sum = pinned.length) :
    copyLayers ids (layers.zip (layers.map (segSize · ids.length))) offset pinned =
      .ok (pinned.take offset ++ serialized layers ids) := by
  induction layers generalizing offset pinned with
  | nil =>
    simp_all [copyLayers, serialized]
  | cons t layers ih =>
    have ht := h t List.mem_cons_self
    obtain ⟨g, hg, hdata⟩ := Tensor.indexSelect_ok (blockDim_lt ht.shape) ht.inRange
    have hseg : g.data.length = segSize t ids.length := by rw [hdata]; exact length_gathered ht
    rw [List.map_cons, List.sum_cons] at hlen
    have hcopy : copyInto pinned offset (segSize t ids.length) g.data =
        .ok (pinned.take offset ++ g.data ++ pinned.drop (offset + segSize t ids.length)) :=
      copyInto_ok hseg (by omega)
    rw [List.map_cons, List.zip_cons_cons, copyLayers, hg]
    dsimp only [bind, Except.bind]
    rw [hcopy]
    dsimp only
    have htake : (pinned.take offset ++ g.data).length = offset + segSize t ids.length := by
      rw [List.length_append, hseg, List.length_take]
      omega
    rw [ih (fun t h' => h t (List.mem_cons_of_mem _ h'))
      (by rw [List.length_append, htake, List.length_drop]; omega), List.take_left' htake, hdata,
      List.append_assoc]
    rfl

theorem length_ensurePinned (P : Pinned) (w : Worker) (nbytes : Nat) :
    (ensurePinned P w nbytes).2.length = nbytes := by
  have hfresh := P.length_alloc (max nbytes (nbytes * 5 / 4))
  unfold ensurePinned
  grind

def Roomy (pinnedBuf : Option Bytes) (nbytes : Nat) : Prop :=
  ∀ buf, pinnedBuf = some buf → nbytes ≤ buf.length

theorem serializeSpec_ok (P : Pinned) {w : Worker} (h : ∀ t ∈ w.layers, Addressed ids t)
    (hdtype : ∀ t ∈ w.layers, t.dtype = dtype) {pinnedBuf : Option Bytes}
    (hroom : Roomy pinnedBuf (serialized w.layers ids).length) :
    ∃ w₁, w₁.layers = w.layers ∧
      serializeSpec P w ids pinnedBuf = .ok (w₁, serialized w.layers ids) := by
  unfold serializeSpec copySpecToPinned
  by_cases hempty : ids.length = 0 ∨ w.layers = []
  · have hnil : serialized w.layers ids = [] := by
      unfold serialized gathered grid
      rcases hempty with hids | hlayers
      · simp [List.length_eq_zero_iff.mp hids]
      · rw [hlayers]
        rfl
    rw [if_pos hempty, hnil]
    exact ⟨w, rfl, rfl⟩
  · have hids : ids ≠ [] := fun hids => hempty (.inl (by rw [hids]; rfl))
    obtain ⟨offsets, hlayout⟩ := specByteLayout_ok hids h hdtype
    have htotal := length_serialized h
    have hcopy : ∀ (w₁ : Worker) (pinned : Bytes), w₁.layers = w.layers →
        pinned.length = (serialized w.layers ids).length →
        copyLayers ids (w₁.layers.zip (w.layers.map (segSize · ids.length))) 0 pinned =
          .ok (serialized w.layers ids) := by
      simp_all [copyLayers_ok]
    have hresult : ∀ w₁ : Worker, (if (serialized w.layers ids).length = 0
        then pure (w₁, []) else pure (w₁, serialized w.layers ids) :
          Except String (Worker × Bytes)) =
        .ok (w₁, serialized w.layers ids) := by
      intro w₁
      by_cases hzero : (serialized w.layers ids).length = 0
      · rw [if_pos hzero, List.length_eq_zero_iff.mp hzero]
        rfl
      · rw [if_neg hzero]
        rfl
    rw [if_neg hempty, hlayout, ← htotal]
    cases pinnedBuf with
    | some buf =>
      refine ⟨w, rfl, ?_⟩
      have hbuf : (serialized w.layers ids).length ≤ buf.length := hroom buf rfl
      have hlen : (buf.take (serialized w.layers ids).length).length =
          (serialized w.layers ids).length := List.length_take_of_le hbuf
      dsimp only [bind, Except.bind]
      rw [if_pos hbuf, hcopy w _ rfl hlen]
      exact hresult w
    | none =>
      refine ⟨(ensurePinned P w (serialized w.layers ids).length).1, rfl, ?_⟩
      dsimp only [bind, Except.bind]
      rw [hcopy (ensurePinned P w _).1 _ rfl (length_ensurePinned P w _)]
      exact hresult _

theorem fillPinned_ok {chunks : List Bytes} {cursor : Nat}
    (hlen : cursor + chunks.flatten.length = pinned.length) :
    fillPinned chunks cursor pinned = .ok (pinned.take cursor ++ chunks.flatten) := by
  induction chunks generalizing cursor pinned with
  | nil =>
    simp_all [fillPinned]
  | cons ch chunks ih =>
    rw [List.flatten_cons, List.length_append] at hlen
    unfold fillPinned
    by_cases hch : ch.length = 0
    · simp_all
    · have hcopy : copyInto pinned cursor ch.length ch =
          .ok (pinned.take cursor ++ ch ++ pinned.drop (cursor + ch.length)) :=
        copyInto_ok rfl (by omega)
      have htake : (pinned.take cursor ++ ch).length = cursor + ch.length := by
        rw [List.length_append, List.length_take]
        omega
      rw [if_neg hch, hcopy]
      dsimp only [bind, Except.bind]
      rw [ih (by rw [List.length_append, htake, List.length_drop]; omega), List.take_left' htake,
        List.flatten_cons, List.append_assoc]

theorem fullShape_eq (h : t.shape ≠ []) (n : Nat) :
    fullShape t n = t.shape.set (blockDim t) n := by
  unfold fullShape blockDim
  generalize t.shape = shape at h
  obtain ⟨s, shape, rfl⟩ := List.exists_cons_of_ne_nil h
  split
  next hkv =>
    have hs : s = 2 := by simpa using hkv.2
    have hne : shape ≠ [] := by
      rintro rfl
      simp at hkv
    obtain ⟨s', shape, rfl⟩ := List.exists_cons_of_ne_nil hne
    rw [hs]
    rfl
  next => rfl

def SameForm (t₀ t : Tensor) : Prop := t₀.shape = t.shape ∧ t₀.dtype = t.dtype

variable {t₀ : Tensor}

theorem SameForm.blockDim (h : SameForm t₀ t) : blockDim t₀ = blockDim t := by
  unfold SpecCopy.blockDim
  rw [h.1]

theorem SameForm.segSize (h : SameForm t₀ t) (n : Nat) :
    segSize t₀ n = segSize t n := by
  unfold SpecCopy.segSize
  rw [h.blockDim, h.1, h.2]

structure Moved (src dst : List Nat) (t₀ t t' : Tensor) : Prop where
  form : SameForm t t'
  moved : ∀ (k b b' : Nat), src[k]? = some b → dst[k]? = some b' → blockOf t' b' = blockOf t₀ b
  kept : ∀ b < numBlocks t, b ∉ dst → blockOf t' b = blockOf t b

variable {src dst : List Nat}

theorem indexCopy_moved {g : Tensor} (hsame : SameForm t₀ t) (hsrc : Addressed src t₀)
    (hdst : Addressed dst t) (hlen : src.length = dst.length) (hnodup : dst.Nodup)
    (hshape : g.shape = fullShape t dst.length) (hdtype : g.dtype = t.dtype)
    (hdata : g.data = gathered src t₀) :
    ∃ t', t.indexCopy (blockDim t) dst g = .ok t' ∧ Moved src dst t₀ t t' := by
  rw [fullShape_eq hdst.shape] at hshape
  have hids : ∀ i ∈ src, i < t₀.size (blockDim t) := fun i hi => by
    rw [← hsame.blockDim]
    exact hsrc.inRange i hi
  rw [gathered, hsame.blockDim] at hdata
  obtain ⟨t', hok, hshape', hdtype', hmoved, hkept⟩ := Tensor.indexCopy_indexSelect
    (blockDim_lt hdst.shape) hsame.1.symm hsame.2.symm hlen hids hdst.inRange hnodup hshape hdtype
    hdata
  have hform : SameForm t t' := ⟨hshape'.symm, hdtype'.symm⟩
  refine ⟨t', hok, hform, ?_, ?_⟩
  · grind [blockOf, SameForm.blockDim]
  · intro b hb hnot
    unfold blockOf
    rw [← hform.blockDim]
    exact hkept b hb hnot

theorem size_segment (ht : Addressed ids t) (hdt : t.dtype = dtype) {segment : Bytes}
    (h : segment.length = segSize t ids.length) :
    segment.length = (fullShape t ids.length).prod * dtype.itemsize := by
  rw [fullShape_eq ht.shape, ← hdt]
  refine t.length_set _ (blockDim_lt ht.shape) ?_
  rw [h, segSize_eq]

theorem scatterLayers_cons {segment : Bytes} {t' : Tensor} {rest : List (Tensor × Nat)} {n : Nat}
    {layers' : List Tensor} (hseg : (pinned.drop offset).take n = segment)
    (hsize : segment.length = (fullShape t ids.length).prod * dtype.itemsize)
    (hcopy : t.indexCopy (blockDim t) ids ⟨_, dtype, segment, hsize⟩ = .ok t')
    (hrest : scatterLayers dtype ids pinned rest (offset + n) = .ok layers') :
    scatterLayers dtype ids pinned ((t, n) :: rest) offset = .ok (t' :: layers') := by
  rw [scatterLayers, hseg, tensorOf, dif_pos hsize]
  dsimp only [bind, Except.bind]
  rw [hcopy]
  dsimp only
  rw [hrest]
  rfl

theorem not_skipped (hids : ids ≠ []) {chunks : List Bytes} (hne : chunks.flatten ≠ [])
    {total : Nat} (htotal : chunks.flatten.length = total) :
    ¬ (ids.length = 0 ∨ chunks = [] ∨ total = 0) := by
  rintro (hzero | hnil | hzero)
  · exact hids (List.length_eq_zero_iff.mp hzero)
  · exact hne (by rw [hnil]; rfl)
  · exact hne (List.length_eq_zero_iff.mp (htotal.trans hzero))

theorem deserialize_of_scatter (P : Pinned) {w : Worker} (hids : ids ≠ [])
    (h : ∀ t ∈ w.layers, Addressed ids t) (hdtype : ∀ t ∈ w.layers, t.dtype = dtype)
    {chunks : List Bytes} (hne : chunks.flatten ≠ []) {total : Nat}
    (htotal : chunks.flatten.length = total)
    (hlen : total = (w.layers.map (segSize · ids.length)).sum) {layers' : List Tensor}
    (hscatter : scatterLayers dtype ids chunks.flatten
      (w.layers.zip (w.layers.map (segSize · ids.length))) 0 = .ok layers') :
    deserializeSpecIntoChunks P w ids chunks total =
      .ok { (ensurePinned P w total).1 with layers := layers' } := by
  have hfull := not_skipped hids hne htotal
  obtain ⟨offsets, hlayout⟩ := specByteLayout_ok hids h hdtype
  have hfill : fillPinned chunks 0 (ensurePinned P w total).2 = .ok chunks.flatten := by
    rw [fillPinned_ok (by rw [length_ensurePinned, Nat.zero_add, htotal]), List.take_zero,
      List.nil_append]
  unfold deserializeSpecIntoChunks
  split
  next hnil =>
    rw [hnil] at hlen
    exact absurd (.inr (.inr hlen)) hfull
  next sample rest hlayers =>
    have hsample : sample.dtype = dtype :=
      hdtype sample (by rw [hlayers]; exact List.mem_cons_self)
    rw [if_neg hfull, hlayout, ← hlen, hsample]
    dsimp only [bind, Except.bind]
    rw [if_neg (fun h => h rfl), hfill]
    dsimp only
    have hsame : (ensurePinned P w total).1.layers = w.layers := rfl
    rw [hsame, hscatter]
    rfl

variable {layers₀ : List Tensor}

theorem scatterLayers_ok (hlen : src.length = dst.length) (hnodup : dst.Nodup)
    (hsame : List.Forall₂ SameForm layers₀ layers)
    (hsrc : ∀ t ∈ layers₀, Addressed src t) (hdst : ∀ t ∈ layers, Addressed dst t)
    (hdtype : ∀ t ∈ layers, t.dtype = dtype) (hp : pinned.drop offset = serialized layers₀ src) :
    ∃ layers', scatterLayers dtype dst pinned
        (layers.zip (layers.map (segSize · dst.length))) offset = .ok layers' ∧
      List.Forall₂ (fun p t' => Moved src dst p.1 p.2 t') (layers₀.zip layers) layers' := by
  induction hsame generalizing offset with
  | nil => exact ⟨[], rfl, .nil⟩
  | @cons t₀ t layers₀ layers ht _ ih =>
    have hsrc₀ := hsrc t₀ List.mem_cons_self
    have hdst₀ := hdst t List.mem_cons_self
    have hseg : (gathered src t₀).length = segSize t dst.length := by
      rw [length_gathered hsrc₀, ht.segSize, hlen]
    have hp' : pinned.drop offset = gathered src t₀ ++ serialized layers₀ src := hp
    have htake : (pinned.drop offset).take (segSize t dst.length) = gathered src t₀ := by
      rw [hp', List.take_left' hseg]
    have hrest : pinned.drop (offset + segSize t dst.length) = serialized layers₀ src := by
      rw [← List.drop_drop, hp', List.drop_left' hseg]
    have hdt : t.dtype = dtype := hdtype t List.mem_cons_self
    have hsize := size_segment hdst₀ hdt hseg
    obtain ⟨t', hcopy, hmoved⟩ := indexCopy_moved (g := ⟨_, dtype, _, hsize⟩) ht hsrc₀ hdst₀ hlen
      hnodup rfl hdt.symm rfl
    obtain ⟨layers', hscatter, hall⟩ := ih (fun t h => hsrc t (List.mem_cons_of_mem _ h))
      (fun t h => hdst t (List.mem_cons_of_mem _ h))
        (fun t h => hdtype t (List.mem_cons_of_mem _ h))
      hrest
    exact ⟨t' :: layers', scatterLayers_cons htake hsize hcopy hscatter, .cons hmoved hall⟩

theorem moved_of_empty (hsame : SameForm t₀ t) (hsrc : Addressed src t₀) (hdst : Addressed dst t)
    (hempty : gathered src t₀ = []) :
    Moved src dst t₀ t t := by
  refine ⟨⟨rfl, rfl⟩, fun k b b' hb hb' => ?_, fun _ _ _ => rfl⟩
  have hseg := length_gathered hsrc
  rw [hempty, List.length_nil, segSize_eq] at hseg
  have hpos : 0 < src.length := List.length_pos_of_mem (List.mem_of_getElem? hb)
  have hzero : t₀.outer (blockDim t₀) * t₀.inner (blockDim t₀) = 0 := by
    rcases Nat.mul_eq_zero.mp hseg.symm with h | h
    · rcases Nat.mul_eq_zero.mp h with h | h
      · rw [h, Nat.zero_mul]
      · omega
    · rw [h, Nat.mul_zero]
  have h₀ : blockOf t₀ b = [] := by
    refine List.length_eq_zero_iff.mp ?_
    rw [blockOf, t₀.length_block _ (hsrc.inRange b (List.mem_of_getElem? hb)), hzero]
  have h : blockOf t b' = [] := by
    refine List.length_eq_zero_iff.mp ?_
    rw [blockOf, t.length_block _ (hdst.inRange b' (List.mem_of_getElem? hb')), ← hsame.blockDim]
    unfold Tensor.outer Tensor.inner at hzero ⊢
    rw [← hsame.1, ← hsame.2, hzero]
  rw [h, h₀]

theorem forall_moved_of_empty (hsame : List.Forall₂ SameForm layers₀ layers)
    (hsrc : ∀ t ∈ layers₀, Addressed src t) (hdst : ∀ t ∈ layers, Addressed dst t)
    (hempty : serialized layers₀ src = []) :
    List.Forall₂ (fun p t' => Moved src dst p.1 p.2 t') (layers₀.zip layers) layers := by
  induction hsame with
  | nil => exact .nil
  | @cons t₀ t layers₀ layers ht _ ih =>
    have hsplit : gathered src t₀ ++ serialized layers₀ src = [] := hempty
    simp_all [moved_of_empty]

theorem map_segSize (hsame : List.Forall₂ SameForm layers₀ layers)
    (n : Nat) : layers₀.map (segSize · n) = layers.map (segSize · n) := by
  induction hsame with
  | nil => rfl
  | cons ht _ ih => rw [List.map_cons, List.map_cons, ih, ht.segSize]

theorem forall_of_sameForm {p : Tensor → Prop}
    (hsame : List.Forall₂ SameForm layers₀ layers) (hp : ∀ t₀ t, SameForm t₀ t → p t₀ → p t)
    (h : ∀ t ∈ layers₀, p t) : ∀ t ∈ layers, p t := by
  induction hsame with
  | nil => exact fun _ ht => (List.not_mem_nil ht).elim
  | cons ht _ ih =>
    grind

theorem deserialize_ok (P : Pinned) {w : Worker} (hsame : List.Forall₂ SameForm layers₀ w.layers)
    (hdtype : ∀ t ∈ w.layers, t.dtype = dtype) (hsrc : ∀ t ∈ layers₀, Addressed src t)
    (hdst : ∀ t ∈ w.layers, Addressed dst t) (hnodup : dst.Nodup) (hlen : src.length = dst.length)
    {chunks : List Bytes} (hchunks : chunks.flatten = serialized layers₀ src) :
    ∃ w', deserializeSpecIntoChunks P w dst chunks (serialized layers₀ src).length = .ok w' ∧
      List.Forall₂ (fun p t' => Moved src dst p.1 p.2 t') (layers₀.zip w.layers) w'.layers := by
  have htotal : (serialized layers₀ src).length =
      (w.layers.map (segSize · dst.length)).sum := by
    rw [length_serialized hsrc, hlen, map_segSize hsame]
  by_cases hempty : serialized layers₀ src = []
  ·
    refine ⟨w, ?_, forall_moved_of_empty hsame hsrc hdst hempty⟩
    unfold deserializeSpecIntoChunks
    rw [hempty]
    split
    · rfl
    · rw [if_pos (.inr (.inr rfl))]
  · have hids : dst ≠ [] := by
      rintro rfl
      have hsrcnil : src = [] := List.length_eq_zero_iff.mp hlen
      refine hempty ?_
      rw [hsrcnil]
      simp [serialized, gathered, grid]
    have hdrop : chunks.flatten.drop 0 = serialized layers₀ src := by rw [List.drop_zero, hchunks]
    obtain ⟨layers', hscatter, hmoved⟩ :=
      scatterLayers_ok hlen hnodup hsame hsrc hdst hdtype hdrop
    exact ⟨_, deserialize_of_scatter P hids hdst hdtype (hchunks ▸ hempty)
      (congrArg List.length hchunks) htotal hscatter, hmoved⟩

/-- **写し出しと書き戻しは逆である。** -/
theorem gather_scatter_inverse (P P' : Pinned) {w w' : Worker} {src dst : List Nat} {dtype : Dtype}
    {pinnedBuf : Option Bytes} (hsame : List.Forall₂ SameForm w.layers w'.layers)
    (hdtype : ∀ t ∈ w.layers, t.dtype = dtype) (hshape : ∀ t ∈ w.layers, t.shape ≠ [])
    (hsrc : ∀ t ∈ w.layers, ∀ i ∈ src, i < numBlocks t)
    (hdst : ∀ t ∈ w.layers, ∀ i ∈ dst, i < numBlocks t) (hnodup : dst.Nodup)
    (hlen : src.length = dst.length)
    (hroom : Roomy pinnedBuf (w.layers.map (segSize · src.length)).sum) :
    ∃ w₁ data, serializeSpec P w src pinnedBuf = .ok (w₁, data) ∧ w₁.layers = w.layers ∧
      ∀ chunks : List Bytes, chunks.flatten = data →
        ∃ w₂, deserializeSpecIntoChunks P' w' dst chunks data.length = .ok w₂ ∧
          List.Forall₂ (fun p t' => Moved src dst p.1 p.2 t') (w.layers.zip w'.layers)
            w₂.layers := by
  have haddr : ∀ t ∈ w.layers, Addressed src t := fun t ht => ⟨hshape t ht, hsrc t ht⟩
  rw [← length_serialized haddr] at hroom
  obtain ⟨w₁, hw₁, hser⟩ := serializeSpec_ok P haddr hdtype hroom
  have hdtype' : ∀ t ∈ w'.layers, t.dtype = dtype :=
    forall_of_sameForm hsame (fun t₀ t h ht => h.2 ▸ ht) hdtype
  have haddr' : ∀ t ∈ w'.layers, Addressed dst t := by
    refine forall_of_sameForm hsame (fun t₀ t h ht => ?_) fun t ht => ⟨hshape t ht, hdst t ht⟩
    refine ⟨h.1 ▸ ht.shape, fun i hi => ?_⟩
    have hlt := ht.inRange i hi
    unfold numBlocks Tensor.size at hlt ⊢
    rwa [← h.blockDim, ← h.1]
  exact ⟨w₁, serialized w.layers src, hser, hw₁, fun chunks hchunks =>
    deserialize_ok P' hsame hdtype' haddr haddr' hnodup hlen hchunks⟩

def sampleDtype : Dtype := ⟨"bfloat16", 2⟩

def sampleWorker (x : Nat) : Worker where
  layers := [⟨[2, 3, 1, 1], sampleDtype, (List.range 12).map fun i => UInt8.ofNat (x + i), rfl⟩,
    ⟨[3, 2], sampleDtype, (List.range 12).map fun i => UInt8.ofNat (x + 50 + i), rfl⟩]
  pinnedBuf := none

def samplePinned : Pinned := ⟨fun n => List.replicate n 0, fun _ => List.length_replicate⟩

theorem gather_scatter_inverse_overlap :
    ∃ w₁ data, serializeSpec samplePinned (sampleWorker 0) [0, 2] none = .ok (w₁, data) ∧
      w₁.layers = (sampleWorker 0).layers ∧ ∀ chunks : List Bytes, chunks.flatten = data →
        ∃ w₂, deserializeSpecIntoChunks samplePinned (sampleWorker 100) [2, 1] chunks data.length =
            .ok w₂ ∧
          List.Forall₂ (fun p t' => Moved [0, 2] [2, 1] p.1 p.2 t')
            ((sampleWorker 0).layers.zip (sampleWorker 100).layers) w₂.layers := by
  have hsame : List.Forall₂ SameForm (sampleWorker 0).layers (sampleWorker 100).layers :=
    .cons ⟨rfl, rfl⟩ (.cons ⟨rfl, rfl⟩ .nil)
  have hdtype : ∀ t ∈ (sampleWorker 0).layers, t.dtype = sampleDtype := by simp [sampleWorker]
  have hshape : ∀ t ∈ (sampleWorker 0).layers, t.shape ≠ [] := by simp [sampleWorker]
  have hsrc : ∀ t ∈ (sampleWorker 0).layers, ∀ i ∈ [0, 2], i < numBlocks t := by
    simp [sampleWorker, numBlocks, blockDim, Tensor.size]
  have hdst : ∀ t ∈ (sampleWorker 0).layers, ∀ i ∈ [2, 1], i < numBlocks t := by
    simp [sampleWorker, numBlocks, blockDim, Tensor.size]
  exact gather_scatter_inverse samplePinned samplePinned hsame hdtype hshape hsrc hdst (by decide)
    rfl fun _ h => by cases h

end Connector.SpecCopy

end ContextStore
