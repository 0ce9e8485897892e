import ContextStore.Codec.Reader
import ContextStore.Tensor.Index

/-!
# 可逆な codec

`contextstore/core/codec.py` の `NoOpCodec`。
-/

namespace ContextStore.NoOp

open Codec

/-! ## tensor -/

/-- `torch.dtype`。 -/
inductive TorchDtype where
  | float16
  | bfloat16
  | float32
  | float64
  | float8E4m3fn
  | float8E5m2
  | complex32
  | complex64
  | complex128
  | uint8
  | uint16
  | uint32
  | uint64
  | int8
  | int16
  | int32
  | int64
  | bool
  | other (itemsize : ℕ) (hasNumpy : Bool)
deriving DecidableEq

namespace TorchDtype

/-- `element_size()`。 -/
def itemsize : TorchDtype → ℕ
  | .float8E4m3fn | .float8E5m2 | .uint8 | .int8 | .bool => 1
  | .float16 | .bfloat16 | .uint16 | .int16 => 2
  | .float32 | .complex32 | .uint32 | .int32 => 4
  | .float64 | .complex64 | .uint64 | .int64 => 8
  | .complex128 => 16
  | .other size _ => size

def hasNumpy : TorchDtype → Bool
  | .bfloat16 | .float8E4m3fn | .float8E5m2 | .complex32 => false
  | .other _ numpy => numpy
  | _ => true

/-- `_DTYPE_TO_ID`。 -/
def toId : TorchDtype → Option ℕ
  | .float16 => some 0
  | .bfloat16 => some 1
  | .float32 => some 2
  | .uint8 => some 3
  | _ => none

/-- `_ID_TO_DTYPE`。 -/
def ofId : ℕ → Option TorchDtype
  | 0 => some .float16
  | 1 => some .bfloat16
  | 2 => some .float32
  | 3 => some .uint8
  | _ => none

def npItemsize : TorchDtype → Option ℕ
  | .float16 | .bfloat16 | .int16 => some 2
  | .float32 => some 4
  | .uint8 => some 1
  | _ => none

end TorchDtype

def positions : List ℕ → List ℕ → ℕ → List ℕ
  | n :: shape, s :: strides, o =>
    (List.range n).flatMap fun i => positions shape strides (o + i * s)
  | _, _, o => [o]

def rowMajor : List ℕ → List ℕ
  | [] => []
  | _ :: shape => shape.prod :: rowMajor shape

structure View where
  dtype : TorchDtype
  shape : List ℕ
  strides : List ℕ
  offset : ℕ
  storage : List UInt8
  strides_length : strides.length = shape.length
  bounds : ∀ o ∈ positions shape strides offset, (o + 1) * dtype.itemsize ≤ storage.length

theorem length_rowMajor (shape : List ℕ) : (rowMajor shape).length = shape.length := by
  induction shape with
  | nil => rfl
  | cons n shape ih => exact congrArg Nat.succ ih

theorem length_positions {shape strides : List ℕ} (h : strides.length = shape.length) (o : ℕ) :
    (positions shape strides o).length = shape.prod := by
  induction shape generalizing strides o with
  | nil => rfl
  | cons n shape ih =>
    cases strides with
    | nil => cases h
    | cons s strides =>
      rw [positions, Dense.length_flatMap_const fun i _ => ih (Nat.succ.inj h) _,
        List.length_range, List.prod_cons]

theorem positions_rowMajor (shape : List ℕ) (o : ℕ) :
    positions shape (rowMajor shape) o = List.range' o shape.prod := by
  induction shape generalizing o with
  | nil => rfl
  | cons n shape ih =>
    rw [rowMajor, positions, List.prod_cons]
    simp only [ih]
    induction n with
    | zero => simp
    | succ n ihn =>
      rw [List.range_succ, List.flatMap_append, ihn, List.flatMap_singleton, Nat.succ_mul,
        List.range'_append_1]

namespace View

variable (t : View)

def data : List UInt8 :=
  (positions t.shape t.strides t.offset).flatMap fun o =>
    (t.storage.drop (o * t.dtype.itemsize)).take t.dtype.itemsize

theorem length_data : t.data.length = t.shape.prod * t.dtype.itemsize := by
  rw [← length_positions t.strides_length t.offset]
  refine Dense.length_flatMap_const fun o ho => ?_
  have hbound := t.bounds o ho
  rw [Nat.succ_mul] at hbound
  rw [List.length_take, List.length_drop]
  omega

theorem bounds_rowMajor (o : ℕ) (ho : o ∈ positions t.shape (rowMajor t.shape) 0) :
    (o + 1) * t.dtype.itemsize ≤ t.data.length := by
  rw [positions_rowMajor, List.mem_range'_1] at ho
  rw [length_data]
  exact Nat.mul_le_mul_right _ (by omega)

/-- `is_contiguous()`。 -/
def isContiguous : Bool :=
  t.shape.prod == 0 || (t.shape.zip (t.strides.zip (rowMajor t.shape))).all
    fun (n, s, r) => n == 1 || s == r

/-- `contiguous()`。 -/
def contiguous : View :=
  if t.isContiguous then t
  else ⟨t.dtype, t.shape, rowMajor t.shape, 0, t.data, length_rowMajor _, t.bounds_rowMajor⟩

theorem contiguous_spec :
    t.contiguous.dtype = t.dtype ∧ t.contiguous.shape = t.shape ∧ t.contiguous.data = t.data := by
  unfold contiguous
  split
  · exact ⟨rfl, rfl, rfl⟩
  · refine ⟨rfl, rfl, ?_⟩
    rw [data, positions_rowMajor, ← List.range_eq_range', Dense.flatMap_take_drop]
    exact List.take_of_length_le t.length_data.le

def viewAs (d : TorchDtype) (h : t.dtype.itemsize = d.itemsize) : View :=
  { t with dtype := d, bounds := fun o ho => h ▸ t.bounds o ho }

theorem data_viewAs {d : TorchDtype} (h : t.dtype.itemsize = d.itemsize) :
    (t.viewAs d h).data = t.data := by
  unfold data viewAs
  rw [h]

end View

/-! ## 書く -/

def tensorToBytes (t : View) : List UInt8 :=
  if t.contiguous.dtype.hasNumpy then t.contiguous.data else t.contiguous.storage

/-- `struct.pack` した header。 -/
def header (d : TorchDtype) (shape : List ℕ) : List UInt8 :=
  leBytes 4 0xC5000000 ++ (leBytes 1 (d.toId.getD 2) ++ (leBytes 1 shape.length ++
    shape.flatMap (leBytes 4)))

variable {d : TorchDtype}

theorem itemsize_bfloat16 (h : d = .bfloat16) :
    d.itemsize = TorchDtype.int16.itemsize := by
  rw [h]
  rfl

/-- `NoOpCodec.encode_to_bytes`。 -/
def encodeToBytes (t : View) : Except String (List UInt8) :=
  if decide (255 < t.shape.length) || t.shape.any (fun n => decide (2 ^ 32 ≤ n)) then
    .error "struct.error"
  else
    let stored := t.contiguous
    let stored := if h : stored.dtype = .bfloat16 then stored.viewAs .int16 (itemsize_bfloat16 h)
      else stored
    .ok (header t.dtype t.shape ++ tensorToBytes stored)

/-! ## 読む -/

structure Loaded where
  dtype : TorchDtype
  shape : List ℕ
  data : List UInt8
  length_eq : data.length = shape.prod * dtype.itemsize

def reshape (d : TorchDtype) (data : List UInt8) (shape : List ℕ) : Except String Loaded :=
  if h : data.length = shape.prod * d.itemsize then .ok ⟨d, shape, data, h⟩
  else .error "shape is invalid for input"

def bytesToTensor (rest : List UInt8) (d : TorchDtype) (shape : List ℕ) (length : ℕ) :
    Except String Loaded :=
  let length := if length = 0 then rest.length else length
  let buf := rest.take length
  let fallback := if buf = [] ∨ buf.length % d.itemsize ≠ 0 then .error "ValueError"
    else reshape d buf shape
  match d.npItemsize with
  | some w =>
    if rest.length < length / w * w then .error "buffer is smaller than requested size"
    else
      match reshape d (rest.take (length / w * w)) shape with
      | .ok t => .ok t
      | .error _ => fallback
  | none => fallback

def unpack (w : ℕ) : Reader String ℕ := do
  let b ← Codec.take "unpack_from requires a larger buffer" w
  return leValue b

def readHeader : Reader String (ℕ × List ℕ) := do
  let _magic ← unpack 4
  let id ← unpack 1
  let ndim ← unpack 1
  let shape ← readMany (unpack 4) ndim
  return (id, shape)

/-- `NoOpCodec.decode_from_bytes`。 -/
def decodeFromBytes (data : List UInt8) : Except String Loaded := do
  let ((id, shape), rest) ← readHeader.run data
  let original := (TorchDtype.ofId id).getD .float32
  let stored := if original = .bfloat16 then .int16 else original
  let t ← bytesToTensor rest stored shape (shape.prod * stored.itemsize)
  if original = .bfloat16 then reshape .bfloat16 t.data t.shape else .ok t

/-! ## 往復 -/

theorem reads_unpack {w n : ℕ} (h : n < 256 ^ w) : Reads (unpack w) (leBytes w n) n := by
  have hread := (Reads.take "unpack_from requires a larger buffer" (length_leBytes w n)).bind
    (f := fun b => pure (leValue b)) (Reads.pure _)
  rwa [List.append_nil, leValue_leBytes h] at hread

variable {shape : List ℕ}

theorem reads_header (d : TorchDtype) (hdims : shape.length ≤ 255)
    (hsize : ∀ n ∈ shape, n < 2 ^ 32) :
    Reads readHeader (header d shape) (d.toId.getD 2, shape) := by
  have hid : d.toId.getD 2 < 256 ^ 1 := by
    unfold TorchDtype.toId
    split <;> decide
  have hshape : Reads (readMany (unpack 4) shape.length) (shape.flatMap (leBytes 4)) shape :=
    .readMany fun n hn => reads_unpack (by have := hsize n hn; omega)
  have hlast := hshape.bind (f := fun shape => pure (d.toId.getD 2, shape)) (Reads.pure _)
  rw [List.append_nil] at hlast
  exact (reads_unpack (by decide)).bind ((reads_unpack hid).bind
    ((reads_unpack (by omega)).bind hlast))

theorem bytesToTensor_exact (hnp : d.npItemsize = some d.itemsize)
    {raw : List UInt8} (h : raw.length = shape.prod * d.itemsize) :
    bytesToTensor raw d shape (shape.prod * d.itemsize) = .ok ⟨d, shape, raw, h⟩ := by
  have hlength : (if shape.prod * d.itemsize = 0 then raw.length else shape.prod * d.itemsize) =
      raw.length := by
    split
    · rfl
    · exact h.symm
  have hpos : 0 < d.itemsize := by
    cases d <;> first | decide | cases hnp
  have hcount : raw.length / d.itemsize * d.itemsize = raw.length := by
    rw [h, Nat.mul_div_cancel _ hpos]
  unfold bytesToTensor
  simp only [hlength, hnp, hcount, List.take_length, lt_irrefl, if_false]
  rw [reshape, dif_pos h]

theorem tensorToBytes_eq {t : View} (h : t.dtype.hasNumpy) : tensorToBytes t = t.data := by
  obtain ⟨hdtype, -, hdata⟩ := t.contiguous_spec
  rw [tensorToBytes, hdtype, if_pos h, hdata]

theorem hasNumpy_of_toId (h : d.toId.isSome) (hne : d ≠ .bfloat16) :
    d.hasNumpy := by
  cases d <;> first | exact (hne rfl).elim | rfl | cases h

theorem npItemsize_of_toId (h : d.toId.isSome) :
    d.npItemsize = some d.itemsize := by
  cases d <;> first | rfl | cases h

theorem ofId_toId (h : d.toId.isSome) :
    (TorchDtype.ofId (d.toId.getD 2)).getD .float32 = d := by
  cases d <;> first | rfl | cases h

theorem decodeFromBytes_of_toId (t : View) (hdtype : t.dtype.toId.isSome) {bytes : List UInt8}
    (hbytes : encodeToBytes t = .ok bytes) :
    ∃ d, decodeFromBytes bytes = .ok d ∧ d.dtype = t.dtype ∧ d.shape = t.shape ∧
      d.data = t.data := by
  unfold encodeToBytes at hbytes
  split at hbytes
  · cases hbytes
  next hfits =>
    obtain ⟨hcdtype, -, hcdata⟩ := t.contiguous_spec
    have hraw : tensorToBytes (if h : t.contiguous.dtype = .bfloat16 then
        t.contiguous.viewAs .int16 (itemsize_bfloat16 h) else t.contiguous) = t.data := by
      split
      · rw [tensorToBytes_eq rfl, View.data_viewAs, hcdata]
      next hne =>
        rw [hcdtype] at hne
        have hnumpy : t.contiguous.dtype.hasNumpy := by
          rw [hcdtype]
          exact hasNumpy_of_toId hdtype hne
        rw [tensorToBytes_eq hnumpy, hcdata]
    simp only [hraw, Except.ok.injEq] at hbytes
    subst hbytes
    have hfits : t.shape.length ≤ 255 ∧ ∀ n ∈ t.shape, n < 2 ^ 32 := by simpa using hfits
    have hhead := reads_header t.dtype hfits.1 hfits.2 t.data
    have hlen := t.length_data
    unfold decodeFromBytes
    rw [hhead]
    dsimp only [bind, Except.bind]
    rw [ofId_toId hdtype]
    by_cases hbf : t.dtype = .bfloat16
    · have hlen16 : t.data.length = t.shape.prod * TorchDtype.int16.itemsize := by
        rw [hlen, itemsize_bfloat16 hbf]
      rw [if_pos hbf, bytesToTensor_exact rfl hlen16]
      dsimp only
      rw [if_pos hbf, reshape, dif_pos (hbf ▸ hlen)]
      exact ⟨_, rfl, hbf.symm, rfl, rfl⟩
    · rw [if_neg hbf, bytesToTensor_exact (npItemsize_of_toId hdtype) hlen]
      dsimp only
      rw [if_neg hbf]
      exact ⟨_, rfl, rfl, rfl, rfl⟩

theorem reshape_dtype {data : List UInt8} {t : Loaded}
    (h : reshape d data shape = .ok t) : t.dtype = d := by
  unfold reshape at h
  split at h
  next => cases h; rfl
  next => cases h

theorem bytesToTensor_dtype {rest : List UInt8} {n : ℕ}
    {t : Loaded} (h : bytesToTensor rest d shape n = .ok t) : t.dtype = d := by
  have hfallback : ∀ {buf : List UInt8}, (if buf = [] ∨ buf.length % d.itemsize ≠ 0 then
      .error "ValueError" else reshape d buf shape) = .ok t → t.dtype = d := by
    intro buf h
    split at h
    next => cases h
    next => exact reshape_dtype h
  unfold bytesToTensor at h
  dsimp only at h
  generalize (if n = 0 then rest.length else n) = len at h
  split at h
  next =>
    split at h
    next => cases h
    next =>
      split at h
      next hok =>
        cases h
        exact reshape_dtype hok
      next => exact hfallback h
  next => exact hfallback h

theorem toId_of_decodeFromBytes {data : List UInt8} {t : Loaded}
    (h : decodeFromBytes data = .ok t) : t.dtype.toId.isSome := by
  unfold decodeFromBytes at h
  obtain ⟨⟨⟨id, shape⟩, rest⟩, -, h⟩ := ok_of_bind h
  obtain ⟨u, hu, h⟩ := ok_of_bind h
  have hid : ((TorchDtype.ofId id).getD .float32).toId.isSome := by
    unfold TorchDtype.ofId
    split <;> rfl
  split at h
  next =>
    rw [reshape_dtype h]
    rfl
  next hne =>
    cases h
    rw [bytesToTensor_dtype hu]
    rwa [if_neg hne]

theorem decode_encode_iff (t : View) {bytes : List UInt8} (hbytes : encodeToBytes t = .ok bytes) :
    (∃ d, decodeFromBytes bytes = .ok d ∧ d.dtype = t.dtype ∧ d.shape = t.shape ∧
      d.data = t.data) ↔ t.dtype.toId.isSome := by
  constructor
  · rintro ⟨d, hd, hdtype, -, -⟩
    rw [← hdtype]
    exact toId_of_decodeFromBytes hd
  · intro hdtype
    exact decodeFromBytes_of_toId t hdtype hbytes

def eightBytes : List UInt8 := [1, 2, 3, 4, 5, 6, 7, 8]

theorem bounds_alternate : ∀ o ∈ positions [2] [2] 1,
    (o + 1) * TorchDtype.bfloat16.itemsize ≤ eightBytes.length := by
  decide

def alternateView : View := ⟨.bfloat16, [2], [2], 1, eightBytes, rfl, bounds_alternate⟩

theorem decode_encode_iff_view : ∃ bytes d, encodeToBytes alternateView = .ok bytes ∧
    decodeFromBytes bytes = .ok d ∧ d.data = [3, 4, 7, 8] := by
  obtain ⟨d, hd, -, -, hdata⟩ := (decode_encode_iff alternateView rfl).mpr rfl
  exact ⟨_, d, rfl, hd, hdata⟩

theorem bounds_double : ∀ o ∈ positions [1] [1] 0,
    (o + 1) * TorchDtype.float64.itemsize ≤ eightBytes.length := by
  decide

/-- 表に無い float64 は、前の 4 byte だけの float32 として読み戻される。 -/
theorem decode_encode_float64 : ∃ bytes d,
    encodeToBytes ⟨.float64, [1], [1], 0, eightBytes, rfl, bounds_double⟩ = .ok bytes ∧
      decodeFromBytes bytes = .ok d ∧ d.dtype = .float32 ∧ d.data = [1, 2, 3, 4] :=
  ⟨_, ⟨.float32, [1], [1, 2, 3, 4], rfl⟩, rfl, rfl, rfl, rfl⟩

end ContextStore.NoOp
