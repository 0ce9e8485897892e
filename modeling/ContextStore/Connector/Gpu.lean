import ContextStore.Data
import ContextStore.Tensor.Index

/-!
# vLLM connector: GPU の KV cache と 1 つの列

`contextstore/connector.py` の worker が KV cache と byte の列の間でする写し。
-/

namespace ContextStore

namespace Connector

structure Layer where
  kvFirst : Bool
  rowBytes : Nat
  rowBytes_pos : 0 < rowBytes

namespace Layer

variable (l : Layer)

def rows : Nat := if l.kvFirst then 2 else 1

def blockBytes : Nat := l.rows * l.rowBytes

theorem rows_pos : 0 < l.rows := by
  unfold rows
  split <;> decide

theorem blockBytes_pos : 0 < l.blockBytes := Nat.mul_pos l.rows_pos l.rowBytes_pos

def zeros : Bytes := List.replicate l.rowBytes 0

end Layer

abbrev Gpu := Nat → Nat → Nat → Bytes

namespace Gpu

def layerSizes (layers : List Layer) (n : Nat) : List Nat := layers.map fun l => l.blockBytes * n

def totalBytes (layers : List Layer) (n : Nat) : Nat := (layerSizes layers n).sum

def layerOffset (layers : List Layer) (n k : Nat) : Nat := ((layerSizes layers n).take k).sum

def storedRow (layers : List Layer) (n : Nat) (data : Bytes) (k r j : Nat) : Bytes :=
  match layers[k]? with
  | none => []
  | some l =>
    let segment := (data.drop (layerOffset layers n k)).take (l.blockBytes * n)
    (segment.drop ((r * n + j) * l.rowBytes)).take l.rowBytes

/-! ## 書き込み -/

def indexCopy (ids : List Nat) (src : Nat → Bytes) (row : Nat → Bytes) : Nat → Bytes :=
  ids.zipIdx.foldl (fun row (b, j) => Function.update row b (src j)) row

def overwrite (layers : List Layer) (ids : List Nat) (src : Nat → Nat → Nat → Bytes) (gpu : Gpu) :
    Gpu := fun k r =>
  match layers[k]? with
  | none => gpu k r
  | some l => if r < l.rows then indexCopy ids (src k r) (gpu k r) else gpu k r

def scatter (layers : List Layer) (ids : List Nat) (data : Bytes) : Gpu → Gpu :=
  overwrite layers ids (storedRow layers ids.length data)

/-- `_zero_fill_gpu_blocks`。 -/
def zeroFill (layers : List Layer) (ids : List Nat) : Gpu → Gpu :=
  overwrite layers ids fun k _ _ => (layers[k]?.map Layer.zeros).getD []

theorem indexCopy_of_notMem {ids : List Nat} {src : Nat → Bytes} {row : Nat → Bytes} {b : Nat}
    (h : b ∉ ids) : indexCopy ids src row b = row b :=
  Dense.copyRows_of_notMem h

theorem indexCopy_of_mem {ids : List Nat} (src : Nat → Bytes) (row : Nat → Bytes) {b : Nat}
    (h : b ∈ ids) : ∃ j : Nat, ids[j]? = some b ∧ indexCopy ids src row b = src j :=
  Dense.copyRows_of_mem src row h

variable {layers : List Layer} {ids : List Nat} {gpu : Gpu} {src : Nat → Nat → Nat → Bytes}
  {k r b : Nat} {l : Layer}

theorem overwrite_of_notMem (h : b ∉ ids) : overwrite layers ids src gpu k r b = gpu k r b := by
  unfold overwrite
  cases layers[k]? with
  | none => rfl
  | some l =>
    by_cases hr : r < l.rows
    · simp only [hr, if_true]
      exact indexCopy_of_notMem h
    · simp only [hr, if_false]

variable (gpu src) in
theorem overwrite_of_mem (hl : layers[k]? = some l) (hr : r < l.rows) (h : b ∈ ids) :
    ∃ j : Nat, ids[j]? = some b ∧ overwrite layers ids src gpu k r b = src k r j := by
  simp_all [indexCopy_of_mem, overwrite]

theorem zeroFill_of_mem (hl : layers[k]? = some l) (hr : r < l.rows) (h : b ∈ ids) :
    zeroFill layers ids gpu k r b = l.zeros := by
  obtain ⟨j, -, heq⟩ := overwrite_of_mem gpu
    (fun k _ _ => (layers[k]?.map Layer.zeros).getD []) hl hr h
  unfold zeroFill
  rw [heq, hl]
  rfl

end Gpu

end Connector

end ContextStore
