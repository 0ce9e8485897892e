import Mathlib.Algebra.Order.Ring.Nat
import Mathlib.Tactic.Common

/-!
# byte 列の読み手

byte の流れの先頭から値を読み取る計算と、その正しさの述べ方。
-/

namespace Codec

variable {ε α β : Type}

/-! ## 読み手 -/

abbrev Reader (ε α : Type) := StateT (List UInt8) (Except ε) α

def Reads (d : Reader ε α) (bs : List UInt8) (a : α) : Prop :=
  ∀ rest, d.run (bs ++ rest) = .ok (a, rest)

variable {d : Reader ε α} {bs : List UInt8} {a : α}

theorem Reads.run (h : Reads d bs a) :
    StateT.run d bs = .ok (a, []) := by
  simpa using h []

theorem Reads.pure (a : α) : Reads (Pure.pure a : Reader ε α) [] a := fun _ => rfl

theorem Reads.bind {f : α → Reader ε β} {bs cs : List UInt8} {b : β}
    (hd : Reads d bs a) (hf : Reads (f a) cs b) : Reads (d >>= f) (bs ++ cs) b := by
  intro rest
  rw [StateT.run_bind, List.append_assoc, hd]
  exact hf rest

theorem Reads.map (f : α → β) (hd : Reads d bs a) :
    Reads (f <$> d) bs (f a) := by
  intro rest
  rw [StateT.run_map, hd]
  rfl

def take (eof : ε) (n : ℕ) : Reader ε (List UInt8) := fun bs =>
  if n ≤ bs.length then .ok (bs.take n, bs.drop n) else .error eof

theorem Reads.take (eof : ε) {n : ℕ} (h : bs.length = n) :
    Reads (Codec.take eof n) bs bs := by
  intro rest
  show (if n ≤ (bs ++ rest).length then _ else _) = _
  simp_all

def readMany (d : Reader ε α) : ℕ → Reader ε (List α)
  | 0 => Pure.pure []
  | n + 1 => do
    let a ← d
    let as ← readMany d n
    Pure.pure (a :: as)

theorem Reads.readMany {enc : α → List UInt8} {as : List α}
    (h : ∀ a ∈ as, Reads d (enc a) a) :
    Reads (Codec.readMany d as.length) (as.flatMap enc) as := by
  induction as with
  | nil => exact Reads.pure []
  | cons a as ih =>
    rw [List.flatMap_cons]
    refine (h a List.mem_cons_self).bind ?_
    have hrest := ih fun b hb => h b (List.mem_cons_of_mem _ hb)
    have := Reads.bind (f := fun as => Pure.pure (a :: as)) hrest (Reads.pure (a :: as))
    rwa [List.append_nil] at this

theorem ok_of_bind {x : Except ε α} {f : α → Except ε β} {b : β} (h : (x >>= f) = .ok b) :
    ∃ a, x = .ok a ∧ f a = .ok b := by
  cases x with
  | error e => cases h
  | ok a => exact ⟨a, rfl, h⟩

theorem run_of_bind {f : α → Reader ε β} {bs rest : List UInt8} {b : β}
    (h : (d >>= f).run bs = .ok (b, rest)) :
    ∃ a cs, d.run bs = .ok (a, cs) ∧ (f a).run cs = .ok (b, rest) := by
  obtain ⟨⟨a, cs⟩, hd, hf⟩ := ok_of_bind h
  exact ⟨a, cs, hd, hf⟩

theorem length_of_take {eof : ε} {n : ℕ} {bs a rest : List UInt8}
    (h : (Codec.take eof n).run bs = .ok (a, rest)) : a.length = n := by
  change (if n ≤ bs.length then Except.ok (bs.take n, bs.drop n) else .error eof) = _ at h
  split at h
  next hn =>
    cases h
    exact List.length_take_of_le hn
  next => cases h

theorem exists_ok_bind {x : Except ε α} {f : α → Except ε β} (hx : x = .ok a)
    (hf : ∃ b, f a = .ok b) : ∃ b, (x >>= f) = .ok b := by
  rw [hx]
  exact hf

/-! ## little endian -/

def leBytes : ℕ → ℕ → List UInt8
  | 0, _ => []
  | w + 1, n => UInt8.ofNat n :: leBytes w (n / 256)

def leValue : List UInt8 → ℕ
  | [] => 0
  | b :: bs => b.toNat + 256 * leValue bs

theorem length_leBytes (w n : ℕ) : (leBytes w n).length = w := by
  induction w generalizing n with
  | zero => rfl
  | succ w ih => rw [leBytes, List.length_cons, ih]

theorem leValue_lt (bs : List UInt8) : leValue bs < 256 ^ bs.length := by
  induction bs with
  | nil => exact Nat.one_pos
  | cons b bs ih =>
    have := b.toNat_lt
    rw [leValue, List.length_cons, Nat.pow_succ]
    omega

theorem leValue_leBytes {w n : ℕ} (h : n < 256 ^ w) : leValue (leBytes w n) = n := by
  induction w generalizing n with
  | zero =>
    rw [Nat.pow_zero] at h
    show 0 = n
    omega
  | succ w ih =>
    grind [leBytes.eq_2, leValue.eq_2, UInt8.toNat_ofNat']

end Codec
