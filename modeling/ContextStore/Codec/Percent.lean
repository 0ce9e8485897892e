import Mathlib.Tactic.Common

/-!
# percent encoding

そのまま残す byte の集合 `safe` を決め、他の byte を `%` と 2 桁の 16 進で書く。
-/

namespace Percent

/-! ## 16 進の数字 -/

def hexDigit (n : Nat) : Char := Char.ofNat (if n < 10 then 0x30 + n else 0x41 + n - 10)

theorem hexDigit_inj : ∀ m < 16, ∀ n < 16, hexDigit m = hexDigit n → m = n := by
  decide

def isHex (c : Char) : Bool := ('0' ≤ c ∧ c ≤ '9') || ('A' ≤ c ∧ c ≤ 'F')

theorem isHex_hexDigit : ∀ n < 16, isHex (hexDigit n) = true := by
  decide

/-! ## 1 byte -/

variable (safe : UInt8 → Bool)

def byteChar (b : UInt8) : Char := Char.ofNat b.toNat

def encodeByte (b : UInt8) : List Char :=
  if safe b then [byteChar b] else ['%', hexDigit (b.toNat / 16), hexDigit (b.toNat % 16)]

variable {safe}

theorem byteChar_inj {b b' : UInt8} (h : byteChar b = byteChar b') : b = b' := by
  have hvalid : ∀ b : UInt8, (byteChar b).toNat = b.toNat := by
    intro b
    have := b.toNat_lt
    rw [byteChar, Char.ofNat, dif_pos (.inl (by omega))]
    rfl
  rw [← UInt8.toNat_inj, ← hvalid, ← hvalid, h]

theorem encodeByte_append_inj (hpercent : safe 0x25 = false) {b b' : UInt8}
    {rest rest' : List Char} (h : encodeByte safe b ++ rest = encodeByte safe b' ++ rest') :
    b = b' ∧ rest = rest' := by
  have hne : ∀ b : UInt8, safe b = true → byteChar b ≠ '%' := by
    intro b hb heq
    have hpct : byteChar b = byteChar 0x25 := heq
    rw [byteChar_inj hpct, hpercent] at hb
    cases hb
  have hlt := b.toNat_lt
  have hlt' := b'.toNat_lt
  unfold encodeByte at h
  by_cases hb : safe b <;> by_cases hb' : safe b'
  · simp only [hb, hb', if_true, List.cons_append, List.nil_append, List.cons.injEq] at h
    exact ⟨byteChar_inj h.1, h.2⟩
  · simp_all
  · grind
  ·
    simp only [hb, hb', if_false, Bool.false_eq_true, List.cons_append, List.nil_append,
      List.cons.injEq, true_and] at h
    obtain ⟨hhi, hlo, hrest⟩ := h
    have hhi := hexDigit_inj _ (by omega) _ (by omega) hhi
    have hlo := hexDigit_inj _ (by omega) _ (by omega) hlo
    exact ⟨UInt8.toNat_inj.mp (by omega), hrest⟩

theorem encodeByte_ne_nil (b : UInt8) : encodeByte safe b ≠ [] := by
  unfold encodeByte
  split <;> simp

/-! ## byte 列 -/

variable (safe) in
def encode (bs : List UInt8) : List Char := bs.flatMap (encodeByte safe)

theorem encode_injective (hpercent : safe 0x25 = false) :
    Function.Injective (encode safe) := by
  intro bs
  induction bs with
  | nil =>
    intro bs' h
    cases bs' with
    | nil => rfl
    | cons b' bs' =>
      have := (List.append_eq_nil_iff.mp h.symm).1
      exact absurd this (encodeByte_ne_nil b')
  | cons b bs ih =>
    intro bs' h
    cases bs' with
    | nil =>
      have := (List.append_eq_nil_iff.mp h).1
      exact absurd this (encodeByte_ne_nil b)
    | cons b' bs' =>
      obtain ⟨rfl, hrest⟩ := encodeByte_append_inj hpercent h
      rw [ih hrest]

theorem notMem_encode (sep : UInt8) (hsep : safe sep = false) (hpercent : byteChar sep ≠ '%')
    (hhex : isHex (byteChar sep) = false) (bs : List UInt8) : byteChar sep ∉ encode safe bs := by
  intro h
  obtain ⟨b, -, hmem⟩ := List.mem_flatMap.mp h
  have hlt := b.toNat_lt
  unfold encodeByte at hmem
  split at hmem
  next hb =>
    rw [← byteChar_inj (List.mem_singleton.mp hmem), hsep] at hb
    cases hb
  · simp only [List.mem_cons, List.not_mem_nil, or_false] at hmem
    grind [isHex_hexDigit]

end Percent
