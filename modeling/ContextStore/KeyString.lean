import ContextStore.Placement
import Mathlib.Data.List.Induction

/-!
# key の文字列の往復

`to_string_key` の文字列は `from_string_key` で元の key に戻る。
-/

namespace ContextStore

/-! ## 10 進の綴り -/

def PlainDigits (digits : List Char) : Prop :=
  digits.head? ≠ some '+' ∧ (digits.head? = some '0' → digits = ['0'])

instance (digits : List Char) : Decidable (PlainDigits digits) :=
  inferInstanceAs (Decidable (_ ∧ _))

theorem digitChar_of_isDigit {c : Char} (h : c.isDigit) :
    c.toNat - '0'.toNat < 10 ∧ (c.toNat - '0'.toNat).digitChar = c := by
  have hall : ∀ n < 10, n.digitChar = Char.ofNat (48 + n) := by decide
  obtain ⟨hlow, hhigh⟩ := Char.isDigit_iff_toNat.mp h
  change 48 ≤ c.toNat at hlow
  change c.toNat ≤ 57 at hhigh
  change c.toNat - 48 < 10 ∧ (c.toNat - 48).digitChar = c
  refine ⟨by omega, ?_⟩
  rw [hall _ (by omega), Nat.add_sub_cancel' hlow, Char.ofNat_toNat]

theorem toDigits_ofDigitChars {ds : List Char} (hne : ds ≠ []) (hall : ∀ c ∈ ds, c.isDigit)
    (hzero : ds.head? = some '0' → ds = ['0']) :
    Nat.toDigits 10 (Nat.ofDigitChars 10 ds 0) = ds := by
  induction ds using List.reverseRecOn with
  | nil => exact absurd rfl hne
  | append_singleton ds d ih =>
    obtain ⟨hlt, hchar⟩ := digitChar_of_isDigit (hall d (by simp))
    rw [Nat.ofDigitChars_append, Nat.ofDigitChars_cons, Nat.ofDigitChars_nil]
    cases ds with
    | nil =>
      rw [Nat.ofDigitChars_nil, Nat.mul_zero, Nat.zero_add, Nat.toDigits_of_lt_base hlt, hchar]
      rfl
    | cons c ds =>
      have hhead : c ≠ '0' := fun h => by simpa using congrArg List.length (hzero (by simp [h]))
      have ih := ih (by simp) (fun c' hc' => hall c' (List.mem_append_left _ hc'))
        (fun h => absurd (by simpa using h) hhead)
      have hpos : 0 < Nat.ofDigitChars 10 (c :: ds) 0 := by
        rw [Nat.pos_iff_ne_zero]
        intro h
        rw [h, Nat.toDigits_zero] at ih
        exact hhead (List.cons.inj ih).1.symm
      rw [← Nat.toDigits_append_toDigits (by decide) hpos hlt, ih,
        Nat.toDigits_of_lt_base hlt, hchar]

theorem plainDigits_toDigits (n : Nat) : PlainDigits (Nat.toDigits 10 n) := by
  constructor
  · intro h
    have hmem := List.mem_of_head? h
    exact absurd (Nat.isDigit_of_mem_toDigits (by decide) (by decide) hmem) (by decide)
  · induction n using Nat.strongRecOn with
    | ind n ih =>
      rw [Nat.toDigits_eq_if (by decide)]
      split
      next hlt =>
        intro h
        simpa using h
      next hge =>
        intro h
        have hne : Nat.toDigits 10 (n / 10) ≠ [] := Nat.toDigits_ne_nil
        rw [List.head?_append_of_ne_nil _ hne] at h
        have hten : Nat.toDigits 10 (n / 10) = Nat.toDigits 10 0 := by
          rw [ih _ (by omega) h, Nat.toDigits_zero]
        have hval := congrArg (Nat.ofDigitChars 10 · 0) hten
        simp only [Nat.ofDigitChars_ten_toDigits] at hval
        omega

namespace ObjectKey

theorem foldl_eq_ofDigitChars (digits : List Char) :
    digits.foldl (fun acc c => acc * 10 + (c.toNat - '0'.toNat)) 0 =
      Nat.ofDigitChars 10 digits 0 := by
  rw [Nat.ofDigitChars_eq_foldl]
  congr 1
  funext acc c
  rw [Nat.mul_comm]

theorem parseUsize_toDigits {n : Nat} (h : n < 2 ^ 64) :
    parseUsize (Nat.toDigits 10 n) = some n := by
  have hall : (Nat.toDigits 10 n).all Char.isDigit = true :=
    List.all_eq_true.mpr fun c hc => Nat.isDigit_of_mem_toDigits (by decide) (by decide) hc
  unfold parseUsize
  simp only [if_neg (plainDigits_toDigits n).1, foldl_eq_ofDigitChars,
    Nat.ofDigitChars_ten_toDigits, hall, Nat.toDigits_ne_nil]
  exact if_pos h

theorem toDigits_parseUsize {digits : List Char} {n : Nat} (h : parseUsize digits = some n) :
    Nat.toDigits 10 n = digits ↔ PlainDigits digits := by
  constructor
  · rintro rfl
    exact plainDigits_toDigits n
  · rintro ⟨hplus, hzero⟩
    unfold parseUsize at h
    rw [if_neg hplus] at h
    dsimp only at h
    split at h
    · cases h
    next hdigits =>
      split at h
      · cases h
        rw [not_or] at hdigits
        rw [foldl_eq_ofDigitChars]
        exact toDigits_ofDigitChars hdigits.1 (by simpa using hdigits.2) hzero
      · cases h

theorem takeBytes_append (a b : List Char) :
    takeBytes (String.ofList a).utf8ByteSize (a ++ b) = some (a, b) := by
  induction a with
  | nil => cases b <;> simp [takeBytes]
  | cons c a ih =>
    have hsize : (String.ofList (c :: a)).utf8ByteSize =
        c.utf8Size + (String.ofList a).utf8ByteSize := by
      rw [String.ofList_cons, String.utf8ByteSize_append, String.utf8ByteSize_singleton]
    have hpos := c.utf8Size_pos
    rw [hsize, List.cons_append, takeBytes, if_neg (by omega), if_pos (by omega),
      Nat.add_sub_cancel_left, ih]
    rfl

theorem takeBytes_eq_some {n : Nat} {cs a b : List Char} (h : takeBytes n cs = some (a, b)) :
    cs = a ++ b ∧ (String.ofList a).utf8ByteSize = n := by
  induction cs generalizing n a with
  | nil =>
    simp only [takeBytes] at h
    split at h
    next hn => cases h; exact ⟨rfl, hn.symm⟩
    next => cases h
  | cons c cs ih =>
    simp only [takeBytes] at h
    split at h
    next hn => cases h; exact ⟨rfl, hn.symm⟩
    split at h
    next hle =>
      obtain ⟨⟨a', b'⟩, hrest, heq⟩ := Option.map_eq_some_iff.mp h
      cases heq
      obtain ⟨rfl, hsize⟩ := ih hrest
      refine ⟨rfl, ?_⟩
      rw [String.ofList_cons, String.utf8ByteSize_append, String.utf8ByteSize_singleton, hsize]
      omega
    next => cases h

/-! ## 往復 -/

theorem toList_toStringKey (k : ObjectKey) : k.toStringKey.toList =
    Nat.toDigits 10 k.nameSpace.utf8ByteSize ++ ':' ::
      (k.nameSpace.toList ++ k.objectKey.toList) := by
  simp [toStringKey]

theorem fromStringKey_eq_ok {s : String} {k : ObjectKey} (h : fromStringKey s = .ok k) :
    s.toList = s.toList.takeWhile (· ≠ ':') ++
        ':' :: (k.nameSpace.toList ++ k.objectKey.toList) ∧
      parseUsize (s.toList.takeWhile (· ≠ ':')) = some k.nameSpace.utf8ByteSize := by
  unfold fromStringKey at h
  split at h
  · cases h
  next c rest hrest =>
    obtain rfl : c = ':' := by
      have := List.head?_dropWhile_not (fun c => decide (c ≠ ':')) s.toList
      rw [hrest] at this
      simpa using this
    dsimp only at h
    split at h
    · cases h
    next nsLen hlen =>
      split at h
      · cases h
      next ns obj htake =>
        cases h
        obtain ⟨rfl, rfl⟩ := takeBytes_eq_some htake
        refine ⟨?_, hlen⟩
        rw [String.toList_ofList, String.toList_ofList, ← hrest, List.takeWhile_append_dropWhile]

theorem string_keys_correspond (k : ObjectKey) (hk : k.nameSpace.utf8ByteSize < 2 ^ 64)
    (s : String) (k' : ObjectKey) (h : fromStringKey s = .ok k') :
    fromStringKey k.toStringKey = .ok k ∧
      (k'.toStringKey = s ↔ PlainDigits (s.toList.takeWhile (· ≠ ':'))) := by
  constructor
  · have hcolon : ∀ c ∈ Nat.toDigits 10 k.nameSpace.utf8ByteSize, c ≠ ':' := fun c hc heq => by
      have := Nat.isDigit_of_mem_toDigits (by decide) (by decide) hc
      rw [heq] at this
      exact absurd this (by decide)
    have htake : k.toStringKey.toList.takeWhile (· ≠ ':') =
        Nat.toDigits 10 k.nameSpace.utf8ByteSize := by
      rw [toList_toStringKey, List.takeWhile_append_of_pos (by simpa using hcolon)]
      simp
    have hdrop : k.toStringKey.toList.dropWhile (· ≠ ':') =
        ':' :: (k.nameSpace.toList ++ k.objectKey.toList) := by
      rw [toList_toStringKey, List.dropWhile_append_of_pos (by simpa using hcolon)]
      simp
    have hbytes := takeBytes_append k.nameSpace.toList k.objectKey.toList
    rw [String.ofList_toList] at hbytes
    unfold fromStringKey
    simp only [htake, hdrop, parseUsize_toDigits hk, hbytes, String.ofList_toList]
  · obtain ⟨hs, hparse⟩ := fromStringKey_eq_ok h
    rw [← toDigits_parseUsize hparse, ← String.toList_inj, toList_toStringKey]
    constructor
    · intro heq
      rw [hs] at heq
      exact List.append_cancel_right heq
    · intro heq
      rw [heq]
      exact hs.symm

theorem string_keys_correspond_colons :
    fromStringKey (⟨"é:", "1:k"⟩ : ObjectKey).toStringKey = .ok ⟨"é:", "1:k"⟩ ∧
      (⟨"2:", "k"⟩ : ObjectKey).toStringKey = "2:2:k" :=
  (string_keys_correspond ⟨"é:", "1:k"⟩ (by decide) "2:2:k" ⟨"2:", "k"⟩ (by decide)).imp_right
    fun h => h.mpr (by decide)

/-- 先頭の 0 が余分な綴りも受け取られ、key の文字列は別のものになる。 -/
theorem padded_length_accepted :
    fromStringKey "00:k" = .ok ⟨"", "k"⟩ ∧ (⟨"", "k"⟩ : ObjectKey).toStringKey = "0:k" := by
  decide

end ObjectKey

end ContextStore
