import Mathlib.Algebra.Order.Ring.Int
import Mathlib.Algebra.Order.Ring.Nat
import Mathlib.Data.List.Basic

/-!
# Redis の cjson

`cjson.decode` と `cjson.encode` を JSON の木の上の関数として述べる。
-/

namespace Cjson

inductive Json where
  | null
  | bool (b : Bool)
  | int (n : Int)
  | float (n : Int)
  | str (s : String)
  | arr (js : List Json)
  | obj (fs : List (String × Json))

/-- Lua の値。 -/
inductive Value where
  | null
  | bool (b : Bool)
  | num (n : Int)
  | str (s : String)
  | table (seq : List Value) (fields : List (String × Value))

section Codec

variable (round : Int → Int)

mutual

/-- `cjson.decode`。 -/
def decode : Json → Value
  | .null => .null
  | .bool b => .bool b
  | .int n => .num (round n)
  | .float n => .num (round n)
  | .str s => .str s
  | .arr js => .table (decodeList js) []
  | .obj fs => .table [] (decodeFields fs)

def decodeList : List Json → List Value
  | [] => []
  | j :: js => decode j :: decodeList js

def decodeFields : List (String × Json) → List (String × Value)
  | [] => []
  | (k, j) :: fs => (k, decode j) :: decodeFields fs

end

def encodeNum (n : Int) : Json := if n.natAbs < 10 ^ 14 then .int n else .float n

mutual

/-- `cjson.encode`。 -/
def encode : Value → Json
  | .null => .null
  | .bool b => .bool b
  | .num n => encodeNum n
  | .str s => .str s
  | .table [] fields => .obj (encodeFields fields)
  | .table (v :: vs) _ => .arr (encode v :: encodeList vs)

def encodeList : List Value → List Json
  | [] => []
  | v :: vs => encode v :: encodeList vs

def encodeFields : List (String × Value) → List (String × Json)
  | [] => []
  | (k, v) :: fs => (k, encode v) :: encodeFields fs

end

/-- `cjson.encode(cjson.decode(..))`。 -/
def roundTrip (j : Json) : Json := encode (decode round j)

variable {round}

theorem encodeList_decodeList (js : List Json) :
    encodeList (decodeList round js) = js.map (roundTrip round) := by
  induction js with
  | nil => rfl
  | cons j js ih => rw [decodeList, encodeList, ih]; rfl

@[simp] theorem roundTrip_arr_cons (j : Json) (js : List Json) :
    roundTrip round (.arr (j :: js)) = .arr ((j :: js).map (roundTrip round)) := by
  show Json.arr (encode (decode round j) :: encodeList (decodeList round js)) = _
  rw [encodeList_decodeList]
  rfl

theorem roundTrip_int (n : Int) : roundTrip round (.int n) = encodeNum (round n) := rfl

end Codec

namespace Json

def field? (j : Json) (name : String) : Option Json :=
  match j with
  | .obj fs => fs.lookup name
  | _ => none

def int? : Json → Option Int
  | .int n => some n
  | _ => none

def nat? : Json → Option Nat
  | .int n => if 0 ≤ n then some n.toNat else none
  | _ => none

def str? : Json → Option String
  | .str s => some s
  | _ => none

def bool? : Json → Option Bool
  | .bool b => some b
  | _ => none

/-- `Vec<T>`。 -/
def list? {α : Type} (item : Json → Option α) : Json → Option (List α)
  | .arr js => js.mapM item
  | _ => none

/-- `Option<T>`。 -/
def option? {α : Type} (item : Json → Option α) : Json → Option (Option α)
  | .null => some none
  | j => (item j).map some

def required {α : Type} (j : Json) (name : String) (read : Json → Option α) : Option α :=
  (j.field? name).bind read

/-- `#[serde(default)]` の field。 -/
def defaulted {α : Type} (j : Json) (name : String) (read : Json → Option α) (d : α) : Option α :=
  match j.field? name with
  | some v => read v
  | none => some d

end Json

def when {α : Type} (b : Bool) (a : α) : Option α := if b then some a else none

@[simp] theorem when_bind {α β : Type} (b : Bool) (a : α) (f : α → Option β) :
    (when b a).bind f = if b then f a else none := by
  cases b <;> rfl

theorem when_and {α : Type} (a b : Bool) (x : α) :
    when (a && b) x = if a then when b x else none := by
  cases a <;> rfl

theorem when_eq_some_iff {α : Type} {b : Bool} {a x : α} :
    when b a = some x ↔ b = true ∧ x = a := by
  cases b with
  | true => exact ⟨fun h => ⟨rfl, (Option.some.inj h).symm⟩, fun h => congrArg some h.2.symm⟩
  | false => exact ⟨nofun, fun h => by cases h.1⟩

section Survive

variable {round : Int → Int} (hsmall : ∀ n : Int, n.natAbs < 10 ^ 14 → round n = n)
  (hlarge : ∀ n : Int, ¬ n.natAbs < 10 ^ 14 → ¬ (round n).natAbs < 10 ^ 14)

include hsmall hlarge

theorem int?_roundTrip (n : Int) :
    (roundTrip round (.int n)).int? = when (decide (n.natAbs < 10 ^ 14)) n := by
  rw [roundTrip_int, encodeNum]
  by_cases h : n.natAbs < 10 ^ 14
  · rw [hsmall n h, if_pos h, decide_eq_true h]
    rfl
  · rw [if_neg (hlarge n h), decide_eq_false h]
    rfl

theorem nat?_roundTrip (n : Nat) :
    (roundTrip round (.int n)).nat? = when (decide ((n : Int).natAbs < 10 ^ 14)) n := by
  rw [roundTrip_int, encodeNum]
  by_cases h : (n : Int).natAbs < 10 ^ 14
  · rw [hsmall n h, if_pos h, decide_eq_true h]
    show (if 0 ≤ (n : Int) then some (n : Int).toNat else none) = some n
    rw [if_pos (Int.natCast_nonneg n), Int.toNat_natCast]
  · rw [if_neg (hlarge n h), decide_eq_false h]
    rfl

omit hsmall hlarge in
theorem list?_roundTrip {α : Type} {enc : α → Json} {item : Json → Option α} {p : α → Bool}
    (h : ∀ a, item (roundTrip round (enc a)) = when (p a) a) (as : List α) :
    (roundTrip round (.arr (as.map enc))).list? item = when (!as.isEmpty && as.all p) as := by
  cases as with
  | nil => rfl
  | cons a as =>
    rw [List.map_cons, roundTrip_arr_cons]
    show ((enc a :: as.map enc).map (roundTrip round)).mapM item = when ((a :: as).all p) (a :: as)
    rw [← List.map_cons]
    generalize a :: as = l
    induction l with
    | nil => rfl
    | cons b bs ih =>
      rw [List.map_cons, List.map_cons, List.mapM_cons, h, ih, List.all_cons]
      cases p b with
      | false => rfl
      | true => cases bs.all p <;> rfl

end Survive

end Cjson
