import Mathlib.Data.List.Sigma

/-!
# 命令の列としての program
-/

namespace Conc

inductive Prog (C : Type) (R : C → Type) (α : Type) where
  | ret (a : α)
  | cmd (c : C) (k : R c → Prog C R α)

variable {C : Type} {R : C → Type} {α β γ : Type}

namespace Prog

def bind : Prog C R α → (α → Prog C R β) → Prog C R β
  | .ret a, f => f a
  | .cmd c k, f => .cmd c (fun r => (k r).bind f)

def issue (c : C) : Prog C R (R c) := .cmd c .ret

instance : Monad (Prog C R) where
  pure := .ret
  bind := bind

@[simp] theorem pure_eq_ret (a : α) : (pure a : Prog C R α) = .ret a := rfl

@[simp] theorem ret_bind (a : α) (f : α → Prog C R β) : (.ret a : Prog C R α) >>= f = f a := rfl

@[simp] theorem cmd_bind (c : C) (k : R c → Prog C R α) (f : α → Prog C R β) :
    (.cmd c k : Prog C R α) >>= f = .cmd c (fun r => k r >>= f) := rfl

theorem bind_ret (p : Prog C R α) : (p >>= fun a => (.ret a : Prog C R α)) = p := by
  induction p with
  | ret a => rfl
  | cmd c k ih => rw [cmd_bind]; congr 1; funext r; exact ih r

theorem bind_bind (p : Prog C R α) (f : α → Prog C R β) (g : β → Prog C R γ) :
    (p >>= f) >>= g = p >>= fun a => f a >>= g := by
  induction p with
  | ret a => rfl
  | cmd c k ih => rw [cmd_bind, cmd_bind, cmd_bind]; congr 1; funext r; exact ih r

instance : LawfulMonad (Prog C R) :=
  LawfulMonad.mk' (Prog C R) bind_ret (fun _ _ => rfl) bind_bind

def running : Prog C R α → Bool
  | .ret _ => false
  | .cmd _ _ => true

/-! ## 逐次実行 -/

variable {σ : Type}

def run (exec : (c : C) → σ → Option (σ × R c)) : Prog C R α → σ → Option (σ × α)
  | .ret a, s => some (s, a)
  | .cmd c k, s =>
    match exec c s with
    | none => none
    | some (s', r) => (k r).run exec s'

@[simp] theorem run_ret (exec : (c : C) → σ → Option (σ × R c)) (a : α) (s : σ) :
    (.ret a : Prog C R α).run exec s = some (s, a) := rfl

theorem run_bind (exec : (c : C) → σ → Option (σ × R c)) (p : Prog C R α)
    (f : α → Prog C R β) (s : σ) :
    (p >>= f).run exec s = (p.run exec s).bind fun x => (f x.2).run exec x.1 := by
  induction p generalizing s with
  | ret a => rfl
  | cmd c k ih =>
    rw [cmd_bind]
    simp only [run]
    cases exec c s with
    | none => rfl
    | some x => exact ih x.2 x.1

theorem run_bind_of_run {exec : (c : C) → σ → Option (σ × R c)} {p : Prog C R α} {s s' : σ}
    {a : α} (h : p.run exec s = some (s', a)) (f : α → Prog C R β) :
    (p >>= f).run exec s = (f a).run exec s' := by
  rw [run_bind, h]; rfl

def eval (exec : (c : C) → σ → σ × R c) : Prog C R α → σ → σ × α
  | .ret a, s => (s, a)
  | .cmd c k, s => (k (exec c s).2).eval exec (exec c s).1

@[simp] theorem eval_ret (exec : (c : C) → σ → σ × R c) (a : α) (s : σ) :
    (.ret a : Prog C R α).eval exec s = (s, a) := rfl

@[simp] theorem eval_cmd (exec : (c : C) → σ → σ × R c) (c : C) (k : R c → Prog C R α) (s : σ) :
    (.cmd c k : Prog C R α).eval exec s = (k (exec c s).2).eval exec (exec c s).1 := rfl

@[simp] theorem eval_bind (exec : (c : C) → σ → σ × R c) (p : Prog C R α) (f : α → Prog C R β)
    (s : σ) : (p >>= f).eval exec s = (f (p.eval exec s).2).eval exec (p.eval exec s).1 := by
  induction p generalizing s with
  | ret a => rfl
  | cmd c k ih => exact ih (exec c s).2 (exec c s).1

end Prog

def joinAllAux (pick : Nat → Prog C R Nat) : Nat → List (Prog C R α) → Prog C R (List α)
  | 0, _ => .ret []
  | fuel + 1, ps => do
    let i ← pick ps.length
    match ps[i % ps.length]? with
    | none => .ret []
    | some p =>
      let a ← p
      let rest ← joinAllAux pick fuel (ps.eraseIdx (i % ps.length))
      .ret (rest.insertIdx (i % ps.length) a)

def joinAll (pick : Nat → Prog C R Nat) (ps : List (Prog C R α)) : Prog C R (List α) :=
  joinAllAux pick ps.length ps

end Conc
