import Mathlib.Logic.Basic

/-!
# 1 手ずつ進む系

状態と手から次の状態が決まる系。
-/

namespace Conc

/-- 1 手ずつ進む系。 -/
structure Transition (σ ε : Type) where
  start : σ
  step : σ → ε → Option σ

namespace Transition

variable {σ ε : Type} (T : Transition σ ε)

inductive Reach (P : σ → ε → Prop) : σ → Prop where
  | start : Reach P T.start
  | step {s s' : σ} {e : ε} (h : Reach P s) (hP : P s e) (hs : T.step s e = some s') : Reach P s'

def play (ok : σ → ε → Bool) : σ → List ε → Option σ
  | s, [] => some s
  | s, e :: es => if ok s e then (T.step s e).bind fun s' => play ok s' es else none

variable {T} {P : σ → ε → Prop}

theorem Reach.invariant {I : σ → Prop} (hstart : I T.start)
    (hstep : ∀ s e s', T.Reach P s → P s e → I s → T.step s e = some s' → I s') {s : σ}
    (h : T.Reach P s) : I s := by
  induction h with
  | start => exact hstart
  | step h hP hs ih => exact hstep _ _ _ h hP ih hs

theorem Reach.mono {P' : σ → ε → Prop} (hP : ∀ s e, P s e → P' s e) {s : σ} (h : T.Reach P s) :
    T.Reach P' s := by
  induction h with
  | start => exact .start
  | step _ he hs ih => exact .step ih (hP _ _ he) hs

theorem Reach.play {ok : σ → ε → Bool} (hok : ∀ s e, ok s e = true → P s e) {s s' : σ}
    {es : List ε} (h : T.Reach P s) (hp : T.play ok s es = some s') : T.Reach P s' := by
  induction es generalizing s with
  | nil =>
    cases hp
    exact h
  | cons e es ih =>
    unfold Transition.play at hp
    split at hp
    next hoke =>
      obtain ⟨s₁, hs₁, hp⟩ := Option.bind_eq_some_iff.mp hp
      exact ih (.step h (hok s e hoke) hs₁) hp
    · cases hp

theorem Reach.exists_of_play (ok : σ → ε → Bool) (hok : ∀ s e, ok s e = true → P s e)
    (es : List ε) (check : σ → Bool) (h : (T.play ok T.start es).any check = true) :
    ∃ s, T.Reach P s ∧ check s = true := by
  obtain ⟨s, hs, hcheck⟩ := (Option.any_eq_true _ _).mp h
  exact ⟨s, .play hok .start hs, hcheck⟩

end Transition

end Conc
