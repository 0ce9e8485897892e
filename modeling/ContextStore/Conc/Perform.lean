import ContextStore.Conc.Conform

/-!
# 環境の選択を並べた逐次実行

1 つの program だけを、命令ごとの環境の選択 `X` の列に従って走らせる。
-/

namespace Conc

variable {C X σ α : Type} {R : C → Type}

def Prog.perform (exec : (c : C) → X → σ → Option (σ × R c)) :
    Prog C R α → List X → σ → Trace C R → Option (σ × Trace C R × α)
  | .ret a, _, s, t => some (s, t, a)
  | .cmd _ _, [], _, _ => none
  | .cmd c k, x :: xs, s, t =>
    match exec c x s with
    | none => none
    | some (s', r) => (k r).perform exec xs s' (⟨c, r⟩ :: t)

theorem Prog.perform_map {β : Type} {exec : (c : C) → X → σ → Option (σ × R c)} (f : α → β)
    (p : Prog C R α) (xs : List X) (s : σ) (t : Trace C R) :
    (p.bind fun a => .ret (f a)).perform exec xs s t =
      (p.perform exec xs s t).map fun (s', t', a) => (s', t', f a) := by
  induction p generalizing xs s t with
  | ret a => rfl
  | cmd c k ih =>
    cases xs with
    | nil => rfl
    | cons x xs =>
      simp only [Prog.bind, Prog.perform]
      cases exec c x s with
      | none => rfl
      | some step => exact ih _ _ _ _

theorem Prog.perform_induct {exec : (c : C) → X → σ → Option (σ × R c)}
    {G : Trace C R → C → Prop} {Q : Trace C R → α → Prop} {I : σ → Trace C R → Prop}
    (hstep : ∀ c x s s' r t, G t c → exec c x s = some (s', r) → I s t → I s' (⟨c, r⟩ :: t))
    {p : Prog C R α} {xs : List X} {s s' : σ} {t t' : Trace C R} {a : α}
    (hconf : Conforms G Q t p) (hI : I s t)
    (h : p.perform exec xs s t = some (s', t', a)) : I s' t' ∧ Q t' a := by
  induction p generalizing xs s t with
  | ret b =>
    cases h
    exact ⟨hI, hconf⟩
  | cmd c k ih =>
    cases xs with
    | nil => cases h
    | cons x xs =>
      unfold Prog.perform at h
      split at h
      · cases h
      · next s₁ r hexec => exact ih r (hconf.2 r) (hstep c x s s₁ r t hconf.1 hexec hI) h

end Conc
