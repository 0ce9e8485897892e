import Mathlib.Data.List.InsertIdx
import ContextStore.Conc.Prog

/-!
# program が守る規約

program の 1 回の走りは、発行した命令とその応答の列（履歴）を残す。
-/

namespace Conc

variable {C : Type} {R : C → Type} {α β γ ε : Type}

abbrev Event (C : Type) (R : C → Type) := Σ c : C, R c

abbrev Trace (C : Type) (R : C → Type) := List (Event C R)

def Conforms (G : Trace C R → C → Prop) (Q : Trace C R → α → Prop) :
    Trace C R → Prog C R α → Prop
  | t, .ret a => Q t a
  | t, .cmd c k => G t c ∧ ∀ r, Conforms G Q (⟨c, r⟩ :: t) (k r)

def Prog.replay (answer : Trace C R → (c : C) → R c) : Prog C R α → Trace C R → Trace C R × α
  | .ret a, t => (t, a)
  | .cmd c k, t => (k (answer t c)).replay answer (⟨c, answer t c⟩ :: t)

def attempt (x : ExceptT ε (Prog C R) α) : ExceptT ε (Prog C R) (Except ε α) :=
  ExceptT.mk (x.run >>= fun r => .ret (.ok r))

namespace Conforms

variable {G G' : Trace C R → C → Prop} {Q Q' : Trace C R → α → Prop} {t : Trace C R}

@[simp] theorem ret_iff {a : α} : Conforms G Q t (.ret a) ↔ Q t a := Iff.rfl

theorem cmd_iff {c : C} {k : R c → Prog C R α} :
    Conforms G Q t (.cmd c k) ↔ G t c ∧ ∀ r, Conforms G Q (⟨c, r⟩ :: t) (k r) := Iff.rfl

variable {p : Prog C R α}

theorem bind_iff {f : α → Prog C R β} {Q : Trace C R → β → Prop} :
    Conforms G Q t (p >>= f) ↔ Conforms G (fun t' a => Conforms G Q t' (f a)) t p := by
  induction p generalizing t with
  | ret a => rfl
  | cmd c k ih =>
    simp_all [cmd_iff]

theorem issue_iff {c : C} {Q : Trace C R → R c → Prop} :
    Conforms G Q t (Prog.issue c) ↔ G t c ∧ ∀ r, Q (⟨c, r⟩ :: t) r := Iff.rfl

theorem mono (hG : ∀ t c, G t c → G' t c) (hQ : ∀ t' a, t <:+ t' → Q t' a → Q' t' a)
    (h : Conforms G Q t p) : Conforms G' Q' t p := by
  induction p generalizing t with
  | ret a => exact hQ t a (List.suffix_refl t) h
  | cmd c k ih =>
    refine ⟨hG t c h.1, fun r => ih r ?_ (h.2 r)⟩
    intro t' a hs
    exact hQ t' a ((List.suffix_cons _ t).trans hs)

theorem guard (h : Conforms G Q t p)
    (hG : ∀ t' c, t <:+ t' → G t' c → G' t' c) : Conforms G' Q t p := by
  induction p generalizing t with
  | ret a => exact h
  | cmd c k ih =>
    refine ⟨hG t c (List.suffix_refl t) h.1, fun r => ih r (h.2 r) ?_⟩
    intro t' c' hs
    exact hG t' c' ((List.suffix_cons _ t).trans hs)

theorem weaken (h : Conforms G Q t p)
    (hQ : ∀ t' a, t <:+ t' → Q t' a → Q' t' a) : Conforms G Q' t p :=
  h.mono (fun _ _ hg => hg) hQ

theorem bind {f : α → Prog C R β} {Q' : Trace C R → β → Prop}
    (h : Conforms G Q t p) (hf : ∀ t' a, t <:+ t' → Q t' a → Conforms G Q' t' (f a)) :
    Conforms G Q' t (p >>= f) :=
  bind_iff.mpr (h.weaken hf)

/-! ## 1 回の走り -/

theorem keep {I : Trace C R → Prop} (h : Conforms G Q t p) (h0 : I t)
    (hI : ∀ t c r, I t → G t c → I (⟨c, r⟩ :: t)) :
    Conforms (fun t c => I t ∧ G t c) (fun t' a => I t' ∧ Q t' a) t p := by
  induction p generalizing t with
  | ret a => exact ⟨h0, h⟩
  | cmd c k ih => exact ⟨⟨h0, h.1⟩, fun r => ih r (h.2 r) (hI t c r h0 h.1)⟩

theorem replay (h : Conforms G Q t p) (answer : Trace C R → (c : C) → R c) :
    Q (p.replay answer t).1 (p.replay answer t).2 := by
  induction p generalizing t with
  | ret a => exact h
  | cmd c k ih => exact ih _ (h.2 _)

theorem replay_guard (h : Conforms G Q t p)
    (answer : Trace C R → (c : C) → R c) {e : Event C R} (he : e ∈ (p.replay answer t).1)
    (hnew : e ∉ t) : ∃ t', e :: t' <:+ (p.replay answer t).1 ∧ G t' e.1 := by
  induction p generalizing t with
  | ret a => exact absurd he hnew
  | cmd c k ih =>
    have hsuf : ∀ (q : Prog C R α) (s : Trace C R), s <:+ (q.replay answer s).1 := by
      intro q
      induction q with
      | ret a => exact fun s => List.suffix_refl s
      | cmd c k ih => exact fun s => (List.suffix_cons _ s).trans (ih _ _)
    by_cases hhead : e = ⟨c, answer t c⟩
    · subst hhead
      exact ⟨t, hsuf (k (answer t c)) _, h.1⟩
    · refine ih _ (h.2 (answer t c)) he fun hmem => ?_
      exact (List.mem_cons.mp hmem).elim hhead hnew

/-! ## `joinAll` -/

variable {ι : Type}

theorem forall₂_insertIdx {S : ι → α → Prop} :
    ∀ (xs : List ι) (as : List α) (j : Nat) (h : j < xs.length) (a : α), S (xs.get ⟨j, h⟩) a →
      List.Forall₂ S (xs.eraseIdx j) as → List.Forall₂ S xs (as.insertIdx j a)
  | x :: xs, as, 0, _, a, ha, has => by
    rw [List.insertIdx_zero]
    exact .cons ha has
  | x :: xs, as, j + 1, h, a, ha, has => by
    rw [List.eraseIdx_cons_succ] at has
    cases has with
    | cons hb has =>
      rw [List.insertIdx_succ_cons]
      exact .cons hb (forall₂_insertIdx xs _ j (Nat.lt_of_succ_lt_succ h) a ha has)

theorem forall₂_mem_left {S : ι → α → Prop} {xs : List ι} {as : List α}
    (h : List.Forall₂ S xs as) {x : ι} (hx : x ∈ xs) : ∃ a ∈ as, S x a := by
  induction h with
  | nil => cases hx
  | @cons y b ys bs hyb _ ih =>
    grind

theorem joinAllAux {pick : Nat → Prog C R Nat} {J : Trace C R → Prop}
    {P : ι → Trace C R → α → Prop} {f : ι → Prog C R α}
    (hpick : ∀ t n, J t → Conforms G (fun t' _ => J t') t (pick n))
    (hP : ∀ x t t' a, t <:+ t' → J t → J t' → P x t a → P x t' a) :
    ∀ (n : Nat) (xs : List ι) (t : Trace C R), xs.length = n → J t →
      (∀ x ∈ xs, ∀ t, J t → Conforms G (fun t' a => J t' ∧ P x t' a) t (f x)) →
      Conforms G (fun t' as => J t' ∧ List.Forall₂ (fun x a => P x t' a) xs as) t
        (Conc.joinAllAux pick n (xs.map f)) := by
  intro n
  induction n with
  | zero =>
    intro xs t hn hJ _
    obtain rfl : xs = [] := List.length_eq_zero_iff.mp hn
    exact ⟨hJ, List.Forall₂.nil⟩
  | succ n ih =>
    intro xs t hn hJ hf
    refine (hpick t _ hJ).bind ?_
    intro t₁ i _ hJ₁
    have hlt : i % (xs.map f).length < xs.length := by
      rw [List.length_map]; exact Nat.mod_lt _ (by omega)
    generalize i % (xs.map f).length = j at hlt
    rw [List.getElem?_map, List.getElem?_eq_getElem hlt]
    refine (hf _ (List.getElem_mem hlt) t₁ hJ₁).bind ?_
    rintro t₂ a - ⟨hJ₂, hPa⟩
    rw [List.eraseIdx_map]
    refine (ih (xs.eraseIdx j) t₂ ?_ hJ₂ ?_).bind ?_
    · rw [List.length_eraseIdx_of_lt hlt]; omega
    · exact fun x hx => hf x (List.mem_of_mem_eraseIdx hx)
    · rintro t₃ as hs ⟨hJ₃, has⟩
      exact ⟨hJ₃, forall₂_insertIdx xs as j hlt a (hP _ _ _ _ hs hJ₂ hJ₃ hPa) has⟩

theorem joinAll {pick : Nat → Prog C R Nat} {J : Trace C R → Prop}
    {P : ι → Trace C R → α → Prop} {f : ι → Prog C R α} {xs : List ι}
    (hpick : ∀ t n, J t → Conforms G (fun t' _ => J t') t (pick n))
    (hP : ∀ x t t' a, t <:+ t' → J t → J t' → P x t a → P x t' a) (hJ : J t)
    (hf : ∀ x ∈ xs, ∀ t, J t → Conforms G (fun t' a => J t' ∧ P x t' a) t (f x)) :
    Conforms G (fun t' as => J t' ∧ List.Forall₂ (fun x a => P x t' a) xs as) t
      (Conc.joinAll pick (xs.map f)) :=
  joinAllAux hpick hP _ xs t (List.length_map f).symm hJ hf

variable {x : ExceptT ε (Prog C R) α}

variable {f : α → ExceptT ε (Prog C R) β}

theorem except_bind_iff {Q : Trace C R → Except ε β → Prop} :
    Conforms G Q t (x >>= f).run ↔
      Conforms G (fun t' r => match r with
        | .ok a => Conforms G Q t' (f a).run
        | .error e => Q t' (.error e)) t x.run := by
  rw [show (x >>= f).run = x.run >>= ExceptT.bindCont f from rfl, bind_iff]
  constructor <;> intro h <;> refine h.weaken ?_ <;> rintro t' (e | a) - h' <;> exact h'

theorem except_bind {Q : Trace C R → Except ε α → Prop}
    {Q' : Trace C R → Except ε β → Prop} (h : Conforms G Q t x.run)
    (hok : ∀ t' a, t <:+ t' → Q t' (.ok a) → Conforms G Q' t' (f a).run)
    (herr : ∀ t' e, t <:+ t' → Q t' (.error e) → Q' t' (.error e)) :
    Conforms G Q' t (x >>= f).run := by
  refine except_bind_iff.mpr (h.weaken ?_)
  rintro t' (e | a) hs h'
  · exact herr t' e hs h'
  · exact hok t' a hs h'

theorem lift_iff {Q : Trace C R → Except ε α → Prop} :
    Conforms G Q t (ExceptT.lift p : ExceptT ε (Prog C R) α).run ↔
      Conforms G (fun t' a => Q t' (.ok a)) t p :=
  bind_iff

theorem lift_bind
    {Q : Trace C R → Except ε β → Prop}
    (h : Conforms G (fun t' a => Conforms G Q t' (f a).run) t p) :
    Conforms G Q t (ExceptT.lift p >>= f).run :=
  except_bind_iff.mpr (lift_iff.mpr h)

theorem attempt_iff {Q : Trace C R → Except ε (Except ε α) → Prop} :
    Conforms G Q t (attempt x).run ↔ Conforms G (fun t' r => Q t' (.ok r)) t x.run :=
  bind_iff

end Conforms

def Issues (G : Trace C R → C → Prop) (t : Trace C R) (p : Prog C R α) : Prop :=
  Conforms G (fun _ _ => True) t p

namespace Issues

variable {G G' : Trace C R → C → Prop} {t : Trace C R}

variable {p : Prog C R α}

theorem mono (h : Issues G t p) (hG : ∀ t c, G t c → G' t c) : Issues G' t p :=
  Conforms.mono hG (fun _ _ _ h => h) h

theorem bind {f : α → Prog C R β} (hp : Issues G t p)
    (hf : ∀ t' a, Issues G t' (f a)) : Issues G t (p >>= f) :=
  Conforms.bind hp fun t' a _ _ => hf t' a

theorem exceptBind {x : ExceptT ε (Prog C R) α} {f : α → ExceptT ε (Prog C R) β}
    (hx : Issues G t x.run) (hf : ∀ t' a, Issues G t' (f a).run) : Issues G t (x >>= f).run :=
  Conforms.except_bind hx (fun t' a _ _ => hf t' a) (fun _ _ _ _ => trivial)

theorem exceptLift (h : Issues G t p) :
    Issues G t (ExceptT.lift p : ExceptT ε (Prog C R) α).run :=
  Conforms.lift_iff.mpr h

end Issues

def Gives (G : Trace C R → C → Prop) (S : Trace C R → α → Prop) (t : Trace C R)
    (x : ExceptT ε (Prog C R) α) : Prop :=
  Conforms G (fun t' r => ∀ a, r = .ok a → S t' a) t x.run

abbrev Yields (S : Trace C R → α → Prop) (t : Trace C R) (x : ExceptT ε (Prog C R) α) : Prop :=
  Gives (fun _ _ => True) S t x

namespace Gives

variable {G G' : Trace C R → C → Prop} {t : Trace C R} {x : ExceptT ε (Prog C R) α}
  {S S' : Trace C R → α → Prop}

theorem weaken (h : Gives G S t x) (hS : ∀ t' a, t <:+ t' → S t' a → S' t' a) : Gives G S' t x :=
  Conforms.weaken h fun t' _ hs hr a ha => hS t' a hs (hr a ha)

theorem mono (h : Gives G S t x) (hG : ∀ t c, G t c → G' t c) : Gives G' S t x :=
  Conforms.mono hG (fun _ _ _ h => h) h

theorem yields (h : Gives G S t x) : Yields S t x := h.mono fun _ _ _ => trivial

theorem issues (h : Gives G S t x) : Issues G t x.run := Conforms.weaken h fun _ _ _ _ => trivial

theorem of_issues (h : Issues G t x.run) : Gives G (fun _ _ => True) t x :=
  Conforms.weaken h fun _ _ _ _ _ _ => trivial

variable {f : α → ExceptT ε (Prog C R) β}

theorem issuesBind (h : Gives G S t x)
    (hf : ∀ t' a, t <:+ t' → S t' a → Issues G t' (f a).run) : Issues G t (x >>= f).run :=
  Conforms.except_bind h (fun t' a hs ha => hf t' a hs (ha a rfl)) fun _ _ _ _ => trivial

theorem pure {a : α} (h : S t a) : Gives G S t (Pure.pure a : ExceptT ε (Prog C R) α) := by
  rintro _ ⟨⟩
  exact h

theorem throw {e : ε} : Gives G S t (MonadExcept.throw e : ExceptT ε (Prog C R) α) := nofun

theorem bind {S' : Trace C R → β → Prop} (h : Gives G S t x)
    (hf : ∀ t' a, t <:+ t' → S t' a → Gives G S' t' (f a)) : Gives G S' t (x >>= f) :=
  Conforms.except_bind h (fun t' a hs ha => hf t' a hs (ha a rfl)) fun _ _ _ _ => nofun

theorem after {S : Trace C R → β → Prop} (h : Issues G t x.run)
    (hf : ∀ t' a, t <:+ t' → Gives G S t' (f a)) : Gives G S t (x >>= f) :=
  Conforms.except_bind h (fun t' a hs _ => hf t' a hs) fun _ _ _ _ => nofun

theorem lift {p : Prog C R α} (h : Conforms G S t p) :
    Gives G S t (ExceptT.lift p : ExceptT ε (Prog C R) α) := by
  refine Conforms.lift_iff.mpr (h.weaken ?_)
  rintro t' a - ha _ ⟨⟩
  exact ha

theorem attempt (h : Gives G S t x) :
    Gives G (fun t' r => ∀ a, r = .ok a → S t' a) t (Conc.attempt x) := by
  refine Conforms.attempt_iff.mpr (Conforms.weaken h ?_)
  rintro t' r - hr _ ⟨⟩
  exact hr

end Gives

theorem Conforms.any {t : Trace C R} {p : Prog C R α} :
    Conforms (fun _ _ => True) (fun _ _ => True) t p := by
  induction p generalizing t with
  | ret a => trivial
  | cmd c k ih => exact ⟨trivial, fun r => ih r⟩

namespace Yields

variable {t : Trace C R} {x : ExceptT ε (Prog C R) α}

theorem any : Yields (fun _ _ => True) t x :=
  Conforms.any.weaken fun _ _ _ _ _ _ => trivial

theorem skip {f : α → ExceptT ε (Prog C R) β} {S : Trace C R → β → Prop}
    (hf : ∀ t' a, t <:+ t' → Yields S t' (f a)) : Yields S t (x >>= f) :=
  any.bind fun t' a hs _ => hf t' a hs

end Yields

end Conc
