import ContextStore.Conc.Conform

/-!
# 命令の展開

粗い命令の program を、命令ごとに細かい命令の program へ置き換える。
-/

namespace Conc

variable {C D : Type} {R : C → Type} {S : D → Type} {α β ε : Type}

/-! ## 展開 -/

def Prog.expand (h : (c : C) → Prog D S (R c)) : Prog C R α → Prog D S α
  | .ret a => .ret a
  | .cmd c k => h c >>= fun r => (k r).expand h

def expandExcept (h : (c : C) → Prog D S (R c)) (x : ExceptT ε (Prog C R) α) :
    ExceptT ε (Prog D S) α :=
  ExceptT.mk (x.run.expand h)

@[simp] theorem Prog.map_ret (f : α → β) (a : α) : f <$> (.ret a : Prog C R α) = .ret (f a) := rfl

theorem lift_map (f : α → β) (p : Prog C R α) :
    (ExceptT.lift (f <$> p) : ExceptT ε (Prog C R) β) = f <$> ExceptT.lift p := by
  apply ExceptT.ext
  simp [Except.map]

theorem attempt_lift_bind (p : Prog C R α) (f : α → ExceptT ε (Prog C R) β) :
    attempt (ExceptT.lift p >>= f) = ExceptT.lift p >>= fun a => attempt (f a) := by
  show ((p >>= fun a => (.ret (.ok a) : Prog C R (Except ε α))) >>= ExceptT.bindCont f) >>=
      (fun r => .ret (.ok r)) =
    (p >>= fun a => (.ret (.ok a) : Prog C R (Except ε α))) >>=
      ExceptT.bindCont fun a => attempt (f a)
  simp only [Prog.bind_bind, Prog.ret_bind]
  rfl

section

variable (h : (c : C) → Prog D S (R c))

@[simp] theorem Prog.expand_ret (a : α) : (.ret a : Prog C R α).expand h = .ret a := rfl

@[simp] theorem Prog.expand_issue (c : C) : (Prog.issue c : Prog C R (R c)).expand h = h c :=
  Prog.bind_ret (h c)

@[simp] theorem Prog.expand_bind (p : Prog C R α) (f : α → Prog C R β) :
    (p >>= f).expand h = p.expand h >>= fun a => (f a).expand h := by
  induction p with
  | ret a => rfl
  | cmd c k ih =>
    rw [Prog.cmd_bind, Prog.expand, Prog.expand, Prog.bind_bind]
    congr 1
    funext r
    exact ih r

theorem Prog.expand_joinAllAux (pick : Nat → Prog C R Nat) (fuel : Nat) (ps : List (Prog C R α)) :
    (joinAllAux pick fuel ps).expand h =
      joinAllAux (fun n => (pick n).expand h) fuel (ps.map fun p => p.expand h) := by
  induction fuel generalizing ps with
  | zero => rfl
  | succ fuel ih =>
    simp only [joinAllAux, expand_bind, List.length_map, List.getElem?_map]
    congr 1
    funext i
    grind [expand_bind, List.eraseIdx_map, expand_ret]

theorem Prog.expand_joinAll (pick : Nat → Prog C R Nat) (ps : List (Prog C R α)) :
    (joinAll pick ps).expand h =
      joinAll (fun n => (pick n).expand h) (ps.map fun p => p.expand h) := by
  rw [joinAll, joinAll, List.length_map, Prog.expand_joinAllAux]

@[simp] theorem run_expandExcept (x : ExceptT ε (Prog C R) α) :
    (expandExcept h x).run = x.run.expand h := rfl

theorem expandExcept_bind (x : ExceptT ε (Prog C R) α) (f : α → ExceptT ε (Prog C R) β) :
    expandExcept h (x >>= f) = expandExcept h x >>= fun a => expandExcept h (f a) := by
  show (x.run >>= ExceptT.bindCont f).expand h =
    x.run.expand h >>= ExceptT.bindCont fun a => expandExcept h (f a)
  rw [Prog.expand_bind]
  congr 1
  funext r
  cases r <;> rfl

theorem expandExcept_lift (p : Prog C R α) :
    expandExcept h (ExceptT.lift p : ExceptT ε (Prog C R) α) = ExceptT.lift (p.expand h) :=
  Prog.expand_bind h p _

theorem expandExcept_attempt (x : ExceptT ε (Prog C R) α) :
    expandExcept h (attempt x) = attempt (expandExcept h x) :=
  Prog.expand_bind h x.run _

end

/-! ## 走り -/

def Prog.Leads : Prog C R α → Trace C R → Trace C R → α → Prop
  | .ret a, t, t', b => t' = t ∧ b = a
  | .cmd c k, t, t', b => ∃ r, (k r).Leads (⟨c, r⟩ :: t) t' b

theorem Prog.leads_bind {p : Prog C R α} {f : α → Prog C R β} {t t' : Trace C R} {b : β} :
    (p >>= f).Leads t t' b ↔ ∃ s a, p.Leads t s a ∧ (f a).Leads s t' b := by
  induction p generalizing t with
  | ret a =>
    constructor
    · exact fun h => ⟨t, a, ⟨rfl, rfl⟩, h⟩
    · rintro ⟨s, a', ⟨rfl, rfl⟩, h⟩
      exact h
  | cmd c k ih =>
    constructor
    · rintro ⟨r, h⟩
      obtain ⟨s, a, hp, hf⟩ := (ih r).mp h
      exact ⟨s, a, ⟨r, hp⟩, hf⟩
    · rintro ⟨s, a, ⟨r, hp⟩, hf⟩
      exact ⟨r, (ih r).mpr ⟨s, a, hp, hf⟩⟩

theorem Prog.Leads.suffix {p : Prog C R α} {t t' : Trace C R} {a : α} (h : p.Leads t t' a) :
    t <:+ t' := by
  induction p generalizing t with
  | ret b => exact h.1 ▸ List.suffix_refl t'
  | cmd c k ih =>
    obtain ⟨r, hk⟩ := h
    exact (List.suffix_cons _ t).trans (ih r hk)

theorem Prog.Leads.unique {p : Prog C R α} {t t' : Trace C R} {a b : α} (ha : p.Leads t t' a)
    (hb : p.Leads t t' b) : a = b := by
  induction p generalizing t with
  | ret c => exact ha.2.trans hb.2.symm
  | cmd c k ih =>
    obtain ⟨r, ha⟩ := ha
    obtain ⟨r', hb⟩ := hb
    have hsame : (⟨c, r⟩ : Event C R) :: t = ⟨c, r'⟩ :: t := by
      have hlen : ((⟨c, r⟩ : Event C R) :: t).length = ((⟨c, r'⟩ : Event C R) :: t).length := rfl
      exact (List.suffix_of_suffix_length_le ha.suffix hb.suffix
        (Nat.le_of_eq hlen)).eq_of_length hlen
    cases hsame
    exact ih r ha hb

inductive Expansion (h : (c : C) → Prog D S (R c)) : Trace C R → Trace D S → Prop where
  | nil : Expansion h [] []
  | cons {H : Trace C R} {t t' : Trace D S} {c : C} {r : R c} (hH : Expansion h H t)
      (hc : (h c).Leads t t' r) : Expansion h (⟨c, r⟩ :: H) t'

structure Traced (h : (c : C) → Prog D S (R c)) (p : Prog C R α) (H : Trace C R) (t : Trace D S)
    (a : α) : Prop where
  leads : p.Leads [] H a
  expansion : Expansion h H t

variable {h : (c : C) → Prog D S (R c)}

variable {H : Trace C R}

theorem Expansion.mem {t : Trace D S} (hH : Expansion h H t) {c : C} {r : R c}
    (he : (⟨c, r⟩ : Event C R) ∈ H) : ∃ s s', (h c).Leads s s' r := by
  induction hH with
  | nil => cases he
  | @cons H t t' c' r' _ hc ih =>
    rcases List.mem_cons.mp he with heq | he
    · cases heq
      exact ⟨t, t', hc⟩
    · exact ih he

theorem Prog.Leads.of_expand {p : Prog C R α} {t t' : Trace D S} {a : α}
    (hp : (p.expand h).Leads t t' a) (hH : Expansion h H t) :
    ∃ H', p.Leads H H' a ∧ Expansion h H' t' := by
  induction p generalizing H t with
  | ret b =>
    obtain ⟨rfl, rfl⟩ := hp
    exact ⟨H, ⟨rfl, rfl⟩, hH⟩
  | cmd c k ih =>
    obtain ⟨s, r, hc, hk⟩ := Prog.leads_bind.mp hp
    obtain ⟨H', hlead, hexp⟩ := ih r hk (hH.cons hc)
    exact ⟨H', ⟨r, hlead⟩, hexp⟩

theorem Traced.of_expand {p : Prog C R α} {t : Trace D S} {a : α}
    (hp : (p.expand h).Leads [] t a) : ∃ H, Traced h p H t a := by
  obtain ⟨H, hlead, hexp⟩ := hp.of_expand .nil
  exact ⟨H, hlead, hexp⟩

variable {σ : Type}

def Prog.record (exec : (c : C) → σ → Option (σ × R c)) :
    Prog C R α → σ → Trace C R → Option (σ × Trace C R × α)
  | .ret a, s, t => some (s, t, a)
  | .cmd c k, s, t =>
    match exec c s with
    | none => none
    | some (s', r) => (k r).record exec s' (⟨c, r⟩ :: t)

theorem Prog.leads_of_record {exec : (c : C) → σ → Option (σ × R c)} {p : Prog C R α} {s s' : σ}
    {t t' : Trace C R} {a : α} (hp : p.record exec s t = some (s', t', a)) : p.Leads t t' a := by
  induction p generalizing s t with
  | ret b =>
    cases hp
    exact ⟨rfl, rfl⟩
  | cmd c k ih =>
    unfold Prog.record at hp
    split at hp
    · cases hp
    next r _ => exact ⟨r, ih r hp⟩

def Prog.recordExpand (h : (c : C) → Prog D S (R c)) (exec : (d : D) → σ → Option (σ × S d)) :
    Prog C R α → σ → Trace C R → Trace D S → Option (Trace C R × α)
  | .ret a, _, H, _ => some (H, a)
  | .cmd c k, s, H, t =>
    match (h c).record exec s t with
    | none => none
    | some (s', t', r) => (k r).recordExpand h exec s' (⟨c, r⟩ :: H) t'

theorem Prog.leads_of_recordExpand {exec : (d : D) → σ → Option (σ × S d)} {p : Prog C R α} {s : σ}
    {H H' : Trace C R} {t : Trace D S} {a : α}
    (hp : p.recordExpand h exec s H t = some (H', a)) (hH : Expansion h H t) :
    p.Leads H H' a ∧ ∃ t', Expansion h H' t' := by
  induction p generalizing s H t with
  | ret b =>
    cases hp
    exact ⟨⟨rfl, rfl⟩, t, hH⟩
  | cmd c k ih =>
    unfold Prog.recordExpand at hp
    split at hp
    · cases hp
    next s' t' r hc =>
      obtain ⟨hlead, hexp⟩ := ih r hp (hH.cons (Prog.leads_of_record hc))
      exact ⟨⟨r, hlead⟩, hexp⟩

theorem Traced.of_recordExpand {exec : (d : D) → σ → Option (σ × S d)} {p : Prog C R α} {s : σ}
    {a : α} (hp : p.recordExpand h exec s [] [] = some (H, a)) :
    ∃ t, Traced h p H t a := by
  obtain ⟨hlead, t, hexp⟩ := Prog.leads_of_recordExpand hp .nil
  exact ⟨t, hlead, hexp⟩

namespace Conforms

variable {G : Trace C R → C → Prop} {Q : Trace C R → α → Prop} {p : Prog C R α}
  {t t' : Trace C R} {a : α}

theorem leads (hp : Conforms G Q t p) (hl : p.Leads t t' a) : Q t' a := by
  induction p generalizing t with
  | ret b =>
    obtain ⟨rfl, rfl⟩ := hl
    exact hp
  | cmd c k ih =>
    obtain ⟨r, hk⟩ := hl
    exact ih r (hp.2 r) hk

theorem always {I : Trace C R → Prop} (hstep : ∀ t c r, I t → G t c → I (⟨c, r⟩ :: t))
    (hp : Conforms G Q t p) (h0 : ∀ s, s <:+ t → I s) (hl : p.Leads t t' a) :
    ∀ s, s <:+ t' → I s := by
  induction p generalizing t with
  | ret b =>
    obtain ⟨rfl, -⟩ := hl
    exact h0
  | cmd c k ih =>
    obtain ⟨r, hk⟩ := hl
    refine ih r (hp.2 r) (fun s hs => ?_) hk
    rcases List.suffix_cons_iff.mp hs with rfl | hs
    · exact hstep t c r (h0 t (List.suffix_refl t)) hp.1
    · exact h0 s hs

theorem issued (hp : Conforms G Q [] p) (hl : p.Leads [] t a) {e : Event C R} (he : e ∈ t) :
    ∃ s, e :: s <:+ t ∧ G s e.1 := by
  obtain ⟨front, s, rfl⟩ := List.append_of_mem he
  refine ⟨s, List.suffix_append _ _, ?_⟩
  have hall := hp.always (I := fun t => ∀ e s, e :: s <:+ t → G s e.1) ?_ ?_ hl
  · exact hall _ (List.suffix_refl _) e s (List.suffix_append _ _)
  · intro t c r h hc e s hs
    rcases List.suffix_cons_iff.mp hs with heq | hs
    · cases heq
      exact hc
    · exact h e s hs
  · intro s hs e s' hs'
    exact absurd (hs'.trans hs) (by simp)

theorem expand {h : (c : C) → Prog D S (R c)} {G' : Trace D S → D → Prop}
    {J : Trace C R → Trace D S → Prop} {s : Trace D S}
    (hbody : ∀ t s c, G t c → J t s → Conforms G' (fun s' r => J (⟨c, r⟩ :: t) s') s (h c))
    (hp : Conforms G Q t p) (hJ : J t s) :
    Conforms G' (fun s' a => ∃ t', Q t' a ∧ J t' s') s (p.expand h) := by
  induction p generalizing t s with
  | ret a => exact ⟨t, hp, hJ⟩
  | cmd c k ih => exact (hbody t s c hp.1 hJ).bind fun s' r _ hJ' => ih r (hp.2 r) hJ'

end Conforms

end Conc
