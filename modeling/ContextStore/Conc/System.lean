import ContextStore.Conc.Conform

/-!
# 任意個の thread の interleaving
-/

namespace Conc

structure Machine (σ C : Type) (R : C → Type) (X E O : Type) where
  exec : (c : C) → X → σ → Option (σ × R c)
  env : E → σ → σ
  observe : Trace C R → (c : C) → X → σ → O

structure Thread (L C : Type) (R : C → Type) (α : Type) where
  label : L
  prog : Prog C R α
  trace : Trace C R
  finished : Bool

/-- 記録の 1 件。 -/
inductive Entry (C : Type) (R : C → Type) (O : Type) where
  | spawned (i : Nat)
  | ran (i : Nat) (e : Event C R) (o : O)
  | finished (i : Nat)

def Entry.event? {C O : Type} {R : C → Type} (i : Nat) : Entry C R O → Option (Event C R)
  | .ran j e _ => if j = i then some e else none
  | _ => none

@[simp] theorem Entry.event?_ran_self {C O : Type} {R : C → Type} (i : Nat)
    (e : Event C R) (o : O) :
    Entry.event? i (.ran i e o) = some e := if_pos rfl

theorem Entry.event?_ran_of_ne {C O : Type} {R : C → Type} {i j : Nat} (h : j ≠ i)
    (e : Event C R) (o : O) : Entry.event? i (.ran j e o) = none := if_neg h

structure Config (σ L C : Type) (R : C → Type) (α O : Type) where
  world : σ
  threads : List (Thread L C R α)
  log : List (Entry C R O)

/-- 系の 1 手。 -/
inductive Act (L X E : Type) where
  | spawn (l : L)
  | run (i : Nat) (x : X)
  | finish (i : Nat)
  | env (e : E)

variable {σ L C X E O α : Type} {R : C → Type}

def Guarded (G : Trace C R → C → Prop) (t : Trace C R) : Prop :=
  ∀ e t', e :: t' <:+ t → G t' e.1

theorem Guarded.nil {G : Trace C R → C → Prop} : Guarded G [] := by
  intro e t' h
  cases List.suffix_nil.mp h

variable {t : Trace C R} {e : Event C R}

theorem Guarded.cons {G : Trace C R → C → Prop}
    (h : Guarded G t) (he : G t e.1) : Guarded G (e :: t) := by
  intro e' t' hs
  rcases List.suffix_cons_iff.mp hs with heq | hs
  · obtain ⟨rfl, rfl⟩ := List.cons.inj heq
    exact he
  · exact h e' t' hs

theorem Guarded.suffix {G : Trace C R → C → Prop} {t t' : Trace C R} (h : Guarded G t)
    (hs : t' <:+ t) : Guarded G t' :=
  fun e t'' hs' => h e t'' (hs'.trans hs)

theorem Guarded.head {G : Trace C R → C → Prop}
    (h : Guarded G (e :: t)) : G t e.1 :=
  h e t (List.suffix_refl _)

theorem Guarded.tail {G : Trace C R → C → Prop}
    (h : Guarded G (e :: t)) : Guarded G t :=
  h.suffix (List.suffix_cons _ _)

namespace Machine

variable (M : Machine σ C R X E O) (prog : L → Prog C R α)

def runThread (i : Nat) (x : X) (c : Config σ L C R α O) : Option (Config σ L C R α O) :=
  match c.threads[i]? with
  | none => none
  | some th =>
    match th.prog with
    | .ret _ => none
    | .cmd m k =>
      match M.exec m x c.world with
      | none => none
      | some (w, r) => some {
          world := w
          threads := c.threads.set i { th with prog := k r, trace := ⟨m, r⟩ :: th.trace }
          log := .ran i ⟨m, r⟩ (M.observe th.trace m x c.world) :: c.log }

def finishThread (i : Nat) (c : Config σ L C R α O) : Option (Config σ L C R α O) :=
  match c.threads[i]? with
  | none => none
  | some th =>
    match th.prog, th.finished with
    | .ret _, false => some {
        c with
        threads := c.threads.set i { th with finished := true }
        log := .finished i :: c.log }
    | _, _ => none

def apply (a : Act L X E) (c : Config σ L C R α O) : Option (Config σ L C R α O) :=
  match a with
  | .spawn l => some {
      c with
      threads := c.threads ++ [⟨l, prog l, [], false⟩]
      log := .spawned c.threads.length :: c.log }
  | .run i x => M.runThread i x c
  | .finish i => finishThread i c
  | .env e => some { c with world := M.env e c.world }

def start (w : σ) : Config σ L C R α O := ⟨w, [], []⟩

inductive Reach (w : σ) (P : Config σ L C R α O → Act L X E → Prop) :
    Config σ L C R α O → Prop where
  | start : Reach w P (start w)
  | step {c c' : Config σ L C R α O} {a : Act L X E} (h : Reach w P c) (hP : P c a)
      (ha : M.apply prog a c = some c') : Reach w P c'

inductive Steps (P : Config σ L C R α O → Act L X E → Prop) (c : Config σ L C R α O) :
    Config σ L C R α O → Prop where
  | refl : Steps P c c
  | step {c₁ c₂ : Config σ L C R α O} {a : Act L X E} (h : Steps P c c₁) (hP : P c₁ a)
      (ha : M.apply prog a c₁ = some c₂) : Steps P c c₂

variable {M prog}

/-! ## 1 手の内訳 -/

variable {i : Nat}

theorem runThread_eq_some {x : X} {c c' : Config σ L C R α O}
    (h : M.runThread i x c = some c') :
    ∃ th m k w r, c.threads[i]? = some th ∧ th.prog = .cmd m k ∧
      M.exec m x c.world = some (w, r) ∧
      c' = ⟨w, c.threads.set i ⟨th.label, k r, ⟨m, r⟩ :: th.trace, th.finished⟩,
        .ran i ⟨m, r⟩ (M.observe th.trace m x c.world) :: c.log⟩ := by
  unfold runThread at h
  grind

theorem finishThread_eq_some {c c' : Config σ L C R α O}
    (h : finishThread i c = some c') :
    ∃ th a, c.threads[i]? = some th ∧ th.prog = .ret a ∧ th.finished = false ∧
      c' = ⟨c.world, c.threads.set i ⟨th.label, th.prog, th.trace, true⟩,
        .finished i :: c.log⟩ := by
  unfold finishThread at h
  grind

variable {w : σ} {P : Config σ L C R α O → Act L X E → Prop}
  {G : L → Trace C R → C → Prop} {Q : L → Trace C R → α → Prop}

variable {c : Config σ L C R α O}

theorem Reach.mono {P' : Config σ L C R α O → Act L X E → Prop}
    (hP : ∀ c a, P c a → P' c a) (h : M.Reach prog w P c) :
    M.Reach prog w P' c := by
  induction h with
  | start => exact .start
  | step _ hp ha ih => exact .step ih (hP _ _ hp) ha

theorem Reach.induct {I : Config σ L C R α O → Prop}
    (hstart : I (Machine.start w))
    (hspawn : ∀ c l, M.Reach prog w P c → P c (.spawn l) → I c →
      I ⟨c.world, c.threads ++ [⟨l, prog l, [], false⟩], .spawned c.threads.length :: c.log⟩)
    (hrun : ∀ c i x th m k w' r, M.Reach prog w P c → P c (.run i x) → I c →
      c.threads[i]? = some th → th.prog = .cmd m k → M.exec m x c.world = some (w', r) →
      I ⟨w', c.threads.set i ⟨th.label, k r, ⟨m, r⟩ :: th.trace, th.finished⟩,
        .ran i ⟨m, r⟩ (M.observe th.trace m x c.world) :: c.log⟩)
    (hfinish : ∀ c i th a, M.Reach prog w P c → P c (.finish i) → I c →
      c.threads[i]? = some th → th.prog = .ret a → th.finished = false →
      I ⟨c.world, c.threads.set i ⟨th.label, .ret a, th.trace, true⟩, .finished i :: c.log⟩)
    (henv : ∀ c e, M.Reach prog w P c → P c (.env e) → I c →
      I ⟨M.env e c.world, c.threads, c.log⟩) (h : M.Reach prog w P c) : I c := by
  induction h with
  | start => exact hstart
  | @step c c' a hc hP ha ih =>
    cases a with
    | spawn l => cases ha; exact hspawn c l hc hP ih
    | run i x =>
      obtain ⟨th, m, k, w', r, hth, hp, hexec, rfl⟩ := runThread_eq_some ha
      exact hrun c i x th m k w' r hc hP ih hth hp hexec
    | finish i =>
      obtain ⟨th, a, hth, hp, hf, rfl⟩ := finishThread_eq_some ha
      rw [hp]
      exact hfinish c i th a hc hP ih hth hp hf
    | env e => cases ha; exact henv c e hc hP ih

theorem Reach.steps {c c' : Config σ L C R α O} (h : M.Reach prog w P c)
    (hs : M.Steps prog P c c') : M.Reach prog w P c' := by
  induction hs with
  | refl => exact h
  | step _ hP ha ih => exact .step ih hP ha

theorem Reach.conforms (hprog : ∀ c l, P c (.spawn l) → Conforms (G l) (Q l) [] (prog l))
    (h : M.Reach prog w P c) :
    ∀ th ∈ c.threads, Conforms (G th.label) (Q th.label) th.trace th.prog := by
  refine Reach.induct (I := fun c => ∀ th ∈ c.threads,
    Conforms (G th.label) (Q th.label) th.trace th.prog) ?_ ?_ ?_ ?_ ?_ h
  · intro th hth; cases hth
  · grind
  · intro c i x th₀ m k w' r _ _ ih hth₀ hp _ th hth
    rcases List.mem_or_eq_of_mem_set hth with hth | rfl
    · exact ih th hth
    · have h₀ := ih th₀ (List.mem_of_getElem? hth₀)
      rw [hp] at h₀
      exact h₀.2 r
  · grind
  · intro c e _ _ ih
    exact ih

theorem Reach.invariant {I : Config σ L C R α O → Prop}
    (hprog : ∀ c l, P c (.spawn l) → Conforms (G l) (Q l) [] (prog l))
    (hstart : I (Machine.start w))
    (hspawn : ∀ c l, M.Reach prog w P c → P c (.spawn l) → I c →
      I ⟨c.world, c.threads ++ [⟨l, prog l, [], false⟩], .spawned c.threads.length :: c.log⟩)
    (hrun : ∀ c i x th m k w' r, M.Reach prog w P c → P c (.run i x) → I c →
      c.threads[i]? = some th → th.prog = .cmd m k → G th.label th.trace m →
      M.exec m x c.world = some (w', r) →
      I ⟨w', c.threads.set i ⟨th.label, k r, ⟨m, r⟩ :: th.trace, th.finished⟩,
        .ran i ⟨m, r⟩ (M.observe th.trace m x c.world) :: c.log⟩)
    (hfinish : ∀ c i th a, M.Reach prog w P c → P c (.finish i) → I c →
      c.threads[i]? = some th → th.prog = .ret a → th.finished = false → Q th.label th.trace a →
      I ⟨c.world, c.threads.set i ⟨th.label, .ret a, th.trace, true⟩, .finished i :: c.log⟩)
    (henv : ∀ c e, M.Reach prog w P c → P c (.env e) → I c →
      I ⟨M.env e c.world, c.threads, c.log⟩) (h : M.Reach prog w P c) : I c := by
  refine Reach.induct hstart hspawn ?_ ?_ henv h
  · intro c i x th m k w' r hc hP ih hth hp hexec
    have h₀ := hc.conforms hprog th (List.mem_of_getElem? hth)
    rw [hp] at h₀
    exact hrun c i x th m k w' r hc hP ih hth hp h₀.1 hexec
  · intro c i th a hc hP ih hth hp hf
    have h₀ := hc.conforms hprog th (List.mem_of_getElem? hth)
    rw [hp] at h₀
    exact hfinish c i th a hc hP ih hth hp hf h₀

theorem Reach.guarded (hprog : ∀ c l, P c (.spawn l) → Conforms (G l) (Q l) [] (prog l))
    (h : M.Reach prog w P c) :
    ∀ th ∈ c.threads, Guarded (G th.label) th.trace := by
  refine Reach.invariant (I := fun c => ∀ th ∈ c.threads, Guarded (G th.label) th.trace) hprog
    ?_ ?_ ?_ ?_ ?_ h
  · intro th hth; cases hth
  · intro c l _ _ ih th hth
    rcases List.mem_append.mp hth with hth | hth
    · exact ih th hth
    · rw [List.mem_singleton.mp hth]
      exact .nil
  · grind [Guarded.cons]
  · grind
  · intro c e _ _ ih
    exact ih

theorem getElem?_set_cases {β : Type} {l : List β} {i j : Nat} {x y z : β} (hi : l[i]? = some z)
    (h : (l.set i x)[j]? = some y) : (j = i ∧ y = x) ∨ (j ≠ i ∧ l[j]? = some y) := by
  grind

theorem getElem?_append_singleton {β : Type} {l : List β} {j : Nat} {x y : β}
    (h : (l ++ [x])[j]? = some y) : (j = l.length ∧ y = x) ∨ l[j]? = some y := by
  grind

theorem Reach.lt_of_ran (h : M.Reach prog w P c) :
    ∀ i e o, Entry.ran i e o ∈ c.log → i < c.threads.length := by
  refine Reach.induct (I := fun c => ∀ i e o, Entry.ran i e o ∈ c.log → i < c.threads.length)
    ?_ ?_ ?_ ?_ ?_ h
  · intro i e o hm; cases hm
  · grind
  · grind
  · grind
  · intro c e _ _ ih
    exact ih

theorem Reach.trace_eq (h : M.Reach prog w P c) :
    ∀ i th, c.threads[i]? = some th → th.trace = c.log.filterMap (Entry.event? i) := by
  refine Reach.induct (I := fun c => ∀ i th, c.threads[i]? = some th →
    th.trace = c.log.filterMap (Entry.event? i)) ?_ ?_ ?_ ?_ ?_ h
  · intro i th hth; cases hth
  · intro c l hc _ ih i th hth
    rw [List.filterMap_cons_none rfl]
    rcases getElem?_append_singleton hth with ⟨rfl, rfl⟩ | hth
    · refine (List.filterMap_eq_nil_iff.mpr ?_).symm
      intro e he
      cases e with
      | ran j e o =>
        have hlt := hc.lt_of_ran j e o he
        exact Entry.event?_ran_of_ne (by omega) _ _
      | _ => rfl
    · exact ih i th hth
  · intro c i x th₀ m k w' r _ _ ih hth₀ _ _ j th hth
    rcases getElem?_set_cases hth₀ hth with ⟨rfl, rfl⟩ | ⟨hne, hth⟩
    · grind [Entry.event?_ran_self]
    · rw [List.filterMap_cons_none (Entry.event?_ran_of_ne (Ne.symm hne) _ _), ← ih j th hth]
  · intro c i th₀ a _ _ ih hth₀ _ _ j th hth
    rw [List.filterMap_cons_none rfl]
    grind
  · intro c e _ _ ih
    exact ih

theorem Reach.runLast {default : C → X} (hP : ∀ c a, P c a) {ths : List (Thread L C R α)} {l : L}
    {p : Prog C R α} {s s' : σ} {a : α} {t : Trace C R} {log : List (Entry C R O)}
    (hrun : p.run (fun m s => M.exec m (default m) s) s = some (s', a))
    (h : M.Reach prog w P ⟨s, ths ++ [⟨l, p, t, false⟩], log⟩) :
    ∃ t' log', M.Reach prog w P ⟨s', ths ++ [⟨l, .ret a, t', false⟩], log'⟩ := by
  induction p generalizing s t log with
  | ret b =>
    cases hrun
    exact ⟨t, log, h⟩
  | cmd m k ih =>
    unfold Prog.run at hrun
    cases hexec : M.exec m (default m) s with
    | none => simp [hexec] at hrun
    | some sr =>
      obtain ⟨s₁, r⟩ := sr
      simp only [hexec] at hrun
      have hstep : M.Reach prog w P ⟨s₁, ths ++ [⟨l, k r, ⟨m, r⟩ :: t, false⟩],
          .ran ths.length ⟨m, r⟩ (M.observe t m (default m) s) :: log⟩ := by
        refine .step (a := .run ths.length (default m)) h (hP _ _) ?_
        simp [apply, runThread, hexec]
      exact ih r hrun hstep

theorem Reach.alone {default : C → X} (hP : ∀ c a, P c a)
    (h : M.Reach prog w P c) (l : L) {s' : σ} {a : α}
    (hrun : (prog l).run (fun m s => M.exec m (default m) s) c.world = some (s', a)) :
    ∃ t log, M.Reach prog w P ⟨s', c.threads ++ [⟨l, .ret a, t, true⟩], log⟩ := by
  have hspawn : M.Reach prog w P
      ⟨c.world, c.threads ++ [⟨l, prog l, [], false⟩], .spawned c.threads.length :: c.log⟩ :=
    .step (a := .spawn l) h (hP _ _) rfl
  obtain ⟨t, log, hlast⟩ := hspawn.runLast hP hrun
  refine ⟨t, .finished c.threads.length :: log,
    .step (a := .finish c.threads.length) hlast (hP _ _) ?_⟩
  simp [apply, finishThread]

/-! ## 台本 -/

inductive Line (L X E : Type) where
  | act (a : Act L X E)
  | solo (i n : Nat)

section Play

variable (M prog)
variable (ok : Config σ L C R α O → Act L X E → Bool) (default : C → X)

def applyIf (a : Act L X E) (c : Config σ L C R α O) : Option (Config σ L C R α O) :=
  if ok c a then M.apply prog a c else none

def soloRun (i : Nat) : Nat → Config σ L C R α O → Option (Config σ L C R α O)
  | 0, c => some c
  | n + 1, c =>
    match c.threads[i]? with
    | none => none
    | some th =>
      match th.prog with
      | .ret _ => some c
      | .cmd m _ => (applyIf M prog ok (.run i (default m)) c).bind (soloRun i n)

def play : List (Line L X E) → Config σ L C R α O → Option (Config σ L C R α O)
  | [], c => some c
  | .act a :: lines, c => (applyIf M prog ok a c).bind (play lines)
  | .solo i n :: lines, c => (soloRun M prog ok default i n c).bind (play lines)

variable {M prog ok default}

variable {c₀ c c' : Config σ L C R α O}

theorem Steps.applyIf {a : Act L X E}
    (h : M.Steps prog (fun c a => ok c a = true) c₀ c)
    (ha : M.applyIf prog ok a c = some c') : M.Steps prog (fun c a => ok c a = true) c₀ c' := by
  unfold Machine.applyIf at ha
  split at ha
  next hok => exact .step h hok ha
  next => cases ha

theorem Steps.soloRun {i n : Nat}
    (h : M.Steps prog (fun c a => ok c a = true) c₀ c)
    (ha : M.soloRun prog ok default i n c = some c') :
    M.Steps prog (fun c a => ok c a = true) c₀ c' := by
  induction n generalizing c with
  | zero => cases ha; exact h
  | succ n ih =>
    unfold Machine.soloRun at ha
    split at ha
    · cases ha
    · split at ha
      · cases ha; exact h
      · obtain ⟨c₁, hc₁, hrest⟩ := Option.bind_eq_some_iff.mp ha
        exact ih (h.applyIf hc₁) hrest

theorem Steps.play {lines : List (Line L X E)}
    (h : M.Steps prog (fun c a => ok c a = true) c₀ c)
    (ha : M.play prog ok default lines c = some c') :
    M.Steps prog (fun c a => ok c a = true) c₀ c' := by
  induction lines generalizing c with
  | nil => cases ha; exact h
  | cons line lines ih =>
    cases line with
    | act a =>
      obtain ⟨c₁, hc₁, hrest⟩ := Option.bind_eq_some_iff.mp ha
      exact ih (h.applyIf hc₁) hrest
    | solo i n =>
      obtain ⟨c₁, hc₁, hrest⟩ := Option.bind_eq_some_iff.mp ha
      exact ih (h.soloRun hc₁) hrest

theorem Reach.play {lines : List (Line L X E)} {c c' : Config σ L C R α O}
    (h : M.Reach prog w (fun c a => ok c a = true) c)
    (ha : M.play prog ok default lines c = some c') :
    M.Reach prog w (fun c a => ok c a = true) c' :=
  h.steps (Steps.play .refl ha)

end Play

end Machine

end Conc
