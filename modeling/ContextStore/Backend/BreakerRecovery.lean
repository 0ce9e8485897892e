import ContextStore.Backend.Breaker

/-!
# breaker の回復
-/

namespace ContextStore

open Conc

variable {n : Nat} {μ : Type}

def owed (idx : Fin n) : Trace (HaCmd n μ) HaCmd.Resp → Bool
  | [] => false
  | e :: t =>
    match mark idx e with
    | .allow direct ok => !direct && ok
    | .record _ => false
    | .other => owed idx t

def Owes (t : Trace (HaCmd n μ) HaCmd.Resp) (m : HaCmd n μ) : Prop :=
  ∀ idx, owed idx t = true → ∀ direct, m ≠ .allow idx direct

def TrialsSettled (t : Trace (HaCmd n μ) HaCmd.Resp) : Prop := ∀ idx, owed idx t = false

def Settles {α : Type} (p : Ha.Io n μ α) : Prop :=
  ∀ t, TrialsSettled t → Conforms Owes (fun t' _ => TrialsSettled t') t p

namespace Settles

variable {α β : Type}

theorem pure (a : α) : Settles (Pure.pure a : Ha.Io n μ α) := fun _ h => h

theorem bind {p : Ha.Io n μ α} {f : α → Ha.Io n μ β} (hp : Settles p) (hf : ∀ a, Settles (f a)) :
    Settles (p >>= f) :=
  fun t ht => (hp t ht).bind fun t' a _ ht' => hf a t' ht'

theorem issue {m : HaCmd n μ} (h : ∀ idx r t, owed idx t = false → owed idx (⟨m, r⟩ :: t) = false) :
    Settles (Ha.issue m) := by
  intro t ht
  refine Conforms.issue_iff.mpr ⟨fun idx howed => ?_, fun r idx => h idx r t (ht idx)⟩
  rw [ht idx] at howed
  cases howed

theorem allowDirect (j : Fin n) : Settles (Ha.issue (.allow j true : HaCmd n μ)) := by
  refine issue fun idx r t h => ?_
  by_cases hj : j = idx <;> simp [owed, mark, hj, h]

theorem record (j : Fin n) (ok : Bool) : Settles (Ha.issue (.record j ok : HaCmd n μ)) := by
  refine issue fun idx r t h => ?_
  by_cases hj : j = idx <;> simp [owed, mark, hj, h]

theorem child (j : Fin n) (c : ChildCall μ) : Settles (Ha.issue (.child j c)) :=
  issue fun _ _ _ h => h

theorem call (j : Fin n) (c : ChildCall μ) : Settles (Ha.call j c) := by
  intro t ht
  have hfree : ∀ m : HaCmd n μ, Owes t m := by
    intro m idx howed
    rw [ht idx] at howed
    cases howed
  refine ⟨hfree _, fun admitted => ?_⟩
  cases admitted with
  | false =>
    intro idx
    by_cases hj : j = idx <;> simp [owed, mark, hj, ht idx]
  | true =>
    refine ⟨fun idx _ direct => by rintro ⟨⟩, fun result => ?_⟩
    cases result with
    | error e =>
      refine ⟨fun idx _ direct => by rintro ⟨⟩, fun _ idx => ?_⟩
      by_cases hj : j = idx <;> simp [owed, mark, hj, ht idx]
    | ok a =>
      refine ⟨fun idx _ direct => by rintro ⟨⟩, fun _ idx => ?_⟩
      by_cases hj : j = idx <;> simp [owed, mark, hj, ht idx]

theorem callEach (c : ChildCall μ) (idxs : List (Fin n)) : Settles (Ha.callEach c idxs) := by
  induction idxs with
  | nil => exact pure _
  | cons idx rest ih => exact (call idx c).bind fun _ => ih.bind fun _ => pure _

theorem fetchGroups (layer : String) (groups : List (Fin n × List (Nat × String)))
    (results : List (Option Bytes)) :
    Settles (Ha.fetchGroups layer groups results : Ha.Io n μ (List (Option Bytes))) := by
  induction groups generalizing results with
  | nil => exact pure _
  | cons g rest ih =>
    refine (call g.1 _).bind fun fetched => ?_
    split
    · exact ih _
    · exact ih _

variable (cfg : HaConfig n)

theorem translateRegion (idx : Fin n) (haId : Nat) :
    Settles (Ha.translateRegion cfg idx haId : Ha.Io n μ (Option Nat)) := by
  refine (issue (m := .lookupRegion haId) fun _ _ _ h => h).bind fun region => ?_
  grind [pure, bind, call]

theorem getChunksInto (key layer : String) (region offset : Nat) :
    Settles (Ha.getChunksInto cfg key layer region offset : Ha.Io n μ (Option Nat)) := by
  refine (allowDirect _).bind fun admitted => ?_
  split
  · refine (translateRegion cfg _ region).bind fun rid => ?_
    split
    · exact pure _
    · split
      · refine (child _ (.getChunksInto key layer _ offset)).bind fun result => ?_
        split
        · exact (record _ true).bind fun _ => pure _
        · exact (record _ false).bind fun _ => pure _
      · exact pure _
  · exact pure _

theorem putChunksFrom (key layer : String) (region offset size : Nat) :
    Settles (Ha.putChunksFrom cfg key layer region offset size : Ha.Io n μ Bool) := by
  refine (allowDirect _).bind fun admitted => ?_
  split
  · refine (translateRegion cfg _ region).bind fun rid => ?_
    split
    · exact pure _
    · split
      · refine (child _ (.putChunksFrom key layer _ offset size)).bind fun result => ?_
        split
        · exact (record _ true).bind fun _ => pure _
        · exact (record _ false).bind fun _ => pure _
      · exact pure _
  · exact pure _

theorem prog (op : HaOp μ) : Settles (op.prog cfg) := by
  refine bind ?_ fun _ => pure _
  cases op with
  | capacityUsage => exact (callEach _ _).bind fun _ => pure _
  | listKeys => exact (callEach _ _).bind fun _ => pure _
  | getParallel keys layer => exact fetchGroups layer _ _
  | ensureRdmaRegion ptr size =>
    refine (issue (m := .assignRegion ptr size) fun _ _ _ h => h).bind fun _ => ?_
    exact (callEach _ _).bind fun _ => pure _
  | getChunksInto key layer region offset => exact getChunksInto cfg key layer region offset
  | putChunksFrom key layer region offset size =>
    exact putChunksFrom cfg key layer region offset size
  | _ => exact (call _ _).bind fun _ => pure _

end Settles

/-! ## 回復 -/

def NoDirectTrial (cfg : HaConfig n) (idx : Fin n) (c : HaRun n μ) : HaMove μ → Prop
  | .run i _ => ∀ th k, c.threads[i]? = some th → th.prog = .cmd (.allow idx true) k →
      ¬ ((c.world.breakers idx).state = .opened ∧
        cfg.cooldown ≤ c.world.clock - (c.world.breakers idx).openedAt)
  | _ => True

structure Recovering (idx : Fin n) (c : HaRun n μ) : Prop where
  failed : (c.world.breakers idx).state ≠ .closed →
    lastFailure idx c.log = some (c.world.breakers idx).openedAt
  trial : (c.world.breakers idx).state = .halfOpen →
    ∃ i : Nat, ∃ th, c.threads[i]? = some th ∧ owed idx th.trace = true
  pending : ∀ i th, c.threads[i]? = some th → owed idx th.trace = true →
    ∃ p ∈ openCalls idx c.log, p.1 = i

theorem exists_mem_eraseP {calls : List (Nat × Bool)} {i j : Nat} (hne : j ≠ i)
    (h : ∃ p ∈ calls, p.1 = j) : ∃ p ∈ calls.eraseP (fun p => p.1 = i), p.1 = j := by
  simp_all

theorem exists_mem_filter {calls : List (Nat × Bool)} {i j : Nat} (hne : j ≠ i)
    (h : ∃ p ∈ calls, p.1 = j) : ∃ p ∈ calls.filter (fun p => p.1 ≠ i), p.1 = j := by
  simp_all

theorem getElem?_set_running {β : Type} {l : List β} {i : Nat} {x y : β} (h : l[i]? = some x) :
    (l.set i y)[i]? = some y :=
  List.getElem?_set_self (List.getElem?_eq_some_iff.mp h).1

namespace Recovering

variable {cfg : HaConfig n} {idx : Fin n} {c : HaRun n μ} {i : Nat} {w' : HaState n}
  {e : Event (HaCmd n μ) HaCmd.Resp} {o : HaSeen n}
  {th th' : Thread (HaOp μ) (HaCmd n μ) HaCmd.Resp (HaAnswer μ)}

theorem other (h : Recovering idx c) (hth : c.threads[i]? = some th)
    (htrace : th'.trace = e :: th.trace) (hm : mark idx e = .other)
    (hstep : w'.breakers idx = c.world.breakers idx) :
    Recovering idx ⟨w', c.threads.set i th', .ran i e o :: c.log⟩ := by
  have howed : owed idx th'.trace = owed idx th.trace := by simp [htrace, owed, hm]
  refine ⟨?_, ?_, ?_⟩
  · simpa [lastFailure, hm, hstep] using h.failed
  · intro hhalf
    rw [hstep] at hhalf
    obtain ⟨j, th₁, hth₁, ho⟩ := h.trial hhalf
    by_cases hj : i = j
    · subst hj
      rw [hth] at hth₁
      cases hth₁
      exact ⟨i, th', getElem?_set_running hth, howed.trans ho⟩
    · exact ⟨j, th₁, (List.getElem?_set_ne hj).trans hth₁, ho⟩
  · intro j th₁ hth₁ ho
    simp only [openCalls, hm]
    rcases Machine.getElem?_set_cases hth hth₁ with ⟨rfl, rfl⟩ | ⟨-, hth₁⟩
    · exact h.pending j th hth (howed.symm.trans ho)
    · exact h.pending j th₁ hth₁ ho

theorem record (h : Recovering idx c) {ok : Bool} (hth : c.threads[i]? = some th)
    (htrace : th'.trace = e :: th.trace) (hm : mark idx e = .record ok)
    (hclock : o.clock = c.world.clock)
    (hstep : w'.breakers idx = (c.world.breakers idx).record c.world.clock ok) :
    Recovering idx ⟨w', c.threads.set i th', .ran i e o :: c.log⟩ := by
  have howed : owed idx th'.trace = false := by simp [htrace, owed, hm]
  refine ⟨?_, ?_, ?_⟩
  · grind [Breaker.record, lastFailure]
  · cases ok <;> simp [hstep, Breaker.record]
  · intro j th₁ hth₁ ho
    simp only [openCalls, hm]
    rcases Machine.getElem?_set_cases hth hth₁ with ⟨rfl, rfl⟩ | ⟨hne, hth₁⟩
    · rw [howed] at ho
      cases ho
    · exact exists_mem_eraseP hne (h.pending j th₁ hth₁ ho)

theorem trial_kept (h : Recovering idx c) (hth : c.threads[i]? = some th)
    (hfree : owed idx th.trace = false) (hhalf : (c.world.breakers idx).state = .halfOpen) :
    ∃ j : Nat, ∃ th₁, (c.threads.set i th')[j]? = some th₁ ∧ owed idx th₁.trace = true := by
  obtain ⟨j, th₁, hth₁, ho⟩ := h.trial hhalf
  have hne : i ≠ j := by
    grind
  exact ⟨j, th₁, (List.getElem?_set_ne hne).trans hth₁, ho⟩

theorem pending_allow (h : Recovering idx c) {direct ok : Bool} (hth : c.threads[i]? = some th)
    (htrace : th'.trace = e :: th.trace) (hm : mark idx e = .allow direct ok) (j : Nat)
    (th₁ : Thread (HaOp μ) (HaCmd n μ) HaCmd.Resp (HaAnswer μ))
    (hth₁ : (c.threads.set i th')[j]? = some th₁) (ho : owed idx th₁.trace = true) :
    ∃ p ∈ openCalls idx (.ran i e o :: c.log), p.1 = j := by
  rcases Machine.getElem?_set_cases hth hth₁ with ⟨rfl, rfl⟩ | ⟨-, hth₁⟩
  · simp_all [owed, openCalls_admitted]
  · grind [pending, openCalls]

theorem allow (h : Recovering idx c) {direct ok : Bool} (hth : c.threads[i]? = some th)
    (htrace : th'.trace = e :: th.trace) (hm : mark idx e = .allow direct ok)
    (hfree : owed idx th.trace = false)
    (hstep : (c.world.breakers idx).allow cfg.cooldown c.world.clock = (w'.breakers idx, ok))
    (hdirect : direct = true → ¬ ((c.world.breakers idx).state = .opened ∧
      cfg.cooldown ≤ c.world.clock - (c.world.breakers idx).openedAt)) :
    Recovering idx ⟨w', c.threads.set i th', .ran i e o :: c.log⟩ := by
  have hfail : lastFailure idx (.ran i e o :: c.log) = lastFailure idx c.log := by
    simp [lastFailure, hm]
  have hpending := h.pending_allow (o := o) hth htrace hm
  rcases Breaker.allow_cases cfg.cooldown c.world.clock (c.world.breakers idx) with
    ⟨hclosed, heq⟩ | ⟨hopen, hcool, heq⟩ | ⟨hhalf, -, heq⟩ | ⟨-, heq⟩
  · obtain ⟨hb, -⟩ := Prod.mk.inj (heq.symm.trans hstep)
    refine ⟨?_, ?_, hpending⟩
    · simp [← hb, hclosed]
    · simp [← hb, hclosed]
  ·
    obtain ⟨hb, rfl⟩ := Prod.mk.inj (heq.symm.trans hstep)
    have hcall : direct = false := by
      by_contra hd
      exact hdirect (by simpa using hd) ⟨hopen, hcool⟩
    have howed : owed idx th'.trace = true := by simp [htrace, owed, hm, hcall]
    refine ⟨fun _ => ?_, fun _ => ⟨i, th', getElem?_set_running hth, howed⟩, hpending⟩
    rw [hfail, ← hb]
    exact h.failed (by simp [hopen])
  · obtain ⟨hb, -⟩ := Prod.mk.inj (heq.symm.trans hstep)
    refine ⟨fun _ => ?_, fun _ => h.trial_kept hth hfree hhalf, hpending⟩
    rw [hfail, ← hb]
    exact h.failed (by simp [hhalf])
  · obtain ⟨hb, -⟩ := Prod.mk.inj (heq.symm.trans hstep)
    refine ⟨?_, ?_, hpending⟩
    · rw [hfail, ← hb]
      exact h.failed
    · rw [← hb]
      exact h.trial_kept hth hfree

end Recovering

theorem HaReach.recovering {cfg : HaConfig n} {idx : Fin n} {c : HaRun n μ}
    (h : HaReach cfg (NoDirectTrial cfg idx) c) : Recovering idx c := by
  obtain ⟨t, h⟩ := h
  refine Machine.Reach.invariant (I := Recovering idx) (G := fun _ => Owes)
    (Q := fun _ t' _ => TrialsSettled t') ?_ ?_ ?_ ?_ ?_ ?_ h
  · exact fun _ op _ => Settles.prog cfg op [] fun _ => rfl
  · exact ⟨fun hne => absurd rfl hne, nofun, nofun⟩
  · intro c op _ _ ih
    refine ⟨ih.failed, fun hhalf => ?_, fun j th hth ho => ?_⟩
    · obtain ⟨j, th, hth, ho⟩ := ih.trial hhalf
      have hlt := (List.getElem?_eq_some_iff.mp hth).1
      exact ⟨j, th, (List.getElem?_append_left hlt).trans hth, ho⟩
    · rcases Machine.getElem?_append_singleton hth with ⟨rfl, rfl⟩ | hth
      · cases ho
      · exact ih.pending j th hth ho
  · intro c i x th m k w' r _ hP ih hth hp howes hexec
    have hstep := (haExec_mark idx hexec).2
    cases hm : mark idx ⟨m, r⟩ with
    | other =>
      rw [hm] at hstep
      exact ih.other hth rfl hm hstep
    | record ok =>
      rw [hm] at hstep
      exact ih.record hth rfl hm rfl hstep
    | allow direct ok =>
      rw [hm] at hstep
      obtain rfl : m = .allow idx direct := cmd_of_mark_allow hm
      have hfree : owed idx th.trace = false := by
        by_contra ho
        exact howes idx (by simpa using ho) direct rfl
      refine ih.allow hth rfl hm hfree hstep ?_
      rintro rfl
      exact hP th k hth hp
  · intro c i th a _ _ ih hth _ _ hsettled
    refine ⟨ih.failed, ih.trial_kept hth (hsettled idx), fun j th₁ hth₁ ho => ?_⟩
    · rcases Machine.getElem?_set_cases hth hth₁ with ⟨rfl, rfl⟩ | ⟨hne, hth₁⟩
      · rw [hsettled idx] at ho
        cases ho
      · exact exists_mem_filter hne (ih.pending j th₁ hth₁ ho)
  · exact fun _ _ _ _ ih => ⟨ih.failed, ih.trial, ih.pending⟩

/-- **breaker は回復する。** -/
theorem breaker_recovers {cfg : HaConfig n} {idx : Fin n} {c : HaRun n μ}
    (h : HaReach cfg (NoDirectTrial cfg idx) c) (hidle : openCalls idx c.log = [])
    (hcool : Cooled cfg idx c.world.clock c.log) :
    ((c.world.breakers idx).allow cfg.cooldown c.world.clock).2 = true := by
  have hinv := h.recovering
  cases hstate : (c.world.breakers idx).state with
  | closed => simp [Breaker.allow, hstate]
  | opened =>
    have := hcool _ (hinv.failed (by simp [hstate]))
    simp [Breaker.allow, hstate, this]
  | halfOpen =>
    grind [Recovering.trial, Recovering.pending]

def noDirectTrialCheck (cfg : HaConfig n) (idx : Fin n) (c : HaRun n μ) : HaMove μ → Bool
  | .run i _ =>
    match (c.threads[i]?).map Thread.prog with
    | some (.cmd (.allow j true) _) => decide (j ≠ idx) ||
        !(decide ((c.world.breakers idx).state = .opened) &&
          decide (cfg.cooldown ≤ c.world.clock - (c.world.breakers idx).openedAt))
    | _ => true
  | _ => true

theorem noDirectTrial_of_check {cfg : HaConfig n} {idx : Fin n} {c : HaRun n μ} {a : HaMove μ}
    (h : noDirectTrialCheck cfg idx c a = true) : NoDirectTrial cfg idx c a := by
  cases a with
  | run i x =>
    intro th k hth hp ⟨hopen, hcool⟩
    simp [noDirectTrialCheck, hth, hp, hopen, hcool] at h
  | _ => trivial

def tripped : List HaLine :=
  [.act (.spawn (.ensureRdmaRegion 0 8)), .solo 0 4, .act (.finish 0),
   .act (.spawn (.getChunksInto "k" "l" 1 0)), .solo 1 7, .act (.finish 1)] ++
  failingGet 2 ++ [coolDown]

theorem breaker_recovers_tripped : ∃ c : HaRun 1 Unit,
    HaReach oneChild (NoDirectTrial oneChild 0) c ∧ (c.world.breakers 0).state = .opened ∧
      ((c.world.breakers 0).allow oneChild.cooldown c.world.clock).2 = true := by
  have hplay : ((playHa (noDirectTrialCheck oneChild 0) tripped).any fun c =>
      decide ((c.world.breakers 0).state = .opened) && decide (openCalls 0 c.log = []) &&
        decide (lastFailure 0 c.log = some 0) && decide (c.world.clock = 5)) = true := by
    decide +kernel
  obtain ⟨c, hc, hcheck⟩ := (Option.any_eq_true _ _).mp hplay
  simp only [Bool.and_eq_true, decide_eq_true_eq] at hcheck
  obtain ⟨⟨⟨hopen, hidle⟩, hlast⟩, hclock⟩ := hcheck
  have hreach : HaReach oneChild (NoDirectTrial oneChild 0) c :=
    ⟨0, (Machine.Reach.play .start hc).mono fun _ _ h => noDirectTrial_of_check h⟩
  have hcool : Cooled oneChild 0 c.world.clock c.log := by
    intro t ht
    rw [hlast] at ht
    cases ht
    simp [hclock, oneChild]
  exact ⟨c, hreach, hopen, breaker_recovers hreach hidle hcool⟩

/-- **breaker は固まる。** -/
theorem breaker_sticks : ∃ c : HaRun 1 Unit,
    HaReach oneChild (fun _ _ => True) c ∧ (∀ th ∈ c.threads, th.finished = true) ∧
      openCalls 0 c.log = [] ∧ Cooled oneChild 0 c.world.clock c.log ∧
      ∀ clock, ((c.world.breakers 0).allow oneChild.cooldown clock).2 = false := by
  have hplay : ((playHa (fun _ _ => true) (tripped ++
      [.act (.spawn (.getChunksInto "k" "l" 1 0)), .solo 3 3, .act (.finish 3)])).any fun c =>
      (c.threads.all fun th => th.finished) && decide (openCalls 0 c.log = []) &&
        decide (lastFailure 0 c.log = some 0) && decide (c.world.clock = 5) &&
        decide (c.world.breakers 0 = ⟨.halfOpen, 0, true⟩)) = true := by
    decide +kernel
  obtain ⟨c, hc, hcheck⟩ := (Option.any_eq_true _ _).mp hplay
  simp only [Bool.and_eq_true, List.all_eq_true, decide_eq_true_eq] at hcheck
  obtain ⟨⟨⟨⟨hfin, hidle⟩, hlast⟩, hclock⟩, hb⟩ := hcheck
  refine ⟨c, ⟨0, (Machine.Reach.play .start hc).mono fun _ _ _ => trivial⟩, hfin, hidle, ?_, ?_⟩
  · intro t ht
    rw [hlast] at ht
    cases ht
    simp [hclock, oneChild]
  · intro clock
    simp [hb, Breaker.allow]

end ContextStore
