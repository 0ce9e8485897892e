import ContextStore.Backend.Breaker

/-!
# breaker の隔離
-/

namespace ContextStore

open Conc

variable {n : Nat} {μ : Type}

/-! ## 隔離 -/

def Spaced (cfg : HaConfig n) (idx : Fin n) (log : HaLog n μ) : Prop :=
  ∀ i e o older direct, .ran i e o :: older <:+ log → mark idx e = .allow direct true →
    Cooled cfg idx o.clock older

def trials (idx : Fin n) (log : HaLog n μ) : List (Nat × Bool) :=
  (openCalls idx log).filter fun p => p.2

def ByTrial (idx : Fin n) (i : Nat) (log : HaLog n μ) : Prop :=
  ∃ p, (openCalls idx log).find? (fun p => p.1 = i) = some p ∧ p.2 = true

def NoLateReport (idx : Fin n) (c : HaRun n μ) : HaMove μ → Prop
  | .run i _ => ∀ th ok k, c.threads[i]? = some th → th.prog = .cmd (.record idx ok) k →
      ByTrial idx i c.log ∨
        cond ok ((c.world.breakers idx).state = .closed) ((c.world.breakers idx).state ≠ .halfOpen)
  | _ => True

structure Isolating (cfg : HaConfig n) (idx : Fin n) (c : HaRun n μ) : Prop where
  failed : (c.world.breakers idx).state ≠ .closed →
    lastFailure idx c.log = some (c.world.breakers idx).openedAt
  cooled : (c.world.breakers idx).state ≠ .opened → Cooled cfg idx c.world.clock c.log
  inflight : (c.world.breakers idx).state = .halfOpen →
    (c.world.breakers idx).trialInflight = true
  single : (trials idx c.log).length ≤ 1
  half : trials idx c.log ≠ [] → (c.world.breakers idx).state = .halfOpen
  spaced : Spaced cfg idx c.log

theorem length_filter_eraseP {calls : List (Nat × Bool)} {i : Nat} {p : Nat × Bool}
    (hfind : calls.find? (fun p => p.1 = i) = some p) (hp : p.2 = true) :
    ((calls.eraseP fun p => p.1 = i).filter fun p => p.2).length + 1 =
      (calls.filter fun p => p.2).length := by
  induction calls with
  | nil => cases hfind
  | cons q calls ih =>
    grind

theorem Spaced.cons {cfg : HaConfig n} {idx : Fin n} {log : HaLog n μ}
    {entry : Entry (HaCmd n μ) HaCmd.Resp (HaSeen n)} (h : Spaced cfg idx log)
    (hnew : ∀ i e o direct, entry = .ran i e o → mark idx e = .allow direct true →
      Cooled cfg idx o.clock log) : Spaced cfg idx (entry :: log) := by
  intro i e o older direct hs hm
  rcases List.suffix_cons_iff.mp hs with heq | hs
  · obtain ⟨rfl, rfl⟩ := List.cons.inj heq
    exact hnew i e o direct rfl hm
  · exact h i e o older direct hs hm

namespace Isolating

variable {cfg : HaConfig n} {idx : Fin n} {c : HaRun n μ} {i : Nat}
  {ths : List (Thread (HaOp μ) (HaCmd n μ) HaCmd.Resp (HaAnswer μ))}

variable {w' : HaState n}

theorem quiet (h : Isolating cfg idx c)
    {entry : Entry (HaCmd n μ) HaCmd.Resp (HaSeen n)}
    (hb : w'.breakers idx = c.world.breakers idx) (hclock : w'.clock = c.world.clock)
    (hfail : lastFailure idx (entry :: c.log) = lastFailure idx c.log)
    (hcalls : (openCalls idx (entry :: c.log)).Sublist (openCalls idx c.log))
    (hnew : ∀ i e o direct, entry = .ran i e o → mark idx e ≠ .allow direct true) :
    Isolating cfg idx ⟨w', ths, entry :: c.log⟩ := by
  have hsub : (trials idx (entry :: c.log)).Sublist (trials idx c.log) := hcalls.filter _
  refine ⟨?_, ?_, ?_, hsub.length_le.trans h.single, ?_, ?_⟩
  · rw [hb, hfail]
    exact h.failed
  · intro hne t ht
    rw [hb] at hne
    rw [hfail] at ht
    rw [hclock]
    exact h.cooled hne t ht
  · rw [hb]
    exact h.inflight
  · intro hne
    rw [hb]
    refine h.half fun hnil => hne ?_
    rw [hnil] at hsub
    exact List.sublist_nil.mp hsub
  · exact h.spaced.cons fun i e o direct he hm => absurd hm (hnew i e o direct he)

theorem allow (h : Isolating cfg idx c) {e : Event (HaCmd n μ) HaCmd.Resp}
    {o : HaSeen n} {direct ok : Bool} (hm : mark idx e = .allow direct ok)
    (hclock : w'.clock = c.world.clock) (hoclock : o.clock = c.world.clock)
    (hbefore : o.before idx = (c.world.breakers idx).state)
    (hstep : (c.world.breakers idx).allow cfg.cooldown c.world.clock = (w'.breakers idx, ok)) :
    Isolating cfg idx ⟨w', ths, .ran i e o :: c.log⟩ := by
  have hfail : lastFailure idx (.ran i e o :: c.log) = lastFailure idx c.log := by
    simp [lastFailure, hm]
  have hspaced : Cooled cfg idx c.world.clock c.log → Spaced cfg idx (.ran i e o :: c.log) := by
    grind [Spaced.cons, spaced]
  rcases Breaker.allow_cases cfg.cooldown c.world.clock (c.world.breakers idx) with
    ⟨hclosed, heq⟩ | ⟨hopen, hcool, heq⟩ | ⟨hhalf, hfree, -⟩ | ⟨-, heq⟩
  · obtain ⟨hb, rfl⟩ := Prod.mk.inj (heq.symm.trans hstep)
    have hcooled := h.cooled (by simp [hclosed])
    have htrials : trials idx (.ran i e o :: c.log) = trials idx c.log := by
      simp [trials, openCalls, hm, hbefore, hclosed]
    refine ⟨by simp [← hb, hclosed], fun _ t ht => ?_, by simp [← hb, hclosed], ?_, ?_,
      hspaced hcooled⟩
    · rw [hclock]
      exact hcooled t (hfail ▸ ht)
    · rw [htrials]
      exact h.single
    · rw [htrials, ← hb]
      exact h.half
  · obtain ⟨hb, rfl⟩ := Prod.mk.inj (heq.symm.trans hstep)
    have hlast := h.failed (by simp [hopen])
    have hcooled : Cooled cfg idx c.world.clock c.log := by
      intro t ht
      rw [hlast] at ht
      cases ht
      exact hcool
    have hnone : trials idx c.log = [] := by
      by_contra hne
      have := h.half hne
      rw [hopen] at this
      cases this
    have htrials : trials idx (.ran i e o :: c.log) = [(i, true)] := by
      rw [trials, openCalls_admitted hm, hbefore, hopen]
      simpa [trials] using hnone
    refine ⟨fun _ => ?_, fun _ t ht => ?_, by simp [← hb], by simp [htrials], by simp [← hb],
      hspaced hcooled⟩
    · rw [hfail, hlast, ← hb]
    · rw [hclock]
      exact hcooled t (hfail ▸ ht)
  ·
    rw [h.inflight hhalf] at hfree
    cases hfree
  · obtain ⟨hb, rfl⟩ := Prod.mk.inj (heq.symm.trans hstep)
    refine h.quiet hb.symm hclock hfail (by simp [openCalls, hm]) ?_
    intro _ _ _ _ heq hm'
    cases heq
    rw [hm] at hm'
    cases hm'

theorem record (h : Isolating cfg idx c) {e : Event (HaCmd n μ) HaCmd.Resp}
    {o : HaSeen n} {ok : Bool} (hm : mark idx e = .record ok) (hclock : w'.clock = c.world.clock)
    (hoclock : o.clock = c.world.clock)
    (hstep : w'.breakers idx = (c.world.breakers idx).record c.world.clock ok)
    (htimely : ByTrial idx i c.log ∨
      cond ok ((c.world.breakers idx).state = .closed) ((c.world.breakers idx).state ≠ .halfOpen)) :
    Isolating cfg idx ⟨w', ths, .ran i e o :: c.log⟩ := by
  have hnone : trials idx (.ran i e o :: c.log) = [] := by
    simp only [trials, openCalls, hm]
    rcases htimely with ⟨p, hfind, hp⟩ | hstate
    · have hlen := length_filter_eraseP hfind hp
      have hsingle := h.single
      unfold trials at hsingle
      exact List.length_eq_zero_iff.mp (by omega)
    · have hempty : trials idx c.log = [] := by
        by_contra hne
        have hhalf := h.half hne
        cases ok <;> simp [hhalf] at hstate
      have hsub := (List.eraseP_sublist (l := openCalls idx c.log)
        (p := fun p => p.1 = i)).filter fun p => p.2
      unfold trials at hempty
      rw [hempty] at hsub
      exact List.sublist_nil.mp hsub
  have hspaced : Spaced cfg idx (.ran i e o :: c.log) := by
    refine h.spaced.cons fun _ _ _ _ heq hm' => ?_
    cases heq
    rw [hm] at hm'
    cases hm'
  cases ok with
  | false =>
    refine ⟨fun _ => ?_, by simp [hstep, Breaker.record], by simp [hstep, Breaker.record],
      by simp [hnone], fun hne => absurd hnone hne, hspaced⟩
    simp [lastFailure, hm, hstep, Breaker.record, hoclock]
  | true =>
    have hcooled : Cooled cfg idx c.world.clock c.log := by
      refine h.cooled fun hopen => ?_
      rcases htimely with ⟨p, hfind, hp⟩ | hclosed
      · have hmem : p ∈ trials idx c.log :=
          List.mem_filter.mpr ⟨List.mem_of_find?_eq_some hfind, hp⟩
        grind [half]
      · simp [hopen] at hclosed
    refine ⟨by simp [hstep, Breaker.record], fun _ t ht => ?_, by simp [hstep, Breaker.record],
      by simp [hnone], fun hne => absurd hnone hne, hspaced⟩
    rw [hclock]
    exact hcooled t (by simpa [lastFailure, hm] using ht)

end Isolating

theorem HaReach.isolating {cfg : HaConfig n} {idx : Fin n} {c : HaRun n μ}
    (h : HaReach cfg (NoLateReport idx) c) : Isolating cfg idx c := by
  obtain ⟨t, h⟩ := h
  refine Machine.Reach.induct (I := Isolating cfg idx) ?_ ?_ ?_ ?_ ?_ h
  · refine ⟨fun hne => absurd rfl hne, fun _ => nofun, nofun, Nat.zero_le 1,
      fun hne => absurd rfl hne, ?_⟩
    intro i e o older direct hs
    cases List.suffix_nil.mp hs
  · exact fun c op _ _ ih => ih.quiet rfl rfl rfl (List.Sublist.refl _) (by rintro _ _ _ _ ⟨⟩)
  · intro c i x th m k w' r _ hP ih hth hp hexec
    obtain ⟨hclock, hstep⟩ := haExec_mark idx hexec
    cases hm : mark idx ⟨m, r⟩ with
    | allow direct ok =>
      rw [hm] at hstep
      exact ih.allow hm hclock rfl rfl hstep
    | record ok =>
      rw [hm] at hstep
      obtain rfl : m = .record idx ok := cmd_of_mark_record hm
      exact ih.record hm hclock rfl hstep (hP th ok k hth hp)
    | other =>
      rw [hm] at hstep
      refine ih.quiet hstep hclock (by simp [lastFailure, hm]) (by simp [openCalls, hm]) ?_
      intro _ _ _ _ heq hm'
      cases heq
      rw [hm] at hm'
      cases hm'
  · exact fun c i th a _ _ ih _ _ _ => ih.quiet rfl rfl rfl List.filter_sublist
      (by rintro _ _ _ _ ⟨⟩)
  · intro c d _ _ ih
    refine ⟨ih.failed, fun hne => (ih.cooled hne).later ?_, ih.inflight, ih.single, ih.half,
      ih.spaced⟩
    have hd : (0 : ℚ) ≤ d.1 := d.2
    simp only [haMachine]
    linarith

/-- **breaker は失敗した child を隔離する。** -/
theorem breaker_isolates {cfg : HaConfig n} {idx : Fin n} {c : HaRun n μ}
    (h : HaReach cfg (NoLateReport idx) c) :
    Spaced cfg idx c.log ∧ (trials idx c.log).length ≤ 1 :=
  ⟨h.isolating.spaced, h.isolating.single⟩

def noLateReportCheck (idx : Fin n) (c : HaRun n μ) : HaMove μ → Bool
  | .run i _ =>
    match (c.threads[i]?).map Thread.prog with
    | some (.cmd (.record j ok) _) => decide (j ≠ idx) ||
        (((openCalls idx c.log).find? fun p => p.1 = i).any fun p => p.2) ||
        cond ok (decide ((c.world.breakers idx).state = .closed))
          (decide ((c.world.breakers idx).state ≠ .halfOpen))
    | _ => true
  | _ => true

theorem timely_of_check {idx : Fin n} {c : HaRun n μ} {a : HaMove μ}
    (h : noLateReportCheck idx c a = true) : NoLateReport idx c a := by
  cases a with
  | run i x =>
    intro th ok k hth hp
    simp only [noLateReportCheck, hth, hp, Option.map_some, Bool.or_eq_true,
      decide_eq_true_eq, ne_eq,
      not_true, false_or] at h
    rcases h with h | h
    · obtain ⟨p, hfind, hp⟩ := (Option.any_eq_true _ _).mp h
      exact .inl ⟨p, hfind, hp⟩
    · refine .inr ?_
      cases ok <;> simpa using h
  | _ => trivial

def trialRunning : List HaLine :=
  failingGet 0 ++ [coolDown, .act (.spawn (.get "k" "l")), .solo 1 1,
    .act (.spawn (.get "k" "l")), .solo 2 1]

theorem breaker_isolates_trial : ∃ c : HaRun 1 Unit,
    HaReach oneChild (NoLateReport 0) c ∧ (trials 0 c.log).length = 1 ∧
      (Spaced oneChild 0 c.log ∧ (trials 0 c.log).length ≤ 1) := by
  have hplay : ((playHa (noLateReportCheck 0) trialRunning).any fun c =>
      decide ((trials 0 c.log).length = 1)) = true := by
    decide +kernel
  obtain ⟨c, hc, hcheck⟩ := (Option.any_eq_true _ _).mp hplay
  have hreach : HaReach oneChild (NoLateReport 0) c :=
    ⟨0, (Machine.Reach.play .start hc).mono fun _ _ h => timely_of_check h⟩
  exact ⟨c, hreach, of_decide_eq_true hcheck, breaker_isolates hreach⟩

def admittedGets (i : Nat) : List HaLine :=
  (List.range i).flatMap fun j => [.act (.spawn (.get "k" "l")), .solo j 1]

def failureOf (i : Nat) : List HaLine := [.act (.run i replyFail), .solo i 1]

def hasty : HaLog 1 Unit → Bool
  | .ran _ e o :: older => decide (mark 0 e = .allow false true) &&
      decide (lastFailure 0 older = some o.clock)
  | _ => false

theorem not_spaced_of_hasty {log : HaLog 1 Unit} (h : hasty log = true) :
    ¬ Spaced oneChild 0 log := by
  intro hspaced
  unfold hasty at h
  split at h
  · next i e o older =>
    simp only [Bool.and_eq_true, decide_eq_true_eq] at h
    have hcool := hspaced i e o older false (List.suffix_refl _) h.1 o.clock h.2
    simp only [oneChild, sub_self] at hcool
    exact absurd hcool (by decide)
  · cases h

/-- **遅い報告は隔離を破る。** -/
theorem breaker_leaks :
    (∃ c : HaRun 1 Unit, HaReach oneChild (fun _ _ => True) c ∧ ¬ Spaced oneChild 0 c.log) ∧
      ∃ c : HaRun 1 Unit, HaReach oneChild (fun _ _ => True) c ∧ (trials 0 c.log).length = 2 := by
  constructor
  · have hplay : ((playHa (fun _ _ => true) (admittedGets 2 ++ failureOf 0 ++
        [.solo 1 2, .act (.spawn (.get "k" "l")), .solo 2 1])).any fun c =>
          hasty c.log) = true := by
      decide +kernel
    obtain ⟨c, hc, hcheck⟩ := (Option.any_eq_true _ _).mp hplay
    exact ⟨c, ⟨0, (Machine.Reach.play .start hc).mono fun _ _ _ => trivial⟩,
      not_spaced_of_hasty hcheck⟩
  · have hplay : ((playHa (fun _ _ => true) (admittedGets 2 ++ failureOf 0 ++
        [coolDown, .act (.spawn (.get "k" "l")), .solo 2 1] ++ failureOf 1 ++
        [coolDown, .act (.spawn (.get "k" "l")), .solo 3 1])).any fun c =>
          decide ((trials 0 c.log).length = 2)) = true := by
      decide +kernel
    obtain ⟨c, hc, hcheck⟩ := (Option.any_eq_true _ _).mp hplay
    exact ⟨c, ⟨0, (Machine.Reach.play .start hc).mono fun _ _ _ => trivial⟩,
      of_decide_eq_true hcheck⟩

end ContextStore
