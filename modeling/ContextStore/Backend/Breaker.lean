import ContextStore.Backend.HaKvService

/-!
# 1 つの breaker から見た記録

呼び出しの記録のうち、1 つの child の breaker に関わる部分だけを取り出す。
-/

namespace ContextStore

open Conc

variable {n : Nat} {μ : Type}

inductive Mark where
  | allow (direct ok : Bool)
  | record (ok : Bool)
  | other
deriving DecidableEq

def mark (idx : Fin n) : Event (HaCmd n μ) HaCmd.Resp → Mark
  | ⟨.allow j direct, ok⟩ => if j = idx then .allow direct ok else .other
  | ⟨.record j ok, _⟩ => if j = idx then .record ok else .other
  | _ => .other

variable {e : Event (HaCmd n μ) HaCmd.Resp} {idx : Fin n}

theorem cmd_of_mark_allow {direct ok : Bool}
    (h : mark idx e = .allow direct ok) : e.1 = .allow idx direct := by
  obtain ⟨m, r⟩ := e
  cases m with
  | allow j d =>
    by_cases hj : j = idx
    · simp only [mark, hj, if_true, Mark.allow.injEq] at h
      rw [hj, h.1]
    · simp [mark, hj] at h
  | record j b => by_cases hj : j = idx <;> simp [mark, hj] at h
  | _ => cases h

theorem cmd_of_mark_record {ok : Bool}
    (h : mark idx e = .record ok) : e.1 = .record idx ok := by
  obtain ⟨m, r⟩ := e
  cases m with
  | allow j d => by_cases hj : j = idx <;> simp [mark, hj] at h
  | record j b =>
    by_cases hj : j = idx
    · simp only [mark, hj, if_true, Mark.record.injEq] at h
      rw [hj, h]
    · simp [mark, hj] at h
  | _ => cases h

def lastFailure (idx : Fin n) : HaLog n μ → Option ℚ
  | [] => none
  | .ran _ e o :: log =>
    match mark idx e with
    | .record false => some o.clock
    | _ => lastFailure idx log
  | _ :: log => lastFailure idx log

def openCalls (idx : Fin n) : HaLog n μ → List (Nat × Bool)
  | [] => []
  | .ran i e o :: log =>
    match mark idx e with
    | .allow _ true => (i, decide (o.before idx ≠ .closed)) :: openCalls idx log
    | .record _ => (openCalls idx log).eraseP fun p => p.1 = i
    | _ => openCalls idx log
  | .finished i :: log => (openCalls idx log).filter fun p => p.1 ≠ i
  | .spawned _ :: log => openCalls idx log

theorem openCalls_admitted {i : Nat} {o : HaSeen n}
    {log : HaLog n μ} {direct : Bool} (hm : mark idx e = .allow direct true) :
    openCalls idx (.ran i e o :: log) =
      (i, decide (o.before idx ≠ .closed)) :: openCalls idx log := by
  simp [openCalls, hm]

def Cooled (cfg : HaConfig n) (idx : Fin n) (clock : ℚ) (log : HaLog n μ) : Prop :=
  ∀ t, lastFailure idx log = some t → cfg.cooldown ≤ clock - t

theorem Cooled.later {cfg : HaConfig n} {clock clock' : ℚ} {log : HaLog n μ}
    (h : Cooled cfg idx clock log) (hle : clock ≤ clock') : Cooled cfg idx clock' log := by
  intro t ht
  have := h t ht
  linarith

theorem Breaker.allow_cases (cooldown clock : ℚ) (b : Breaker) :
    (b.state = .closed ∧ b.allow cooldown clock = (b, true)) ∨
    (b.state = .opened ∧ cooldown ≤ clock - b.openedAt ∧
      b.allow cooldown clock = (⟨.halfOpen, b.openedAt, true⟩, true)) ∨
    (b.state = .halfOpen ∧ b.trialInflight = false ∧
      b.allow cooldown clock = (⟨.halfOpen, b.openedAt, true⟩, true)) ∨
    (b.state ≠ .closed ∧ b.allow cooldown clock = (b, false)) := by
  obtain ⟨state, openedAt, trial⟩ := b
  cases state with
  | closed => exact .inl ⟨rfl, rfl⟩
  | opened =>
    by_cases hcool : cooldown ≤ clock - openedAt
    · exact .inr (.inl ⟨rfl, hcool, by simp [allow, hcool]⟩)
    · exact .inr (.inr (.inr ⟨by simp, by simp [allow, hcool]⟩))
  | halfOpen =>
    cases trial with
    | false => exact .inr (.inr (.inl ⟨rfl, rfl, rfl⟩))
    | true => exact .inr (.inr (.inr ⟨by simp, rfl⟩))

theorem haExec_mark {cfg : HaConfig n} (idx : Fin n) {m : HaCmd n μ} {x : ChildReplies μ}
    {w w' : HaState n} {r : m.Resp} (h : haExec cfg m x w = some (w', r)) :
    w'.clock = w.clock ∧
      match mark idx ⟨m, r⟩ with
      | .allow _ ok => (w.breakers idx).allow cfg.cooldown w.clock = (w'.breakers idx, ok)
      | .record ok => w'.breakers idx = (w.breakers idx).record w.clock ok
      | .other => w'.breakers idx = w.breakers idx := by
  cases m with
  | allow j direct =>
    simp only [haExec, Option.some.injEq, Prod.mk.injEq] at h
    obtain ⟨rfl, rfl⟩ := h
    by_cases hj : j = idx
    · subst hj; simp [mark]
    · simp [mark, hj, Function.update_of_ne (Ne.symm hj)]
  | record j ok =>
    cases h
    by_cases hj : j = idx
    · subst hj; simp [mark]
    · simp [mark, hj, Function.update_of_ne (Ne.symm hj)]
  | assignRegion ptr size =>
    simp only [haExec, Option.some.injEq, HaState.assign] at h
    split at h <;> cases h <;> exact ⟨rfl, rfl⟩
  | child j c => cases h; exact ⟨rfl, rfl⟩
  | lookupRegion haId => cases h; exact ⟨rfl, rfl⟩

def oneChild : HaConfig 1 :=
  ⟨Nat.one_pos, 5, fun _ => 0, fun _ => true, fun _ => true, fun _ => true⟩

def replyOk : ChildReplies Unit
  | .put _ _ _ _ => .ok ()
  | .get _ _ => .ok none
  | .exists _ => .ok true
  | .delete _ => .ok ()
  | .getMeta _ => .ok none
  | .capacityUsage => .ok none
  | .listKeys => .ok none
  | .getParallel _ _ => .ok none
  | .putChunks _ _ _ _ => .ok ()
  | .getChunks _ _ => .ok none
  | .probeLayerExists _ _ => .ok true
  | .ensureRdmaRegion _ _ => .ok (some 7)
  | .getChunksInto _ _ _ _ => .ok none
  | .putChunksFrom _ _ _ _ _ => .ok false

def replyFail : ChildReplies Unit := fun _ => .error "unavailable"

abbrev HaLine := Machine.Line (HaOp Unit) (ChildReplies Unit) {d : ℚ // 0 ≤ d}

def playHa (ok : HaRun 1 Unit → HaMove Unit → Bool) (lines : List HaLine) :
    Option (HaRun 1 Unit) :=
  (haMachine Unit oneChild).play (HaOp.prog oneChild) ok (fun _ => replyOk) lines
    (Machine.start (HaState.init 1 0))

def failingGet (i : Nat) : List HaLine :=
  [.act (.spawn (.get "k" "l")), .solo i 1, .act (.run i replyFail), .solo i 1, .act (.finish i)]

def coolDown : HaLine := .act (.env ⟨5, by decide⟩)

end ContextStore
