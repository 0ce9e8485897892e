import ContextStore.Conc.Transition
import Mathlib.Algebra.Order.Ring.Nat
import Mathlib.Logic.Function.Basic
import Mathlib.Logic.Relation

/-!
# 先読みする配送

番号の付いた仕事を、`window` 個まで先に始め、番号の順に結果を channel に流す系。
-/

namespace Conc.ReadAhead

structure Job (α β ε : Type) where
  count : ℕ
  window : ℕ
  room : ℕ
  outcome : ℕ → Except ε α
  emit : ℕ → α → List β

inductive Phase (β ε : Type) where
  | idle
  | waiting (i : ℕ)
  | sending (out : List β)
  | failing (e : ε)
  | ended

structure State (β ε : Type) where
  pending : List ℕ
  nextRead : ℕ
  nextSend : ℕ
  completed : ℕ → Bool
  phase : Phase β ε
  channel : List (Except ε β)
  received : List (Except ε β)
  connected : Bool

inductive Event where
  | complete (i : ℕ)
  | run
  | receive
  | hangup

variable {α β ε : Type}

def post (room : ℕ) (s : State β ε) (item : Except ε β) (next : Phase β ε) : Option (State β ε) :=
  if s.connected then
    if s.channel.length < room then
      some { s with channel := s.channel ++ [item], phase := next }
    else none
  else some { s with phase := .ended }

def run (J : Job α β ε) (s : State β ε) : Option (State β ε) :=
  match s.phase with
  | .idle =>
    if s.nextSend < J.count then
      if s.nextRead < J.count ∧ s.pending.length < J.window then
        some { s with pending := s.pending ++ [s.nextRead], nextRead := s.nextRead + 1 }
      else
        match s.pending with
        | [] => some { s with phase := .ended }
        | i :: rest => some { s with pending := rest, phase := .waiting i }
    else some { s with phase := .ended }
  | .waiting i =>
    if s.completed i then
      match J.outcome i with
      | .ok v => some { s with phase := .sending (J.emit s.nextSend v) }
      | .error e => some { s with phase := .failing e }
    else none
  | .sending [] => some { s with nextSend := s.nextSend + 1, phase := .idle }
  | .sending (b :: out) => post J.room s (.ok b) (.sending out)
  | .failing e => post J.room s (.error e) .ended
  | .ended => none

def step (J : Job α β ε) (s : State β ε) : Event → Option (State β ε)
  | .complete i =>
    if i < s.nextRead ∧ s.completed i = false then
      some { s with completed := Function.update s.completed i true }
    else none
  | .run => run J s
  | .receive =>
    match s.channel with
    | [] => none
    | c :: rest => some { s with channel := rest, received := s.received ++ [c] }
  | .hangup => if s.connected then some { s with connected := false, channel := [] } else none

def system (J : Job α β ε) : Transition (State β ε) Event where
  start := ⟨[], 0, 0, fun _ => false, .idle, [], [], true⟩
  step := step J

def Stays (_ : State β ε) (e : Event) : Prop := e ≠ .hangup

def Quiet (J : Job α β ε) (s : State β ε) : Prop := ∀ e, e ≠ .hangup → step J s e = none

inductive Ran (J : Job α β ε) (s : State β ε) : State β ε → Prop where
  | start (hp : s.phase = .idle) (hsend : s.nextSend < J.count) (hread : s.nextRead < J.count)
      (hwindow : s.pending.length < J.window) :
      Ran J s { s with pending := s.pending ++ [s.nextRead], nextRead := s.nextRead + 1 }
  | take {i : ℕ} {rest : List ℕ} (hp : s.phase = .idle) (hsend : s.nextSend < J.count)
      (hpending : s.pending = i :: rest) :
      Ran J s { s with pending := rest, phase := .waiting i }
  | dry (hp : s.phase = .idle) (hsend : s.nextSend < J.count)
      (hfull : ¬ (s.nextRead < J.count ∧ s.pending.length < J.window)) (hpending : s.pending = []) :
      Ran J s { s with phase := .ended }
  | finish (hp : s.phase = .idle) (hsend : ¬ s.nextSend < J.count) :
      Ran J s { s with phase := .ended }
  | value {i : ℕ} {v : α} (hp : s.phase = .waiting i) (hv : J.outcome i = .ok v) :
      Ran J s { s with phase := .sending (J.emit s.nextSend v) }
  | fault {i : ℕ} {e : ε} (hp : s.phase = .waiting i) (he : J.outcome i = .error e) :
      Ran J s { s with phase := .failing e }
  | next (hp : s.phase = .sending []) :
      Ran J s { s with nextSend := s.nextSend + 1, phase := .idle }
  | put {b : β} {out : List β} (hp : s.phase = .sending (b :: out)) (hc : s.connected = true) :
      Ran J s { s with channel := s.channel ++ [.ok b], phase := .sending out }
  | report {e : ε} (hp : s.phase = .failing e) (hc : s.connected = true) :
      Ran J s { s with channel := s.channel ++ [.error e], phase := .ended }
  | leave (hp : s.phase ≠ .ended) (hc : s.connected = false) : Ran J s { s with phase := .ended }

variable {s s' : State β ε}

theorem ran_of_run {J : Job α β ε} (h : run J s = some s') : Ran J s s' := by
  unfold run at h
  split at h
  next hp =>
    split at h
    next hsend =>
      split at h
      next hmore =>
        cases h
        exact .start hp hsend hmore.1 hmore.2
      next hfull =>
        split at h
        next hpending =>
          cases h
          exact .dry hp hsend hfull hpending
        next hpending =>
          cases h
          exact .take hp hsend hpending
    next hsend =>
      cases h
      exact .finish hp hsend
  next hp =>
    split at h
    next =>
      split at h
      next hv =>
        cases h
        exact .value hp hv
      next he =>
        cases h
        exact .fault hp he
    next => cases h
  next hp =>
    cases h
    exact .next hp
  next hp =>
    unfold post at h
    split at h
    next hc =>
      split at h
      · cases h
        exact .put hp hc
      · cases h
    next hc =>
      cases h
      exact .leave (by simp [hp]) (by simpa using hc)
  next hp =>
    unfold post at h
    split at h
    next hc =>
      split at h
      · cases h
        exact .report hp hc
      · cases h
    next hc =>
      cases h
      exact .leave (by simp [hp]) (by simpa using hc)
  next => cases h

theorem step_complete {J : Job α β ε} {i : ℕ} :
    step J s (.complete i) = some s' ↔ (i < s.nextRead ∧ s.completed i = false) ∧
      { s with completed := Function.update s.completed i true } = s' := by
  simp [step]

theorem step_receive {J : Job α β ε} :
    step J s .receive = some s' ↔ ∃ c rest, s.channel = c :: rest ∧
      { s with channel := rest, received := s.received ++ [c] } = s' := by
  unfold step
  cases s.channel <;> simp

theorem step_hangup {J : Job α β ε} :
    step J s .hangup = some s' ↔ s.connected = true ∧
      { s with connected := false, channel := [] } = s' := by
  simp [step]

/-! ## 順に並ぶ -/

section Ordered

variable {J : Job α β ε} {value : ℕ → α}

def outputs (J : Job α β ε) (value : ℕ → α) (n : ℕ) : List (Except ε β) :=
  ((List.range n).flatMap fun i => J.emit i (value i)).map .ok

theorem outputs_succ (J : Job α β ε) (value : ℕ → α) (n : ℕ) :
    outputs J value (n + 1) = outputs J value n ++ (J.emit n (value n)).map .ok := by
  simp [outputs, List.range_succ]

theorem outputs_le (J : Job α β ε) (value : ℕ → α) {m n : ℕ} (h : m ≤ n) :
    ∃ rest, outputs J value n = outputs J value m ++ rest := by
  induction n, h using Nat.le_induction with
  | base => exact ⟨[], (List.append_nil _).symm⟩
  | succ n _ ih =>
    grind [outputs_succ]

def Queued (J : Job α β ε) (s : State β ε) : Prop :=
  match s.phase with
  | .idle => s.nextSend ≤ s.nextRead ∧
      s.pending = List.range' s.nextSend (s.nextRead - s.nextSend)
  | .waiting i => i = s.nextSend ∧ s.nextSend < s.nextRead ∧
      s.pending = List.range' (s.nextSend + 1) (s.nextRead - (s.nextSend + 1))
  | .sending _ => s.nextSend < s.nextRead ∧
      s.pending = List.range' (s.nextSend + 1) (s.nextRead - (s.nextSend + 1))
  | .failing _ => False
  | .ended => s.connected = true → s.nextSend = J.count

def Flowed (J : Job α β ε) (value : ℕ → α) (s : State β ε) : Prop :=
  match s.phase with
  | .sending out => s.received ++ s.channel ++ out.map .ok = outputs J value (s.nextSend + 1)
  | _ => s.received ++ s.channel = outputs J value s.nextSend

structure Ordered (J : Job α β ε) (value : ℕ → α) (s : State β ε) : Prop where
  bound : s.nextRead ≤ J.count
  queued : Queued J s
  flowed : s.connected = true → Flowed J value s
  received : ∃ rest, outputs J value J.count = s.received ++ rest
  silent : s.connected = false → s.channel = []

theorem ordered_start (J : Job α β ε) (value : ℕ → α) : Ordered J value (system J).start where
  bound := Nat.zero_le _
  queued := ⟨le_rfl, rfl⟩
  flowed := fun _ => rfl
  received := ⟨_, rfl⟩
  silent := fun h => by cases h

variable {s : State β ε}

theorem Ordered.sent_le (h : Ordered J value s) (hc : s.connected = true) :
    s.nextSend ≤ J.count := by
  have hq := h.queued
  have hb := h.bound
  unfold Queued at hq
  grind

theorem Ordered.flowed_le (h : Ordered J value s) (hc : s.connected = true) :
    ∃ rest, outputs J value J.count = s.received ++ s.channel ++ rest := by
  have hf := h.flowed hc
  have hq := h.queued
  unfold Flowed at hf
  split at hf
  next out hp =>
    unfold Queued at hq
    rw [hp] at hq
    obtain ⟨rest, hrest⟩ := outputs_le J value
      (show s.nextSend + 1 ≤ J.count from hq.1.trans_le h.bound)
    exact ⟨out.map .ok ++ rest, by rw [hrest, ← hf, List.append_assoc]⟩
  next =>
    obtain ⟨rest, hrest⟩ := outputs_le J value (h.sent_le hc)
    exact ⟨rest, by rw [hrest, hf]⟩

theorem Ordered.ran {s s' : State β ε} (h : Ordered J value s) (hwindow : 0 < J.window)
    (hok : ∀ i < J.count, J.outcome i = .ok (value i)) (hr : Ran J s s') : Ordered J value s' := by
  obtain ⟨pending, nextRead, nextSend, completed, phase, channel, received, connected⟩ := s
  obtain ⟨hbound, hqueued, hflowed, hreceived, hsilent⟩ := h
  cases hr with
  | start hp hsend hread hwin =>
    dsimp only at hp hsend hread hwin
    subst hp
    obtain ⟨hle, hpending⟩ : nextSend ≤ nextRead ∧
      pending = List.range' nextSend (nextRead - nextSend) := hqueued
    refine ⟨hread, ⟨Nat.le_succ_of_le hle, ?_⟩, hflowed, hreceived, hsilent⟩
    simp_all [Nat.succ_sub, List.range'_1_concat]
  | @take i rest hp hsend hpending =>
    dsimp only at hp hsend hpending
    subst hp
    obtain ⟨hle, hqueue⟩ : nextSend ≤ nextRead ∧
      pending = List.range' nextSend (nextRead - nextSend) := hqueued
    have hlt : nextSend < nextRead := by
      by_contra hge
      simp_all
    have hsucc : nextRead - nextSend = nextRead - (nextSend + 1) + 1 := by omega
    rw [hqueue, hsucc, List.range'_succ] at hpending
    obtain ⟨rfl, rfl⟩ := List.cons.inj hpending
    exact ⟨hbound, ⟨rfl, hlt, rfl⟩, hflowed, hreceived, hsilent⟩
  | dry hp hsend hfull hpending =>
    dsimp only at hp hsend hfull hpending
    subst hp
    obtain ⟨hle, hqueue⟩ : nextSend ≤ nextRead ∧
      pending = List.range' nextSend (nextRead - nextSend) := hqueued
    grind
  | finish hp hsend =>
    dsimp only at hp hsend
    subst hp
    obtain ⟨hle, -⟩ : nextSend ≤ nextRead ∧
      pending = List.range' nextSend (nextRead - nextSend) := hqueued
    have hbound' : nextRead ≤ J.count := hbound
    exact ⟨hbound, fun _ => by dsimp only; omega, hflowed, hreceived, hsilent⟩
  | @value i v hp hv =>
    dsimp only at hp hv
    subst hp
    obtain ⟨rfl, hlt, hqueue⟩ : i = nextSend ∧ nextSend < nextRead ∧
      pending = List.range' (nextSend + 1) (nextRead - (nextSend + 1)) := hqueued
    obtain rfl : v = value i := by
      rw [hok i (hlt.trans_le hbound)] at hv
      exact (Except.ok.inj hv).symm
    refine ⟨hbound, ⟨hlt, hqueue⟩, fun hc => ?_, hreceived, hsilent⟩
    have hf : received ++ channel = outputs J value i := hflowed hc
    show received ++ channel ++ (J.emit i (value i)).map .ok = outputs J value (i + 1)
    rw [hf, outputs_succ]
  | @fault i e hp he =>
    dsimp only at hp he
    subst hp
    obtain ⟨rfl, hlt, -⟩ : i = nextSend ∧ nextSend < nextRead ∧
      pending = List.range' (nextSend + 1) (nextRead - (nextSend + 1)) := hqueued
    rw [hok i (hlt.trans_le hbound)] at he
    cases he
  | next hp =>
    dsimp only at hp
    subst hp
    obtain ⟨hlt, hqueue⟩ : nextSend < nextRead ∧
      pending = List.range' (nextSend + 1) (nextRead - (nextSend + 1)) := hqueued
    refine ⟨hbound, ⟨hlt, hqueue⟩, fun hc => ?_, hreceived, hsilent⟩
    have hf : received ++ channel ++ [] = outputs J value (nextSend + 1) := hflowed hc
    rwa [List.append_nil] at hf
  | @put b out hp hc =>
    dsimp only at hp hc
    subst hp hc
    refine ⟨hbound, hqueued, fun hc => ?_, hreceived, fun hc => by cases hc⟩
    have hf : received ++ channel ++ (b :: out).map .ok = outputs J value (nextSend + 1) :=
      hflowed hc
    show received ++ (channel ++ [.ok b]) ++ out.map .ok = outputs J value (nextSend + 1)
    rw [← hf]
    simp
  | @report e hp hc =>
    dsimp only at hp
    subst hp
    exact hqueued.elim
  | leave hp hc =>
    dsimp only at hc
    subst hc
    exact ⟨hbound, fun hc => (by cases hc), fun hc => (by cases hc), hreceived, hsilent⟩

theorem Ordered.step {s s' : State β ε} {e : Event} (h : Ordered J value s) (hwindow : 0 < J.window)
    (hok : ∀ i < J.count, J.outcome i = .ok (value i)) (hs : step J s e = some s') :
    Ordered J value s' := by
  cases e with
  | complete i =>
    obtain ⟨-, rfl⟩ := step_complete.mp hs
    exact ⟨h.bound, h.queued, h.flowed, h.received, h.silent⟩
  | run => exact h.ran hwindow hok (ran_of_run hs)
  | receive =>
    obtain ⟨c, rest, hchannel, rfl⟩ := step_receive.mp hs
    have hc : s.connected = true := by
      by_contra hc
      rw [h.silent (by simpa using hc)] at hchannel
      cases hchannel
    have hshift : s.received ++ [c] ++ rest = s.received ++ s.channel := by
      rw [hchannel, List.append_assoc, List.singleton_append]
    refine ⟨h.bound, h.queued, fun hc => ?_, ?_, fun hno => ?_⟩
    · have hf := h.flowed hc
      unfold Flowed at hf ⊢
      dsimp only
      rw [hshift]
      exact hf
    · obtain ⟨rest', hrest'⟩ := h.flowed_le hc
      exact ⟨rest ++ rest', by rw [hrest', ← hshift, List.append_assoc]⟩
    · exact (Bool.false_ne_true (hno.symm.trans hc)).elim
  | hangup =>
    obtain ⟨-, rfl⟩ := step_hangup.mp hs
    refine ⟨h.bound, ?_, fun hc => (by cases hc), h.received, fun _ => rfl⟩
    have hq := h.queued
    unfold Queued at hq ⊢
    grind

theorem ordered_of_reach (hwindow : 0 < J.window)
    (hok : ∀ i < J.count, J.outcome i = .ok (value i)) {P : State β ε → Event → Prop}
    (h : (system J).Reach P s) : Ordered J value s :=
  h.invariant (ordered_start J value) fun _ _ _ _ _ hs hstep => hs.step hwindow hok hstep

theorem received_of_reach (hwindow : 0 < J.window)
    (hok : ∀ i < J.count, J.outcome i = .ok (value i)) {P : State β ε → Event → Prop}
    (h : (system J).Reach P s) :
    ∃ rest, outputs J value J.count = s.received ++ rest :=
  (ordered_of_reach hwindow hok h).received

theorem connected_of_reach (h : (system J).Reach Stays s) : s.connected = true := by
  refine h.invariant (I := fun s => s.connected = true) rfl fun s e s' _ hstay hs hstep => ?_
  have hstep : step J s e = some s' := hstep
  cases e with
  | complete i =>
    obtain ⟨-, rfl⟩ := step_complete.mp hstep
    exact hs
  | run =>
    cases ran_of_run hstep <;> exact hs
  | receive =>
    obtain ⟨c, rest, -, rfl⟩ := step_receive.mp hstep
    exact hs
  | hangup => exact (hstay rfl).elim

theorem Ordered.quiet (h : Ordered J value s) (hc : s.connected = true)
    (hroom : 0 < J.room) (hquiet : Quiet J s) : s.received = outputs J value J.count := by
  have hchannel : s.channel = [] := by
    by_contra hne
    obtain ⟨c, rest, hcons⟩ := List.exists_cons_of_ne_nil hne
    have hnone := hquiet .receive (by simp)
    rw [step_receive.mpr ⟨c, rest, hcons, rfl⟩] at hnone
    cases hnone
  have hrun : run J s = none := hquiet .run (by simp)
  have hq := h.queued
  have hf := h.flowed hc
  unfold Queued at hq
  unfold Flowed at hf
  unfold run at hrun
  cases hp : s.phase with
  | idle =>
    grind
  | waiting i =>
    rw [hp] at hrun hq
    dsimp only at hrun hq
    split at hrun
    · split at hrun <;> cases hrun
    next hnot =>
      have hnone := hquiet (.complete i) (by simp)
      rw [step_complete.mpr ⟨⟨hq.1 ▸ hq.2.1, by simpa using hnot⟩, rfl⟩] at hnone
      cases hnone
  | sending out =>
    rw [hp] at hrun
    cases out with
    | nil => cases hrun
    | cons b out =>
      dsimp only at hrun
      unfold post at hrun
      simp_all
  | failing e =>
    rw [hp] at hq
    exact hq.elim
  | ended =>
    simp_all

/-! ## 終わる -/

def work (J : Job α β ε) (value : ℕ → α) (i : ℕ) : ℕ := 3 + 2 * (J.emit i (value i)).length

def later (J : Job α β ε) (value : ℕ → α) (n : ℕ) : ℕ :=
  ((List.range' n (J.count - n)).map (work J value)).sum

theorem later_eq {n : ℕ} (h : n < J.count) :
    later J value n = work J value n + later J value (n + 1) := by
  have hsucc : J.count - n = J.count - (n + 1) + 1 := by omega
  unfold later
  rw [hsucc, List.range'_succ, List.map_cons, List.sum_cons]

def ahead (J : Job α β ε) (value : ℕ → α) (s : State β ε) : ℕ :=
  match s.phase with
  | .idle => 1 + later J value s.nextSend
  | .waiting _ => 3 + 2 * (J.emit s.nextSend (value s.nextSend)).length +
      later J value (s.nextSend + 1)
  | .sending out => 2 + 2 * out.length + later J value (s.nextSend + 1)
  | .failing _ => 1
  | .ended => 0

def remaining (J : Job α β ε) (value : ℕ → α) (s : State β ε) : ℕ :=
  (J.count - s.nextRead) + (List.range J.count).countP (fun i => !s.completed i) +
    s.channel.length + ahead J value s

theorem countP_update_lt {c : ℕ → Bool} {i n : ℕ} (hi : i < n) (hc : c i = false) :
    (List.range n).countP (fun j => !Function.update c i true j) <
      (List.range n).countP fun j => !c j := by
  have hmem : i ∈ List.range n := List.mem_range.mpr hi
  have hperm := List.perm_cons_erase hmem
  have hrest : ((List.range n).erase i).countP (fun j => !Function.update c i true j) =
      ((List.range n).erase i).countP fun j => !c j := by
    refine List.countP_congr fun j hj => ?_
    have hne : j ≠ i := (List.nodup_range.mem_erase_iff.mp hj).1
    rw [Function.update_of_ne hne]
  rw [hperm.countP_eq, hperm.countP_eq, List.countP_cons, List.countP_cons, hrest]
  simp [hc]

theorem Ordered.ran_lt {s s' : State β ε} (h : Ordered J value s)
    (hok : ∀ i < J.count, J.outcome i = .ok (value i)) (hr : Ran J s s') :
    remaining J value s' < remaining J value s := by
  obtain ⟨pending, nextRead, nextSend, completed, phase, channel, received, connected⟩ := s
  obtain ⟨hbound, hqueued, -, -, -⟩ := h
  unfold remaining ahead
  cases hr with
  | start hp hsend hread hwin =>
    dsimp only at hread ⊢
    omega
  | take hp hsend hpending =>
    simp_all [later_eq, work.eq_1]
  | dry hp hsend hfull hpending =>
    dsimp only at hp
    subst hp
    dsimp only
    omega
  | finish hp hsend =>
    dsimp only at hp
    subst hp
    dsimp only
    omega
  | @value i v hp hv =>
    dsimp only at hp hv
    subst hp
    obtain ⟨rfl, hlt, -⟩ : i = nextSend ∧ nextSend < nextRead ∧
      pending = List.range' (nextSend + 1) (nextRead - (nextSend + 1)) := hqueued
    grind
  | fault hp he =>
    dsimp only at hp
    subst hp
    dsimp only
    omega
  | next hp =>
    dsimp only at hp
    subst hp
    dsimp only
    rw [List.length_nil]
    omega
  | put hp hc =>
    grind
  | report hp hc =>
    dsimp only at hp
    subst hp
    exact hqueued.elim
  | leave hp hc =>
    grind

theorem Ordered.remaining_lt {s s' : State β ε} {e : Event} (h : Ordered J value s)
    (hok : ∀ i < J.count, J.outcome i = .ok (value i)) (hstay : e ≠ .hangup)
    (hs : ReadAhead.step J s e = some s') : remaining J value s' < remaining J value s := by
  cases e with
  | complete i =>
    obtain ⟨⟨hlt, hc⟩, rfl⟩ := step_complete.mp hs
    have hcount := countP_update_lt (hlt.trans_le h.bound) hc
    unfold remaining
    have hahead : ahead J value { s with completed := Function.update s.completed i true } =
        ahead J value s := rfl
    rw [hahead]
    dsimp only
    omega
  | receive =>
    obtain ⟨c, rest, hchannel, rfl⟩ := step_receive.mp hs
    unfold remaining
    have hahead : ahead J value { s with channel := rest, received := s.received ++ [c] } =
        ahead J value s := rfl
    rw [hahead, hchannel, List.length_cons]
    dsimp only
    omega
  | hangup => exact (hstay rfl).elim
  | run => exact h.ran_lt hok (ran_of_run hs)

theorem exists_quiet (hwindow : 0 < J.window) (hok : ∀ i < J.count, J.outcome i = .ok (value i))
    (h : (system J).Reach Stays s) :
    ∃ s', Relation.ReflTransGen (fun s s' => ∃ e, e ≠ .hangup ∧ step J s e = some s') s s' ∧
      (system J).Reach Stays s' ∧ Quiet J s' := by
  induction hn : remaining J value s using Nat.strong_induction_on generalizing s with
  | _ n ih =>
    by_cases hquiet : Quiet J s
    · exact ⟨s, .refl, h, hquiet⟩
    · unfold Quiet at hquiet
      push Not at hquiet
      obtain ⟨e, hstay, hne⟩ := hquiet
      obtain ⟨s₁, hs₁⟩ := Option.ne_none_iff_exists'.mp hne
      have hlt := (ordered_of_reach hwindow hok h).remaining_lt hok hstay hs₁
      obtain ⟨s', hpath, hreach, hq⟩ := ih _ (hn ▸ hlt) (h.step hstay hs₁) rfl
      exact ⟨s', hpath.head ⟨e, hstay, hs₁⟩, hreach, hq⟩

end Ordered

end Conc.ReadAhead
