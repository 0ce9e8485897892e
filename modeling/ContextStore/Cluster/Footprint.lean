import ContextStore.Cluster.Expiry
import ContextStore.Cluster.Publish

/-!
# 操作の残すもの
-/

namespace ContextStore

open Conc

variable {ν : Type}

def ReadOnly (E : Env ν) (t : Hist ν) : Cmd ν → Prop
  | .writeFile _ _ _ => False
  | .deleteFile _ _ => False
  | .redis (.getBlock _) => True
  | .redis (.retireBlockIfMatches s m _) => Looked t s m ∧
      ∃ now, (⟨.now, now⟩ : Event (Cmd ν) Cmd.Resp) ∈ t ∧ m.isExpiredAt now = true
  | .redis (.deleteBlockIfMatches s g) => ∃ key m, s = key.toStringKey ∧
      m.objectGeneration = g ∧ Looked t s m ∧ Unreadable E t key m
  | .redis _ => False
  | _ => True

inductive Removes (E : Env ν) (t : Hist ν) (p : String) : Op ν → Prop where
  | rollback {o : Op ν} {d : Draw ν} (hd : d ∈ (ledger t).draws) (hw : o.Writes d.key d.data)
      (hroll : d.MayRollback) (hown : d.Owns E p) : Removes E t p o
  | collect {n : ν} {task : GcTask} (hclaim : Claimed t task) (hp : p ∈ task.retired.files) :
      Removes E t p (.gc n)

structure Leaves (E : Env ν) (o : Op ν) (t : Hist ν) (res : Result) : Prop where
  stored : res = some true → ∃ d ∈ (ledger t).draws, o.Writes d.key d.data ∧ d.deleted = [] ∧
    ∃ rc m, d.commit = .acked rc true ∧ rc.publishes = some (d.key.toStringKey, m) ∧
      Describes E o.role d m
  absent : res = some false → ∀ d ∈ (ledger t).draws, ¬ d.Stored ∧
    (E.WellAdvertised → ∀ f ∈ d.files, (f.1, f.2.1) ∈ d.deleted ∨ Faulty t)

theorem Guard.readOnly {E : Env ν} {t : Hist ν} {o : Op ν} (ho : o.isRead = true)
    (hok : LedgerOk E o.role (ledger t)) {m : Cmd ν} (hg : Guard E o.role t m) :
    ReadOnly E t m := by
  have hw : ∀ k b, ¬ o.role.writes k b := by
    cases o with
    | _ => first | exact fun _ _ => id | cases ho
  have hdraw : ∀ {d ds}, ledger t ≠ ⟨none, d :: ds⟩ := by
    intro d ds hl
    exact hw _ _ (hok.draws d (by simp [hl])).writes
  have hgc : o.role.collects ≠ true := by
    intro hgc
    cases o with
    | gc n => cases ho
    | _ => cases hgc
  cases m with
  | writeFile n p data => obtain ⟨d, ds, hl, -⟩ := hg; exact hdraw hl
  | deleteFile n p =>
    rcases hg with ⟨d, ds, hl, -⟩ | ⟨h, -⟩
    · exact hdraw hl
    · exact hgc h
  | redis rc =>
    cases rc with
    | getBlock s => trivial
    | retireBlockIfMatches s m nb => exact hg
    | deleteBlockIfMatches s g => exact hg.2
    | nextGeneration s => obtain ⟨k, b, hcall, -⟩ := hg; exact hw k b (hok.call k b hcall)
    | putBlockIfAbsent s m => obtain ⟨d, ds, hl, -⟩ := hg; exact hdraw hl
    | replaceBlock s m nb => obtain ⟨d, ds, hl, -⟩ := hg; exact hdraw hl
    | retireBlock s nb => obtain ⟨n, key, rfl, -⟩ := hg; cases ho
    | hsetTask id p => exact hgc hg.1
    | _ => exact hgc hg
  | _ => trivial

section Reachable

variable [DecidableEq ν] {E : Env ν} {P : State ν → Move ν → Prop} {c : State ν}
  (h : Reachable E P c) {i : Nat} {th : Thread (Call ν) (Cmd ν) Cmd.Resp Returned}
  (hth : c.threads[i]? = some th) {o : Op ν} (ho : th.label = .op o)
include h hth ho

/-- **読み出しは何も壊さない。** -/
theorem reads_never_mutate (hr : o.isRead = true) {e : Event (Cmd ν) Cmd.Resp} {ef : Effect}
    {older : Log ν} (hs : .ran i e ef :: older <:+ c.log) :
    ReadOnly E (histOf i older) e.1 := by
  have hg := h.rule hth hs
  rw [ho] at hg
  exact Guard.readOnly hr (h.ledgerOk hth ho ((List.suffix_cons _ _).trans hs)) hg

/-- **file を消すのは、自分の書き込みの巻き戻しか、引き取った GC task だけである。** -/
theorem deletions_caused {n : ν} {p : String} {r : Except IoError Unit} {ef : Effect}
    {older : Log ν} (hs : .ran i ⟨.deleteFile n p, r⟩ ef :: older <:+ c.log) :
    Removes E (histOf i older) p o := by
  have hg := h.rule hth hs
  have hok := h.ledgerOk hth ho ((List.suffix_cons _ _).trans hs)
  rw [ho] at hg
  rcases hg with ⟨d, ds, hl, hroll, hown⟩ | ⟨hgc, task, hclaim, hp⟩
  · have hd : d ∈ (ledger (histOf i older)).draws := by simp [hl]
    exact .rollback hd (hok.draws d hd).writes hroll hown
  · cases o with
    | gc n' => exact .collect hclaim hp
    | _ => cases hgc

/-- **終わった書き込みは応答どおりのものを残す。** -/
theorem finished_writes_settle {a : Answer} (hret : th.prog = .ret (.op a)) :
    Leaves E o th.trace a.verdict := by
  have hok := h.ledgerOk hth ho (List.suffix_refl _)
  obtain ⟨clock, hc⟩ := h
  have hpost := hc.conforms (G := fun call => call.guard E) (Q := fun call => call.post E)
    (fun _ call _ => call.conforms) th (List.mem_of_getElem? hth)
  rw [hret, ho] at hpost
  rw [← show th.trace = histOf i c.log from hc.trace_eq i th hth] at hok
  refine ⟨fun hv => ?_, fun hv => hpost.absent hv⟩
  obtain ⟨d, hd, rc, hcommit⟩ := hpost.stored hv
  obtain ⟨m, hpub, hdesc⟩ := (hok.draws d hd).attempted rc (by rw [hcommit]; rfl)
  refine ⟨d, hd, (hok.draws d hd).writes, ?_, rc, m, hcommit, hpub, hdesc⟩
  by_contra hne
  rcases (hok.draws d hd).deleted hne with h | ⟨_, h⟩ | ⟨_, h⟩ <;> rw [hcommit] at h <;> cases h

end Reachable

def ranBy (i : Nat) (o : Op (Fin 2) → Bool) (p : Cmd (Fin 2) → Bool) (c : State (Fin 2)) : Bool :=
  (c.threads[i]?.any fun th => match th.label with
    | .op o' => o o'
    | _ => false) &&
  c.log.any fun e => match e with
    | .ran j e _ => j == i && p e.1
    | _ => false

theorem exists_of_ranBy {i : Nat} {o : Op (Fin 2) → Bool} {p : Cmd (Fin 2) → Bool}
    {c : State (Fin 2)} (h : ranBy i o p c = true) :
    ∃ th o' e ef older, c.threads[i]? = some th ∧ th.label = .op o' ∧ o o' = true ∧
      p e.1 = true ∧ .ran i e ef :: older <:+ c.log := by
  obtain ⟨hth, hlog⟩ := Bool.and_eq_true_iff.mp h
  obtain ⟨th, hth, hl⟩ := (Option.any_eq_true _ _).mp hth
  obtain ⟨e, he, hran⟩ := List.any_eq_true.mp hlog
  split at hl
  next o' ho =>
    split at hran
    next j e ef =>
      obtain ⟨hj, hp⟩ := Bool.and_eq_true_iff.mp hran
      obtain rfl := beq_iff_eq.mp hj
      obtain ⟨newer, older, hlog⟩ := List.append_of_mem he
      exact ⟨th, o', e, ef, older, hth, ho, hl, hp, newer, hlog.symm⟩
    · cases hran
  · cases hl

def Cmd.isRetire : Cmd (Fin 2) → Bool
  | .redis (.retireBlockIfMatches _ _ _) => true
  | _ => false

theorem reads_never_mutate_purging : ∃ (c : State (Fin 2)) (s : _) (m : _) (notBefore : _) (r : _)
    (ef : _) (older : _),
    .ran 1 ⟨.redis (.retireBlockIfMatches s m notBefore), r⟩ ef :: older <:+ c.log ∧
      Looked (histOf 1 older) s m ∧
      ∃ now, (⟨.now, now⟩ : Event (Cmd (Fin 2)) Cmd.Resp) ∈ histOf 1 older ∧
        m.isExpiredAt now = true := by
  obtain ⟨c, hc, hcheck⟩ := Reachable.exists_of_play (E := samplePlain) (fun _ _ => true) 0
    (alone 0 (expiringPut "x" [1, 2, 3]) ++ [.act (.env (.tick 20))] ++
      alone 1 (.op (.get 1 (some ⟨"", "x"⟩))))
    (ranBy 1 Op.isRead Cmd.isRetire) (by decide +kernel)
  obtain ⟨th, o, ⟨m, r⟩, ef, older, hth, ho, hr, hp, hs⟩ := exists_of_ranBy hcheck
  have hread := reads_never_mutate hc hth ho hr hs
  cases m with
  | redis rc =>
    cases rc with
    | retireBlockIfMatches s m notBefore => exact ⟨c, s, m, notBefore, r, ef, older, hs, hread⟩
    | _ => cases hp
  | _ => cases hp

theorem deletions_caused_collecting : ∃ (c : State (Fin 2)) (o : _) (n : _) (p : _) (r : _)
    (ef : _) (older : _), .ran 2 ⟨.deleteFile n p, r⟩ ef :: older <:+ c.log ∧
      Removes samplePlain (histOf 2 older) p o := by
  obtain ⟨c, hc, hcheck⟩ := Reachable.exists_of_play (E := samplePlain) (fun _ _ => true) 0
    (alone 0 (.op (.put 0 (putRequest "x" [1]))) ++ alone 1 (.op (.put 0 (putRequest "x" [2]))) ++
      [.act (.env (.tick 1000))] ++ alone 2 (.op (.gc 0)))
    (ranBy 2 (fun _ => true) fun m => match m with
      | .deleteFile _ _ => true
      | _ => false) (by decide +kernel)
  obtain ⟨th, o, ⟨m, r⟩, ef, older, hth, ho, -, hp, hs⟩ := exists_of_ranBy hcheck
  cases m with
  | deleteFile n p => exact ⟨c, o, n, p, r, ef, older, hs, deletions_caused hc hth ho hs⟩
  | _ => cases hp

theorem finished_writes_settle_stored : ∃ (c : State (Fin 2)) (th : _) (o : _),
    c.threads[0]? = some th ∧ th.label = .op o ∧ Leaves samplePlain o th.trace (some true) := by
  obtain ⟨c, hc, hcheck⟩ := Reachable.exists_of_play (E := samplePlain) (fun _ _ => true) 0
    (alone 0 (.op (.put 0 (putRequest "x" [1, 2, 3, 4, 5]))))
    (fun c => ranBy 0 (fun _ => true) (fun _ => true) c &&
      decide (answer? c 0 = some (.put (some true)))) (by decide +kernel)
  obtain ⟨hran, hanswer⟩ := Bool.and_eq_true_iff.mp hcheck
  obtain ⟨th, o, -, -, -, hth, ho, -⟩ := exists_of_ranBy hran
  obtain ⟨th', hth', hret⟩ := thread_of_answer (of_decide_eq_true hanswer)
  cases hth.symm.trans hth'
  exact ⟨c, th, o, hth, ho, finished_writes_settle hc hth ho hret⟩

end ContextStore
