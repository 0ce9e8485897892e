import ContextStore.Protocol.StorageWrite
import ContextStore.Conc.System

/-!
# 規約を守る履歴の書き込み

規約を守る履歴のどの書き込みも満たす性質（`DrawOk`・`ledger_ok`）。
-/

namespace ContextStore

open Conc

variable {ν : Type} {E : Env ν} {ρ : Role ν} {t : Hist ν}

def CommitState.cmd? : CommitState → Option RedisCmd
  | .idle => none
  | .firstFailed c => some c
  | .reconnected c => some c
  | .gaveUp c => some c
  | .acked c _ => some c

def CommitState.Done : CommitState → Prop
  | .gaveUp _ => True
  | .acked _ _ => True
  | _ => False

structure Draw.Keeps (d d' : Draw ν) : Prop extends d.Evolves d' where
  cmd : ∀ c, d.commit.cmd? = some c → d'.commit.cmd? = some c
  done : d.commit.Done → d'.commit = d.commit

theorem Draw.keeps_onReconnect (d : Draw ν) (r : Except String Unit) :
    d.Keeps (d.onReconnect r) := by
  refine ⟨d.evolves_onReconnect r, ?_, ?_⟩
  · intro c hc
    unfold Draw.onReconnect
    split
    next c' hc' =>
      rw [hc'] at hc
      split <;> exact hc
    · exact hc
  · intro hd
    unfold Draw.onReconnect
    split
    next c' hc' => rw [hc'] at hd; exact hd.elim
    · rfl

structure DrawOk (E : Env ν) (ρ : Role ν) (d : Draw ν) : Prop where
  writes : ρ.writes d.key d.data
  files : ∀ f ∈ d.files, d.OwnFile E ρ f.2.1 f.2.2
  attempted : ∀ c, d.commit.cmd? = some c →
    ∃ m, c.publishes = some (d.key.toStringKey, m) ∧ Describes E ρ d m
  deleted : d.deleted ≠ [] → d.MayRollback

theorem DrawOk.fresh {k : ObjectKey} {b : Bytes} {g : Nat} (hw : ρ.writes k b) :
    DrawOk E ρ (Draw.fresh k b g : Draw ν) where
  writes := hw
  files := fun _ hf => by cases hf
  attempted := fun _ hc => by cases hc
  deleted := fun h => absurd rfl h

section Congr

variable {key : ObjectKey} {data : Bytes} {gen : Nat} {files : List (ν × String × Bytes)}
  {commit commit' : CommitState} {deleted deleted' : List (ν × String)} {m : BlockMeta}

theorem Content.congr (h : Content E ρ ⟨key, data, gen, files, commit, deleted⟩ m) :
    Content E ρ ⟨key, data, gen, files, commit', deleted'⟩ m := by
  obtain ⟨hsize, hcontent⟩ := h
  refine ⟨hsize, ?_⟩
  cases hs : m.striping with
  | none => rw [hs] at hcontent; exact hcontent
  | some s =>
    rw [hs] at hcontent
    exact ⟨hcontent.chunkSize, hcontent.totalSize, hcontent.count, hcontent.path,
      hcontent.locations, hcontent.checksum⟩

theorem Laid.congr {s : StripingInfo}
    (h : Laid E ρ ⟨key, data, gen, files, commit, deleted⟩ m s) :
    Laid E ρ ⟨key, data, gen, files, commit', deleted'⟩ m s :=
  ⟨h.wellLaid, h.filled, h.spread, h.placed, h.verified⟩

theorem Describes.congr {d d' : Draw ν} (h : Describes E ρ d m) (hkey : d'.key = d.key)
    (hdata : d'.data = d.data) (hgen : d'.gen = d.gen) (hfiles : d'.files = d.files) :
    Describes E ρ d' m := by
  obtain ⟨key, data, gen, files, commit, deleted⟩ := d
  obtain ⟨key', data', gen', files', commit', deleted'⟩ := d'
  cases hkey
  cases hdata
  cases hgen
  cases hfiles
  exact ⟨h.gen, h.named, h.covers, h.home, fun s hs => (h.laid s hs).congr,
    fun hf => (h.content hf).congr⟩

end Congr

namespace DrawOk

variable {d : Draw ν}

theorem congr (h : DrawOk E ρ d) {d' : Draw ν} (he : d.Evolves d') (hfiles : d'.files = d.files)
    (hcmd : ∀ c, d'.commit.cmd? = some c → d.commit.cmd? = some c ∨
      ∃ m, c.publishes = some (d.key.toStringKey, m) ∧ Describes E ρ d m)
    (hdel : d'.deleted ≠ [] → d'.MayRollback) : DrawOk E ρ d' where
  writes := by rw [he.key, he.data]; exact h.writes
  files := by
    intro f hf
    rw [hfiles] at hf
    obtain ⟨r, dev, kind, hp, hdata⟩ := h.files f hf
    exact ⟨r, dev, kind, by rw [he.key, he.gen]; exact hp, by rw [he.data]; exact hdata⟩
  attempted := by
    intro c hc
    have hm : ∃ m, c.publishes = some (d.key.toStringKey, m) ∧ Describes E ρ d m := by
      rcases hcmd c hc with hc | hm
      · exact h.attempted c hc
      · exact hm
    obtain ⟨m, hp, hd⟩ := hm
    exact ⟨m, by rw [he.key]; exact hp, hd.congr he.key he.data he.gen hfiles⟩
  deleted := hdel

theorem onCommit (h : DrawOk E ρ d) {c : RedisCmd} {m : BlockMeta}
    (hp : c.publishes = some (d.key.toStringKey, m)) (hsend : d.MaySend c)
    (hd : Describes E ρ d m) (r : Except String Bool) : DrawOk E ρ (d.onCommit c r) := by
  have hcmd : (d.onCommit c r).commit.cmd? = some c := by
    unfold Draw.onCommit
    split
    · rfl
    · split <;> rfl
  have hsame : (d.onCommit c r).files = d.files ∧ (d.onCommit c r).deleted = d.deleted := by
    unfold Draw.onCommit
    split
    · exact ⟨rfl, rfl⟩
    · split <;> exact ⟨rfl, rfl⟩
  refine h.congr (d.evolves_onCommit c r) hsame.1 ?_ ?_
  · intro c' hc'
    rw [hcmd] at hc'
    cases hc'
    exact .inr ⟨m, hp, hd⟩
  · rw [hsame.2, hsend.1]
    exact fun h => absurd rfl h

theorem onReconnect (h : DrawOk E ρ d) (r : Except String Unit) : DrawOk E ρ (d.onReconnect r) := by
  have hk := d.keeps_onReconnect r
  unfold Draw.onReconnect at hk ⊢
  split
  next c hc =>
    have hnil : d.deleted = [] := by
      by_contra hne
      rcases h.deleted hne with hi | ⟨c', hg⟩ | ⟨c', ha⟩
      · rw [hc] at hi; cases hi
      · rw [hc] at hg; cases hg
      · rw [hc] at ha; cases ha
    have hcmd : d.commit.cmd? = some c := by rw [hc]; rfl
    split
    · exact h.congr ⟨rfl, rfl, rfl, fun _ h => h, fun _ h => h⟩ rfl
        (fun c' hc' => .inl (hcmd.trans hc')) (fun hne => absurd hnil hne)
    · exact h.congr ⟨rfl, rfl, rfl, fun _ h => h, fun _ h => h⟩ rfl
        (fun c' hc' => .inl (hcmd.trans hc')) (fun hne => absurd hnil hne)
  next => exact h

theorem addFile (h : DrawOk E ρ d) (hidle : d.commit = .idle) (hdel : d.deleted = []) {n : ν}
    {p : String} {data : Bytes} (hown : d.OwnFile E ρ p data) :
    DrawOk E ρ (d.addFile n p data) where
  writes := h.writes
  files := by
    intro f hf
    rcases List.mem_cons.mp hf with rfl | hf
    · exact hown
    · exact h.files f hf
  attempted := by
    intro c hc
    replace hc : d.commit.cmd? = some c := hc
    rw [hidle] at hc
    cases hc
  deleted := fun hne => absurd hdel hne

theorem addDeleted (h : DrawOk E ρ d) (hroll : d.MayRollback) {n : ν} {p : String} :
    DrawOk E ρ (d.addDeleted n p) :=
  h.congr (d.evolves_addDeleted n p) rfl (fun _ hc => .inl hc) fun _ => hroll

end DrawOk

structure LedgerOk (E : Env ν) (ρ : Role ν) (l : Ledger ν) : Prop where
  call : ∀ k b, l.call = some (k, b) → ρ.writes k b
  draws : ∀ d ∈ l.draws, DrawOk E ρ d

theorem LedgerOk.empty : LedgerOk E ρ (Ledger.empty : Ledger ν) where
  call := by intro k b h; cases h
  draws := by intro d h; cases h

theorem LedgerOk.modifyHead {l : Ledger ν} (h : LedgerOk E ρ l) {f : Draw ν → Draw ν}
    (hf : ∀ d ds, l.draws = d :: ds → DrawOk E ρ d → DrawOk E ρ (f d)) :
    LedgerOk E ρ (l.modifyHead f) := by
  obtain ⟨call, draws⟩ := l
  cases draws with
  | nil => exact h
  | cons d ds =>
    refine ⟨h.call, fun d' hd' => ?_⟩
    rcases List.mem_cons.mp hd' with rfl | hd'
    · exact hf d ds rfl (h.draws d List.mem_cons_self)
    · exact h.draws d' (List.mem_cons_of_mem _ hd')

theorem LedgerOk.onRedis (h : LedgerOk E ρ (ledger t)) {c : RedisCmd} (hg : RedisGuard E ρ t c)
    (r : Except String c.Reply) : LedgerOk E ρ ((ledger t).onRedis c r) := by
  cases c with
  | nextGeneration s =>
    cases r with
    | error e => exact h
    | ok g =>
      obtain ⟨k, b, hc, -⟩ := hg
      show LedgerOk E ρ ((ledger t).draw g)
      unfold Ledger.draw
      rw [hc]
      refine ⟨nofun, fun d hd => ?_⟩
      rcases List.mem_cons.mp hd with rfl | hd
      · exact .fresh (h.call k b hc)
      · exact h.draws d hd
  | putBlockIfAbsent s m =>
    obtain ⟨d, ds, hl, rfl, hsend, hd⟩ := hg
    refine h.modifyHead fun d' ds' hl' hok => ?_
    rw [hl] at hl'
    cases hl'
    exact hok.onCommit rfl hsend hd _
  | replaceBlock s m nb =>
    obtain ⟨d, ds, hl, rfl, hsend, hd⟩ := hg
    refine h.modifyHead fun d' ds' hl' hok => ?_
    rw [hl] at hl'
    cases hl'
    exact hok.onCommit rfl hsend hd _
  | _ => exact h

theorem LedgerOk.next (hρ : ρ.collects = true → ∀ k b, ¬ ρ.writes k b)
    (h : LedgerOk E ρ (ledger t)) {c : Cmd ν} (hg : Guard E ρ t c) (r : c.Resp) :
    LedgerOk E ρ (ledger (⟨c, r⟩ :: t)) := by
  cases c with
  | invoke k b =>
    refine ⟨fun k' b' hc => ?_, h.draws⟩
    cases hc
    exact hg
  | redis c => exact h.onRedis hg r
  | reconnect => exact h.modifyHead fun d _ _ hok => hok.onReconnect r
  | writeFile n p data =>
    cases r with
    | error e => exact h
    | ok u =>
      obtain ⟨d, ds, hl, hidle, hdel, hown⟩ := hg
      refine h.modifyHead fun d' ds' hl' hok => ?_
      rw [hl] at hl'
      cases hl'
      exact hok.addFile hidle hdel hown
  | deleteFile n p =>
    cases r with
    | error e => exact h
    | ok u =>
      refine h.modifyHead fun d' ds' hl' hok => ?_
      rcases hg with ⟨d, ds, hl, hroll, -⟩ | ⟨hcol, -⟩
      · rw [hl] at hl'
        cases hl'
        exact hok.addDeleted hroll
      · exact absurd hok.writes (hρ hcol _ _)
  | _ => exact h

theorem ledger_ok (hρ : ρ.collects = true → ∀ k b, ¬ ρ.writes k b)
    (h : Guarded (Guard E ρ) t) : LedgerOk E ρ (ledger t) := by
  induction t with
  | nil => exact .empty
  | cons e t ih => exact (ih h.tail).next hρ h.head e.2

end ContextStore
