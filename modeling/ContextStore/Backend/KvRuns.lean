import ContextStore.Backend.KvLanes
import ContextStore.Conc.System

/-!
# backend の呼び出しが並行に進む系

`put_chunks`、`get_chunks` と scheduler の probe が、1 つの server に向かって並行に進む。
-/

namespace ContextStore

open Conc

namespace Kv

/-! ## 系 -/

/-- 呼び出し。 -/
inductive KvOp where
  | putChunks (key layer : String) (segments : List Bytes)
  | getChunks (key layer : String)
  | probe (key : String) (layers : List String)

inductive KvAnswer where
  | stored (r : Except Unit Unit)
  | loaded (r : Except Unit (Option (List Bytes)))
  | probed (hit : Bool)

def probeLayers (key : String) : List String → KvIo Bool
  | [] => pure true
  | layer :: rest => do
    let found ← lookupDescriptor (encodeObjectKey key layer)
    let others ← probeLayers key rest
    pure (found.isSome && others)

def KvOp.prog (cfg : KvConfig) : KvOp → KvIo KvAnswer
  | .putChunks key layer segments => do
    let r ← Kv.putChunks cfg key layer segments
    pure (.stored r)
  | .getChunks key layer => do
    let r ← Kv.getChunks cfg key layer
    pure (.loaded r)
  | .probe key layers => do
    let hit ← probeLayers key layers
    pure (.probed hit)

def kvMachine (cfg : KvConfig) : Machine KvWorld KvCmd KvCmd.Resp KvChoice Empty Unit where
  exec := KvWorld.exec cfg
  env := nofun
  observe _ _ _ _ := ()

abbrev KvRun := Config KvWorld KvOp KvCmd KvCmd.Resp KvAnswer Unit

abbrev KvMove := Act KvOp KvChoice Empty

abbrev KvThread := Thread KvOp KvCmd KvCmd.Resp KvAnswer

def KvReach (cfg : KvConfig) (P : KvRun → KvMove → Prop) (c : KvRun) : Prop :=
  (kvMachine cfg).Reach (KvOp.prog cfg) (emptyWorld false) P c

variable {cfg : KvConfig} {key layer : String} {P : KvRun → KvMove → Prop}

def KvOp.guard (cfg : KvConfig) : KvOp → KvHist → KvCmd → Prop
  | .putChunks key layer segments, _, c => WritesLanes cfg key layer segments c
  | .getChunks key layer, _, c => ReadsLanes cfg key layer c
  | .probe _ _, _, c => c.written = none ∧ c.isDelete = false

def KvOp.post (cfg : KvConfig) : KvOp → KvHist → KvAnswer → Prop
  | .putChunks key layer segments, t, .stored r =>
    r = .ok () → ∀ i < cfg.parallel, Wrote cfg key layer segments t i
  | .getChunks key layer, t, .loaded r => GetPost cfg key layer (fun _ => none) t r
  | .probe key layers, t, .probed hit => hit = true → ∀ layer ∈ layers, ∃ version,
      (⟨.lookup (encodeObjectKey key layer), .ok (some version)⟩ : Event KvCmd KvCmd.Resp) ∈ t
  | _, _, _ => False

theorem probeLayers_conforms (key : String) (layers : List String) (t : KvHist) :
    Conforms (fun _ c => c.written = none ∧ c.isDelete = false)
      (fun t' hit => hit = true → ∀ layer ∈ layers, ∃ version,
        (⟨.lookup (encodeObjectKey key layer), .ok (some version)⟩ : Event KvCmd KvCmd.Resp) ∈ t') t
      (probeLayers key layers) := by
  induction layers generalizing t with
  | nil => exact fun _ layer hl => (List.not_mem_nil hl).elim
  | cons layer rest ih =>
    refine Conforms.bind (Q := fun t' found => ∀ version, found = some version →
      (⟨.lookup (encodeObjectKey key layer), .ok (some version)⟩ : Event KvCmd KvCmd.Resp) ∈ t')
      ⟨⟨rfl, rfl⟩, ?_⟩ ?_
    · rintro (_ | _)
      · exact fun _ => nofun
      · rintro version rfl
        exact List.mem_cons_self
    · intro t₁ found _ hfound
      refine (ih t₁).bind fun t₂ others hs hothers hhit => List.forall_mem_cons.mpr ?_
      obtain ⟨hsome, hrest⟩ := Bool.and_eq_true_iff.mp hhit
      obtain ⟨version, rfl⟩ := Option.isSome_iff_exists.mp hsome
      exact ⟨⟨version, hs.subset (hfound version rfl)⟩, hothers hrest⟩

theorem KvOp.conforms (op : KvOp) : Conforms (op.guard cfg) (op.post cfg) [] (op.prog cfg) := by
  cases op with
  | putChunks key layer segments => exact (putChunks_conforms []).bind fun _ _ _ h => h
  | getChunks key layer => exact (getChunks_conforms _).bind fun _ _ _ h => h
  | probe key layers => exact (probeLayers_conforms key layers []).bind fun _ _ _ h => h

variable {t : KvHist}

theorem KvOp.guard_isDelete {op : KvOp} {c : KvCmd} (h : op.guard cfg t c) :
    c.isDelete = false := by
  cases op with
  | putChunks key layer segments => exact h.1
  | getChunks key layer => exact h.2.1
  | probe key layers => exact h.2

theorem KvOp.guard_written {op : KvOp} {c : KvCmd} {okey : String} {content : Bytes}
    (h : op.guard cfg t c) (hw : c.written = some (okey, content)) :
    ∃ key layer segments, op = .putChunks key layer segments ∧ ∃ i < cfg.parallel,
      okey = cfg.laneKey key layer i ∧ content = (cfg.partSegments segments i).flatten := by
  cases op with
  | putChunks key layer segments => exact ⟨key, layer, segments, rfl, h.2 okey content hw⟩
  | _ =>
    rw [h.1] at hw
    cases hw

structure Offline (c : KvRun) : Prop where
  disabled : c.world.rdmaEnabled = false
  unused : ∀ th ∈ c.threads, (⟨.rdmaEnabled, true⟩ : Event KvCmd KvCmd.Resp) ∉ th.trace

theorem offline_of_reach {c : KvRun} (h : KvReach cfg P c) : Offline c := by
  refine Machine.Reach.induct (I := Offline) ?_ ?_ ?_ ?_ ?_ h
  · exact ⟨rfl, fun th hth => (List.not_mem_nil hth).elim⟩
  · intro c op _ _ ih
    refine ⟨ih.disabled, fun th hth => ?_⟩
    rcases List.mem_append.mp hth with hth | hth
    · exact ih.unused th hth
    · rw [List.mem_singleton.mp hth]
      exact List.not_mem_nil
  · intro c i x th m k w' r _ _ ih hth _ hexec
    obtain ⟨hw, hne⟩ := KvWorld.exec_rdmaDisabled hexec ih.disabled
    refine ⟨hw, fun th₁ hth₁ hmem => ?_⟩
    rcases List.mem_or_eq_of_mem_set hth₁ with hth₁ | rfl
    · exact ih.unused th₁ hth₁ hmem
    · rcases List.mem_cons.mp hmem with heq | hmem
      · exact hne heq.symm
      · exact ih.unused th (List.mem_of_getElem? hth) hmem
  · intro c i th a _ _ ih hth _ _
    refine ⟨ih.disabled, fun th₁ hth₁ => ?_⟩
    rcases List.mem_or_eq_of_mem_set hth₁ with hth₁ | rfl
    · exact ih.unused th₁ hth₁
    · exact ih.unused th (List.mem_of_getElem? hth)
  · exact fun _ e => e.elim

def usual : KvCmd → KvChoice
  | .pick _ => .num 0
  | _ => .ok

end Kv

end ContextStore
