import ContextStore.Connector.Load

/-!
# vLLM connector: 受け入れた request と load の及ぶ block

1 つの step で受け入れる request の列。
-/

namespace ContextStore

namespace Connector

structure Admission where
  request : Request
  numComputed : Nat
  probe : Option (String → String → Bool)
  blockIds : List Nat

namespace Admission

variable (c : Config)

def enter (s : Sched) (a : Admission) : Sched :=
  let (s', external) := s.getNumNewMatchedTokens c a.request a.numComputed a.probe
  s'.updateStateAfterAlloc a.request [a.blockIds] external

def enterAll (s : Sched) (as : List Admission) : Sched := as.foldl (enter c) s

def Fresh (a : Admission) (b : Nat) : Prop :=
  ∃ j : Nat, a.blockIds[j]? = some b ∧ a.numComputed < (j + 1) * c.blockSize

def Consistent (as : List Admission) : Prop :=
  ∀ a ∈ as, ∀ a' ∈ as, ∀ j j' b : Nat, a.blockIds[j]? = some b → a'.blockIds[j']? = some b →
    (j + 1) * c.blockSize ≤ a.numComputed → (j' + 1) * c.blockSize ≤ a'.numComputed

variable {c} {s : Sched} {a : Admission} {as : List Admission}

theorem mem_assign {β : Type} {key : String} {value : β} {l : List (String × β)}
    {x : String × β} (h : x ∈ Sched.assign key value l) : x = (key, value) ∨ x ∈ l := by
  induction l with
  | nil => exact .inl (List.mem_singleton.mp h)
  | cons y l ih =>
    unfold Sched.assign at h
    grind

theorem mem_pendingLoads_enter {x : String × PendingLoad} (h : x ∈ (enter c s a).pendingLoads) :
    (x.1 = a.request.requestId ∧ x.2.request = a.request ∧ x.2.blockIds = a.blockIds) ∨
      x ∈ s.pendingLoads := by
  unfold enter Sched.updateStateAfterAlloc at h
  dsimp only at h
  split at h
  · rcases mem_assign h with rfl | h
    · exact .inl ⟨rfl, rfl, rfl⟩
    · exact .inr h
  · exact .inr h

theorem mem_pendingLoads_enterAll {x : String × PendingLoad}
    (h : x ∈ (enterAll c s as).pendingLoads) :
    (∃ a ∈ as, x.1 = a.request.requestId ∧ x.2.request = a.request ∧ x.2.blockIds = a.blockIds) ∨
      x ∈ s.pendingLoads := by
  induction as generalizing s with
  | nil => exact .inr h
  | cons a as ih =>
    rcases ih (s := enter c s a) h with ⟨a', ha', hx⟩ | h
    · exact .inl ⟨a', List.mem_cons_of_mem _ ha', hx⟩
    · exact (mem_pendingLoads_enter h).imp (fun hx => ⟨a, List.mem_cons_self, hx⟩) id

theorem exists_of_mem_loadSpecs (hs : s.pendingLoads = []) {spec : Spec}
    (h : spec ∈ (enterAll c s as).loadSpecs c) :
    ∃ a ∈ as, spec.reqId = a.request.requestId ∧
      ∃ n, 0 < n ∧ n ≤ a.blockIds.length ∧ spec.gpuBlockIds = a.blockIds.take n := by
  obtain ⟨reqId, p, hp, hspec⟩ := Sched.mem_loadSpecs h
  obtain ⟨n, hn, hmin, rfl⟩ := Sched.loadSpec_eq_some hspec
  rcases mem_pendingLoads_enterAll hp with ⟨a, ha, hid, -, hids⟩ | hp
  · grind
  · rw [hs] at hp
    cases hp

def load (w : Worker) (specs : List Spec) (outcome : Spec → LoadOutcome) (gpu : Gpu) : Gpu :=
  w.startLoadKv (specs.map fun spec => (spec, outcome spec)) gpu

def missing : LoadOutcome := ⟨.ok false, .ok (), .ok none, .ok none⟩

theorem lands_missing (w : Worker) (spec : Spec) : w.Lands spec missing :=
  .inl ⟨.inl rfl, .inl rfl⟩

theorem mem_of_load_ne {w : Worker} {specs : List Spec} {outcome : Spec → LoadOutcome} {gpu : Gpu}
    {k r b : Nat} (h : load w specs outcome gpu k r b ≠ gpu k r b) :
    ∃ spec ∈ specs, b ∈ spec.gpuBlockIds := by
  unfold load at h
  induction specs generalizing gpu with
  | nil => exact absurd rfl h
  | cons spec specs ih =>
    by_cases hb : b ∈ spec.gpuBlockIds
    · exact ⟨spec, List.mem_cons_self, hb⟩
    · have hsame : w.loadOne gpu (spec, outcome spec) k r b = gpu k r b :=
        Worker.loadOne_of_notMem hb
      have hstep : w.startLoadKv ((spec :: specs).map fun spec => (spec, outcome spec)) gpu =
          w.startLoadKv (specs.map fun spec => (spec, outcome spec))
            (w.loadOne gpu (spec, outcome spec)) := rfl
      rw [hstep, ← hsame] at h
      grind

theorem load_missing {w : Worker} {specs : List Spec} (gpu : Gpu) {k r b : Nat} {l : Layer}
    (hl : w.layers[k]? = some l) (hr : r < l.rows) {spec : Spec} (hmem : spec ∈ specs)
    (hb : b ∈ spec.gpuBlockIds) : load w specs (fun _ => missing) gpu k r b = l.zeros := by
  rcases Worker.startLoadKv_block gpu (specs.map fun spec => (spec, missing)) b hl hr with
    ⟨-, hz | ⟨x, hx, data, hdel, -⟩⟩ | ⟨hnone, -⟩
  · exact hz
  · obtain ⟨spec', -, rfl⟩ := List.mem_map.mp hx
    rcases hdel with ⟨hsup, -⟩ | ⟨-, chunks, hget, -⟩
    · cases hsup
    · cases hget
  · exact absurd ⟨_, List.mem_map_of_mem hmem, hb, lands_missing w spec⟩ hnone

theorem load_frame_iff (w : Worker) (hs : s.pendingLoads = []) (hshare : Consistent c as) :
    (∀ outcome gpu k r b,
      load w ((enterAll c s as).loadSpecs c) outcome gpu k r b ≠ gpu k r b →
        ∃ a ∈ as, a.Fresh c b) ↔
    ∀ spec ∈ (enterAll c s as).loadSpecs c, ∃ a ∈ as, a.request.requestId = spec.reqId ∧
      spec.gpuBlockIds <+: a.blockIds ∧ a.numComputed < c.blockSize := by
  constructor
  · intro h spec hspec
    obtain ⟨a, ha, hid, n, hn, hlen, hids⟩ := exists_of_mem_loadSpecs hs hspec
    refine ⟨a, ha, hid.symm, hids ▸ List.take_prefix _ _, ?_⟩
    by_contra hcomputed
    obtain ⟨b, bs, hb⟩ := List.exists_cons_of_length_pos (l := a.blockIds) (by omega)
    have hfirst : a.blockIds[0]? = some b := by
      rw [hb]
      rfl
    have hmem : b ∈ spec.gpuBlockIds := by
      rw [hids, hb]
      obtain ⟨m, rfl⟩ := Nat.exists_eq_succ_of_ne_zero (Nat.pos_iff_ne_zero.mp hn)
      exact List.mem_cons_self
    obtain ⟨l, ls, hls⟩ := List.exists_cons_of_ne_nil w.layers_ne
    have hl : w.layers[0]? = some l := by
      rw [hls]
      rfl
    have hzero := load_missing w.ones hl l.rows_pos hspec hmem
    obtain ⟨a', ha', j, hj, hfresh⟩ := h (fun _ => missing) w.ones 0 0 b (by
      rw [hzero]
      exact (Worker.ones_ne_zeros hl).symm)
    have := hshare a ha a' ha' 0 j b hfirst hj (by omega)
    omega
  · intro h outcome gpu k r b hne
    obtain ⟨spec, hspec, hb⟩ := mem_of_load_ne hne
    obtain ⟨a, ha, -, hpre, hcomputed⟩ := h spec hspec
    obtain ⟨j, hj⟩ := List.mem_iff_getElem?.mp (hpre.subset hb)
    refine ⟨a, ha, j, hj, hcomputed.trans_le ?_⟩
    exact Nat.le_mul_of_pos_left _ (Nat.succ_pos j)

def registered : Sched :=
  { Sched.initial with index := PrefixIndex.empty.registerPrefix sampleConfig [1, 2, 3, 4] 4 }

def computed (numComputed : Nat) : Admission := ⟨longRequest, numComputed, none, [7, 8, 9]⟩

theorem consistent_computed (n : Nat) : Consistent sampleConfig [computed n] := by
  intro a ha a' ha' j j' b hj hj' hle
  rw [List.mem_singleton.mp ha] at hj hle
  rw [List.mem_singleton.mp ha'] at hj' ⊢
  have hnodup : (computed n).blockIds.Nodup := by
    show [7, 8, 9].Nodup
    decide
  have hjj : j = j' := by
    obtain ⟨hlt, hget⟩ := List.getElem?_eq_some_iff.mp hj
    obtain ⟨hlt', hget'⟩ := List.getElem?_eq_some_iff.mp hj'
    exact (List.Nodup.getElem_inj_iff hnodup).mp (hget.trans hget'.symm)
  rw [← hjj]
  exact hle

theorem load_frame_uncomputed :
    (enterAll sampleConfig registered [computed 0]).loadSpecs sampleConfig ≠ [] ∧
      ∀ outcome gpu k r b, load Worker.sampleWorker
        ((enterAll sampleConfig registered [computed 0]).loadSpecs sampleConfig) outcome gpu k r b ≠
          gpu k r b → ∃ a ∈ [computed 0], a.Fresh sampleConfig b := by
  refine ⟨by decide +kernel, ?_⟩
  refine (load_frame_iff Worker.sampleWorker rfl (consistent_computed 0)).mpr ?_
  decide +kernel

theorem load_overwrites_computed :
    ∃ outcome gpu, load Worker.sampleWorker
        ((enterAll sampleConfig registered [computed 2]).loadSpecs sampleConfig) outcome gpu 0 0 7 ≠
          gpu 0 0 7 ∧ ¬ ∃ a ∈ [computed 2], a.Fresh sampleConfig 7 := by
  refine ⟨fun _ => missing, Worker.sampleWorker.ones, by decide +kernel, ?_⟩
  rintro ⟨a, ha, j, hj, hlt⟩
  cases List.mem_singleton.mp ha
  have hlt : 2 < (j + 1) * 2 := hlt
  have hj : [7, 8, 9][j]? = some 7 := hj
  grind

end Admission

end Connector

end ContextStore
