import ContextStore.Connector.Store

/-!
# vLLM connector: STORE のやり直しと、覚えたことの解放

`get_finished` は STORE を出す前に `_stored_keys` へ鍵を入れ、`_done_cb` は失敗しても消さない。
-/

namespace ContextStore

namespace Connector

open Conc

structure StoreWorker where
  storing : Storing
  outcomes : List (String × Bool)

inductive StoreWorkerStep where
  | bind (m : Meta)
  | finished (ids : List String)
  | done (spec : Spec) (ok : Bool)

namespace Storing

variable {w : Storing} {spec : Spec}

theorem inflightStores_submit_grows (id : String) :
    w.inflightStores <+: (w.submit id).inflightStores := by
  unfold submit
  split
  · exact List.prefix_rfl
  · split
    · exact List.prefix_rfl
    · exact List.prefix_append _ _

theorem inflightStores_getFinished_grows (ids : List String) :
    w.inflightStores <+: (w.getFinished ids).inflightStores := by
  unfold getFinished
  induction ids generalizing w with
  | nil => exact List.prefix_rfl
  | cons id ids ih => exact (inflightStores_submit_grows id).trans ih

theorem mem_submit {id : String} (hspec : w.storeSpecsByReq id = some spec)
    (hkey : spec.prefixKey ∉ w.storedKeys) : spec ∈ (w.submit id).inflightStores := by
  simp [submit, hspec, hkey]

theorem mem_getFinished {before after : List String} {id : String}
    (hspec : w.storeSpecsByReq id = some spec)
    (hkey : spec.prefixKey ∉ (w.getFinished before).storedKeys) :
    spec ∈ (w.getFinished (before ++ id :: after)).inflightStores := by
  have hbefore : (w.getFinished before).storeSpecsByReq id = some spec := by
    rw [storeSpecsByReq_getFinished, hspec]
  have hsplit : w.getFinished (before ++ id :: after) =
      ((w.getFinished before).submit id).getFinished after := List.foldl_append
  rw [hsplit]
  exact (inflightStores_getFinished_grows after).subset (mem_submit hbefore hkey)

theorem mem_storedKeys_getFinished {key : String} {ids : List String}
    (h : key ∈ (w.getFinished ids).storedKeys) :
    key ∈ w.storedKeys ∨ key ∈ (ids.filterMap w.storeSpecsByReq).map Spec.prefixKey := by
  unfold getFinished at h
  induction ids generalizing w with
  | nil => exact .inl h
  | cons id ids ih =>
    have hsubmit : key ∈ (w.submit id).storedKeys → key ∈ w.storedKeys ∨
        ∃ spec, w.storeSpecsByReq id = some spec ∧ spec.prefixKey = key := by
      unfold submit
      grind
    rcases ih h with h | h
    · grind
    · grind [storeSpecsByReq_submit]

def Marked (w : Storing) (outcomes : List (String × Bool)) : Prop :=
  ∀ key ∈ w.storedKeys, (∃ spec ∈ w.inflightStores, spec.prefixKey = key) ∨
    ∃ ok, (key, ok) ∈ outcomes

variable {outcomes : List (String × Bool)}

theorem Marked.submit (h : w.Marked outcomes) (id : String) : (w.submit id).Marked outcomes := by
  unfold Storing.submit
  split
  · exact h
  · split
    · exact h
    · intro key hkey
      rcases List.mem_cons.mp hkey with rfl | hkey
      · exact .inl ⟨_, List.mem_append_right _ List.mem_cons_self, rfl⟩
      · refine (h key hkey).imp_left ?_
        rintro ⟨spec, hspec, rfl⟩
        exact ⟨spec, List.mem_append_left _ hspec, rfl⟩

theorem Marked.getFinished (h : w.Marked outcomes) (ids : List String) :
    (w.getFinished ids).Marked outcomes := by
  unfold Storing.getFinished
  induction ids generalizing w with
  | nil => exact h
  | cons id ids ih => exact ih (h.submit id)

theorem Marked.doneCb (h : w.Marked outcomes) (spec : Spec) (ok : Bool) :
    (w.doneCb spec).Marked ((spec.prefixKey, ok) :: outcomes) := by
  intro key hkey
  rcases h key hkey with ⟨x, hx, rfl⟩ | ⟨ok', hout⟩
  · by_cases hsame : x = spec
    · exact .inr ⟨ok, hsame ▸ List.mem_cons_self⟩
    · exact .inl ⟨x, (List.mem_erase_of_ne hsame).mpr hx, rfl⟩
  · exact .inr ⟨ok', List.mem_cons_of_mem _ hout⟩

end Storing

namespace StoreWorker

def step (w : StoreWorker) : StoreWorkerStep → Option StoreWorker
  | .bind m => some { w with storing := w.storing.bindConnectorMetadata m }
  | .finished ids => some { w with storing := w.storing.getFinished ids }
  | .done spec ok =>
    if spec ∈ w.storing.inflightStores then
      some ⟨w.storing.doneCb spec, (spec.prefixKey, ok) :: w.outcomes⟩
    else none

def system : Transition StoreWorker StoreWorkerStep := ⟨⟨.initial, []⟩, step⟩

variable {w : StoreWorker}

theorem reach_marked {P : StoreWorker → StoreWorkerStep → Prop} (h : system.Reach P w) :
    w.storing.Marked w.outcomes := by
  refine h.invariant (I := fun w => w.storing.Marked w.outcomes) (fun _ h => nomatch h) ?_
  intro w e w' _ _ hw hs
  cases e with
  | bind m =>
    cases hs
    obtain ⟨hin, hkeys, -⟩ := Storing.bind_cases (w := w.storing) (m := m)
    unfold Storing.Marked
    rw [hin, hkeys]
    exact hw
  | finished ids =>
    cases hs
    exact hw.getFinished ids
  | done spec ok =>
    simp only [system, step] at hs
    split at hs
    · cases hs
      exact hw.doneCb spec ok
    · cases hs

theorem finished_submits {P : StoreWorker → StoreWorkerStep → Prop} (h : system.Reach P w)
    {before after : List String} {reqId : String} {spec : Spec}
    (hspec : w.storing.storeSpecsByReq reqId = some spec)
    (hrunning : ∀ x ∈ (w.storing.getFinished before).inflightStores,
      x.prefixKey ≠ spec.prefixKey)
    (hsuccess : (spec.prefixKey, true) ∉ w.outcomes)
    (hfailure : (spec.prefixKey, false) ∉ w.outcomes) :
    spec ∈ (w.storing.getFinished (before ++ reqId :: after)).inflightStores := by
  have hkey : spec.prefixKey ∉ (w.storing.getFinished before).storedKeys := by
    intro hmem
    rcases (reach_marked h).getFinished before _ hmem with ⟨x, hx, heq⟩ | ⟨ok, hout⟩
    · exact hrunning x hx heq
    · cases ok
      · exact hfailure hout
      · exact hsuccess hout
  exact Storing.mem_getFinished hspec hkey

def sharedSpec (reqId : String) : Spec := ⟨reqId, "k", [0], 2⟩

theorem finished_submits_second :
    ∃ w, system.Reach (fun _ _ => True) w ∧ w.outcomes = [("j", true)] ∧
      sharedSpec "b" ∈ (w.storing.getFinished ([] ++ "b" :: [])).inflightStores := by
  obtain ⟨w, hw, hcheck⟩ := Transition.Reach.exists_of_play (T := system)
    (P := fun _ _ => True) (fun _ _ => true) (fun _ _ _ => trivial)
    [.bind ⟨[⟨"a", "j", [1], 2⟩, sharedSpec "b"], []⟩, .finished ["a"],
      .done ⟨"a", "j", [1], 2⟩ true]
    (fun w => w.storing.storeSpecsByReq "b" == some (sharedSpec "b") &&
      w.storing.inflightStores.isEmpty && w.outcomes == [("j", true)]) (by decide +kernel)
  simp only [Bool.and_eq_true, beq_iff_eq, List.isEmpty_iff] at hcheck
  obtain ⟨⟨hspec, hin⟩, hout⟩ := hcheck
  have hother : ∀ ok, ((sharedSpec "b").prefixKey, ok) ∉ w.outcomes := by
    rw [hout]
    decide
  refine ⟨w, hw, hout, finished_submits hw hspec ?_ (hother true) (hother false)⟩
  simp [Storing.getFinished, hin]

/-- STORE が失敗した後は、同じ prefix の request が終わっても STORE を出さない。 -/
theorem failed_not_retried :
    ∃ w, system.Reach (fun _ _ => True) w ∧ w.outcomes = [("k", false)] ∧
      w.storing.inflightStores = [] ∧ w.storing.storeSpecsByReq "b" = some (sharedSpec "b") ∧
      (w.storing.getFinished ["b"]).inflightStores = [] := by
  obtain ⟨w, hw, hcheck⟩ := Transition.Reach.exists_of_play (T := system)
    (P := fun _ _ => True) (fun _ _ => true) (fun _ _ _ => trivial)
    [.bind ⟨[sharedSpec "a", sharedSpec "b"], []⟩, .finished ["a"], .done (sharedSpec "a") false]
    (fun w => w.outcomes == [("k", false)] && w.storing.inflightStores == [] &&
      w.storing.storeSpecsByReq "b" == some (sharedSpec "b") &&
      (w.storing.getFinished ["b"]).inflightStores == []) (by decide +kernel)
  simp only [Bool.and_eq_true, beq_iff_eq] at hcheck
  exact ⟨w, hw, hcheck.1.1.1, hcheck.1.1.2, hcheck.1.2, hcheck.2⟩

end StoreWorker

def EngineStep.allots (id : String) : EngineStep → Bool
  | .allot reqId _ _ => reqId == id
  | _ => false

namespace Engine

variable {c : Config} {s s' : Engine}

def unshared (s : Engine) : EngineStep → Bool
  | .forward order =>
    let keys := (order.filterMap s.storing.storeSpecsByReq).map Spec.prefixKey
    decide keys.Nodup && keys.all fun key => decide (key ∉ s.storing.storedKeys)
  | _ => true

structure Tracked (s : Engine) : Prop where
  quiet : s.batch = none → s.reporting = []
  pending : ∀ id, (s.storing.storeSpecsByReq id).isSome → Ended s.jobs id →
    id ∈ s.finished ∨ id ∈ s.reporting ∨ ∃ x ∈ s.storing.inflightStores, x.reqId = id

variable {id : String}

theorem getFinished_submits {w : Storing} {order : List String} {spec : Spec}
    (hnodup : ((order.filterMap w.storeSpecsByReq).map Spec.prefixKey).Nodup)
    (hfresh : spec.prefixKey ∉ w.storedKeys) (hid : id ∈ order)
    (hspec : w.storeSpecsByReq id = some spec) : spec ∈ (w.getFinished order).inflightStores := by
  obtain ⟨before, after, rfl⟩ := List.append_of_mem hid
  refine Storing.mem_getFinished hspec fun hmem => ?_
  rcases Storing.mem_storedKeys_getFinished hmem with hmem | hmem
  · exact hfresh hmem
  · rw [List.filterMap_append, List.filterMap_cons_some hspec, List.map_append] at hnodup
    exact (List.nodup_append.mp hnodup).2.2 _ hmem _ List.mem_cons_self rfl

theorem Ended.of_update {jobs : String → Option Job} {reqId id : String} {job : Job}
    (hphase : job.phase ≠ .finished) (h : Ended (Function.update jobs reqId (some job)) id) :
    Ended jobs id := by
  obtain ⟨job', hjob', hfin⟩ := h
  rcases update_eq_some hjob' with ⟨-, rfl⟩ | ⟨-, hjob'⟩
  · exact absurd hfin hphase
  · exact ⟨job', hjob', hfin⟩

theorem Tracked.move (h : s.Tracked) (hs : Sane c s) {e : EngineStep} (hu : s.unshared e = true)
    (hm : Move c s e s') : s'.Tracked := by
  cases hm with
  | add _ => exact ⟨h.quiet, fun id hid hend => h.pending id hid (.of_update (by simp) hend)⟩
  | sched _ _ => exact ⟨h.quiet, h.pending⟩
  | allot _ _ =>
    exact ⟨h.quiet, fun id hid hend => h.pending id hid (.of_update (by simp [Slot.placed]) hend)⟩
  | preempt _ _ _ _ =>
    exact ⟨h.quiet, fun id hid hend => h.pending id hid (.of_update (by simp) hend)⟩
  | build hbatch =>
    obtain ⟨hin, -, hspecs⟩ := Storing.bind_cases (w := s.storing)
      (m := (s.sched.buildConnectorMeta c (schedulerOutput s.plan)).2)
    refine ⟨nofun, fun id hid hend => ?_⟩
    obtain ⟨spec, hspec⟩ := Option.isSome_iff_exists.mp hid
    rcases hspecs id spec hspec with hold | ⟨hmem, rfl⟩
    · have := h.pending id (Option.isSome_of_mem hold) hend
      rw [h.quiet hbatch] at this
      show id ∈ [] ∨ id ∈ s.finished ∨ ∃ x ∈ (s.storing.bindConnectorMetadata _).inflightStores, _
      rw [hin]
      simpa using this
    ·
      obtain ⟨id, hactive, hstore⟩ := List.mem_filterMap.mp hmem
      obtain ⟨tokens, ids, n, -, -, -, -, rfl⟩ := Sched.storeSpec_eq_some hstore
      obtain ⟨x, hx, rfl⟩ := List.mem_map.mp (mem_activeReqIds hactive)
      obtain ⟨job, hjob, hfin⟩ := hend
      cases (hs.plan.jobs x hx).symm.trans hjob
      cases hfin
  | forward hb horder =>
    simp only [unshared, Bool.and_eq_true, decide_eq_true_eq, List.all_eq_true] at hu
    refine ⟨fun _ => rfl, fun id hid hend => ?_⟩
    have hid : ((s.storing.getFinished _).storeSpecsByReq id).isSome := hid
    rw [Storing.storeSpecsByReq_getFinished] at hid
    obtain ⟨spec, hspec⟩ := Option.isSome_iff_exists.mp hid
    have hkeyed := hs.recorded.keyed id spec hspec
    have hshape := (foldl_compute hs.placed (hs.batch _ hb)).2.1
    have hold : Ended s.jobs id := hend.grows (.of_shape fun id => (hshape id).symm)
    rcases h.pending id hid hold with hfin | hrep | ⟨x, hx, hxid⟩
    · exact .inl hfin
    · have hmem := horder.mem_iff.mpr hrep
      exact .inr (.inr ⟨spec, getFinished_submits hu.1 (hu.2 _ (List.mem_map_of_mem
        (List.mem_filterMap.mpr ⟨id, hmem, hspec⟩))) hmem hspec, hkeyed⟩)
    · exact .inr (.inr ⟨x, (Storing.inflightStores_getFinished_grows _).subset hx, hxid⟩)
  | finish hjob _ _ _ =>
    refine ⟨h.quiet, fun id hid hend => ?_⟩
    obtain ⟨job', hjob', hfin⟩ := hend
    rcases update_eq_some hjob' with ⟨rfl, -⟩ | ⟨-, hjob'⟩
    · exact .inl (List.mem_append_right _ List.mem_cons_self)
    · exact (h.pending id hid ⟨job', hjob', hfin⟩).imp_left (List.mem_append_left _)
  | copy _ => exact ⟨h.quiet, h.pending⟩
  | @done spec₀ _ =>
    refine ⟨h.quiet, fun id hid hend => ?_⟩
    obtain ⟨spec, hspec⟩ := Option.isSome_iff_exists.mp hid
    have hne : id ≠ spec₀.reqId := by
      rintro rfl
      simp [Storing.doneCb] at hspec
    have hold := Storing.storeSpecsByReq_doneCb hspec
    refine (h.pending id (Option.isSome_of_mem hold) hend).imp_right (Or.imp_right ?_)
    rintro ⟨x, hx, rfl⟩
    exact ⟨x, (List.mem_erase_of_ne fun heq => hne (congrArg Spec.reqId heq)).mpr hx, rfl⟩

theorem reach_tracked (h : (system c).Reach (fun s e => s.unshared e = true) s) : s.Tracked := by
  refine h.invariant (I := Tracked) ⟨fun _ => rfl, fun _ h => by cases h⟩ ?_
  intro s e s' hreach hu hs hstep
  exact hs.move (reach_sane hreach) hu (move_of_step hstep)

structure Unknown (id : String) (s : Engine) : Prop where
  table : ∀ job, s.jobs id = some job → job.table = []
  plan : id ∉ s.plan.map Slot.reqId
  prompt : s.sched.storePromptTokens id = none
  blocks : s.sched.storeBlockIds id = none
  spec : s.storing.storeSpecsByReq id = none

theorem Unknown.move (h : Unknown id s) (hs : Sane c s) {e : EngineStep}
    (he : e.allots id = false) (hm : Move c s e s') : Unknown id s' := by
  have hupdate : ∀ {reqId : String} {job' : Job}, (reqId = id → job'.table = []) → ∀ job,
      Function.update s.jobs reqId (some job') id = some job → job.table = [] := by
    intro reqId job' htable job hjob
    rcases update_eq_some hjob with ⟨rfl, rfl⟩ | ⟨-, hjob⟩
    · exact htable rfl
    · exact h.table job hjob
  cases hm with
  | add _ => exact ⟨hupdate fun _ => rfl, h.plan, h.prompt, h.blocks, h.spec⟩
  | sched hids hprompts =>
    exact ⟨h.table, h.plan, hprompts ▸ h.prompt, hids ▸ h.blocks, h.spec⟩
  | allot _ _ =>
    have hne := beq_eq_false_iff_ne.mp he
    refine ⟨hupdate fun heq => absurd heq hne, ?_, h.prompt, h.blocks, h.spec⟩
    simpa [Ne.symm hne] using h.plan
  | preempt _ _ _ _ => exact ⟨hupdate fun _ => rfl, h.plan, h.prompt, h.blocks, h.spec⟩
  | build _ =>
    refine ⟨h.table, List.not_mem_nil, ?_, (storeBlockIds_track_of_notMem h.plan).trans h.blocks,
      ?_⟩
    · refine Option.eq_none_iff_forall_ne_some.mpr fun tokens hprompt => ?_
      rcases storePromptTokens_track hprompt with hold | ⟨x, hx, rfl, -⟩
      · simp [h.prompt] at hold
      · exact h.plan (List.mem_map_of_mem hx)
    · refine Option.eq_none_iff_forall_ne_some.mpr fun spec hspec => ?_
      rcases Storing.bind_cases.2.2 id spec hspec with hold | ⟨hmem, rfl⟩
      · simp [h.spec] at hold
      · obtain ⟨id, hactive, hstore⟩ := List.mem_filterMap.mp hmem
        obtain ⟨tokens, ids, n, -, -, -, -, rfl⟩ := Sched.storeSpec_eq_some hstore
        exact h.plan (mem_activeReqIds hactive)
  | forward hb _ =>
    have hshape := (foldl_compute hs.placed (hs.batch _ hb)).2.1
    refine ⟨fun job hjob => ?_, h.plan, h.prompt, h.blocks, ?_⟩
    · obtain ⟨job', hjob', heq⟩ := exists_of_shape (fun id => (hshape id).symm) hjob
      simp only [shape, Prod.mk.injEq] at heq
      exact heq.2.2 ▸ h.table job' hjob'
    · exact (congrFun Storing.storeSpecsByReq_getFinished id).trans h.spec
  | finish hjob _ _ _ =>
    unfold Sched.requestFinished
    dsimp only
    split
    · exact ⟨hupdate fun _ => rfl, h.plan, h.prompt, h.blocks, h.spec⟩
    next hne =>
      refine ⟨hupdate fun _ => rfl, h.plan, h.prompt, ?_, h.spec⟩
      have hother : id ≠ _ := fun heq =>
        hne (List.isEmpty_iff.mpr (h.table _ (heq ▸ hjob)))
      exact (Function.update_of_ne hother _ _).trans h.blocks
  | copy _ => exact ⟨h.table, h.plan, h.prompt, h.blocks, h.spec⟩
  | done _ =>
    refine ⟨h.table, h.plan, h.prompt, h.blocks, ?_⟩
    refine Option.eq_none_iff_forall_ne_some.mpr fun spec hspec => ?_
    have := Storing.storeSpecsByReq_doneCb hspec
    simp [h.spec] at this

theorem reach_unknown
    (h : (system c).Reach (fun _ e => e.allots id = false) s) : Unknown id s := by
  refine h.invariant (I := Unknown id) ⟨fun _ h => (by cases h), List.not_mem_nil, rfl, rfl, rfl⟩ ?_
  intro s e s' hreach he hs hstep
  exact hs.move (reach_sane hreach) he (move_of_step hstep)

theorem tracking_released (c : Config) :
    (∀ s, (system c).Reach (fun s e => s.unshared e = true) s → s.finished = [] →
      s.reporting = [] → s.storing.inflightStores = [] →
      ∀ id, Ended s.jobs id → s.storing.storeSpecsByReq id = none) ∧
    ∀ s id, (system c).Reach (fun _ e => e.allots id = false) s →
      s.sched.storePromptTokens id = none ∧ s.sched.storeBlockIds id = none ∧
      s.storing.storeSpecsByReq id = none := by
  refine ⟨fun s h hfinished hreporting hinflight id hend => ?_, fun s id h => ?_⟩
  · have hpending := (reach_tracked h).pending id
    rw [hfinished, hreporting, hinflight] at hpending
    refine Option.not_isSome_iff_eq_none.mp fun hsome => ?_
    simpa using hpending hsome hend
  · obtain ⟨-, -, hprompt, hblocks, hspec⟩ := reach_unknown h
    exact ⟨hprompt, hblocks, hspec⟩

theorem tracking_released_one :
    ∃ s, (system sampleConfig).Reach (fun s e => s.unshared e = true) s ∧ Ended s.jobs "a" ∧
      s.storing.storeSpecsByReq "a" = none ∧ (s.jobs "b").isSome ∧
      s.sched.storePromptTokens "b" = none ∧ s.sched.storeBlockIds "b" = none ∧
      s.storing.storeSpecsByReq "b" = none := by
  obtain ⟨s, hs, hcheck⟩ := Transition.Reach.exists_of_play (T := system sampleConfig)
    (P := fun s e => s.unshared e = true ∧ e.allots "b" = false)
    (fun s e => s.unshared e && !e.allots "b") (fun _ _ h => by simpa using h)
    (storeRun ++ [.build, .forward ["a"],
      .done ⟨"a", sampleConfig.prefixKey [1, 2, 3, 4, 5] 4, [7, 8], 4⟩])
    (fun s => s.finished == [] && s.reporting == [] && s.storing.inflightStores == [] &&
      ((s.jobs "a").any fun job => job.phase == .finished) && (s.jobs "b").isSome)
    (by decide +kernel)
  simp only [Bool.and_eq_true, beq_iff_eq, Option.any_eq_true] at hcheck
  obtain ⟨⟨⟨⟨hfin, hrep⟩, hin⟩, hend⟩, hadded⟩ := hcheck
  have hunshared := hs.mono fun _ _ h => h.1
  obtain ⟨hreleased, hunknown⟩ := tracking_released sampleConfig
  exact ⟨s, hunshared, hend, hreleased s hunshared hfin hrep hin "a" hend, hadded,
    hunknown s "b" (hs.mono fun _ _ h => h.2)⟩

def sharedRun : List EngineStep :=
  [.add "a" [1, 2], .add "b" [1, 2], .allot "a" 2 [7], .allot "b" 2 [8], .build, .forward [],
    .finish "a", .finish "b", .build, .forward ["a", "b"],
    .done ⟨"a", sampleConfig.prefixKey [1, 2] 2, [7], 2⟩]

/-- 2 つとも終わり STORE も終わったのに、scheduler の表と worker の表に残る。 -/
theorem tracking_left :
    ∃ s, (system sampleConfig).Reach (fun _ _ => True) s ∧ s.finished = [] ∧ s.reporting = [] ∧
      s.storing.inflightStores = [] ∧ (∀ id ∈ ["a", "b"], Ended s.jobs id) ∧
      s.sched.storePromptTokens "a" = some [1, 2] ∧ s.sched.storeBlockIds "a" = some [7] ∧
      (s.storing.storeSpecsByReq "b").isSome := by
  obtain ⟨s, hs, hcheck⟩ := Transition.Reach.exists_of_play (T := system sampleConfig)
    (P := fun _ _ => True) (fun _ _ => true) (fun _ _ _ => trivial) sharedRun
    (fun s => s.finished == [] && s.reporting == [] && s.storing.inflightStores == [] &&
      (["a", "b"].all fun id => (s.jobs id).any fun job => job.phase == .finished) &&
      s.sched.storePromptTokens "a" == some [1, 2] && s.sched.storeBlockIds "a" == some [7] &&
      (s.storing.storeSpecsByReq "b").isSome) (by decide +kernel)
  simp only [Bool.and_eq_true, beq_iff_eq, List.all_eq_true, Option.any_eq_true] at hcheck
  obtain ⟨⟨⟨⟨⟨⟨hfin, hrep⟩, hin⟩, hend⟩, hprompt⟩, hblocks⟩, hspec⟩ := hcheck
  exact ⟨s, hs, hfin, hrep, hin, hend, hprompt, hblocks, hspec⟩

end Engine

end Connector

end ContextStore
