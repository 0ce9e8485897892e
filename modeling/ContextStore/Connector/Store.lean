import ContextStore.Connector.Engine
import ContextStore.Util.KeyedFold
import Mathlib.Data.List.Dedup

/-!
# vLLM connector: STORE が読む block

STORE の指示は block が足りた step で覚えられ、request が終わった後に実行される。
-/

namespace ContextStore

namespace Connector

open Conc

namespace Sched

variable {c : Config} {s : Sched}

variable {r : NewRequest} {id : String}

theorem storeBlockIds_trackNew_of_ne (h : id ≠ r.reqId) :
    (trackNew s r).storeBlockIds id = s.storeBlockIds id := by
  unfold trackNew
  dsimp only
  split <;> split <;> simp [Function.update_of_ne h]

theorem storeBlockIds_trackNew {b : Nat} {bs : List Nat}
    (h : r.blockIds = [b :: bs]) : (trackNew s r).storeBlockIds r.reqId = some (b :: bs) := by
  unfold trackNew
  simp [h]

theorem storePromptTokens_trackNew {tokens : List Nat}
    (h : (trackNew s r).storePromptTokens id = some tokens) :
    s.storePromptTokens id = some tokens ∨ (id = r.reqId ∧ tokens = r.promptTokenIds) := by
  have hsame : (trackNew s r).storePromptTokens = if r.promptTokenIds.isEmpty then
      s.storePromptTokens
      else Function.update s.storePromptTokens r.reqId (some r.promptTokenIds) := by
    unfold trackNew
    dsimp only
    split <;> split <;> rfl
  rw [hsame] at h
  grind

theorem storeBlockIds_trackCached_of_ne {resumed : List String}
    {r : String × Option (List (List Nat))} (h : id ≠ r.1) :
    (trackCached resumed s r).storeBlockIds id = s.storeBlockIds id := by
  unfold trackCached
  split
  · simp [Function.update_of_ne h]
  · rfl

theorem storePromptTokens_trackCached {resumed : List String}
    {r : String × Option (List (List Nat))} :
    (trackCached resumed s r).storePromptTokens = s.storePromptTokens := by
  unfold trackCached
  split <;> rfl

theorem storeSpec_eq_some {reqId : String} {spec : Spec} (h : s.storeSpec c reqId = some spec) :
    ∃ tokens ids n, s.storePromptTokens reqId = some tokens ∧ s.storeBlockIds reqId = some ids ∧
      0 < n ∧ n ≤ ids.length ∧
      spec = ⟨reqId, c.prefixKey tokens (n * c.blockSize), ids.take n, n * c.blockSize⟩ := by
  unfold storeSpec at h
  split at h
  next tokens ids htokens hids =>
    grind
  · cases h

end Sched

section Track

variable {c : Config} {s : Sched} {plan : List Slot}

theorem cached_zip (plan : List Slot) :
    (schedulerOutput plan).cachedReqIds.zip (schedulerOutput plan).cachedNewBlockIds =
      (plan.filter fun x => !x.isNew).map fun x => (x.reqId, x.newBlockIds) := by
  unfold schedulerOutput
  rw [List.zip_map']

variable {id : String}

theorem mem_activeReqIds (h : id ∈ Sched.activeReqIds (schedulerOutput plan)) :
    id ∈ plan.map Slot.reqId := by
  rw [Sched.activeReqIds, List.mem_dedup, List.mem_append] at h
  rcases h with h | h
  · obtain ⟨r, hr, rfl⟩ := List.mem_map.mp h
    obtain ⟨x, hx, rfl⟩ := List.mem_map.mp hr
    exact List.mem_map_of_mem (List.mem_of_mem_filter hx)
  · obtain ⟨x, hx, rfl⟩ := List.mem_map.mp h
    exact List.mem_map_of_mem (List.mem_of_mem_filter hx)

theorem storeBlockIds_foldl_trackCached {resumed : List String}
    {rs : List (String × Option (List (List Nat)))} (h : id ∉ rs.map Prod.fst) :
    (rs.foldl (Sched.trackCached resumed) s).storeBlockIds id = s.storeBlockIds id :=
  foldl_of_notMem (g := Sched.storeBlockIds)
    (fun _ _ _ => Sched.storeBlockIds_trackCached_of_ne) h s

theorem storeBlockIds_foldl_trackNew {rs : List NewRequest}
    (h : id ∉ rs.map NewRequest.reqId) :
    (rs.foldl Sched.trackNew s).storeBlockIds id = s.storeBlockIds id :=
  foldl_of_notMem (g := Sched.storeBlockIds) (fun _ _ _ => Sched.storeBlockIds_trackNew_of_ne) h s

theorem storeBlockIds_track_of_notMem (h : id ∉ plan.map Slot.reqId) :
    (s.track (schedulerOutput plan)).storeBlockIds id = s.storeBlockIds id := by
  unfold Sched.track
  rw [storeBlockIds_foldl_trackCached, storeBlockIds_foldl_trackNew]
  · intro hmem
    obtain ⟨r, hr, rfl⟩ := List.mem_map.mp hmem
    obtain ⟨x, hx, rfl⟩ := List.mem_map.mp hr
    exact h (List.mem_map_of_mem (List.mem_of_mem_filter hx))
  · rw [cached_zip]
    simp_all

theorem storeBlockIds_track (hnodup : (plan.map Slot.reqId).Nodup) {x : Slot} (hx : x ∈ plan)
    (hrunning : x.job.phase = .running → s.storeBlockIds x.reqId = some x.job.table)
    (hidle : x.job.phase ≠ .running → x.job.table = []) (hphase : x.job.phase ≠ .finished)
    (hne : x.job.table ++ x.blocks ≠ []) :
    (s.track (schedulerOutput plan)).storeBlockIds x.reqId = some (x.job.table ++ x.blocks) := by
  have hsame : ∀ y ∈ plan, y.reqId = x.reqId → y = x := fun y hy heq =>
    List.inj_on_of_nodup_map hnodup hy hx heq
  have hnew : ((schedulerOutput plan).scheduledNewReqs.map NewRequest.reqId).Nodup := by
    rw [show (schedulerOutput plan).scheduledNewReqs.map NewRequest.reqId =
      (plan.filter Slot.isNew).map Slot.reqId by simp [schedulerOutput]]
    exact hnodup.sublist ((List.filter_sublist).map _)
  have hcached : (((plan.filter fun x => !x.isNew).map fun x =>
      (x.reqId, x.newBlockIds)).map Prod.fst).Nodup := by
    rw [List.map_map]
    exact hnodup.sublist ((List.filter_sublist).map _)
  unfold Sched.track
  rw [cached_zip]
  by_cases hisnew : x.isNew = true
  ·
    have htable : x.job.table = [] := hidle (by
      rw [beq_iff_eq.mp hisnew]
      decide)
    have hout : x.reqId ∉ ((plan.filter fun x => !x.isNew).map fun x =>
        (x.reqId, x.newBlockIds)).map Prod.fst := by
      grind
    rw [storeBlockIds_foldl_trackCached hout]
    have hmem : (⟨x.reqId, x.job.prompt, [x.blocks]⟩ : NewRequest) ∈
        (schedulerOutput plan).scheduledNewReqs :=
      List.mem_map_of_mem (List.mem_filter.mpr ⟨hx, hisnew⟩)
    obtain ⟨s', -, hs'⟩ := foldl_of_mem (g := Sched.storeBlockIds) (k := NewRequest.reqId)
      (fun _ _ _ => Sched.storeBlockIds_trackNew_of_ne) hnew hmem s
    rw [hs', htable]
    rw [htable, List.nil_append] at hne
    obtain ⟨b, bs, hbs⟩ := List.exists_cons_of_ne_nil hne
    rw [List.nil_append, hbs]
    exact Sched.storeBlockIds_trackNew rfl
  · have hmem : (x.reqId, x.newBlockIds) ∈ (plan.filter fun x => !x.isNew).map fun x =>
        (x.reqId, x.newBlockIds) :=
      List.mem_map_of_mem (List.mem_filter.mpr ⟨hx, by simpa using hisnew⟩)
    obtain ⟨s', hbefore, hs'⟩ := foldl_of_mem (g := Sched.storeBlockIds) (k := Prod.fst)
      (f := Sched.trackCached (schedulerOutput plan).resumedReqIds)
      (fun _ _ _ => Sched.storeBlockIds_trackCached_of_ne) hcached hmem
      ((schedulerOutput plan).scheduledNewReqs.foldl Sched.trackNew s)
    have hout : x.reqId ∉ (schedulerOutput plan).scheduledNewReqs.map NewRequest.reqId := by
      intro hmem
      obtain ⟨r, hr, heq⟩ := List.mem_map.mp hmem
      obtain ⟨y, hy, rfl⟩ := List.mem_map.mp hr
      grind
    rw [storeBlockIds_foldl_trackNew hout] at hbefore
    have hresumed : x.reqId ∈ (schedulerOutput plan).resumedReqIds ↔ x.isResumed = true := by
      constructor
      · intro hmem
        obtain ⟨y, hy, heq⟩ := List.mem_map.mp hmem
        grind
      · intro hyes
        exact List.mem_map_of_mem (List.mem_filter.mpr ⟨hx, hyes⟩)
    refine hs'.trans ?_
    unfold Sched.trackCached Slot.newBlockIds
    by_cases hrun : x.job.phase = .running
    · have hnot : x.isResumed = false := by simp [Slot.isResumed, hrun]
      cases hblocks : x.blocks with
      | nil => simp [hbefore, hrunning hrun]
      | cons b bs => simp [hresumed, hnot, hbefore, hrunning hrun]
    ·
      have hpre : x.isResumed = true := by
        unfold Slot.isNew at hisnew
        unfold Slot.isResumed
        cases hp : x.job.phase <;> simp_all
      rw [hidle hrun, List.nil_append] at hne ⊢
      obtain ⟨b, bs, hbs⟩ := List.exists_cons_of_ne_nil hne
      simp [hbs, hresumed, hpre]

theorem storePromptTokens_track {tokens : List Nat}
    (h : (s.track (schedulerOutput plan)).storePromptTokens id = some tokens) :
    s.storePromptTokens id = some tokens ∨
      ∃ x ∈ plan, x.reqId = id ∧ x.job.prompt = tokens := by
  have hcached : ∀ (rs : List (String × Option (List (List Nat)))) (s : Sched),
      (rs.foldl (Sched.trackCached (schedulerOutput plan).resumedReqIds) s).storePromptTokens =
        s.storePromptTokens := by
    intro rs
    induction rs with
    | nil => intro s; rfl
    | cons r rs ih =>
      intro s
      rw [List.foldl_cons, ih, Sched.storePromptTokens_trackCached]
  have hnew : ∀ (rs : List NewRequest) (s : Sched),
      (rs.foldl Sched.trackNew s).storePromptTokens id = some tokens →
      s.storePromptTokens id = some tokens ∨
        ∃ r ∈ rs, r.reqId = id ∧ r.promptTokenIds = tokens := by
    intro rs
    induction rs with
    | nil => exact fun s h => .inl h
    | cons r rs ih =>
      intro s h
      rcases ih _ h with h | ⟨r', hr', h⟩
      · grind [Sched.storePromptTokens_trackNew, List.mem_cons_self]
      · exact .inr ⟨r', List.mem_cons_of_mem _ hr', h⟩
  unfold Sched.track at h
  rw [hcached] at h
  refine (hnew _ s h).imp_right ?_
  rintro ⟨r, hr, rfl, rfl⟩
  obtain ⟨x, hx, rfl⟩ := List.mem_map.mp hr
  exact ⟨x, List.mem_of_mem_filter hx, rfl, rfl⟩

end Track

namespace Storing

variable {w : Storing} {spec : Spec}

def unsaved (w : Storing) (reqId : String) : Option Spec :=
  (w.storeSpecsByReq reqId).filter fun spec => decide (spec.prefixKey ∉ w.storedKeys)

def Awaits (w : Storing) (spec : Spec) : Prop :=
  spec ∈ w.inflightStores ∨ w.unsaved spec.reqId = some spec

def Keyed (w : Storing) : Prop :=
  ∀ id spec, w.storeSpecsByReq id = some spec → spec.reqId = id

variable {id : String}

theorem unsaved_eq_some : w.unsaved id = some spec ↔
    w.storeSpecsByReq id = some spec ∧ spec.prefixKey ∉ w.storedKeys := by
  unfold unsaved
  rw [Option.filter_eq_some_iff, decide_eq_true_eq]

@[simp] theorem storeSpecsByReq_submit :
    (w.submit id).storeSpecsByReq = w.storeSpecsByReq := by
  unfold submit
  split
  · rfl
  · split <;> rfl

@[simp] theorem storeSpecsByReq_getFinished {ids : List String} :
    (w.getFinished ids).storeSpecsByReq = w.storeSpecsByReq := by
  unfold getFinished
  induction ids generalizing w with
  | nil => rfl
  | cons id ids ih => rw [List.foldl_cons, ih, storeSpecsByReq_submit]

theorem submit_cases (id : String) (hk : w.Keyed) :
    (∀ spec ∈ (w.submit id).inflightStores, spec ∈ w.inflightStores ∨
      (spec.reqId = id ∧ w.unsaved id = some spec)) ∧
    ∀ spec, (w.submit id).Awaits spec → w.Awaits spec := by
  unfold submit
  cases hspec : w.storeSpecsByReq id with
  | none => exact ⟨fun spec h => .inl h, fun spec h => h⟩
  | some spec₀ =>
    dsimp only
    split
    · exact ⟨fun spec h => .inl h, fun spec h => h⟩
    next hkey =>
      have hunsaved : w.unsaved id = some spec₀ := unsaved_eq_some.mpr ⟨hspec, hkey⟩
      have hid := hk id spec₀ hspec
      have hmem : ∀ spec ∈ w.inflightStores ++ [spec₀], spec ∈ w.inflightStores ∨
          (spec.reqId = id ∧ w.unsaved id = some spec) := by
        grind
      refine ⟨hmem, ?_⟩
      rintro spec (h | h)
      · rcases hmem spec h with h | ⟨heq, h⟩
        · exact .inl h
        · exact .inr (heq ▸ h)
      · obtain ⟨h, hnot⟩ := unsaved_eq_some.mp h
        exact .inr (unsaved_eq_some.mpr ⟨h, fun hmem => hnot (List.mem_cons_of_mem _ hmem)⟩)

theorem getFinished_cases (ids : List String) (hk : w.Keyed) :
    (∀ spec ∈ (w.getFinished ids).inflightStores, spec ∈ w.inflightStores ∨
      (spec.reqId ∈ ids ∧ w.storeSpecsByReq spec.reqId = some spec)) ∧
    ∀ spec, (w.getFinished ids).Awaits spec → w.Awaits spec := by
  unfold getFinished
  induction ids generalizing w with
  | nil => exact ⟨fun spec h => .inl h, fun spec h => h⟩
  | cons id ids ih =>
    have hk' : (w.submit id).Keyed := by
      intro id' spec h
      rw [storeSpecsByReq_submit] at h
      exact hk id' spec h
    obtain ⟨hin, hawaits⟩ := ih hk'
    obtain ⟨hin₁, hawaits₁⟩ := submit_cases id hk
    refine ⟨fun spec h => ?_, fun spec h => hawaits₁ spec (hawaits spec h)⟩
    rcases hin spec h with h | ⟨hmem, h⟩
    · rcases hin₁ spec h with h | ⟨rfl, h⟩
      · exact .inl h
      · exact .inr ⟨List.mem_cons_self, (unsaved_eq_some.mp h).1⟩
    · rw [storeSpecsByReq_submit] at h
      exact .inr ⟨List.mem_cons_of_mem _ hmem, h⟩

theorem awaits_of_doneCb {spec₀ : Spec} (h : (w.doneCb spec₀).Awaits spec) : w.Awaits spec := by
  rcases h with h | h
  · exact .inl (List.mem_of_mem_erase h)
  · obtain ⟨h, hnot⟩ := unsaved_eq_some.mp h
    by_cases hid : spec.reqId = spec₀.reqId
    · simp [doneCb, hid] at h
    · simp only [doneCb, Function.update_of_ne hid] at h
      exact .inr (unsaved_eq_some.mpr ⟨h, hnot⟩)

theorem storeSpecsByReq_doneCb {spec₀ : Spec}
    (h : (w.doneCb spec₀).storeSpecsByReq id = some spec) : w.storeSpecsByReq id = some spec := by
  by_cases hid : id = spec₀.reqId
  · simp [doneCb, hid] at h
  · simpa only [doneCb, Function.update_of_ne hid] using h

theorem bind_cases {m : Meta} :
    (w.bindConnectorMetadata m).inflightStores = w.inflightStores ∧
    (w.bindConnectorMetadata m).storedKeys = w.storedKeys ∧
    ∀ id spec, (w.bindConnectorMetadata m).storeSpecsByReq id = some spec →
      w.storeSpecsByReq id = some spec ∨ (spec ∈ m.storeSpecs ∧ spec.reqId = id) := by
  unfold bindConnectorMetadata
  induction m.storeSpecs generalizing w with
  | nil => exact ⟨rfl, rfl, fun id spec h => .inl h⟩
  | cons spec₀ specs ih =>
    obtain ⟨hin, hkeys, hspecs⟩ := ih (w := w.remember spec₀)
    refine ⟨hin, hkeys, fun id spec h => ?_⟩
    rcases hspecs id spec h with h | ⟨hmem, hid⟩
    · by_cases hid : id = spec₀.reqId
      · simp_all [remember]
      · simp only [remember, Function.update_of_ne hid] at h
        exact .inl h
    · exact .inr ⟨List.mem_cons_of_mem _ hmem, hid⟩

theorem awaits_of_bind {m : Meta} (h : (w.bindConnectorMetadata m).Awaits spec) :
    w.Awaits spec ∨ spec ∈ m.storeSpecs := by
  obtain ⟨hin, hkeys, hspecs⟩ := bind_cases (w := w) (m := m)
  rcases h with h | h
  · rw [hin] at h
    exact .inl (.inl h)
  · obtain ⟨h, hnot⟩ := unsaved_eq_some.mp h
    rw [hkeys] at hnot
    rcases hspecs _ _ h with h | ⟨hmem, -⟩
    · exact .inl (.inr (unsaved_eq_some.mpr ⟨h, hnot⟩))
    · exact .inr hmem

end Storing

namespace Engine

variable {c : Config} {s s' : Engine} {jobs jobs' : String → Option Job} {cells : Nat → Cell}

/-! ## forward -/

def shape (job : Job) : List Nat × Phase × List Nat := (job.prompt, job.phase, job.table)

structure Scheduled (c : Config) (jobs : String → Option Job) (slots : List Slot) : Prop where
  nodup : (slots.map Slot.reqId).Nodup
  jobs : ∀ x ∈ slots, jobs x.reqId = some x.placed
  phase : ∀ x ∈ slots, x.job.phase ≠ .finished
  idle : ∀ x ∈ slots, x.job.phase ≠ .running → x.job.table = []
  tokens : ∀ x ∈ slots, 0 < x.tokens
  room : ∀ x ∈ slots,
    x.job.computed + x.tokens ≤ (x.job.table ++ x.blocks).length * c.blockSize

theorem Scheduled.nil : Scheduled c jobs [] := by
  refine ⟨List.nodup_nil, ?_, ?_, ?_, ?_, ?_⟩ <;> exact fun _ h => nomatch h

variable {slots : List Slot}

theorem Scheduled.table_ne_nil (h : Scheduled c jobs slots) {x : Slot}
    (hx : x ∈ slots) : x.job.table ++ x.blocks ≠ [] := by
  intro hnil
  have htokens := h.tokens x hx
  have hroom := h.room x hx
  simp [hnil] at hroom
  omega

theorem Scheduled.congr (h : Scheduled c jobs slots)
    (hjobs : ∀ x ∈ slots, jobs' x.reqId = jobs x.reqId) : Scheduled c jobs' slots :=
  ⟨h.nodup, fun x hx => (hjobs x hx).trans (h.jobs x hx), h.phase, h.idle, h.tokens, h.room⟩

theorem Scheduled.tail {x : Slot} (h : Scheduled c jobs (x :: slots)) :
    Scheduled c jobs slots :=
  ⟨(List.nodup_cons.mp h.nodup).2, (List.forall_mem_cons.mp h.jobs).2,
    (List.forall_mem_cons.mp h.phase).2, (List.forall_mem_cons.mp h.idle).2,
    (List.forall_mem_cons.mp h.tokens).2, (List.forall_mem_cons.mp h.room).2⟩

theorem Scheduled.append {x : Slot} (h : Scheduled c jobs slots)
    (hfresh : x.reqId ∉ slots.map Slot.reqId) (hx : Scheduled c jobs [x]) :
    Scheduled c jobs (slots ++ [x]) := by
  refine ⟨?_, List.forall_mem_append.mpr ⟨h.jobs, hx.jobs⟩,
    List.forall_mem_append.mpr ⟨h.phase, hx.phase⟩, List.forall_mem_append.mpr ⟨h.idle, hx.idle⟩,
    List.forall_mem_append.mpr ⟨h.tokens, hx.tokens⟩,
    List.forall_mem_append.mpr ⟨h.room, hx.room⟩⟩
  rw [List.map_append, List.map_singleton]
  exact List.nodup_append'.mpr ⟨h.nodup, List.nodup_singleton _, by simpa using hfresh⟩

theorem foldl_compute (hp : Placed c jobs cells)
    (hs : Scheduled c jobs slots) :
    Placed c (slots.foldl (compute c) (jobs, cells)).1 (slots.foldl (compute c) (jobs, cells)).2 ∧
    (∀ id, ((slots.foldl (compute c) (jobs, cells)).1 id).map shape = (jobs id).map shape) ∧
    ∀ b, (cells b).held = false → (slots.foldl (compute c) (jobs, cells)).2 b = cells b := by
  induction slots generalizing jobs cells with
  | nil => exact ⟨hp, fun _ => rfl, fun _ _ => rfl⟩
  | cons x slots ih =>
    have hx := hs.jobs x List.mem_cons_self
    have hstep : compute c (jobs, cells) x =
        (Function.update jobs x.reqId
          (some { x.placed with computed := x.placed.computed + x.tokens }),
          fill c x.reqId x.placed x.tokens cells) := by
      unfold compute
      dsimp only
      rw [hx]
    have hother : ∀ y ∈ slots, y.reqId ≠ x.reqId := by
      intro y hy heq
      have hnot := (List.nodup_cons.mp hs.nodup).1
      exact hnot (heq ▸ List.mem_map_of_mem hy)
    rw [List.foldl_cons, hstep]
    obtain ⟨hplaced, hshape, hfree⟩ := ih
      (hp.fill hx (hs.room x List.mem_cons_self))
      (hs.tail.congr fun y hy => Function.update_of_ne (hother y hy) _ _)
    refine ⟨hplaced, fun id => (hshape id).trans ?_, fun b hb => ?_⟩
    · by_cases hid : id = x.reqId
      · subst hid
        rw [Function.update_self, hx]
        rfl
      · rw [Function.update_of_ne hid]
    · have hout : b ∉ x.placed.table := by
        intro hmem
        have hheld := (hp.held x.reqId x.placed hx b hmem).1
        rw [hb] at hheld
        cases hheld
      rw [hfree b (by rw [held_fill]; exact hb), fill_of_notMem hout]

def Grows (jobs jobs' : String → Option Job) : Prop :=
  ∀ id job, jobs id = some job → ∃ job', jobs' id = some job' ∧ job'.prompt = job.prompt ∧
    (job.phase = .finished → job'.phase = .finished)

theorem Grows.refl : Grows jobs jobs := fun _ job h => ⟨job, h, rfl, fun h => h⟩

theorem Grows.update {reqId : String} {job' : Job}
    (h : ∀ job, jobs reqId = some job →
      job'.prompt = job.prompt ∧ (job.phase = .finished → job'.phase = .finished)) :
    Grows jobs (Function.update jobs reqId (some job')) := by
  intro id job hjob
  grind

theorem exists_of_shape (h : ∀ id, (jobs' id).map shape = (jobs id).map shape) {id : String}
    {job : Job} (hjob : jobs id = some job) :
    ∃ job', jobs' id = some job' ∧ shape job' = shape job := by
  grind [Option.map_eq_some_iff]

theorem Grows.of_shape (h : ∀ id, (jobs' id).map shape = (jobs id).map shape) :
    Grows jobs jobs' := by
  intro id job hjob
  obtain ⟨job', hjob', hshape⟩ := exists_of_shape h hjob
  simp only [shape, Prod.mk.injEq] at hshape
  exact ⟨job', hjob', hshape.1, fun hfin => hshape.2.1.trans hfin⟩

def Names (c : Config) (jobs : String → Option Job) (spec : Spec) : Prop :=
  spec.gpuBlockIds ≠ [] ∧ spec.numTokens = spec.gpuBlockIds.length * c.blockSize ∧
    ∃ job, jobs spec.reqId = some job ∧ spec.prefixKey = c.prefixKey job.prompt spec.numTokens

variable {spec : Spec}

theorem Names.grows (h : Names c jobs spec) (hg : Grows jobs jobs') :
    Names c jobs' spec := by
  obtain ⟨hne, htokens, job, hjob, hkey⟩ := h
  obtain ⟨job', hjob', hprompt, -⟩ := hg _ job hjob
  exact ⟨hne, htokens, job', hjob', by rw [hprompt]; exact hkey⟩

def Ended (jobs : String → Option Job) (id : String) : Prop :=
  ∃ job, jobs id = some job ∧ job.phase = .finished

theorem Ended.grows {id : String} (h : Ended jobs id) (hg : Grows jobs jobs') : Ended jobs' id := by
  obtain ⟨job, hjob, hphase⟩ := h
  obtain ⟨job', hjob', -, hfin⟩ := hg id job hjob
  exact ⟨job', hjob', hfin hphase⟩

structure Recorded (c : Config) (s : Engine) : Prop where
  prompts : ∀ id tokens, s.sched.storePromptTokens id = some tokens →
    ∃ job, s.jobs id = some job ∧ job.prompt = tokens
  ended : ∀ id, id ∈ s.finished ∨ id ∈ s.reporting → Ended s.jobs id
  keyed : s.storing.Keyed
  remembered : ∀ id spec, s.storing.storeSpecsByReq id = some spec → Names c s.jobs spec
  inflight : ∀ spec ∈ s.storing.inflightStores, Names c s.jobs spec ∧ Ended s.jobs spec.reqId

theorem Recorded.grows (h : Recorded c s) (hg : Grows s.jobs s'.jobs)
    (hsched : s'.sched.storePromptTokens = s.sched.storePromptTokens)
    (hended : ∀ id, id ∈ s'.finished ∨ id ∈ s'.reporting →
      Ended s'.jobs id ∨ id ∈ s.finished ∨ id ∈ s.reporting)
    (hstoring : s'.storing = s.storing) : Recorded c s' := by
  refine ⟨fun id tokens hprompt => ?_, fun id hid => ?_, ?_, fun id spec hspec => ?_,
    fun spec hspec => ?_⟩
  · rw [hsched] at hprompt
    obtain ⟨job, hjob, heq⟩ := h.prompts id tokens hprompt
    obtain ⟨job', hjob', hsame, -⟩ := hg id job hjob
    exact ⟨job', hjob', hsame.trans heq⟩
  · rcases hended id hid with hid | hid
    · exact hid
    · exact (h.ended id hid).grows hg
  · rw [hstoring]
    exact h.keyed
  · rw [hstoring] at hspec
    exact (h.remembered id spec hspec).grows hg
  · rw [hstoring] at hspec
    obtain ⟨hnames, hend⟩ := h.inflight spec hspec
    exact ⟨hnames.grows hg, hend.grows hg⟩

structure Sane (c : Config) (s : Engine) : Prop where
  placed : Placed c s.jobs s.cells
  plan : Scheduled c s.jobs s.plan
  batch : ∀ slots, s.batch = some slots → Scheduled c s.jobs slots
  planEmpty : ∀ slots, s.batch = some slots → s.plan = []
  tracked : ∀ id job, s.jobs id = some job → job.phase = .running →
    id ∉ s.plan.map Slot.reqId → s.sched.storeBlockIds id = some job.table
  planned : ∀ x ∈ s.plan, x.job.phase = .running →
    s.sched.storeBlockIds x.reqId = some x.job.table
  recorded : Recorded c s

theorem Sane.start : Sane c initial := by
  refine ⟨⟨?_, ?_, ?_, ?_, ?_, ?_⟩, .nil, ?_, ?_, ?_, ?_, ⟨?_, ?_, ?_, ?_, ?_⟩⟩
  all_goals simp [initial, Sched.initial, Storing.initial, Storing.Keyed]

/-- 1 手の中身。 -/
inductive Move (c : Config) (s : Engine) : EngineStep → Engine → Prop where
  | add {reqId : String} {prompt : List Nat} (h : s.jobs reqId = none) :
      Move c s (.add reqId prompt)
        { s with jobs := Function.update s.jobs reqId (some ⟨prompt, .waiting, [], 0⟩) }
  | sched {e : EngineStep} {sched : Sched} (hids : sched.storeBlockIds = s.sched.storeBlockIds)
      (hprompts : sched.storePromptTokens = s.sched.storePromptTokens) :
      Move c s e { s with sched := sched }
  | allot {reqId : String} {job : Job} {tokens : Nat} {blocks : List Nat}
      (hjob : s.jobs reqId = some job) (hok : s.Allottable c reqId job tokens blocks) :
      Move c s (.allot reqId tokens blocks) { s with
        jobs := Function.update s.jobs reqId (some (Slot.placed ⟨reqId, job, tokens, blocks⟩))
        cells := give reqId blocks s.cells
        plan := s.plan ++ [⟨reqId, job, tokens, blocks⟩] }
  | preempt {reqId : String} {job : Job} (hjob : s.jobs reqId = some job) (hbatch : s.batch = none)
      (hphase : job.phase = .running) (hfresh : reqId ∉ s.plan.map Slot.reqId) :
      Move c s (.preempt reqId) { s with
        jobs := Function.update s.jobs reqId (some ⟨job.prompt, .preempted, [], 0⟩)
        cells := release job.table s.cells }
  | build (hbatch : s.batch = none) :
      Move c s .build { s with
        plan := []
        batch := some s.plan
        finished := []
        reporting := s.finished
        sched := (s.sched.buildConnectorMeta c (schedulerOutput s.plan)).1
        storing := s.storing.bindConnectorMetadata
          (s.sched.buildConnectorMeta c (schedulerOutput s.plan)).2 }
  | forward {slots : List Slot} {order : List String} (hb : s.batch = some slots)
      (horder : order.Perm s.reporting) :
      Move c s (.forward order) { s with
        jobs := (slots.foldl (compute c) (s.jobs, s.cells)).1
        cells := (slots.foldl (compute c) (s.jobs, s.cells)).2
        batch := none
        reporting := []
        storing := s.storing.getFinished order }
  | finish {reqId : String} {job : Job} (hjob : s.jobs reqId = some job) (hbatch : s.batch = none)
      (hplan : s.plan = []) (hphase : job.phase ≠ .finished) :
      Move c s (.finish reqId) { s with
        jobs := Function.update s.jobs reqId (some { job with phase := .finished, table := [] })
        cells := release job.table s.cells
        finished := s.finished ++ [reqId]
        sched := (s.sched.requestFinished ⟨reqId, job.prompt⟩ job.table).1 }
  | copy {spec : Spec} (h : spec ∈ s.storing.inflightStores) :
      Move c s (.copy spec) { s with copies := ⟨spec, s.cells⟩ :: s.copies }
  | done {spec : Spec} (h : spec ∈ s.storing.inflightStores) :
      Move c s (.done spec) { s with storing := s.storing.doneCb spec }

variable {e : EngineStep}

theorem move_of_step (h : s.step c e = some s') : Move c s e s' := by
  revert h
  fun_cases step c s e <;> intro h <;> cases h
  case case2 hnone => exact .add hnone
  case case3 => exact .sched rfl rfl
  case case4 =>
    unfold Sched.updateStateAfterAlloc
    split <;> exact .sched rfl rfl
  case case6 hjob hok _ => exact .allot hjob hok
  case case9 hjob hok => exact .preempt hjob hok.1 hok.2.1 hok.2.2
  case case11 hbatch _ _ heq =>
    obtain ⟨rfl, rfl⟩ := Prod.ext_iff.mp heq
    exact .build hbatch
  case case14 hb hperm _ _ heq =>
    obtain ⟨rfl, rfl⟩ := Prod.ext_iff.mp heq
    exact .forward hb (List.isPerm_iff.mp hperm)
  case case17 hjob hok _ _ heq =>
    obtain ⟨rfl, rfl⟩ := Prod.ext_iff.mp heq
    exact .finish hjob hok.1 hok.2.1 hok.2.2
  case case19 hmem => exact .copy hmem
  case case21 hmem => exact .done hmem

theorem Move.grows (h : Sane c s) (hm : Move c s e s') : Grows s.jobs s'.jobs := by
  cases hm with
  | add hnone => exact .update fun job hjob => by simp [hnone] at hjob
  | allot hjob hok =>
    refine .update fun job' hjob' => ?_
    cases hjob.symm.trans hjob'
    exact ⟨rfl, fun hfin => absurd hfin hok.2.1⟩
  | preempt hjob _ hphase _ =>
    refine .update fun job' hjob' => ?_
    simp_all
  | forward hb _ => exact .of_shape (foldl_compute h.placed (h.batch _ hb)).2.1
  | finish hjob _ _ _ =>
    refine .update fun job' hjob' => ?_
    cases hjob.symm.trans hjob'
    exact ⟨rfl, fun _ => rfl⟩
  | _ => exact .refl

theorem Sane.built (h : Sane c s)
    (hspec : spec ∈ (s.sched.buildConnectorMeta c (schedulerOutput s.plan)).2.storeSpecs) :
    Names c s.jobs spec ∧
      ∃ job, s.jobs spec.reqId = some job ∧ spec.gpuBlockIds <+: job.table := by
  obtain ⟨id, hid, hspec⟩ := List.mem_filterMap.mp hspec
  obtain ⟨x, hx, rfl⟩ := List.mem_map.mp (mem_activeReqIds hid)
  obtain ⟨tokens, ids, n, htokens, hids, hn, hlen, rfl⟩ := Sched.storeSpec_eq_some hspec
  have htrack := storeBlockIds_track h.plan.nodup hx (h.planned x hx) (h.plan.idle x hx)
    (h.plan.phase x hx) (h.plan.table_ne_nil hx)
  cases hids.symm.trans htrack
  have hjob := h.plan.jobs x hx
  have hprompt : x.job.prompt = tokens := by
    rcases storePromptTokens_track htokens with hold | ⟨y, hy, heq, hprompt⟩
    · obtain ⟨job, hjob', heq⟩ := h.recorded.prompts _ _ hold
      cases hjob.symm.trans hjob'
      exact heq
    · cases List.inj_on_of_nodup_map h.plan.nodup hy hx heq
      exact hprompt
  refine ⟨⟨?_, ?_, _, hjob, ?_⟩, _, hjob, List.take_prefix _ _⟩
  · rw [← List.length_pos_iff, List.length_take]
    omega
  · rw [List.length_take, Nat.min_eq_left hlen]
  · show _ = c.prefixKey x.job.prompt _
    rw [hprompt]

theorem Recorded.build (h : Sane c s) (hm : Move c s .build s') : Recorded c s' := by
  cases hm with
  | sched _ hprompts => exact h.recorded.grows .refl hprompts (fun _ h => .inr h) rfl
  | build _ =>
    obtain ⟨hin, -, hspecs⟩ := Storing.bind_cases (w := s.storing)
      (m := (s.sched.buildConnectorMeta c (schedulerOutput s.plan)).2)
    refine ⟨fun id tokens hprompt => ?_, fun id hid => ?_, fun id spec hspec => ?_,
      fun id spec hspec => ?_, fun spec hspec => h.recorded.inflight spec (hin ▸ hspec)⟩
    · rcases storePromptTokens_track hprompt with hold | ⟨x, hx, rfl, rfl⟩
      · exact h.recorded.prompts id tokens hold
      · exact ⟨x.placed, h.plan.jobs x hx, rfl⟩
    · exact h.recorded.ended id (.inl (hid.resolve_left List.not_mem_nil))
    · exact (hspecs id spec hspec).elim (h.recorded.keyed id spec) And.right
    · exact (hspecs id spec hspec).elim (h.recorded.remembered id spec) fun hnew =>
        (h.built hnew.1).1

theorem Recorded.forward (h : Sane c s) {order : List String} (hm : Move c s (.forward order) s') :
    Recorded c s' := by
  have hg := hm.grows h
  cases hm with
  | sched _ hprompts => exact h.recorded.grows .refl hprompts (fun _ h => .inr h) rfl
  | forward hb horder =>
    obtain ⟨hin, -⟩ := Storing.getFinished_cases order h.recorded.keyed
    refine ⟨fun id tokens hprompt => ?_, fun id hid => ?_, fun id spec hspec => ?_,
      fun id spec hspec => ?_, fun spec hspec => ?_⟩
    · obtain ⟨job, hjob, heq⟩ := h.recorded.prompts id tokens hprompt
      obtain ⟨job', hjob', hsame, -⟩ := hg id job hjob
      exact ⟨job', hjob', hsame.trans heq⟩
    · exact (h.recorded.ended id (.inl (hid.resolve_right List.not_mem_nil))).grows hg
    · exact h.recorded.keyed id spec (by simpa using hspec)
    · exact (h.recorded.remembered id spec (by simpa using hspec)).grows hg
    · rcases hin spec hspec with hold | ⟨hmem, hspec⟩
      · obtain ⟨hnames, hend⟩ := h.recorded.inflight spec hold
        exact ⟨hnames.grows hg, hend.grows hg⟩
      · have hend := h.recorded.ended _ (.inr (horder.mem_iff.mp hmem))
        exact ⟨(h.recorded.remembered _ spec hspec).grows hg, hend.grows hg⟩

theorem Sane.move (h : Sane c s) (hm : Move c s e s') : Sane c s' := by
  have hg := hm.grows h
  have hm' := hm
  cases hm with
  | @add reqId prompt hnone =>
    have hkeep : ∀ id job, s.jobs id = some job →
        Function.update s.jobs reqId (some ⟨prompt, .waiting, [], 0⟩) id = s.jobs id := by
      grind
    refine ⟨h.placed.add hnone prompt, h.plan.congr fun x hx => hkeep _ _ (h.plan.jobs x hx),
      fun slots hb => (h.batch slots hb).congr fun x hx => hkeep _ _ ((h.batch slots hb).jobs x hx),
      h.planEmpty, fun id job hjob hphase hid => ?_, h.planned,
      h.recorded.grows hg rfl (fun _ h => .inr h) rfl⟩
    grind [tracked]
  | sched hids hprompts =>
    exact ⟨h.placed, h.plan, h.batch, h.planEmpty, hids ▸ h.tracked, hids ▸ h.planned,
      h.recorded.grows .refl hprompts (fun _ h => .inr h) rfl⟩
  | @allot reqId job tokens blocks hjob hok =>
    obtain ⟨hbatch, hphase, hfresh, htokens, hnodup, hfree, hroom⟩ := hok
    refine ⟨h.placed.allot hjob tokens hphase hnodup hfree, ?_, fun slots hb => ?_,
      fun slots hb => ?_,
      fun id job' hjob' hphase' hid => ?_, List.forall_mem_append.mpr ⟨h.planned, ?_⟩,
      h.recorded.grows hg rfl (fun _ h => .inr h) rfl⟩
    · refine (h.plan.congr fun x hx => Function.update_of_ne (fun heq => ?_) _ _).append hfresh ?_
      · exact hfresh (heq ▸ List.mem_map_of_mem hx)
      · refine ⟨List.nodup_singleton _, ?_, ?_, ?_, ?_, ?_⟩ <;> rw [List.forall_mem_singleton]
        exacts [Function.update_self .., hphase, h.placed.idle reqId job hjob, htokens, hroom]
    · cases hbatch.symm.trans hb
    · cases hbatch.symm.trans hb
    · rw [List.map_append, List.mem_append, not_or] at hid
      rcases update_eq_some hjob' with ⟨rfl, -⟩ | ⟨-, hjob'⟩
      · exact absurd List.mem_cons_self hid.2
      · exact h.tracked id job' hjob' hphase' hid.1
    · rw [List.forall_mem_singleton]
      exact fun hrun => h.tracked reqId job hjob hrun hfresh
  | preempt hjob hbatch hphase hfresh =>
    refine ⟨h.placed.vacate hjob rfl (by simp) (fun _ => rfl),
      h.plan.congr fun x hx => Function.update_of_ne (fun heq => ?_) _ _, fun slots hb => ?_,
      h.planEmpty, fun id job' hjob' hphase' hid => ?_, h.planned,
      h.recorded.grows hg rfl (fun _ h => .inr h) rfl⟩
    · exact hfresh (heq ▸ List.mem_map_of_mem hx)
    · cases hbatch.symm.trans hb
    · grind [tracked]
  | build _ =>
    refine ⟨h.placed, .nil, fun slots hb => Option.some.inj hb ▸ h.plan, fun _ _ => rfl,
      fun id job hjob hphase _ => ?_, fun x hx => (nomatch hx), .build h hm'⟩
    by_cases hid : id ∈ s.plan.map Slot.reqId
    · obtain ⟨x, hx, rfl⟩ := List.mem_map.mp hid
      cases (h.plan.jobs x hx).symm.trans hjob
      exact storeBlockIds_track h.plan.nodup hx (h.planned x hx) (h.plan.idle x hx)
        (h.plan.phase x hx) (h.plan.table_ne_nil hx)
    · exact (storeBlockIds_track_of_notMem hid).trans (h.tracked id job hjob hphase hid)
  | forward hb _ =>
    obtain ⟨hplaced, hshape, -⟩ := foldl_compute h.placed (h.batch _ hb)
    refine ⟨hplaced, h.planEmpty _ hb ▸ .nil, nofun, nofun, fun id job' hjob' hphase hid => ?_,
      h.planned, .forward h hm'⟩
    obtain ⟨job, hjob, heq⟩ := exists_of_shape (fun id => (hshape id).symm) hjob'
    simp only [shape, Prod.mk.injEq] at heq
    rw [← heq.2.2]
    exact h.tracked id job hjob (heq.2.1.trans hphase) hid
  | @finish reqId job hjob hbatch hplan _ =>
    refine ⟨h.placed.vacate hjob rfl (by simp) (fun hne => absurd rfl hne), hplan ▸ .nil,
      fun slots hb => ?_, h.planEmpty, fun id job' hjob' hphase' hid => ?_, fun x hx => ?_,
      h.recorded.grows hg ?_ (fun id hid => ?_) rfl⟩
    · cases hbatch.symm.trans hb
    · rcases update_eq_some hjob' with ⟨rfl, rfl⟩ | ⟨hne, hjob'⟩
      · cases hphase'
      · have hold := h.tracked id job' hjob' hphase' hid
        unfold Sched.requestFinished
        dsimp only
        split
        · exact hold
        · exact (Function.update_of_ne hne _ _).trans hold
    · have hx : x ∈ s.plan := hx
      rw [hplan] at hx
      cases hx
    · unfold Sched.requestFinished
      dsimp only
      split <;> rfl
    · rcases hid with hid | hid
      · rcases List.mem_append.mp hid with hid | hid
        · exact .inr (.inl hid)
        · cases List.mem_singleton.mp hid
          exact .inl ⟨_, Function.update_self .., rfl⟩
      · exact .inr (.inr hid)
  | copy _ => exact ⟨h.placed, h.plan, h.batch, h.planEmpty, h.tracked, h.planned,
      h.recorded.grows .refl rfl (fun _ h => .inr h) rfl⟩
  | done _ =>
    exact ⟨h.placed, h.plan, h.batch, h.planEmpty, h.tracked, h.planned, h.recorded.prompts,
      h.recorded.ended, fun id spec hspec => h.recorded.keyed id spec
        (Storing.storeSpecsByReq_doneCb hspec), fun id spec hspec => h.recorded.remembered id spec
        (Storing.storeSpecsByReq_doneCb hspec), fun spec hspec => h.recorded.inflight spec
        (List.mem_of_mem_erase hspec)⟩

theorem reach_sane {P : Engine → EngineStep → Prop} (h : (system c).Reach P s) : Sane c s :=
  h.invariant .start fun _ _ _ _ _ hsane hs => hsane.move (move_of_step hs)

def Active (s : Engine) (spec : Spec) : Prop :=
  ∃ job, s.jobs spec.reqId = some job ∧ spec.gpuBlockIds <+: job.table

def Settled (c : Config) (s : Engine) (spec : Spec) : Prop :=
  ∀ j b, spec.gpuBlockIds[j]? = some b → (s.cells b).held = false ∧
    (s.cells b).owner = some spec.reqId ∧ (s.cells b).filled = some ⟨spec.reqId, j, c.blockSize⟩

def Kept (c : Config) (s : Engine) : Prop :=
  ∀ spec, s.storing.Awaits spec → s.Active spec ∨ s.Settled c spec

def spares (s : Engine) (b : Nat) : Bool :=
  (s.storing.inflightStores.all fun spec => decide (b ∉ spec.gpuBlockIds)) &&
    match (s.cells b).owner with
    | none => true
    | some id => (s.storing.unsaved id).all fun spec => decide (b ∉ spec.gpuBlockIds)

def settles (s : Engine) (reqId : String) : Bool :=
  match s.jobs reqId with
  | none => true
  | some job => (s.storing.unsaved reqId).all fun spec => decide (spec.numTokens ≤ job.computed)

def spared (s : Engine) : EngineStep → Bool
  | .allot _ _ blocks => blocks.all s.spares
  | .preempt reqId => s.settles reqId
  | .finish reqId => s.settles reqId
  | _ => true

theorem spares_of_awaits (h : s.storing.Awaits spec) {b : Nat}
    (hb : b ∈ spec.gpuBlockIds) (howner : (s.cells b).owner = some spec.reqId) :
    s.spares b = false := by
  unfold spares
  rw [howner, Bool.and_eq_false_iff]
  rcases h with h | h
  · left
    rw [List.all_eq_false]
    exact ⟨spec, h, by simpa using hb⟩
  · right
    simp [h, hb]

theorem settled_of_release (h : Sane c s) {job : Job}
    (hjob : s.jobs spec.reqId = some job) (hpre : spec.gpuBlockIds <+: job.table)
    (hnames : Names c s.jobs spec) (hcomputed : spec.numTokens ≤ job.computed)
    (hcells : s'.cells = release job.table s.cells) : s'.Settled c spec := by
  intro j b hj
  have hlt : j < spec.gpuBlockIds.length := (List.getElem?_eq_some_iff.mp hj).1
  have htable : job.table[j]? = some b := by
    obtain ⟨t, ht⟩ := hpre
    rw [← ht, List.getElem?_append_left hlt]
    exact hj
  have hmem := List.mem_of_getElem? htable
  have hend : (j + 1) * c.blockSize ≤ job.computed := by
    refine le_trans (Nat.mul_le_mul_right _ hlt) ?_
    rw [← hnames.2.1]
    exact hcomputed
  have hpos := c.blockSize_pos
  rw [Nat.add_mul, Nat.one_mul] at hend
  have hfilled := h.placed.filled _ job hjob j b htable (by omega)
  rw [Nat.min_eq_left (by omega)] at hfilled
  rw [hcells]
  unfold release
  rw [if_pos hmem]
  exact ⟨rfl, (h.placed.held _ job hjob b hmem).2, hfilled⟩

theorem Settled.congr (h : s.Settled c spec)
    (hcells : ∀ b ∈ spec.gpuBlockIds, (s.cells b).held = false →
      (s.cells b).owner = some spec.reqId → s'.cells b = s.cells b) : s'.Settled c spec := by
  intro j b hj
  obtain ⟨hheld, howner, hfilled⟩ := h j b hj
  grind

namespace Kept

theorem awaited (h : Sane c s) {spec : Spec} (ha : s.storing.Awaits spec) :
    Names c s.jobs spec := by
  rcases ha with ha | ha
  · exact (h.recorded.inflight spec ha).1
  · exact h.recorded.remembered _ spec (Storing.unsaved_eq_some.mp ha).1

theorem vacate (hk : Kept c s) (h : Sane c s) {reqId : String} {job job' : Job}
    (hjob : s.jobs reqId = some job) (hphase : job.phase ≠ .finished)
    (hsettles : s.settles reqId = true)
    (hjobs : s'.jobs = Function.update s.jobs reqId (some job'))
    (hcells : s'.cells = release job.table s.cells) (hstoring : s'.storing = s.storing) :
    Kept c s' := by
  intro spec ha
  rw [hstoring] at ha
  rcases hk spec ha with ⟨job₁, hjob₁, hpre⟩ | hsettled
  · by_cases hid : spec.reqId = reqId
    · subst hid
      cases hjob.symm.trans hjob₁
      right
      rcases ha with hin | hun
      ·
        obtain ⟨job₂, hjob₂, hfin⟩ := (h.recorded.inflight spec hin).2
        cases hjob.symm.trans hjob₂
        exact absurd hfin hphase
      · have hcomputed : spec.numTokens ≤ job.computed := by
          simpa [settles, hjob, hun] using hsettles
        exact settled_of_release h hjob hpre (awaited h (.inr hun)) hcomputed hcells
    · left
      exact ⟨job₁, by rw [hjobs, Function.update_of_ne hid]; exact hjob₁, hpre⟩
  · refine .inr (hsettled.congr fun b _ hheld _ => ?_)
    have hout : b ∉ job.table := by
      intro hmem
      have hin := (h.placed.held reqId job hjob b hmem).1
      rw [hheld] at hin
      cases hin
    rw [hcells]
    exact if_neg hout

theorem move (hk : Kept c s) (h : Sane c s) {e : EngineStep} (hP : s.spared e = true)
    (hm : Move c s e s') : Kept c s' := by
  cases hm with
  | add hnone =>
    intro spec ha
    refine (hk spec ha).imp_left ?_
    rintro ⟨job, hjob, hpre⟩
    refine ⟨job, (Function.update_of_ne ?_ _ _).trans hjob, hpre⟩
    rintro rfl
    simp [hnone] at hjob
  | sched _ _ => exact hk
  | @allot reqId job tokens blocks hjob _ =>
    intro spec ha
    rcases hk spec ha with ⟨job₁, hjob₁, hpre⟩ | hsettled
    · left
      by_cases hid : spec.reqId = reqId
      · subst hid
        cases hjob.symm.trans hjob₁
        exact ⟨_, Function.update_self .., hpre.trans (List.prefix_append _ _)⟩
      · exact ⟨job₁, (Function.update_of_ne hid _ _).trans hjob₁, hpre⟩
    · refine .inr (hsettled.congr fun b hb _ howner => if_neg fun hmem => ?_)
      have hspares : s.spares b = true := List.all_eq_true.mp hP b hmem
      rw [spares_of_awaits (s := s) ha hb howner] at hspares
      cases hspares
  | preempt hjob _ hphase _ =>
    exact hk.vacate h hjob (by simp [hphase]) hP rfl rfl rfl
  | build _ =>
    intro spec ha
    rcases Storing.awaits_of_bind ha with ha | hmem
    · exact hk spec ha
    · exact .inl (h.built hmem).2
  | forward hb _ =>
    intro spec ha
    obtain ⟨-, hshape, hfree⟩ := foldl_compute h.placed (h.batch _ hb)
    rcases hk spec ((Storing.getFinished_cases _ h.recorded.keyed).2 spec ha) with
      ⟨job, hjob, hpre⟩ | hsettled
    · obtain ⟨job', hjob', heq⟩ := exists_of_shape hshape hjob
      simp only [shape, Prod.mk.injEq] at heq
      exact .inl ⟨job', hjob', by rw [heq.2.2]; exact hpre⟩
    · exact .inr (hsettled.congr fun b _ hheld _ => hfree b hheld)
  | finish hjob _ _ hphase => exact hk.vacate h hjob hphase hP rfl rfl rfl
  | copy _ => exact hk
  | done _ => exact fun spec ha => hk spec (Storing.awaits_of_doneCb ha)

end Kept

theorem reach_kept (h : (system c).Reach (fun s e => s.spared e = true) s) : Kept c s := by
  refine h.invariant ?_ fun s e s' hreach hP hk hs =>
    hk.move (reach_sane hreach) hP (move_of_step hs)
  rintro spec (ha | ha)
  · cases ha
  · cases ha

end Engine

def Copied.Faithful (c : Config) (jobs : String → Option Job) (x : Copied) : Prop :=
  ∃ job, jobs x.spec.reqId = some job ∧
    x.spec.prefixKey = c.prefixKey job.prompt x.spec.numTokens ∧
    x.spec.numTokens = x.spec.gpuBlockIds.length * c.blockSize ∧
    ∀ j b, x.spec.gpuBlockIds[j]? = some b → (x.cells b).owner = some x.spec.reqId ∧
      (x.cells b).filled = some ⟨x.spec.reqId, j, c.blockSize⟩

def Copied.Held (x : Copied) (b : Nat) : Prop :=
  (x.cells b).held = true ∧ (x.cells b).owner = some x.spec.reqId

namespace Engine

variable {c : Config} {s s' : Engine}

theorem not_held_of_ended (h : Sane c s) {id : String} (hend : Ended s.jobs id) {b : Nat}
    (hheld : (s.cells b).held = true) : (s.cells b).owner ≠ some id := by
  intro howner
  obtain ⟨id', job', howner', hjob', hmem⟩ := h.placed.listed b hheld
  cases howner.symm.trans howner'
  obtain ⟨job, hjob, hfin⟩ := hend
  cases hjob.symm.trans hjob'
  rw [h.placed.idle id job' hjob' (by simp [hfin])] at hmem
  cases hmem

theorem store_copies (c : Config) :
    (∀ s, (system c).Reach (fun _ _ => True) s → ∀ x ∈ s.copies, ∀ b ∈ x.spec.gpuBlockIds,
      ¬ x.Held b) ∧
    ∀ s, (system c).Reach (fun s e => s.spared e = true) s → ∀ x ∈ s.copies,
      x.Faithful c s.jobs := by
  constructor
  · intro s h
    refine h.invariant (I := fun s => ∀ x ∈ s.copies, ∀ b ∈ x.spec.gpuBlockIds, ¬ x.Held b)
      (fun x (hx : x ∈ []) => nomatch hx) ?_
    intro s e s' hreach _ ih hs
    have hm := move_of_step hs
    cases hm with
    | @copy spec hin =>
      intro x hx b hb
      rcases List.mem_cons.mp hx with rfl | hx
      · rintro ⟨hheld, howner⟩
        have hsane := reach_sane hreach
        exact not_held_of_ended hsane (hsane.recorded.inflight spec hin).2 hheld howner
      · exact ih x hx b hb
    | _ => exact ih
  · intro s h
    refine h.invariant (I := fun s => ∀ x ∈ s.copies, x.Faithful c s.jobs)
      (fun x (hx : x ∈ []) => nomatch hx) ?_
    intro s e s' hreach hP ih hs
    have hsane := reach_sane hreach
    have hm := move_of_step hs
    have hg := hm.grows hsane
    have hold : ∀ x ∈ s.copies, x.Faithful c s'.jobs := by
      intro x hx
      obtain ⟨job, hjob, hkey, hrest⟩ := ih x hx
      obtain ⟨job', hjob', hprompt, -⟩ := hg _ job hjob
      exact ⟨job', hjob', by rw [hprompt]; exact hkey, hrest⟩
    cases hm with
    | @copy spec hin =>
      intro x hx
      rcases List.mem_cons.mp hx with rfl | hx
      · obtain ⟨⟨-, htokens, job, hjob, hkey⟩, hend⟩ := hsane.recorded.inflight spec hin
        refine ⟨job, hjob, hkey, htokens, fun j b hj => ?_⟩
        rcases reach_kept hreach spec (.inl hin) with ⟨job', hjob', hpre⟩ | hsettled
        ·
          have hmem := hpre.subset (List.mem_of_getElem? hj)
          obtain ⟨hheld, howner⟩ := hsane.placed.held _ job' hjob' b hmem
          exact absurd howner (not_held_of_ended hsane hend hheld)
        · exact (hsettled j b hj).2
      · exact hold x hx
    | _ => exact hold

def storeRun : List EngineStep :=
  [.add "a" [1, 2, 3, 4, 5], .add "b" [6, 7], .allot "a" 5 [7, 8, 9], .build, .forward [],
    .finish "a"]

theorem store_copies_spared :
    ∃ s, (system sampleConfig).Reach (fun s e => s.spared e = true) s ∧
      ∃ x ∈ s.copies, x.spec.gpuBlockIds = [7, 8] ∧ x.Faithful sampleConfig s.jobs := by
  obtain ⟨s, hs, hcheck⟩ := Transition.Reach.exists_of_play (T := system sampleConfig)
    (P := fun s e => s.spared e = true) spared (fun _ _ h => h)
    (storeRun ++ [.allot "b" 2 [3], .build, .forward ["a"],
      .copy ⟨"a", sampleConfig.prefixKey [1, 2, 3, 4, 5] 4, [7, 8], 4⟩])
    (fun s => s.copies.any fun x => x.spec.gpuBlockIds == [7, 8]) (by decide +kernel)
  obtain ⟨x, hx, heq⟩ := List.any_eq_true.mp hcheck
  exact ⟨s, hs, x, hx, beq_iff_eq.mp heq, (store_copies sampleConfig).2 s hs x hx⟩

theorem store_copies_reused :
    ∃ s, (system sampleConfig).Reach (fun _ _ => True) s ∧
      ∃ x ∈ s.copies, x.spec.reqId = "a" ∧ x.spec.gpuBlockIds = [7, 8] ∧
        x.cells 7 = ⟨some "b", true, some ⟨"b", 0, 2⟩⟩ := by
  obtain ⟨s, hs, hcheck⟩ := Transition.Reach.exists_of_play (T := system sampleConfig)
    (P := fun _ _ => True) (fun _ _ => true) (fun _ _ _ => trivial)
    (storeRun ++ [.allot "b" 2 [7], .build, .forward ["a"],
      .copy ⟨"a", sampleConfig.prefixKey [1, 2, 3, 4, 5] 4, [7, 8], 4⟩])
    (fun s => s.copies.any fun x => x.spec.reqId == "a" && x.spec.gpuBlockIds == [7, 8] &&
      x.cells 7 == ⟨some "b", true, some ⟨"b", 0, 2⟩⟩) (by decide +kernel)
  grind

end Engine

end Connector

end ContextStore
