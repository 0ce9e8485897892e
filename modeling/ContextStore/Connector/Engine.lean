import ContextStore.Conc.Transition
import ContextStore.Connector.Scheduler
import Mathlib.Data.List.Nodup

/-!
# vLLM connector: STORE の指示と engine の走り
-/

namespace ContextStore

namespace Connector

open Conc

/-! ## worker -/

structure Storing where
  storeSpecsByReq : String → Option Spec
  storedKeys : List String
  inflightStores : List Spec

namespace Storing

def initial : Storing := ⟨fun _ => none, [], []⟩

def remember (w : Storing) (spec : Spec) : Storing :=
  { w with storeSpecsByReq := Function.update w.storeSpecsByReq spec.reqId (some spec) }

/-- `bind_connector_metadata`。 -/
def bindConnectorMetadata (w : Storing) (m : Meta) : Storing := m.storeSpecs.foldl remember w

def submit (w : Storing) (reqId : String) : Storing :=
  match w.storeSpecsByReq reqId with
  | none => w
  | some spec =>
    if spec.prefixKey ∈ w.storedKeys then w
    else { w with
      storedKeys := spec.prefixKey :: w.storedKeys
      inflightStores := w.inflightStores ++ [spec] }

/-- `get_finished`。 -/
def getFinished (w : Storing) (finished : List String) : Storing := finished.foldl submit w

def doneCb (w : Storing) (spec : Spec) : Storing :=
  { w with
    inflightStores := w.inflightStores.erase spec
    storeSpecsByReq := Function.update w.storeSpecsByReq spec.reqId none }

end Storing

/-! ## engine -/

/-- request の段階。 -/
inductive Phase where
  | waiting
  | running
  | preempted
  | finished
deriving DecidableEq, Repr

structure Job where
  prompt : List Nat
  phase : Phase
  table : List Nat
  computed : Nat
deriving DecidableEq, Repr

structure Filled where
  reqId : String
  index : Nat
  count : Nat
deriving DecidableEq, Repr

/-- GPU の block。 -/
structure Cell where
  owner : Option String
  held : Bool
  filled : Option Filled
deriving DecidableEq, Repr

structure Slot where
  reqId : String
  job : Job
  tokens : Nat
  blocks : List Nat
deriving DecidableEq, Repr

namespace Slot

def placed (x : Slot) : Job := { x.job with phase := .running, table := x.job.table ++ x.blocks }

def isNew (x : Slot) : Bool := x.job.phase == .waiting

def isResumed (x : Slot) : Bool := x.job.phase == .preempted

/-- `new_block_ids` の要素。 -/
def newBlockIds (x : Slot) : Option (List (List Nat)) :=
  if x.blocks.isEmpty then none else some [x.blocks]

end Slot

def schedulerOutput (plan : List Slot) : SchedulerOutput where
  scheduledNewReqs := (plan.filter Slot.isNew).map fun x => ⟨x.reqId, x.job.prompt, [x.blocks]⟩
  cachedReqIds := (plan.filter fun x => !x.isNew).map Slot.reqId
  cachedNewBlockIds := (plan.filter fun x => !x.isNew).map Slot.newBlockIds
  resumedReqIds := (plan.filter Slot.isResumed).map Slot.reqId

structure Copied where
  spec : Spec
  cells : Nat → Cell

structure Engine where
  jobs : String → Option Job
  cells : Nat → Cell
  plan : List Slot
  batch : Option (List Slot)
  finished : List String
  reporting : List String
  sched : Sched
  storing : Storing
  copies : List Copied

/-- 1 手。 -/
inductive EngineStep where
  | add (reqId : String) (prompt : List Nat)
  | matchTokens (request : Request) (numComputed : Nat) (probe : Option (String → String → Bool))
  | afterAlloc (request : Request) (blocks : List (List Nat)) (numExternal : Nat)
  | allot (reqId : String) (tokens : Nat) (blocks : List Nat)
  | preempt (reqId : String)
  | build
  | forward (order : List String)
  | finish (reqId : String)
  | copy (spec : Spec)
  | done (spec : Spec)

namespace Engine

def initial : Engine where
  jobs := fun _ => none
  cells := fun _ => ⟨none, false, none⟩
  plan := []
  batch := none
  finished := []
  reporting := []
  sched := .initial
  storing := .initial
  copies := []

def give (reqId : String) (blocks : List Nat) (cells : Nat → Cell) (b : Nat) : Cell :=
  if b ∈ blocks then { cells b with owner := some reqId, held := true } else cells b

def release (blocks : List Nat) (cells : Nat → Cell) (b : Nat) : Cell :=
  if b ∈ blocks then { cells b with held := false } else cells b

variable (c : Config)

def fill (reqId : String) (job : Job) (tokens : Nat) (cells : Nat → Cell) (b : Nat) : Cell :=
  match job.table.idxOf? b with
  | none => cells b
  | some j =>
    if job.computed < (j + 1) * c.blockSize ∧ j * c.blockSize < job.computed + tokens then
      let count := min c.blockSize (job.computed + tokens - j * c.blockSize)
      { cells b with filled := some ⟨reqId, j, count⟩ }
    else cells b

def compute (s : (String → Option Job) × (Nat → Cell)) (x : Slot) :
    (String → Option Job) × (Nat → Cell) :=
  match s.1 x.reqId with
  | none => s
  | some job =>
    (Function.update s.1 x.reqId (some { job with computed := job.computed + x.tokens }),
      fill c x.reqId job x.tokens s.2)

def Allottable (s : Engine) (reqId : String) (job : Job) (tokens : Nat)
    (blocks : List Nat) : Prop :=
  s.batch = none ∧ job.phase ≠ .finished ∧ reqId ∉ s.plan.map Slot.reqId ∧ 0 < tokens ∧
    blocks.Nodup ∧ (∀ b ∈ blocks, (s.cells b).held = false) ∧
    job.computed + tokens ≤ (job.table ++ blocks).length * c.blockSize

instance (s : Engine) (reqId : String) (job : Job) (tokens : Nat) (blocks : List Nat) :
    Decidable (s.Allottable c reqId job tokens blocks) := by
  unfold Allottable
  infer_instance

def step (s : Engine) : EngineStep → Option Engine
  | .add reqId prompt =>
    match s.jobs reqId with
    | some _ => none
    | none => some { s with jobs := Function.update s.jobs reqId (some ⟨prompt, .waiting, [], 0⟩) }
  | .matchTokens request numComputed probe =>
    some { s with sched := (s.sched.getNumNewMatchedTokens c request numComputed probe).1 }
  | .afterAlloc request blocks numExternal =>
    some { s with sched := s.sched.updateStateAfterAlloc request blocks numExternal }
  | .allot reqId tokens blocks =>
    match s.jobs reqId with
    | none => none
    | some job =>
      if s.Allottable c reqId job tokens blocks then
        let x : Slot := ⟨reqId, job, tokens, blocks⟩
        some { s with
          jobs := Function.update s.jobs reqId (some x.placed)
          cells := give reqId blocks s.cells
          plan := s.plan ++ [x] }
      else none
  | .preempt reqId =>
    match s.jobs reqId with
    | none => none
    | some job =>
      if s.batch = none ∧ job.phase = .running ∧ reqId ∉ s.plan.map Slot.reqId then
        some { s with
          jobs := Function.update s.jobs reqId (some ⟨job.prompt, .preempted, [], 0⟩)
          cells := release job.table s.cells }
      else none
  | .build =>
    if s.batch = none then
      let (sched, m) := s.sched.buildConnectorMeta c (schedulerOutput s.plan)
      some { s with
        plan := []
        batch := some s.plan
        finished := []
        reporting := s.finished
        sched := sched
        storing := s.storing.bindConnectorMetadata m }
    else none
  | .forward order =>
    match s.batch with
    | none => none
    | some slots =>
      if order.isPerm s.reporting then
        let (jobs, cells) := slots.foldl (compute c) (s.jobs, s.cells)
        some { s with
          jobs := jobs
          cells := cells
          batch := none
          reporting := []
          storing := s.storing.getFinished order }
      else none
  | .finish reqId =>
    match s.jobs reqId with
    | none => none
    | some job =>
      if s.batch = none ∧ s.plan = [] ∧ job.phase ≠ .finished then
        let (sched, keep) := s.sched.requestFinished ⟨reqId, job.prompt⟩ job.table
        some { s with
          jobs := Function.update s.jobs reqId
            (some { job with phase := .finished, table := if keep then job.table else [] })
          cells := if keep then s.cells else release job.table s.cells
          finished := s.finished ++ [reqId]
          sched := sched }
      else none
  | .copy spec =>
    if spec ∈ s.storing.inflightStores then some { s with copies := ⟨spec, s.cells⟩ :: s.copies }
    else none
  | .done spec =>
    if spec ∈ s.storing.inflightStores then some { s with storing := s.storing.doneCb spec }
    else none

def system : Transition Engine EngineStep := ⟨initial, step c⟩

/-! ## 表と中身 -/

structure Placed (jobs : String → Option Job) (cells : Nat → Cell) : Prop where
  held : ∀ id job, jobs id = some job → ∀ b ∈ job.table,
    (cells b).held = true ∧ (cells b).owner = some id
  listed : ∀ b, (cells b).held = true →
    ∃ id job, (cells b).owner = some id ∧ jobs id = some job ∧ b ∈ job.table
  nodup : ∀ id job, jobs id = some job → job.table.Nodup
  idle : ∀ id job, jobs id = some job → job.phase ≠ .running → job.table = []
  room : ∀ id job, jobs id = some job → job.phase ≠ .finished →
    job.computed ≤ job.table.length * c.blockSize
  filled : ∀ id job, jobs id = some job → ∀ j b, job.table[j]? = some b →
    j * c.blockSize < job.computed →
      (cells b).filled = some ⟨id, j, min c.blockSize (job.computed - j * c.blockSize)⟩

variable {c} {jobs : String → Option Job} {cells : Nat → Cell} {reqId : String} {job job' : Job}

theorem update_eq_some {id : String} (h : Function.update jobs reqId (some job) id = some job') :
    (id = reqId ∧ job' = job) ∨ (id ≠ reqId ∧ jobs id = some job') := by
  by_cases hid : id = reqId
  · rw [hid, Function.update_self] at h
    exact .inl ⟨hid, (Option.some.inj h).symm⟩
  · rw [Function.update_of_ne hid] at h
    exact .inr ⟨hid, h⟩

namespace Placed

theorem disjoint (h : Placed c jobs cells) (hjob : jobs reqId = some job) {id : String}
    (hjob' : jobs id = some job') (hne : id ≠ reqId) {b : Nat} (hb : b ∈ job'.table) :
    b ∉ job.table := by
  intro hmem
  have howner := (h.held id job' hjob' b hb).2
  rw [(h.held reqId job hjob b hmem).2] at howner
  exact hne (Option.some.inj howner).symm

theorem add (h : Placed c jobs cells) (hnone : jobs reqId = none) (prompt : List Nat) :
    Placed c (Function.update jobs reqId (some ⟨prompt, .waiting, [], 0⟩)) cells := by
  refine ⟨fun id job hjob => ?_, fun b hb => ?_, fun id job hjob => ?_, fun id job hjob => ?_,
    fun id job hjob => ?_, fun id job hjob => ?_⟩
  · rcases update_eq_some hjob with ⟨rfl, rfl⟩ | ⟨-, hjob⟩
    · simp
    · exact h.held id job hjob
  · obtain ⟨id, job, howner, hjob, hmem⟩ := h.listed b hb
    refine ⟨id, job, howner, ?_, hmem⟩
    rw [Function.update_of_ne]
    · exact hjob
    · rintro rfl
      rw [hnone] at hjob
      cases hjob
  · rcases update_eq_some hjob with ⟨rfl, rfl⟩ | ⟨-, hjob⟩
    · simp
    · exact h.nodup id job hjob
  · rcases update_eq_some hjob with ⟨rfl, rfl⟩ | ⟨-, hjob⟩
    · simp
    · exact h.idle id job hjob
  · rcases update_eq_some hjob with ⟨rfl, rfl⟩ | ⟨-, hjob⟩
    · simp
    · exact h.room id job hjob
  · rcases update_eq_some hjob with ⟨rfl, rfl⟩ | ⟨-, hjob⟩
    · simp
    · exact h.filled id job hjob

theorem allot (h : Placed c jobs cells) (hjob : jobs reqId = some job) (tokens : Nat)
    (hphase : job.phase ≠ .finished) {blocks : List Nat} (hnodup : blocks.Nodup)
    (hfree : ∀ b ∈ blocks, (cells b).held = false) :
    Placed c (Function.update jobs reqId (some (Slot.placed ⟨reqId, job, tokens, blocks⟩)))
      (give reqId blocks cells) := by
  have hout : ∀ id job', jobs id = some job' → ∀ b ∈ job'.table, b ∉ blocks := by
    intro id job' hjob' b hb hmem
    have hheld := (h.held id job' hjob' b hb).1
    rw [hfree b hmem] at hheld
    cases hheld
  have hroom := h.room reqId job hjob hphase
  refine ⟨fun id job' hjob' b hb => ?_, fun b hb => ?_, fun id job' hjob' => ?_,
    fun id job' hjob' => ?_, fun id job' hjob' hphase' => ?_, fun id job' hjob' j b hj hlt => ?_⟩
  · unfold give
    rcases update_eq_some hjob' with ⟨rfl, rfl⟩ | ⟨-, hjob'⟩
    · rcases List.mem_append.mp hb with hb | hb
      · rw [if_neg (hout id job hjob b hb)]
        exact h.held id job hjob b hb
      · simp [hb]
    · rw [if_neg (hout id job' hjob' b hb)]
      exact h.held id job' hjob' b hb
  · unfold give at hb ⊢
    by_cases hmem : b ∈ blocks
    · refine ⟨reqId, _, by simp [hmem], Function.update_self .., ?_⟩
      exact List.mem_append_right _ hmem
    · rw [if_neg hmem] at hb ⊢
      obtain ⟨id, job', howner, hjob', hb'⟩ := h.listed b hb
      by_cases hid : id = reqId
      · subst hid
        cases hjob.symm.trans hjob'
        exact ⟨id, _, howner, Function.update_self .., List.mem_append_left _ hb'⟩
      · simp_all
  · rcases update_eq_some hjob' with ⟨rfl, rfl⟩ | ⟨-, hjob'⟩
    · refine List.nodup_append'.mpr ⟨h.nodup id job hjob, hnodup, ?_⟩
      exact fun b hb => hout id job hjob b hb
    · exact h.nodup id job' hjob'
  · rcases update_eq_some hjob' with ⟨rfl, rfl⟩ | ⟨-, hjob'⟩
    · intro hne
      exact absurd rfl hne
    · exact h.idle id job' hjob'
  · rcases update_eq_some hjob' with ⟨rfl, rfl⟩ | ⟨-, hjob'⟩
    · show job.computed ≤ (job.table ++ blocks).length * c.blockSize
      rw [List.length_append, Nat.add_mul]
      omega
    · exact h.room id job' hjob' hphase'
  · unfold give
    rcases update_eq_some hjob' with ⟨rfl, rfl⟩ | ⟨-, hjob'⟩
    ·
      have hlt : j * c.blockSize < job.computed := hlt
      have hold : j < job.table.length := Nat.lt_of_mul_lt_mul_right (hlt.trans_le hroom)
      have hj : (job.table ++ blocks)[j]? = some b := hj
      rw [List.getElem?_append_left hold] at hj
      rw [if_neg (hout id job hjob b (List.mem_of_getElem? hj))]
      exact h.filled id job hjob j b hj hlt
    · rw [if_neg (hout id job' hjob' b (List.mem_of_getElem? hj))]
      exact h.filled id job' hjob' j b hj hlt

theorem vacate (h : Placed c jobs cells) (hjob : jobs reqId = some job) (htable : job'.table = [])
    (hphase : job'.phase ≠ .running) (hcomputed : job'.phase ≠ .finished → job'.computed = 0) :
    Placed c (Function.update jobs reqId (some job')) (release job.table cells) := by
  refine ⟨fun id job₁ hjob₁ b hb => ?_, fun b hb => ?_, fun id job₁ hjob₁ => ?_,
    fun id job₁ hjob₁ hne => ?_, fun id job₁ hjob₁ hne => ?_, fun id job₁ hjob₁ j b hj hlt => ?_⟩
  · rcases update_eq_some hjob₁ with ⟨rfl, rfl⟩ | ⟨hid, hjob₁⟩
    · simp [htable] at hb
    · unfold release
      rw [if_neg (h.disjoint hjob hjob₁ hid hb)]
      exact h.held id job₁ hjob₁ b hb
  · unfold release at hb ⊢
    by_cases hmem : b ∈ job.table
    · simp [hmem] at hb
    · rw [if_neg hmem] at hb ⊢
      obtain ⟨id, job₁, howner, hjob₁, hb'⟩ := h.listed b hb
      grind
  · rcases update_eq_some hjob₁ with ⟨rfl, rfl⟩ | ⟨-, hjob₁⟩
    · simp [htable]
    · exact h.nodup id job₁ hjob₁
  · rcases update_eq_some hjob₁ with ⟨rfl, rfl⟩ | ⟨-, hjob₁⟩
    · exact htable
    · exact h.idle id job₁ hjob₁ hne
  · rcases update_eq_some hjob₁ with ⟨rfl, rfl⟩ | ⟨-, hjob₁⟩
    · simp [hcomputed hne]
    · exact h.room id job₁ hjob₁ hne
  · rcases update_eq_some hjob₁ with ⟨rfl, rfl⟩ | ⟨hid, hjob₁⟩
    · simp [htable] at hj
    · unfold release
      rw [if_neg (h.disjoint hjob hjob₁ hid (List.mem_of_getElem? hj))]
      exact h.filled id job₁ hjob₁ j b hj hlt

end Placed

variable {tokens b : Nat}

theorem fill_of_notMem (h : b ∉ job.table) :
    fill c reqId job tokens cells b = cells b := by
  unfold fill
  rw [List.idxOf?_eq_none_iff.mpr h]

@[simp] theorem held_fill :
    (fill c reqId job tokens cells b).held = (cells b).held := by
  unfold fill
  split
  · rfl
  · split <;> rfl

@[simp] theorem owner_fill :
    (fill c reqId job tokens cells b).owner = (cells b).owner := by
  unfold fill
  split
  · rfl
  · split <;> rfl

theorem filled_fill (h : Placed c jobs cells) (hjob : jobs reqId = some job) {tokens j b : Nat}
    (hj : job.table[j]? = some b) (hlt : j * c.blockSize < job.computed + tokens) :
    (fill c reqId job tokens cells b).filled =
      some ⟨reqId, j, min c.blockSize (job.computed + tokens - j * c.blockSize)⟩ := by
  have hidx : job.table.idxOf? b = some j := by
    obtain ⟨hlen, hget⟩ := List.getElem?_eq_some_iff.mp hj
    rw [List.idxOf?_eq_some_iff]
    refine ⟨hlen, by simpa using hget, fun i hi => ?_⟩
    have hne : job.table[i] = job.table[j] ↔ i = j := (h.nodup reqId job hjob).getElem_inj_iff
    rw [hget] at hne
    simp [hne]
    omega
  unfold fill
  rw [hidx]
  dsimp only
  by_cases hold : job.computed < (j + 1) * c.blockSize
  · rw [if_pos ⟨hold, hlt⟩]
  ·
    have hfull := h.filled reqId job hjob j b hj (by
      have := c.blockSize_pos
      rw [Nat.add_mul] at hold
      omega)
    grind

theorem Placed.fill (h : Placed c jobs cells) (hjob : jobs reqId = some job) {tokens : Nat}
    (hroom : job.computed + tokens ≤ job.table.length * c.blockSize) :
    Placed c (Function.update jobs reqId (some { job with computed := job.computed + tokens }))
      (Engine.fill c reqId job tokens cells) := by
  refine ⟨fun id job' hjob' b hb => ?_, fun b hb => ?_, fun id job' hjob' => ?_,
    fun id job' hjob' => ?_, fun id job' hjob' hphase => ?_, fun id job' hjob' j b hj hlt => ?_⟩
  · grind [held_fill, owner_fill, held]
  · rw [held_fill] at hb
    rw [owner_fill]
    obtain ⟨id, job', howner, hjob', hmem⟩ := h.listed b hb
    grind
  · rcases update_eq_some hjob' with ⟨rfl, rfl⟩ | ⟨-, hjob'⟩
    · exact h.nodup id job hjob
    · exact h.nodup id job' hjob'
  · rcases update_eq_some hjob' with ⟨rfl, rfl⟩ | ⟨-, hjob'⟩
    · exact h.idle id job hjob
    · exact h.idle id job' hjob'
  · rcases update_eq_some hjob' with ⟨rfl, rfl⟩ | ⟨-, hjob'⟩
    · exact hroom
    · exact h.room id job' hjob' hphase
  · rcases update_eq_some hjob' with ⟨rfl, rfl⟩ | ⟨hid, hjob'⟩
    · exact filled_fill h hjob hj hlt
    · rw [fill_of_notMem (h.disjoint hjob hjob' hid (List.mem_of_getElem? hj))]
      exact h.filled id job' hjob' j b hj hlt

end Engine

end Connector

end ContextStore
