import ContextStore.Conc.Transition
import Mathlib.Algebra.Order.Ring.Nat
import Mathlib.Data.List.Nodup
import Mathlib.Logic.Function.Basic

/-!
# KVServiceBackend の RDMA 領域の番号

`storage/kvservice.py` の `ensure_rdma_region` が返す番号は、今の client の登録表の位置である。
-/

namespace ContextStore.RdmaRegions

open Conc

abbrev Buffer := ℕ × ℕ

structure Backend where
  epoch : ℕ
  externalRegions : ℕ → List (Option Buffer)
  regionCaches : ℕ → List (Buffer × ℕ)

def registerExternal (regions : List (Option Buffer)) (buf : Buffer) : ℕ × List (Option Buffer) :=
  match regions.findIdx? Option.isNone with
  | some i => (i, regions.set i (some buf))
  | none => (regions.length, regions ++ [some buf])

def setItem (cache : List (Buffer × ℕ)) (buf : Buffer) (rid : ℕ) : List (Buffer × ℕ) :=
  if (cache.lookup buf).isSome then cache.map fun e => if e.1 = buf then (buf, rid) else e
  else cache ++ [(buf, rid)]

namespace Backend

variable (b : Backend)

def regions : List (Option Buffer) := b.externalRegions b.epoch

def cache : List (Buffer × ℕ) := b.regionCaches b.epoch

def setRegions (epoch : ℕ) (regions : List (Option Buffer)) : Backend :=
  { b with externalRegions := Function.update b.externalRegions epoch regions }

def setCache (gen : ℕ) (cache : List (Buffer × ℕ)) : Backend :=
  { b with regionCaches := Function.update b.regionCaches gen cache }

/-- `_find_rdma_region`。 -/
def findRdmaRegion (regionId : ℕ) : Option Buffer :=
  (b.cache.find? fun entry => entry.2 == regionId).map Prod.fst

def resetRdmaClientPool : Backend :=
  ⟨b.epoch + 1, Function.update b.externalRegions (b.epoch + 1) [],
    Function.update b.regionCaches (b.epoch + 1) []⟩

end Backend

inductive Stage where
  | opened
  | looking (gen : ℕ)
  | full (gen : ℕ)
  | picked (gen : ℕ) (old : Buffer) (rid : ℕ)
  | unregistered (gen : ℕ) (old : Buffer)
  | ready (gen : ℕ)
  | registered (gen : ℕ) (rid : ℕ)
deriving DecidableEq

structure Ensure where
  buf : Buffer
  region : Buffer
  retry : Bool
  epoch : ℕ
deriving DecidableEq

inductive Phase where
  | idle
  | ensuring (c : Ensure) (stage : Stage)
  | holds (buf : Buffer) (id : ℕ) (retry : Bool)
  | begun (buf : Buffer) (id epoch : ℕ)
  | attempt (buf : Buffer) (id : ℕ) (region : Option Buffer) (epoch : ℕ) (retry : Bool)
  | failed (buf : Buffer) (region : Option Buffer)
  | again (buf region : Buffer)
deriving DecidableEq

inductive Action where
  | enter (buf : Buffer)
  | look
  | check
  | pick
  | unregister
  | pop
  | register (ok : Bool)
  | insert
  | begin
  | find
  | transfer (ok : Bool)
  | reset
  | again
  | leave

def act (limit : ℕ) (b : Backend) :
    Phase → Action → Option (Backend × Phase × List (Buffer × Buffer))
  | .idle, .enter buf => some (b, .ensuring ⟨buf, buf, false, b.epoch⟩ .opened, [])
  | .again buf region, .again => some (b, .ensuring ⟨buf, region, true, b.epoch⟩ .opened, [])
  | .ensuring c .opened, .look =>
    match b.cache.lookup c.region with
    | some rid => some (b, .holds c.buf rid c.retry, [])
    | none => some (b, .ensuring c (.looking b.epoch), [])
  | .ensuring c (.looking gen), .check =>
    if max limit 1 ≤ (b.regionCaches gen).length then some (b, .ensuring c (.full gen), [])
    else some (b, .ensuring c (.ready gen), [])
  | .ensuring c (.full gen), .pick =>
    match b.regionCaches gen with
    | (old, rid) :: _ => some (b, .ensuring c (.picked gen old rid), [])
    | [] => some (b, .idle, [])
  | .ensuring c (.picked gen old rid), .unregister =>
    some (b.setRegions c.epoch ((b.externalRegions c.epoch).set rid none),
      .ensuring c (.unregistered gen old), [])
  | .ensuring c (.unregistered gen old), .pop =>
    some (b.setCache gen ((b.regionCaches gen).filter fun e => e.1 ≠ old),
      .ensuring c (.looking gen), [])
  | .ensuring c (.ready gen), .register true =>
    let (rid, regions) := registerExternal (b.externalRegions c.epoch) c.region
    some (b.setRegions c.epoch regions, .ensuring c (.registered gen rid), [])
  | .ensuring _ (.ready _), .register false => some (b, .idle, [])
  | .ensuring c (.registered gen rid), .insert =>
    some (b.setCache gen (setItem (b.regionCaches gen) c.region rid), .holds c.buf rid c.retry, [])
  | .holds buf id false, .begin => some (b, .begun buf id b.epoch, [])
  | .holds buf id true, .begin => some (b, .attempt buf id none b.epoch true, [])
  | .begun buf id epoch, .find =>
    some (b, .attempt buf id (b.findRdmaRegion id) epoch false, [])
  | .attempt buf id _ epoch _, .transfer true =>
    match (b.externalRegions epoch)[id]? with
    | some (some actual) => some (b, .idle, [(actual, buf)])
    | _ => none
  | .attempt buf _ region _ retry, .transfer false =>
    some (b, if retry then .idle else .failed buf region, [])
  | .failed buf region, .reset => some (b.resetRdmaClientPool, region.elim .idle (.again buf), [])
  | .holds .., .leave | .begun .., .leave | .again .., .leave => some (b, .idle, [])
  | _, _ => none

structure State (n : ℕ) where
  backend : Backend
  threads : Fin n → Phase
  transfers : List (Buffer × Buffer)

namespace State

variable {n : ℕ} (limit : ℕ)

def initial : State n := ⟨⟨0, fun _ => [], fun _ => []⟩, fun _ => .idle, []⟩

def step (s : State n) (e : Fin n × Action) : Option (State n) :=
  (act limit s.backend (s.threads e.1) e.2).map fun (b, p, done) =>
    ⟨b, Function.update s.threads e.1 p, done ++ s.transfers⟩

def system (n : ℕ) : Transition (State n) (Fin n × Action) := ⟨initial, step limit⟩

def alone (s : State n) (t : Fin n) : Bool := decide (∀ j, j ≠ t → s.threads j = .idle)

end State

def Phase.evicts : Phase → Bool
  | .ensuring _ (.picked ..) | .ensuring _ (.unregistered ..) => true
  | _ => false

def Phase.steady : Phase → Bool
  | .idle => false
  | p => !p.evicts

def Phase.dropping : Phase → Option Buffer
  | .ensuring _ (.unregistered _ old) => some old
  | _ => none

def State.quiet {n : ℕ} (s : State n) (e : Fin n × Action) : Bool :=
  match e.2 with
  | .enter _ => decide (∀ j, j ≠ e.1 → (s.threads j).evicts = false)
  | .pick | .reset => s.alone e.1
  | _ => true

theorem registerExternal_spec (buf : Buffer) (regions : List (Option Buffer)) :
    (registerExternal regions buf).2[(registerExternal regions buf).1]? = some (some buf) ∧
    ∀ (i : ℕ) (b : Buffer), regions[i]? = some (some b) →
      (registerExternal regions buf).2[i]? = some (some b) := by
  unfold registerExternal
  split
  next i hi =>
    obtain ⟨hlt, hnone, -⟩ := List.findIdx?_eq_some_iff_getElem.mp hi
    refine ⟨by simp [hlt], fun j b hj => ?_⟩
    have hne : i ≠ j := by
      rintro rfl
      simp_all
    rwa [List.getElem?_set_ne hne]
  next =>
    refine ⟨by simp, fun j b hj => ?_⟩
    rwa [List.getElem?_append_left (List.getElem?_eq_some_iff.mp hj).1]

variable {cache : List (Buffer × ℕ)} {buf : Buffer} {rid : ℕ}

theorem mem_setItem {e : Buffer × ℕ} (h : e ∈ setItem cache buf rid) :
    e = (buf, rid) ∨ e ∈ cache := by
  unfold setItem at h
  split at h
  · obtain ⟨e', he', rfl⟩ := List.mem_map.mp h
    split
    · exact .inl rfl
    · exact .inr he'
  · rcases List.mem_append.mp h with h | h
    · exact .inr h
    · exact .inl (List.mem_singleton.mp h)

theorem nodup_setItem (h : (cache.map Prod.fst).Nodup) :
    ((setItem cache buf rid).map Prod.fst).Nodup := by
  unfold setItem
  split
  next =>
    have hkeys : (cache.map fun e => if e.1 = buf then (buf, rid) else e).map Prod.fst =
        cache.map Prod.fst := by
      rw [List.map_map]
      refine List.map_congr_left fun e _ => ?_
      show (if e.1 = buf then (buf, rid) else e).1 = e.1
      split
      next heq => exact heq.symm
      next => rfl
    rwa [hkeys]
  next hnone =>
    rw [List.map_append, List.map_singleton]
    refine List.nodup_append.mpr ⟨h, List.nodup_singleton _, fun k hk k' hk' => ?_⟩
    rintro rfl
    obtain ⟨e, he, hek⟩ := List.mem_map.mp hk
    have hmiss : cache.lookup buf = none := Option.not_isSome_iff_eq_none.mp hnone
    have hne := List.lookup_eq_none_iff.mp hmiss e he
    rw [hek, List.mem_singleton.mp hk'] at hne
    simp at hne

/-! ## 走り -/

def Points (b : Backend) (buf : Buffer) (id : ℕ) : Prop := b.regions[id]? = some (some buf)

def Stage.Fits (b : Backend) (buf : Buffer) : Stage → Prop
  | .opened => True
  | .looking gen | .full gen | .unregistered gen _ | .ready gen => gen = b.epoch
  | .picked gen old rid => gen = b.epoch ∧ (old, rid) ∈ b.cache
  | .registered gen rid => gen = b.epoch ∧ Points b buf rid

def Phase.Fits (b : Backend) : Phase → Prop
  | .idle => True
  | .ensuring c stage => c.region = c.buf ∧ c.epoch = b.epoch ∧ stage.Fits b c.buf
  | .holds buf id _ => Points b buf id
  | .begun buf id epoch => epoch = b.epoch ∧ Points b buf id
  | .attempt buf id region epoch _ =>
    epoch = b.epoch ∧ Points b buf id ∧ ∀ r, region = some r → r = buf
  | .failed buf region => ∀ r, region = some r → r = buf
  | .again buf region => region = buf

theorem Phase.Fits.mono {b b' : Backend} {p : Phase} (h : p.Fits b) (hcalm : p.evicts = false)
    (hepoch : b'.epoch = b.epoch) (hpoints : ∀ buf id, Points b buf id → Points b' buf id) :
    p.Fits b' := by
  cases p with
  | idle => trivial
  | ensuring c stage =>
    obtain ⟨hregion, hc, hstage⟩ := h
    refine ⟨hregion, hc.trans hepoch.symm, ?_⟩
    cases stage with
    | opened => trivial
    | looking gen | full gen | ready gen => exact Eq.trans hstage hepoch.symm
    | picked gen old rid | unregistered gen old => cases hcalm
    | registered gen rid => exact ⟨hstage.1.trans hepoch.symm, hpoints _ _ hstage.2⟩
  | holds buf id retry => exact hpoints _ _ h
  | begun buf id epoch => exact ⟨h.1.trans hepoch.symm, hpoints _ _ h.2⟩
  | attempt buf id region epoch retry => exact ⟨h.1.trans hepoch.symm, hpoints _ _ h.2.1, h.2.2⟩
  | failed buf region => exact h
  | again buf region => exact h

theorem Phase.steady_iff {p : Phase} : p.steady = true ↔ p ≠ .idle ∧ p.evicts = false := by
  cases p <;> simp [steady, evicts]

theorem Phase.dropping_of_calm {p : Phase} (h : p.evicts = false) : p.dropping = none := by
  cases p with
  | ensuring c stage =>
    cases stage with
    | unregistered gen old => cases h
    | _ => rfl
  | _ => rfl

namespace State

variable {n limit : ℕ} {s s' : State n}

structure Sound (s : State n) : Prop where
  nodup : (s.backend.cache.map Prod.fst).Nodup
  points : ∀ e ∈ s.backend.cache,
    Points s.backend e.1 e.2 ∨ ∃ t, (s.threads t).dropping = some e.1
  fits : ∀ t, (s.threads t).Fits s.backend
  lone : ∀ t, (s.threads t).evicts = true → s.alone t = true
  transfers : ∀ p ∈ s.transfers, p.1 = p.2

namespace Sound

variable {t : Fin n} {p : Phase} {b : Backend} {log : List (Buffer × Buffer)}

theorem calm (h : s.Sound) (hbusy : s.threads t ≠ .idle) :
    ∀ j, j ≠ t → (s.threads j).evicts = false := by
  intro j hj
  by_contra hevicts
  have hidle := of_decide_eq_true (h.lone j (eq_true_of_ne_false hevicts)) t hj.symm
  exact hbusy hidle

theorem settled (h : s.Sound) (hcalm : ∀ j, (s.threads j).evicts = false) :
    ∀ e ∈ s.backend.cache, Points s.backend e.1 e.2 := by
  intro e he
  refine (h.points e he).resolve_right ?_
  rintro ⟨j, hj⟩
  rw [Phase.dropping_of_calm (hcalm j)] at hj
  cases hj

theorem calm_of_steady (h : s.Sound) (hown : (s.threads t).steady = true) :
    ∀ j, (s.threads j).evicts = false := by
  obtain ⟨hbusy, hevicts⟩ := Phase.steady_iff.mp hown
  intro j
  by_cases heq : j = t
  · rwa [heq]
  · exact h.calm hbusy j heq

theorem moved (h : s.Sound) (hcalm : ∀ j, j ≠ t → (s.threads j).evicts = false)
    (hkeep : s.alone t = true ∨
      (b.epoch = s.backend.epoch ∧ ∀ buf id, Points s.backend buf id → Points b buf id))
    (hlone : p.evicts = true → s.alone t = true) (hnodup : (b.cache.map Prod.fst).Nodup)
    (hpoints : ∀ e ∈ b.cache, Points b e.1 e.2 ∨ p.dropping = some e.1) (hp : p.Fits b)
    (hlog : ∀ p ∈ log, p.1 = p.2) :
    Sound ⟨b, Function.update s.threads t p, log ++ s.transfers⟩ := by
  have hself : Function.update s.threads t p t = p := Function.update_self t p s.threads
  refine ⟨hnodup, fun e he => (hpoints e he).imp_right fun hd => ⟨t, ?_⟩, fun j => ?_,
    fun j hj => ?_, fun q hq => ?_⟩
  · show (Function.update s.threads t p t).dropping = some e.1
    rwa [hself]
  · show (Function.update s.threads t p j).Fits b
    by_cases heq : j = t
    · rwa [heq, hself]
    · rw [Function.update_of_ne heq]
      rcases hkeep with halone | ⟨hepoch, hkeep⟩
      · rw [of_decide_eq_true halone j heq]
        trivial
      · exact (h.fits j).mono (hcalm j heq) hepoch hkeep
  · have hj : (Function.update s.threads t p j).evicts = true := hj
    have heq : j = t := by
      by_contra heq
      rw [Function.update_of_ne heq, hcalm j heq] at hj
      cases hj
    subst heq
    rw [hself] at hj
    refine decide_eq_true fun i hi => ?_
    show Function.update s.threads j p i = .idle
    rw [Function.update_of_ne hi]
    exact of_decide_eq_true (hlone hj) i hi
  · rcases List.mem_append.mp hq with hq | hq
    · exact hlog q hq
    · exact h.transfers q hq

theorem turned (h : s.Sound) (hcalm : ∀ j, (s.threads j).evicts = false) (hp : p.Fits s.backend)
    (hnew : p.evicts = false) (hlog : ∀ p ∈ log, p.1 = p.2) :
    Sound ⟨s.backend, Function.update s.threads t p, log ++ s.transfers⟩ := by
  refine h.moved (fun j _ => hcalm j) (.inr ⟨rfl, fun _ _ h => h⟩) (fun hno => ?_) h.nodup
    (fun e he => .inl (h.settled hcalm e he)) hp hlog
  rw [hnew] at hno
  cases hno

theorem find_eq (h : ∀ e ∈ s.backend.cache, Points s.backend e.1 e.2) {buf : Buffer} {id : ℕ}
    (hid : Points s.backend buf id) {r : Buffer} (hr : s.backend.findRdmaRegion id = some r) :
    r = buf := by
  obtain ⟨e, hfind, rfl⟩ := Option.map_eq_some_iff.mp hr
  have heq : e.2 = id := by simpa using List.find?_some hfind
  have hpoints := h e (List.mem_of_find?_eq_some hfind)
  rw [heq] at hpoints
  simpa using hpoints.symm.trans hid

variable {c : Ensure}

theorem unregistered (h : s.Sound) {gen rid : ℕ} {old : Buffer}
    (hph : s.threads t = .ensuring c (.picked gen old rid)) :
    Sound ⟨s.backend.setRegions c.epoch ((s.backend.externalRegions c.epoch).set rid none),
      Function.update s.threads t (.ensuring c (.unregistered gen old)), [] ++ s.transfers⟩ := by
  have hfits := h.fits t
  rw [hph] at hfits
  obtain ⟨hregion, hepoch, hgen, hmem⟩ := hfits
  have halone : s.alone t = true := h.lone t (by rw [hph]; rfl)
  have hbusy : s.threads t ≠ .idle := by simp [hph]
  refine h.moved (h.calm hbusy) (.inl halone) (fun _ => halone) h.nodup (fun e he => ?_)
    ⟨hregion, hepoch, hgen⟩ (List.forall_mem_nil _)
  have he : e ∈ s.backend.cache := he
  by_cases hkey : e.1 = old
  · exact .inr (by rw [hkey]; rfl)
  · refine .inl ?_
    have hpoints : ∀ e ∈ s.backend.cache, Points s.backend e.1 e.2 := by
      intro e he
      refine (h.points e he).resolve_right ?_
      rintro ⟨j, hj⟩
      by_cases heq : j = t
      · rw [heq, hph] at hj
        cases hj
      · rw [of_decide_eq_true halone j heq] at hj
        cases hj
    have hne : rid ≠ e.2 := by
      rintro rfl
      have hold := hpoints _ hmem
      exact hkey (by simpa using (hpoints e he).symm.trans hold)
    unfold Points Backend.regions Backend.setRegions
    dsimp only
    rw [hepoch, Function.update_self, List.getElem?_set_ne hne]
    exact hpoints e he

theorem popped (h : s.Sound) {gen : ℕ} {old : Buffer}
    (hph : s.threads t = .ensuring c (.unregistered gen old)) :
    Sound ⟨s.backend.setCache gen ((s.backend.regionCaches gen).filter fun e => e.1 ≠ old),
      Function.update s.threads t (.ensuring c (.looking gen)), [] ++ s.transfers⟩ := by
  have hfits := h.fits t
  rw [hph] at hfits
  obtain ⟨hregion, hepoch, rfl⟩ := hfits
  have halone : s.alone t = true := h.lone t (by rw [hph]; rfl)
  have hcache : (s.backend.setCache s.backend.epoch ((s.backend.regionCaches
      s.backend.epoch).filter fun e => e.1 ≠ old)).cache =
      s.backend.cache.filter fun e => e.1 ≠ old := Function.update_self ..
  refine h.moved (h.calm (by simp [hph])) (.inl halone) (fun hno => by cases hno) ?_
    (fun e he => .inl ?_) ⟨hregion, hepoch, rfl⟩ (List.forall_mem_nil _)
  · rw [hcache]
    exact h.nodup.sublist (List.filter_sublist.map _)
  · rw [hcache] at he
    obtain ⟨he, hkey⟩ := List.mem_filter.mp he
    refine (h.points e he).resolve_right ?_
    rintro ⟨j, hj⟩
    by_cases heq : j = t
    · rw [heq, hph] at hj
      cases hj
      simp at hkey
    · rw [of_decide_eq_true halone j heq] at hj
      cases hj

theorem registered (h : s.Sound) {gen : ℕ}
    (hph : s.threads t = .ensuring c (.ready gen)) :
    Sound ⟨s.backend.setRegions c.epoch
        (registerExternal (s.backend.externalRegions c.epoch) c.region).2,
      Function.update s.threads t (.ensuring c (.registered gen
        (registerExternal (s.backend.externalRegions c.epoch) c.region).1)),
      [] ++ s.transfers⟩ := by
  have hfits := h.fits t
  have hbusy : s.threads t ≠ .idle := by simp [hph]
  have hsettled := h.settled (h.calm_of_steady (by rw [hph]; rfl))
  rw [hph] at hfits
  obtain ⟨hregion, hepoch, hgen⟩ := hfits
  obtain ⟨hnew, hold⟩ := registerExternal_spec c.region (s.backend.externalRegions c.epoch)
  have hregions : (s.backend.setRegions c.epoch
      (registerExternal (s.backend.externalRegions c.epoch) c.region).2).regions =
      (registerExternal (s.backend.externalRegions c.epoch) c.region).2 := by
    unfold Backend.regions Backend.setRegions
    rw [hepoch]
    exact Function.update_self ..
  have hkeep : ∀ buf id, Points s.backend buf id → Points (s.backend.setRegions c.epoch
      (registerExternal (s.backend.externalRegions c.epoch) c.region).2) buf id := by
    intro buf id hid
    unfold Points
    rw [hregions]
    refine hold id buf ?_
    rw [hepoch]
    exact hid
  refine h.moved (h.calm hbusy) (.inr ⟨rfl, hkeep⟩) (fun hno => by cases hno) h.nodup
    (fun e he => .inl (hkeep _ _ (hsettled e he))) ⟨hregion, hepoch, hgen, ?_⟩
    (List.forall_mem_nil _)
  unfold Points
  rw [hregions, ← hregion]
  exact hnew

theorem inserted (h : s.Sound) {gen rid : ℕ}
    (hph : s.threads t = .ensuring c (.registered gen rid)) :
    Sound ⟨s.backend.setCache gen (setItem (s.backend.regionCaches gen) c.region rid),
      Function.update s.threads t (.holds c.buf rid c.retry), [] ++ s.transfers⟩ := by
  have hfits := h.fits t
  have hbusy : s.threads t ≠ .idle := by simp [hph]
  have hsettled := h.settled (h.calm_of_steady (by rw [hph]; rfl))
  rw [hph] at hfits
  obtain ⟨hregion, hepoch, rfl, hpoints⟩ := hfits
  have hcache : (s.backend.setCache s.backend.epoch (setItem (s.backend.regionCaches
      s.backend.epoch) c.region rid)).cache = setItem s.backend.cache c.region rid :=
    Function.update_self ..
  refine h.moved (h.calm hbusy) (.inr ⟨rfl, fun _ _ hid => hid⟩) (fun hno => by cases hno) ?_
    (fun e he => .inl ?_) hpoints (List.forall_mem_nil _)
  · rw [hcache]
    exact nodup_setItem h.nodup
  · rw [hcache] at he
    rcases mem_setItem he with rfl | he
    · rw [hregion]
      exact hpoints
    · exact hsettled e he

theorem reset (h : s.Sound) {buf : Buffer} {region : Option Buffer}
    (hph : s.threads t = .failed buf region) (halone : s.alone t = true) :
    Sound ⟨s.backend.resetRdmaClientPool,
      Function.update s.threads t (region.elim .idle (.again buf)), [] ++ s.transfers⟩ := by
  have hfits := h.fits t
  rw [hph] at hfits
  have hcache : s.backend.resetRdmaClientPool.cache = [] := Function.update_self ..
  refine h.moved (h.calm (by simp [hph])) (.inl halone) (fun _ => halone) ?_ (fun e he => ?_) ?_
    (List.forall_mem_nil _)
  · rw [hcache]
    exact List.nodup_nil
  · rw [hcache] at he
    cases he
  · cases region with
    | none => trivial
    | some region => exact hfits region rfl

theorem acted {a : Action} (h : s.Sound) (hq : s.quiet (t, a) = true)
    (hact : act limit s.backend (s.threads t) a = some (b, p, log)) :
    Sound ⟨b, Function.update s.threads t p, log ++ s.transfers⟩ := by
  have hfits := h.fits t
  have hcalm := h.calm_of_steady (t := t)
  generalize hph : s.threads t = ph at hact hfits hcalm
  have hturn := fun hown => @turned n s t p log h (hcalm hown)
  have hnil := List.forall_mem_nil fun q : Buffer × Buffer => q.1 = q.2
  unfold act at hact
  split at hact
  next buf =>
    cases hact
    have hothers : ∀ j, j ≠ t → (s.threads j).evicts = false := of_decide_eq_true hq
    refine h.turned (fun j => ?_) ⟨rfl, rfl, trivial⟩ rfl hnil
    by_cases heq : j = t
    · rw [heq, hph]
      rfl
    · exact hothers j heq
  next buf region =>
    cases hact
    exact hturn rfl ⟨hfits, rfl, trivial⟩ rfl hnil
  next c =>
    split at hact
    next rid hlookup =>
      cases hact
      obtain ⟨l₁, l₂, hsplit, -⟩ := List.lookup_eq_some_iff.mp hlookup
      have hmem : (c.region, rid) ∈ s.backend.cache := by
        rw [hsplit]
        exact List.mem_append_right _ List.mem_cons_self
      exact hturn rfl (hfits.1 ▸ h.settled (hcalm rfl) _ hmem) rfl hnil
    next =>
      cases hact
      exact hturn rfl ⟨hfits.1, hfits.2.1, rfl⟩ rfl hnil
  next c gen =>
    split at hact
    · cases hact
      exact hturn rfl hfits rfl hnil
    · cases hact
      exact hturn rfl hfits rfl hnil
  next c gen =>
    split at hact
    next old rid rest hcache =>
      cases hact
      have hgen : gen = s.backend.epoch := hfits.2.2
      have hmem : (old, rid) ∈ s.backend.cache := by
        unfold Backend.cache
        rw [← hgen, hcache]
        exact List.mem_cons_self
      exact h.moved (fun j _ => hcalm rfl j) (.inl hq) (fun _ => hq) h.nodup
        (fun e he => .inl (h.settled (hcalm rfl) e he)) ⟨hfits.1, hfits.2.1, hgen, hmem⟩ hnil
    next =>
      cases hact
      exact hturn rfl trivial rfl hnil
  next c gen old rid =>
    cases hact
    exact h.unregistered hph
  next c gen old =>
    cases hact
    exact h.popped hph
  next c gen =>
    cases hact
    exact h.registered hph
  next =>
    cases hact
    exact hturn rfl trivial rfl hnil
  next c gen rid =>
    cases hact
    exact h.inserted hph
  next buf id =>
    cases hact
    exact hturn rfl ⟨rfl, hfits⟩ rfl hnil
  next buf id =>
    cases hact
    exact hturn rfl ⟨rfl, hfits, fun r hr => by cases hr⟩ rfl hnil
  next buf id epoch =>
    cases hact
    exact hturn rfl ⟨hfits.1, hfits.2, fun r hr => find_eq (h.settled (hcalm rfl)) hfits.2 hr⟩ rfl
      hnil
  next buf id region epoch retry =>
    obtain ⟨hepoch, hpoints, -⟩ := hfits
    split at hact
    next actual hactual =>
      cases hact
      refine hturn rfl trivial rfl fun q hq => ?_
      rw [List.mem_singleton.mp hq]
      rw [hepoch] at hactual
      simpa using hactual.symm.trans hpoints
    next => cases hact
  next buf id region epoch retry =>
    cases hact
    cases retry with
    | false => exact hturn rfl hfits.2.2 rfl hnil
    | true => exact hturn rfl trivial rfl hnil
  next buf region =>
    cases hact
    exact h.reset hph hq
  next =>
    cases hact
    exact hturn rfl trivial rfl hnil
  next =>
    cases hact
    exact hturn rfl trivial rfl hnil
  next =>
    cases hact
    exact hturn rfl trivial rfl hnil
  next => cases hact

theorem step (h : s.Sound) {e : Fin n × Action} (hq : s.quiet e = true)
    (hs : s.step limit e = some s') : s'.Sound := by
  obtain ⟨⟨b, p, log⟩, hact, rfl⟩ := Option.map_eq_some_iff.mp hs
  exact h.acted hq hact

end Sound

end State

end ContextStore.RdmaRegions
