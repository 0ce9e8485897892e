import ContextStore.Cluster.Publish
import ContextStore.Paths

/-!
# 要求の file handle
-/

namespace ContextStore

open Conc

variable {ν : Type}

def Cmd.file? : Cmd ν → Option (ν × String)
  | .fileExists n p => some (n, p)
  | .readFile n p => some (n, p)
  | .readRange n p _ _ => some (n, p)
  | .writeFile n p _ => some (n, p)
  | .deleteFile n p => some (n, p)
  | _ => none

def Touching (F : ν → String → Prop) (_ : Hist ν) (c : Cmd ν) : Prop :=
  ∀ n p, c.file? = some (n, p) → F n p

section Touching

variable {E : Env ν} {n : ν} {t : Hist ν} {α ε : Type} {F : ν → String → Prop}

variable {c : Cmd ν}

theorem Touching.of_none (h : c.file? = none) : Touching F t c := by
  intro n p hp
  rw [h] at hp
  cases hp

theorem Touching.of_some {q : ν} {p : String} (h : c.file? = some (q, p)) (hF : F q p) :
    Touching F t c := by
  intro q' p' hp
  rw [h] at hp
  cases hp
  exact hF

theorem LiveGuard.touching (h : LiveGuard t c) : Touching F t c := by
  refine .of_none ?_
  cases c <;> first | rfl | exact h.elim

theorem readChunkFile_touches {desc : ObjectDescriptor} {chunk : ChunkLocation}
    (hF : F n chunk.storageHandle) :
    Issues (Touching F) t (Service.readChunkFile E n desc chunk).run := by
  refine Issues.exceptBind (Issues.liftRes ?_) ?_
  · refine Issues.exceptBind Issues.ofExcept fun t₁ _ => ⟨.of_some rfl hF, ?_⟩
    rintro (_ | _)
    · trivial
    · refine ⟨.of_some rfl hF, ?_⟩
      rintro (e | data)
      · trivial
      · refine Issues.exceptBind Issues.ofExcept fun _ _ => ?_
        exact Issues.exceptBind Issues.ofExcept fun _ _ => trivial
  · rintro t₁ (_ | data) <;> trivial

end Touching

section Rpc

variable (E : Env ν)

def ChunkHandle (n : ν) (p : String) : Prop :=
  ∃ (key : ObjectKey) (dev g l i : Nat), dev < (E.cfg n).router.numDevices ∧
    pathComponents p = pathComponents ((E.cfg n).router.versionedPath E.ext key dev g l (.chunk i))

def Call.touches : Call ν → ν → String → Prop
  | .readChunk n _ _ chunk, q, p => q = n ∧ p = chunk.storageHandle ∧ ChunkHandle E n p
  | .deleteChunk n chunk, q, p => q = n ∧ p = chunk.storageHandle ∧
      Storage.ensureManagedPath E n p = .ok ()
  | _, _, _ => True

variable {E} {n : ν} {t : Hist ν}

theorem chunkHandle_of_valid {key : ObjectKey} {i g l dev : Nat} {p : String}
    (h : Storage.validatePlacementChunkHandle E n key i g l dev p = .ok ()) :
      ChunkHandle E n p := by
  unfold Storage.validatePlacementChunkHandle at h
  cases hm : Storage.ensureManagedPath E n p with
  | error e => rw [hm] at h; cases h
  | ok u =>
    rw [hm] at h
    simp only [bind, Except.bind] at h
    split at h
    · cases h
    next hdev =>
      simp only [pure, Except.pure] at h
      split at h
      · cases h
      next hp => exact ⟨key, dev, g, l, i, by omega, Decidable.of_not_not hp⟩

theorem readPlacementChunkRpc_touches {desc : ObjectDescriptor}
    {placement : Option PlacementDescriptor} {chunk : ChunkLocation} :
    Issues (Touching ((Call.readChunk n desc placement chunk).touches E)) t
      (Service.readPlacementChunkRpc E n desc placement chunk).run := by
  refine Issues.exceptBind Issues.ofExcept fun t₁ key => ?_
  refine Issues.exceptBind (validateActive_issues.mono fun _ _ => LiveGuard.touching)
    fun t₂ _ => ?_
  cases hv : Storage.validatePlacementChunkHandle E n key chunk.stripeIndex desc.objectGeneration
    desc.layoutVersion chunk.deviceId chunk.storageHandle with
  | error e => trivial
  | ok u => exact readChunkFile_touches ⟨rfl, rfl, chunkHandle_of_valid hv⟩

theorem deletePlacementChunkRpc_touches {chunk : ChunkLocation} :
    Issues (Touching ((Call.deleteChunk n chunk).touches E)) t
      (Service.deletePlacementChunkRpc E n chunk).run := by
  refine Issues.liftRes ?_
  unfold Storage.deletePlacementChunk
  cases hm : Storage.ensureManagedPath E n chunk.storageHandle with
  | error e => trivial
  | ok u =>
    refine ⟨.of_some rfl ⟨rfl, rfl, hm⟩, fun _ => ⟨.of_some rfl ⟨rfl, rfl, hm⟩, ?_⟩⟩
    rintro (e | ⟨⟩) <;> trivial

theorem Call.touching (call : Call ν) :
    Conforms (Touching (call.touches E)) (fun _ _ => True) [] (call.prog E) := by
  cases call with
  | readChunk n desc placement chunk =>
    exact Issues.bind readPlacementChunkRpc_touches fun _ _ => trivial
  | deleteChunk n chunk => exact Issues.bind deletePlacementChunkRpc_touches fun _ _ => trivial
  | _ => exact Conforms.mono (fun _ _ _ _ _ _ => trivial) (fun _ _ _ h => h) Conforms.any

end Rpc

namespace ShardRouter

def descendsTo (r : ShardRouter) (p : String) : Bool :=
  r.devices.any fun d => pathStartsWith p d &&
    decide (Descends ((pathComponents p).drop (pathComponents d).length))

theorem inside_of_descendsTo {r : ShardRouter} {p : String} (h : r.descendsTo p = true)
    (cwd : List (List Char)) : r.Inside cwd p := by
  obtain ⟨d, hd, h⟩ := List.any_eq_true.mp h
  obtain ⟨hpre, hdesc⟩ := Bool.and_eq_true_iff.mp h
  obtain ⟨cs, hcs⟩ := List.isPrefixOf_iff_prefix.mp hpre
  rw [← hcs, List.drop_left] at hdesc
  exact inside_of_descends hd hcs.symm (of_decide_eq_true hdesc)

end ShardRouter

section Reachable

variable [DecidableEq ν] (E : Env ν)

def Call.handlesDescend : Call ν → Prop
  | .deleteChunk n chunk => Storage.ensureManagedPath E n chunk.storageHandle = .ok () →
      (E.cfg n).router.descendsTo chunk.storageHandle = true
  | .commit n req => ∀ key desc, Service.Accepts E n req key desc →
      ∀ l ∈ req.chunks, ∀ q, (E.cfg q).router.descendsTo l.storageHandle = true
  | _ => True

def HandlesDescend (_ : State ν) : Move ν → Prop
  | .spawn call => call.handlesDescend E
  | _ => True

def FromHandle (c : State ν) (i : Nat) (p : String) : Prop :=
  (∃ th, c.threads[i]? = some th ∧ ((∃ n desc placement chunk,
      th.label = .readChunk n desc placement chunk) ∨ ∃ n chunk, th.label = .deleteChunk n chunk)) ∨
  ∃ th ∈ c.threads, ∃ n req key desc, th.label = .commit n req ∧
    Service.Accepts E n req key desc ∧ ∃ l ∈ req.chunks, l.storageHandle = p

variable {E} {c : State ν}

theorem Reachable.touched {P : State ν → Move ν → Prop} (h : Reachable E P c) {i : Nat}
    {th : Thread (Call ν) (Cmd ν) Cmd.Resp Returned} (hth : c.threads[i]? = some th)
    {e : Event (Cmd ν) Cmd.Resp} {o : Effect} (hm : .ran i e o ∈ c.log) {n : ν} {p : String}
    (hf : e.1.file? = some (n, p)) : th.label.touches E n p := by
  obtain ⟨clock, h⟩ := h
  obtain ⟨newer, older, hlog⟩ := List.append_of_mem hm
  have hguard := h.guarded (G := fun call => Touching (call.touches E))
    (fun _ call _ => call.touching) th (List.mem_of_getElem? hth)
  rw [h.trace_eq i th hth] at hguard
  have hsuffix : histOf i (.ran i e o :: older) <:+ histOf i c.log :=
    histOf_suffix ⟨newer, hlog.symm⟩
  rw [histOf_ran_self] at hsuffix
  exact (hguard.suffix hsuffix).head n p hf

theorem handles_contained (hrel : ∀ n, (E.cfg n).router.RelativeSubdir)
    (hsub : ∀ n, ['.', '.'] ∉ pathComponents (E.cfg n).router.dataSubdir)
    (h : Reachable E (HandlesDescend E) c) {i : Nat} {e : Event (Cmd ν) Cmd.Resp} {o : Effect}
    (hm : .ran i e o ∈ c.log) {n : ν} {p : String} (hf : e.1.file? = some (n, p))
    (hp : FromHandle E c i p) (cwd : List (List Char)) : (E.cfg n).router.Inside cwd p := by
  have hspawned := h.spawned (p := Call.handlesDescend E) fun _ _ h => h
  rcases hp with ⟨th, hth, hrpc⟩ | ⟨th, hth, n', req, key, desc, hl, hacc, l, hmem, rfl⟩
  · have htouch := h.touched hth hm hf
    rcases hrpc with ⟨n', desc, placement, chunk, hl⟩ | ⟨n', chunk, hl⟩
    · rw [hl] at htouch
      obtain ⟨rfl, -, key, dev, g, l, k, hdev, hcomp⟩ := htouch
      exact ShardRouter.inside_versionedPath cwd (hrel n) hdev (hsub n) hcomp
    · have hcond := hspawned th (List.mem_of_getElem? hth)
      rw [hl] at htouch hcond
      obtain ⟨rfl, rfl, hmanaged⟩ := htouch
      exact ShardRouter.inside_of_descendsTo (hcond hmanaged) cwd
  · have hcond := hspawned th hth
    rw [hl] at hcond
    exact ShardRouter.inside_of_descendsTo (hcond key desc hacc l hmem n) cwd

end Reachable

def handleOf (p : String) : ChunkLocation := ⟨0, "a", "a:1", "a:2", 0, p, 0, 1, ""⟩

def handleCommit (p : String) : Service.CommitRequest where
  key := some ⟨"", "x"⟩
  descriptor := some ⟨some ⟨"", "x"⟩, "", 1, "", 1, 1, true, 1, 1⟩
  chunks := [handleOf p]
  metadata := none
  options := none

def handlesDescendTo (E : Env (Fin 2)) (_ : State (Fin 2)) : Move (Fin 2) → Bool
  | .spawn (.deleteChunk n chunk) => (E.cfg n).router.descendsTo chunk.storageHandle
  | .spawn (.commit _ req) => req.chunks.all fun l =>
      decide (∀ q, (E.cfg q).router.descendsTo l.storageHandle = true)
  | _ => true

theorem handlesDescend_of_descendTo {E : Env (Fin 2)} {c : State (Fin 2)} {a : Move (Fin 2)}
    (h : handlesDescendTo E c a = true) : HandlesDescend E c a := by
  cases a with
  | spawn call =>
    cases call with
    | deleteChunk n chunk => exact fun _ => h
    | commit n req =>
      intro _ _ _ l hl
      exact of_decide_eq_true (List.all_eq_true.mp h l hl)
    | _ => trivial
  | _ => trivial

def removedBy (i : Nat) (n : Fin 2) (p : String) (c : State (Fin 2)) : Bool :=
  (c.threads[i]?.any fun th => match th.label with
    | .deleteChunk _ _ => true
    | _ => false) &&
  c.log.any fun e => match e with
    | .ran j ⟨.deleteFile n' p', _⟩ _ => j == i && n' == n && p' == p
    | _ => false

theorem exists_of_removedBy {E : Env (Fin 2)} {i : Nat} {n : Fin 2} {p : String}
    {c : State (Fin 2)} (h : removedBy i n p c = true) :
    FromHandle E c i p ∧ ∃ r o, .ran i ⟨.deleteFile n p, r⟩ o ∈ c.log := by
  obtain ⟨hthread, hlog⟩ := Bool.and_eq_true_iff.mp h
  constructor
  · obtain ⟨th, hth, hlabel⟩ := (Option.any_eq_true _ _).mp hthread
    refine .inl ⟨th, hth, .inr ?_⟩
    cases hl : th.label with
    | deleteChunk n chunk => exact ⟨n, chunk, rfl⟩
    | _ =>
      rw [hl] at hlabel
      cases hlabel
  · obtain ⟨e, he, hmatch⟩ := List.any_eq_true.mp hlog
    split at hmatch
    next =>
      simp only [Bool.and_eq_true, beq_iff_eq] at hmatch
      obtain ⟨⟨rfl, rfl⟩, rfl⟩ := hmatch
      exact ⟨_, _, he⟩
    · cases hmatch

theorem handles_contained_committed :
    ∃ c : State (Fin 2), Reachable samplePlain (HandlesDescend samplePlain) c ∧
      (∃ i r o, .ran i ⟨.deleteFile 0 "/d0/kv/x", r⟩ o ∈ c.log) ∧
      (samplePlain.cfg 0).router.Inside [] "/d0/kv/x" := by
  obtain ⟨c, ⟨clock, hc⟩, hcheck⟩ := Reachable.exists_of_play (E := samplePlain)
    (handlesDescendTo samplePlain) 0
    (alone 0 (.commit 0 (handleCommit "/d0/kv/x")) ++
      alone 1 (.deleteChunk 0 (handleOf "/d0/kv/x")))
    (removedBy 1 0 "/d0/kv/x") (by decide +kernel)
  have hc : Reachable samplePlain (HandlesDescend samplePlain) c :=
    ⟨clock, hc.mono fun _ _ => handlesDescend_of_descendTo⟩
  obtain ⟨hfrom, r, o, hran⟩ := exists_of_removedBy hcheck
  refine ⟨c, hc, ⟨1, r, o, hran⟩, ?_⟩
  exact handles_contained (fun n => by revert n; decide) (fun n => by revert n; decide) hc hran rfl
    hfrom []

theorem deleteChunk_escapes :
    ∃ c : State (Fin 2), Reachable samplePlain (fun _ _ => true = true) c ∧
      (∃ i r o, FromHandle samplePlain c i "/d0/../etc/passwd" ∧
        .ran i ⟨.deleteFile 0 "/d0/../etc/passwd", r⟩ o ∈ c.log) ∧
      ¬ (samplePlain.cfg 0).router.Inside [] "/d0/../etc/passwd" := by
  obtain ⟨c, hc, hcheck⟩ := Reachable.exists_of_play (E := samplePlain) (fun _ _ => true) 0
    (alone 0 (.deleteChunk 0 (handleOf "/d0/../etc/passwd")))
    (removedBy 0 0 "/d0/../etc/passwd") (by decide +kernel)
  obtain ⟨hfrom, r, o, hran⟩ := exists_of_removedBy hcheck
  refine ⟨c, hc, ⟨0, r, o, hfrom, hran⟩, ?_⟩
  rintro ⟨d, hd, hpre⟩
  have hd : d ∈ ["/d0", "/d1"] := hd
  rcases List.mem_pair.mp hd with rfl | rfl
  · exact absurd hpre (by decide +kernel)
  · exact absurd hpre (by decide +kernel)

end ContextStore
