import ContextStore.Protocol.Served
import ContextStore.Protocol.StreamPut

/-!
# 規約: gRPC の service と GC
-/

namespace ContextStore

open Conc

variable {ν : Type} {E : Env ν} {ρ : Role ν} {t : Hist ν} {n : ν} {α : Type} {key : ObjectKey}
  {m : BlockMeta}

/-! ## RPC -/

theorem Plain.ofExcept {ε : Type} {x : Except ε α} :
    Plain E ρ t (ofExcept x : ExceptT ε (Io ν) α).run := Conforms.ofExcept_iff.mpr rfl

theorem Plain.callNode {node : DataNode} {what : String} {body : ν → Svc ν α}
    (h : ∀ dst t', t <:+ t' → ledger t' = ledger t → Plain E ρ t' (body dst).run) :
    Plain E ρ t (Service.callNode E node what body).run := by
  refine (callNode_conforms (J := fun t' => ledger t' = ledger t) (R := fun _ _ _ => True)
    (fun _ _ _ h => h) (fun _ _ _ _ _ h => h) rfl ?_).weaken fun _ _ _ h => h.1
  intro dst t' _ hs hl
  exact (h dst t' hs hl).weaken fun _ _ _ h' => ⟨Eq.trans h' hl, trivial⟩

theorem Plain.joinResults {ι : Type} {f : ι → Svc ν α} {xs : List ι}
    (h : ∀ x ∈ xs, ∀ t', t <:+ t' → ledger t' = ledger t → Plain E ρ t' (f x).run) :
    Plain E ρ t (Service.joinResults (xs.map f)).run := by
  refine (joinResults_conforms (J := fun t' => t <:+ t' ∧ ledger t' = ledger t)
    (P := fun _ _ _ => True) (fun _ _ _ h => ⟨h.1.trans (List.suffix_cons _ _), h.2⟩)
    (fun _ _ _ _ _ _ _ h => h) ⟨List.suffix_refl t, rfl⟩ ?_).weaken ?_
  · rintro x hx t' ⟨hs, hl⟩
    exact (h x hx t' hs hl).weaken fun _ _ hs' h' => ⟨⟨hs.trans hs', Eq.trans h' hl⟩, trivial⟩
  · rintro t' r - ⟨rs, -, hl, -⟩
    exact hl.2

theorem requireKey_bind {k : Option ObjectKey} {msg : String} {f : ObjectKey → Svc ν α}
    {Q : Hist ν → Except Status α → Prop} (herr : ∀ e, Q t (.error e))
    (hok : ∀ key, k = some key → Conforms (Guard E ρ) Q t (f key).run) :
    Conforms (Guard E ρ) Q t (Service.requireKey k msg >>= f).run := by
  cases k with
  | none => exact herr _
  | some key => exact hok key rfl

structure Settled (E : Env ν) (t' : Hist ν) (res : Result) : Prop where
  quiet : (ledger t').Quiet
  stored : res = some true → ∃ d ∈ (ledger t').draws, d.Stored
  absent : res = some false → ∀ d ∈ (ledger t').draws, ¬ d.Stored ∧ d.Cleaned E t'

theorem Settled.of_quiet {t' : Hist ν} (h : (ledger t').Quiet) : Settled E t' none :=
  ⟨h, (fun h => by cases h), (fun h => by cases h)⟩

theorem Wrote.settled {b : Bytes} {t' : Hist ν} {res : Result} (h : Wrote E key b [] t' res) :
    Settled E t' res where
  quiet := h.quiet
  stored := fun hres => by
    obtain ⟨d, hd, -, -, hs⟩ := h.stored hres
    exact ⟨d, hd, hs⟩
  absent := fun hres d hd => (h.absent hres d hd).resolve_left (fun h => by cases h)

section Writes

variable {b : Bytes} {ds : List (Draw ν)} (hn : ρ.node = n) (hq : (ledger t).Quiet)
  (hd : (ledger t).draws = ds)

theorem Conforms.overwrite {x : Svc ν Unit}
    (h : Conforms (Guard E ρ) (fun t' r => Wrote E key b ds t' (succeeded r)) t x.run) :
    Conforms (Guard E ρ) (fun t' r => Wrote E key b ds t' (storedBy r)) t
      (do
        x
        pure true : Svc ν Bool).run :=
  Conforms.except_bind h (fun _ _ _ h => h) (fun _ _ _ h => h)

theorem Conforms.liftSucceeded {x : Res ν Unit}
    (h : Conforms (Guard E ρ) (fun t' r => Wrote E key b ds t' (succeeded r)) t x.run) :
    Conforms (Guard E ρ) (fun t' r => Wrote E key b ds t' (succeeded r)) t (liftRes x).run := by
  refine Conforms.liftRes_iff.mpr (h.weaken ?_)
  rintro t' (e | ⟨⟩) - h <;> exact h

theorem Conforms.liftStored {x : Res ν Bool}
    (h : Conforms (Guard E ρ) (fun t' r => Wrote E key b ds t' (storedBy r)) t x.run) :
    Conforms (Guard E ρ) (fun t' r => Wrote E key b ds t' (storedBy r)) t (liftRes x).run := by
  refine Conforms.liftRes_iff.mpr (h.weaken ?_)
  rintro t' (e | _) - h <;> exact h

include hn hq hd

theorem putBytes_conforms {ifNotExists : Bool} (hw : ρ.writes key b) :
    Conforms (Guard E ρ) (fun t' r => Wrote E key b ds t' (storedBy r)) t
      (Service.putBytes E n key b m ifNotExists).run := by
  unfold Service.putBytes
  split
  next hdist =>
    cases ifNotExists with
    | true =>
      exact (putDistributedBytesIfAbsent_conforms hn hdist hw hq hd).weaken fun _ _ _ h => h.wrote
    | false =>
      exact Conforms.overwrite
        ((putDistributedBytes_conforms hn hdist hw hq hd).weaken fun _ _ _ h => h.wrote)
  · cases ifNotExists with
    | true => exact Conforms.liftStored (memoryPutIfAbsent_conforms hn hq hd hw)
    | false => exact Conforms.overwrite (Conforms.liftSucceeded (memoryPut_conforms hn hq hd hw))

theorem putSegments_conforms {segments : List Bytes} {ifNotExists : Bool}
    (hw : ρ.writes key segments.flatten) :
    Conforms (Guard E ρ) (fun t' r => Wrote E key segments.flatten ds t' (storedBy r)) t
      (Service.putSegments E n key segments m ifNotExists).run := by
  unfold Service.putSegments
  dsimp only
  split
  next hdist =>
    rw [← List.length_flatten] at hdist
    cases ifNotExists with
    | true =>
      exact (putDistributedBytesIfAbsent_conforms hn hdist hw hq hd).weaken fun _ _ _ h => h.wrote
    | false =>
      exact Conforms.overwrite
        ((putDistributedBytes_conforms hn hdist hw hq hd).weaken fun _ _ _ h => h.wrote)
  · cases ifNotExists with
    | true => exact Conforms.liftStored (memoryPutChunksIfAbsent_conforms hn hq hd hw)
    | false =>
      exact Conforms.overwrite (Conforms.liftSucceeded (memoryPutChunks_conforms hn hq hd hw))

end Writes

theorem servicePut_conforms {req : PutRequest} (hn : ρ.node = n) (hq : (ledger t).Quiet)
    (hd : (ledger t).draws = []) (hw : ∀ key, req.key = some key → ρ.writes key req.data) :
    Conforms (Guard E ρ) (fun t' r => Settled E t' (storedBy r)) t (Service.put E n req).run := by
  refine requireKey_bind (fun _ => .of_quiet hq) fun key hk => ?_
  refine ⟨trivial, fun now => ?_⟩
  exact (putBytes_conforms (t := ⟨.now, now⟩ :: t) hn hq hd (hw key hk)).weaken
    fun _ _ _ h => h.settled

theorem serviceDelete_conforms {k : Option ObjectKey} (hq : (ledger t).Quiet)
    (hr : ∀ key, k = some key → ρ.retires key.toStringKey) :
    Plain E ρ t (Service.delete E n k).run := by
  refine requireKey_bind (fun _ => rfl) fun key hk => ?_
  have hretire : Plain E ρ t (Storage.retire E n key).run := by
    refine ⟨trivial, fun now => ?_⟩
    refine Conforms.except_bind (Conforms.sendPlain (t := ⟨.now, now⟩ :: t)
      (c := .retireBlock _ _) (fun _ _ => rfl) (fun _ _ _ => hr key hk) hq) ?_ (fun _ _ _ h => h.1)
    exact fun _ _ _ h => h.1
  refine Plain.exceptBind hretire.liftRes fun t₁ _ _ _ => ?_
  exact Plain.exceptBind invalidate_conforms.exceptLift fun _ _ _ _ => rfl

theorem receiveAll_conforms : ∀ (chunks : List PutChunk) (sawLast : Bool) (segments : List Bytes)
    (t : Hist ν), Conforms (Guard E ρ) (fun t' r => ledger t' = ledger t ∧ ∀ segs, r = .ok segs →
      segs.flatten = segments.flatten ++ (if sawLast then [] else receivedData chunks)) t
      (Service.receiveAll chunks sawLast segments).run := by
  intro chunks
  induction chunks with
  | nil =>
    intro sawLast segments t
    unfold Service.receiveAll
    split
    next hlast => exact ⟨rfl, fun segs h => by cases h; simp⟩
    next hlast =>
      refine Conforms.except_bind_iff.mpr (Conforms.lift_issue.mpr ⟨trivial, ?_⟩)
      rintro (e | ⟨⟩)
      · exact ⟨rfl, fun segs h => by cases h⟩
      · exact ⟨rfl, fun segs h => by cases h; simp [receivedData]⟩
  | cons c rest ih =>
    intro sawLast segments t
    unfold Service.receiveAll
    split
    next hlast => exact ⟨rfl, fun segs h => by cases h; simp⟩
    next hlast =>
      refine Conforms.except_bind_iff.mpr (Conforms.lift_issue.mpr ⟨trivial, ?_⟩)
      rintro (e | ⟨⟩)
      · exact ⟨rfl, fun segs h => by cases h⟩
      · refine (ih c.isLast (segments ++ [c.data]) _).weaken ?_
        rintro t' r - ⟨hl, hsegs⟩
        refine ⟨hl, fun segs h => ?_⟩
        rw [hsegs segs h]
        cases hc : c.isLast <;> simp [receivedData, hc]

theorem servicePutStream_conforms {head : PutStreamHead} {chunks : List PutChunk}
    (hn : ρ.node = n) (hstream : ρ.streams = true) (hq : (ledger t).Quiet)
    (hd : (ledger t).draws = [])
    (hw : ∀ key, head.key = some key → ρ.writes key (receivedData chunks)) :
    Conforms (Guard E ρ) (fun t' r => Settled E t' (storedBy r)) t
      (Service.putStream E n head chunks).run := by
  refine Conforms.except_bind_iff.mpr (Conforms.lift_issue.mpr ⟨trivial, ?_⟩)
  rintro (e | ⟨⟩)
  · exact .of_quiet hq
  cases chunks with
  | nil => exact .of_quiet hq
  | cons first rest =>
    refine requireKey_bind (fun _ => .of_quiet hq) fun key hk => ?_
    refine ⟨trivial, fun now => ?_⟩
    dsimp only
    split
    next hcond =>
      exact (putDistributedStream_conforms (t := ⟨.now, now⟩ :: ⟨.receive, .ok ()⟩ :: t) hn hstream
        hcond.2 rfl (hw key hk) hq hd).weaken fun _ _ _ h => h.wrote.settled
    · refine Conforms.except_bind (receiveAll_conforms rest first.isLast [first.data] _) ?_
        (fun t' e _ h => .of_quiet (by rw [h.1]; exact hq))
      rintro t₁ segs - ⟨hl, hsegs⟩
      have hflat : segs.flatten = receivedData (first :: rest) := by
        rw [hsegs segs rfl]
        cases hc : first.isLast <;> simp [receivedData, hc]
      refine (putSegments_conforms hn (by rw [hl]; exact hq) (by rw [hl]; exact hd) ?_).weaken
        fun _ _ _ h => h.settled
      rw [hflat]
      exact hw key hk

theorem batchItems_conforms : ∀ (reqs : List PutRequest) (t : Hist ν),
    Conforms (Guard E ρ) (fun t' r => ledger t' = ledger t ∧ ∀ items, r = .ok items →
      ∀ it ∈ items, ∃ req ∈ reqs, req.key = some it.1 ∧ req.data = it.2.1) t
      (Service.batchItems reqs).run := by
  intro reqs
  induction reqs with
  | nil => intro t; exact ⟨rfl, fun items h it hit => by cases h; cases hit⟩
  | cons req reqs ih =>
    intro t
    refine requireKey_bind (fun _ => ⟨rfl, fun _ h => by cases h⟩) fun key hk => ?_
    refine ⟨trivial, fun now => ?_⟩
    refine Conforms.except_bind (ih _) ?_ (fun t' _ _ h => ⟨h.1, fun _ h => by cases h⟩)
    rintro t₁ rest - ⟨hl, hrest⟩
    refine ⟨hl, fun items h it hit => ?_⟩
    grind

theorem putOne_conforms {b : Bytes} {ifNotExists : Bool} (hn : ρ.node = n)
    (hq : (ledger t).Quiet) (hw : ρ.writes key b) :
    Conforms (Guard E ρ) (fun t' _ => (ledger t').Quiet) t
      (Service.putOne E n key b m ifNotExists).run := by
  unfold Service.putOne
  cases ifNotExists with
  | true => exact (memoryPutIfAbsent_conforms hn hq rfl hw).weaken fun _ _ _ h => h.quiet
  | false =>
    exact Conforms.except_bind (memoryPut_conforms hn hq rfl hw) (fun _ _ _ h => h.quiet)
      (fun _ _ _ h => h.quiet)

theorem putEach_conforms (hn : ρ.node = n) :
    ∀ (items : List (ObjectKey × Bytes × BlockMeta × Bool)) (t : Hist ν), (ledger t).Quiet →
      (∀ it ∈ items, ρ.writes it.1 it.2.1) →
      Conforms (Guard E ρ) (fun t' _ => (ledger t').Quiet) t (Service.putEach E n items) := by
  intro items
  induction items with
  | nil => intro t hq _; exact hq
  | cons it items ih =>
    intro t hq hw
    obtain ⟨key, data, m, ifNotExists⟩ := it
    refine Conforms.bind (putOne_conforms hn hq (hw _ List.mem_cons_self)) ?_
    intro t₁ r _ hq₁
    refine Conforms.bind (ih t₁ hq₁ fun it hit => hw it (List.mem_cons_of_mem _ hit)) ?_
    exact fun _ _ _ h => h

theorem servicePutBatch_conforms {reqs : List PutRequest} (hn : ρ.node = n)
    (hlen : ρ.lenient = true) (hq : (ledger t).Quiet)
    (hw : ∀ req ∈ reqs, ∀ key, req.key = some key → ρ.writes key req.data) :
    Conforms (Guard E ρ) (fun t' _ => Settled E t' none) t (Service.putBatch E n reqs).run := by
  refine Conforms.except_bind (batchItems_conforms reqs t) ?_
    (fun t' _ _ h => .of_quiet (by rw [h.1]; exact hq))
  rintro t₁ items - ⟨hl, hitems⟩
  have hq₁ : (ledger t₁).Quiet := by rw [hl]; exact hq
  have hw₁ : ∀ it ∈ items, ρ.writes it.1 it.2.1 := by
    grind
  split
  · exact Conforms.lift_iff.mpr ((putEach_conforms hn items t₁ hq₁ hw₁).weaken
      fun _ _ _ h => .of_quiet h)
  · refine Conforms.lift_bind
      ((memoryPutBatch_conforms hn hlen hq₁ ?_).weaken fun _ _ _ h => .of_quiet h.1)
    grind

/-! ## GC -/

theorem mem_files_of_chunksFromMeta {c : ChunkLocation}
    (hc : c ∈ Placement.chunksFromMeta E n m) : c.storageHandle ∈ m.files := by
  unfold Placement.chunksFromMeta at hc
  dsimp only at hc
  split at hc
  next s hst =>
    refine (BlockMeta.mem_files_striped hst).mpr ?_
    grind
  simp_all [BlockMeta.mem_files_whole]

theorem mem_of_mapM {β γ : Type} {f : β → Option γ} : ∀ {xs : List β} {ys : List γ},
    xs.mapM f = some ys → ∀ {y}, y ∈ ys → ∃ x ∈ xs, f x = some y
  | [], ys, h, y, hy => by
    cases h
    cases hy
  | x :: xs, ys, h, y, hy => by
    rw [List.mapM_cons] at h
    obtain ⟨z, hz, h⟩ := Option.bind_eq_some_iff.mp h
    obtain ⟨zs, hzs, h⟩ := Option.bind_eq_some_iff.mp h
    cases h
    rcases List.mem_cons.mp hy with rfl | hy
    · exact ⟨x, List.mem_cons_self, hz⟩
    · simp_all [mem_of_mapM]

section Gc

variable {task : GcTask} (hc : ρ.collects = true) (hd : (ledger t).draws = [])

theorem quiet_of_nil (hd : (ledger t).draws = []) : (ledger t).Quiet := by
  intro d ds h
  rw [hd] at h
  cases h

theorem Claimed.mono {t' : Hist ν} (h : Claimed t task) (hs : t <:+ t') : Claimed t' task := by
  obtain ⟨now, limit, lease, payloads, hev, hp⟩ := h
  exact ⟨now, limit, lease, payloads, hs.subset hev, hp⟩

include hc hd

theorem gcDeleteChunk_conforms {dst : ν} {p : String} (hcl : Claimed t task)
    (hp : p ∈ task.retired.files) :
    Plain E ρ t (liftRes (Storage.deletePlacementChunk E dst p)).run := by
  refine Plain.liftRes (Plain.exceptBind .ofExcept fun t₁ _ hs₁ h₁ => ?_)
  refine Conforms.lift_bind ⟨trivial, fun existed => ?_⟩
  refine Conforms.lift_bind ⟨.inr ⟨hc, task, ?_, hp⟩, ?_⟩
  · exact hcl.mono (hs₁.trans (List.suffix_cons _ _))
  · rintro (e | ⟨⟩)
    · rfl
    · show ledger (⟨.deleteFile dst p, .ok ()⟩ :: ⟨.fileExists dst p, existed⟩ :: t₁) = ledger t₁
      rw [ledger_deleteFile_ok, ledger_fileExists]
      rw [← h₁] at hd
      generalize ledger t₁ = l at hd
      obtain ⟨call, draws⟩ := l
      obtain rfl : draws = [] := hd
      rfl

theorem gcDeleteFromPlacement_conforms {c : ChunkLocation} (hcl : Claimed t task)
    (hp : c.storageHandle ∈ task.retired.files) :
    Plain E ρ t (Service.deleteChunkFromPlacement E n c).run := by
  unfold Service.deleteChunkFromPlacement
  split
  · exact Plain.exceptBind (gcDeleteChunk_conforms hc hd hcl hp) fun _ _ _ _ => rfl
  · refine Plain.exceptBind (Plain.callNode fun dst t' hs hl => ?_) fun _ _ _ _ => rfl
    exact gcDeleteChunk_conforms hc (by rw [hl]; exact hd) (hcl.mono hs) hp

theorem deleteDistributedChunks_conforms (hcl : Claimed t task) :
    Plain E ρ t (Service.deleteDistributedChunks E n
      (Placement.placementFromMeta E n key task.retired)).run := by
  refine Plain.exceptBind (Plain.joinResults fun c hcm t' hs hl => ?_) fun _ _ _ _ => ?_
  · exact gcDeleteFromPlacement_conforms hc (by rw [hl]; exact hd) (hcl.mono hs)
      (mem_files_of_chunksFromMeta hcm)
  · exact Plain.exceptBind .ofExcept fun _ _ _ _ => rfl

omit hc hd in
theorem Plain.runWithReconnect {op : String} {command : Io ν (Except String α)}
    (hq : (ledger t).Quiet)
    (h : ∀ t', t <:+ t' → ledger t' = ledger t → Plain E ρ t' command) :
    Plain E ρ t (Metadata.runWithReconnect op command).run := by
  refine Conforms.runWithReconnect ((h t (List.suffix_refl t) rfl).weaken ?_)
  rintro t₁ (e | v) hs₁ h₁
  · have hre : ∀ r, ledger (⟨.reconnect, r⟩ :: t₁) = ledger t := by
      intro r
      rw [ledger_reconnect, h₁, hq.reconnect]
    refine ⟨trivial, fun _ => hre _, (h _ (hs₁.trans (List.suffix_cons _ _)) (hre _)).weaken ?_⟩
    rintro t₂ (e | v) - h₂ <;> exact Eq.trans h₂ (hre _)
  · exact h₁

theorem completeGcTask_conforms {id : String} : Plain E ρ t (Metadata.completeGcTask id).run := by
  refine Plain.runWithReconnect (quiet_of_nil hd) fun t' _ _ => ?_
  refine Conforms.issue_bind.mpr ⟨hc, ?_⟩
  rintro (e | ⟨⟩)
  · rfl
  · exact ⟨hc, fun _ => rfl⟩

theorem rescheduleGcTask_conforms {now : Int} (hcl : Claimed t task) :
    Plain E ρ t (Service.rescheduleGcTask task now) := by
  refine Plain.bind (Plain.runWithReconnect (quiet_of_nil hd) fun t' hs _ => ?_)
    fun _ _ _ _ => rfl
  refine Conforms.issue_bind.mpr ⟨hc, ?_⟩
  rintro (e | ⟨⟩)
  · rfl
  · refine Conforms.issue_bind.mpr
      ⟨⟨hc, task, hcl.mono (hs.trans (List.suffix_cons _ _)), rfl, rfl⟩,
      ?_⟩
    rintro (e | ⟨⟩)
    · rfl
    · exact ⟨hc, fun _ => rfl⟩

theorem gcTask_conforms {now : Int} (hcl : Claimed t task) :
    Plain E ρ t (Service.gcTask E n now task) := by
  unfold Service.gcTask
  split
  · exact Plain.bind (completeGcTask_conforms hc hd) fun _ _ _ _ => rfl
  · refine Plain.bind (getBlock_plain (quiet_of_nil hd)) ?_
    rintro t₁ (e | current) hs₁ h₁
    · exact rescheduleGcTask_conforms hc (by rw [h₁]; exact hd) (hcl.mono hs₁)
    · have hd₁ : (ledger t₁).draws = [] := by rw [h₁]; exact hd
      dsimp only
      split
      · exact rescheduleGcTask_conforms hc hd₁ (hcl.mono hs₁)
      · refine Plain.bind (deleteDistributedChunks_conforms hc hd₁ (hcl.mono hs₁)) ?_
        rintro t₂ (e | ⟨⟩) hs₂ h₂
        · grind [rescheduleGcTask_conforms, Claimed.mono]
        · have hd₂ : (ledger t₂).draws = [] := by rw [h₂]; exact hd₁
          refine Plain.bind (completeGcTask_conforms hc hd₂) ?_
          rintro t₃ (e | ⟨⟩) hs₃ h₃
          · grind [rescheduleGcTask_conforms, Claimed.mono]
          · rfl

omit hd in
theorem gcTasks_conforms {now : Int} : ∀ (tasks : List GcTask) (t : Hist ν),
    (ledger t).draws = [] → (∀ task ∈ tasks, Claimed t task) →
    Plain E ρ t (Service.gcTasks E n now tasks) := by
  intro tasks
  induction tasks with
  | nil => intro t _ _; rfl
  | cons task tasks ih =>
    intro t hd hcl
    refine Plain.bind (gcTask_conforms hc hd (hcl task List.mem_cons_self)) ?_
    grind [Claimed.mono]

theorem runGcOnce_conforms : Plain E ρ t (Service.runGcOnce E n) := by
  refine Conforms.issue_bind.mpr ⟨trivial, fun now => ?_⟩
  have hq : (ledger (⟨.now, now⟩ :: t)).Quiet := quiet_of_nil hd
  refine Conforms.bind (Q := fun t' r => ledger t' = ledger t ∧ ∀ tasks, r = .ok tasks →
    ∀ task ∈ tasks, Claimed t' task) ?_ ?_
  · refine Conforms.except_bind (Conforms.sendPlain (c := .takeDueGcTasks _ _ _) (fun _ _ => rfl)
      (fun _ _ _ => hc) hq) ?_ (fun t' _ _ h => ⟨h.1, fun _ h => by cases h⟩)
    rintro t₁ payloads - ⟨hl, t₀, rfl, -⟩
    cases hparse : payloads.mapM GcPayload.parse with
    | none => exact ⟨hl, fun _ h => by cases h⟩
    | some tasks =>
      refine ⟨hl, fun tasks' h task htask => ?_⟩
      cases h
      obtain ⟨p, hp, hpt⟩ := mem_of_mapM hparse htask
      exact ⟨_, _, _, payloads, List.mem_cons_self, p, hp, GcPayload.task_of_parse hpt⟩
  · rintro t₁ (e | tasks) - ⟨hl, hcl⟩
    · exact hl
    · exact (gcTasks_conforms hc tasks t₁ (by rw [hl]; exact hd) (hcl tasks rfl)).weaken
        fun _ _ _ h => Eq.trans h hl

end Gc

end ContextStore
