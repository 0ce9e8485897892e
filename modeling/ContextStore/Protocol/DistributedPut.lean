import ContextStore.Protocol.Distributed

/-!
# 規約: 分散配置の書き込み
-/

namespace ContextStore

open Conc

variable {ν : Type} {E : Env ν} {ρ : Role ν} {t : Hist ν} {n : ν} {α : Type}
  {k : ObjectKey} {b : Bytes} {g : Nat} {ds : List (Draw ν)} {m : BlockMeta} {ifAbsent : Bool}

/-! ## 共通の段 -/

theorem liftPrepareWriteMeta_bind {size : Nat} {f : BlockMeta → Svc ν α}
    {Q : Hist ν → Except Status α → Prop} (hl : ledger t = ⟨some (k, b), ds⟩)
    (hq : (ledger t).Quiet) (herr : ∀ t' e, Written E k b ds t' none → Q t' (.error e))
    (hok : ∀ t' g, ledger t' = ⟨none, Draw.fresh k b g :: ds⟩ →
      Conforms (Guard E ρ) Q t' (f (Storage.preparedMeta E k m size g)).run) :
    Conforms (Guard E ρ) Q t (liftRes (Storage.prepareWriteMeta E k m size) >>= f).run := by
  refine Conforms.except_bind_iff.mpr (Conforms.liftRes_iff.mpr
    ((prepareWriteMeta_conforms hl hq).weaken ?_))
  rintro t' (e | m') - h
  · exact herr t' _ h
  · obtain ⟨g, hl', rfl⟩ := h
    exact hok t' g hl'

theorem Filled.failed {new : ν × String × Bytes → Prop} (h : Filled (Draw.fresh k b g) ds new t) :
    Written E k b ds t none := by
  obtain ⟨fs, hl, -⟩ := h
  exact RolledBack.written (d := { Draw.fresh k b g with files := fs }) (RolledBack.refl hl)
    (.inl rfl) (fun h => by cases h) (fun h => by cases h)

theorem rollback_failed {fs : List (ν × String × Bytes)} {locs : List ChunkLocation}
    (hl : ledger t = ⟨none, { Draw.fresh k b g with files := fs } :: ds⟩)
    (hown : ∀ c ∈ locs, (Draw.fresh k b g : Draw ν).Owns E c.storageHandle) :
    Conforms (Guard E ρ) (fun t' _ => Written E k b ds t' none) t
      (Service.rollbackChunks E n locs) := by
  refine (rollbackChunks_conforms locs t _ hl (.inl rfl)
    fun c hc => (hown c hc).congr rfl rfl).weaken ?_
  intro t' _ _ h
  exact h.written (.inl rfl) (fun h => by cases h) (fun h => by cases h)

theorem commitDistributed_conforms {t₀ : Hist ν} {fs : List (ν × String × Bytes)}
    {locs : List ChunkLocation} {total : Nat} {nb : Int} (hn : ρ.node = n)
    (hgen : m.objectGeneration = g) (htotal : total = b.length)
    (hdist : Placement.distributedPlacementEnabled E n b.length = true)
    (hsums : (E.cfg n).verifyStripeChecksums = true → ρ.streams = true ∨
      ∀ c ∈ Service.sortLocations locs, c.checksum ≠ "")
    (hl₀ : ledger t₀ = ⟨none, { Draw.fresh k b g with files := fs } :: ds⟩)
    (hfs : ∀ f ∈ fs, StripeFile E n k b g (ρ.chunkSize E) f)
    (hall : AllLocated E n k b g (ρ.chunkSize E) ds t₀ locs) (hl : ledger t = ledger t₀) :
    Conforms (Guard E ρ) (fun t' r =>
      Committed { Draw.fresh k b g with files := fs } ds t' r ∧ (ifAbsent = false → r ≠ .ok false))
      t (liftRes (Service.commitMeta k (Service.distributedMeta m (ρ.chunkSize E) total
        (Service.sortLocations locs)) nb ifAbsent)).run := by
  have hdesc := describes_distributed hn hgen htotal hdist hsums hl₀ hfs hall
  refine Conforms.liftRes_iff.mpr ((commitMeta_conforms
    (d := { Draw.fresh k b g with files := fs }) (hl.trans hl₀) rfl rfl hdesc).weaken ?_)
  rintro t' (e | c) - ⟨hc, hne⟩
  · exact ⟨hc, fun _ h => by cases h⟩
  · exact ⟨hc, fun hf h => hne hf (by cases h; rfl)⟩

theorem putDistributedBytesImpl_conforms (hn : ρ.node = n)
    (hdist : Placement.distributedPlacementEnabled E n b.length = true)
    (hl : ledger t = ⟨some (k, b), ds⟩) (hq : (ledger t).Quiet) :
    Conforms (Guard E ρ) (fun t' r => Outcome E ifAbsent k b ds t' r) t
      (Service.putDistributedBytesImpl E n k b m ifAbsent).run := by
  unfold Service.putDistributedBytesImpl
  refine liftPrepareWriteMeta_bind hl hq (fun t' e h => ⟨h, fun _ hf => by cases hf⟩) ?_
  intro t₁ g hl₁
  have hcs : (E.cfg n).stripingChunkSize = ρ.chunkSize E := by rw [Role.chunkSize, hn]
  have hJ : Filled (Draw.fresh k b g) ds (StripeFile E n k b g (ρ.chunkSize E)) t₁ :=
    ⟨[], hl₁, fun _ h => .inl h⟩
  dsimp only
  rw [hcs]
  refine Conforms.except_bind (joinResults_conforms
    (J := Filled (Draw.fresh k b g) ds (StripeFile E n k b g (ρ.chunkSize E)))
    (P := fun i t' r => ∀ c, r = .ok c → Located E n k b g (ρ.chunkSize E) ds t' i c)
    (fun _ _ _ h => h) ?_ hJ ?_) ?_ (fun t' e _ h => by obtain ⟨_, h, _⟩ := h; cases h)
  · intro i t t' r hs _ hJ' h c hc
    exact (h c hc).mono hs hJ'
  · intro i hi t hJ
    exact putChunkOnNode_conforms rfl rfl rfl rfl (List.mem_range.mp hi) hJ
  · rintro t₂ rs - ⟨rs', hrs, hJ₂, hlocs⟩
    cases hrs
    refine Conforms.except_bind_iff.mpr (Conforms.ofExcept_iff.mpr ?_)
    cases hw : Service.allOk rs with
    | error e => exact ⟨hJ₂.failed, fun _ hf => by cases hf⟩
    | ok written =>
      rw [allOk_ok hw, List.forall₂_map_right_iff] at hlocs
      have hall : AllLocated E n k b g (ρ.chunkSize E) ds t₂ written :=
        ⟨_, .refl _, hlocs.imp fun i c h => h c rfl⟩
      obtain ⟨fs, hl₂, hfs⟩ := hJ₂
      have hfs' : ∀ f ∈ fs, StripeFile E n k b g (ρ.chunkSize E) f :=
        fun f hf => (hfs f hf).resolve_left (fun h => by cases h)
      dsimp only
      split
      · refine Conforms.lift_bind
          ((rollback_failed hl₂ ?_).weaken fun t' _ _ h => ⟨h, fun _ hf => by cases hf⟩)
        intro c hc
        obtain ⟨i, -, hloc⟩ := hall.mem hc
        exact hloc.owns rfl rfl
      next hcheck =>
        refine Conforms.lift_bind (invalidate_conforms.weaken ?_)
        intro t₃ _ _ h₃
        refine ⟨trivial, fun now => ?_⟩
        refine Conforms.except_bind_iff.mpr (Conforms.attempt_iff.mpr ?_)
        refine Conforms.weaken (commitDistributed_conforms hn ?_ ?_ hdist ?_ hl₂ hfs' hall h₃) ?_
        · rfl
        · rfl
        · simp_all
        rintro t₄ r - ⟨hc, hne⟩
        rcases r with e | (_ | _)
        · refine Conforms.lift_bind
            ((hall.rollback rfl hfs' hc (fun h => by cases h)).weaken ?_)
          intro t' _ _ h
          exact ⟨h, fun _ hf => by cases hf⟩
        · refine Conforms.lift_bind
            ((hall.rollback rfl hfs' hc (fun h => by cases h)).weaken ?_)
          intro t' _ _ h
          exact ⟨h, fun hf => absurd rfl (hne hf)⟩
        · exact ⟨hc.written, fun _ hf => by cases hf⟩

theorem Conforms.serviceLocked {s : String} {body : Svc ν α}
    {Q : Hist ν → Except Status α → Prop} (hw : ρ.writes k b) (hq : (ledger t).Quiet)
    (hd : (ledger t).draws = ds)
    (hunlock : ∀ t' r u, Q t' r → Q (⟨.unlock n .service s, u⟩ :: t') r)
    (h : ∀ t', ledger t' = ⟨some (k, b), ds⟩ → (ledger t').Quiet →
      Conforms (Guard E ρ) Q t' body.run) :
    Conforms (Guard E ρ) Q t (do
      Service.invoke k b
      ContextStore.withLock n .service s body : Svc ν α).run := by
  refine Conforms.except_bind_iff.mpr (Conforms.lift_issue.mpr ⟨hw, fun u => ?_⟩)
  refine Conforms.withLock ((h _ ?_ ?_).weaken fun t' r _ hr => hunlock t' r () hr)
  · rw [ledger_lock, ledger_invoke, hd]
  · rw [ledger_lock, ledger_invoke]
    exact hq

theorem putDistributedBytes_conforms (hn : ρ.node = n)
    (hdist : Placement.distributedPlacementEnabled E n b.length = true) (hw : ρ.writes k b)
    (hq : (ledger t).Quiet) (hd : (ledger t).draws = ds) :
    Conforms (Guard E ρ) (fun t' r => Written E k b ds t' (succeeded r)) t
      (Service.putDistributedBytes E n k b m).run := by
  refine Conforms.serviceLocked hw hq hd (fun _ _ _ h => h.extend (List.suffix_cons _ _) rfl) ?_
  intro t₁ hl₁ hq₁
  exact Outcome.discard (putDistributedBytesImpl_conforms hn hdist hl₁ hq₁)

theorem serviceExists_bind {p : Svc ν Bool} {body : Svc ν Bool} (hp : Plain E ρ t p.run)
    (hl : ledger t = ⟨some (k, b), ds⟩) (hq : (ledger t).Quiet)
    (h : ∀ t', ledger t' = ⟨some (k, b), ds⟩ → (ledger t').Quiet →
      Conforms (Guard E ρ) (fun t'' r => Written E k b ds t'' (storedBy r)) t' body.run) :
    Conforms (Guard E ρ) (fun t' r => Written E k b ds t' (storedBy r)) t
      (do if ← p then pure false else body : Svc ν Bool).run := by
  refine Conforms.except_bind hp ?_ ?_
  · intro t₁ found _ h₁
    have hl₁ : ledger t₁ = ⟨some (k, b), ds⟩ := Eq.trans h₁ hl
    have hq₁ : (ledger t₁).Quiet := by rw [hl₁, ← hl]; exact hq
    cases found with
    | true => exact .of_call hl₁ hq₁ (fun h => by cases h)
    | false => exact h t₁ hl₁ hq₁
  · intro t₁ e _ h₁
    have hl₁ : ledger t₁ = ⟨some (k, b), ds⟩ := Eq.trans h₁ hl
    exact .of_call hl₁ (by rw [hl₁, ← hl]; exact hq) (fun h => by cases h)

theorem putDistributedBytesIfAbsent_conforms (hn : ρ.node = n)
    (hdist : Placement.distributedPlacementEnabled E n b.length = true) (hw : ρ.writes k b)
    (hq : (ledger t).Quiet) (hd : (ledger t).draws = ds) :
    Conforms (Guard E ρ) (fun t' r => Written E k b ds t' (storedBy r)) t
      (Service.putDistributedBytesIfAbsent E n k b m).run := by
  refine Conforms.serviceLocked hw hq hd (fun _ _ _ h => h.extend (List.suffix_cons _ _) rfl) ?_
  intro t₁ hl₁ hq₁
  refine serviceExists_bind (serviceExistsLive_issues.live hq₁) hl₁ hq₁ ?_
  intro t₂ hl₂ hq₂
  exact (putDistributedBytesImpl_conforms hn hdist hl₂ hq₂).weaken fun _ _ _ h => h.1

end ContextStore
