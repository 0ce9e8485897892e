import ContextStore.Protocol.Service

/-!
# 規約: RDMA の data plane
-/

namespace ContextStore

open Conc

variable {ν : Type} {E : Env ν} {ρ : Role ν} {R : Reader ν} {t : Hist ν} {n : ν} {α : Type}
  {key : ObjectKey} {m : BlockMeta}

theorem Conforms.liftAny_iff {G : Hist ν → Cmd ν → Prop} {x : Res ν α}
    {Q : Hist ν → Except String α → Prop} :
    Conforms G Q t (liftAny x).run ↔
      Conforms G (fun t' r => Q t' (r.mapError KVError.display)) t x.run :=
  Conforms.bind_iff

theorem liftAny_gives {G : Hist ν → Cmd ν → Prop} {S : Hist ν → α → Prop} {x : Res ν α}
    (h : Gives G S t x) : Gives G S t (liftAny x) := by
  refine Conforms.liftAny_iff.mpr (Conforms.weaken h ?_)
  rintro t' (e | a) - hr _ ⟨⟩
  exact hr a rfl

theorem clientIo_conforms : Plain E ρ t (clientIo (ν := ν)).run := ⟨trivial, fun _ => rfl⟩

theorem clientIo_issues : Issues (ReadGuard E n R) t (clientIo (ν := ν)).run :=
  ⟨trivial, fun _ => trivial⟩

/-! ## slab の確保 -/

theorem allocRetry_issues {size cap : Nat} : ∀ (rounds mult : Nat) (t : Hist ν),
    Issues (ReadGuard E n R) t (Rdma.allocRetry n size cap rounds mult) := by
  intro rounds
  induction rounds with
  | zero => intro mult t; trivial
  | succ rounds ih =>
    intro mult t
    refine Conforms.issue_bind.mpr ⟨trivial, fun _ => ?_⟩
    refine Conforms.issue_bind.mpr ⟨trivial, fun ok => ?_⟩
    cases ok with
    | true => trivial
    | false => exact ih (mult * 2) _

theorem allocExtent_issues {size : Nat} :
    Issues (ReadGuard E n R) t (Rdma.allocExtent E n size) := by
  unfold Rdma.allocExtent
  split
  · trivial
  · refine Conforms.issue_bind.mpr ⟨trivial, fun ok => ?_⟩
    cases ok with
    | true => trivial
    | false => exact (allocRetry_issues _ _ _).bind fun _ _ => trivial

/-! ## GET -/

theorem postEvents_gives : ∀ (events : List (Nat × Except KVError Bytes)) (i : Nat) (t : Hist ν),
    Gives (ReadGuard E n R) (fun _ data => ∃ parts, Delivered events parts ∧ data = parts.flatten) t
      (Rdma.postEvents i events) := by
  intro events
  induction events with
  | nil => exact fun i t => .pure ⟨[], .nil, rfl⟩
  | cons e events ih =>
    intro i t
    obtain ⟨expected, _ | data⟩ := e
    · exact .throw
    · unfold Rdma.postEvents
      split
      next hlen =>
        refine .after clientIo_issues fun t₁ _ _ => (ih (i + 1) t₁).bind ?_
        rintro t₂ rest - ⟨parts, hparts, rfl⟩
        exact .pure ⟨data :: parts, .cons ⟨rfl, hlen⟩ hparts, rfl⟩
      · exact .throw

theorem cacheLookup_issues : Issues (ReadGuard E n R) t (Rdma.cacheLookup E n key) := by
  unfold Rdma.cacheLookup
  split
  · trivial
  · exact getChunksSlab_issues

theorem serveGet_issues {segments : List Bytes} {maxSize : Nat} :
    Issues (ReadGuard E n R) t (Rdma.serveGet (ν := ν) segments maxSize).run := by
  unfold Rdma.serveGet
  split
  · trivial
  · exact Issues.exceptBind clientIo_issues fun _ _ => trivial

theorem liftAnyGetBlock_gives {s : String} :
    Gives (ReadGuard E n R) (fun t' r => ∀ m, r = some m → Looked t' s m) t
      (liftAny (Metadata.getBlock s)) :=
  liftAny_gives ((getBlock_gives.mono fun _ _ => LiveGuard.read).weaken fun _ _ _ h => h.2.1)

theorem anyIsExpired_issues {f : Bool → Any ν α}
    (h : ∀ now, Issues (ReadGuard E n R) (⟨.now, now⟩ :: t) (f (m.isExpiredAt now)).run) :
    Issues (ReadGuard E n R) t (liftAny (Storage.isExpired m) >>= f).run :=
  ⟨trivial, h⟩

section Reads

variable (hp : R.purges) (hstreams : R.streams)
include hp hstreams

variable {maxSize : Nat}

theorem tryServeGetViaSlab_issues (hk : R.knows t key.toStringKey m) :
    Issues (ReadGuard E n R) t (Rdma.tryServeGetViaSlabWithMeta E n key m maxSize).run := by
  unfold Rdma.tryServeGetViaSlabWithMeta
  split
  · trivial
  · split
    · trivial
    · refine (Gives.lift allocExtent_issues).issuesBind ?_
      rintro t₁ (_ | (_ | _)) hs₁ -
      · trivial
      · trivial
      · have hk₁ : R.knows t₁ key.toStringKey m := R.mono hk hs₁
        refine (liftAny_gives
          (getIntoPtrStreamWithMeta_gives hp hstreams hk₁)).attempt.issuesBind ?_
        rintro t₂ (e | (_ | events)) hs₂ h₂
        · trivial
        · trivial
        · refine (postEvents_gives events 0 t₂).issuesBind ?_
          rintro t₃ _ hs₃ ⟨parts, hdel, rfl⟩
          have hread : ReadBack E t₃ n key m parts.flatten :=
            (h₂ _ rfl events parts rfl hdel).mono hs₃
          split
          · trivial
          · split
            · refine Issues.exceptBind (Issues.exceptLift ?_) fun _ _ => trivial
              exact Fills.reads insertChunksFromSlab_fills
                ⟨key, rfl, R.mono hk₁ (hs₂.trans hs₃), hread⟩
            · trivial

theorem serveMiss_issues :
    Issues (ReadGuard E n R) t (Rdma.serveMiss E n key maxSize).run := by
  refine liftAnyGetBlock_gives.issuesBind ?_
  rintro t₁ (_ | m) - hlook
  · trivial
  · dsimp only
    split
    · trivial
    · refine anyIsExpired_issues fun now => ?_
      split
      · exact Issues.exceptBind (liftAny_gives (purgeIfExpired_gives.mono
          fun _ _ => LiveGuard.read)).issues fun _ _ => trivial
      · exact Conforms.attempt_iff.mpr (tryServeGetViaSlab_issues hp hstreams
          (R.looked ((hlook m rfl).mono (List.suffix_cons _ _))))

theorem keyGet_issues {rawKey : String} :
    Issues (ReadGuard E n R) t (Rdma.keyGet E n rawKey maxSize).run := by
  refine Issues.exceptBind .ofExcept fun t₁ key => ?_
  refine Issues.exceptBind cacheLookup_issues.exceptLift ?_
  rintro t₂ (_ | ⟨segments, m⟩)
  · refine Issues.exceptBind (serveMiss_issues hp hstreams) ?_
    rintro t₃ (e | r)
    · refine Issues.exceptBind (liftAny_gives (memoryGetChunks_gives hp)).attempt.issues ?_
      rintro t₄ (e | (_ | ⟨segments, m⟩))
      · trivial
      · trivial
      · exact serveGet_issues
    · trivial
  · exact serveGet_issues

theorem descriptorGet_issues {rawKey : String} {d : ObjectDescriptor} :
    Issues (ReadGuard E n R) t (Rdma.descriptorGet E n rawKey d maxSize).run := by
  refine Issues.exceptBind .ofExcept fun t₁ key => Issues.exceptBind .ofExcept fun t₂ _ => ?_
  refine liftAnyGetBlock_gives.issuesBind ?_
  rintro t₃ (_ | active) - hlook
  · trivial
  · refine anyIsExpired_issues fun now => ?_
    have hk₃ : R.knows (⟨.now, now⟩ :: t₃) key.toStringKey active :=
      R.looked ((hlook active rfl).mono (List.suffix_cons _ _))
    generalize (⟨.now, now⟩ :: t₃ : Hist ν) = t₄ at hk₃ ⊢
    split
    · exact Issues.exceptBind (liftAny_gives (purgeIfExpired_gives.mono
        fun _ _ => LiveGuard.read)).issues fun _ _ => trivial
    · split
      · trivial
      · split
        · trivial
        · refine (Gives.lift cacheLookup_issues).issuesBind fun t₅ entry hs₅ _ => ?_
          split
          · exact serveGet_issues
          · refine (Gives.of_issues (tryServeGetViaSlab_issues hp hstreams
              (R.mono hk₃ hs₅))).attempt.issuesBind ?_
            rintro t₆ (e | r) hs₆ -
            · refine Issues.exceptBind (liftAny_gives (getChunksWithMeta_gives hp
                (R.mono hk₃ (hs₅.trans hs₆)))).attempt.issues ?_
              rintro t₇ (e | (_ | ⟨segments, m⟩))
              · trivial
              · trivial
              · exact serveGet_issues
            · trivial

end Reads

/-! ## PUT -/

def Rdma.PutResult.verdict : Except String Rdma.PutResult → Result
  | .ok .stored => some true
  | .ok .exists_ => some false
  | _ => none

theorem injectStored_conforms {rawKey : String} {data : Bytes} (hn : ρ.node = n)
    (hq : (ledger t).Quiet) (hk : ObjectKey.fromStringKey rawKey = .ok key)
    (hst : HasStored t key data) : Plain E ρ t (Rdma.injectStored E n rawKey data) := by
  obtain ⟨d, hd, rfl, rfl, hs⟩ := hst
  refine Conforms.bind (getBlock_conforms rawKey hq) ?_
  rintro t₁ (e | (_ | m)) - h₁
  · exact h₁.1
  · exact h₁.1
  · obtain ⟨hl, t₀, rfl, -⟩ := h₁
    have hd₀ : d ∈ (ledger t₀).draws := by
      rw [show ledger t₀ = ledger t from hl]; exact hd
    refine (Fills.plain insertChunksFromSlab_fills hn ?_).weaken fun _ _ _ h => Eq.trans h hl
    exact .inl ⟨d, hd₀, hs, rfl, .inr hk, .inl ⟨t₀, List.suffix_refl _, hd₀⟩⟩

theorem putFromPtr_conforms {b : Bytes} {ds : List (Draw ν)} {ifNotExists : Bool}
    (hn : ρ.node = n) (hq : (ledger t).Quiet) (hd : (ledger t).draws = ds)
    (hw : ρ.writes key b) :
    Conforms (Guard E ρ) (fun t' r => Wrote E key b ds t' (storedBy r)) t
      (if ifNotExists then Storage.putFromPtrWithOptions E n key b m true
        else do
          Storage.putFromPtr E n key b m
          pure true : Res ν Bool).run := by
  cases ifNotExists with
  | true => exact (putFromPtrWithOptions_conforms hn hw hq hd).weaken fun _ _ _ h => h.1
  | false =>
    refine Conforms.except_bind (Q := fun t' r => Wrote E key b ds t' (succeeded r)) ?_
      (fun _ _ _ h => h) (fun _ _ _ h => h)
    refine Conforms.except_bind (putFromPtrWithOptions_conforms hn hw hq hd) ?_
      (fun _ _ _ h => h.1)
    rintro t' (_ | _) - ⟨h, hne⟩
    · exact absurd rfl (hne rfl)
    · exact h

theorem handlePut_conforms {rawKey : String} {data : Bytes} {ttl : Int} {ifNotExists : Bool}
    (hn : ρ.node = n) (hq : (ledger t).Quiet) (hd : (ledger t).draws = [])
    (hw : ∀ key, ObjectKey.fromStringKey rawKey = .ok key → ρ.writes key data) :
    Conforms (Guard E ρ) (fun t' r => Settled E t' (Rdma.PutResult.verdict r)) t
      (Rdma.handlePut E n rawKey data ttl ifNotExists).run := by
  unfold Rdma.handlePut
  split
  · exact .of_quiet hq
  · refine Conforms.lift_bind (((allocExtent_issues (R := ρ.reader)).plain hn hq).weaken ?_)
    intro t₁ ok _ h₁
    have hq₁ : (ledger t₁).Quiet := by rw [h₁]; exact hq
    dsimp only
    split
    · exact .of_quiet hq₁
    · refine Conforms.except_bind clientIo_conforms ?_
        (fun t' _ _ h => .of_quiet (by rw [h]; exact hq₁))
      intro t₂ _ _ h₂
      refine Conforms.except_bind_iff.mpr (Conforms.ofExcept_iff.mpr ?_)
      have hq₂ : (ledger t₂).Quiet := by rw [h₂]; exact hq₁
      cases hk : Rdma.parseStringKey rawKey with
      | error e => exact .of_quiet hq₂
      | ok key =>
        have hkey : ObjectKey.fromStringKey rawKey = .ok key := by
          unfold Rdma.parseStringKey at hk
          cases hp : ObjectKey.fromStringKey rawKey with
          | error e => rw [hp] at hk; cases hk
          | ok k => rw [hp] at hk; cases hk; rfl
        refine ⟨trivial, fun now => ?_⟩
        have hl₃ : ledger (⟨.now, now⟩ :: t₂) = ledger t := h₂.trans h₁
        have hd₃ : (ledger (⟨.now, now⟩ :: t₂)).draws = [] := by rw [hl₃]; exact hd
        refine Conforms.except_bind_iff.mpr (Conforms.attempt_iff.mpr (Conforms.liftAny_iff.mpr
          ((putFromPtr_conforms hn (by rw [hl₃]; exact hq) hd₃ (hw key hkey)).weaken ?_)))
        rintro t₄ (e | (_ | _)) - h₄
        · exact .of_quiet h₄.quiet
        · exact h₄.settled
        · refine Conforms.lift_bind
            ((injectStored_conforms hn h₄.quiet hkey (h₄.stored rfl)).weaken ?_)
          intro t' _ hs hl'
          exact (h₄.extend hs hl').settled

end ContextStore
