import ContextStore.StripeTracks
import ContextStore.Protocol.DistributedPut

/-!
# 規約: 受け取りながらの書き込み
-/

namespace ContextStore

open Conc Service.Plan

variable {ν : Type} {E : Env ν} {ρ : Role ν} {t : Hist ν} {n : ν}
  {b : Bytes} {g : Nat} {ds : List (Draw ν)}

def Landed (E : Env ν) (n : ν) (ctx : Service.StreamCtx) (b : Bytes) (g : Nat)
    (ds : List (Draw ν)) (H : PlanHist) (t : Hist ν) : Prop :=
  Filled (Draw.fresh ctx.key b g) ds (StripeFile E n ctx.key b g ctx.chunkSize) t ∧
    ∀ s c, Ended ctx H s (.ok c) → Located E n ctx.key b g ctx.chunkSize ds t s.index c

variable {ctx : Service.StreamCtx} {H : PlanHist}

theorem Landed.extend {e : Event Service.StripeCmd Service.StripeCmd.Resp}
    (h : Landed E n ctx b g ds H t) (he : ∀ s c, e ≠ ⟨.join ctx.desc s, .ok c⟩) :
    Landed E n ctx b g ds (e :: H) t :=
  ⟨h.1, fun s c hmem => h.2 s c (List.mem_of_ne_of_mem (he s c).symm hmem)⟩

theorem body_conforms (m : BlockMeta) (ifAbsent : Bool) (hn : ρ.node = n)
    (hsize : ctx.chunkSize = (E.cfg n).stripingChunkSize) (hgen : ctx.desc.objectGeneration = g)
    (hlay : ctx.desc.layoutVersion = 1) (H : PlanHist) (t : Hist ν) (c : Service.StripeCmd)
    (hG : Steady E n ctx b H c) (h : Landed E n ctx b g ds H t) :
    Conforms (Guard E ρ) (fun t' r => Landed E n ctx b g ds (⟨c, r⟩ :: H) t') t
      (Service.StripeCmd.body E n ctx.key m ifAbsent c) := by
  cases c with
  | spawn s => exact h.extend fun _ _ => nofun
  | pick bound =>
    exact ⟨trivial, fun r => Landed.extend (t := ⟨.pick bound, r⟩ :: t) h fun _ _ => nofun⟩
  | receive =>
    exact ⟨trivial, fun r => Landed.extend (t := ⟨.receive, r⟩ :: t) h fun _ _ => nofun⟩
  | join desc s =>
    obtain ⟨rfl, hs⟩ := hG
    obtain ⟨i, hi, rfl⟩ := List.mem_map.mp hs
    obtain ⟨key, desc, size, total⟩ := ctx
    dsimp only at hsize
    subst hn hsize
    refine (putChunkOnNode_conforms rfl rfl hgen hlay (List.mem_range.mp hi) h.1).weaken ?_
    rintro t' r hs ⟨hJ, hloc⟩
    refine ⟨hJ, fun s c hmem => ?_⟩
    rcases List.mem_cons.mp hmem with heq | hmem
    · cases heq
      exact hloc c rfl
    · exact (h.2 s c hmem).mono hs hJ
  | _ => exact hG.elim

/-! ## commit -/

theorem Committed.failed {ε : Type} {d : Draw ν} {e : ε} (h : Committed d ds t (.error e)) :
    Written E d.key d.data ds t none := by
  obtain ⟨d', hl, hroll, hk, hb, -, -⟩ := h.mayRollback (fun h => by cases h)
  rw [← hk, ← hb]
  exact (RolledBack.refl hl).written hroll (fun h => by cases h) (fun h => by cases h)

theorem checkLength_eq_none {ctx : Service.StreamCtx} {st : Service.StreamState ν}
    (h : Service.checkLength ctx st = none) :
    st.firstErr = none ∧ st.receivedTotal = ctx.declaredTotal := by
  unfold Service.checkLength at h
  grind

theorem putDistributedStreamImpl_conforms {k : ObjectKey} {m : BlockMeta} {total : Nat}
    {first : PutChunk} {rest : List PutChunk} {ifAbsent : Bool} (hn : ρ.node = n)
    (hstream : ρ.streams = true)
    (hdist : Placement.distributedPlacementEnabled E n total = true)
    (hb : receivedData (first :: rest) = b) (hl : ledger t = ⟨some (k, b), ds⟩)
    (hq : (ledger t).Quiet) :
    Conforms (Guard E ρ) (fun t' r => Outcome E ifAbsent k b ds t' r) t
      (Service.putDistributedStreamImpl E n k m total first rest ifAbsent).run := by
  rw [← expand_putStream, putStream_eq, expandExcept_bind, expand_prepare]
  refine liftPrepareWriteMeta_bind hl hq (fun t' e h => ⟨h, fun _ hf => by cases hf⟩) ?_
  intro t₁ g hl₁
  generalize hprep : Storage.preparedMeta E k m total g = prepared
  have hgen : prepared.objectGeneration = g := by rw [← hprep]; rfl
  have hlay : prepared.layoutVersion = 1 := by rw [← hprep]; rfl
  generalize hctx : Service.streamCtx E n k prepared total = ctx
  obtain rfl : ctx.key = k := by rw [← hctx]; rfl
  have hsize : ctx.chunkSize = (E.cfg n).stripingChunkSize := by rw [← hctx]; rfl
  have hdecl : ctx.declaredTotal = total := by rw [← hctx]; rfl
  have hland : Landed E n ctx b g ds [] t₁ :=
    ⟨⟨[], hl₁, fun _ h => .inl h⟩, fun _ _ hmem => (List.not_mem_nil hmem).elim⟩
  have hgather := (gather_tracks (hsize ▸ NodeConfig.stripingChunkSize_pos _) hb rfl rfl).expand
    (body_conforms m ifAbsent hn hsize (hctx ▸ hgen) (hctx ▸ hlay)) hland
  rw [expandExcept_bind]
  refine Conforms.except_bind hgather ?_
    fun t' e _ ⟨H, _, hland⟩ => ⟨Filled.failed hland.1, fun _ hf => by cases hf⟩
  rintro t₂ st - ⟨H, hdr, ⟨fs, hl₂, hfs⟩, hloc⟩
  obtain ⟨done, hdone, hall⟩ := hdr.located
  rw [expand_finishStream E n _ _ m ifAbsent hsize]
  have hfs' : ∀ f ∈ fs, StripeFile E n ctx.key b g ctx.chunkSize f :=
    fun f hf => (hfs f hf).resolve_left (fun h => by cases h)
  cases hcheck : Service.checkLength ctx (st.toStream E n ctx ctx.key) with
  | some e =>
    refine Conforms.lift_bind ((rollback_failed hl₂ ?_).weaken
      fun t' _ _ h => ⟨h, fun _ hf => by cases hf⟩)
    intro c hc
    obtain ⟨s, -, hend⟩ := Conforms.forall₂_mem_left hdone.flip hc
    exact (hloc s c hend).owns rfl rfl
  | none =>
    obtain ⟨herr, htotal⟩ := checkLength_eq_none hcheck
    have hlen : b.length = ctx.declaredTotal := (hdr.received herr).symm.trans htotal
    have hall : AllLocated E n ctx.key b g ctx.chunkSize ds t₂ st.locations := by
      refine ⟨done.map Service.Stripe.index, ?_, List.forall₂_map_left_iff.mpr (hdone.imp hloc)⟩
      have hperm := (hall herr).1.map Service.Stripe.index
      rwa [stripes, List.map_map, show Service.Stripe.index ∘ _ = id from rfl, List.map_id] at hperm
    subst hn
    rw [hsize] at hfs' hall
    refine Conforms.lift_bind (invalidate_conforms.weaken ?_)
    intro t₅ _ _ h₅
    refine ⟨trivial, fun now => ?_⟩
    refine Conforms.except_bind
      (commitDistributed_conforms rfl hgen hlen.symm (hlen.trans hdecl ▸ hdist)
      (fun _ => .inl hstream) hl₂ hfs' hall h₅) ?_
      (fun t' e _ h => ⟨h.1.failed, fun _ hf => by cases hf⟩)
    rintro t₆ (_ | _) - ⟨hcom, hne⟩
    · refine Conforms.lift_bind
        ((hall.rollback rfl hfs' hcom (fun h => by cases h)).weaken ?_)
      intro t' _ _ h
      exact ⟨h, fun hf => absurd rfl (hne hf)⟩
    · exact ⟨hcom.written, fun _ hf => by cases hf⟩

theorem putDistributedStream_conforms {k : ObjectKey} {m : BlockMeta} {total : Nat}
    {first : PutChunk} {rest : List PutChunk} {ifAbsent : Bool} (hn : ρ.node = n)
    (hstream : ρ.streams = true)
    (hdist : Placement.distributedPlacementEnabled E n total = true)
    (hb : receivedData (first :: rest) = b) (hw : ρ.writes k b) (hq : (ledger t).Quiet)
    (hd : (ledger t).draws = ds) :
    Conforms (Guard E ρ) (fun t' r => Written E k b ds t' (storedBy r)) t
      (Service.putDistributedStream E n k m total first rest ifAbsent).run := by
  unfold Service.putDistributedStream
  rw [hb]
  refine Conforms.serviceLocked hw hq hd (fun _ _ _ h => h.extend (List.suffix_cons _ _) rfl) ?_
  intro t₁ hl₁ hq₁
  refine serviceExists_bind ?_ hl₁ hq₁ ?_
  · unfold Service.existsLiveIf
    split
    · exact serviceExistsLive_issues.live hq₁
    · rfl
  · intro t₂ hl₂ hq₂
    exact (putDistributedStreamImpl_conforms hn hstream hdist hb hl₂ hq₂).weaken fun _ _ _ h => h.1

end ContextStore
