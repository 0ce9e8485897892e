import ContextStore.Cluster.L1Size

/-!
# 受け取りながらの書き込みと 1 つの列の書き込みの一致

計画の履歴から、送り出した stripe・終わった stripe・commit した record を読む。
-/

namespace ContextStore

open Conc

namespace Service.Plan

variable {ν : Type} {E : Env ν} {n : ν}

def Answered (prepared : BlockMeta) (result : Stripe → ChunkLocation) :
    Event StripeCmd StripeCmd.Resp → Prop
  | ⟨.prepare _, r⟩ => r = .ok prepared
  | ⟨.join _ s, r⟩ => r = .ok (result s)
  | ⟨.receive, r⟩ => r = .ok ()
  | _ => True

def Succeeds (prepared : BlockMeta) (result : Stripe → ChunkLocation) (H : PlanHist) : Prop :=
  ∀ e ∈ H, Answered prepared result e

variable {prepared : BlockMeta} {result : Stripe → ChunkLocation} {H H' : PlanHist}

theorem Succeeds.mono (h : Succeeds prepared result H') (hs : H <:+ H') :
    Succeeds prepared result H :=
  fun e he => h e (hs.subset he)

variable {e : Event StripeCmd StripeCmd.Resp}

theorem Succeeds.tail (h : Succeeds prepared result (e :: H)) : Succeeds prepared result H :=
  h.mono (List.suffix_cons e H)

theorem Succeeds.head (h : Succeeds prepared result (e :: H)) : Answered prepared result e :=
  h e List.mem_cons_self

def Paced (declared received : Nat) (H : PlanHist) : StripeCmd → Prop
  | .spawn _ => (spawned H).length < (joined H).length + maxInflightStripes
  | .commit _ => received = declared
  | _ => True

variable {ctx : StreamCtx} {b : Bytes} {declared received : Nat} {st : State} {data : Bytes}

theorem Steady.paced {c : StripeCmd} (h : Steady E n ctx b H c) : Paced declared received H c := by
  cases c with
  | spawn s => exact h
  | commit m => exact h.elim
  | _ => trivial

theorem Succeeds.locations {done : List Stripe} {locations : List ChunkLocation}
    (hok : Succeeds prepared result H)
    (h : List.Forall₂ (fun s c => Ended ctx H s (.ok c)) done locations) :
    locations = done.map result ∧ ∀ s ∈ done, Ended ctx H s (.ok (result s)) := by
  induction h with
  | nil => exact ⟨rfl, fun _ h => (List.not_mem_nil h).elim⟩
  | @cons s c done cs hend _ ih =>
    obtain rfl : c = result s := Except.ok.inj (hok _ hend)
    simp_all

/-! ## commit -/

structure Placed (E : Env ν) (n : ν) (ctx : StreamCtx) (b : Bytes) (prepared : BlockMeta)
    (result : Stripe → ChunkLocation) (H : PlanHist) : Prop where
  spawned : spawned H = stripes E n ctx b
  committed : ∃ done : List Stripe, done.Perm (stripes E n ctx b) ∧
    (∀ s ∈ done, Ended ctx H s (.ok (result s))) ∧
    committed H = [distributedMeta prepared ctx.chunkSize ctx.declaredTotal
      (sortLocations (done.map result))]

theorem Placed.extend (h : Placed E n ctx b prepared result H)
    (hs : Plan.spawned (e :: H) = Plan.spawned H)
    (hc : Plan.committed (e :: H) = Plan.committed H) :
    Placed E n ctx b prepared result (e :: H) := by
  obtain ⟨done, hperm, hmem, hlayout⟩ := h.committed
  exact ⟨hs.trans h.spawned, done, hperm, fun s hs => List.mem_cons_of_mem _ (hmem s hs),
    hc.trans hlayout⟩

theorem Drained.commit (p prepared : BlockMeta) (result : Stripe → ChunkLocation)
    (h : Drained E n ctx b H st) (hc : committed H = []) (herr : st.firstErr = none)
    (r : Except Status Bool) (hok : Succeeds prepared result H) (hp : p = prepared) :
    Placed E n ctx b prepared result (⟨.commit (distributedMeta p ctx.chunkSize ctx.declaredTotal
      (sortLocations st.locations)), r⟩ :: H) := by
  obtain ⟨done, hdone, hall⟩ := h.located
  obtain ⟨hperm, hspawned⟩ := hall herr
  obtain ⟨hlocs, hmem⟩ := hok.locations hdone
  refine ⟨hspawned, done, hperm, fun s hs => List.mem_cons_of_mem _ (hmem s hs), ?_⟩
  show committed H ++ [_] = _
  rw [hc, hlocs, hp]
  rfl

theorem Drained.ok (h : Drained E n ctx b H st) (hok : Succeeds prepared result H) :
    st.firstErr = none := by
  by_contra hne
  obtain ⟨s, e, hend⟩ := h.failed hne
  cases hok _ hend

theorem finishStream_placed (p prepared : BlockMeta) (result : Stripe → ChunkLocation)
    (h : Drained E n ctx b H st) (hc : committed H = []) :
    Conforms (Paced ctx.declaredTotal b.length) (fun H' _ =>
      Succeeds prepared result H' → p = prepared → b.length = ctx.declaredTotal →
        Placed E n ctx b prepared result H') H (finishStream ctx p st).run := by
  unfold finishStream
  cases hcheck : checkLength ctx st with
  | some e =>
    refine Conforms.lift_bind ⟨trivial, fun _ hok _ hlen => ?_⟩
    have herr := h.ok hok.tail
    simp [checkLength, herr, h.received herr, hlen] at hcheck
  | none =>
    have hstream : Service.checkLength ctx (st.toStream E n ctx ctx.key) = none := hcheck
    obtain ⟨herr, htotal⟩ := checkLength_eq_none hstream
    refine Conforms.except_bind_iff.mpr ⟨(h.received herr).symm.trans htotal, ?_⟩
    intro (r : Except Status Bool)
    have hplaced := h.commit p prepared result hc herr r
    rcases r with e | (_ | _)
    · exact fun hok hp _ => hplaced hok.tail hp
    · exact Conforms.lift_bind
        ⟨trivial, fun _ hok hp _ => (hplaced hok.tail.tail hp).extend rfl rfl⟩
    · exact fun hok hp _ => hplaced hok.tail hp

theorem prepare_bind {α : Type} {size : Nat} {f : BlockMeta → PlanSvc α} {P : PlanHist → Prop}
    {G : PlanHist → StripeCmd → Prop} (hG : G [] (.prepare size))
    (hf : ∀ p r, Conforms G (fun H' _ => Succeeds prepared result H' → p = prepared → P H')
      [⟨.prepare size, r⟩] (f p).run) :
    Conforms G (fun H' _ => Succeeds prepared result H' → P H') []
      (prepare size >>= f : PlanSvc α).run := by
  refine Conforms.except_bind_iff.mpr ⟨hG, ?_⟩
  rintro (e | p)
  · intro hok
    cases hok.head
  · refine (hf p (.ok p)).weaken fun H' _ hs h hok => h hok ?_
    cases (hok.mono hs).head
    rfl

theorem putStream_placed {key : ObjectKey} {first : PutChunk} {rest : List PutChunk}
    (hb : receivedData (first :: rest) = b) (prepared : BlockMeta)
    (result : Stripe → ChunkLocation) :
    Conforms (Paced declared b.length) (fun H' _ =>
      Succeeds prepared result H' → b.length = declared →
        Placed E n (streamCtx E n key prepared declared) b prepared result H') []
      (putStream E n key declared first rest).run := by
  rw [putStream_eq]
  refine prepare_bind trivial fun p r => ?_
  have hpos : 0 < (streamCtx E n key p declared).chunkSize := NodeConfig.stripingChunkSize_pos _
  have hgather := (gather_tracks (E := E) (n := n) (H := [⟨.prepare declared, r⟩]) hpos hb rfl
    rfl).keep (I := fun H => committed H = []) rfl fun H c _ hI hc => by
      cases c <;> first | exact hI | exact hc.elim
  refine Conforms.except_bind (hgather.mono (fun _ _ h => h.2.paced) fun _ _ _ h => h) ?_ ?_
  · rintro H₁ st - ⟨hc, hdr⟩
    refine (finishStream_placed p prepared result hdr hc).weaken fun H' _ _ h hok hp hlen => ?_
    exact hp ▸ h hok hp hlen
  · rintro H₁ _ - ⟨-, e, hbroken⟩ hok
    cases hok _ hbroken

theorem spawnAll_spawned (ss : List Stripe) (H : PlanHist) :
    Conforms (fun _ _ => True) (fun H' _ => spawned H' = spawned H ++ ss ∧
      committed H' = committed H) H (spawnAll ss) := by
  induction ss generalizing H with
  | nil => exact ⟨(List.append_nil _).symm, rfl⟩
  | cons s ss ih =>
    refine ⟨trivial, fun (r : Unit) => (ih (⟨.spawn s, r⟩ :: H)).weaken ?_⟩
    rintro H' - - ⟨hs, hc⟩
    refine ⟨hs.trans ?_, hc⟩
    simp_all [spawned]

theorem joinAll_joined (hs : spawned H = stripes E n ctx data) (hc : committed H = []) :
    Conforms (fun _ _ => True) (fun H' results =>
      (spawned H' = stripes E n ctx data ∧ committed H' = []) ∧
      List.Forall₂ (Ended ctx H') (stripes E n ctx data) results) H
      (joinAll pick ((stripes E n ctx data).map (join ctx.desc))) := by
  refine Conforms.joinAll (P := fun s H' r => Ended ctx H' s r)
    (J := fun H' => spawned H' = stripes E n ctx data ∧ committed H' = []) ?_ ?_ ⟨hs, hc⟩ ?_
  · exact fun H k hJ => ⟨trivial, fun _ => hJ⟩
  · exact fun s H H' r hsuf _ _ hmem => hsuf.subset hmem
  · exact fun s _ H hJ => ⟨trivial, fun r => ⟨hJ, List.mem_cons_self⟩⟩

theorem allOk_cases {ss : List Stripe} {results : List (Except Status ChunkLocation)}
    (h : List.Forall₂ (Ended ctx H) ss results) :
    (∃ e s, allOk results = .error e ∧ Ended ctx H s (.error e)) ∨ ∃ written,
      allOk results = .ok written ∧ List.Forall₂ (fun s c => Ended ctx H s (.ok c)) ss written := by
  induction h with
  | nil => exact .inr ⟨[], rfl, .nil⟩
  | @cons s r ss rs hend _ ih =>
    cases r with
    | error e => exact .inl ⟨e, s, rfl, hend⟩
    | ok c =>
      rcases ih with ⟨e, s', heq, hs'⟩ | ⟨written, heq, hall⟩
      · exact .inl ⟨e, s', by rw [allOk, heq]; rfl, hs'⟩
      · exact .inr ⟨c :: written, by rw [allOk, heq]; rfl, .cons hend hall⟩

def Summed (E : Env ν) (n : ν) (ctx : StreamCtx) (b : Bytes) (result : Stripe → ChunkLocation) :
    Prop :=
  (E.cfg n).verifyStripeChecksums = true → ∀ s ∈ stripes E n ctx b, (result s).checksum ≠ ""

theorem finishBytes_placed (p prepared : BlockMeta) (result : Stripe → ChunkLocation)
    (h : Drained E n ctx b H st) (hc : committed H = []) (herr : st.firstErr = none) :
    Conforms (fun _ _ => True) (fun H' _ => Succeeds prepared result H' → p = prepared →
      spawned H' = stripes E n ctx b ∧
      (Summed E n ctx b result → Placed E n ctx b prepared result H') ∧
      (¬ Summed E n ctx b result → committed H' = [])) H
      (finishBytes E n ctx p (sortLocations st.locations)).run := by
  obtain ⟨done, hdone, hall⟩ := h.located
  obtain ⟨hperm, hs⟩ := hall herr
  unfold finishBytes
  split
  next hcheck =>
    refine Conforms.lift_bind ⟨trivial, fun _ hok _ => ⟨hs, fun hsums => ?_, fun _ => hc⟩⟩
    obtain ⟨c, hmem, hempty⟩ := List.any_eq_true.mp hcheck.2
    rw [(hok.tail.locations hdone).1] at hmem
    obtain ⟨s, hstripe, rfl⟩ := List.mem_map.mp ((List.mem_insertionSort _).mp hmem)
    exact absurd (of_decide_eq_true hempty) (hsums hcheck.1 s (hperm.mem_iff.mp hstripe))
  next hcheck =>
    have hsums : Succeeds prepared result H → Summed E n ctx b result := by
      intro hok hverify s hstripe hempty
      refine hcheck ⟨hverify, List.any_eq_true.mpr ⟨result s, ?_, decide_eq_true hempty⟩⟩
      rw [(hok.locations hdone).1]
      exact (List.mem_insertionSort _).mpr (List.mem_map_of_mem (hperm.mem_iff.mpr hstripe))
    refine Conforms.except_bind_iff.mpr (Conforms.attempt_iff.mpr ⟨trivial, ?_⟩)
    intro (r : Except Status Bool)
    have hplaced := h.commit p prepared result hc herr r
    rcases r with e | (_ | _)
    · exact Conforms.lift_bind ⟨trivial, fun _ hok hp =>
        ⟨hs, fun _ => (hplaced hok.tail.tail hp).extend rfl rfl, absurd (hsums hok.tail.tail)⟩⟩
    · exact Conforms.lift_bind ⟨trivial, fun _ hok hp =>
        ⟨hs, fun _ => (hplaced hok.tail.tail hp).extend rfl rfl, absurd (hsums hok.tail.tail)⟩⟩
    · exact fun hok hp => ⟨hs, fun _ => hplaced hok.tail hp, absurd (hsums hok.tail)⟩

theorem putBytes_placed {key : ObjectKey} :
    Conforms (fun _ _ => True) (fun H' _ => Succeeds prepared result H' →
      spawned H' = stripes E n (streamCtx E n key prepared b.length) b ∧
      (Summed E n (streamCtx E n key prepared b.length) b result →
        Placed E n (streamCtx E n key prepared b.length) b prepared result H') ∧
      (¬ Summed E n (streamCtx E n key prepared b.length) b result → committed H' = [])) []
      (putBytes E n key b).run := by
  refine prepare_bind trivial fun p r => ?_
  generalize hctx : streamCtx E n key p b.length = ctx
  refine Conforms.lift_bind ((spawnAll_spawned (stripes E n ctx b) _).weaken ?_)
  rintro H₁ _ - ⟨hs₁, hc₁⟩
  refine Conforms.lift_bind ((joinAll_joined hs₁ hc₁).weaken ?_)
  rintro H₂ results - ⟨⟨hs₂, hc₂⟩, hjoined⟩
  refine Conforms.except_bind_iff.mpr ?_
  rcases allOk_cases hjoined with ⟨e, s, hw, hend⟩ | ⟨written, hw, hall⟩
  · rw [hw]
    intro hok
    cases hok _ hend
  · rw [hw]
    have hdr : Drained E n ctx b H₂
        { State.start with locations := written, receivedTotal := b.length } :=
      ⟨fun _ => rfl, fun h => absurd rfl h, stripes E n ctx b, hall, fun _ => ⟨.refl _, hs₂⟩⟩
    refine (finishBytes_placed p prepared result hdr hc₂ rfl).weaken fun H' _ _ h hok hp => ?_
    rw [← hp, hctx]
    exact hp ▸ h hok hp

variable {key : ObjectKey} {m : BlockMeta} {ifAbsent : Bool}

variable {t : Hist ν}

theorem putLocalChunk_index {node : DataNode} {desc : ObjectDescriptor} {i offset : Nat} :
    Yields (fun _ c => c.stripeIndex = u32 i) t
      (putLocalChunk E n node key desc i offset data) := by
  unfold putLocalChunk
  split
  · exact .throw
  · exact .skip fun _ _ _ => .pure rfl

theorem task_index {s : Stripe} {desc : ObjectDescriptor} :
    Yields (fun _ c => c.stripeIndex = u32 s.index) t (s.task E n key desc) := by
  unfold Stripe.task putChunkOnNode
  split
  · exact putLocalChunk_index
  · refine callNode_gives (fun _ _ => trivial) (fun _ _ _ _ h => h) fun dst t _ => ?_
    exact putLocalChunk_index.weaken fun _ _ _ h => h.trans (u32_u32 _)

theorem result_index (hexp : Expansion (StripeCmd.body E n key m ifAbsent) H t) {s : Stripe}
    (hmem : Ended ctx H s (.ok (result s))) :
    (result s).stripeIndex = u32 s.index := by
  obtain ⟨t₀, t₁, hlead⟩ := hexp.mem hmem
  exact Conforms.leads task_index hlead (result s) rfl

theorem sortLocations_done {done : List Stripe}
    (hfits : Storage.divCeil b.length ctx.chunkSize ≤ 2 ^ 32)
    (hperm : done.Perm (stripes E n ctx b))
    (hindex : ∀ s ∈ done, (result s).stripeIndex = u32 s.index) :
    sortLocations (done.map result) = (stripes E n ctx b).map result := by
  have hkey : ∀ s ∈ stripes E n ctx b, (result s).stripeIndex = s.index ∧
      s = stripe E n ctx s.index (stripeOf ctx.chunkSize b s.index) := by
    intro s hs
    have hidx := hindex s (hperm.mem_iff.mpr hs)
    obtain ⟨i, hi, rfl⟩ := List.mem_map.mp hs
    exact ⟨hidx.trans (u32_of_lt ((List.mem_range.mp hi).trans_le hfits)), rfl⟩
  unfold sortLocations
  refine List.Perm.eq_of_pairwise ?_ (List.pairwise_insertionSort _ _) ?_
    ((List.perm_insertionSort _ _).trans (hperm.map result))
  · intro a c ha hc hle hge
    obtain ⟨s, hs, rfl⟩ := List.mem_map.mp ((List.mem_insertionSort _).mp ha)
    grind
  · rw [List.pairwise_map, stripes, List.pairwise_map]
    refine List.pairwise_lt_range.imp_of_mem fun {i j} hi hj hlt => ?_
    rw [(hkey _ (List.mem_map_of_mem hi)).1, (hkey _ (List.mem_map_of_mem hj)).1]
    exact hlt.le

theorem Placed.layout (h : Placed E n ctx b prepared result H)
    (hexp : Expansion (StripeCmd.body E n key m ifAbsent) H t)
    (hfits : Storage.divCeil b.length ctx.chunkSize ≤ 2 ^ 32) :
    Plan.committed H = [distributedMeta prepared ctx.chunkSize ctx.declaredTotal
      ((stripes E n ctx b).map result)] := by
  obtain ⟨done, hperm, hmem, hlayout⟩ := h.committed
  rw [hlayout, sortLocations_done hfits hperm fun s hs => result_index hexp (hmem s hs)]

def Bounded (H : PlanHist) : Prop :=
  (spawned H).length ≤ (joined H).length + maxInflightStripes

theorem Bounded.step (h : Bounded H) (c : StripeCmd) (r : c.Resp)
    (hc : Paced declared received H c) : Bounded (⟨c, r⟩ :: H) := by
  unfold Bounded at h ⊢
  cases c with
  | spawn s =>
    show (spawned H ++ [s]).length ≤ (joined H).length + maxInflightStripes
    rw [List.length_append]
    exact hc
  | join desc s =>
    grind [joined, spawned]
  | _ => exact h

theorem putStream_paced {first : PutChunk} {rest : List PutChunk}
    (hb : receivedData (first :: rest) = b) (m : BlockMeta) :
    Conforms (Paced declared b.length) (fun _ _ => True) []
      (putStream E n key declared first rest).run :=
  (putStream_placed hb m fun s => writtenLocation s.node s.index s.offset s.data (0, "", "")).weaken
    fun _ _ _ _ => trivial

def Dispatches (E : Env ν) (n : ν) (key : ObjectKey) (data : Bytes) (prepared : BlockMeta)
    (H : PlanHist) : Prop :=
  spawned H = stripes E n (streamCtx E n key prepared data.length) data

def Commits (E : Env ν) (n : ν) (key : ObjectKey) (data : Bytes) (prepared : BlockMeta)
    (result : Stripe → ChunkLocation) (H : PlanHist) : Prop :=
  committed H = [distributedMeta prepared (E.cfg n).stripingChunkSize data.length
    ((stripes E n (streamCtx E n key prepared data.length) data).map result)]

/-- **2 つの分散書き込みは同じように切る。** -/
theorem stream_put_cuts_like_buffered (key : ObjectKey) (m : BlockMeta) (ifAbsent : Bool)
    (declared : Nat) (first : PutChunk) (rest : List PutChunk) {data : Bytes}
    (hdata : receivedData (first :: rest) = data)
    (hfits : Storage.divCeil data.length (E.cfg n).stripingChunkSize ≤ 2 ^ 32) :
    (∀ t r, (putDistributedStreamImpl E n key m declared first rest ifAbsent).run.Leads [] t r →
      ∃ H, Traced (StripeCmd.body E n key m ifAbsent)
        (putStream E n key declared first rest).run H t r) ∧
    (∀ t r, (putDistributedBytesImpl E n key data m ifAbsent).run.Leads [] t r →
      ∃ H, Traced (StripeCmd.body E n key m ifAbsent) (putBytes E n key data).run H t r) ∧
    (∀ H t r, Traced (StripeCmd.body E n key m ifAbsent)
        (putStream E n key declared first rest).run H t r →
      (∀ H', H' <:+ H → Bounded H') ∧ (data.length ≠ declared → committed H = []) ∧
      ∀ prepared result, Succeeds prepared result H → data.length = declared →
        Dispatches E n key data prepared H ∧ Commits E n key data prepared result H) ∧
    ∀ H t r, Traced (StripeCmd.body E n key m ifAbsent) (putBytes E n key data).run H t r →
      ∀ prepared result, Succeeds prepared result H →
        Dispatches E n key data prepared H ∧
        (Summed E n (streamCtx E n key prepared data.length) data result →
          Commits E n key data prepared result H) ∧
        (¬ Summed E n (streamCtx E n key prepared data.length) data result → committed H = []) := by
  refine ⟨fun t r h => ?_, fun t r h => ?_, fun H t r h => ⟨?_, fun hne => ?_, ?_⟩, ?_⟩
  · rw [← expand_putStream] at h
    exact Traced.of_expand h
  · rw [← expand_putBytes] at h
    exact Traced.of_expand h
  · refine (putStream_paced hdata m).always (fun H c r hI hc => hI.step c r hc) ?_ h.leads
    intro s hs
    rw [List.suffix_nil.mp hs]
    exact Nat.zero_le _
  · have hmatched := (putStream_paced hdata m).always (I := fun H => committed H = []) ?_ ?_ h.leads
    · exact hmatched H (List.suffix_refl H)
    · intro H c r hI hc
      cases c with
      | commit m' => exact absurd hc hne
      | _ => exact hI
    · intro s hs
      rw [List.suffix_nil.mp hs]
      rfl
  · rintro prepared result hok rfl
    have hplaced := (putStream_placed hdata prepared result).leads h.leads hok rfl
    exact ⟨hplaced.spawned, hplaced.layout h.expansion hfits⟩
  · intro H t r h prepared result hok
    obtain ⟨hspawned, hplaced, hnone⟩ := putBytes_placed.leads h.leads hok
    exact ⟨hspawned, fun hsums => (hplaced hsums).layout h.expansion hfits, hnone⟩

instance (prepared : BlockMeta) (result : Stripe → ChunkLocation) :
    DecidablePred (Answered prepared result)
  | ⟨.prepare _, r⟩ => inferInstanceAs (Decidable (r = .ok prepared))
  | ⟨.join _ s, r⟩ => inferInstanceAs (Decidable (r = .ok (result s)))
  | ⟨.receive, r⟩ => inferInstanceAs (Decidable (r = .ok ()))
  | ⟨.spawn _, _⟩ | ⟨.pick _, _⟩ | ⟨.rollback _, _⟩ | ⟨.commit _, _⟩ =>
    inferInstanceAs (Decidable True)

instance (prepared : BlockMeta) (result : Stripe → ChunkLocation) (H : PlanHist) :
    Decidable (Succeeds prepared result H) :=
  inferInstanceAs (Decidable (∀ e ∈ H, Answered prepared result e))

def preparedIn (m : BlockMeta) : PlanHist → BlockMeta
  | [] => m
  | ⟨.prepare _, .ok p⟩ :: _ => p
  | _ :: H => preparedIn m H

def resultIn (H : PlanHist) (s : Stripe) : ChunkLocation :=
  match (joined H).find? fun j => j.1 = s with
  | some (_, .ok c) => c
  | _ => writtenLocation s.node s.index s.offset s.data (0, "", "")

def recordIn (E : Env (Fin 2)) (p : PlanSvc Bool) : Option (PlanHist × Except Status Bool) :=
  p.run.recordExpand (StripeCmd.body E nodeA ⟨"", "k"⟩ fillMeta false)
    (fun c w => exec E c c.default w) (World.init 0) [] []

def threeChunks : List PutChunk := [⟨[], false⟩, ⟨[2, 3], true⟩]

theorem stream_put_cuts_like_buffered_three : ∃ H t prepared result,
    Traced (StripeCmd.body sampleSpread nodeA ⟨"", "k"⟩ fillMeta false)
      (putStream sampleSpread nodeA ⟨"", "k"⟩ 3 ⟨[1], false⟩ threeChunks).run H t (.ok true) ∧
    Succeeds prepared result H ∧
    Dispatches sampleSpread nodeA ⟨"", "k"⟩ [1, 2, 3] prepared H ∧
    Commits sampleSpread nodeA ⟨"", "k"⟩ [1, 2, 3] prepared result H := by
  have hrun : ((recordIn sampleSpread
      (putStream sampleSpread nodeA ⟨"", "k"⟩ 3 ⟨[1], false⟩ threeChunks)).any fun x =>
      x.2 = .ok true ∧ Succeeds (preparedIn fillMeta x.1) (resultIn x.1) x.1) = true := by
    decide +kernel
  obtain ⟨⟨H, r⟩, hrecord, hok⟩ := (Option.any_eq_true _ _).mp hrun
  obtain ⟨rfl, hsucc⟩ := of_decide_eq_true hok
  obtain ⟨t, htraced⟩ := Traced.of_recordExpand hrecord
  refine ⟨H, t, _, _, htraced, hsucc, ?_⟩
  exact ((stream_put_cuts_like_buffered ⟨"", "k"⟩ fillMeta false 3 ⟨[1], false⟩ threeChunks rfl
    (by decide)).2.2.1 H t _ htraced).2.2 _ _ hsucc rfl

def lenientSpread : Env (Fin 2) :=
  sample (fun i => decide (i = nodeA)) [sampleNode nodeA, sampleNode nodeB]

/-- **checksum の無い置き場所の扱いは違う。** -/
theorem stream_put_skips_checksum : ∃ H t H' t' prepared result,
    Traced (StripeCmd.body lenientSpread nodeA ⟨"", "k"⟩ fillMeta false)
      (putStream lenientSpread nodeA ⟨"", "k"⟩ 4 ⟨[1, 2, 3, 4], true⟩ []).run H t (.ok true) ∧
    Traced (StripeCmd.body lenientSpread nodeA ⟨"", "k"⟩ fillMeta false)
      (putBytes lenientSpread nodeA ⟨"", "k"⟩ [1, 2, 3, 4]).run H' t' (.error
        ⟨.failedPrecondition,
          "stripe integrity is enabled but a data node did not return a checksum"⟩) ∧
    Succeeds prepared result H ∧ Succeeds prepared result H' ∧ spawned H = spawned H' ∧
    (committed H).length = 1 ∧ committed H' = [] := by
  have hstream : ((recordIn lenientSpread
      (putStream lenientSpread nodeA ⟨"", "k"⟩ 4 ⟨[1, 2, 3, 4], true⟩ [])).any fun x =>
      (recordIn lenientSpread (putBytes lenientSpread nodeA ⟨"", "k"⟩ [1, 2, 3, 4])).any fun y =>
        x.2 = .ok true ∧ y.2 = .error ⟨.failedPrecondition,
          "stripe integrity is enabled but a data node did not return a checksum"⟩ ∧
        Succeeds (preparedIn fillMeta x.1) (resultIn x.1) x.1 ∧
        Succeeds (preparedIn fillMeta x.1) (resultIn x.1) y.1 ∧ spawned x.1 = spawned y.1 ∧
        (committed x.1).length = 1 ∧ committed y.1 = []) = true := by decide +kernel
  obtain ⟨⟨H, r⟩, hrecord, hrest⟩ := (Option.any_eq_true _ _).mp hstream
  obtain ⟨⟨H', r'⟩, hrecord', hrest'⟩ := (Option.any_eq_true _ _).mp hrest
  obtain ⟨rfl, rfl, hsucc, hsucc', hsame, hone, hnone⟩ := of_decide_eq_true hrest'
  obtain ⟨t, htraced⟩ := Traced.of_recordExpand hrecord
  obtain ⟨t', htraced'⟩ := Traced.of_recordExpand hrecord'
  grind

end Service.Plan

end ContextStore
