import ContextStore.Protocol.Rdma

/-!
# 規約: 2 段階の分散書き込み
-/

namespace ContextStore

open Conc

variable {ν : Type} {E : Env ν} {n : ν} {t : Hist ν} {α β : Type}

def plainRole (n : ν) : Role ν where
  node := n
  writes := fun _ _ => False
  retires := fun _ => False
  purges := false
  collects := false
  lenient := false
  streams := false

/-! ## 規約 -/

structure Service.Accepts (E : Env ν) (n : ν) (req : Service.CommitRequest) (key : ObjectKey)
    (desc : ObjectDescriptor) : Prop where
  key : req.key = some key
  descriptor : req.descriptor = some desc
  nonempty : req.chunks ≠ []
  covers : Service.coversLayout desc.stripeCount (Service.sortLocations req.chunks) = true
  sums : (E.cfg n).verifyStripeChecksums = true →
    ∀ c ∈ Service.sortLocations req.chunks, c.checksum ≠ ""

def PrepareGuard (E : Env ν) (n : ν) (t : Hist ν) (c : Cmd ν) : Prop :=
  (∃ s, c = .redis (.nextGeneration s)) ∨ Guard E (plainRole n) t c

def StripesGuard (E : Env ν) (n : ν) (t : Hist ν) (c : Cmd ν) : Prop :=
  (∃ p data, c = .writeFile n p data) ∨ (∃ p, c = .deleteFile n p) ∨ Guard E (plainRole n) t c

def CommitGuard (E : Env ν) (n : ν) (req : Service.CommitRequest) (t : Hist ν) (c : Cmd ν) :
    Prop :=
  (∃ rc key desc now, c = .redis rc ∧ Service.Accepts E n req key desc ∧
    rc.publishes = some (key.toStringKey,
      Service.committedMeta now req desc (Service.sortLocations req.chunks))) ∨
  (∃ l ∈ req.chunks, ∃ dst, c = .deleteFile dst l.storageHandle) ∨
  Guard E (plainRole n) t c

def RemoveGuard (E : Env ν) (n : ν) (chunk : ChunkLocation) (t : Hist ν) (c : Cmd ν) : Prop :=
  c = .deleteFile n chunk.storageHandle ∨ Guard E (plainRole n) t c

theorem ledger_of_no_invoke (h : ∀ e ∈ t, ∀ k b, e.1 ≠ .invoke k b) : ledger t = Ledger.empty := by
  induction t with
  | nil => rfl
  | cons e t ih =>
    have hl := ih fun e' he' => h e' (List.mem_cons_of_mem _ he')
    have hne := h e List.mem_cons_self
    obtain ⟨c, r⟩ := e
    show (ledger t).next c r = Ledger.empty
    rw [hl]
    cases c with
    | invoke k b => exact absurd rfl (hne k b)
    | redis rc =>
      cases rc with
      | nextGeneration s => cases r <;> rfl
      | _ => rfl
    | writeFile n p data => cases r <;> rfl
    | deleteFile n p => cases r <;> rfl
    | _ => rfl

section Issues

variable {G : Hist ν → Cmd ν → Prop}

theorem Issues.requireKey_bind {k : Option ObjectKey} {msg : String} {f : ObjectKey → Svc ν α}
    (h : ∀ key, k = some key → Issues G t (f key).run) :
    Issues G t (Service.requireKey k msg >>= f).run :=
  (requireKey_gives fun key hk => .of_issues (h key hk)).issues

theorem Issues.send {op : String} {c : RedisCmd} (hc : ∀ t, G t (.redis c))
    (hr : ∀ t, G t .reconnect) : Issues G t (Metadata.runWithReconnect op (sendRedis c)).run :=
  (Gives.send (fun t' _ => hc t') hr).issues

theorem Issues.callNode {node : DataNode} {what : String} {body : ν → Svc ν α}
    (hnet : ∀ t dst, G t (.net dst)) (hbody : ∀ t dst, Issues G t (body dst).run) :
    Issues G t (Service.callNode E node what body).run :=
  (callNode_gives (S := fun _ _ => True) hnet (fun _ _ _ _ h => h)
    fun dst t' _ => .of_issues (hbody t' dst)).issues

theorem Issues.deletePlacementChunk {dst : ν} {p : String} (hex : ∀ t, G t (.fileExists dst p))
    (hdel : ∀ t, G t (.deleteFile dst p)) :
    Issues G t (Storage.deletePlacementChunk E dst p).run := by
  refine Issues.exceptBind .ofExcept fun t' _ => ⟨hex _, fun existed => ⟨hdel _, ?_⟩⟩
  rintro (e | ⟨⟩) <;> trivial

end Issues

theorem readPlacementChunkRpc_issues {desc : ObjectDescriptor}
    {placement : Option PlacementDescriptor} {chunk : ChunkLocation} :
    Issues (Guard E (plainRole n)) []
      (Service.readPlacementChunkRpc E n desc placement chunk).run :=
  readPlacementChunkRpc_gives.issues.mono fun _ _ => ReadGuard.guard rfl

theorem deletePlacementChunkRpc_issues {chunk : ChunkLocation} :
    Issues (RemoveGuard E n chunk) t (Service.deletePlacementChunkRpc E n chunk).run :=
  Issues.liftRes (Issues.deletePlacementChunk (fun _ => .inr trivial) fun _ => .inl rfl)

/-! ## prepare -/

theorem alreadyTaken_issues {key : ObjectKey} {ifNotExists : Bool} :
    Issues (PrepareGuard E n) t (Service.alreadyTaken E n key ifNotExists).run := by
  unfold Service.alreadyTaken
  split
  · refine Issues.exceptBind ?_ fun _ _ => trivial
    exact metadataGetLive_gives.issues.mono fun _ _ h => .inr (h.read.guard rfl)
  · trivial

theorem prepareDistributedPut_issues {req : Service.PrepareRequest} :
    Issues (PrepareGuard E n) [] (Service.prepareDistributedPut E n req).run := by
  refine Issues.requireKey_bind fun key _ => ?_
  split
  · trivial
  split
  · trivial
  refine Issues.exceptBind alreadyTaken_issues fun t₁ taken => ?_
  split
  · trivial
  refine ⟨.inr trivial, fun now => ?_⟩
  refine Issues.exceptBind (Issues.liftRes (Issues.exceptBind ?_ fun _ _ => trivial))
    fun _ _ => trivial
  exact Issues.send (c := .nextGeneration key.toStringKey) (fun _ => .inl ⟨_, rfl⟩)
    fun _ => .inr trivial

theorem rollbackStripes_issues : ∀ (locations : List Rdma.PutStripeLocation) (t : Hist ν),
    Issues (StripesGuard E n) t (Rdma.rollbackStripes E n locations) := by
  intro locations
  induction locations with
  | nil => exact fun _ => trivial
  | cons l ls ih =>
    intro t
    refine Issues.bind (Issues.deletePlacementChunk (fun _ => .inr (.inr trivial))
      fun _ => .inr (.inl ⟨_, rfl⟩)) fun t' _ => ih t'

theorem writeStripes_issues {key : ObjectKey} {generation layoutVersion : Nat} :
    ∀ (stripes : List (Nat × Bytes)) (locations : List Rdma.PutStripeLocation) (t : Hist ν),
      Issues (StripesGuard E n) t
        (Rdma.writeStripes E n key generation layoutVersion stripes locations) := by
  intro stripes
  induction stripes with
  | nil => exact fun _ _ => trivial
  | cons s stripes ih =>
    intro locations t
    have hput : Issues (StripesGuard E n) t (Storage.putPlacementChunk E n key s.1
        locations.length generation layoutVersion s.2).run := by
      refine ⟨.inl ⟨_, _, rfl⟩, ?_⟩
      rintro (e | ⟨⟩) <;> trivial
    refine Issues.bind hput ?_
    rintro t' (e | ⟨deviceId, handle, checksum⟩)
    · exact Issues.bind (rollbackStripes_issues _ _) fun _ _ => trivial
    · exact ih _ _

theorem handlePutStripes_issues {rawKey : String} {generation layoutVersion chunkSize : Nat}
    {stripes : List (Nat × Bytes)} : Issues (StripesGuard E n) t
      (Rdma.handlePutStripes E n rawKey generation layoutVersion chunkSize stripes).run := by
  unfold Rdma.handlePutStripes
  dsimp only
  split
  · trivial
  split
  · trivial
  refine ⟨.inr (.inr trivial), fun allocated => ?_⟩
  cases allocated with
  | false => trivial
  | true =>
    refine ⟨.inr (.inr trivial), ?_⟩
    rintro (e | ⟨⟩)
    · trivial
    · exact Issues.exceptBind Issues.ofExcept fun t' key =>
        Issues.exceptLift (writeStripes_issues _ _ _)

/-! ## commit -/

section Commit

variable {req : Service.CommitRequest}

theorem deleteChunkFromPlacement_issues {c : ChunkLocation}
    (hc : ∃ l ∈ req.chunks, l.storageHandle = c.storageHandle) :
    Issues (CommitGuard E n req) t (Service.deleteChunkFromPlacement E n c).run := by
  obtain ⟨l, hl, hh⟩ := hc
  have hdel : ∀ dst t, Issues (CommitGuard E n req) t
      (liftRes (Storage.deletePlacementChunk E dst c.storageHandle)).run := by
    intro dst t
    refine Issues.liftRes (Issues.deletePlacementChunk (fun _ => .inr (.inr trivial)) fun _ => ?_)
    exact .inr (.inl ⟨l, hl, dst, by rw [hh]⟩)
  unfold Service.deleteChunkFromPlacement
  split
  · exact Issues.exceptBind (hdel n t) fun _ _ => trivial
  · exact Issues.exceptBind (Issues.callNode (fun _ _ => .inr (.inr trivial))
      fun t dst => hdel dst t) fun _ _ => trivial

theorem rollbackChunks_issues : ∀ (locations : List ChunkLocation) (t : Hist ν),
    (∀ c ∈ locations, ∃ l ∈ req.chunks, l.storageHandle = c.storageHandle) →
    Issues (CommitGuard E n req) t (Service.rollbackChunks E n locations) := by
  intro locations
  induction locations with
  | nil => exact fun _ _ => trivial
  | cons c cs ih =>
    intro t hcs
    refine Issues.bind (deleteChunkFromPlacement_issues (hcs c List.mem_cons_self)) fun t' _ => ?_
    exact ih t' fun c' hc' => hcs c' (List.mem_cons_of_mem _ hc')

theorem commitMeta_issues {key : ObjectKey} {desc : ObjectDescriptor} {now nb : Int}
    {ifAbsent : Bool} (hacc : Service.Accepts E n req key desc) :
    Issues (CommitGuard E n req) t (Service.commitMeta key
      (Service.committedMeta now req desc (Service.sortLocations req.chunks)) nb ifAbsent).run := by
  have hsend : ∀ {op : String} {c : RedisCmd}, c.publishes = some (key.toStringKey,
      Service.committedMeta now req desc (Service.sortLocations req.chunks)) →
      Issues (CommitGuard E n req) t (Metadata.runWithReconnect op (sendRedis c)).run :=
    fun {op c} hc => Issues.send (fun _ => .inl ⟨c, key, desc, now, rfl, hacc, hc⟩)
      fun _ => .inr (.inr trivial)
  unfold Service.commitMeta
  split
  · exact hsend (c := .putBlockIfAbsent _ _) rfl
  · exact Issues.exceptBind (hsend (c := .replaceBlock _ _ _) rfl) fun _ _ => trivial

theorem commitDistributedPut_issues :
    Issues (CommitGuard E n req) t (Service.commitDistributedPut E n req).run := by
  refine Issues.requireKey_bind fun key hkey => ?_
  cases hdesc : req.descriptor with
  | none => trivial
  | some desc =>
    dsimp only
    split
    · trivial
    next hne =>
    split
    · trivial
    next hcov =>
    split
    · trivial
    next hsums =>
    have hacc : Service.Accepts E n req key desc := by
      refine ⟨hkey, hdesc, hne, by simpa using hcov, fun hv c hc hempty => hsums ⟨hv, ?_⟩⟩
      exact List.any_eq_true.mpr ⟨c, hc, by simpa using hempty⟩
    refine ⟨.inr (.inr trivial), fun now => ⟨.inr (.inr trivial), fun _ =>
      ⟨.inr (.inr trivial), fun _ => ⟨.inr (.inr trivial), fun later => ?_⟩⟩⟩⟩
    refine Issues.exceptBind (Issues.liftRes (commitMeta_issues hacc)) fun t' committed => ?_
    split
    · refine Issues.exceptBind (Issues.exceptLift (rollbackChunks_issues _ _ ?_)) fun _ _ => trivial
      intro c hc
      obtain ⟨l, hl, rfl⟩ := List.mem_map.mp hc
      exact ⟨l, (List.mem_insertionSort _).mp hl, rfl⟩
    · trivial

end Commit

def Service.tiles (chunkSize : Nat) (chunks : List ChunkLocation) : Prop :=
  0 < chunkSize ∧ (chunks.map ChunkLocation.length).sum < 2 ^ 64 ∧
  ∀ (i : Nat) (hi : i < chunks.length), (chunks.get ⟨i, hi⟩).offset = i * chunkSize ∧
    if i + 1 < chunks.length then (chunks.get ⟨i, hi⟩).length = chunkSize
    else 0 < (chunks.get ⟨i, hi⟩).length ∧ (chunks.get ⟨i, hi⟩).length ≤ chunkSize

instance (chunkSize : Nat) (chunks : List ChunkLocation) :
    Decidable (Service.tiles chunkSize chunks) := by
  unfold Service.tiles
  exact inferInstance

theorem sum_lengths_of_tiles {chunkSize k : Nat} {chunks : List ChunkLocation}
    (hk : chunks.length = k + 1)
    (hfull : ∀ (i : Nat) (hi : i < chunks.length), i < k →
      (chunks.get ⟨i, hi⟩).length = chunkSize) :
    (chunks.map ChunkLocation.length).sum =
      k * chunkSize + (chunks.get ⟨k, by omega⟩).length := by
  have hdrop : (chunks.take k).map ChunkLocation.length = List.replicate k chunkSize := by
    refine List.eq_replicate_iff.mpr ⟨by rw [List.length_map, List.length_take]; omega, ?_⟩
    intro x hx
    obtain ⟨c, hc, rfl⟩ := List.mem_map.mp hx
    obtain ⟨i, hi, rfl⟩ := List.mem_iff_getElem.mp hc
    grind
  have hsplit : chunks = chunks.take k ++ [chunks.get ⟨k, by omega⟩] := by
    grind [List.take_append_drop, List.drop_eq_getElem_cons]
  conv_lhs => rw [hsplit]
  rw [List.map_append, List.sum_append, hdrop, List.sum_replicate_nat]
  rfl

theorem divCeil_of_last {chunkSize k last : Nat} (hpos : 0 < last) (hle : last ≤ chunkSize) :
    Storage.divCeil (k * chunkSize + last) chunkSize = k + 1 := by
  have hcs : 0 < chunkSize := by omega
  refine Nat.le_antisymm (divCeil_le_of_le_mul hcs ?_) ?_
  · rw [Nat.add_mul]; omega
  · have h := le_divCeil_mul (k * chunkSize + last) hcs
    exact Nat.lt_of_mul_lt_mul_right (a := chunkSize) (by omega)

theorem committedMeta_wellLaid_iff {now : Int} {req : Service.CommitRequest}
    {desc : ObjectDescriptor} {chunks : List ChunkLocation} {si : StripingInfo}
    (hne : chunks ≠ []) (hcov : Service.coversLayout desc.stripeCount chunks = true)
    (hsi : (Service.committedMeta now req desc chunks).striping = some si) :
    WellLaid (Service.committedMeta now req desc chunks) si ↔
      Service.tiles desc.chunkSize chunks := by
  obtain ⟨k, hk⟩ : ∃ k, chunks.length = k + 1 :=
    Nat.exists_eq_succ_of_ne_zero (by simpa using hne)
  obtain rfl : _ = si := Option.some.inj hsi
  have hindex : ∀ (i : Nat) (hi : i < chunks.length), (chunks.get ⟨i, hi⟩).stripeIndex = i := by
    intro i hi
    have h := (Bool.and_eq_true_iff.mp hcov).2
    rw [beq_iff_eq] at h
    have h' := congrArg (fun l : List Nat => l[i]?) h
    simpa [hi] using h'
  have hlast : ¬ k + 1 < chunks.length := by omega
  constructor
  · intro h
    have hcs : 0 < desc.chunkSize := h.positive
    have hcount : chunks.length = Storage.divCeil
        ((chunks.map ChunkLocation.length).sum % 2 ^ 64) desc.chunkSize := by
      have := h.count
      rwa [List.length_map] at this
    have hat : ∀ (i : Nat) (hi : i < chunks.length),
        (chunks.get ⟨i, hi⟩).offset = i * desc.chunkSize ∧
        (chunks.get ⟨i, hi⟩).length = if i + 1 < chunks.length then desc.chunkSize
          else (chunks.map ChunkLocation.length).sum % 2 ^ 64 - i * desc.chunkSize := by
      intro i hi
      have hget : chunks[i]? = some (chunks.get ⟨i, hi⟩) := List.getElem?_eq_getElem hi
      refine ⟨(h.offset i _ hget).2, (h.length i _ hget).trans ?_⟩
      unfold StripingInfo.stripeLength
      rw [List.length_map]
    rw [hk] at hcount
    have hbelow := mul_lt_of_lt_divCeil hcs (Nat.lt_of_succ_le hcount.le)
    have habove := succ_divCeil_mul hcs (Nat.not_lt.mpr hcount.ge) (Nat.lt_of_succ_le hcount.le)
    have hsum := sum_lengths_of_tiles hk fun i hi hik =>
      (hat i hi).2.trans (if_pos (by omega))
    have htail := (hat k (by omega)).2
    rw [if_neg hlast] at htail
    refine ⟨hcs, by omega, fun i hi => ⟨(hat i hi).1, ?_⟩⟩
    grind
  · rintro ⟨hcs, hbound, hat⟩
    have hfull : ∀ (i : Nat) (hi : i < chunks.length), i < k →
        (chunks.get ⟨i, hi⟩).length = desc.chunkSize := by
      intro i hi hik
      have := (hat i hi).2
      rwa [if_pos (by omega)] at this
    have htail := (hat k (by omega)).2
    rw [if_neg hlast] at htail
    have hsum := sum_lengths_of_tiles hk hfull
    have htotal : (chunks.map ChunkLocation.length).sum % 2 ^ 64 =
        k * desc.chunkSize + (chunks.get ⟨k, by omega⟩).length := by
      rw [Nat.mod_eq_of_lt hbound, hsum]
    have hcount : (chunks.map ChunkLocation.storageHandle).length =
        Storage.divCeil ((chunks.map ChunkLocation.length).sum % 2 ^ 64) desc.chunkSize := by
      rw [List.length_map, htotal, divCeil_of_last htail.1 htail.2, hk]
    refine
      { positive := hcs
        devices := by rw [List.length_map, List.length_map]
        count := hcount
        located := .inr (List.length_map _).symm
        offset := fun i l hl => ?_
        length := fun i l hl => ?_
        size := rfl
        sum := (StripingInfo.sum_stripeLength hcs hcount).symm }
    · grind
    · obtain ⟨hi, rfl⟩ := List.getElem?_eq_some_iff.mp hl
      unfold StripingInfo.stripeLength
      grind

end ContextStore
