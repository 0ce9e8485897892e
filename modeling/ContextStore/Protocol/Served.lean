import ContextStore.Protocol.Distributed

/-!
# 規約: RPC の読み出し

RPC の読み出しを 1 度だけ辿る。
-/

namespace ContextStore

open Conc

variable {ν : Type} {E : Env ν} {R : Reader ν} {t t' : Hist ν} {n : ν} {key : ObjectKey}
  {m : BlockMeta} {b : Bytes} {α : Type}

section Rpc

variable {G : Hist ν → Cmd ν → Prop}

theorem callNode_gives {S : Hist ν → α → Prop} {node : DataNode} {what : String}
    {body : ν → Svc ν α} (hG : ∀ t dst, G t (.net dst))
    (hS : ∀ t t' a, t <:+ t' → S t a → S t' a) (h : ∀ dst t', t <:+ t' → Gives G S t' (body dst)) :
    Gives G S t (Service.callNode E node what body) := by
  unfold Service.callNode
  split
  · exact .throw
  next dst _ =>
    refine Gives.issue (hG _ _) ?_
    rintro (e | ⟨⟩)
    · exact .throw
    refine Gives.issue (hG _ _) ?_
    rintro (e | ⟨⟩)
    · exact .throw
    refine (h dst _ ((List.suffix_cons _ _).trans (List.suffix_cons _ _))).attempt.bind ?_
    rintro t₁ (e | a) - h₁
    · exact .throw
    refine Gives.issue (hG _ _) ?_
    rintro (e | ⟨⟩)
    · exact .throw
    · exact .pure (hS _ _ _ (List.suffix_cons _ _) (h₁ a rfl))

theorem joinResults_gives {ι β : Type} {f : ι → Svc ν α} {xs : List ι}
    {S : ι → Hist ν → α → Prop} {g : List α → Svc ν β} {S' : Hist ν → β → Prop}
    (hG : ∀ t bound, G t (.pick bound)) (hS : ∀ x t t' a, t <:+ t' → S x t a → S x t' a)
    (hf : ∀ x t, Gives G (S x) t (f x))
    (hg : ∀ t' as, t <:+ t' → List.Forall₂ (fun x a => S x t' a) xs as → Gives G S' t' (g as)) :
    Gives G S' t (do
      let results ← Service.joinResults (xs.map f)
      let as ← ContextStore.ofExcept (Service.allOk results)
      g as) := by
  refine Gives.bind (S := fun t' rs => List.Forall₂ (fun x r =>
    ∀ a, r = Except.ok a → S x t' a) xs rs) ?_ ?_
  · unfold Service.joinResults
    rw [List.map_map]
    refine Gives.lift ((Conforms.joinAll (J := fun _ => True)
      (P := fun x t' (r : Except Status α) => ∀ a, r = .ok a → S x t' a)
      ?_ ?_ trivial ?_).weaken fun _ _ _ h => h.2)
    · exact fun _ _ _ => ⟨hG _ _, fun _ => trivial⟩
    · exact fun x t t' r hs _ _ h a ha => hS x t t' a hs (h a ha)
    · exact fun x _ t _ => Conforms.weaken (hf x t) fun _ _ _ h => ⟨trivial, h⟩
  · intro t₁ rs hs₁ hrs
    refine (Gives.ofExcept (S := fun t' as => List.Forall₂ (fun x a => S x t' a) xs as)
      fun as has => ?_).bind fun t₂ as hs₂ h₂ => hg t₂ as (hs₁.trans hs₂) h₂
    rw [allOk_ok has, List.forall₂_map_right_iff] at hrs
    exact hrs.imp fun _ _ h => h _ rfl

end Rpc

def ReadsChunk (t : Hist ν) (c : ChunkLocation) (data : Bytes) : Prop :=
  ∃ dst, (⟨.readFile dst c.storageHandle, .ok data⟩ : Event (Cmd ν) Cmd.Resp) ∈ t

variable {desc : ObjectDescriptor} {c : ChunkLocation}

theorem readChunkFile_gives {dst : ν} :
    Gives (ReadGuard E n R) (fun t' data => ReadsChunk t' c data) t
      (Service.readChunkFile E dst desc c) := by
  have hread : Gives (ReadGuard E n R) (fun t' r => ∀ data, r = some data → ReadsChunk t' c data) t
      (Storage.readPlacementChunk E dst c.storageHandle c.length
        (if desc.isStriped then some c.checksum else none)) := by
    unfold Storage.readPlacementChunk
    refine .after .ofExcept fun t₁ _ _ => Gives.issue trivial ?_
    rintro (_ | _)
    · exact .pure nofun
    · refine readFile_gives fun data => .after .ofExcept fun t₂ _ hs₂ => .pure ?_
      rintro _ ⟨⟩
      exact ⟨dst, hs₂.subset List.mem_cons_self⟩
  unfold Service.readChunkFile
  refine hread.liftRes.bind ?_
  rintro t₁ (_ | data) - h₁
  · exact .throw
  · exact .pure (h₁ data rfl)

theorem readPlacementChunkRpc_gives {dst : ν} {p : Option PlacementDescriptor} :
    Gives (ReadGuard E n R) (fun t' data => ReadsChunk t' c data) t
      (Service.readPlacementChunkRpc E dst desc p c) := by
  refine .after .ofExcept fun t₁ key _ => .after ?_ fun _ _ _ =>
    .after .ofExcept fun _ _ _ => readChunkFile_gives
  exact validateActive_issues.mono fun _ _ => LiveGuard.read

variable {p : PlacementDescriptor}

theorem readChunkFromPlacement_gives :
    Gives (ReadGuard E n R) (fun t' part => part.1 = c.stripeIndex ∧ ReadsChunk t' c part.2) t
      (Service.readChunkFromPlacement E n desc p c) := by
  unfold Service.readChunkFromPlacement
  split
  · exact readChunkFile_gives.bind fun _ _ _ h => .pure ⟨rfl, h⟩
  · refine (callNode_gives (S := fun t' data => ReadsChunk t' c data) (fun _ _ => trivial) ?_
      fun _ _ _ => readPlacementChunkRpc_gives).bind fun _ _ _ h => .pure ⟨rfl, h⟩
    exact fun t t' data hs ⟨dst, h⟩ => ⟨dst, hs.subset h⟩

theorem readChunksByPlacement_gives :
    Gives (ReadGuard E n R) (fun t' chunks => ∃ parts, GatheredFrom t' p.chunks parts ∧
      assemble parts = chunks.flatten) t (Service.readChunksByPlacement E n desc p) := by
  unfold Service.readChunksByPlacement
  refine joinResults_gives (S := fun (c : ChunkLocation) t' (part : Nat × Bytes) =>
    part.1 = c.stripeIndex ∧ ReadsChunk t' c part.2) (fun _ _ => trivial)
    ?_ (fun _ _ => readChunkFromPlacement_gives) fun t' parts _ h => .pure ⟨parts, h, rfl⟩
  exact fun c t t' part hs ⟨hi, dst, h⟩ => ⟨hi, dst, hs.subset h⟩

theorem remotePlacement_eq {r : Option BlockMeta} {m : BlockMeta}
    (h : Service.remotePlacement E n key r = some (m, p)) :
    r = some m ∧ p.chunks = Placement.chunksFromMeta E n m := by
  unfold Service.remotePlacement at h
  split at h
  · cases h
  · dsimp only at h
    split at h
    · cases h
      exact ⟨rfl, rfl⟩
    · cases h

theorem gather_gives {β : Type} {f : Bytes → β} {S : Hist ν → β → Prop}
    (hp : p.chunks = Placement.chunksFromMeta E n m) (hl : Looked t key.toStringKey m)
    (hfresh : Fresh t m) (hS : ∀ t' data, Served E t' n key m data → S t' (f data)) :
    Gives (ReadGuard E n R) S t (do
      let chunks ← Service.readChunksByPlacement E n desc p
      pure (f chunks.flatten)) := by
  refine readChunksByPlacement_gives.bind fun t' chunks hs h => .pure (hS t' _ ?_)
  obtain ⟨parts, hparts, hb⟩ := h
  rw [hp] at hparts
  exact ⟨.gathered parts (hl.mono hs) hparts hb, .inl (hfresh.mono hs)⟩

variable {st : StripingInfo}

variable {i : Nat}

theorem stripePathAt_ok {target : Nat × String}
    (h : Storage.stripePathAt st i = .ok target) :
    target.1 = i ∧ st.chunkPaths[i]? = some target.2 := by
  grind [Storage.stripePathAt]

theorem checkStripeAt_ok {r : Except IoError Bytes} {x : Nat × Bytes}
    (h : Storage.checkStripeAt E n st i r = .ok x) :
    r = .ok x.2 ∧ x = (i, x.2) := by
  unfold Storage.checkStripeAt at h
  split at h
  · cases h
  · cases hv : Storage.verifyStripeBytes E n st i _ with
    | error e => rw [hv] at h; cases h
    | ok u => rw [hv] at h; cases h; exact ⟨rfl, rfl⟩

theorem readStripeAt_gives :
    Gives (ReadGuard E n R) (fun t' chunks => ∃ path data, st.chunkPaths[i]? = some path ∧
      (⟨.readFile n path, .ok data⟩ : Event (Cmd ν) Cmd.Resp) ∈ t' ∧ chunks = [(i, data)]) t
      (Storage.readStripedChunksAt E n st [i]) := by
  unfold Storage.readStripedChunksAt
  refine (Gives.ofExcept (S := fun _ targets => ∃ path, targets = [(i, path)] ∧
    st.chunkPaths[i]? = some path) ?_).bind ?_
  · intro targets h
    cases hx : Storage.stripePathAt st i with
    | error e => simp [hx] at h
    | ok target =>
      obtain ⟨rfl, hpath⟩ := stripePathAt_ok hx
      simp_all
  · rintro t₁ _ - ⟨path, rfl, hpath⟩
    refine (Gives.lift readBatch_conforms).bind ?_
    rintro t₂ _ - (_ | ⟨hr, hnil⟩)
    cases hnil
    next r =>
      refine Gives.ofExcept fun chunks hc => ?_
      cases hx : Storage.checkStripeAt E n st i r with
      | error e => simp [hx] at hc
      | ok x =>
        obtain ⟨rfl, hi⟩ := checkStripeAt_ok hx
        obtain rfl : [x] = chunks := by simpa [hx] using hc
        exact ⟨path, x.2, hpath, hr, by rw [← hi]⟩

def ReadsStripe (n : ν) (st : StripingInfo) (i : Nat) (t : Hist ν) (data : Bytes) : Prop :=
  ∃ path, st.chunkPaths[i]? = some path ∧ Seen t (.readFile n path) (.ok data)

theorem readStripedChunkAt_gives :
    Gives (ReadGuard E n R) (ReadsStripe n st i) t (Storage.readStripedChunkAt E n st i) := by
  unfold Storage.readStripedChunkAt
  refine readStripeAt_gives.bind ?_
  rintro t₁ _ - ⟨path, data, hpath, hmem, rfl⟩
  exact .pure ⟨path, hpath, hmem⟩

theorem readStripes_of_each {parts : List Bytes} (h : List.Forall₂ (fun i data =>
    ReadsStripe n st i t data) (List.range st.chunkPaths.length) parts) :
    ReadStripes n st t parts := by
  have hlen := h.length_eq
  rw [List.length_range] at hlen
  refine List.forall₂_iff_get.mpr ⟨hlen, fun i hi hi' => ?_⟩
  obtain ⟨path, hpath, hmem⟩ := h.get (by rwa [List.length_range]) hi'
  rw [List.get_eq_getElem, List.getElem_range] at hpath
  obtain ⟨_, hget⟩ := List.getElem?_eq_some_iff.mp hpath
  rw [List.get_eq_getElem, hget]
  exact hmem

/-! ## RPC -/

def ServesBytes (E : Env ν) (n : ν) (key : ObjectKey) (t : Hist ν) (r : Option Bytes) : Prop :=
  ∀ data, r = some data → ∃ m, Served E t n key m data

theorem ServesBytes.of_served (h : Served E t n key m b) : ServesBytes E n key t (some b) := by
  rintro _ ⟨⟩
  exact ⟨m, h⟩

theorem ServesBytes.map {r : Option (Bytes × BlockMeta)}
    (h : ∀ x, r = some x → Served E t n key x.2 x.1) : ServesBytes E n key t (r.map (·.1)) := by
  intro data hdata
  obtain ⟨x, rfl, rfl⟩ := Option.map_eq_some_iff.mp hdata
  exact ⟨x.2, h x rfl⟩

variable {k : Option ObjectKey}

theorem requireKey_gives {G : Hist ν → Cmd ν → Prop} {S : Hist ν → α → Prop} {message : String}
    {f : ObjectKey → Svc ν α} (h : ∀ key, k = some key → Gives G S t (f key)) :
    Gives G S t (Service.requireKey k message >>= f) := by
  cases k with
  | none => exact nofun
  | some key => exact h key rfl

section Reads

variable (hp : R.purges)
include hp

theorem serviceGet_gives :
    Gives (ReadGuard E n R) (fun t' r => ∀ data, r = some data → ∃ key, k = some key ∧ ∃ m,
      Served E t' n key m data) t (Service.get E n k) := by
  refine requireKey_gives fun key hk => Gives.weaken (S := ServesBytes E n key) ?_
    fun _ _ _ h data hdata => ⟨key, hk, h data hdata⟩
  refine (metadataGetLive_gives.mono fun _ _ => LiveGuard.read).bind fun t₁ r _ h₁ => ?_
  split
  next m p hp =>
    obtain ⟨rfl, hchunks⟩ := remotePlacement_eq hp
    obtain ⟨hl, hfresh⟩ := h₁ m rfl
    exact gather_gives hchunks hl hfresh fun _ _ h => .of_served h
  next => exact (memoryGet_gives hp).liftRes.bind fun _ _ _ h => .pure (.map h)

theorem serviceExists_issues : Issues (ReadGuard E n R) t (Service.exists_ E n k).run := by
  refine Gives.issues (S := fun _ _ => True) (requireKey_gives fun key _ => ?_)
  exact Gives.of_issues (memoryExists_issues hp).liftRes

theorem serviceGetBatch_gives {keys : List ObjectKey} :
    Gives (ReadGuard E n R) (fun t' rs => ∀ data, some data ∈ rs → ∃ key ∈ keys, ∃ m,
      Served E t' n key m data) t (Service.getBatch E n keys) := by
  refine (Gives.lift (memoryGetBatch_conforms hp)).bind fun t' results _ h => .pure ?_
  intro data hdata
  obtain ⟨r, hr, hr'⟩ := List.mem_map.mp hdata
  split at hr'
  next data' m =>
    cases hr'
    obtain ⟨key, hk, hserved⟩ := h _ hr data m rfl
    exact ⟨key, hk, m, hserved⟩
  next => cases hr'

def StreamFrom (E : Env ν) (n : ν) (t : Hist ν) (key : ObjectKey) : Service.StreamSource → Prop
  | .remote segments => ∃ m p parts, Service.remotePlacement E n key (some m) = some (m, p) ∧
      Looked t key.toStringKey m ∧ Fresh t m ∧ GatheredFrom t p.chunks parts ∧
      assemble parts = segments.flatten
  | .cached segments => ∃ e, Peeked t n key.toStringKey e ∧ e.segments = segments
  | .pipeline stripe => ∃ m, Looked t key.toStringKey m ∧ Fresh t m ∧ m.striping = some stripe
  | .buffered segments => ∃ m, Obtained E n t key m segments.flatten

theorem streamSource_gives :
    Gives (ReadGuard E n R) (fun t' source => ∃ key, k = some key ∧ StreamFrom E n t' key source) t
      (Service.streamSource E n k) := by
  refine requireKey_gives fun key hk => Gives.weaken (S := fun t' source =>
    StreamFrom E n t' key source) ?_ fun _ _ _ h => ⟨key, hk, h⟩
  refine (metadataGetLive_gives.mono fun _ _ => LiveGuard.read).bind fun t₁ r _ h₁ => ?_
  split
  next m p hp =>
    obtain ⟨rfl, -⟩ := remotePlacement_eq hp
    obtain ⟨hl, hfresh⟩ := h₁ m rfl
    refine readChunksByPlacement_gives.bind fun t₂ segs hs₂ h₂ => .pure ?_
    obtain ⟨parts, hparts, hsegs⟩ := h₂
    exact ⟨m, p, parts, hp, hl.mono hs₂, hfresh.mono hs₂, hparts, hsegs⟩
  next =>
    refine Gives.issue trivial ?_
    rintro (_ | e)
    ·
      dsimp only [Option.map_none]
      split
      next st hst =>
        obtain ⟨m, rfl, hst⟩ := Option.bind_eq_some_iff.mp hst
        obtain ⟨hl, hfresh⟩ := h₁ m rfl
        exact .pure ⟨m, hl.mono (List.suffix_cons _ _), hfresh.mono (List.suffix_cons _ _), hst⟩
      next =>
        refine (memoryGetChunks_gives hp).liftRes.bind ?_
        rintro t₂ (_ | ⟨segs, m⟩) - h₂
        · exact .throw
        · exact .pure ⟨m, h₂ _ rfl⟩
    · exact .pure ⟨e, List.mem_cons_self, rfl⟩

omit hp in
theorem collect_gives {source : Service.StreamSource} (h : StreamFrom E n t key source) :
    Gives (ReadGuard E n R) (fun t' data => (∃ m, Served E t' n key m data) ∨
      ∃ e, Peeked t' n key.toStringKey e ∧ e.segments.flatten = data) t
      (Service.collect E n source) := by
  cases source with
  | remote segs =>
    obtain ⟨m, p, parts, hp, hl, hfresh, hparts, hsegs⟩ := h
    rw [(remotePlacement_eq hp).2] at hparts
    exact .pure (.inl ⟨m, .gathered parts hl hparts hsegs, .inl hfresh⟩)
  | cached segs =>
    obtain ⟨e, he, rfl⟩ := h
    exact .pure (.inr ⟨e, he, rfl⟩)
  | pipeline st =>
    obtain ⟨m, hl, hfresh, hst⟩ := h
    refine joinResults_gives (S := fun i t' data => ReadsStripe n st i t' data)
      (fun _ _ => trivial) ?_ (fun i t => readStripedChunkAt_gives.liftRes) fun t' segs hs h => ?_
    · rintro i t t' data hs ⟨path, hpath, hmem⟩
      exact ⟨path, hpath, hs.subset hmem⟩
    · refine .pure (.inl ⟨m, .fetched ⟨hl.mono hs, ?_⟩, .inl (hfresh.mono hs)⟩)
      exact readBack_striped hst (readStripes_of_each h)
  | buffered segs =>
    obtain ⟨m, h⟩ := h
    exact .pure (.inl ⟨m, h.served⟩)

theorem serviceGetStream_gives :
    Gives (ReadGuard E n R) (fun t' data => ∃ key, k = some key ∧ ((∃ m, Served E t' n key m data) ∨
      ∃ e, Peeked t' n key.toStringKey e ∧ e.segments.flatten = data)) t
      (Service.getStream E n k) := by
  refine (streamSource_gives hp).bind fun t₁ source _ h => ?_
  obtain ⟨key, hk, h⟩ := h
  exact (collect_gives h).weaken fun _ _ _ h₂ => ⟨key, hk, h₂⟩

theorem readByDescriptor_gives {p : Option PlacementDescriptor} :
    Gives (ReadGuard E n R) (fun t' r => ∀ data, r = some data → ∃ key, desc.key = some key ∧ ∃ m,
      Served E t' n key m data) t (Service.readByDescriptor E n desc p) := by
  unfold Service.readByDescriptor
  refine (Gives.ofExcept (S := fun _ key => desc.key = some key) ?_).bind fun t₁ key _ hk => ?_
  · grind [Placement.keyFromDescriptor]
  refine Gives.weaken (S := ServesBytes E n key) ?_ fun _ _ _ h data hdata =>
    ⟨key, hk, h data hdata⟩
  refine (metadataGetLive_gives.mono fun _ _ => LiveGuard.read).bind ?_
  rintro t₂ (_ | m) - h₂
  · exact .pure nofun
  obtain ⟨hl, hfresh⟩ := h₂ m rfl
  refine .after .ofExcept fun t₃ _ hs₃ => .after .ofExcept fun t₄ _ hs₄ => ?_
  have hs := hs₃.trans hs₄
  split
  next m' p' hp =>
    obtain ⟨hm, hchunks⟩ := remotePlacement_eq hp
    cases hm
    exact gather_gives hchunks (hl.mono hs) (hfresh.mono hs) fun _ _ h => .of_served h
  next =>
    refine (getWithMeta_gives hp (R.looked (hl.mono hs))).liftRes.bind fun t₅ r hs₅ h₅ =>
      .pure (.map fun x hx => ?_)
    obtain ⟨hm, hread, -⟩ := h₅ x hx
    rw [hm]
    have hs' := hs.trans hs₅
    exact ⟨.fetched ⟨hl.mono hs', hread.readBack⟩, .inl (hfresh.mono hs')⟩

end Reads

end ContextStore
