import ContextStore.Protocol.RangeRead

/-!
# 規約: memory tier

memory tier の読み出しを 1 度だけ辿る。
-/

namespace ContextStore

open Conc

variable {ν : Type} {E : Env ν} {ρ : Role ν} {R : Reader ν} {t t' : Hist ν} {n : ν}
  {key : ObjectKey} {m : BlockMeta} {b : Bytes} {s : String} {α : Type}

theorem ReRead.mono {d : Draw ν} {r : Except String (Option BlockMeta)} (h : ReRead t d s r)
    (hs : t <:+ t') : ReRead t' d s r := by
  obtain ⟨t₁, h₁, hd⟩ := h
  exact ⟨t₁, h₁.trans hs, hd⟩

theorem Provenance.extend (h : Provenance E ρ t s m b) (hs : t <:+ t')
    (hl : ledger t' = ledger t) : Provenance E ρ t' s m b := by
  rcases h with ⟨d, hd, hst, hb, hkey, hre⟩ | ⟨key, hkey, hlook, hread⟩
  · refine .inl ⟨d, by rw [hl]; exact hd, hst, hb, hkey, ?_⟩
    grind [ReRead.mono]
  · exact .inr ⟨key, hkey, hlook.mono hs, hread.mono hs⟩

theorem Held.mono (h : Held E n R t s m b) (hs : t <:+ t') : Held E n R t' s m b := by
  obtain ⟨key, hkey, hk, hread⟩ := h
  exact ⟨key, hkey, R.mono hk hs, hread.mono hs⟩

theorem invalidate_conforms {s : String} : Plain E ρ t (Memory.invalidate n s) :=
  ⟨trivial, fun _ => ⟨trivial, fun _ => rfl⟩⟩

def Fills (n : ν) (s : String) (m : BlockMeta) (b : Bytes) : Cmd ν → Prop
  | .l1 _ (.popCache _) | .l1 _ (.popChunks _) | .slabAlloc _ _ => True
  | .l1 n' (.insertCache s' e) => n' = n ∧ s' = s ∧ e.blockMeta = m ∧ e.data = b
  | .l1 n' (.insertChunks s' e _) => n' = n ∧ s' = s ∧ e.blockMeta = m ∧ e.segments.flatten = b
  | _ => False

theorem cacheInsert_fills : Issues (fun _ => Fills n s m b) t (Memory.cacheInsert E n s b m) := by
  unfold Memory.cacheInsert
  split
  · trivial
  · exact ⟨trivial, fun _ => ⟨trivial, fun _ => ⟨⟨rfl, rfl, rfl, rfl⟩, fun _ => trivial⟩⟩⟩

theorem chunksCacheInsert_fills {segments : List Bytes} {size : Nat} :
    Issues (fun _ => Fills n s m segments.flatten) t
      (Memory.chunksCacheInsert E n s segments m size) := by
  unfold Memory.chunksCacheInsert Memory.maybeSlabBacked
  split
  · trivial
  · refine ⟨trivial, fun _ => ⟨trivial, fun _ => ?_⟩⟩
    split
    · exact ⟨⟨rfl, rfl, rfl, rfl⟩, fun _ => trivial⟩
    · exact ⟨trivial, fun _ => ⟨⟨rfl, rfl, rfl, rfl⟩, fun _ => trivial⟩⟩

theorem insertChunksFromSlab_fills :
    Issues (fun _ => Fills n s m b) t (Memory.insertChunksFromSlab E n s b m) := by
  unfold Memory.insertChunksFromSlab
  split
  · trivial
  · refine ⟨trivial, fun _ => ⟨trivial, fun _ => ⟨⟨rfl, rfl, rfl, ?_⟩, fun _ => trivial⟩⟩⟩
    exact List.flatten_singleton

variable {p : Io ν α}

theorem Fills.reads (h : Issues (fun _ => Fills n s m b) t p) (hh : Held E n R t s m b) :
    Issues (ReadGuard E n R) t p := by
  refine h.guard fun t' c hs hc => ?_
  have hh' := hh.mono hs
  cases c with
  | l1 n' c =>
    cases c with
    | insertCache s e =>
      obtain ⟨hn, rfl, rfl, rfl⟩ := hc
      exact ⟨hn, hh'⟩
    | insertChunks s e cap =>
      obtain ⟨hn, rfl, rfl, rfl⟩ := hc
      exact ⟨hn, hh'⟩
    | _ => trivial
  | slabAlloc n size => trivial
  | _ => exact hc.elim

theorem Fills.plain (h : Issues (fun _ => Fills n s m b) t p) (hn : ρ.node = n)
    (hp : Provenance E ρ t s m b) : Plain E ρ t p := by
  refine (h.keep (I := fun t' => t <:+ t' ∧ ledger t' = ledger t) ⟨List.suffix_refl t, rfl⟩
    ?_).mono ?_ fun _ _ _ h => h.1.2
  · rintro t' c r ⟨hs, hl⟩ hc
    refine ⟨hs.trans (List.suffix_cons _ _), Eq.trans ?_ hl⟩
    cases c with
    | l1 n' c => rfl
    | slabAlloc n size => rfl
    | _ => exact hc.elim
  · rintro t' c ⟨⟨hs, hl⟩, hc⟩
    have hp' := hp.extend hs hl
    cases c with
    | l1 n' c =>
      cases c with
      | insertCache s e =>
        obtain ⟨rfl, rfl, rfl, rfl⟩ := hc
        exact ⟨hn.symm, hp'⟩
      | insertChunks s e cap =>
        obtain ⟨rfl, rfl, rfl, rfl⟩ := hc
        exact ⟨hn.symm, hp'⟩
      | _ => trivial
    | slabAlloc n size => trivial
    | _ => exact hc.elim

/-! ## 出どころ -/

def GatheredFrom (t : Hist ν) (chunks : List ChunkLocation) (parts : List (Nat × Bytes)) : Prop :=
  List.Forall₂ (fun c part => part.1 = c.stripeIndex ∧
    ∃ dst, (⟨.readFile dst c.storageHandle, .ok part.2⟩ : Event (Cmd ν) Cmd.Resp) ∈ t) chunks parts

def assemble (parts : List (Nat × Bytes)) : Bytes :=
  ((parts.insertionSort fun a b => a.1 ≤ b.1).map (·.2)).flatten

inductive Origin (E : Env ν) (t : Hist ν) (n : ν) (key : ObjectKey) (m : BlockMeta) (b : Bytes) :
    Prop where
  | cached (h : (⟨.l1 n (.getCache key.toStringKey), some ⟨b, m⟩⟩ : Event (Cmd ν) Cmd.Resp) ∈ t)
  | listed (keys : List String) (entries : List (Option CacheEntry))
      (h : (⟨.l1 n (.getCacheMany keys), entries⟩ : Event (Cmd ν) Cmd.Resp) ∈ t)
      (hmem : (key.toStringKey, some ⟨b, m⟩) ∈ keys.zip entries)
  | chunked (e : ChunksCacheEntry)
      (h : (⟨.l1 n (.getChunks key.toStringKey), some e⟩ : Event (Cmd ν) Cmd.Resp) ∈ t)
      (hm : e.blockMeta = m) (hb : e.segments.flatten = b)
  | fetched (h : Fetched E t n key m b)
  | gathered (parts : List (Nat × Bytes)) (hl : Looked t key.toStringKey m)
      (h : GatheredFrom t (Placement.chunksFromMeta E n m) parts) (hb : assemble parts = b)

theorem GatheredFrom.mono {chunks : List ChunkLocation} {parts : List (Nat × Bytes)}
    (h : GatheredFrom t chunks parts) (hs : t <:+ t') : GatheredFrom t' chunks parts := by
  refine List.Forall₂.imp ?_ h
  rintro c part ⟨hi, dst, hr⟩
  exact ⟨hi, dst, hs.subset hr⟩

theorem Origin.mono (h : Origin E t n key m b) (hs : t <:+ t') : Origin E t' n key m b := by
  cases h with
  | cached h => exact .cached (hs.subset h)
  | listed keys entries h hmem => exact .listed keys entries (hs.subset h) hmem
  | chunked e h hm hb => exact .chunked e (hs.subset h) hm hb
  | fetched h => exact .fetched (h.mono hs)
  | gathered parts hl h hb => exact .gathered parts (hl.mono hs) (h.mono hs) hb

def Served (E : Env ν) (t : Hist ν) (n : ν) (key : ObjectKey) (m : BlockMeta) (b : Bytes) : Prop :=
  Origin E t n key m b ∧ Timed t key.toStringKey m

theorem Served.mono (h : Served E t n key m b) (hs : t <:+ t') : Served E t' n key m b :=
  ⟨h.1.mono hs, h.2.mono hs⟩

def Peeked (t : Hist ν) (n : ν) (s : String) (e : ChunksCacheEntry) : Prop :=
  (⟨.l1 n (.getChunks s), some e⟩ : Event (Cmd ν) Cmd.Resp) ∈ t

theorem Acquired.served (h : Acquired E n t key m b) : Served E t n key m b :=
  ⟨.fetched ⟨h.looked, h.read.readBack⟩, h.timed⟩

inductive Obtained (E : Env ν) (n : ν) (t : Hist ν) (key : ObjectKey) (m : BlockMeta) (b : Bytes) :
    Prop where
  | chunked (e : ChunksCacheEntry) (h : Peeked t n key.toStringKey e) (hm : e.blockMeta = m)
      (hb : e.segments.flatten = b) (hfresh : Fresh t m)
  | acquired (h : Acquired E n t key m b)

theorem Obtained.served (h : Obtained E n t key m b) : Served E t n key m b := by
  cases h with
  | chunked e h hm hb hfresh => exact ⟨.chunked e h hm hb, .inl hfresh⟩
  | acquired h => exact h.served

/-! ## 読み出し -/

section Reads

variable {β : Type} {metaOf : β → BlockMeta} {usable : BlockMeta → Bool}

theorem purgeExpiredL1Entry_issues :
    Issues LiveGuard t (Memory.purgeExpiredL1Entry E n key m).run :=
  Issues.exceptBind invalidate_issues.exceptLift fun _ _ =>
    Issues.exceptBind purgeIfExpired_gives.issues fun _ _ => trivial

theorem fromL1_gives {entry : Option β} :
    Gives LiveGuard (fun t' r => ∀ e, r = some (some e) → entry = some e ∧ Fresh t' (metaOf e)) t
      (Memory.fromL1 E n key entry metaOf usable) := by
  unfold Memory.fromL1
  cases entry with
  | none => exact .pure nofun
  | some e =>
    refine isExpired_gives trivial fun now => ?_
    by_cases hexp : (metaOf e).isExpiredAt now = true
    · rw [if_pos hexp]
      exact .after purgeExpiredL1Entry_issues fun _ _ _ => .pure nofun
    · rw [if_neg hexp]
      refine .pure fun e' he => ?_
      obtain ⟨-, rfl⟩ : usable (metaOf e) = true ∧ e = e' := by simpa using he
      exact ⟨rfl, .of_now (by simpa using hexp)⟩

theorem fromL1_bind {G : Hist ν → Cmd ν → Prop} {S : Hist ν → α → Prop} {entry : Option β}
    {k : Option (Option β) → Res ν α} (hG : ∀ t c, LiveGuard t c → G t c)
    (expired : ∀ t', Gives G S t' (k none))
    (hit : ∀ t' e, t <:+ t' → entry = some e → Fresh t' (metaOf e) →
      Gives G S t' (k (some (some e))))
    (miss : ∀ t', t <:+ t' → Gives G S t' (k (some none))) :
    Gives G S t (Memory.fromL1 E n key entry metaOf usable >>= k) := by
  refine (fromL1_gives.mono hG).bind ?_
  rintro t' (_ | (_ | e)) hs h
  · exact expired t'
  · exact miss t' hs
  · obtain ⟨he, hfresh⟩ := h e rfl
    exact hit t' e hs he hfresh

theorem fill_gives {δ : Type} {f : δ → Bytes} {d : δ} {fill : Io ν Unit}
    (hfill : Issues (fun _ => Fills n key.toStringKey m (f d)) t fill)
    (hgot : Acquired E n t key m (f d)) :
    Gives (ReadGuard E n R) (fun t' r => ∀ x, r = some x → Acquired E n t' key x.2 (f x.1)) t
      (do fill; pure (some (d, m)) : Res ν (Option (δ × BlockMeta))) := by
  refine .after (Fills.reads hfill hgot.held).exceptLift fun t' _ hs => .pure ?_
  rintro _ ⟨⟩
  exact hgot.mono hs

variable (hp : R.purges)
include hp

theorem memoryGet_gives :
    Gives (ReadGuard E n R) (fun t' r => ∀ x, r = some x → Served E t' n key x.2 x.1) t
      (Memory.get E n key) := by
  refine Gives.issue trivial fun entry => fromL1_bind (fun _ _ => LiveGuard.read) ?_ ?_ ?_
  · exact fun _ => .pure nofun
  · rintro t₁ e hs rfl hfresh
    refine .pure ?_
    rintro _ ⟨⟩
    exact ⟨(Origin.cached List.mem_cons_self).mono hs, .inl hfresh⟩
  · intro t₁ _
    refine (storageGet_gives hp).bind ?_
    rintro t₂ (_ | ⟨d, m⟩) - h₂
    · exact .pure nofun
    · exact (fill_gives (f := id) cacheInsert_fills (h₂ _ rfl)).weaken
        fun _ _ _ h x hx => (h x hx).served

theorem memoryGetChunks_gives :
    Gives (ReadGuard E n R) (fun t' r => ∀ x, r = some x → Obtained E n t' key x.2 x.1.flatten) t
      (Memory.getChunks E n key) := by
  refine Gives.issue trivial fun entry => fromL1_bind (fun _ _ => LiveGuard.read) ?_ ?_ ?_
  · exact fun _ => .pure nofun
  · rintro t₁ e hs rfl hfresh
    refine .pure ?_
    rintro _ ⟨⟩
    exact .chunked e (hs.subset List.mem_cons_self) rfl rfl hfresh
  · intro t₁ _
    refine (storageGetChunks_gives hp).bind ?_
    rintro t₂ (_ | ⟨d, m⟩) - h₂
    · exact .pure nofun
    · exact (fill_gives chunksCacheInsert_fills (h₂ _ rfl)).weaken
        fun _ _ _ h x hx => .acquired (h x hx)

theorem memoryExists_issues : Issues (ReadGuard E n R) t (Memory.exists_ E n key).run := by
  refine Gives.issues (S := fun _ _ => True) (Gives.issue trivial fun entry =>
    fromL1_bind (fun _ _ => LiveGuard.read) ?_ ?_ ?_)
  · exact fun _ => .pure trivial
  · exact fun _ _ _ _ _ => .pure trivial
  · refine fun t₁ _ => Gives.issue trivial fun entry =>
      fromL1_bind (fun _ _ => LiveGuard.read) ?_ ?_ ?_
    · exact fun _ => .pure trivial
    · exact fun _ _ _ _ _ => .pure trivial
    · exact fun _ _ => Gives.of_issues (storageExists_issues hp)

omit hp in
theorem getChunksSlab_issues : Issues (ReadGuard E n R) t (Memory.getChunksSlab E n key) := by
  refine Conforms.issue_bind.mpr ⟨trivial, ?_⟩
  rintro (_ | e)
  · trivial
  · refine Conforms.issue_bind.mpr ⟨trivial, fun now => ?_⟩
    split
    · refine Issues.mono ?_ fun _ _ => LiveGuard.read
      exact invalidate_issues.bind fun _ _ => purgeIfExpired_gives.issues.bind fun _ _ => trivial
    · trivial

variable {keys : List ObjectKey}

def ServesAny (E : Env ν) (n : ν) (keys : List ObjectKey) (t : Hist ν) (r : Memory.GetResult) :
    Prop :=
  ∀ data m, r = .ok (some (data, m)) → ∃ key ∈ keys, Served E t n key m data

omit hp in
theorem ServesAny.absent : ServesAny E n keys t (.ok none) := by
  rintro _ _ ⟨⟩

omit hp in
theorem ServesAny.error {e : KVError} :
    ServesAny E n keys t (.error e) := by
  rintro _ _ ⟨⟩

omit hp in
theorem ServesAny.mono {r : Memory.GetResult} (h : ServesAny E n keys t r) (hs : t <:+ t') :
    ServesAny E n keys t' r := by
  intro data m hr
  obtain ⟨key, hk, hserved⟩ := h data m hr
  exact ⟨key, hk, hserved.mono hs⟩

omit hp in
theorem splitCached_spec {now : Int} : ∀ {keys : List ObjectKey}
    {entries : List (Option CacheEntry)}
    {results : List (Option Memory.GetResult)} {expired : List (ObjectKey × BlockMeta)}
    {toFetch : List ObjectKey}, Memory.splitCached now keys entries = (results, expired, toFetch) →
    (∀ r data m, some r ∈ results → r = .ok (some (data, m)) →
      ∃ key, (key, some ⟨data, m⟩) ∈ keys.zip entries ∧ m.isExpiredAt now = false) ∧
    toFetch ⊆ keys
  | [], _, _, _, _, h => by cases h; simp
  | _ :: _, [], _, _, _, h => by cases h; simp
  | key :: keys, entry :: entries, results, expired, toFetch, h => by
    obtain ⟨results', expired', toFetch', hrec⟩ :
        ∃ a b c, Memory.splitCached now keys entries = (a, b, c) := ⟨_, _, _, rfl⟩
    obtain ⟨hres, hfetch⟩ := splitCached_spec hrec
    have hrest : ∀ r data m, some r ∈ results' → r = .ok (some (data, m)) →
        ∃ k, (k, some ⟨data, m⟩) ∈ (key :: keys).zip (entry :: entries) ∧
          m.isExpiredAt now = false := by
      grind
    simp only [Memory.splitCached, hrec] at h
    cases entry with
    | none =>
      grind
    | some e =>
      by_cases hexp : e.blockMeta.isExpiredAt now = true
      · grind
      · simp only [hexp] at h
        cases h
        refine ⟨fun r data m hr hdata => ?_, List.subset_cons_of_subset key hfetch⟩
        rcases List.mem_cons.mp hr with hr | hr
        · simp_all
        · exact hrest r data m hr hdata

omit hp in
theorem purgeBatch_conforms {P : Memory.GetResult → Prop} (hP : ∀ e, P (.error e)) :
    ∀ (expired : List (ObjectKey × BlockMeta)) (results : List (Option Memory.GetResult))
      (t : Hist ν), (∀ r, some r ∈ results → P r) →
      Conforms (ReadGuard E n R) (fun _ results => ∀ r, some r ∈ results → P r) t
        (Memory.purgeBatch E n keys expired results)
  | [], _, _, h => h
  | (key, m) :: expired, results, t, h => by
    refine Conforms.bind (invalidate_issues.mono fun _ _ => LiveGuard.read) fun t₁ _ _ _ => ?_
    refine Conforms.bind (purgeIfExpired_gives.mono fun _ _ => LiveGuard.read) fun t₂ r _ _ => ?_
    cases r with
    | ok _ => exact purgeBatch_conforms hP expired results t₂ h
    | error e =>
      refine purgeBatch_conforms hP expired _ t₂ fun r hr => ?_
      rcases List.mem_or_eq_of_mem_set hr with hr | hr
      · exact h r hr
      · cases hr
        exact hP e

omit hp in
theorem mergeFetched_forall {P : Memory.GetResult → Prop} (hP : P (.ok none)) :
    ∀ {results : List (Option Memory.GetResult)} {fetched : List Memory.GetResult},
      (∀ r, some r ∈ results → P r) → (∀ r ∈ fetched, P r) →
      ∀ r ∈ Memory.mergeFetched results fetched, P r
  | [], _, _, _ => fun _ hr => (List.not_mem_nil hr).elim
  | some r :: results, fetched, hres, hf => by
    simp only [Memory.mergeFetched, List.forall_mem_cons]
    exact ⟨hres r List.mem_cons_self,
      mergeFetched_forall hP (fun r hr => hres r (List.mem_cons_of_mem _ hr)) hf⟩
  | none :: results, r :: fetched, hres, hf => by
    simp only [Memory.mergeFetched, List.forall_mem_cons]
    exact ⟨hf r List.mem_cons_self, mergeFetched_forall hP
      (fun r hr => hres r (List.mem_cons_of_mem _ hr)) fun r hr => hf r (List.mem_cons_of_mem _ hr)⟩
  | none :: results, [], hres, hf => by
    simp only [Memory.mergeFetched, List.forall_mem_cons]
    exact ⟨hP, mergeFetched_forall hP (fun r hr => hres r (List.mem_cons_of_mem _ hr)) hf⟩

omit hp in
theorem insertFetched_issues : ∀ {keys : List ObjectKey} {rs : List Memory.GetResult} {t : Hist ν},
    List.Forall₂ (fun key r => ∀ x, r = .ok (some x) → Acquired E n t key x.2 x.1) keys rs →
    Issues (ReadGuard E n R) t (Memory.insertFetched E n keys rs)
  | _, _, _, .nil => trivial
  | key :: _, r :: _, t, .cons hr hrs => by
    refine Conforms.bind (Q := fun _ _ => True) (p := Memory.insertResult E n key r) ?_ ?_
    · unfold Memory.insertResult
      split
      next data m => exact Fills.reads cacheInsert_fills (hr _ rfl).held
      · trivial
    · exact fun t₁ _ hs _ => insertFetched_issues (hrs.imp fun _ _ h x hx => (h x hx).mono hs)

theorem fetchMissing_conforms {toFetch : List ObjectKey} :
    Conforms (ReadGuard E n R) (fun t' rs => List.Forall₂ (fun key r =>
      ∀ x, r = .ok (some x) → Acquired E n t' key x.2 x.1) toFetch rs) t
      (Memory.fetchMissing E n toFetch) := by
  unfold Memory.fetchMissing
  split
  next h =>
    rw [h]
    exact .nil
  · exact storageGetBatch_conforms hp

theorem memoryGetBatch_conforms :
    Conforms (ReadGuard E n R) (fun t' rs => ∀ r ∈ rs, ServesAny E n keys t' r) t
      (Memory.getBatch E n keys) := by
  refine Conforms.issue_bind.mpr ⟨trivial, fun entries => ?_⟩
  refine Conforms.issue_bind.mpr ⟨trivial, fun now => ?_⟩
  obtain ⟨results, expired, toFetch, hsplit⟩ :
    ∃ a b c, Memory.splitCached now keys entries = (a, b, c) := ⟨_, _, _, rfl⟩
  obtain ⟨hres, hsub⟩ := splitCached_spec hsplit
  rw [hsplit]
  generalize ht₀ : (⟨.now, now⟩ :: ⟨.l1 n (.getCacheMany _), entries⟩ :: t : Hist ν) = t₀
  have hcached : ∀ r, some r ∈ results → ServesAny E n keys t₀ r := by
    intro r hr data m hdata
    obtain ⟨key, hkey, hm⟩ := hres r data m hr hdata
    subst ht₀
    refine ⟨key, (List.of_mem_zip hkey).1, ?_, .inl (.of_now hm)⟩
    refine .listed _ _ (List.mem_cons_of_mem _ List.mem_cons_self) ?_
    rw [List.zip_map_left]
    exact List.mem_map.mpr ⟨_, hkey, rfl⟩
  refine (purgeBatch_conforms (fun _ => .error) expired results t₀ hcached).bind
    fun t₁ results hs₁ h₁ => ?_
  refine (fetchMissing_conforms hp).bind fun t₂ fetched hs₂ h₂ => ?_
  refine Conforms.bind (insertFetched_issues h₂) fun t₃ _ hs₃ _ => ?_
  refine mergeFetched_forall .absent (fun r hr => (h₁ r hr).mono (hs₁.trans (hs₂.trans hs₃))) ?_
  intro r hr data m hdata
  obtain ⟨key, hkey, hgot⟩ := Conforms.forall₂_mem_left h₂.flip hr
  exact ⟨key, hsub hkey, ((hgot _ hdata).mono hs₃).served⟩

end Reads

/-! ## 書き込み -/

theorem storedMeta_conforms {b : Bytes} (hq : (ledger t).Quiet) (hst : HasStored t key b) :
    Conforms (Guard E ρ) (fun t' r => ledger t' = ledger t ∧
      ((∀ e, r = .error e → ρ.lenient = true) →
        Provenance E ρ t' key.toStringKey (r.toOption.getD m) b)) t
      (Memory.storedMeta key m).run := by
  obtain ⟨d, hd, rfl, rfl, hs⟩ := hst
  refine Conforms.except_bind (getBlock_conforms _ hq) ?_ ?_
  · rintro t' v - ⟨hl, t₁, rfl, -⟩
    have hd₁ : d ∈ (ledger t₁).draws := by
      rw [show ledger t₁ = ledger t from hl]; exact hd
    refine ⟨hl, fun _ => .inl ⟨d, by rw [hl]; exact hd, hs, rfl, .inl rfl, ?_⟩⟩
    cases v with
    | some m => exact .inl ⟨t₁, List.suffix_refl _, hd₁⟩
    | none => exact .inr (.inl ⟨t₁, List.suffix_refl _, hd₁⟩)
  · rintro t' err - ⟨hl, e, t₁, hs₁, -, hl₁⟩
    refine ⟨hl, fun hlen => .inl ⟨d, by rw [hl]; exact hd, hs, rfl, .inl rfl,
      .inr (.inr ⟨hlen _ rfl, e, t₁, hs₁, ?_⟩)⟩⟩
    rw [hl₁]
    exact hd

section Writes

variable {ds : List (Draw ν)}

theorem refill_conforms {g : BlockMeta → Res ν α} {a : α}
    (h : Wrote E key b ds t (some true))
    (hg : ∀ (t' : Hist ν) stored, Provenance E ρ t' key.toStringKey stored b →
      Conforms (Guard E ρ) (fun t'' r => ledger t'' = ledger t' ∧ ∀ x, r = .ok x → x = a) t'
        (g stored).run) :
    Conforms (Guard E ρ) (fun t' r => Wrote E key b ds t' (r.toOption.map fun _ => true) ∧
      ∀ x, r = .ok x → x = a) t
      (do
        let stored ← Memory.storedMeta key m
        Memory.invalidate n key.toStringKey
        g stored : Res ν α).run := by
  have hout : ∀ (t' : Hist ν) (r : Except KVError α), t <:+ t' → ledger t' = ledger t →
      Wrote E key b ds t' (r.toOption.map fun _ => true) := by
    rintro t' (e | x) hs hl
    · exact (h.extend hs hl).failed
    · exact h.extend hs hl
  refine Conforms.except_bind (storedMeta_conforms h.quiet (h.stored rfl)) ?_ ?_
  · rintro t₁ stored hs₁ ⟨h₁, hp⟩
    refine Conforms.lift_bind (invalidate_conforms.weaken ?_)
    intro t₂ _ hs₂ h₂
    refine (hg t₂ stored ((hp nofun).extend hs₂ h₂)).weaken ?_
    grind
  · rintro t₁ e hs₁ ⟨h₁, -⟩
    exact ⟨hout t₁ (.error e) hs₁ h₁, fun x hx => by cases hx⟩

theorem Plain.liftPure {p : Io ν Unit} {a : α} (h : Plain E ρ t p) :
    Conforms (Guard E ρ) (fun t' (r : Except KVError α) => ledger t' = ledger t ∧
      ∀ x, r = .ok x → x = a) t (do p; pure a : Res ν α).run := by
  refine Conforms.lift_bind (h.weaken ?_)
  intro t' _ _ h
  exact ⟨h, fun x hx => by cases hx; rfl⟩

theorem Plain.liftUnit {p : Io ν Unit} (h : Plain E ρ t p) :
    Conforms (Guard E ρ) (fun t' (r : Except KVError Unit) => ledger t' = ledger t ∧
      ∀ x, r = .ok x → x = ()) t (p : Res ν Unit).run :=
  Conforms.lift_iff.mpr (h.weaken fun _ _ _ h => ⟨h, fun _ _ => rfl⟩)

theorem wrote_succeeded {t' : Hist ν} {r : Except KVError Unit}
    (h : Wrote E key b ds t' (r.toOption.map fun _ => true)) :
      Wrote E key b ds t' (succeeded r) := by
  cases r <;> exact h

theorem wrote_storedBy {t' : Hist ν} {r : Except KVError Bool}
    (h : Wrote E key b ds t' (r.toOption.map fun _ => true) ∧ ∀ x, r = .ok x → x = true) :
    Wrote E key b ds t' (storedBy r) := by
  cases r with
  | error e => exact h.1
  | ok x =>
    obtain rfl := h.2 x rfl
    exact h.1

variable (hn : ρ.node = n) (hq : (ledger t).Quiet) (hd : (ledger t).draws = ds)
include hn hq hd

theorem memoryPut_conforms (hw : ρ.writes key b) :
    Conforms (Guard E ρ) (fun t' r => Wrote E key b ds t' (succeeded r)) t
      (Memory.put E n key b m).run := by
  refine Conforms.except_bind (storagePut_conforms hn hw hq hd) ?_ (fun t' _ _ h => h.wrote)
  intro t₁ _ _ h₁
  exact (refill_conforms h₁.wrote fun t' stored hp =>
    (Fills.plain cacheInsert_fills hn hp).liftUnit).weaken
    fun t' r _ h => wrote_succeeded h.1

theorem memoryPutChunks_conforms {segments : List Bytes} (hw : ρ.writes key segments.flatten) :
    Conforms (Guard E ρ) (fun t' r => Wrote E key segments.flatten ds t' (succeeded r)) t
      (Memory.putChunks E n key segments m).run := by
  refine Conforms.except_bind (storagePutChunks_conforms hn hw hq hd) ?_ (fun t' _ _ h => h.wrote)
  intro t₁ _ _ h₁
  exact (refill_conforms h₁.wrote
    fun t' stored hp => (Fills.plain chunksCacheInsert_fills hn hp).liftUnit).weaken
    fun t' r _ h => wrote_succeeded h.1

theorem memoryPutIfAbsent_conforms (hw : ρ.writes key b) :
    Conforms (Guard E ρ) (fun t' r => Wrote E key b ds t' (storedBy r)) t
      (Memory.putIfAbsent E n key b m).run := by
  refine Conforms.except_bind (storagePutIfAbsent_conforms hn hw hq hd) ?_
    (fun t' _ _ h => h.wrote)
  rintro t₁ (_ | _) - h₁
  · exact h₁.wrote
  · exact (refill_conforms h₁.wrote
      fun t' stored hp => (Fills.plain cacheInsert_fills hn hp).liftPure).weaken
      fun t' r _ h => wrote_storedBy h

theorem memoryPutChunksIfAbsent_conforms {segments : List Bytes}
    (hw : ρ.writes key segments.flatten) :
    Conforms (Guard E ρ) (fun t' r => Wrote E key segments.flatten ds t' (storedBy r)) t
      (Memory.putChunksIfAbsent E n key segments m).run := by
  refine Conforms.except_bind (storagePutChunksIfAbsent_conforms hn hw hq hd) ?_
    (fun t' _ _ h => h.wrote)
  rintro t₁ (_ | _) - h₁
  · exact h₁.wrote
  · exact (refill_conforms h₁.wrote
      fun t' stored hp => (Fills.plain chunksCacheInsert_fills hn hp).liftPure).weaken
      fun t' r _ h => wrote_storedBy h

end Writes

theorem insertWritten_conforms {b : Bytes} {r : Except KVError Unit} (hn : ρ.node = n)
    (hlen : ρ.lenient = true) (hq : (ledger t).Quiet) (hst : r = .ok () → HasStored t key b) :
    Plain E ρ t (Memory.insertWritten E n key b m r) := by
  cases r with
  | error e => rfl
  | ok u =>
    refine Conforms.bind (storedMeta_conforms hq (hst rfl)) ?_
    rintro t₁ r - ⟨h₁, hp⟩
    refine Conforms.bind invalidate_conforms ?_
    intro t₂ _ hs₂ h₂
    refine (Fills.plain cacheInsert_fills hn ((hp fun _ _ => hlen).extend hs₂ h₂)).weaken ?_
    intro t' _ _ h
    exact h.trans (h₂.trans h₁)

theorem insertStored_conforms (hn : ρ.node = n) (hlen : ρ.lenient = true) :
    ∀ (items : List (ObjectKey × Bytes × BlockMeta)) (rs : List (Except KVError Unit))
      (t : Hist ν), (ledger t).Quiet →
      List.Forall₂ (fun it r => r = .ok () → HasStored t it.1 it.2.1) items rs →
      Plain E ρ t (Memory.insertStored E n items rs) := by
  intro items
  induction items with
  | nil => intro rs t _ _; rfl
  | cons it items ih =>
    obtain ⟨key, data, m⟩ := it
    rintro _ t hq (_ | ⟨hr, hrs⟩)
    next r rs =>
      refine Conforms.bind (p := Memory.insertWritten E n key data m r)
        (insertWritten_conforms hn hlen hq hr) ?_
      intro t₁ _ _ h₁
      refine (ih rs t₁ (by rw [h₁]; exact hq) (hrs.imp fun it r h hr => ?_)).weaken
        fun t' _ _ h => h.trans h₁
      unfold HasStored
      rw [h₁]
      exact h hr

theorem memoryPutBatch_conforms {items : List (ObjectKey × Bytes × BlockMeta)} (hn : ρ.node = n)
    (hlen : ρ.lenient = true) (hq : (ledger t).Quiet) (hw : ∀ it ∈ items, ρ.writes it.1 it.2.1) :
    Conforms (Guard E ρ) (fun t' rs => (ledger t').Quiet ∧
      List.Forall₂ (fun it r => r = .ok () → HasStored t' it.1 it.2.1) items rs) t
      (Memory.putBatch E n items) := by
  refine Conforms.bind (storagePutBatch_conforms hn items t _ hw hq rfl) ?_
  rintro t₁ rs - ⟨hq₁, -, hrs⟩
  refine Conforms.bind (insertStored_conforms hn hlen items rs t₁ hq₁ hrs) ?_
  intro t' _ _ h
  refine ⟨by rw [h]; exact hq₁, hrs.imp fun it r hs hr => ?_⟩
  unfold HasStored
  rw [h]
  exact hs hr

end ContextStore
