import ContextStore.Protocol.MemoryTier

/-!
# 規約: node をまたぐ書き込みと読み出し
-/

namespace ContextStore

open Conc

variable {ν : Type} {E : Env ν} {ρ : Role ν} {t : Hist ν} {n : ν} {key : ObjectKey} {m : BlockMeta}
  {α β : Type}

theorem Plain.liftRes {x : Res ν α} (h : Plain E ρ t x.run) : Plain E ρ t (liftRes x).run :=
  Conforms.liftRes_iff.mpr h

theorem Plain.bind {p : Io ν α} {f : α → Io ν β} (h : Plain E ρ t p)
    (hf : ∀ t' a, t <:+ t' → ledger t' = ledger t → Plain E ρ t' (f a)) :
    Plain E ρ t (p >>= f) :=
  Conforms.bind h fun t' a hs hl => (hf t' a hs hl).weaken fun _ _ _ h => h.trans hl

variable {ε : Type}

theorem Plain.exceptBind {x : ExceptT ε (Io ν) α} {f : α → ExceptT ε (Io ν) β}
    (h : Plain E ρ t x.run)
    (hf : ∀ t' a, t <:+ t' → ledger t' = ledger t → Plain E ρ t' (f a).run) :
    Plain E ρ t (x >>= f).run :=
  Conforms.except_bind h (fun t' a hs hl => (hf t' a hs hl).weaken fun _ _ _ h => h.trans hl)
    (fun _ _ _ hl => hl)

theorem Plain.exceptLift {p : Io ν α} (h : Plain E ρ t p) :
    Plain E ρ t (ExceptT.lift p : ExceptT ε (Io ν) α).run :=
  Conforms.lift_iff.mpr h

/-! ## 期限切れ -/

theorem getBlock_plain {s : String} (hq : (ledger t).Quiet) :
    Plain E ρ t (Metadata.getBlock s).run :=
  (getBlock_conforms s hq).weaken fun _ _ _ h => h.1

/-! ## RPC -/

def CallPost (E : Env ν) (node : DataNode) (R : ν → Hist ν → Except Status α → Prop)
    (t' : Hist ν) : Except Status α → Prop
  | .ok a => ∃ dst, E.resolve node.grpcEndpoint = some dst ∧ R dst t' (.ok a)
  | .error _ => ∀ dst, E.resolve node.grpcEndpoint = some dst →
      Faulty t' ∨ ∃ s, R dst t' (.error s)

theorem callNode_conforms {node : DataNode} {what : String} {body : ν → Svc ν α}
    {J : Hist ν → Prop} {R : ν → Hist ν → Except Status α → Prop}
    (hJnet : ∀ t' dst r, J t' → J (⟨.net dst, r⟩ :: t'))
    (hRnet : ∀ dst t' dst' r x, R dst t' x → R dst (⟨.net dst', r⟩ :: t') x) (hJ : J t)
    (hbody : ∀ dst t', E.resolve node.grpcEndpoint = some dst → t <:+ t' → J t' →
      Conforms (Guard E ρ) (fun t'' r => J t'' ∧ R dst t'' r) t' (body dst).run) :
    Conforms (Guard E ρ) (fun t' r => J t' ∧ CallPost E node R t' r) t
      (Service.callNode E node what body).run := by
  have hfault : ∀ (dst : ν) (e : String) (t' : Hist ν), Faulty (⟨.net dst, .error e⟩ :: t') :=
    fun dst e t' => .inr ⟨dst, e, List.mem_cons_self⟩
  unfold Service.callNode
  cases hres : E.resolve node.grpcEndpoint with
  | none => exact ⟨hJ, fun dst h => by rw [hres] at h; cases h⟩
  | some dst =>
    refine Conforms.lift_bind ⟨trivial, ?_⟩
    rintro (e | ⟨⟩)
    · exact ⟨hJnet _ _ _ hJ, fun _ _ => .inl (hfault _ _ _)⟩
    refine Conforms.lift_bind ⟨trivial, ?_⟩
    rintro (e | ⟨⟩)
    · exact ⟨hJnet _ _ _ (hJnet _ _ _ hJ), fun _ _ => .inl (hfault _ _ _)⟩
    refine Conforms.except_bind (Q := fun t' r => ∃ x, r = .ok x ∧ J t' ∧ R dst t' x) ?_ ?_
      (fun t' e _ ⟨_, h, _⟩ => by cases h)
    · refine Conforms.attempt_iff.mpr ((hbody dst _ hres ?_ ?_).weaken fun t' r _ h => ⟨r, rfl, h⟩)
      · exact (List.suffix_cons _ _).trans (List.suffix_cons _ _)
      · exact hJnet _ _ _ (hJnet _ _ _ hJ)
    · rintro t₁ r - ⟨x, hx, hJ₁, hR⟩
      cases hx
      cases r with
      | error s =>
        refine ⟨hJ₁, fun dst' h => .inr ⟨s, ?_⟩⟩
        rw [hres] at h
        cases h
        exact hR
      | ok a =>
        refine Conforms.lift_bind ⟨trivial, ?_⟩
        rintro (e | ⟨⟩)
        · exact ⟨hJnet _ _ _ hJ₁, fun _ _ => .inl (hfault _ _ _)⟩
        · exact ⟨hJnet _ _ _ hJ₁, dst, hres, hRnet _ _ _ _ _ hR⟩

def stripeSlot (E : Env ν) (n : ν) (key : ObjectKey) (i : Nat) : Nat :=
  if (E.cfg n).isLocalNode (Placement.selectDataNode E n key i) then i else u32 i

def StripeHandle (E : Env ν) (n : ν) (k : ObjectKey) (g i : Nat) (dst : ν) (p : String) : Prop :=
  ∃ slot, Placement.localDeviceStripeIndex E dst k (stripeSlot E n k i) = some slot ∧
    p = (E.cfg dst).router.chunkVersionedPath E.ext k (stripeSlot E n k i)
      ((E.cfg dst).router.chunkDevice E.ext k slot) g 1

theorem StripeHandle.unique {k : ObjectKey} {g i : Nat} {dst : ν} {p p' : String}
    (h : StripeHandle E n k g i dst p) (h' : StripeHandle E n k g i dst p') : p = p' := by
  obtain ⟨slot, hs, rfl⟩ := h
  obtain ⟨slot', hs', rfl⟩ := h'
  rw [hs] at hs'
  cases hs'
  rfl

theorem StripeHandle.path {k : ObjectKey} {g i : Nat} {dst : ν} {p : String}
    (h : StripeHandle E n k g i dst p) : ∃ (r : ShardRouter) (dev : Nat),
      p = r.versionedPath E.ext k dev g 1 (.chunk (stripeSlot E n k i)) := by
  obtain ⟨slot, -, rfl⟩ := h
  exact ⟨_, _, rfl⟩

def Leads (E : Env ν) (n : ν) (c : ChunkLocation) (dst : ν) : Prop :=
  (if (E.cfg n).isLocalNode c.node then dst = n else E.resolve c.grpcEndpoint = some dst) ∧
    Storage.ensureManagedPath E dst c.storageHandle = .ok ()

structure LocationOk (E : Env ν) (n : ν) (k : ObjectKey) (g cs : Nat) (i : Nat) (data : Bytes)
    (dst : ν) (c : ChunkLocation) : Prop where
  target : stripeTarget E n k i = some dst
  index : c.stripeIndex = u32 i
  offset : i < 2 ^ 32 → c.offset = i * cs
  names : Names E n c dst
  handle : StripeHandle E n k g i dst c.storageHandle
  length : c.length = data.length
  checksum : c.checksum = Storage.checksumIfEnabled E dst data
  leads : E.WellAdvertised → Leads E n c dst

theorem ensureManagedPath_chunk (hadv : E.WellAdvertised) (dst : ν) (k : ObjectKey)
    (idx slot g l : Nat) :
    Storage.ensureManagedPath E dst ((E.cfg dst).router.chunkVersionedPath E.ext k idx
      ((E.cfg dst).router.chunkDevice E.ext k slot) g l) = .ok () := by
  unfold Storage.ensureManagedPath
  rw [if_pos]
  have hlt : (E.cfg dst).router.chunkDevice E.ext k slot < (E.cfg dst).router.devices.length :=
    Nat.mod_lt _ (E.cfg dst).router.numDevices_pos
  rw [List.any_eq_true]
  refine ⟨_, List.getElem_mem hlt, ?_⟩
  exact ShardRouter.pathStartsWith_versionedPath E.ext _ (hadv.subdir dst)
    (List.getElem?_eq_getElem hlt) k g l (.chunk idx)

theorem leads_local {c : ChunkLocation} (hlocal : (E.cfg n).isLocalNode c.node = true)
    (hm : Storage.ensureManagedPath E n c.storageHandle = .ok ()) : Leads E n c n :=
  ⟨by rw [if_pos hlocal], hm⟩

theorem leads_advertised {c : ChunkLocation} {dst : ν} (hadv : E.WellAdvertised)
    (hc : c.node = (E.cfg dst).localNode)
    (hm : Storage.ensureManagedPath E dst c.storageHandle = .ok ()) : Leads E n c dst := by
  refine ⟨?_, hm⟩
  have hgrpc : c.grpcEndpoint = (E.cfg dst).localNode.grpcEndpoint :=
    congrArg DataNode.grpcEndpoint hc
  split
  next hlocal =>
    rw [hc, NodeConfig.isLocalNode, Bool.or_eq_true, beq_iff_eq, beq_iff_eq] at hlocal
    rcases hlocal with h | h
    · exact hadv.nodeId dst n h
    · have h₁ := hadv.resolve dst
      rw [h, hadv.resolve n] at h₁
      exact (Option.some.inj h₁).symm
  · rw [hgrpc]
    exact hadv.resolve dst

def StripeFile (E : Env ν) (n : ν) (k : ObjectKey) (b : Bytes) (g cs : Nat)
    (f : ν × String × Bytes) : Prop :=
  ∃ i < Storage.divCeil b.length cs, stripeTarget E n k i = some f.1 ∧
    StripeHandle E n k g i f.1 f.2.1 ∧ f.2.2 = Service.stripeOf cs b i

def InHead (ds : List (Draw ν)) (t' : Hist ν) (f : ν × String × Bytes) : Prop :=
  ∃ d, (ledger t').draws = d :: ds ∧ f ∈ d.files

theorem InHead.mono {ds : List (Draw ν)} {d : Draw ν} {new : ν × String × Bytes → Prop}
    {t' t'' : Hist ν} {f : ν × String × Bytes} (h : InHead ds t' f) (hs : t' <:+ t'')
    (hJ : Filled d ds new t'') : InHead ds t'' f := by
  obtain ⟨d₁, hd₁, hf⟩ := h
  obtain ⟨fs, hl, -⟩ := hJ
  have hd₂ : (ledger t'').draws = { d with files := fs } :: ds := by rw [hl]
  exact ⟨_, hd₂, (ledger_suffix_head hs hd₁ hd₂).files hf⟩

section PutChunk

variable {d : Draw ν} {ds : List (Draw ν)} {new : ν × String × Bytes → Prop}

theorem writeFile_filled {dst : ν} {p : String} {data : Bytes} (hidle : d.commit = .idle)
    (hdel : d.deleted = []) (hJ : Filled d ds new t) (hown : d.OwnFile E ρ p data)
    (hnew : new (dst, p, data)) :
    Conforms (Guard E ρ) (fun t' r => Filled d ds new t' ∧
      (r = .ok () → InHead ds t' (dst, p, data))) t (writeFile dst p data) := by
  obtain ⟨fs, hl, hfs⟩ := hJ
  refine ⟨⟨_, ds, hl, hidle, hdel, hown⟩, ?_⟩
  rintro (e | ⟨⟩)
  · exact ⟨⟨fs, hl, hfs⟩, fun h => by cases h⟩
  · have hl' : ledger (⟨.writeFile dst p data, .ok ()⟩ :: t) =
        ⟨none, { d with files := (dst, p, data) :: fs } :: ds⟩ := by
      rw [ledger_writeFile_ok, hl]; rfl
    refine ⟨⟨_, hl', ?_⟩, fun _ => ⟨_, by rw [hl'], List.mem_cons_self⟩⟩
    simp_all

variable {k : ObjectKey}

theorem putLocalChunk_conforms {dst : ν} {node : DataNode} {desc : ObjectDescriptor}
    {idx offset : Nat} {data : Bytes} (hidle : d.commit = .idle) (hdel : d.deleted = [])
    (hJ : Filled d ds new t) (hlay : desc.layoutVersion = 1) (hfile : ∀ slot,
      Placement.localDeviceStripeIndex E dst k idx = some slot → ∀ p, p = (E.cfg
      dst).router.chunkVersionedPath E.ext k idx ((E.cfg dst).router.chunkDevice E.ext k slot)
      desc.objectGeneration 1 → d.OwnFile E ρ p data ∧ new (dst, p, data)) :
    Conforms (Guard E ρ) (fun t' r => Filled d ds new t' ∧ ∀ c, r = .ok c →
      ∃ slot, Placement.localDeviceStripeIndex E dst k idx = some slot ∧
        c = Service.writtenLocation node idx offset data
          ((E.cfg dst).router.chunkDevice E.ext k slot,
            (E.cfg dst).router.chunkVersionedPath E.ext k idx
              ((E.cfg dst).router.chunkDevice E.ext k slot) desc.objectGeneration 1,
            Storage.checksumIfEnabled E dst data) ∧
        InHead ds t' (dst, c.storageHandle, data)) t
      (Service.putLocalChunk E dst node k desc idx offset data).run := by
  unfold Service.putLocalChunk
  split
  · exact ⟨hJ, fun _ h => by cases h⟩
  next slot hslot =>
    unfold Storage.putPlacementChunk
    rw [hlay]
    dsimp only
    have hf := hfile slot hslot _ rfl
    generalize hp : (E.cfg dst).router.chunkVersionedPath E.ext k idx
      ((E.cfg dst).router.chunkDevice E.ext k slot) desc.objectGeneration 1 = p at hf
    refine Conforms.except_bind_iff.mpr (Conforms.liftRes_iff.mpr
      (Conforms.lift_bind
        ((writeFile_filled hidle hdel hJ hf.1 hf.2).weaken ?_)))
    rintro t' (e | ⟨⟩) - ⟨hJ', hin⟩
    · exact ⟨hJ', fun _ h => by cases h⟩
    · refine ⟨hJ', fun c h => ⟨slot, hslot, ?_, ?_⟩⟩
      · cases h
        rw [hp]
      · cases h
        exact hin rfl

theorem u32_u32 (i : Nat) : u32 (u32 i) = u32 i := Nat.mod_mod _ _

theorem stripeSlot_of_fits {b : Bytes} {i : Nat} (hf : ρ.Fits E b)
    (hi : i < Storage.divCeil b.length (ρ.chunkSize E)) : stripeSlot E n k i = i := by
  have hpos : 0 < ρ.chunkSize E := NodeConfig.stripingChunkSize_pos _
  have hle := divCeil_le_of_le_mul hpos hf
  unfold stripeSlot
  split
  · rfl
  · exact u32_of_lt (by omega)

theorem StripeHandle.ownFile {b : Bytes} {g i : Nat} {dst : ν} {p : String}
    (h : StripeHandle E n k g i dst p) (hi : i < Storage.divCeil b.length (ρ.chunkSize E)) :
    (Draw.fresh k b g : Draw ν).OwnFile E ρ p (Service.stripeOf (ρ.chunkSize E) b i) := by
  obtain ⟨r, dev, hp⟩ := h.path
  refine ⟨r, dev, _, hp, fun hf => ?_⟩
  rw [stripeSlot_of_fits hf hi]
  rfl

theorem selectDataNode_mem (k : ObjectKey) (i : Nat) :
    Placement.selectDataNode E n k i ∈ (E.cfg n).configuredDataNodes := by
  have hpos := List.length_pos_iff.mpr (E.cfg n).configuredDataNodes_ne_nil
  have hlt := Nat.mod_lt (Placement.nodeBase E n k + i) hpos
  show (E.cfg n).configuredDataNodes.getD _ _ ∈ _
  simp_all

theorem putChunkOnNode_conforms {b : Bytes} {g i offset size : Nat} {desc : ObjectDescriptor}
    (hoff : offset = i * size) (hsize : size = ρ.chunkSize E) (hgen : desc.objectGeneration = g)
    (hlay : desc.layoutVersion = 1) (hi : i < Storage.divCeil b.length (ρ.chunkSize E))
    (hJ : Filled (Draw.fresh k b g) ds (StripeFile E n k b g (ρ.chunkSize E)) t) :
    Conforms (Guard E ρ) (fun t' r =>
      Filled (Draw.fresh k b g) ds (StripeFile E n k b g (ρ.chunkSize E)) t' ∧
      ∀ c, r = .ok c → ∃ dst,
        LocationOk E n k g (ρ.chunkSize E) i (Service.stripeOf (ρ.chunkSize E) b i) dst c ∧
        InHead ds t' (dst, c.storageHandle, Service.stripeOf (ρ.chunkSize E) b i)) t
      (Service.putChunkOnNode E n (Placement.selectDataNode E n k i) k desc i offset size
        (Service.stripeOf (ρ.chunkSize E) b i)).run := by
  subst hgen hoff hsize
  unfold Service.putChunkOnNode
  split
  next hlocal =>
    have htarget : stripeTarget E n k i = some n := if_pos hlocal
    have hslot : stripeSlot E n k i = i := if_pos hlocal
    refine (putLocalChunk_conforms rfl rfl hJ hlay ?_).weaken ?_
    · intro slot hloc p hp
      have hh : StripeHandle E n k desc.objectGeneration i n p :=
        ⟨slot, by rw [hslot]; exact hloc, by rw [hslot]; exact hp⟩
      exact ⟨hh.ownFile hi, i, hi, htarget, hh, rfl⟩
    · rintro t' r - ⟨hJ', hc⟩
      refine ⟨hJ', fun c hr => ?_⟩
      obtain ⟨slot, hloc, rfl, hin⟩ := hc c hr
      refine ⟨n, ⟨htarget, rfl, fun _ => rfl, .inr ⟨rfl, selectDataNode_mem k i, hlocal⟩,
        ⟨slot, by rw [hslot]; exact hloc, by rw [hslot]; rfl⟩, rfl, rfl, fun hadv => ?_⟩, hin⟩
      exact leads_local hlocal (ensureManagedPath_chunk hadv n k i slot _ 1)
  next hremote =>
    have hslot : stripeSlot E n k i = u32 i := if_neg hremote
    refine (callNode_conforms
      (J := Filled (Draw.fresh k b desc.objectGeneration) ds
        (StripeFile E n k b desc.objectGeneration (ρ.chunkSize E)))
      (R := fun dst t' r => ∀ c, r = .ok c →
        LocationOk E n k desc.objectGeneration (ρ.chunkSize E) i
          (Service.stripeOf (ρ.chunkSize E) b i) dst c ∧
        InHead ds t' (dst, c.storageHandle, Service.stripeOf (ρ.chunkSize E) b i))
      (fun _ _ _ h => h) (fun _ _ _ _ _ h => h) hJ ?_).weaken ?_
    · intro dst t₁ hres _ hJ₁
      have htarget : stripeTarget E n k i = some dst := by
        unfold stripeTarget
        rw [if_neg hremote, hres]
      refine (putLocalChunk_conforms rfl rfl hJ₁ hlay ?_).weaken ?_
      · intro slot hloc p hp
        have hh : StripeHandle E n k desc.objectGeneration i dst p :=
          ⟨slot, by rw [hslot]; exact hloc, by rw [hslot]; exact hp⟩
        exact ⟨hh.ownFile hi, i, hi, htarget, hh, rfl⟩
      · rintro t' r - ⟨hJ', hc⟩
        refine ⟨hJ', fun c hr => ?_⟩
        obtain ⟨slot, hloc, rfl, hin⟩ := hc c hr
        refine ⟨⟨htarget, u32_u32 i, fun hlt => ?_, .inl rfl,
          ⟨slot, by rw [hslot]; exact hloc, by rw [hslot]; rfl⟩, rfl, rfl, fun hadv => ?_⟩, hin⟩
        · show u32 i * ρ.chunkSize E = i * ρ.chunkSize E
          rw [u32_of_lt hlt]
        · exact leads_advertised hadv rfl (ensureManagedPath_chunk hadv dst k (u32 i) slot _ 1)
    · rintro t' (e | c) - ⟨hJ', hpost⟩
      · exact ⟨hJ', fun _ h => by cases h⟩
      · refine ⟨hJ', fun c' h => ?_⟩
        cases h
        obtain ⟨dst, -, hR⟩ := hpost
        exact ⟨dst, hR c rfl⟩

end PutChunk

section Located

variable {k : ObjectKey} {b : Bytes} {g : Nat} {ds : List (Draw ν)}

def Located (E : Env ν) (n : ν) (k : ObjectKey) (b : Bytes) (g cs : Nat) (ds : List (Draw ν))
    (t' : Hist ν) (i : Nat) (c : ChunkLocation) : Prop :=
  ∃ dst, LocationOk E n k g cs i (Service.stripeOf cs b i) dst c ∧
    InHead ds t' (dst, c.storageHandle, Service.stripeOf cs b i)

def AllLocated (E : Env ν) (n : ν) (k : ObjectKey) (b : Bytes) (g cs : Nat) (ds : List (Draw ν))
    (t' : Hist ν) (locs : List ChunkLocation) : Prop :=
  ∃ idx : List Nat, idx.Perm (List.range (Storage.divCeil b.length cs)) ∧
    List.Forall₂ (Located E n k b g cs ds t') idx locs

variable {t' : Hist ν} {c : ChunkLocation} {cs i : Nat}

theorem Located.mono {d : Draw ν} {new : ν × String × Bytes → Prop} {t'' : Hist ν}
    (h : Located E n k b g cs ds t' i c) (hs : t' <:+ t'') (hJ : Filled d ds new t'') :
    Located E n k b g cs ds t'' i c := by
  obtain ⟨dst, hloc, hin⟩ := h
  exact ⟨dst, hloc, hin.mono hs hJ⟩

variable {locs : List ChunkLocation}

theorem AllLocated.sorted (hf : ρ.Fits E b) (h : AllLocated E n k b g (ρ.chunkSize E) ds t' locs) :
    List.Forall₂ (Located E n k b g (ρ.chunkSize E) ds t')
      (List.range (Storage.divCeil b.length (ρ.chunkSize E))) (Service.sortLocations locs) := by
  obtain ⟨idx, hperm, hlocs⟩ := h
  have hpos : 0 < ρ.chunkSize E := NodeConfig.stripingChunkSize_pos _
  have hle := divCeil_le_of_le_mul hpos hf
  have hstripe : List.Forall₂ (fun i c => i = ChunkLocation.stripeIndex c ∧
      Located E n k b g (ρ.chunkSize E) ds t' c.stripeIndex c) idx locs := by
    refine ((List.forall₂_and_left idx locs).mpr ⟨fun i hi => hi, hlocs⟩).imp ?_
    rintro i c ⟨hi, hloc⟩
    obtain ⟨dst, hc, -⟩ := id hloc
    have := List.mem_range.mp (hperm.mem_iff.mp hi)
    have hidx : i = c.stripeIndex := by rw [hc.index, u32_of_lt (by omega)]
    exact ⟨hidx, hidx ▸ hloc⟩
  have hindex : idx = locs.map ChunkLocation.stripeIndex := by
    rw [← List.forall₂_eq_eq_eq, List.forall₂_map_right_iff]
    exact hstripe.imp fun _ _ h => h.1
  have hsorted : (Service.sortLocations locs).map ChunkLocation.stripeIndex =
      List.range (Storage.divCeil b.length (ρ.chunkSize E)) := by
    unfold Service.sortLocations
    rw [List.map_insertionSort (fun a b : ChunkLocation => a.stripeIndex ≤ b.stripeIndex) (· ≤ ·)
      ChunkLocation.stripeIndex locs fun _ _ _ _ => Iff.rfl, ← hindex]
    exact ((List.perm_insertionSort _ _).trans hperm).eq_of_sortedLE List.sortedLE_insertionSort
      (List.sortedLT_range _).sortedLE
  rw [← hsorted, List.forall₂_map_left_iff, List.forall₂_same]
  intro c hc
  obtain ⟨i, -, -, hloc⟩ := Conforms.forall₂_mem_left hstripe.flip
    (List.mem_insertionSort _ |>.mp hc)
  exact hloc

theorem AllLocated.mem (h : AllLocated E n k b g cs ds t' locs)
    (hc : c ∈ Service.sortLocations locs) :
    ∃ i < Storage.divCeil b.length cs, Located E n k b g cs ds t' i c := by
  obtain ⟨idx, hperm, hlocs⟩ := h
  obtain ⟨i, hi, hloc⟩ := Conforms.forall₂_mem_left hlocs.flip ((List.mem_insertionSort _).mp hc)
  exact ⟨i, List.mem_range.mp (hperm.mem_iff.mp hi), hloc⟩

theorem AllLocated.of_file (h : AllLocated E n k b g cs ds t' locs) {f : ν × String × Bytes}
    (hf : StripeFile E n k b g cs f) : ∃ c ∈ locs, c.storageHandle = f.2.1 ∧
      ∃ i data, LocationOk E n k g cs i data f.1 c := by
  obtain ⟨idx, hperm, hlocs⟩ := h
  obtain ⟨i, hi, htarget, hhandle, -⟩ := hf
  obtain ⟨c, hc, dst, hloc, -⟩ := Conforms.forall₂_mem_left hlocs
    (hperm.mem_iff.mpr (List.mem_range.mpr hi))
  rw [hloc.target] at htarget
  cases htarget
  exact ⟨c, hc, hloc.handle.unique hhandle, i, _, hloc⟩

theorem AllLocated.get (hf : ρ.Fits E b) (h : AllLocated E n k b g (ρ.chunkSize E) ds t' locs)
    (hc : (Service.sortLocations locs)[i]? = some c) :
    i < Storage.divCeil b.length (ρ.chunkSize E) ∧ i < 2 ^ 32 ∧
      Located E n k b g (ρ.chunkSize E) ds t' i c := by
  have hsorted := h.sorted hf
  have hlen := hsorted.length_eq
  rw [List.length_range] at hlen
  obtain ⟨hi, rfl⟩ := List.getElem?_eq_some_iff.mp hc
  have hi' : i < Storage.divCeil b.length (ρ.chunkSize E) := by rw [hlen]; exact hi
  have hloc := (List.forall₂_iff_get.mp hsorted).2 i (by rw [List.length_range]; exact hi') hi
  rw [List.get_eq_getElem, List.getElem_range] at hloc
  have hpos : 0 < ρ.chunkSize E := NodeConfig.stripingChunkSize_pos _
  have hle := divCeil_le_of_le_mul hpos hf
  exact ⟨hi', by omega, hloc⟩

theorem Located.file {n' : ν} {data : Bytes} (hf : ρ.Fits E b)
    (hi : i < Storage.divCeil b.length (ρ.chunkSize E))
    (h : Located E n k b g (ρ.chunkSize E) ds t' i c)
    (hfile : StripeFile E n k b g (ρ.chunkSize E) (n', c.storageHandle, data)) :
    data = Service.stripeOf (ρ.chunkSize E) b i ∧
      LocationOk E n k g (ρ.chunkSize E) i (Service.stripeOf (ρ.chunkSize E) b i) n' c := by
  obtain ⟨dst, hloc, -⟩ := h
  obtain ⟨j, hj, htarget, hhandle, hdata⟩ := hfile
  obtain ⟨r, dev, hp₁⟩ := hloc.handle.path
  obtain ⟨r', dev', hp₂⟩ := hhandle.path
  rw [stripeSlot_of_fits hf hi] at hp₁
  rw [stripeSlot_of_fits hf hj] at hp₂
  obtain ⟨-, -, -, hkind⟩ := ShardRouter.versionedPath_inj E.ext (hp₁.symm.trans hp₂)
  cases hkind
  rw [hloc.target] at htarget
  cases htarget
  exact ⟨hdata, hloc⟩

theorem Located.owns {d : Draw ν} (h : Located E n k b g cs ds t' i c) (hk : d.key = k)
    (hg : d.gen = g) :
    d.Owns E c.storageHandle := by
  obtain ⟨dst, hc, -⟩ := h
  obtain ⟨r, dev, hp⟩ := hc.handle.path
  exact ⟨r, dev, _, by rw [hk, hg]; exact hp⟩

theorem laid_distributed {fs : List (ν × String × Bytes)} {locs : List ChunkLocation}
    {t' : Hist ν} {total : Nat} {s : StripingInfo} (hn : ρ.node = n) (htotal : total = b.length)
    (hdist : Placement.distributedPlacementEnabled E n b.length = true)
    (hsums : (E.cfg n).verifyStripeChecksums = true → ρ.streams = true ∨
      ∀ c ∈ Service.sortLocations locs, c.checksum ≠ "")
    (hfs : ∀ f ∈ fs, StripeFile E n k b g (ρ.chunkSize E) f)
    (h : AllLocated E n k b g (ρ.chunkSize E) ds t' locs)
    (hs : (Service.distributedMeta m (ρ.chunkSize E) total (Service.sortLocations locs)).striping =
      some s) :
    Laid E ρ { Draw.fresh k b g with files := fs }
      (Service.distributedMeta m (ρ.chunkSize E) total (Service.sortLocations locs)) s := by
  have hpos : 0 < ρ.chunkSize E := NodeConfig.stripingChunkSize_pos _
  have hlen : (Service.sortLocations locs).length =
      Storage.divCeil b.length (ρ.chunkSize E) := by
    obtain ⟨idx, hperm, hlocs⟩ := id h
    rw [← List.length_range (n := Storage.divCeil b.length (ρ.chunkSize E)), ← hperm.length_eq,
      hlocs.length_eq]
    exact List.length_insertionSort _ _
  have hne : Service.sortLocations locs ≠ [] := by
    intro hnil
    rw [hnil, List.length_nil] at hlen
    have := le_divCeil_mul b.length hpos
    rw [← hlen, Nat.zero_mul] at this
    unfold Placement.distributedPlacementEnabled at hdist
    have := of_decide_eq_true hdist
    omega
  obtain rfl := Option.some.inj hs
  have hcount : ((Service.sortLocations locs).map ChunkLocation.storageHandle).length =
      Storage.divCeil total (ρ.chunkSize E) := by
    rw [List.length_map, hlen, htotal]
  refine ⟨fun hfit => ?_, fun hfit => ?_, fun _ => hn ▸ hdist, ?_, ?_⟩
  · refine .of_stripes (b := b) hpos ?_ htotal htotal hcount (.inr ?_) ?_
    · rw [List.length_map, List.length_map]
    · rw [List.length_map]
    · intro i c hc
      obtain ⟨-, hlt, dst, hloc, -⟩ := h.get (hfit hne) hc
      exact ⟨hloc.index.trans (u32_of_lt hlt), hloc.offset hlt, hloc.length⟩
  · intro i p n' data hp hmem
    obtain ⟨c, hc, rfl⟩ := Option.map_eq_some_iff.mp ((List.getElem?_map ..).symm.trans hp)
    obtain ⟨hi, -, hloc⟩ := h.get (hfit hne) hc
    obtain ⟨rfl, -⟩ := hloc.file (hfit hne) hi (hfs _ hmem)
    refine Eq.symm (StripingInfo.stripeLength_eq (b := b) hpos htotal hcount ?_)
    grind
  · intro hfit c hc n' data hmem
    obtain ⟨i, hi, hloc⟩ := h.mem hc
    obtain ⟨-, hloc'⟩ := hloc.file hfit hi (hfs _ hmem)
    exact hn ▸ hloc'.names
  · intro hver
    rw [hn] at hver
    refine ⟨by rw [List.length_map, List.length_map], fun x hx hempty => ?_⟩
    obtain ⟨c, hc, rfl⟩ := List.mem_map.mp hx
    refine ⟨(hsums hver).resolve_right fun hall => hall c hc hempty, hne, ?_⟩
    obtain ⟨i, hi, dst, hloc, -⟩ := h.mem hc
    refine ⟨i, hi, dst, hn ▸ hloc.target, ?_⟩
    rw [hloc.checksum, Storage.checksumIfEnabled] at hempty
    split at hempty
    · exact absurd hempty (hex16_ne_empty _)
    next hoff => exact Bool.eq_false_iff.mpr hoff

theorem describes_distributed {fs : List (ν × String × Bytes)} {locs : List ChunkLocation}
    {t' : Hist ν} {total : Nat} (hn : ρ.node = n) (hgen : m.objectGeneration = g)
    (htotal : total = b.length)
    (hdist : Placement.distributedPlacementEnabled E n b.length = true)
    (hsums : (E.cfg n).verifyStripeChecksums = true → ρ.streams = true ∨
      ∀ c ∈ Service.sortLocations locs, c.checksum ≠ "")
    (hl : ledger t' = ⟨none, { Draw.fresh k b g with files := fs } :: ds⟩)
    (hfs : ∀ f ∈ fs, StripeFile E n k b g (ρ.chunkSize E) f)
    (h : AllLocated E n k b g (ρ.chunkSize E) ds t' locs) :
    Describes E ρ { Draw.fresh k b g with files := fs }
      (Service.distributedMeta m (ρ.chunkSize E) total (Service.sortLocations locs)) := by
  have hin : ∀ f, InHead ds t' f → f ∈ fs := by
    rintro f ⟨d, hd, hf⟩
    rw [hl] at hd
    obtain ⟨rfl, -⟩ := List.cons.inj hd
    exact hf
  have hcover : ∀ f ∈ fs, ∃ c ∈ Service.sortLocations locs, c.storageHandle = f.2.1 := by
    intro f hf
    obtain ⟨c, hc, hp, -⟩ := h.of_file (hfs f hf)
    exact ⟨c, (List.mem_insertionSort _).mpr hc, hp⟩
  refine ⟨hgen, ?_, ?_, ?_, fun s hs => laid_distributed hn htotal hdist hsums hfs h hs,
    fun (hf : ρ.Fits E b) => ⟨htotal, ?_⟩⟩
  · intro p hp
    have hc : ∃ c ∈ Service.sortLocations locs, c.storageHandle = p :=
      ((BlockMeta.mem_files_striped rfl).mp hp).elim (fun h => List.mem_map.mp h) id
    obtain ⟨c, hc, rfl⟩ := hc
    obtain ⟨i, -, hloc⟩ := h.mem hc
    refine ⟨hloc.owns rfl rfl, ?_⟩
    obtain ⟨dst, -, hin'⟩ := hloc
    exact ⟨dst, _, hin _ hin'⟩
  · intro f hf
    exact (BlockMeta.mem_files_striped rfl).mpr (.inr (hcover f hf))
  ·
    intro hnil f hf
    obtain ⟨c, hc, -⟩ := hcover f hf
    rw [show Service.sortLocations locs = [] from hnil _ rfl] at hc
    cases hc
  · have hlen := (h.sorted hf).length_eq
    rw [List.length_range] at hlen
    refine ⟨rfl, htotal, ?_, ?_, .inr ⟨rfl, ?_⟩, ?_⟩
    · exact (List.length_map _).trans hlen.symm
    · intro i p hp
      obtain ⟨c, hc, rfl⟩ := Option.map_eq_some_iff.mp ((List.getElem?_map ..).symm.trans hp)
      obtain ⟨hi, -, dst, hloc, -⟩ := h.get hf hc
      obtain ⟨r, dev, hp'⟩ := hloc.handle.path
      rw [stripeSlot_of_fits hf hi] at hp'
      exact ⟨r, dev, hp'⟩
    · show (Service.sortLocations locs).map ChunkLocation.stripeIndex =
        List.range ((Service.sortLocations locs).map ChunkLocation.storageHandle).length
      rw [List.length_map]
      refine List.ext_getElem? fun i => ?_
      rw [List.getElem?_map]
      cases hc : (Service.sortLocations locs)[i]? with
      | none =>
        have := List.getElem?_eq_none_iff.mp hc
        rw [List.getElem?_eq_none (by rw [List.length_range]; exact this)]
        rfl
      | some c =>
        obtain ⟨hi, hlt, dst, hloc, -⟩ := h.get hf hc
        rw [List.getElem?_range (by omega), Option.map_some, hloc.index, u32_of_lt hlt]
    · intro i p n' data hp hmem hver
      obtain ⟨c, hc, rfl⟩ := Option.map_eq_some_iff.mp ((List.getElem?_map ..).symm.trans hp)
      obtain ⟨hi, -, hloc⟩ := h.get hf hc
      obtain ⟨rfl, hloc'⟩ := hloc.file hf hi (hfs _ hmem)
      refine (List.getElem?_map ..).trans ?_
      rw [hc, Option.map_some, hloc'.checksum, Storage.checksumIfEnabled, if_pos hver]

theorem AllLocated.leads (h : AllLocated E n k b g cs ds t' locs) (hadv : E.WellAdvertised)
    {f : ν × String × Bytes} (hf : StripeFile E n k b g cs f) :
    ∃ c ∈ locs, c.storageHandle = f.2.1 ∧ Leads E n c f.1 := by
  grind [of_file, LocationOk.leads]

end Located

section Rollback

variable {d : Draw ν} {ds : List (Draw ν)}

theorem deletePlacementChunk_conforms {p : String} {dst : ν} (hl : ledger t = ⟨none, d :: ds⟩)
    (hroll : d.MayRollback) (hown : d.Owns E p) :
    Conforms (Guard E ρ) (fun t' _ => RolledBack d ds
      (fun f => f = (dst, p) ∧ Storage.ensureManagedPath E dst p = .ok ()) t') t
      (liftRes (Storage.deletePlacementChunk E dst p)).run := by
  refine Conforms.liftRes_iff.mpr ?_
  unfold Storage.deletePlacementChunk
  refine Conforms.except_bind_iff.mpr (Conforms.ofExcept_iff.mpr ?_)
  cases hm : Storage.ensureManagedPath E dst p with
  | error e =>
    exact ⟨d.deleted, hl, fun _ h => h, fun f hf => by cases hf.2⟩
  | ok u =>
    refine Conforms.lift_bind ⟨trivial, fun existed => ?_⟩
    refine Conforms.lift_bind
      ((deleteFile_conforms (t := ⟨.fileExists dst p, existed⟩ :: t) hl hroll hown).weaken ?_)
    rintro t' (e | ⟨⟩) - h <;> exact h.weaken fun f hf => hf.1

theorem RolledBack.refl (hl : ledger t = ⟨none, d :: ds⟩) : RolledBack d ds (fun _ => False) t :=
  ⟨d.deleted, hl, fun _ h => h, fun _ hf => hf.elim⟩

theorem RolledBack.of_faulty {X Y : ν × String → Prop} (h : RolledBack d ds X t)
    (hf : Faulty t) : RolledBack d ds Y t := by
  obtain ⟨del, hl, hsub, -⟩ := h
  exact ⟨del, hl, hsub, fun _ _ => .inr hf⟩

theorem RolledBack.net {X : ν × String → Prop} {dst : ν} {r : Except String Unit}
    (h : RolledBack d ds X t) : RolledBack d ds X (⟨.net dst, r⟩ :: t) := by
  obtain ⟨del, hl, hsub, hX⟩ := h
  exact ⟨del, hl, hsub, fun f hf => (hX f hf).imp_right fun h => h.mono (List.suffix_cons _ _)⟩

theorem deleteChunkFromPlacement_conforms {c : ChunkLocation} (hl : ledger t = ⟨none, d :: ds⟩)
    (hroll : d.MayRollback) (hown : d.Owns E c.storageHandle) :
    Conforms (Guard E ρ) (fun t' _ => RolledBack d ds
      (fun f => f.2 = c.storageHandle ∧ Leads E n c f.1) t') t
      (Service.deleteChunkFromPlacement E n c).run := by
  unfold Service.deleteChunkFromPlacement
  split
  next hlocal =>
    have hstep : Conforms (Guard E ρ) (fun t' _ => RolledBack d ds
        (fun f => f.2 = c.storageHandle ∧ Leads E n c f.1) t') t
        (liftRes (Storage.deletePlacementChunk E n c.storageHandle)).run := by
      refine (deletePlacementChunk_conforms hl hroll hown).weaken fun t' _ _ h => h.weaken ?_
      simp_all [Leads.eq_1]
    exact Conforms.except_bind hstep (fun _ _ _ h => h) (fun _ _ _ h => h)
  next hremote =>
    let deleted : ν → Hist ν → Except Status Bool → Prop := fun dst t' _ =>
      RolledBack d ds (fun f => f = (dst, c.storageHandle) ∧
        Storage.ensureManagedPath E dst c.storageHandle = .ok ()) t'
    have hcall : Conforms (Guard E ρ) (fun t' r => RolledBack d ds (fun _ => False) t' ∧
        CallPost E c.node deleted t' r) t (Service.callNode E c.node "delete chunk from "
          fun dst => Service.deletePlacementChunkRpc E dst c).run := by
      refine callNode_conforms (fun _ _ _ h => h.net) (fun _ _ _ _ _ h => h.net)
        (RolledBack.refl hl) ?_
      rintro dst t₁ hres - ⟨del, hl₁, hsub, -⟩
      refine (deletePlacementChunk_conforms hl₁ hroll hown).weaken ?_
      intro t₂ _ hs h
      have h₂ := h.trans (X := fun _ => False) hsub (fun _ hf => hf.elim) hs
      exact ⟨h₂.weaken fun _ hf => hf.elim, h₂.weaken fun _ hf => .inr hf⟩
    have hlead : Conforms (Guard E ρ) (fun t' _ => RolledBack d ds
        (fun f => f.2 = c.storageHandle ∧ Leads E n c f.1) t') t (Service.callNode E c.node
          "delete chunk from " fun dst => Service.deletePlacementChunkRpc E dst c).run := by
      refine hcall.weaken ?_
      have key : ∀ dst t', E.resolve c.node.grpcEndpoint = some dst →
          RolledBack d ds (fun f => f = (dst, c.storageHandle) ∧
            Storage.ensureManagedPath E dst c.storageHandle = .ok ()) t' →
          RolledBack d ds (fun f => f.2 = c.storageHandle ∧ Leads E n c f.1) t' := by
        intro dst t' hres h
        refine h.weaken ?_
        rintro ⟨n', p⟩ ⟨rfl, hlead⟩
        rw [Leads, if_neg hremote] at hlead
        obtain ⟨hres', hm⟩ := hlead
        obtain rfl : dst = n' := Option.some.inj (hres.symm.trans hres')
        exact ⟨rfl, hm⟩
      rintro t' (e | a) - ⟨hJ, hpost⟩
      · cases hres : E.resolve c.node.grpcEndpoint with
        | none =>
          refine hJ.weaken ?_
          rintro f ⟨-, hlead⟩
          rw [Leads, if_neg hremote] at hlead
          exact absurd (hres.symm.trans hlead.1) (fun h => by cases h)
        | some dst =>
          rcases hpost dst hres with hf | ⟨_, h⟩
          · exact hJ.of_faulty hf
          · exact key dst t' hres h
      · obtain ⟨dst, hres, h⟩ := hpost
        exact key dst t' hres h
    exact Conforms.except_bind hlead (fun _ _ _ h => h) (fun _ _ _ h => h)

theorem rollbackChunks_conforms : ∀ (locs : List ChunkLocation) (t : Hist ν) (d : Draw ν),
    ledger t = ⟨none, d :: ds⟩ → d.MayRollback → (∀ c ∈ locs, d.Owns E c.storageHandle) →
    Conforms (Guard E ρ) (fun t' _ => RolledBack d ds
      (fun f => ∃ c ∈ locs, f.2 = c.storageHandle ∧ Leads E n c f.1) t') t
      (Service.rollbackChunks E n locs) := by
  intro locs
  induction locs with
  | nil =>
    intro t d hl _ _
    exact (RolledBack.refl hl).weaken fun f ⟨c, hc, _⟩ => by cases hc
  | cons c cs ih =>
    intro t d hl hroll hown
    refine Conforms.bind (deleteChunkFromPlacement_conforms hl hroll
      (hown c List.mem_cons_self)) ?_
    rintro t₁ _ - ⟨del, hl₁, hsub, hdel⟩
    refine (ih t₁ _ hl₁ hroll fun c' hc' => hown c' (List.mem_cons_of_mem _ hc')).weaken ?_
    intro t' _ hs h
    refine (h.trans hsub hdel hs).weaken ?_
    simp

end Rollback

theorem joinResults_conforms {ι : Type} {J : Hist ν → Prop}
    {P : ι → Hist ν → Except Status α → Prop} {f : ι → Svc ν α} {xs : List ι}
    (hpick : ∀ t bound r, J t → J (⟨.pick bound, r⟩ :: t))
    (hP : ∀ x t t' a, t <:+ t' → J t → J t' → P x t a → P x t' a) (hJ : J t)
    (hf : ∀ x ∈ xs, ∀ t, J t → Conforms (Guard E ρ) (fun t' a => J t' ∧ P x t' a) t (f x).run) :
    Conforms (Guard E ρ) (fun t' r => ∃ rs, r = .ok rs ∧ J t' ∧
      List.Forall₂ (fun x a => P x t' a) xs rs) t (Service.joinResults (xs.map f)).run := by
  unfold Service.joinResults
  rw [List.map_map]
  refine Conforms.lift_iff.mpr ((Conforms.joinAll (J := J) (P := P) ?_ hP hJ hf).weaken ?_)
  · intro t' bound h
    exact pickNext_conforms (fun r => hpick _ _ r) h
  · intro t' rs _ h
    exact ⟨rs, rfl, h⟩

theorem allOk_ok : ∀ {rs : List (Except Status α)} {as : List α}, Service.allOk rs = .ok as →
    rs = as.map .ok
  | [], as, h => by cases h; rfl
  | .error e :: rs, as, h => by cases h
  | .ok a :: rs, as, h => by
    unfold Service.allOk at h
    cases hrest : Service.allOk rs with
    | error e => rw [hrest] at h; cases h
    | ok as' =>
      rw [hrest] at h
      cases h
      rw [allOk_ok hrest, List.map_cons]

section Commit

variable {k : ObjectKey} {b : Bytes} {g : Nat} {ds : List (Draw ν)} {fs : List (ν × String × Bytes)}
  {locs : List ChunkLocation}

theorem commitMeta_conforms {d : Draw ν} {nb : Int} {ifAbsent : Bool}
    (hl : ledger t = ⟨none, d :: ds⟩) (hidle : d.commit = .idle) (hdel : d.deleted = [])
    (hdesc : Describes E ρ d m) :
    Conforms (Guard E ρ) (fun t' r => Committed d ds t' r ∧ (ifAbsent = false → r ≠ .ok false)) t
      (Service.commitMeta d.key m nb ifAbsent).run := by
  unfold Service.commitMeta
  cases ifAbsent with
  | true =>
    simp_all [putBlockIfAbsent_conforms]
  | false =>
    exact Conforms.except_bind (replaceBlock_conforms hl hidle hdel hdesc)
      (fun t' v _ h => ⟨h, fun _ hf => by cases hf⟩)
      (fun t' e _ h => ⟨h, fun _ hf => by cases hf⟩)

theorem AllLocated.rollback {ε : Type} {cs : Nat} {t' : Hist ν} {r : Except ε Bool}
    {d : Draw ν} (hd : d = { Draw.fresh k b g with files := fs })
    (h : AllLocated E n k b g cs ds t locs) (hfs : ∀ f ∈ fs, StripeFile E n k b g cs f)
    (hc : Committed d ds t' r) (hr : storedBy r ≠ some true) :
    Conforms (Guard E ρ) (fun t'' _ => Written E k b ds t'' (storedBy r)) t'
      (Service.rollbackChunks E n (Service.sortLocations locs)) := by
  obtain ⟨d', hl', hroll, hk, hb, hg, hf⟩ := hc.mayRollback hr
  rw [hd] at hk hb hg hf
  refine (rollbackChunks_conforms _ t' d' hl' hroll ?_).weaken ?_
  · intro c hc
    obtain ⟨i, -, hloc⟩ := h.mem hc
    exact hloc.owns hk hg
  · intro t'' _ _ hrolled
    have hw : Written E d'.key d'.data ds t'' (storedBy r) := by
      refine hrolled.written hroll hr ?_
      intro _ hadv f hmem
      rw [hf] at hmem
      obtain ⟨c, hc, hp, hlead⟩ := h.leads hadv (hfs f hmem)
      exact ⟨c, (List.mem_insertionSort _).mpr hc, hp.symm, hlead⟩
    rw [hk, hb] at hw
    exact hw

end Commit

end ContextStore
