import ContextStore.Rdma.Arrival

/-!
# 散らした GET の WRITE の行き先

tag-15 の GET の WRITE が、求められた segment の中に、その segment に当たる byte を運ぶか。
-/

namespace ContextStore.Serve

open Conc Wire Storage

def Lands (segments : List Segment) (m : BlockMeta) (t : History) (w : Write) : Prop :=
  ∃ offset, Assigns segments offset w.len.toNat w.dst w.rkey ∧
    ∀ j < w.len.toNat, Carries m t w.source j (offset + j)

variable {m : BlockMeta} {t t' : History}

variable {w : Write}

theorem Lands.segment {segments : List Segment} (h : Lands segments m t w) :
    ∃ seg ∈ segments, w.rkey = seg.2.1 ∧ w.len.toNat ≤ seg.2.2.toNat := by
  obtain ⟨offset, ⟨before, seg, after, inner, rfl, hrkey, -, hle, -⟩, -⟩ := h
  exact ⟨seg, by simp, hrkey, by omega⟩

/-! ## 条件 -/

structure Flat (req : DescriptorGetReqMsg) (m : BlockMeta) (t : History) : Prop where
  first : ∃ seg rest, req.dstSegments = seg :: rest ∧ seg.1 = req.dstAddr ∧
    seg.2.1 = req.dstRkey ∧ m.size ≤ seg.2.2.toNat
  laid : ∀ s, m.striping = some s → WellLaid m s
  cached : ∀ len, (⟨.cacheLookup, some len⟩ : Issued) ∈ t → len = m.size
  read : ∀ l read, (⟨.readChunks l, some read⟩ : Issued) ∈ t → AsRecorded m l read

def Mapped (req : DescriptorGetReqMsg) (t : History) : Prop :=
  req.stripes ≠ [] ∧ ∀ size, (⟨.alloc size, false⟩ : Issued) ∉ t

def Contained (req : DescriptorGetReqMsg) (m : BlockMeta) (t : History) : Prop :=
  cover req.dstSegments < 2 ^ 64 ∧ (Mapped req t ∨ Flat req m t)

variable {req : DescriptorGetReqMsg}

/-- `u64` の欄は回らない。 -/
def Bounded (m : BlockMeta) : Prop :=
  m.size < 2 ^ 64 ∧ ∀ s, m.striping = some s → s.totalSize < 2 ^ 64

theorem toNat_ofNat32_le (n : ℕ) : (UInt32.ofNat n).toNat ≤ n := by
  rw [UInt32.toNat_ofNat']
  exact Nat.mod_le _ _

variable {plan : List Piece} {c : Completions}

theorem lands_target {total lo hi : ℕ} (hplan : Planned (chunkSizeOf m) total lo hi plan)
    (htotal : total < 2 ^ 64) (hcover : cover req.dstSegments < 2 ^ 64)
    (hstream : (⟨.stream plan, c⟩ : Issued) ∈ t) {p : Piece}
    (hread : Delivered plan c.events p (some p.length)) {ts before after : List Segment}
    {dst : UInt64} {rkey : UInt32} {n : UInt64} (hts : mapRangeToSegments req.dstSegments
      (UInt64.ofNat p.object) (UInt64.ofNat p.length) = some ts)
    (hsplit : ts = before ++ (dst, rkey, n) :: after) :
    Lands req.dstSegments m t
      ⟨.staging (p.source + cover before), dst, rkey, UInt32.ofNat n.toNat, true⟩ := by
  have hbound := hplan.bound p hread.mem
  have hfollows := mapRangeToSegments_follows hcover hts
  have hlen : cover ts = p.length := by
    have := cover_mapRange hts
    rwa [UInt64.toNat_ofNat_of_lt' (show _ < 2 ^ 64 by omega)] at this
  rw [UInt64.toNat_ofNat_of_lt' (show _ < 2 ^ 64 by omega), hsplit] at hfollows
  rw [hsplit, cover_append, cover_cons] at hlen
  dsimp only at hlen
  have hle := toNat_ofNat32_le n.toNat
  refine ⟨p.object + cover before, hfollows.assigns.shorten hle, fun j hj => ?_⟩
  have hj : j < (UInt32.ofNat n.toNat).toNat := hj
  refine ⟨plan, c, hstream, ?_⟩
  have := staged_piece hplan hread (k := cover before + j) (by omega)
  rwa [← Nat.add_assoc, ← Nat.add_assoc] at this

section Flats

variable {req : DescriptorGetReqMsg} {m : BlockMeta} {t : History}

theorem Flat.assigns (h : Flat req m t) {offset len : ℕ} (hle : offset + len ≤ m.size) :
    Assigns req.dstSegments offset len (req.dstAddr + UInt64.ofNat offset) req.dstRkey := by
  obtain ⟨seg, rest, hseg, haddr, hrkey, hsize⟩ := h.first
  exact ⟨[], seg, rest, offset, hseg, hrkey.symm, by rw [haddr], by omega, by simp⟩

theorem Flat.lands (h : Flat req m t) {source : Source} {offset len : ℕ} {signaled : Bool}
    (hle : offset + len ≤ m.size) (hcarry : ∀ j < len, Carries m t source j (offset + j)) :
    Lands req.dstSegments m t ⟨source, req.dstAddr + UInt64.ofNat offset, req.dstRkey,
      UInt32.ofNat len, signaled⟩ := by
  have hlen := toNat_ofNat32_le len
  exact ⟨offset, (h.assigns hle).shorten hlen, fun j hj => hcarry j (lt_of_lt_of_le hj hlen)⟩

theorem Flat.chunk (h : Flat req m t) {s : StripingInfo} (hs : m.striping = some s) {i : ℕ}
    (hi : i < s.chunkPaths.length) (signaled : Bool) :
    Lands req.dstSegments m t ⟨.chunk i, req.dstAddr + UInt64.ofNat (i * s.chunkSize),
      req.dstRkey, UInt32.ofNat (stripeLen s i), signaled⟩ := by
  have hlaid := h.laid s hs
  have hlt := mul_lt_of_lt_divCeil hlaid.positive (hlaid.count ▸ hi)
  refine h.lands ?_ fun j _ => ?_
  · rw [hlaid.size]
    unfold stripeLen
    omega
  · rw [← chunkSizeOf_striped hs]
    rfl

end Flats

/-! ## まとめ -/

theorem mem_writesOf {ts : List Segment} {src : ℕ} (h : w ∈ writesOf ts src) :
    ∃ before dst rkey n after, ts = before ++ (dst, rkey, n) :: after ∧
      w = ⟨.staging (src + cover before), dst, rkey, UInt32.ofNat n.toNat, true⟩ := by
  induction ts generalizing src with
  | nil => cases h
  | cons seg ts ih =>
    rcases List.mem_cons.mp h with rfl | h
    · exact ⟨[], seg.1, seg.2.1, seg.2.2, ts, rfl, rfl⟩
    · obtain ⟨before, dst, rkey, n, after, rfl, rfl⟩ := ih h
      refine ⟨seg :: before, dst, rkey, n, after, rfl, ?_⟩
      rw [cover_cons, ← Nat.add_assoc]

theorem Meant.lands {C : Config} {req : DescriptorGetReqMsg} {m : BlockMeta} {t : History}
    (h : Meant C req m t w) (hb : Bounded m) (hne : req.dstSegments ≠ [])
    (hc : Contained req m t) : Lands req.dstSegments m t w := by
  have hflat : req.stripes = [] → Flat req m t := fun h => hc.2.resolve_left fun hm => hm.1 h
  cases h with
  | @slab len hwhole hlen hw =>
    obtain ⟨k, hk, rfl⟩ := List.mem_map.mp hw
    have hsize := (hflat hwhole).cached len hlen
    have hlt := mul_lt_of_lt_divCeil (by decide : 0 < maxWriteBytes) (List.mem_range.mp hk)
    exact (hflat hwhole).lands (by omega) fun j _ => by show _ = _; omega
  | staged hwhole hplan hstream hread hw =>
    subst hw
    obtain ⟨⟨hi, hplanned⟩, -⟩ := planned_streamPlan (hflat hwhole).laid hplan
    exact (hflat hwhole).lands (hplanned.bound _ hread.mem) (carries_piece hplanned hstream hread)
  | segment hwhole hread hw =>
    obtain ⟨x, hx, signaled, rfl⟩ := mem_registered hw
    rw [segments_congr ((hflat hwhole).read _ _ hread)] at hx
    cases hs : m.striping with
    | none =>
      rw [segments, hs, fileLen, hs] at hx
      cases List.mem_singleton.mp hx
      exact (hflat hwhole).lands (Nat.zero_add m.size).le fun j _ => Nat.zero_add j
    | some s =>
      rw [laidOut_segments hs ((hflat hwhole).laid s hs)] at hx
      obtain ⟨i, hi, rfl⟩ := List.mem_map.mp hx
      exact (hflat hwhole).chunk hs (List.mem_range.mp hi) signaled
  | piece hs hplan hstream hread hw =>
    obtain ⟨hi, -, hplanned⟩ := planned_subsetPlan C.streamChunk_pos hplan
    rw [← chunkSizeOf_striped hs] at hplanned
    rw [pieceWrites, targets_scatter hne] at hw
    cases hts : mapRangeToSegments req.dstSegments _ _ with
    | none =>
      rw [hts] at hw
      cases hw
    | some ts =>
      rw [hts] at hw
      obtain ⟨before, dst, rkey, n, after, hsplit, rfl⟩ := mem_writesOf hw
      exact lands_target hplanned (hb.2 _ hs) hc.1 hstream hread hts hsplit
  | chunk hs hrefused hread hvalid hw =>
    have hflat : Flat req m t := hc.2.resolve_left fun hm => hm.2 _ hrefused
    obtain ⟨x, hx, signaled, rfl⟩ := mem_registered hw
    have hlen := hflat.read _ _ hread
    rw [AsRecorded, fileLen_striped hs] at hlen
    rw [chunkWrites_congr hlen] at hx
    obtain ⟨i, hi, rfl⟩ := List.mem_map.mp hx
    exact hflat.chunk hs (hvalid i hi) signaled

theorem scatter_writes_land (C : Config) (req : DescriptorGetReqMsg) (m : BlockMeta)
    (hb : Bounded m) (hne : req.dstSegments ≠ []) (answer : History → (c : Cmd) → c.Resp)
    (hc : Contained req m (served C req m answer)) (w : Write) (ok : Bool)
    (hw : (⟨.post w, ok⟩ : Issued) ∈ served C req m answer) :
    Lands req.dstSegments m (served C req m answer) w := by
  obtain ⟨t', hs, hguard⟩ := (sound_handleDescriptorGet C req m 0).replay_guard answer hw
    List.not_mem_nil
  exact ((hguard w rfl).mono ((List.suffix_cons _ t').trans hs)).lands hb hne hc

/-! ## 例 -/

def postedWrites (t : History) : List Write :=
  t.filterMap fun e => match e with
    | ⟨.post w, _⟩ => some w
    | _ => none

theorem mem_postedWrites :
    w ∈ postedWrites t ↔ ∃ ok : Bool, (⟨.post w, ok⟩ : Issued) ∈ t := by
  constructor
  · intro h
    obtain ⟨e, he, hw⟩ := List.mem_filterMap.mp h
    split at hw
    · cases hw
      exact ⟨_, he⟩
    · cases hw
  · rintro ⟨ok, h⟩
    exact List.mem_filterMap.mpr ⟨_, h, rfl⟩

def refusal (e : Issued) : Bool :=
  match e with
  | ⟨.alloc _, ok⟩ => !ok
  | _ => false

theorem not_refused (h : t.any refusal = false) (size : ℕ) :
    (⟨.alloc size, false⟩ : Issued) ∉ t := by
  intro hmem
  have := List.any_eq_false.mp h _ hmem
  exact this rfl

def sampleWrites (stripes : List UInt32) (room : Bool) : List Write :=
  postedWrites (served sampleConfig (sampleRequest stripes) sampleMeta (sampleAnswer room))

theorem scatter_writes_land_split :
    sampleWrites [0, 1] true =
        [⟨.staging 3000, 20000, 2, 1096, true⟩, ⟨.staging 0, 10000, 1, 3000, true⟩,
          ⟨.staging 4096, 21096, 2, 8, true⟩] ∧
      ∀ w ∈ sampleWrites [0, 1] true, Lands [(10000, 1, 3000), (20000, 2, 1104)] sampleMeta
        (served sampleConfig (sampleRequest [0, 1]) sampleMeta (sampleAnswer true)) w := by
  refine ⟨by decide +kernel, fun w hw => ?_⟩
  obtain ⟨ok, hmem⟩ := mem_postedWrites.mp hw
  refine scatter_writes_land sampleConfig (sampleRequest [0, 1]) sampleMeta ⟨by decide, ?_⟩
    (by decide) (sampleAnswer true) ⟨by decide, .inl ⟨by decide, ?_⟩⟩ w ok hmem
  · intro s hs
    cases hs
    decide
  · exact not_refused (by decide +kernel)

theorem strays_of_long {writes : List Write} {t : History}
    (h : ∃ w ∈ writes, w.rkey = 1 ∧ w.len = 4096) :
    ∃ w ∈ writes, ¬ Lands [(10000, 1, 3000), (20000, 2, 1104)] sampleMeta t w := by
  obtain ⟨w, hw, hrkey, hlen⟩ := h
  refine ⟨w, hw, fun hlands => ?_⟩
  obtain ⟨seg, hseg, hkey, hle⟩ := hlands.segment
  rw [hrkey] at hkey
  rw [hlen] at hle
  rcases List.mem_pair.mp hseg with rfl | rfl
  · exact absurd hle (by decide)
  · cases hkey

theorem scatter_writes_stray :
    (∃ w ∈ sampleWrites [] true, ¬ Lands [(10000, 1, 3000), (20000, 2, 1104)] sampleMeta
      (served sampleConfig (sampleRequest []) sampleMeta (sampleAnswer true)) w) ∧
    ∃ w ∈ sampleWrites [0, 1] false, ¬ Lands [(10000, 1, 3000), (20000, 2, 1104)] sampleMeta
      (served sampleConfig (sampleRequest [0, 1]) sampleMeta (sampleAnswer false)) w :=
  ⟨strays_of_long (by decide +kernel), strays_of_long (by decide +kernel)⟩

end ContextStore.Serve
