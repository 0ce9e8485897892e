import Mathlib.Data.List.Perm.Basic
import ContextStore.Rdma.Forwarding
import ContextStore.Rdma.Posting

/-!
# `found` の応答と届いた byte
-/

namespace ContextStore.Serve

open Conc Wire Storage

theorem flatMap_chunks (base len c n : ℕ) :
    ((List.range n).flatMap fun k => List.range' (base + k * c) (min (len - k * c) c)) =
      List.range' base (min len (n * c)) := by
  induction n with
  | zero => simp
  | succ n ih =>
    rw [List.range_succ, List.flatMap_append, ih, List.flatMap_singleton, Nat.succ_mul]
    by_cases hle : n * c ≤ len
    · rw [Nat.min_eq_right hle, List.range'_append_1]
      congr 1
      omega
    · rw [show len - n * c = 0 by omega, Nat.zero_min, List.range'_zero, List.append_nil]
      congr 1
      omega

theorem flatMap_divCeil (base len : ℕ) {c : ℕ} (hc : 0 < c) :
    ((List.range (divCeil len c)).flatMap fun k =>
      List.range' (base + k * c) (min (len - k * c) c)) = List.range' base len := by
  rw [flatMap_chunks, Nat.min_eq_left (le_divCeil_mul len hc)]

def stripeBytes (s : StripingInfo) (i : ℕ) : List ℕ := List.range' (i * s.chunkSize) (stripeLen s i)

def requested (req : DescriptorGetReqMsg) (m : BlockMeta) : List ℕ :=
  if req.stripes = [] then List.range m.size
  else m.striping.elim [] fun s => (req.stripes.map UInt32.toNat).flatMap (stripeBytes s)

def Piece.bytes (q : Piece) : List ℕ := List.range' q.object q.length

theorem flatMap_stripeBytes {m : BlockMeta} {s : StripingInfo} (h : WellLaid m s) :
    (List.range s.chunkPaths.length).flatMap (stripeBytes s) = List.range m.size := by
  have := flatMap_divCeil 0 s.totalSize h.positive
  rw [← h.count, ← h.size, ← List.range_eq_range'] at this
  rw [← this]
  refine List.flatMap_congr fun i _ => ?_
  rw [stripeBytes, stripeLen, Nat.zero_add, h.size]

section Plans

variable {streamChunk : ℕ} (hpos : 0 < streamChunk) {s : StripingInfo}
include hpos

theorem bytes_stripePieces (stripe base object len : ℕ) :
    (stripePieces streamChunk stripe base object len).flatMap Piece.bytes =
      List.range' object len := by
  unfold stripePieces
  rw [List.flatMap_map]
  exact flatMap_divCeil object len hpos

theorem bytes_subsetPlan {capacity cursor : ℕ} {indices : List ℕ} {plan : List Piece}
    (h : subsetPlan streamChunk s capacity indices cursor = some plan) :
    plan.flatMap Piece.bytes = indices.flatMap (stripeBytes s) := by
  induction indices generalizing cursor plan with
  | nil =>
    cases h
    rfl
  | cons i indices ih =>
    obtain ⟨-, -, _, rest, rfl, -, hrest, rfl⟩ := subsetPlan_cons h
    rw [List.flatMap_append, List.flatMap_cons, ih hrest, bytes_stripePieces hpos]
    rfl

omit hpos in
theorem wholePieces_eq (n : ℕ) : wholePieces streamChunk s n =
    (List.range n).flatMap fun i =>
      stripePieces streamChunk i (i * s.chunkSize) (i * s.chunkSize) (stripeLen s i) := by
  refine List.flatMap_congr fun i _ => ?_
  have : min ((i + 1) * s.chunkSize) s.totalSize - i * s.chunkSize = stripeLen s i := by
    rw [Nat.succ_mul, stripeLen]
    omega
  rw [this]

theorem bytes_wholePieces (n : ℕ) :
    (wholePieces streamChunk s n).flatMap Piece.bytes = (List.range n).flatMap (stripeBytes s) := by
  rw [wholePieces_eq, List.flatMap_assoc]
  exact List.flatMap_congr fun i _ => bytes_stripePieces hpos _ _ _ _

structure Sized (streamChunk : ℕ) (s : StripingInfo) (q : Piece) : Prop where
  stripe : q.stripe < s.chunkPaths.length
  chunk : q.length ≤ streamChunk
  file : q.length ≤ stripeLen s q.stripe

theorem sized_stripePieces {i base object : ℕ} (hi : i < s.chunkPaths.length) {q : Piece}
    (hq : q ∈ stripePieces streamChunk i base object (stripeLen s i)) : Sized streamChunk s q := by
  obtain ⟨rfl, -, -, -, hchunk, hle⟩ := mem_stripePieces hpos hq
  exact ⟨hi, hchunk, by omega⟩

theorem sized_subsetPlan {capacity cursor : ℕ} {indices : List ℕ} {plan : List Piece}
    (h : subsetPlan streamChunk s capacity indices cursor = some plan) {q : Piece} (hq : q ∈ plan) :
    Sized streamChunk s q := by
  induction indices generalizing cursor plan with
  | nil =>
    cases h
    cases hq
  | cons i indices ih =>
    obtain ⟨hi, -, _, rest, rfl, -, hrest, rfl⟩ := subsetPlan_cons h
    rcases List.mem_append.mp hq with hq | hq
    · exact sized_stripePieces hpos hi hq
    · exact ih hrest hq

theorem sized_wholePieces {q : Piece} (hq : q ∈ wholePieces streamChunk s s.chunkPaths.length) :
    Sized streamChunk s q := by
  rw [wholePieces_eq] at hq
  obtain ⟨i, hi, hq⟩ := List.mem_flatMap.mp hq
  exact sized_stripePieces hpos (List.mem_range.mp hi) hq

end Plans

/-! ## WRITE の元 -/

def chunkSizeOf (m : BlockMeta) : ℕ := m.striping.elim 0 StripingInfo.chunkSize

def Carries (m : BlockMeta) (t : History) (source : Source) (j offset : ℕ) : Prop :=
  match source with
  | .staging x => ∃ plan c, (⟨.stream plan, c⟩ : Issued) ∈ t ∧
      Staged (chunkSizeOf m) plan c (x + j) offset
  | .cached x => offset = x + j
  | .chunk i => offset = i * chunkSizeOf m + j
  | .file => offset = j

section Sources

variable {req : DescriptorGetReqMsg} {m : BlockMeta} {plan : List Piece} {c : Completions}

variable {s : StripingInfo}

theorem chunkSizeOf_striped (hs : m.striping = some s) :
    chunkSizeOf m = s.chunkSize := by
  rw [chunkSizeOf, hs]
  rfl

variable {C : Config}

theorem planned_streamPlan (hlaid : ∀ s, m.striping = some s → WellLaid m s)
    (h : streamPlan C m = some plan) :
    (∃ hi, Planned (chunkSizeOf m) m.size 0 hi plan) ∧ ∀ p ∈ plan, p.source = p.object := by
  unfold streamPlan at h
  cases hs : m.striping with
  | none =>
    rw [hs] at h
    cases h
    refine ⟨⟨m.size, List.pairwise_singleton _ _, ?_, ?_, ?_⟩, ?_⟩ <;>
      (intro p hp; rw [List.mem_singleton.mp hp]; simp [singlePiece])
  | some s =>
    rw [hs] at h
    have hw := hlaid s hs
    cases wholePlan_eq_some h
    rw [chunkSizeOf_striped hs, hw.size]
    grind [planned_wholePieces, Config.streamChunk_pos, source_wholePieces]

theorem mem_streamed (hplan : streamPlan C m = some plan) {p : Piece} {b : Option ℕ}
    (h : Forwarded.read p b ∈ streamed C m plan c) : Delivered plan c.events p b := by
  unfold streamPlan at hplan
  unfold streamed at h
  cases hs : m.striping with
  | none =>
    rw [hs] at hplan h
    cases hplan
    exact mem_forwardSingle h
  | some s =>
    rw [hs] at h
    exact mem_passOn h

theorem targets_scatter (hne : req.dstSegments ≠ []) (object length : ℕ) :
    targets req object length =
      mapRangeToSegments req.dstSegments (UInt64.ofNat object) (UInt64.ofNat length) :=
  if_neg fun h => hne (List.isEmpty_iff.mp h)

def fileLen (m : BlockMeta) (i : ℕ) : ℕ := m.striping.elim m.size (stripeLen · i)

theorem fileLen_striped (hs : m.striping = some s) :
    fileLen m = stripeLen s := by
  funext i
  rw [fileLen, hs]
  rfl

theorem segments_congr {read read' : ℕ → ℕ}
    (h : ∀ i ∈ List.range (fileCount m), read i = read' i) :
      segments m read = segments m read' := by
  unfold segments
  unfold fileCount at h
  cases hs : m.striping with
  | none =>
    rw [hs] at h
    rw [h 0 (List.mem_singleton.mpr rfl)]
  | some s =>
    rw [hs] at h
    refine List.map_congr_left fun i hi => ?_
    rw [h i hi]

def chunkWrites (req : DescriptorGetReqMsg) (s : StripingInfo) (read : ℕ → ℕ)
    (indices : List ℕ) : List (Source × UInt64 × ℕ) :=
  indices.map fun i => (.chunk i, req.dstAddr + UInt64.ofNat (i * s.chunkSize), read i)

theorem chunkWrites_congr {read read' : ℕ → ℕ} {indices : List ℕ}
    (h : ∀ i ∈ indices, read i = read' i) :
    chunkWrites req s read indices = chunkWrites req s read' indices := by
  refine List.map_congr_left fun i hi => ?_
  rw [h i hi]

theorem laidOut_chunks (req : DescriptorGetReqMsg) (hlaid : WellLaid m s)
    {k n : ℕ} (hn : k + n ≤ s.chunkPaths.length) :
    laidOut req (k * s.chunkSize)
        ((List.range' k n).map fun i => (Source.chunk i, stripeLen s i)) =
      chunkWrites req s (stripeLen s) (List.range' k n) := by
  induction n generalizing k with
  | zero => rfl
  | succ n ih =>
    rw [chunkWrites, List.range'_succ, List.map_cons, List.map_cons, laidOut]
    congr 1
    cases n with
    | zero => rfl
    | succ n =>
      have hlt := mul_lt_of_lt_divCeil hlaid.positive
        (hlaid.count ▸ (show k + 1 < s.chunkPaths.length by omega))
      have hfull : k * s.chunkSize + stripeLen s k = (k + 1) * s.chunkSize := by
        rw [Nat.add_mul] at hlt ⊢
        unfold stripeLen
        omega
      rw [hfull]
      exact ih (k := k + 1) (by omega)

theorem laidOut_segments (hs : m.striping = some s) (hlaid : WellLaid m s) :
    laidOut req 0 (segments m (fileLen m)) =
      chunkWrites req s (stripeLen s) (List.range s.chunkPaths.length) := by
  have := laidOut_chunks req hlaid (k := 0) (n := s.chunkPaths.length) (by omega)
  rw [Nat.zero_mul, ← List.range_eq_range'] at this
  rw [segments, hs, fileLen_striped hs]
  exact this

theorem valid_lt {maxSize : UInt64} {indices : List ℕ}
    (h : validStripes C s maxSize indices = true) {i : ℕ} (hi : i ∈ indices) :
    i < s.chunkPaths.length := by
  simp only [validStripes, Bool.and_eq_true, List.all_eq_true, decide_eq_true_eq] at h
  exact (h.2 i hi).1.1

end Sources

/-! ## 届いた byte -/

def Brings (req : DescriptorGetReqMsg) (m : BlockMeta) (t : History) (w : Write) (base : ℕ) :
    Prop :=
  (∀ j < w.len.toNat, Carries m t w.source j (base + j)) ∧
    (req.dstSegments = [] → w.dst = req.dstAddr + UInt64.ofNat base ∧ w.rkey = req.dstRkey)

inductive Brought (req : DescriptorGetReqMsg) (m : BlockMeta) (t : History) :
    List Write → List ℕ → Prop
  | nil : Brought req m t [] []
  | cons {w : Write} {base : ℕ} {ws : List Write} {bytes : List ℕ} :
      Brings req m t w base → Brought req m t ws bytes →
        Brought req m t (w :: ws) (List.range' base w.len.toNat ++ bytes)

structure Completed (left : ℕ) (t : History) : Prop where
  clean : clean t = true
  count : left + (posted t).countP (·.signaled) ≤ consumed t
  last : ∀ w, (posted t).getLast? = some w → w.signaled = true

structure Arrived (req : DescriptorGetReqMsg) (m : BlockMeta) (left : ℕ) (t : History)
    (bytesWritten : ℕ) : Prop where
  completed : Completed left t
  bytes : ∃ bytes, Brought req m t (posted t) bytes ∧ bytes.Perm (requested req m)
  count : bytesWritten = (requested req m).length

/-! ## 条件 -/

def Heard (verify : Bool) (plan : List Piece) (events : List (ℕ × Option ℕ)) : Prop :=
  (events.map Prod.fst).Nodup ∧
    ((∀ s, Reported plan events s) ∨ ∃ e ∈ events, ∃ p, plan[e.1]? = some p ∧
      e.2 ≠ some p.length ∧ (verify = true → Reported plan events p.stripe))

def Narrow (m : BlockMeta) : Prop := ∀ i < fileCount m, fileLen m i < 2 ^ 32

def AsRecorded (m : BlockMeta) (l : List ℕ) (read : ℕ → ℕ) : Prop :=
  ∀ i ∈ l, read i = fileLen m i

/-- 条件。 -/
structure Fair (C : Config) (m : BlockMeta) (left : ℕ) (t : History) : Prop where
  left : left = 0
  heard : m.striping.isSome → ∀ plan c, (⟨.stream plan, c⟩ : Issued) ∈ t →
    Heard C.verify plan c.events
  streamed : ∀ plan c, (⟨.stream plan, c⟩ : Issued) ∈ t →
    (m.striping.isSome ∧ C.streamChunk < 2 ^ 32) ∨ Narrow m
  read : ∀ l read, (⟨.readChunks l, some read⟩ : Issued) ∈ t → Narrow m ∧ AsRecorded m l read
  fresh : ∀ l read t', (⟨.readChunks l, some read⟩ :: t' : History) <:+ t → posted t' = []
  cached : ∀ len, (⟨.cacheLookup, some len⟩ : Issued) ∈ t → len = m.size

/-! ## WRITE の列 -/

section Writes

variable {req : DescriptorGetReqMsg} {m : BlockMeta} {t : History}

theorem Brought.append {ws ws' : List Write} {bytes bytes' : List ℕ}
    (h : Brought req m t ws bytes) (h' : Brought req m t ws' bytes') :
    Brought req m t (ws ++ ws') (bytes ++ bytes') := by
  induction h with
  | nil => exact h'
  | cons hw _ ih =>
    rw [List.append_assoc]
    exact .cons hw ih

theorem Brought.cons_single {w : Write} {ws : List Write} {bytes bytes' : List ℕ}
    (h : Brought req m t [w] bytes) (h' : Brought req m t ws bytes') :
    Brought req m t (w :: ws) (bytes ++ bytes') := h.append h'

theorem Brought.single {w : Write} {base : ℕ} (h : Brings req m t w base) :
    Brought req m t [w] (List.range' base w.len.toNat) := by
  have := Brought.cons h .nil
  rwa [List.append_nil] at this

theorem Brought.flatMap {α : Type} {l : List α} {f : α → List Write} {g : α → List ℕ}
    (h : ∀ x ∈ l, Brought req m t (f x) (g x)) : Brought req m t (l.flatMap f) (l.flatMap g) := by
  induction l with
  | nil => exact .nil
  | cons x l ih =>
    simp_all [append]

theorem Brought.write {source : Source} {dst : UInt64} {rkey : UInt32} {len base : ℕ}
    {signaled : Bool} (hlen : len < 2 ^ 32)
    (hcarry : ∀ j < len, Carries m t source j (base + j))
    (hdst : req.dstSegments = [] → dst = req.dstAddr + UInt64.ofNat base ∧ rkey = req.dstRkey) :
    Brought req m t [⟨source, dst, rkey, UInt32.ofNat len, signaled⟩] (List.range' base len) := by
  have : (UInt32.ofNat len).toNat = len := UInt32.toNat_ofNat_of_lt' hlen
  have hsingle : Brought req m t [⟨source, dst, rkey, UInt32.ofNat len, signaled⟩]
      (List.range' base (UInt32.ofNat len).toNat) :=
    .single ⟨fun j hj => hcarry j (this ▸ hj), hdst⟩
  rwa [this] at hsingle

theorem brought_writesOf (hne : req.dstSegments ≠ []) {ts : List Segment} {src base : ℕ}
    (hlen : cover ts < 2 ^ 32) (hcarry : ∀ j < cover ts, Carries m t (.staging src) j (base + j)) :
    Brought req m t (writesOf ts src) (List.range' base (cover ts)) := by
  induction ts generalizing src base with
  | nil => exact .nil
  | cons s ts ih =>
    obtain ⟨dst, rkey, n⟩ := s
    rw [cover_cons] at hlen hcarry ⊢
    dsimp only at hlen hcarry ⊢
    rw [← List.range'_append_1]
    refine Brought.cons_single (.write (by omega) (fun j hj => hcarry j (by omega))
      fun h => absurd h hne) (ih (by omega) fun j hj => ?_)
    obtain ⟨plan, c, hmem, hstaged⟩ := hcarry (n.toNat + j) (by omega)
    rw [← Nat.add_assoc, ← Nat.add_assoc] at hstaged
    exact ⟨plan, c, hmem, hstaged⟩

theorem carries_piece {total lo hi : ℕ} {plan : List Piece}
    (hplan : Planned (chunkSizeOf m) total lo hi plan) {c : Completions}
    (hstream : (⟨.stream plan, c⟩ : Issued) ∈ t) {q : Piece}
    (hread : Delivered plan c.events q (some q.length)) (j : ℕ) (hj : j < q.length) :
    Carries m t (.staging q.source) j (q.object + j) :=
  ⟨plan, c, hstream, staged_piece hplan hread hj⟩

theorem brought_piece {q : Piece} (hlen : q.length < 2 ^ 32)
    (hcarry : ∀ j < q.length, Carries m t (.staging q.source) j (q.object + j))
    (htarget : (targets req q.object q.length).isSome) :
    Brought req m t (pieceWrites req q) q.bytes := by
  have hlen64 : (UInt64.ofNat q.length).toNat = q.length :=
    UInt64.toNat_ofNat_of_lt' (show q.length < 2 ^ 64 by omega)
  unfold pieceWrites
  by_cases hne : req.dstSegments = []
  · rw [targets, if_pos (List.isEmpty_iff.mpr hne)]
    show Brought req m t [_] _
    rw [hlen64]
    exact .write hlen hcarry fun _ => ⟨rfl, rfl⟩
  · obtain ⟨ts, hts⟩ := Option.isSome_iff_exists.mp htarget
    rw [hts]
    rw [targets_scatter hne] at hts
    have hcover : cover ts = q.length := (cover_mapRange hts).trans hlen64
    grind [Piece.bytes.eq_1, brought_writesOf]

theorem brought_staged {q : Piece} (hlen : q.length < 2 ^ 32)
    (hcarry : ∀ j < q.length, Carries m t (.staging q.source) j (q.object + j)) :
    Brought req m t [stagedWrite req q] q.bytes :=
  .write hlen hcarry fun _ => ⟨rfl, rfl⟩

theorem brought_chunks {s : StripingInfo} (hs : m.striping = some s) {indices : List ℕ}
    (hlen : ∀ i ∈ indices, stripeLen s i < 2 ^ 32) :
    Brought req m t (registered req.dstRkey (chunkWrites req s (stripeLen s) indices))
      (indices.flatMap (stripeBytes s)) := by
  induction indices with
  | nil => exact .nil
  | cons i indices ih =>
    have ih := ih fun i hi => hlen i (List.mem_cons_of_mem _ hi)
    rw [chunkWrites, List.map_cons, registered, List.flatMap_cons]
    split
    next hzero =>
      rw [stripeBytes, hzero]
      exact ih
    next =>
      refine Brought.cons_single (.write (hlen i List.mem_cons_self) (fun j _ => ?_)
        fun _ => ⟨rfl, rfl⟩) ih
      show _ = _
      rw [chunkSizeOf_striped hs]

end Writes

def Capped (ws : List Write) : Prop :=
  ∃ before last, ws = before ++ [last] ∧ last.signaled = true ∧ ∀ w ∈ before, w.signaled = false

variable {ws : List Write}

theorem Capped.countP (h : Capped ws) : ws.countP (·.signaled) = 1 := by
  obtain ⟨before, last, rfl, hlast, hbefore⟩ := h
  simp_all

theorem Capped.last (h : Capped ws) (w : Write)
    (hw : ws.getLast? = some w) : w.signaled = true := by
  obtain ⟨before, last, rfl, hlast, -⟩ := h
  rw [List.getLast?_append, List.getLast?_singleton] at hw
  cases hw
  exact hlast

theorem capped_registered (rkey : UInt32) {writes : List (Source × UInt64 × ℕ)}
    {final : Source × UInt64 × ℕ} (hfinal : writes.getLast? = some final) (hpos : 0 < final.2.2) :
    Capped (registered rkey writes) := by
  induction writes with
  | nil => cases hfinal
  | cons w rest ih =>
    obtain ⟨source, dst, len⟩ := w
    rw [registered]
    cases hrest : rest with
    | nil =>
      subst hrest
      cases hfinal
      have hlen : len ≠ 0 := Nat.ne_of_gt hpos
      rw [if_neg hlen]
      exact ⟨[], _, rfl, rfl, fun _ hw => (List.not_mem_nil hw).elim⟩
    | cons w' rest' =>
      subst hrest
      obtain ⟨before, last, heq, hlast, hbefore⟩ := ih (by simpa using hfinal)
      split
      · exact ⟨before, last, heq, hlast, hbefore⟩
      · refine ⟨_ :: before, last, by rw [heq]; rfl, hlast, fun w hw => ?_⟩
        grind

def slabWrites (req : DescriptorGetReqMsg) (total : ℕ) : List Write :=
  (List.range (divCeil total maxWriteBytes)).map fun k =>
    { source := .cached (k * maxWriteBytes)
      dst := req.dstAddr + UInt64.ofNat (k * maxWriteBytes)
      rkey := req.dstRkey
      len := UInt32.ofNat (min (total - k * maxWriteBytes) maxWriteBytes)
      signaled := k + 1 == divCeil total maxWriteBytes }

theorem maxWriteBytes_pos : 0 < maxWriteBytes := by decide

theorem capped_slabWrites (req : DescriptorGetReqMsg) {total : ℕ} (hpos : total ≠ 0) :
    Capped (slabWrites req total) := by
  unfold slabWrites
  cases hn : divCeil total maxWriteBytes with
  | zero =>
    have := le_divCeil_mul total maxWriteBytes_pos
    rw [hn, Nat.zero_mul] at this
    omega
  | succ n =>
    rw [List.range_succ, List.map_append]
    refine ⟨_, _, rfl, beq_self_eq_true _, fun w hw => ?_⟩
    grind

theorem brought_slabWrites (req : DescriptorGetReqMsg) (m : BlockMeta) (t : History) (total : ℕ) :
    Brought req m t (slabWrites req total) (List.range total) := by
  have hbytes := flatMap_divCeil 0 total maxWriteBytes_pos
  rw [← List.range_eq_range'] at hbytes
  rw [slabWrites, List.map_eq_flatMap, ← hbytes]
  refine Brought.flatMap fun k _ => .write ?_ (fun j _ => ?_) fun _ => ⟨?_, rfl⟩
  · exact lt_of_le_of_lt (Nat.min_le_right _ _) (by decide)
  · show _ = _
    omega
  · rw [Nat.zero_add]

inductive Meant (C : Config) (req : DescriptorGetReqMsg) (m : BlockMeta) (t : History)
    (w : Write) : Prop
  | slab {len : ℕ} (hwhole : req.stripes = []) (hlen : (⟨.cacheLookup, some len⟩ : Issued) ∈ t)
      (hw : w ∈ slabWrites req len)
  | staged {plan : List Piece} {c : Completions} {q : Piece} (hwhole : req.stripes = [])
      (hplan : streamPlan C m = some plan) (hstream : (⟨.stream plan, c⟩ : Issued) ∈ t)
      (hread : Delivered plan c.events q (some q.length)) (hw : w = stagedWrite req q)
  | segment {read : ℕ → ℕ} (hwhole : req.stripes = [])
      (hread : (⟨.readChunks (List.range (fileCount m)), some read⟩ : Issued) ∈ t)
      (hw : w ∈ registered req.dstRkey (laidOut req 0 (segments m read)))
  | piece {s : StripingInfo} {capacity : ℕ} {plan : List Piece} {c : Completions} {q : Piece}
      (hs : m.striping = some s)
      (hplan : subsetPlan C.streamChunk s capacity (req.stripes.map UInt32.toNat) 0 = some plan)
      (hstream : (⟨.stream plan, c⟩ : Issued) ∈ t)
      (hread : Delivered plan c.events q (some q.length)) (hw : w ∈ pieceWrites req q)
  | chunk {s : StripingInfo} {size : ℕ} {read : ℕ → ℕ} (hs : m.striping = some s)
      (hrefused : (⟨.alloc size, false⟩ : Issued) ∈ t)
      (hread : (⟨.readChunks (req.stripes.map UInt32.toNat), some read⟩ : Issued) ∈ t)
      (hvalid : ∀ i ∈ req.stripes.map UInt32.toNat, i < s.chunkPaths.length)
      (hw : w ∈ registered req.dstRkey (chunkWrites req s read (req.stripes.map UInt32.toNat)))

section Outcome

variable {C : Config} {req : DescriptorGetReqMsg} {m : BlockMeta} {t : History} {left : ℕ}

theorem Meant.mono {t' : History} {w : Write} (h : Meant C req m t w) (hs : t <:+ t') :
    Meant C req m t' w := by
  cases h with
  | slab hwhole hlen hw => exact .slab hwhole (hs.subset hlen) hw
  | staged hwhole hplan hstream hread hw =>
    exact .staged hwhole hplan (hs.subset hstream) hread hw
  | segment hwhole hread hw => exact .segment hwhole (hs.subset hread) hw
  | piece hst hplan hstream hread hw => exact .piece hst hplan (hs.subset hstream) hread hw
  | chunk hst hrefused hread hvalid hw =>
    exact .chunk hst (hs.subset hrefused) (hs.subset hread) hvalid hw

theorem Posts.meant {α : Type} {Q : History → α → Prop} {p : Serving α}
    (h : Posts (fun _ => Meant C req m t) Q t p) : Posts (Meant C req m) Q t p :=
  h.guard fun _ _ hs hw w hc => (hw w hc).mono hs

theorem arrived_of_sent {ws : List Write} {bytes : List ℕ} {n : ℕ} (hsent : Sent [] t ws 0 0)
    (hlast : ∀ w, ws.getLast? = some w → w.signaled = true) (hbytes : Brought req m t ws bytes)
    (hperm : bytes.Perm (requested req m)) (hn : n = (requested req m).length) :
    Arrived req m 0 t n := by
  have hposted : posted t = ws := hsent.posted
  have hcount : consumed t + 0 = 0 + 0 + ws.countP (·.signaled) := hsent.count
  refine ⟨⟨hsent.clean, ?_, ?_⟩, ⟨bytes, ?_, hperm⟩, hn⟩
  · rw [hposted]
    omega
  · rwa [hposted]
  · rwa [hposted]

abbrev Laid (m : BlockMeta) : Prop := ∀ s, m.striping = some s → WellLaid m s

def Sound (C : Config) (req : DescriptorGetReqMsg) (m : BlockMeta) (left : ℕ) (t : History)
    (r : Reply) : Prop :=
  Laid m → Fair C m left t → ∀ s, r = some s → s.found = true → Arrived req m left t s.bytesWritten

theorem sound_of_not_found {r : Reply} (h : ∀ s, r = some s → s.found = false) :
    Sound C req m left t r := by
  intro _ _ s hs hfound
  rw [h s hs] at hfound
  cases hfound

theorem sound_notFound : Sound C req m left t (some notFound) :=
  sound_of_not_found fun s hs => by cases hs; rfl

theorem sound_none : Sound C req m left t none :=
  sound_of_not_found fun s hs => by cases hs

theorem sound_found {n k : ℕ} (h : Laid m → Fair C m left t → Arrived req m 0 t n) :
    Sound C req m left t (some ⟨true, n, k⟩) := by
  rintro hm hfair s ⟨⟩ -
  rw [hfair.left]
  exact h hm hfair

theorem pieces_perm {verify clears : Bool} {plan pieces : List Piece} {stripes : ℕ}
    {c : Completions} (hheard : Heard verify plan c.events)
    (hlt : ∀ p ∈ plan, p.stripe < stripes)
    (hfs : passOn verify clears plan stripes c = pieces.map .whole) : pieces.Perm plan := by
  have hok : ∀ f ∈ passOn verify clears plan stripes c, ∃ p, f = Forwarded.whole p := by
    simp_all
  rcases hheard with ⟨hnodup, hall | ⟨e, he, p, hp, hbad, hstripe⟩⟩
  · have hperm := passOn_perm hnodup hlt hall hok
    rw [hfs] at hperm
    refine (List.map_perm_map_iff fun p q hpq => ?_).mp hperm
    cases hpq
    rfl
  · obtain ⟨f, hf, hne⟩ : ∃ f ∈ passOn verify clears plan stripes c, ∀ q, f ≠ Forwarded.whole q :=
      passOn_failed hnodup hlt he hp hbad hstripe
    obtain ⟨q, hq⟩ := hok f hf
    exact absurd hq (hne q)

theorem Narrow.file (h : Narrow m) (hs : m.striping = none) : m.size < 2 ^ 32 := by
  have := h 0
  simp only [fileCount, fileLen, hs, Option.elim_none] at this
  exact this Nat.one_pos

variable {s : StripingInfo}

theorem Narrow.stripe (h : Narrow m) (hs : m.striping = some s) {i : ℕ}
    (hi : i < s.chunkPaths.length) : stripeLen s i < 2 ^ 32 := by
  rw [← fileLen_striped hs]
  refine h i ?_
  rwa [fileCount, hs]

theorem Fair.narrow (h : Fair C m left t) {plan : List Piece}
    {c : Completions} (hstream : (⟨.stream plan, c⟩ : Issued) ∈ t)
    (hs : m.striping = some s) {q : Piece} (hq : Sized C.streamChunk s q) : q.length < 2 ^ 32 := by
  rcases h.streamed plan c hstream with ⟨-, hchunk⟩ | hnarrow
  · exact lt_of_le_of_lt hq.chunk hchunk
  · exact lt_of_le_of_lt hq.file (hnarrow.stripe hs hq.stripe)

theorem length_bytes (pieces : List Piece) :
    (pieces.flatMap Piece.bytes).length = (pieces.map Piece.length).sum := by
  rw [List.length_flatMap]
  refine congrArg List.sum (List.map_congr_left fun q _ => ?_)
  exact List.length_range'

theorem signaled_writesOf {ts : List Segment} {src : ℕ} {w : Write} (h : w ∈ writesOf ts src) :
    w.signaled = true := by
  induction ts generalizing src with
  | nil => cases h
  | cons s ts ih =>
    rcases List.mem_cons.mp h with rfl | h
    · rfl
    · exact ih h

theorem requested_stripes (hne : req.stripes ≠ []) (hs : m.striping = some s) :
    requested req m = (req.stripes.map UInt32.toNat).flatMap (stripeBytes s) := by
  rw [requested, if_neg hne, hs]
  rfl

theorem requested_whole (h : req.stripes = []) : requested req m = List.range m.size :=
  if_pos h

theorem Sent.then {e : Issued} (h : Sent [] t [] 0 0) (ha : accepted e = none) (ht : taken e = 0)
    (hb : broken e = false) : Sent [] (e :: t) [] 0 0 :=
  h.trans_nil (.quiet ha ht hb t 0)

theorem arrived_of_capped {t' : History} {ws : List Write} {n : ℕ} (ht : Sent [] t [] 0 0)
    (hcap : Capped ws) (hsent : Sent t t' ws 0 (0 + ws.countP (·.signaled)))
    (hbytes : ∀ t, Brought req m t ws (requested req m)) (hn : n = (requested req m).length) :
    Arrived req m 0 (⟨.pollN 1, (.ok () : Except ℕ Unit)⟩ :: t') n := by
  rw [hcap.countP] at hsent
  have hpoll : Sent t' (⟨.pollN 1, (.ok () : Except ℕ Unit)⟩ :: t') [] (0 + 1) 0 :=
    Sent.pollN t' rfl
  exact arrived_of_sent (ht.trans (hsent.trans_nil hpoll)) hcap.last (hbytes _) (.refl _) hn

theorem sound_postRegistered {n k : ℕ} {writes : List (Source × UInt64 × ℕ)}
    (hw : ∀ w ∈ registered req.dstRkey writes, Meant C req m t w)
    (hgood : ∀ t', t <:+ t' → Laid m → Fair C m left t' → Sent [] t [] 0 0 ∧
      Capped (registered req.dstRkey writes) ∧ n = (requested req m).length ∧
      ∀ t, Brought req m t (registered req.dstRkey writes) (requested req m)) :
    Posts (Meant C req m) (Sound C req m left) t (do
      if ← postRegistered req.dstRkey writes then
        match ← pollN 1 with
        | .ok _ => return some ⟨true, n, k⟩
        | .error _ => return none
      else return none) := by
  refine (postRegistered_sent hw 0).meant.bind fun t' ok hsuf hsent => ?_
  cases ok with
  | false => exact sound_none
  | true =>
    refine Posts.pollN (fun _ => sound_none) (sound_found fun hm hfair => ?_)
    obtain ⟨ht, hcap, hn, hbytes⟩ := hgood _ (hsuf.trans (List.suffix_cons _ _)) hm hfair
    exact arrived_of_capped ht hcap (hsent rfl) hbytes hn

end Outcome

section Stripes

variable {C : Config} {req : DescriptorGetReqMsg} {m : BlockMeta} {left : ℕ} {t : History}
  {s : StripingInfo}

theorem stripeLen_pos (hlaid : WellLaid m s) {i : ℕ} (hi : i < s.chunkPaths.length) :
    0 < stripeLen s i := by
  have := mul_lt_of_lt_divCeil hlaid.positive (hlaid.count ▸ hi)
  have := hlaid.positive
  unfold stripeLen
  omega

theorem capped_chunks (hlaid : WellLaid m s) {indices : List ℕ} (hne : indices ≠ [])
    (hvalid : ∀ i ∈ indices, i < s.chunkPaths.length) :
    Capped (registered req.dstRkey (chunkWrites req s (stripeLen s) indices)) := by
  have hfinal := List.getLast?_map (f := fun i => (Source.chunk i, req.dstAddr +
    UInt64.ofNat (i * s.chunkSize), stripeLen s i)) (l := indices)
  rw [List.getLast?_eq_some_getLast hne] at hfinal
  exact capped_registered _ hfinal (stripeLen_pos hlaid (hvalid _ (List.getLast_mem hne)))

theorem length_flatMap_stripeBytes (indices : List ℕ) :
    (indices.flatMap (stripeBytes s)).length = (indices.map (stripeLen s)).sum := by
  rw [List.length_flatMap]
  exact congrArg List.sum (List.map_congr_left fun i _ => List.length_range')

theorem sound_serveGetStripesFallback (hs : m.striping = some s) (hne : req.stripes ≠ []) {size : ℕ}
    (hrefused : (⟨.alloc size, false⟩ : Issued) ∈ t)
    (hvalid : ∀ i ∈ req.stripes.map UInt32.toNat, i < s.chunkPaths.length)
    (ht : Sent [] t [] 0 0) :
    Posts (Meant C req m) (Sound C req m left) t (serveGetStripesFallback s req) := by
  refine Posts.issue (c := .readChunks _) (fun _ h => by cases h)
    fun (answer : Option (ℕ → ℕ)) => ?_
  cases answer with
  | none => exact sound_notFound
  | some read =>
    have hwrites : (req.stripes.map UInt32.toNat).map (fun i => (Source.chunk i,
        req.dstAddr + UInt64.ofNat i * UInt64.ofNat s.chunkSize, read i)) =
          chunkWrites req s read (req.stripes.map UInt32.toNat) := by
      refine List.map_congr_left fun i _ => ?_
      rw [UInt64.ofNat_mul]
    have hindices : req.stripes.map UInt32.toNat ≠ [] := by simpa using hne
    have hw : ∀ w ∈ registered req.dstRkey (chunkWrites req s read (req.stripes.map UInt32.toNat)),
        Meant C req m (⟨.readChunks (req.stripes.map UInt32.toNat), some read⟩ :: t) w :=
      fun w hw => .chunk hs (List.mem_cons_of_mem _ hrefused) List.mem_cons_self hvalid hw
    have hrecorded : ∀ t', (⟨.readChunks (req.stripes.map UInt32.toNat), some read⟩ :: t) <:+ t' →
        Fair C m left t' → Narrow m ∧ ∀ i ∈ req.stripes.map UInt32.toNat, read i = stripeLen s i :=
      fun t' hsuf hfair => fileLen_striped hs ▸ hfair.read _ _ (hsuf.subset List.mem_cons_self)
    dsimp only
    simp only [hwrites]
    split
    next hall =>
      refine (postRegistered_sent hw 0).meant.bind fun t' ok hsuf _ => ?_
      cases ok with
      | false => exact sound_none
      | true =>
        refine sound_found fun hm hfair => ?_
        obtain ⟨i, hi⟩ := List.exists_mem_of_ne_nil _ hindices
        have hzero := beq_iff_eq.mp (List.all_eq_true.mp hall _ (List.mem_map.mpr ⟨i, hi, rfl⟩))
        have hpos := stripeLen_pos (hm s hs) (hvalid i hi)
        rw [← (hrecorded _ hsuf hfair).2 i hi] at hpos
        exact absurd hzero hpos.ne'
    next =>
      refine sound_postRegistered hw fun t' hsuf hm hfair => ?_
      obtain ⟨hnarrow, hread⟩ := hrecorded _ hsuf hfair
      rw [chunkWrites_congr hread, List.map_congr_left hread]
      refine ⟨ht.then rfl rfl rfl, capped_chunks (hm s hs) hindices hvalid, ?_, fun t => ?_⟩
      · rw [requested_stripes hne hs, length_flatMap_stripeBytes]
      · rw [requested_stripes hne hs]
        exact brought_chunks hs fun i hi => hnarrow.stripe hs (hvalid i hi)

theorem sound_serveGetStripes (hne : req.stripes ≠ []) (ht : Sent [] t [] 0 0) :
    Posts (Meant C req m) (Sound C req m left) t (serveGetStripes C m req) := by
  unfold serveGetStripes
  cases hs : m.striping with
  | none => exact sound_notFound
  | some s =>
    dsimp only
    split
    · exact sound_notFound
    next hvalid =>
      refine Posts.issue (c := .alloc _) (fun _ h => by cases h) fun (ok : Bool) => ?_
      have ht' := ht.then (e := ⟨.alloc ((req.stripes.map UInt32.toNat).map (stripeLen s)).sum, ok⟩)
        rfl rfl rfl
      cases ok with
      | false =>
        refine sound_serveGetStripesFallback hs hne List.mem_cons_self (fun i hi => ?_) ht'
        exact valid_lt (by simpa using (not_or.mp hvalid).2) hi
      | true =>
        simp only [if_true]
        split
        · exact sound_notFound
        next plan hplan =>
          refine Posts.issue (c := .stream plan) (fun _ h => by cases h) fun c => ?_
          have ht'' := ht'.then (e := ⟨.stream plan, c⟩) rfl rfl rfl
          refine (postAll_sent (fun q hq w hw => .piece hs hplan List.mem_cons_self
            (mem_passOn hq) hw) _).meant.bind fun t₁ p₁ hsuf₁ h₁ => ?_
          refine (drain_sent p₁).meant.bind fun t₂ p₂ hsuf₂ h₂ => ?_
          split
          · exact sound_notFound
          next hok =>
            obtain ⟨rfl, hdrain⟩ := h₂.2 (by simpa using hok)
            obtain ⟨-, pieces, hfs, htargets, htotal, hsent⟩ := h₁ (by simpa using hok)
            refine sound_found fun hm hfair => ?_
            have hstream : (⟨.stream plan, c⟩ : Issued) ∈ t₂ :=
              (hsuf₁.trans hsuf₂).subset List.mem_cons_self
            have hperm : pieces.Perm plan := by
              refine pieces_perm (hfair.heard (by rw [hs]; rfl) plan c hstream) (fun p hp => ?_) hfs
              rw [(hm s hs).devices]
              exact (sized_subsetPlan C.streamChunk_pos hplan hp).stripe
            have hbytes : (pieces.flatMap Piece.bytes).Perm (requested req m) := by
              rw [requested_stripes hne hs, ← bytes_subsetPlan C.streamChunk_pos hplan]
              exact hperm.flatMap_right _
            have hcover : Brought req m t₂ (pieces.flatMap (pieceWrites req))
                (pieces.flatMap Piece.bytes) := by
              obtain ⟨hi, -, hplanned⟩ := planned_subsetPlan C.streamChunk_pos hplan
              rw [← chunkSizeOf_striped hs] at hplanned
              refine Brought.flatMap fun q hq => ?_
              have hread : Forwarded.whole q ∈
                  passOn C.verify true plan s.chunkDevices.length c := by
                rw [hfs]
                exact List.mem_map.mpr ⟨q, hq, rfl⟩
              exact brought_piece (hfair.narrow hstream hs
                  (sized_subsetPlan C.streamChunk_pos hplan (hperm.mem_iff.mp hq)))
                (carries_piece hplanned hstream (mem_passOn hread)) (htargets q hq)
            refine arrived_of_sent (ht''.trans (hsent.trans_nil hdrain)) ?_ hcover hbytes ?_
            · intro w hw
              obtain ⟨q, -, hq⟩ := List.mem_flatMap.mp (List.mem_of_getLast? hw)
              exact signaled_writesOf hq
            · rw [htotal, ← hbytes.length_eq, length_bytes, Nat.zero_add]

end Stripes

/-! ## 全体の GET -/

section Whole

variable {C : Config} {req : DescriptorGetReqMsg} {m : BlockMeta} {left : ℕ} {t : History}
  (hwhole : req.stripes = [])
include hwhole

theorem arrived_empty (hzero : m.size = 0) (ht : Sent [] t [] 0 0) : Arrived req m 0 t 0 := by
  refine arrived_of_sent ht (fun w hw => by cases hw) .nil ?_ ?_
  · rw [requested_whole hwhole, hzero]
    exact .refl _
  · rw [requested_whole hwhole, hzero]
    rfl

theorem sound_serveGetSlab {len : ℕ} (hlen : (⟨.cacheLookup, some len⟩ : Issued) ∈ t)
    (ht : Sent [] t [] 0 0) :
    Posts (Meant C req m) (Sound C req m left) t (serveGetSlab req len) := by
  unfold serveGetSlab
  split
  · exact sound_notFound
  split
  next hzero =>
    refine sound_found fun _ hfair => ?_
    exact arrived_empty hwhole ((hfair.cached len hlen).symm.trans hzero) ht
  next hpos =>
    have hw : ∀ w ∈ slabWrites req len, Meant C req m t w := fun w hw => .slab hwhole hlen hw
    refine (postWrites_sent hw 0).meant.bind fun t' ok hsuf hsent => ?_
    cases ok with
    | false => exact sound_none
    | true =>
      refine Posts.pollN (fun _ => sound_none) (sound_found fun _ hfair => ?_)
      have hsize := hfair.cached len (List.mem_cons_of_mem _ (hsuf.subset hlen))
      refine arrived_of_capped ht (capped_slabWrites req hpos) (hsent rfl) (fun t => ?_) ?_
      · rw [requested_whole hwhole, ← hsize]
        exact brought_slabWrites req m t len
      · rw [requested_whole hwhole, List.length_range, hsize]

omit hwhole in
theorem bytes_streamPlan (hm : Laid m) {plan : List Piece}
    (hplan : streamPlan C m = some plan) : plan.flatMap Piece.bytes = List.range m.size := by
  unfold streamPlan at hplan
  cases hs : m.striping with
  | none =>
    rw [hs] at hplan
    cases hplan
    rw [List.flatMap_singleton, List.range_eq_range']
    rfl
  | some s =>
    rw [hs] at hplan
    cases wholePlan_eq_some hplan
    rw [bytes_wholePieces C.streamChunk_pos, flatMap_stripeBytes (hm s hs)]

omit hwhole in
theorem streamed_perm (hfair : Fair C m left t) {plan pieces : List Piece} {c : Completions}
    (hstream : (⟨.stream plan, c⟩ : Issued) ∈ t) (hplan : streamPlan C m = some plan)
    (hne : pieces ≠ []) (hfs : streamed C m plan c = pieces.map .whole) : pieces.Perm plan := by
  unfold streamPlan at hplan
  unfold streamed at hfs
  cases hs : m.striping with
  | none =>
    rw [hs] at hplan hfs
    cases hplan
    obtain ⟨q, rest, rfl⟩ := List.exists_cons_of_ne_nil hne
    cases hevents : c.events with
    | nil =>
      simp [forwardSingle, hevents] at hfs
    | cons e events =>
      simp only [forwardSingle, hevents, List.take_succ_cons, List.take_zero, List.map_cons,
        List.map_nil, List.cons.injEq, Forwarded.whole, Forwarded.read.injEq] at hfs
      simp_all
  | some s =>
    rw [hs] at hplan hfs
    cases wholePlan_eq_some hplan
    refine pieces_perm (hfair.heard (by rw [hs]; rfl) _ c hstream) (fun p hp => ?_) hfs
    exact (sized_wholePieces C.streamChunk_pos hp).stripe

omit hwhole in
theorem narrow_streamPlan (hfair : Fair C m left t) {plan : List Piece} {c : Completions}
    (hstream : (⟨.stream plan, c⟩ : Issued) ∈ t) (hplan : streamPlan C m = some plan) {q : Piece}
    (hq : q ∈ plan) : q.length < 2 ^ 32 := by
  cases hs : m.striping with
  | none =>
    rw [streamPlan, hs] at hplan
    cases hplan
    rcases hfair.streamed _ c hstream with ⟨hstriped, -⟩ | hnarrow
    · rw [hs] at hstriped
      cases hstriped
    · rw [List.mem_singleton.mp hq]
      exact hnarrow.file hs
  | some s =>
    rw [streamPlan, hs] at hplan
    cases wholePlan_eq_some hplan
    exact hfair.narrow hstream hs (sized_wholePieces C.streamChunk_pos hq)

def Attempted (C : Config) (req : DescriptorGetReqMsg) (m : BlockMeta) (left : ℕ) (t : History) :
    Tried → Prop
  | .served n => Laid m → Fair C m left t → Arrived req m 0 t n
  | .gone => True
  | .failed => m.size ≠ 0 ∧ (posted t = [] → Sent [] t [] 0 0)

theorem attempted_tryServe (ht : Sent [] t [] 0 0) :
    Posts (Meant C req m) (Attempted C req m left) t (tryServeGetViaSlabWithMeta C m req) := by
  unfold tryServeGetViaSlabWithMeta
  split
  next hzero => exact fun _ _ => arrived_empty hwhole hzero ht
  next hsize =>
    split
    · exact ⟨hsize, fun _ => ht⟩
    refine Posts.issue (c := .alloc _) (fun _ h => by cases h) fun (ok : Bool) => ?_
    have ht₁ := ht.then (e := ⟨.alloc m.size, ok⟩) rfl rfl rfl
    cases ok with
    | false => exact ⟨hsize, fun _ => ht₁⟩
    | true =>
      refine Posts.issue (c := .openWhole) (fun _ h => by cases h) fun (r : Option Bool) => ?_
      have ht₂ := ht₁.then (e := ⟨.openWhole, r⟩) rfl rfl rfl
      match r with
      | none => exact ⟨hsize, fun _ => ht₂⟩
      | some false => trivial
      | some true =>
        dsimp only
        split
        · exact ⟨hsize, fun _ => ht₂⟩
        next plan hplan =>
          refine Posts.issue (c := .stream plan) (fun _ h => by cases h) fun c => ?_
          have ht₃ := ht₂.then (e := ⟨.stream plan, c⟩) rfl rfl rfl
          have hidle : Idle [] _ ⟨0, 0, 0, false⟩ := ⟨List.nil_suffix, fun _ => ⟨rfl, ht₃⟩⟩
          refine (postStream_sent (fun q hq => .staged hwhole hplan List.mem_cons_self
            (mem_streamed hplan hq) rfl) hidle).meant.bind fun t₁ p₁ hsuf₁ h₁ => ?_
          refine (drain_sent p₁).meant.bind fun t₂ p₂ hsuf₂ h₂ => ?_
          split
          · exact ⟨hsize, fun hnone => ((h₂.1 _ h₁.1).2 hnone).2⟩
          next hok =>
            obtain ⟨hok, hposted⟩ := not_or.mp hok
            obtain ⟨rfl, hdrain⟩ := h₂.2 (by simpa using hok)
            obtain ⟨-, pieces, hfs, hcount, hsent⟩ := h₁.2 (by simpa using hok)
            intro hm hfair
            have hstream : (⟨.stream plan, c⟩ : Issued) ∈ t₂ :=
              (hsuf₁.trans hsuf₂).subset List.mem_cons_self
            have hne : pieces ≠ [] := by
              rintro rfl
              exact hposted hcount
            have hperm := streamed_perm hfair hstream hplan hne hfs
            have hbytes : (pieces.flatMap Piece.bytes).Perm (requested req m) := by
              rw [requested_whole hwhole, ← bytes_streamPlan hm hplan]
              exact hperm.flatMap_right _
            have hcover : Brought req m t₂ (pieces.map (stagedWrite req))
                (pieces.flatMap Piece.bytes) := by
              obtain ⟨⟨hi, hplanned⟩, -⟩ := planned_streamPlan hm hplan
              rw [List.map_eq_flatMap]
              refine Brought.flatMap fun q hq => ?_
              have hread : Forwarded.whole q ∈ streamed C m plan c := by
                rw [hfs]
                exact List.mem_map.mpr ⟨q, hq, rfl⟩
              exact brought_staged (narrow_streamPlan hfair hstream hplan (hperm.mem_iff.mp hq))
                (carries_piece hplanned hstream (mem_streamed hplan hread))
            refine arrived_of_sent (ht₃.trans (hsent.trans_nil hdrain)) (fun w hw => ?_) hcover
              hbytes ?_
            · obtain ⟨q, -, rfl⟩ := List.mem_map.mp (List.mem_of_getLast? hw)
              rfl
            · rw [requested_whole hwhole, List.length_range]

theorem brought_segments (hm : Laid m) (hsize : m.size ≠ 0) :
    Capped (registered req.dstRkey (laidOut req 0 (segments m (fileLen m)))) ∧
      ((segments m (fileLen m)).map Prod.snd).sum = (requested req m).length ∧
      (Narrow m → ∀ t, Brought req m t
        (registered req.dstRkey (laidOut req 0 (segments m (fileLen m)))) (requested req m)) := by
  cases hs : m.striping with
  | none =>
    have hsegments : segments m (fileLen m) = [(.file, m.size)] := by
      rw [segments, hs, fileLen, hs]
      rfl
    have hwrites : registered req.dstRkey (laidOut req 0 [(.file, m.size)]) =
        [⟨.file, req.dstAddr + UInt64.ofNat 0, req.dstRkey, UInt32.ofNat m.size, true⟩] :=
      if_neg hsize
    rw [hsegments, hwrites]
    refine ⟨⟨[], _, rfl, rfl, fun _ hw => (List.not_mem_nil hw).elim⟩, ?_, fun hnarrow t => ?_⟩
    · rw [requested_whole hwhole, List.length_range]
      rfl
    · rw [requested_whole hwhole, List.range_eq_range']
      exact .write (hnarrow.file hs) (fun j _ => Nat.zero_add j) fun _ => ⟨rfl, rfl⟩
  | some s =>
    have hlaid := hm s hs
    have hreq : requested req m = (List.range s.chunkPaths.length).flatMap (stripeBytes s) := by
      rw [requested_whole hwhole, flatMap_stripeBytes hlaid]
    have hne : List.range s.chunkPaths.length ≠ [] := by
      intro hnil
      simp_all [requested_whole]
    rw [laidOut_segments hs hlaid]
    refine ⟨capped_chunks hlaid hne fun i hi => List.mem_range.mp hi, ?_, fun hnarrow t => ?_⟩
    · rw [hreq, length_flatMap_stripeBytes, fileLen_striped hs, segments, hs, List.map_map]
      rfl
    · rw [hreq]
      exact brought_chunks hs fun i hi => hnarrow.stripe hs (List.mem_range.mp hi)

theorem sound_whole (ht : Sent [] t [] 0 0) (r : Option ℕ)
    (hr : ∀ len, r = some len → (⟨.cacheLookup, some len⟩ : Issued) ∈ t) :
    Posts (Meant C req m) (Sound C req m left) t (serveWhole C m req r) := by
  cases r with
  | some len => exact sound_serveGetSlab hwhole (hr len rfl) ht
  | none =>
    have htry : Posts (Meant C req m) (Attempted C req m left) t
        (tryServeGetViaSlabWithMeta C m req) := attempted_tryServe hwhole ht
    refine htry.bind fun t' tried _ htried => ?_
    cases tried with
    | served n => exact sound_found htried
    | gone => exact sound_notFound
    | failed =>
      refine Posts.issue (c := .readChunks _) (fun _ h => by cases h)
        fun (answer : Option (ℕ → ℕ)) => ?_
      cases answer with
      | none => exact sound_notFound
      | some read =>
        dsimp only
        unfold serveGetFallback
        dsimp only
        split
        · exact sound_notFound
        refine sound_postRegistered (fun w hw => .segment hwhole List.mem_cons_self hw)
          fun t'' hsuf hm hfair => ?_
        obtain ⟨hnarrow, hread⟩ := hfair.read _ _ (hsuf.subset List.mem_cons_self)
        obtain ⟨hcap, hsum, hbytes⟩ := brought_segments hwhole hm htried.1
        rw [segments_congr hread]
        exact ⟨(htried.2 (hfair.fresh _ _ _ hsuf)).then rfl rfl rfl, hcap, hsum, hbytes hnarrow⟩

end Whole

theorem sound_handleDescriptorGet (C : Config) (req : DescriptorGetReqMsg) (m : BlockMeta)
    (left : ℕ) :
    Posts (Meant C req m) (Sound C req m left) [] (handleDescriptorGet C req (some m)) := by
  have hstart : Sent [] [] [] 0 0 := .refl _ _
  unfold handleDescriptorGet
  dsimp only
  split
  next hne => exact sound_serveGetStripes hne hstart
  next hwhole =>
    have hwhole : req.stripes = [] := not_not.mp hwhole
    split
    · exact sound_notFound
    · unfold cached
      split
      · exact sound_whole hwhole hstart none fun _ h => by cases h
      · refine Posts.issue (c := .cacheLookup) (fun _ h => by cases h) fun (r : Option ℕ) => ?_
        have ht := hstart.then (e := ⟨.cacheLookup, r⟩) rfl rfl rfl
        simp_all [sound_whole]

def served (C : Config) (req : DescriptorGetReqMsg) (m : BlockMeta)
    (answer : History → (c : Cmd) → c.Resp) : History :=
  ((handleDescriptorGet C req (some m)).replay answer []).1

def reply (C : Config) (req : DescriptorGetReqMsg) (m : BlockMeta)
    (answer : History → (c : Cmd) → c.Resp) : Reply :=
  ((handleDescriptorGet C req (some m)).replay answer []).2

theorem found_means_arrived (C : Config) (req : DescriptorGetReqMsg) (m : BlockMeta)
    (hm : ∀ s, m.striping = some s → WellLaid m s) (answer : History → (c : Cmd) → c.Resp)
    (left : ℕ) (hfair : Fair C m left (served C req m answer)) (r : Served)
    (hr : reply C req m answer = some r) (hfound : r.found = true) :
    Arrived req m left (served C req m answer) r.bytesWritten :=
  (sound_handleDescriptorGet C req m left).replay answer hm hfair r hr hfound

/-! ## 例 -/

theorem Brought.length {req : DescriptorGetReqMsg} {m : BlockMeta} {t : History}
    {bytes : List ℕ} (h : Brought req m t ws bytes) :
    bytes.length = (ws.map fun w => w.len.toNat).sum := by
  induction h with
  | nil => rfl
  | cons _ _ ih => rw [List.length_append, List.length_range', ih, List.map_cons, List.sum_cons]

def sampleMeta : BlockMeta where
  deviceId := 0
  filePath := ""
  size := 4104
  objectHandle := "h"
  objectGeneration := 1
  contentEtag := ""
  layoutVersion := 1
  createdAt := 0
  lastAccessedAt := 0
  ttlSeconds := 0
  numTokens := 0
  numLayers := 1
  dtype := "uint8"
  compressed := false
  striping := some ⟨4096, [0, 0], ["a", "b"], 4104, [], []⟩

def sampleRequest (stripes : List UInt32) : DescriptorGetReqMsg where
  key := "0:k"
  objectHandle := "h"
  objectGeneration := 1
  contentEtag := ""
  layoutVersion := 1
  size := 4104
  isStriped := true
  stripeCount := 2
  chunkSize := 4096
  dstAddr := 10000
  dstRkey := 1
  maxSize := 4104
  stripes := stripes
  dstSegments := [(10000, 1, 3000), (20000, 2, 1104)]

def sampleConfig : Config where
  streamChunk := 4096
  streamChunk_pos := by decide
  verify := false
  forceDiskRead := false
  chunkIsLocal := fun _ => true

def sampleAnswer (room : Bool) : History → (c : Cmd) → c.Resp
  | _, .cacheLookup => (none : Option ℕ)
  | _, .alloc _ => room
  | _, .openWhole => some true
  | _, .stream plan => ⟨(plan.zipIdx.map fun p => (p.2, some p.1.length)).reverse, fun _ => true⟩
  | _, .readChunks _ => some (fileLen sampleMeta)
  | _, .registerMr => true
  | _, .post _ => true
  | _, .pollN _ => (.ok () : Except ℕ Unit)
  | _, .pollAvailable _ => (.ok 0 : Except ℕ (Fin _))

def streams (t : History) : List (List Piece × List (ℕ × Option ℕ)) :=
  t.filterMap fun e => match e with
    | ⟨.stream plan, c⟩ => some (plan, (c : Completions).events)
    | _ => none

def direct (e : Issued) : Bool :=
  match e with
  | ⟨.cacheLookup, r⟩ => (r : Option ℕ).isNone
  | ⟨.readChunks _, _⟩ => false
  | _ => true

theorem fair_of_direct {C : Config} {m : BlockMeta} {t : History} (hnarrow : Narrow m)
    (hdirect : t.all direct = true)
    (hstreams : ∀ x ∈ streams t, (x.2.map Prod.fst).Nodup ∧
      ∀ i < x.1.length, i ∈ x.2.map Prod.fst) : Fair C m 0 t := by
  have hall := List.all_eq_true.mp hdirect
  refine ⟨rfl, fun _ plan c hmem => ?_, fun _ _ _ => .inr hnarrow, fun l read hmem => ?_,
    fun l read t' hsuf => ?_, fun len hmem => ?_⟩
  · obtain ⟨hnodup, hevery⟩ := hstreams _ (List.mem_filterMap.mpr ⟨_, hmem, rfl⟩)
    exact ⟨hnodup, .inl fun s i p hp _ => hevery i (List.getElem?_eq_some_iff.mp hp).1⟩
  · cases hall _ hmem
  · cases hall _ (hsuf.subset List.mem_cons_self)
  · cases hall _ hmem

def longStriping : StripingInfo := ⟨8192, [0, 0], ["a", "b"], 8200, [], []⟩

def longMeta : BlockMeta :=
  { sampleMeta with size := 8200, striping := some longStriping }

def longRequest (stripes : List UInt32) : DescriptorGetReqMsg :=
  { sampleRequest stripes with size := 8200, maxSize := 8200, dstSegments := [] }

def verifying : Config := { sampleConfig with verify := true }

theorem longStriping_laid : ∀ s, longMeta.striping = some s → WellLaid longMeta s := by
  rintro s ⟨⟩
  exact ⟨by decide, by decide, by decide, .inl rfl, fun _ _ h => (nomatch h),
    fun _ _ h => (nomatch h), rfl, by decide⟩

theorem found_means_arrived_verified :
    reply verifying (longRequest [0, 1]) longMeta (sampleAnswer true) = some ⟨true, 8200, 2⟩ ∧
      Arrived (longRequest [0, 1]) longMeta 0
        (served verifying (longRequest [0, 1]) longMeta (sampleAnswer true)) 8200 := by
  have hreply : reply verifying (longRequest [0, 1]) longMeta (sampleAnswer true) =
      some ⟨true, 8200, 2⟩ := by decide +kernel
  refine ⟨hreply, ?_⟩
  refine found_means_arrived verifying (longRequest [0, 1]) longMeta longStriping_laid
    (sampleAnswer true) 0 (fair_of_direct ?_ ?_ ?_) ⟨true, 8200, 2⟩ hreply rfl
  · show ∀ i < fileCount longMeta, fileLen longMeta i < 2 ^ 32
    decide +kernel
  · decide +kernel
  · decide +kernel

def defaultAnswer : History → (c : Cmd) → c.Resp
  | _, .stream _ => ⟨[(0, none)], fun _ => true⟩
  | t, c => sampleAnswer true t c

def partialAnswer : History → (c : Cmd) → c.Resp
  | _, .stream _ => ⟨[(0, some 4096), (1, none)], fun _ => true⟩
  | _, .readChunks _ => some (fileLen longMeta)
  | t, c => sampleAnswer true t c

theorem found_without_arrival :
    (reply verifying (longRequest [0]) longMeta defaultAnswer = some ⟨true, 0, 1⟩ ∧
      ¬ Arrived (longRequest [0]) longMeta 0
        (served verifying (longRequest [0]) longMeta defaultAnswer) 0) ∧
    (reply sampleConfig (longRequest []) longMeta partialAnswer = some ⟨true, 8200, 2⟩ ∧
      ¬ Arrived (longRequest []) longMeta 0
        (served sampleConfig (longRequest []) longMeta partialAnswer) 8200) := by
  refine ⟨⟨by decide +kernel, fun h => ?_⟩, ⟨by decide +kernel, fun h => ?_⟩⟩
  · have := h.count
    revert this
    decide +kernel
  · obtain ⟨bytes, hbrought, hperm⟩ := h.bytes
    have hlen := hbrought.length.symm.trans hperm.length_eq
    revert hlen
    decide +kernel

end ContextStore.Serve
