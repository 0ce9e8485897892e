import ContextStore.Rdma.Serve

/-!
# 読む範囲と書き込み先
-/

namespace ContextStore.Serve

open Conc Wire Storage

/-! ## 割り当て -/

def cover (segments : List Segment) : ℕ := (segments.map fun s => s.2.2.toNat).sum

@[simp] theorem cover_nil : cover [] = 0 := rfl

@[simp] theorem cover_cons (s : Segment) (segments : List Segment) :
    cover (s :: segments) = s.2.2.toNat + cover segments := by
  simp [cover]

@[simp] theorem cover_append (a b : List Segment) : cover (a ++ b) = cover a + cover b := by
  simp [cover]

def Assigns (segments : List Segment) (offset len : ℕ) (dst : UInt64) (rkey : UInt32) : Prop :=
  ∃ before seg after inner, segments = before ++ seg :: after ∧ rkey = seg.2.1 ∧
    dst = seg.1 + UInt64.ofNat inner ∧ inner + len ≤ seg.2.2.toNat ∧ cover before + inner = offset

variable {segments : List Segment} {offset len : ℕ}

theorem Assigns.cons {dst : UInt64} {rkey : UInt32} (h : Assigns segments offset len dst rkey)
    (s : Segment) :
    Assigns (s :: segments) (s.2.2.toNat + offset) len dst rkey := by
  obtain ⟨before, seg, after, inner, rfl, hrkey, hdst, hle, hoff⟩ := h
  refine ⟨s :: before, seg, after, inner, rfl, hrkey, hdst, hle, ?_⟩
  rw [cover_cons]
  omega

theorem Assigns.shorten {len' : ℕ} {dst : UInt64} {rkey : UInt32}
    (h : Assigns segments offset len dst rkey) (hle : len' ≤ len) :
    Assigns segments offset len' dst rkey := by
  obtain ⟨before, seg, after, inner, rfl, hrkey, hdst, hin, hoff⟩ := h
  exact ⟨before, seg, after, inner, rfl, hrkey, hdst, by omega, hoff⟩

def Follows (segments : List Segment) : ℕ → List Segment → Prop
  | _, [] => True
  | offset, t :: ts => Assigns segments offset t.2.2.toNat t.1 t.2.1 ∧
      Follows segments (offset + t.2.2.toNat) ts

variable {ts : List Segment}

theorem Follows.cons (h : Follows segments offset ts) (s : Segment) :
    Follows (s :: segments) (s.2.2.toNat + offset) ts := by
  induction ts generalizing offset with
  | nil => trivial
  | cons t ts ih =>
    refine ⟨h.1.cons s, ?_⟩
    rw [Nat.add_assoc]
    exact ih h.2

theorem toNat_add {a b : UInt64} (h : a.toNat + b.toNat < 2 ^ 64) :
    (a + b).toNat = a.toNat + b.toNat := by
  rw [UInt64.toNat_add, Nat.mod_eq_of_lt h]

theorem toNat_min (a b : UInt64) : (min a b).toNat = min a.toNat b.toNat := by
  have hmin : min a b = if a ≤ b then a else b := rfl
  rw [hmin]
  by_cases h : a ≤ b
  · rw [if_pos h, Nat.min_eq_left (UInt64.le_iff_toNat_le.mp h)]
  · have := UInt64.le_iff_toNat_le.not.mp h
    rw [if_neg h, Nat.min_eq_right (by omega)]

def cut : List Segment → ℕ → ℕ → List Segment
  | [], _, _ => []
  | s :: segments, offset, length =>
    if length = 0 then []
    else if s.2.2.toNat ≤ offset then cut segments (offset - s.2.2.toNat) length
    else (s.1 + UInt64.ofNat offset, s.2.1,
        UInt64.ofNat (min length (s.2.2.toNat - offset))) ::
      cut segments 0 (length - (s.2.2.toNat - offset))

@[simp] theorem cut_zero (segments : List Segment) (offset : ℕ) : cut segments offset 0 = [] := by
  cases segments <;> simp [cut]

theorem toNat_min_sub (segLen : UInt64) (length offset : ℕ) :
    (UInt64.ofNat (min length (segLen.toNat - offset))).toNat =
      min length (segLen.toNat - offset) := by
  have := segLen.toNat_lt
  exact UInt64.toNat_ofNat_of_lt (show min length (segLen.toNat - offset) < 2 ^ 64 by omega)

theorem toNat_pos {x : UInt64} (h : x ≠ 0) : 0 < x.toNat := by
  rw [Nat.pos_iff_ne_zero]
  exact fun h' => h (UInt64.toNat_inj.mp h')

theorem mapRange_eq {segBase cursor remaining : UInt64}
    (hcover : segBase.toNat + cover segments < 2 ^ 64) (hcursor : segBase ≤ cursor) :
    mapRange segments segBase cursor remaining =
      if remaining = 0 ∨ cursor.toNat + remaining.toNat ≤ segBase.toNat + cover segments then
        some (cut segments (cursor.toNat - segBase.toNat) remaining.toNat)
      else none := by
  induction segments generalizing segBase cursor remaining with
  | nil =>
    have hcur := UInt64.le_iff_toNat_le.mp hcursor
    by_cases hzero : remaining = 0
    · simp [mapRange, hzero, cut]
    · have hpos := toNat_pos hzero
      have hlt : 0 < remaining := UInt64.lt_iff_toNat_lt.mpr hpos
      rw [mapRange, if_pos hlt, if_neg]
      rintro (h | h)
      · exact hzero h
      · rw [cover_nil] at h
        omega
  | cons s segments ih =>
    obtain ⟨addr, rkey, segLen⟩ := s
    rw [cover_cons] at hcover ⊢
    dsimp only at hcover ⊢
    have hend : (segBase + segLen).toNat = segBase.toNat + segLen.toNat := toNat_add (by omega)
    have hcur := UInt64.le_iff_toNat_le.mp hcursor
    by_cases hzero : remaining = 0
    · simp [mapRange, hzero]
    have hpos := toNat_pos hzero
    have hsome : 0 < remaining := UInt64.lt_iff_toNat_lt.mpr hpos
    rw [mapRange, cut, if_neg hpos.ne']
    dsimp only
    by_cases hin : cursor < segBase + segLen
    · have hlt := UInt64.lt_iff_toNat_lt.mp hin
      have hn : (min remaining (segBase + segLen - cursor)).toNat =
          min remaining.toNat (segBase.toNat + segLen.toNat - cursor.toNat) := by
        rw [toNat_min, UInt64.toNat_sub_of_le _ _ (UInt64.le_iff_toNat_le.mpr hlt.le), hend]
      have hinner : UInt64.ofNat (cursor.toNat - segBase.toNat) = cursor - segBase := by
        rw [← UInt64.toNat_sub_of_le _ _ hcursor, UInt64.ofNat_toNat]
      have hpiece : UInt64.ofNat (min remaining.toNat
          (segLen.toNat - (cursor.toNat - segBase.toNat))) =
            min remaining (segBase + segLen - cursor) := by
        rw [← UInt64.toNat_inj, hn, toNat_min_sub]
        omega
      rw [if_pos ⟨hin, hsome⟩, if_neg (show ¬ segLen.toNat ≤
        cursor.toNat - segBase.toNat by omega), hpiece, hinner]
      generalize min remaining (segBase + segLen - cursor) = n at hn
      have hle : n ≤ remaining := UInt64.le_iff_toNat_le.mpr (by omega)
      have hsub := UInt64.toNat_sub_of_le _ _ hle
      by_cases hdone : remaining - n = 0
      · have : (remaining - n).toNat = 0 := by rw [hdone]; rfl
        rw [if_pos hdone, if_pos (.inr (by omega)), show remaining.toNat - (segLen.toNat -
          (cursor.toNat - segBase.toNat)) = 0 by omega, cut_zero]
      ·
        have hmore : (remaining - n).toNat ≠ 0 := fun h => hdone (UInt64.toNat_inj.mp h)
        have hnext : (cursor + n).toNat = segBase.toNat + segLen.toNat := by
          rw [toNat_add (by omega)]
          omega
        rw [if_neg hdone, ih (by omega) (UInt64.le_iff_toNat_le.mpr (by omega)), hnext, hend,
          hsub, Nat.sub_self]
        by_cases hfit : cursor.toNat + remaining.toNat ≤ segBase.toNat + (segLen.toNat +
            cover segments)
        · rw [if_pos (.inr (by omega)), if_pos (.inr hfit), Option.map_some,
            show remaining.toNat - n.toNat = remaining.toNat - (segLen.toNat -
              (cursor.toNat - segBase.toNat)) by omega]
        · rw [if_neg (by simp only [hdone, false_or]; omega),
            if_neg (by simp only [hzero, false_or]; exact hfit), Option.map_none]
    · have hge : segBase.toNat + segLen.toNat ≤ cursor.toNat := by
        rw [← hend]
        exact Nat.not_lt.mp fun h => hin (UInt64.lt_iff_toNat_lt.mpr h)
      rw [if_neg (fun h => hin h.1), if_neg hzero, ih (by omega)
        (UInt64.le_iff_toNat_le.mpr (by omega)), hend, if_pos (show segLen.toNat ≤
          cursor.toNat - segBase.toNat by omega), Nat.add_assoc, Nat.sub_sub]

theorem follows_cut (segments : List Segment) (offset length : ℕ) :
    Follows segments offset (cut segments offset length) := by
  induction segments generalizing offset length with
  | nil => trivial
  | cons s segments ih =>
    rw [cut]
    split
    · trivial
    split
    next hge =>
      have := (ih (offset - s.2.2.toNat) length).cons s
      rwa [Nat.add_sub_cancel' hge] at this
    next hlt =>
      have hn := toNat_min_sub s.2.2 length offset
      refine ⟨⟨[], s, segments, offset, rfl, rfl, rfl, by rw [hn]; omega, by simp⟩, ?_⟩
      rw [hn]
      by_cases hlast : length ≤ s.2.2.toNat - offset
      · rw [Nat.sub_eq_zero_of_le hlast, cut_zero]
        trivial
      · have := (ih 0 (length - (s.2.2.toNat - offset))).cons s
        rwa [show s.2.2.toNat + 0 = offset + min length (s.2.2.toNat - offset) by omega] at this

theorem Follows.assigns {before after : List Segment} {s : Segment}
    (h : Follows segments offset (before ++ s :: after)) :
    Assigns segments (offset + cover before) s.2.2.toNat s.1 s.2.1 := by
  induction before generalizing offset with
  | nil => exact h.1
  | cons b before ih =>
    have := ih h.2
    rwa [Nat.add_assoc, ← cover_cons] at this

theorem mapRangeToSegments_follows {objectOffset length : UInt64} (hcover : cover segments < 2 ^ 64)
    (h : mapRangeToSegments segments objectOffset length = some ts) :
    Follows segments objectOffset.toNat ts := by
  have hzero : (0 : UInt64).toNat + cover segments < 2 ^ 64 := by simpa using hcover
  rw [mapRangeToSegments, mapRange_eq hzero (UInt64.le_iff_toNat_le.mpr (Nat.zero_le _))] at h
  split at h
  · cases h
    exact follows_cut ..
  · cases h

theorem cover_mapRange {segBase cursor remaining : UInt64}
    (h : mapRange segments segBase cursor remaining = some ts) : cover ts = remaining.toNat := by
  induction segments generalizing segBase cursor remaining ts with
  | nil =>
    simp_all [mapRange]
  | cons s segments ih =>
    obtain ⟨addr, rkey, segLen⟩ := s
    unfold mapRange at h
    dsimp only at h
    split at h
    next hin =>
      have hle : (min remaining (segBase + segLen - cursor)).toNat ≤ remaining.toNat := by
        rw [toNat_min]
        omega
      generalize min remaining (segBase + segLen - cursor) = n at h hle
      have hsub := UInt64.toNat_sub_of_le _ _ (UInt64.le_iff_toNat_le.mpr hle)
      split at h
      next hdone =>
        grind [cover_cons, cover_nil]
      next hmore =>
        obtain ⟨rest, hrest, rfl⟩ := Option.map_eq_some_iff.mp h
        rw [cover_cons, ih hrest]
        dsimp only
        omega
    next hout =>
      split at h
      next hzero =>
        cases h
        rw [hzero]
        rfl
      next => exact ih h

def spots (s : Segment) : List (UInt64 × UInt32) :=
  (List.range s.2.2.toNat).map fun i => (s.1 + UInt64.ofNat i, s.2.1)

def places (segments : List Segment) : List (UInt64 × UInt32) := segments.flatMap spots

theorem places_cut (segments : List Segment) (offset length : ℕ) :
    places (cut segments offset length) = ((places segments).drop offset).take length := by
  induction segments generalizing offset length with
  | nil => simp [cut, places]
  | cons s segments ih =>
    have hlen : (spots s).length = s.2.2.toNat := by simp [spots]
    rw [cut, show places (s :: segments) = spots s ++ places segments from rfl, List.drop_append,
      List.take_append, List.length_drop, hlen]
    split
    next hzero => simp [hzero, places]
    split
    next hge =>
      have hnil : (spots s).drop offset = [] := List.drop_eq_nil_of_le (hlen ▸ hge)
      rw [ih, hnil, List.take_nil, List.nil_append, Nat.sub_eq_zero_of_le hge, Nat.sub_zero]
    next hlt =>
      have hfirst : spots (s.1 + UInt64.ofNat offset, s.2.1,
          UInt64.ofNat (min length (s.2.2.toNat - offset))) =
            ((spots s).drop offset).take length := by
        have hn := toNat_min_sub s.2.2 length offset
        refine List.ext_getElem (by simp [spots, hn]) fun i h₁ h₂ => ?_
        simp [spots, UInt64.ofNat_add, UInt64.add_assoc]
      rw [show offset - s.2.2.toNat = 0 by omega, ← ih 0, ← hfirst]
      rfl

def Within (t s : Segment) : Prop :=
  t.2.1 = s.2.1 ∧ s.1.toNat ≤ t.1.toNat ∧
    t.1.toNat + t.2.2.toNat ≤ s.1.toNat + s.2.2.toNat

structure Exact (segments : List Segment) (offset length : ℕ) (ts : List Segment) : Prop where
  bytes : places ts = ((places segments).drop offset).take length
  nonempty : ∀ t ∈ ts, 0 < t.2.2
  consecutive : ∃ before mid after, segments = before ++ mid ++ after ∧ cover before ≤ offset ∧
    List.Forall₂ Within ts (mid.filter fun s => decide (0 < s.2.2))

theorem filter_eq_nil_of_cover (h : cover segments = 0) :
    (segments.filter fun s => decide (0 < s.2.2)) = [] := by
  induction segments with
  | nil => rfl
  | cons s segments ih =>
    rw [cover_cons] at h
    have hs : s.2.2 = 0 := UInt64.toNat_inj.mp (by show _ = 0; omega)
    simpa [hs] using ih (by omega)

theorem cut_nonempty (segments : List Segment) (offset length : ℕ) :
    ∀ t ∈ cut segments offset length, 0 < t.2.2 := by
  induction segments generalizing offset length with
  | nil => simp [cut]
  | cons s segments ih =>
    rw [cut]
    split
    · simp
    split
    · exact ih _ _
    · intro t ht
      rcases List.mem_cons.mp ht with rfl | ht
      · rw [UInt64.lt_iff_toNat_lt, toNat_min_sub]
        show 0 < _
        omega
      · exact ih _ _ t ht

theorem cut_consecutive (haddr : ∀ s ∈ segments, s.1.toNat + s.2.2.toNat < 2 ^ 64)
    (offset length : ℕ) :
    ∃ before mid after, segments = before ++ mid ++ after ∧ cover before ≤ offset ∧
      List.Forall₂ Within (cut segments offset length)
        (mid.filter fun s => decide (0 < s.2.2)) := by
  induction segments generalizing offset length with
  | nil => exact ⟨[], [], [], rfl, Nat.zero_le _, .nil⟩
  | cons s segments ih =>
    have ih := ih fun s hs => haddr s (List.mem_cons_of_mem _ hs)
    have hs := haddr s List.mem_cons_self
    rw [cut]
    split
    · exact ⟨[], [], s :: segments, rfl, Nat.zero_le _, .nil⟩
    split
    next hge =>
      obtain ⟨before, mid, after, heq, hle, hmid⟩ := ih (offset - s.2.2.toNat) length
      refine ⟨s :: before, mid, after, by rw [heq]; rfl, ?_, hmid⟩
      rw [cover_cons]
      omega
    next hlt =>
      obtain ⟨before, mid, after, heq, hle, hmid⟩ := ih 0 (length - (s.2.2.toNat - offset))
      refine ⟨[], s :: (before ++ mid), after, by rw [heq]; rfl, Nat.zero_le _, ?_⟩
      have hpos : 0 < s.2.2 := UInt64.lt_iff_toNat_lt.mpr (by show 0 < _; omega)
      have hstart : (s.1 + UInt64.ofNat offset).toNat = s.1.toNat + offset := by
        have hoff : (UInt64.ofNat offset).toNat = offset :=
          UInt64.toNat_ofNat_of_lt (show offset < 2 ^ 64 by omega)
        rw [toNat_add (by omega), hoff]
      rw [List.filter_cons_of_pos (by simpa using hpos), List.filter_append,
        filter_eq_nil_of_cover (Nat.le_zero.mp hle), List.nil_append]
      refine .cons ⟨rfl, ?_, ?_⟩ hmid
      · rw [hstart]
        omega
      · rw [hstart, toNat_min_sub]
        omega

theorem mapRangeToSegments_exact (segments : List Segment) (objectOffset length : UInt64)
    (hcover : cover segments < 2 ^ 64)
    (haddr : ∀ s ∈ segments, s.1.toNat + s.2.2.toNat < 2 ^ 64) :
    ((mapRangeToSegments segments objectOffset length).isSome ↔
      objectOffset.toNat + length.toNat ≤ cover segments ∨ length = 0) ∧
    ∀ ts, mapRangeToSegments segments objectOffset length = some ts →
      Exact segments objectOffset.toNat length.toNat ts := by
  have hzero : (0 : UInt64).toNat + cover segments < 2 ^ 64 := by simpa using hcover
  rw [mapRangeToSegments, mapRange_eq hzero (UInt64.le_iff_toNat_le.mpr (Nat.zero_le _))]
  split
  next h =>
    refine ⟨iff_of_true rfl ?_, fun ts hts => ?_⟩
    · simpa [or_comm] using h
    · cases hts
      exact ⟨places_cut .., cut_nonempty _ _ _, cut_consecutive haddr ..⟩
  next h =>
    refine ⟨iff_of_false (by simp) ?_, fun ts hts => by cases hts⟩
    simpa [or_comm] using h

theorem mapRangeToSegments_exact_straddling :
    Exact [(4096, 7, 4), (8192, 8, 0), (12288, 9, 4)] 2 4
      [(4098, 7, 2), (12288, 9, 2)] := by
  have h := mapRangeToSegments_exact [(4096, 7, 4), (8192, 8, 0), (12288, 9, 4)] 2 4 (by decide)
    (by simp)
  exact h.2 _ (by decide)

/-! ## 読む範囲 -/

variable {p : Piece} {streamChunk stripe : ℕ}

theorem mem_stripePieces {base object : ℕ} (hpos : 0 < streamChunk)
    (h : p ∈ stripePieces streamChunk stripe base object len) :
    p.stripe = stripe ∧ p.source = base + p.fileOffset ∧ p.object = object + p.fileOffset ∧
      0 < p.length ∧ p.length ≤ streamChunk ∧ p.fileOffset + p.length ≤ len := by
  obtain ⟨k, hk, rfl⟩ := List.mem_map.mp h
  have hlt := mul_lt_of_lt_divCeil hpos (List.mem_range.mp hk)
  dsimp only
  omega

def Apart (plan : List Piece) : Prop := plan.Pairwise fun p q => p.source + p.length ≤ q.source

theorem apart_stripePieces (streamChunk stripe base object len : ℕ) :
    Apart (stripePieces streamChunk stripe base object len) := by
  refine List.Pairwise.map _ (fun k l (hkl : k < l) => ?_) List.pairwise_lt_range
  have : k * streamChunk + streamChunk ≤ l * streamChunk := by
    rw [← Nat.succ_mul]
    exact Nat.mul_le_mul_right _ hkl
  dsimp only
  omega

structure Planned (chunkSize total : ℕ) (lo hi : ℕ) (plan : List Piece) : Prop where
  apart : Apart plan
  within : ∀ p ∈ plan, lo ≤ p.source ∧ p.source + p.length ≤ hi
  object : ∀ p ∈ plan, p.object = p.stripe * chunkSize + p.fileOffset
  bound : ∀ p ∈ plan, p.object + p.length ≤ total

theorem Planned.nil (chunkSize total lo : ℕ) : Planned chunkSize total lo lo [] :=
  ⟨.nil, fun _ h => (nomatch h), fun _ h => (nomatch h), fun _ h => (nomatch h)⟩

variable {plan : List Piece} {chunkSize total : ℕ}

theorem Planned.widen {lo hi hi' : ℕ} (h : Planned chunkSize total lo hi plan) (hle : hi ≤ hi') :
    Planned chunkSize total lo hi' plan :=
  ⟨h.apart, fun p hp => ⟨(h.within p hp).1, (h.within p hp).2.trans hle⟩, h.object, h.bound⟩

theorem Planned.append {lo mid hi : ℕ} {a b : List Piece} (ha : Planned chunkSize total lo mid a)
    (hb : Planned chunkSize total mid hi b) (hle : lo ≤ mid) (hle' : mid ≤ hi) :
    Planned chunkSize total lo hi (a ++ b) := by
  refine ⟨List.pairwise_append.mpr ⟨ha.apart, hb.apart, fun p hp q hq => ?_⟩, fun p hp => ?_,
    fun p hp => ?_, fun p hp => ?_⟩
  · exact (ha.within p hp).2.trans (hb.within q hq).1
  · rcases List.mem_append.mp hp with hp | hp
    · exact ⟨(ha.within p hp).1, (ha.within p hp).2.trans hle'⟩
    · exact ⟨hle.trans (hb.within p hp).1, (hb.within p hp).2⟩
  · exact (List.mem_append.mp hp).elim (ha.object p) (hb.object p)
  · exact (List.mem_append.mp hp).elim (ha.bound p) (hb.bound p)

theorem planned_stripePieces (hpos : 0 < streamChunk) (base : ℕ)
    (hbound : stripe * chunkSize + len ≤ total) :
    Planned chunkSize total base (base + len)
      (stripePieces streamChunk stripe base (stripe * chunkSize) len) := by
  refine ⟨apart_stripePieces _ _ _ _ _, fun p hp => ?_, fun p hp => ?_, fun p hp => ?_⟩
  · obtain ⟨-, hsrc, -, -, -, hle⟩ := mem_stripePieces hpos hp
    omega
  · obtain ⟨rfl, -, hobj, -⟩ := mem_stripePieces hpos hp
    exact hobj
  · obtain ⟨-, -, hobj, -, -, hle⟩ := mem_stripePieces hpos hp
    omega

variable {s : StripingInfo}

theorem subsetPlan_cons {capacity i cursor : ℕ} {indices : List ℕ}
    (h : subsetPlan streamChunk s capacity (i :: indices) cursor = some plan) :
    i < s.chunkPaths.length ∧ i * s.chunkSize < s.totalSize ∧ ∃ pieces rest,
      pieces = stripePieces streamChunk i cursor (i * s.chunkSize) (stripeLen s i) ∧
      pieces.all (Piece.fits capacity) = true ∧
      subsetPlan streamChunk s capacity indices (cursor + stripeLen s i) = some rest ∧
      plan = pieces ++ rest := by
  unfold subsetPlan at h
  split at h
  · cases h
  split at h
  · cases h
  split at h
  · cases h
  dsimp only at h
  split at h
  next hi hstart _ hfits =>
    obtain ⟨rest, hrest, rfl⟩ := Option.map_eq_some_iff.mp h
    exact ⟨by omega, by omega, _, rest, rfl, hfits, hrest, rfl⟩
  · cases h

theorem planned_subsetPlan (hpos : 0 < streamChunk) {capacity : ℕ} {indices : List ℕ} {cursor : ℕ}
    (h : subsetPlan streamChunk s capacity indices cursor = some plan) :
    ∃ hi, cursor ≤ hi ∧ Planned s.chunkSize s.totalSize cursor hi plan := by
  induction indices generalizing cursor plan with
  | nil =>
    cases h
    exact ⟨cursor, le_rfl, .nil _ _ _⟩
  | cons i indices ih =>
    obtain ⟨-, hstart, _, rest, rfl, -, hrest, rfl⟩ := subsetPlan_cons h
    obtain ⟨hi, hle, hplan⟩ := ih hrest
    have hbound : i * s.chunkSize + stripeLen s i ≤ s.totalSize := by
      unfold stripeLen
      omega
    exact ⟨hi, by omega, (planned_stripePieces hpos cursor hbound).append hplan (by omega) hle⟩

def wholePieces (streamChunk : ℕ) (s : StripingInfo) (n : ℕ) : List Piece :=
  (List.range n).flatMap fun i =>
    stripePieces streamChunk i (i * s.chunkSize) (i * s.chunkSize)
      (min ((i + 1) * s.chunkSize) s.totalSize - i * s.chunkSize)

theorem wholePlan_eq_some {capacity : ℕ} (h : wholePlan streamChunk s capacity = some plan) :
    plan = wholePieces streamChunk s s.chunkPaths.length := by
  unfold wholePlan at h
  split at h
  · cases h
  dsimp only at h
  split at h
  · cases h
    rfl
  · cases h

theorem planned_wholePieces (hpos : 0 < streamChunk) {m : BlockMeta} (hlaid : WellLaid m s) {n : ℕ}
    (hn : n ≤ s.chunkPaths.length) :
    Planned s.chunkSize s.totalSize 0 (n * s.chunkSize) (wholePieces streamChunk s n) := by
  induction n with
  | zero =>
    rw [Nat.zero_mul]
    exact .nil _ _ _
  | succ n ih =>
    have hlt := mul_lt_of_lt_divCeil hlaid.positive (hlaid.count ▸ Nat.lt_of_succ_le hn)
    have hnext : (n + 1) * s.chunkSize = n * s.chunkSize + s.chunkSize := Nat.succ_mul _ _
    unfold wholePieces
    rw [List.range_succ, List.flatMap_append, List.flatMap_singleton]
    refine (ih (by omega)).append ?_ (Nat.zero_le _) (by omega)
    exact (planned_stripePieces hpos (n * s.chunkSize) (by omega)).widen (by omega)

theorem source_wholePieces (hpos : 0 < streamChunk) {n : ℕ} (h : p ∈ wholePieces streamChunk s n) :
    p.source = p.object := by
  obtain ⟨i, -, hp⟩ := List.mem_flatMap.mp h
  obtain ⟨-, hsrc, hobj, -⟩ := mem_stripePieces hpos hp
  rw [hsrc, hobj]

def Delivered (plan : List Piece) (events : List (ℕ × Option ℕ)) (p : Piece) (b : Option ℕ) :
    Prop :=
  ∃ i, (i, b) ∈ events ∧ (plan[i]? = some p ∨ plan = [p])

variable {events : List (ℕ × Option ℕ)} {b : Option ℕ}

theorem Delivered.mem (h : Delivered plan events p b) : p ∈ plan := by
  obtain ⟨i, -, hi | rfl⟩ := h
  · exact List.mem_of_getElem? hi
  · exact List.mem_singleton.mpr rfl

def Staged (chunkSize : ℕ) (plan : List Piece) (c : Completions) (x offset : ℕ) : Prop :=
  ∃ p : Piece, Delivered plan c.events p (some p.length) ∧ p.source ≤ x ∧
    x < p.source + p.length ∧ offset = p.stripe * chunkSize + p.fileOffset + (x - p.source) ∧
    ∀ q ∈ plan, q.source ≤ x → x < q.source + q.length → q = p

theorem Apart.eq (h : Apart plan) {q : Piece} (hp : p ∈ plan) (hq : q ∈ plan) {x : ℕ}
    (hpx : p.source ≤ x ∧ x < p.source + p.length) (hqx : q.source ≤ x ∧ x < q.source + q.length) :
    q = p := by
  obtain ⟨i, hi, rfl⟩ := List.mem_iff_getElem.mp hp
  obtain ⟨j, hj, rfl⟩ := List.mem_iff_getElem.mp hq
  rcases Nat.lt_trichotomy j i with hji | rfl | hij
  · have := List.pairwise_iff_getElem.mp h j i hj hi hji
    omega
  · rfl
  · have := List.pairwise_iff_getElem.mp h i j hi hj hij
    omega

theorem staged_piece {lo hi : ℕ} (hplan : Planned chunkSize total lo hi plan) {c : Completions}
    (hread : Delivered plan c.events p (some p.length)) {k : ℕ} (hk : k < p.length) :
    Staged chunkSize plan c (p.source + k) (p.object + k) := by
  refine ⟨p, hread, by omega, by omega, ?_, fun q hq hle hlt => ?_⟩
  · rw [hplan.object p hread.mem]
    omega
  · exact hplan.apart.eq hread.mem hq (x := p.source + k) (by omega) ⟨hle, hlt⟩

theorem mem_forward (h : Forwarded.read p b ∈ forward plan events) :
    Delivered plan events p b := by
  obtain ⟨e, he, hf⟩ := List.mem_filterMap.mp h
  obtain ⟨q, hq, heq⟩ := Option.map_eq_some_iff.mp hf
  cases heq
  exact ⟨e.1, he, .inl hq⟩

theorem mem_release {intact : Bool} {held : List (ℕ × Option ℕ)}
    (h : Forwarded.read p b ∈ release plan intact stripe held) :
    Delivered plan held p b := by
  unfold release at h
  split at h
  · exact mem_forward h
  · cases List.mem_singleton.mp h

section Gather

variable {clears : Bool} {stripes : ℕ} {intact : ℕ → Bool} {pending : ℕ → List (ℕ × Option ℕ)}

theorem gather_skip {e : ℕ × Option ℕ} (h : ∀ p, plan[e.1]? = some p → ¬ p.stripe < stripes) :
    gather clears plan stripes intact pending (e :: events) =
      gather clears plan stripes intact pending events := by
  rw [gather, judge]
  cases hp : plan[e.1]? with
  | none => rfl
  | some p =>
    dsimp only
    rw [if_neg (h p hp)]

theorem gather_cons {e : ℕ × Option ℕ} (hp : plan[e.1]? = some p) (hlt : p.stripe < stripes) :
    gather clears plan stripes intact pending (e :: events) =
      let held := pending p.stripe ++ [e]
      if held.length ≠ plan.countP (·.stripe == p.stripe) then
        gather clears plan stripes intact (Function.update pending p.stripe held) events
      else
        let kept := if clears || (lacking plan intact p.stripe held).isNone then [] else held
        release plan (intact p.stripe) p.stripe held ++
          gather clears plan stripes intact (Function.update pending p.stripe kept) events := by
  rw [gather, judge, hp]
  dsimp only
  rw [if_pos hlt]
  by_cases hmore : (pending p.stripe ++ [e]).length ≠ plan.countP (·.stripe == p.stripe)
  · rw [if_pos hmore, if_pos hmore]
  · rw [if_neg hmore, if_neg hmore]

theorem mem_gather {all : List (ℕ × Option ℕ)}
    (hpending : ∀ s, ∀ e ∈ pending s, e ∈ all) (hevents : ∀ e ∈ events, e ∈ all)
    (h : Forwarded.read p b ∈ gather clears plan stripes intact pending events) :
    Delivered plan all p b := by
  induction events generalizing pending with
  | nil => cases h
  | cons e events ih =>
    have hrest : ∀ e ∈ events, e ∈ all := fun e he => hevents e (List.mem_cons_of_mem _ he)
    have hheld : ∀ s, ∀ e' ∈ pending s ++ [e], e' ∈ all := fun s =>
      List.forall_mem_append.mpr ⟨hpending s, fun e' he' =>
        List.mem_singleton.mp he' ▸ hevents e List.mem_cons_self⟩
    have hupdate : ∀ s (kept : List (ℕ × Option ℕ)), (∀ e' ∈ kept, e' ∈ all) →
        ∀ s', ∀ e' ∈ Function.update pending s kept s', e' ∈ all := fun s kept hkept =>
      (Function.forall_update_iff pending fun _ held => ∀ e' ∈ held, e' ∈ all).mpr
        ⟨hkept, fun s _ => hpending s⟩
    by_cases hskip : ∀ q, plan[e.1]? = some q → ¬ q.stripe < stripes
    · rw [gather_skip hskip] at h
      exact ih hpending hrest h
    · push Not at hskip
      obtain ⟨q, hq, hlt⟩ := hskip
      rw [gather_cons hq hlt] at h
      dsimp only at h
      split at h
      · exact ih (hupdate _ _ (hheld _)) hrest h
      · rcases List.mem_append.mp h with h | h
        · obtain ⟨i, hmem, hi⟩ := mem_release h
          exact ⟨i, hheld _ _ hmem, hi⟩
        · refine ih (hupdate _ _ ?_) hrest h
          split
          · exact fun _ he => (List.not_mem_nil he).elim
          · exact hheld _

end Gather

theorem mem_passOn {verify clears : Bool} {stripes : ℕ} {c : Completions}
    (h : Forwarded.read p b ∈ passOn verify clears plan stripes c) :
    Delivered plan c.events p b := by
  unfold passOn at h
  split at h
  · exact mem_gather (fun _ _ he => (List.not_mem_nil he).elim) (fun _ he => he) h
  · exact mem_forward h

theorem mem_forwardSingle {size : ℕ} (h : Forwarded.read p b ∈ forwardSingle size events) :
    Delivered [singlePiece size] events p b := by
  obtain ⟨e, he, heq⟩ := List.mem_map.mp h
  cases heq
  exact ⟨e.1, List.mem_of_mem_take he, .inr rfl⟩

end ContextStore.Serve
