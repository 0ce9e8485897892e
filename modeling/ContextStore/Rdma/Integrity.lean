import ContextStore.Rdma.Tiles

/-!
# 検証する読み出しは、検証を通った stripe だけを渡す
-/

namespace ContextStore.Serve

open Storage

structure Report where
  index : ℕ
  result : Except KVError ℕ
  buffer : ℕ → UInt8

abbrev Held := List (ℕ × Except KVError ℕ)

abbrev Verdict := Judgement (Except KVError ℕ) KVError

def verdicts (stripes : ℕ) (clears : Bool) (check : ℕ → Held → (ℕ → UInt8) → Option KVError)
    (plan : List Piece) : (ℕ → Held) → List Report → List (Option Verdict)
  | _, [] => []
  | pending, r :: rs =>
    let next := judge stripes clears (fun stripe held => check stripe held r.buffer) plan pending
      (r.index, r.result)
    next.2 :: verdicts stripes clears check plan next.1 rs

/-! ## 検査 -/

def bytesAt (buffer : ℕ → UInt8) (base len : ℕ) : Bytes :=
  (List.range len).map fun k => buffer (base + k)

def heldError (plan : List Piece) (short : ℕ → ℕ → String) (stripe : ℕ) (held : Held) :
    Option KVError :=
  held.findSome? fun x =>
    let expected := (plan[x.1]?.map Piece.length).getD 0
    match x.2 with
    | .ok n => if n = expected then none else some (.notFound (short expected n))
    | .error e =>
      if e.isNotFoundError then
        some (.notFound ("striped object missing chunk " ++ toString stripe))
      else some (.internal ("read striped chunk " ++ toString stripe ++ ": " ++ e.display))

def checksumError (checksum : Bytes → String) (s : StripingInfo) (stripe : ℕ) (data : Bytes) :
    Option KVError :=
  match s.chunkChecksums[stripe]?.filter (· ≠ "") with
  | some expected =>
    if checksum data = expected then none
    else some (.notFound ("striped object checksum mismatch for stripe " ++ toString stripe))
  | none => some (.notFound ("striped object has no checksum for stripe " ++ toString stripe ++
      "; rewrite required"))

def stagingBase (plan : List Piece) (held : Held) : ℕ :=
  (held.map fun x => (plan[x.1]?.map Piece.source).getD 0).min?.getD 0

def subsetCheck (checksum : Bytes → String) (s : StripingInfo) (plan : List Piece) (stripe : ℕ)
    (held : Held) (buffer : ℕ → UInt8) : Option KVError :=
  match heldError plan (fun expected got => "striped object short read for stripe " ++
      toString stripe ++ ": expected " ++ toString expected ++ ", got " ++ toString got)
      stripe held with
  | some e => some e
  | none => checksumError checksum s stripe
      (bytesAt buffer (stagingBase plan held) (stripeLen s stripe))

def wholeCheck (checksum : Bytes → String) (s : StripingInfo) (plan : List Piece) (stripe : ℕ)
    (held : Held) (buffer : ℕ → UInt8) : Option KVError :=
  match heldError plan (fun _ _ => "striped object short read for stripe " ++ toString stripe)
      stripe held with
  | some e => some e
  | none => checksumError checksum s stripe (bytesAt buffer (stripe * s.chunkSize)
      (min ((stripe + 1) * s.chunkSize) s.totalSize - stripe * s.chunkSize))

/-! ## 送るもの -/

structure SubsetSent where
  stripe : ℕ
  source : ℕ
  object : ℕ
  length : ℕ
  result : Except KVError ℕ

structure WholeSent where
  index : ℕ
  offset : ℕ
  length : ℕ
  result : Except KVError ℕ

def WholeSent.stripe (plan : List Piece) (o : WholeSent) : ℕ :=
  match o.result with
  | .ok _ => (plan[o.index]?.map Piece.stripe).getD 0
  | .error _ => o.index

def subsetSends (s : StripingInfo) (plan : List Piece) (v : Verdict) : List SubsetSent :=
  match v.error with
  | some e => [⟨v.stripe, stagingBase plan v.held, v.stripe * s.chunkSize, stripeLen s v.stripe,
      .error e⟩]
  | none => v.held.filterMap fun x => plan[x.1]?.map fun p =>
      ⟨p.stripe, p.source, p.object, p.length, x.2⟩

def wholeSends (plan : List Piece) (v : Verdict) : List WholeSent :=
  match v.error with
  | some e => (v.held.head?.bind fun x => plan[x.1]?).toList.map fun p =>
      ⟨p.stripe, p.source, p.length, .error e⟩
  | none => v.held.filterMap fun x => plan[x.1]?.map fun p => ⟨x.1, p.source, p.length, x.2⟩

def sentBy {σ : Type} (stripes : ℕ) (clears : Bool)
    (check : ℕ → Held → (ℕ → UInt8) → Option KVError) (plan : List Piece) (sends : Verdict → List σ)
      (reports : List Report) : List (List σ) :=
  (verdicts stripes clears check plan (fun _ => []) reports).map fun v => (v.map sends).getD []

def subsetEvents (checksum : Bytes → String) (s : StripingInfo) (plan : List Piece)
    (reports : List Report) : List (List SubsetSent) :=
  sentBy s.chunkDevices.length true (subsetCheck checksum s plan) plan (subsetSends s plan) reports

def wholeEvents (checksum : Bytes → String) (s : StripingInfo) (plan : List Piece)
    (reports : List Report) : List (List WholeSent) :=
  sentBy s.chunkPaths.length false (wholeCheck checksum s plan) plan (wholeSends plan) reports

/-! ## 判定 -/

def Report.ofStripe (plan : List Piece) (stripe : ℕ) (r : Report) : Bool :=
  plan[r.index]?.any (·.stripe == stripe)

def heldBy (plan : List Piece) (stripe : ℕ) (seen : List Report) : Held :=
  (seen.filter (Report.ofStripe plan stripe)).map fun r => (r.index, r.result)

theorem heldBy_append (plan : List Piece) (stripe : ℕ) (a b : List Report) :
    heldBy plan stripe (a ++ b) = heldBy plan stripe a ++ heldBy plan stripe b := by
  simp [heldBy]

structure Judged (check : ℕ → Held → (ℕ → UInt8) → Option KVError) (plan : List Piece)
    (seen : List Report) (r : Report) (v : Verdict) : Prop where
  last : r.ofStripe plan v.stripe = true
  held : v.held.Sublist (heldBy plan v.stripe seen)
  full : v.held.length = plan.countP (·.stripe == v.stripe)
  error : v.error = check v.stripe v.held r.buffer

section Verdicts

variable {plan : List Piece}

def Gathered (plan : List Piece) (pending : ℕ → Held) (seen : List Report) : Prop :=
  ∀ stripe, (pending stripe).Sublist (heldBy plan stripe seen)

variable {seen : List Report} {pending : ℕ → Held}

theorem Gathered.mono (h : Gathered plan pending seen) (r : Report) :
    Gathered plan pending (seen ++ [r]) := by
  intro stripe
  rw [heldBy_append]
  exact (h stripe).trans (List.sublist_append_left _ _)

variable {stripe : ℕ}

theorem Gathered.update (h : Gathered plan pending seen) {held : Held}
    (hheld : held.Sublist (heldBy plan stripe seen)) :
    Gathered plan (Function.update pending stripe held) seen :=
  (Function.forall_update_iff pending fun s held => held.Sublist (heldBy plan s seen)).mpr
    ⟨hheld, fun s _ => h s⟩

theorem Gathered.judge (h : Gathered plan pending seen) (stripes : ℕ) (clears : Bool)
    (check : ℕ → Held → (ℕ → UInt8) → Option KVError) (r : Report) :
    Gathered plan (judge stripes clears (fun stripe held => check stripe held r.buffer) plan
        pending (r.index, r.result)).1 (seen ++ [r]) ∧
      ∀ v, (judge stripes clears (fun stripe held => check stripe held r.buffer) plan pending
        (r.index, r.result)).2 = some v →
        Judged check plan (seen ++ [r]) r v := by
  have hmono := h.mono r
  unfold Serve.judge
  dsimp only
  cases hp : plan[r.index]? with
  | none => exact ⟨hmono, fun v hv => (by cases hv)⟩
  | some p =>
    have hof : r.ofStripe plan p.stripe = true := by
      simp [Report.ofStripe, hp]
    have hheld : (pending p.stripe ++ [(r.index, r.result)]).Sublist
        (heldBy plan p.stripe (seen ++ [r])) := by
      rw [heldBy_append]
      refine (h p.stripe).append ?_
      simp [heldBy, hof]
    dsimp only
    split
    · split
      · exact ⟨hmono.update hheld, fun v hv => (by cases hv)⟩
      next hfull =>
        refine ⟨hmono.update ?_, fun v hv => ?_⟩
        · split
          · exact List.nil_sublist _
          · exact hheld
        · cases hv
          exact ⟨hof, hheld, not_not.mp hfull, rfl⟩
    · exact ⟨hmono, fun v hv => (by cases hv)⟩

variable {check : ℕ → Held → (ℕ → UInt8) → Option KVError} {reports : List Report}

theorem Gathered.verdicts {stripes : ℕ} {clears : Bool} (h : Gathered plan pending seen) {k : ℕ}
    {v : Verdict} (hv : (verdicts stripes clears check plan pending reports)[k]? = some (some v)) :
    ∃ r, reports[k]? = some r ∧ Judged check plan (seen ++ reports.take (k + 1)) r v := by
  induction reports generalizing pending seen k with
  | nil => cases hv
  | cons r rs ih =>
    obtain ⟨hnext, hjudged⟩ := h.judge stripes clears check r
    cases k with
    | zero =>
      exact ⟨r, rfl, by simpa using hjudged v (Option.some.inj hv)⟩
    | succ k =>
      obtain ⟨r', hr', hj⟩ := ih hnext hv
      exact ⟨r', hr', by simpa using hj⟩

def ReportedOnce (plan : List Piece) (reports : List Report) : Prop :=
  ((reports.filter fun r => decide (r.index < plan.length)).map Report.index).Nodup

variable {r : Report}

theorem Report.ofStripe_iff :
    r.ofStripe plan stripe = true ↔ ∃ p, plan[r.index]? = some p ∧ p.stripe = stripe := by
  simp [Report.ofStripe, Option.any_eq_true]

theorem Report.lt_of_ofStripe (h : r.ofStripe plan stripe = true) :
    r.index < plan.length := by
  obtain ⟨p, hp, -⟩ := Report.ofStripe_iff.mp h
  exact (List.getElem?_eq_some_iff.mp hp).1

theorem mem_heldBy {x : ℕ × Except KVError ℕ} (h : x ∈ heldBy plan stripe seen) :
    ∃ r ∈ seen, r.ofStripe plan stripe = true ∧ x = (r.index, r.result) := by
  obtain ⟨r, hr, rfl⟩ := List.mem_map.mp h
  obtain ⟨hmem, hof⟩ := List.mem_filter.mp hr
  exact ⟨r, hmem, hof, rfl⟩

theorem ReportedOnce.take (h : ReportedOnce plan reports) (n : ℕ) :
    ReportedOnce plan (reports.take n) :=
  h.sublist (((List.take_sublist n reports).filter _).map _)

theorem ReportedOnce.eq (h : ReportedOnce plan reports) {r' : Report} (hr : r ∈ reports)
    (hr' : r' ∈ reports) (hlt : r.index < plan.length) (heq : r.index = r'.index) : r = r' := by
  refine List.inj_on_of_nodup_map h ?_ ?_ heq
  · exact List.mem_filter.mpr ⟨hr, decide_eq_true hlt⟩
  · exact List.mem_filter.mpr ⟨hr', decide_eq_true (heq ▸ hlt)⟩

theorem ReportedOnce.nodup (h : ReportedOnce plan seen) (stripe : ℕ) :
    ((heldBy plan stripe seen).map Prod.fst).Nodup := by
  have hsub : (seen.filter (Report.ofStripe plan stripe)).Sublist
      (seen.filter fun r => decide (r.index < plan.length)) :=
    List.monotone_filter_right _ fun r hr => decide_eq_true (Report.lt_of_ofStripe hr)
  have hmap : (heldBy plan stripe seen).map Prod.fst =
      (seen.filter (Report.ofStripe plan stripe)).map Report.index := by
    simp [heldBy]
  rw [hmap]
  exact h.sublist (hsub.map _)

theorem Judged.complete {v : Verdict} (h : Judged check plan seen r v)
    (honce : ReportedOnce plan seen) {i : ℕ} {p : Piece} (hp : plan[i]? = some p)
    (hs : p.stripe = v.stripe) :
    i ∈ v.held.map Prod.fst := by
  have hnodup : (v.held.map Prod.fst).Nodup :=
    (honce.nodup v.stripe).sublist (h.held.map _)
  have hsubset : v.held.map Prod.fst ⊆
      (List.range plan.length).filter fun i => plan[i]?.any (·.stripe == v.stripe) := by
    intro j hj
    obtain ⟨x, hx, rfl⟩ := List.mem_map.mp hj
    obtain ⟨r', -, hof, rfl⟩ := mem_heldBy (h.held.subset hx)
    exact List.mem_filter.mpr ⟨List.mem_range.mpr (Report.lt_of_ofStripe hof), hof⟩
  have hlength : ((List.range plan.length).filter fun i =>
      plan[i]?.any (·.stripe == v.stripe)).length ≤ (v.held.map Prod.fst).length := by
    rw [List.length_map, h.full, length_filter_range]
  have hperm := (List.subperm_of_subset hnodup hsubset).perm_of_length_le hlength
  grind

theorem Judged.unique (honce : ReportedOnce plan reports) {j k : ℕ} {r' : Report} {v v' : Verdict}
    (h : Judged check plan (reports.take (j + 1)) r v) (hr' : reports[k]? = some r')
    (hv' : r'.ofStripe plan v'.stripe = true) (hs : v.stripe = v'.stripe) : k ≤ j := by
  obtain ⟨p, hp, hps⟩ := Report.ofStripe_iff.mp hv'
  obtain ⟨x, hx, hxi⟩ :=
    List.mem_map.mp (h.complete (honce.take _) hp (hps.trans hs.symm))
  obtain ⟨r₀, hr₀, -, rfl⟩ := mem_heldBy (h.held.subset hx)
  have hxi : r₀.index = r'.index := hxi
  by_contra hlt
  have hdrop : r' ∈ reports.drop (j + 1) := by
    refine List.mem_of_getElem? (i := k - (j + 1)) ?_
    rw [List.getElem?_drop, ← hr']
    congr 1
    omega
  have hlen : r'.index < plan.length := Report.lt_of_ofStripe hv'
  have hsplit : ((reports.take (j + 1) ++ reports.drop (j + 1)).filter fun r =>
      decide (r.index < plan.length)).map Report.index =
      ((reports.take (j + 1)).filter fun r => decide (r.index < plan.length)).map Report.index ++
        ((reports.drop (j + 1)).filter fun r => decide (r.index < plan.length)).map
          Report.index := by
    rw [List.filter_append, List.map_append]
  unfold ReportedOnce at honce
  rw [← List.take_append_drop (j + 1) reports, hsplit] at honce
  grind

end Verdicts

variable {plan : List Piece} {stripe : ℕ}

theorem heldError_none {short : ℕ → ℕ → String} {held : Held}
    (h : heldError plan short stripe held = none) {x : ℕ × Except KVError ℕ} (hx : x ∈ held)
    {p : Piece} (hp : plan[x.1]? = some p) : x.2 = .ok p.length := by
  have hnone := List.findSome?_eq_none_iff.mp h x hx
  dsimp only at hnone
  grind

variable {s : StripingInfo}

theorem checksumError_none {checksum : Bytes → String} {data : Bytes}
    (h : checksumError checksum s stripe data = none) :
    s.chunkChecksums[stripe]? = some (checksum data) ∧ checksum data ≠ "" := by
  unfold checksumError at h
  grind

structure Based (plan : List Piece) (stripe base : ℕ) : Prop where
  placed : ∀ p ∈ plan, p.stripe = stripe → p.source = base + p.fileOffset
  first : ∀ p ∈ plan, p.stripe = stripe → ∃ q ∈ plan, q.stripe = stripe ∧ q.source = base

variable {streamChunk : ℕ}

theorem based_stripePieces (hpos : 0 < streamChunk) (stripe base object len : ℕ) :
    Based (stripePieces streamChunk stripe base object len) stripe base where
  placed := fun p hp _ => (mem_stripePieces hpos hp).2.1
  first := by
    intro p hp _
    obtain ⟨k, hk, rfl⟩ := List.mem_map.mp hp
    have hzero : 0 < divCeil len streamChunk := Nat.zero_lt_of_lt (List.mem_range.mp hk)
    exact ⟨_, List.mem_map.mpr ⟨0, List.mem_range.mpr hzero, rfl⟩, rfl, by simp⟩

theorem Based.of_subset {plan' : List Piece} {base : ℕ} (h : Based plan stripe base)
    (hsub : ∀ p ∈ plan, p ∈ plan') (hback : ∀ p ∈ plan', p.stripe = stripe → p ∈ plan) :
    Based plan' stripe base where
  placed := fun p hp hs => h.placed p (hback p hp hs) hs
  first := by
    grind [first]

variable {indices : List ℕ} {capacity cursor : ℕ}

theorem Based.unique {base base' : ℕ} (h : Based plan stripe base) (h' : Based plan stripe base')
    {p : Piece} (hp : p ∈ plan) (hs : p.stripe = stripe) :
    base = base' :=
  Nat.add_right_cancel ((h.placed p hp hs).symm.trans (h'.placed p hp hs))

theorem stripe_mem_subsetPlan (hpos : 0 < streamChunk)
    (h : subsetPlan streamChunk s capacity indices cursor = some plan) {p : Piece} (hp : p ∈ plan) :
    p.stripe ∈ indices := by
  induction indices generalizing cursor plan with
  | nil =>
    cases h
    exact (List.not_mem_nil hp).elim
  | cons i indices ih =>
    obtain ⟨-, -, _, rest, rfl, -, hrest, rfl⟩ := subsetPlan_cons h
    rcases List.mem_append.mp hp with hp | hp
    · rw [(mem_stripePieces hpos hp).1]
      exact List.mem_cons_self
    · exact List.mem_cons_of_mem _ (ih hrest hp)

theorem based_subsetPlan (hpos : 0 < streamChunk) (hnodup : indices.Nodup)
    (h : subsetPlan streamChunk s capacity indices cursor = some plan) (stripe : ℕ) :
    ∃ base, Based plan stripe base := by
  induction indices generalizing cursor plan with
  | nil =>
    cases h
    exact ⟨0, fun p hp => (List.not_mem_nil hp).elim, fun p hp => (List.not_mem_nil hp).elim⟩
  | cons i indices ih =>
    obtain ⟨hnot, hnodup⟩ := List.nodup_cons.mp hnodup
    obtain ⟨-, -, _, rest, rfl, -, hrest, rfl⟩ := subsetPlan_cons h
    by_cases hi : stripe = i
    · rw [hi]
      refine ⟨cursor, (based_stripePieces hpos i cursor _ _).of_subset
        (fun p => List.mem_append_left _) fun p hp hs => ?_⟩
      rcases List.mem_append.mp hp with hp | hp
      · exact hp
      · exact (hnot (hs ▸ stripe_mem_subsetPlan hpos hrest hp)).elim
    · obtain ⟨base, hbase⟩ := ih hnodup hrest
      refine ⟨base, hbase.of_subset (fun p => List.mem_append_right _) fun p hp hs => ?_⟩
      rcases List.mem_append.mp hp with hp | hp
      · exact (hi (hs.symm.trans (mem_stripePieces hpos hp).1)).elim
      · exact hp

theorem based_wholePieces (hpos : 0 < streamChunk) (s : StripingInfo) (n : ℕ) (stripe : ℕ) :
    Based (wholePieces streamChunk s n) stripe (stripe * s.chunkSize) where
  placed := by
    intro p hp hs
    obtain ⟨i, -, hp⟩ := List.mem_flatMap.mp hp
    obtain ⟨hi, hsrc, -⟩ := mem_stripePieces hpos hp
    rw [hsrc, ← hs, hi]
  first := by
    intro p hp hs
    obtain ⟨i, hi, hp⟩ := List.mem_flatMap.mp hp
    obtain rfl : i = stripe := (mem_stripePieces hpos hp).1.symm.trans hs
    obtain ⟨q, hq, hqs⟩ := (based_stripePieces hpos i _ _ _).first p hp hs
    exact ⟨q, List.mem_flatMap.mpr ⟨i, hi, hq⟩, hqs⟩

theorem Judged.stagingBase {check : ℕ → Held → (ℕ → UInt8) → Option KVError} {seen : List Report}
    {r : Report} {v : Verdict} (h : Judged check plan seen r v) (honce : ReportedOnce plan seen)
    {base : ℕ} (hbase : Based plan v.stripe base) :
    stagingBase plan v.held = base := by
  obtain ⟨p, hp, hps⟩ := Report.ofStripe_iff.mp h.last
  obtain ⟨q, hq, hqs, hqbase⟩ := hbase.first p (List.mem_of_getElem? hp) hps
  obtain ⟨i, hi⟩ := List.mem_iff_getElem?.mp hq
  have hmin : (v.held.map fun x => (plan[x.1]?.map Piece.source).getD 0).min? = some base := by
    refine List.min?_eq_some_iff.mpr ⟨?_, fun b hb => ?_⟩
    · obtain ⟨x, hx, hxi⟩ := List.mem_map.mp (h.complete honce hi hqs)
      refine List.mem_map.mpr ⟨x, hx, ?_⟩
      rw [hxi, hi]
      exact hqbase
    · obtain ⟨x, hx, rfl⟩ := List.mem_map.mp hb
      obtain ⟨r', -, hof, rfl⟩ := mem_heldBy (h.held.subset hx)
      obtain ⟨p', hp', hps'⟩ := Report.ofStripe_iff.mp hof
      rw [hp', Option.map_some, Option.getD_some,
        hbase.placed p' (List.mem_of_getElem? hp') hps']
      exact Nat.le_add_right _ _
  unfold Serve.stagingBase
  rw [hmin, Option.getD_some]

structure Verified (checksum : Bytes → String) (s : StripingInfo) (plan : List Piece)
    (seen : List Report) (buffer : ℕ → UInt8) (stripe base : ℕ) : Prop where
  read : ∀ (i : ℕ) p, plan[i]? = some p → p.stripe = stripe →
    ∃ r ∈ seen, r.index = i ∧ r.result = .ok p.length
  placed : ∀ p ∈ plan, p.stripe = stripe → p.source = base + p.fileOffset
  recorded : ∃ expected, s.chunkChecksums[stripe]? = some expected ∧ expected ≠ "" ∧
    checksum (bytesAt buffer base (stripeLen s stripe)) = expected

structure Guarded {σ : Type} (checksum : Bytes → String) (s : StripingInfo) (plan : List Piece)
    (reports : List Report) (stripe : σ → ℕ) (result : σ → Except KVError ℕ)
    (sent : List (List σ)) : Prop where
  verified : ∀ (k : ℕ) outs, sent[k]? = some outs → ∀ o ∈ outs, ∀ n, result o = .ok n →
    ∃ r base, reports[k]? = some r ∧
      Verified checksum s plan (reports.take (k + 1)) r.buffer (stripe o) base
  unread : ∀ r ∈ reports, ∀ p, plan[r.index]? = some p → r.result ≠ .ok p.length →
    ∀ outs ∈ sent, ∀ o ∈ outs, stripe o = p.stripe → ∀ n, result o ≠ .ok n
  failed : ∀ outs ∈ sent, ∀ o ∈ outs, ∀ outs' ∈ sent, ∀ o' ∈ outs', stripe o = stripe o' →
    ∀ e n, result o = .error e → result o' ≠ .ok n

structure Settled (plan : List Piece) (v : Verdict) : Prop where
  ofStripe : ∀ x ∈ v.held, ∃ p, plan[x.1]? = some p ∧ p.stripe = v.stripe
  read : v.error = none → ∀ x ∈ v.held, ∀ p, plan[x.1]? = some p → x.2 = .ok p.length

theorem Judged.ofStripe {check : ℕ → Held → (ℕ → UInt8) → Option KVError} {seen : List Report}
    {r : Report} {v : Verdict} (h : Judged check plan seen r v) :
    ∀ x ∈ v.held, ∃ p, plan[x.1]? = some p ∧ p.stripe = v.stripe := by
  intro x hx
  obtain ⟨r', -, hof, rfl⟩ := mem_heldBy (h.held.subset hx)
  exact Report.ofStripe_iff.mp hof

section Guarded

variable {checksum : Bytes → String} {s : StripingInfo} {plan : List Piece}

def Strict (checksum : Bytes → String) (s : StripingInfo) (plan : List Piece)
    (check : ℕ → Held → (ℕ → UInt8) → Option KVError) : Prop :=
  ∀ seen r v base, ReportedOnce plan seen → Judged check plan seen r v →
    Based plan v.stripe base → v.error = none →
    (∀ x ∈ v.held, ∀ p, plan[x.1]? = some p → x.2 = .ok p.length) ∧
      checksumError checksum s v.stripe (bytesAt r.buffer base (stripeLen s v.stripe)) = none

theorem strict_subsetCheck : Strict checksum s plan (subsetCheck checksum s plan) := by
  intro seen r v base honce hjudged hbase hnone
  have hcheck := hjudged.error.symm.trans hnone
  unfold subsetCheck at hcheck
  rw [hjudged.stagingBase honce hbase] at hcheck
  split at hcheck
  · cases hcheck
  next hheld => exact ⟨fun x hx p hp => heldError_none hheld hx hp, hcheck⟩

theorem strict_wholeCheck (hwhole : ∀ stripe, Based plan stripe (stripe * s.chunkSize)) :
    Strict checksum s plan (wholeCheck checksum s plan) := by
  intro seen r v base honce hjudged hbase hnone
  obtain ⟨p, hp, hps⟩ := Report.ofStripe_iff.mp hjudged.last
  have hcheck := hjudged.error.symm.trans hnone
  have hlen : min ((v.stripe + 1) * s.chunkSize) s.totalSize - v.stripe * s.chunkSize =
      stripeLen s v.stripe := by
    unfold stripeLen
    rw [Nat.succ_mul]
    omega
  have hstart := (hwhole v.stripe).unique hbase (List.mem_of_getElem? hp) hps
  unfold wholeCheck at hcheck
  rw [hlen, hstart] at hcheck
  split at hcheck
  · cases hcheck
  next hheld => exact ⟨fun x hx p hp => heldError_none hheld hx hp, hcheck⟩

variable {v : Verdict}

theorem Settled.mem_subsetSends (h : Settled plan v) {o : SubsetSent}
    (ho : o ∈ subsetSends s plan v) :
    o.stripe = v.stripe ∧ (v.error = none ↔ ∃ n, o.result = .ok n) := by
  unfold subsetSends at ho
  split at ho
  next e he =>
    obtain rfl := List.mem_singleton.mp ho
    simp [he]
  next he =>
    obtain ⟨x, hx, hsent⟩ := List.mem_filterMap.mp ho
    obtain ⟨p, hp, hps⟩ := h.ofStripe x hx
    rw [hp] at hsent
    obtain rfl := Option.some.inj hsent
    exact ⟨hps, fun _ => ⟨p.length, h.read he x hx p hp⟩, fun _ => he⟩

theorem Settled.mem_wholeSends (h : Settled plan v) {o : WholeSent}
    (ho : o ∈ wholeSends plan v) :
    o.stripe plan = v.stripe ∧ (v.error = none ↔ ∃ n, o.result = .ok n) := by
  unfold wholeSends at ho
  split at ho
  next e he =>
    obtain ⟨p, hp, rfl⟩ := List.mem_map.mp ho
    obtain ⟨x, hx, hxp⟩ := Option.bind_eq_some_iff.mp (Option.mem_toList.mp hp)
    obtain ⟨q, hq, hqs⟩ := h.ofStripe x (List.mem_of_head? hx)
    obtain rfl : q = p := Option.some.inj (hq.symm.trans hxp)
    exact ⟨hqs, by simp [he]⟩
  next he =>
    obtain ⟨x, hx, hsent⟩ := List.mem_filterMap.mp ho
    obtain ⟨p, hp, hps⟩ := h.ofStripe x hx
    have hread := h.read he x hx p hp
    rw [hp] at hsent
    obtain rfl := Option.some.inj hsent
    simp_all [WholeSent.stripe]

variable {σ : Type} {check : ℕ → Held → (ℕ → UInt8) → Option KVError} {reports : List Report}
  {stripes : ℕ} {clears : Bool} {sends : Verdict → List σ} {stripe : σ → ℕ}
  {result : σ → Except KVError ℕ}

theorem mem_sentBy {k : ℕ} {outs : List σ}
    (hk : (sentBy stripes clears check plan sends reports)[k]? = some outs) {o : σ}
    (ho : o ∈ outs) :
    ∃ r v, reports[k]? = some r ∧ Judged check plan (reports.take (k + 1)) r v ∧
      (verdicts stripes clears check plan (fun _ => []) reports)[k]? = some (some v) ∧
      o ∈ sends v := by
  unfold sentBy at hk
  rw [List.getElem?_map] at hk
  obtain ⟨w, hw, rfl⟩ := Option.map_eq_some_iff.mp hk
  cases w with
  | none => exact (List.not_mem_nil ho).elim
  | some v =>
    have hnil : Gathered plan (fun _ => []) [] := fun _ => List.nil_sublist _
    grind [Gathered.verdicts]

theorem Strict.verified (hstrict : Strict checksum s plan check) (honce : ReportedOnce plan reports)
    {k : ℕ} {r : Report} {base : ℕ} (hbase : Based plan v.stripe base)
    (hjudged : Judged check plan (reports.take (k + 1)) r v) (hnone : v.error = none) :
    Verified checksum s plan (reports.take (k + 1)) r.buffer v.stripe base := by
  obtain ⟨hread, hsum⟩ := hstrict _ r v base (honce.take _) hjudged hbase hnone
  obtain ⟨hrecorded, hne⟩ := checksumError_none hsum
  refine ⟨fun i p hp hs => ?_, hbase.placed, _, hrecorded, hne, rfl⟩
  obtain ⟨x, hx, rfl⟩ := List.mem_map.mp (hjudged.complete (honce.take _) hp hs)
  have hok := hread x hx p hp
  obtain ⟨r', hr', -, rfl⟩ := mem_heldBy (hjudged.held.subset hx)
  exact ⟨r', hr', rfl, hok⟩

theorem Strict.guarded (hstrict : Strict checksum s plan check)
    (hbase : ∀ i, ∃ base, Based plan i base) (honce : ReportedOnce plan reports)
    (hsends : ∀ v, Settled plan v → ∀ o ∈ sends v,
      stripe o = v.stripe ∧ (v.error = none ↔ ∃ n, result o = .ok n)) :
    Guarded checksum s plan reports stripe result
      (sentBy stripes clears check plan sends reports) := by
  have hspec : ∀ (k : ℕ) r v, Judged check plan (reports.take (k + 1)) r v → ∀ o ∈ sends v,
      stripe o = v.stripe ∧ (v.error = none ↔ ∃ n, result o = .ok n) := by
    intro k r v hjudged
    obtain ⟨base, hb⟩ := hbase v.stripe
    refine hsends v ⟨hjudged.ofStripe, fun hnone => ?_⟩
    exact (hstrict _ r v base (honce.take _) hjudged hb hnone).1
  have hverified : ∀ (k : ℕ) outs,
      (sentBy stripes clears check plan sends reports)[k]? = some outs →
      ∀ o ∈ outs, ∀ n, result o = .ok n → ∃ r base, reports[k]? = some r ∧
        Verified checksum s plan (reports.take (k + 1)) r.buffer (stripe o) base := by
    intro k outs hk o ho n hn
    obtain ⟨r, v, hr, hjudged, -, hmem⟩ := mem_sentBy hk ho
    obtain ⟨hstripe, hiff⟩ := hspec k r v hjudged o hmem
    obtain ⟨base, hb⟩ := hbase v.stripe
    rw [hstripe]
    exact ⟨r, base, hr, hstrict.verified honce hb hjudged (hiff.mpr ⟨n, hn⟩)⟩
  refine ⟨hverified, fun r hr p hp hbad outs houts o ho hs n hn => ?_,
    fun outs houts o ho outs' houts' o' ho' hs e n he hn => ?_⟩
  · obtain ⟨k, hk⟩ := List.mem_iff_getElem?.mp houts
    obtain ⟨r₀, base, -, hver⟩ := hverified k outs hk o ho n hn
    obtain ⟨r', hr', hi, hok⟩ := hver.read r.index p hp hs.symm
    have hlt : r.index < plan.length := (List.getElem?_eq_some_iff.mp hp).1
    have heq := honce.eq hr (List.mem_of_mem_take hr') hlt hi.symm
    exact hbad (heq ▸ hok)
  ·
    obtain ⟨j, hj⟩ := List.mem_iff_getElem?.mp houts
    obtain ⟨k, hk⟩ := List.mem_iff_getElem?.mp houts'
    obtain ⟨r, v, hr, hjudged, hv, hmem⟩ := mem_sentBy hj ho
    obtain ⟨r', v', hr', hjudged', hv', hmem'⟩ := mem_sentBy hk ho'
    obtain ⟨hstripe, hiff⟩ := hspec j r v hjudged o hmem
    obtain ⟨hstripe', hiff'⟩ := hspec k r' v' hjudged' o' hmem'
    have hvs : v.stripe = v'.stripe := hstripe.symm.trans (hs.trans hstripe')
    obtain rfl : j = k := Nat.le_antisymm
      (Judged.unique honce hjudged' hr hjudged.last hvs.symm)
      (Judged.unique honce hjudged hr' hjudged'.last hvs)
    simp_all

end Guarded

theorem integrity_streams_verified (C : Config) (checksum : Bytes → String) (s : StripingInfo)
    (capacity : ℕ) (plan : List Piece) (reports : List Report)
    (honce : ReportedOnce plan reports) :
    (∀ indices, indices.Nodup → subsetPlan C.streamChunk s capacity indices 0 = some plan →
      Guarded checksum s plan reports SubsetSent.stripe SubsetSent.result
        (subsetEvents checksum s plan reports)) ∧
    (wholePlan C.streamChunk s capacity = some plan →
      Guarded checksum s plan reports (WholeSent.stripe plan) WholeSent.result
        (wholeEvents checksum s plan reports)) := by
  constructor
  · intro indices hnodup hplan
    exact strict_subsetCheck.guarded (based_subsetPlan C.streamChunk_pos hnodup hplan) honce
      fun v hv o ho => hv.mem_subsetSends ho
  · intro hplan
    have hbase : ∀ i, Based plan i (i * s.chunkSize) := by
      rw [wholePlan_eq_some hplan]
      exact based_wholePieces C.streamChunk_pos s _
    exact (strict_wholeCheck hbase).guarded (fun i => ⟨_, hbase i⟩) honce
      fun v hv o ho => hv.mem_wholeSends ho

def signedStriping : StripingInfo := ⟨2, [0, 0], ["a", "b"], 3, [], ["2", "1"]⟩

def tornReports : List Report :=
  [⟨0, .ok 1, fun _ => 7⟩, ⟨1, .error (.internal "io"), fun _ => 7⟩]

theorem integrity_streams_verified_torn :
    ∃ plan, subsetPlan sampleConfig.streamChunk signedStriping 8192 [1, 0] 0 = some plan ∧
      subsetEvents (fun data => toString data.length) signedStriping plan tornReports =
        [[⟨1, 0, 2, 1, .ok 1⟩],
          [⟨0, 1, 0, 2, .error (.internal "read striped chunk 0: internal error: io")⟩]] ∧
      Guarded (fun data => toString data.length) signedStriping plan tornReports
        SubsetSent.stripe SubsetSent.result
        (subsetEvents (fun data => toString data.length) signedStriping plan tornReports) :=
  ⟨_, rfl, rfl, (integrity_streams_verified sampleConfig _ signedStriping 8192 _ tornReports
    (by unfold ReportedOnce; decide)).1 [1, 0] (by decide) rfl⟩

end ContextStore.Serve
