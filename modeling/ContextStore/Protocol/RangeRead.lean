import ContextStore.Protocol.StorageRead

/-!
# 規約: 範囲ごとの読み出し

`get_into_ptr_stream_with_meta` は file を範囲に切って並行に読む。
-/

namespace ContextStore

open Conc

variable {ν : Type} {E : Env ν} {R : Reader ν} {t : Hist ν} {n : ν} {key : ObjectKey}
  {m : BlockMeta}
  {s : StripingInfo}

/-! ## 列の補題 -/

theorem forall₂_flatten_left {α β : Type} {R : α → β → Prop} :
    ∀ {l : List (List α)} {ys : List β}, List.Forall₂ R l.flatten ys →
      ∃ yss : List (List β), ys = yss.flatten ∧ List.Forall₂ (List.Forall₂ R) l yss
  | [], ys, h => ⟨[], by cases h; rfl, .nil⟩
  | xs :: xss, ys, h => by
    rw [List.flatten_cons] at h
    have hlen := h.length_eq
    rw [List.length_append] at hlen
    have htake := List.forall₂_take xs.length h
    have hdrop := List.forall₂_drop xs.length h
    rw [List.take_left] at htake
    rw [List.drop_left] at hdrop
    obtain ⟨yss, hyss, hrest⟩ := forall₂_flatten_left hdrop
    refine ⟨ys.take xs.length :: yss, ?_, .cons htake hrest⟩
    rw [List.flatten_cons, ← hyss, List.take_append_drop]

def Delivered (evs : List (Nat × Except KVError Bytes)) (parts : List Bytes) : Prop :=
  List.Forall₂ (fun e part => e.2 = .ok part ∧ part.length = e.1) evs parts

def RangeRead (t : Hist ν) (n : ν) (r : Storage.Range) (part : Bytes) : Prop :=
  part.length = r.length ∧
    (⟨.readRange n r.path r.offset r.length, .ok part⟩ : Event (Cmd ν) Cmd.Resp) ∈ t

theorem rdmaStreamChunkSize_pos : 0 < Storage.rdmaStreamChunkSize E n := by
  simp_all [Storage.rdmaStreamChunkSize]

theorem getElem?_streamRanges (i : Nat) :
    (Storage.streamRanges E n s)[i]? = s.chunkPaths[i]?.map (rangesOf E n s i) := by
  unfold Storage.streamRanges
  rw [List.getElem?_mapIdx]
  rfl

theorem readBack_ranges {parts : List Bytes} (hst : m.striping = some s)
    (h : List.Forall₂ (RangeRead t n) (Storage.streamRanges E n s).flatten parts) :
    ReadBack E t n key m parts.flatten := by
  obtain ⟨groups, rfl, hgroups⟩ := forall₂_flatten_left h
  unfold ReadBack
  rw [hst]
  refine ⟨groups.map List.flatten, List.flatten_flatten, ?_, ?_⟩
  · rw [List.length_map, ← hgroups.length_eq]
    simp [Storage.streamRanges]
  · intro i p part hp hpart
    rw [List.getElem?_map, Option.map_eq_some_iff] at hpart
    obtain ⟨group, hg, rfl⟩ := hpart
    obtain ⟨hi, rfl⟩ := List.getElem?_eq_some_iff.mp hg
    have hi' : i < (Storage.streamRanges E n s).length := by rw [hgroups.length_eq]; exact hi
    have hr := hgroups.get hi' hi
    have hplan : (Storage.streamRanges E n s).get ⟨i, hi'⟩ = rangesOf E n s i p := by
      have := getElem?_streamRanges (E := E) (n := n) (s := s) i
      rw [hp, List.getElem?_eq_getElem hi'] at this
      exact Option.some.inj this
    rw [hplan] at hr
    exact .inr ⟨_, i, _, rdmaStreamChunkSize_pos, rfl, hr⟩

theorem path_mem_of_streamRanges {r : Storage.Range}
    (h : r ∈ (Storage.streamRanges E n s).flatten) : r.path ∈ s.chunkPaths := by
  obtain ⟨rs, hrs, hr⟩ := List.mem_flatten.mp h
  obtain ⟨i, hi⟩ := List.mem_iff_getElem?.mp hrs
  rw [getElem?_streamRanges, Option.map_eq_some_iff] at hi
  obtain ⟨p, hp, rfl⟩ := hi
  obtain ⟨j, -, rfl⟩ := List.mem_map.mp hr
  exact List.mem_of_getElem? hp

section Unverified

variable (hp : R.purges) (hst : m.striping = some s)
include hp hst

theorem forwardRange_conforms {r : Storage.Range} {idx : Nat} (hk : R.knows t key.toStringKey m)
    (hr : r.path ∈ s.chunkPaths) :
    Conforms (ReadGuard E n R) (fun t' res => ∀ part, res = .ok part →
      Seen t' (.readRange n r.path r.offset r.length) (.ok part)) t
      (Storage.forwardRange n key m idx r) := by
  unfold Storage.forwardRange
  refine Conforms.issue_bind.mpr ⟨trivial, ?_⟩
  rintro (e | data)
  · dsimp only
    split
    next hnf =>
      refine Conforms.bind (deleteMetadataIfCurrent_issues hp (R.mono hk (List.suffix_cons _ _)) ?_)
        fun _ _ _ _ => nofun
      exact .absent (lookPath_stripe hst hr) (.inr (.inr ⟨_, _, e, hnf, rfl⟩)) (R.after_cons hk)
    · exact nofun
  · rintro _ ⟨⟩
    exact List.mem_cons_self

theorem forwardRanges_conforms {ranges : List Storage.Range} (hk : R.knows t key.toStringKey m)
    (hr : ∀ r ∈ ranges, r.path ∈ s.chunkPaths) :
    Conforms (ReadGuard E n R) (fun t' events => List.Forall₂ (fun (r : Storage.Range) res =>
      ∀ part, res = .ok part → Seen t' (.readRange n r.path r.offset r.length) (.ok part))
      ranges events) t (Storage.forwardRanges n key m ranges) := by
  unfold Storage.forwardRanges
  rw [List.mapIdx_eq_zipIdx_map]
  refine (Conforms.joinAll (J := fun t' => R.knows t' key.toStringKey m)
    (P := fun (x : Storage.Range × Nat) t' res => ∀ part, res = .ok part →
      Seen t' (.readRange n x.1.path x.1.offset x.1.length) (.ok part)) ?_ ?_ hk ?_).weaken ?_
  · exact fun t' _ h => ⟨trivial, fun _ => R.mono h (List.suffix_cons _ _)⟩
  · exact fun x t₁ t₂ res hs _ _ h part hres => hs.subset (h part hres)
  · intro x hx t₁ h₁
    have hmem : x.1 ∈ ranges := by
      rw [← List.zipIdx_map_fst 0 ranges]
      exact List.mem_map_of_mem hx
    exact (forwardRange_conforms hp hst h₁ (hr x.1 hmem)).weaken fun _ _ hs h => ⟨R.mono h₁ hs, h⟩
  · rintro t' events - ⟨-, hev⟩
    rw [← List.zipIdx_map_fst 0 ranges, List.forall₂_map_left_iff]
    exact hev

end Unverified

theorem rangeRead_of_delivered : ∀ {ranges : List Storage.Range}
    {events : List (Except KVError Bytes)}
    {parts : List Bytes}, List.Forall₂ (fun (r : Storage.Range) res => ∀ part, res = .ok part →
        (⟨.readRange n r.path r.offset r.length, .ok part⟩ : Event (Cmd ν) Cmd.Resp) ∈ t)
        ranges events →
      Delivered ((ranges.map Storage.Range.length).zip events) parts →
      List.Forall₂ (RangeRead t n) ranges parts := by
  intro ranges events parts h
  induction h generalizing parts with
  | nil => intro hd; cases hd; exact .nil
  | @cons r res ranges events hres _ ih =>
    intro hd
    cases hd with
    | cons hpart hrest => exact .cons ⟨hpart.2, hres _ hpart.1⟩ (ih hrest)

def stripeEvents (E : Env ν) (s : StripingInfo) :
    Nat → List (List Storage.Range × List (Except IoError Bytes)) → List (Except KVError Bytes)
  | _, [] => []
  | i, (ranges, results) :: rest =>
    (match Storage.rangesError E s i ranges results with
      | some e => [.error e]
      | none => results.map fun r => r.mapError KVError.io) ++ stripeEvents E s (i + 1) rest

def StripesSeen (E : Env ν) (R : Reader ν) (t : Hist ν) (n : ν) (key : ObjectKey) (m : BlockMeta)
    (s : StripingInfo) (i : Nat)
    (items : List (List Storage.Range × List (Except IoError Bytes))) : Prop :=
  ∀ (j : Nat) ranges results, items[j]? = some (ranges, results) →
    ∃ p, s.chunkPaths[i + j]? = some p ∧ ranges = rangesOf E n s (i + j) p ∧
      List.Forall₂ (fun (r : Storage.Range) res =>
        R.After t key.toStringKey m ⟨.readRange n r.path r.offset r.length, res⟩) ranges results

theorem StripesSeen.tail {i : Nat} {x : List Storage.Range × List (Except IoError Bytes)}
    {items : List (List Storage.Range × List (Except IoError Bytes))} {t' : Hist ν}
    (h : StripesSeen E R t n key m s i (x :: items)) (hs : t <:+ t') :
    StripesSeen E R t' n key m s (i + 1) items := by
  intro j ranges results hj
  obtain ⟨p, hp, hr, hseen⟩ := h (j + 1) ranges results hj
  rw [show i + (j + 1) = i + 1 + j by omega] at hp hr
  exact ⟨p, hp, hr, hseen.imp fun _ _ h => h.mono hs⟩

theorem forwardStripes_conforms (hp : R.purges) (hstreams : R.streams)
    (hver : (E.cfg n).verifyStripeChecksums = true) (hst : m.striping = some s) :
    ∀ (items : List (List Storage.Range × List (Except IoError Bytes))) (i : Nat) (deleted : Bool)
      (t : Hist ν), R.knows t key.toStringKey m → StripesSeen E R t n key m s i items →
      Conforms (ReadGuard E n R) (fun _ events => events = stripeEvents E s i items) t
        (Storage.forwardStripes E key m s i items deleted) := by
  intro items
  induction items with
  | nil => exact fun i deleted t _ _ => rfl
  | cons item items ih =>
    obtain ⟨ranges, results⟩ := item
    intro i deleted t hk hseen
    obtain ⟨p, hpath, rfl, hres⟩ := hseen 0 ranges results rfl
    rw [Nat.add_zero] at hpath hres ⊢
    unfold Storage.forwardStripes stripeEvents
    cases he : Storage.rangesError E s i (rangesOf E n s i p) results with
    | some e =>
      cases deleted with
      | false =>
        refine Conforms.bind (deleteMetadataIfCurrent_issues hp hk
          (.ranges hstreams hver hst hpath hres he)) fun t₁ _ hs₁ _ => ?_
        exact Conforms.bind (ih (i + 1) true t₁ (R.mono hk hs₁) (hseen.tail hs₁))
          fun _ _ _ h => congrArg _ h
      | true =>
        exact Conforms.bind (ih (i + 1) true t hk (hseen.tail (List.suffix_refl t)))
          fun _ _ _ h => congrArg _ h
    | none =>
      exact Conforms.bind (ih (i + 1) deleted t hk (hseen.tail (List.suffix_refl t)))
        fun _ _ _ h => congrArg _ h

theorem rangeRead_of_stripeEvents :
    ∀ (items : List (List Storage.Range × List (Except IoError Bytes))) (i : Nat)
      (parts : List Bytes),
      (∀ it ∈ items, List.Forall₂ (fun (r : Storage.Range) res =>
        (⟨.readRange n r.path r.offset r.length, res⟩ : Event (Cmd ν) Cmd.Resp) ∈ t) it.1 it.2) →
      Delivered (((items.map Prod.fst).flatten.map Storage.Range.length).zip
        (stripeEvents E s i items)) parts →
      List.Forall₂ (RangeRead t n) (items.map Prod.fst).flatten parts := by
  intro items
  induction items with
  | nil => intro i parts _ hd; cases hd; exact .nil
  | cons item items ih =>
    obtain ⟨ranges, results⟩ := item
    intro i parts hread hd
    have hres := hread _ List.mem_cons_self
    have hrest := fun it hit => hread it (List.mem_cons_of_mem _ hit)
    rw [List.map_cons, List.flatten_cons] at hd ⊢
    unfold stripeEvents at hd
    cases he : Storage.rangesError E s i ranges results with
    | some e =>
      rw [he] at hd
      cases hlens : ranges ++ (items.map Prod.fst).flatten with
      | nil =>
        rw [hlens] at hd
        cases hd
        exact .nil
      | cons r rs =>
        rw [hlens] at hd
        cases hd with
        | cons hpart _ => cases hpart.1
    | none =>
      rw [he, List.map_append, List.zip_append (by
        rw [List.length_map, List.length_map, hres.length_eq])] at hd
      obtain ⟨yss, rfl, hyss⟩ := forall₂_flatten_left (l := [_, _])
        (by rw [List.flatten_cons, List.flatten_singleton]; exact hd)
      cases hyss with
      | cons h₁ hyss =>
        cases hyss with
        | cons h₂ hnil =>
          cases hnil
          rw [List.flatten_cons, List.flatten_singleton]
          refine List.rel_append (rangeRead_of_delivered ?_ h₁) (ih (i + 1) _ hrest h₂)
          rw [List.forall₂_map_right_iff]
          refine hres.imp ?_
          rintro r (e | data) hmem part hpart
          · cases hpart
          · cases hpart
            exact hmem

theorem readRanges_conforms {plan : List (List Storage.Range)}
    (hk : R.knows t key.toStringKey m) :
    Conforms (ReadGuard E n R) (fun t' results => List.Forall₂ (List.Forall₂
      fun (r : Storage.Range) res =>
        R.After t' key.toStringKey m ⟨.readRange n r.path r.offset r.length, res⟩) plan results) t
      (Storage.readRanges n plan) := by
  refine (Conforms.joinAll (J := fun t' => R.knows t' key.toStringKey m)
    (P := fun ranges t' rs => List.Forall₂ (fun (r : Storage.Range) res =>
      R.After t' key.toStringKey m ⟨.readRange n r.path r.offset r.length, res⟩) ranges rs) ?_ ?_ hk
    ?_).weaken fun _ _ _ h => h.2
  · exact fun t' _ h => ⟨trivial, fun _ => R.mono h (List.suffix_cons _ _)⟩
  · exact fun ranges t₁ t₂ rs hs _ _ h => h.imp fun _ _ h => h.mono hs
  · intro ranges _ t₁ h₁
    exact (joinReads_conforms (f := Storage.readRange n) (e := fun (r : Storage.Range) res =>
      ⟨.readRange n r.path r.offset r.length, res⟩) R.mono h₁ fun _ _ _ h => ⟨trivial, h⟩).weaken
      fun _ _ hs h => ⟨R.mono h₁ hs, h⟩

section Stream

variable {capacity : Nat} (hp : R.purges) (hstreams : R.streams)
include hp hstreams

theorem getIntoPtrStreamWithMeta_gives (hk : R.knows t key.toStringKey m) :
    Gives (ReadGuard E n R) (fun t' r => ∀ evs parts, r = some evs → Delivered evs parts →
      ReadBack E t' n key m parts.flatten) t
      (Storage.getIntoPtrStreamWithMeta E n key m capacity) := by
  unfold Storage.getIntoPtrStreamWithMeta
  refine (purgeIfExpired_gives.mono fun _ _ => LiveGuard.read).bind fun t₁ purged hs₁ _ => ?_
  have hk₁ := R.mono hk hs₁
  cases purged with
  | true => exact .pure nofun
  | false =>
    rw [if_neg (by simp)]
    split
    next hst =>
      refine fileExists_gives hp hk₁ hst (fun _ => nofun) fun t₂ hs₂ => ?_
      refine Conforms.except_bind (Q := fun t' r => ∃ x, r = .ok x ∧ ReadInto R n key.toStringKey m
        (Storage.metaPathOrRoute E n key m) t' x) (Conforms.attempt_iff.mpr
        ((readIntoPtr_conforms (R.mono hk₁ hs₂)).weaken fun t' r _ h => ⟨r, rfl, h⟩)) ?_
        fun _ _ _ _ => nofun
      rintro t₃ r - ⟨_, ⟨⟩, hread⟩
      refine Gives.pure ?_
      rintro _ parts ⟨⟩ hd
      cases hd with
      | @cons _ part _ _ hpart hnil =>
        cases hnil
        cases r with
        | error e => cases hpart.1
        | ok data =>
          cases hpart.1
          rw [List.flatten_singleton]
          exact readBack_whole hst (.inl (Reader.After.mem hread))
    next s hst =>
      split
      · exact .throw
      · refine (Gives.ofExcept (S := fun t' plan => t' = t₁ ∧ plan = Storage.streamRanges E n s)
          fun _ h => ⟨rfl, Storage.streamPlan_eq_ok E n h⟩).bind ?_
        rintro _ _ - ⟨rfl, rfl⟩
        split
        next hver =>
          refine (Gives.lift (readRanges_conforms hk₁)).bind fun t₂ results hs₂ hres => ?_
          have hlen := hres.length_eq
          have hseen : StripesSeen E R t₂ n key m s 0
              ((Storage.streamRanges E n s).zip results) := by
            intro j ranges rs hj
            rw [List.getElem?_zip_eq_some] at hj
            obtain ⟨hplan, hj⟩ := hj
            obtain ⟨hlt, rfl⟩ := List.getElem?_eq_some_iff.mp hj
            obtain ⟨hlt', hget⟩ := List.getElem?_eq_some_iff.mp hplan
            rw [getElem?_streamRanges, Option.map_eq_some_iff] at hplan
            obtain ⟨p, hp, rfl⟩ := hplan
            refine ⟨p, by rw [Nat.zero_add]; exact hp, by rw [Nat.zero_add], ?_⟩
            have hj := hres.get hlt' hlt
            rwa [List.get_eq_getElem, List.get_eq_getElem, hget] at hj
          refine (Gives.lift (forwardStripes_conforms hp hstreams hver hst _ 0 false t₂
            (R.mono hk₁ hs₂) hseen)).bind fun t₃ events hs₃ hev => .pure ?_
          subst hev
          rintro _ parts ⟨⟩ hd
          refine readBack_ranges hst ?_
          have hfst : ((Storage.streamRanges E n s).zip results).map Prod.fst =
              Storage.streamRanges E n s := List.map_fst_zip (by omega)
          have hall := rangeRead_of_stripeEvents (t := t₃) (n := n) (E := E) (s := s)
            ((Storage.streamRanges E n s).zip results) 0 parts
          rw [hfst] at hall
          refine hall ?_ hd
          intro it hit
          exact (List.forall₂_zip hres hit).imp fun _ _ h => hs₃.subset h.mem
        next hver =>
          refine (Gives.lift (forwardRanges_conforms hp hst hk₁
            fun r hr => path_mem_of_streamRanges hr)).bind fun t₂ events _ hev => .pure ?_
          rintro _ parts ⟨⟩ hd
          exact readBack_ranges hst (rangeRead_of_delivered hev hd)

theorem getIntoPtrStream_issues :
    Issues (ReadGuard E n R) t (Storage.getIntoPtrStream E n key capacity).run := by
  refine Gives.issues (S := fun _ _ => True)
    ((getBlock_gives.mono fun _ _ => LiveGuard.read).bind ?_)
  rintro t₁ (_ | m) - ⟨-, hl, -⟩
  · exact .pure trivial
  refine (purgeIfExpired_gives.mono fun _ _ => LiveGuard.read).bind fun t₂ purged hs₂ _ => ?_
  have hk := R.looked ((hl m rfl).mono hs₂)
  split
  · exact .pure trivial
  · exact (getIntoPtrStreamWithMeta_gives hp hstreams hk).weaken fun _ _ _ _ => trivial

end Stream

end ContextStore
