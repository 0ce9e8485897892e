import Mathlib.Data.List.Nodup
import ContextStore.Rdma.Pieces

/-!
# 読み出しの完了はいつ全部渡るか
-/

namespace ContextStore.Serve

open Conc Wire Storage

def ofStripe (plan : List Piece) (s : ℕ) (e : ℕ × Option ℕ) : Bool :=
  plan[e.1]?.any (·.stripe == s)

def Forwarded.stripe : Forwarded → ℕ
  | .read p _ => p.stripe
  | .failed s => s

def Forwarded.whole (p : Piece) : Forwarded := .read p (some p.length)

theorem perm_of_filter_stripe {a b : List Forwarded}
    (h : ∀ s, a.filter (·.stripe == s) = b.filter (·.stripe == s)) : a.Perm b := by
  classical
  refine List.perm_iff_count.mpr fun f => ?_
  rw [← List.count_filter (p := (·.stripe == f.stripe)) (l := a) (by simp),
    ← List.count_filter (p := (·.stripe == f.stripe)) (l := b) (by simp), h]

section Stripes

variable {plan : List Piece} {s : ℕ}

theorem ofStripe_of_some {e : ℕ × Option ℕ} {p : Piece} (h : plan[e.1]? = some p) :
    ofStripe plan s e = (p.stripe == s) := by
  rw [ofStripe, h]
  rfl

theorem ofStripe_of_none {e : ℕ × Option ℕ} (h : plan[e.1]? = none) :
    ofStripe plan s e = false := by
  rw [ofStripe, h]
  rfl

theorem forward_cons (e : ℕ × Option ℕ) (events : List (ℕ × Option ℕ)) :
    forward plan (e :: events) =
      (plan[e.1]?.map fun p => Forwarded.read p e.2).toList ++ forward plan events := by
  unfold forward
  rw [List.filterMap_cons]
  cases plan[e.1]? <;> rfl

theorem forward_filter (events : List (ℕ × Option ℕ)) :
    (forward plan events).filter (·.stripe == s) =
      forward plan (events.filter (ofStripe plan s)) := by
  induction events with
  | nil => rfl
  | cons e events ih =>
    rw [forward_cons, List.filter_append, ih, List.filter_cons]
    cases hp : plan[e.1]? with
    | none => simp [ofStripe_of_none hp]
    | some p =>
      rw [ofStripe_of_some hp]
      by_cases hs : p.stripe = s
      · simp [hs, forward_cons, hp, Forwarded.stripe]
      · simp [hs, Forwarded.stripe]

theorem release_filter {held : List (ℕ × Option ℕ)} {intact : Bool}
    (hheld : ∀ e ∈ held, ofStripe plan s e = true) (s' : ℕ) :
    (release plan intact s held).filter (·.stripe == s') =
      if s = s' then release plan intact s held else [] := by
  have hall : ∀ f ∈ release plan intact s held, f.stripe = s := by
    intro f hf
    unfold release at hf
    split at hf
    · obtain ⟨e, he, hmap⟩ := List.mem_filterMap.mp hf
      obtain ⟨p, hp, rfl⟩ := Option.map_eq_some_iff.mp hmap
      have := hheld e he
      rw [ofStripe_of_some hp] at this
      exact beq_iff_eq.mp this
    · rw [List.mem_singleton.mp hf]
      rfl
  by_cases heq : s = s'
  · rw [if_pos heq]
    exact List.filter_eq_self.mpr fun f hf => beq_iff_eq.mpr (heq ▸ hall f hf)
  · rw [if_neg heq]
    exact List.filter_eq_nil_iff.mpr fun f hf h => heq ((hall f hf).symm.trans (beq_iff_eq.mp h))

end Stripes

def Sorted (plan : List Piece) (pending : ℕ → List (ℕ × Option ℕ)) : Prop :=
  ∀ s, ∀ e ∈ pending s, ofStripe plan s e = true

theorem Sorted.update {plan : List Piece} {pending : ℕ → List (ℕ × Option ℕ)}
    (h : Sorted plan pending) {s : ℕ} {held : List (ℕ × Option ℕ)}
    (hheld : ∀ e ∈ held, ofStripe plan s e = true) :
    Sorted plan (Function.update pending s held) :=
  (Function.forall_update_iff pending fun s held => ∀ e ∈ held, ofStripe plan s e = true).mpr
    ⟨hheld, fun s _ => h s⟩

section Gather

variable {clears : Bool} {plan : List Piece} {stripes : ℕ} {intact : ℕ → Bool} {s : ℕ}

variable {pending : ℕ → List (ℕ × Option ℕ)}

theorem Sorted.held (h : Sorted plan pending)
    {e : ℕ × Option ℕ} {p : Piece} (hp : plan[e.1]? = some p) :
    ∀ e' ∈ pending p.stripe ++ [e], ofStripe plan p.stripe e' = true := by
  intro e' he'
  rcases List.mem_append.mp he' with he' | he'
  · exact h p.stripe e' he'
  · rw [List.mem_singleton.mp he', ofStripe_of_some hp]
    exact beq_self_eq_true _

theorem Sorted.kept (h : Sorted plan pending)
    {e : ℕ × Option ℕ} {p : Piece} (hp : plan[e.1]? = some p) (drop : Bool) :
    Sorted plan
      (Function.update pending p.stripe (if drop then [] else pending p.stripe ++ [e])) := by
  refine h.update ?_
  split
  · exact fun _ he => (List.not_mem_nil he).elim
  · exact h.held hp

theorem gather_filter_nil (hsorted : Sorted plan pending)
    {events : List (ℕ × Option ℕ)} (hnone : events.filter (ofStripe plan s) = []) :
    (gather clears plan stripes intact pending events).filter (·.stripe == s) = [] := by
  induction events generalizing pending with
  | nil => rfl
  | cons e events ih =>
    have he : ¬ ofStripe plan s e = true := List.filter_eq_nil_iff.mp hnone e List.mem_cons_self
    have ih : ∀ {pending}, Sorted plan pending → _ := fun {pending} h =>
      @ih pending h (by rwa [List.filter_cons_of_neg he] at hnone)
    by_cases hskip : ∀ p, plan[e.1]? = some p → ¬ p.stripe < stripes
    · rw [gather_skip hskip]
      exact ih hsorted
    · push Not at hskip
      obtain ⟨p, hp, hlt⟩ := hskip
      have hne : p.stripe ≠ s := by
        rwa [ofStripe_of_some hp, beq_iff_eq] at he
      rw [gather_cons hp hlt]
      dsimp only
      split
      · exact ih (hsorted.update (hsorted.held hp))
      · rw [List.filter_append, release_filter (hsorted.held hp), if_neg hne,
          ih (hsorted.kept hp _)]
        rfl

theorem gather_filter (hlt : s < stripes)
    (hsorted : Sorted plan pending) {events : List (ℕ × Option ℕ)}
    (hsome : events.filter (ofStripe plan s) ≠ [])
    (hcount : (pending s ++ events.filter (ofStripe plan s)).length =
      plan.countP (·.stripe == s)) :
    (gather clears plan stripes intact pending events).filter (·.stripe == s) =
      release plan (intact s) s (pending s ++ events.filter (ofStripe plan s)) := by
  induction events generalizing pending with
  | nil => exact absurd rfl hsome
  | cons e events ih =>
    cases hp : plan[e.1]? with
    | none =>
      have he : ¬ ofStripe plan s e = true := by simp [ofStripe_of_none hp]
      rw [List.filter_cons_of_neg he] at hsome hcount ⊢
      rw [gather_skip (by simp [hp])]
      exact ih hsorted hsome hcount
    | some p =>
      by_cases hs : p.stripe = s
      · subst hs
        have he : ofStripe plan p.stripe e = true := by simp [ofStripe_of_some hp]
        have hsplit := List.append_cons (pending p.stripe) e
          (events.filter (ofStripe plan p.stripe))
        rw [List.filter_cons_of_pos he, hsplit] at hcount ⊢
        rw [gather_cons hp hlt]
        dsimp only
        split
        next hmore =>
          have hrest : events.filter (ofStripe plan p.stripe) ≠ [] := by
            grind
          grind [Sorted.update, Sorted.held]
        next hfull =>
          have hrest : events.filter (ofStripe plan p.stripe) = [] := by
            have := not_not.mp hfull
            rw [List.length_append, this] at hcount
            exact List.eq_nil_of_length_eq_zero (by omega)
          rw [List.filter_append, release_filter (hsorted.held hp), if_pos rfl, hrest,
            gather_filter_nil (hsorted.kept hp _) hrest, List.append_nil, List.append_nil]
      · have he : ¬ ofStripe plan s e = true := by simp [ofStripe_of_some hp, hs]
        have hother : ∀ held : List (ℕ × Option ℕ),
            Function.update pending p.stripe held s = pending s := fun held =>
          Function.update_of_ne (Ne.symm hs) _ _
        rw [List.filter_cons_of_neg he] at hsome hcount ⊢
        by_cases hin : p.stripe < stripes
        · rw [gather_cons hp hin]
          dsimp only
          split
          · grind [Sorted.update, Sorted.held]
          · have := ih (hsorted.kept hp (clears ||
              (lacking plan intact p.stripe (pending p.stripe ++ [e])).isNone)) hsome
            rw [hother] at this
            rw [List.filter_append, release_filter (hsorted.held hp), if_neg hs, List.nil_append]
            exact this hcount
        · rw [gather_skip (by simpa [hp] using hin)]
          exact ih hsorted hsome hcount

end Gather

/-! ## 報告 -/

def Reported (plan : List Piece) (events : List (ℕ × Option ℕ)) (s : ℕ) : Prop :=
  ∀ (i : ℕ) p, plan[i]? = some p → p.stripe = s → i ∈ events.map Prod.fst

theorem filter_ofStripe_map (plan : List Piece) (events : List (ℕ × Option ℕ)) (s : ℕ) :
    (events.filter (ofStripe plan s)).map Prod.fst =
      (events.map Prod.fst).filter fun i => plan[i]?.any (·.stripe == s) := by
  rw [List.filter_map]
  rfl

theorem map_getElem?_range (plan : List Piece) :
    (List.range plan.length).map (fun i => plan[i]?) = plan.map some := by
  refine List.ext_getElem? fun i => ?_
  by_cases hi : i < plan.length
  · simp [hi]
  · simp [hi]

theorem length_filter_range (plan : List Piece) (s : ℕ) :
    ((List.range plan.length).filter fun i => plan[i]?.any (·.stripe == s)).length =
      plan.countP (·.stripe == s) := by
  have := congrArg (List.countP fun o => o.any (·.stripe == s)) (map_getElem?_range plan)
  rw [List.countP_map, List.countP_map] at this
  rw [← List.countP_eq_length_filter]
  exact this

theorem Reported.length {plan : List Piece} {events : List (ℕ × Option ℕ)} {s : ℕ}
    (h : Reported plan events s) (hnodup : (events.map Prod.fst).Nodup) :
    (events.filter (ofStripe plan s)).length = plan.countP (·.stripe == s) := by
  have hperm : ((events.map Prod.fst).filter fun i => plan[i]?.any (·.stripe == s)).Perm
      ((List.range plan.length).filter fun i => plan[i]?.any (·.stripe == s)) := by
    refine (List.perm_ext_iff_of_nodup (hnodup.filter _) (List.nodup_range.filter _)).mpr ?_
    intro i
    rw [List.mem_filter, List.mem_filter]
    refine and_congr_left fun hi => ?_
    obtain ⟨p, hp, hs⟩ := (Option.any_eq_true _ _).mp hi
    have hlt : i < plan.length := (List.getElem?_eq_some_iff.mp hp).1
    exact ⟨fun _ => List.mem_range.mpr hlt, fun _ => h i p hp (beq_iff_eq.mp hs)⟩
  rw [← List.length_map Prod.fst, filter_ofStripe_map, hperm.length_eq, length_filter_range]

section PassOn

variable {verify clears : Bool} {plan : List Piece} {stripes : ℕ} {c : Completions}

theorem gather_perm (hnodup : (c.events.map Prod.fst).Nodup)
    (hlt : ∀ p ∈ plan, p.stripe < stripes) (hall : ∀ s, Reported plan c.events s)
    (hok : ∀ f ∈ gather clears plan stripes c.intact (fun _ => []) c.events,
      ∃ p, f = Forwarded.whole p) :
    (gather clears plan stripes c.intact (fun _ => []) c.events).Perm (forward plan c.events) := by
  have hsorted : Sorted plan fun _ => [] := fun _ _ he => (List.not_mem_nil he).elim
  refine perm_of_filter_stripe fun s => ?_
  rw [forward_filter]
  by_cases hnil : c.events.filter (ofStripe plan s) = []
  · rw [gather_filter_nil hsorted hnil, hnil]
    rfl
  ·
    have hcount := (hall s).length hnodup
    have hs : s < stripes := by
      have hpos : 0 < plan.countP (·.stripe == s) := by
        rw [← hcount]
        exact List.length_pos_iff.mpr hnil
      obtain ⟨p, hp, hps⟩ := List.countP_pos_iff.mp hpos
      exact beq_iff_eq.mp hps ▸ hlt p hp
    have hfilter : (gather clears plan stripes c.intact (fun _ => []) c.events).filter
        (·.stripe == s) = release plan (c.intact s) s (c.events.filter (ofStripe plan s)) :=
      gather_filter hs hsorted hnil hcount
    rw [hfilter]
    unfold release
    split
    · rfl
    next hbad =>
      have hmem : Forwarded.failed s ∈
          gather clears plan stripes c.intact (fun _ => []) c.events := by
        refine List.mem_of_mem_filter (p := (·.stripe == s)) ?_
        rw [hfilter, release, if_neg hbad]
        exact List.mem_singleton.mpr rfl
      obtain ⟨p, hp⟩ := hok _ hmem
      cases hp

theorem forward_perm {events : List (ℕ × Option ℕ)} (hnodup : (events.map Prod.fst).Nodup)
    (hall : ∀ s, Reported plan events s)
    (hok : ∀ f ∈ forward plan events, ∃ p, f = Forwarded.whole p) :
    (forward plan events).Perm (plan.map .whole) := by
  have hforward : forward plan events =
      (events.map Prod.fst).filterMap fun i => plan[i]?.map .whole := by
    rw [List.filterMap_map]
    refine List.filterMap_congr fun e he => ?_
    cases hp : plan[e.1]? with
    | none => simp [hp]
    | some p =>
      obtain ⟨q, hq⟩ := hok (.read p e.2) (List.mem_filterMap.mpr ⟨e, he, by rw [hp]; rfl⟩)
      simp_all [Forwarded.whole]
  have hinside : ∀ l : List ℕ, l.filterMap (fun i => plan[i]?.map Forwarded.whole) =
      (l.filter (· < plan.length)).filterMap fun i => plan[i]?.map Forwarded.whole := by
    grind [List.filterMap_filter]
  have hperm : ((events.map Prod.fst).filter (· < plan.length)).Perm (List.range plan.length) := by
    refine (List.perm_ext_iff_of_nodup (hnodup.filter _) List.nodup_range).mpr fun i => ?_
    rw [List.mem_filter, List.mem_range, decide_eq_true_iff]
    refine ⟨fun h => h.2, fun hi => ⟨?_, hi⟩⟩
    exact hall _ i plan[i] (List.getElem?_eq_getElem hi) rfl
  have hrange : (List.range plan.length).filterMap (fun i => plan[i]?.map Forwarded.whole) =
      plan.map .whole := by
    have := congrArg (List.filterMap (Option.map Forwarded.whole)) (map_getElem?_range plan)
    rw [List.filterMap_map, List.filterMap_map] at this
    refine this.trans ?_
    exact congrFun List.filterMap_eq_map plan
  rw [hforward, hinside, ← hrange]
  exact hperm.filterMap _

theorem passOn_perm (hnodup : (c.events.map Prod.fst).Nodup)
    (hlt : ∀ p ∈ plan, p.stripe < stripes) (hall : ∀ s, Reported plan c.events s)
    (hok : ∀ f ∈ passOn verify clears plan stripes c, ∃ p, f = Forwarded.whole p) :
    (passOn verify clears plan stripes c).Perm (plan.map .whole) := by
  unfold passOn at hok ⊢
  split at hok
  next hverify =>
    have hperm := gather_perm hnodup hlt hall hok
    rw [if_pos hverify]
    exact hperm.trans (forward_perm hnodup hall fun f hf => hok f (hperm.mem_iff.mpr hf))
  next hverify =>
    rw [if_neg hverify]
    exact forward_perm hnodup hall hok

theorem passOn_failed (hnodup : (c.events.map Prod.fst).Nodup)
    (hlt : ∀ p ∈ plan, p.stripe < stripes) {e : ℕ × Option ℕ} (he : e ∈ c.events) {p : Piece}
    (hp : plan[e.1]? = some p) (hbad : e.2 ≠ some p.length)
    (hall : verify = true → Reported plan c.events p.stripe) :
    ∃ f ∈ passOn verify clears plan stripes c, ∀ q, f ≠ Forwarded.whole q := by
  unfold passOn
  split
  next hverify =>
    have hmem : e ∈ c.events.filter (ofStripe plan p.stripe) :=
      List.mem_filter.mpr ⟨he, by simp [ofStripe_of_some hp]⟩
    have hsorted : Sorted plan fun _ => [] := fun _ _ he => (List.not_mem_nil he).elim
    have hfilter : (gather clears plan stripes c.intact (fun _ => []) c.events).filter
        (·.stripe == p.stripe) =
          release plan (c.intact p.stripe) p.stripe (c.events.filter (ofStripe plan p.stripe)) :=
      gather_filter (hlt p (List.mem_of_getElem? hp)) hsorted (List.ne_nil_of_mem hmem)
        ((hall hverify).length hnodup)
    refine ⟨.failed p.stripe, List.mem_of_mem_filter (p := (·.stripe == p.stripe)) ?_,
      fun q hq => by cases hq⟩
    rw [hfilter, release, if_neg]
    · exact List.mem_singleton.mpr rfl
    · intro hgood
      have := List.all_eq_true.mp (Bool.and_eq_true_iff.mp hgood).1 e hmem
      simp_all [complete]
  next =>
    refine ⟨.read p e.2, List.mem_filterMap.mpr ⟨e, he, by rw [hp]; rfl⟩, fun q hq => hbad ?_⟩
    simp_all [Forwarded.whole]

end PassOn

end ContextStore.Serve
