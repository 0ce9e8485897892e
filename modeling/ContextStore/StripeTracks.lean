import Mathlib.Data.List.Perm.Basic
import ContextStore.StripePlan
import ContextStore.Stripes

/-!
# 受け取りの loop の不変条件

計画の履歴から、送り出した stripe・終わった stripe・commit した record を読む。
-/

namespace ContextStore

open Conc

namespace Service.Plan

variable {ν : Type} {E : Env ν} {n : ν}

abbrev PlanHist := Trace StripeCmd StripeCmd.Resp

def spawned : PlanHist → List Stripe
  | [] => []
  | ⟨.spawn s, _⟩ :: H => spawned H ++ [s]
  | _ :: H => spawned H

def joined : PlanHist → List (Stripe × Except Status ChunkLocation)
  | [] => []
  | ⟨.join _ s, r⟩ :: H => joined H ++ [⟨s, r⟩]
  | _ :: H => joined H

def committed : PlanHist → List BlockMeta
  | [] => []
  | ⟨.commit m, _⟩ :: H => committed H ++ [m]
  | _ :: H => committed H

def Ended (ctx : StreamCtx) (H : PlanHist) (s : Stripe) (r : Except Status ChunkLocation) : Prop :=
  (⟨.join ctx.desc s, r⟩ : Event StripeCmd StripeCmd.Resp) ∈ H

def Steady (E : Env ν) (n : ν) (ctx : StreamCtx) (b : Bytes) (H : PlanHist) : StripeCmd → Prop
  | .spawn _ => (spawned H).length < (joined H).length + maxInflightStripes
  | .join desc s => desc = ctx.desc ∧ s ∈ stripes E n ctx b
  | .pick _ | .receive => True
  | _ => False

variable {ctx : StreamCtx} {b : Bytes} {covered : Nat} {st : State} {H : PlanHist}
  {e : Event StripeCmd StripeCmd.Resp}

structure Tracks (E : Env ν) (n : ν) (ctx : StreamCtx) (b : Bytes) (covered : Nat) (H : PlanHist)
    (st : State) : Prop where
  balance : (spawned H).length = (joined H).length + st.inflight.length
  queued : ∀ s ∈ st.inflight, s ∈ stripes E n ctx b
  failed : st.firstErr ≠ none → ∃ s e, Ended ctx H s (.error e)
  located : ∃ done, List.Forall₂ (fun s c => Ended ctx H s (.ok c)) done st.locations ∧
    (st.firstErr = none → (done ++ st.inflight).Perm (spawned H) ∧
      spawned H = (List.range covered).map fun i =>
        stripe E n ctx i (stripeOf ctx.chunkSize b i))

theorem Tracks.extend (h : Tracks E n ctx b covered H st) (hs : spawned (e :: H) = spawned H)
    (hj : joined (e :: H) = joined H) : Tracks E n ctx b covered (e :: H) st := by
  obtain ⟨done, hdone, hcov⟩ := h.located
  refine ⟨hs ▸ hj ▸ h.balance, h.queued, fun hne => ?_, done,
    hdone.imp fun _ _ h => List.mem_cons_of_mem _ h, hs ▸ hcov⟩
  obtain ⟨s, e, hmem⟩ := h.failed hne
  exact ⟨s, e, List.mem_cons_of_mem _ hmem⟩

theorem perm_eraseIdx_append {α : Type} {done idx : List α} {j : Nat} (hj : j < idx.length) :
    (done ++ [idx[j]] ++ idx.eraseIdx j).Perm (done ++ idx) := by
  rw [List.append_assoc]
  exact List.Perm.append_left _ (List.getElem_cons_eraseIdx_perm hj)

theorem Tracks.absorb (h : Tracks E n ctx b covered H st) {j : Nat} (hj : j < st.inflight.length)
    (r : Except Status ChunkLocation) :
    Tracks E n ctx b covered (⟨.join ctx.desc st.inflight[j], r⟩ :: H)
      (Plan.absorb { st with inflight := st.inflight.eraseIdx j } r) := by
  have hlen : (st.inflight.eraseIdx j).length = st.inflight.length - 1 :=
    List.length_eraseIdx_of_lt hj
  have hbalance : (spawned H).length = (joined H ++ [(st.inflight[j], r)]).length +
      (st.inflight.eraseIdx j).length := by
    rw [h.balance, List.length_append, List.length_singleton]
    omega
  have hqueued : ∀ s ∈ st.inflight.eraseIdx j, s ∈ stripes E n ctx b :=
    fun s hs => h.queued s (List.mem_of_mem_eraseIdx hs)
  obtain ⟨done, hdone, hcov⟩ := h.located
  have hold := hdone.imp fun s c (h : Ended ctx H s (.ok c)) =>
    List.mem_cons_of_mem (⟨.join ctx.desc st.inflight[j], r⟩ : Event StripeCmd StripeCmd.Resp) h
  cases r with
  | ok c =>
    refine ⟨hbalance, hqueued, fun hne => ?_, done ++ [st.inflight[j]],
      List.rel_append hold (.cons List.mem_cons_self .nil), fun herr => ?_⟩
    · obtain ⟨s, e, hmem⟩ := h.failed hne
      exact ⟨s, e, List.mem_cons_of_mem _ hmem⟩
    · exact ⟨(perm_eraseIdx_append hj).trans (hcov herr).1, (hcov herr).2⟩
  | error e =>
    refine ⟨hbalance, hqueued, fun _ => ⟨_, e, List.mem_cons_self⟩, done, hold, fun herr => ?_⟩
    simp [Plan.absorb] at herr

structure SameCursor (st st' : State) : Prop where
  segments : st'.curSegments = st.curSegments
  filled : st'.curFilled = st.curFilled
  next : st'.nextStripe = st.nextStripe
  received : st'.receivedTotal = st.receivedTotal
  err : st'.firstErr = none → st.firstErr = none

theorem SameCursor.refl (st : State) : SameCursor st st := ⟨rfl, rfl, rfl, rfl, id⟩

theorem SameCursor.trans {st st' st'' : State} (h : SameCursor st st') (h' : SameCursor st' st'') :
    SameCursor st st'' :=
  ⟨h'.segments.trans h.segments, h'.filled.trans h.filled, h'.next.trans h.next,
    h'.received.trans h.received, fun he => h.err (h'.err he)⟩

theorem joinNext_tracks (h : Tracks E n ctx b covered H st) :
    Conforms (Steady E n ctx b) (fun H' st' => Tracks E n ctx b covered H' st' ∧
      SameCursor st st' ∧ st'.inflight.length = st.inflight.length - 1) H (joinNext ctx st) := by
  have hpick : Conforms (Steady E n ctx b) (fun H' _ => Tracks E n ctx b covered H' st) H
      (pick st.inflight.length) := ⟨trivial, fun _ => h.extend rfl rfl⟩
  refine Conforms.bind hpick fun H₁ i _ h₁ => ?_
  generalize hj : i % st.inflight.length = j
  cases htask : st.inflight[j]? with
  | none =>
    refine ⟨h₁, .refl _, ?_⟩
    have hle := List.getElem?_eq_none_iff.mp htask
    by_contra hne
    have hlt := Nat.mod_lt i (show 0 < st.inflight.length by omega)
    omega
  | some s =>
    obtain ⟨hlt, rfl⟩ := List.getElem?_eq_some_iff.mp htask
    refine ⟨⟨rfl, h₁.queued _ (List.getElem_mem hlt)⟩,
      fun (r : Except Status ChunkLocation) => ⟨h₁.absorb hlt r, ?_, ?_⟩⟩
    · cases r with
      | ok c => exact ⟨rfl, rfl, rfl, rfl, id⟩
      | error e =>
        refine ⟨rfl, rfl, rfl, rfl, fun herr => ?_⟩
        simp [absorb] at herr
    · rw [← List.length_eraseIdx_of_lt hlt]
      cases r <;> rfl

theorem waitBelow_tracks {bound : Nat} (hb : 0 < bound) :
    ∀ (fuel : Nat) (H : PlanHist) (st : State), Tracks E n ctx b covered H st →
      Conforms (Steady E n ctx b) (fun H' st' => Tracks E n ctx b covered H' st' ∧
        SameCursor st st' ∧ (st.inflight.length < bound + fuel → st'.inflight.length < bound)) H
        (waitBelow ctx bound fuel st) := by
  intro fuel
  induction fuel with
  | zero => intro H st h; exact ⟨h, .refl _, fun hlt => hlt⟩
  | succ fuel ih =>
    intro H st h
    unfold waitBelow
    split
    · refine Conforms.bind (joinNext_tracks h) ?_
      rintro H₁ st₁ - ⟨h₁, hsame, hlen⟩
      refine (ih H₁ st₁ h₁).weaken ?_
      rintro H₂ st₂ - ⟨h₂, hsame₂, hlt⟩
      refine ⟨h₂, hsame.trans hsame₂, fun hfuel => hlt ?_⟩
      rw [hlen]
      omega
    next hlt => exact ⟨h, .refl _, fun _ => Nat.lt_of_not_le hlt⟩

theorem dispatchStripe_tracks {segments : List Bytes} (h : Tracks E n ctx b st.nextStripe H st)
    (hi : st.nextStripe < Storage.divCeil b.length ctx.chunkSize)
    (hseg : segments.flatten = stripeOf ctx.chunkSize b st.nextStripe) :
    Conforms (Steady E n ctx b) (fun H' st' => Tracks E n ctx b (st.nextStripe + 1) H' st' ∧
      SameCursor { st with nextStripe := st.nextStripe + 1 } st') H
      (dispatchStripe E n ctx segments st) := by
  have h' : Tracks E n ctx b st.nextStripe H { st with nextStripe := st.nextStripe + 1 } :=
    ⟨h.balance, h.queued, h.failed, h.located⟩
  refine Conforms.bind (waitBelow_tracks (by decide) _ H _ h') ?_
  rintro H₁ st₁ - ⟨h₁, hsame, hlt⟩
  obtain ⟨done, hdone, hcov⟩ := h₁.located
  split
  next hnone =>
    have hroom : st₁.inflight.length < maxInflightStripes :=
      hlt (Nat.lt_add_of_pos_left (by decide))
    have hbalance := h₁.balance
    obtain ⟨hperm, hspawned⟩ := hcov (Option.isNone_iff_eq_none.mp hnone)
    rw [hseg]
    refine ⟨show (spawned H₁).length < (joined H₁).length + maxInflightStripes by omega,
      fun _ => ⟨⟨?_, List.forall_mem_append.mpr ⟨h₁.queued, ?_⟩, ?_, done,
        hdone.imp fun _ _ h => List.mem_cons_of_mem _ h, fun _ => ⟨?_, ?_⟩⟩,
        ⟨hsame.segments, hsame.filled, hsame.next, hsame.received, hsame.err⟩⟩⟩
    · show (spawned H₁ ++ [_]).length = (joined H₁).length + (st₁.inflight ++ [_]).length
      rw [List.length_append, List.length_append, List.length_singleton]
      omega
    · exact List.forall_mem_singleton.mpr (List.mem_map_of_mem (List.mem_range.mpr hi))
    · exact fun hne => absurd (Option.isNone_iff_eq_none.mp hnone) hne
    · rw [← List.append_assoc]
      exact hperm.append_right _
    · show spawned H₁ ++ [_] = _
      rw [hspawned, List.range_succ, List.map_append, List.map_singleton]
  next hsome =>
    refine ⟨⟨h₁.balance, h₁.queued, h₁.failed, done, hdone, fun herr => ?_⟩, hsame⟩
    exact absurd (Option.isNone_iff_eq_none.mpr herr) hsome

structure Cursor (cs : Nat) (x : Bytes) (st : State) : Prop where
  segments : st.curSegments.flatten = x.drop (st.nextStripe * cs)
  filled : st.nextStripe * cs + st.curFilled = x.length
  partly : st.curFilled < cs
  nonempty : st.curSegments ≠ [] → 0 < st.curFilled

theorem stripeOf_of_prefix {cs i : Nat} {x : Bytes} (hx : x <+: b) (hle : (i + 1) * cs ≤ x.length) :
    (x.drop (i * cs)).take cs = stripeOf cs b i := by
  obtain ⟨rest, rfl⟩ := hx
  rw [stripeOf_eq, List.drop_append_of_le_length (by rw [Nat.add_mul] at hle; omega),
    List.take_append_of_le_length]
  rw [List.length_drop]
  rw [Nat.add_mul] at hle
  omega

theorem lt_divCeil_of_mul_lt {a cs i : Nat} (hcs : 0 < cs) (h : i * cs < a) :
    i < Storage.divCeil a cs := by
  by_contra hge
  have := le_divCeil_mul a hcs
  have := Nat.mul_le_mul_right cs (Nat.le_of_not_lt hge)
  omega

namespace Cursor

variable {cs : Nat} {x data : Bytes}

theorem push (h : Cursor cs x st) (hne : data ≠ []) (hshort : data.length < cs - st.curFilled) :
    Cursor cs (x ++ data) { st with
      curFilled := st.curFilled + data.length, curSegments := st.curSegments ++ [data] } := by
  have hpos : 0 < data.length := List.length_pos_iff.mpr hne
  have hfill := h.filled
  refine ⟨?_, ?_, ?_, fun _ => ?_⟩
  · show (st.curSegments ++ [data]).flatten = (x ++ data).drop (st.nextStripe * cs)
    grind [segments]
  · grind
  · show st.curFilled + data.length < cs
    omega
  · show 0 < st.curFilled + data.length
    omega

theorem length_fill (h : Cursor cs x st) (hfull : cs - st.curFilled ≤ data.length) :
    (x ++ data.take (cs - st.curFilled)).length = (st.nextStripe + 1) * cs := by
  have hfill := h.filled
  have hpart := h.partly
  grind

theorem fill (h : Cursor cs x st) (hcs : 0 < cs) (hx : x ++ data <+: b)
    (hfull : cs - st.curFilled ≤ data.length) :
    (st.curSegments ++ [data.take (cs - st.curFilled)]).flatten =
        stripeOf cs b st.nextStripe ∧
      st.nextStripe < Storage.divCeil b.length cs := by
  have hfill := h.filled
  have hpart := h.partly
  have hlen := h.length_fill hfull
  have hx₁ : x ++ data.take (cs - st.curFilled) <+: b :=
    ((List.prefix_append_right_inj x).mpr (List.take_prefix _ data)).trans hx
  constructor
  · rw [← stripeOf_of_prefix hx₁ (Nat.le_of_eq hlen.symm), List.flatten_append,
      List.flatten_singleton, h.segments, List.drop_append_of_le_length (by omega)]
    refine (List.take_of_length_le ?_).symm
    rw [List.length_append, List.length_drop, List.length_take]
    omega
  · have hle := hx₁.length_le
    rw [hlen, Nat.add_mul] at hle
    exact lt_divCeil_of_mul_lt hcs (by omega)

theorem advance {st' : State} (h : Cursor cs x st) (hcs : 0 < cs)
    (hfull : cs - st.curFilled ≤ data.length) (hseg : st'.curSegments = [])
    (hfilled : st'.curFilled = 0) (hnext : st'.nextStripe = st.nextStripe + 1) :
    Cursor cs (x ++ data.take (cs - st.curFilled)) st' := by
  have hlen := h.length_fill hfull
  refine ⟨?_, ?_, ?_, ?_⟩
  · rw [hseg, hnext, ← hlen, List.drop_length]
    rfl
  · rw [hnext, hfilled, hlen]
    rfl
  · rw [hfilled]
    exact hcs
  · intro hne
    exact absurd hseg hne

theorem flush (h : Cursor cs x st) (hcs : 0 < cs) (hne : st.curSegments ≠ []) :
    st.curSegments.flatten = stripeOf cs x st.nextStripe ∧
      st.nextStripe + 1 = Storage.divCeil x.length cs := by
  have hfill := h.filled
  have hpart := h.partly
  have hpos := h.nonempty hne
  constructor
  · rw [stripeOf_eq, h.segments]
    refine (List.take_of_length_le ?_).symm
    rw [List.length_drop]
    omega
  · refine Nat.le_antisymm (lt_divCeil_of_mul_lt hcs (by omega)) (divCeil_le_of_le_mul hcs ?_)
    rw [Nat.add_mul]
    omega

theorem whole (h : Cursor cs x st) (hcs : 0 < cs) (hnil : st.curSegments = []) :
    st.nextStripe = Storage.divCeil x.length cs := by
  have hfill := h.filled
  have hlen := congrArg List.length h.segments
  rw [hnil, List.flatten_nil, List.length_nil, List.length_drop] at hlen
  refine Nat.le_antisymm ?_ (divCeil_le_of_le_mul hcs (by omega))
  by_contra hlt
  have hle := le_divCeil_mul x.length hcs
  have hmul := Nat.mul_lt_mul_of_pos_right (Nat.lt_of_not_le hlt) hcs
  omega

end Cursor

structure Receiving (E : Env ν) (n : ν) (ctx : StreamCtx) (b x : Bytes) (H : PlanHist)
    (st : State) : Prop where
  tracks : Tracks E n ctx b st.nextStripe H st
  cursor : Cursor ctx.chunkSize x st
  received : st.receivedTotal = x.length

theorem feedLoop_tracks (hcs : 0 < ctx.chunkSize) :
    ∀ (fuel : Nat) (data x : Bytes) (H : PlanHist) (st : State),
      Tracks E n ctx b st.nextStripe H st → Cursor ctx.chunkSize x st → x ++ data <+: b →
      data.length ≤ fuel →
      Conforms (Steady E n ctx b) (fun H' st' => Tracks E n ctx b st'.nextStripe H' st' ∧
        Cursor ctx.chunkSize (x ++ data) st' ∧ st'.receivedTotal = st.receivedTotal) H
        (feedLoop E n ctx fuel data st) := by
  intro fuel
  induction fuel with
  | zero =>
    intro data x H st h hcur hx hlen
    obtain rfl : data = [] := List.length_eq_zero_iff.mp (Nat.le_zero.mp hlen)
    rw [List.append_nil]
    exact ⟨h, hcur, rfl⟩
  | succ fuel ih =>
    intro data x H st h hcur hx hlen
    have hpart := hcur.partly
    unfold feedLoop
    split
    next hnil =>
      subst hnil
      rw [List.append_nil]
      exact ⟨h, hcur, rfl⟩
    next hne =>
      dsimp only
      split
      next hshort =>
        exact ⟨⟨h.balance, h.queued, h.failed, h.located⟩, hcur.push hne hshort, rfl⟩
      next hfull =>
        have hfull := Nat.le_of_not_lt hfull
        obtain ⟨hseg, hi⟩ := hcur.fill hcs hx hfull
        have hcleared : Tracks E n ctx b st.nextStripe H
            { st with curSegments := [], curFilled := 0 } :=
          ⟨h.balance, h.queued, h.failed, h.located⟩
        refine Conforms.bind (dispatchStripe_tracks hcleared hi hseg) ?_
        rintro H₁ st₁ - ⟨h₁, hsame⟩
        have hnext : st₁.nextStripe = st.nextStripe + 1 := hsame.next
        have hsplit : x ++ data = (x ++ data.take (ctx.chunkSize - st.curFilled)) ++
            data.drop (ctx.chunkSize - st.curFilled) := by
          rw [List.append_assoc, List.take_append_drop]
        rw [hsplit]
        refine (ih _ _ H₁ st₁ (hnext ▸ h₁)
          (hcur.advance hcs hfull hsame.segments hsame.filled hnext) (hsplit ▸ hx) ?_).weaken ?_
        · grind
        · rintro H₂ st₂ - ⟨h₂, hcur₂, hrec⟩
          exact ⟨h₂, hcur₂, hrec.trans hsame.received⟩

variable {x data : Bytes}

theorem feed_tracks (hcs : 0 < ctx.chunkSize) (h : Receiving E n ctx b x H st)
    (hx : x ++ data <+: b) :
    Conforms (Steady E n ctx b) (Receiving E n ctx b (x ++ data)) H (feed E n ctx data st) := by
  refine (feedLoop_tracks hcs data.length data x H
    { st with receivedTotal := st.receivedTotal + data.length }
    ⟨h.tracks.balance, h.tracks.queued, h.tracks.failed, h.tracks.located⟩
    ⟨h.cursor.segments, h.cursor.filled, h.cursor.partly, h.cursor.nonempty⟩ hx
    (Nat.le_refl _)).weaken ?_
  rintro H' st' - ⟨h', hcur', hrec'⟩
  refine ⟨h', hcur', hrec'.trans ?_⟩
  rw [List.length_append, ← h.received]

theorem dropInflight_steady (ss : List Stripe) (H : PlanHist)
    (h : ∀ s ∈ ss, s ∈ stripes E n ctx b) :
    Conforms (Steady E n ctx b) (fun _ _ => True) H (dropInflight ctx ss) := by
  induction ss generalizing H with
  | nil => trivial
  | cons s ss ih =>
    obtain ⟨hs, hss⟩ := List.forall_mem_cons.mp h
    refine ⟨trivial, fun (i : Nat) => ?_⟩
    show Conforms _ _ _ (if i = 0 then dropInflight ctx ss else _)
    split
    · exact ih _ hss
    · exact ⟨⟨rfl, hs⟩, fun _ => ih _ hss⟩

def Broken (H : PlanHist) : Prop :=
  ∃ e, (⟨.receive, .error e⟩ : Event StripeCmd StripeCmd.Resp) ∈ H

def Received (E : Env ν) (n : ν) (ctx : StreamCtx) (b : Bytes) (H : PlanHist) :
    Except Status State → Prop
  | .ok st => ∃ x, Receiving E n ctx b x H st ∧ (st.firstErr = none → x = b)
  | .error _ => Broken H

theorem receive_bind {f : PlanSvc State} (h : Receiving E n ctx b x H st)
    (hf : ∀ H', Receiving E n ctx b x H' st →
      Conforms (Steady E n ctx b) (Received E n ctx b) H' f.run) :
    Conforms (Steady E n ctx b) (Received E n ctx b) H (do
      match ← ExceptT.lift receiveNext with
      | .error e =>
        ExceptT.lift (dropInflight ctx st.inflight)
        throw ⟨.internal, e⟩
      | .ok () => f : PlanSvc State).run := by
  refine Conforms.lift_bind ⟨trivial, ?_⟩
  rintro (e | ⟨⟩)
  · refine Conforms.lift_bind ((dropInflight_steady _ _ h.tracks.queued).weaken ?_)
    exact fun _ _ hs _ => ⟨e, hs.subset List.mem_cons_self⟩
  · exact hf _ ⟨h.tracks.extend rfl rfl, h.cursor, h.received⟩

theorem receiveLoop_tracks (hcs : 0 < ctx.chunkSize) :
    ∀ (chunks : List PutChunk) (sawLast : Bool) (x : Bytes) (H : PlanHist) (st : State),
      Receiving E n ctx b x H st → x ++ (if sawLast then [] else receivedData chunks) = b →
      Conforms (Steady E n ctx b) (Received E n ctx b) H
        (receiveLoop E n ctx chunks sawLast st).run := by
  intro chunks
  induction chunks with
  | nil =>
    intro sawLast x H st h hx
    have hx' : x = b := by
      cases sawLast <;> simpa [receivedData] using hx
    unfold receiveLoop
    split
    · exact ⟨x, h, fun _ => hx'⟩
    · exact receive_bind h fun H₁ h₁ => ⟨x, h₁, fun _ => hx'⟩
  | cons c rest ih =>
    intro sawLast x H st h hx
    unfold receiveLoop
    split
    next hstop =>
      refine ⟨x, h, fun herr => ?_⟩
      simp_all
    next hgo =>
      obtain rfl : sawLast = false := by
        cases sawLast with
        | true => simp at hgo
        | false => rfl
      have hx' : (x ++ c.data) ++ (if c.isLast then [] else receivedData rest) = b := by
        rw [← hx, List.append_assoc]
        cases hlast : c.isLast <;> simp [receivedData, hlast]
      refine receive_bind h fun H₁ h₁ => ?_
      refine Conforms.lift_bind ((feed_tracks hcs h₁ (hx' ▸ List.prefix_append _ _)).weaken ?_)
      intro H₂ st₂ _ h₂
      exact ih c.isLast _ H₂ st₂ h₂ hx'

structure Drained (E : Env ν) (n : ν) (ctx : StreamCtx) (b : Bytes) (H : PlanHist) (st : State) :
    Prop where
  received : st.firstErr = none → st.receivedTotal = b.length
  failed : st.firstErr ≠ none → ∃ s e, Ended ctx H s (.error e)
  located : ∃ done, List.Forall₂ (fun s c => Ended ctx H s (.ok c)) done st.locations ∧
    (st.firstErr = none → done.Perm (stripes E n ctx b) ∧ spawned H = stripes E n ctx b)

theorem flushPartial_tracks (hcs : 0 < ctx.chunkSize) (h : Receiving E n ctx b x H st)
    (hx : st.firstErr = none → x = b) :
    Conforms (Steady E n ctx b) (fun H' st' => ∃ covered, Tracks E n ctx b covered H' st' ∧
      (st'.firstErr = none → covered = Storage.divCeil b.length ctx.chunkSize ∧
        st'.receivedTotal = b.length)) H (flushPartial E n ctx st) := by
  unfold flushPartial
  split
  next hcond =>
    obtain rfl := hx (Option.isNone_iff_eq_none.mp hcond.1)
    obtain ⟨hseg, hlast⟩ := h.cursor.flush hcs hcond.2
    let cleared : State := { st with curSegments := [] }
    have hcleared : Tracks E n ctx x cleared.nextStripe H cleared :=
      ⟨h.tracks.balance, h.tracks.queued, h.tracks.failed, h.tracks.located⟩
    refine (dispatchStripe_tracks hcleared (Nat.lt_of_succ_le hlast.le) hseg).weaken ?_
    rintro H' st' - ⟨h', hsame⟩
    exact ⟨_, h', fun _ => ⟨hlast, hsame.received.trans h.received⟩⟩
  next hcond =>
    refine ⟨_, h.tracks, fun herr => ?_⟩
    obtain rfl := hx herr
    have hnil : st.curSegments = [] := by
      by_contra hne
      exact hcond ⟨Option.isNone_iff_eq_none.mpr herr, hne⟩
    exact ⟨h.cursor.whole hcs hnil, h.received⟩

theorem flushAndDrain_tracks (hcs : 0 < ctx.chunkSize) (h : Receiving E n ctx b x H st)
    (hx : st.firstErr = none → x = b) :
    Conforms (Steady E n ctx b) (Drained E n ctx b) H (flushAndDrain E n ctx st) := by
  refine Conforms.bind (flushPartial_tracks hcs h hx) ?_
  rintro H₁ st₁ - ⟨covered, h₁, hcov⟩
  refine (waitBelow_tracks Nat.one_pos _ H₁ st₁ h₁).weaken ?_
  rintro H₂ st₂ - ⟨h₂, hsame, hlen⟩
  have hnil : st₂.inflight = [] := List.length_eq_zero_iff.mp (by have := hlen (by omega); omega)
  obtain ⟨done, hdone, hall⟩ := h₂.located
  refine ⟨fun herr => ?_, h₂.failed, done, hdone, fun herr => ?_⟩
  · exact hsame.received.trans (hcov (hsame.err herr)).2
  · obtain ⟨hperm, hspawned⟩ := hall herr
    rw [(hcov (hsame.err herr)).1] at hspawned
    rw [hnil, List.append_nil, hspawned] at hperm
    exact ⟨hperm, hspawned⟩

def gather (E : Env ν) (n : ν) (ctx : StreamCtx) (first : PutChunk) (rest : List PutChunk) :
    PlanSvc State := do
  let st ← ExceptT.lift (feed E n ctx first.data .start)
  let st ← receiveLoop E n ctx rest first.isLast st
  ExceptT.lift (flushAndDrain E n ctx st)

theorem putStream_eq (key : ObjectKey) (declared : Nat) (first : PutChunk) (rest : List PutChunk) :
    putStream E n key declared first rest = (do
      let prepared ← prepare declared
      let st ← gather E n (streamCtx E n key prepared declared) first rest
      finishStream (streamCtx E n key prepared declared) prepared st) := by
  simp only [putStream, gather, bind_assoc]

def Gathered (E : Env ν) (n : ν) (ctx : StreamCtx) (b : Bytes) (H : PlanHist) :
    Except Status State → Prop
  | .ok st => Drained E n ctx b H st
  | .error _ => Broken H

theorem gather_tracks {first : PutChunk} {rest : List PutChunk} (hcs : 0 < ctx.chunkSize)
    (hb : receivedData (first :: rest) = b) (hs : spawned H = []) (hj : joined H = []) :
    Conforms (Steady E n ctx b) (Gathered E n ctx b) H (gather E n ctx first rest).run := by
  have hstart : Receiving E n ctx b [] H .start := by
    refine ⟨⟨by rw [hs, hj]; rfl, fun _ h => (List.not_mem_nil h).elim, fun h => absurd rfl h, [],
      .nil, fun _ => ⟨by rw [hs]; exact .refl _, hs⟩⟩, ⟨?_, ?_, hcs, fun h => absurd rfl h⟩, rfl⟩
    all_goals simp [State.start]
  have hb' : ([] ++ first.data) ++ (if first.isLast then [] else receivedData rest) = b := by
    rw [← hb]
    cases hlast : first.isLast <;> simp [receivedData, hlast]
  refine Conforms.lift_bind ((feed_tracks hcs hstart (hb' ▸ List.prefix_append _ _)).weaken ?_)
  intro H₁ st₁ _ h₁
  refine Conforms.except_bind (receiveLoop_tracks hcs rest first.isLast _ H₁ st₁ h₁ hb') ?_
    fun _ _ _ h => h
  rintro H₂ st₂ - ⟨x, hrecv, hx⟩
  exact Conforms.lift_iff.mpr (flushAndDrain_tracks hcs hrecv hx)

end Service.Plan

end ContextStore
