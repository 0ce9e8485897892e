import ContextStore.Protocol.Guard

/-!
# 規約: metadata の client

`run_with_reconnect` を通る命令の規約と、台帳への影響。
-/

namespace ContextStore

open Conc

variable {ν : Type} {E : Env ν} {ρ : Role ν} {t : Hist ν} {α β : Type}

theorem Looked.mono {t t' : Hist ν} {s : String} {m : BlockMeta} (h : Looked t s m)
    (hs : t <:+ t') : Looked t' s m := hs.subset h

def Ledger.Quiet (l : Ledger ν) : Prop :=
  ∀ d ds, l.draws = d :: ds → ∀ c, d.commit ≠ .firstFailed c

variable {d : Draw ν}

theorem Draw.onReconnect_of_ne (h : ∀ c, d.commit ≠ .firstFailed c)
    (r : Except String Unit) : d.onReconnect r = d := by
  unfold Draw.onReconnect
  split
  next c hc => exact absurd hc (h c)
  · rfl

theorem Ledger.Quiet.reconnect {l : Ledger ν} (h : l.Quiet) (r : Except String Unit) :
    l.modifyHead (fun d => d.onReconnect r) = l := by
  obtain ⟨call, draws⟩ := l
  cases draws with
  | nil => rfl
  | cons d ds => rw [Ledger.modifyHead_cons, Draw.onReconnect_of_ne (h d ds rfl)]

theorem Ledger.quiet_empty : (Ledger.empty : Ledger ν).Quiet := by
  intro d ds h; cases h

variable {ds : List (Draw ν)}

theorem Ledger.quiet_cons {call : Option (ObjectKey × Bytes)}
    (h : ∀ c, d.commit ≠ .firstFailed c) : (⟨call, d :: ds⟩ : Ledger ν).Quiet := by
  intro d' ds' he c
  cases he
  exact h c

variable {G : Hist ν → Cmd ν → Prop}

theorem Conforms.lift_issue {ε : Type} {c : Cmd ν} {Q : Hist ν → Except ε c.Resp → Prop} :
    Conforms G Q t (ExceptT.lift (issue c) : ExceptT ε (Io ν) c.Resp).run ↔
      G t c ∧ ∀ r, Q (⟨c, r⟩ :: t) (.ok r) := Iff.rfl

theorem Conforms.issue_bind {c : Cmd ν} {f : c.Resp → Io ν α} {Q : Hist ν → α → Prop} :
    Conforms G Q t (issue c >>= f) ↔ G t c ∧ ∀ r, Conforms G Q (⟨c, r⟩ :: t) (f r) := Iff.rfl

variable {op : String}

theorem Conforms.runWithReconnect {command : Io ν (Except String α)}
    {Q : Hist ν → Except KVError α → Prop}
    (h : Conforms G (fun t₁ r₁ => match r₁ with
      | .ok v => Q t₁ (.ok v)
      | .error first => G t₁ .reconnect ∧
          (∀ e, Q (⟨.reconnect, .error e⟩ :: t₁) (.error (.metadata e))) ∧
          Conforms G (fun t₂ r₂ => match r₂ with
            | .ok v => Q t₂ (.ok v)
            | .error second => Q t₂ (.error (.metadata ("redis " ++ op ++
                " failed after reconnect: " ++ second ++ "; first error: " ++ first))))
            (⟨.reconnect, .ok ()⟩ :: t₁) command) t command) :
    Conforms G Q t (Metadata.runWithReconnect op command).run := by
  unfold Metadata.runWithReconnect
  refine Conforms.lift_bind (h.weaken ?_)
  rintro t₁ (first | v) - h₁
  · obtain ⟨hG, herr, hok⟩ := h₁
    refine Conforms.except_bind_iff.mpr (Conforms.lift_issue.mpr ⟨hG, ?_⟩)
    rintro (e | ⟨⟩)
    · exact herr e
    · refine Conforms.lift_bind (hok.weaken ?_)
      rintro t₂ (second | v) - h₂ <;> exact h₂
  · exact h₁

variable {c : RedisCmd}

theorem Conforms.send {Q : Hist ν → Except KVError c.Reply → Prop}
    (hG : RedisGuard E ρ t c)
    (hok : ∀ v, Q (⟨.redis c, .ok v⟩ :: t) (.ok v))
    (hlost : ∀ e₁ e, Q (⟨.reconnect, .error e⟩ :: ⟨.redis c, .error e₁⟩ :: t)
      (.error (.metadata e)))
    (hG₂ : ∀ e₁, RedisGuard E ρ (⟨.reconnect, .ok ()⟩ :: ⟨.redis c, .error e₁⟩ :: t) c)
    (hok₂ : ∀ e₁ v, Q (⟨.redis c, .ok v⟩ :: ⟨.reconnect, .ok ()⟩ :: ⟨.redis c, .error e₁⟩ :: t)
      (.ok v))
    (herr₂ : ∀ e₁ e₂ e, Q (⟨.redis c, .error e₂⟩ :: ⟨.reconnect, .ok ()⟩ ::
      ⟨.redis c, .error e₁⟩ :: t) (.error e)) :
    Conforms (Guard E ρ) Q t (Metadata.runWithReconnect op (sendRedis c)).run := by
  refine Conforms.runWithReconnect ⟨hG, ?_⟩
  rintro (e₁ | v)
  · refine ⟨trivial, hlost e₁, hG₂ e₁, ?_⟩
    rintro (e₂ | v)
    · exact herr₂ e₁ e₂ _
    · exact hok₂ e₁ v
  · exact hok v

def Sent (t : Hist ν) (c : RedisCmd) (t' : Hist ν) (r : Except KVError c.Reply) : Prop :=
  ledger t' = ledger t ∧
    match r with
    | .ok v => ∃ t₁, t' = ⟨.redis c, .ok v⟩ :: t₁ ∧ t <:+ t₁
    | .error _ => ∃ e t₁, (⟨.redis c, .error e⟩ : Event (Cmd ν) Cmd.Resp) :: t₁ <:+ t' ∧
        t <:+ t₁ ∧ ledger t₁ = ledger t

theorem Conforms.sendPlain
    (hplain : ∀ (l : Ledger ν) r, l.onRedis c r = l)
    (hG : ∀ t' : Hist ν, t <:+ t' → ledger t' = ledger t → RedisGuard E ρ t' c)
    (hq : (ledger t).Quiet) :
    Conforms (Guard E ρ) (Sent t c) t (Metadata.runWithReconnect op (sendRedis c)).run := by
  have hl₁ : ∀ e₁, ledger (⟨.redis c, .error e₁⟩ :: t) = ledger t := by
    intro e₁; rw [ledger_redis, hplain]
  have hl₂ : ∀ e₁ r, ledger (⟨.reconnect, r⟩ :: ⟨.redis c, .error e₁⟩ :: t) = ledger t := by
    intro e₁ r; rw [ledger_reconnect, hl₁, hq.reconnect]
  refine Conforms.send (hG t (List.suffix_refl t) rfl) ?_ ?_ ?_ ?_ ?_
  · intro v
    exact ⟨by rw [ledger_redis, hplain], t, rfl, List.suffix_refl t⟩
  · intro e₁ e
    exact ⟨hl₂ e₁ _, e₁, t, List.suffix_cons _ _, List.suffix_refl t, rfl⟩
  · grind
  · intro e₁ v
    exact ⟨by rw [ledger_redis, hplain, hl₂], _, rfl,
      (List.suffix_cons _ t).trans (List.suffix_cons _ _)⟩
  · intro e₁ e₂ e
    refine ⟨by rw [ledger_redis, hplain, hl₂], e₁, t, ?_, List.suffix_refl t, rfl⟩
    exact (List.suffix_cons _ _).trans (List.suffix_cons _ _)

theorem getBlock_conforms (s : String) (hq : (ledger t).Quiet) :
    Conforms (Guard E ρ) (Sent t (.getBlock s)) t (Metadata.getBlock s).run :=
  Conforms.sendPlain (fun _ _ => rfl) (fun _ _ _ => trivial) hq

theorem nextGeneration_conforms {k : ObjectKey} {b : Bytes}
    (hl : ledger t = ⟨some (k, b), ds⟩) (hq : (ledger t).Quiet) :
    Conforms (Guard E ρ) (fun t' r => match r with
      | .ok g => ledger t' = ⟨none, ⟨k, b, g, [], .idle, []⟩ :: ds⟩
      | .error _ => ledger t' = ledger t) t (Metadata.nextGeneration k.toStringKey).run := by
  have hl₁ : ∀ e₁, ledger (⟨.redis (.nextGeneration k.toStringKey), .error e₁⟩ :: t) = ledger t :=
    fun _ => rfl
  have hl₂ : ∀ e₁ r, ledger (⟨.reconnect, r⟩ ::
      ⟨.redis (.nextGeneration k.toStringKey), .error e₁⟩ :: t) = ledger t := by
    intro e₁ r; rw [ledger_reconnect, hl₁, hq.reconnect]
  refine Conforms.send ⟨k, b, by rw [hl], rfl⟩ ?_ ?_ ?_ ?_ ?_
  · intro g
    show (ledger t).draw g = _
    rw [hl]; rfl
  · intro e₁ e; exact hl₂ e₁ _
  · intro e₁; exact ⟨k, b, by rw [hl₂, hl], rfl⟩
  · intro e₁ g
    show (ledger _).draw g = _
    rw [hl₂, hl]; rfl
  · intro e₁ e₂ e; exact hl₂ e₁ _

/-! ## commit -/

def RedisCmd.inserted : (c : RedisCmd) → c.Reply → Bool
  | .putBlockIfAbsent _ _, b => b
  | _, _ => true

theorem onRedis_publishes (hc : c.publishes.isSome) (l : Ledger ν)
    (r : Except String c.Reply) :
    l.onRedis c r = l.modifyHead fun d => d.onCommit c (r.map (c.inserted)) := by
  cases c with
  | putBlockIfAbsent s m => cases r <;> rfl
  | replaceBlock s m nb => rfl
  | _ => cases hc

theorem publish_conforms
    (hc : c.publishes.isSome) (hl : ledger t = ⟨none, d :: ds⟩) (hidle : d.commit = .idle)
    (hG : ∀ (t' : Hist ν) d', ledger t' = ⟨none, d' :: ds⟩ → d' = { d with commit := d'.commit } →
      (d'.commit = .idle ∨ d'.commit = .reconnected c) → RedisGuard E ρ t' c) :
    Conforms (Guard E ρ) (fun t' r => match r with
      | .ok v => ledger t' = ⟨none, { d with commit := .acked c (c.inserted v) } :: ds⟩
      | .error _ => ledger t' = ⟨none, { d with commit := .gaveUp c } :: ds⟩) t
      (Metadata.runWithReconnect op (sendRedis c)).run := by
  have hl₁ : ∀ e₁, ledger (⟨.redis c, .error e₁⟩ :: t) =
      ⟨none, { d with commit := .firstFailed c } :: ds⟩ := by
    intro e₁
    rw [ledger_redis, onRedis_publishes hc, hl, Ledger.modifyHead_cons]
    simp only [Except.map, Draw.onCommit, hidle]
  have hl₂ : ∀ e₁, ledger (⟨.reconnect, .ok ()⟩ :: ⟨.redis c, .error e₁⟩ :: t) =
      ⟨none, { d with commit := .reconnected c } :: ds⟩ := by
    intro e₁
    rw [ledger_reconnect, hl₁, Ledger.modifyHead_cons]
    rfl
  refine Conforms.send (hG t d hl rfl (.inl hidle)) ?_ ?_ ?_ ?_ ?_
  · intro v
    show (ledger t).onRedis c (.ok v) = _
    rw [onRedis_publishes hc, hl]
    rfl
  · intro e₁ e
    show (ledger (⟨.redis c, .error e₁⟩ :: t)).modifyHead _ = _
    rw [hl₁]
    rfl
  · intro e₁
    exact hG _ _ (hl₂ e₁) rfl (.inr rfl)
  · intro e₁ v
    show (ledger (⟨.reconnect, .ok ()⟩ :: ⟨.redis c, .error e₁⟩ :: t)).onRedis c (.ok v) = _
    rw [onRedis_publishes hc, hl₂]
    rfl
  · intro e₁ e₂ e
    show (ledger (⟨.reconnect, .ok ()⟩ :: ⟨.redis c, .error e₁⟩ :: t)).onRedis c (.error e₂) = _
    rw [onRedis_publishes hc, hl₂]
    rfl

end ContextStore
