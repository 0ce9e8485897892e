import ContextStore.Cluster.Record

/-!
# 期限切れの object を返さない

読み出しが返す bytes は、起動のときにすでに期限の切れていた record のものではない。
-/

namespace ContextStore

open Conc

variable {ν : Type} {E : Env ν}

namespace Op

def serves : Op ν → Bool
  | get _ _ => true
  | getBatch _ _ => true
  | getStream _ _ => true
  | readByDescriptor _ _ _ => true
  | storageGet _ _ => true
  | memGet _ _ => true
  | memGetChunks _ _ => true
  | _ => false

def readKeys : Op ν → List ObjectKey
  | get _ key => key.toList
  | getBatch _ keys => keys
  | getStream _ key => key.toList
  | readByDescriptor _ desc _ => desc.key.toList
  | storageGet _ key => [key]
  | memGet _ key => [key]
  | memGetChunks _ key => [key]
  | _ => []

def isStream : Op ν → Bool
  | getStream _ _ => true
  | _ => false

end Op

def Answer.bytes : Answer → List Bytes
  | .read r => r.join.toList
  | .reads rs => (rs.getD []).filterMap id
  | _ => []

def Delivers (E : Env ν) (o : Op ν) (t : Hist ν) (b : Bytes) : Prop :=
  ∃ key ∈ o.readKeys, (∃ m, Served E t o.node key m b) ∨
    o.isStream = true ∧ ∃ e, Peeked t o.node key.toStringKey e ∧ e.segments.flatten = b

section Delivers

variable {o : Op ν} {t : Hist ν}

theorem ServesBytes.delivers {key : ObjectKey} {r : Option Bytes} (hk : key ∈ o.readKeys)
    (h : ServesBytes E o.node key t r) : ∀ b, r = some b → Delivers E o t b :=
  fun b hb => ⟨key, hk, .inl (h b hb)⟩

theorem delivers_read {ε α : Type} {x : Except ε α} {f : α → Option Bytes}
    (h : ∀ a, x = .ok a → ∀ b, f a = some b → Delivers E o t b) :
    ∀ b ∈ (Answer.read (x.toOption.map f)).bytes, Delivers E o t b := by
  intro b hb
  cases x with
  | error e => cases hb
  | ok a => exact h a rfl b (by simpa [Answer.bytes, Except.toOption] using hb)

end Delivers

theorem Op.delivers (o : Op ν) (ho : o.serves = true) :
    Conforms (fun _ _ => True) (fun t a => ∀ b ∈ a.bytes, Delivers E o t b) [] (o.prog E) := by
  cases o with
  | get n k =>
    refine Conforms.bind (serviceGet_gives (R := .any ν) trivial).yields fun t x _ h => ?_
    have := delivers_read (E := E) (o := .get n k) (t := t) (x := x) (f := id)
      fun r hr b hb => ?_
    · simpa using this
    · obtain ⟨key, hk, hserved⟩ := h r hr b hb
      exact ⟨key, Option.mem_toList.mpr hk, .inl hserved⟩
  | getBatch n keys =>
    refine Conforms.bind (serviceGetBatch_gives (R := .any ν) trivial).yields fun t x _ h b hb => ?_
    cases x with
    | error e => cases hb
    | ok rs =>
      obtain ⟨key, hk, hserved⟩ := h rs rfl b (by simpa [Answer.bytes, Except.toOption] using hb)
      exact ⟨key, hk, .inl hserved⟩
  | getStream n k =>
    refine Conforms.bind (serviceGetStream_gives (R := .any ν) trivial).yields
      fun t x _ h => delivers_read fun data hd b hb => ?_
    cases hb
    obtain ⟨key, hk, hserved | hpeek⟩ := h data hd
    · exact ⟨key, Option.mem_toList.mpr hk, .inl hserved⟩
    · exact ⟨key, Option.mem_toList.mpr hk, .inr ⟨rfl, hpeek⟩⟩
  | readByDescriptor n desc p =>
    refine Conforms.bind (readByDescriptor_gives (R := .any ν) trivial).yields fun t x _ h => ?_
    have := delivers_read (E := E) (o := .readByDescriptor n desc p) (t := t) (x := x) (f := id)
      fun r hr b hb => ?_
    · simpa using this
    · obtain ⟨key, hk, hserved⟩ := h r hr b hb
      exact ⟨key, Option.mem_toList.mpr hk, .inl hserved⟩
  | storageGet n key =>
    refine Conforms.bind (storageGet_gives (R := .any ν) trivial).yields
      fun t x _ h => delivers_read fun r hr => ?_
    exact (ServesBytes.map fun y hy => (h r hr y hy).served).delivers
      (o := .storageGet n key) List.mem_cons_self
  | memGet n key =>
    refine Conforms.bind (memoryGet_gives (R := .any ν) trivial).yields
      fun t x _ h => delivers_read fun r hr => ?_
    exact (ServesBytes.map (h r hr)).delivers (o := .memGet n key) List.mem_cons_self
  | memGetChunks n key =>
    refine Conforms.bind (memoryGetChunks_gives (R := .any ν) trivial).yields
      fun t x _ h => delivers_read fun r hr b hb => ?_
    obtain ⟨y, rfl, rfl⟩ := Option.map_eq_some_iff.mp hb
    exact ⟨key, List.mem_cons_self, .inl ⟨y.2, (h _ hr y rfl).served⟩⟩
  | _ => cases ho

/-! ## 手の条件 -/

namespace Call

def serves : Call ν → Bool
  | .op o => o.serves
  | _ => false

def isStream : Call ν → Bool
  | .op o => o.isStream
  | _ => false

end Call

def relies (th : Thread (Call ν) (Cmd ν) Cmd.Resp Returned) (s : String) (m : BlockMeta) : Bool :=
  th.label.serves && th.prog.running && decide (view s th.trace = some m)

def keepsRelied (c : State ν) (i : Nat) (x : Choice) (s : String) : Bool :=
  match c.world.redis.blocks s with
  | none => true
  | some old => !old.isExpiredAt c.world.clock || c.threads.zipIdx.all fun y =>
      (decide (y.2 = i) && decide (x = .ok)) || !relies y.1 s old

def calm (c : State ν) : Move ν → Bool
  | .run i x =>
    match c.threads[i]? with
    | none => true
    | some th =>
      match th.prog with
      | .cmd (.redis cmd) _ =>
        match (observe th.trace (.redis cmd) x c.world).key with
        | none => true
        | some s => keepsRelied c i x s
      | .cmd (.l1 n (.getChunks s)) _ =>
        !th.label.isStream ||
          (((c.world.l1 n).getChunks s).2.all fun e => !e.blockMeta.isExpiredAt c.world.clock)
      | _ => true
  | _ => true

section Calm

variable {c : State ν} {i : Nat} {x : Choice} {th : Thread (Call ν) (Cmd ν) Cmd.Resp Returned}

theorem calm_redis {cmd : RedisCmd} {k : Except String cmd.Reply → Io ν Returned} {s : String}
    {m : BlockMeta} (h : calm c (.run i x) = true) (hth : c.threads[i]? = some th)
    (hp : th.prog = .cmd (.redis cmd) k)
    (hkey : (observe th.trace (.redis cmd) x c.world).key = some s)
    (hm : c.world.redis.blocks s = some m) (hexp : m.isExpiredAt c.world.clock = true) :
    ∀ j th', c.threads[j]? = some th' → relies th' s m = true → j = i ∧ x = .ok := by
  intro j th' hth' hrel
  simp only [calm, hth, hp, hkey, keepsRelied, hm, hexp] at h
  simp only [Bool.not_true, Bool.false_or, List.all_eq_true] at h
  have := h (th', j) (List.mem_zipIdx_iff_getElem?.mpr (by simpa using hth'))
  simpa [hrel] using this

theorem calm_getChunks {n : ν} {s : String} {k : Option ChunksCacheEntry → Io ν Returned}
    {e : ChunksCacheEntry} (h : calm c (.run i x) = true) (hth : c.threads[i]? = some th)
    (hp : th.prog = .cmd (.l1 n (.getChunks s)) k) (hstream : th.label.isStream = true)
    (he : ((c.world.l1 n).getChunks s).2 = some e) :
    e.blockMeta.isExpiredAt c.world.clock = false := by
  simpa [calm, hth, hp, hstream, he] using h

end Calm

theorem learns_of_effect (X : Externs) {r : Redis} {cmd : RedisCmd} {b : Bytes} {s : String}
    (h : (cmd.effect r b).key = some s) :
    learns s (⟨.redis cmd, .ok (r.apply X cmd).2⟩ : Event (Cmd ν) Cmd.Resp) = some none := by
  cases cmd with
  | putBlockIfAbsent s' m =>
    simp only [RedisCmd.effect] at h
    split at h
    · cases h
    · cases h
      simp [learns]
  | replaceBlock s' m nb =>
    cases h
    simp [learns]
  | retireBlock s' nb =>
    simp only [RedisCmd.effect] at h
    split at h
    · cases h
      simp [learns]
    · cases h
  | retireBlockIfMatches s' expected nb =>
    simp only [RedisCmd.effect] at h
    split at h
    next old hold =>
      split at h
      next hmatch =>
        cases h
        simp_all [Redis.apply, Redis.retireBlockIfMatches, learns]
      next => cases h
    next => cases h
  | deleteBlockIfMatches s' g =>
    simp only [RedisCmd.effect] at h
    split at h
    next old hold =>
      split at h
      next hmatch =>
        cases h
        simp_all [Redis.apply, Redis.deleteBlockIfMatches, learns]
      next => cases h
    next => cases h
  | _ => cases h

theorem learns_some_some {e : Event (Cmd ν) Cmd.Resp} {s : String} {m : BlockMeta}
    (h : learns s e = some (some m)) : e = ⟨.redis (.getBlock s), .ok (some m)⟩ := by
  unfold learns at h
  split at h
  case h_1 =>
    split at h
    next hs => cases h; rw [hs]
    next => cases h
  case h_7 => cases h
  all_goals split at h <;> cases h

section Exec

variable [DecidableEq ν] {w w' : World ν}

theorem exec_clock {c : Cmd ν} {x : Choice} {r : c.Resp} (h : exec E c x w = some (w', r)) :
    w'.clock = w.clock := by
  cases c with
  | lock n cls key =>
    cases x with
    | ok =>
      grind [exec]
    | _ => cases h
  | _ => cases x <;> cases h <;> rfl

theorem exec_now {x : Choice} {r : Int} (h : exec E .now x w = some (w', r)) : r = w.clock := by
  cases x <;> cases h
  rfl

theorem exec_getChunks {n : ν} {s : String} {x : Choice} {r : Option ChunksCacheEntry}
    (h : exec E (.l1 n (.getChunks s)) x w = some (w', r)) : r = ((w.l1 n).getChunks s).2 := by
  cases x <;> cases h
  rfl

theorem not_refutes_of_exec {cmd : Cmd ν} {x : Choice} {r : cmd.Resp} {s : String} {m : BlockMeta}
    (h : exec E cmd x w = some (w', r)) (hm : w.redis.blocks s = some m) :
    ¬ Refutes s m ⟨cmd, r⟩ := by
  rintro (⟨v, he, hne⟩ | ⟨nb, he⟩) <;> cases he
  · rcases exec_redis h with ⟨-, -, hr⟩ | ⟨_, _, _, hr⟩ | ⟨_, _, _, hr⟩ <;> cases hr
    exact hne hm
  · have hreply : (w.redis.apply E.ext (.retireBlockIfMatches s m nb)).2 = true := by
      simp [Redis.apply, Redis.retireBlockIfMatches, Redis.luaIdentityMatches, hm]
    grind [exec_redis]

theorem exec_getBlock {x : Choice} {s : String} {m : BlockMeta}
    (h : exec E (.redis (.getBlock s)) x w = some (w', .ok (some m))) :
    w'.redis.blocks s = some m := by
  rcases exec_redis h with ⟨-, rfl, hr⟩ | ⟨_, _, _, hr⟩ | ⟨_, _, _, hr⟩
  · exact (Except.ok.inj hr).symm
  · cases hr
  · cases hr

end Exec

structure Timely (T : Int) (w : World ν) (th : Thread (Call ν) (Cmd ν) Cmd.Resp Returned) :
    Prop where
  clock : T ≤ w.clock
  now : ∀ τ, (⟨.now, τ⟩ : Event (Cmd ν) Cmd.Resp) ∈ th.trace → T ≤ τ
  shaken : ∀ s m, Shaken th.trace s m → m.isExpiredAt T = false
  peeked : th.label.isStream = true → ∀ n s e, Peeked th.trace n s e →
    e.blockMeta.isExpiredAt T = false
  relied : ∀ s m, relies th s m = true → m.isExpiredAt T = true → w.redis.blocks s = some m

theorem not_expired_of_le {m : BlockMeta} {T τ : Int} (hT : T ≤ τ) (h : m.isExpiredAt τ = false) :
    m.isExpiredAt T = false := by
  by_contra hexp
  have := BlockMeta.isExpiredAt_mono hT (by simpa using hexp)
  simp [h] at this

theorem Timely.live {T : Int} {w : World ν} {th : Thread (Call ν) (Cmd ν) Cmd.Resp Returned}
    (h : Timely T w th) {s : String} {m : BlockMeta} (ht : Timed th.trace s m) :
    m.isExpiredAt T = false := by
  rcases ht with ⟨now, hnow, hm⟩ | hshaken
  · exact not_expired_of_le (h.now now hnow) hm
  · exact h.shaken s m hshaken

def Reading (E : Env ν) (T : Int) (o : Op ν) (i : Nat) (c : State ν) : Prop :=
  ∃ th, c.threads[i]? = some th ∧ th.label = .op o ∧ Timely T c.world th ∧
    Conforms (fun _ _ => True) (fun t r => ∀ a, r = .op a → ∀ b ∈ a.bytes, Delivers E o t b)
      th.trace th.prog

theorem Reading.spawn {o : Op ν} (ho : o.serves = true) (c : State ν) :
    Reading E c.world.clock o c.threads.length ⟨c.world,
      c.threads ++ [⟨.op o, (Call.op o).prog E, [], false⟩],
        .spawned c.threads.length :: c.log⟩ := by
  refine ⟨_, List.getElem?_concat_length, rfl, ⟨le_refl _, nofun, ?_, nofun, ?_⟩, ?_⟩
  · rintro s m ⟨e, t₁, hs, -⟩
    cases List.suffix_nil.mp hs
  · intro s m hrel
    simp [relies, view] at hrel
  · refine Conforms.bind (o.delivers ho) fun t a _ h => ?_
    rintro _ ⟨⟩
    exact h

section Steps

variable [DecidableEq ν] {c : State ν} {i j : Nat} {x : Choice} {T : Int}
  {th th₀ : Thread (Call ν) (Cmd ν) Cmd.Resp Returned}

theorem relied_kept {cmd : Cmd ν} {k : cmd.Resp → Io ν Returned} {w' : World ν} {r : cmd.Resp}
    {s : String} {m : BlockMeta} (hcalm : calm c (.run j x) = true)
    (hth : c.threads[j]? = some th) (hp : th.prog = .cmd cmd k)
    (hexec : exec E cmd x c.world = some (w', r))
    (hth₀ : c.threads[i]? = some th₀) (hrel : relies th₀ s m = true)
    (hm : c.world.redis.blocks s = some m) (hexp : m.isExpiredAt c.world.clock = true) :
    w'.redis.blocks s = some m ∨ j = i ∧ learns s ⟨cmd, r⟩ = some none := by
  cases hc : cmd.redis? with
  | none =>
    rw [exec_redis_eq hc hexec]
    exact .inl hm
  | some rc =>
    cases cmd with
    | redis rc =>
      by_cases hkey : (observe th.trace (.redis rc) x c.world).key = some s
      · obtain ⟨rfl, rfl⟩ := calm_redis hcalm hth hp hkey hm hexp i th₀ hth₀ hrel
        rcases exec_redis hexec with ⟨-, rfl, rfl⟩ | ⟨msg, hx, -⟩ | ⟨msg, hx, -⟩
        · exact .inr ⟨rfl, learns_of_effect E.ext hkey⟩
        · cases hx
        · cases hx
      · left
        rcases exec_redis hexec with ⟨rfl, rfl, rfl⟩ | ⟨msg, rfl, rfl, rfl⟩ | ⟨msg, rfl, rfl, rfl⟩
        · exact (Redis.apply_blocks_of_ne E.ext rc _ hkey).trans hm
        · exact (Redis.apply_blocks_of_ne E.ext rc _ hkey).trans hm
        · exact hm
    | _ => cases hc

theorem Timely.other {cmd : Cmd ν} {k : cmd.Resp → Io ν Returned} {w' : World ν} {r : cmd.Resp}
    (h : Timely T c.world th₀) (hcalm : calm c (.run j x) = true) (hij : j ≠ i)
    (hth : c.threads[j]? = some th) (hp : th.prog = .cmd cmd k)
    (hexec : exec E cmd x c.world = some (w', r)) (hth₀ : c.threads[i]? = some th₀) :
    Timely T w' th₀ := by
  refine ⟨by rw [exec_clock hexec]; exact h.clock, h.now, h.shaken, h.peeked, ?_⟩
  intro s m hrel hexp
  rcases relied_kept hcalm hth hp hexec hth₀ hrel (h.relied s m hrel hexp)
    (BlockMeta.isExpiredAt_mono h.clock hexp) with hkept | ⟨hji, -⟩
  · exact hkept
  · exact absurd hji hij

theorem Timely.own {cmd : Cmd ν} {k : cmd.Resp → Io ν Returned} {w' : World ν} {r : cmd.Resp}
    (h : Timely T c.world th) (hserves : th.label.serves = true)
    (hcalm : calm c (.run i x) = true) (hth : c.threads[i]? = some th) (hp : th.prog = .cmd cmd k)
    (hexec : exec E cmd x c.world = some (w', r)) :
    Timely T w' ⟨th.label, k r, ⟨cmd, r⟩ :: th.trace, th.finished⟩ := by
  have hrel : ∀ s m, view s th.trace = some m → relies th s m = true := by
    intro s m hv
    simp [relies, hserves, hp, Prog.running, hv]
  refine ⟨by rw [exec_clock hexec]; exact h.clock, ?_, ?_, ?_, ?_⟩
  · intro τ hτ
    rcases List.mem_cons.mp hτ with heq | hτ
    · cases heq
      rw [exec_now hexec]
      exact h.clock
    · exact h.now τ hτ
  · rintro s m ⟨e, t₁, hs, hv, href⟩
    rcases List.suffix_cons_iff.mp hs with heq | hs
    · obtain ⟨rfl, rfl⟩ := List.cons.inj heq
      by_contra hexp
      grind [relied, not_refutes_of_exec]
    · exact h.shaken s m ⟨e, t₁, hs, hv, href⟩
  · intro hstream n s e he
    rcases List.mem_cons.mp he with heq | he
    · cases heq
      exact not_expired_of_le h.clock
        (calm_getChunks hcalm hth hp hstream (exec_getChunks hexec).symm)
    · exact h.peeked hstream n s e he
  · intro s m hrel' hexp
    have hv : view s (⟨cmd, r⟩ :: th.trace) = some m := by
      simp_all [relies]
    cases hl : learns s ⟨cmd, r⟩ with
    | none =>
      rw [view_cons hl] at hv
      rcases relied_kept hcalm hth hp hexec hth (hrel s m hv) (h.relied s m (hrel s m hv) hexp)
        (BlockMeta.isExpiredAt_mono h.clock hexp) with hkept | ⟨-, hforget⟩
      · exact hkept
      · rw [hl] at hforget
        cases hforget
    | some v =>
      obtain rfl : v = some m := by simpa [view, hl] using hv
      cases learns_some_some hl
      exact exec_getBlock hexec

theorem Reading.step {o : Op ν} (ho : o.serves = true) {c c' : State ν} {a : Move ν}
    (h : Reading E T o i c) (hcalm : calm c a = true)
    (ha : (cluster E).apply (Call.prog E) a c = some c') : Reading E T o i c' := by
  obtain ⟨th, hth, hlabel, htimely, hconf⟩ := h
  cases a with
  | spawn call =>
    cases ha
    refine ⟨th, ?_, hlabel, htimely, hconf⟩
    grind
  | run j x =>
    obtain ⟨th', cmd, k, w', r, hth', hp, hexec, rfl⟩ := Machine.runThread_eq_some ha
    by_cases hij : j = i
    · subst hij
      obtain rfl : th = th' := Option.some.inj (hth.symm.trans hth')
      refine ⟨_, List.getElem?_set_self (List.getElem?_eq_some_iff.mp hth).1, hlabel, ?_, ?_⟩
      · exact htimely.own (by rw [hlabel]; exact ho) hcalm hth hp hexec
      · rw [hp] at hconf
        exact hconf.2 r
    · refine ⟨th, (List.getElem?_set_ne hij).trans hth, hlabel, ?_, hconf⟩
      exact htimely.other hcalm hij hth' hp hexec hth
  | finish j =>
    obtain ⟨th', r, hth', hp, -, rfl⟩ := Machine.finishThread_eq_some ha
    by_cases hij : j = i
    · subst hij
      obtain rfl : th = th' := Option.some.inj (hth.symm.trans hth')
      exact ⟨_, List.getElem?_set_self (List.getElem?_eq_some_iff.mp hth).1, hlabel,
        ⟨htimely.clock, htimely.now, htimely.shaken, htimely.peeked, htimely.relied⟩, hconf⟩
    · exact ⟨th, (List.getElem?_set_ne hij).trans hth, hlabel, htimely, hconf⟩
  | env e =>
    cases ha
    refine ⟨th, hth, hlabel, ?_, hconf⟩
    cases e with
    | tick d =>
      refine ⟨?_, htimely.now, htimely.shaken, htimely.peeked, htimely.relied⟩
      exact Int.le_trans htimely.clock (Int.le_add_of_nonneg_right (Int.natCast_nonneg d))
    | loseFile n p =>
      exact ⟨htimely.clock, htimely.now, htimely.shaken, htimely.peeked, htimely.relied⟩

theorem Reading.steps {o : Op ν} (ho : o.serves = true) {c c' : State ν} (h : Reading E T o i c)
    (hrun : (cluster E).Steps (Call.prog E) (fun c a => calm c a = true) c c') :
    Reading E T o i c' := by
  induction hrun with
  | refl => exact h
  | step _ hcalm ha ih => exact ih.step ho hcalm ha

/-- **期限切れの object は返さない。** -/
theorem expired_never_served {o : Op ν} (ho : o.serves = true) {c₀ c₁ c : State ν}
    (hspawn : (cluster E).apply (Call.prog E) (.spawn (.op o)) c₀ = some c₁)
    (hrun : (cluster E).Steps (Call.prog E) (fun c a => calm c a = true) c₁ c)
    (hth : c.threads[c₀.threads.length]? = some th) {a : Answer} (hret : th.prog = .ret (.op a))
    {b : Bytes} (hb : b ∈ a.bytes) :
    ∃ key ∈ o.readKeys, ∃ m, Origin E th.trace o.node key m b ∧
      m.isExpiredAt c₀.world.clock = false := by
  cases hspawn
  obtain ⟨th', hth', hlabel, htimely, hconf⟩ := (Reading.spawn ho c₀).steps ho hrun
  obtain rfl : th = th' := Option.some.inj (hth.symm.trans hth')
  rw [hret] at hconf
  obtain ⟨key, hkey, ⟨m, horigin, htimed⟩ | ⟨hstream, e, hpeek, rfl⟩⟩ := hconf a rfl b hb
  · exact ⟨key, hkey, m, horigin, htimely.live htimed⟩
  · refine ⟨key, hkey, e.blockMeta, .chunked e hpeek rfl rfl, ?_⟩
    exact htimely.peeked (by rw [hlabel]; exact hstream) _ _ e hpeek

end Steps

/-- `i` 番の操作の応答。 -/
def answer? (c : State ν) (i : Nat) : Option Answer :=
  match c.threads[i]? with
  | none => none
  | some th =>
    match th.prog with
    | .ret (.op a) => some a
    | _ => none

theorem thread_of_answer {c : State ν} {i : Nat} {a : Answer} (h : answer? c i = some a) :
    ∃ th, c.threads[i]? = some th ∧ th.prog = .ret (.op a) := by
  grind [answer?]

def expiringPut (key : String) (data : Bytes) : Call (Fin 2) :=
  .op (.putStream nodeA ⟨some ⟨"", key⟩, none, some ⟨10, false⟩, 0⟩ [⟨data, true⟩])

theorem expired_never_served_in_time :
    ∃ (c₀ c₁ c : State (Fin 2)) (th : Thread (Call (Fin 2)) (Cmd (Fin 2)) Cmd.Resp Returned),
      (cluster samplePlain).apply (Call.prog samplePlain)
        (.spawn (.op (.getStream 0 (some ⟨"", "x"⟩)))) c₀ = some c₁ ∧
      (cluster samplePlain).Steps (Call.prog samplePlain) (fun c a => calm c a = true) c₁ c ∧
      c.threads[c₀.threads.length]? = some th ∧
      th.prog = .ret (.op (.read (some (some [1, 2, 3])))) ∧
      ∃ key ∈ (Op.getStream (0 : Fin 2) (some ⟨"", "x"⟩)).readKeys, ∃ m,
        Origin samplePlain th.trace 0 key m [1, 2, 3] ∧
        m.isExpiredAt c₀.world.clock = false := by
  obtain ⟨c₀, c₁, c, -, hspawn, hrun, hcheck⟩ := Reachable.exists_of_act (E := samplePlain) calm 0
    (alone 0 (expiringPut "x" [1, 2, 3]) ++ [.act (.env (.tick 5))]) [.solo 1 400]
    (.spawn (.op (.getStream 0 (some ⟨"", "x"⟩))))
    (fun c₀ c => decide (answer? c c₀.threads.length = some (.read (some (some [1, 2, 3])))))
    (by decide +kernel)
  obtain ⟨th, hth, hp⟩ := thread_of_answer (of_decide_eq_true hcheck)
  exact ⟨c₀, c₁, c, th, hspawn, hrun, hth, hp,
    expired_never_served rfl hspawn hrun hth hp List.mem_cons_self⟩

def mentioned : Event (Cmd ν) Cmd.Resp → List BlockMeta
  | ⟨.redis (.getBlock _), .ok r⟩ => r.toList
  | ⟨.l1 _ (.getCache _), r⟩ => (r.map CacheEntry.blockMeta).toList
  | ⟨.l1 _ (.getCacheMany _), rs⟩ => rs.filterMap fun r => r.map CacheEntry.blockMeta
  | ⟨.l1 _ (.getChunks _), r⟩ => (r.map ChunksCacheEntry.blockMeta).toList
  | _ => []

theorem Origin.mentioned {t : Hist ν} {n : ν} {key : ObjectKey} {m : BlockMeta} {b : Bytes}
    (h : Origin E t n key m b) : ∃ e ∈ t, m ∈ ContextStore.mentioned e := by
  cases h with
  | cached h => exact ⟨_, h, by simp [ContextStore.mentioned]⟩
  | listed keys entries h hmem =>
    refine ⟨_, h, ?_⟩
    simp only [ContextStore.mentioned, List.mem_filterMap]
    exact ⟨_, (List.of_mem_zip hmem).2, rfl⟩
  | chunked e h hm hb => exact ⟨_, h, by simp [ContextStore.mentioned, hm]⟩
  | fetched h => exact ⟨_, h.1, by simp [ContextStore.mentioned]⟩
  | gathered parts hl h hb => exact ⟨_, hl, by simp [ContextStore.mentioned]⟩

theorem stream_serves_expired :
    ∃ (c₀ c₁ c : State (Fin 2)) (th : Thread (Call (Fin 2)) (Cmd (Fin 2)) Cmd.Resp Returned),
      Reachable samplePlain (fun _ _ => true = true) c₀ ∧
      (cluster samplePlain).apply (Call.prog samplePlain)
        (.spawn (.op (.getStream 0 (some ⟨"", "x"⟩)))) c₀ = some c₁ ∧
      (cluster samplePlain).Steps (Call.prog samplePlain) (fun _ _ => true = true) c₁ c ∧
      c.threads[c₀.threads.length]? = some th ∧
      th.prog = .ret (.op (.read (some (some [1, 2, 3])))) ∧
      ∀ key m, Origin samplePlain th.trace 0 key m [1, 2, 3] →
        m.isExpiredAt c₀.world.clock = true := by
  obtain ⟨c₀, c₁, c, hc₀, hspawn, hrun, hcheck⟩ :=
    Reachable.exists_of_act (E := samplePlain) (fun _ _ => true) 0
      (alone 0 (expiringPut "x" [1, 2, 3]) ++ [.act (.env (.tick 20))]) [.solo 1 400]
      (.spawn (.op (.getStream 0 (some ⟨"", "x"⟩))))
      (fun c₀ c => decide (answer? c c₀.threads.length = some (.read (some (some [1, 2, 3])))) &&
        (c.threads[c₀.threads.length]?.all fun th =>
          th.trace.all fun e => (mentioned e).all fun m => m.isExpiredAt c₀.world.clock))
      (by decide +kernel)
  obtain ⟨hanswer, hall⟩ := Bool.and_eq_true_iff.mp hcheck
  obtain ⟨th, hth, hp⟩ := thread_of_answer (of_decide_eq_true hanswer)
  refine ⟨c₀, c₁, c, th, hc₀, hspawn, hrun, hth, hp, fun key m horigin => ?_⟩
  obtain ⟨e, he, hm⟩ := horigin.mentioned
  grind

end ContextStore
