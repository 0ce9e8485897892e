import ContextStore.Cluster.Record

/-!
# 世代の順序

世代は file を書く前に `next_generation` で引かれ、record は後から上書きで公開される。
-/

namespace ContextStore

open Conc

variable {ν : Type}

def drew : Entry (Cmd ν) Cmd.Resp Effect → Option (String × Nat)
  | .ran _ ⟨.redis (.nextGeneration s), .ok g⟩ _ => some (s, g)
  | _ => none

def sinceDraw (s : String) (g : Nat) : Log ν → Option (Log ν)
  | [] => none
  | e :: log => if drew e = some (s, g) then some [] else (sinceDraw s g log).map (e :: ·)

def completedWrite (s : String) : Log ν → Bool
  | [] => false
  | e :: log =>
    (match published e with
      | some (s', m) => decide (s' = s) && (sinceDraw s m.objectGeneration log).isSome
      | none => false) || completedWrite s log

def Each (p : Entry (Cmd ν) Cmd.Resp Effect → Log ν → Prop) : Log ν → Prop
  | [] => True
  | e :: log => p e log ∧ Each p log

def Forward (s : String) : Log ν → Prop :=
  Each fun e older => ∀ m ∈ published e, m.1 = s → ∀ old ∈ record older s,
    old.1.objectGeneration ≤ m.2.objectGeneration

instance decidableEach {p : Entry (Cmd ν) Cmd.Resp Effect → Log ν → Prop}
    [∀ e log, Decidable (p e log)] : (log : Log ν) → Decidable (Each p log)
  | [] => isTrue trivial
  | e :: log =>
    have := decidableEach (p := p) log
    inferInstanceAs (Decidable (p e log ∧ Each p log))

instance (s : String) (log : Log ν) : Decidable (Forward s log) :=
  inferInstanceAs (Decidable (Each _ log))

def nextCmd (c : State ν) (i : Nat) : Option (Cmd ν) :=
  match c.threads[i]? with
  | some th =>
    match th.prog with
    | .cmd m _ => some m
    | .ret _ => none
  | none => none

def nextPublish (c : State ν) (i : Nat) : Option (String × BlockMeta) :=
  ((nextCmd c i).bind Cmd.redis?).bind RedisCmd.publishes

def inOrder (s : String) (c : State ν) : Move ν → Bool
  | .run i _ =>
    match nextPublish c i with
    | some (s', m) =>
      if s' = s then
        match sinceDraw s m.objectGeneration c.log with
        | some since => !completedWrite s since
        | none => false
      else true
    | none => true
  | _ => true

def Drawn (s : String) (g : Nat) (log : Log ν) : Prop := ∃ e ∈ log, drew e = some (s, g)

def DrawsRise (s : String) : Log ν → Prop :=
  Each fun e older => ∀ g, drew e = some (s, g) → ∀ g', Drawn s g' older → g' ≤ g

def PublishDrawn (s : String) : Log ν → Prop :=
  Each fun e older => ∀ m, published e = some (s, m) → Drawn s m.objectGeneration older

section Log

variable {s : String} {g : Nat} {log since older : Log ν}

theorem Each.of_append {p : Entry (Cmd ν) Cmd.Resp Effect → Log ν → Prop}
    (h : Each p (since ++ log)) : Each p log := by
  induction since with
  | nil => exact h
  | cons e since ih => exact ih h.2

variable {e : Entry (Cmd ν) Cmd.Resp Effect}

theorem Drawn.cons (h : Drawn s g log) :
    Drawn s g (e :: log) := by
  obtain ⟨e', he', hd⟩ := h
  exact ⟨e', List.mem_cons_of_mem _ he', hd⟩

theorem Drawn.cases (h : Drawn s g (e :: log)) :
    drew e = some (s, g) ∨ Drawn s g log := by
  obtain ⟨e', he', hd⟩ := h
  rcases List.mem_cons.mp he' with rfl | he'
  · exact .inl hd
  · exact .inr ⟨e', he', hd⟩

theorem sinceDraw_eq_some (h : sinceDraw s g log = some since) :
    ∃ e older, log = since ++ e :: older ∧ drew e = some (s, g) := by
  induction log generalizing since with
  | nil => cases h
  | cons e log ih =>
    unfold sinceDraw at h
    split at h
    next hd => cases h; exact ⟨e, log, rfl, hd⟩
    next =>
      obtain ⟨since', hs, rfl⟩ := Option.map_eq_some_iff.mp h
      obtain ⟨e', older, rfl, hd⟩ := ih hs
      exact ⟨e', older, rfl, hd⟩

theorem not_drawn_of_sinceDraw (h : sinceDraw s g log = none) : ¬ Drawn s g log := by
  induction log with
  | nil => rintro ⟨e, he, -⟩; cases he
  | cons e log ih =>
    unfold sinceDraw at h
    split at h
    next => cases h
    next hd =>
      intro hdrawn
      rcases hdrawn.cases with hd' | hdrawn
      · exact hd hd'
      · exact ih (Option.map_eq_none_iff.mp h) hdrawn

variable {m : BlockMeta} {b : Bytes}

theorem record_cons
    (h : record (e :: log) s = some (m, b)) :
    published e = some (s, m) ∨ record log s = some (m, b) := by
  cases e with
  | ran i ev o =>
    cases o with
    | silent => exact .inr h
    | committed s' m' b' =>
      by_cases hs : s = s'
      · subst hs
        replace h : Function.update (record log) s (some (m', b')) s = some (m, b) := h
        rw [Function.update_self] at h
        cases h
        exact .inl rfl
      · replace h : Function.update (record log) s' (some (m', b')) s = some (m, b) := h
        rw [Function.update_of_ne hs] at h
        exact .inr h
    | removed s' old how =>
      by_cases hs : s = s'
      · subst hs
        replace h : Function.update (record log) s none s = some (m, b) := h
        rw [Function.update_self] at h
        cases h
      · replace h : Function.update (record log) s' none s = some (m, b) := h
        rw [Function.update_of_ne hs] at h
        exact .inr h
  | _ => exact .inr h

theorem PublishDrawn.of_record (h : PublishDrawn s log)
    (hr : record log s = some (m, b)) : Drawn s m.objectGeneration log := by
  induction log with
  | nil => cases hr
  | cons e log ih =>
    rcases record_cons hr with hp | hr
    · exact (h.1 m hp).cons
    · exact (ih h.2 hr).cons

theorem PublishDrawn.of_not_completed (h : PublishDrawn s (since ++ older))
    (hc : completedWrite s since = false)
    (hr : record (since ++ older) s = some (m, b)) : Drawn s m.objectGeneration older := by
  induction since with
  | nil => exact h.of_record hr
  | cons e since ih =>
    unfold completedWrite at hc
    obtain ⟨hhead, htail⟩ := Bool.or_eq_false_iff.mp hc
    rcases record_cons hr with hp | hr
    · rw [hp] at hhead
      have hnone : sinceDraw s m.objectGeneration since = none := by
        simpa using hhead
      obtain ⟨e', he', hd⟩ := h.1 m hp
      rcases List.mem_append.mp he' with he' | he'
      · exact absurd ⟨e', he', hd⟩ (not_drawn_of_sinceDraw hnone)
      · exact ⟨e', he', hd⟩
    · exact ih h.2 htail hr

theorem DrawsRise.le_of_sinceDraw (hrise : DrawsRise s log) (hpub : PublishDrawn s log)
    (hs : sinceDraw s g log = some since) (hc : completedWrite s since = false)
    (hr : record log s = some (m, b)) : m.objectGeneration ≤ g := by
  obtain ⟨e, older, rfl, hd⟩ := sinceDraw_eq_some hs
  rcases (hpub.of_not_completed hc hr).cases with hd' | hdrawn
  · rw [hd] at hd'
    cases hd'
    exact Nat.le_refl _
  · exact hrise.of_append.1 g hd _ hdrawn

end Log

/-! ## counter -/

theorem luaNumber_succ {n : Nat} (h : n ≤ 2 ^ 53) :
    n ≤ luaNumber (n + 1) ∧ luaNumber (n + 1) ≤ 2 ^ 53 := by
  by_cases hlt : n + 1 < 2 ^ 53
  · rw [luaNumber_of_lt hlt]
    omega
  · have hn : n = 2 ^ 53 - 1 ∨ n = 2 ^ 53 := by omega
    rcases hn with rfl | rfl <;> decide

theorem luaNumber_of_le {n : Nat} (h : n ≤ 2 ^ 53) : luaNumber n = n := by
  rcases Nat.lt_or_eq_of_le h with h | rfl
  · exact luaNumber_of_lt h
  · decide

theorem Redis.nextGeneration_eq {r : Redis} {s : String} (hle : r.generations s ≤ 2 ^ 53)
    (hblocks : ∀ m, r.blocks s = some m → m.objectGeneration ≤ r.generations s) :
    (r.nextGeneration s).2 = luaNumber (r.generations s + 1) := by
  unfold Redis.nextGeneration
  dsimp only
  cases hm : r.blocks s with
  | none => rfl
  | some m =>
    grind [luaNumber_of_le]

theorem Redis.apply_generations {X : Externs} {r : Redis} {c : RedisCmd} {s : String}
    (hc : c ≠ .nextGeneration s) : (r.apply X c).1.generations s = r.generations s := by
  cases c with
  | putBlockIfAbsent s' m =>
    show (r.putBlockIfAbsent s' m).1.generations s = _
    unfold Redis.putBlockIfAbsent
    split <;> rfl
  | replaceBlock s' m nb =>
    show (r.replaceBlock X s' m nb).1.generations s = _
    unfold Redis.replaceBlock
    split <;> rfl
  | retireBlock s' nb =>
    show (r.retireBlock X s' nb).1.generations s = _
    unfold Redis.retireBlock
    split <;> rfl
  | retireBlockIfMatches s' expected nb =>
    show (r.retireBlockIfMatches X s' expected nb).1.generations s = _
    unfold Redis.retireBlockIfMatches
    split
    · rfl
    · split <;> rfl
  | deleteBlockIfMatches s' g =>
    show (r.deleteBlockIfMatches s' g).1.generations s = _
    unfold Redis.deleteBlockIfMatches
    split
    · rfl
    · split <;> rfl
  | nextGeneration s' =>
    have hs : s ≠ s' := fun h => hc (h ▸ rfl)
    exact Function.update_of_ne hs _ _
  | takeDueGcTasks now limit lease =>
    show (r.takeDueGcTasks now limit lease).1.generations s = _
    obtain ⟨due, inflight, h⟩ := Redis.takeDueGcTasks_frame (r := r) now limit lease
    rw [h]
  | _ => rfl

/-! ## 1 手 -/

theorem drew_ran {i : Nat} {e : Event (Cmd ν) Cmd.Resp} {o : Effect} {s : String} {g : Nat}
    (h : drew (.ran i e o) = some (s, g)) : e = ⟨.redis (.nextGeneration s), .ok g⟩ := by
  obtain ⟨c, r⟩ := e
  cases c with
  | redis rc =>
    cases rc with
    | nextGeneration s' =>
      cases r with
      | ok g' => cases h; rfl
      | error e => cases h
    | _ => cases h
  | _ => cases h

variable {s : String}

structure Ordered (s : String) (w : World ν) (log : Log ν) : Prop where
  counter : w.redis.generations s ≤ 2 ^ 53
  drawn : ∀ g, Drawn s g log → g ≤ w.redis.generations s
  rise : DrawsRise s log
  publish : PublishDrawn s log
  forward : Forward s log

namespace Ordered

variable {w w' : World ν} {log : Log ν} {e : Entry (Cmd ν) Cmd.Resp Effect}

theorem cons_of_not_drew (h : Ordered s w log) (hd : ∀ g, drew e ≠ some (s, g))
    (hgen : w.redis.generations s ≤ w'.redis.generations s)
    (hle : w'.redis.generations s ≤ 2 ^ 53)
    (hpub : ∀ m, published e = some (s, m) → Drawn s m.objectGeneration log ∧
      ∀ old b, record log s = some (old, b) → old.objectGeneration ≤ m.objectGeneration) :
    Ordered s w' (e :: log) where
  counter := hle
  drawn := by
    intro g hdrawn
    rcases hdrawn.cases with hd' | hdrawn
    · exact absurd hd' (hd g)
    · exact Nat.le_trans (h.drawn g hdrawn) hgen
  rise := ⟨fun g hg => absurd hg (hd g), h.rise⟩
  publish := ⟨fun m hm => (hpub m hm).1, h.publish⟩
  forward := by
    refine ⟨?_, h.forward⟩
    rintro ⟨s', m⟩ hm rfl ⟨old, b⟩ hold
    exact (hpub m hm).2 old b hold

theorem cons_of_silent (h : Ordered s w log) (hd : ∀ g, drew e ≠ some (s, g))
    (hp : ∀ m, published e ≠ some (s, m)) (hgen : w'.redis.generations s = w.redis.generations s) :
    Ordered s w' (e :: log) :=
  h.cons_of_not_drew hd (Nat.le_of_eq hgen.symm) (hgen ▸ h.counter)
    fun m hm => absurd hm (hp m)

theorem cons_of_drew (h : Ordered s w log) {g : Nat} (hd : drew e = some (s, g))
    (hp : published e = none) (hg : w.redis.generations s ≤ g) (hle : g ≤ 2 ^ 53)
    (hgen : w'.redis.generations s = g) : Ordered s w' (e :: log) where
  counter := hgen ▸ hle
  drawn := by
    intro g' hdrawn
    rw [hgen]
    rcases hdrawn.cases with hd' | hdrawn
    · rw [hd] at hd'
      cases hd'
      exact Nat.le_refl _
    · exact Nat.le_trans (h.drawn g' hdrawn) hg
  rise := by
    refine ⟨fun g' hg' g'' hdrawn => ?_, h.rise⟩
    rw [hd] at hg'
    cases hg'
    exact Nat.le_trans (h.drawn g'' hdrawn) hg
  publish := ⟨fun m hm => absurd hm (hp ▸ nofun), h.publish⟩
  forward := ⟨fun m hm => absurd hm (hp ▸ nofun), h.forward⟩

variable [DecidableEq ν] {E : Env ν}

theorem nextGeneration (h : Ordered s w log)
    (hblocks : w.redis.blocks s = (record log s).map Prod.fst) {i : Nat} {x : Choice} {t : Hist ν}
    {r : Except String Nat} (hexec : exec E (.redis (.nextGeneration s)) x w = some (w', r)) :
    Ordered s w' (.ran i ⟨.redis (.nextGeneration s), r⟩
      (observe t (.redis (.nextGeneration s)) x w) :: log) := by
  have hrecord : ∀ m, w.redis.blocks s = some m → m.objectGeneration ≤ w.redis.generations s := by
    intro m hm
    rw [hblocks] at hm
    obtain ⟨⟨m', b⟩, hr, rfl⟩ := Option.map_eq_some_iff.mp hm
    exact h.drawn _ (h.publish.of_record hr)
  have hnext := Redis.nextGeneration_eq h.counter hrecord
  obtain ⟨hup, hle⟩ := luaNumber_succ h.counter
  have hset : (w.redis.nextGeneration s).1.generations s = (w.redis.nextGeneration s).2 :=
    Function.update_self _ _ _
  rw [hnext] at hset
  rcases exec_redis hexec with ⟨rfl, rfl, rfl⟩ | ⟨msg, rfl, rfl, rfl⟩ | ⟨msg, rfl, rfl, rfl⟩
  · refine h.cons_of_drew (g := luaNumber (w.redis.generations s + 1)) ?_ rfl hup hle hset
    rw [← hnext]
    rfl
  · refine h.cons_of_not_drew nofun ?_ ?_ nofun
    · exact Nat.le_trans hup (Nat.le_of_eq hset.symm)
    · exact Nat.le_trans (Nat.le_of_eq hset) hle
  · exact h.cons_of_silent nofun nofun rfl

end Ordered

theorem nextPublish_eq {c : State ν} {i : Nat} {th : Thread (Call ν) (Cmd ν) Cmd.Resp Returned}
    {rc : RedisCmd} {k : Except String rc.Reply → Io ν Returned} (hth : c.threads[i]? = some th)
    (hp : th.prog = .cmd (.redis rc) k) : nextPublish c i = rc.publishes := by
  unfold nextPublish nextCmd
  rw [hth]
  dsimp only
  rw [hp]
  rfl

theorem Ordered.of_inOrder {c : State ν} (h : Ordered s c.world c.log) {i : Nat} {x : Choice}
    {m : BlockMeta} (hok : inOrder s c (.run i x) = true) (hn : nextPublish c i = some (s, m)) :
    Drawn s m.objectGeneration c.log ∧
      ∀ old b, record c.log s = some (old, b) → old.objectGeneration ≤ m.objectGeneration := by
  unfold inOrder at hok
  dsimp only at hok
  rw [hn] at hok
  dsimp only at hok
  rw [if_pos rfl] at hok
  split at hok
  next since hs =>
    have hc : completedWrite s since = false := by simpa using hok
    refine ⟨?_, fun old b hr => h.rise.le_of_sinceDraw h.publish hs hc hr⟩
    obtain ⟨e, older, hlog, hd⟩ := sinceDraw_eq_some hs
    exact ⟨e, hlog ▸ List.mem_append_right _ List.mem_cons_self, hd⟩
  next => cases hok

section Reachable

variable [DecidableEq ν] {E : Env ν}

theorem exec_generations {c : Cmd ν} {x : Choice} {r : c.Resp} {w w' : World ν}
    (hc : c ≠ .redis (.nextGeneration s)) (h : exec E c x w = some (w', r)) :
    w'.redis.generations s = w.redis.generations s := by
  cases c with
  | redis rc =>
    have hrc : rc ≠ .nextGeneration s := fun heq => hc (heq ▸ rfl)
    rcases exec_redis h with ⟨rfl, rfl, rfl⟩ | ⟨msg, rfl, rfl, rfl⟩ | ⟨msg, rfl, rfl, rfl⟩
    · exact Redis.apply_generations hrc
    · exact Redis.apply_generations hrc
    · rfl
  | _ => rw [exec_redis_eq rfl h]

theorem Reachable.ordered {c : State ν} (h : Reachable E (fun c a => inOrder s c a = true) c) :
    Ordered s c.world c.log := by
  obtain ⟨clock, h⟩ := h
  refine Machine.Reach.induct (I := fun c => Ordered s c.world c.log) ?_ ?_ ?_ ?_ ?_ h
  · exact ⟨Nat.zero_le _, fun _ ⟨_, he, _⟩ => absurd he List.not_mem_nil, trivial, trivial, trivial⟩
  · intro c l _ _ ih
    exact ih.cons_of_silent nofun nofun rfl
  · intro c i x th m k w' r hc hok ih hth hp hexec
    by_cases hm : m = .redis (.nextGeneration s)
    · subst hm
      exact ih.nextGeneration (Reachable.blocks_eq ⟨clock, hc⟩ s) hexec
    · have hgen := exec_generations hm hexec
      refine ih.cons_of_not_drew ?_ (Nat.le_of_eq hgen.symm) (hgen ▸ ih.counter) ?_
      · intro g hd
        exact hm (congrArg Sigma.fst (drew_ran hd))
      · intro m' hm'
        obtain ⟨b, hb⟩ := published_ran hm'
        obtain ⟨rc, rfl, hrc⟩ := observe_committed hb
        exact ih.of_inOrder hok ((nextPublish_eq hth hp).trans hrc)
  · intro c i th a _ _ ih _ _ _
    exact ih.cons_of_silent nofun nofun rfl
  · intro c e _ _ ih
    cases e <;> exact ⟨ih.counter, ih.drawn, ih.rise, ih.publish, ih.forward⟩

theorem generations_forward {c : State ν} (h : Reachable E (fun c a => inOrder s c a = true) c) :
    Forward s c.log :=
  h.ordered.forward

end Reachable

theorem generations_forward_sequential :
    ∃ c : State (Fin 2), Reachable samplePlain (fun c a => inOrder "0:x" c a = true) c ∧
      (c.log.filterMap published).length = 2 ∧ Forward "0:x" c.log := by
  obtain ⟨c, hc, hcheck⟩ := Reachable.exists_of_play (E := samplePlain) (inOrder "0:x") 0
    (alone 0 (.op (.put 0 (putRequest "x" [1]))) ++ alone 1 (.op (.put 1 (putRequest "x" [2]))))
    (fun c => decide ((c.log.filterMap published).length = 2)) (by decide +kernel)
  exact ⟨c, hc, of_decide_eq_true hcheck, generations_forward hc⟩

theorem generation_overtaken :
    ∃ c : State (Fin 2), Reachable samplePlain (fun _ _ => true = true) c ∧
      ¬ Forward "0:x" c.log := by
  obtain ⟨c, hc, hcheck⟩ := Reachable.exists_of_play (E := samplePlain) (fun _ _ => true) 0
    ([.act (.spawn (.op (.put 0 (putRequest "x" [1])))), .solo 0 5] ++
      alone 1 (.op (.put 1 (putRequest "x" [2]))) ++ [.solo 0 400])
    (fun c => decide (¬ Forward "0:x" c.log)) (by decide +kernel)
  exact ⟨c, hc, of_decide_eq_true hcheck⟩

def Redis.exact (r : Redis) (s : String) : Bool :=
  decide (r.generations s + 1 < 2 ^ 53) &&
    (r.blocks s).all fun m => decide (m.objectGeneration + 1 < 2 ^ 53)

theorem Redis.lt_nextGeneration {r : Redis} {s : String} (h : r.exact s = true) :
    r.generations s < (r.nextGeneration s).2 := by
  unfold Redis.exact at h
  unfold Redis.nextGeneration
  dsimp only
  cases hm : r.blocks s <;> grind [luaNumber_of_lt]

def exactDraw (c : State ν) : Move ν → Bool
  | .run i _ =>
    match nextCmd c i with
    | some (.redis (.nextGeneration s)) => c.world.redis.exact s
    | _ => true
  | _ => true

structure Issued (w : World ν) (log : Log ν) : Prop where
  le : ∀ x ∈ log.filterMap drew, x.2 ≤ w.redis.generations x.1
  nodup : (log.filterMap drew).Nodup

section Issued

variable [DecidableEq ν] {E : Env ν}

theorem Issued.nextGeneration {w w' : World ν} {log : Log ν} (h : Issued w log) {s : String}
    (hexact : w.redis.exact s = true) {i : Nat} {x : Choice} {r : Except String Nat} {o : Effect}
    (hexec : exec E (.redis (.nextGeneration s)) x w = some (w', r)) :
    Issued w' (.ran i ⟨.redis (.nextGeneration s), r⟩ o :: log) := by
  have hup := Redis.lt_nextGeneration hexact
  have hle : ∀ y ∈ log.filterMap drew,
      y.2 ≤ (w.redis.nextGeneration s).1.generations y.1 := by
    intro y hy
    exact (h.le y hy).trans (le_update_self_iff.mpr hup.le y.1)
  rcases exec_redis hexec with ⟨rfl, rfl, rfl⟩ | ⟨msg, rfl, rfl, rfl⟩ | ⟨msg, rfl, rfl, rfl⟩
  · have hnew : (s, (w.redis.nextGeneration s).2) ∉ log.filterMap drew :=
      fun hm => absurd (h.le _ hm) (Nat.not_le.mpr hup)
    refine ⟨fun y hy => ?_, List.nodup_cons.mpr ⟨hnew, h.nodup⟩⟩
    rcases List.mem_cons.mp hy with rfl | hy
    · exact (Function.update_self s _ w.redis.generations).ge
    · exact hle y hy
  · exact ⟨hle, h.nodup⟩
  · exact ⟨h.le, h.nodup⟩

theorem Reachable.issued {c : State ν} (h : Reachable E (fun c a => exactDraw c a = true) c) :
    Issued c.world c.log := by
  obtain ⟨clock, h⟩ := h
  refine Machine.Reach.induct (I := fun c => Issued c.world c.log) ?_ ?_ ?_ ?_ ?_ h
  · exact ⟨fun _ h => (by cases h), List.nodup_nil⟩
  · exact fun c l _ _ ih => ⟨ih.le, ih.nodup⟩
  · intro c i x th m k w' r _ hok ih hth hp hexec
    by_cases hm : ∃ s, m = .redis (.nextGeneration s)
    · obtain ⟨s, rfl⟩ := hm
      exact ih.nextGeneration (by simpa [exactDraw, nextCmd, hth, hp] using hok) hexec
    · have hd : ∀ o, drew (.ran i ⟨m, r⟩ o) = none := by
        intro o
        refine Option.eq_none_iff_forall_ne_some.mpr fun y hy => hm ⟨y.1, ?_⟩
        exact congrArg Sigma.fst (drew_ran hy)
      refine ⟨fun y hy => ?_, ?_⟩
      · rw [List.filterMap_cons_none (hd _)] at hy
        rw [exec_generations (fun hc => hm ⟨_, hc⟩) hexec]
        exact ih.le y hy
      · rw [List.filterMap_cons_none (hd _)]
        exact ih.nodup
  · exact fun c i th a _ _ ih _ _ _ => ⟨ih.le, ih.nodup⟩
  · intro c e _ _ ih
    cases e <;> exact ⟨ih.le, ih.nodup⟩

/-- **counter が Lua の数で正確に表せる限り、どの key の世代も 2 度配られない。** -/
theorem generations_never_reused {c : State ν}
    (h : Reachable E (fun c a => exactDraw c a = true) c) : (c.log.filterMap drew).Nodup :=
  h.issued.nodup

end Issued

theorem generations_never_reused_raced :
    ∃ c : State (Fin 2), Reachable samplePlain (fun c a => exactDraw c a = true) c ∧
      (c.log.filterMap drew).length = 2 ∧ (c.log.filterMap drew).Nodup := by
  obtain ⟨c, hc, hcheck⟩ := Reachable.exists_of_play (E := samplePlain) exactDraw 0
    ([.act (.spawn (.op (.put 0 (putRequest "x" [1])))), .solo 0 5] ++
      alone 1 (.op (.put 1 (putRequest "x" [2]))) ++ [.solo 0 400])
    (fun c => decide ((c.log.filterMap drew).length = 2)) (by decide +kernel)
  exact ⟨c, hc, of_decide_eq_true hcheck, generations_never_reused hc⟩

end ContextStore
