import ContextStore.Backend.KvRuns
import ContextStore.Connector.PrefixIndex

/-!
# vLLM connector: 並行な書き込みと probe
-/

namespace ContextStore

namespace Connector

open Conc Kv

variable {c : Config} {cfg : KvConfig} {s s' : KvRun} {key layer : String}

theorem partLayer_eq (hcfg : cfg.parallel = c.parallel) (layer : String) (i : Nat) :
    c.partLayer layer i = cfg.partLayer layer i := by
  unfold Config.partLayer KvConfig.partLayer
  rw [hcfg]
  by_cases hone : c.parallel = 1
  · rw [if_pos hone, if_neg (by omega), String.append_empty]
  · have hpos := c.parallel_pos
    rw [if_neg hone, if_pos (by omega)]
    simp only [String.append_assoc]

/-! ## 条件 -/

variable (cfg)

def solid (data : Bytes) : Bool :=
  if cfg.parallel = 1 then !data.isEmpty else data.any fun x => x != 0

def lastLane (s : KvRun) : KvMove → Bool
  | .spawn (.putChunks _ _ segments) => solid cfg (cfg.partSegments segments 0).flatten
  | .run i x =>
    match s.threads[i]? with
    | some ⟨.putChunks key layer _, .cmd m _, _, _⟩ =>
      m.written.map Prod.fst != some (cfg.laneKey key layer 0) || !x.commits ||
        (List.range cfg.parallel).all fun lane =>
          lane == 0 || (s.world.objects (cfg.laneKey key layer lane)).isSome
    | _ => true
  | _ => true

abbrev LastLane (s : KvRun) : Prop := KvReach cfg (fun s a => lastLane cfg s a = true) s

structure LaneOk (s : KvRun) : Prop where
  labels : ∀ th ∈ s.threads, ∀ key layer segments, th.label = .putChunks key layer segments →
    solid cfg (cfg.partSegments segments 0).flatten = true
  whole : ∀ key layer o, s.world.objects (cfg.laneKey key layer 0) = some o →
    solid cfg o.content = true ∧ ∀ lane < cfg.parallel,
      (s.world.objects (cfg.laneKey key layer lane)).isSome
  seen : ∀ th ∈ s.threads, ∀ okey version,
    (⟨.lookup okey, .ok (some version)⟩ : Event KvCmd KvCmd.Resp) ∈ th.trace →
      (s.world.objects okey).isSome

variable {cfg}

theorem others_of_lastLane {i : Nat} {x : KvChoice} {segments : List Bytes} {m : KvCmd}
    {k : m.Resp → KvIo KvAnswer} {t : KvHist} {fin : Bool} {content : Bytes}
    (hth : s.threads[i]? = some ⟨.putChunks key layer segments, .cmd m k, t, fin⟩)
    (hwritten : m.written = some (cfg.laneKey key layer 0, content)) (hx : x.commits = true)
    (h : lastLane cfg s (.run i x) = true) {lane : Nat} (hlane : lane < cfg.parallel)
    (hne : lane ≠ 0) : (s.world.objects (cfg.laneKey key layer lane)).isSome := by
  unfold lastLane at h
  simp only [hth, hwritten, Option.map_some, hx, bne_self_eq_false, Bool.not_true, Bool.false_or,
    List.all_eq_true, List.mem_range, Bool.or_eq_true, beq_iff_eq] at h
  exact (h lane hlane).resolve_left hne

/-! ## 走り -/

theorem LaneOk.whole_run (hok : LaneOk cfg s) {i : Nat} {x : KvChoice} {op : KvOp} {m : KvCmd}
    {k : m.Resp → KvIo KvAnswer} {t : KvHist} {fin : Bool} {w : KvWorld} {r : m.Resp}
    (hP : lastLane cfg s (.run i x) = true) (hth : s.threads[i]? = some ⟨op, .cmd m k, t, fin⟩)
    (hguard : op.guard cfg t m) (hexec : KvWorld.exec cfg m x s.world = some (w, r)) {o : KvObject}
    (ho : w.objects (cfg.laneKey key layer 0) = some o) :
    solid cfg o.content = true ∧ ∀ lane < cfg.parallel,
      (w.objects (cfg.laneKey key layer lane)).isSome := by
  have hdel := KvOp.guard_isDelete hguard
  have hkeep : s.world.objects (cfg.laneKey key layer 0) = some o →
      solid cfg o.content = true ∧ ∀ lane < cfg.parallel,
        (w.objects (cfg.laneKey key layer lane)).isSome := by
    intro hold
    obtain ⟨hsolid, hall⟩ := hok.whole key layer o hold
    exact ⟨hsolid, fun lane hlane => KvWorld.exec_isSome hexec hdel (hall lane hlane)⟩
  cases hx : x.commits with
  | false =>
    rw [KvWorld.exec_uncommitted hexec hx] at ho
    exact hkeep ho
  | true =>
    rcases KvWorld.exec_cases hexec hdel with ⟨hobj, -⟩ | ⟨okey, content, hwritten, hobj⟩
    · rw [hobj] at ho
      exact hkeep ho
    · obtain ⟨key', layer', segments, rfl, lane, hlane, rfl, rfl⟩ :=
        KvOp.guard_written hguard hwritten
      by_cases heq : cfg.laneKey key layer 0 = cfg.laneKey key' layer' lane
      ·
        obtain ⟨rfl, rfl, rfl⟩ := KvConfig.laneKey_inj cfg.parallel_pos hlane heq
        rw [hobj, KvWorld.put_objects_self] at ho
        cases ho
        refine ⟨hok.labels _ (List.mem_of_getElem? hth) _ _ _ rfl, fun lane' hlane' => ?_⟩
        by_cases hzero : lane' = 0
        · rw [hzero, hobj, KvWorld.put_objects_self]
          rfl
        · exact KvWorld.exec_isSome hexec hdel
            (others_of_lastLane hth hwritten hx hP hlane' hzero)
      · rw [hobj, KvWorld.put_objects_of_ne _ heq] at ho
        exact hkeep ho

theorem laneOk_of_reach (h : LastLane cfg s) : LaneOk cfg s := by
  refine Machine.Reach.invariant (I := LaneOk cfg) (G := KvOp.guard cfg) (Q := KvOp.post cfg)
    (fun _ op _ => KvOp.conforms op) ?_ ?_ ?_ ?_ ?_ h
  · exact ⟨fun th hth => (List.not_mem_nil hth).elim, (fun _ _ o ho => by cases ho),
      fun th hth => (List.not_mem_nil hth).elim⟩
  · intro s op _ hP ih
    refine ⟨fun th hth key layer segments hlabel => ?_, ih.whole, fun th hth okey version he => ?_⟩
    · rcases List.mem_append.mp hth with hth | hth
      · exact ih.labels th hth key layer segments hlabel
      · rw [List.mem_singleton.mp hth] at hlabel
        cases hlabel
        exact hP
    · rcases List.mem_append.mp hth with hth | hth
      · exact ih.seen th hth okey version he
      · rw [List.mem_singleton.mp hth] at he
        cases he
  · intro s i x th m k w' r _ hP ih hth hprog hguard hexec
    obtain ⟨op, _, t, fin⟩ := th
    cases hprog
    have hmem := List.mem_of_getElem? hth
    have hdel := KvOp.guard_isDelete hguard
    refine ⟨fun th' hth' key layer segments hlabel => ?_,
      fun key layer o ho => ih.whole_run hP hth hguard hexec ho, fun th' hth' okey version he => ?_⟩
    · rcases List.mem_or_eq_of_mem_set hth' with hth' | rfl
      · exact ih.labels th' hth' key layer segments hlabel
      · exact ih.labels _ hmem key layer segments hlabel
    · refine KvWorld.exec_isSome hexec hdel ?_
      rcases List.mem_or_eq_of_mem_set hth' with hth' | rfl
      · exact ih.seen th' hth' okey version he
      · rcases List.mem_cons.mp he with heq | he
        · cases heq
          have hfound : (s.world.objects okey).map KvObject.version = some version :=
            KvWorld.exec_agrees hexec
          obtain ⟨o, ho, -⟩ := Option.map_eq_some_iff.mp hfound
          rw [ho]
          rfl
        · exact ih.seen _ hmem okey version he
  · intro s i th a _ _ ih hth _ _ _
    have hmem := List.mem_of_getElem? hth
    refine ⟨fun th' hth' key layer segments hlabel => ?_, ih.whole,
      fun th' hth' okey version he => ?_⟩
    · rcases List.mem_or_eq_of_mem_set hth' with hth' | rfl
      · exact ih.labels th' hth' key layer segments hlabel
      · exact ih.labels th hmem key layer segments hlabel
    · rcases List.mem_or_eq_of_mem_set hth' with hth' | rfl
      · exact ih.seen th' hth' okey version he
      · exact ih.seen th hmem okey version he
  · exact fun _ e => e.elim

/-! ## 読み出し -/

def Hollow (cfg : KvConfig) (cs : List Bytes) : Prop :=
  if cfg.parallel = 1 then cs = [] else ∀ ch ∈ cs, ch = [0]

theorem not_hollow_of_solid {cs : List Bytes} (h : solid cfg cs.flatten = true) :
    ¬ Hollow cfg cs := by
  intro hollow
  unfold Hollow at hollow
  unfold solid at h
  split at hollow
  next hone =>
    rw [if_pos hone, hollow] at h
    cases h
  next hmany =>
    rw [if_neg hmany] at h
    obtain ⟨x, hx, hne⟩ := List.any_eq_true.mp h
    obtain ⟨ch, hch, hmem⟩ := List.mem_flatten.mp hx
    rw [hollow ch hch, List.mem_singleton] at hmem
    rw [hmem] at hne
    cases hne

theorem grpcMerge_ne_none {parts : List (Option (List Bytes))} {cs : List Bytes}
    (hsome : ∀ part ∈ parts, part.isSome) (hmem : some cs ∈ parts) (hcs : ¬ Hollow cfg cs) :
    grpcMerge cfg parts ≠ none := by
  have hin : cs ∈ parts.filterMap id := List.mem_filterMap.mpr ⟨_, hmem, rfl⟩
  unfold grpcMerge
  rw [List.all_eq_true.mpr hsome, if_neg (by decide)]
  unfold Hollow at hcs
  split
  next hone =>
    rw [if_pos hone] at hcs
    rw [if_neg]
    · exact Option.some_ne_none _
    · intro hempty
      obtain ⟨ch, hch⟩ := List.exists_mem_of_ne_nil cs hcs
      have hch : ch ∈ (parts.filterMap id).flatten := List.mem_flatten.mpr ⟨cs, hin, hch⟩
      rw [List.isEmpty_iff.mp hempty] at hch
      cases hch
  next hmany =>
    rw [if_neg hmany] at hcs
    push Not at hcs
    obtain ⟨ch, hch, hne⟩ := hcs
    unfold mergeParts
    dsimp only
    rw [if_neg]
    · exact Option.some_ne_none _
    · intro hempty
      have hch : ch ∈ (parts.filterMap id).flatten.filter fun seg => seg != [0] :=
        List.mem_filter.mpr ⟨List.mem_flatten.mpr ⟨cs, hin, hch⟩, by simpa using hne⟩
      rw [List.isEmpty_iff.mp hempty] at hch
      cases hch

theorem steps_gets (h : LastLane cfg s)
    (hs : (kvMachine cfg).Steps (KvOp.prog cfg) (fun s a => lastLane cfg s a = true) s s')
    (hall : ∀ lane < cfg.parallel, (s.world.objects (cfg.laneKey key layer lane)).isSome) :
    s.threads.length ≤ s'.threads.length ∧
    (∀ lane < cfg.parallel, (s'.world.objects (cfg.laneKey key layer lane)).isSome) ∧
    ∀ j th, s.threads.length ≤ j → s'.threads[j]? = some th → ∀ lane < cfg.parallel, ∀ part,
      (⟨.getStream (cfg.laneKey key layer lane), .ok part⟩ : Event KvCmd KvCmd.Resp) ∈ th.trace →
        ∃ cs, part = some cs ∧ (lane = 0 → ¬ Hollow cfg cs) := by
  induction hs with
  | refl =>
    refine ⟨le_rfl, hall, fun j th hj hth => ?_⟩
    exact absurd (List.getElem?_eq_some_iff.mp hth).1 (by omega)
  | @step s₁ s₂ a hsteps hP ha ih =>
    obtain ⟨hlen, hmono, hgets⟩ := ih
    have hreach : LastLane cfg s₁ := h.steps hsteps
    cases a with
    | spawn op =>
      cases ha
      refine ⟨by rw [List.length_append]; omega, hmono, fun j th hj hth => ?_⟩
      rcases Machine.getElem?_append_singleton hth with ⟨-, rfl⟩ | hth
      · exact fun _ _ _ he => (List.not_mem_nil he).elim
      · exact hgets j th hj hth
    | run i x =>
      obtain ⟨th₀, m, k, w', r₀, hth₀, hprog, hexec, rfl⟩ := Machine.runThread_eq_some ha
      have hguard := (hreach.conforms (G := KvOp.guard cfg) (Q := KvOp.post cfg)
        (fun _ op _ => KvOp.conforms op) th₀ (List.mem_of_getElem? hth₀))
      rw [hprog] at hguard
      refine ⟨by rw [List.length_set]; exact hlen, fun lane hlane => KvWorld.exec_isSome hexec
        (KvOp.guard_isDelete hguard.1) (hmono lane hlane), fun j th hj hth => ?_⟩
      rcases Machine.getElem?_set_cases hth₀ hth with ⟨rfl, rfl⟩ | ⟨-, hth⟩
      · intro lane hlane part he
        rcases List.mem_cons.mp he with heq | he
        ·
          cases heq
          obtain ⟨o, ho⟩ := Option.isSome_iff_exists.mp (hmono lane hlane)
          have hsame : part.map List.flatten =
              (s₁.world.objects (cfg.laneKey key layer lane)).map KvObject.content :=
            KvWorld.exec_agrees hexec
          rw [ho] at hsame
          obtain ⟨cs, rfl, hcs⟩ := Option.map_eq_some_iff.mp hsame
          refine ⟨cs, rfl, ?_⟩
          rintro rfl
          refine not_hollow_of_solid ?_
          rw [hcs]
          exact ((laneOk_of_reach hreach).whole key layer o ho).1
        · exact hgets j th₀ hj hth₀ lane hlane part he
      · exact hgets j th hj hth
    | finish i =>
      obtain ⟨th₀, a, hth₀, hprog, -, rfl⟩ := Machine.finishThread_eq_some ha
      refine ⟨by rw [List.length_set]; exact hlen, hmono, fun j th hj hth => ?_⟩
      rcases Machine.getElem?_set_cases hth₀ hth with ⟨rfl, rfl⟩ | ⟨-, hth⟩
      · exact hgets j th₀ hj hth₀
      · exact hgets j th hj hth
    | env e => exact e.elim

theorem probe_hit_loads (hcfg : cfg.parallel = c.parallel) (h : LastLane cfg s) {numBlocks : Nat}
    {th : KvThread} (hth : th ∈ s.threads)
    (hlabel : th.label = .probe key (c.probeLayerNames numBlocks))
    (hhit : th.prog = .ret (.probed true)) :
    (∀ rank ∈ c.ranks, ∀ lane < cfg.parallel,
      (s.world.objects (cfg.laneKey key (c.layerName numBlocks rank) lane)).isSome) ∧
    ∀ s', (kvMachine cfg).Steps (KvOp.prog cfg) (fun s a => lastLane cfg s a = true) s s' →
      ∀ rank ∈ c.ranks, ∀ j th', s.threads.length ≤ j → s'.threads[j]? = some th' →
        th'.label = .getChunks key (c.layerName numBlocks rank) →
        (∀ lane < cfg.parallel,
          (⟨.getStream (cfg.laneKey key (c.layerName numBlocks rank) lane), .error ()⟩ :
            Event KvCmd KvCmd.Resp) ∉ th'.trace) →
        ∀ r, th'.prog = .ret (.loaded r) → ∃ chunks, r = .ok (some chunks) := by
  have hok := laneOk_of_reach h
  have hpost := h.conforms (G := KvOp.guard cfg) (Q := KvOp.post cfg)
    (fun _ op _ => KvOp.conforms op) th hth
  rw [hlabel, hhit] at hpost
  have hall : ∀ rank ∈ c.ranks, ∀ lane < cfg.parallel,
      (s.world.objects (cfg.laneKey key (c.layerName numBlocks rank) lane)).isSome := by
    intro rank hrank
    obtain ⟨version, hseen⟩ := hpost rfl _ (List.mem_map_of_mem hrank)
    obtain ⟨o, ho⟩ := Option.isSome_iff_exists.mp (hok.seen th hth _ version hseen)
    rw [partLayer_eq hcfg] at ho
    exact (hok.whole key _ o ho).2
  refine ⟨hall, ?_⟩
  intro s' hs rank hrank j th' hj hth' hlabel' hnofail r hprog
  have hreach' : LastLane cfg s' := h.steps hs
  have hmem' := List.mem_of_getElem? hth'
  have hpost' := hreach'.conforms (G := KvOp.guard cfg) (Q := KvOp.post cfg)
    (fun _ op _ => KvOp.conforms op) th' hmem'
  rw [hlabel', hprog] at hpost'
  have hunused := (offline_of_reach hreach').unused th' hmem'
  have hgets := (steps_gets h hs (hall rank hrank)).2.2 j th' hj hth'
  cases r with
  | error e => exact absurd hpost'.1 hunused
  | ok r =>
    rcases hpost' with ⟨hrdma, -⟩ | ⟨parts, hparts, rfl⟩
    · exact absurd hrdma hunused
    ·
      have hcs : ∀ lane < cfg.parallel, ∀ part, Replied th'.trace
          (cfg.laneKey key (c.layerName numBlocks rank) lane) part →
          ∃ cs, part = some cs ∧ (lane = 0 → ¬ Hollow cfg cs) := by
        rintro lane hlane part (he | ⟨-, he⟩)
        · exact hgets lane hlane part he
        · exact absurd he (hnofail lane hlane)
      have hne : grpcMerge cfg parts ≠ none := by
        obtain ⟨part, hpart, hreply⟩ :=
          Conforms.forall₂_mem_left hparts (List.mem_range.mpr cfg.parallel_pos)
        obtain ⟨cs, rfl, hhollow⟩ := hcs 0 cfg.parallel_pos part hreply
        refine grpcMerge_ne_none (fun part' hpart' => ?_) hpart (hhollow rfl)
        obtain ⟨lane, hlane, hreply'⟩ := Conforms.forall₂_mem_left hparts.flip hpart'
        obtain ⟨cs', rfl, -⟩ := hcs lane (List.mem_range.mp hlane) part' hreply'
        rfl
      obtain ⟨chunks, hchunks⟩ := Option.ne_none_iff_exists'.mp hne
      exact ⟨chunks, congrArg Except.ok hchunks⟩

def pairConfig : Config := { sampleConfig with parallel := 2, parallel_pos := Nat.two_pos }

def pairLanes : KvConfig := laneConfig 2 Nat.two_pos

def probeName : String := "blocks_1_p0of2"

theorem exists_of_play (ok : KvRun → KvMove → Bool)
    (before after : List (Machine.Line KvOp KvChoice Empty)) (check : KvRun → KvRun → Bool)
    (h : (((kvMachine pairLanes).play (KvOp.prog pairLanes) ok usual before
      (Machine.start (emptyWorld false))).any fun s => ((kvMachine pairLanes).play
        (KvOp.prog pairLanes) ok usual after s).any (check s)) = true) :
    ∃ s s', KvReach pairLanes (fun s a => ok s a = true) s ∧
      (kvMachine pairLanes).Steps (KvOp.prog pairLanes) (fun s a => ok s a = true) s s' ∧
      check s s' = true := by
  obtain ⟨s, hs, h⟩ := (Option.any_eq_true _ _).mp h
  obtain ⟨s', hs', hcheck⟩ := (Option.any_eq_true _ _).mp h
  exact ⟨s, s', Machine.Reach.play .start hs, Machine.Steps.play .refl hs', hcheck⟩

def hitBy (i : Nat) (key : String) (layers : List String) (s : KvRun) : Bool :=
  match s.threads[i]? with
  | some ⟨.probe k ls, .ret (.probed hit), _, _⟩ => k == key && ls == layers && hit
  | _ => false

theorem exists_of_hitBy {i : Nat} {layers : List String} (h : hitBy i key layers s = true) :
    ∃ th ∈ s.threads, th.label = .probe key layers ∧ th.prog = .ret (.probed true) := by
  unfold hitBy at h
  split at h
  next hth =>
    simp only [Bool.and_eq_true, beq_iff_eq] at h
    obtain ⟨⟨rfl, rfl⟩, rfl⟩ := h
    exact ⟨_, List.mem_of_getElem? hth, rfl, rfl⟩
  · cases h

def isFailure : Event KvCmd KvCmd.Resp → Bool
  | ⟨.getStream _, .error _⟩ => true
  | _ => false

def loadedBy (j : Nat) (key layer : String) (found : Bool) (s : KvRun) : Bool :=
  match s.threads[j]? with
  | some ⟨.getChunks k l, .ret (.loaded (.ok r)), t, _⟩ =>
    k == key && l == layer && r.isSome == found && !t.any isFailure
  | _ => false

theorem exists_of_loadedBy {j : Nat} {found : Bool} (h : loadedBy j key layer found s = true) :
    ∃ th r, s.threads[j]? = some th ∧ th.label = .getChunks key layer ∧
      th.prog = .ret (.loaded (.ok r)) ∧ r.isSome = found ∧
      ∀ okey, (⟨.getStream okey, .error ()⟩ : Event KvCmd KvCmd.Resp) ∉ th.trace := by
  unfold loadedBy at h
  split at h
  next hth =>
    simp only [Bool.and_eq_true, beq_iff_eq, Bool.not_eq_true'] at h
    obtain ⟨⟨⟨rfl, rfl⟩, hfound⟩, hclean⟩ := h
    refine ⟨_, _, hth, rfl, rfl, hfound, fun okey he => ?_⟩
    have hbad := List.any_eq_true.mpr ⟨_, he, (rfl : isFailure ⟨.getStream okey, .error ()⟩ = true)⟩
    rw [hclean] at hbad
    cases hbad
  · cases h

theorem probe_hit_loads_pair :
    ∃ s s', LastLane pairLanes s ∧
      (∀ lane < 2, (s.world.objects (pairLanes.laneKey "k" "blocks_1" lane)).isSome) ∧
      (kvMachine pairLanes).Steps (KvOp.prog pairLanes)
        (fun s a => lastLane pairLanes s a = true) s s' ∧
      ∃ th ∈ s'.threads, th.label = .getChunks "k" "blocks_1" ∧
        ∃ chunks, th.prog = .ret (.loaded (.ok (some chunks))) := by
  obtain ⟨s, s', hs, hsteps, hcheck⟩ := exists_of_play (lastLane pairLanes)
    [.act (.spawn (.putChunks "k" "blocks_1" [[1], [2]])), .act (.run 0 (.num 1)), .solo 0 9,
      .act (.spawn (.probe "k" [probeName])), .solo 1 9]
    [.act (.spawn (.getChunks "k" "blocks_1")), .solo 2 1, .act (.run 2 (.num 0)),
      .act (.run 2 (.chunks [[1]])), .act (.run 2 (.num 0)), .act (.run 2 (.chunks [[2]]))]
    (fun s s' => hitBy 1 "k" [probeName] s && decide (s.threads.length ≤ 2) &&
      loadedBy 2 "k" "blocks_1" true s') (by decide +kernel)
  simp only [Bool.and_eq_true, decide_eq_true_eq] at hcheck
  obtain ⟨⟨hhit, hlen⟩, hload⟩ := hcheck
  obtain ⟨th, hth, hlabel, hprog⟩ := exists_of_hitBy hhit
  obtain ⟨th', r, hth', hlabel', hprog', -, hclean⟩ := exists_of_loadedBy hload
  have hlabel : th.label = .probe "k" (pairConfig.probeLayerNames 1) := hlabel
  obtain ⟨hall, hloads⟩ := probe_hit_loads (c := pairConfig) rfl hs hth hlabel hprog
  have hrank : 0 ∈ pairConfig.ranks := by decide
  obtain ⟨chunks, hr⟩ := hloads s' hsteps 0 hrank 2 th' hlen hth' hlabel'
    (fun lane _ => hclean _) _ hprog'
  exact ⟨s, s', hs, hall 0 hrank, hsteps, th', List.mem_of_getElem? hth', hlabel', chunks,
    hr ▸ hprog'⟩

theorem probe_hit_missing :
    ∃ s s', KvReach pairLanes (fun _ _ => true = true) s ∧
      (∃ th ∈ s.threads, th.label = .probe "k" (pairConfig.probeLayerNames 1) ∧
        th.prog = .ret (.probed true)) ∧
      s.world.objects (pairLanes.laneKey "k" "blocks_1" 1) = none ∧
      (kvMachine pairLanes).Steps (KvOp.prog pairLanes) (fun _ _ => true = true) s s' ∧
      ∃ th, s'.threads[2]? = some th ∧ th.label = .getChunks "k" "blocks_1" ∧
        (∀ okey, (⟨.getStream okey, .error ()⟩ : Event KvCmd KvCmd.Resp) ∉ th.trace) ∧
        th.prog = .ret (.loaded (.ok none)) := by
  obtain ⟨s, s', hs, hsteps, hcheck⟩ := exists_of_play (fun _ _ => true)
    [.act (.spawn (.putChunks "k" "blocks_1" [[1], [2]])), .act (.run 0 (.num 0)),
      .act (.run 0 .ok), .act (.run 0 (.num 0)), .act (.run 0 .fail), .solo 0 9,
      .act (.spawn (.probe "k" [probeName])), .solo 1 9]
    [.act (.spawn (.getChunks "k" "blocks_1")), .solo 2 1, .act (.run 2 (.num 0)),
      .act (.run 2 (.chunks [[1]])), .act (.run 2 (.num 0)), .act (.run 2 .ok)]
    (fun s s' => hitBy 1 "k" [probeName] s &&
      (s.world.objects (pairLanes.laneKey "k" "blocks_1" 1)).isNone &&
      loadedBy 2 "k" "blocks_1" false s') (by decide +kernel)
  simp only [Bool.and_eq_true, Option.isNone_iff_eq_none] at hcheck
  obtain ⟨⟨hhit, hmissing⟩, hload⟩ := hcheck
  obtain ⟨th', r, hth', hlabel', hprog', hfound, hclean⟩ := exists_of_loadedBy hload
  obtain rfl : r = none := Option.isNone_iff_eq_none.mp (by simpa using hfound)
  exact ⟨s, s', hs, exists_of_hitBy hhit, hmissing, hsteps, th', hth', hlabel', hclean, hprog'⟩

end Connector

end ContextStore
