import ContextStore.Backend.Kvbm

/-!
# KVBM の adapter は map か
-/

namespace ContextStore

open Conc

namespace Kvbm

open Kv

section
variable {κ : Type} [DecidableEq κ]

def lastPut (name : BlockKey → κ) : BlockLog → κ → Option Bytes
  | [], _ => none
  | (.putBlock k data, _) :: log, x => if name k = x then some data else lastPut name log x
  | (.deleteBlock k, _) :: log, x => if name k = x then none else lastPut name log x
  | (.getBlock _, _) :: log, x => lastPut name log x
  | (.existsBlock _, _) :: log, x => lastPut name log x

end

def contents (log : BlockLog) (k : BlockKey) : Option Bytes := lastPut id log k

def Right (cfg : KvConfig) (m : BlockKey → Option Bytes) : BlockOp → BlockAnswer → Prop
  | .putBlock _ _, a => a = .stored (.ok ())
  | .getBlock k, a => a = .loaded (.ok (m k)) ∨
      a = .loaded (.error ()) ∧ cfg.rdmaFallbackToGrpc = false
  | .existsBlock k, a => a = .found (m k).isSome
  | .deleteBlock _, a => a = .deleted

/-! ## 条件 -/

/-- `put_block` された鍵。 -/
def putKeys (log : BlockLog) : List BlockKey :=
  log.filterMap fun call =>
    match call.1 with
    | .putBlock k _ => some k
    | _ => none

def probed (cfg : KvConfig) (layer : String) : Bool :=
  layer = combinedLayer ∧ cfg.parallel = 1

def callMeets (cfg : KvConfig) (layer : String) (s : BlockState) : BlockOp → Bool
  | .putBlock _ data => data ≠ []
  | .getBlock k => !s.world.rdmaEnabled ||
      (contents s.log k).all fun data => data.length ≠ 1 && data.length ≤ cfg.bufSize
  | .existsBlock k => probed cfg layer || (contents s.log k).isNone
  | .deleteBlock k => probed cfg layer || (contents s.log k).isNone

def smooth (cfg : KvConfig) (lane : String) : Event KvCmd KvCmd.Resp → Bool
  | ⟨.getStream _, .error _⟩ => false
  | ⟨.getStream okey, .ok (some cs)⟩ => cfg.parallel = 1 || okey ≠ lane || !cs.contains [0]
  | ⟨.exists _, .error _⟩ => false
  | ⟨.delete _, .error _⟩ => false
  | _ => true

def accepted : BlockAnswer → Bool
  | .stored (.error _) => false
  | _ => true

def meets (cfg : KvConfig) (layer : String) (s : BlockState) (m : BlockMove) : Bool :=
  (putKeys s.log).all (fun k => k.canonical ≠ m.1.key.canonical || k = m.1.key) &&
    callMeets cfg layer s m.1 &&
    (s.call cfg layer m).all fun (_, t, a) =>
      t.all (smooth cfg (cfg.laneKey m.1.key.storageKey layer 0)) && accepted a

variable {cfg : KvConfig} {layer : String}

theorem laneBytes_single {data : Bytes} {i : Nat} (h : Carries cfg [data] i) :
    laneBytes cfg [data] i = data := by
  unfold laneBytes
  by_cases hN : cfg.parallel = 1
  · simp [hN]
  · have hne := h.resolve_left hN
    have hlen : (cfg.laneSegments [data] i).length ≤ 1 := by
      simp_all [KvConfig.laneSegments.eq_1]
    have hsub : cfg.laneSegments [data] i ⊆ [data] := fun x hx =>
      List.mem_of_mem_drop (List.mem_of_mem_take hx)
    rw [if_neg hN]
    match hseg : cfg.laneSegments [data] i, hne, hlen with
    | [x], _, _ =>
      rw [hseg] at hsub
      simpa using hsub (List.mem_singleton_self x)

theorem carries_single {data : Bytes} {i : Nat} (hi : i < cfg.parallel)
    (h : Carries cfg [data] i) : i = 0 := by
  rcases h with hN | hne
  · omega
  · by_contra h0
    refine hne ?_
    have hcount : 1 ≤ ((Kv.partitionCount 1 cfg.parallel).take i).sum := by
      obtain ⟨n, hn⟩ := Nat.exists_eq_succ_of_ne_zero cfg.parallel_pos.ne'
      obtain ⟨j, rfl⟩ := Nat.exists_eq_succ_of_ne_zero h0
      have hmod : 1 % cfg.parallel = 1 := Nat.mod_eq_of_lt (by omega)
      rw [Kv.partitionCount, if_neg (by omega), hmod, hn, List.range_succ_eq_map]
      grind
    simp_all [KvConfig.laneSegments]

variable {key : String} {data : Bytes} {w w' : KvWorld} {t : KvHist} {xs : List KvChoice}

theorem putChunks_frame {segments : List Bytes} {r : Except Unit Unit} {okey : String}
    (h : (putChunks cfg key layer segments).perform (KvWorld.exec cfg) xs w [] = some (w', t, r))
    (hne : ∀ i < cfg.parallel, okey ≠ cfg.laneKey key layer i) :
    w'.objects okey = w.objects okey := by
  let I : KvWorld → KvHist → Prop := fun w₁ _ => w₁.objects okey = w.objects okey
  refine (Prog.perform_induct (I := I) ?_ (putChunks_conforms []) rfl h).1
  intro c x w₁ w₂ r t hw hexec ih
  rcases KvWorld.exec_cases hexec hw.1 with ⟨hobj, -⟩ | ⟨okey', content, hwritten, hobj⟩
  · exact (congrFun hobj okey).trans ih
  · obtain ⟨i, hi, rfl, -⟩ := hw.2 _ _ hwritten
    have hsame : w₂.objects okey = w₁.objects okey := by
      rw [hobj, KvWorld.put_objects_of_ne _ (hne i hi)]
    exact hsame.trans ih

theorem getChunks_frame {r : Except Unit (Option (List Bytes))}
    (h : (getChunks cfg key layer).perform (KvWorld.exec cfg) xs w [] = some (w', t, r)) :
    w'.objects = w.objects := by
  let I : KvWorld → KvHist → Prop := fun w₁ _ => w₁.objects = w.objects
  refine (Prog.perform_induct (I := I) ?_ (getChunks_conforms w.objects) rfl h).1
  intro c x w₁ w₂ r t hreads hexec ih
  rcases KvWorld.exec_cases hexec hreads.2.1 with ⟨hobj, -⟩ | ⟨okey, content, hwritten, -⟩
  · exact hobj.trans ih
  · rw [hreads.1] at hwritten
    cases hwritten

theorem fallback_of_error
    (h : (getChunks cfg key layer).perform (KvWorld.exec cfg) xs w [] =
      some (w', t, .error ())) : cfg.rdmaFallbackToGrpc = false :=
  (Prog.perform_induct (I := fun _ _ => True) (fun _ _ _ _ _ _ _ _ _ => trivial)
    (getChunks_conforms fun _ => none) trivial h).2.2

theorem rdmaEnabled_of_getChunks {r : Except Unit (Option (List Bytes))}
    (h : (getChunks cfg key layer).perform (KvWorld.exec cfg) xs w [] = some (w', t, r))
    (hmem : (⟨.rdmaEnabled, true⟩ : Event KvCmd KvCmd.Resp) ∈ t) : w.rdmaEnabled = true := by
  by_contra hw
  let I : KvWorld → KvHist → Prop := fun w₁ t => w₁.rdmaEnabled = false ∧
    (⟨.rdmaEnabled, true⟩ : Event KvCmd KvCmd.Resp) ∉ t
  have hrun := Prog.perform_induct (I := I) ?_ (getChunks_conforms fun _ => none) ?_ h
  · exact hrun.1.2 hmem
  · intro c x w₁ w₂ r t _ hexec ih
    obtain ⟨hw₂, hne⟩ := KvWorld.exec_rdmaDisabled hexec ih.1
    refine ⟨hw₂, fun hin => ?_⟩
    rcases List.mem_cons.mp hin with heq | hin
    · exact hne heq.symm
    · exact ih.2 hin
  · exact ⟨by simpa using hw, List.not_mem_nil⟩

theorem getChunks_stored {r : Option (List Bytes)} (hne : data ≠ [])
    (hstored : Stored cfg key layer [data] w.objects)
    (hbyte : w.rdmaEnabled = true → data.length ≠ 1 ∧ data.length ≤ cfg.bufSize)
    (h : (getChunks cfg key layer).perform (KvWorld.exec cfg) xs w [] = some (w', t, .ok r))
    (hsmooth : ∀ e ∈ t, smooth cfg (cfg.laneKey key layer 0) e = true) :
    r.map List.flatten = some data := by
  have hflat : [data].flatten = data := by simp
  have hne' : [data].flatten ≠ [] := by rwa [hflat]
  suffices hr : Restores [data] r by
    obtain ⟨chunks, rfl, hchunks⟩ := hr
    rw [Option.map_some, hchunks, hflat]
  obtain ⟨-, hagree, hpost⟩ := getChunks_agrees h
  rcases hpost with ⟨hrdma, -, hr⟩ | ⟨parts, hparts, rfl⟩
  · rw [hr hagree, rdmaResult_restores_iff hne' hstored]
    intro i _ hc
    rw [laneBytes_single hc]
    have hlen := hbyte (rdmaEnabled_of_getChunks h hrdma)
    have := List.length_pos_iff.mpr hne
    omega
  ·
    have hall : parts.all Option.isSome = true := by
      refine List.all_eq_true.mpr fun part hpart => ?_
      obtain ⟨i, hi, hreply⟩ := Conforms.forall₂_mem_left hparts.flip hpart
      have hi := List.mem_range.mp hi
      rcases hreply with hmem | ⟨-, hmem⟩
      · have hsame := hagree _ hmem
        simp only [Agrees, hstored i hi] at hsame
        cases part with
        | none => cases hsame
        | some cs => rfl
      · cases hsmooth _ hmem
    obtain ⟨rechunk, rfl, hmem⟩ := exists_rechunk hparts hall
    refine (grpcMerge_restores_iff hne' fun i hi => ?_).mpr ?_
    · have hsame := hagree _ (hmem i hi)
      simpa only [Agrees, Option.map_some, hstored i hi, Option.some.injEq] using hsame
    · by_cases hN : cfg.parallel = 1
      · exact .inl hN
      · grind [carries_single, smooth]

theorem getChunks_absent {r : Option (List Bytes)}
    (habsent : ∀ i < cfg.parallel, w.objects (cfg.laneKey key layer i) = none)
    (h : (getChunks cfg key layer).perform (KvWorld.exec cfg) xs w [] = some (w', t, .ok r)) :
    r = none := by
  have hzero := habsent 0 cfg.parallel_pos
  obtain ⟨-, hagree, hpost⟩ := getChunks_agrees h
  rcases hpost with ⟨-, -, hr⟩ | ⟨parts, hparts, rfl⟩
  · rw [hr hagree, rdmaResult, if_pos]
    refine List.mem_map.mpr ⟨0, List.mem_range.mpr cfg.parallel_pos, ?_⟩
    rw [KvWorld.contentD, hzero]
    exact received_eq_nil.mpr (.inl rfl)
  · obtain ⟨part, hpart, hreply⟩ := Conforms.forall₂_mem_left hparts
      (List.mem_range.mpr cfg.parallel_pos)
    have hnone : part = none := by
      rcases hreply with hmem | ⟨hnone, -⟩
      · have hsame := hagree _ hmem
        simpa [Agrees, hzero] using hsame
      · exact hnone
    rw [grpcMerge, if_pos]
    simp_all

theorem existsKey_spec {b : Bool}
    (h : (existsKey key).perform (KvWorld.exec cfg) xs w [] = some (w', t, b)) {lane : String}
    (hsmooth : ∀ e ∈ t, smooth cfg lane e = true) :
    w' = w ∧ b = (w.objects (encodeObjectKey key combinedLayer)).isSome := by
  cases xs with
  | nil => cases h
  | cons x xs =>
    cases x <;> cases h
    · exact ⟨rfl, rfl⟩
    · cases hsmooth _ List.mem_cons_self

theorem deleteKey_spec {u : Unit}
    (h : (deleteKey key).perform (KvWorld.exec cfg) xs w [] = some (w', t, u)) {lane : String}
    (hsmooth : ∀ e ∈ t, smooth cfg lane e = true) :
    w' = w.erase (encodeObjectKey key combinedLayer) := by
  cases xs with
  | nil => cases h
  | cons x xs =>
    cases x <;> cases h
    · rfl
    · cases hsmooth _ List.mem_cons_self
    · cases hsmooth _ List.mem_cons_self

/-! ## 系の 1 手 -/

variable {s s' : BlockState} {k : BlockKey} {a : BlockAnswer}

theorem call_put (h : s.call cfg layer (.putBlock k data, xs) = some (w, t, a)) :
    ∃ r, a = .stored r ∧ (putChunks cfg k.storageKey layer [data]).perform (KvWorld.exec cfg) xs
      s.world [] = some (w, t, r) := by
  have hcall : s.call cfg layer (.putBlock k data, xs) = _ :=
    Prog.perform_map BlockAnswer.stored _ xs s.world []
  rw [hcall, Option.map_eq_some_iff] at h
  obtain ⟨⟨w₁, t₁, r⟩, hrun, heq⟩ := h
  cases heq
  exact ⟨r, rfl, hrun⟩

theorem call_get (h : s.call cfg layer (.getBlock k, xs) = some (w, t, a)) :
    ∃ r, a = .loaded (r.map fun chunks => chunks.map List.flatten) ∧
      (getChunks cfg k.storageKey layer).perform (KvWorld.exec cfg) xs s.world [] =
        some (w, t, r) := by
  have hcall : s.call cfg layer (.getBlock k, xs) = _ :=
    Prog.perform_map BlockAnswer.loaded _ xs s.world []
  have hget : (getBlock cfg layer k).perform (KvWorld.exec cfg) xs s.world [] = _ :=
    Prog.perform_map (fun r : Except Unit (Option (List Bytes)) =>
      r.map fun chunks => chunks.map List.flatten) _ xs s.world []
  grind [Option.map_eq_some_iff]

theorem call_exists (h : s.call cfg layer (.existsBlock k, xs) = some (w, t, a)) :
    ∃ b, a = .found b ∧ (existsKey k.storageKey).perform (KvWorld.exec cfg) xs s.world [] =
      some (w, t, b) := by
  have hcall : s.call cfg layer (.existsBlock k, xs) = _ :=
    Prog.perform_map BlockAnswer.found _ xs s.world []
  rw [hcall, Option.map_eq_some_iff] at h
  obtain ⟨⟨w₁, t₁, b⟩, hrun, heq⟩ := h
  cases heq
  exact ⟨b, rfl, hrun⟩

theorem call_delete (h : s.call cfg layer (.deleteBlock k, xs) = some (w, t, a)) :
    a = .deleted ∧ (deleteKey k.storageKey).perform (KvWorld.exec cfg) xs s.world [] =
      some (w, t, ()) := by
  have hcall : s.call cfg layer (.deleteBlock k, xs) = _ :=
    Prog.perform_map (fun _ : Unit => BlockAnswer.deleted) _ xs s.world []
  rw [hcall, Option.map_eq_some_iff] at h
  obtain ⟨⟨w₁, t₁, u⟩, hrun, heq⟩ := h
  cases heq
  exact ⟨rfl, hrun⟩

def Alone (log : BlockLog) (k : BlockKey) : Prop :=
  ∀ k' ∈ putKeys log, k'.storageKey = k.storageKey → k' = k

variable {m : BlockMove}

theorem of_meets (hm : meets cfg layer s m = true)
    (h : s.call cfg layer m = some (w, t, a)) :
    Alone s.log m.1.key ∧ callMeets cfg layer s m.1 = true ∧
      (∀ e ∈ t, smooth cfg (cfg.laneKey m.1.key.storageKey layer 0) e = true) ∧
      accepted a = true := by
  simp only [meets, h, Option.all_some, Bool.and_eq_true, List.all_eq_true, Bool.or_eq_true,
    decide_eq_true_eq] at hm
  obtain ⟨⟨hkeys, hcall⟩, hsmooth, hacc⟩ := hm
  refine ⟨fun k' hk' hname => ?_, hcall, hsmooth, hacc⟩
  exact (hkeys k' hk').resolve_left fun hne => hne (BlockKey.canonical_of_storageKey hname)

theorem putKeys_cons (op : BlockOp) (log : BlockLog) :
    putKeys ((op, a) :: log) ⊇ putKeys log := by
  intro k hk
  cases op <;> simp [putKeys] at hk ⊢ <;> tauto

theorem mem_putKeys_of_contents {log : BlockLog} (h : contents log k = some data) :
    k ∈ putKeys log := by
  induction log with
  | nil => cases h
  | cons call log ih =>
    obtain ⟨op, a⟩ := call
    cases op with
    | putBlock k' data' =>
      by_cases hk : k' = k
      · exact List.mem_cons.mpr (.inl hk.symm)
      · grind [putKeys_cons, contents, lastPut]
    | deleteBlock k' =>
      grind [contents, lastPut, putKeys_cons]
    | getBlock k' => exact putKeys_cons _ _ (ih h)
    | existsBlock k' => exact putKeys_cons _ _ (ih h)

def Named (log : BlockLog) : Prop :=
  ∀ k, Alone log k → contents log k = lastPut BlockKey.storageKey log k.storageKey

theorem Named.cons {log : BlockLog} {op : BlockOp} (h : Named log) (halone : Alone log op.key) :
    Named ((op, a) :: log) := by
  intro k hk
  have hk' : Alone log k := fun k' hmem => hk k' (putKeys_cons _ _ hmem)
  have ih := h k hk'
  cases op with
  | putBlock k' data =>
    by_cases hname : k'.storageKey = k.storageKey
    · obtain rfl : k' = k := hk k' (List.mem_cons.mpr (.inl rfl)) hname
      simp [contents, lastPut]
    · have hne : k' ≠ k := fun heq => hname (congrArg _ heq)
      simpa [contents, lastPut, hname, hne] using ih
  | deleteBlock k' =>
    by_cases hname : k'.storageKey = k.storageKey
    ·
      by_cases heq : k' = k
      · simp [contents, lastPut, heq]
      · have hnone : contents log k = none := by
          cases hc : contents log k with
          | none => rfl
          | some data =>
            exact absurd (halone k (mem_putKeys_of_contents hc) hname.symm).symm heq
        simpa [contents, lastPut, hname, heq] using hnone
    · have hne : k' ≠ k := fun heq => hname (congrArg _ heq)
      simpa [contents, lastPut, hname, hne] using ih
  | getBlock k' => exact ih
  | existsBlock k' => exact ih

def Holds (cfg : KvConfig) (layer : String) (objects : String → Option KvObject) (key : String) :
    Option Bytes → Prop
  | some data => data ≠ [] ∧ Stored cfg key layer [data] objects
  | none => ∀ i < cfg.parallel, objects (cfg.laneKey key layer i) = none

variable {o : Option Bytes}

theorem Holds.congr {objects objects' : String → Option KvObject}
    (h : Holds cfg layer objects key o)
    (heq : ∀ i < cfg.parallel, objects' (cfg.laneKey key layer i) =
      objects (cfg.laneKey key layer i)) : Holds cfg layer objects' key o := by
  cases o with
  | none => exact fun i hi => (heq i hi).trans (h i hi)
  | some data =>
    refine ⟨h.1, fun i hi => ?_⟩
    rw [heq i hi]
    exact h.2 i hi

structure Refines (cfg : KvConfig) (layer : String) (s : BlockState) : Prop where
  lanes : ∀ key, Holds cfg layer s.world.objects key (lastPut BlockKey.storageKey s.log key)
  probe : probed cfg layer = false →
    ∀ key, s.world.objects (encodeObjectKey key combinedLayer) = none
  named : Named s.log
  answers : ∀ later op a earlier, s.log = later ++ (op, a) :: earlier →
    Right cfg (contents earlier) op a

theorem partLayer_ne_combined (h : probed cfg layer = false) (i : Nat) :
    cfg.partLayer layer i ≠ combinedLayer := by
  intro heq
  by_cases hN : cfg.parallel = 1
  · simp [probed, hN, KvConfig.partLayer] at h heq
    exact h heq
  ·
    simp only [KvConfig.partLayer, if_neg hN] at heq
    have heq := congrArg (fun s : String => s.toList.getLast?) heq
    simp only [String.toList_append] at heq
    obtain ⟨c, hc⟩ : ∃ c, (toString cfg.parallel).toList.getLast? = some c := by
      refine ⟨_, List.getLast?_eq_some_getLast ?_⟩
      rw [Nat.toString_eq_repr, Nat.toList_repr]
      exact Nat.toDigits_ne_nil
    rw [List.getLast?_append, hc, Option.some_or] at heq
    have hmem := List.mem_of_getLast? hc
    rw [show c = '_' from Option.some.inj heq] at hmem
    exact ShardRouter.notMem_toString_nat (by decide) _ hmem

theorem laneKey_ne_probe (h : probed cfg layer = false) (key key' : String) (i : Nat) :
    cfg.laneKey key layer i ≠ encodeObjectKey key' combinedLayer :=
  fun heq => partLayer_ne_combined h i (encodeObjectKey_inj heq).2

theorem laneKey_of_probed (h : probed cfg layer = true) (key : String) {i : Nat} :
    cfg.laneKey key layer i = encodeObjectKey key combinedLayer := by
  simp_all [probed, KvConfig.laneKey, KvConfig.partLayer]

theorem isSome_of_holds (hprobed : probed cfg layer = true) {objects : String → Option KvObject}
    (h : Holds cfg layer objects key o) :
    (objects (encodeObjectKey key combinedLayer)).isSome = o.isSome := by
  rw [← laneKey_of_probed hprobed key (i := 0)]
  cases o with
  | none => rw [h 0 cfg.parallel_pos]; rfl
  | some data =>
    have := congrArg Option.isSome (h.2 0 cfg.parallel_pos)
    simpa using this

theorem Refines.right (h : Refines cfg layer s)
    (hm : meets cfg layer s m = true) (hcall : s.call cfg layer m = some (w, t, a)) :
    Right cfg (contents s.log) m.1 a := by
  obtain ⟨halone, hmeets, hsmooth, hacc⟩ := of_meets hm hcall
  obtain ⟨op, xs⟩ := m
  cases op with
  | putBlock k data =>
    obtain ⟨r, rfl, -⟩ := call_put hcall
    match r, hacc with
    | .ok (), _ => rfl
  | getBlock k =>
    obtain ⟨r, rfl, hrun⟩ := call_get hcall
    cases r with
    | error e => exact .inr ⟨rfl, fallback_of_error hrun⟩
    | ok r =>
      refine .inl (congrArg (fun r => BlockAnswer.loaded (.ok r)) ?_)
      have hholds := h.lanes k.storageKey
      rw [← h.named k halone] at hholds
      cases hc : contents s.log k with
      | none =>
        rw [hc] at hholds
        rw [getChunks_absent hholds hrun]
        rfl
      | some data =>
        rw [hc] at hholds
        refine getChunks_stored hholds.1 hholds.2 (fun hr => ?_) hrun hsmooth
        simpa [callMeets, hr, hc] using hmeets
  | existsBlock k =>
    obtain ⟨b, rfl, hrun⟩ := call_exists hcall
    obtain ⟨-, rfl⟩ := existsKey_spec hrun hsmooth
    refine congrArg BlockAnswer.found ?_
    cases hp : probed cfg layer with
    | true => rw [isSome_of_holds hp (h.lanes k.storageKey), ← h.named k halone]
    | false =>
      simp only [callMeets, hp, Bool.false_or] at hmeets
      rw [h.probe hp, Option.isNone_iff_eq_none.mp hmeets]
      rfl
  | deleteBlock k => exact (call_delete hcall).1

theorem Holds.put {name : String} (h : Holds cfg layer w.objects key o)
    (hdata : data ≠ [])
    (hrun : (putChunks cfg name layer [data]).perform (KvWorld.exec cfg) xs w [] =
      some (w', t, .ok ())) :
    Holds cfg layer w'.objects key (if name = key then some data else o) := by
  split
  next hname =>
    subst hname
    exact ⟨hdata, putChunks_stores hrun⟩
  next hname =>
    refine h.congr fun i hi => putChunks_frame hrun fun j hj heq => hname ?_
    exact (KvConfig.laneKey_inj hi hj heq).1.symm

theorem Holds.erase {name : String} (h : Holds cfg layer w.objects key o)
    (hp : probed cfg layer = true) :
    Holds cfg layer (w.erase (encodeObjectKey name combinedLayer)).objects key
      (if name = key then none else o) := by
  split
  next hname =>
    subst hname
    intro i _
    simp [laneKey_of_probed hp, KvWorld.erase]
  next hname =>
    refine h.congr fun i _ => ?_
    have hne : encodeObjectKey key combinedLayer ≠ encodeObjectKey name combinedLayer :=
      fun heq => hname (encodeObjectKey_inj heq).1.symm
    simp [laneKey_of_probed hp, KvWorld.erase, hne]

theorem Refines.lanes_call (h : Refines cfg layer s)
    (hm : meets cfg layer s m = true) (hcall : s.call cfg layer m = some (w, t, a)) (key : String) :
    Holds cfg layer w.objects key (lastPut BlockKey.storageKey ((m.1, a) :: s.log) key) := by
  obtain ⟨halone, hmeets, hsmooth, hacc⟩ := of_meets hm hcall
  generalize hnext : lastPut BlockKey.storageKey ((m.1, a) :: s.log) key = o
  obtain ⟨op, xs⟩ := m
  cases op with
  | putBlock k data =>
    obtain ⟨r, rfl, hrun⟩ := call_put hcall
    rw [← hnext, lastPut]
    match r, hacc with
    | .ok (), _ => exact (h.lanes key).put (by simpa [callMeets] using hmeets) hrun
  | getBlock k =>
    obtain ⟨r, rfl, hrun⟩ := call_get hcall
    rw [← hnext, lastPut]
    exact (h.lanes key).congr fun _ _ => by rw [getChunks_frame hrun]
  | existsBlock k =>
    obtain ⟨b, rfl, hrun⟩ := call_exists hcall
    obtain ⟨rfl, -⟩ := existsKey_spec hrun hsmooth
    rw [← hnext, lastPut]
    exact h.lanes key
  | deleteBlock k =>
    obtain ⟨rfl, hrun⟩ := call_delete hcall
    obtain rfl := deleteKey_spec hrun hsmooth
    rw [← hnext, lastPut]
    cases hp : probed cfg layer with
    | true => exact (h.lanes key).erase hp
    | false =>
      simp only [callMeets, hp, Bool.false_or] at hmeets
      have hnone := (h.named k halone).symm.trans (Option.isNone_iff_eq_none.mp hmeets)
      have hsame : (if k.storageKey = key then none else lastPut BlockKey.storageKey s.log key) =
          lastPut BlockKey.storageKey s.log key := by
        split
        next hk => rw [← hk, hnone]
        · rfl
      rw [hsame]
      refine (h.lanes key).congr fun i _ => ?_
      simp [KvWorld.erase, laneKey_ne_probe hp]

theorem Refines.probe_call (h : Refines cfg layer s)
    (hm : meets cfg layer s m = true) (hcall : s.call cfg layer m = some (w, t, a))
    (hp : probed cfg layer = false) (key : String) :
    w.objects (encodeObjectKey key combinedLayer) = none := by
  obtain ⟨-, -, hsmooth, -⟩ := of_meets hm hcall
  obtain ⟨op, xs⟩ := m
  cases op with
  | putBlock k data =>
    obtain ⟨r, rfl, hrun⟩ := call_put hcall
    rw [putChunks_frame hrun fun i _ heq => laneKey_ne_probe hp _ _ i heq.symm]
    exact h.probe hp key
  | getBlock k =>
    obtain ⟨r, rfl, hrun⟩ := call_get hcall
    rw [getChunks_frame hrun]
    exact h.probe hp key
  | existsBlock k =>
    obtain ⟨b, rfl, hrun⟩ := call_exists hcall
    obtain ⟨rfl, -⟩ := existsKey_spec hrun hsmooth
    exact h.probe hp key
  | deleteBlock k =>
    obtain ⟨rfl, hrun⟩ := call_delete hcall
    obtain rfl := deleteKey_spec hrun hsmooth
    simp only [KvWorld.erase]
    split
    · rfl
    · exact h.probe hp key

theorem Refines.step {rdma : Bool} (h : Refines cfg layer s)
    (hm : meets cfg layer s m = true) (hs : (machine cfg layer rdma).step s m = some s') :
    Refines cfg layer s' := by
  obtain ⟨⟨w, t, a⟩, hcall, rfl⟩ := Option.map_eq_some_iff.mp hs
  refine ⟨h.lanes_call hm hcall, h.probe_call hm hcall, h.named.cons (of_meets hm hcall).1, ?_⟩
  intro later op a' earlier hlog
  cases later with
  | nil =>
    cases hlog
    exact h.right hm hcall
  | cons call later => exact h.answers later op a' earlier (List.cons.inj hlog).2

end Kvbm

open Kvbm

variable {cfg : KvConfig} {layer : String}

namespace Kvbm

def putOne (k : BlockKey) (data : Bytes) : BlockMove := (.putBlock k data, [.ok, .num 0, .ok])

end Kvbm

end ContextStore
