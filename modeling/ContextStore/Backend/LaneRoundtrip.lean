import ContextStore.Backend.KvLanes
import Mathlib.Algebra.Order.BigOperators.Group.List

/-!
# lane に分けて書いたものを読み戻す
-/

namespace ContextStore

open Conc

namespace Kv

/-! ## 分割 -/

theorem flatten_slices {β : Type} (sizes : List Nat) :
    ∀ l : List β, l.length ≤ sizes.sum →
      ((List.range sizes.length).map fun i =>
        (l.drop (sizes.take i).sum).take (sizes.getD i 0)).flatten = l := by
  induction sizes with
  | nil =>
    simp
  | cons s sizes ih =>
    intro l h
    rw [List.sum_cons] at h
    have hrest := ih (l.drop s) (by rw [List.length_drop]; omega)
    simp_all [List.range_succ_eq_map, Function.comp_def]

theorem sum_map_range (q r m : Nat) :
    ((List.range m).map fun i => if i < r then q + 1 else q).sum = m * q + min m r := by
  induction m with
  | zero => simp
  | succ m ih =>
    rw [List.range_succ, List.map_append, List.sum_append, ih, Nat.succ_mul]
    by_cases h : m < r
    · simp [h]
      omega
    · simp [h]
      omega

theorem sum_partitionCount {total n : Nat} (hn : 0 < n) :
    (partitionCount total n).sum = total := by
  unfold partitionCount
  split
  · simp
  · rw [sum_map_range]
    have hlt := Nat.mod_lt total hn
    have := Nat.div_add_mod total n
    omega

theorem length_partitionCount {total n : Nat} (hn : 0 < n) :
    (partitionCount total n).length = n := by
  unfold partitionCount
  split
  · simp
    omega
  · simp

variable (cfg : KvConfig) (segments : List Bytes)

def laneBytes (i : Nat) : Bytes :=
  if cfg.parallel = 1 then segments.flatten else (cfg.laneSegments segments i).flatten

def Carries (i : Nat) : Prop := cfg.parallel = 1 ∨ cfg.laneSegments segments i ≠ []

variable {cfg segments}

theorem flatten_laneBytes (cfg : KvConfig) (segments : List Bytes) :
    ((List.range cfg.parallel).map (laneBytes cfg segments)).flatten = segments.flatten := by
  unfold laneBytes
  by_cases hN : cfg.parallel = 1
  · simp [hN]
  · have hslices := flatten_slices (partitionCount segments.length cfg.parallel) segments
      (sum_partitionCount cfg.parallel_pos).ge
    rw [length_partitionCount cfg.parallel_pos] at hslices
    simp only [if_neg hN]
    conv_rhs => rw [← hslices]
    rw [List.flatten_flatten, List.map_map]
    rfl

theorem part_of_carries {i : Nat} (h : Carries cfg segments i) :
    (cfg.partSegments segments i).flatten = laneBytes cfg segments i := by
  unfold KvConfig.partSegments laneBytes
  by_cases hN : cfg.parallel = 1
  · simp [hN]
  · have hne : cfg.laneSegments segments i ≠ [] := h.resolve_left hN
    simp [hN, hne]

theorem part_of_not_carries {i : Nat} (h : ¬ Carries cfg segments i) :
    (cfg.partSegments segments i).flatten = [0] ∧ laneBytes cfg segments i = [] := by
  rw [Carries, not_or, not_not] at h
  unfold KvConfig.partSegments laneBytes
  simp [h.1, h.2]

theorem flatten_map_eq_iff {ι β : Type} {a b : ι → List β} {l : List ι}
    (h : ∀ i ∈ l, a i = b i ∨ (a i).length < (b i).length) :
    (l.map a).flatten = (l.map b).flatten ↔ ∀ i ∈ l, a i = b i := by
  constructor
  · intro heq
    have hlen := congrArg List.length heq
    clear heq
    induction l with
    | nil => exact fun i hi => (List.not_mem_nil hi).elim
    | cons j l ih =>
      have hle : ((l.map a).flatten).length ≤ ((l.map b).flatten).length := by
        rw [List.length_flatten, List.length_flatten, List.map_map, List.map_map]
        refine List.sum_le_sum fun i hi => ?_
        grind
      grind
  · intro heq
    rw [List.map_congr_left heq]

def rdmaKept (data : Bytes) : Bytes := if data.length ≠ 1 then data else []

def grpcKept (cs : List Bytes) : Bytes := (cs.filter fun c => c != [0]).flatten

theorem flatten_filter_map {ι : Type} (f : ι → Bytes) (l : List ι) :
    ((l.map f).filter fun data => data.length ≠ 1).flatten =
      (l.map fun i => rdmaKept (f i)).flatten := by
  induction l with
  | nil => rfl
  | cons i l ih =>
    by_cases h : (f i).length = 1 <;> simp [rdmaKept, h] at ih ⊢ <;> exact ih

theorem flatten_filter_flatten {ι : Type} (f : ι → List Bytes) (l : List ι) :
    (((l.map f).flatten).filter fun c => c != [0]).flatten =
      (l.map fun i => grpcKept (f i)).flatten := by
  induction l with
  | nil => rfl
  | cons i l ih =>
    simp_all [grpcKept.eq_1]

theorem rdmaKept_eq_or (data : Bytes) :
    rdmaKept data = data ∧ data.length ≠ 1 ∨ rdmaKept data = [] ∧ data.length = 1 := by
  grind [rdmaKept]

theorem grpcKept_eq_or (cs : List Bytes) :
    ([0] ∉ cs ∧ grpcKept cs = cs.flatten) ∨
      ([0] ∈ cs ∧ (grpcKept cs).length < cs.flatten.length) := by
  induction cs with
  | nil => exact .inl ⟨List.not_mem_nil, rfl⟩
  | cons c cs ih =>
    unfold grpcKept at ih ⊢
    by_cases hc : c = [0]
    · grind
    · grind

theorem grpcKept_sentinel {cs : List Bytes} (h : cs.flatten = [0]) : grpcKept cs = [] := by
  have hmem : [0] ∈ cs := by
    induction cs with
    | nil => cases h
    | cons c cs ih =>
      rw [List.flatten_cons] at h
      rcases List.append_eq_cons_iff.mp h with ⟨-, hcs⟩ | ⟨c', rfl, hnil⟩
      · exact List.mem_cons_of_mem _ (ih hcs)
      · obtain ⟨rfl, -⟩ := List.append_eq_nil_iff.mp hnil.symm
        exact List.mem_cons_self
  rcases grpcKept_eq_or cs with ⟨hnot, -⟩ | ⟨-, hlt⟩
  · exact absurd hmem hnot
  · simp_all

def Restores (segments : List Bytes) (r : Option (List Bytes)) : Prop :=
  ∃ chunks, r = some chunks ∧ chunks.flatten = segments.flatten

variable {key layer : String} {objects : String → Option KvObject}

def Stored (cfg : KvConfig) (key layer : String) (segments : List Bytes)
    (objects : String → Option KvObject) : Prop :=
  ∀ i < cfg.parallel, (objects (cfg.laneKey key layer i)).map KvObject.content =
    some (cfg.partSegments segments i).flatten

theorem Stored.contentD (h : Stored cfg key layer segments objects) {i : Nat}
    (hi : i < cfg.parallel) :
    KvWorld.contentD objects (cfg.laneKey key layer i) = (cfg.partSegments segments i).flatten := by
  rw [KvWorld.contentD, h i hi]
  rfl

theorem kept_flatten_iff {kept : Nat → Bytes}
    (hcarry : ∀ i < cfg.parallel, Carries cfg segments i →
      kept i = laneBytes cfg segments i ∨ (kept i).length < (laneBytes cfg segments i).length)
    (hsentinel : ∀ i < cfg.parallel, ¬ Carries cfg segments i → kept i = []) :
    ((List.range cfg.parallel).map kept).flatten = segments.flatten ↔
      ∀ i < cfg.parallel, Carries cfg segments i → kept i = laneBytes cfg segments i := by
  have hrest : ∀ i < cfg.parallel, ¬ Carries cfg segments i →
      kept i = laneBytes cfg segments i := by
    intro i hi hc
    rw [hsentinel i hi hc, (part_of_not_carries hc).2]
  rw [← flatten_laneBytes cfg segments, flatten_map_eq_iff]
  · grind
  · grind

theorem restores_ite_iff (hne : segments.flatten ≠ []) (merged : List Bytes) :
    Restores segments (if merged.isEmpty then none else some merged) ↔
      merged.flatten = segments.flatten := by
  constructor
  · rintro ⟨chunks, hr, hflat⟩
    split at hr
    · cases hr
    · cases hr
      exact hflat
  · intro hflat
    refine ⟨merged, if_neg fun hnil => hne ?_, hflat⟩
    rw [← hflat, List.isEmpty_iff.mp hnil]
    rfl

theorem received_eq_nil {data : Bytes} :
    cfg.received data = [] ↔ data = [] ∨ cfg.bufSize < data.length := by
  unfold KvConfig.received
  split
  next h => simp [Nat.not_lt.mpr h]
  next h => simp [Nat.not_le.mp h]

theorem received_of_ne_nil {data : Bytes} (h : cfg.received data ≠ []) :
    cfg.received data = data := by
  unfold KvConfig.received at h ⊢
  split
  · rfl
  next hlt => exact absurd (if_neg hlt) h

theorem one_le_bufSize : 1 ≤ cfg.bufSize := by
  unfold KvConfig.bufSize
  omega

theorem nil_mem_laneContents_iff (h : Stored cfg key layer segments objects) :
    [] ∈ laneContents cfg key layer objects ↔ ∃ i < cfg.parallel, Carries cfg segments i ∧
      (laneBytes cfg segments i = [] ∨ cfg.bufSize < (laneBytes cfg segments i).length) := by
  simp only [laneContents, List.mem_map, List.mem_range]
  constructor
  · rintro ⟨i, hi, hnil⟩
    rw [h.contentD hi, received_eq_nil] at hnil
    by_cases hc : Carries cfg segments i
    · rw [part_of_carries hc] at hnil
      exact ⟨i, hi, hc, hnil⟩
    · rw [(part_of_not_carries hc).1] at hnil
      rcases hnil with hnil | hlt
      · cases hnil
      · exact absurd one_le_bufSize (Nat.not_le.mpr hlt)
  · rintro ⟨i, hi, hc, hnil⟩
    refine ⟨i, hi, ?_⟩
    rw [h.contentD hi, part_of_carries hc, received_eq_nil]
    exact hnil

theorem rdmaMerge_restores_iff (hne : segments.flatten ≠ []) :
    Restores segments (rdmaMerge ((List.range cfg.parallel).map fun i =>
        (cfg.partSegments segments i).flatten)) ↔
      ∀ i < cfg.parallel, Carries cfg segments i → (laneBytes cfg segments i).length ≠ 1 := by
  rw [rdmaMerge, restores_ite_iff hne, flatten_filter_map, kept_flatten_iff]
  · refine forall_congr' fun i => forall_congr' fun hi => forall_congr' fun hc => ?_
    rw [part_of_carries hc]
    rcases rdmaKept_eq_or (laneBytes cfg segments i) with ⟨hkept, hlen⟩ | ⟨hkept, hlen⟩
    · exact iff_of_true hkept hlen
    · refine iff_of_false (fun heq => ?_) (not_not.mpr hlen)
      rw [← heq, hkept] at hlen
      cases hlen
  · intro i _ hc
    rw [part_of_carries hc]
    rcases rdmaKept_eq_or (laneBytes cfg segments i) with ⟨hkept, -⟩ | ⟨hkept, hlen⟩
    · exact .inl hkept
    · exact .inr (by rw [hkept, hlen]; exact Nat.one_pos)
  · intro i _ hc
    rw [(part_of_not_carries hc).1]
    rfl

theorem rdmaResult_restores_iff (hne : segments.flatten ≠ [])
    (h : Stored cfg key layer segments objects) :
    Restores segments (rdmaResult (laneContents cfg key layer objects)) ↔
      ∀ i < cfg.parallel, Carries cfg segments i →
        2 ≤ (laneBytes cfg segments i).length ∧
          (laneBytes cfg segments i).length ≤ cfg.bufSize := by
  have hempty := nil_mem_laneContents_iff h
  unfold rdmaResult
  by_cases hmem : [] ∈ laneContents cfg key layer objects
  ·
    rw [if_pos hmem]
    obtain ⟨i, hi, hc, hnil⟩ := hempty.mp hmem
    refine iff_of_false ?_ fun hall => ?_
    · rintro ⟨_, hr, -⟩
      cases hr
    obtain ⟨hlow, hhigh⟩ := hall i hi hc
    rcases hnil with hnil | hlt
    · rw [hnil] at hlow
      cases hlow
    · omega
  · have hcontents : laneContents cfg key layer objects =
        (List.range cfg.parallel).map fun i => (cfg.partSegments segments i).flatten := by
      refine List.map_congr_left fun i hi => ?_
      rw [received_of_ne_nil fun hnil => hmem (List.mem_map.mpr ⟨i, hi, hnil⟩)]
      exact h.contentD (List.mem_range.mp hi)
    rw [if_neg hmem, hcontents, rdmaMerge_restores_iff hne]
    refine forall_congr' fun i => forall_congr' fun hi => forall_congr' fun hc => ?_
    obtain ⟨hne, hle⟩ := not_or.mp fun hnil => hmem (hempty.mpr ⟨i, hi, hc, hnil⟩)
    have := List.length_pos_iff.mpr hne
    omega

theorem grpcMerge_restores_iff (hne : segments.flatten ≠ []) {rechunk : Nat → List Bytes}
    (h : ∀ i < cfg.parallel, (rechunk i).flatten = (cfg.partSegments segments i).flatten) :
    Restores segments (grpcMerge cfg ((List.range cfg.parallel).map fun i => some (rechunk i))) ↔
      cfg.parallel = 1 ∨ ∀ i < cfg.parallel, Carries cfg segments i → [0] ∉ rechunk i := by
  have hparts : ((List.range cfg.parallel).map fun i => some (rechunk i)).filterMap id =
      (List.range cfg.parallel).map rechunk := by
    simp [List.filterMap_map]
  have hall : ((List.range cfg.parallel).map fun i => some (rechunk i)).all Option.isSome =
      true := by
    simp
  unfold grpcMerge
  rw [hall, hparts]
  simp only [Bool.not_true, Bool.false_eq_true, if_false]
  by_cases hN : cfg.parallel = 1
  ·
    have h0 := h 0 (by omega)
    rw [part_of_carries (.inl hN)] at h0
    simp only [laneBytes, if_pos hN] at h0
    rw [if_pos hN, restores_ite_iff hne]
    simp [hN, h0]
  · rw [if_neg hN, mergeParts, restores_ite_iff hne, flatten_filter_flatten, kept_flatten_iff]
    · rw [or_iff_right hN]
      refine forall_congr' fun i => forall_congr' fun hi => forall_congr' fun hc => ?_
      have hflat := h i hi
      rw [part_of_carries hc] at hflat
      rcases grpcKept_eq_or (rechunk i) with ⟨hnot, heq⟩ | ⟨hmem, hlt⟩
      · exact ⟨fun _ => hnot, fun _ => heq.trans hflat⟩
      · grind
    · intro i hi hc
      have hflat := h i hi
      rw [part_of_carries hc] at hflat
      rcases grpcKept_eq_or (rechunk i) with ⟨-, heq⟩ | ⟨-, hlt⟩
      · exact .inl (heq.trans hflat)
      · exact .inr (hflat ▸ hlt)
    · intro i hi hc
      exact grpcKept_sentinel ((h i hi).trans (part_of_not_carries hc).1)

/-! ## 走り -/

variable {t : KvHist}

theorem putChunks_stores {xs : List KvChoice} {w w' : KvWorld}
    (h : (putChunks cfg key layer segments).perform (KvWorld.exec cfg) xs w [] =
      some (w', t, .ok ())) : Stored cfg key layer segments w'.objects := by
  let I : KvWorld → KvHist → Prop := fun w t => ∀ i < cfg.parallel,
    Wrote cfg key layer segments t i → (w.objects (cfg.laneKey key layer i)).map KvObject.content =
      some (cfg.partSegments segments i).flatten
  have hrun := Prog.perform_induct (I := I) ?_ (putChunks_conforms []) ?_ h
  · intro i hi
    exact hrun.1 i hi (hrun.2 rfl i hi)
  · intro c x w w' r t hw hexec ih i hi hwrote
    rcases KvWorld.exec_cases hexec hw.1 with ⟨hobj, hcommit⟩ | ⟨okey, content, hwritten, hobj⟩
    · rw [hobj]
      obtain ⟨e, he, hc⟩ := hwrote
      rcases List.mem_cons.mp he with rfl | he
      · rw [hcommit] at hc
        cases hc
      · exact ih i hi ⟨e, he, hc⟩
    ·
      rw [hobj]
      by_cases hkey : cfg.laneKey key layer i = okey
      · obtain ⟨j, hj, rfl, rfl⟩ := hw.2 okey content hwritten
        obtain ⟨-, -, rfl⟩ := KvConfig.laneKey_inj hi hj hkey
        simp
      · rw [KvWorld.put_objects_of_ne _ hkey]
        refine ih i hi ?_
        obtain ⟨e, he, hc⟩ := hwrote
        rcases List.mem_cons.mp he with rfl | he
        · rw [written_of_committed hc] at hwritten
          exact absurd (congrArg Prod.fst (Option.some.inj hwritten)) hkey
        · exact ⟨e, he, hc⟩
  · rintro i hi ⟨e, he, -⟩
    cases he

theorem getChunks_agrees {ys : List KvChoice} {w w' : KvWorld}
    {r : Option (List Bytes)}
    (h : (getChunks cfg key layer).perform (KvWorld.exec cfg) ys w [] = some (w', t, .ok r)) :
    w'.objects = w.objects ∧ (∀ e ∈ t, Agrees cfg w.objects e) ∧
      GetPost cfg key layer w.objects t (.ok r) := by
  let I : KvWorld → KvHist → Prop := fun w' t =>
    w'.objects = w.objects ∧ ∀ e ∈ t, Agrees cfg w.objects e
  have hrun := Prog.perform_induct (I := I) ?_ (getChunks_conforms w.objects) ?_ h
  · exact ⟨hrun.1.1, hrun.1.2, hrun.2⟩
  · intro c x w₁ w₂ r t hreads hexec ⟨hobj, hagree⟩
    have hnew := KvWorld.exec_agrees hexec
    rw [hobj] at hnew
    refine ⟨?_, fun e he => ?_⟩
    · rcases KvWorld.exec_cases hexec hreads.2.1 with ⟨hsame, -⟩ | ⟨okey, content, hwritten, -⟩
      · exact hsame.trans hobj
      · rw [hreads.1] at hwritten
        cases hwritten
    · grind
  · exact ⟨rfl, fun e he => (List.not_mem_nil he).elim⟩

def Served (rechunk : String → List Bytes) (t : KvHist) : Prop :=
  ∀ okey reply, (⟨.getStream okey, reply⟩ : Event KvCmd KvCmd.Resp) ∈ t →
    reply = .ok (some (rechunk okey))

variable {parts : List (Option (List Bytes))}

theorem exists_rechunk
    (h : List.Forall₂ (fun i part => Replied t (cfg.laneKey key layer i) part)
      (List.range cfg.parallel) parts) (hall : parts.all Option.isSome = true) :
    ∃ rechunk : Nat → List Bytes,
      parts = (List.range cfg.parallel).map (fun i => some (rechunk i)) ∧
      ∀ i < cfg.parallel, (⟨.getStream (cfg.laneKey key layer i), .ok (some (rechunk i))⟩ :
        Event KvCmd KvCmd.Resp) ∈ t := by
  have hlen := h.length_eq
  rw [List.length_range] at hlen
  have hsome : ∀ (i : Nat) (hi : i < parts.length), parts[i] = some ((parts[i]).getD []) := by
    intro i hi
    have := List.all_eq_true.mp hall _ (List.getElem_mem hi)
    obtain ⟨cs, hcs⟩ := Option.isSome_iff_exists.mp this
    rw [hcs]
    rfl
  refine ⟨fun i => (parts[i]?.getD none).getD [], ?_, fun i hi => ?_⟩
  · refine List.ext_getElem (by simp [hlen]) fun i hi _ => ?_
    simpa [List.getElem?_eq_getElem hi] using hsome i hi
  · have hi' : i < parts.length := hlen ▸ hi
    have hget := List.Forall₂.get h (by rwa [List.length_range]) hi'
    simp only [List.get_eq_getElem, List.getElem_range] at hget
    rw [hsome i hi'] at hget
    rcases hget with hmem | ⟨hnone, -⟩
    · simpa [List.getElem?_eq_getElem hi'] using hmem
    · cases hnone

end Kv

end ContextStore
