import ContextStore.Conc.Transition
import ContextStore.Connector.Scheduler

/-!
# vLLM connector: LOAD の指示と、蓄えてある object

connector の呼び出しと、どこかの worker の STORE を、任意の順に並べた走り。
-/

namespace ContextStore

namespace Connector

open Conc

/-! ## 走り -/

/-- 走りの状態。 -/
structure Serving where
  sched : Sched
  objects : List (String × String)
  stored : List (List Nat)
  asked : List (List Nat)
  known : List (List Nat)
  issued : List (List Nat × Spec)

/-- 1 手。 -/
inductive ServeStep where
  | store (tokens : List Nat) (rank part : Nat)
  | matchTokens (request : Request) (numComputedTokens : Nat)
      (seen : Option (List (String × String)))
  | alloc (request : Request) (blocks : List (List Nat)) (numExternalTokens : Nat)
  | build (out : SchedulerOutput)
  | finish (request : Request) (blockIds : List Nat)

namespace Serving

def initial : Serving := ⟨.initial, [], [], [], [], []⟩

variable (c : Config)

def answers (seen : List (String × String)) (key layer : String) : Bool :=
  decide ((key, layer) ∈ seen)

def emits (s : Sched) : List (List Nat × Spec) :=
  s.pendingLoads.filterMap fun (reqId, p) =>
    (s.loadSpec c reqId p).map fun spec => (p.request.promptTokenIds, spec)

def step (s : Serving) : ServeStep → Option Serving
  | .store tokens rank part =>
    let full := c.fullCacheable tokens
    if full = 0 then none
    else some { s with
      objects := (c.prefixKey tokens full,
        c.partLayer (c.layerName (full / c.blockSize) rank) part) :: s.objects
      stored := tokens.take full :: s.stored }
  | .matchTokens request numComputed seen =>
    if (seen.getD []).all (fun object => decide (object ∈ s.objects)) then
      let tokens := request.promptTokenIds
      let probe := seen.map answers
      let full := tokens.take (c.fullCacheable tokens)
      let hit := s.sched.wantsProbe c tokens && Sched.probeFound c tokens probe
      some { s with
        sched := (s.sched.getNumNewMatchedTokens c request numComputed probe).1
        asked := full :: s.asked
        known := if hit then full :: s.known else s.known }
    else none
  | .alloc request blocks numExternal =>
    some { s with sched := s.sched.updateStateAfterAlloc request blocks numExternal }
  | .build out =>
    some { s with
      sched := (s.sched.buildConnectorMeta c out).1
      issued := emits c s.sched ++ s.issued }
  | .finish request ids =>
    some { s with sched := (s.sched.requestFinished request ids).1 }

def system : Transition Serving ServeStep := ⟨initial, step c⟩

/-! ## 条件 -/

def wholeCut (s : Serving) : Bool :=
  s.sched.pendingLoads.all fun (_, p) =>
    let tokens := p.request.promptTokenIds
    let n := min (agreement c s.known tokens) p.blockIds.length
    n == 0 || decide (tokens.take (n * c.blockSize) ∈ s.known)

def CutWhole (s : Serving) : ServeStep → Prop
  | .build _ => s.wholeCut c = true
  | _ => True

/-! ## 不変条件 -/

def NoCollision (s : Serving) : Prop :=
  ∀ ts ∈ s.stored, ∀ ts' ∈ s.asked,
    c.digest (c.payload ts) = c.digest (c.payload ts') → c.payload ts = c.payload ts'

def Named (s : Serving) (tokens : List Nat) (spec : Spec) : Prop :=
  ∃ ts ∈ s.stored, ts = tokens.take spec.numTokens ∧ spec.numTokens = ts.length ∧
    spec.prefixKey = c.prefixKey ts ts.length ∧
    spec.gpuBlockIds.length * c.blockSize = ts.length ∧
    ∃ rank part, (spec.prefixKey, c.partLayer (c.layerName spec.gpuBlockIds.length rank) part) ∈
      s.objects

structure Known (s : Serving) : Prop where
  indexes : Indexes c s.sched.index s.known
  objects : ∀ key layer, (key, layer) ∈ s.objects → ∃ ts ∈ s.stored, key = c.prefixKey ts ts.length
  whole : ∀ ts ∈ s.stored, ∃ n, ts.length = n * c.blockSize ∧ ∃ rank part,
    (c.prefixKey ts ts.length, c.partLayer (c.layerName n rank) part) ∈ s.objects
  known : ∀ r ∈ s.known, r ∈ s.stored
  issued : ∀ x ∈ s.issued, Named c s x.1 x.2

variable {c} {s s' : Serving}

theorem length_take_fullCacheable (tokens : List Nat) :
    (tokens.take (c.fullCacheable tokens)).length = c.fullCacheable tokens := by
  rw [List.length_take]
  exact Nat.min_eq_left (Nat.div_mul_le_self _ _)

theorem prefixKey_take (tokens : List Nat) (n : Nat) :
    c.prefixKey (tokens.take n) (tokens.take n).length = c.prefixKey tokens n := by
  unfold Config.prefixKey
  rw [List.take_length]

theorem prefixKey_length (ts : List Nat) : c.prefixKey ts ts.length = c.digest (c.payload ts) := by
  unfold Config.prefixKey
  rw [List.take_length]

theorem NoCollision.before {e : ServeStep} (hs : s.step c e = some s')
    (h : s'.NoCollision c) : s.NoCollision c := by
  intro ts hts ts' hts'
  cases e with
  | store tokens rank part =>
    unfold step at hs
    dsimp only at hs
    split at hs
    · cases hs
    · cases hs
      exact h ts (List.mem_cons_of_mem _ hts) ts' hts'
  | matchTokens request numComputed seen =>
    unfold step at hs
    dsimp only at hs
    split at hs
    · cases hs
      exact h ts hts ts' (List.mem_cons_of_mem _ hts')
    · cases hs
  | alloc request blocks numExternal => cases hs; exact h ts hts ts' hts'
  | build out => cases hs; exact h ts hts ts' hts'
  | finish request ids => cases hs; exact h ts hts ts' hts'

variable {tokens : List Nat}

theorem Named.mono {spec : Spec} (h : Named c s tokens spec)
    (hstored : s.stored ⊆ s'.stored) (hobjects : s.objects ⊆ s'.objects) :
    Named c s' tokens spec := by
  obtain ⟨ts, hts, h₁, h₂, h₃, h₄, rank, part, hobj⟩ := h
  exact ⟨ts, hstored hts, h₁, h₂, h₃, h₄, rank, part, hobjects hobj⟩

theorem Known.of_probe (h : Known c s) {seen : Option (List (String × String))}
    (hseen : (seen.getD []).all (fun object => decide (object ∈ s.objects)) = true)
    (hcoll : ∀ ts ∈ s.stored, c.digest (c.payload ts) =
      c.digest (c.payload (tokens.take (c.fullCacheable tokens))) →
      c.payload ts = c.payload (tokens.take (c.fullCacheable tokens)))
    (hfound : Sched.probeFound c tokens (seen.map answers) = true) :
    tokens.take (c.fullCacheable tokens) ∈ s.stored := by
  cases seen with
  | none => cases hfound
  | some seen =>
    have hrank : 0 ∈ c.ranks := List.mem_range.mpr (by omega)
    have hanswer := List.all_eq_true.mp hfound _ (List.mem_map_of_mem hrank)
    have hobject := List.all_eq_true.mp hseen _ (of_decide_eq_true hanswer)
    obtain ⟨ts, hts, hkey⟩ := h.objects _ _ (of_decide_eq_true hobject)
    rw [prefixKey_length] at hkey
    rw [← payload_inj (hcoll ts hts hkey.symm)]
    exact hts

theorem Known.named_of_wholeCut (h : Known c s) (hcut : s.wholeCut c = true) {spec : Spec}
    (hmem : (tokens, spec) ∈ emits c s.sched) :
    Named c s tokens spec := by
  obtain ⟨⟨reqId, p⟩, hp, hspec⟩ := List.mem_filterMap.mp hmem
  obtain ⟨spec', hload, heq⟩ := Option.map_eq_some_iff.mp hspec
  cases heq
  obtain ⟨n, hn, hmin, rfl⟩ := Sched.loadSpec_eq_some hload
  rw [h.indexes.lookupPrefix_eq, Nat.mul_div_cancel _ c.blockSize_pos] at hmin
  have hwhole := List.all_eq_true.mp hcut _ hp
  dsimp only at hwhole
  rw [← hmin] at hwhole
  have hknown : p.request.promptTokenIds.take (n * c.blockSize) ∈ s.known := by
    simpa [Nat.pos_iff_ne_zero.mp hn] using hwhole
  have hstored := h.known _ hknown
  obtain ⟨k, hlen, rank, part, hobj⟩ := h.whole _ hstored
  have hfit : n * c.blockSize ≤ p.request.promptTokenIds.length := by
    have hle : agreement c s.known p.request.promptTokenIds ≤
        p.request.promptTokenIds.length / c.blockSize := by
      rcases Nat.eq_zero_or_pos (agreement c s.known p.request.promptTokenIds) with h₀ | hpos
      · omega
      · obtain ⟨q, -, hq⟩ := (le_longestCommon_iff hpos).mp le_rfl
        exact (le_commonLength_iff.mp hq).1.trans (le_of_eq Config.length_blocks)
    calc n * c.blockSize ≤ p.request.promptTokenIds.length / c.blockSize * c.blockSize :=
          Nat.mul_le_mul_right _ (by omega)
      _ ≤ _ := Nat.div_mul_le_self _ _
  have hlength : (p.request.promptTokenIds.take (n * c.blockSize)).length = n * c.blockSize := by
    rw [List.length_take, Nat.min_eq_left hfit]
  have hids : (p.blockIds.take n).length = n := by
    rw [List.length_take]
    omega
  have hkn : k = n := by
    rw [hlength] at hlen
    exact (Nat.mul_right_cancel c.blockSize_pos hlen).symm
  subst hkn
  refine ⟨_, hstored, rfl, hlength.symm, (prefixKey_take _ _).symm, ?_, rank, part, ?_⟩
  · rw [hids, hlength]
  · rw [hids, ← prefixKey_take]
    exact hobj

theorem Known.initial : Known c .initial where
  indexes := .empty
  objects := nofun
  whole := nofun
  known := nofun
  issued := nofun

theorem Known.step (h : Known c s) {e : ServeStep} (hP : CutWhole c s e)
    (hcoll : s'.NoCollision c) (hs : s.step c e = some s') : Known c s' := by
  cases e with
  | store tokens rank part =>
    unfold Serving.step at hs
    dsimp only at hs
    split at hs
    · cases hs
    cases hs
    have hkey := prefixKey_take (c := c) tokens (c.fullCacheable tokens)
    refine ⟨h.indexes, ?_, ?_, fun r hr => List.mem_cons_of_mem _ (h.known r hr), fun x hx =>
      (h.issued x hx).mono (List.subset_cons_self _ _) (List.subset_cons_self _ _)⟩
    · intro key layer hmem
      rcases List.mem_cons.mp hmem with heq | hmem
      · cases heq
        exact ⟨_, List.mem_cons_self, hkey.symm⟩
      · obtain ⟨ts, hts, heq⟩ := h.objects key layer hmem
        exact ⟨ts, List.mem_cons_of_mem _ hts, heq⟩
    · intro ts hts
      rcases List.mem_cons.mp hts with rfl | hts
      · have hblocks : c.fullCacheable tokens / c.blockSize = tokens.length / c.blockSize :=
          Nat.mul_div_cancel _ c.blockSize_pos
        refine ⟨tokens.length / c.blockSize, length_take_fullCacheable tokens, rank, part, ?_⟩
        rw [hkey, ← hblocks]
        exact List.mem_cons_self
      · obtain ⟨n, hlen, rank', part', hobj⟩ := h.whole ts hts
        exact ⟨n, hlen, rank', part', List.mem_cons_of_mem _ hobj⟩
  | matchTokens request numComputed seen =>
    unfold Serving.step at hs
    dsimp only at hs
    split at hs
    next hseen =>
      cases hs
      have hsched : ∀ R, Indexes c (s.sched.matchPrefix c request.promptTokenIds
          (seen.map answers)).1 R → Indexes c
          (s.sched.getNumNewMatchedTokens c request numComputed (seen.map answers)).1.index R :=
        fun _ h => h
      refine ⟨hsched _ ?_, h.objects, h.whole, ?_, h.issued⟩
      · unfold Sched.matchPrefix
        split
        · exact h.indexes.registerPrefix le_rfl
        · exact h.indexes
      · intro r hr
        split at hr
        next hhit =>
          rcases List.mem_cons.mp hr with rfl | hr
          · refine h.of_probe hseen (fun ts hts => hcoll ts hts _ List.mem_cons_self) ?_
            exact (Bool.and_eq_true_iff.mp hhit).2
          · exact h.known r hr
        · exact h.known r hr
    · cases hs
  | alloc request blocks numExternal =>
    cases hs
    refine ⟨?_, h.objects, h.whole, h.known, h.issued⟩
    show Indexes c (s.sched.updateStateAfterAlloc request blocks numExternal).index s.known
    unfold Sched.updateStateAfterAlloc
    split <;> exact h.indexes
  | build out =>
    cases hs
    refine ⟨?_, h.objects, h.whole, h.known, fun x hx => ?_⟩
    · show Indexes c (s.sched.track out).index s.known
      rw [Sched.index_track]
      exact h.indexes
    · rcases List.mem_append.mp hx with hx | hx
      · exact h.named_of_wholeCut hP hx
      · exact h.issued x hx
  | finish request ids =>
    cases hs
    refine ⟨?_, h.objects, h.whole, h.known, h.issued⟩
    show Indexes c (s.sched.requestFinished request ids).1.index s.known
    unfold Sched.requestFinished
    dsimp only
    split <;> exact h.indexes

theorem load_specs_stored (h : (system c).Reach (CutWhole c) s) (hcoll : s.NoCollision c)
    {tokens : List Nat} {spec : Spec} (hissued : (tokens, spec) ∈ s.issued) :
    Named c s tokens spec := by
  have hknown : s.NoCollision c → Known c s :=
    Transition.Reach.invariant (I := fun s => s.NoCollision c → Known c s)
      (fun _ => Known.initial)
      (fun _ _ _ _ hP ih hs hcoll => (ih (hcoll.before hs)).step hP hcoll hs) h
  exact (hknown hcoll).issued _ hissued

theorem noCollision_sample (s : Serving) : s.NoCollision sampleConfig :=
  fun ts _ ts' _ h => sampleDigest_injOn ⟨ts, rfl⟩ ⟨ts', rfl⟩ h

def forkedRequest : Request := ⟨"b", [1, 2, 8, 9]⟩

def storeAndProbe : List ServeStep :=
  [.store [1, 2, 3, 4] 0 0,
    .matchTokens longRequest 0 (some [(sampleDigest "m:1,2,3,4", "blocks_2")])]

def allocAndBuild (request : Request) (ids : List Nat) : List ServeStep :=
  [.alloc request [ids] 4, .build ⟨[], [], [], []⟩]

theorem load_specs_stored_whole :
    ∃ s : Serving, (system sampleConfig).Reach (CutWhole sampleConfig) s ∧
      ∃ spec, (longRequest.promptTokenIds, spec) ∈ s.issued ∧
        Named sampleConfig s longRequest.promptTokenIds spec := by
  obtain ⟨s, hs, hcheck⟩ := Transition.Reach.exists_of_play (T := system sampleConfig)
    (P := CutWhole sampleConfig) (fun s _ => s.wholeCut sampleConfig)
    (fun s e h => by cases e <;> trivial)
    (storeAndProbe ++ allocAndBuild longRequest [7, 8, 9])
    (fun s => s.issued.any fun x => x.1 == longRequest.promptTokenIds) (by decide +kernel)
  obtain ⟨⟨tokens, spec⟩, hmem, heq⟩ := List.any_eq_true.mp hcheck
  cases beq_iff_eq.mp heq
  exact ⟨s, hs, spec, hmem, load_specs_stored hs (noCollision_sample s) hmem⟩

theorem load_spec_missing :
    ∃ s : Serving, (system sampleConfig).Reach (fun _ _ => True) s ∧ s.NoCollision sampleConfig ∧
      ∃ x ∈ s.issued, ¬ Named sampleConfig s x.1 x.2 := by
  obtain ⟨s, hs, hcheck⟩ := Transition.Reach.exists_of_play (T := system sampleConfig)
    (P := fun _ _ => True) (fun _ _ => true) (fun _ _ _ => trivial)
    (storeAndProbe ++ .matchTokens forkedRequest 0 (some []) :: allocAndBuild forkedRequest [7, 8])
    (fun s => s.issued.any fun x => decide (x.1.take x.2.numTokens ∉ s.stored)) (by decide +kernel)
  refine ⟨s, hs, noCollision_sample s, ?_⟩
  obtain ⟨x, hmem, hnot⟩ := List.any_eq_true.mp hcheck
  refine ⟨x, hmem, ?_⟩
  rintro ⟨ts, hts, rfl, -⟩
  exact of_decide_eq_true hnot hts

end Serving

end Connector

end ContextStore
