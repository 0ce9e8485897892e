import ContextStore.Backend.KvService
import ContextStore.Conc.Perform

/-!
# lane の読み書きの規約

`put_chunks` と `get_chunks` が出す命令と、その結果が履歴からどう決まるかを述べる。
-/

namespace ContextStore

open Conc

/-! ## 名前 -/

theorem encodeObjectKey_inj {key key' layer layer' : String}
    (h : encodeObjectKey key layer = encodeObjectKey key' layer') :
    key = key' ∧ layer = layer' := by
  have hkey : (⟨key, layer⟩ : ObjectKey).toStringKey = (⟨key', layer'⟩ : ObjectKey).toStringKey := h
  have := ObjectKey.toStringKey_inj hkey
  simp_all

namespace KvConfig

variable {cfg : KvConfig}

theorem partLayer_inj (hN : cfg.parallel ≠ 1) {layer layer' : String} {i i' : Nat}
    (h : cfg.partLayer layer i = cfg.partLayer layer' i') : layer = layer' ∧ i = i' := by
  simp only [partLayer, if_neg hN] at h
  have h := congrArg String.toList h
  simp only [String.toList_append] at h
  have h := List.append_cancel_right (List.append_cancel_right h)
  have hsplit : ∀ (l : String) (n : Nat), l.toList ++ "_p".toList ++ (toString n).toList =
      (l.toList ++ ['_']) ++ 'p' :: (toString n).toList := by
    intro l n
    simp
  rw [hsplit, hsplit] at h
  obtain ⟨hl, hi⟩ := ShardRouter.append_sep_inj (ShardRouter.notMem_toString_nat (by decide) i)
    (ShardRouter.notMem_toString_nat (by decide) i') h
  exact ⟨String.toList_inj.mp (List.append_cancel_right hl), ShardRouter.toString_nat_inj hi⟩

theorem laneKey_inj {key key' layer layer' : String} {i i' : Nat} (hi : i < cfg.parallel)
    (hi' : i' < cfg.parallel) (h : cfg.laneKey key layer i = cfg.laneKey key' layer' i') :
    key = key' ∧ layer = layer' ∧ i = i' := by
  obtain ⟨hkey, hlayer⟩ := encodeObjectKey_inj h
  by_cases hN : cfg.parallel = 1
  · simp_all [partLayer]
  · obtain ⟨hl, hi⟩ := partLayer_inj hN hlayer
    exact ⟨hkey, hl, hi⟩

end KvConfig

def KvCmd.written : KvCmd → Option (String × Bytes)
  | .rdmaPut okey segments => some (okey, segments.flatten)
  | .putStream okey segments => some (okey, segments.flatten)
  | _ => none

def KvCmd.target : KvCmd → Option String
  | .lookup okey => some okey
  | .getDescriptor okey _ => some okey
  | .rdmaGet okey => some okey
  | .getStream okey => some okey
  | _ => none

def KvCmd.isDelete : KvCmd → Bool
  | .delete _ => true
  | _ => false

namespace Kv

def committed : Event KvCmd KvCmd.Resp → Option (String × Bytes)
  | ⟨.rdmaPut okey segments, .ok true⟩ => some (okey, segments.flatten)
  | ⟨.putStream okey segments, .ok true⟩ => some (okey, segments.flatten)
  | _ => none

theorem written_of_committed {c : KvCmd} {r : c.Resp} {p : String × Bytes}
    (h : committed ⟨c, r⟩ = some p) : c.written = some p := by
  cases c with
  | rdmaPut okey segments =>
    match r, h with
    | .ok true, h => exact h
  | putStream okey segments =>
    match r, h with
    | .ok true, h => exact h
  | _ => cases h

def Agrees (cfg : KvConfig) (objects : String → Option KvObject) : Event KvCmd KvCmd.Resp → Prop
  | ⟨.lookup okey, .ok (some d)⟩ => (objects okey).map KvObject.version = some d
  | ⟨.getDescriptor okey version, .ok data⟩ =>
    data = cfg.received (KvWorld.ofVersion objects okey version)
  | ⟨.rdmaGet okey, .ok data⟩ => data = cfg.received (KvWorld.contentD objects okey)
  | ⟨.getStream okey, .ok r⟩ => r.map List.flatten = (objects okey).map KvObject.content
  | _ => True

end Kv

namespace KvWorld

open Kv

variable {cfg : KvConfig} {c : KvCmd} {x : KvChoice} {w w' : KvWorld} {r : c.Resp}

@[simp] theorem put_objects_self (okey : String) (content : Bytes) :
    (w.put okey content).objects okey = some ⟨w.nextVersion, content⟩ := by
  simp [put]

theorem put_objects_of_ne {okey k : String} (content : Bytes) (h : k ≠ okey) :
    (w.put okey content).objects k = w.objects k := by
  simp [put, h]

theorem exec_cases (h : exec cfg c x w = some (w', r)) (hdel : c.isDelete = false) :
    (w'.objects = w.objects ∧ committed ⟨c, r⟩ = none) ∨
      ∃ okey content, c.written = some (okey, content) ∧
        w'.objects = (w.put okey content).objects := by
  cases c <;> cases x <;> (try simp only [exec] at h) <;> (repeat' split at h) <;> cases h
  all_goals first
    | exact .inl ⟨rfl, rfl⟩
    | exact .inr ⟨_, _, rfl, rfl⟩
    | cases hdel

theorem exec_isSome (h : exec cfg c x w = some (w', r)) (hdel : c.isDelete = false) {okey : String}
    (hsome : (w.objects okey).isSome) : (w'.objects okey).isSome := by
  rcases exec_cases h hdel with ⟨hobj, -⟩ | ⟨okey', content, -, hobj⟩
  · rw [hobj]
    exact hsome
  · rw [hobj]
    by_cases hkey : okey = okey'
    · rw [hkey, put_objects_self]
      rfl
    · rwa [put_objects_of_ne content hkey]

theorem exec_uncommitted (h : exec cfg c x w = some (w', r)) (hx : x.commits = false) :
    w'.objects = w.objects := by
  cases c <;> cases x <;> (try simp only [exec] at h) <;> (repeat' split at h) <;> cases h
  all_goals first
    | rfl
    | cases hx

theorem exec_agrees (h : exec cfg c x w = some (w', r)) : Agrees cfg w.objects ⟨c, r⟩ := by
  cases c with
  | lookup okey =>
    cases x <;> cases h <;> try trivial
    cases hobj : w.objects okey <;> simp [Agrees, hobj]
  | _ =>
    cases x <;> (try simp only [exec] at h) <;> (repeat' split at h) <;> cases h
    all_goals simp_all [Agrees]

theorem exec_rdmaDisabled (h : exec cfg c x w = some (w', r)) (hw : w.rdmaEnabled = false) :
    w'.rdmaEnabled = false ∧ (⟨c, r⟩ : Event KvCmd KvCmd.Resp) ≠ ⟨.rdmaEnabled, true⟩ := by
  cases c with
  | rdmaEnabled =>
    cases x <;> cases h
    refine ⟨hw, ?_⟩
    rw [hw]
    rintro ⟨⟩
  | _ =>
    cases x <;> (try simp only [exec] at h) <;> (repeat' split at h) <;> cases h
    all_goals exact ⟨by simp [put, erase, hw], by rintro ⟨⟩⟩

end KvWorld

namespace Kv

variable (cfg : KvConfig) (key layer : String)

def WritesLanes (segments : List Bytes) (c : KvCmd) : Prop :=
  c.isDelete = false ∧ ∀ okey content, c.written = some (okey, content) →
    ∃ i < cfg.parallel, okey = cfg.laneKey key layer i ∧
      content = (cfg.partSegments segments i).flatten

/-- `i` 番の lane が書けた。 -/
def Wrote (segments : List Bytes) (t : KvHist) (i : Nat) : Prop :=
  ∃ e ∈ t, committed e = some (cfg.laneKey key layer i, (cfg.partSegments segments i).flatten)

def PutConforms (segments : List Bytes) (t : KvHist) (p : KvIo (Except Unit Unit)) : Prop :=
  Conforms (fun _ c => WritesLanes cfg key layer segments c)
    (fun t' r => r = .ok () → ∀ i < cfg.parallel, Wrote cfg key layer segments t' i) t p

variable {cfg key layer} {segments : List Bytes}

variable {i : Nat}

theorem Wrote.mono {t t' : KvHist} (h : Wrote cfg key layer segments t i)
    (hs : t <:+ t') : Wrote cfg key layer segments t' i := by
  obtain ⟨e, he, hc⟩ := h
  exact ⟨e, hs.subset he, hc⟩

variable {c : KvCmd}

theorem WritesLanes.of_none (hw : c.written = none) (hd : c.isDelete = false) :
    WritesLanes cfg key layer segments c := by
  refine ⟨hd, fun okey content h => ?_⟩
  rw [hw] at h
  cases h

theorem writesLanes_lane (hi : i < cfg.parallel) (hd : c.isDelete = false)
    (hw : c.written = some (cfg.laneKey key layer i, (cfg.partSegments segments i).flatten)) :
    WritesLanes cfg key layer segments c := by
  refine ⟨hd, fun okey content h => ?_⟩
  rw [hw] at h
  cases h
  exact ⟨i, hi, rfl, rfl⟩

theorem issue_quiet (t : KvHist) (hw : c.written = none) (hd : c.isDelete = false) :
    Conforms (fun _ c => WritesLanes cfg key layer segments c) (fun _ _ => True) t (issue c) :=
  ⟨.of_none hw hd, fun _ => trivial⟩

theorem supportsRdmaPut_conforms (t : KvHist) :
    Conforms (fun _ c => WritesLanes cfg key layer segments c) (fun _ _ => True) t
      (supportsRdmaPut cfg) := by
  refine (issue_quiet t rfl rfl).bind fun t₁ enabled _ _ => ?_
  split
  · trivial
  · exact (issue_quiet t₁ rfl rfl).bind fun _ _ _ _ => trivial

theorem tryRdmaPut_conforms (hN : cfg.parallel = 1) (left : Nat) (t : KvHist) :
    Conforms (fun _ c => WritesLanes cfg key layer segments c)
      (fun t' done => done = true → Wrote cfg key layer segments t' 0) t
      (tryRdmaPut cfg (cfg.laneKey key layer 0) segments left) := by
  have hpart : cfg.partSegments segments 0 = segments := by
    simp [KvConfig.partSegments, hN]
  induction left generalizing t with
  | zero => exact nofun
  | succ left ih =>
    refine (supportsRdmaPut_conforms t).bind fun t₁ supports _ _ => ?_
    split
    · exact nofun
    · refine (issue_quiet t₁ rfl rfl).bind fun t₂ pool _ _ => ?_
      split
      · exact nofun
      · have hput : Conforms (fun _ c => WritesLanes cfg key layer segments c)
            (fun t' r => r = .ok true → Wrote cfg key layer segments t' 0) t₂
            (issue (.rdmaPut (cfg.laneKey key layer 0) segments)) := by
          refine ⟨writesLanes_lane (i := 0) (by omega) rfl (by rw [hpart]; rfl), ?_⟩
          rintro _ rfl
          exact ⟨_, List.mem_cons_self, by rw [hpart]; rfl⟩
        refine hput.bind fun t₃ reply _ hreply => ?_
        split
        next done =>
          rintro rfl
          exact hreply rfl
        · split
          · exact nofun
          · exact (issue_quiet t₃ rfl rfl).bind fun t₄ _ _ _ => ih t₄

theorem rdmaPutFirst_conforms (t : KvHist) :
    Conforms (fun _ c => WritesLanes cfg key layer segments c)
      (fun t' r => r = some (.ok ()) → ∀ i < cfg.parallel, Wrote cfg key layer segments t' i) t
      (rdmaPutFirst cfg (cfg.laneKey key layer 0) segments) := by
  unfold rdmaPutFirst
  split
  · exact nofun
  next hN =>
    rw [not_not] at hN
    refine (issue_quiet t rfl rfl).bind fun t₀ enabled _ _ => ?_
    split
    · exact nofun
    · split
      · exact nofun
      · refine (tryRdmaPut_conforms hN 2 t₀).bind fun t₁ done _ hdone => ?_
        split
        next hd =>
          intro _ i hi
          obtain rfl : i = 0 := by omega
          exact hdone hd
        · split
          · exact nofun
          · exact nofun

theorem putChunks_conforms (t : KvHist) :
    PutConforms cfg key layer segments t (putChunks cfg key layer segments) := by
  refine (rdmaPutFirst_conforms t).bind fun t₁ first _ hfirst => ?_
  split
  next r =>
    rintro rfl
    exact hfirst rfl
  · have hjoin : Conforms (fun _ c => WritesLanes cfg key layer segments c)
        (fun t' rs => True ∧ List.Forall₂ (fun i r => succeeded r = true →
          Wrote cfg key layer segments t' i) (List.range cfg.parallel) rs) t₁
        (joinAll pickLane ((List.range cfg.parallel).map fun i =>
          issue (.putStream (cfg.laneKey key layer i) (cfg.partSegments segments i)))) := by
      refine Conforms.joinAll (J := fun _ => True)
        (P := fun i t r => succeeded r = true → Wrote cfg key layer segments t i)
        (fun _ _ _ => ⟨.of_none rfl rfl, fun _ => trivial⟩)
        (fun i _ _ r hs _ _ h hr => (h hr).mono hs) trivial ?_
      intro i hi t₂ _
      refine ⟨writesLanes_lane (List.mem_range.mp hi) rfl rfl, fun r => ⟨trivial, fun hr => ?_⟩⟩
      refine ⟨_, List.mem_cons_self, ?_⟩
      match r, hr with
      | .ok true, _ => rfl
    · refine hjoin.bind fun t₂ rs _ h => ?_
      intro hok i hi
      split at hok
      next hall =>
        obtain ⟨r, hr, hP⟩ := Conforms.forall₂_mem_left h.2 (List.mem_range.mpr hi)
        exact hP (List.all_eq_true.mp hall r hr)
      · cases hok

variable (cfg key layer)

def ReadsLanes (c : KvCmd) : Prop :=
  c.written = none ∧ c.isDelete = false ∧ ∀ okey, c.target = some okey →
    ∃ i < cfg.parallel, okey = cfg.laneKey key layer i

def isGetStream : Event KvCmd KvCmd.Resp → Bool
  | ⟨.getStream _, _⟩ => true
  | _ => false

def NoStream (t : KvHist) : Prop := ∀ e ∈ t, isGetStream e = false

def laneContents (objects : String → Option KvObject) : List Bytes :=
  (List.range cfg.parallel).map fun i =>
    cfg.received (KvWorld.contentD objects (cfg.laneKey key layer i))

def rdmaResult (datas : List Bytes) : Option (List Bytes) :=
  if [] ∈ datas then none else rdmaMerge datas

def Replied (t : KvHist) (okey : String) (part : Option (List Bytes)) : Prop :=
  (⟨.getStream okey, .ok part⟩ : Event KvCmd KvCmd.Resp) ∈ t ∨
    part = none ∧ (⟨.getStream okey, .error ()⟩ : Event KvCmd KvCmd.Resp) ∈ t

def GetPost (objects : String → Option KvObject) (t : KvHist) :
    Except Unit (Option (List Bytes)) → Prop
  | .ok r => ((⟨.rdmaEnabled, true⟩ : Event KvCmd KvCmd.Resp) ∈ t ∧ NoStream t ∧
      ((∀ e ∈ t, Agrees cfg objects e) → r = rdmaResult (laneContents cfg key layer objects))) ∨
      ∃ parts, List.Forall₂ (fun i part => Replied t (cfg.laneKey key layer i) part)
        (List.range cfg.parallel) parts ∧ r = grpcMerge cfg parts
  | .error _ => (⟨.rdmaEnabled, true⟩ : Event KvCmd KvCmd.Resp) ∈ t ∧
      cfg.rdmaFallbackToGrpc = false

variable {cfg key layer} {objects : String → Option KvObject}

theorem Replied.mono {t t' : KvHist} {okey : String} {part : Option (List Bytes)}
    (h : Replied t okey part) (hs : t <:+ t') : Replied t' okey part :=
  h.imp (fun h => hs.subset h) fun h => ⟨h.1, hs.subset h.2⟩

variable {t : KvHist}

theorem NoStream.cons {e : Event KvCmd KvCmd.Resp} (h : NoStream t)
    (he : isGetStream e = false) : NoStream (e :: t) := by
  intro e' he'
  rcases List.mem_cons.mp he' with rfl | he'
  · exact he
  · exact h e' he'

theorem ReadsLanes.lane (hi : i < cfg.parallel) (hw : c.written = none)
    (hd : c.isDelete = false) (ht : c.target = some (cfg.laneKey key layer i)) :
    ReadsLanes cfg key layer c := by
  refine ⟨hw, hd, fun okey h => ⟨i, hi, ?_⟩⟩
  rw [ht] at h
  exact (Option.some.inj h).symm

theorem ReadsLanes.other (hw : c.written = none) (hd : c.isDelete = false)
    (ht : c.target = none) : ReadsLanes cfg key layer c := by
  refine ⟨hw, hd, fun okey h => ?_⟩
  rw [ht] at h
  cases h

theorem issue_read (hc : ReadsLanes cfg key layer c) (h : NoStream t)
    (hstream : ∀ r, isGetStream ⟨c, r⟩ = false) :
    Conforms (fun _ c => ReadsLanes cfg key layer c)
      (fun t' r => NoStream t' ∧ (⟨c, r⟩ : Event KvCmd KvCmd.Resp) ∈ t') t (issue c) :=
  ⟨hc, fun r => ⟨h.cons (hstream r), List.mem_cons_self⟩⟩

def ReadOne (cfg : KvConfig) (objects : String → Option KvObject) (okey : String) (t : KvHist)
    (r : Except Unit Bytes) : Prop :=
  (∀ e ∈ t, Agrees cfg objects e) →
    ∀ data, r = .ok data → data = cfg.received (KvWorld.contentD objects okey)

theorem ofVersion_eq_contentD {okey : String} {d : Nat}
    (h : (objects okey).map KvObject.version = some d) :
    cfg.received (KvWorld.ofVersion objects okey d) =
      cfg.received (KvWorld.contentD objects okey) := by
  obtain ⟨o, ho, rfl⟩ := Option.map_eq_some_iff.mp h
  simp [KvWorld.ofVersion, KvWorld.contentD, ho]

theorem lookupDescriptor_conforms (hi : i < cfg.parallel)
    (h : NoStream t) :
    Conforms (fun _ c => ReadsLanes cfg key layer c)
      (fun t' r => NoStream t' ∧ ∀ d, r = some d → (⟨.lookup (cfg.laneKey key layer i),
        .ok (some d)⟩ : Event KvCmd KvCmd.Resp) ∈ t') t
      (lookupDescriptor (cfg.laneKey key layer i)) := by
  refine (issue_read (.lane hi rfl rfl rfl) h fun _ => rfl).bind fun t₁ reply _ hreply => ?_
  split
  next d =>
    refine ⟨hreply.1, ?_⟩
    rintro d' rfl
    exact hreply.2
  · exact ⟨hreply.1, nofun⟩

theorem rdmaGetOne_conforms (hi : i < cfg.parallel) (h : NoStream t) :
    Conforms (fun _ c => ReadsLanes cfg key layer c)
      (fun t' r => NoStream t' ∧ ReadOne cfg objects (cfg.laneKey key layer i) t' r) t
      (rdmaGetOne cfg i (cfg.laneKey key layer i)) := by
  refine (lookupDescriptor_conforms hi h).bind fun t₁ found _ hfound => ?_
  split
  next d _ =>
    have hd := hfound.2 d rfl
    refine (issue_read (.lane hi rfl rfl rfl) hfound.1 fun _ => rfl).bind ?_
    intro t₂ reply hs hreply
    have hsame : ∀ t', t₂ <:+ t' → (∀ e ∈ t', Agrees cfg objects e) →
        (objects (cfg.laneKey key layer i)).map KvObject.version = some d := by
      intro t' hs' hagree
      exact hagree _ (hs'.subset (hs.subset hd))
    have hdata : ∀ t' data, t₂ <:+ t' → reply = .ok data → (∀ e ∈ t', Agrees cfg objects e) →
        data = cfg.received (KvWorld.contentD objects (cfg.laneKey key layer i)) := by
      rintro t' data hs' rfl hagree
      have := hagree _ (hs'.subset hreply.2)
      exact this.trans (ofVersion_eq_contentD (hsame t' hs' hagree))
    split
    · exact ⟨hreply.1, fun _ _ => nofun⟩
    · refine (lookupDescriptor_conforms hi hreply.1).bind fun t₃ again hs₃ hagain => ?_
      have hempty : ReadOne cfg objects (cfg.laneKey key layer i) t₃ (.ok []) := by
        rintro hagree _ ⟨⟩
        exact hdata t₃ [] hs₃ rfl hagree
      split
      next fresh =>
        split
        · refine (issue_read (.lane hi rfl rfl rfl) hagain.1 fun _ => rfl).weaken ?_
          rintro t₄ _ hs₄ ⟨hno, hmem⟩
          refine ⟨hno, ?_⟩
          rintro hagree data rfl
          have hfresh := hagree _ (hs₄.subset (hagain.2 fresh rfl))
          exact (hagree _ hmem).trans (ofVersion_eq_contentD hfresh)
        · exact ⟨hagain.1, hempty⟩
      · exact ⟨hagain.1, hempty⟩
    next data _ =>
      refine ⟨hreply.1, ?_⟩
      rintro hagree _ ⟨⟩
      exact hdata t₂ data (List.suffix_refl _) rfl hagree
  · refine (issue_read (.lane hi rfl rfl rfl) hfound.1 fun _ => rfl).weaken ?_
    rintro t₂ r _ ⟨hno, hmem⟩
    refine ⟨hno, ?_⟩
    rintro hagree data rfl
    exact hagree _ hmem

theorem verdict_eq {ι : Type} {D : ι → Bytes} {is : List ι} {results : List (Except Unit Bytes)}
    (h : List.Forall₂ (fun i r => ∀ data, r = .ok data → data = D i) is results) :
    (verdict results = .hit → results.filterMap Except.toOption = is.map D ∧ [] ∉ is.map D) ∧
      (verdict results = .miss → [] ∈ is.map D) := by
  induction h with
  | nil => exact ⟨fun _ => ⟨rfl, List.not_mem_nil⟩, nofun⟩
  | @cons i r is results hr _ ih =>
    cases r with
    | error e => exact ⟨nofun, nofun⟩
    | ok data =>
      have hdata := hr data rfl
      cases data with
      | nil => exact ⟨nofun, fun _ => by simp [← hdata]⟩
      | cons b bs =>
        refine ⟨fun hit => ?_, fun miss => ?_⟩
        · obtain ⟨hmap, hne⟩ := ih.1 hit
          have hhead : Except.toOption (.ok (b :: bs) : Except Unit Bytes) = some (b :: bs) := rfl
          grind
        · exact List.mem_cons_of_mem _ (ih.2 miss)

theorem getChunksRdma_conforms (objects : String → Option KvObject) (left : Nat)
    (h : NoStream t) :
    Conforms (fun _ c => ReadsLanes cfg key layer c)
      (fun t' r => NoStream t' ∧ ((∀ e ∈ t', Agrees cfg objects e) → ∀ x, r = .ok x →
        x = rdmaResult (laneContents cfg key layer objects))) t
      (getChunksRdma cfg key layer left) := by
  induction left generalizing t with
  | zero => exact ⟨h, fun _ => nofun⟩
  | succ left ih =>
    refine (issue_read (.other rfl rfl rfl) h fun _ => rfl).bind fun t₁ pool _ hpool => ?_
    split
    · exact ⟨hpool.1, fun _ _ => nofun⟩
    · have hjoin : Conforms (fun _ c => ReadsLanes cfg key layer c)
          (fun t' rs => NoStream t' ∧ List.Forall₂ (fun i r =>
            ReadOne cfg objects (cfg.laneKey key layer i) t' r) (List.range cfg.parallel) rs) t₁
          (joinAll pickLane ((List.range cfg.parallel).map fun i =>
            rdmaGetOne cfg i (cfg.laneKey key layer i))) := Conforms.joinAll
        (P := fun i t r => ReadOne cfg objects (cfg.laneKey key layer i) t r)
        (fun t _ ht => ⟨.other rfl rfl rfl, fun _ => ht.cons rfl⟩)
        (fun _ _ _ _ hs _ _ hP hagree => hP fun e he => hagree e (hs.subset he)) hpool.1
        (fun i hi t ht => rdmaGetOne_conforms (List.mem_range.mp hi) ht)
      refine hjoin.bind fun t₂ results _ ⟨hno, hresults⟩ => ?_
      have hverdict := fun hagree : ∀ e ∈ t₂, Agrees cfg objects e =>
        verdict_eq
          (D := fun i => cfg.received (KvWorld.contentD objects (cfg.laneKey key layer i)))
          (hresults.imp fun _ _ hP => hP hagree)
      split
      next hmiss =>
        refine ⟨hno, ?_⟩
        rintro hagree _ ⟨⟩
        exact (if_pos ((hverdict hagree).2 hmiss)).symm
      next hhit =>
        refine ⟨hno, ?_⟩
        rintro hagree _ ⟨⟩
        obtain ⟨hmap, hne⟩ := (hverdict hagree).1 hhit
        rw [hmap]
        exact (if_neg hne).symm
      · split
        · exact ⟨hno, fun _ _ => nofun⟩
        · refine (issue_read (.other rfl rfl rfl) hno fun _ => rfl).bind fun t₃ _ _ hreset => ?_
          exact ih hreset.1

theorem getOne_conforms (hi : i < cfg.parallel) :
    Conforms (fun _ c => ReadsLanes cfg key layer c)
      (fun t' part => Replied t' (cfg.laneKey key layer i) part) t
      (getOne (cfg.laneKey key layer i)) := by
  have hread : Conforms (fun _ c => ReadsLanes cfg key layer c)
      (fun t' r => (⟨.getStream (cfg.laneKey key layer i), r⟩ : Event KvCmd KvCmd.Resp) ∈ t') t
      (issue (.getStream (cfg.laneKey key layer i))) :=
    ⟨.lane hi rfl rfl rfl, fun _ => List.mem_cons_self⟩
  refine hread.bind fun t₁ reply _ hreply => ?_
  split
  · exact .inl hreply
  · exact .inr ⟨rfl, hreply⟩

theorem getChunksGrpc_conforms (t : KvHist) :
    Conforms (fun _ c => ReadsLanes cfg key layer c)
      (fun t' r => ∃ parts, List.Forall₂ (fun i part => Replied t' (cfg.laneKey key layer i) part)
        (List.range cfg.parallel) parts ∧ r = grpcMerge cfg parts) t
      (getChunksGrpc cfg key layer) := by
  have hjoin : Conforms (fun _ c => ReadsLanes cfg key layer c)
      (fun t' parts => True ∧ List.Forall₂ (fun i part => Replied t' (cfg.laneKey key layer i) part)
        (List.range cfg.parallel) parts) t
      (joinAll pickLane ((List.range cfg.parallel).map fun i =>
        getOne (cfg.laneKey key layer i))) := Conforms.joinAll (J := fun _ => True)
    (P := fun i t part => Replied t (cfg.laneKey key layer i) part)
    (fun _ _ _ => ⟨.other rfl rfl rfl, fun _ => trivial⟩)
    (fun _ _ _ _ hs _ _ hP => hP.mono hs) trivial
    (fun i hi t _ => (getOne_conforms (List.mem_range.mp hi)).weaken fun _ _ _ h => ⟨trivial, h⟩)
  exact hjoin.bind fun t₁ parts _ h => ⟨parts, h.2, rfl⟩

theorem getChunks_conforms (objects : String → Option KvObject) :
    Conforms (fun _ c => ReadsLanes cfg key layer c)
      (fun t r => GetPost cfg key layer objects t r) [] (getChunks cfg key layer) := by
  have hfirst : Conforms (fun _ c => ReadsLanes cfg key layer c)
      (fun t r => ∀ x, r = some x → GetPost cfg key layer objects t x) []
      (rdmaGetFirst cfg key layer) := by
    have hnil : NoStream [] := fun e he => (List.not_mem_nil he).elim
    refine (issue_read (.other rfl rfl rfl) hnil fun _ => rfl).bind fun t₁ enabled _ h₁ => ?_
    split
    · exact fun _ => nofun
    next hen =>
      rw [Bool.not_eq_true, Bool.not_eq_false'] at hen
      rw [hen] at h₁
      refine (getChunksRdma_conforms objects 2 h₁.1).bind fun t₂ r hs h₂ => ?_
      split
      · rintro _ ⟨⟩
        exact .inl ⟨hs.subset h₁.2, h₂.1, fun hagree => h₂.2 hagree _ rfl⟩
      · split
        · exact fun _ => nofun
        next hfallback =>
          rintro _ ⟨⟩
          exact ⟨hs.subset h₁.2, Bool.not_eq_true _ ▸ hfallback⟩
  refine hfirst.bind fun t₁ first _ h₁ => ?_
  split
  · exact h₁ _ rfl
  · exact (getChunksGrpc_conforms t₁).bind fun _ _ _ h₂ => .inr h₂

end Kv

end ContextStore
