import ContextStore.Backend.CachedClient
import ContextStore.Paths
import Mathlib.Data.List.MinMax

/-!
# 覚えた descriptor での読み出しは新しい
-/

namespace ContextStore

open Conc Client

namespace Cached

section
variable {ν : Type} (E : Env ν) (F : Files) (Known : ObjectKey → BlockMeta → Prop)

/-! ## 仮定 -/

def stripeIds (cs : List ChunkLocation) : List (Nat × String × String) :=
  cs.map fun c => (c.stripeIndex, c.nodeId, c.storageHandle)

def readStripes (cs : List ChunkLocation) : Option (List (Nat × Bytes)) :=
  cs.mapM fun c => (F.file c.nodeId c.storageHandle).map fun data => (c.stripeIndex, data)

def inOrder (indexed : List (Nat × Bytes)) : Bytes :=
  (List.range ((indexed.map Prod.fst).foldr max 0 + 1)).flatMap fun i =>
    (indexed.filter fun e => e.1 = i).flatMap Prod.snd

theorem orderedInsert_append {e : Nat × Bytes} {low high : List (Nat × Bytes)}
    (hlow : ∀ x ∈ low, x.1 < e.1) (hhigh : ∀ x ∈ high, e.1 ≤ x.1) :
    (low ++ high).orderedInsert (fun a b => a.1 ≤ b.1) e = low ++ e :: high := by
  induction low with
  | nil =>
    cases high with
    | nil => rfl
    | cons x high => exact if_pos (hhigh x List.mem_cons_self)
  | cons x low ih =>
    obtain ⟨hx, hlow⟩ := List.forall_mem_cons.mp hlow
    rw [List.cons_append, List.orderedInsert_cons, if_neg (by omega), ih hlow, List.cons_append]

theorem insertionSort_eq_flatMap {N : Nat} {indexed : List (Nat × Bytes)}
    (h : ∀ e ∈ indexed, e.1 < N) :
    indexed.insertionSort (fun a b => a.1 ≤ b.1) =
      (List.range N).flatMap fun i => indexed.filter fun e => e.1 = i := by
  induction indexed with
  | nil => simp
  | cons e indexed ih =>
    obtain ⟨he, h⟩ := List.forall_mem_cons.mp h
    obtain ⟨k, rfl⟩ := Nat.exists_eq_add_of_lt he
    have hrange : List.range (e.1 + k + 1) = List.range e.1 ++ e.1 :: List.range' (e.1 + 1) k := by
      rw [← List.range'_succ, List.range_eq_range', List.range_eq_range', Nat.add_assoc,
        ← List.range'_append_1, Nat.zero_add]
    have hsame : ∀ l : List Nat, e.1 ∉ l →
        (l.flatMap fun i => (e :: indexed).filter fun x => x.1 = i) =
          l.flatMap fun i => indexed.filter fun x => x.1 = i := by
      intro l hl
      refine List.flatMap_congr fun i hi => List.filter_cons_of_neg ?_
      rw [decide_eq_true_eq]
      rintro rfl
      exact hl hi
    have hkey : ∀ (l : List Nat) x, x ∈ (l.flatMap fun i => indexed.filter fun x => x.1 = i) →
        x.1 ∈ l := by
      intro l x hx
      obtain ⟨i, hi, hx⟩ := List.mem_flatMap.mp hx
      exact of_decide_eq_true (List.mem_filter.mp hx).2 ▸ hi
    rw [List.insertionSort_cons, ih h, hrange, List.flatMap_append, List.flatMap_append,
      hsame _ (by simp), List.flatMap_cons (f := fun i => (e :: indexed).filter fun x => x.1 = i),
      hsame _ (by simp), List.filter_cons_of_pos (by simp)]
    refine orderedInsert_append (fun x hx => List.mem_range.mp (hkey _ x hx)) fun x hx => ?_
    have hmem := hkey (e.1 :: List.range' (e.1 + 1) k) x hx
    rw [← List.range'_succ, List.mem_range'_1] at hmem
    exact hmem.1

theorem assemble_flatten (indexed : List (Nat × Bytes)) :
    (Client.assemble indexed).flatten = inOrder indexed := by
  have hlt : ∀ e ∈ indexed, e.1 < (indexed.map Prod.fst).foldr max 0 + 1 := fun e he =>
    Nat.lt_succ_of_le (List.le_max_of_le' 0 (List.mem_map_of_mem he) le_rfl)
  rw [Client.assemble, insertionSort_eq_flatMap hlt, ← List.flatMap_def, List.flatMap_assoc]
  rfl

structure Consistent : Prop where
  layout : ∀ n n' key m m', Known key m → Known key m' →
    (Placement.placementFromMeta E n key m).layoutHash =
      (Placement.placementFromMeta E n' key m').layoutHash →
    stripeIds (Placement.chunksFromMeta E n m) = stripeIds (Placement.chunksFromMeta E n' m')
  files : ∀ n key m indexed, Known key m →
    readStripes F (Placement.chunksFromMeta E n m) = some indexed →
    inOrder indexed = F.content key m

def Authentic (p : Placement) : Prop :=
  ∃ n key m, Known key m ∧ p = .fromPb (Placement.placementFromMeta E n key m)

def AuthenticOpt (p : Option Placement) : Prop := ∀ q, p = some q → Authentic E Known q

inductive ClientEnv where
  | record (key : ObjectKey) (m : Option BlockMeta)
  | cache (entries : List (String × LookupResult))

/-- 呼び出し。 -/
inductive ClientOp where
  | getCached (key : ObjectKey) (strict : Bool)
  | getStreamChunksCached (key : ObjectKey) (strict : Bool)

def ClientOp.key : ClientOp → ObjectKey
  | .getCached key _ => key
  | .getStreamChunksCached key _ => key

def ClientOp.strict : ClientOp → Bool
  | .getCached _ strict => strict
  | .getStreamChunksCached _ strict => strict

abbrev ClientAnswer := Except StatusCode (Option Bytes)

def ClientOp.prog : ClientOp → ClientIo ClientAnswer
  | .getCached key strict => Client.getCached key strict
  | .getStreamChunksCached key strict => do
    let r ← Client.getStreamChunksCached key strict
    pure (r.map fun found => found.map List.flatten)

def Honest : ClientEvent → Prop
  | ⟨.cachedLookup key, some r⟩ => r.descriptor.key = key ∧ AuthenticOpt E Known r.placement
  | ⟨.lookup key, .ok (some r)⟩ => r.descriptor.key = key ∧ AuthenticOpt E Known r.placement
  | ⟨.readByDescriptor _ _, .ok (some read)⟩ => AuthenticOpt E Known read.placement
  | ⟨.readStream _ _, .ok read⟩ => AuthenticOpt E Known read.placement
  | ⟨.readChunk _ _ c, .ok data⟩ => F.file c.nodeId c.storageHandle = some data
  | _ => True

/-- `data` の元になった応答。 -/
def Reads (key : ObjectKey) (data : Bytes) : ClientEvent → Prop
  | ⟨.readByDescriptor d _, .ok (some read)⟩ => d.key = key ∧ read.data = data
  | ⟨.readStream d _, .ok read⟩ => d.key = key ∧ read.chunks.flatten = data
  | ⟨.readChunk d p _, .ok _⟩ => d.key = key ∧ Authentic E Known p ∧
      ∃ indexed, readStripes F p.chunks = some indexed ∧ inOrder indexed = data
  | _ => False

def Missing (key : ObjectKey) : ClientEvent → Prop
  | ⟨.lookup k, .ok none⟩ => k = key
  | ⟨.readByDescriptor d _, .ok none⟩ => d.key = key
  | _ => False

end

variable {ν : Type} {E : Env ν} {F : Files} {Known : ObjectKey → BlockMeta → Prop}
variable {key : ObjectKey} {data : Bytes} {current : ObjectKey → Option BlockMeta}

variable {cs : List ChunkLocation}

variable {w w' : ClientWorld} {d : Descriptor} {p : Option Placement}

variable {q : Placement}

variable {c : ClientCmd}

abbrev HonestTrace (E : Env ν) (F : Files) (Known : ObjectKey → BlockMeta → Prop)
    (t : ClientHist) : Prop := ∀ e ∈ t, Honest E F Known e

def CacheGuard (E : Env ν) (F : Files) (Known : ObjectKey → BlockMeta → Prop) (t : ClientHist)
    (c : ClientCmd) : Prop :=
  ∀ d p, c = .cacheDescriptor d p → HonestTrace E F Known t → AuthenticOpt E Known p

variable {t : ClientHist}

theorem HonestTrace.suffix {t' : ClientHist} (h : HonestTrace E F Known t') (hs : t <:+ t') :
    HonestTrace E F Known t := fun e he => h e (hs.subset he)

def Answered (t : ClientHist) (cmds : List ClientCmd) (events : List ClientEvent) : Prop :=
  List.Forall₂ (fun c e => e.1 = c ∧ e ∈ t) cmds events

theorem gather_conforms {cmds : List ClientCmd}
    (hcmds : ∀ c ∈ cmds, ∀ d p, c ≠ .cacheDescriptor d p) (t : ClientHist) :
    Conforms (CacheGuard E F Known) (fun t' events => Answered t' cmds events) t (gather cmds) := by
  have hjoin : Conforms (CacheGuard E F Known) (fun t' events => True ∧
      List.Forall₂ (fun c (e : ClientEvent) => e.1 = c ∧ e ∈ t') cmds events) t (gather cmds) :=
    Conforms.joinAll (J := fun _ => True) (P := fun c t (e : ClientEvent) => e.1 = c ∧ e ∈ t)
      (fun _ _ _ => ⟨fun _ _ h => (by cases h), fun _ => trivial⟩)
      (fun _ _ _ _ hs _ _ h => ⟨h.1, hs.subset h.2⟩) trivial
      (fun c hc t _ => ⟨fun d p h => absurd h (hcmds c hc d p),
        fun r => ⟨trivial, rfl, List.mem_cons_self⟩⟩)
  exact hjoin.weaken fun _ _ _ h => h.2

structure ReadRule {α : Type} (E : Env ν) (F : Files) (Known : ObjectKey → BlockMeta → Prop)
    (kind : ReadKind α) (join : α → Bytes) : Prop where
  quiet : ∀ d p, ∀ c ∈ kind.commands d p, ∀ d' p', c ≠ .cacheDescriptor d' p'
  missing : ∀ {d p t events}, Answered t (kind.commands d p) events →
    kind.result d p events = .ok none → ∃ e ∈ t, Missing d.key e
  reads : ∀ {d p t events got}, Answered t (kind.commands d p) events →
    HonestTrace E F Known t → AuthenticOpt E Known p → kind.result d p events = .ok (some got) →
    (∃ e ∈ t, Reads E F Known d.key (join got.value) e) ∧ AuthenticOpt E Known got.placement

variable {events : List ClientEvent}

theorem Answered.singleton (h : Answered t [c] events) :
    ∃ r : c.Resp, events = [⟨c, r⟩] ∧ ⟨c, r⟩ ∈ t := by
  cases h with
  | @cons _ e _ _ hce hrest =>
    cases hrest
    grind

theorem objectRead_rule : ReadRule E F Known objectRead id where
  quiet d p c hc d' p' := by
    rw [List.mem_singleton.mp hc]
    nofun
  missing := by
    intro d p t events h hr
    obtain ⟨r, rfl, hmem⟩ := h.singleton
    match r, hr with
    | .ok none, _ => exact ⟨_, hmem, rfl⟩
  reads := by
    intro d p t events got h hhonest _ hr
    obtain ⟨r, rfl, hmem⟩ := h.singleton
    match r, hr with
    | .ok (some read), hr =>
      cases hr
      exact ⟨⟨_, hmem, rfl, rfl⟩, hhonest _ hmem⟩

theorem readStripes_of_pieces (hhonest : HonestTrace E F Known t) {indexed : List (Nat × Bytes)}
    (h : Answered t (cs.map (.readChunk d q)) events) (hr : events.mapM piece = .ok indexed) :
    readStripes F cs = some indexed := by
  induction cs generalizing events indexed with
  | nil =>
    cases h
    cases hr
    rfl
  | cons c cs ih =>
    cases h with
    | @cons _ e _ events hce hrest =>
      obtain ⟨c', r⟩ := e
      obtain ⟨rfl, hmem⟩ := hce
      have hfile := hhonest _ hmem
      rw [List.mapM_cons] at hr
      cases r with
      | error code => cases hr
      | ok data =>
        cases htail : events.mapM piece with
        | error code =>
          rw [htail] at hr
          cases hr
        | ok tail =>
          rw [htail] at hr
          cases hr
          have hfile : F.file c.nodeId c.storageHandle = some data := hfile
          have htail := ih hrest htail
          simp_all [readStripes]

theorem result_of_chunks {c c' : ChunkLocation} {r : Option (Got (List Bytes))}
    (h : Answered t ((c :: c' :: cs).map (.readChunk d q)) events)
    (hr : streamRead.result d p events = .ok r) :
    ∃ indexed, events.mapM piece = .ok indexed ∧ r = some ⟨Client.assemble indexed, d, p⟩ := by
  have hresult : streamRead.result d p events = (events.mapM piece).map
      fun indexed => some (⟨Client.assemble indexed, d, p⟩ : Got (List Bytes)) := by
    match events, h with
    | ⟨c₀, r₀⟩ :: e :: events, .cons hce _ =>
      obtain ⟨rfl, -⟩ := hce
      rfl
  rw [hresult] at hr
  cases hm : events.mapM piece with
  | error code =>
    rw [hm] at hr
    cases hr
  | ok indexed =>
    rw [hm] at hr
    cases hr
    exact ⟨indexed, rfl, rfl⟩

theorem first_chunk_of_pieces {c : ChunkLocation} {indexed : List (Nat × Bytes)}
    (h : Answered t ((c :: cs).map (.readChunk d q)) events)
    (hr : events.mapM piece = .ok indexed) :
    ∃ data, (⟨.readChunk d q c, .ok data⟩ : ClientEvent) ∈ t := by
  cases h with
  | @cons _ e _ events hce hrest =>
    obtain ⟨c', r⟩ := e
    obtain ⟨rfl, hmem⟩ := hce
    cases r with
    | error code =>
      rw [List.mapM_cons] at hr
      cases hr
    | ok data => exact ⟨data, hmem⟩

theorem commands_cases (d : Descriptor) (p : Option Placement) :
    (∃ q c c' cs, p = some q ∧ q.chunks = c :: c' :: cs ∧
      streamRead.commands d p = q.chunks.map (.readChunk d q)) ∨
    streamRead.commands d p = [.readStream d p] := by
  cases p with
  | none => exact .inr rfl
  | some q =>
    by_cases hfan : q.requiresChunkFanout = true
    · refine .inl ?_
      have hlen : 1 < q.chunks.length := by
        simp_all [Placement.requiresChunkFanout]
      match hchunks : q.chunks, hlen with
      | c :: c' :: cs, _ =>
        simp_all [streamRead]
    · exact .inr (by simp only [streamRead, if_neg hfan])

theorem streamRead_rule : ReadRule E F Known streamRead List.flatten where
  quiet d p c hc d' p' := by
    cases p with
    | none =>
      rw [List.mem_singleton.mp hc]
      nofun
    | some q =>
      simp only [streamRead] at hc
      grind
  missing := by
    intro d p t events h hr
    rcases commands_cases d p with ⟨q, c, c', cs, rfl, hchunks, hcmds⟩ | hcmds
    · grind [result_of_chunks]
    · rw [hcmds] at h
      obtain ⟨r, rfl, -⟩ := h.singleton
      cases r <;> cases hr
  reads := by
    intro d p t events got h hhonest hp hr
    rcases commands_cases d p with ⟨q, c, c', cs, rfl, hchunks, hcmds⟩ | hcmds
    · rw [hcmds] at h
      have hsplit := h
      rw [hchunks] at hsplit
      obtain ⟨indexed, hpieces, hgot⟩ := result_of_chunks hsplit hr
      cases hgot
      obtain ⟨data, hmem⟩ := first_chunk_of_pieces hsplit hpieces
      have hread := readStripes_of_pieces hhonest h hpieces
      exact ⟨⟨_, hmem, rfl, hp q rfl, indexed, hread, (assemble_flatten indexed).symm⟩, hp⟩
    · rw [hcmds] at h
      obtain ⟨r, rfl, hmem⟩ := h.singleton
      match r, hr with
      | .ok read, hr =>
        cases hr
        refine ⟨⟨_, hmem, rfl, rfl⟩, fun q hq => ?_⟩
        have hread : AuthenticOpt E Known read.placement := hhonest _ hmem
        have hq : (read.placement <|> p) = some q := hq
        cases hplace : read.placement with
        | none =>
          rw [hplace] at hq
          exact hp q hq
        | some q' =>
          rw [hplace] at hq
          exact hread q (hplace.trans hq)

/-! ### 呼び出し -/

section
variable {α : Type} {kind : ReadKind α} {join : α → Bytes} {strict : Bool}

structure Sourced (E : Env ν) (F : Files) (Known : ObjectKey → BlockMeta → Prop) (key : ObjectKey)
    (strict : Bool) (join : α → Bytes) (t : ClientHist) (r : Except StatusCode (Option α)) :
    Prop where
  missing : HonestTrace E F Known t → strict = true → r = .ok none → ∃ e ∈ t, Missing key e
  reads : HonestTrace E F Known t → ∀ a, r = .ok (some a) →
    ∃ e ∈ t, Reads E F Known key (join a) e

variable {t : ClientHist}

theorem Sourced.error {code : StatusCode} :
    Sourced E F Known key strict join t (.error code : Except StatusCode (Option α)) :=
  ⟨nofun, nofun⟩

theorem Sourced.none (h : HonestTrace E F Known t → strict = true → ∃ e ∈ t, Missing key e) :
    Sourced E F Known key strict join t (.ok none : Except StatusCode (Option α)) :=
  ⟨fun hh hs _ => h hh hs, nofun⟩

theorem Sourced.some {a : α}
    (h : HonestTrace E F Known t → ∃ e ∈ t, Reads E F Known key (join a) e) :
    Sourced E F Known key strict join t (.ok (some a)) := by
  refine ⟨nofun, fun hh => ?_⟩
  rintro _ ⟨⟩
  exact h hh

theorem issue_any {c : ClientCmd} (hc : ∀ d p, c ≠ .cacheDescriptor d p) (t : ClientHist) :
    Conforms (CacheGuard E F Known) (fun t' r => (⟨c, r⟩ : ClientEvent) ∈ t') t (Client.issue c) :=
  ⟨fun d p h => absurd h (hc d p), fun _ => List.mem_cons_self⟩

theorem issue_cache (h : HonestTrace E F Known t → AuthenticOpt E Known p) :
    Conforms (CacheGuard E F Known) (fun _ _ => True) t
      (Client.issue (.cacheDescriptor d p)) := by
  refine ⟨?_, fun _ => trivial⟩
  rintro _ _ ⟨⟩ hhonest
  exact h hhonest

variable {l : LookupResult}

theorem readByFreshLookup_conforms (hk : ReadRule E F Known kind join)
    (hkey : HonestTrace E F Known t → l.descriptor.key = key)
    (hplace : HonestTrace E F Known t → AuthenticOpt E Known l.placement) :
    Conforms (CacheGuard E F Known) (Sourced E F Known key strict join) t
      (readByFreshLookup kind l) := by
  refine (gather_conforms (hk.quiet l.descriptor l.placement) t).bind fun t₁ events hs h => ?_
  split
  · exact .error
  next hr =>
    refine (issue_any (by nofun) t₁).bind fun t₂ _ hs₂ _ => .none fun hhonest _ => ?_
    grind [ReadRule.missing]
  next got hr =>
    have hread : HonestTrace E F Known t₁ → _ := fun hhonest =>
      hk.reads h hhonest (hplace (hhonest.suffix hs)) hr
    refine (issue_cache fun hhonest => (hread hhonest).2).bind fun t₂ _ hs₂ _ =>
      .some fun hhonest => ?_
    grind

def Looked (E : Env ν) (F : Files) (Known : ObjectKey → BlockMeta → Prop) (key : ObjectKey)
    (t : ClientHist) (l : LookupResult) : Prop :=
  HonestTrace E F Known t → l.descriptor.key = key ∧ AuthenticOpt E Known l.placement

theorem Looked.mono {t' : ClientHist} (h : Looked E F Known key t l) (hs : t <:+ t') :
    Looked E F Known key t' l := fun hhonest => h (hhonest.suffix hs)

theorem cacheLookup_conforms (h : Looked E F Known key t l) :
    Conforms (CacheGuard E F Known) (fun _ _ => True) t (cacheLookup l) :=
  issue_cache fun hhonest => (h hhonest).2

theorem readAfterLookup_conforms (hk : ReadRule E F Known kind join) (t : ClientHist) :
    Conforms (CacheGuard E F Known) (Sourced E F Known key strict join) t
      (readAfterLookup kind key) := by
  refine (issue_any (by nofun) t).bind fun t₁ reply _ hreply => ?_
  split
  · exact .error
  · refine (issue_any (by nofun) t₁).bind fun t₂ _ hs₂ _ => .none fun _ _ => ?_
    exact ⟨_, hs₂.subset hreply, rfl⟩
  next l =>
    have hl : Looked E F Known key t₁ l := fun hhonest => hhonest _ hreply
    refine (cacheLookup_conforms hl).bind fun t₂ _ hs₂ _ => ?_
    have hl := hl.mono hs₂
    exact readByFreshLookup_conforms hk (fun hh => (hl hh).1) fun hh => (hl hh).2

def Tried (E : Env ν) (F : Files) (Known : ObjectKey → BlockMeta → Prop) (key : ObjectKey)
    (join : α → Bytes) (t : ClientHist) (read : Except StatusCode (Option (Got α))) : Prop :=
  ∀ got, read = .ok (some got) → HonestTrace E F Known t →
    (∃ e ∈ t, Reads E F Known key (join got.value) e) ∧ AuthenticOpt E Known got.placement

theorem withoutLookup_conforms {code : StatusCode} {read : Except StatusCode (Option (Got α))}
    (h : Tried E F Known key join t read) :
    Conforms (CacheGuard E F Known) (Sourced E F Known key strict join) t
      (withoutLookup key strict code read) := by
  unfold withoutLookup
  split
  · exact .error
  next hstrict =>
    split
    next got =>
      refine (issue_cache fun hhonest => (h got rfl hhonest).2).bind fun t₁ _ hs _ =>
        .some fun hhonest => ?_
      obtain ⟨e, he, hreads⟩ := (h got rfl (hhonest.suffix hs)).1
      exact ⟨e, hs.subset he, hreads⟩
    ·
      refine (issue_any (by nofun) t).bind fun t₁ _ _ _ => .none fun _ hs => ?_
      exact absurd hs hstrict

theorem withLookup_conforms (hk : ReadRule E F Known kind join) {fresh : LookupResult}
    {read : Except StatusCode (Option (Got α))} (h : Tried E F Known key join t read)
    (hl : Looked E F Known key t fresh) :
    Conforms (CacheGuard E F Known) (Sourced E F Known key strict join) t
      (withLookup kind fresh read) := by
  refine (cacheLookup_conforms hl).bind fun t₁ _ hs₁ _ => ?_
  have hl := hl.mono hs₁
  have hreread : Conforms (CacheGuard E F Known) (Sourced E F Known key strict join) t₁
      (readByFreshLookup kind fresh) :=
    readByFreshLookup_conforms hk (fun hh => (hl hh).1) fun hh => (hl hh).2
  have hgot : ∀ got t', read = .ok (some got) → t <:+ t' →
      Sourced E F Known key strict join t' (.ok (some got.value)) := by
    intro got t' hr hs
    refine .some fun hhonest => ?_
    obtain ⟨e, he, hreads⟩ := (h got hr (hhonest.suffix hs)).1
    exact ⟨e, hs.subset he, hreads⟩
  split
  · split
    · exact hreread
    · exact .error
  · exact hreread
  next got =>
    split
    · exact hgot got t₁ rfl hs₁
    · split
      · exact (cacheLookup_conforms hl).bind fun t₂ _ hs₂ _ => hgot got t₂ rfl (hs₁.trans hs₂)
      · exact hreread

theorem cachedRead_conforms (hk : ReadRule E F Known kind join) :
    Conforms (CacheGuard E F Known) (Sourced E F Known key strict join) []
      (cachedRead kind key strict) := by
  refine (issue_any (by nofun) []).bind fun t₁ found _ hfound => ?_
  split
  · exact readAfterLookup_conforms hk t₁
  next cached =>
    have hcached : Looked E F Known key t₁ cached := fun hhonest => hhonest _ hfound
    have hquiet : ∀ c ∈ ClientCmd.lookup key :: kind.commands cached.descriptor cached.placement,
        ∀ d p, c ≠ .cacheDescriptor d p := by
      intro c hc
      rcases List.mem_cons.mp hc with rfl | hc
      · nofun
      · exact hk.quiet _ _ c hc
    refine (gather_conforms hquiet t₁).bind fun t₂ events hs₂ h => ?_
    obtain ⟨⟨c, reply⟩, rest, ⟨rfl, hmem⟩, hrest, rfl⟩ := List.forall₂_cons_left_iff.mp h
    have hread : Tried E F Known key join t₂
        (kind.result cached.descriptor cached.placement rest) := by
      intro got hr hhonest
      obtain ⟨hkey, hplace⟩ := hcached (hhonest.suffix hs₂)
      have hgot := hk.reads hrest hhonest hplace hr
      rwa [hkey] at hgot
    simp only [List.head?_cons, List.tail_cons, looked]
    split
    · exact withoutLookup_conforms hread
    · refine (issue_any (by nofun) t₂).bind fun t₃ _ hs₃ _ => .none fun _ _ => ?_
      exact ⟨_, hs₃.subset hmem, rfl⟩
    next fresh => exact withLookup_conforms hk hread fun hhonest => hhonest _ hmem

end

theorem ClientOp.conforms (op : ClientOp) :
    Conforms (CacheGuard E F Known) (Sourced E F Known op.key op.strict id) [] op.prog := by
  cases op with
  | getCached key strict => exact cachedRead_conforms objectRead_rule
  | getStreamChunksCached key strict =>
    have hread : Conforms (CacheGuard E F Known) (Sourced E F Known key strict List.flatten) []
        (Client.getStreamChunksCached key strict) := cachedRead_conforms streamRead_rule
    refine hread.bind fun t r _ h => ?_
    cases r with
    | error code => exact .error
    | ok found =>
      cases found with
      | none => exact .none fun hhonest hs => h.missing hhonest hs rfl
      | some chunks => exact .some fun hhonest => h.reads hhonest chunks rfl

end Cached

open Cached

variable {ν : Type} {E : Env ν} {F : Files} {Known : ObjectKey → BlockMeta → Prop}

namespace Cached

def served (n : Fin 2) : Machine.Line ClientOp (ClientChoice (Fin 2)) ClientEnv :=
  .act (.run 0 (.serve n true true []))

def picked (i : Nat) : Machine.Line ClientOp (ClientChoice (Fin 2)) ClientEnv :=
  .act (.run 0 (.num i))

def done : Machine.Line ClientOp (ClientChoice (Fin 2)) ClientEnv := .act (.run 0 .ok)

end Cached

end ContextStore
