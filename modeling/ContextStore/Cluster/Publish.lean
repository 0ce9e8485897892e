import ContextStore.Cluster.Record

/-!
# 公開された record
-/

namespace ContextStore

open Conc

variable {ν : Type}

inductive PublishedBy (E : Env ν) (t : Hist ν) : Call ν → String → BlockMeta → Prop where
  | op {o : Op ν} {d : Draw ν} {ds : List (Draw ν)} {m : BlockMeta}
      (hl : (ledger t).draws = d :: ds) (hw : o.Writes d.key d.data)
      (hd : Describes E o.role d m) : PublishedBy E t (.op o) d.key.toStringKey m
  | commit {n : ν} {req : Service.CommitRequest} {key : ObjectKey} {desc : ObjectDescriptor}
      {now : Int} (hl : ledger t = Ledger.empty) (hacc : Service.Accepts E n req key desc) :
      PublishedBy E t (.commit n req) key.toStringKey
        (Service.committedMeta now req desc (Service.sortLocations req.chunks))

section PublishedBy

variable {E : Env ν} {ρ : Role ν} {t : Hist ν} {rc : RedisCmd} {s : String} {m : BlockMeta}

theorem RedisGuard.publishes (hg : RedisGuard E ρ t rc) (hp : rc.publishes = some (s, m)) :
    ∃ d ds, (ledger t).draws = d :: ds ∧ s = d.key.toStringKey ∧ Describes E ρ d m := by
  cases rc with
  | putBlockIfAbsent s' m' =>
    cases hp
    obtain ⟨d, ds, hl, hs, -, hd⟩ := hg
    exact ⟨d, ds, by rw [hl], hs, hd⟩
  | replaceBlock s' m' nb =>
    cases hp
    obtain ⟨d, ds, hl, hs, -, hd⟩ := hg
    exact ⟨d, ds, by rw [hl], hs, hd⟩
  | _ => cases hp

theorem not_publishes_of_no_invoke (hn : ∀ e ∈ t, ∀ k b, e.1 ≠ .invoke k b)
    (hg : Guard E ρ t (.redis rc)) : rc.publishes ≠ some (s, m) := by
  intro hp
  obtain ⟨d, ds, hl, -⟩ := RedisGuard.publishes hg hp
  rw [ledger_of_no_invoke hn] at hl
  cases hl

theorem no_invoke_of_guarded {G : Hist ν → Cmd ν → Prop} (h : Guarded G t)
    (hG : ∀ t k b, ¬ G t (.invoke k b)) : ∀ e ∈ t, ∀ k b, e.1 ≠ .invoke k b := by
  intro e he k b heq
  obtain ⟨t₁, t₂, rfl⟩ := List.append_of_mem he
  have hg := h e t₂ ⟨t₁, rfl⟩
  rw [heq] at hg
  exact hG _ _ _ hg

theorem Call.publishedBy {call : Call ν} (hok : ∀ o, call = .op o → LedgerOk E o.role (ledger t))
    (ht : Guarded (call.guard E) t) (hg : call.guard E t (.redis rc))
    (hp : rc.publishes = some (s, m)) : PublishedBy E t call s m := by
  cases call with
  | op o =>
    obtain ⟨d, ds, hl, rfl, hd⟩ := RedisGuard.publishes hg hp
    exact .op hl ((hok o rfl).draws d (hl ▸ List.mem_cons_self)).writes hd
  | prepare n req =>
    have hn := no_invoke_of_guarded ht fun t k b h => by
      rcases h with ⟨s, h⟩ | h
      · cases h
      · exact h
    rcases hg with ⟨s', h⟩ | h
    · cases h
      cases hp
    · exact absurd hp (not_publishes_of_no_invoke hn h)
  | putStripes n rawKey generation layoutVersion chunkSize stripes =>
    have hn := no_invoke_of_guarded ht fun t k b h => by
      rcases h with ⟨p, data, h⟩ | ⟨p, h⟩ | h
      · cases h
      · cases h
      · exact h
    rcases hg with ⟨p, data, h⟩ | ⟨p, h⟩ | h
    · cases h
    · cases h
    · exact absurd hp (not_publishes_of_no_invoke hn h)
  | commit n req =>
    have hn := no_invoke_of_guarded ht fun t k b h => by
      rcases h with ⟨rc, key, desc, now, h, -⟩ | ⟨l, -, dst, h⟩ | h
      · cases h
      · cases h
      · exact h
    rcases hg with ⟨rc', key, desc, now, h, hacc, hp'⟩ | ⟨l, -, dst, h⟩ | h
    · cases h
      rw [hp] at hp'
      cases hp'
      exact .commit (ledger_of_no_invoke hn) hacc
    · cases h
    · exact absurd hp (not_publishes_of_no_invoke hn h)
  | readChunk n desc placement chunk =>
    have hn := no_invoke_of_guarded ht fun t k b h => h
    exact absurd hp (not_publishes_of_no_invoke hn hg)
  | deleteChunk n chunk =>
    have hn := no_invoke_of_guarded ht fun t k b h => by
      rcases h with h | h
      · cases h
      · exact h
    rcases hg with h | h
    · cases h
    · exact absurd hp (not_publishes_of_no_invoke hn h)

end PublishedBy

def PublishedAt (log : Log ν) (i : Nat) (older : Log ν) (s : String) (m : BlockMeta) : Prop :=
  ∃ e b, .ran i e (.committed s m b) :: older <:+ log

theorem PublishedAt.exists_of_mem {log : Log ν} {e : Entry (Cmd ν) Cmd.Resp Effect} {s : String}
    {m : BlockMeta} (he : e ∈ log) (hp : published e = some (s, m)) :
    ∃ i older, PublishedAt log i older s m := by
  obtain ⟨newer, older, rfl⟩ := List.append_of_mem he
  cases e with
  | ran i e o =>
    obtain ⟨b, rfl⟩ := published_ran hp
    exact ⟨i, older, e, b, newer, rfl⟩
  | _ => cases hp

section Reachable

variable [DecidableEq ν] {E : Env ν} {P : State ν → Move ν → Prop} {c : State ν}

theorem Reachable.publishedBy (h : Reachable E P c) {i : Nat} {older : Log ν} {s : String}
    {m : BlockMeta} (hp : PublishedAt c.log i older s m) :
    ∃ th, c.threads[i]? = some th ∧ PublishedBy E (histOf i older) th.label s m := by
  obtain ⟨e, b, hs⟩ := hp
  obtain ⟨th, hth⟩ := h.thread_of_ran (hs.subset List.mem_cons_self)
  obtain ⟨x, w, hx⟩ := h.observed hs
  obtain ⟨rc, hrc, hpub⟩ := observe_committed hx.symm
  have hg := h.rule hth hs
  rw [hrc] at hg
  have holder := (List.suffix_cons _ _).trans hs
  grind [Call.publishedBy, ledgerOk, guarded]

theorem Reachable.spawned {p : Call ν → Prop} (h : Reachable E P c)
    (hP : ∀ c call, P c (.spawn call) → p call) : ∀ th ∈ c.threads, p th.label := by
  obtain ⟨clock, h⟩ := h
  refine Machine.Reach.induct (I := fun c => ∀ th ∈ c.threads, p th.label) ?_ ?_ ?_ ?_ ?_ h
  · intro th hth; cases hth
  · grind
  · grind
  · grind
  · intro c e _ _ ih
    exact ih

end Reachable

/-! ## 配置 -/

def writtenFiles (t : Hist ν) : List (ν × String × Bytes) :=
  match (ledger t).draws with
  | d :: _ => d.files
  | [] => []

def LayoutsOk (log : Log ν) : Prop :=
  ∀ i older s m si, PublishedAt log i older s m → m.striping = some si → WellLaid m si ∧
    ∀ (j : Nat) p n data, si.chunkPaths[j]? = some p →
      (n, p, data) ∈ writtenFiles (histOf i older) →
      data.length = si.stripeLength j

def Op.sizes : Op ν → List Nat
  | put _ req => [req.data.length]
  | putBatch _ reqs => reqs.map fun req => req.data.length
  | putStream _ _ chunks => [(receivedData chunks).length]
  | memPut _ _ data _ _ => [data.length]
  | memPutChunks _ _ segments _ _ => [segments.flatten.length]
  | rdmaPut _ _ data _ _ => [data.length]
  | _ => []

theorem Op.Writes.mem_sizes {o : Op ν} {k : ObjectKey} {b : Bytes} (h : o.Writes k b) :
    b.length ∈ o.sizes := by
  cases o with
  | putBatch n reqs =>
    obtain ⟨req, hreq, -, rfl⟩ := h
    exact List.mem_map.mpr ⟨req, hreq, rfl⟩
  | put n req => obtain ⟨-, rfl⟩ := h; exact List.mem_singleton.mpr rfl
  | putStream n head chunks => obtain ⟨-, rfl⟩ := h; exact List.mem_singleton.mpr rfl
  | memPut n key data m ifAbsent => obtain ⟨-, rfl⟩ := h; exact List.mem_singleton.mpr rfl
  | memPutChunks n key segments m ifAbsent => obtain ⟨-, rfl⟩ := h; exact List.mem_singleton.mpr rfl
  | rdmaPut n rawKey data ttl ifAbsent => obtain ⟨-, rfl⟩ := h; exact List.mem_singleton.mpr rfl
  | _ => exact h.elim

section Layout

variable (E : Env ν)

def Call.tiled : Call ν → Bool
  | .op o => o.sizes.all fun len => !Placement.distributedPlacementEnabled E o.node len ||
      decide (len ≤ 2 ^ 32 * (E.cfg o.node).stripingChunkSize)
  | .commit _ req => req.descriptor.all fun desc =>
      decide (Service.tiles desc.chunkSize (Service.sortLocations req.chunks))
  | _ => true

def tiledStep : State ν → Move ν → Bool
  | _, .spawn call => call.tiled E
  | _, _ => true

variable {E} [DecidableEq ν] {c : State ν}

/-- **公開された配置は整っている。** -/
theorem published_layouts_wellFormed
    (h : Reachable E (fun c a => tiledStep E c a = true) c) : LayoutsOk c.log := by
  intro i older s m si hp hsi
  obtain ⟨th, hth, hby⟩ := h.publishedBy hp
  have htiled := h.spawned (p := fun call => call.tiled E = true) (fun _ _ h => h) th
    (List.mem_of_getElem? hth)
  generalize th.label = call at hby htiled
  cases hby with
  | @op o d ds _ hl hw hd =>
    have hlaid := hd.laid si hsi
    have hfits : si.chunkLocations ≠ [] → o.role.Fits E d.data := by
      intro hne
      have hall := List.all_eq_true.mp htiled _ hw.mem_sizes
      rw [show Placement.distributedPlacementEnabled E o.node d.data.length = true from
        hlaid.spread hne] at hall
      exact show d.data.length ≤ _ from of_decide_eq_true hall
    grind [Laid.wellLaid, writtenFiles, Laid.filled]
  | @commit n req key desc now hl hacc =>
    have hne : Service.sortLocations req.chunks ≠ [] := by
      intro hnil
      have hlen := List.length_insertionSort (fun a b : ChunkLocation =>
        a.stripeIndex ≤ b.stripeIndex) req.chunks
      rw [show List.insertionSort _ req.chunks = [] from hnil] at hlen
      exact hacc.nonempty (List.length_eq_zero_iff.mp hlen.symm)
    have htile : Service.tiles desc.chunkSize (Service.sortLocations req.chunks) := by
      have hall : Option.all _ req.descriptor = true := htiled
      rw [hacc.descriptor] at hall
      exact of_decide_eq_true hall
    refine ⟨(committedMeta_wellLaid_iff hne hacc.covers hsi).mpr htile, ?_⟩
    intro j p n' data _ hf
    unfold writtenFiles at hf
    rw [hl] at hf
    cases hf

def commitRequest (lengths : List Nat) : Service.CommitRequest where
  key := some ⟨"", "k"⟩
  descriptor := some ⟨some ⟨"", "k"⟩, "h", 1, "e", 1, lengths.sum, true, lengths.length, 2⟩
  chunks := lengths.zipIdx.map fun (len, i) =>
    ⟨i, "a", "a:1", "a:2", 0, "/d0/kv/c" ++ toString i, i * 2, len, ""⟩
  metadata := none
  options := none

def raggedRecord (m : BlockMeta) : Bool :=
  m.striping.any fun si => si.chunkLocations.head?.any fun l => l.length != si.stripeLength 0

theorem published_layouts_wellFormed_spread :
    ∃ c : State (Fin 2), Reachable sampleSpread (fun c a => tiledStep sampleSpread c a = true) c ∧
      LayoutsOk c.log ∧
      2 ≤ (c.log.filterMap published).countP fun x => x.2.striping.isSome := by
  obtain ⟨c, hc, hcheck⟩ := Reachable.exists_of_play (E := sampleSpread) (tiledStep sampleSpread) 0
    (alone 0 (.op (.put 0 (putRequest "x" [1, 2, 3, 4, 5]))) ++
      alone 1 (.commit 1 (commitRequest [2, 2, 1])))
    (fun c => decide (2 ≤ (c.log.filterMap published).countP fun x => x.2.striping.isSome))
    (by decide +kernel)
  exact ⟨c, hc, published_layouts_wellFormed hc, of_decide_eq_true hcheck⟩

theorem commit_publishes_ragged_layout :
    ∃ c : State (Fin 2), Reachable sampleSpread (fun _ _ => true = true) c ∧ ¬ LayoutsOk c.log := by
  obtain ⟨c, hc, hcheck⟩ := Reachable.exists_of_play (E := sampleSpread) (fun _ _ => true) 0
    (alone 0 (.commit 0 (commitRequest [1, 2])))
    (fun c => c.log.any fun e => (published e).any fun x => raggedRecord x.2)
    (by decide +kernel)
  refine ⟨c, hc, fun hok => ?_⟩
  obtain ⟨e, he, hpub⟩ := List.any_eq_true.mp hcheck
  obtain ⟨⟨s, m⟩, hp, hragged⟩ := (Option.any_eq_true _ _).mp hpub
  obtain ⟨si, hsi, hl⟩ := (Option.any_eq_true _ _).mp hragged
  obtain ⟨l, hhead, hne⟩ := (Option.any_eq_true _ _).mp hl
  obtain ⟨i, older, hat⟩ := PublishedAt.exists_of_mem he hp
  rw [List.head?_eq_getElem?] at hhead
  exact bne_iff_ne.mp hne ((hok i older s m si hat hsi).1.length 0 l hhead)

end Layout

/-! ## 検査和 -/

def Call.node : Call ν → ν
  | .op o => o.node
  | .prepare n _ => n
  | .putStripes n _ _ _ _ _ => n
  | .commit n _ => n
  | .readChunk n _ _ _ => n
  | .deleteChunk n _ => n

section Verify

variable (E : Env ν)

structure Verifiable (si : StripingInfo) : Prop where
  count : si.chunkChecksums.length = si.chunkPaths.length
  nonempty : ∀ x ∈ si.chunkChecksums, x ≠ ""
  found : ∀ (q : ν) (j : Nat), (E.cfg q).verifyStripeChecksums = true → j < si.chunkPaths.length →
    ∃ x, Storage.expectedStripeChecksum E q si j = .ok (some x)

def StripesVerifiable (c : State ν) : Prop :=
  ∀ i th older s m si, c.threads[i]? = some th → PublishedAt c.log i older s m →
    m.striping = some si → (E.cfg th.label.node).verifyStripeChecksums = true → Verifiable E si

def Call.sumsKept : Call ν → Bool
  | .op (.putStream n head chunks) =>
    let len := (receivedData chunks).length
    head.key.all fun key => !(E.cfg n).verifyStripeChecksums ||
      !Placement.distributedPlacementEnabled E n len ||
      (List.range (Storage.divCeil len (E.cfg n).stripingChunkSize)).all fun i =>
        (stripeTarget E n key i).all fun dst => (E.cfg dst).verifyStripeChecksums
  | _ => true

def sumsKeptStep : State ν → Move ν → Bool
  | _, .spawn call => call.sumsKept E
  | _, _ => true

variable {E}

theorem Verifiable.of_nonempty {si : StripingInfo}
    (hcount : si.chunkChecksums.length = si.chunkPaths.length)
    (hne : ∀ x ∈ si.chunkChecksums, x ≠ "") : Verifiable E si where
  count := hcount
  nonempty := hne
  found := by
    simp_all [Storage.expectedStripeChecksum, Option.filter_some_pos]

theorem Call.verify_of_sumsKept {o : Op ν} (h : (Call.op o).sumsKept E = true)
    (hstream : o.role.streams = true) {k : ObjectKey} {b : Bytes} (hw : o.Writes k b)
    (hv : (E.cfg o.node).verifyStripeChecksums = true)
    (hd : Placement.distributedPlacementEnabled E o.node b.length = true) {i : Nat}
    (hi : i < Storage.divCeil b.length (o.role.chunkSize E)) {dst : ν}
    (hdst : stripeTarget E o.node k i = some dst) : (E.cfg dst).verifyStripeChecksums = true := by
  cases o with
  | putStream n head chunks =>
    obtain ⟨hkey, rfl⟩ := hw
    replace hv : (E.cfg n).verifyStripeChecksums = true := hv
    replace hd : Placement.distributedPlacementEnabled E n (receivedData chunks).length = true := hd
    unfold Call.sumsKept at h
    dsimp only at h
    rw [hkey, Option.all_some, hv, hd] at h
    have hall := List.all_eq_true.mp h i (List.mem_range.mpr hi)
    rw [show stripeTarget E n k i = some dst from hdst] at hall
    exact hall
  | _ => cases hstream

variable [DecidableEq ν] {c : State ν}

/-- **検査する node が公開した record には、stripe ごとに空でない検査和がある。** -/
theorem published_stripes_verifiable
    (h : Reachable E (fun c a => sumsKeptStep E c a = true) c) : StripesVerifiable E c := by
  intro i th older s m si hth hp hsi hv
  obtain ⟨th', hth', hby⟩ := h.publishedBy hp
  rw [hth] at hth'
  cases hth'
  have hkept := h.spawned (p := fun call => call.sumsKept E = true) (fun _ _ h => h) th
    (List.mem_of_getElem? hth)
  generalize th.label = call at hby hkept hv
  cases hby with
  | @op o d ds _ hl hw hd =>
    have hlaid := hd.laid si hsi
    obtain ⟨hcount, hempty⟩ := hlaid.verified hv
    refine .of_nonempty hcount fun x hx hnil => ?_
    obtain ⟨hstream, hloc, j, hj, dst, hdst, hoff⟩ := hempty x hx hnil
    rw [Call.verify_of_sumsKept hkept hstream hw hv (hlaid.spread hloc) hj hdst] at hoff
    cases hoff
  | @commit n req key desc now hl hacc =>
    obtain rfl : _ = si := Option.some.inj hsi
    refine .of_nonempty (by rw [List.length_map, List.length_map]) fun x hx => ?_
    obtain ⟨l, hl, rfl⟩ := List.mem_map.mp hx
    exact hacc.sums hv l hl

def streamHead (key : String) (total : Nat) : PutStreamHead := ⟨some ⟨"", key⟩, none, none, total⟩

theorem published_stripes_verifiable_spread :
    let E := sample (fun _ => true) [sampleNode 0, sampleNode 1]
    ∃ c : State (Fin 2), Reachable E (fun c a => sumsKeptStep E c a = true) c ∧
      StripesVerifiable E c ∧ (c.log.filterMap published).any fun x => x.2.striping.isSome := by
  intro E
  obtain ⟨c, hc, hcheck⟩ := Reachable.exists_of_play (E := E) (sumsKeptStep E) 0
    (alone 0 (.op (.putStream 0 (streamHead "x" 5) [⟨[1, 2, 3], false⟩, ⟨[4, 5], true⟩])))
    (fun c => (c.log.filterMap published).any fun x => x.2.striping.isSome)
    (by decide +kernel)
  exact ⟨c, hc, published_stripes_verifiable hc, hcheck⟩

theorem stream_publishes_unverifiable_stripe :
    let E := sample (fun i => i = 0) [sampleNode 0, sampleNode 1]
    ∃ c : State (Fin 2), Reachable E (fun _ _ => true = true) c ∧ ¬ StripesVerifiable E c := by
  intro E
  obtain ⟨c, hc, hcheck⟩ := Reachable.exists_of_play (E := E) (fun _ _ => true) 0
    (alone 0 (.op (.putStream 0 (streamHead "x" 5) [⟨[1, 2, 3], false⟩, ⟨[4, 5], true⟩])))
    (fun c => (c.threads.all fun th => th.label.node = 0) && c.log.any fun e =>
      (published e).any fun x => x.2.striping.any fun si => si.chunkChecksums.any (· = ""))
    (by decide +kernel)
  refine ⟨c, hc, fun hok => ?_⟩
  obtain ⟨hnode, hlog⟩ := Bool.and_eq_true_iff.mp hcheck
  obtain ⟨e, he, hpub⟩ := List.any_eq_true.mp hlog
  obtain ⟨⟨s, m⟩, hp, hstripes⟩ := (Option.any_eq_true _ _).mp hpub
  obtain ⟨si, hsi, hsums⟩ := (Option.any_eq_true _ _).mp hstripes
  obtain ⟨x, hx, hempty⟩ := List.any_eq_true.mp hsums
  obtain ⟨i, older, hat⟩ := PublishedAt.exists_of_mem he hp
  obtain ⟨th, hth, -⟩ := hc.publishedBy hat
  have h0 := of_decide_eq_true (List.all_eq_true.mp hnode th (List.mem_of_getElem? hth))
  exact (hok i th older s m si hth hat hsi (by rw [h0]; rfl)).nonempty x hx
    (of_decide_eq_true hempty)

end Verify

end ContextStore
