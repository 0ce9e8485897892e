import ContextStore.Protocol.Reading

/-!
# 規約: storage tier の書き込み

書き込みの各段の規約。
-/

namespace ContextStore

open Conc

variable {ν : Type} {E : Env ν} {ρ : Role ν} {t : Hist ν} {α β ε : Type}

/-! ## lock と時刻 -/

variable {n : ν}

theorem Conforms.withLock {cls : LockClass} {s : String} {body : ExceptT ε (Io ν) α}
    {Q : Hist ν → Except ε α → Prop} (h : Conforms (Guard E ρ) (fun t' r => Q (⟨.unlock n cls s, ()⟩
      :: t') r) (⟨.lock n cls s, ()⟩ :: t) body.run) :
    Conforms (Guard E ρ) Q t (withLock n cls s body).run := by
  refine Conforms.issue_bind.mpr ⟨trivial, fun u => Conforms.bind h ?_⟩
  intro t' r _ hQ
  exact ⟨trivial, fun u => hQ⟩

variable {m : BlockMeta} {Q : Hist ν → Except KVError α → Prop}

variable {key : ObjectKey}

def Faulty (t : Hist ν) : Prop :=
  (∃ n p e, (⟨.deleteFile n p, .error e⟩ : Event (Cmd ν) Cmd.Resp) ∈ t) ∨
    ∃ n e, (⟨.net n, .error e⟩ : Event (Cmd ν) Cmd.Resp) ∈ t

variable {t' : Hist ν}

theorem Faulty.mono (h : Faulty t) (hs : t <:+ t') : Faulty t' := by
  rcases h with ⟨n, p, e, h⟩ | ⟨n, e, h⟩
  · exact .inl ⟨n, p, e, hs.subset h⟩
  · exact .inr ⟨n, e, hs.subset h⟩

def RolledBack (d : Draw ν) (ds : List (Draw ν)) (targets : ν × String → Prop) (t' : Hist ν) :
    Prop :=
  ∃ del, ledger t' = ⟨none, { d with deleted := del } :: ds⟩ ∧ d.deleted ⊆ del ∧
    ∀ f, targets f → f ∈ del ∨ Faulty t'

variable {ds : List (Draw ν)} {d : Draw ν}

theorem deleteFile_conforms {p : String} (hl : ledger t = ⟨none, d :: ds⟩) (hroll : d.MayRollback)
    (hown : d.Owns E p) :
    Conforms (Guard E ρ) (fun t' _ => RolledBack d ds (· = (n, p)) t') t (deleteFile n p) := by
  refine ⟨.inl ⟨d, ds, hl, hroll, hown⟩, ?_⟩
  rintro (e | ⟨⟩)
  · refine ⟨d.deleted, by rw [ledger_deleteFile_error, hl], fun _ h => h, ?_⟩
    intro f _
    exact .inr (.inl ⟨n, p, e, List.mem_cons_self⟩)
  · refine ⟨(n, p) :: d.deleted, by rw [ledger_deleteFile_ok, hl]; rfl,
      fun _ h => List.mem_cons_of_mem _ h, ?_⟩
    rintro f rfl
    exact .inl List.mem_cons_self

variable {X : ν × String → Prop}

theorem RolledBack.trans {Y : ν × String → Prop} {t'' : Hist ν} {del : List (ν × String)}
    (hsub : d.deleted ⊆ del) (hX : ∀ f, X f → f ∈ del ∨ Faulty t') (hs : t' <:+ t'')
    (h : RolledBack { d with deleted := del } ds Y t'') :
    RolledBack d ds (fun f => X f ∨ Y f) t'' := by
  obtain ⟨del', hl, hsub', hY⟩ := h
  refine ⟨del', hl, fun _ hf => hsub' (hsub hf), ?_⟩
  rintro f (hf | hf)
  · exact (hX f hf).imp (fun h => hsub' h) (fun h => h.mono hs)
  · exact hY f hf

theorem RolledBack.weaken {Y : ν × String → Prop} (h : RolledBack d ds X t') (hY : ∀ f, Y f → X f) :
    RolledBack d ds Y t' := by
  obtain ⟨del, hl, hsub, hX⟩ := h
  exact ⟨del, hl, hsub, fun f hf => hX f (hY f hf)⟩

theorem deletePathsBestEffort_conforms :
    ∀ (paths : List String) (t : Hist ν) (d : Draw ν), ledger t = ⟨none, d :: ds⟩ →
      d.MayRollback → (∀ p ∈ paths, d.Owns E p) →
      Conforms (Guard E ρ) (fun t' _ => RolledBack d ds (fun f => f.1 = n ∧ f.2 ∈ paths) t') t
        (Storage.deletePathsBestEffort n paths) := by
  intro paths
  induction paths with
  | nil => intro t d hl _ _; exact ⟨d.deleted, hl, fun _ h => h, fun f hf => by cases hf.2⟩
  | cons p ps ih =>
    intro t d hl hroll hown
    refine Conforms.bind (deleteFile_conforms hl hroll (hown p List.mem_cons_self)) ?_
    rintro t₁ _ - ⟨del, hl₁, hsub, hdel⟩
    refine (ih t₁ _ hl₁ hroll fun q hq => hown q (List.mem_cons_of_mem _ hq)).weaken ?_
    intro t' _ hs h
    refine (h.trans hsub hdel hs).weaken ?_
    simp_all

/-! ## commit -/

structure Env.WellAdvertised (E : Env ν) : Prop where
  resolve : ∀ n, E.resolve (E.cfg n).localNode.grpcEndpoint = some n
  nodeId : ∀ n n', (E.cfg n).localNode.nodeId = (E.cfg n').localNode.nodeId → n = n'
  subdir : ∀ n, (E.cfg n).router.RelativeSubdir

def Draw.Cleaned (E : Env ν) (t : Hist ν) (d : Draw ν) : Prop :=
  E.WellAdvertised → ∀ f ∈ d.files, (f.1, f.2.1) ∈ d.deleted ∨ Faulty t

abbrev Result := Option Bool

def Written (E : Env ν) (k : ObjectKey) (b : Bytes) (ds : List (Draw ν)) (t' : Hist ν)
    (res : Result) : Prop :=
  (res = some true → ∃ d, ledger t' = ⟨none, d :: ds⟩ ∧ d.key = k ∧ d.data = b ∧ d.Stored) ∧
  (res ≠ some true → (ledger t').Quiet ∧ (ledger t' = ⟨some (k, b), ds⟩ ∨
    ∃ d, ledger t' = ⟨none, d :: ds⟩ ∧ d.key = k ∧ d.data = b ∧ ¬ d.Stored ∧
      (res = some false → d.Cleaned E t')))

def storedBy {ε : Type} : Except ε Bool → Result
  | .ok b => some b
  | .error _ => none

def succeeded {ε α : Type} : Except ε α → Result
  | .ok _ => some true
  | .error _ => none

def Outcome (E : Env ν) (ifAbsent : Bool) (k : ObjectKey) (b : Bytes) (ds : List (Draw ν))
    (t' : Hist ν) (r : Except ε Bool) : Prop :=
  Written E k b ds t' (storedBy r) ∧ (ifAbsent = false → r ≠ .ok false)

section WrittenLemmas

variable {k : ObjectKey} {b : Bytes} {ds : List (Draw ν)} {t' : Hist ν}

theorem Written.of_stored {d : Draw ν} (hl : ledger t' = ⟨none, d :: ds⟩) (hk : d.key = k)
    (hb : d.data = b) (hs : d.Stored) : Written E k b ds t' (some true) :=
  ⟨fun _ => ⟨d, hl, hk, hb, hs⟩, fun h => absurd rfl h⟩

theorem Written.extend {res : Result} {t'' : Hist ν} (h : Written E k b ds t' res)
    (hs : t' <:+ t'') (hl : ledger t'' = ledger t') : Written E k b ds t'' res := by
  refine ⟨fun hres => hl ▸ h.1 hres, fun hres => ?_⟩
  obtain ⟨hq, hcase⟩ := h.2 hres
  refine ⟨hl ▸ hq, ?_⟩
  rcases hcase with hcall | ⟨d, hd, hk, hb, hns, hclean⟩
  · exact .inl (hl.trans hcall)
  · refine .inr ⟨d, hl.trans hd, hk, hb, hns, fun hres hadv f hf => ?_⟩
    exact (hclean hres hadv f hf).imp_right fun h => h.mono hs

structure Wrote (E : Env ν) (k : ObjectKey) (b : Bytes) (ds : List (Draw ν)) (t' : Hist ν)
    (res : Result) : Prop where
  quiet : (ledger t').Quiet
  kept : ∀ d ∈ ds, d ∈ (ledger t').draws
  stored : res = some true → ∃ d ∈ (ledger t').draws, d.key = k ∧ d.data = b ∧ d.Stored
  absent : res = some false → ∀ d ∈ (ledger t').draws, d ∈ ds ∨ (¬ d.Stored ∧ d.Cleaned E t')

theorem Written.of_call {res : Result} (hl : ledger t' = ⟨some (k, b), ds⟩)
    (hq : (ledger t').Quiet) (hres : res ≠ some true) : Written E k b ds t' res :=
  ⟨fun h => absurd h hres, fun _ => ⟨hq, .inl hl⟩⟩

end WrittenLemmas

theorem Draw.Stored.quiet (h : d.Stored) (c : RedisCmd) :
    d.commit ≠ .firstFailed c := by
  obtain ⟨c', hc'⟩ := h
  rw [hc']
  exact fun h => by cases h

theorem Draw.MayRollback.quiet (h : d.MayRollback) (c : RedisCmd) :
    d.commit ≠ .firstFailed c := by
  rcases h with h | ⟨c', h⟩ | ⟨c', h⟩ <;> rw [h] <;> exact fun h => by cases h

theorem Draw.MayRollback.not_stored (h : d.MayRollback) : ¬ d.Stored := by
  rintro ⟨c, hc⟩
  rcases h with h | ⟨c', h⟩ | ⟨c', h⟩ <;> rw [h] at hc <;> cases hc

variable {k : ObjectKey} {b : Bytes} {res : Result}

theorem Written.quiet (h : Written E k b ds t' res) : (ledger t').Quiet := by
  by_cases hres : res = some true
  · obtain ⟨d, hl, -, -, hs⟩ := h.1 hres
    rw [hl]
    exact Ledger.quiet_cons hs.quiet
  · exact (h.2 hres).1

theorem Wrote.extend {t'' : Hist ν} (h : Wrote E k b ds t' res) (hs : t' <:+ t'')
    (hl : ledger t'' = ledger t') :
    Wrote E k b ds t'' res where
  quiet := by rw [hl]; exact h.quiet
  kept := by rw [hl]; exact h.kept
  stored := by rw [hl]; exact h.stored
  absent := by
    rw [hl]
    intro hres d hd
    refine (h.absent hres d hd).imp_right fun ⟨hns, hclean⟩ => ⟨hns, fun hadv f hf => ?_⟩
    exact (hclean hadv f hf).imp_right fun h => h.mono hs

theorem Wrote.failed (h : Wrote E k b ds t' res) : Wrote E k b ds t' none :=
  ⟨h.quiet, h.kept, (fun h => by cases h), (fun h => by cases h)⟩

theorem Written.wrote (h : Written E k b ds t' res) : Wrote E k b ds t' res := by
  by_cases hres : res = some true
  · obtain ⟨d, hl, hk, hb, hs⟩ := h.1 hres
    have hd : (ledger t').draws = d :: ds := by rw [hl]
    refine ⟨h.quiet, fun x hx => by rw [hd]; exact List.mem_cons_of_mem _ hx,
      fun _ => ⟨d, by rw [hd]; exact List.mem_cons_self, hk, hb, hs⟩, fun hf => ?_⟩
    rw [hres] at hf
    cases hf
  · obtain ⟨hq, hcase⟩ := h.2 hres
    rcases hcase with hl | ⟨d, hl, -, -, hns, hclean⟩
    · have hd : (ledger t').draws = ds := by rw [hl]
      exact ⟨hq, fun x hx => by rw [hd]; exact hx, fun h => absurd h hres,
        fun _ x hx => .inl (by rw [hd] at hx; exact hx)⟩
    · have hd : (ledger t').draws = d :: ds := by rw [hl]
      refine ⟨hq, fun x hx => by rw [hd]; exact List.mem_cons_of_mem _ hx,
        fun h => absurd h hres, fun hf x hx => ?_⟩
      grind

theorem RolledBack.written (h : RolledBack d ds X t') (hroll : d.MayRollback)
    (hres : res ≠ some true)
    (hclean : res = some false → E.WellAdvertised → ∀ f ∈ d.files, X (f.1, f.2.1)) :
    Written E d.key d.data ds t' res := by
  obtain ⟨del, hl, -, hdel⟩ := h
  refine ⟨fun h => absurd h hres, fun _ => ⟨by rw [hl]; exact Ledger.quiet_cons hroll.quiet,
    .inr ⟨_, hl, rfl, rfl, ?_, ?_⟩⟩⟩
  · exact Draw.MayRollback.not_stored (d := { d with deleted := del }) hroll
  · intro hf hadv f hmem
    exact hdel _ (hclean hf hadv f hmem)

theorem describes_commit {s : CommitState} (h : Describes E ρ d m) :
    Describes E ρ { d with commit := s } m where
  gen := h.gen
  named := h.named
  covers := h.covers
  home := h.home
  laid := fun st hst => by
    obtain ⟨hlaid, hfilled, hspread, hplaced, hverified⟩ := h.laid st hst
    exact ⟨hlaid, hfilled, hspread, hplaced, hverified⟩
  content := fun hf => by
    obtain ⟨hsize, hc⟩ := h.content hf
    refine ⟨hsize, ?_⟩
    cases hst : m.striping with
    | none => rw [hst] at hc; exact hc
    | some st =>
      rw [hst] at hc
      exact ⟨hc.chunkSize, hc.totalSize, hc.count, hc.path, hc.locations, hc.checksum⟩

def Committed (d : Draw ν) (ds : List (Draw ν)) (t' : Hist ν) (r : Except ε Bool) : Prop :=
  match r with
  | .ok b => ∃ c, ledger t' = ⟨none, { d with commit := .acked c b } :: ds⟩
  | .error _ => ∃ c, ledger t' = ⟨none, { d with commit := .gaveUp c } :: ds⟩

theorem putBlockIfAbsent_conforms (hl : ledger t = ⟨none, d :: ds⟩) (hidle : d.commit = .idle)
    (hdel : d.deleted = []) (hdesc : Describes E ρ d m) :
    Conforms (Guard E ρ) (Committed d ds) t
      (Metadata.putBlockIfAbsent d.key.toStringKey m).run := by
  refine (publish_conforms rfl hl hidle ?_).weaken ?_
  · intro t' d' hl' hd' hsend
    rw [hd'] at hl'
    exact ⟨_, ds, hl', rfl, ⟨hdel, hsend⟩, describes_commit hdesc⟩
  · rintro t' (e | b) - h
    · exact ⟨_, h⟩
    · exact ⟨_, h⟩

theorem replaceBlock_conforms {nb : Int} (hl : ledger t = ⟨none, d :: ds⟩)
    (hidle : d.commit = .idle) (hdel : d.deleted = []) (hdesc : Describes E ρ d m) :
    Conforms (Guard E ρ) (fun t' r => Committed d ds t' (r.map fun _ => true)) t
      (Metadata.replaceBlock d.key.toStringKey m nb).run := by
  refine (publish_conforms rfl hl hidle ?_).weaken ?_
  · intro t' d' hl' hd' hsend
    rw [hd'] at hl'
    exact ⟨_, ds, hl', rfl, ⟨hdel, hsend⟩, describes_commit hdesc⟩
  · rintro t' (e | b) - h
    · exact ⟨_, h⟩
    · exact ⟨_, h⟩

theorem Committed.mayRollback {r : Except ε Bool} (h : Committed d ds t' r)
    (hr : storedBy r ≠ some true) :
    ∃ d', ledger t' = ⟨none, d' :: ds⟩ ∧ d'.MayRollback ∧ d'.key = d.key ∧ d'.data = d.data ∧
      d'.gen = d.gen ∧ d'.files = d.files := by
  rcases r with e | (_ | _)
  · obtain ⟨c, hc⟩ := h
    exact ⟨_, hc, .inr (.inl ⟨c, rfl⟩), rfl, rfl, rfl, rfl⟩
  · obtain ⟨c, hc⟩ := h
    exact ⟨_, hc, .inr (.inr ⟨c, rfl⟩), rfl, rfl, rfl, rfl⟩
  · exact absurd rfl hr

theorem Committed.written (h : Committed (ε := ε) d ds t' (.ok true)) :
    Written E d.key d.data ds t' (some true) := by
  obtain ⟨c, hc⟩ := h
  exact .of_stored hc rfl rfl ⟨c, rfl⟩

theorem Draw.Owns.congr {d' : Draw ν} {p : String} (h : d.Owns E p) (hk : d'.key = d.key)
    (hg : d'.gen = d.gen) : d'.Owns E p := by
  obtain ⟨r, dev, kind, hp⟩ := h
  exact ⟨r, dev, kind, by rw [hk, hg]; exact hp⟩

theorem Committed.rollback {r : Except ε Bool} {paths : List String} (h : Committed d ds t' r)
    (hr : storedBy r ≠ some true) (hown : ∀ p ∈ paths, d.Owns E p)
    (hfiles : ∀ f ∈ d.files, f.1 = n ∧ f.2.1 ∈ paths) :
    Conforms (Guard E ρ) (fun t'' _ => Written E d.key d.data ds t'' (storedBy r)) t'
      (Storage.deletePathsBestEffort n paths) := by
  obtain ⟨d', hl', hroll, hk, hb, hg, hf⟩ := h.mayRollback hr
  refine (deletePathsBestEffort_conforms paths t' d' hl' hroll
    fun p hp => (hown p hp).congr hk hg).weaken ?_
  grind [RolledBack.written]

theorem commitMetadataWithRollback_conforms {paths : List String} {ifAbsent : Bool}
    (hl : ledger t = ⟨none, d :: ds⟩) (hidle : d.commit = .idle) (hdel : d.deleted = [])
    (hdesc : Describes E ρ d m) (hown : ∀ p ∈ paths, d.Owns E p)
    (hfiles : ∀ f ∈ d.files, f.1 = n ∧ f.2.1 ∈ paths) :
    Conforms (Guard E ρ) (fun t' r => Outcome E ifAbsent d.key d.data ds t' r) t
      (Storage.commitMetadataWithRollback E n d.key m paths ifAbsent).run := by
  unfold Storage.commitMetadataWithRollback
  refine Conforms.except_bind (Q := fun t' r => ∃ x, r = .ok x ∧ Committed d ds t' x ∧
    (ifAbsent = false → x ≠ .ok false)) ?_ ?_ (fun t' e _ ⟨_, h, _⟩ => by cases h)
  · refine Conforms.attempt_iff.mpr ?_
    cases ifAbsent with
    | true =>
      simp_all [putBlockIfAbsent_conforms]
    | false =>
      refine ⟨trivial, fun now => ?_⟩
      exact Conforms.except_bind
        (replaceBlock_conforms (t := ⟨.now, now⟩ :: t) hl hidle hdel hdesc)
        (fun t' v _ h => ⟨_, rfl, h, fun _ hf => by cases hf⟩)
        (fun t' e _ h => ⟨_, rfl, h, fun _ hf => by cases hf⟩)
  · rintro t₁ r - ⟨x, hx, hc, hne⟩
    cases hx
    rcases r with e | (_ | _)
    · refine Conforms.lift_bind ?_
      refine (hc.rollback (fun h => by cases h) hown hfiles).weaken ?_
      intro t' _ _ h
      exact ⟨h, fun _ hf => by cases hf⟩
    · refine Conforms.lift_bind ?_
      refine (hc.rollback (fun h => by cases h) hown hfiles).weaken ?_
      intro t' _ _ h
      exact ⟨h, fun hf => absurd rfl (hne hf)⟩
    · exact ⟨hc.written, fun _ hf => by cases hf⟩

def Draw.fresh (k : ObjectKey) (b : Bytes) (g : Nat) : Draw ν := ⟨k, b, g, [], .idle, []⟩

theorem prepareWriteMeta_conforms {size : Nat} (hl : ledger t = ⟨some (k, b), ds⟩)
    (hq : (ledger t).Quiet) :
    Conforms (Guard E ρ) (fun t' r => match r with
      | .ok m' => ∃ g, ledger t' = ⟨none, Draw.fresh k b g :: ds⟩ ∧
          m' = Storage.preparedMeta E k m size g
      | .error _ => Written E k b ds t' none) t
      (Storage.prepareWriteMeta E k m size).run := by
  unfold Storage.prepareWriteMeta
  refine Conforms.except_bind (nextGeneration_conforms hl hq) ?_ ?_
  · intro t' g _ h
    exact ⟨g, h, rfl⟩
  · intro t' e _ h
    have h' : ledger t' = ledger t := h
    exact .of_call (h'.trans hl) (by rw [h']; exact hq) (fun h => by cases h)

theorem prepareWriteMeta_bind {size : Nat} {f : BlockMeta → Res ν α}
    (hl : ledger t = ⟨some (k, b), ds⟩) (hq : (ledger t).Quiet)
    (herr : ∀ t' e, Written E k b ds t' none → Q t' (.error e)) (hok : ∀ t' g, ledger t' = ⟨none,
      Draw.fresh k b g :: ds⟩ → Conforms (Guard E ρ) Q t' (f (Storage.preparedMeta E k m size
      g)).run) :
    Conforms (Guard E ρ) Q t (Storage.prepareWriteMeta E k m size >>= f).run := by
  refine Conforms.except_bind (prepareWriteMeta_conforms hl hq) ?_ (fun t' e _ h => herr t' e h)
  rintro t' m' - ⟨g, hl', rfl⟩
  exact hok t' g hl'

theorem putWhole_conforms {ifAbsent : Bool} (hn : ρ.node = n) (hl : ledger t = ⟨some (k, b), ds⟩)
    (hq : (ledger t).Quiet) :
    Conforms (Guard E ρ) (fun t' r => Outcome E ifAbsent k b ds t' r) t
      (Storage.putWhole E n k b m ifAbsent).run := by
  unfold Storage.putWhole
  refine prepareWriteMeta_bind hl hq (fun t' e h => ⟨h, fun _ hf => by cases hf⟩) ?_
  intro t₁ g hl₁
  dsimp only
  generalize hm : Storage.preparedMeta E k m b.length g = m₁
  have hgen : m₁.objectGeneration = g := by rw [← hm]; rfl
  have hlay : m₁.layoutVersion = 1 := by rw [← hm]; rfl
  generalize hp : (E.cfg n).router.keyToVersionedPath E.ext k ((E.cfg n).router.route E.ext k)
    m₁.objectGeneration m₁.layoutVersion = p
  have hpath : p = (E.cfg n).router.versionedPath E.ext k ((E.cfg n).router.route E.ext k) g 1
      .whole := by rw [← hp, hgen, hlay]; rfl
  have hfile : (Draw.fresh k b g : Draw ν).OwnFile E ρ p b := ⟨_, _, .whole, hpath, fun _ => rfl⟩
  have hown : (Draw.fresh k b g : Draw ν).Owns E p := ⟨_, _, .whole, hpath⟩
  refine Conforms.lift_bind ?_
  refine ⟨⟨Draw.fresh k b g, ds, hl₁, rfl, rfl, hfile⟩, ?_⟩
  rintro (e | ⟨⟩)
  · refine ⟨RolledBack.written (d := Draw.fresh k b g) (X := fun _ => False)
      ⟨[], hl₁, fun _ h => h, fun f hf => hf.elim⟩ (.inl rfl) (fun h => by cases h)
      (fun h => by cases h), fun _ hf => by cases hf⟩
  · refine Conforms.except_bind_iff.mpr (Conforms.ofIo_iff.mpr ?_)
    refine commitMetadataWithRollback_conforms (d := (Draw.fresh k b g).addFile n p b)
      (by rw [ledger_writeFile_ok, hl₁]; rfl) rfl rfl ⟨hgen, ?_, ?_, ?_, nofun, ?_⟩ ?_ ?_
    · intro q hq
      obtain rfl : q = p := List.mem_singleton.mp hq
      exact ⟨hown, n, b, List.mem_cons_self⟩
    · intro f hf
      obtain rfl := List.mem_singleton.mp hf
      exact List.mem_singleton.mpr rfl
    · intro _ f hf
      obtain rfl := List.mem_singleton.mp hf
      exact hn.symm
    · intro _
      exact ⟨rfl, _, _, hpath⟩
    · intro q hq
      obtain rfl : q = p := List.mem_singleton.mp hq
      exact hown
    · intro f hf
      obtain rfl := List.mem_singleton.mp hf
      exact ⟨rfl, List.mem_singleton.mpr rfl⟩

def Filled (d : Draw ν) (ds : List (Draw ν)) (new : ν × String × Bytes → Prop) (t' : Hist ν) :
    Prop :=
  ∃ fs, ledger t' = ⟨none, { d with files := fs } :: ds⟩ ∧ ∀ f ∈ fs, f ∈ d.files ∨ new f

theorem pickNext_conforms {P : Hist ν → Prop} {bound : Nat}
    (hP : ∀ r, P t → P (⟨.pick bound, r⟩ :: t)) (h : P t) :
    Conforms (Guard E ρ) (fun t' _ => P t') t (pickNext bound) :=
  ⟨trivial, fun r => hP r h⟩

theorem writeBatch_conforms {items : List (String × Bytes)} (hl : ledger t = ⟨none, d :: ds⟩)
    (hidle : d.commit = .idle) (hdel : d.deleted = [])
    (hown : ∀ it ∈ items, d.OwnFile E ρ it.1 it.2) :
    Conforms (Guard E ρ) (fun t' rs =>
      ∃ fs, ledger t' = ⟨none, { d with files := fs } :: ds⟩ ∧
        (∀ f ∈ fs, f ∈ d.files ∨ f.1 = n ∧ f.2 ∈ items) ∧
        List.Forall₂ (fun it r => r = .ok () → (n, it.1, it.2) ∈ fs) items rs) t
      (writeBatch n items) := by
  have hJ : Filled d ds (fun f => f.1 = n ∧ f.2 ∈ items) t := ⟨d.files, hl, fun f hf => .inl hf⟩
  refine (Conforms.joinAll (J := Filled d ds (fun f => f.1 = n ∧ f.2 ∈ items))
    (P := fun it t' r => r = .ok () → ∃ d', (ledger t').draws = d' :: ds ∧
      (n, it.1, it.2) ∈ d'.files) ?_ ?_ hJ ?_).weaken ?_
  · intro t' b h
    exact pickNext_conforms (fun _ h => h) h
  ·
    rintro it t₁ t₂ r hs ⟨fs₁, hl₁, -⟩ ⟨fs₂, hl₂, -⟩ hP hr
    obtain ⟨d', hd', hmem⟩ := hP hr
    have hd₂ : (ledger t₂).draws = { d with files := fs₂ } :: ds := by rw [hl₂]
    exact ⟨_, hd₂, (ledger_suffix_head hs hd' hd₂).files hmem⟩
  · rintro it hit t₁ ⟨fs, hl₁, hfs⟩
    refine ⟨⟨_, ds, hl₁, hidle, hdel, hown it hit⟩, ?_⟩
    rintro (e | ⟨⟩)
    · exact ⟨⟨fs, hl₁, hfs⟩, fun h => by cases h⟩
    · have hl₂ : ledger (⟨.writeFile n it.1 it.2, .ok ()⟩ :: t₁) =
          ⟨none, { d with files := (n, it.1, it.2) :: fs } :: ds⟩ := by
        rw [ledger_writeFile_ok, hl₁]; rfl
      refine ⟨⟨_, hl₂, ?_⟩, fun _ => ⟨_, by rw [hl₂], List.mem_cons_self⟩⟩
      simp_all
  · rintro t' rs - ⟨⟨fs, hl', hfs⟩, hrs⟩
    simp_all

theorem firstError_eq_none : ∀ {rs : List (Except IoError Unit)},
    Storage.firstError rs = none → ∀ r ∈ rs, r = .ok ()
  | [], _, r, hr => by cases hr
  | .error e :: rs, h, _, _ => by simp [Storage.firstError] at h
  | .ok () :: rs, h, r, hr => by
    simp only [Storage.firstError, Option.map_eq_none_iff] at h
    rcases List.mem_cons.mp hr with rfl | hr
    · rfl
    · exact firstError_eq_none h r hr

section Stripes

variable {n : ν} {k : ObjectKey} {b : Bytes} {g : Nat} {ds : List (Draw ν)} {m : BlockMeta}
  {ifAbsent : Bool}

theorem stripePath_eq (hgen : m.objectGeneration = g) (hlay : m.layoutVersion = 1) (i : Nat) :
    Storage.stripePath E n k m i = (E.cfg n).router.versionedPath E.ext k
      (Storage.stripeDevice E n k i) g 1 (.chunk i) := by
  unfold Storage.stripePath
  rw [hgen, hlay]
  rfl

theorem stripePath_inj (hgen : m.objectGeneration = g) (hlay : m.layoutVersion = 1) {i j : Nat}
    (h : Storage.stripePath E n k m i = Storage.stripePath E n k m j) : i = j := by
  rw [stripePath_eq hgen hlay, stripePath_eq hgen hlay] at h
  obtain ⟨-, -, -, hkind⟩ := ShardRouter.versionedPath_inj E.ext h
  cases hkind
  rfl

theorem describes_stripes {fs : List (ν × String × Bytes)} (hn : ρ.node = n)
    (hgen : m.objectGeneration = g) (hlay : m.layoutVersion = 1)
    (hall : ∀ i < Storage.divCeil b.length (ρ.chunkSize E),
      (n, Storage.stripePath E n k m i, Service.stripeOf (ρ.chunkSize E) b i) ∈ fs)
    (honly : ∀ f ∈ fs, f.1 = n ∧ ∃ i < Storage.divCeil b.length (ρ.chunkSize E),
      f.2 = (Storage.stripePath E n k m i, Service.stripeOf (ρ.chunkSize E) b i))
    {devices : List Nat} {device : Nat} {file : String} {sums : List String}
    (hdev : devices.length = Storage.divCeil b.length (ρ.chunkSize E))
    (hsums : (E.cfg n).verifyStripeChecksums = true →
      sums = (List.range (Storage.divCeil b.length (ρ.chunkSize E))).map
        fun i => Storage.checksumBytes E (Service.stripeOf (ρ.chunkSize E) b i)) :
    Describes E ρ { Draw.fresh k b g with files := fs } { m with
      size := b.length
      deviceId := device
      filePath := file
      striping := some {
        chunkSize := (E.cfg n).stripingChunkSize
        chunkDevices := devices
        chunkPaths := (List.range (Storage.divCeil b.length (ρ.chunkSize E))).map
          (Storage.stripePath E n k m)
        totalSize := b.length
        chunkLocations := []
        chunkChecksums := sums } } := by
  have hcs : ρ.chunkSize E = (E.cfg n).stripingChunkSize := by rw [Role.chunkSize, hn]
  have hpos : 0 < ρ.chunkSize E := NodeConfig.stripingChunkSize_pos _
  have hcount : ((List.range (Storage.divCeil b.length (ρ.chunkSize E))).map
      (Storage.stripePath E n k m)).length = Storage.divCeil b.length (ρ.chunkSize E) := by
    rw [List.length_map, List.length_range]
  refine ⟨hgen, ?_, ?_, fun _ f hf => (honly f hf).1.trans hn.symm, ?_, fun _ => ⟨rfl, ?_⟩⟩
  · intro p hp
    rcases (BlockMeta.mem_files_striped rfl).mp hp with hp | ⟨c, hc, -⟩
    · obtain ⟨i, hi, rfl⟩ := List.mem_map.mp hp
      exact ⟨⟨_, _, _, stripePath_eq hgen hlay i⟩, n, _, hall i (List.mem_range.mp hi)⟩
    · cases hc
  · intro f hf
    obtain ⟨-, i, hi, he⟩ := honly f hf
    rw [he]
    exact (BlockMeta.mem_files_striped rfl).mpr
      (.inl (List.mem_map.mpr ⟨i, List.mem_range.mpr hi, rfl⟩))
  · rintro s ⟨⟩
    refine ⟨fun _ => ?_, fun _ => ?_, fun h => absurd rfl h, nofun, ?_⟩
    · refine .of_stripes (b := b) (hcs ▸ hpos) (hdev.trans hcount.symm) rfl rfl ?_ (.inl rfl) nofun
      rw [hcount, hcs]
    · intro i p n' data hp hmem
      obtain ⟨hi, rfl⟩ := getElem?_map_range.mp hp
      obtain ⟨-, j, -, hj⟩ := honly _ hmem
      obtain ⟨hpath, rfl⟩ := Prod.mk.inj hj
      obtain rfl := stripePath_inj hgen hlay hpath
      rw [StripingInfo.stripeLength_eq (b := b) (hcs ▸ hpos) rfl (by rw [hcount, hcs])
        (by rw [hcount]; exact hi), hcs]
    · intro hver
      rw [hn] at hver
      rw [hsums hver]
      refine ⟨by rw [List.length_map, hcount, List.length_range], fun x hx hempty => ?_⟩
      obtain ⟨i, -, rfl⟩ := List.mem_map.mp hx
      exact absurd hempty (hex16_ne_empty _)
  · refine ⟨by rw [Role.chunkSize, hn], rfl, ?_, ?_, .inl rfl, ?_⟩
    · rw [List.length_map, List.length_range]; rfl
    · intro i p hp
      obtain ⟨-, rfl⟩ := getElem?_map_range.mp hp
      exact ⟨_, _, stripePath_eq hgen hlay i⟩
    · intro i p n' data hp hmem hver
      obtain ⟨hi, rfl⟩ := getElem?_map_range.mp hp
      obtain ⟨hn', j, -, hj⟩ := honly _ hmem
      obtain rfl : n' = n := hn'
      obtain ⟨hpath, rfl⟩ := Prod.mk.inj hj
      obtain rfl := stripePath_inj hgen hlay hpath
      rw [hsums hver]
      exact getElem?_map_range.mpr ⟨hi, rfl⟩

theorem writeStripes_conforms (hn : ρ.node = n) (hgen : m.objectGeneration = g)
    (hlay : m.layoutVersion = 1) (hl : ledger t = ⟨none, Draw.fresh k b g :: ds⟩) :
    Conforms (Guard E ρ) (fun t' r => Outcome E ifAbsent k b ds t' r) t
      (Storage.writeStripes E n k ((List.range (Storage.divCeil b.length (ρ.chunkSize E))).map
        (Service.stripeOf (ρ.chunkSize E) b)) b.length m ifAbsent).run := by
  unfold Storage.writeStripes
  dsimp only
  rw [List.length_map, List.length_range, List.zip_map']
  generalize hN : Storage.divCeil b.length (ρ.chunkSize E) = N
  have hown : ∀ p ∈ (List.range N).map (Storage.stripePath E n k m),
      (Draw.fresh k b g : Draw ν).Owns E p := by
    intro p hp
    obtain ⟨i, -, rfl⟩ := List.mem_map.mp hp
    exact ⟨_, _, _, stripePath_eq hgen hlay i⟩
  refine Conforms.lift_bind ?_
  refine (writeBatch_conforms hl rfl rfl ?_).weaken ?_
  · intro it hit
    obtain ⟨i, -, rfl⟩ := List.mem_map.mp hit
    exact ⟨_, _, .chunk i, stripePath_eq hgen hlay i, fun _ => rfl⟩
  · rintro t₁ rs - ⟨fs, hl₁, honly, hrs⟩
    split
    next i e _ =>
      refine Conforms.lift_bind ?_
      refine (deletePathsBestEffort_conforms _ t₁ _ hl₁ (.inl rfl)
        fun p hp => (hown p (List.mem_of_mem_take hp)).congr rfl rfl).weaken ?_
      intro t' _ _ h
      exact ⟨h.written (.inl rfl) (fun h => by cases h) (fun h => by cases h),
        fun _ hf => by cases hf⟩
    next hnone =>
      have hfs : ∀ f ∈ fs, f.1 = n ∧ ∃ i < N,
          f.2 = (Storage.stripePath E n k m i, Service.stripeOf (ρ.chunkSize E) b i) := by
        intro f hf
        rcases honly f hf with hf | ⟨hfn, hf⟩
        · cases hf
        · grind
      refine commitMetadataWithRollback_conforms (d := { Draw.fresh k b g with files := fs })
        hl₁ rfl rfl ?_ (fun p hp => (hown p hp).congr rfl rfl) ?_
      rotate_left
      · grind
      rw [← hN] at hfs ⊢
      refine describes_stripes hn hgen hlay ?_ hfs ?_ ?_
      · intro i hi
        rw [hN] at hi
        obtain ⟨r, hr, hmem⟩ := Conforms.forall₂_mem_left hrs
          (List.mem_map.mpr ⟨i, List.mem_range.mpr hi, rfl⟩)
        exact hmem (firstError_eq_none hnone r hr)
      · rw [List.length_map, List.length_range, hN]
      · intro hver
        rw [if_pos hver, List.map_map, hN]
        rfl

attribute [local irreducible] Storage.writeStripes

theorem putStripedChunksImpl_conforms {segments : List Bytes} {total : Nat} (hn : ρ.node = n)
    (hb : segments.flatten = b) (htotal : total = b.length)
    (hl : ledger t = ⟨some (k, b), ds⟩) (hq : (ledger t).Quiet) :
    Conforms (Guard E ρ) (fun t' r => Outcome E ifAbsent k b ds t' r) t
      (Storage.putStripedChunksImpl E n k segments total m ifAbsent).run := by
  unfold Storage.putStripedChunksImpl
  refine prepareWriteMeta_bind hl hq (fun t' e h => ⟨h, fun _ hf => by cases hf⟩) ?_
  intro t₁ g hl₁
  have hcs : ρ.chunkSize E = (E.cfg n).stripingChunkSize := by rw [Role.chunkSize, hn]
  have hpos := (E.cfg n).stripingChunkSize_pos
  dsimp only
  rw [htotal, ← hb, rebucket_eq, ← divCeil_eq _ hpos, ← hcs]
  rw [← hb] at hl₁
  exact writeStripes_conforms hn rfl rfl hl₁

theorem Outcome.discard {x : ExceptT ε (Io ν) Bool}
    (h : Conforms (Guard E ρ) (fun t' r => Outcome E false k b ds t' r) t x.run) :
    Conforms (Guard E ρ) (fun t' r => Written E k b ds t' (succeeded r)) t
      (do let _ ← x; pure () : ExceptT ε (Io ν) Unit).run := by
  refine Conforms.except_bind h ?_ (fun t' e _ h => h.1)
  rintro t' (_ | _) - ⟨hw, hne⟩
  · exact absurd rfl (hne rfl)
  · exact hw

theorem putStriped_conforms (hn : ρ.node = n) (hl : ledger t = ⟨some (k, b), ds⟩)
    (hq : (ledger t).Quiet) :
    Conforms (Guard E ρ) (fun t' r => Written E k b ds t' (succeeded r)) t
      (Storage.putStriped E n k b m).run := by
  refine Outcome.discard (putStripedChunksImpl_conforms hn ?_ rfl hl hq)
  rw [← divCeil_eq _ (E.cfg n).stripingChunkSize_pos]
  exact flatten_stripes b (E.cfg n).stripingChunkSize_pos

theorem putFromPtrStriped_conforms (hn : ρ.node = n) (hl : ledger t = ⟨some (k, b), ds⟩)
    (hq : (ledger t).Quiet) :
    Conforms (Guard E ρ) (fun t' r => Outcome E ifAbsent k b ds t' r) t
      (Storage.putFromPtrStriped E n k b m ifAbsent).run := by
  unfold Storage.putFromPtrStriped
  refine prepareWriteMeta_bind hl hq (fun t' e h => ⟨h, fun _ hf => by cases hf⟩) ?_
  intro t₁ g hl₁
  have hcs : ρ.chunkSize E = (E.cfg n).stripingChunkSize := by rw [Role.chunkSize, hn]
  dsimp only
  rw [← hcs]
  exact writeStripes_conforms hn rfl rfl hl₁

end Stripes

section Public

variable {n : ν} {k : ObjectKey} {b : Bytes} {ds : List (Draw ν)} {m : BlockMeta}

theorem Conforms.invokeLocked {s : String} {body : Res ν α}
    {Q : Hist ν → Except KVError α → Prop} (hw : ρ.writes k b) (hq : (ledger t).Quiet)
    (hd : (ledger t).draws = ds)
    (hunlock : ∀ t' r u, Q t' r → Q (⟨.unlock n .storage s, u⟩ :: t') r)
    (h : ∀ t', ledger t' = ⟨some (k, b), ds⟩ → (ledger t').Quiet →
      Conforms (Guard E ρ) Q t' body.run) :
    Conforms (Guard E ρ) Q t (do Storage.invoke k b; ContextStore.withLock n .storage s body :
      Res ν α).run := by
  refine Conforms.except_bind_iff.mpr (Conforms.lift_issue.mpr ⟨hw, fun u => ?_⟩)
  refine Conforms.withLock ((h _ ?_ ?_).weaken fun t' r _ hr => hunlock t' r () hr)
  · rw [ledger_lock, ledger_invoke, hd]
  · rw [ledger_lock, ledger_invoke]
    exact hq

theorem storagePut_conforms (hn : ρ.node = n) (hw : ρ.writes k b) (hq : (ledger t).Quiet)
    (hd : (ledger t).draws = ds) :
    Conforms (Guard E ρ) (fun t' r => Written E k b ds t' (succeeded r)) t
      (Storage.put E n k b m).run := by
  refine Conforms.invokeLocked hw hq hd (fun _ _ _ h => h.extend (List.suffix_cons _ _) rfl) ?_
  intro t₁ hl₁ hq₁
  split
  · exact putStriped_conforms hn hl₁ hq₁
  · exact Outcome.discard (putWhole_conforms hn hl₁ hq₁)

theorem existsLive_bind {body : Res ν Bool} (hl : ledger t = ⟨some (k, b), ds⟩)
    (hq : (ledger t).Quiet)
    (h : ∀ t', ledger t' = ⟨some (k, b), ds⟩ → (ledger t').Quiet →
      Conforms (Guard E ρ) (fun t'' r => Written E k b ds t'' (storedBy r)) t' body.run) :
    Conforms (Guard E ρ) (fun t' r => Written E k b ds t' (storedBy r)) t
      (do if ← Storage.existsLive E n k then pure false else body : Res ν Bool).run := by
  refine Conforms.except_bind (storageExistsLive_issues.live hq) ?_ ?_
  · intro t₁ found _ h₁
    have hl₁ : ledger t₁ = ⟨some (k, b), ds⟩ := h₁.trans hl
    have hq₁ : (ledger t₁).Quiet := by rw [h₁]; exact hq
    cases found with
    | true => exact .of_call hl₁ hq₁ (fun h => by cases h)
    | false => exact h t₁ hl₁ hq₁
  · intro t₁ e _ h₁
    exact .of_call (h₁.trans hl) (by rw [h₁]; exact hq) (fun h => by cases h)

theorem storagePutIfAbsent_conforms (hn : ρ.node = n) (hw : ρ.writes k b) (hq : (ledger t).Quiet)
    (hd : (ledger t).draws = ds) :
    Conforms (Guard E ρ) (fun t' r => Written E k b ds t' (storedBy r)) t
      (Storage.putIfAbsent E n k b m).run := by
  refine Conforms.invokeLocked hw hq hd (fun _ _ _ h => h.extend (List.suffix_cons _ _) rfl) ?_
  intro t₁ hl₁ hq₁
  refine existsLive_bind hl₁ hq₁ ?_
  intro t₂ hl₂ hq₂
  split
  · exact (putStripedChunksImpl_conforms hn (by simp) rfl hl₂ hq₂).weaken fun _ _ _ h => h.1
  · exact (putWhole_conforms hn hl₂ hq₂).weaken fun _ _ _ h => h.1

theorem storagePutChunks_conforms {segments : List Bytes} (hn : ρ.node = n)
    (hw : ρ.writes k segments.flatten) (hq : (ledger t).Quiet) (hd : (ledger t).draws = ds) :
    Conforms (Guard E ρ) (fun t' r => Written E k segments.flatten ds t' (succeeded r)) t
      (Storage.putChunks E n k segments m).run := by
  unfold Storage.putChunks
  dsimp only
  split
  · exact storagePut_conforms hn hw hq hd
  · refine Conforms.invokeLocked hw hq hd (fun _ _ _ h => h.extend (List.suffix_cons _ _) rfl) ?_
    intro t₁ hl₁ hq₁
    exact Outcome.discard
      (putStripedChunksImpl_conforms hn rfl List.length_flatten.symm hl₁ hq₁)

theorem storagePutChunksIfAbsent_conforms {segments : List Bytes} (hn : ρ.node = n)
    (hw : ρ.writes k segments.flatten) (hq : (ledger t).Quiet) (hd : (ledger t).draws = ds) :
    Conforms (Guard E ρ) (fun t' r => Written E k segments.flatten ds t' (storedBy r)) t
      (Storage.putChunksIfAbsent E n k segments m).run := by
  unfold Storage.putChunksIfAbsent
  dsimp only
  split
  · exact storagePutIfAbsent_conforms hn hw hq hd
  · refine Conforms.invokeLocked hw hq hd (fun _ _ _ h => h.extend (List.suffix_cons _ _) rfl) ?_
    intro t₁ hl₁ hq₁
    refine existsLive_bind hl₁ hq₁ ?_
    intro t₂ hl₂ hq₂
    exact (putStripedChunksImpl_conforms hn rfl List.length_flatten.symm hl₂ hq₂).weaken
      fun _ _ _ h => h.1

theorem putFromPtrBody_conforms {ifNotExists : Bool} (hn : ρ.node = n)
    (hl : ledger t = ⟨some (k, b), ds⟩) (hq : (ledger t).Quiet) :
    Conforms (Guard E ρ) (fun t' r => Outcome E ifNotExists k b ds t' r) t
      (if !Storage.shouldStripe E n b.length then Storage.putWhole E n k b m ifNotExists
        else Storage.putFromPtrStriped E n k b m ifNotExists : Res ν Bool).run := by
  split
  · exact putWhole_conforms hn hl hq
  · exact putFromPtrStriped_conforms hn hl hq

theorem putFromPtrWithOptions_conforms {ifNotExists : Bool} (hn : ρ.node = n) (hw : ρ.writes k b)
    (hq : (ledger t).Quiet) (hd : (ledger t).draws = ds) :
    Conforms (Guard E ρ) (fun t' r => Wrote E k b ds t' (storedBy r) ∧
      (ifNotExists = false → r ≠ .ok false)) t
      (Storage.putFromPtrWithOptions E n k b m ifNotExists).run := by
  unfold Storage.putFromPtrWithOptions
  split
  · refine ⟨⟨hq, fun d h => by rw [hd]; exact h, ?_, ?_⟩, fun _ h => by cases h⟩
    · intro h; cases h
    · intro h; cases h
  · refine Conforms.invokeLocked (Q := fun t' r => Wrote E k b ds t' (storedBy r) ∧
      (ifNotExists = false → r ≠ .ok false)) hw hq hd
      (fun _ _ _ h => ⟨h.1.extend (List.suffix_cons _ _) rfl, h.2⟩) ?_
    intro t₁ hl₁ hq₁
    cases ifNotExists with
    | false =>
      refine (putFromPtrBody_conforms hn hl₁ hq₁).weaken ?_
      intro t' r _ h
      exact ⟨h.1.wrote, h.2⟩
    | true =>
      refine (existsLive_bind hl₁ hq₁ fun t₂ hl₂ hq₂ =>
        (putFromPtrBody_conforms hn hl₂ hq₂).weaken fun _ _ _ h => h.1).weaken ?_
      intro t' r _ h
      exact ⟨h.wrote, fun hf => by cases hf⟩

def HasStored (t' : Hist ν) (k : ObjectKey) (b : Bytes) : Prop :=
  ∃ d ∈ (ledger t').draws, d.key = k ∧ d.data = b ∧ d.Stored

theorem storagePutBatch_conforms (hn : ρ.node = n) :
    ∀ (items : List (ObjectKey × Bytes × BlockMeta)) (t : Hist ν) (ds : List (Draw ν)),
      (∀ it ∈ items, ρ.writes it.1 it.2.1) → (ledger t).Quiet → (ledger t).draws = ds →
      Conforms (Guard E ρ) (fun t' rs => (ledger t').Quiet ∧
        (∀ d ∈ ds, d ∈ (ledger t').draws) ∧
        List.Forall₂ (fun it r => r = .ok () → HasStored t' it.1 it.2.1) items rs) t
        (Storage.putBatch E n items) := by
  intro items
  induction items with
  | nil =>
    intro t ds _ hq hd
    exact ⟨hq, fun d h => by rw [hd]; exact h, .nil⟩
  | cons it items ih =>
    obtain ⟨k, b, m⟩ := it
    intro t ds hw hq hd
    refine Conforms.bind (storagePut_conforms hn (hw _ List.mem_cons_self) hq hd) ?_
    intro t₁ r _ h₁
    refine Conforms.bind (ih t₁ _ (fun it hit => hw it (List.mem_cons_of_mem _ hit)) h₁.quiet rfl)
      ?_
    rintro t₂ rs - ⟨hq₂, hkept, hrs⟩
    refine ⟨hq₂, fun d hdm => hkept d (h₁.wrote.kept d hdm), .cons ?_ hrs⟩
    rintro rfl
    obtain ⟨d, hdm, hk, hb, hs⟩ := h₁.wrote.stored rfl
    exact ⟨d, hkept d hdm, hk, hb, hs⟩

end Public

end ContextStore
