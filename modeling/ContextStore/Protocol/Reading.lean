import ContextStore.Protocol.Client

/-!
# 規約: 読み出し

読み出しが発行する命令の規約（`LiveGuard` と `ReadGuard`）。
-/

namespace Conc

open ContextStore

variable {ν α ε : Type} {G : Hist ν → Cmd ν → Prop} {t : Hist ν}

theorem Conforms.ofIo_iff {x : Except IoError α} {Q : Hist ν → Except KVError α → Prop} :
    Conforms G Q t (ofIo x : Res ν α).run ↔ Q t (x.mapError KVError.io) := by
  cases x <;> exact Iff.rfl

variable {x : Except ε α}

theorem Conforms.ofExcept_iff {Q : Hist ν → Except ε α → Prop} :
    Conforms G Q t (ContextStore.ofExcept x : ExceptT ε (Io ν) α).run ↔ Q t x := Iff.rfl

theorem Conforms.liftRes_iff {x : Res ν α} {Q : Hist ν → Except Status α → Prop} :
    Conforms G Q t (liftRes x).run ↔
      Conforms G (fun t' r => Q t' (r.mapError Status.ofKVError)) t x.run :=
  Conforms.bind_iff

theorem Issues.ofExcept :
    Issues G t (ContextStore.ofExcept x : ExceptT ε (Io ν) α).run :=
  Conforms.ofExcept_iff.mpr trivial

theorem Issues.liftRes {x : Res ν α} (h : Issues G t x.run) :
    Issues G t (ContextStore.liftRes x).run :=
  Conforms.liftRes_iff.mpr h

variable {S : Hist ν → α → Prop}

theorem Gives.ofExcept (h : ∀ a, x = .ok a → S t a) :
    Gives G S t (ContextStore.ofExcept x) := h

theorem Gives.liftRes {x : Res ν α} (h : Gives G S t x) : Gives G S t (ContextStore.liftRes x) := by
  refine Conforms.liftRes_iff.mpr (Conforms.weaken h ?_)
  rintro t' (e | a) - hr _ ⟨⟩
  exact hr a rfl

theorem Gives.issue {c : Cmd ν} {f : c.Resp → ExceptT ε (Io ν) α} (hc : G t c)
    (h : ∀ r, Gives G S (⟨c, r⟩ :: t) (f r)) :
    Gives G S t (ExceptT.lift (ContextStore.issue c) >>= f) :=
  Conforms.except_bind_iff.mpr (Conforms.lift_issue.mpr ⟨hc, fun r => h r⟩)

end Conc

namespace ContextStore

open Conc

variable {ν : Type} {E : Env ν} {ρ : Role ν} {t t' : Hist ν} {n : ν} {key : ObjectKey} {s : String}
  {m : BlockMeta} {α β ε : Type}

abbrev Seen (t : Hist ν) (c : Cmd ν) (r : c.Resp) : Prop := (⟨c, r⟩ : Event (Cmd ν) Cmd.Resp) ∈ t

def learns (s : String) : Event (Cmd ν) Cmd.Resp → Option (Option BlockMeta)
  | ⟨.redis (.getBlock s'), .ok r⟩ => if s' = s then some r else none
  | ⟨.redis (.putBlockIfAbsent s' _), .ok _⟩ => if s' = s then some none else none
  | ⟨.redis (.replaceBlock s' _ _), .ok _⟩ => if s' = s then some none else none
  | ⟨.redis (.retireBlock s' _), .ok _⟩ => if s' = s then some none else none
  | ⟨.redis (.retireBlockIfMatches s' _ _), .ok true⟩ => if s' = s then some none else none
  | ⟨.redis (.deleteBlockIfMatches s' _), .ok true⟩ => if s' = s then some none else none
  | _ => none

def view (s : String) : Hist ν → Option BlockMeta
  | [] => none
  | e :: t => (learns s e).getD (view s t)

theorem view_cons {e : Event (Cmd ν) Cmd.Resp} (h : learns s e = none) :
    view s (e :: t) = view s t := by
  simp [view, h]

@[simp] theorem view_getBlock (r : Option BlockMeta) :
    view s (⟨.redis (.getBlock s), .ok r⟩ :: t : Hist ν) = r := by
  simp [view, learns]

def Refutes (s : String) (m : BlockMeta) (e : Event (Cmd ν) Cmd.Resp) : Prop :=
  (∃ r, e = ⟨.redis (.getBlock s), .ok r⟩ ∧ r ≠ some m) ∨
    ∃ nb, e = ⟨.redis (.retireBlockIfMatches s m nb), .ok false⟩

/-! ## 期限 -/

def Fresh (t : Hist ν) (m : BlockMeta) : Prop :=
  ∃ now, (⟨.now, now⟩ : Event (Cmd ν) Cmd.Resp) ∈ t ∧ m.isExpiredAt now = false

def Shaken (t : Hist ν) (s : String) (m : BlockMeta) : Prop :=
  ∃ e t₁, e :: t₁ <:+ t ∧ view s t₁ = some m ∧ Refutes s m e

def Timed (t : Hist ν) (s : String) (m : BlockMeta) : Prop := Fresh t m ∨ Shaken t s m

def Known (t : Hist ν) (s : String) (m : BlockMeta) : Prop := Fresh t m ∨ view s t = some m

theorem Fresh.mono (h : Fresh t m) (hs : t <:+ t') : Fresh t' m := by
  obtain ⟨now, hnow, hm⟩ := h
  exact ⟨now, hs.subset hnow, hm⟩

theorem Shaken.mono (h : Shaken t s m) (hs : t <:+ t') : Shaken t' s m := by
  obtain ⟨e, t₁, ht₁, hrest⟩ := h
  exact ⟨e, t₁, ht₁.trans hs, hrest⟩

theorem Timed.mono (h : Timed t s m) (hs : t <:+ t') : Timed t' s m :=
  h.imp (·.mono hs) (·.mono hs)

theorem Fresh.of_now {now : Int} (h : m.isExpiredAt now = false) :
    Fresh (⟨.now, now⟩ :: t : Hist ν) m :=
  ⟨now, List.mem_cons_self, h⟩

def LiveGuard (t : Hist ν) : Cmd ν → Prop
  | .redis (.getBlock _) => True
  | .redis (.retireBlockIfMatches s m _) => Looked t s m ∧
      ∃ now, (⟨.now, now⟩ : Event (Cmd ν) Cmd.Resp) ∈ t ∧ m.isExpiredAt now = true
  | .now | .reconnect | .lock _ _ _ | .unlock _ _ _ => True
  | .l1 _ (.popCache _) | .l1 _ (.popChunks _) => True
  | _ => False

section Live

variable {G : Hist ν → Cmd ν → Prop} {S : Hist ν → α → Prop}

theorem Gives.send {op : String} {c : RedisCmd} (hc : ∀ t', t <:+ t' → G t' (.redis c))
    (hr : ∀ t, G t .reconnect) :
    Gives G (fun t' v => ∃ t₁, t' = ⟨.redis c, .ok v⟩ :: t₁ ∧ t <:+ t₁ ∧
      ∀ s, view s t₁ = view s t) t (Metadata.runWithReconnect op (sendRedis c)) := by
  refine Conforms.runWithReconnect ⟨hc t (List.suffix_refl t), ?_⟩
  have herr : ∀ s e, learns s (⟨.redis c, .error e⟩ : Event (Cmd ν) Cmd.Resp) = none := by
    intro s e
    cases c <;> rfl
  rintro (first | v)
  · have hs : t <:+ ⟨.reconnect, .ok ()⟩ :: ⟨.redis c, .error first⟩ :: t :=
      (List.suffix_cons _ _).trans (List.suffix_cons _ _)
    refine ⟨hr _, fun _ => nofun, hc _ hs, ?_⟩
    rintro (second | v)
    · exact nofun
    · rintro _ ⟨⟩
      refine ⟨_, rfl, hs, fun s => ?_⟩
      rw [view_cons rfl, view_cons (herr s first)]
  · rintro _ ⟨⟩
    exact ⟨t, rfl, List.suffix_refl t, fun _ => rfl⟩

def Lookup (t : Hist ν) (s : String) (t' : Hist ν) (r : Option BlockMeta) : Prop :=
  view s t' = r ∧ (∀ m, r = some m → Looked t' s m) ∧
    ∀ m, view s t = some m → r ≠ some m → Shaken t' s m

theorem getBlock_gives : Gives LiveGuard (Lookup t s) t (Metadata.getBlock (ν := ν) s) := by
  refine (Gives.send (fun _ _ => trivial) fun _ => trivial).weaken ?_
  rintro _ r - ⟨t₁, rfl, hs, hv⟩
  refine ⟨view_getBlock r, ?_, ?_⟩
  · rintro m rfl
    exact List.mem_cons_self
  · intro m hm hne
    exact ⟨_, t₁, List.suffix_refl _, by rw [hv, hm], .inl ⟨r, rfl, hne⟩⟩

theorem isExpired_gives {f : Bool → Res ν α} (hG : G t .now)
    (h : ∀ now, Gives G S (⟨.now, now⟩ :: t) (f (m.isExpiredAt now))) :
    Gives G S t (Storage.isExpired m >>= f) := ⟨hG, h⟩

theorem serviceIsExpired_gives {f : Bool → Svc ν α} (hG : G t .now)
    (h : ∀ now, Gives G S (⟨.now, now⟩ :: t) (f (m.isExpiredAt now))) :
    Gives G S t (Service.isExpired m >>= f) := ⟨hG, h⟩

theorem gcNotBefore_gives {f : Int → Res ν α} (hG : G t .now)
    (h : ∀ now, Gives G S (⟨.now, now⟩ :: t) (f (now + (E.cfg n).gcGraceSeconds))) :
    Gives G S t (Storage.gcNotBefore E n >>= f) := ⟨hG, h⟩

theorem LiveGuard.withLock {cls : LockClass} {x : ExceptT ε (Io ν) α}
    (h : Gives LiveGuard S (⟨.lock n cls s, ()⟩ :: t) x)
    (hS : ∀ t' a, S t' a → S (⟨.unlock n cls s, ()⟩ :: t') a) :
    Gives LiveGuard S t (withLock n cls s x) := by
  refine Conforms.issue_bind.mpr ⟨trivial, fun _ => Conforms.bind h ?_⟩
  rintro t₁ r - hr
  exact ⟨trivial, fun _ a ha => hS t₁ a (hr a ha)⟩

theorem invalidate_issues : Issues LiveGuard t (Memory.invalidate n s) :=
  ⟨trivial, fun _ => ⟨trivial, fun _ => trivial⟩⟩

theorem identityMatches_self (m : BlockMeta) : m.identityMatches m = true := by
  simp [BlockMeta.identityMatches]

theorem deleteExpiredCurrentLocked_gives :
    Gives LiveGuard (fun t' retired => view key.toStringKey t = some m → retired = false →
      Timed t' key.toStringKey m) t (Storage.deleteExpiredCurrentLocked E n key m) := by
  unfold Storage.deleteExpiredCurrentLocked
  refine getBlock_gives.bind ?_
  rintro t₁ (_ | current) - ⟨hv₁, hlook, hshaken⟩
  · exact .pure fun hv _ => .inr (hshaken m hv nofun)
  refine isExpired_gives trivial fun now => ?_
  have hother : ∀ t', ⟨.now, now⟩ :: t₁ <:+ t' → view key.toStringKey t = some m → current ≠ m →
      Timed t' key.toStringKey m := fun t' hs hv hne =>
    .inr ((hshaken m hv (by simpa using hne)).mono ((List.suffix_cons _ _).trans hs))
  split
  next hcond =>
    refine .pure fun hv _ => ?_
    by_cases hcur : current = m
    · subst hcur
      exact .inl (.of_now (by simpa [identityMatches_self] using hcond))
    · exact hother _ (List.suffix_refl _) hv hcur
  next hcond =>
    have hexp : current.isExpiredAt now = true := by simp_all
    refine gcNotBefore_gives trivial fun now' => (Gives.send ?_ fun _ => trivial).weaken ?_
    · intro t' hs
      refine ⟨(hlook current rfl).mono ?_, now, ?_, hexp⟩
      · exact (List.suffix_cons _ _).trans ((List.suffix_cons _ _).trans hs)
      · exact hs.subset (List.mem_cons_of_mem _ List.mem_cons_self)
    · rintro _ retired - ⟨t₂, rfl, hs₂, hv₂⟩ hv rfl
      by_cases hcur : current = m
      · subst hcur
        refine .inr ⟨_, t₂, List.suffix_refl _, ?_, .inr ⟨_, rfl⟩⟩
        rw [hv₂, view_cons rfl, view_cons rfl, hv₁]
      · exact hother _ ((List.suffix_cons _ _).trans (hs₂.trans (List.suffix_cons _ _))) hv hcur

theorem purgeIfExpired_gives :
    Gives LiveGuard (fun t' purged => purged = false → Known t key.toStringKey m →
      Timed t' key.toStringKey m) t (Storage.purgeIfExpired E n key m) := by
  unfold Storage.purgeIfExpired
  refine isExpired_gives trivial fun now => ?_
  split
  next hcond => exact .pure fun _ _ => .inl (.of_now (by simpa using hcond))
  · refine LiveGuard.withLock (deleteExpiredCurrentLocked_gives.weaken ?_) ?_
    · rintro t' retired hs h hret (hfresh | hv)
      · exact .inl (hfresh.mono ((List.suffix_cons _ _).trans ((List.suffix_cons _ _).trans hs)))
      · refine h ?_ hret
        rw [view_cons rfl, view_cons rfl, hv]
    · exact fun t' _ h hret hk => (h hret hk).mono (List.suffix_cons _ _)

theorem storageExistsLive_issues : Issues LiveGuard t (Storage.existsLive E n key).run := by
  refine Gives.issues (S := fun _ _ => True) (getBlock_gives.bind ?_)
  rintro t₁ (_ | m) - -
  · exact .pure trivial
  · refine isExpired_gives trivial fun now => ?_
    split
    · exact .pure trivial
    · exact .after deleteExpiredCurrentLocked_gives.issues fun _ _ _ => .pure trivial

theorem expiredCurrent_issues : Issues LiveGuard t (Service.expiredCurrent key m).run := by
  refine Gives.issues (S := fun _ _ => True) (getBlock_gives.bind ?_)
  rintro t₁ (_ | cur) - -
  · exact .pure trivial
  · exact isExpired_gives trivial fun now => .pure trivial

theorem purgeExpiredObjectLocked_issues (hl : Looked t key.toStringKey m) :
    Issues LiveGuard t (Service.purgeExpiredObjectLocked E n key m).run := by
  refine Gives.issues (S := fun _ _ => True) (serviceIsExpired_gives trivial fun now => ?_)
  split
  · exact .pure trivial
  next hcond =>
    have hexp : m.isExpiredAt now = true := by simpa using hcond
    split
    · refine .after expiredCurrent_issues.liftRes fun t₁ current hs₁ => ?_
      split
      · exact .pure trivial
      · refine Gives.issue trivial fun now' =>
          .after (Gives.send ?_ fun _ => trivial).liftRes.issues
          fun t₂ retired _ => ?_
        · intro t' hs
          have hs' := hs₁.trans ((List.suffix_cons _ _).trans hs)
          exact ⟨hl.mono ((List.suffix_cons _ _).trans hs'), now, hs'.subset List.mem_cons_self,
            hexp⟩
        · split
          · exact .pure trivial
          · exact .after invalidate_issues.exceptLift fun _ _ _ => .pure trivial
    · exact Gives.weaken purgeIfExpired_gives.liftRes fun _ _ _ _ => trivial

theorem purgeExpiredObject_issues (hl : Looked t key.toStringKey m) :
    Issues LiveGuard t (Service.purgeExpiredObject E n key m).run := by
  refine Gives.issues (S := fun _ _ => True) (serviceIsExpired_gives trivial fun now => ?_)
  split
  · exact .pure trivial
  · refine LiveGuard.withLock ?_ fun _ _ h => h
    refine Gives.of_issues (purgeExpiredObjectLocked_issues ?_)
    exact hl.mono ((List.suffix_cons _ _).trans (List.suffix_cons _ _))

theorem metadataGetLive_gives :
    Gives LiveGuard (fun t' r => ∀ m, r = some m → Looked t' key.toStringKey m ∧ Fresh t' m) t
      (Service.metadataGetLive E n key) := by
  unfold Service.metadataGetLive
  refine getBlock_gives.liftRes.bind ?_
  rintro t₁ (_ | m) - ⟨-, hl, -⟩
  · exact .pure nofun
  refine serviceIsExpired_gives trivial fun now => ?_
  have hl : Looked (⟨.now, now⟩ :: t₁) key.toStringKey m := (hl m rfl).mono (List.suffix_cons _ _)
  split
  next hcond =>
    refine .pure ?_
    rintro _ ⟨⟩
    exact ⟨hl, .of_now (by simpa using hcond)⟩
  · refine .after (purgeExpiredObject_issues hl) fun t₂ purged _ => ?_
    split
    · exact .pure nofun
    ·
      refine getBlock_gives.liftRes.bind ?_
      rintro t₃ (_ | current) - ⟨-, hl₃, -⟩
      · exact .pure nofun
      refine serviceIsExpired_gives trivial fun now' => .pure ?_
      by_cases hcur : current.isExpiredAt now' = true
      · rw [if_pos hcur]
        rintro _ ⟨⟩
      · rw [if_neg hcur]
        grind [Looked.mono, Fresh.of_now]

theorem serviceExistsLive_issues : Issues LiveGuard t (Service.existsLive E n key).run := by
  refine Gives.issues (S := fun _ _ => True) (getBlock_gives.liftRes.bind ?_)
  rintro t₁ (_ | m) - ⟨-, hl, -⟩
  · exact .pure trivial
  · refine serviceIsExpired_gives trivial fun now => ?_
    split
    · exact .pure trivial
    · exact .after (purgeExpiredObjectLocked_issues ((hl m rfl).mono (List.suffix_cons _ _)))
        fun _ _ _ => .pure trivial

theorem validateActive_issues {desc : ObjectDescriptor} {p : Option PlacementDescriptor} :
    Issues LiveGuard t (Service.validateActive E n key desc p).run := by
  unfold Service.validateActive
  split
  · trivial
  · refine Issues.exceptBind metadataGetLive_gives.issues ?_
    rintro t₁ (_ | active)
    · trivial
    · exact Issues.exceptBind .ofExcept fun _ _ => .ofExcept

end Live

def recordedLength (s : StripingInfo) (i : Nat) : Nat :=
  min ((i + 1) * s.chunkSize) s.totalSize - i * s.chunkSize

structure Reader (ν : Type) where
  knows : Hist ν → String → BlockMeta → Prop
  mono : ∀ {t t' s m}, knows t s m → t <:+ t' → knows t' s m
  looked : ∀ {t s m}, Looked t s m → knows t s m
  purges : Prop
  streams : Prop
  copies : Prop

def Reader.any (ν : Type) : Reader ν where
  knows := fun _ _ _ => True
  mono := fun _ _ => trivial
  looked := fun _ => trivial
  purges := True
  streams := True
  copies := True

section Guard

variable (E : Env ν) (n : ν) (R : Reader ν) (t : Hist ν)

def Reader.After (s : String) (m : BlockMeta) (e : Event (Cmd ν) Cmd.Resp) : Prop :=
  ∃ t₁, e :: t₁ <:+ t ∧ R.knows t₁ s m

inductive Blamed (key : ObjectKey) (m : BlockMeta) : Prop where
  | absent {p : String} {e : Event (Cmd ν) Cmd.Resp} (hp : LookPath E n key m p)
      (ha : Absent n p e) (he : R.After t key.toStringKey m e)
  | mismatch {s : StripingInfo} {i : Nat} {p : String} {data : Bytes} {err : KVError}
      (hst : m.striping = some s) (hp : s.chunkPaths[i]? = some p)
      (he : R.After t key.toStringKey m ⟨.readFile n p, .ok data⟩)
      (hv : Storage.verifyStripeBytes E n s i data = .error err)
  | ranges {s : StripingInfo} {i : Nat} {p : String} {results : List (Except IoError Bytes)}
      {err : KVError} (hstreams : R.streams)
      (hver : (E.cfg n).verifyStripeChecksums = true) (hst : m.striping = some s)
      (hp : s.chunkPaths[i]? = some p)
      (hseen : List.Forall₂ (fun (r : Storage.Range) res =>
        R.After t key.toStringKey m ⟨.readRange n r.path r.offset r.length, res⟩)
        (rangesOf E n s i p) results)
      (hv : Storage.rangesError E s i (rangesOf E n s i p) results = some err)
  | copied {s : StripingInfo} {i : Nat} {p : String} {data : Bytes} (hcopies : R.copies)
      (hst : m.striping = some s) (hp : s.chunkPaths[i]? = some p)
      (he : R.After t key.toStringKey m ⟨.readFile n p, .ok data⟩)
      (hv : data.length ≠ recordedLength s i ∨
        ∃ err, Storage.verifyStripeBytes E n s i data = .error err)

def Held (s : String) (m : BlockMeta) (b : Bytes) : Prop :=
  ∃ key : ObjectKey, s = key.toStringKey ∧ R.knows t s m ∧ ReadBack E t n key m b

def RedisReads : RedisCmd → Prop
  | .getBlock _ => True
  | .retireBlockIfMatches s m _ => Looked t s m ∧
      ∃ now, (⟨.now, now⟩ : Event (Cmd ν) Cmd.Resp) ∈ t ∧ m.isExpiredAt now = true
  | .deleteBlockIfMatches s g => R.purges ∧ ∃ key m, s = key.toStringKey ∧
      m.objectGeneration = g ∧ R.knows t s m ∧ Blamed E n R t key m
  | _ => False

def L1Reads (n' : ν) : L1Cmd → Prop
  | .insertCache s e => n' = n ∧ Held E n R t s e.blockMeta e.data
  | .insertChunks s e _ => n' = n ∧ Held E n R t s e.blockMeta e.segments.flatten
  | _ => True

def ReadGuard : Cmd ν → Prop
  | .redis c => RedisReads E n R t c
  | .l1 n' c => L1Reads E n R t n' c
  | .invoke _ _ | .writeFile _ _ _ | .deleteFile _ _ => False
  | _ => True

end Guard

variable {R : Reader ν} {c : Cmd ν}

theorem LiveGuard.read (h : LiveGuard t c) : ReadGuard E n R t c := by
  cases c with
  | redis c => cases c <;> first | exact h | exact h.elim
  | l1 n' c => cases c <;> trivial
  | invoke k b => exact h
  | writeFile n p data => exact h
  | deleteFile n p => exact h
  | _ => trivial

theorem ReadGuard.ledger (h : ReadGuard E n R t c) (hq : (ledger t).Quiet) (r : c.Resp) :
    ledger (⟨c, r⟩ :: t) = ContextStore.ledger t := by
  cases c with
  | redis c => cases c <;> first | rfl | exact h.elim
  | reconnect => exact hq.reconnect r
  | invoke k b => exact h.elim
  | writeFile n p data => exact h.elim
  | deleteFile n p => exact h.elim
  | _ => rfl

def Role.reader (ρ : Role ν) : Reader ν where
  knows := Looked
  mono := Looked.mono
  looked := id
  purges := ρ.purges = true
  streams := True
  copies := False

theorem Blamed.unreadable (h : Blamed E n ρ.reader t key m) : Unreadable E t key m := by
  cases h with
  | absent hp ha he => exact .inl ⟨n, _, _, hp, ha, he⟩
  | mismatch hst hp he hv => exact .inr (.inl ⟨n, _, _, _, _, _, hst, hp, he, hv⟩)
  | ranges _ hver hst hp hseen hv => exact .inr (.inr ⟨n, _, _, _, _, _, hst, hp, hver, hseen, hv⟩)
  | copied hcopies => exact hcopies.elim

theorem Held.provenance {b : Bytes} (hn : ρ.node = n) (h : Held E n ρ.reader t s m b) :
    Provenance E ρ t s m b := by
  obtain ⟨key, hs, hl, hr⟩ := h
  rw [← hn] at hr
  exact .inr ⟨key, hs, hl, hr⟩

theorem ReadGuard.guard (hn : ρ.node = n) (h : ReadGuard E n ρ.reader t c) : Guard E ρ t c := by
  cases c with
  | redis c =>
    cases c with
    | getBlock s => trivial
    | retireBlockIfMatches s m nb => exact h
    | deleteBlockIfMatches s g =>
      obtain ⟨hp, key, m, hs, hg, hl, hb⟩ := h
      exact ⟨hp, key, m, hs, hg, hl, hb.unreadable⟩
    | _ => exact h.elim
  | l1 n' c =>
    cases c with
    | insertCache s e => exact ⟨h.1.trans hn.symm, h.2.provenance hn⟩
    | insertChunks s e b => exact ⟨h.1.trans hn.symm, h.2.provenance hn⟩
    | _ => trivial
  | invoke k b => exact h.elim
  | writeFile n p data => exact h.elim
  | deleteFile n p => exact h.elim
  | _ => trivial

def Plain (E : Env ν) (ρ : Role ν) (t : Hist ν) (p : Io ν α) : Prop :=
  Conforms (Guard E ρ) (fun t' _ => ledger t' = ledger t) t p

end ContextStore

namespace Conc

open ContextStore

variable {ν α : Type} {E : Env ν} {ρ : Role ν} {t : Hist ν} {n : ν} {p : Io ν α}
  {Q : Hist ν → α → Prop}

theorem Conforms.quietly (h : Conforms (ReadGuard E n ρ.reader) Q t p) (hn : ρ.node = n)
    (hq : (ledger t).Quiet) :
    Conforms (Guard E ρ) (fun t' a => ledger t' = ledger t ∧ Q t' a) t p := by
  refine (h.keep (I := fun t' => ledger t' = ledger t) rfl ?_).mono
    (fun _ _ h => h.2.guard hn) fun _ _ _ h => h
  intro t' c r hl hc
  exact (hc.ledger (by rw [hl]; exact hq) r).trans hl

theorem Conforms.plain (h : Conforms (ReadGuard E n ρ.reader) Q t p) (hn : ρ.node = n)
    (hq : (ledger t).Quiet) : Plain E ρ t p :=
  (h.quietly hn hq).weaken fun _ _ _ h => h.1

theorem Issues.live (h : Issues LiveGuard t p) (hq : (ledger t).Quiet) : Plain E ρ t p :=
  Conforms.plain (h.mono fun _ _ => LiveGuard.read) rfl hq

end Conc
