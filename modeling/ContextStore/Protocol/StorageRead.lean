import ContextStore.Protocol.StorageWrite
import ContextStore.Util.KeyedFold

/-!
# 規約: storage tier の読み出し

storage tier の読み出しを 1 度だけ辿る。
-/

namespace ContextStore

open Conc

variable {ν : Type} {E : Env ν} {R : Reader ν} {t t' : Hist ν} {n : ν} {key : ObjectKey}
  {m : BlockMeta} {s : StripingInfo} {α β : Type}

section After

variable {k : String} {e : Event (Cmd ν) Cmd.Resp}

theorem Reader.After.mono (h : R.After t k m e) (hs : t <:+ t') : R.After t' k m e := by
  obtain ⟨t₁, h₁, hk⟩ := h
  exact ⟨t₁, h₁.trans hs, hk⟩

theorem Reader.After.mem (h : R.After t k m e) : e ∈ t := by
  obtain ⟨t₁, h₁, -⟩ := h
  exact h₁.subset List.mem_cons_self

theorem Reader.after_cons (hk : R.knows t k m) : R.After (e :: t) k m e :=
  ⟨t, List.suffix_refl _, hk⟩

end After

variable {p : String}

theorem ReadsFile.mono {len : Nat} {data : Bytes} (h : ReadsFile t n p len data)
    (hs : t <:+ t') : ReadsFile t' n p len data := by
  rcases h with h | ⟨step, i, parts, hstep, hdata, hparts⟩
  · exact .inl (hs.subset h)
  · exact .inr ⟨step, i, parts, hstep, hdata, hparts.imp fun _ _ h => ⟨h.1, hs.subset h.2⟩⟩

section Data

variable {b : Bytes}

theorem ReadBack.mono (h : ReadBack E t n key m b) (hs : t <:+ t') : ReadBack E t' n key m b := by
  unfold ReadBack at h ⊢
  cases hst : m.striping with
  | none => rw [hst] at h; exact ReadsFile.mono h hs
  | some s =>
    grind [ReadsFile.mono]

def Fetched (E : Env ν) (t : Hist ν) (n : ν) (key : ObjectKey) (m : BlockMeta) (b : Bytes) : Prop :=
  Looked t key.toStringKey m ∧ ReadBack E t n key m b

theorem Fetched.mono (h : Fetched E t n key m b) (hs : t <:+ t') : Fetched E t' n key m b :=
  ⟨h.1.mono hs, h.2.mono hs⟩

theorem readBack_whole (hst : m.striping = none)
    (h : ReadsFile t n (Storage.metaPathOrRoute E n key m) m.size b) :
    ReadBack E t n key m b := by
  unfold ReadBack
  rw [hst]
  exact h

def ReadStripes (n : ν) (s : StripingInfo) (t : Hist ν) (parts : List Bytes) : Prop :=
  List.Forall₂ (fun p part => Seen t (.readFile n p) (.ok part)) s.chunkPaths parts

def ReadAs (E : Env ν) (n : ν) (t : Hist ν) (key : ObjectKey) (m : BlockMeta) (b : Bytes) : Prop :=
  match m.striping with
  | none => Seen t (.readFile n (Storage.metaPathOrRoute E n key m)) (.ok b)
  | some s => ∃ parts, b = parts.flatten ∧ ReadStripes n s t parts

theorem ReadAs.mono (h : ReadAs E n t key m b) (hs : t <:+ t') : ReadAs E n t' key m b := by
  grind [ReadAs, ReadStripes, List.Forall₂.imp]

theorem ReadAs.whole (hst : m.striping = none)
    (h : Seen t (.readFile n (Storage.metaPathOrRoute E n key m)) (.ok b)) :
    ReadAs E n t key m b := by
  unfold ReadAs
  rw [hst]
  exact h

theorem ReadAs.striped {parts : List Bytes} (hst : m.striping = some s)
    (h : ReadStripes n s t parts) : ReadAs E n t key m parts.flatten := by
  unfold ReadAs
  rw [hst]
  exact ⟨parts, rfl, h⟩

theorem readBack_striped {parts : List Bytes} (hst : m.striping = some s)
    (h : ReadStripes n s t parts) : ReadBack E t n key m parts.flatten := by
  unfold ReadBack
  rw [hst]
  refine ⟨parts, rfl, h.length_eq.symm, ?_⟩
  intro i p part hp hpart
  obtain ⟨hi, rfl⟩ := List.getElem?_eq_some_iff.mp hp
  obtain ⟨hi', rfl⟩ := List.getElem?_eq_some_iff.mp hpart
  exact .inl (h.get hi hi')

theorem ReadAs.readBack (h : ReadAs E n t key m b) : ReadBack E t n key m b := by
  unfold ReadAs at h
  split at h
  next hst => exact readBack_whole hst (.inl h)
  next s hst =>
    obtain ⟨parts, rfl, h⟩ := h
    exact readBack_striped hst h

structure Acquired (E : Env ν) (n : ν) (t : Hist ν) (key : ObjectKey) (m : BlockMeta) (b : Bytes) :
    Prop where
  looked : Looked t key.toStringKey m
  read : ReadAs E n t key m b
  timed : Timed t key.toStringKey m

theorem Acquired.mono (h : Acquired E n t key m b) (hs : t <:+ t') : Acquired E n t' key m b :=
  ⟨h.looked.mono hs, h.read.mono hs, h.timed.mono hs⟩

theorem Acquired.held (h : Acquired E n t key m b) : Held E n R t key.toStringKey m b :=
  ⟨key, rfl, R.looked h.looked, h.read.readBack⟩

end Data

theorem joinReads_conforms {ι : Type} {f : ι → Io ν α} {e : ι → α → Event (Cmd ν) Cmd.Resp}
    {xs : List ι} {J : Hist ν → Prop} (hJ : ∀ {t t'}, J t → t <:+ t' → J t') (h : J t)
    (hread : ∀ (x : ι) (t : Hist ν) (Q : Hist ν → α → Prop), (∀ r, Q (e x r :: t) r) →
      Conforms (ReadGuard E n R) Q t (f x)) :
    Conforms (ReadGuard E n R) (fun t' rs => List.Forall₂ (fun x r =>
      ∃ t₁, e x r :: t₁ <:+ t' ∧ J t₁) xs rs) t (joinAll pickNext (xs.map f)) := by
  refine (Conforms.joinAll (P := fun x t' r => ∃ t₁, e x r :: t₁ <:+ t' ∧ J t₁) ?_ ?_ h
    ?_).weaken fun _ _ _ h => h.2
  · exact fun t' _ h => ⟨trivial, fun _ => hJ h (List.suffix_cons _ _)⟩
  · rintro x t₁ t₂ r hs - - ⟨t₀, h₀, hJ₀⟩
    exact ⟨t₀, h₀.trans hs, hJ₀⟩
  · intro x _ t₁ h₁
    exact hread x t₁ _ fun r => ⟨hJ h₁ (List.suffix_cons _ _), t₁, List.suffix_refl _, h₁⟩

theorem readBatch_conforms {paths : List String} :
    Conforms (ReadGuard E n R) (fun t' rs => List.Forall₂ (fun p r => Seen t' (.readFile n p) r)
      paths rs) t (readBatch n paths) := by
  refine (joinReads_conforms (J := fun _ => True) (f := readFile n)
    (e := fun p r => ⟨.readFile n p, r⟩) (fun h _ => h) trivial
    fun _ _ _ h => ⟨trivial, h⟩).weaken fun t' rs _ h => h.imp ?_
  rintro p r ⟨t₁, h₁, -⟩
  exact h₁.subset List.mem_cons_self

theorem checkStripes_ok :
    ∀ {rs : List (Except IoError Bytes)} {i : Nat} {segs : List Bytes},
      Storage.checkStripes E n s i rs = .ok segs → rs = segs.map .ok
  | [], _, segs, h => by cases h; rfl
  | .error e :: rs, _, _, h => by cases h
  | .ok chunk :: rs, i, segs, h => by
    simp only [Storage.checkStripes] at h
    split at h
    · cases h
    · cases hrest : Storage.checkStripes E n s (i + 1) rs with
      | error e => rw [hrest] at h; cases h
      | ok more =>
        rw [hrest] at h
        cases h
        rw [List.map_cons, ← checkStripes_ok hrest]

theorem checkStripes_notFound {msg : String} :
    ∀ {rs : List (Except IoError Bytes)} {i : Nat},
      Storage.checkStripes E n s i rs = .error (.notFound msg) →
      ∃ j r, rs[j]? = some r ∧ ((∃ e : IoError, r = .error e ∧ e.notFound = true) ∨
        ∃ data err, r = .ok data ∧ Storage.verifyStripeBytes E n s (i + j) data = .error err)
  | [], _, h => by cases h
  | .error e :: rs, i, h => by
    refine ⟨0, .error e, rfl, .inl ⟨e, rfl, ?_⟩⟩
    simp only [Storage.checkStripes, Storage.stripeReadError, Except.error.injEq] at h
    split at h
    next hnf => exact hnf
    · cases h
  | .ok chunk :: rs, i, h => by
    simp only [Storage.checkStripes] at h
    split at h
    next e he => exact ⟨0, .ok chunk, rfl, .inr ⟨chunk, e, rfl, he⟩⟩
    · cases hrest : Storage.checkStripes E n s (i + 1) rs with
      | ok more => rw [hrest] at h; cases h
      | error e =>
        rw [hrest] at h
        cases h
        obtain ⟨j, r, hj, hr⟩ := checkStripes_notFound hrest
        refine ⟨j + 1, r, hj, ?_⟩
        rw [show i + (j + 1) = i + 1 + j by omega]
        exact hr

theorem Blamed.mono (h : Blamed E n R t key m) (hs : t <:+ t') : Blamed E n R t' key m := by
  cases h with
  | absent hp ha he => exact .absent hp ha (he.mono hs)
  | mismatch hst hp he hv => exact .mismatch hst hp (he.mono hs) hv
  | ranges hpath hver hst hp hseen hv =>
    exact .ranges hpath hver hst hp (hseen.imp fun _ _ he => he.mono hs) hv
  | copied hpath hst hp he hv => exact .copied hpath hst hp (he.mono hs) hv

theorem lookPath_stripe (hst : m.striping = some s) (hp : p ∈ s.chunkPaths) :
    LookPath E n key m p := by
  unfold LookPath
  rw [hst]
  exact hp

theorem lookPath_whole (hst : m.striping = none) :
    LookPath E n key m (Storage.metaPathOrRoute E n key m) := by
  unfold LookPath
  rw [hst]

section Purge

variable (hp : R.purges)
include hp

theorem deleteMetadataIfCurrent_issues (hk : R.knows t key.toStringKey m)
    (hb : Blamed E n R t key m) :
    Issues (ReadGuard E n R) t (Storage.deleteMetadataIfCurrent key m).run :=
  (Gives.send (fun _ hs => ⟨hp, key, m, rfl, rfl, R.mono hk hs, hb.mono hs⟩)
    fun _ => trivial).issues

def ReadSpec (E : Env ν) (n : ν) (R : Reader ν) (key : ObjectKey) (m : BlockMeta)
    (S : Hist ν → α → Prop) (t : Hist ν) : Except KVError α → Prop
  | .ok a => S t a
  | .error (.notFound _) => Blamed E n R t key m
  | .error _ => True

theorem orPurgeMissing_gives {read : Res ν α} {S : Hist ν → α → Prop}
    (hk : R.knows t key.toStringKey m)
    (h : Conforms (ReadGuard E n R) (ReadSpec E n R key m S) t read.run) :
    Gives (ReadGuard E n R) (fun t' r => ∀ a, r = some a → S t' a) t
      (Storage.orPurgeMissing key m read) := by
  unfold Storage.orPurgeMissing
  refine Conforms.except_bind (Q := fun t' r => ∃ x, r = .ok x ∧ ReadSpec E n R key m S t' x)
    (Conforms.attempt_iff.mpr (h.weaken fun t' r _ h => ⟨r, rfl, h⟩)) ?_ fun _ _ _ _ => nofun
  rintro t₁ r hs ⟨x, hx, hspec⟩
  cases hx
  split
  next data =>
    refine Gives.pure ?_
    rintro _ ⟨⟩
    exact hspec
  next =>
    exact Gives.after (deleteMetadataIfCurrent_issues hp (R.mono hk hs) hspec)
      fun _ _ _ => .pure nofun
  next => exact Gives.throw

theorem fileExists_gives {f : Res ν α} {a : α} {S : Hist ν → α → Prop}
    (hk : R.knows t key.toStringKey m) (hst : m.striping = none) (ha : ∀ t', S t' a)
    (hf : ∀ t', t <:+ t' → Gives (ReadGuard E n R) S t' f) :
    Gives (ReadGuard E n R) S t (do
      if !(← fileExists n (Storage.metaPathOrRoute E n key m)) then
        let _ ← Storage.deleteMetadataIfCurrent key m
        pure a
      else f : Res ν α) := by
  refine Gives.issue trivial ?_
  rintro (_ | _)
  · refine Gives.after (deleteMetadataIfCurrent_issues hp (R.mono hk (List.suffix_cons _ _)) ?_)
      fun _ _ _ => .pure (ha _)
    exact .absent (lookPath_whole hst) (.inl rfl) (R.after_cons hk)
  · exact hf _ (List.suffix_cons _ _)

end Purge

theorem readFile_gives {dst : ν} {f : Bytes → Res ν α} {S : Hist ν → α → Prop}
    (h : ∀ data, Gives (ReadGuard E n R) S (⟨.readFile dst p, .ok data⟩ :: t) (f data)) :
    Gives (ReadGuard E n R) S t (do let data ← ofIo (← readFile dst p); f data : Res ν α) := by
  refine Gives.issue trivial ?_
  rintro (e | data)
  · exact nofun
  · exact h data

def ReadInto (R : Reader ν) (n : ν) (k : String) (m : BlockMeta) (path : String) (t : Hist ν) :
    Except KVError Bytes → Prop
  | .ok data => R.After t k m ⟨.readFile n path, .ok data⟩
  | .error e => e.isNotFoundError = true → ∃ err : IoError, err.notFound = true ∧
      R.After t k m ⟨.readFile n path, .error err⟩

theorem readIntoPtr_conforms {k path : String} {ptr capacity : Nat} (hk : R.knows t k m) :
    Conforms (ReadGuard E n R) (ReadInto R n k m path) t
      (Storage.readIntoPtr n path ptr capacity).run := by
  unfold Storage.readIntoPtr
  split
  · exact nofun
  · split
    · exact nofun
    · refine Conforms.lift_bind ⟨trivial, ?_⟩
      rintro (e | data)
      · exact fun hnf => ⟨e, hnf, R.after_cons hk⟩
      · show Conforms _ _ _ (ExceptT.run (ite _ _ _))
        split
        · exact nofun
        · exact R.after_cons hk

theorem readStripedChunks_conforms (hst : m.striping = some s)
    (hk : R.knows t key.toStringKey m) :
    Conforms (ReadGuard E n R)
      (ReadSpec E n R key m fun t' segs => ReadAs E n t' key m segs.flatten) t
      (Storage.readStripedChunks E n s).run := by
  unfold Storage.readStripedChunks
  refine Conforms.lift_bind ((joinReads_conforms (J := fun t => R.knows t key.toStringKey m)
    (f := readFile n) (e := fun p r => ⟨.readFile n p, r⟩) R.mono hk
    fun _ _ _ h => ⟨trivial, h⟩).weaken ?_)
  intro t₁ rs _ hrs
  refine Conforms.ofExcept_iff.mpr ?_
  match hc : Storage.checkStripes E n s 0 rs with
  | .ok segs =>
    rw [checkStripes_ok hc, List.forall₂_map_right_iff] at hrs
    exact .striped hst (hrs.imp fun _ _ h => Reader.After.mem h)
  | .error (.notFound msg) =>
    obtain ⟨j, r, hj, hr⟩ := checkStripes_notFound hc
    obtain ⟨hj', rfl⟩ := List.getElem?_eq_some_iff.mp hj
    have hjp : j < s.chunkPaths.length := by rw [hrs.length_eq]; exact hj'
    have hread := hrs.get hjp hj'
    simp only [List.get_eq_getElem] at hread
    rcases hr with ⟨e, he, hnf⟩ | ⟨data, err, hdata, hver⟩
    · rw [he] at hread
      exact .absent (lookPath_stripe hst (List.getElem_mem hjp)) (.inr (.inl ⟨e, hnf, rfl⟩)) hread
    · rw [hdata] at hread
      exact .mismatch hst (List.getElem?_eq_getElem hjp) hread (by simpa using hver)
  | .error (.config _) => trivial
  | .error (.alreadyExists _) => trivial
  | .error (.io _) => trivial
  | .error (.metadata _) => trivial
  | .error (.invalidArgument _) => trivial
  | .error (.internal _) => trivial

theorem readStriped_conforms (hst : m.striping = some s) (hk : R.knows t key.toStringKey m) :
    Conforms (ReadGuard E n R) (ReadSpec E n R key m (ReadAs E n · key m ·)) t
      (Storage.readStriped E n s).run := by
  unfold Storage.readStriped
  refine Conforms.except_bind (readStripedChunks_conforms hst hk) (fun _ _ _ h => h) ?_
  intro t' e _ h
  cases e <;> exact h

section Reads

variable (hp : R.purges)
include hp

theorem fetch_gives {f : StripingInfo → Res ν β} {g : Option β → α} {w : Res ν α}
    {B : Hist ν → β → Prop} {S : Hist ν → α → Prop} (hk : R.knows t key.toStringKey m)
    (hnone : ∀ t', S t' (g none))
    (hf : ∀ s t', m.striping = some s → R.knows t' key.toStringKey m →
      Conforms (ReadGuard E n R) (ReadSpec E n R key m B) t' (f s).run)
    (hg : ∀ s t' b, m.striping = some s →
      (Known t key.toStringKey m → Timed t' key.toStringKey m) → B t' b → S t' (g (some b)))
    (hw : ∀ t', m.striping = none → R.knows t' key.toStringKey m →
      (Known t key.toStringKey m → Timed t' key.toStringKey m) →
      Gives (ReadGuard E n R) S t' w) :
    Gives (ReadGuard E n R) S t (do
      if ← Storage.purgeIfExpired E n key m then pure (g none)
      else match m.striping with
        | some s =>
          let r ← Storage.orPurgeMissing key m (f s)
          pure (g r)
        | none =>
          if !(← fileExists n (Storage.metaPathOrRoute E n key m)) then
            let _ ← Storage.deleteMetadataIfCurrent key m
            pure (g none)
          else w : Res ν α) := by
  refine (purgeIfExpired_gives.mono fun _ _ => LiveGuard.read).bind fun t₁ purged hs₁ htimed => ?_
  cases purged with
  | true => exact .pure (hnone t₁)
  | false =>
    rw [if_neg (by simp)]
    have hk₁ := R.mono hk hs₁
    split
    next s hst =>
      refine (orPurgeMissing_gives hp hk₁ (hf s t₁ hst hk₁)).bind ?_
      rintro t₂ (_ | b) hs₂ h₂
      · exact .pure (hnone t₂)
      · exact .pure (hg s t₂ b hst (fun h => (htimed rfl h).mono hs₂) (h₂ b rfl))
    next hst =>
      refine fileExists_gives hp hk₁ hst hnone fun t₂ hs₂ => ?_
      exact hw t₂ hst (R.mono hk₁ hs₂) fun h => (htimed rfl h).mono hs₂

theorem getWithMeta_gives (hk : R.knows t key.toStringKey m) :
    Gives (ReadGuard E n R) (fun t' r => ∀ x, r = some x → x.2 = m ∧ ReadAs E n t' key m x.1 ∧
      (Known t key.toStringKey m → Timed t' key.toStringKey m)) t
      (Storage.getWithMeta E n key m) := by
  refine fetch_gives hp (g := fun r => r.map fun data => (data, m)) hk (fun _ => nofun)
    (fun _ _ hst hk => readStriped_conforms hst hk) ?_ ?_
  · rintro s t' data - hd hread _ ⟨⟩
    exact ⟨rfl, hread, hd⟩
  · refine fun t' hst _ hd => readFile_gives fun data => .pure ?_
    rintro _ ⟨⟩
    exact ⟨rfl, .whole hst List.mem_cons_self, fun h => (hd h).mono (List.suffix_cons _ _)⟩

theorem getChunksWithMeta_gives (hk : R.knows t key.toStringKey m) :
    Gives (ReadGuard E n R) (fun t' r => ∀ x, r = some x → x.2 = m ∧
      ReadAs E n t' key m x.1.flatten ∧
      (Known t key.toStringKey m → Timed t' key.toStringKey m)) t
      (Storage.getChunksWithMeta E n key m) := by
  refine fetch_gives hp (g := fun r => r.map fun segs => (segs, m)) hk (fun _ => nofun)
    (fun _ _ hst hk => readStripedChunks_conforms hst hk) ?_ ?_
  · rintro s t' segs - hd hread _ ⟨⟩
    exact ⟨rfl, hread, hd⟩
  · refine fun t' hst _ hd => readFile_gives fun data => .pure ?_
    rintro _ ⟨⟩
    rw [List.flatten_singleton]
    exact ⟨rfl, .whole hst List.mem_cons_self, fun h => (hd h).mono (List.suffix_cons _ _)⟩

theorem storageGet_gives :
    Gives (ReadGuard E n R) (fun t' r => ∀ x, r = some x → Acquired E n t' key x.2 x.1) t
      (Storage.get E n key) := by
  refine (getBlock_gives.mono fun _ _ => LiveGuard.read).bind ?_
  rintro t₁ (_ | m) - ⟨hv, hl, -⟩
  · exact .pure nofun
  · refine (getWithMeta_gives hp (R.looked (hl m rfl))).weaken fun t' r hs h x hx => ?_
    obtain ⟨rfl, hread, hd⟩ := h x hx
    exact ⟨(hl _ rfl).mono hs, hread, hd (.inr hv)⟩

theorem storageGetChunks_gives :
    Gives (ReadGuard E n R) (fun t' r => ∀ x, r = some x → Acquired E n t' key x.2 x.1.flatten) t
      (Storage.getChunks E n key) := by
  refine (getBlock_gives.mono fun _ _ => LiveGuard.read).bind ?_
  rintro t₁ (_ | m) - ⟨hv, hl, -⟩
  · exact .pure nofun
  · refine (getChunksWithMeta_gives hp (R.looked (hl m rfl))).weaken fun t' r hs h x hx => ?_
    obtain ⟨rfl, hread, hd⟩ := h x hx
    exact ⟨(hl _ rfl).mono hs, hread, hd (.inr hv)⟩

omit hp in
theorem stripeFilesExist_conforms : ∀ (paths : List String) (t : Hist ν),
    R.knows t key.toStringKey m → Conforms (ReadGuard E n R) (fun t' b => b = false →
      ∃ p ∈ paths, R.After t' key.toStringKey m ⟨.fileExists n p, false⟩) t
      (Storage.stripeFilesExist n paths)
  | [], _, _ => nofun
  | p :: ps, t, hk => by
    refine Conforms.issue_bind.mpr ⟨trivial, ?_⟩
    rintro (_ | _)
    · exact fun _ => ⟨p, List.mem_cons_self, R.after_cons hk⟩
    · refine (stripeFilesExist_conforms ps _ (R.mono hk (List.suffix_cons _ _))).weaken ?_
      grind

omit hp in
theorem filesPresent_conforms (hk : R.knows t key.toStringKey m) :
    Conforms (ReadGuard E n R) (fun t' b => b = false → Blamed E n R t' key m) t
      (Storage.filesPresent E n key m) := by
  unfold Storage.filesPresent
  split
  next s hst =>
    refine (stripeFilesExist_conforms s.chunkPaths t hk).weaken fun t' b _ hmiss hb => ?_
    obtain ⟨p, hp, he⟩ := hmiss hb
    exact .absent (lookPath_stripe hst hp) (.inl rfl) he
  next hst =>
    refine ⟨trivial, ?_⟩
    rintro b rfl
    exact .absent (lookPath_whole hst) (.inl rfl) (R.after_cons hk)

theorem storageExists_issues : Issues (ReadGuard E n R) t (Storage.exists_ E n key).run := by
  refine Gives.issues (S := fun _ _ => True)
    ((getBlock_gives.mono fun _ _ => LiveGuard.read).bind ?_)
  rintro t₁ (_ | m) - ⟨-, hl, -⟩
  · exact .pure trivial
  have hk := R.looked (hl m rfl)
  refine isExpired_gives trivial fun now => ?_
  split
  · refine .after ?_ fun _ _ _ => .pure trivial
    exact Gives.issues (purgeIfExpired_gives.mono fun _ _ => LiveGuard.read).attempt
  · refine (Gives.lift (filesPresent_conforms (R.mono hk (List.suffix_cons _ _)))).bind
      fun t₂ found hs₂ hmiss => ?_
    cases found with
    | true => exact .pure trivial
    | false =>
      exact .after (deleteMetadataIfCurrent_issues hp (R.mono hk ((List.suffix_cons _ _).trans hs₂))
        (hmiss rfl)) fun _ _ _ => .pure trivial

def SlotOk (E : Env ν) (n : ν) (t : Hist ν) (key : ObjectKey) : Storage.Slot → Prop
  | .done r => ∀ x, r = .ok (some x) → Acquired E n t key x.2 x.1
  | .pending path m => Looked t key.toStringKey m ∧ Timed t key.toStringKey m ∧
      m.striping = none ∧ path = Storage.metaPathOrRoute E n key m

omit hp in
theorem SlotOk.mono {slot : Storage.Slot} (h : SlotOk E n t key slot) (hs : t <:+ t') :
    SlotOk E n t' key slot := by
  cases slot with
  | done r => exact fun x hx => (h x hx).mono hs
  | pending path m => exact ⟨h.1.mono hs, h.2.1.mono hs, h.2.2⟩

theorem batchSlot_gives :
    Gives (ReadGuard E n R) (fun t' slot => SlotOk E n t' key slot) t
      (Storage.batchSlot E n key) := by
  refine (getBlock_gives.mono fun _ _ => LiveGuard.read).bind ?_
  rintro t₁ (_ | m) - ⟨hv, hl, -⟩
  · exact .pure nofun
  refine Gives.weaken (S := fun t' slot => Looked t' key.toStringKey m → SlotOk E n t' key slot)
    (fetch_gives hp (g := fun r => Storage.Slot.done (.ok (r.map fun data => (data, m))))
    (R.looked (hl m rfl))
    (fun _ _ => nofun) (fun _ _ hst hk => readStriped_conforms hst hk) ?_ ?_)
    fun t' slot hs h => h ((hl m rfl).mono hs)
  · rintro s t' data - hd hread hlook _ ⟨⟩
    exact ⟨hlook, hread, hd (.inr hv)⟩
  · exact fun t' hst _ hd => .pure fun hlook => ⟨hlook, hd (.inr hv), hst, rfl⟩

theorem batchSlots_conforms : ∀ (keys : List ObjectKey) (t : Hist ν),
    Conforms (ReadGuard E n R) (fun t' slots => List.Forall₂ (SlotOk E n t') keys slots) t
      (Storage.batchSlots E n keys)
  | [], t => .nil
  | key :: keys, t => by
    refine Conforms.bind (batchSlot_gives hp) fun t₁ r _ hslot =>
      (batchSlots_conforms keys t₁).bind fun t₂ slots hs hslots => .cons ?_ hslots
    cases r with
    | ok slot => exact (hslot slot rfl).mono hs
    | error e => exact fun _ hx => by cases hx

omit hp in
theorem scattered_acquired {keys : List ObjectKey} {slots : List Storage.Slot}
    {reqs : List (Nat × String × BlockMeta)} {reads : List (Except IoError Bytes)}
    (hslots : List.Forall₂ (SlotOk E n t) keys slots)
    (hreqs : ∀ x ∈ reqs, slots[x.1]? = some (.pending x.2.1 x.2.2))
    (hreads : List.Forall₂ (fun (x : Nat × String × BlockMeta) r => Seen t (.readFile n x.2.1) r)
      reqs reads) {i : Nat} {key : ObjectKey}
    {o : Option (Except KVError (Option (Bytes × BlockMeta)))} (hkey : keys[i]? = some key)
    (ho : ((reqs.zip reads).foldl (fun acc x =>
      acc.set x.1.1 (some (Storage.readResult x.2 x.1.2.2))) (slots.map Storage.planned))[i]? =
        some o) {x : Bytes × BlockMeta} (hx : o = some (.ok (some x))) :
    Acquired E n t key x.2 x.1 := by
  have hslot : ∀ {j : Nat} {key slot}, keys[j]? = some key → slots[j]? = some slot →
      SlotOk E n t key slot := by
    intro j key slot hk hslot
    obtain ⟨hj, rfl⟩ := List.getElem?_eq_some_iff.mp hk
    obtain ⟨hj', rfl⟩ := List.getElem?_eq_some_iff.mp hslot
    exact hslots.get hj hj'
  rw [foldl_set_eq (fun x : (Nat × String × BlockMeta) × Except IoError Bytes => x.1.1)
    (fun x => some (Storage.readResult x.2 x.1.2.2))] at ho
  refine foldl_set_forall (P := fun j (o : Option _) => ∀ key, keys[j]? = some key →
    ∀ x, o = some (.ok (some x)) → Acquired E n t key x.2 x.1) ?_ ?_ ho key hkey x hx
  · intro y hy key hk x hx
    obtain ⟨⟨⟨j, path, m⟩, res⟩, hz, rfl⟩ := List.mem_map.mp hy
    have hj : slots[j]? = some (.pending path m) := hreqs _ (List.of_mem_zip hz).1
    obtain ⟨hl, htimed, hst, rfl⟩ := hslot hk hj
    cases res with
    | error e => cases hx
    | ok data =>
      cases hx
      exact ⟨hl, .whole hst (List.forall₂_zip hreads hz), htimed⟩
  · intro j o hj key hk x hx
    rw [List.getElem?_map] at hj
    obtain ⟨slot, hsl, rfl⟩ := Option.map_eq_some_iff.mp hj
    cases slot with
    | done r => exact hslot hk hsl x (Option.some.inj hx)
    | pending path m => cases hx

theorem storageGetBatch_conforms {keys : List ObjectKey} :
    Conforms (ReadGuard E n R) (fun t' rs => List.Forall₂ (fun key r =>
      ∀ x, r = .ok (some x) → Acquired E n t' key x.2 x.1) keys rs) t
        (Storage.getBatch E n keys) := by
  refine (batchSlots_conforms hp keys t).bind fun t₁ slots _ hslots => ?_
  refine readBatch_conforms.bind fun t₂ reads hs hreads => ?_
  rw [List.forall₂_map_left_iff] at hreads
  refine List.forall₂_iff_get.mpr ⟨?_, fun i hi hi' x hx => ?_⟩
  · rw [List.length_map, length_foldl_set, List.length_map, hslots.length_eq]
  · have hget := List.getElem?_eq_getElem hi'
    rw [List.get_eq_getElem] at hx
    rw [hx, List.getElem?_map] at hget
    obtain ⟨o, ho, hox⟩ := Option.map_eq_some_iff.mp hget
    refine scattered_acquired (hslots.imp fun _ _ h => h.mono hs)
      (fun y hy => Storage.mem_ioRequests.mp ((List.mergeSort_perm _ _).mem_iff.mp hy)) hreads
      (List.getElem?_eq_getElem hi) ho ?_
    cases o with
    | none => cases hox
    | some r => exact congrArg some hox

end Reads

end ContextStore
