import Mathlib.Data.Set.Basic
import ContextStore.Cluster.Run
import ContextStore.Conc.Perform
import ContextStore.Protocol.TwoPhase

/-!
# 読み出しが record を消すとき
-/

namespace ContextStore.Purge

open Conc Storage

variable {ν : Type} {α β : Type}

inductive ReadPath where
  | get (key : ObjectKey)
  | getWithMeta (key : ObjectKey) (m : BlockMeta)
  | getChunks (key : ObjectKey)
  | getChunksWithMeta (key : ObjectKey) (m : BlockMeta)
  | getBatch (keys : List ObjectKey)
  | getIntoPtr (key : ObjectKey) (capacity : Nat)
  | getIntoPtrStream (key : ObjectKey) (capacity : Nat)
  | getIntoPtrStreamWithMeta (key : ObjectKey) (m : BlockMeta) (capacity : Nat)
  | readPlacementChunk (path : String) (expectedLen : Nat) (expectedChecksum : Option String)

inductive Returned where
  | object (key : ObjectKey) (m : BlockMeta) (parts : List Bytes)
  | copied (key : ObjectKey) (m : BlockMeta) (count : Nat) (parts : List Bytes)
  | chunk (path : String) (expectedLen : Nat) (data : Bytes)

def found (f : α → Returned) : Except KVError (Option α) → List Returned
  | .ok (some a) => [f a]
  | _ => []

theorem mem_found {f : α → Returned} {r : Except KVError (Option α)} {x : Returned}
    (h : x ∈ found f r) : ∃ a, r = .ok (some a) ∧ x = f a := by
  unfold found at h
  split at h
  next a => exact ⟨a, rfl, List.mem_singleton.mp h⟩
  next => cases h

namespace ReadPath

def prog (E : Env ν) (n : ν) : ReadPath → Io ν (List Returned)
  | .get key => do
    pure (found (fun x => .object key x.2 [x.1]) (← (Storage.get E n key).run))
  | .getWithMeta key m => do
    pure (found (fun x => .object key x.2 [x.1]) (← (Storage.getWithMeta E n key m).run))
  | .getChunks key => do
    pure (found (fun x => .object key x.2 x.1) (← (Storage.getChunks E n key).run))
  | .getChunksWithMeta key m => do
    pure (found (fun x => .object key x.2 x.1) (← (Storage.getChunksWithMeta E n key m).run))
  | .getBatch keys => do
    let results ← Storage.getBatch E n keys
    pure ((keys.zip results).flatMap fun x => found (fun y => .object x.1 y.2 [y.1]) x.2)
  | .getIntoPtr key capacity => do
    pure (found (fun x => .copied key x.2.2 x.1 x.2.1)
      (← (Storage.getIntoPtr E n key capacity).run))
  | .getIntoPtrStream key capacity => do
    let _ ← (Storage.getIntoPtrStream E n key capacity).run
    pure []
  | .getIntoPtrStreamWithMeta key m capacity => do
    let _ ← (Storage.getIntoPtrStreamWithMeta E n key m capacity).run
    pure []
  | .readPlacementChunk path len checksum => do
    pure (found (.chunk path len) (← (Storage.readPlacementChunk E n path len checksum).run))

def given : ReadPath → Option (ObjectKey × BlockMeta)
  | .getWithMeta key m | .getChunksWithMeta key m | .getIntoPtrStreamWithMeta key m _ =>
    some (key, m)
  | _ => none

def streams : ReadPath → Bool
  | .getIntoPtrStream _ _ | .getIntoPtrStreamWithMeta _ _ _ => true
  | _ => false

def copies : ReadPath → Bool
  | .getIntoPtr _ _ => true
  | _ => false

end ReadPath

def Known (path : ReadPath) (t : Hist ν) (s : String) (m : BlockMeta) : Prop :=
  Looked t s m ∨ ∃ key, path.given = some (key, m) ∧ s = key.toStringKey

variable {E : Env ν} {n : ν} {path : ReadPath} {R : Reader ν} {t t' : Hist ν} {key : ObjectKey}
  {m : BlockMeta} {s : StripingInfo}

theorem Known.mono {k : String} (h : Known path t k m) (hs : t <:+ t') : Known path t' k m :=
  h.imp_left fun hl => hl.mono hs

def ReadPath.reader (ν : Type) (path : ReadPath) : Reader ν where
  knows := Known path
  mono := Known.mono
  looked := .inl
  purges := True
  streams := path.streams = true
  copies := path.copies = true

theorem intoPtrRequest_path {capacity i : Nat} {p : String} {r : String × Nat × Nat}
    (h : intoPtrRequest s capacity i p = .ok r) : r.1 = p := by
  unfold intoPtrRequest at h
  dsimp only at h
  split at h
  next => cases h
  next => cases h; rfl

theorem checkIntoPtr_none : ∀ {rs : List (Except KVError Bytes)} {i : Nat},
    checkIntoPtr E n s i rs = .ok none → ∃ j r, rs[j]? = some r ∧
      ((∃ e : KVError, r = .error e ∧ e.isNotFoundError = true) ∨ ∃ data, r = .ok data ∧
        (data.length ≠ recordedLength s (i + j) ∨
          ∃ err, verifyStripeBytes E n s (i + j) data = .error err))
  | [], _, h => by cases h
  | .error e :: rs, i, h => by
    simp only [checkIntoPtr] at h
    split at h
    next hnf => exact ⟨0, _, rfl, .inl ⟨e, rfl, hnf⟩⟩
    · cases h
  | .ok data :: rs, i, h => by
    simp only [checkIntoPtr] at h
    split at h
    next hlen => exact ⟨0, _, rfl, .inr ⟨data, rfl, .inl hlen⟩⟩
    · split at h
      next msg hv => exact ⟨0, _, rfl, .inr ⟨data, rfl, .inr ⟨_, hv⟩⟩⟩
      · have hrest : checkIntoPtr E n s (i + 1) rs = .ok none := by
          cases hc : checkIntoPtr E n s (i + 1) rs with
          | error e => rw [hc] at h; cases h
          | ok parts =>
            rw [hc] at h
            cases parts with
            | none => rfl
            | some parts => cases h
        obtain ⟨j, r, hj, hr⟩ := checkIntoPtr_none hrest
        refine ⟨j + 1, r, hj, ?_⟩
        rw [show i + (j + 1) = i + 1 + j by omega]
        exact hr

theorem ReadInto.mono {k p : String} {r : Except KVError Bytes} (h : ReadInto R n k m p t r)
    (hs : t <:+ t') : ReadInto R n k m p t' r := by
  cases r with
  | ok data => exact Reader.After.mono h hs
  | error e =>
    intro hnf
    obtain ⟨err, herr, he⟩ := h hnf
    exact ⟨err, herr, he.mono hs⟩

theorem readIntoPtrBatch_conforms {reqs : List (String × Nat × Nat)} {k : String}
    (hk : R.knows t k m) :
    Conforms (ReadGuard E n R) (fun t' results => List.Forall₂
      (fun (r : String × Nat × Nat) res => ReadInto R n k m r.1 t' res) reqs results) t
      (readIntoPtrBatch n reqs) := by
  refine (Conforms.joinAll (J := fun t => R.knows t k m)
    (P := fun (r : String × Nat × Nat) t' res => ReadInto R n k m r.1 t' res) ?_ ?_ hk ?_).weaken
    fun _ _ _ h => h.2
  · exact fun t' _ h => ⟨trivial, fun _ => R.mono h (List.suffix_cons _ _)⟩
  · exact fun r t₁ t₂ res hs _ _ h => ReadInto.mono h hs
  · intro r _ t₁ h₁
    exact (readIntoPtr_conforms h₁).weaken fun _ _ hs h => ⟨R.mono h₁ hs, h⟩

theorem blamed_of_checkIntoPtr {capacity : Nat} {reqs : List (String × Nat × Nat)}
    {results : List (Except KVError Bytes)} (hcopies : R.copies)
    (hst : m.striping = some s)
    (hreqs : (s.chunkPaths.mapIdx fun i p => (i, p)).mapM (fun x =>
      intoPtrRequest s capacity x.1 x.2) = .ok reqs)
    (hres : List.Forall₂ (fun (r : String × Nat × Nat) res =>
      ReadInto R n key.toStringKey m r.1 t res) reqs results)
    (hcheck : checkIntoPtr E n s 0 results = .ok none) : Blamed E n R t key m := by
  obtain ⟨j, r, hj, hr⟩ := checkIntoPtr_none hcheck
  rw [Nat.zero_add] at hr
  have hplan := forall₂_of_mapM_ok hreqs
  obtain ⟨hj', rfl⟩ := List.getElem?_eq_some_iff.mp hj
  have hjr : j < reqs.length := by rw [hres.length_eq]; exact hj'
  have hjp : j < s.chunkPaths.length := by
    have := hplan.length_eq
    rw [List.length_mapIdx] at this
    omega
  have hreq := hplan.get (by rw [List.length_mapIdx]; exact hjp) hjr
  simp only [List.get_eq_getElem, List.getElem_mapIdx] at hreq
  have hread := hres.get hjr hj'
  simp only [List.get_eq_getElem] at hread
  rw [intoPtrRequest_path hreq] at hread
  rcases hr with ⟨e, he, hnf⟩ | ⟨data, hdata, hv⟩
  · rw [he] at hread
    obtain ⟨err, herr, he⟩ := hread hnf
    exact .absent (lookPath_stripe hst (List.getElem_mem hjp)) (.inr (.inl ⟨err, herr, rfl⟩)) he
  · rw [hdata] at hread
    exact .copied hcopies hst (List.getElem?_eq_getElem hjp) hread hv

def CopiedAs (E : Env ν) (n : ν) (t : Hist ν) (key : ObjectKey) (m : BlockMeta)
    (count : Nat) (parts : List Bytes) : Prop :=
  match m.striping with
  | none => ∃ data, count = data.length ∧ parts = [data] ∧
      Seen t (.readFile n (metaPathOrRoute E n key m)) (.ok data)
  | some s => count = s.totalSize ∧ ∃ results, results.length = s.chunkPaths.length ∧
      checkIntoPtr E n s 0 results = .ok (some parts)

theorem getIntoPtr_gives {capacity : Nat} (hp : R.purges) (hcopies : R.copies) :
    Gives (ReadGuard E n R) (fun t' r => ∀ x, r = some x →
      CopiedAs E n t' key x.2.2 x.1 x.2.1) t (Storage.getIntoPtr E n key capacity) := by
  refine (getBlock_gives.mono fun _ _ => LiveGuard.read).bind ?_
  rintro t₁ (_ | m) - ⟨-, hl, -⟩
  · exact .pure nofun
  refine (purgeIfExpired_gives.mono fun _ _ => LiveGuard.read).bind fun t₂ purged hs _ => ?_
  have hk : R.knows t₂ key.toStringKey m := R.looked ((hl m rfl).mono hs)
  cases purged with
  | true => exact .pure nofun
  | false =>
    rw [if_neg Bool.false_ne_true]
    split
    next hst =>
      refine fileExists_gives hp hk hst (fun _ => nofun) fun t₃ hs₃ => ?_
      refine Conforms.except_bind (readIntoPtr_conforms (R.mono hk hs₃)) ?_ fun _ _ _ _ => nofun
      intro t₄ data _ hread
      refine Gives.pure ?_
      rintro _ ⟨⟩
      unfold CopiedAs
      rw [hst]
      exact ⟨data, rfl, rfl, Reader.After.mem hread⟩
    next s hst =>
      split
      · exact .throw
      · refine (Gives.ofExcept (S := fun t' reqs => t' = t₂ ∧ (s.chunkPaths.mapIdx
          fun i p => (i, p)).mapM (fun x => intoPtrRequest s capacity x.1 x.2) = .ok reqs)
          fun _ h => ⟨rfl, h⟩).bind ?_
        rintro _ reqs - ⟨rfl, hreqs⟩
        refine (Gives.lift (readIntoPtrBatch_conforms hk)).bind fun t₃ results hs₃ hres => ?_
        refine (Gives.ofExcept (S := fun t' r => t' = t₃ ∧ checkIntoPtr E n s 0 results = .ok r)
          fun _ h => ⟨rfl, h⟩).bind ?_
        rintro _ (_ | parts) - ⟨rfl, hcheck⟩
        · refine .after (deleteMetadataIfCurrent_issues hp (R.mono hk hs₃) ?_)
            fun _ _ _ => .pure nofun
          exact blamed_of_checkIntoPtr hcopies hst hreqs hres hcheck
        · refine .pure ?_
          rintro _ ⟨⟩
          unfold CopiedAs
          rw [hst]
          refine ⟨rfl, results, ?_, hcheck⟩
          rw [← hres.length_eq, ← (forall₂_of_mapM_ok hreqs).length_eq, List.length_mapIdx]

theorem readPlacementChunk_gives {p : String} {len : Nat} {checksum : Option String} :
    Gives (ReadGuard E n R) (fun t' r => ∀ data, r = some data →
      Seen t' (.readFile n p) (.ok data) ∧ (0 < len → data.length = len)) t
      (readPlacementChunk E n p len checksum) := by
  refine .after .ofExcept fun t₁ _ _ => Gives.issue trivial ?_
  rintro (_ | _)
  · exact .pure nofun
  · refine readFile_gives fun data => Gives.bind (S := fun t' _ =>
      Seen t' (.readFile n p) (.ok data) ∧ (0 < len → data.length = len)) ?_
      fun t₄ _ _ h => .pure ?_
    · intro u hcheck
      refine ⟨List.mem_cons_self, fun hpos => ?_⟩
      by_contra hne
      have hcheck : checkPlacementChunk E n p data len checksum = .ok u := hcheck
      unfold checkPlacementChunk at hcheck
      rw [if_pos ⟨hpos, hne⟩] at hcheck
      cases hcheck
    · rintro _ ⟨⟩
      exact h

def Returned.FromFiles (E : Env ν) (n : ν) (t : Hist ν) : Returned → Prop
  | .object key m parts => ReadAs E n t key m parts.flatten
  | .copied key m count parts => CopiedAs E n t key m count parts
  | .chunk path len data => Seen t (.readFile n path) (.ok data) ∧ (0 < len → data.length = len)

theorem ReadPath.conforms : Conforms (ReadGuard E n (path.reader ν))
    (fun t' rs => ∀ x ∈ rs, x.FromFiles E n t') t (path.prog E n) := by
  cases path with
  | get key =>
    refine Conforms.bind (storageGet_gives trivial) fun t' r _ hr x hx => ?_
    obtain ⟨a, rfl, rfl⟩ := mem_found hx
    simpa [Returned.FromFiles] using (hr _ rfl a rfl).read
  | getWithMeta key m =>
    refine Conforms.bind (getWithMeta_gives trivial (Or.inr ⟨key, rfl, rfl⟩))
      fun t' r _ hr x hx => ?_
    obtain ⟨a, rfl, rfl⟩ := mem_found hx
    obtain ⟨hm, ha, -⟩ := hr _ rfl a rfl
    simpa [Returned.FromFiles, hm] using ha
  | getChunks key =>
    refine Conforms.bind (storageGetChunks_gives trivial) fun t' r _ hr x hx => ?_
    obtain ⟨a, rfl, rfl⟩ := mem_found hx
    exact (hr _ rfl a rfl).read
  | getChunksWithMeta key m =>
    refine Conforms.bind (getChunksWithMeta_gives trivial (Or.inr ⟨key, rfl, rfl⟩))
      fun t' r _ hr x hx => ?_
    obtain ⟨a, rfl, rfl⟩ := mem_found hx
    obtain ⟨hm, ha, -⟩ := hr _ rfl a rfl
    simpa [Returned.FromFiles, hm] using ha
  | getBatch keys =>
    refine Conforms.bind (storageGetBatch_conforms trivial) fun t' results _ hr x hx => ?_
    obtain ⟨⟨key, r⟩, hz, hx⟩ := List.mem_flatMap.mp hx
    obtain ⟨a, rfl, rfl⟩ := mem_found hx
    simpa [Returned.FromFiles] using (List.forall₂_zip hr hz a rfl).read
  | getIntoPtr key capacity =>
    refine Conforms.bind (getIntoPtr_gives trivial rfl) fun t' r _ hr x hx => ?_
    obtain ⟨a, rfl, rfl⟩ := mem_found hx
    exact hr _ rfl a rfl
  | getIntoPtrStream key capacity =>
    exact Conforms.bind (getIntoPtrStream_issues trivial rfl) fun _ _ _ _ => nofun
  | getIntoPtrStreamWithMeta key m capacity =>
    exact Conforms.bind (getIntoPtrStreamWithMeta_gives trivial rfl (Or.inr ⟨key, rfl, rfl⟩))
      fun _ _ _ _ => nofun
  | readPlacementChunk p len checksum =>
    refine Conforms.bind readPlacementChunk_gives fun t' r _ hr x hx => ?_
    obtain ⟨a, rfl, rfl⟩ := mem_found hx
    exact hr _ rfl a rfl

abbrev Disk := String → Option Bytes

section Damage

variable {states : Set Disk} {i : Nat} {p : String} {data b : Bytes}

end Damage

def checked : Env (Fin 2) := sample (fun _ => true) []

def heldKey : ObjectKey := ⟨"", "k"⟩

def heldMeta : BlockMeta :=
  ⟨0, "", 3, "", 1, "", 1, 0, 0, 0, 0, 0, "", false, some ⟨2, [0, 0], ["a", "b"], 3, [],
    [checksumBytes checked [1, 2], checksumBytes checked [3]]⟩⟩

def wholeMeta : BlockMeta := { heldMeta with filePath := "a", size := 2, striping := none }

def heldWorld (m : BlockMeta) (a b : Bytes) : World (Fin 2) :=
  { World.init 0 with
    redis := Redis.empty.setBlock heldKey.toStringKey (some m)
    disk := fun _ p => if p = "a" then some a else if p = "b" then some b else none }

end ContextStore.Purge
