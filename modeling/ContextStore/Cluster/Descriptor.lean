import ContextStore.Cluster.Run
import ContextStore.Conc.Perform
import ContextStore.GetStream

/-!
# descriptor による読み出し

`lookup_object` の返す descriptor は、空の `object_handle` を補って作られる。
-/

namespace ContextStore.Service

open Placement Conc

variable {ν : Type} (E : Env ν) (n : ν)

def lookupObject (key : Option ObjectKey) :
    Svc ν (Option (ObjectDescriptor × PlacementDescriptor)) := do
  let key ← requireKey key "missing key"
  let m ← metadataGetLive E n key
  pure (m.map fun m => (descriptorFromMeta key m, placementFromMeta E n key m))

structure DescriptorDataChunk where
  chunk : DataChunk
  descriptor : Option ObjectDescriptor
  placement : Option PlacementDescriptor

def describeFirst (desc : ObjectDescriptor) (placement : PlacementDescriptor)
    (chunks : List DataChunk) : List DescriptorDataChunk :=
  chunks.mapIdx fun i c =>
    if i = 0 then ⟨c, some desc, some placement⟩ else ⟨c, none, none⟩

def streamAccepted (desc : ObjectDescriptor) (key : ObjectKey) (active : BlockMeta) :
    Svc ν (List DescriptorDataChunk) := do
  let fresh := describeFirst (descriptorFromMeta key active) (placementFromMeta E n key active)
  match remotePlacement E n key (some active) with
  | some (_, placement) =>
    let segments ← readChunksByPlacement E n desc placement
    pure (fresh (bufferedChunks segments))
  | none =>
    match ← liftRes (Storage.getChunksWithMeta E n key active) with
    | some (segments, _) => pure (fresh (bufferedChunks segments))
    | none => throw ⟨.notFound, "key not found"⟩

def readByDescriptorStream (desc : ObjectDescriptor) (placement : Option PlacementDescriptor) :
    Svc ν (List DescriptorDataChunk) := do
  let key ← ofExcept (keyFromDescriptor desc)
  match ← metadataGetLive E n key with
  | none => throw ⟨.notFound, "key not found"⟩
  | some active =>
    ofExcept (validateDescriptor desc active)
    ofExcept (validatePlacementDescriptor E n key active placement)
    streamAccepted E n desc key active

def readAccepted (desc : ObjectDescriptor) (key : ObjectKey) (active : BlockMeta) :
    Svc ν (Option Bytes) := do
  match remotePlacement E n key (some active) with
  | some (_, fresh) =>
    let chunks ← readChunksByPlacement E n desc fresh
    pure (some chunks.flatten)
  | none =>
    let r ← liftRes (Storage.getWithMeta E n key active)
    pure (r.map (·.1))

def readChecked {α : Type} (key : ObjectKey) (desc : ObjectDescriptor)
    (placement : PlacementDescriptor) (missing : Svc ν α) (accepted : BlockMeta → Svc ν α) :
    Svc ν α := do
  match ← metadataGetLive E n key with
  | none => missing
  | some active =>
    ofExcept (validateDescriptor desc active)
    ofExcept (validatePlacementDescriptor E n key active (some placement))
    accepted active

def readUnchanged {α : Type} (key : ObjectKey) (m : BlockMeta) (desc : ObjectDescriptor)
    (placement : PlacementDescriptor) (missing same : Svc ν α) (accepted : BlockMeta → Svc ν α) :
    Svc ν α := do
  match ← metadataGetLive E n key with
  | none => missing
  | some active =>
    if active = m then same
    else
      ofExcept (validateDescriptor desc active)
      ofExcept (validatePlacementDescriptor E n key active (some placement))
      accepted active

def afterCheck {α : Type} (m : BlockMeta) (accepted : BlockMeta → Svc ν α) : Svc ν α :=
  if m.objectHandle = "" then throw ⟨.failedPrecondition, "stale descriptor"⟩ else accepted m

section

variable {E n} {key : ObjectKey} {m : BlockMeta}

theorem validateDescriptor_self (key : ObjectKey) (m : BlockMeta) :
    validateDescriptor (descriptorFromMeta key m) m =
      if m.objectHandle = "" then .error ⟨.failedPrecondition, "stale descriptor"⟩ else .ok () := by
  by_cases hempty : m.objectHandle = ""
  · have hfilled : descriptorHandle key m ≠ "" := by
      rw [descriptorHandle, if_neg (not_not_intro hempty)]
      intro h
      simpa using congrArg String.length h
    simp [validateDescriptor, descriptorFromMeta, hempty, hfilled]
  · simp [validateDescriptor, descriptorFromMeta, descriptorHandle, hempty]

theorem validatePlacementDescriptor_self :
    validatePlacementDescriptor E n key m (some (placementFromMeta E n key m)) = .ok () := by
  simp [validatePlacementDescriptor, placementFromMeta]

theorem readChecked_eq {α : Type} (missing : Svc ν α) (accepted : BlockMeta → Svc ν α) :
    readChecked E n key (descriptorFromMeta key m) (placementFromMeta E n key m) missing accepted =
      readUnchanged E n key m (descriptorFromMeta key m) (placementFromMeta E n key m) missing
        (afterCheck m accepted) accepted := by
  unfold readChecked readUnchanged
  congr 1
  funext live
  cases live with
  | none => rfl
  | some active =>
    by_cases hm : active = m
    · subst hm
      simp only [validateDescriptor_self, validatePlacementDescriptor_self, if_true, afterCheck]
      split <;> rfl
    · simp only [if_neg hm]

theorem lookupObject_leads {t t' : Hist ν} {d : ObjectDescriptor} {p : PlacementDescriptor}
    (h : (lookupObject E n (some key)).run.Leads t t' (.ok (some (d, p)))) :
    ∃ m, (metadataGetLive E n key).run.Leads t t' (.ok (some m)) ∧ d = descriptorFromMeta key m ∧
      p = placementFromMeta E n key m := by
  have h : ((metadataGetLive E n key).run >>= ExceptT.bindCont fun m => pure (m.map fun m =>
    (descriptorFromMeta key m, placementFromMeta E n key m))).Leads t t' (.ok (some (d, p))) := h
  obtain ⟨s, r, hlive, hrest⟩ := Prog.leads_bind.mp h
  cases r with
  | error e => cases hrest.2
  | ok found =>
    obtain ⟨rfl, heq⟩ := hrest
    cases found with
    | none => cases heq
    | some m =>
      cases heq
      exact ⟨m, hlive, rfl, rfl⟩

theorem looked_up_descriptor_accepted_iff {t t' : Hist ν} {d : ObjectDescriptor}
    {p : PlacementDescriptor}
    (h : (lookupObject E n (some key)).run.Leads t t' (.ok (some (d, p)))) :
    ∃ m, (metadataGetLive E n key).run.Leads t t' (.ok (some m)) ∧
      ((validateDescriptor d m = .ok () ∧
          validatePlacementDescriptor E n key m (some p) = .ok ()) ↔ m.objectHandle ≠ "") ∧
      readByDescriptor E n d (some p) = readUnchanged E n key m d p (pure none)
        (afterCheck m (readAccepted E n d key)) (readAccepted E n d key) ∧
      readByDescriptorStream E n d (some p) = readUnchanged E n key m d p
        (throw ⟨.notFound, "key not found"⟩) (afterCheck m (streamAccepted E n d key))
        (streamAccepted E n d key) := by
  obtain ⟨m, hlive, rfl, rfl⟩ := lookupObject_leads h
  refine ⟨m, hlive, ?_, readChecked_eq _ _, readChecked_eq _ _⟩
  rw [validateDescriptor_self, validatePlacementDescriptor_self]
  by_cases hempty : m.objectHandle = "" <;> simp [hempty]

end

def legacyKey : ObjectKey := ⟨"", "k"⟩

def legacyMeta : BlockMeta := ⟨0, "a", 2, "", 1, "", 1, 0, 0, 0, 0, 0, "", false, none⟩

def namedMeta : BlockMeta := { legacyMeta with objectHandle := "h" }

def namedHist : Hist (Fin 2) :=
  [⟨.now, (0 : Int)⟩, ⟨.redis (.getBlock legacyKey.toStringKey), .ok (some namedMeta)⟩]

theorem looked_up_descriptor_accepted_iff_named :
    readByDescriptor samplePlain nodeA (descriptorFromMeta legacyKey namedMeta)
        (some (placementFromMeta samplePlain nodeA legacyKey namedMeta)) =
      readUnchanged samplePlain nodeA legacyKey namedMeta (descriptorFromMeta legacyKey namedMeta)
        (placementFromMeta samplePlain nodeA legacyKey namedMeta) (pure none)
        (readAccepted samplePlain nodeA (descriptorFromMeta legacyKey namedMeta)
          legacyKey namedMeta)
        (readAccepted samplePlain nodeA (descriptorFromMeta legacyKey namedMeta) legacyKey) := by
  have hlookup : (lookupObject samplePlain nodeA (some legacyKey)).run.Leads [] namedHist
      (.ok (some (descriptorFromMeta legacyKey namedMeta,
        placementFromMeta samplePlain nodeA legacyKey namedMeta))) :=
    ⟨.ok (some namedMeta), (0 : Int), rfl, rfl⟩
  obtain ⟨m, hlive, -, hread, -⟩ := looked_up_descriptor_accepted_iff hlookup
  have hfound : (metadataGetLive samplePlain nodeA legacyKey).run.Leads [] namedHist
      (.ok (some namedMeta)) :=
    ⟨.ok (some namedMeta), (0 : Int), rfl, rfl⟩
  cases hlive.unique hfound
  exact hread

def lookupThenRead (key : ObjectKey) : Svc ν (Option Bytes) := do
  match ← lookupObject E n (some key) with
  | none => pure none
  | some (desc, placement) => readByDescriptor E n desc (some placement)

def lookupThenStream (key : ObjectKey) : Svc ν (List DescriptorDataChunk) := do
  match ← lookupObject E n (some key) with
  | none => pure []
  | some (desc, placement) => readByDescriptorStream E n desc (some placement)

def legacyWorld : World (Fin 2) :=
  { World.init 0 with
    redis := Redis.empty.setBlock legacyKey.toStringKey (some legacyMeta)
    disk := fun _ p => if p = "a" then some [1, 2] else none }

/-- **`object_handle` の無い record から引いた descriptor は、すぐに使っても拒まれる。** -/
theorem legacy_descriptor_rejected :
    (∃ w' t, (lookupThenRead samplePlain nodeA legacyKey).run.perform (exec samplePlain)
      [.ok, .ok, .ok, .ok] legacyWorld [] =
        some (w', t, .error ⟨.failedPrecondition, "stale descriptor"⟩)) ∧
    ∃ w' t, (lookupThenStream samplePlain nodeA legacyKey).run.perform (exec samplePlain)
      [.ok, .ok, .ok, .ok] legacyWorld [] =
        some (w', t, .error ⟨.failedPrecondition, "stale descriptor"⟩) :=
  ⟨⟨_, _, rfl⟩, ⟨_, _, rfl⟩⟩

end ContextStore.Service
