import ContextStore.Conc.Transition
import Mathlib.Data.List.Forall2
import Mathlib.Logic.Function.Basic

/-!
# NIXL plugin の登録と転送

`nixl-plugin/contextstore/contextstore_backend.cpp` の `ContextStoreNixlEngine`。
-/

namespace ContextStore.Nixl

open Conc

/-- `nixl_mem_t`。 -/
inductive MemType where
  | dram
  | vram
  | blk
  | obj
  | file
deriving DecidableEq

inductive Status where
  | success
  | invalidParam
  | backend
  | mismatch
  | notSupported
deriving DecidableEq

/-- `nixl_xfer_op_t`。 -/
inductive XferOp where
  | read
  | write
deriving DecidableEq

structure BlobDesc where
  devId : UInt64
  metaInfo : String

/-- `ContextStoreMetadata`。 -/
structure Metadata where
  memType : MemType
  devId : UInt64
  key : String
deriving DecidableEq

/-- `nixlMetaDesc`。 -/
structure MetaDesc where
  addr : UInt64
  len : UInt64
  devId : UInt64
  metadataP : Option ℕ

/-- `nixl_meta_dlist_t`。 -/
structure MetaList where
  type : MemType
  descs : List MetaDesc

structure TransferOp where
  key : String
  localAddr : UInt64
  len : UInt64
  remoteOffset : UInt64
deriving DecidableEq

structure Engine where
  devIdToKey : UInt64 → Option String
  handles : ℕ → Option Metadata
  next : ℕ

namespace Engine

variable (e : Engine)

def initial : Engine := ⟨fun _ => none, fun _ => none, 0⟩

/-- `registerMem`。 -/
def registerMem (mem : BlobDesc) : MemType → Engine × Status × Option ℕ
  | .dram => (e, .success, none)
  | .obj =>
    let key := if mem.metaInfo = "" then toString mem.devId.toNat else mem.metaInfo
    (⟨Function.update e.devIdToKey mem.devId (some key),
      Function.update e.handles e.next (some ⟨.obj, mem.devId, key⟩), e.next + 1⟩,
      .success, some e.next)
  | _ => (e, .notSupported, none)

def deregisterMem : Option ℕ → Option Engine
  | none => some e
  | some h => (e.handles h).map fun md =>
    ⟨Function.update e.devIdToKey md.devId none, Function.update e.handles h none, e.next⟩

/-- `keyForRemoteDesc`。 -/
def keyForRemoteDesc (desc : MetaDesc) : String := (e.devIdToKey desc.devId).getD ""

/-- `validateXfer`。 -/
def validateXfer (locals remote : MetaList) : Status :=
  if locals.type ≠ .dram ∨ remote.type ≠ .obj then .invalidParam
  else if locals.descs.length ≠ remote.descs.length then .mismatch
  else .success

/-- `prepXfer` の loop。 -/
def prepOps : List MetaDesc → List MetaDesc → Except Status (List TransferOp)
  | l :: locals, r :: remote =>
    if e.keyForRemoteDesc r = "" then .error .invalidParam
    else do
      let ops ← prepOps locals remote
      .ok (⟨e.keyForRemoteDesc r, l.addr, l.len, r.addr⟩ :: ops)
  | _, _ => .ok []

/-- `prepXfer`。 -/
def prepXfer (locals remote : MetaList) : Except Status (List TransferOp) :=
  match validateXfer locals remote with
  | .success => e.prepOps locals.descs remote.descs
  | status => .error status

def postOps (client : List (XferOp × TransferOp) → Status) (operation : XferOp)
    (sent : List (XferOp × TransferOp)) : List TransferOp → List (XferOp × TransferOp) × Status
  | [] => (sent, .success)
  | op :: ops =>
    let sent := sent ++ [(operation, op)]
    match client sent with
    | .success => postOps client operation sent ops
    | status => (sent, status)

def postXfer (client : Option (List (XferOp × TransferOp) → Status)) (operation : XferOp)
    (locals remote : MetaList) (ops : List TransferOp) : List (XferOp × TransferOp) × Status :=
  match client with
  | none => ([], .invalidParam)
  | some client =>
    match validateXfer locals remote with
    | .success => postOps client operation [] ops
    | status => ([], status)

end Engine

/-! ## 走り -/

/-- 呼び出し。 -/
inductive Call where
  | register (mem : BlobDesc) (type : MemType)
  | deregister (handle : Option ℕ)

def step (e : Engine) : Call → Option Engine
  | .register mem type => some (e.registerMem mem type).1
  | .deregister handle => e.deregisterMem handle

def machine : Transition Engine Call := ⟨.initial, step⟩

def Fresh (e : Engine) : Call → Prop
  | .register mem .obj => ∀ h md, e.handles h = some md → md.devId ≠ mem.devId
  | _ => True

def Engine.Registered (e : Engine) (desc : MetaDesc) (md : Metadata) : Prop :=
  ∃ h, desc.metadataP = some h ∧ e.handles h = some md ∧ desc.devId = md.devId

/-! ## 表と handle -/

structure Tabled (e : Engine) : Prop where
  key : ∀ {h md}, e.handles h = some md → e.devIdToKey md.devId = some md.key
  named : ∀ {h md}, e.handles h = some md → md.key ≠ ""
  apart : ∀ {h h' md md'}, e.handles h = some md → e.handles h' = some md' →
    md.devId = md'.devId → h = h'

namespace Tabled

variable {e e' : Engine}

theorem initial : Tabled .initial :=
  ⟨fun h => (by cases h), fun h => (by cases h), fun h => (by cases h)⟩

theorem register (h : Tabled e) {mem : BlobDesc} {type : MemType}
    (hfresh : Fresh e (.register mem type)) : Tabled (e.registerMem mem type).1 := by
  cases type with
  | obj =>
    have hcases : ∀ {k md}, (e.registerMem mem .obj).1.handles k = some md →
        k = e.next ∧ md.devId = mem.devId ∧ some md.key =
          (e.registerMem mem .obj).1.devIdToKey mem.devId ∨
        e.handles k = some md ∧ md.devId ≠ mem.devId := by
      intro k md hk
      by_cases hnext : k = e.next
      · subst hnext
        have hk := (Function.update_self e.next _ e.handles).symm.trans hk
        cases hk
        exact .inl ⟨rfl, rfl, (Function.update_self _ _ e.devIdToKey).symm⟩
      · have hk := (Function.update_of_ne hnext _ e.handles).symm.trans hk
        exact .inr ⟨hk, hfresh k md hk⟩
    refine ⟨fun hk => ?_, fun hk => ?_, fun hk hk' hdev => ?_⟩
    · rcases hcases hk with ⟨-, hdev, hkey⟩ | ⟨hk, hne⟩
      · rw [hdev, hkey]
      · exact (Function.update_of_ne hne _ e.devIdToKey).trans (h.key hk)
    · rcases hcases hk with ⟨-, -, hkey⟩ | ⟨hk, -⟩
      · have hkey := Option.some.inj (hkey.trans (Function.update_self _ _ e.devIdToKey))
        rw [hkey]
        split
        · intro hnil
          have := congrArg String.toList hnil
          simp at this
        · assumption
      · exact h.named hk
    · rcases hcases hk with ⟨rfl, hnew, -⟩ | ⟨hold, hne⟩ <;>
        rcases hcases hk' with ⟨rfl, hnew', -⟩ | ⟨hold', hne'⟩
      · rfl
      · exact absurd (hdev.symm.trans hnew) hne'
      · exact absurd (hdev.trans hnew') hne
      · exact h.apart hold hold' hdev
  | dram | vram | blk | file => exact h

theorem deregister (h : Tabled e) {handle : Option ℕ} (hs : e.deregisterMem handle = some e') :
    Tabled e' ∧ ∀ k md, some k ≠ handle → e.handles k = some md →
      e'.handles k = some md ∧ e'.devIdToKey md.devId = e.devIdToKey md.devId := by
  cases handle with
  | none =>
    cases hs
    exact ⟨h, fun k md _ hk => ⟨hk, rfl⟩⟩
  | some k₀ =>
    obtain ⟨md₀, hmd₀, rfl⟩ := Option.map_eq_some_iff.mp hs
    have hframe : ∀ k md, some k ≠ some k₀ → e.handles k = some md →
        Function.update e.handles k₀ none k = some md ∧
          Function.update e.devIdToKey md₀.devId none md.devId = e.devIdToKey md.devId := by
      intro k md hne hk
      have hne : k ≠ k₀ := fun heq => hne (congrArg some heq)
      have hdev : md.devId ≠ md₀.devId := fun heq => hne (h.apart hk hmd₀ heq)
      exact ⟨(Function.update_of_ne hne _ _).trans hk, Function.update_of_ne hdev _ _⟩
    have hback : ∀ {k md}, Function.update e.handles k₀ none k = some md →
        k ≠ k₀ ∧ e.handles k = some md := by
      intro k md hk
      have hne : k ≠ k₀ := by
        rintro rfl
        rw [Function.update_self] at hk
        cases hk
      exact ⟨hne, (Function.update_of_ne hne _ _).symm.trans hk⟩
    refine ⟨⟨fun hk => ?_, fun hk => h.named (hback hk).2, fun hk hk' hdev => ?_⟩, hframe⟩
    · obtain ⟨hne, hk⟩ := hback hk
      exact (hframe _ _ (fun heq => hne (Option.some.inj heq)) hk).2.trans (h.key hk)
    · exact h.apart (hback hk).2 (hback hk').2 hdev

theorem reach (h : machine.Reach Fresh e) : Tabled e := by
  refine h.invariant initial fun e call e' _ hfresh ih hs => ?_
  cases call with
  | register mem type =>
    cases hs
    exact ih.register hfresh
  | deregister handle => exact (ih.deregister hs).1

/-! ## 転送 -/

theorem keyForRemoteDesc_eq (h : Tabled e) {desc : MetaDesc} {md : Metadata}
    (hreg : e.Registered desc md) : e.keyForRemoteDesc desc = md.key ∧ md.key ≠ "" := by
  obtain ⟨k, -, hk, hdev⟩ := hreg
  rw [Engine.keyForRemoteDesc, hdev, h.key hk]
  exact ⟨rfl, h.named hk⟩

theorem prepOps_ok (h : Tabled e) {locals remote : List MetaDesc} {mds : List Metadata}
    (hlen : locals.length = remote.length) (hreg : List.Forall₂ e.Registered remote mds) :
    ∃ ops, e.prepOps locals remote = .ok ops ∧ ops.map TransferOp.key = mds.map Metadata.key := by
  induction hreg generalizing locals with
  | nil => cases List.length_eq_zero_iff.mp hlen; exact ⟨[], rfl, rfl⟩
  | @cons r md _ _ hr _ ih =>
    cases locals with
    | nil => cases hlen
    | cons l locals =>
      obtain ⟨ops, hops, hkeys⟩ := ih (Nat.succ.inj hlen)
      obtain ⟨hkey, hne⟩ := h.keyForRemoteDesc_eq hr
      refine ⟨⟨e.keyForRemoteDesc r, l.addr, l.len, r.addr⟩ :: ops, ?_,
        congrArg₂ List.cons hkey hkeys⟩
      rw [Engine.prepOps, if_neg (by rw [hkey]; exact hne), hops]
      rfl

end Tabled

theorem postOps_calls (client : List (XferOp × TransferOp) → Status) (operation : XferOp)
    (sent : List (XferOp × TransferOp)) (ops : List TransferOp) :
    (Engine.postOps client operation sent ops).1 <+: sent ++ ops.map (operation, ·) := by
  induction ops generalizing sent with
  | nil => simp [Engine.postOps]
  | cons op ops ih =>
    have hnext := ih (sent ++ [(operation, op)])
    rw [List.append_assoc] at hnext
    unfold Engine.postOps
    dsimp only
    split
    · exact hnext
    · exact ⟨ops.map (operation, ·), by simp⟩

theorem transfers_reach_registration {e : Engine} (h : machine.Reach Fresh e) :
    (∀ locals remote mds, Engine.validateXfer locals remote = .success →
      List.Forall₂ e.Registered remote.descs mds →
      ∃ ops, e.prepXfer locals remote = .ok ops ∧
        ops.map TransferOp.key = mds.map Metadata.key ∧
        ∀ client operation, (Engine.postXfer client operation locals remote ops).1.map
          (fun call => call.2.key) <+: mds.map Metadata.key) ∧
    ∀ handle e', e.deregisterMem handle = some e' →
      ∀ k md, some k ≠ handle → e.handles k = some md → e'.handles k = some md ∧
        ∀ desc, desc.devId = md.devId → e'.keyForRemoteDesc desc = e.keyForRemoteDesc desc := by
  have htabled := Tabled.reach h
  refine ⟨fun locals remote mds hvalid hreg => ?_, fun handle e' hs k md hne hk => ?_⟩
  · have hlen : locals.descs.length = remote.descs.length := by
      unfold Engine.validateXfer at hvalid
      grind
    obtain ⟨ops, hops, hkeys⟩ := htabled.prepOps_ok hlen hreg
    refine ⟨ops, ?_, hkeys, fun client operation => ?_⟩
    · rw [Engine.prepXfer, hvalid]
      exact hops
    · cases client with
      | none => exact List.nil_prefix
      | some client =>
        rw [Engine.postXfer, hvalid, ← hkeys]
        have := (postOps_calls client operation [] ops).map fun call => call.2.key
        rw [List.nil_append, List.map_map] at this
        exact this
  · obtain ⟨hlive, hkey⟩ := (htabled.deregister hs).2 k md hne hk
    refine ⟨hlive, fun desc hdesc => ?_⟩
    rw [Engine.keyForRemoteDesc, Engine.keyForRemoteDesc, hdesc, hkey]

def slot (devId : UInt64) (handle : ℕ) : MetaDesc := ⟨0, 8, devId, some handle⟩

def registeredTwo (a b : UInt64) : Engine :=
  ((Engine.initial.registerMem ⟨a, "a"⟩ .obj).1.registerMem ⟨b, "b"⟩ .obj).1

theorem transfers_reach_registration_pair : (∃ ops,
    (registeredTwo 1 2).prepXfer ⟨.dram, [slot 0 0, slot 0 0]⟩ ⟨.obj, [slot 1 0, slot 2 1]⟩ =
      .ok ops ∧ ops.map TransferOp.key = ["a", "b"]) ∧
    ∃ e, (registeredTwo 1 2).deregisterMem (some 0) = some e ∧
      e.handles 1 = some ⟨.obj, 2, "b"⟩ ∧ e.keyForRemoteDesc (slot 2 1) = "b" := by
  have hreach : machine.Reach Fresh (registeredTwo 1 2) := by
    refine .step (e := .register ⟨2, "b"⟩ .obj) (.step (e := .register ⟨1, "a"⟩ .obj) .start ?_ rfl)
      ?_ rfl
    · intro h md hmd
      cases hmd
    · intro h md hmd
      by_cases hzero : h = 0
      · subst hzero
        cases hmd
        decide
      · have hmd := (Function.update_of_ne hzero _ _).symm.trans hmd
        cases hmd
  obtain ⟨htransfer, hderegister⟩ := transfers_reach_registration hreach
  obtain ⟨ops, hops, hkeys, -⟩ := htransfer
    ⟨.dram, [slot 0 0, slot 0 0]⟩ ⟨.obj, [slot 1 0, slot 2 1]⟩ [⟨.obj, 1, "a"⟩, ⟨.obj, 2, "b"⟩] rfl
    (.cons ⟨0, rfl, rfl, rfl⟩ (.cons ⟨1, rfl, rfl, rfl⟩ .nil))
  obtain ⟨hlive, hkey⟩ := hderegister (some 0) _ rfl 1 ⟨.obj, 2, "b"⟩ (by decide) rfl
  exact ⟨⟨ops, hops, hkeys⟩, _, rfl, hlive, hkey (slot 2 1) rfl⟩

theorem transfers_stray : ∃ e, machine.Reach (fun _ _ => True) e ∧
    e.Registered (slot 1 0) ⟨.obj, 1, "a"⟩ ∧
    e.prepXfer ⟨.dram, [slot 0 0]⟩ ⟨.obj, [slot 1 0]⟩ = .ok [⟨"b", 0, 8, 0⟩] ∧
    ∃ e', e.deregisterMem (some 1) = some e' ∧ e'.Registered (slot 1 0) ⟨.obj, 1, "a"⟩ ∧
      e'.prepXfer ⟨.dram, [slot 0 0]⟩ ⟨.obj, [slot 1 0]⟩ = .error .invalidParam :=
  ⟨registeredTwo 1 1, .step (e := .register ⟨1, "b"⟩ .obj)
    (.step (e := .register ⟨1, "a"⟩ .obj) .start trivial rfl) trivial rfl,
    ⟨0, rfl, rfl, rfl⟩, rfl, _, rfl, ⟨0, rfl, rfl, rfl⟩, rfl⟩

end ContextStore.Nixl
