import ContextStore.Rdma

/-!
# 書き込みの台帳
-/

namespace ContextStore

open Conc

variable {ν : Type}

abbrev Hist (ν : Type) := Trace (Cmd ν) Cmd.Resp

def RedisCmd.publishes : RedisCmd → Option (String × BlockMeta)
  | .putBlockIfAbsent s m => some (s, m)
  | .replaceBlock s m _ => some (s, m)
  | _ => none

inductive CommitState where
  | idle
  | firstFailed (c : RedisCmd)
  | reconnected (c : RedisCmd)
  | gaveUp (c : RedisCmd)
  | acked (c : RedisCmd) (inserted : Bool)

structure Draw (ν : Type) where
  key : ObjectKey
  data : Bytes
  gen : Nat
  files : List (ν × String × Bytes)
  commit : CommitState
  deleted : List (ν × String)

namespace Draw

variable (d : Draw ν)

def onCommit (c : RedisCmd) : Except String Bool → Draw ν
  | .ok inserted => { d with commit := .acked c inserted }
  | .error _ =>
    match d.commit with
    | .reconnected _ => { d with commit := .gaveUp c }
    | _ => { d with commit := .firstFailed c }

def onReconnect (r : Except String Unit) : Draw ν :=
  match d.commit with
  | .firstFailed c =>
    match r with
    | .ok () => { d with commit := .reconnected c }
    | .error _ => { d with commit := .gaveUp c }
  | _ => d

def addFile (n : ν) (p : String) (data : Bytes) : Draw ν :=
  { d with files := (n, p, data) :: d.files }

def addDeleted (n : ν) (p : String) : Draw ν := { d with deleted := (n, p) :: d.deleted }

end Draw

/-- 台帳。 -/
structure Ledger (ν : Type) where
  call : Option (ObjectKey × Bytes)
  draws : List (Draw ν)

namespace Ledger

def empty : Ledger ν := ⟨none, []⟩

def modifyHead (f : Draw ν → Draw ν) (l : Ledger ν) : Ledger ν :=
  match l.draws with
  | [] => l
  | d :: ds => { l with draws := f d :: ds }

@[simp] theorem modifyHead_cons (f : Draw ν → Draw ν) (call : Option (ObjectKey × Bytes))
    (d : Draw ν) (ds : List (Draw ν)) : modifyHead f ⟨call, d :: ds⟩ = ⟨call, f d :: ds⟩ := rfl

def draw (g : Nat) (l : Ledger ν) : Ledger ν :=
  match l.call with
  | none => l
  | some (k, b) => ⟨none, ⟨k, b, g, [], .idle, []⟩ :: l.draws⟩

def onRedis (l : Ledger ν) : (c : RedisCmd) → Except String c.Reply → Ledger ν
  | .nextGeneration _, .ok g => l.draw g
  | .putBlockIfAbsent s m, r => l.modifyHead fun d => d.onCommit (.putBlockIfAbsent s m) r
  | .replaceBlock s m nb, r =>
    l.modifyHead fun d => d.onCommit (.replaceBlock s m nb) (r.map fun _ => true)
  | _, _ => l

def next (l : Ledger ν) : (c : Cmd ν) → c.Resp → Ledger ν
  | .invoke k b, _ => { l with call := some (k, b) }
  | .redis c, r => l.onRedis c r
  | .reconnect, r => l.modifyHead fun d => d.onReconnect r
  | .writeFile n p data, .ok () => l.modifyHead fun d => d.addFile n p data
  | .deleteFile n p, .ok () => l.modifyHead fun d => d.addDeleted n p
  | _, _ => l

end Ledger

def ledger : Hist ν → Ledger ν
  | [] => Ledger.empty
  | e :: t => (ledger t).next e.1 e.2

section LedgerLemmas

variable {t : Hist ν}

@[simp] theorem ledger_invoke (k : ObjectKey) (b : Bytes) (r : Unit) :
    ledger (⟨.invoke k b, r⟩ :: t) = ⟨some (k, b), (ledger t).draws⟩ := rfl

@[simp] theorem ledger_now (r : Int) : ledger (⟨.now, r⟩ :: t) = ledger t := rfl

@[simp] theorem ledger_fileExists (n : ν) (p : String) (r : Bool) :
    ledger (⟨.fileExists n p, r⟩ :: t) = ledger t := rfl

@[simp] theorem ledger_lock (n : ν) (cls : LockClass) (s : String) (r : Unit) :
    ledger (⟨.lock n cls s, r⟩ :: t) = ledger t := rfl

@[simp] theorem ledger_reconnect (r : Except String Unit) :
    ledger (⟨.reconnect, r⟩ :: t) = (ledger t).modifyHead fun d => d.onReconnect r := rfl

@[simp] theorem ledger_writeFile_ok (n : ν) (p : String) (data : Bytes) :
    ledger (⟨.writeFile n p data, .ok ()⟩ :: t) =
      (ledger t).modifyHead fun d => d.addFile n p data := rfl

@[simp] theorem ledger_deleteFile_ok (n : ν) (p : String) :
    ledger (⟨.deleteFile n p, .ok ()⟩ :: t) = (ledger t).modifyHead fun d => d.addDeleted n p := rfl

@[simp] theorem ledger_deleteFile_error (n : ν) (p : String) (e : IoError) :
    ledger (⟨.deleteFile n p, .error e⟩ :: t) = ledger t := rfl

@[simp] theorem ledger_redis (c : RedisCmd) (r : Except String c.Reply) :
    ledger (⟨.redis c, r⟩ :: t) = (ledger t).onRedis c r := rfl

end LedgerLemmas

structure Draw.Evolves (d d' : Draw ν) : Prop where
  key : d'.key = d.key
  data : d'.data = d.data
  gen : d'.gen = d.gen
  files : d.files ⊆ d'.files
  deleted : d.deleted ⊆ d'.deleted

namespace Draw.Evolves

variable {d d' d'' : Draw ν}

theorem refl (d : Draw ν) : d.Evolves d := ⟨rfl, rfl, rfl, fun _ h => h, fun _ h => h⟩

theorem trans (h : d.Evolves d') (h' : d'.Evolves d'') : d.Evolves d'' where
  key := h'.key.trans h.key
  data := h'.data.trans h.data
  gen := h'.gen.trans h.gen
  files := fun _ hf => h'.files (h.files hf)
  deleted := fun _ hf => h'.deleted (h.deleted hf)

end Draw.Evolves

theorem Draw.evolves_onCommit (d : Draw ν) (c : RedisCmd) (r : Except String Bool) :
    d.Evolves (d.onCommit c r) := by
  unfold Draw.onCommit
  split
  · exact ⟨rfl, rfl, rfl, fun _ h => h, fun _ h => h⟩
  · split <;> exact ⟨rfl, rfl, rfl, fun _ h => h, fun _ h => h⟩

theorem Draw.evolves_onReconnect (d : Draw ν) (r : Except String Unit) :
    d.Evolves (d.onReconnect r) := by
  unfold Draw.onReconnect
  split
  · split <;> exact ⟨rfl, rfl, rfl, fun _ h => h, fun _ h => h⟩
  · exact .refl d

theorem Draw.evolves_addFile (d : Draw ν) (n : ν) (p : String) (data : Bytes) :
    d.Evolves (d.addFile n p data) :=
  ⟨rfl, rfl, rfl, fun _ h => List.mem_cons_of_mem _ h, fun _ h => h⟩

theorem Draw.evolves_addDeleted (d : Draw ν) (n : ν) (p : String) :
    d.Evolves (d.addDeleted n p) :=
  ⟨rfl, rfl, rfl, fun _ h => h, fun _ h => List.mem_cons_of_mem _ h⟩

inductive Ledger.Advances (l : Ledger ν) : Ledger ν → Prop where
  | same {l' : Ledger ν} (h : l'.draws = l.draws) : Advances l l'
  | evolve {l' : Ledger ν} {d d' : Draw ν} {ds : List (Draw ν)} (h : l.draws = d :: ds)
      (h' : l'.draws = d' :: ds) (he : d.Evolves d') : Advances l l'
  | push {l' : Ledger ν} {d : Draw ν} (h : l'.draws = d :: l.draws) : Advances l l'

theorem Ledger.advances_modifyHead {f : Draw ν → Draw ν} (hf : ∀ d : Draw ν, d.Evolves (f d))
    (l : Ledger ν) : l.Advances (l.modifyHead f) := by
  obtain ⟨call, draws⟩ := l
  cases draws with
  | nil => exact .same rfl
  | cons d ds => exact .evolve rfl rfl (hf d)

theorem Ledger.advances_onRedis (l : Ledger ν) (c : RedisCmd) (r : Except String c.Reply) :
    l.Advances (l.onRedis c r) := by
  cases c with
  | nextGeneration s =>
    cases r with
    | error e => exact .same rfl
    | ok g =>
      obtain ⟨call, draws⟩ := l
      cases call with
      | none => exact .same rfl
      | some kb => exact .push rfl
  | putBlockIfAbsent s m => exact advances_modifyHead (fun d => d.evolves_onCommit _ _) l
  | replaceBlock s m nb => exact advances_modifyHead (fun d => d.evolves_onCommit _ _) l
  | _ => exact .same rfl

theorem Ledger.advances_next (l : Ledger ν) (c : Cmd ν) (r : c.Resp) : l.Advances (l.next c r) := by
  cases c with
  | redis c => exact advances_onRedis l c r
  | reconnect => exact advances_modifyHead (fun d => d.evolves_onReconnect r) l
  | writeFile n p data =>
    cases r with
    | error e => exact .same rfl
    | ok u => exact advances_modifyHead (fun d => d.evolves_addFile n p data) l
  | deleteFile n p =>
    cases r with
    | error e => exact .same rfl
    | ok u => exact advances_modifyHead (fun d => d.evolves_addDeleted n p) l
  | _ => exact .same rfl

theorem ledger_suffix {t t' : Hist ν} (hs : t <:+ t') {d : Draw ν} {ds : List (Draw ν)}
    (h : (ledger t).draws = d :: ds) :
    ∃ pre d', (ledger t').draws = pre ++ d' :: ds ∧ d.Evolves d' := by
  obtain ⟨seg, rfl⟩ := hs
  induction seg with
  | nil => exact ⟨[], d, h, .refl d⟩
  | cons e seg ih =>
    obtain ⟨pre, d', hd', he⟩ := ih
    show ∃ pre d', ((ledger (seg ++ t)).next e.1 e.2).draws = pre ++ d' :: ds ∧ d.Evolves d'
    generalize ledger (seg ++ t) = l at hd'
    cases l.advances_next e.1 e.2 with
    | same hsame => exact ⟨pre, d', hsame.trans hd', he⟩
    | push hpush => exact ⟨_ :: pre, d', by rw [hpush, hd']; rfl, he⟩
    | @evolve d₀ d₁ ds₀ h₀ h₁ he₁ =>
      rw [h₀] at hd'
      cases pre with
      | nil =>
        obtain ⟨rfl, rfl⟩ := List.cons.inj hd'
        exact ⟨[], d₁, h₁, he.trans he₁⟩
      | cons x pre =>
        grind

theorem ledger_suffix_head {t t' : Hist ν} (hs : t <:+ t') {d d' : Draw ν} {ds : List (Draw ν)}
    (h : (ledger t).draws = d :: ds) (h' : (ledger t').draws = d' :: ds) : d.Evolves d' := by
  obtain ⟨pre, d₁, hd₁, he⟩ := ledger_suffix hs h
  rw [h'] at hd₁
  cases pre with
  | nil => obtain ⟨rfl, -⟩ := List.cons.inj hd₁; exact he
  | cons x pre =>
    have hlen := congrArg List.length hd₁
    grind

end ContextStore
