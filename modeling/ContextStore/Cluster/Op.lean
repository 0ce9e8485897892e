import ContextStore.Protocol.Rdma
import ContextStore.Conc.System

/-!
# cluster の操作

どの node でもいつでも起動できる操作と、その program・応答・許されること（`Role`）。
-/

namespace ContextStore

open Conc

variable {ν : Type}

/-- 操作。 -/
inductive Op (ν : Type) where
  | put (n : ν) (req : PutRequest)
  | putBatch (n : ν) (reqs : List PutRequest)
  | putStream (n : ν) (head : PutStreamHead) (chunks : List PutChunk)
  | memPut (n : ν) (key : ObjectKey) (data : Bytes) (m : BlockMeta) (ifAbsent : Bool)
  | memPutChunks (n : ν) (key : ObjectKey) (segments : List Bytes) (m : BlockMeta)
      (ifAbsent : Bool)
  | rdmaPut (n : ν) (rawKey : String) (data : Bytes) (ttlSeconds : Int) (ifAbsent : Bool)
  | delete (n : ν) (key : Option ObjectKey)
  | get (n : ν) (key : Option ObjectKey)
  | exists_ (n : ν) (key : Option ObjectKey)
  | getBatch (n : ν) (keys : List ObjectKey)
  | getStream (n : ν) (key : Option ObjectKey)
  | readByDescriptor (n : ν) (desc : ObjectDescriptor) (placement : Option PlacementDescriptor)
  | storageGet (n : ν) (key : ObjectKey)
  | memGet (n : ν) (key : ObjectKey)
  | memGetChunks (n : ν) (key : ObjectKey)
  | rdmaGet (n : ν) (rawKey : String) (maxSize : Nat)
  | descriptorGet (n : ν) (rawKey : String) (desc : ObjectDescriptor) (maxSize : Nat)
  | gc (n : ν)

inductive Answer where
  | put (r : Result)
  | puts (rs : Option (List Bool))
  | deleted (r : Option Bool)
  | read (r : Option (Option Bytes))
  | reads (rs : Option (List (Option Bytes)))
  | found (r : Option Bool)
  | done
deriving DecidableEq, Repr

def Answer.verdict : Answer → Result
  | .put r => r
  | _ => none

namespace Op

def node : Op ν → ν
  | put n _ => n
  | putBatch n _ => n
  | putStream n _ _ => n
  | memPut n _ _ _ _ => n
  | memPutChunks n _ _ _ _ => n
  | rdmaPut n _ _ _ _ => n
  | delete n _ => n
  | get n _ => n
  | exists_ n _ => n
  | getBatch n _ => n
  | getStream n _ => n
  | readByDescriptor n _ _ => n
  | storageGet n _ => n
  | memGet n _ => n
  | memGetChunks n _ => n
  | rdmaGet n _ _ => n
  | descriptorGet n _ _ _ => n
  | gc n => n

def Writes : Op ν → ObjectKey → Bytes → Prop
  | put _ req, k, b => req.key = some k ∧ b = req.data
  | putBatch _ reqs, k, b => ∃ req ∈ reqs, req.key = some k ∧ b = req.data
  | putStream _ head chunks, k, b => head.key = some k ∧ b = receivedData chunks
  | memPut _ key data _ _, k, b => k = key ∧ b = data
  | memPutChunks _ key segments _ _, k, b => k = key ∧ b = segments.flatten
  | rdmaPut _ rawKey data _ _, k, b => ObjectKey.fromStringKey rawKey = .ok k ∧ b = data
  | _, _, _ => False

def isRead : Op ν → Bool
  | get _ _ => true
  | exists_ _ _ => true
  | getBatch _ _ => true
  | getStream _ _ => true
  | readByDescriptor _ _ _ => true
  | storageGet _ _ => true
  | memGet _ _ => true
  | memGetChunks _ _ => true
  | rdmaGet _ _ _ => true
  | descriptorGet _ _ _ _ => true
  | _ => false

def role (op : Op ν) : Role ν where
  node := op.node
  writes := op.Writes
  retires := fun s => ∃ n key, op = .delete n (some key) ∧ s = key.toStringKey
  purges := op.isRead
  collects := match op with
    | .gc _ => true
    | _ => false
  lenient := match op with
    | .putBatch _ _ => true
    | _ => false
  streams := match op with
    | .putStream _ _ _ => true
    | _ => false

theorem not_writes_of_collects (o : Op ν) (h : o.role.collects = true) (k : ObjectKey)
    (b : Bytes) : ¬ o.role.writes k b := by
  cases o with
  | gc n => exact id
  | _ => cases h

variable (E : Env ν)

def prog : Op ν → Io ν Answer
  | put n req => do
    let r ← (Service.put E n req).run
    pure (.put (storedBy r))
  | putBatch n reqs => do
    let r ← (Service.putBatch E n reqs).run
    pure (.puts r.toOption)
  | putStream n head chunks => do
    let r ← (Service.putStream E n head chunks).run
    pure (.put (storedBy r))
  | memPut n key data m ifAbsent => do
    let r ← (Service.putOne E n key data m ifAbsent).run
    pure (.put (storedBy r))
  | memPutChunks n key segments m true => do
    let r ← (Memory.putChunksIfAbsent E n key segments m).run
    pure (.put (storedBy r))
  | memPutChunks n key segments m false => do
    let r ← (Memory.putChunks E n key segments m).run
    pure (.put (succeeded r))
  | rdmaPut n rawKey data ttlSeconds ifAbsent => do
    let r ← (Rdma.handlePut E n rawKey data ttlSeconds ifAbsent).run
    pure (.put (Rdma.PutResult.verdict r))
  | delete n key => do
    let r ← (Service.delete E n key).run
    pure (.deleted r.toOption)
  | get n key => do
    let r ← (Service.get E n key).run
    pure (.read r.toOption)
  | exists_ n key => do
    let r ← (Service.exists_ E n key).run
    pure (.found r.toOption)
  | getBatch n keys => do
    let r ← (Service.getBatch E n keys).run
    pure (.reads r.toOption)
  | getStream n key => do
    let r ← (Service.getStream E n key).run
    pure (.read (r.toOption.map some))
  | readByDescriptor n desc placement => do
    let r ← (Service.readByDescriptor E n desc placement).run
    pure (.read r.toOption)
  | storageGet n key => do
    let r ← (Storage.get E n key).run
    pure (.read (r.toOption.map (·.map (·.1))))
  | memGet n key => do
    let r ← (Memory.get E n key).run
    pure (.read (r.toOption.map (·.map (·.1))))
  | memGetChunks n key => do
    let r ← (Memory.getChunks E n key).run
    pure (.read (r.toOption.map (·.map (·.1.flatten))))
  | rdmaGet n rawKey maxSize => do
    let r ← (Rdma.keyGet E n rawKey maxSize).run
    pure (.read r.toOption)
  | descriptorGet n rawKey desc maxSize => do
    let r ← (Rdma.descriptorGet E n rawKey desc maxSize).run
    pure (.read r.toOption)
  | gc n => do
    Service.runGcOnce E n
    pure .done

variable {E}

theorem conforms_of_plain {α : Type} {ρ : Role ν} {p : Io ν α} {f : α → Answer}
    (hp : Plain E ρ [] p) (hf : ∀ a, (f a).verdict = none) :
    Conforms (Guard E ρ) (fun t a => Settled E t a.verdict) [] (p >>= fun r => pure (f r)) := by
  refine Conforms.bind hp fun t r _ hl => ?_
  show Settled E t (f r).verdict
  rw [hf]
  exact .of_quiet (by rw [hl]; exact Ledger.quiet_empty)

theorem conforms (op : Op ν) :
    Conforms (Guard E op.role) (fun t a => Settled E t a.verdict) [] (op.prog E) := by
  have hq : (ledger ([] : Hist ν)).Quiet := Ledger.quiet_empty
  cases op with
  | put n req =>
    exact Conforms.bind (servicePut_conforms rfl hq rfl fun key hk => ⟨hk, rfl⟩)
      fun _ _ _ h => h
  | putBatch n reqs =>
    exact Conforms.bind (servicePutBatch_conforms rfl rfl hq
      fun req hreq key hk => ⟨req, hreq, hk, rfl⟩) fun _ _ _ h => h
  | putStream n head chunks =>
    exact Conforms.bind (servicePutStream_conforms rfl rfl hq rfl fun key hk => ⟨hk, rfl⟩)
      fun _ _ _ h => h
  | memPut n key data m ifAbsent =>
    cases ifAbsent with
    | true =>
      exact Conforms.bind (memoryPutIfAbsent_conforms rfl hq rfl ⟨rfl, rfl⟩)
        fun _ _ _ h => h.settled
    | false =>
      refine Conforms.bind (Q := fun t r => Settled E t (storedBy r)) ?_ fun _ _ _ h => h
      exact Conforms.except_bind (memoryPut_conforms rfl hq rfl ⟨rfl, rfl⟩)
        (fun _ _ _ h => h.settled) (fun _ _ _ h => h.settled)
  | memPutChunks n key segments m ifAbsent =>
    cases ifAbsent with
    | true =>
      exact Conforms.bind (memoryPutChunksIfAbsent_conforms rfl hq rfl ⟨rfl, rfl⟩)
        fun _ _ _ h => h.settled
    | false =>
      exact Conforms.bind (memoryPutChunks_conforms rfl hq rfl ⟨rfl, rfl⟩)
        fun _ _ _ h => h.settled
  | rdmaPut n rawKey data ttlSeconds ifAbsent =>
    exact Conforms.bind (handlePut_conforms rfl hq rfl fun key hk => ⟨hk, rfl⟩) fun _ _ _ h => h
  | delete n key =>
    refine conforms_of_plain (serviceDelete_conforms hq ?_) fun _ => rfl
    rintro key rfl
    exact ⟨n, key, rfl, rfl⟩
  | get n key => exact conforms_of_plain ((serviceGet_gives rfl).plain rfl hq) fun _ => rfl
  | exists_ n key => exact conforms_of_plain ((serviceExists_issues rfl).plain rfl hq) fun _ => rfl
  | getBatch n keys =>
    exact conforms_of_plain ((serviceGetBatch_gives rfl).plain rfl hq) fun _ => rfl
  | getStream n key =>
    exact conforms_of_plain ((serviceGetStream_gives rfl).plain rfl hq) fun _ => rfl
  | readByDescriptor n desc placement =>
    exact conforms_of_plain ((readByDescriptor_gives rfl).plain rfl hq) fun _ => rfl
  | storageGet n key => exact conforms_of_plain ((storageGet_gives rfl).plain rfl hq) fun _ => rfl
  | memGet n key => exact conforms_of_plain ((memoryGet_gives rfl).plain rfl hq) fun _ => rfl
  | memGetChunks n key =>
    exact conforms_of_plain ((memoryGetChunks_gives rfl).plain rfl hq) fun _ => rfl
  | rdmaGet n rawKey maxSize =>
    exact conforms_of_plain ((keyGet_issues rfl trivial).plain rfl hq) fun _ => rfl
  | descriptorGet n rawKey desc maxSize =>
    exact conforms_of_plain ((descriptorGet_issues rfl trivial).plain rfl hq) fun _ => rfl
  | gc n => exact conforms_of_plain (runGcOnce_conforms rfl rfl) fun _ => rfl

end Op

end ContextStore
