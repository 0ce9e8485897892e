import ContextStore.Protocol.Ledger
import ContextStore.Layout

/-!
# 操作が守る規約

どの操作も、どんな応答が返っても、発行する命令ごとに `Guard` を満たす。
-/

namespace ContextStore

open Conc

variable {ν : Type}

def BlockMeta.files (m : BlockMeta) : List String :=
  match m.striping with
  | some s => s.chunkPaths ++ s.chunkLocations.map ChunkLocation.storageHandle
  | none => [m.filePath]

theorem BlockMeta.mem_files_striped {m : BlockMeta} {s : StripingInfo} {p : String}
    (h : m.striping = some s) :
    p ∈ m.files ↔ p ∈ s.chunkPaths ∨ ∃ c ∈ s.chunkLocations, c.storageHandle = p := by
  unfold files
  rw [h, List.mem_append, List.mem_map]

theorem BlockMeta.mem_files_whole {m : BlockMeta} {p : String} (h : m.striping = none) :
    p ∈ m.files ↔ p = m.filePath := by
  unfold files
  rw [h, List.mem_singleton]

def slice (chunkSize : Nat) (b : Bytes) : ShardRouter.FileKind → Bytes
  | .whole => b
  | .chunk i => Service.stripeOf chunkSize b i

structure Role (ν : Type) where
  node : ν
  writes : ObjectKey → Bytes → Prop
  retires : String → Prop
  purges : Bool
  collects : Bool
  lenient : Bool
  streams : Bool

section Guard

variable (E : Env ν) (ρ : Role ν)

def Role.chunkSize : Nat := (E.cfg ρ.node).stripingChunkSize

def Role.Fits (b : Bytes) : Prop := b.length ≤ 2 ^ 32 * ρ.chunkSize E

/-! ## 書き込み -/

def Draw.Owns (d : Draw ν) (p : String) : Prop :=
  ∃ (r : ShardRouter) (dev : Nat) (kind : ShardRouter.FileKind),
    p = r.versionedPath E.ext d.key dev d.gen 1 kind

def Draw.OwnFile (d : Draw ν) (p : String) (data : Bytes) : Prop :=
  ∃ (r : ShardRouter) (dev : Nat) (kind : ShardRouter.FileKind),
    p = r.versionedPath E.ext d.key dev d.gen 1 kind ∧
      (ρ.Fits E d.data → data = slice (ρ.chunkSize E) d.data kind)

structure StripesContent (d : Draw ν) (s : StripingInfo) : Prop where
  chunkSize : s.chunkSize = ρ.chunkSize E
  totalSize : s.totalSize = d.data.length
  count : s.chunkPaths.length = Storage.divCeil d.data.length (ρ.chunkSize E)
  path : ∀ (i : Nat) p, s.chunkPaths[i]? = some p → ∃ (r : ShardRouter) (dev : Nat),
    p = r.versionedPath E.ext d.key dev d.gen 1 (.chunk i)
  locations : s.chunkLocations = [] ∨
    (s.chunkLocations.map ChunkLocation.storageHandle = s.chunkPaths ∧
      s.chunkLocations.map ChunkLocation.stripeIndex = List.range s.chunkPaths.length)
  checksum : ∀ (i : Nat) p n data, s.chunkPaths[i]? = some p → (n, p, data) ∈ d.files →
    (E.cfg n).verifyStripeChecksums = true →
    s.chunkChecksums[i]? = some (Storage.checksumBytes E data)

def Content (d : Draw ν) (m : BlockMeta) : Prop :=
  m.size = d.data.length ∧
    match m.striping with
    | none => ∃ (r : ShardRouter) (dev : Nat),
        m.filePath = r.versionedPath E.ext d.key dev d.gen 1 .whole
    | some s => StripesContent E ρ d s

def stripeTarget (n : ν) (key : ObjectKey) (i : Nat) : Option ν :=
  if (E.cfg n).isLocalNode (Placement.selectDataNode E n key i) then some n
  else E.resolve (Placement.selectDataNode E n key i).grpcEndpoint

def Names (q : ν) (l : ChunkLocation) (n : ν) : Prop :=
  l.node = (E.cfg n).localNode ∨
  (n = q ∧ l.node ∈ (E.cfg q).configuredDataNodes ∧ (E.cfg q).isLocalNode l.node = true)

structure Laid (d : Draw ν) (m : BlockMeta) (s : StripingInfo) : Prop where
  wellLaid : (s.chunkLocations ≠ [] → ρ.Fits E d.data) → WellLaid m s
  filled : (s.chunkLocations ≠ [] → ρ.Fits E d.data) → ∀ (i : Nat) p n data,
    s.chunkPaths[i]? = some p → (n, p, data) ∈ d.files → data.length = s.stripeLength i
  spread : s.chunkLocations ≠ [] →
    Placement.distributedPlacementEnabled E ρ.node d.data.length = true
  placed : ρ.Fits E d.data → ∀ l ∈ s.chunkLocations, ∀ n data,
    (n, l.storageHandle, data) ∈ d.files → Names E ρ.node l n
  verified : (E.cfg ρ.node).verifyStripeChecksums = true →
    s.chunkChecksums.length = s.chunkPaths.length ∧ ∀ x ∈ s.chunkChecksums, x = "" →
      ρ.streams = true ∧ s.chunkLocations ≠ [] ∧
        ∃ i < Storage.divCeil d.data.length (ρ.chunkSize E), ∃ dst,
          stripeTarget E ρ.node d.key i = some dst ∧ (E.cfg dst).verifyStripeChecksums = false

structure Describes (d : Draw ν) (m : BlockMeta) : Prop where
  gen : m.objectGeneration = d.gen
  named : ∀ p ∈ m.files, d.Owns E p ∧ ∃ n data, (n, p, data) ∈ d.files
  covers : ∀ f ∈ d.files, f.2.1 ∈ m.files
  home : (∀ s, m.striping = some s → s.chunkLocations = []) → ∀ f ∈ d.files, f.1 = ρ.node
  laid : ∀ s, m.striping = some s → Laid E ρ d m s
  content : ρ.Fits E d.data → Content E ρ d m

def Draw.MaySend (d : Draw ν) (c : RedisCmd) : Prop :=
  d.deleted = [] ∧ (d.commit = .idle ∨ d.commit = .reconnected c)

def Draw.MayRollback (d : Draw ν) : Prop :=
  d.commit = .idle ∨ (∃ c, d.commit = .gaveUp c) ∨ ∃ c, d.commit = .acked c false

def Draw.Stored (d : Draw ν) : Prop := ∃ c, d.commit = .acked c true

/-! ## 読み出し -/

variable (t : Hist ν)

def Looked (s : String) (m : BlockMeta) : Prop :=
  (⟨.redis (.getBlock s), .ok (some m)⟩ : Event (Cmd ν) Cmd.Resp) ∈ t

def SeenAfter (s : String) (m : BlockMeta) (e : Event (Cmd ν) Cmd.Resp) : Prop :=
  ∃ t₁, e :: t₁ <:+ t ∧ Looked t₁ s m

def LookPath (n : ν) (key : ObjectKey) (m : BlockMeta) (p : String) : Prop :=
  match m.striping with
  | none => p = Storage.metaPathOrRoute E n key m
  | some s => p ∈ s.chunkPaths

def Absent (n : ν) (p : String) (e : Event (Cmd ν) Cmd.Resp) : Prop :=
  e = ⟨.fileExists n p, false⟩ ∨
  (∃ err : IoError, err.notFound = true ∧ e = ⟨.readFile n p, .error err⟩) ∨
  ∃ (o l : Nat) (err : IoError), err.notFound = true ∧ e = ⟨.readRange n p o l, .error err⟩

def rangesOf (n : ν) (s : StripingInfo) (i : Nat) (p : String) : List Storage.Range :=
  Storage.stripeRanges (Storage.rdmaStreamChunkSize E n) i p
    (min ((i + 1) * s.chunkSize) s.totalSize - i * s.chunkSize)

def Unreadable (key : ObjectKey) (m : BlockMeta) : Prop :=
  (∃ n p e, LookPath E n key m p ∧ Absent n p e ∧ SeenAfter t key.toStringKey m e) ∨
  (∃ (n : ν) (s : StripingInfo) (i : Nat) (p : String) (data : Bytes) (err : KVError),
    m.striping = some s ∧ s.chunkPaths[i]? = some p ∧
    SeenAfter t key.toStringKey m ⟨.readFile n p, .ok data⟩ ∧
    Storage.verifyStripeBytes E n s i data = .error err) ∨
  ∃ (n : ν) (s : StripingInfo) (i : Nat) (p : String) (results : List (Except IoError Bytes))
    (err : KVError), m.striping = some s ∧ s.chunkPaths[i]? = some p ∧
    (E.cfg n).verifyStripeChecksums = true ∧
    List.Forall₂ (fun (r : Storage.Range) res =>
      SeenAfter t key.toStringKey m ⟨.readRange n r.path r.offset r.length, res⟩)
      (rangesOf E n s i p) results ∧
    Storage.rangesError E s i (rangesOf E n s i p) results = some err

def ReadsFile (n : ν) (p : String) (len : Nat) (data : Bytes) : Prop :=
  (⟨.readFile n p, .ok data⟩ : Event (Cmd ν) Cmd.Resp) ∈ t ∨
  ∃ (step i : Nat) (parts : List Bytes), 0 < step ∧ data = parts.flatten ∧
    List.Forall₂ (fun (r : Storage.Range) part => part.length = r.length ∧
      (⟨.readRange n r.path r.offset r.length, .ok part⟩ : Event (Cmd ν) Cmd.Resp) ∈ t)
      (Storage.stripeRanges step i p len) parts

def ReadBack (n : ν) (key : ObjectKey) (m : BlockMeta) (b : Bytes) : Prop :=
  match m.striping with
  | none => ReadsFile t n (Storage.metaPathOrRoute E n key m) m.size b
  | some s => ∃ parts : List Bytes, b = parts.flatten ∧
      parts.length = s.chunkPaths.length ∧
      ∀ (i : Nat) p part, s.chunkPaths[i]? = some p → parts[i]? = some part →
        ReadsFile t n p (min ((i + 1) * s.chunkSize) s.totalSize - i * s.chunkSize) part

def ReRead (d : Draw ν) (s : String) (r : Except String (Option BlockMeta)) : Prop :=
  ∃ t₁ : Hist ν, (⟨.redis (.getBlock s), r⟩ : Event (Cmd ν) Cmd.Resp) :: t₁ <:+ t ∧
    d ∈ (ledger t₁).draws

def Provenance (s : String) (m : BlockMeta) (b : Bytes) : Prop :=
  (∃ d ∈ (ledger t).draws, d.Stored ∧ d.data = b ∧
    (s = d.key.toStringKey ∨ ObjectKey.fromStringKey s = .ok d.key) ∧
    (ReRead t d s (.ok (some m)) ∨ ReRead t d s (.ok none) ∨
      (ρ.lenient = true ∧ ∃ e, ReRead t d s (.error e)))) ∨
  ∃ key : ObjectKey, s = key.toStringKey ∧ Looked t s m ∧ ReadBack E t ρ.node key m b

def Claimed (task : GcTask) : Prop :=
  ∃ now limit lease payloads, (⟨.redis (.takeDueGcTasks now limit lease), .ok payloads⟩ :
    Event (Cmd ν) Cmd.Resp) ∈ t ∧ ∃ p ∈ payloads, p.task = task

def RedisGuard : RedisCmd → Prop
  | .getBlock _ => True
  | .nextGeneration s => ∃ k b, (ledger t).call = some (k, b) ∧ s = k.toStringKey
  | .putBlockIfAbsent s m => ∃ d ds, ledger t = ⟨none, d :: ds⟩ ∧ s = d.key.toStringKey ∧
      d.MaySend (.putBlockIfAbsent s m) ∧ Describes E ρ d m
  | .replaceBlock s m nb => ∃ d ds, ledger t = ⟨none, d :: ds⟩ ∧ s = d.key.toStringKey ∧
      d.MaySend (.replaceBlock s m nb) ∧ Describes E ρ d m
  | .retireBlock s _ => ρ.retires s
  | .retireBlockIfMatches s m _ => Looked t s m ∧
      ∃ now, (⟨.now, now⟩ : Event (Cmd ν) Cmd.Resp) ∈ t ∧ m.isExpiredAt now = true
  | .deleteBlockIfMatches s g => ρ.purges = true ∧ ∃ key m, s = key.toStringKey ∧
      m.objectGeneration = g ∧ Looked t s m ∧ Unreadable E t key m
  | .takeDueGcTasks _ _ _ => ρ.collects = true
  | .zremInflight _ => ρ.collects = true
  | .delTask _ => ρ.collects = true
  | .zaddDue _ _ => ρ.collects = true
  | .hsetTask _ p => ρ.collects = true ∧ ∃ task, Claimed t task ∧ p.task.key = task.key ∧
      p.task.retired = task.retired

def L1Guard (n : ν) : L1Cmd → Prop
  | .insertCache s e => n = ρ.node ∧ Provenance E ρ t s e.blockMeta e.data
  | .insertChunks s e _ => n = ρ.node ∧ Provenance E ρ t s e.blockMeta e.segments.flatten
  | _ => True

def Guard : Cmd ν → Prop
  | .invoke k b => ρ.writes k b
  | .redis c => RedisGuard E ρ t c
  | .writeFile _ p data => ∃ d ds, ledger t = ⟨none, d :: ds⟩ ∧ d.commit = .idle ∧
      d.deleted = [] ∧ d.OwnFile E ρ p data
  | .deleteFile _ p =>
      (∃ d ds, ledger t = ⟨none, d :: ds⟩ ∧ d.MayRollback ∧ d.Owns E p) ∨
      (ρ.collects = true ∧ ∃ task, Claimed t task ∧ p ∈ task.retired.files)
  | .l1 n c => L1Guard E ρ t n c
  | _ => True

end Guard

end ContextStore
