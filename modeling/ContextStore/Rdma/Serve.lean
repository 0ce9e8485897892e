import ContextStore.Layout
import ContextStore.Rdma
import ContextStore.Rdma.Wire

/-!
# descriptor GET の WRITE
-/

namespace ContextStore.Serve

open Conc Wire Storage

/-! ## 命令 -/

inductive Source where
  | staging (offset : ℕ)
  | cached (offset : ℕ)
  | chunk (stripe : ℕ)
  | file
deriving DecidableEq

/-- `post_write`。 -/
structure Write where
  source : Source
  dst : UInt64
  rkey : UInt32
  len : UInt32
  signaled : Bool
deriving DecidableEq

/-- 読む範囲 1 つ。 -/
structure Piece where
  stripe : ℕ
  source : ℕ
  object : ℕ
  fileOffset : ℕ
  length : ℕ
deriving DecidableEq

structure Completions where
  events : List (ℕ × Option ℕ)
  intact : ℕ → Bool

/-- 外に尋ねること。 -/
inductive Cmd where
  | cacheLookup
  | alloc (size : ℕ)
  | openWhole
  | stream (plan : List Piece)
  | readChunks (stripes : List ℕ)
  | registerMr
  | post (w : Write)
  | pollN (expected : ℕ)
  | pollAvailable (max : ℕ)

def Cmd.Resp : Cmd → Type
  | .cacheLookup => Option ℕ
  | .alloc _ => Bool
  | .openWhole => Option Bool
  | .stream _ => Completions
  | .readChunks _ => Option (ℕ → ℕ)
  | .registerMr => Bool
  | .post _ => Bool
  | .pollN _ => Except ℕ Unit
  | .pollAvailable max => Except ℕ (Fin (max + 1))

abbrev Serving := Prog Cmd Cmd.Resp

abbrev History := Trace Cmd Cmd.Resp

abbrev Issued := Event Cmd Cmd.Resp

def cacheLookup : Serving (Option ℕ) := Prog.issue (R := Cmd.Resp) .cacheLookup

def alloc (size : ℕ) : Serving Bool := Prog.issue (R := Cmd.Resp) (.alloc size)

def openWhole : Serving (Option Bool) := Prog.issue (R := Cmd.Resp) .openWhole

def stream (plan : List Piece) : Serving Completions := Prog.issue (R := Cmd.Resp) (.stream plan)

def readChunks (stripes : List ℕ) : Serving (Option (ℕ → ℕ)) :=
  Prog.issue (R := Cmd.Resp) (.readChunks stripes)

def registerMr : Serving Bool := Prog.issue (R := Cmd.Resp) .registerMr

def post (w : Write) : Serving Bool := Prog.issue (R := Cmd.Resp) (.post w)

def pollN (expected : ℕ) : Serving (Except ℕ Unit) := Prog.issue (R := Cmd.Resp) (.pollN expected)

def pollAvailable (max : ℕ) : Serving (Except ℕ (Fin (max + 1))) :=
  Prog.issue (R := Cmd.Resp) (.pollAvailable max)

/-! ## 設定 -/

/-- 処理が見る設定。 -/
structure Config where
  streamChunk : ℕ
  streamChunk_pos : 0 < streamChunk
  verify : Bool
  forceDiskRead : Bool
  chunkIsLocal : ChunkLocation → Bool

/-- 応答。 -/
structure Served where
  found : Bool
  bytesWritten : ℕ
  numChunks : ℕ
deriving DecidableEq

def notFound : Served := ⟨false, 0, 0⟩

abbrev Reply := Option Served

/-! ## 読む範囲 -/

/-- `i` 番の stripe の長さ。 -/
def stripeLen (s : StripingInfo) (i : ℕ) : ℕ := min (s.totalSize - i * s.chunkSize) s.chunkSize

def stripePieces (streamChunk stripe base object len : ℕ) : List Piece :=
  (List.range (divCeil len streamChunk)).map fun k =>
    { stripe
      source := base + k * streamChunk
      object := object + k * streamChunk
      fileOffset := k * streamChunk
      length := min (len - k * streamChunk) streamChunk }

def Piece.fits (capacity : ℕ) (p : Piece) : Bool :=
  p.source + Rdma.extentCapacity p.length ≤ capacity

def subsetPlan (streamChunk : ℕ) (s : StripingInfo) (capacity : ℕ) :
    List ℕ → ℕ → Option (List Piece)
  | [], _ => some []
  | i :: indices, cursor =>
    if s.chunkPaths.length ≤ i then none
    else if s.totalSize ≤ i * s.chunkSize then none
    else if capacity < cursor + stripeLen s i then none
    else
      let pieces := stripePieces streamChunk i cursor (i * s.chunkSize) (stripeLen s i)
      if pieces.all (Piece.fits capacity) then
        (subsetPlan streamChunk s capacity indices (cursor + stripeLen s i)).map (pieces ++ ·)
      else none

def wholePlan (streamChunk : ℕ) (s : StripingInfo) (capacity : ℕ) : Option (List Piece) :=
  if capacity < s.totalSize then none
  else
    let pieces := (List.range s.chunkPaths.length).flatMap fun i =>
      stripePieces streamChunk i (i * s.chunkSize) (i * s.chunkSize)
        (min ((i + 1) * s.chunkSize) s.totalSize - i * s.chunkSize)
    if pieces.all (Piece.fits capacity) then some pieces else none

inductive Forwarded where
  | read (p : Piece) (bytes : Option ℕ)
  | failed (stripe : ℕ)

def forward (plan : List Piece) (events : List (ℕ × Option ℕ)) : List Forwarded :=
  events.filterMap fun e => plan[e.1]?.map fun p => .read p e.2

def complete (plan : List Piece) (e : ℕ × Option ℕ) : Bool :=
  plan[e.1]?.any fun p => e.2 == some p.length

def release (plan : List Piece) (intact : Bool) (stripe : ℕ) (held : List (ℕ × Option ℕ)) :
    List Forwarded :=
  if held.all (complete plan) && intact then forward plan held else [.failed stripe]

structure Judgement (ρ ε : Type) where
  stripe : ℕ
  held : List (ℕ × ρ)
  error : Option ε

def judge {ρ ε : Type} (stripes : ℕ) (clears : Bool) (check : ℕ → List (ℕ × ρ) → Option ε)
    (plan : List Piece) (pending : ℕ → List (ℕ × ρ)) (e : ℕ × ρ) :
    (ℕ → List (ℕ × ρ)) × Option (Judgement ρ ε) :=
  match plan[e.1]? with
  | none => (pending, none)
  | some p =>
    if p.stripe < stripes then
      let held := pending p.stripe ++ [e]
      if held.length ≠ plan.countP (·.stripe == p.stripe) then
        (Function.update pending p.stripe held, none)
      else
        let error := check p.stripe held
        (Function.update pending p.stripe (if clears || error.isNone then [] else held),
          some ⟨p.stripe, held, error⟩)
    else (pending, none)

def lacking (plan : List Piece) (intact : ℕ → Bool) (stripe : ℕ) (held : List (ℕ × Option ℕ)) :
    Option Unit :=
  if held.all (complete plan) && intact stripe then none else some ()

def gather (clears : Bool) (plan : List Piece) (stripes : ℕ) (intact : ℕ → Bool) :
    (ℕ → List (ℕ × Option ℕ)) → List (ℕ × Option ℕ) → List Forwarded
  | _, [] => []
  | pending, e :: events =>
    match judge stripes clears (lacking plan intact) plan pending e with
    | (pending, none) => gather clears plan stripes intact pending events
    | (pending, some v) => release plan (intact v.stripe) v.stripe v.held ++
        gather clears plan stripes intact pending events

def passOn (verify clears : Bool) (plan : List Piece) (stripes : ℕ) (c : Completions) :
    List Forwarded :=
  if verify then gather clears plan stripes c.intact (fun _ => []) c.events
  else forward plan c.events

/-- `map_range_to_segments` の loop。 -/
def mapRange : List Segment → (segBase cursor remaining : UInt64) → Option (List Segment)
  | [], _, _, remaining => if 0 < remaining then none else some []
  | (addr, rkey, segLen) :: segments, segBase, cursor, remaining =>
    let segEnd := segBase + segLen
    if cursor < segEnd ∧ 0 < remaining then
      let n := min remaining (segEnd - cursor)
      let target := (addr + (cursor - segBase), rkey, n)
      if remaining - n = 0 then some [target]
      else (mapRange segments segEnd (cursor + n) (remaining - n)).map (target :: ·)
    else if remaining = 0 then some []
    else mapRange segments segEnd cursor remaining

/-- `map_range_to_segments`。 -/
def mapRangeToSegments (segments : List Segment) (objectOffset length : UInt64) :
    Option (List Segment) := mapRange segments 0 objectOffset length

def targets (req : DescriptorGetReqMsg) (object length : ℕ) : Option (List Segment) :=
  if req.dstSegments.isEmpty then
    some [(req.dstAddr + UInt64.ofNat object, req.dstRkey, UInt64.ofNat length)]
  else mapRangeToSegments req.dstSegments (UInt64.ofNat object) (UInt64.ofNat length)

structure Posting where
  outstanding : ℕ
  writesPosted : ℕ
  total : ℕ
  failed : Bool
deriving DecidableEq

def postTargets : List Segment → ℕ → Posting → Serving Posting
  | [], _, p => return p
  | (dst, rkey, n) :: rest, src, p => do
    if ← post ⟨.staging src, dst, rkey, UInt32.ofNat n.toNat, true⟩ then
      postTargets rest (src + n.toNat)
        { p with writesPosted := p.writesPosted + 1, outstanding := p.outstanding + 1 }
    else return { p with failed := true }

def completionWindow : ℕ := 64

def drainWindow : ℕ → Posting → Serving Posting
  | 0, p => return p
  | fuel + 1, p =>
    if p.failed = false ∧ completionWindow ≤ p.outstanding then do
      match ← pollN 1 with
      | .ok _ => drainWindow fuel { p with outstanding := p.outstanding - 1 }
      | .error _ => return { p with failed := true }
    else return p

def reap (p : Posting) : Serving Posting := do
  match ← pollAvailable p.outstanding with
  | .ok n => drainWindow p.outstanding { p with outstanding := p.outstanding - n.val }
  | .error _ => return { p with failed := true }

def postForwarded (req : DescriptorGetReqMsg) (p : Posting) : Forwarded → Serving Posting
  | .failed _ => return { p with failed := true }
  | .read piece bytes =>
    if bytes = some piece.length ∧ p.failed = false then
      match targets req piece.object piece.length with
      | none => return { p with failed := true }
      | some ts => do
        let p ← postTargets ts piece.source p
        if p.failed then return p
        else reap { p with total := p.total + piece.length }
    else return { p with failed := true }

def postAll (req : DescriptorGetReqMsg) : List Forwarded → Posting → Serving Posting
  | [], p => return p
  | f :: fs, p => do postAll req fs (← postForwarded req p f)

def drain (p : Posting) : Serving Posting :=
  if 0 < p.outstanding then do
    match ← pollN p.outstanding with
    | .ok _ => return p
    | .error _ => return { p with failed := true }
  else return p

def postRegistered (rkey : UInt32) : List (Source × UInt64 × ℕ) → Serving Bool
  | [] => return true
  | (source, dst, len) :: rest => do
    if len = 0 then postRegistered rkey rest
    else if ← registerMr then
      if ← post ⟨source, dst, rkey, UInt32.ofNat len, rest.isEmpty⟩ then postRegistered rkey rest
      else return false
    else return false

/-- `serve_get_stripes_fallback`。 -/
def serveGetStripesFallback (s : StripingInfo) (req : DescriptorGetReqMsg) : Serving Reply := do
  let indices := req.stripes.map UInt32.toNat
  match ← readChunks indices with
  | none => return some notFound
  | some read =>
    let writes := indices.map fun i =>
      (Source.chunk i, req.dstAddr + UInt64.ofNat i * UInt64.ofNat s.chunkSize, read i)
    if ← postRegistered req.dstRkey writes then
      if writes.all fun w => w.2.2 == 0 then
        return some ⟨true, (indices.map read).sum, indices.length⟩
      else
        match ← pollN 1 with
        | .ok _ => return some ⟨true, (indices.map read).sum, indices.length⟩
        | .error _ => return none
    else return none

def inWindow (s : StripingInfo) (maxSize : UInt64) (i : ℕ) : Bool :=
  let offset := UInt64.ofNat i * UInt64.ofNat s.chunkSize
  offset + min (UInt64.ofNat s.chunkSize) (UInt64.ofNat s.totalSize - offset) ≤ maxSize

def validStripes (C : Config) (s : StripingInfo) (maxSize : UInt64) (indices : List ℕ) : Bool :=
  decide indices.Nodup && indices.all fun i =>
    i < s.chunkPaths.length && inWindow s maxSize i &&
      (s.chunkLocations.length != s.chunkPaths.length ||
        s.chunkLocations[i]?.all C.chunkIsLocal)

/-- `serve_get_stripes`。 -/
def serveGetStripes (C : Config) (m : BlockMeta) (req : DescriptorGetReqMsg) : Serving Reply :=
  match m.striping with
  | none => return some notFound
  | some s =>
    let indices := req.stripes.map UInt32.toNat
    if s.chunkSize = 0 ∨ validStripes C s req.maxSize indices = false then return some notFound
    else do
      let staged := (indices.map (stripeLen s)).sum
      if ← alloc staged then
        match subsetPlan C.streamChunk s (Rdma.extentCapacity staged) indices 0 with
        | none => return some notFound
        | some plan =>
          let c ← stream plan
          let p ← postAll req (passOn C.verify true plan s.chunkDevices.length c) ⟨0, 0, 0, false⟩
          let p ← drain p
          if p.failed then return some notFound
          else return some ⟨true, p.total, indices.length⟩
      else serveGetStripesFallback s req

/-! ## 全体の GET -/

def maxWriteBytes : ℕ := 1024 * 1024 * 1024

def postWrites : List Write → Serving Bool
  | [] => return true
  | w :: ws => do
    if ← post w then postWrites ws else return false

/-- `serve_get_slab`。 -/
def serveGetSlab (req : DescriptorGetReqMsg) (total : ℕ) : Serving Reply :=
  if req.maxSize.toNat < total then return some notFound
  else if total = 0 then return some ⟨true, 0, 0⟩
  else do
    let n := divCeil total maxWriteBytes
    let writes := (List.range n).map fun k =>
      { source := .cached (k * maxWriteBytes)
        dst := req.dstAddr + UInt64.ofNat (k * maxWriteBytes)
        rkey := req.dstRkey
        len := UInt32.ofNat (min (total - k * maxWriteBytes) maxWriteBytes)
        signaled := k + 1 == n : Write }
    if ← postWrites writes then
      match ← pollN 1 with
      | .ok _ => return some ⟨true, total, n⟩
      | .error _ => return none
    else return none

inductive Tried where
  | served (bytes : ℕ)
  | gone
  | failed

def postStreamed (req : DescriptorGetReqMsg) (p : Posting) : Forwarded → Serving Posting
  | .failed _ => return { p with failed := true }
  | .read piece bytes =>
    if bytes = some piece.length ∧ p.failed = false then do
      if ← post ⟨.staging piece.source, req.dstAddr + UInt64.ofNat piece.object, req.dstRkey,
          UInt32.ofNat piece.length, true⟩ then
        let p := { p with writesPosted := p.writesPosted + 1, outstanding := p.outstanding + 1 }
        if p.outstanding = completionWindow then
          match ← pollN p.outstanding with
          | .ok _ => return { p with outstanding := 0 }
          | .error _ => return { p with outstanding := 0, failed := true }
        else return p
      else return { p with failed := true }
    else return { p with failed := true }

def postStream (req : DescriptorGetReqMsg) : List Forwarded → Posting → Serving Posting
  | [], p => return p
  | f :: fs, p => do postStream req fs (← postStreamed req p f)

def singlePiece (size : ℕ) : Piece := ⟨0, 0, 0, 0, size⟩

def forwardSingle (size : ℕ) (events : List (ℕ × Option ℕ)) : List Forwarded :=
  (events.take 1).map fun e => .read (singlePiece size) e.2

def streamPlan (C : Config) (m : BlockMeta) : Option (List Piece) :=
  match m.striping with
  | none => some [singlePiece m.size]
  | some s => wholePlan C.streamChunk s (Rdma.extentCapacity m.size)

def streamed (C : Config) (m : BlockMeta) (plan : List Piece) (c : Completions) : List Forwarded :=
  match m.striping with
  | none => forwardSingle m.size c.events
  | some s => passOn C.verify false plan s.chunkPaths.length c

def tryServeGetViaSlabWithMeta (C : Config) (m : BlockMeta) (req : DescriptorGetReqMsg) :
    Serving Tried :=
  if m.size = 0 then return .served 0
  else if req.maxSize.toNat < m.size then return .failed
  else do
    if ← alloc m.size then
      match ← openWhole with
      | none => return .failed
      | some false => return .gone
      | some true =>
        match streamPlan C m with
        | none => return .failed
        | some plan =>
          let c ← stream plan
          let p ← postStream req (streamed C m plan c) ⟨0, 0, 0, false⟩
          let p ← drain p
          if p.failed ∨ p.writesPosted = 0 then return .failed
          else return .served m.size
    else return .failed

def fileCount (m : BlockMeta) : ℕ := m.striping.elim 1 (·.chunkPaths.length)

def segments (m : BlockMeta) (read : ℕ → ℕ) : List (Source × ℕ) :=
  match m.striping with
  | none => [(.file, read 0)]
  | some s => (List.range s.chunkPaths.length).map fun i => (.chunk i, read i)

def laidOut (req : DescriptorGetReqMsg) : ℕ → List (Source × ℕ) → List (Source × UInt64 × ℕ)
  | _, [] => []
  | offset, (source, len) :: rest =>
    (source, req.dstAddr + UInt64.ofNat offset, len) :: laidOut req (offset + len) rest

/-- `serve_get_fallback`。 -/
def serveGetFallback (req : DescriptorGetReqMsg) (segments : List (Source × ℕ)) :
    Serving Reply := do
  let total := (segments.map Prod.snd).sum
  if req.maxSize.toNat < total then return some notFound
  else if ← postRegistered req.dstRkey (laidOut req 0 segments) then
    match ← pollN 1 with
    | .ok _ => return some ⟨true, total, segments.length⟩
    | .error _ => return none
  else return none

def cached (C : Config) : Serving (Option ℕ) :=
  if C.forceDiskRead then return none else cacheLookup

def serveWhole (C : Config) (m : BlockMeta) (req : DescriptorGetReqMsg) :
    Option ℕ → Serving Reply
  | some len => serveGetSlab req len
  | none => do
    match ← tryServeGetViaSlabWithMeta C m req with
    | .served bytes => return some ⟨true, bytes, 1⟩
    | .gone => return some notFound
    | .failed =>
      match ← readChunks (List.range (fileCount m)) with
      | some read => serveGetFallback req (segments m read)
      | none => return some notFound

/-- `handle_descriptor_get`。 -/
def handleDescriptorGet (C : Config) (req : DescriptorGetReqMsg) (active : Option BlockMeta) :
    Serving Reply :=
  match active with
  | none => return some notFound
  | some m =>
    if req.stripes ≠ [] then serveGetStripes C m req
    else if Rdma.placementSpansMultipleNodes m then return some notFound
    else do serveWhole C m req (← cached C)

end ContextStore.Serve
