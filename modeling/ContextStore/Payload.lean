import ContextStore.Data
import ContextStore.Lua.Cjson

/-!
# GC task の payload
-/

namespace ContextStore

open Cjson

/-! ## Lua の数 -/

def luaNumber (n : Nat) : Nat :=
  let s := n.log2 + 1 - 53
  if s = 0 then n
  else
    let q := n / 2 ^ s
    let rem := n % 2 ^ s
    let half := 2 ^ (s - 1)
    if half < rem ∨ (rem = half ∧ q % 2 = 1) then (q + 1) * 2 ^ s else q * 2 ^ s

theorem luaNumber_of_lt {n : Nat} (h : n < 2 ^ 53) : luaNumber n = n := by
  have hs : n.log2 + 1 - 53 = 0 := by
    by_cases hn : n = 0
    · subst hn; decide
    · have := (Nat.log2_lt hn).mpr h
      omega
  simp only [luaNumber, hs, if_true]

theorem two_pow_log2_le_luaNumber {n : Nat} (hn : n ≠ 0) : 2 ^ n.log2 ≤ luaNumber n := by
  have hlog := Nat.log2_self_le hn
  unfold luaNumber
  dsimp only
  split
  next => exact hlog
  next hs =>
    have hsplit : 2 ^ n.log2 = 2 ^ 52 * 2 ^ (n.log2 + 1 - 53) := by
      rw [← Nat.pow_add]
      congr 1
      omega
    have hq : 2 ^ 52 ≤ n / 2 ^ (n.log2 + 1 - 53) := by
      rw [Nat.le_div_iff_mul_le (Nat.two_pow_pos _), ← hsplit]
      exact hlog
    rw [hsplit]
    split
    · exact Nat.mul_le_mul_right _ (Nat.le_succ_of_le hq)
    · exact Nat.mul_le_mul_right _ hq

def luaInt (n : Int) : Int :=
  match n with
  | .ofNat n => luaNumber n
  | .negSucc n => -luaNumber (n + 1)

theorem natAbs_luaInt (n : Int) : (luaInt n).natAbs = luaNumber n.natAbs := by
  cases n with
  | ofNat n => exact Int.natAbs_natCast _
  | negSucc n => exact (Int.natAbs_neg _).trans (Int.natAbs_natCast _)

theorem luaInt_of_small {n : Int} (h : n.natAbs < 10 ^ 14) : luaInt n = n := by
  have hlt : n.natAbs < 2 ^ 53 := Nat.lt_trans h (by decide)
  cases n with
  | ofNat n => exact congrArg _ (luaNumber_of_lt hlt)
  | negSucc n =>
    have hn : luaNumber (n + 1) = n + 1 := luaNumber_of_lt hlt
    show -(luaNumber (n + 1) : Int) = _
    rw [hn]
    rfl

theorem luaInt_of_large {n : Int} (h : ¬ n.natAbs < 10 ^ 14) : ¬ (luaInt n).natAbs < 10 ^ 14 := by
  rw [natAbs_luaInt]
  by_cases hlt : n.natAbs < 2 ^ 53
  · rw [luaNumber_of_lt hlt]
    exact h
  · have hne : n.natAbs ≠ 0 := by omega
    have hlog : 53 ≤ n.natAbs.log2 := (Nat.le_log2 hne).mpr (Nat.not_lt.mp hlt)
    have hpow : 2 ^ 53 ≤ 2 ^ n.natAbs.log2 := Nat.pow_le_pow_right (by decide) hlog
    have := two_pow_log2_le_luaNumber hne
    omega

def cjsonInt (n : Int) : Bool := decide (n.natAbs < 10 ^ 14)

def cjsonArray {α : Type} (l : List α) (item : α → Bool) : Bool := !l.isEmpty && l.all item

namespace ChunkLocation

def cjsonOk (c : ChunkLocation) : Bool :=
  cjsonInt c.stripeIndex && cjsonInt c.deviceId && cjsonInt c.offset && cjsonInt c.length

end ChunkLocation

namespace StripingInfo

def cjsonOk (s : StripingInfo) : Bool :=
  cjsonInt s.chunkSize && cjsonArray s.chunkDevices (fun d => cjsonInt d) &&
  cjsonArray s.chunkPaths (fun _ => true) && cjsonInt s.totalSize &&
  cjsonArray s.chunkLocations ChunkLocation.cjsonOk &&
  cjsonArray s.chunkChecksums (fun _ => true)

end StripingInfo

namespace BlockMeta

def cjsonOk (m : BlockMeta) : Bool :=
  cjsonInt m.deviceId && cjsonInt m.size && cjsonInt m.objectGeneration &&
  cjsonInt m.layoutVersion && cjsonInt m.createdAt && cjsonInt m.lastAccessedAt &&
  cjsonInt m.ttlSeconds && cjsonInt m.numTokens && cjsonInt m.numLayers &&
  m.striping.all StripingInfo.cjsonOk

end BlockMeta

/-- `Serialize` の書く JSON。 -/
def ChunkLocation.toJson (c : ChunkLocation) : Json :=
  .obj [("stripe_index", .int c.stripeIndex), ("node_id", .str c.nodeId),
    ("grpc_endpoint", .str c.grpcEndpoint), ("rdma_endpoint", .str c.rdmaEndpoint),
    ("device_id", .int c.deviceId), ("storage_handle", .str c.storageHandle),
    ("offset", .int c.offset), ("length", .int c.length), ("checksum", .str c.checksum)]

def StripingInfo.toJson (s : StripingInfo) : Json :=
  .obj [("chunk_size", .int s.chunkSize),
    ("chunk_devices", .arr (s.chunkDevices.map fun d : Nat => .int d)),
    ("chunk_paths", .arr (s.chunkPaths.map .str)), ("total_size", .int s.totalSize),
    ("chunk_locations", .arr (s.chunkLocations.map ChunkLocation.toJson)),
    ("chunk_checksums", .arr (s.chunkChecksums.map .str))]

def BlockMeta.toJson (m : BlockMeta) : Json :=
  .obj [("device_id", .int m.deviceId), ("file_path", .str m.filePath), ("size", .int m.size),
    ("object_handle", .str m.objectHandle), ("object_generation", .int m.objectGeneration),
    ("content_etag", .str m.contentEtag), ("layout_version", .int m.layoutVersion),
    ("created_at", .int m.createdAt), ("last_accessed_at", .int m.lastAccessedAt),
    ("ttl_seconds", .int m.ttlSeconds), ("num_tokens", .int m.numTokens),
    ("num_layers", .int m.numLayers), ("dtype", .str m.dtype), ("compressed", .bool m.compressed),
    ("striping", match m.striping with
      | none => .null
      | some s => s.toJson)]

def GcTask.toJson (t : GcTask) : Json :=
  .obj [("id", .str t.id), ("key", .str t.key), ("retired", t.retired.toJson),
    ("not_before", .int t.notBefore), ("attempts", .int t.attempts)]

/-- `Deserialize`。 -/
def ChunkLocation.ofJson (j : Json) : Option ChunkLocation :=
  (j.required "stripe_index" Json.nat?).bind fun stripeIndex =>
  (j.required "node_id" Json.str?).bind fun nodeId =>
  (j.required "grpc_endpoint" Json.str?).bind fun grpcEndpoint =>
  (j.required "rdma_endpoint" Json.str?).bind fun rdmaEndpoint =>
  (j.required "device_id" Json.nat?).bind fun deviceId =>
  (j.required "storage_handle" Json.str?).bind fun storageHandle =>
  (j.required "offset" Json.nat?).bind fun offset =>
  (j.required "length" Json.nat?).bind fun length =>
  (j.defaulted "checksum" Json.str? "").bind fun checksum =>
  some { stripeIndex, nodeId, grpcEndpoint, rdmaEndpoint, deviceId, storageHandle, offset, length,
         checksum }

def StripingInfo.ofJson (j : Json) : Option StripingInfo :=
  (j.required "chunk_size" Json.nat?).bind fun chunkSize =>
  (j.required "chunk_devices" (Json.list? Json.nat?)).bind fun chunkDevices =>
  (j.required "chunk_paths" (Json.list? Json.str?)).bind fun chunkPaths =>
  (j.required "total_size" Json.nat?).bind fun totalSize =>
  (j.defaulted "chunk_locations" (Json.list? ChunkLocation.ofJson) []).bind fun chunkLocations =>
  (j.defaulted "chunk_checksums" (Json.list? Json.str?) []).bind fun chunkChecksums =>
  some { chunkSize, chunkDevices, chunkPaths, totalSize, chunkLocations, chunkChecksums }

def BlockMeta.ofJson (j : Json) : Option BlockMeta :=
  (j.required "device_id" Json.nat?).bind fun deviceId =>
  (j.required "file_path" Json.str?).bind fun filePath =>
  (j.required "size" Json.nat?).bind fun size =>
  (j.defaulted "object_handle" Json.str? "").bind fun objectHandle =>
  (j.defaulted "object_generation" Json.nat? 1).bind fun objectGeneration =>
  (j.defaulted "content_etag" Json.str? "").bind fun contentEtag =>
  (j.defaulted "layout_version" Json.nat? 1).bind fun layoutVersion =>
  (j.required "created_at" Json.int?).bind fun createdAt =>
  (j.required "last_accessed_at" Json.int?).bind fun lastAccessedAt =>
  (j.required "ttl_seconds" Json.int?).bind fun ttlSeconds =>
  (j.required "num_tokens" Json.int?).bind fun numTokens =>
  (j.required "num_layers" Json.int?).bind fun numLayers =>
  (j.required "dtype" Json.str?).bind fun dtype =>
  (j.required "compressed" Json.bool?).bind fun compressed =>
  (j.defaulted "striping" (Json.option? StripingInfo.ofJson) none).bind fun striping =>
  some { deviceId, filePath, size, objectHandle, objectGeneration, contentEtag, layoutVersion,
         createdAt, lastAccessedAt, ttlSeconds, numTokens, numLayers, dtype, compressed, striping }

def GcTask.ofJson (j : Json) : Option GcTask :=
  (j.required "id" Json.str?).bind fun id =>
  (j.required "key" Json.str?).bind fun key =>
  (j.required "retired" BlockMeta.ofJson).bind fun retired =>
  (j.required "not_before" Json.int?).bind fun notBefore =>
  (j.required "attempts" Json.nat?).bind fun attempts =>
  some { id, key, retired, notBefore, attempts }

/-! ## payload -/

inductive GcPayload where
  | cjson (t : GcTask)
  | serde (t : GcTask)
deriving DecidableEq, Repr

namespace GcPayload

def json : GcPayload → Json
  | .serde t => t.toJson
  | .cjson t => encode (.table [] [("id", .str t.id), ("key", .str t.key),
      ("retired", decode luaInt t.retired.toJson), ("not_before", .num (luaInt t.notBefore)),
      ("attempts", .num (luaInt t.attempts))])

def parse (p : GcPayload) : Option GcTask := GcTask.ofJson p.json

def task : GcPayload → GcTask
  | .cjson t => t
  | .serde t => t

end GcPayload

/-! ## cjson の往復 -/

abbrev luaTrip : Json → Json := roundTrip luaInt

theorem nat?_luaTrip (n : Nat) : (luaTrip (.int n)).nat? = when (cjsonInt n) n :=
  nat?_roundTrip (fun _ => luaInt_of_small) (fun _ => luaInt_of_large) n

theorem int?_luaTrip (n : Int) : (luaTrip (.int n)).int? = when (cjsonInt n) n :=
  int?_roundTrip (fun _ => luaInt_of_small) (fun _ => luaInt_of_large) n

theorem list?_luaTrip {α : Type} {enc : α → Json} {item : Json → Option α} {p : α → Bool}
    (h : ∀ a, item (luaTrip (enc a)) = when (p a) a) (as : List α) :
    (luaTrip (.arr (as.map enc))).list? item = when (cjsonArray as p) as :=
  list?_roundTrip h as

theorem str?_luaTrip (s : String) : (luaTrip (.str s)).str? = some s := rfl

theorem ChunkLocation.ofJson_luaTrip (c : ChunkLocation) :
    ChunkLocation.ofJson (luaTrip c.toJson) = when c.cjsonOk c := by
  have hfields : ChunkLocation.ofJson (luaTrip c.toJson) =
      (luaTrip (.int c.stripeIndex)).nat?.bind fun stripeIndex =>
      (luaTrip (.int c.deviceId)).nat?.bind fun deviceId =>
      (luaTrip (.int c.offset)).nat?.bind fun offset =>
      (luaTrip (.int c.length)).nat?.bind fun length =>
      some { c with stripeIndex, deviceId, offset, length } := rfl
  rw [hfields]
  simp only [nat?_luaTrip, when_bind]
  simp only [ChunkLocation.cjsonOk, Bool.and_assoc, when_and]
  rfl

theorem StripingInfo.ofJson_luaTrip (s : StripingInfo) :
    StripingInfo.ofJson (luaTrip s.toJson) = when s.cjsonOk s := by
  have hfields : StripingInfo.ofJson (luaTrip s.toJson) =
      (luaTrip (.int s.chunkSize)).nat?.bind fun chunkSize =>
      ((luaTrip (.arr (s.chunkDevices.map fun d : Nat => .int d))).list? Json.nat?).bind
        fun chunkDevices =>
      ((luaTrip (.arr (s.chunkPaths.map .str))).list? Json.str?).bind fun chunkPaths =>
      (luaTrip (.int s.totalSize)).nat?.bind fun totalSize =>
      ((luaTrip (.arr (s.chunkLocations.map ChunkLocation.toJson))).list?
        ChunkLocation.ofJson).bind fun chunkLocations =>
      ((luaTrip (.arr (s.chunkChecksums.map .str))).list? Json.str?).bind fun chunkChecksums =>
      some { chunkSize, chunkDevices, chunkPaths, totalSize, chunkLocations, chunkChecksums } := rfl
  rw [hfields, list?_luaTrip (p := fun d : Nat => cjsonInt d) nat?_luaTrip,
    list?_luaTrip (p := fun _ => true) str?_luaTrip, list?_luaTrip ChunkLocation.ofJson_luaTrip,
    list?_luaTrip (p := fun _ => true) str?_luaTrip]
  simp only [nat?_luaTrip, when_bind]
  simp only [StripingInfo.cjsonOk, Bool.and_assoc, when_and]
  rfl

theorem BlockMeta.ofJson_luaTrip (m : BlockMeta) :
    BlockMeta.ofJson (luaTrip m.toJson) = when m.cjsonOk m := by
  have hstriping : (luaTrip (match m.striping with
        | none => .null
        | some s => s.toJson)).option? StripingInfo.ofJson =
      when (m.striping.all StripingInfo.cjsonOk) m.striping := by
    cases m.striping with
    | none => rfl
    | some s =>
      show (StripingInfo.ofJson (luaTrip s.toJson)).map some = when s.cjsonOk (some s)
      rw [StripingInfo.ofJson_luaTrip]
      cases s.cjsonOk <;> rfl
  have hfields : BlockMeta.ofJson (luaTrip m.toJson) =
      (luaTrip (.int m.deviceId)).nat?.bind fun deviceId =>
      (luaTrip (.int m.size)).nat?.bind fun size =>
      (luaTrip (.int m.objectGeneration)).nat?.bind fun objectGeneration =>
      (luaTrip (.int m.layoutVersion)).nat?.bind fun layoutVersion =>
      (luaTrip (.int m.createdAt)).int?.bind fun createdAt =>
      (luaTrip (.int m.lastAccessedAt)).int?.bind fun lastAccessedAt =>
      (luaTrip (.int m.ttlSeconds)).int?.bind fun ttlSeconds =>
      (luaTrip (.int m.numTokens)).int?.bind fun numTokens =>
      (luaTrip (.int m.numLayers)).int?.bind fun numLayers =>
      ((luaTrip (match m.striping with
        | none => .null
        | some s => s.toJson)).option? StripingInfo.ofJson).bind fun striping =>
      some { m with
        deviceId, size, objectGeneration, layoutVersion, createdAt, lastAccessedAt, ttlSeconds,
        numTokens, numLayers, striping } := rfl
  rw [hfields, hstriping]
  simp only [nat?_luaTrip, int?_luaTrip, when_bind]
  simp only [BlockMeta.cjsonOk, Bool.and_assoc, when_and]
  rfl

theorem GcPayload.parse_cjson (t : GcTask) :
    (GcPayload.cjson t).parse =
      when (t.retired.cjsonOk && cjsonInt t.notBefore && cjsonInt t.attempts) t := by
  have hfields : (GcPayload.cjson t).parse =
      (BlockMeta.ofJson (luaTrip t.retired.toJson)).bind fun retired =>
      (luaTrip (.int t.notBefore)).int?.bind fun notBefore =>
      (luaTrip (.int t.attempts)).nat?.bind fun attempts =>
      some { t with retired, notBefore, attempts } := rfl
  rw [hfields, BlockMeta.ofJson_luaTrip]
  simp only [nat?_luaTrip, int?_luaTrip, when_bind]
  simp only [Bool.and_assoc, when_and]
  rfl

/-! ## serde の往復 -/

theorem nat?_int (n : Nat) : (Json.int n).nat? = some n := by
  show (if 0 ≤ (n : Int) then some (n : Int).toNat else none) = some n
  rw [if_pos (Int.natCast_nonneg n), Int.toNat_natCast]

theorem str?_str (s : String) : (Json.str s).str? = some s := rfl

theorem list?_map {α : Type} {enc : α → Json} {item : Json → Option α}
    (h : ∀ a, item (enc a) = some a) (as : List α) :
    (Json.arr (as.map enc)).list? item = some as := by
  show (as.map enc).mapM item = some as
  induction as with
  | nil => rfl
  | cons a as ih =>
    rw [List.map_cons, List.mapM_cons, h, ih]
    rfl

theorem ChunkLocation.ofJson_toJson (c : ChunkLocation) :
    ChunkLocation.ofJson c.toJson = some c := by
  have hfields : ChunkLocation.ofJson c.toJson =
      (Json.int c.stripeIndex).nat?.bind fun stripeIndex =>
      (Json.int c.deviceId).nat?.bind fun deviceId =>
      (Json.int c.offset).nat?.bind fun offset =>
      (Json.int c.length).nat?.bind fun length =>
      some { c with stripeIndex, deviceId, offset, length } := rfl
  rw [hfields]
  simp only [nat?_int, Option.bind_some]

theorem StripingInfo.ofJson_toJson (s : StripingInfo) : StripingInfo.ofJson s.toJson = some s := by
  have hfields : StripingInfo.ofJson s.toJson =
      (Json.int s.chunkSize).nat?.bind fun chunkSize =>
      ((Json.arr (s.chunkDevices.map fun d : Nat => .int d)).list? Json.nat?).bind
        fun chunkDevices =>
      ((Json.arr (s.chunkPaths.map .str)).list? Json.str?).bind fun chunkPaths =>
      (Json.int s.totalSize).nat?.bind fun totalSize =>
      ((Json.arr (s.chunkLocations.map ChunkLocation.toJson)).list? ChunkLocation.ofJson).bind
        fun chunkLocations =>
      ((Json.arr (s.chunkChecksums.map .str)).list? Json.str?).bind fun chunkChecksums =>
      some { chunkSize, chunkDevices, chunkPaths, totalSize, chunkLocations, chunkChecksums } := rfl
  rw [hfields, list?_map nat?_int, list?_map str?_str, list?_map ChunkLocation.ofJson_toJson,
    list?_map str?_str]
  simp only [nat?_int, Option.bind_some]

theorem BlockMeta.ofJson_toJson (m : BlockMeta) : BlockMeta.ofJson m.toJson = some m := by
  have hstriping : (match m.striping with
        | none => Json.null
        | some s => s.toJson).option? StripingInfo.ofJson = some m.striping := by
    cases m.striping with
    | none => rfl
    | some s =>
      show (StripingInfo.ofJson s.toJson).map some = some (some s)
      rw [StripingInfo.ofJson_toJson]
      rfl
  have hfields : BlockMeta.ofJson m.toJson =
      (Json.int m.deviceId).nat?.bind fun deviceId =>
      (Json.int m.size).nat?.bind fun size =>
      (Json.int m.objectGeneration).nat?.bind fun objectGeneration =>
      (Json.int m.layoutVersion).nat?.bind fun layoutVersion =>
      ((match m.striping with
        | none => Json.null
        | some s => s.toJson).option? StripingInfo.ofJson).bind fun striping =>
      some { m with deviceId, size, objectGeneration, layoutVersion, striping } := rfl
  rw [hfields, hstriping]
  simp only [nat?_int, Option.bind_some]

theorem GcPayload.parse_serde (t : GcTask) : (GcPayload.serde t).parse = some t := by
  have hfields : (GcPayload.serde t).parse =
      (BlockMeta.ofJson t.retired.toJson).bind fun retired =>
      (Json.int t.attempts).nat?.bind fun attempts =>
      some { t with retired, attempts } := rfl
  rw [hfields, BlockMeta.ofJson_toJson]
  simp only [nat?_int, Option.bind_some]

theorem GcPayload.task_of_parse {p : GcPayload} {t : GcTask} (h : p.parse = some t) :
    p.task = t := by
  cases p with
  | serde t' =>
    rw [parse_serde] at h
    exact Option.some.inj h
  | cjson t' =>
    rw [parse_cjson] at h
    exact (when_eq_some_iff.mp h).2.symm

end ContextStore
