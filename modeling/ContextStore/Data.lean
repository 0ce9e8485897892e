import Mathlib.Algebra.Order.Ring.Int
import Mathlib.Algebra.Order.Ring.Nat
import Mathlib.Data.List.Basic

/-!
# metadata の record と error

`kv-service/server/src/metadata.rs` と `error.rs` の型を写す。
-/

namespace ContextStore

abbrev Bytes := List UInt8

structure IoError where
  notFound : Bool
  msg : String
deriving DecidableEq, Repr

/-- `error.rs` の `KVError`。 -/
inductive KVError where
  | config (msg : String)
  | notFound (msg : String)
  | alreadyExists (msg : String)
  | io (e : IoError)
  | metadata (msg : String)
  | invalidArgument (msg : String)
  | internal (msg : String)
deriving DecidableEq, Repr

/-- `#[error(..)]` が与える表示。 -/
def KVError.display : KVError → String
  | .config m => "config error: " ++ m
  | .notFound m => "Key not found: " ++ m
  | .alreadyExists m => "Key already exists: " ++ m
  | .io e => "I/O error: " ++ e.msg
  | .metadata m => "metadata error: " ++ m
  | .invalidArgument m => "invalid argument: " ++ m
  | .internal m => "internal error: " ++ m

/-- `StorageTier::is_not_found_error`。 -/
def KVError.isNotFoundError : KVError → Bool
  | .notFound _ => true
  | .io e => e.notFound
  | _ => false

/-! ## record -/

structure ChunkLocation where
  stripeIndex : Nat
  nodeId : String
  grpcEndpoint : String
  rdmaEndpoint : String
  deviceId : Nat
  storageHandle : String
  offset : Nat
  length : Nat
  checksum : String
deriving DecidableEq, Repr

structure StripingInfo where
  chunkSize : Nat
  chunkDevices : List Nat
  chunkPaths : List String
  totalSize : Nat
  chunkLocations : List ChunkLocation
  chunkChecksums : List String
deriving DecidableEq, Repr

structure BlockMeta where
  deviceId : Nat
  filePath : String
  size : Nat
  objectHandle : String
  objectGeneration : Nat
  contentEtag : String
  layoutVersion : Nat
  createdAt : Int
  lastAccessedAt : Int
  ttlSeconds : Int
  numTokens : Int
  numLayers : Int
  dtype : String
  compressed : Bool
  striping : Option StripingInfo
deriving DecidableEq, Repr

structure GcTask where
  id : String
  key : String
  retired : BlockMeta
  notBefore : Int
  attempts : Nat
deriving DecidableEq, Repr

/-! ## 期限 -/

/-- `i64::checked_add`。 -/
def checkedAddI64 (a b : Int) : Option Int :=
  if -2 ^ 63 ≤ a + b ∧ a + b < 2 ^ 63 then some (a + b) else none

namespace BlockMeta

/-- `BlockMeta::is_expired_at`。 -/
def isExpiredAt (m : BlockMeta) (now : Int) : Bool :=
  decide (0 < m.ttlSeconds) &&
    match checkedAddI64 m.createdAt m.ttlSeconds with
    | some expiresAt => decide (expiresAt ≤ now)
    | none => true

theorem isExpiredAt_mono {m : BlockMeta} {s t : Int} (hst : s ≤ t) (h : m.isExpiredAt s) :
    m.isExpiredAt t := by
  unfold isExpiredAt at h ⊢
  grind

/-- `meta_identity_matches`。 -/
def identityMatches (actual expected : BlockMeta) : Bool :=
  actual.objectHandle == expected.objectHandle &&
  actual.objectGeneration == expected.objectGeneration &&
  actual.layoutVersion == expected.layoutVersion &&
  actual.contentEtag == expected.contentEtag &&
  actual.size == expected.size

end BlockMeta

end ContextStore
