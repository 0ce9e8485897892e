import ContextStore.Rdma.Wire

/-!
# C から使う RDMA client の要求

`rdma-ffi/src/lib.rs` の `get`、`get_into`、`put` が送る最初の frame。
-/

namespace ContextStore.Wire

open Codec

structure ExternalRegion where
  ptr : UInt64
  size : UInt64
  rkey : UInt32

structure RdmaClient where
  bufPtr : UInt64
  bufSize : UInt64
  localRkey : UInt32
  externalRegions : List (Option ExternalRegion)
  qp : Bool
  stream : Bool

inductive FfiError where
  | notConnected
  | invalidRegion (id : UInt32)
  | offsetPastRegion (offset size : UInt64)
  | rangePastRegion (offset len size : UInt64)
  | noQueuePair

inductive FfiCall where
  | get (key : String)
  | getInto (regionId : UInt32) (key : String) (offset : UInt64)
  | put (regionId : UInt32) (key : String) (offset size : UInt64)

namespace RdmaClient

variable (c : RdmaClient)

def region (id : UInt32) : Except FfiError ExternalRegion :=
  match c.externalRegions[id.toNat]? with
  | some (some r) => .ok r
  | _ => .error (.invalidRegion id)

def connected : Except FfiError Unit := if c.stream then .ok () else .error .notConnected

def keyBytes (key : String) : List UInt8 :=
  u16le (UInt16.ofNat (asBytes key).length) ++ asBytes key

def getFrame (key : String) (addr : UInt64) (rkey : UInt32) (maxSize : UInt64) : List UInt8 :=
  [msgGetReq] ++ keyBytes key ++ u64le addr ++ u32le rkey ++ u64le maxSize

def putFrame (key : String) (size : UInt64) : List UInt8 :=
  [msgPutReq] ++ keyBytes key ++ u64le size

/-- `get`。 -/
def get (key : String) : Except FfiError (List UInt8) := do
  c.connected
  return getFrame key c.bufPtr c.localRkey c.bufSize

/-- `get_into`。 -/
def getInto (regionId : UInt32) (key : String) (offset : UInt64) :
    Except FfiError (List UInt8) := do
  let r ← c.region regionId
  if r.size ≤ offset then .error (.offsetPastRegion offset r.size)
  else do
    c.connected
    return getFrame key (r.ptr + offset) r.rkey (r.size - offset)

def put (regionId : UInt32) (key : String) (offset size : UInt64) :
    Except FfiError (List UInt8) := do
  let r ← c.region regionId
  if r.size < offset + size then .error (.rangePastRegion offset size r.size)
  else if !c.qp then .error .noQueuePair
  else do
    c.connected
    return putFrame key size

def send : FfiCall → Except FfiError (List UInt8)
  | .get key => c.get key
  | .getInto regionId key offset => c.getInto regionId key offset
  | .put regionId key offset size => c.put regionId key offset size

def meant : FfiCall → Except FfiError RequestMsg
  | .get key => .ok (.get ⟨key, c.bufPtr, c.localRkey, c.bufSize⟩)
  | .getInto regionId key offset => do
    let r ← c.region regionId
    return .get ⟨key, r.ptr + offset, r.rkey, r.size - offset⟩
  | .put _ key _ size => .ok (.put false ⟨key, size, 0⟩)

end RdmaClient

def FfiCall.key : FfiCall → String
  | .get key | .getInto _ key _ | .put _ key _ _ => key

def RdmaClient.Refuses (c : RdmaClient) : FfiCall → Prop
  | .get _ => c.stream = false
  | .getInto id _ offset =>
    (∀ r, c.externalRegions[id.toNat]? = some (some r) → r.size ≤ offset) ∨ c.stream = false
  | .put id _ offset size =>
    (∀ r, c.externalRegions[id.toNat]? = some (some r) → r.size < offset + size) ∨
      c.qp = false ∨ c.stream = false

/-! ## 短い鍵 -/

namespace RdmaClient

variable {key : String} {c : RdmaClient}

theorem pushString_eq_keyBytes (h : Short key) : pushString key "key" = .ok (keyBytes key) :=
  if_pos h

theorem reads_getFrame (h : Short key) (addr : UInt64) (rkey : UInt32) (maxSize : UInt64) :
    Reads recvRequest (getFrame key addr rkey maxSize) (.get ⟨key, addr, rkey, maxSize⟩) := by
  refine reads_get ?_
  rw [buildGetRequest, pushString_eq_keyBytes h]
  rfl

theorem reads_putFrame (h : Short key) (size : UInt64) :
    Reads recvRequest (putFrame key size) (.put false ⟨key, size, 0⟩) := by
  refine reads_put ?_
  rw [putKeyFrom, buildPutRequest, pushString_eq_keyBytes h]
  exact congrArg Except.ok (List.append_nil _)

inductive Frames (key : String) : List UInt8 → RequestMsg → Prop
  | get (addr : UInt64) (rkey : UInt32) (maxSize : UInt64) :
      Frames key (getFrame key addr rkey maxSize) (.get ⟨key, addr, rkey, maxSize⟩)
  | put (size : UInt64) : Frames key (putFrame key size) (.put false ⟨key, size, 0⟩)

theorem Frames.reads_iff {frame : List UInt8} {m : RequestMsg} (h : Frames key frame m) :
    Reads recvRequest frame m ↔ Short key := by
  cases h with
  | get addr rkey maxSize =>
    refine ⟨fun hread => ?_, fun hshort => reads_getFrame hshort addr rkey maxSize⟩
    have hbody : (recvGetReqBody >>= fun b => pure (.get b) : Recv RequestMsg).run
        (keyBytes key ++ u64le addr ++ u32le rkey ++ u64le maxSize) =
          .ok (.get ⟨key, addr, rkey, maxSize⟩, []) := hread.run
    obtain ⟨msg, cs, hmsg, hret⟩ := run_of_bind hbody
    obtain ⟨k, ds, hkey, hrest⟩ := run_of_bind hmsg
    obtain ⟨a, es, -, hrest⟩ := run_of_bind hrest
    obtain ⟨r, fs, -, hrest⟩ := run_of_bind hrest
    obtain ⟨x, gs, -, hrest⟩ := run_of_bind hrest
    cases hrest
    cases hret
    exact short_of_readStringU16 hkey
  | put size =>
    refine ⟨fun hread => ?_, fun hshort => reads_putFrame hshort size⟩
    have hbody : (recvPutReqBody false >>= fun b => pure (.put false b) : Recv RequestMsg).run
        (keyBytes key ++ u64le size) = .ok (.put false ⟨key, size, 0⟩, []) := hread.run
    obtain ⟨msg, cs, hmsg, hret⟩ := run_of_bind hbody
    obtain ⟨k, ds, hkey, hrest⟩ := run_of_bind hmsg
    obtain ⟨a, es, -, hrest⟩ := run_of_bind hrest
    obtain ⟨ttl, fs, -, hrest⟩ := run_of_bind hrest
    cases hrest
    cases hret
    exact short_of_readStringU16 hkey

theorem region_eq_ok {id : UInt32} {r : ExternalRegion} :
    c.region id = .ok r ↔ c.externalRegions[id.toNat]? = some (some r) := by
  unfold region
  split <;> simp_all

theorem connected_eq_ok : c.connected = .ok () ↔ c.stream = true := by
  unfold connected
  split <;> simp_all

theorem frames_of_send {call : FfiCall} {frame : List UInt8} (h : c.send call = .ok frame) :
    ¬ c.Refuses call ∧ ∃ m, c.meant call = .ok m ∧ Frames call.key frame m := by
  cases call with
  | get key =>
    obtain ⟨_, hconn, hf⟩ := ok_of_bind h
    cases hf
    refine ⟨fun hrefuse => ?_, _, rfl, .get _ _ _⟩
    exact Bool.false_ne_true (hrefuse.symm.trans (connected_eq_ok.mp hconn))
  | getInto regionId key offset =>
    obtain ⟨r, hr, hf⟩ := ok_of_bind h
    have hmeant : c.meant (.getInto regionId key offset) =
        .ok (.get ⟨key, r.ptr + offset, r.rkey, r.size - offset⟩) := by
      rw [meant, hr]
      rfl
    split at hf
    next => cases hf
    next hlt =>
      obtain ⟨_, hconn, hf⟩ := ok_of_bind hf
      cases hf
      refine ⟨?_, _, hmeant, .get _ _ _⟩
      rintro (hpast | hclosed)
      · exact hlt (hpast r (region_eq_ok.mp hr))
      · exact Bool.false_ne_true (hclosed.symm.trans (connected_eq_ok.mp hconn))
  | put regionId key offset size =>
    obtain ⟨r, hr, hf⟩ := ok_of_bind h
    split at hf
    next => cases hf
    next hle =>
      split at hf
      next => cases hf
      next hqp =>
        obtain ⟨_, hconn, hf⟩ := ok_of_bind hf
        cases hf
        refine ⟨?_, _, rfl, .put _⟩
        rintro (hpast | hno | hclosed)
        · exact hle (hpast r (region_eq_ok.mp hr))
        · exact hqp (by rw [hno]; rfl)
        · exact Bool.false_ne_true (hclosed.symm.trans (connected_eq_ok.mp hconn))

theorem refuses_of_send_error {call : FfiCall} {e : FfiError} (h : c.send call = .error e) :
    c.Refuses call := by
  by_contra hrefuse
  cases call with
  | get key =>
    have hopen : c.stream = true := by simpa [Refuses] using hrefuse
    rw [send, get, connected_eq_ok.mpr hopen] at h
    cases h
  | getInto regionId key offset =>
    simp only [Refuses, not_or, not_forall] at hrefuse
    obtain ⟨⟨r, hr, hlt⟩, hopen⟩ := hrefuse
    rw [send, getInto, region_eq_ok.mpr hr, connected_eq_ok.mpr (by simpa using hopen)] at h
    change (if r.size ≤ offset then _ else _) = _ at h
    rw [if_neg hlt] at h
    cases h
  | put regionId key offset size =>
    simp only [Refuses, not_or, not_forall] at hrefuse
    obtain ⟨⟨r, hr, hle⟩, hqp, hopen⟩ := hrefuse
    rw [send, put, region_eq_ok.mpr hr, connected_eq_ok.mpr (by simpa using hopen)] at h
    change (if r.size < offset + size then _ else if _ then _ else _) = _ at h
    rw [if_neg hle, if_neg (by simpa using hqp)] at h
    cases h

theorem send_refused_or_read_iff (c : RdmaClient) (call : FfiCall) :
    ((∃ e, c.send call = .error e) ∨ ∃ frame m, c.send call = .ok frame ∧
      c.meant call = .ok m ∧ ∀ rest, recvRequest.run (frame ++ rest) = .ok (m, rest)) ↔
    c.Refuses call ∨ Short call.key := by
  cases hsend : c.send call with
  | error e => exact iff_of_true (.inl ⟨e, rfl⟩) (.inl (refuses_of_send_error hsend))
  | ok frame =>
    obtain ⟨hrefuse, m, hmeant, hframes⟩ := frames_of_send hsend
    rw [or_iff_right hrefuse, ← hframes.reads_iff]
    constructor
    · rintro (⟨e, he⟩ | ⟨frame', m', hf, hm, hreads⟩)
      · cases he
      · cases hf
        cases hmeant.symm.trans hm
        exact hreads
    · exact fun hreads => .inr ⟨frame, m, rfl, hmeant, hreads⟩

def sampleClient : RdmaClient := ⟨4096, 64, 7, [some ⟨8192, 32, 9⟩], true, true⟩

/-! ## 長い鍵 -/

theorem asBytes_replicate (n : ℕ) :
    asBytes (String.ofList (List.replicate n 'a')) = List.replicate n 97 := by
  have hchar : String.utf8EncodeChar 'a' = [97] := by decide
  rw [asBytes, String.toUTF8_eq_toByteArray, String.toByteArray_ofList, List.utf8Encode,
    List.flatMap_replicate, hchar, List.flatten_replicate_singleton, List.data_toByteArray]

theorem getFrame_wrapped {key : String} {rest : List UInt8}
    (hkey : asBytes key = List.replicate 20 97 ++ rest) (hlen : (asBytes key).length = 65536)
    (addr : UInt64) (rkey : UInt32) (maxSize : UInt64) : getFrame key addr rkey maxSize =
      getFrame "" 0x6161616161616161 0x61616161 0x6161616161616161 ++
        (rest ++ (u64le addr ++ (u32le rkey ++ u64le maxSize))) := by
  rw [getFrame, keyBytes, hlen, hkey]
  simp only [List.append_assoc]
  rfl

def longKey (n : ℕ) : String := String.ofList (List.replicate n 'a')

theorem longKey_read_as_empty :
    ∃ frame rest, sampleClient.send (.get (longKey 65536)) = .ok frame ∧ rest.length = 65536 ∧
      recvRequest.run frame =
        .ok (.get ⟨"", 0x6161616161616161, 0x61616161, 0x6161616161616161⟩, rest) := by
  have hkey : asBytes (longKey (20 + 65516)) =
      List.replicate 20 97 ++ List.replicate 65516 97 := by
    rw [longKey, asBytes_replicate, List.replicate_append_replicate]
  have hlen : (asBytes (longKey (20 + 65516))).length = 65536 := by
    rw [longKey, asBytes_replicate, List.length_replicate]
  have hshort : Short "" := Nat.zero_le 65535
  refine ⟨_, List.replicate 65516 97 ++ (u64le 4096 ++ (u32le 7 ++ u64le 64)), rfl, ?_, ?_⟩
  · rw [List.length_append, List.length_replicate]
    rfl
  · have hread := reads_getFrame hshort 0x6161616161616161 0x61616161 0x6161616161616161
      (List.replicate 65516 97 ++ (u64le 4096 ++ (u32le 7 ++ u64le 64)))
    rwa [← getFrame_wrapped hkey hlen] at hread

end RdmaClient

end ContextStore.Wire
