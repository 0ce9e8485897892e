import ContextStore.Rdma.Exchange

/-!
# RDMA の接続の歩調

呼び出しが通信の失敗でなく戻るとき、client と server は揃っているか。
-/

namespace ContextStore.Wire

open Codec Conc Conc.Duplex

/-! ## 条件 -/

def Call.fits (c : Call) : Bool :=
  match c with
  | .putStripesFrom d stripes buffer =>
    !c.frame.isOk || ((stripes.all fun s => (buffer.source s.2.1 s.2.2).isOk) &&
      !invalidStripes d.chunkSize (stripes.map fun s => (s.1, s.2.2)))
  | _ => true

def Call.follows (c : Call) : Option Outcome → Bool
  | some .transport => c.frame.isOk
  | _ => true

def granted (t : ServerIo Bool) (answer : (b : ServerAsk) → b.Ans) : Bool :=
  match t with
  | .cmd (.ask (.allocStripes size)) _ => (answer (.allocStripes size)).isSome
  | _ => true

def Call.Sound (last : Option Outcome) (c : Call) : Prop := c.fits = true ∧ c.follows last = true

def Granted (t : ServerIo Bool) (answer : (b : ServerAsk) → b.Ans) : Prop := granted t answer = true

def Fitting : Wires → Move → Prop := Setup.Lockstep Call.Sound Granted

def Awaits (t : ServerIo Bool) : Prop :=
  ∃ l, t = .cmd (.recv recvByte) l ∧ ∀ b, b ≠ msgPutCommit → l (.ok (.byte b)) = .ret false

def Broken : Outcome → Option (ServerIo Bool) → List UInt8 → List UInt8 → Prop
  | .transport, none, _, q => q = []
  | .transport, some t, p, q => Awaits t ∧ p = [] ∧ q = []
  | _, _, _, _ => False

abbrev Good (c : ClientIo Outcome) (s : Option (ServerIo Bool)) (p q : List UInt8) : Prop :=
  connection.Settles Broken Granted c s p q

theorem blocked_serve : connection.Blocked serve [] := fun _ => rfl

theorem awaits_awaitCommit (committed : ServerIo Bool) : Awaits (awaitCommit committed) :=
  ⟨_, rfl, fun _ hb => if_neg hb⟩

theorem Awaits.blocked {t : ServerIo Bool} (h : Awaits t) : connection.Blocked t [] := by
  obtain ⟨l, rfl, -⟩ := h
  exact fun _ => rfl

section Waiting

variable {d : Recv Reply} {k : Except Unit Reply → ClientIo Outcome}
  {outcome : Except Unit Reply → Outcome} {p : List UInt8}

structure Waiting (d : Recv Reply) (k : Except Unit Reply → ClientIo Outcome) : Prop where
  starves : Setup.Settles.Starves connection d []
  error : k (.error ()) = .ret .transport

theorem good_closed (h : Waiting d k) : Good (.cmd (.recv d) k) none p [] := by
  refine .closed h.starves ?_
  rw [h.error]
  exact .lost rfl

def Final (d : Recv Reply) (outcome : Except Unit Reply → Outcome) : Prop :=
  Waiting d fun r => .ret (outcome r)

variable {bytes : List UInt8}

theorem good_last {m : Reply} (hd : Reads d bytes m) :
    Good (await d outcome) (some serve) [] bytes :=
  .recv blocked_serve hd.run (.ret blocked_serve _)

theorem good_reply (h : Final d outcome) {m : Reply} (hd : Reads d bytes m) :
    Good (await d outcome) (some (reply bytes)) [] [] :=
  .serverSend h.starves (good_last hd)

theorem good_issue (h : Waiting d k) {b : ServerAsk} {f : b.Ans → ServerIo Bool}
    (hf : ∀ answer, Granted (b.issue >>= f) answer →
      Good (.cmd (.recv d) k) (connection.next (f (answer b))) p []) :
    Good (.cmd (.recv d) k) (connection.next (b.issue >>= f)) p [] :=
  .serverAsk h.starves hf

variable {committed : ServerIo Bool}

theorem good_grant (h : Waiting readPutReady k) {extent : UInt64 × UInt32} (hk : Good (k (.ok
    (.putReady ⟨true, extent.1, extent.2⟩))) (some (awaitCommit committed)) [] []) :
    Good (.cmd (.recv readPutReady) k) (connection.next (grant extent committed)) [] [] := by
  refine .serverSend h.starves ?_
  exact .recv (awaits_awaitCommit committed).blocked (reads_putReady ⟨true, _, _⟩).run hk

theorem good_write {a : ClientAsk} {f : Bool → ClientIo Outcome}
    (hfalse : f false = .ret .transport)
    (htrue : Good (f true) (some (awaitCommit committed)) [] []) :
    Good (.cmd (.ask a) f) (some (awaitCommit committed)) [] [] := by
  refine .ask (awaits_awaitCommit committed).blocked fun (ok : Bool) => ?_
  cases ok with
  | false =>
    rw [hfalse]
    exact .lost ⟨awaits_awaitCommit committed, rfl, rfl⟩
  | true => exact htrue

theorem good_commit (h : Final d outcome)
    (hc : Good (await d outcome) (connection.next committed) [] []) :
    Good (commit d outcome) (some (awaitCommit committed)) [] [] := by
  refine .send (fun t ht => ?_) ?_
  · cases ht
    exact (awaits_awaitCommit committed).blocked
  · exact .serverRecv h.starves ((reads_readU8 msgPutCommit).map Incoming.byte).run hc

theorem good_refuse (h : Waiting readPutReady k) (hf : Final d outcome)
    (hk : k (.ok (.putReady ⟨false, 0, 0⟩)) = await d outcome) {m : Reply} (hd : Reads d bytes m) :
    Good (.cmd (.recv readPutReady) k) (connection.next (refuse bytes)) [] [] := by
  have hready := reads_putReady ⟨false, 0, 0⟩
  refine .serverSend h.starves (.race hready.run ?_ ?_)
  · -- client が先に READY を読む
    show Good (k (.ok (.putReady ⟨false, 0, 0⟩))) _ _ _
    rw [hk]
    exact good_reply hf hd
  · -- server が先に結果を送る
    refine .recv blocked_serve (hready bytes) ?_
    show Good (k (.ok (.putReady ⟨false, 0, 0⟩))) _ _ _
    rw [hk]
    exact good_last hd

end Waiting

/-! ### GET -/

theorem final_get : Final readGetResponse getOutcome := ⟨⟨_, rfl, rfl⟩, rfl⟩

theorem good_answerGet (r : Option GetRespMsg) :
    Good (await readGetResponse getOutcome) (connection.next (answerGet r)) [] [] := by
  cases r with
  | none => exact good_closed final_get
  | some msg => exact good_reply final_get (reads_getResp msg)

variable {frame : List UInt8} {m : RequestMsg}

theorem good_get (hd : Reads recvRequest frame m)
    (hm : (∃ msg, m = .get msg) ∨ ∃ msg, m = .getDescriptor msg) :
    Good (await readGetResponse getOutcome) (some serve) frame [] := by
  refine .serverRecv final_get.starves (hd.map Incoming.request).run ?_
  rcases hm with ⟨msg, rfl⟩ | ⟨msg, rfl⟩
  · exact good_issue final_get fun answer _ => good_answerGet _
  · exact good_issue final_get fun answer _ => good_answerGet _

/-! ### PUT -/

theorem final_put (ifNotExists : Bool) : Final readPutResult (putOutcome ifNotExists) :=
  ⟨⟨_, rfl, rfl⟩, rfl⟩

theorem final_refused (ifNotExists : Bool) : Final readPutResult (refusedOutcome ifNotExists) :=
  ⟨⟨_, rfl, rfl⟩, rfl⟩

theorem good_persistPut (ifNotExists : Bool) (msg : PutReqMsg) :
    Good (await readPutResult (putOutcome ifNotExists))
      (connection.next (persistPut ifNotExists msg)) [] [] := by
  unfold persistPut
  split
  · exact good_closed (final_put ifNotExists)
  · refine good_issue (final_put ifNotExists) fun answer _ => ?_
    cases ifNotExists with
    | false => exact good_reply (final_put false) (reads_putResult _)
    | true => exact good_reply (final_put true) (reads_putResult _)

theorem good_put {ifNotExists : Bool} {msg : PutReqMsg}
    (hd : Reads recvRequest frame (.put ifNotExists msg)) (srcAddr : UInt64) (lkey : UInt32)
    (size : UInt64) :
    Good (putExchange srcAddr lkey size ifNotExists) (some serve) frame [] := by
  have hwait : Setup.Settles.Starves connection readPutReady [] := ⟨_, rfl, rfl⟩
  refine .serverRecv hwait (hd.map Incoming.request).run ?_
  show Good _ (connection.next (handlePut ifNotExists msg)) [] []
  unfold handlePut
  split
  · exact good_refuse ⟨hwait, rfl⟩ (final_refused ifNotExists) rfl (reads_putResult _)
  refine good_issue (b := .alloc msg.size) ⟨hwait, rfl⟩ fun answer _ => ?_
  cases answer (.alloc msg.size) with
  | none => exact good_refuse ⟨hwait, rfl⟩ (final_refused ifNotExists) rfl (reads_putResult _)
  | some extent =>
    refine good_grant ⟨hwait, rfl⟩ (good_write rfl ?_)
    exact good_commit (final_put ifNotExists) (good_persistPut ifNotExists msg)

/-! ### stripe の PUT -/

theorem final_stripes : Final readPutStripesResp stripesOutcome := ⟨⟨_, rfl, rfl⟩, rfl⟩

theorem good_putChunks {key : ObjectKey} {msg : PutStripesReqMsg}
    {f : Except (List PutStripeLocation) (List PutStripeLocation) → ServerIo Bool}
    (hf : ∀ r, Good (await readPutStripesResp stripesOutcome) (connection.next (f r)) [] [])
    (stripes : List (UInt32 × UInt64)) (locations : List PutStripeLocation) :
    Good (await readPutStripesResp stripesOutcome)
      (connection.next (putChunks key msg stripes locations >>= f)) [] [] := by
  induction stripes generalizing locations with
  | nil => exact hf (.ok locations)
  | cons s stripes ih =>
    refine good_issue (b := .putPlacementChunk key msg s.1 locations.length) final_stripes
      fun answer _ => ?_
    cases answer (.putPlacementChunk key msg s.1 locations.length) with
    | none => exact hf (.error locations)
    | some r => exact ih _

theorem good_rollback {f : Unit → ServerIo Bool}
    (hf : Good (await readPutStripesResp stripesOutcome) (connection.next (f ())) [] [])
    (locations : List PutStripeLocation) :
    Good (await readPutStripesResp stripesOutcome)
      (connection.next (rollback locations >>= f)) [] [] := by
  induction locations with
  | nil => exact hf
  | cons loc locations ih => exact good_issue final_stripes fun _ _ => ih

theorem good_persistStripes (msg : PutStripesReqMsg) :
    Good (await readPutStripesResp stripesOutcome) (connection.next (persistStripes msg))
      [] [] := by
  unfold persistStripes
  split
  · exact good_closed final_stripes
  refine good_putChunks (fun r => ?_) msg.stripes []
  cases r with
  | error locations =>
    have hfailed : sendPutStripesResp false [] = .ok stripesFailed := rfl
    exact good_rollback (f := fun _ => reply stripesFailed)
      (good_reply final_stripes (reads_putStripesResp hfailed)) locations
  | ok locations =>
    dsimp only
    split
    · exact good_closed final_stripes
    next bytes hbytes => exact good_reply final_stripes (reads_putStripesResp hbytes)

theorem good_writeStripes {buffer : RegisteredBuffer} {ready : PutReadyMsg}
    {committed : ServerIo Bool}
    (hc : Good (commit readPutStripesResp stripesOutcome) (some (awaitCommit committed)) [] [])
    (stripes : List (UInt32 × UInt64 × UInt64))
    (h : ∀ s ∈ stripes, (buffer.source s.2.1 s.2.2).isOk = true) (dstOffset : UInt64) :
    Good (writeStripes buffer ready stripes dstOffset >>= commitStripes)
      (some (awaitCommit committed)) [] [] := by
  induction stripes generalizing dstOffset with
  | nil => exact hc
  | cons s stripes ih =>
    have hs := h s List.mem_cons_self
    have hrest := ih (fun s hs => h s (List.mem_cons_of_mem _ hs)) (dstOffset + s.2.2)
    unfold writeStripes
    cases hsrc : buffer.source s.2.1 s.2.2 with
    | error e =>
      rw [hsrc] at hs
      cases hs
    | ok src => exact good_write rfl hrest

theorem good_putStripes {msg : PutStripesReqMsg} (hd : Reads recvRequest frame (.putStripes msg))
    {stripes : List (UInt32 × UInt64 × UInt64)} {buffer : RegisteredBuffer}
    (hsource : ∀ s ∈ stripes, (buffer.source s.2.1 s.2.2).isOk = true)
    (hvalid : invalidStripes msg.chunkSize msg.stripes = false) :
    Good (putStripesExchange stripes buffer) (some serve) frame [] := by
  have hwait : Setup.Settles.Starves connection readPutReady [] := ⟨_, rfl, rfl⟩
  refine .serverRecv hwait (hd.map Incoming.request).run ?_
  show Good _ (connection.next (handlePutStripes msg)) [] []
  unfold handlePutStripes
  rw [if_neg (by simp [hvalid])]
  refine good_issue (b := .allocStripes (msg.stripes.map Prod.snd).sum) ⟨hwait, rfl⟩
    fun answer hgrant => ?_
  have hgrant : (answer (.allocStripes (msg.stripes.map Prod.snd).sum)).isSome = true := hgrant
  cases hext : answer (.allocStripes (msg.stripes.map Prod.snd).sum) with
  | none =>
    rw [hext] at hgrant
    cases hgrant
  | some extent =>
    refine good_grant ⟨hwait, rfl⟩ (good_writeStripes ?_ stripes hsource 0)
    exact good_commit final_stripes (good_persistStripes msg)

/-! ### 呼び出し -/

theorem ok_of_mapError {ε ε' α : Type} {f : ε → ε'} {x : Except ε α} {a : α}
    (h : x.mapError f = .ok a) : x = .ok a := by
  cases x with
  | error e => cases h
  | ok b =>
    cases h
    rfl

variable {c : Call}

theorem reads_frame (h : c.frame = .ok frame) :
    ∃ r m, c.request = .ok r ∧ r.message = some m ∧ Reads recvRequest frame m := by
  obtain ⟨r, hr, hbuild⟩ := ok_of_bind h
  obtain ⟨m, hm, hreads⟩ := recvRequest_build (ok_of_mapError hbuild)
  exact ⟨r, m, hr, hm, hreads⟩

theorem message_of_descriptor {d : ObjectDescriptor} {f : String → DescriptorGetReqMsg}
    (h : (d.key?.map fun key => RequestMsg.getDescriptor (f key)) = some m) :
    ∃ msg, m = .getDescriptor msg := by
  obtain ⟨key, -, rfl⟩ := Option.map_eq_some_iff.mp h
  exact ⟨f key, rfl⟩

theorem good_exchange (hframe : c.frame = .ok frame) (hfits : c.fits = true) :
    Good c.exchange (some serve) frame [] := by
  obtain ⟨r, m, hr, hm, hreads⟩ := reads_frame hframe
  cases c with
  | getInto key buffer offset =>
    obtain ⟨dst, -, hr⟩ := ok_of_bind hr
    cases hr
    cases hm
    exact good_get hreads (.inl ⟨_, rfl⟩)
  | getDescriptorInto d buffer offset =>
    obtain ⟨key, -, hr⟩ := ok_of_bind hr
    obtain ⟨dst, -, hr⟩ := ok_of_bind hr
    cases hr
    exact good_get hreads (.inr (message_of_descriptor hm))
  | getDescriptorStripesInto d stripes buffer offset =>
    obtain ⟨key, -, hr⟩ := ok_of_bind hr
    obtain ⟨dst, -, hr⟩ := ok_of_bind hr
    cases hr
    exact good_get hreads (.inr (message_of_descriptor hm))
  | getDescriptorStripesSge d stripes segments =>
    cases hr
    obtain ⟨key, -, hm⟩ := Option.bind_eq_some_iff.mp hm
    obtain ⟨first, -, hm⟩ := Option.bind_eq_some_iff.mp hm
    cases hm
    exact good_get hreads (.inr ⟨_, rfl⟩)
  | putKeyFrom key buffer offset size ifNotExists ttlSeconds =>
    obtain ⟨src, -, hr⟩ := ok_of_bind hr
    cases hr
    cases hm
    exact good_put hreads _ _ _
  | putStripesFrom d stripes buffer =>
    cases hr
    obtain ⟨key, -, rfl⟩ := Option.map_eq_some_iff.mp hm
    have hfits : (!(Call.putStripesFrom d stripes buffer).frame.isOk ||
      ((stripes.all fun s => (buffer.source s.2.1 s.2.2).isOk) &&
        !invalidStripes d.chunkSize (stripes.map fun s => (s.1, s.2.2)))) = true := hfits
    rw [hframe] at hfits
    simp only [Except.isOk, Except.toBool, Bool.not_true, Bool.false_or, Bool.and_eq_true,
      List.all_eq_true, Bool.not_eq_true'] at hfits
    exact good_putStripes hreads hfits.1 hfits.2

theorem good_run (hfits : c.fits = true) : Good c.run (some serve) [] [] := by
  unfold Call.run
  cases hframe : c.frame with
  | error e => exact .ret blocked_serve _
  | ok frame =>
    refine .send (fun t ht => ?_) (good_exchange hframe hfits)
    cases ht
    exact blocked_serve

theorem exchange_waits (c : Call) : ∃ d k, c.exchange = .cmd (.recv d) k ∧ Waiting d k := by
  cases c <;> exact ⟨_, _, rfl, ⟨_, rfl, rfl⟩, rfl⟩

theorem head_of_reads (h : Reads recvRequest frame m) :
    ∃ b rest, frame = b :: rest ∧ b ≠ msgPutCommit := by
  cases frame with
  | nil => cases h.run
  | cons b rest =>
    refine ⟨b, rest, rfl, ?_⟩
    rintro rfl
    cases h.run

variable {q p : List UInt8}

variable {a : Outcome}

theorem good_broken (hframe : c.frame = .ok frame) {s : Option (ServerIo Bool)}
    (h : Broken a s p q) : Good c.run s p q := by
  obtain ⟨d, k, hexchange, hwait⟩ := exchange_waits c
  unfold Call.run
  rw [hframe]
  cases a with
  | transport =>
    cases s with
    | none =>
      cases h
      refine .send (s := none) (fun t ht => nomatch ht) ?_
      show Good c.exchange _ _ _
      rw [hexchange]
      exact good_closed hwait
    | some t =>
      obtain ⟨hawaits, rfl, rfl⟩ := h
      refine .send (fun t' ht => ?_) ?_
      · cases ht
        exact hawaits.blocked
      show Good c.exchange _ _ _
      rw [hexchange]
      obtain ⟨r, m, -, -, hreads⟩ := reads_frame hframe
      obtain ⟨b, rest, rfl, hb⟩ := head_of_reads hreads
      obtain ⟨l, rfl, hl⟩ := hawaits
      refine .serverRecv hwait.starves (((reads_readU8 b).map Incoming.byte) rest) ?_
      rw [hl b hb]
      exact good_closed hwait
  | got _ => cases h
  | put _ => cases h
  | acks _ => cases h
  | failed _ => cases h

/-! ## まとめ -/

theorem Broken.transport {s : Option (ServerIo Bool)} (h : Broken a s p q) :
    a = .transport := by
  cases a with
  | transport => rfl
  | got _ => cases h
  | put _ => cases h
  | acks _ => cases h
  | failed _ => cases h

theorem Broken.blocked {t : ServerIo Bool} (h : Broken a (some t) p q) :
    connection.Blocked t p := by
  cases h.transport
  obtain ⟨hawaits, rfl, -⟩ := h
  exact hawaits.blocked

theorem reach_good {s : Wires} (h : connection.system.Reach Fitting s) :
    s.cut = true ∨ connection.Settled Broken Granted s := by
  refine Setup.reach_settled blocked_serve (fun _ _ _ _ => Broken.blocked)
    (fun _ c hc => good_run hc.1) (fun a c s p q hc hb => ?_) h
  cases hb.transport
  have hframe : c.frame.isOk = true := hc.2
  cases hok : c.frame with
  | error e =>
    rw [hok] at hframe
    cases hframe
  | ok frame => exact good_broken hok hb

theorem calls_stay_in_step (s : Wires) (h : connection.system.Reach Fitting s)
    (hidle : s.client = none) (a : Outcome) (hlast : s.last = some a) (ha : a ≠ .transport)
    (hcut : s.cut = false) : s.toClient = [] ∧ s.toServer = [] ∧ s.server = some serve := by
  have hset := (reach_good h).resolve_left (by simp [hcut])
  simp only [Setup.Settled, hidle] at hset
  rcases hset with ⟨b, hb, hbroken⟩ | ⟨hserver, hp, hq⟩
  · cases hb.symm.trans hlast
    exact absurd hbroken.transport ha
  · exact ⟨hq, hp, hserver⟩

/-! ## 走りの例 -/

/-- `Fitting` の検査。 -/
def fitting (s : Wires) : Move → Bool
  | .start c => c.fits && c.follows s.last
  | .server answer => s.server.all fun t => granted t answer
  | _ => true

theorem fitting_sound (s : Wires) (e : Move) (h : fitting s e = true) : Fitting s e := by
  cases e with
  | start c => exact (Bool.and_eq_true_iff.mp h)
  | client _ => trivial
  | server answer =>
    intro t ht
    have h : s.server.all (fun t => granted t answer) = true := h
    rw [ht] at h
    exact h
  | cut => trivial

def storeAll (extent : Option (UInt64 × UInt32)) : (b : ServerAsk) → b.Ans
  | .alloc _ => extent
  | .allocStripes _ => extent
  | .putFromPtr _ _ _ => some true
  | .putPlacementChunk _ _ _ _ => some (0, "h", "c")
  | .deletePlacementChunk _ => ()
  | .get _ => some ⟨false, 0, 0⟩
  | .getDescriptor _ => some ⟨false, 0, 0⟩

def clientMoves (n : ℕ) : List Move := List.replicate n (.client fun _ => true)

def serverMoves (extent : Option (UInt64 × UInt32)) (m : ℕ) : List Move :=
  List.replicate m (.server (storeAll extent))

def sampleBuffer : RegisteredBuffer := ⟨4096, 1, 2, 8⟩

def sampleDescriptor : ObjectDescriptor := ⟨some ("", "k"), "h", 1, "", 1, 8, true, 2, 4⟩

def storeBoth : List Move :=
  [.start (.putKeyFrom "0:k" sampleBuffer 0 8 false 0)] ++ clientMoves 1 ++
    serverMoves (some (0, 7)) 3 ++ clientMoves 3 ++ serverMoves (some (0, 7)) 3 ++ clientMoves 1 ++
    [.start (.putStripesFrom sampleDescriptor [(0, 0, 4), (1, 4, 4)] sampleBuffer)] ++
    clientMoves 1 ++ serverMoves (some (0, 7)) 3 ++ clientMoves 4 ++
    serverMoves (some (0, 7)) 4 ++ clientMoves 1

def acked (s : Wires) : Bool :=
  s.client.isNone && !s.cut && match s.last with
    | some (.acks stripes) => stripes.length == 2
    | _ => false

theorem calls_stay_in_step_stored :
    ∃ s, connection.system.Reach Fitting s ∧ acked s = true ∧
      s.toClient = [] ∧ s.toServer = [] ∧ s.server = some serve := by
  obtain ⟨s, hreach, hacked⟩ := Transition.Reach.exists_of_play (T := connection.system) fitting
    fitting_sound storeBoth acked (by decide +kernel)
  have hs := hacked
  simp only [acked, Bool.and_eq_true, Option.isNone_iff_eq_none, Bool.not_eq_true'] at hs
  obtain ⟨⟨hidle, hcut⟩, hacks⟩ := hs
  cases hlast : s.last with
  | none =>
    rw [hlast] at hacks
    cases hacks
  | some a =>
    have ha : a ≠ .transport := by
      rintro rfl
      rw [hlast] at hacks
      cases hacks
    exact ⟨s, hreach, hacked, calls_stay_in_step s hreach hidle a hlast ha hcut⟩

def refusedRun : List Move :=
  [.start (.putStripesFrom sampleDescriptor [(0, 0, 4), (1, 4, 4)] sampleBuffer)] ++
    clientMoves 1 ++ serverMoves none 4 ++ clientMoves 1

def outsideRun : List Move :=
  [.start (.putStripesFrom sampleDescriptor [(0, 0, 4), (1, 6, 4)] sampleBuffer)] ++
    clientMoves 1 ++ serverMoves (some (0, 7)) 3 ++ clientMoves 2

def returnedError (s : Wires) : Bool :=
  s.client.isNone && !s.cut && match s.last with
    | some (.failed _) => true
    | _ => false

theorem returnedError_iff {s : Wires} (h : returnedError s = true) :
    s.client = none ∧ s.cut = false ∧ ∃ e, s.last = some (.failed e) := by
  simp only [returnedError, Bool.and_eq_true, Option.isNone_iff_eq_none, Bool.not_eq_true'] at h
  grind

def awaitsByte (s : Wires) : Bool :=
  match s.server with
  | some (.cmd (.recv d) _) => (d.run [0]).isOk
  | _ => false

theorem stripe_put_out_of_step :
    (∃ s : Wires, connection.system.Reach (fun _ _ => True) s ∧
      (s.client = none ∧ s.cut = false ∧ ∃ e, s.last = some (.failed e)) ∧
      s.toClient = stripesFailed) ∧
    ∃ s : Wires, connection.system.Reach (fun _ _ => True) s ∧
      (s.client = none ∧ s.cut = false ∧ ∃ e, s.last = some (.failed e)) ∧
      s.server ≠ some serve := by
  constructor
  · obtain ⟨s, hreach, hs⟩ := Transition.Reach.exists_of_play (T := connection.system)
      (P := fun _ _ => True) (fun _ _ => true) (fun _ _ _ => trivial) refusedRun
      (fun s => returnedError s && s.toClient == stripesFailed) (by decide +kernel)
    obtain ⟨herr, hleft⟩ := Bool.and_eq_true_iff.mp hs
    exact ⟨s, hreach, returnedError_iff herr, beq_iff_eq.mp hleft⟩
  · obtain ⟨s, hreach, hs⟩ := Transition.Reach.exists_of_play (T := connection.system)
      (P := fun _ _ => True) (fun _ _ => true) (fun _ _ _ => trivial) outsideRun
      (fun s => returnedError s && awaitsByte s) (by decide +kernel)
    obtain ⟨herr, hawaits⟩ := Bool.and_eq_true_iff.mp hs
    refine ⟨s, hreach, returnedError_iff herr, fun hserve => ?_⟩
    unfold awaitsByte at hawaits
    rw [hserve] at hawaits
    cases hawaits

end ContextStore.Wire
