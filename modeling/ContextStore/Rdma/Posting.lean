import ContextStore.Rdma.Pieces

/-!
# 投げた WRITE と取り出した完了の数
-/

namespace ContextStore.Serve

open Conc Wire Storage

def accepted (e : Issued) : Option Write :=
  match e with
  | ⟨.post w, ok⟩ => cond ok (some w) none
  | _ => none

def taken (e : Issued) : ℕ :=
  match e with
  | ⟨.pollN n, r⟩ => (r : Except ℕ Unit).toOption.elim 0 fun _ => n
  | ⟨.pollAvailable max, r⟩ => (r : Except ℕ (Fin (max + 1))).toOption.elim 0 Fin.val
  | _ => 0

def broken (e : Issued) : Bool :=
  match e with
  | ⟨.pollN _, r⟩ => (r : Except ℕ Unit).toOption.isNone
  | ⟨.pollAvailable max, r⟩ => (r : Except ℕ (Fin (max + 1))).toOption.isNone
  | _ => false

def posted (t : History) : List Write := (t.filterMap accepted).reverse

def consumed (t : History) : ℕ := (t.map taken).sum

def clean (t : History) : Bool := t.all fun e => !broken e

theorem posted_cons (e : Issued) (t : History) :
    posted (e :: t) = posted t ++ (accepted e).toList := by
  unfold posted
  rw [List.filterMap_cons]
  cases accepted e <;> simp

theorem consumed_cons (e : Issued) (t : History) : consumed (e :: t) = taken e + consumed t := by
  simp [consumed]

theorem clean_cons (e : Issued) (t : History) : clean (e :: t) = (!broken e && clean t) := by
  simp [clean]

theorem length_posted_le {t t' : History} (h : t <:+ t') :
    (posted t).length ≤ (posted t').length := by
  obtain ⟨s, rfl⟩ := h
  simp [posted, List.filterMap_append]

structure Sent (t t' : History) (ws : List Write) (owed owed' : ℕ) : Prop where
  posted : posted t' = posted t ++ ws
  count : consumed t' + owed' = consumed t + owed + ws.countP (·.signaled)
  clean : clean t' = clean t

namespace Sent

variable {t t' t'' : History} {ws ws' : List Write} {owed owed' owed'' : ℕ}

theorem refl (t : History) (owed : ℕ) : Sent t t [] owed owed := ⟨by simp, by simp, rfl⟩

theorem trans (h : Sent t t' ws owed owed') (h' : Sent t' t'' ws' owed' owed'') :
    Sent t t'' (ws ++ ws') owed owed'' := by
  refine ⟨?_, ?_, h'.clean.trans h.clean⟩
  · rw [h'.posted, h.posted, List.append_assoc]
  · have := h.count
    have := h'.count
    rw [List.countP_append]
    omega

theorem trans_nil (h : Sent t t' ws owed owed') (h' : Sent t' t'' [] owed' owed'') :
    Sent t t'' ws owed owed'' := by
  have := h.trans h'
  rwa [List.append_nil] at this

theorem quiet {e : Issued} (ha : accepted e = none) (ht : taken e = 0) (hb : broken e = false)
    (t : History) (owed : ℕ) : Sent t (e :: t) [] owed owed := by
  refine ⟨?_, ?_, ?_⟩
  · rw [posted_cons, ha]
    rfl
  · rw [consumed_cons, ht]
    simp
  · rw [clean_cons, hb]
    rfl

theorem post (w : Write) (t : History) (owed : ℕ) :
    Sent t (⟨.post w, true⟩ :: t) [w] owed (owed + [w].countP (·.signaled)) := by
  refine ⟨?_, ?_, ?_⟩
  · rw [posted_cons]
    rfl
  · rw [consumed_cons]
    show 0 + _ + _ = _
    omega
  · rw [clean_cons]
    rfl

theorem poll {e : Issued} (ha : accepted e = none) (hb : broken e = false) (t : History)
    (howed : taken e + owed' = owed) : Sent t (e :: t) [] owed owed' := by
  refine ⟨?_, ?_, ?_⟩
  · rw [posted_cons, ha]
    rfl
  · rw [consumed_cons, List.countP_nil]
    omega
  · rw [clean_cons, hb]
    rfl

end Sent

/-! ## loop の収支 -/

abbrev Posts {α : Type} (W : History → Write → Prop) (Q : History → α → Prop) (t : History)
    (p : Serving α) : Prop :=
  Conforms (fun t c => ∀ w, c = .post w → W t w) Q t p

namespace Posts

variable {α : Type} {W : History → Write → Prop} {Q : History → α → Prop} {t : History}

theorem issue {c : Cmd} (hc : ∀ w, c ≠ .post w) {f : c.Resp → Serving α}
    (hf : ∀ r, Posts W Q (⟨c, r⟩ :: t) (f r)) : Posts W Q t (Prog.issue c >>= f) :=
  ⟨fun w h => absurd h (hc w), hf⟩

theorem post {w : Write} (hw : W t w) {f : Bool → Serving α}
    (hno : Posts W Q (⟨.post w, false⟩ :: t) (f false))
    (hok : Posts W Q (⟨.post w, true⟩ :: t) (f true)) : Posts W Q t (Serve.post w >>= f) := by
  refine ⟨fun w' h => by cases h; exact hw, fun (ok : Bool) => ?_⟩
  cases ok with
  | false => exact hno
  | true => exact hok

theorem pollN {n : ℕ} {f : Except ℕ Unit → Serving α}
    (hno : ∀ k, Posts W Q (⟨.pollN n, (.error k : Except ℕ Unit)⟩ :: t) (f (.error k)))
    (hok : Posts W Q (⟨.pollN n, (.ok () : Except ℕ Unit)⟩ :: t) (f (.ok ()))) :
    Posts W Q t (Serve.pollN n >>= f) := by
  refine issue (c := .pollN n) (fun _ h => by cases h) fun (r : Except ℕ Unit) => ?_
  cases r with
  | error k => exact hno k
  | ok _ => exact hok

end Posts

section Loops

variable {W : Write → Prop} {t : History}

theorem Sent.pollN {n : ℕ} (t : History) {owed owed' : ℕ} (h : n + owed' = owed) :
    Sent t (⟨.pollN n, (.ok () : Except ℕ Unit)⟩ :: t) [] owed owed' :=
  .poll rfl rfl t h

def writesOf : List Segment → ℕ → List Write
  | [], _ => []
  | (dst, rkey, n) :: rest, src =>
    ⟨.staging src, dst, rkey, UInt32.ofNat n.toNat, true⟩ :: writesOf rest (src + n.toNat)

theorem postTargets_sent {ts : List Segment} {src : ℕ} (hw : ∀ w ∈ writesOf ts src, W w)
    (p : Posting) :
    Posts (fun _ => W) (fun t' p' => p'.failed = false → p.failed = false ∧ p'.total = p.total ∧
      Sent t t' (writesOf ts src) p.outstanding p'.outstanding) t (postTargets ts src p) := by
  induction ts generalizing t src p with
  | nil => exact fun h => ⟨h, rfl, .refl _ _⟩
  | cons s ts ih =>
    obtain ⟨dst, rkey, n⟩ := s
    obtain ⟨hw, hrest⟩ := List.forall_mem_cons.mp hw
    refine Posts.post hw (fun h => by cases h) ((ih hrest _).weaken fun t' p' _ h hf => ?_)
    obtain ⟨hp, htotal, hsent⟩ := h hf
    exact ⟨hp, htotal, (Sent.post _ t _).trans hsent⟩

theorem drainWindow_sent (fuel : ℕ) (p : Posting) :
    Posts (fun _ => W) (fun t' p' => p'.failed = false → p'.total = p.total ∧
      Sent t t' [] p.outstanding p'.outstanding) t (drainWindow fuel p) := by
  induction fuel generalizing t p with
  | zero => exact fun _ => ⟨rfl, .refl _ _⟩
  | succ fuel ih =>
    unfold drainWindow
    split
    next hwindow =>
      refine Posts.pollN (fun _ h => by cases h) ((ih _).weaken fun t' p' _ h hf => ?_)
      obtain ⟨htotal, hsent⟩ := h hf
      have hpos : 1 + (p.outstanding - 1) = p.outstanding := by
        have := hwindow.2
        unfold completionWindow at this
        omega
      exact ⟨htotal, (Sent.pollN t hpos).trans_nil hsent⟩
    next => exact fun _ => ⟨rfl, .refl _ _⟩

theorem reap_sent (p : Posting) :
    Posts (fun _ => W) (fun t' p' => p'.failed = false → p'.total = p.total ∧
      Sent t t' [] p.outstanding p'.outstanding) t (reap p) := by
  refine Posts.issue (c := .pollAvailable p.outstanding) (fun _ h => by cases h) fun r => ?_
  change Except ℕ (Fin (p.outstanding + 1)) at r
  cases r with
  | error _ => exact fun h => by cases h
  | ok n =>
    refine (drainWindow_sent _ _).weaken fun t' p' _ h hf => ?_
    obtain ⟨htotal, hsent⟩ := h hf
    have hle : n.val + (p.outstanding - n.val) = p.outstanding := by
      have := n.isLt
      omega
    exact ⟨htotal, (Sent.poll rfl rfl t hle).trans_nil hsent⟩

def pieceWrites (req : DescriptorGetReqMsg) (q : Piece) : List Write :=
  writesOf ((targets req q.object q.length).getD []) q.source

variable {req : DescriptorGetReqMsg}

theorem postForwarded_sent {f : Forwarded}
    (hw : ∀ q, f = .read q (some q.length) → ∀ w ∈ pieceWrites req q, W w) (p : Posting) :
    Posts (fun _ => W) (fun t' p' => p'.failed = false → p.failed = false ∧ ∃ q,
      f = .read q (some q.length) ∧ (targets req q.object q.length).isSome ∧
      p'.total = p.total + q.length ∧
      Sent t t' (pieceWrites req q) p.outstanding p'.outstanding) t (postForwarded req p f) := by
  cases f with
  | failed s => exact fun h => by cases h
  | read q bytes =>
    unfold postForwarded
    dsimp only
    split
    next hok =>
      have hw := hw q (by rw [hok.1])
      unfold pieceWrites at hw
      cases hts : targets req q.object q.length with
      | none => exact fun h => by cases h
      | some ts =>
        rw [hts] at hw
        refine (postTargets_sent hw p).bind fun t' p' _ h => ?_
        split
        next hfailed => exact fun h => by rw [hfailed] at h; cases h
        next hfailed =>
          obtain ⟨hp, htotal, hsent⟩ := h (by simpa using hfailed)
          refine (reap_sent _).weaken fun t'' p'' _ h hf => ?_
          obtain ⟨htotal', hsent'⟩ := h hf
          refine ⟨hp, q, by rw [hok.1], by rw [hts]; rfl, by rw [htotal', htotal], ?_⟩
          unfold pieceWrites
          rw [hts]
          exact hsent.trans_nil hsent'
    next => exact fun h => by cases h

theorem postAll_sent {fs : List Forwarded}
    (hw : ∀ q, Forwarded.read q (some q.length) ∈ fs → ∀ w ∈ pieceWrites req q, W w)
    (p : Posting) :
    Posts (fun _ => W) (fun t' p' => p'.failed = false → p.failed = false ∧ ∃ pieces : List Piece,
      fs = pieces.map (fun q => .read q (some q.length)) ∧
      (∀ q ∈ pieces, (targets req q.object q.length).isSome) ∧
      p'.total = p.total + (pieces.map Piece.length).sum ∧
      Sent t t' (pieces.flatMap (pieceWrites req)) p.outstanding p'.outstanding) t
      (postAll req fs p) := by
  induction fs generalizing t p with
  | nil => exact fun h => ⟨h, [], rfl, fun _ hq => (List.not_mem_nil hq).elim, rfl, .refl _ _⟩
  | cons f fs ih =>
    refine (postForwarded_sent (fun q hq => hw q (hq ▸ List.mem_cons_self)) p).bind
      fun t' p' _ h => ?_
    refine (ih (fun q hq => hw q (List.mem_cons_of_mem _ hq)) p').weaken
      fun t'' p'' _ hrest hf => ?_
    obtain ⟨hf', pieces, rfl, htargets, htotal, hsent⟩ := hrest hf
    obtain ⟨hp, q, rfl, htarget, htotal', hsent'⟩ := h hf'
    refine ⟨hp, q :: pieces, rfl, List.forall_mem_cons.mpr ⟨htarget, htargets⟩, ?_,
      hsent'.trans hsent⟩
    rw [htotal, htotal', List.map_cons, List.sum_cons, Nat.add_assoc]

def stagedWrite (req : DescriptorGetReqMsg) (q : Piece) : Write :=
  ⟨.staging q.source, req.dstAddr + UInt64.ofNat q.object, req.dstRkey, UInt32.ofNat q.length, true⟩

def Idle (t₀ t : History) (p : Posting) : Prop :=
  t₀ <:+ t ∧ (posted t = posted t₀ → p.outstanding = 0 ∧ Sent t₀ t [] 0 0)

variable {t₀ : History}

variable {p : Posting}

theorem Idle.of_post {t' : History} {w : Write} (hs : t₀ <:+ t)
    (hs' : (⟨.post w, true⟩ :: t : History) <:+ t') : Idle t₀ t' p := by
  refine ⟨hs.trans ((List.suffix_cons _ t).trans hs'), fun hsame => ?_⟩
  have hle := length_posted_le hs
  have hle' := length_posted_le hs'
  rw [posted_cons, List.length_append, hsame] at hle'
  change _ + 1 ≤ _ at hle'
  omega

theorem postStreamed_sent {f : Forwarded}
    (hw : ∀ q, f = .read q (some q.length) → W (stagedWrite req q)) (hidle : Idle t₀ t p) :
    Posts (fun _ => W) (fun t' p' => Idle t₀ t' p' ∧ (p'.failed = false → p.failed = false ∧ ∃ q,
      f = .read q (some q.length) ∧ p'.writesPosted = p.writesPosted + 1 ∧
      Sent t t' [stagedWrite req q] p.outstanding p'.outstanding)) t (postStreamed req p f) := by
  cases f with
  | failed s => exact ⟨hidle, fun h => by cases h⟩
  | read q bytes =>
    unfold postStreamed
    dsimp only
    split
    next hok =>
      refine Posts.post (hw q (by rw [hok.1])) ⟨⟨hidle.1.trans (List.suffix_cons _ t), ?_⟩,
        fun h => by cases h⟩ ?_
      · intro hsame
        rw [posted_cons] at hsame
        obtain ⟨hout, hsent⟩ := hidle.2 ((List.append_nil _).symm.trans hsame)
        exact ⟨hout, hsent.trans_nil (.quiet rfl rfl rfl t 0)⟩
      · have hsent := Sent.post (stagedWrite req q) t p.outstanding
        simp only [if_true]
        split
        · refine Posts.pollN (fun _ => ⟨.of_post hidle.1 (List.suffix_cons _ _),
            fun h => by cases h⟩) ⟨.of_post hidle.1 (List.suffix_cons _ _), fun _ => ?_⟩
          exact ⟨hok.2, q, by rw [hok.1], rfl, hsent.trans_nil (Sent.pollN _ rfl)⟩
        · exact ⟨.of_post hidle.1 (List.suffix_refl _), fun _ =>
            ⟨hok.2, q, by rw [hok.1], rfl, hsent⟩⟩
    next => exact ⟨hidle, fun h => by cases h⟩

theorem postStream_sent {fs : List Forwarded}
    (hw : ∀ q, Forwarded.read q (some q.length) ∈ fs → W (stagedWrite req q))
    (hidle : Idle t₀ t p) :
    Posts (fun _ => W) (fun t' p' => Idle t₀ t' p' ∧ (p'.failed = false → p.failed = false ∧
      ∃ pieces : List Piece, fs = pieces.map (fun q => .read q (some q.length)) ∧
      p'.writesPosted = p.writesPosted + pieces.length ∧
      Sent t t' (pieces.map (stagedWrite req)) p.outstanding p'.outstanding)) t
      (postStream req fs p) := by
  induction fs generalizing t p with
  | nil => exact ⟨hidle, fun h => ⟨h, [], rfl, rfl, .refl _ _⟩⟩
  | cons f fs ih =>
    refine (postStreamed_sent (fun q hq => hw q (hq ▸ List.mem_cons_self)) hidle).bind
      fun t' p' _ h => ?_
    refine (ih (fun q hq => hw q (List.mem_cons_of_mem _ hq)) h.1).weaken fun t'' p'' _ hrest =>
      ⟨hrest.1, fun hf => ?_⟩
    obtain ⟨hf', pieces, rfl, hcount, hsent⟩ := hrest.2 hf
    obtain ⟨hp, q, rfl, hcount', hsent'⟩ := h.2 hf'
    refine ⟨hp, q :: pieces, rfl, ?_, hsent'.trans hsent⟩
    rw [hcount, hcount', List.length_cons]
    omega

theorem drain_sent (p : Posting) :
    Posts (fun _ => W) (fun t' p' => (∀ t₀, Idle t₀ t p → Idle t₀ t' p') ∧
      (p'.failed = false → p' = p ∧ Sent t t' [] p.outstanding 0)) t (drain p) := by
  unfold drain
  split
  next hpos =>
    have hidle : ∀ (r : Except ℕ Unit) (p' : Posting) (t₀ : History), Idle t₀ t p →
        Idle t₀ (⟨.pollN p.outstanding, r⟩ :: t) p' := by
      refine fun r p' t₀ h => ⟨h.1.trans (List.suffix_cons _ t), fun hsame => ?_⟩
      rw [posted_cons] at hsame
      have := (h.2 ((List.append_nil _).symm.trans hsame)).1
      omega
    exact Posts.pollN (fun _ => ⟨hidle _ _, fun h => by cases h⟩)
      ⟨hidle _ _, fun _ => ⟨rfl, Sent.pollN t rfl⟩⟩
  next hpos =>
    obtain hzero : p.outstanding = 0 := by omega
    exact ⟨fun _ h => h, fun _ => ⟨rfl, by rw [hzero]; exact .refl _ _⟩⟩

theorem postWrites_sent {ws : List Write} (hw : ∀ w ∈ ws, W w) (owed : ℕ) :
    Posts (fun _ => W) (fun t' ok => ok = true →
      Sent t t' ws owed (owed + ws.countP (·.signaled))) t (postWrites ws) := by
  induction ws generalizing t owed with
  | nil => exact fun _ => .refl _ _
  | cons w ws ih =>
    obtain ⟨hw, hrest⟩ := List.forall_mem_cons.mp hw
    refine Posts.post hw (fun h => by cases h) ((ih hrest (owed + [w].countP (·.signaled))).weaken
      fun t' ok _ h hok => ?_)
    have := (Sent.post w t owed).trans (h hok)
    rwa [Nat.add_assoc, ← List.countP_append] at this

def registered (rkey : UInt32) : List (Source × UInt64 × ℕ) → List Write
  | [] => []
  | (source, dst, len) :: rest =>
    if len = 0 then registered rkey rest
    else ⟨source, dst, rkey, UInt32.ofNat len, rest.isEmpty⟩ :: registered rkey rest

theorem postRegistered_sent {rkey : UInt32} {writes : List (Source × UInt64 × ℕ)}
    (hw : ∀ w ∈ registered rkey writes, W w) (owed : ℕ) :
    Posts (fun _ => W) (fun t' ok => ok = true → Sent t t' (registered rkey writes) owed
      (owed + (registered rkey writes).countP (·.signaled))) t (postRegistered rkey writes) := by
  induction writes generalizing t owed with
  | nil => exact fun _ => .refl _ _
  | cons w writes ih =>
    obtain ⟨source, dst, len⟩ := w
    unfold postRegistered
    unfold registered at hw ⊢
    split
    next hzero =>
      rw [if_pos hzero] at hw
      exact ih hw owed
    next hpos =>
      rw [if_neg hpos] at hw
      obtain ⟨hw, hrest⟩ := List.forall_mem_cons.mp hw
      refine Posts.issue (c := .registerMr) (fun _ h => by cases h) fun (ok : Bool) => ?_
      cases ok with
      | false => exact fun h => by cases h
      | true =>
        generalize (⟨source, dst, rkey, UInt32.ofNat len, writes.isEmpty⟩ : Write) = w at hw ⊢
        refine Posts.post hw (fun h => by cases h) ((ih hrest (owed +
          [w].countP (·.signaled))).weaken fun t' ok _ h hok => ?_)
        have hquiet : Sent t (⟨.registerMr, true⟩ :: t) [] owed owed := .quiet rfl rfl rfl t owed
        have := (hquiet.trans (Sent.post w _ owed)).trans (h hok)
        rwa [Nat.add_assoc, ← List.countP_append] at this

theorem mem_registered {rkey : UInt32} {writes : List (Source × UInt64 × ℕ)} {w : Write}
    (h : w ∈ registered rkey writes) :
    ∃ x ∈ writes, ∃ signaled, w = ⟨x.1, x.2.1, rkey, UInt32.ofNat x.2.2, signaled⟩ := by
  induction writes with
  | nil => cases h
  | cons x writes ih =>
    unfold registered at h
    have hsplit : w = ⟨x.1, x.2.1, rkey, UInt32.ofNat x.2.2, writes.isEmpty⟩ ∨
        w ∈ registered rkey writes := by
      split at h
      · exact .inr h
      · exact List.mem_cons.mp h
    rcases hsplit with rfl | h
    · exact ⟨x, List.mem_cons_self, _, rfl⟩
    · obtain ⟨y, hy, hrest⟩ := ih h
      exact ⟨y, List.mem_cons_of_mem x hy, hrest⟩

end Loops

end ContextStore.Serve
