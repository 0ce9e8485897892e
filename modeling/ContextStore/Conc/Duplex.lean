import ContextStore.Codec.Reader
import ContextStore.Conc.Prog
import ContextStore.Conc.Transition

/-!
# 1 本の接続でつながる 2 つの program

client は呼び出しを 1 つずつ走らせ、server は同じ処理を繰り返す。
-/

namespace Conc

namespace Duplex

/-! ## 片側 -/

section Peers

variable {ε M A α : Type} {Ans : A → Type}

/-- 命令。 -/
inductive Port (ε M A : Type) where
  | send (bytes : List UInt8)
  | recv (d : Codec.Reader ε M)
  | ask (a : A)

def Port.Resp (Ans : A → Type) : Port ε M A → Type
  | .send _ => Except Unit Unit
  | .recv _ => Except Unit M
  | .ask a => Ans a

abbrev Peer (ε M A : Type) (Ans : A → Type) (α : Type) := Prog (Port ε M A) (Port.Resp Ans) α

namespace Peer

def send (bytes : List UInt8) : Peer ε M A Ans (Except Unit Unit) :=
  Prog.issue (R := Port.Resp Ans) (.send bytes)

def recv (d : Codec.Reader ε M) : Peer ε M A Ans (Except Unit M) :=
  Prog.issue (R := Port.Resp Ans) (.recv d)

def ask (a : A) : Peer ε M A Ans (Ans a) := Prog.issue (R := Port.Resp Ans) (.ask a)

def step (starved : ε → Bool) (live : Bool) (answer : (a : A) → Ans a) (inbox : List UInt8) :
    Peer ε M A Ans α → Option (Peer ε M A Ans α × List UInt8 × List UInt8)
  | .ret _ => none
  | .cmd (.send bytes) k => some (k (.ok ()), inbox, bytes)
  | .cmd (.recv d) k =>
    match d.run inbox with
    | .ok (m, rest) => some (k (.ok m), rest, [])
    | .error e => if starved e && live then none else some (k (.error ()), inbox, [])
  | .cmd (.ask a) k => some (k (answer a), inbox, [])

def stepCut (answer : (a : A) → Ans a) : Peer ε M A Ans α → Option (Peer ε M A Ans α)
  | .ret _ => none
  | .cmd (.send _) k => some (k (.error ()))
  | .cmd (.recv _) k => some (k (.error ()))
  | .cmd (.ask a) k => some (k (answer a))

end Peer

end Peers

/-! ## 接続 -/

variable {ε M N A B κ α : Type} {Ans : A → Type} {Bns : B → Type}

/-- 接続の状態。 -/
structure Link (ε M N A B : Type) (Ans : A → Type) (Bns : B → Type) (α : Type) where
  client : Option (Peer ε M A Ans α)
  last : Option α
  server : Option (Peer ε N B Bns Bool)
  toServer : List UInt8
  toClient : List UInt8
  cut : Bool

def Link.settle (s : Link ε M N A B Ans Bns α) : Peer ε M A Ans α → Link ε M N A B Ans Bns α
  | .ret a => { s with client := none, last := some a }
  | .cmd m k => { s with client := some (.cmd m k), last := none }

@[simp] theorem Link.settle_cut (s : Link ε M N A B Ans Bns α) (c : Peer ε M A Ans α) :
    (s.settle c).cut = s.cut := by
  cases c <;> rfl

/-- 1 手。 -/
inductive LinkStep (A B : Type) (Ans : A → Type) (Bns : B → Type) (κ : Type) where
  | start (call : κ)
  | client (answer : (a : A) → Ans a)
  | server (answer : (b : B) → Bns b)
  | cut

structure Setup (ε M N A B : Type) (Ans : A → Type) (Bns : B → Type) (κ α : Type) where
  starved : ε → Bool
  head : Peer ε N B Bns Bool
  prog : κ → Peer ε M A Ans α

namespace Setup

variable (U : Setup ε M N A B Ans Bns κ α)

def next : Peer ε N B Bns Bool → Option (Peer ε N B Bns Bool)
  | .ret true => some U.head
  | .ret false => none
  | .cmd m k => some (.cmd m k)

def idle : Link ε M N A B Ans Bns α := ⟨none, none, some U.head, [], [], false⟩

def step (s : Link ε M N A B Ans Bns α) :
    LinkStep A B Ans Bns κ → Option (Link ε M N A B Ans Bns α)
  | .start call =>
    match s.client with
    | some _ => none
    | none => some (s.settle (U.prog call))
  | .client answer =>
    match s.client with
    | none => none
    | some c =>
      if s.cut then (c.stepCut answer).map s.settle
      else (c.step U.starved s.server.isSome answer s.toClient).map fun (c', rest, sent) =>
        { s with toClient := rest, toServer := s.toServer ++ sent }.settle c'
  | .server answer =>
    match s.server with
    | none => none
    | some t =>
      if s.cut then some { s with server := none }
      else (t.step U.starved true answer s.toServer).map fun (t', rest, sent) =>
        { s with server := U.next t', toServer := rest, toClient := s.toClient ++ sent }
  | .cut => some { s with cut := true }

def system : Transition (Link ε M N A B Ans Bns α) (LinkStep A B Ans Bns κ) := ⟨U.idle, U.step⟩

/-! ## 歩調 -/

def Blocked (t : Peer ε N B Bns Bool) (inbox : List UInt8) : Prop :=
  ∀ answer, t.step U.starved true answer inbox = none

inductive Settles (lost : α → Option (Peer ε N B Bns Bool) → List UInt8 → List UInt8 → Prop)
    (ok : Peer ε N B Bns Bool → ((b : B) → Bns b) → Prop) :
    Peer ε M A Ans α → Option (Peer ε N B Bns Bool) → List UInt8 → List UInt8 → Prop where
  | lost {a : α} {s : Option (Peer ε N B Bns Bool)} {p q : List UInt8} (h : lost a s p q) :
      Settles lost ok (.ret a) s p q
  | mk {c : Peer ε M A Ans α} {s : Option (Peer ε N B Bns Bool)} {p q : List UInt8}
      (hret : ∀ a, c = .ret a → s = some U.head ∧ p = [] ∧ q = [])
      (hclient : ∀ answer c' rest sent, c.step U.starved s.isSome answer q = some (c', rest, sent) →
        Settles lost ok c' s (p ++ sent) rest)
      (hserver : ∀ t answer t' rest sent, s = some t → ok t answer →
        t.step U.starved true answer p = some (t', rest, sent) →
        Settles lost ok c (U.next t') rest (q ++ sent)) :
      Settles lost ok c s p q

variable {U} {lost : α → Option (Peer ε N B Bns Bool) → List UInt8 → List UInt8 → Prop}
  {ok : Peer ε N B Bns Bool → ((b : B) → Bns b) → Prop}
  {s : Option (Peer ε N B Bns Bool)} {t : Peer ε N B Bns Bool} {p q : List UInt8}

namespace Settles

theorem ret (hb : U.Blocked U.head []) (a : α) :
    Settles U lost ok (.ret a : Peer ε M A Ans α) (some U.head) [] [] := by
  refine .mk (fun _ _ => ⟨rfl, rfl, rfl⟩) nofun fun t answer t' rest sent ht _ hstep => ?_
  cases ht
  rw [hb answer] at hstep
  cases hstep

theorem send (hb : ∀ t, s = some t → U.Blocked t p) {bytes : List UInt8}
    {k : Except Unit Unit → Peer ε M A Ans α}
    (h : Settles U lost ok (k (.ok ())) s (p ++ bytes) q) :
    Settles U lost ok (.cmd (.send bytes) k) s p q := by
  refine .mk nofun (fun answer c' rest sent hstep => ?_) fun t answer t' rest sent ht _ hstep => ?_
  · cases hstep
    exact h
  · rw [hb t ht answer] at hstep
    cases hstep

theorem ask (hb : U.Blocked t p) {a : A} {k : Ans a → Peer ε M A Ans α}
    (h : ∀ r, Settles U lost ok (k r) (some t) p q) :
    Settles U lost ok (.cmd (.ask a) k) (some t) p q := by
  refine .mk nofun (fun answer c' rest sent hstep => ?_) fun t₁ answer t' rest sent ht _ hstep => ?_
  · cases hstep
    rw [List.append_nil]
    exact h _
  · cases ht
    rw [hb answer] at hstep
    cases hstep

variable {d : Codec.Reader ε M} {k : Except Unit M → Peer ε M A Ans α}

theorem recv (hb : U.Blocked t p) {r : List UInt8} {m : M} (hd : d.run r = .ok (m, q))
    (h : Settles U lost ok (k (.ok m)) (some t) p q) :
    Settles U lost ok (.cmd (.recv d) k) (some t) p r := by
  refine .mk nofun (fun answer c' rest sent hstep => ?_) fun t₁ answer t' rest sent ht _ hstep => ?_
  · simp only [Peer.step, hd] at hstep
    cases hstep
    rw [List.append_nil]
    exact h
  · cases ht
    rw [hb answer] at hstep
    cases hstep

def Starves (U : Setup ε M N A B Ans Bns κ α) (d : Codec.Reader ε M) (q : List UInt8) : Prop :=
  ∃ e, d.run q = .error e ∧ U.starved e = true

theorem step_of_starves (hd : Starves U d q) (answer : (a : A) → Ans a) :
    Peer.step U.starved true answer q (.cmd (.recv d) k) = none := by
  obtain ⟨e, he, hstarved⟩ := hd
  simp [Peer.step, he, hstarved]

theorem serverRecv (hd : Starves U d q) {d' : Codec.Reader ε N}
    {l : Except Unit N → Peer ε N B Bns Bool} {r : List UInt8} {m : N}
    (hd' : d'.run r = .ok (m, p))
    (h : Settles U lost ok (.cmd (.recv d) k) (U.next (l (.ok m))) p q) :
    Settles U lost ok (.cmd (.recv d) k) (some (.cmd (.recv d') l)) r q := by
  refine .mk nofun (fun answer c' rest sent hstep => ?_) fun t₁ answer t' rest sent ht _ hstep => ?_
  · rw [Option.isSome_some, step_of_starves hd answer] at hstep
    cases hstep
  · cases ht
    simp only [Peer.step, hd'] at hstep
    cases hstep
    rw [List.append_nil]
    exact h

theorem serverAsk (hd : Starves U d q) {b : B} {l : Bns b → Peer ε N B Bns Bool}
    (h : ∀ answer, ok (.cmd (.ask b) l) answer →
      Settles U lost ok (.cmd (.recv d) k) (U.next (l (answer b))) p q) :
    Settles U lost ok (.cmd (.recv d) k) (some (.cmd (.ask b) l)) p q := by
  refine .mk nofun (fun answer c' rest sent hstep => ?_)
    fun t₁ answer t' rest sent ht hok hstep => ?_
  · rw [Option.isSome_some, step_of_starves hd answer] at hstep
    cases hstep
  · cases ht
    cases hstep
    rw [List.append_nil]
    exact h answer hok

theorem serverSend (hd : Starves U d q) {bytes : List UInt8}
    {l : Except Unit Unit → Peer ε N B Bns Bool}
    (h : Settles U lost ok (.cmd (.recv d) k) (U.next (l (.ok ()))) p (q ++ bytes)) :
    Settles U lost ok (.cmd (.recv d) k) (some (.cmd (.send bytes) l)) p q := by
  refine .mk nofun (fun answer c' rest sent hstep => ?_) fun t₁ answer t' rest sent ht _ hstep => ?_
  · rw [Option.isSome_some, step_of_starves hd answer] at hstep
    cases hstep
  · cases ht
    cases hstep
    exact h

theorem race {bytes r : List UInt8} {m : M} (hd : d.run r = .ok (m, q))
    {l : Except Unit Unit → Peer ε N B Bns Bool}
    (hread : Settles U lost ok (k (.ok m)) (some (.cmd (.send bytes) l)) p q)
    (hsend : Settles U lost ok (.cmd (.recv d) k) (U.next (l (.ok ()))) p (r ++ bytes)) :
    Settles U lost ok (.cmd (.recv d) k) (some (.cmd (.send bytes) l)) p r := by
  refine .mk nofun (fun answer c' rest sent hstep => ?_) fun t₁ answer t' rest sent ht _ hstep => ?_
  · simp only [Peer.step, hd] at hstep
    cases hstep
    rw [List.append_nil]
    exact hread
  · cases ht
    cases hstep
    exact hsend

theorem closed (hd : Starves U d q) (h : Settles U lost ok (k (.error ())) none p q) :
    Settles U lost ok (.cmd (.recv d) k) none p q := by
  obtain ⟨e, he, hstarved⟩ := hd
  refine .mk nofun (fun answer c' rest sent hstep => ?_) nofun
  simp only [Peer.step, he, Option.isSome_none, Bool.and_false, Bool.false_eq_true, if_false]
    at hstep
  cases hstep
  rw [List.append_nil]
  exact h

end Settles

def Settled (U : Setup ε M N A B Ans Bns κ α)
    (lost : α → Option (Peer ε N B Bns Bool) → List UInt8 → List UInt8 → Prop)
    (ok : Peer ε N B Bns Bool → ((b : B) → Bns b) → Prop) (s : Link ε M N A B Ans Bns α) : Prop :=
  match s.client with
  | some c => Settles U lost ok c s.server s.toServer s.toClient
  | none => (∃ a, s.last = some a ∧ lost a s.server s.toServer s.toClient) ∨
      (s.server = some U.head ∧ s.toServer = [] ∧ s.toClient = [])

theorem settled_settle {s : Link ε M N A B Ans Bns α} {c : Peer ε M A Ans α}
    (h : Settles U lost ok c s.server s.toServer s.toClient) : U.Settled lost ok (s.settle c) := by
  cases c with
  | ret a =>
    cases h with
    | lost hlost => exact .inl ⟨a, rfl, hlost⟩
    | mk hret _ _ => exact .inr (hret a rfl)
  | cmd m k => exact h

def Lockstep (calls : Option α → κ → Prop) (ok : Peer ε N B Bns Bool → ((b : B) → Bns b) → Prop)
    (s : Link ε M N A B Ans Bns α) : LinkStep A B Ans Bns κ → Prop
  | .start call => calls s.last call
  | .server answer => ∀ t, s.server = some t → ok t answer
  | _ => True

section Runs

variable {calls : Option α → κ → Prop} {s s' : Link ε M N A B Ans Bns α}

theorem settled_start
    (hhead : ∀ last call, calls last call → Settles U lost ok (U.prog call) (some U.head) [] [])
    (hlost : ∀ a call s p q, calls (some a) call → lost a s p q →
      Settles U lost ok (U.prog call) s p q)
    {call : κ} (hcall : calls s.last call) (hidle : s.client = none) (h : U.Settled lost ok s) :
    U.Settled lost ok (s.settle (U.prog call)) := by
  refine settled_settle ?_
  simp only [Settled, hidle] at h
  grind

theorem settled_client {answer : (a : A) → Ans a} {c c' : Peer ε M A Ans α}
    {rest sent : List UInt8} (hc : s.client = some c) (h : U.Settled lost ok s)
    (hstep : c.step U.starved s.server.isSome answer s.toClient = some (c', rest, sent)) :
    U.Settled lost ok
      ({ s with toClient := rest, toServer := s.toServer ++ sent }.settle c') := by
  refine settled_settle ?_
  simp only [Settled, hc] at h
  cases h with
  | lost hlost => cases hstep
  | mk _ hclient _ => exact hclient answer c' rest sent hstep

theorem settled_server (hb : U.Blocked U.head [])
    (hquiet : ∀ a t p q, lost a (some t) p q → U.Blocked t p)
    {answer : (b : B) → Bns b} {t t' : Peer ε N B Bns Bool} {rest sent : List UInt8}
    (ht : s.server = some t) (hok : ok t answer) (h : U.Settled lost ok s)
    (hstep : t.step U.starved true answer s.toServer = some (t', rest, sent)) :
    U.Settled lost ok
      { s with server := U.next t', toServer := rest, toClient := s.toClient ++ sent } := by
  unfold Settled at h ⊢
  dsimp only
  cases hc : s.client with
  | some c =>
    simp only [hc] at h
    cases h with
    | lost hlost =>
      rw [ht] at hlost
      rw [hquiet _ t _ _ hlost answer] at hstep
      cases hstep
    | mk _ _ hserver => exact hserver t answer t' rest sent ht hok hstep
  | none =>
    simp only [hc] at h
    rcases h with ⟨a, -, hlost⟩ | ⟨hserver, hp, -⟩
    · rw [ht] at hlost
      rw [hquiet a t _ _ hlost answer] at hstep
      cases hstep
    · cases ht.symm.trans hserver
      rw [hp, hb answer] at hstep
      cases hstep

theorem reach_settled (hb : U.Blocked U.head [])
    (hquiet : ∀ a t p q, lost a (some t) p q → U.Blocked t p)
    (hhead : ∀ last call, calls last call → Settles U lost ok (U.prog call) (some U.head) [] [])
    (hlost : ∀ a call s p q, calls (some a) call → lost a s p q →
      Settles U lost ok (U.prog call) s p q)
    (h : U.system.Reach (Lockstep calls ok) s) : s.cut = true ∨ U.Settled lost ok s := by
  refine h.invariant (I := fun s => s.cut = true ∨ U.Settled lost ok s) ?_ ?_
  · exact .inr (.inr ⟨rfl, rfl, rfl⟩)
  intro s e s' _ hP ih hs
  cases e with
  | start call =>
    simp only [system, step] at hs
    split at hs
    · cases hs
    next hidle =>
      cases hs
      rw [Link.settle_cut]
      exact ih.imp_right (settled_start hhead hlost hP hidle)
  | client answer =>
    simp only [system, step] at hs
    split at hs
    · cases hs
    next c hc =>
      split at hs
      next hcut =>
        obtain ⟨c', -, rfl⟩ := Option.map_eq_some_iff.mp hs
        exact .inl ((s.settle_cut c').trans hcut)
      next hcut =>
        obtain ⟨⟨c', rest, sent⟩, hstep, rfl⟩ := Option.map_eq_some_iff.mp hs
        exact .inr (settled_client hc (ih.resolve_left hcut) hstep)
  | server answer =>
    simp only [system, step] at hs
    split at hs
    · cases hs
    next t ht =>
      split at hs
      next hcut =>
        cases hs
        exact .inl hcut
      next hcut =>
        obtain ⟨⟨t', rest, sent⟩, hstep, rfl⟩ := Option.map_eq_some_iff.mp hs
        exact .inr (settled_server hb hquiet ht (hP t ht) (ih.resolve_left hcut) hstep)
  | cut =>
    cases hs
    exact .inl rfl

end Runs

end Setup

end Duplex

end Conc
