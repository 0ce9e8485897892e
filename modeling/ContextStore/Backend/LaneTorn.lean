import ContextStore.Backend.KvRuns
import ContextStore.Backend.LaneRoundtrip

/-!
# 並行な書き込みの間の読み出し
-/

namespace ContextStore

open Conc

namespace Kv

/-! ## 条件 -/

variable {cfg : KvConfig} {key layer : String} {P : KvRun → KvMove → Prop}

def KvOp.On (key layer : String) : KvOp → Prop
  | .putChunks k l _ => k = key ∧ l = layer
  | .getChunks k l => k = key ∧ l = layer
  | .probe _ _ => False

/-- `put_chunks` か。 -/
def KvOp.isPut : KvOp → Bool
  | .putChunks _ _ _ => true
  | _ => false

def PutBy (c : KvRun) (key layer : String) (content : Bytes) : Prop :=
  ∃ th ∈ c.threads, ∃ segments, th.label = .putChunks key layer segments ∧
    segments.flatten = content

def PutSome (c : KvRun) (key layer : String) (p : List Bytes → Prop) : Prop :=
  ∃ th ∈ c.threads, ∃ segments, th.label = .putChunks key layer segments ∧ p segments

def Continues (ths ths' : List KvThread) : Prop :=
  ∀ th ∈ ths, ∃ th' ∈ ths', th'.label = th.label

theorem PutSome.mono {c c' : KvRun} {p q : List Bytes → Prop} (h : PutSome c key layer p)
    (hlabel : Continues c.threads c'.threads) (hpq : ∀ segments, p segments → q segments) :
    PutSome c' key layer q := by
  obtain ⟨th, hth, segments, hl, hc⟩ := h
  obtain ⟨th', hth', hl'⟩ := hlabel th hth
  exact ⟨th', hth', segments, hl'.trans hl, hpq segments hc⟩

theorem PutBy.mono {c c' : KvRun} {content : Bytes} (h : PutBy c key layer content)
    (hlabel : Continues c.threads c'.threads) : PutBy c' key layer content :=
  PutSome.mono h hlabel fun _ h => h

structure Serial (cfg : KvConfig) (c : KvRun) : Prop where
  before : ∀ (i j : Nat) th th' key layer, i < j → c.threads[i]? = some th →
    c.threads[j]? = some th' → th.label.On key layer → th'.label.On key layer →
    (th.label.isPut = true ∨ th'.label.isPut = true) → th.finished = true
  long : ∀ th ∈ c.threads, ∀ key layer segments, th.label = .putChunks key layer segments →
    ∀ i < cfg.parallel, Carries cfg segments i → laneBytes cfg segments i ≠ [0]

theorem Serial.set {c : KvRun} (h : Serial cfg c) {i : Nat} {th th' : KvThread} {w : KvWorld}
    {log : List (Entry KvCmd KvCmd.Resp Unit)} (hth : c.threads[i]? = some th)
    (hlabel : th'.label = th.label) (hfin : th.finished = true → th'.finished = true) :
    Serial cfg ⟨w, c.threads.set i th', log⟩ := by
  have hold : ∀ (j : Nat) th₁, (c.threads.set i th')[j]? = some th₁ → ∃ th₀,
      c.threads[j]? = some th₀ ∧ th₀.label = th₁.label ∧
        (th₀.finished = true → th₁.finished = true) := by
    grind
  refine ⟨?_, ?_⟩
  · intro j j' th₁ th₂ key layer hlt hth₁ hth₂ hon hon' hput
    obtain ⟨th₁', hth₁', hl₁, hf₁⟩ := hold j th₁ hth₁
    obtain ⟨th₂', hth₂', hl₂, -⟩ := hold j' th₂ hth₂
    grind [before]
  · intro th₁ hmem key layer segments hl
    obtain ⟨j, hj⟩ := List.mem_iff_getElem?.mp hmem
    obtain ⟨th₀, hth₀, hl₀, -⟩ := hold j th₁ hj
    exact h.long th₀ (List.mem_of_getElem? hth₀) key layer segments (hl₀.trans hl)

structure ReadingOk (cfg : KvConfig) (c : KvRun) (key layer : String) (t : KvHist) : Prop where
  settled : (∀ i < cfg.parallel, c.world.objects (cfg.laneKey key layer i) = none) ∨
    ∃ th ∈ c.threads, ∃ segments, th.label = .putChunks key layer segments ∧
      Stored cfg key layer segments c.world.objects
  agrees : ∀ okey cs, (⟨.getStream okey, .ok (some cs)⟩ : Event KvCmd KvCmd.Resp) ∈ t →
    (c.world.objects okey).map KvObject.content = some cs.flatten
  plain : ∀ okey cs, (⟨.getStream okey, .ok (some cs)⟩ : Event KvCmd KvCmd.Resp) ∈ t →
    [0] ∈ cs → cs.flatten = [0]

theorem ReadingOk.frame {c c' : KvRun} {t : KvHist} (h : ReadingOk cfg c key layer t)
    (hreads : ∀ e ∈ t, ReadsLanes cfg key layer e.1)
    (hlabel : Continues c.threads c'.threads)
    (heq : ∀ i < cfg.parallel, c'.world.objects (cfg.laneKey key layer i) =
      c.world.objects (cfg.laneKey key layer i)) : ReadingOk cfg c' key layer t := by
  refine ⟨?_, fun okey cs hmem => ?_, h.plain⟩
  · rcases h.settled with hnone | ⟨th, hth, segments, hl, hstored⟩
    · exact .inl fun i hi => (heq i hi).trans (hnone i hi)
    · obtain ⟨th', hth', hl'⟩ := hlabel th hth
      refine .inr ⟨th', hth', segments, hl'.trans hl, fun i hi => ?_⟩
      rw [heq i hi]
      exact hstored i hi
  · obtain ⟨i, hi, rfl⟩ := (hreads _ hmem).2.2 okey rfl
    rw [heq i hi]
    exact h.agrees _ cs hmem

def Reading (cfg : KvConfig) (c : KvRun) : Prop :=
  ∀ (g : Nat) th key layer, c.threads[g]? = some th → th.label = .getChunks key layer →
    (th.finished = false → ReadingOk cfg c key layer th.trace) ∧
    (th.finished = true → ∀ chunks, th.prog = .ret (.loaded (.ok (some chunks))) →
      PutBy c key layer chunks.flatten)

def loads (g : Nat) (chunks : List Bytes) (c : KvRun) : Bool :=
  match c.threads[g]? with
  | some ⟨.getChunks "k" "l", .ret (.loaded (.ok (some cs))), _, _⟩ => cs == chunks
  | _ => false

end Kv

end ContextStore
