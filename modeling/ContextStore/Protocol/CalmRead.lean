import ContextStore.Util.KeyedFold
import ContextStore.Cluster.Run

/-!
# 一括の読み出しと 1 つずつの読み出し
-/

namespace Conc

variable {C : Type} {R : C → Type} {α ι σ : Type}

theorem map_insertIdx_eraseIdx {β : Type} (g : ι → β) : ∀ (xs : List ι) (j : ℕ)
    (h : j < xs.length), ((xs.eraseIdx j).map g).insertIdx j (g xs[j]) = xs.map g
  | x :: xs, 0, _ => rfl
  | x :: xs, j + 1, h => by
    simp_all [map_insertIdx_eraseIdx]

theorem joinAll_run {exec : (c : C) → σ → Option (σ × R c)} {pick : ℕ → Prog C R ℕ}
    {f : ι → Prog C R α} {g : ι → α} {s : σ} (hpick : ∀ k, ∃ j, (pick k).run exec s = some (s, j))
    (hf : ∀ x, (f x).run exec s = some (s, g x)) (xs : List ι) :
    (joinAll pick (xs.map f)).run exec s = some (s, xs.map g) := by
  unfold joinAll
  rw [List.length_map]
  generalize hn : xs.length = k
  induction k generalizing xs with
  | zero =>
    obtain rfl := List.length_eq_zero_iff.mp hn
    rfl
  | succ k ih =>
    obtain ⟨i, hi⟩ := hpick (xs.map f).length
    rw [joinAllAux, Prog.run_bind_of_run hi]
    have hlt : i % (xs.map f).length < xs.length := by
      rw [List.length_map]
      exact Nat.mod_lt _ (by omega)
    generalize i % (xs.map f).length = j at hlt
    rw [List.getElem?_map, List.getElem?_eq_getElem hlt, List.eraseIdx_map]
    have hrest := ih (xs.eraseIdx j) (by rw [List.length_eraseIdx_of_lt hlt]; omega)
    have hlast := map_insertIdx_eraseIdx g xs j hlt
    show ((f xs[j]) >>= _).run exec s = _
    rw [Prog.run_bind_of_run (hf _), Prog.run_bind_of_run hrest, hlast]
    rfl

end Conc

namespace ContextStore

open Conc

variable {ν : Type}

def driven [DecidableEq ν] (E : Env ν) (answer : World ν → Cmd ν → Choice) (c : Cmd ν)
    (w : World ν) : Option (World ν × c.Resp) := exec E c (answer w c) w

structure Calm (φ : Cmd ν → Option String) (answer : World ν → Cmd ν → Choice) : Prop where
  now : ∀ w, answer w .now = .ok
  redis : ∀ w c, answer w (.redis c) = .ok
  lock : ∀ w n cls k, answer w (.lock n cls k) = .ok
  unlock : ∀ w n cls k, answer w (.unlock n cls k) = .ok
  exists_ : ∀ w n p, answer w (.fileExists n p) = (φ (.fileExists n p)).elim .ok .fail
  read : ∀ w n p, answer w (.readFile n p) = (φ (.readFile n p)).elim .ok .fail
  pick : ∀ w k, ∃ i, answer w (.pick k) = .num i

def outcome (φ : Cmd ν → Option String) (disk : ν → String → Option Bytes) (n : ν)
    (p : String) : Except IoError Bytes :=
  match φ (.readFile n p) with
  | none => readWhole (disk n p)
  | some msg => .error ⟨false, msg⟩

section Concludes

variable [DecidableEq ν] {E : Env ν} {φ : Cmd ν → Option String} {n : ν} {w : World ν}
  {α β ε : Type}

def Concludes (E : Env ν) (φ : Cmd ν → Option String) (w : World ν) (p : Io ν α) : Prop :=
  ∃ w' a, (∀ answer, Calm φ answer → p.run (driven E answer) w = some (w', a)) ∧
    w'.disk = w.disk ∧ w'.held = w.held

namespace Concludes

theorem ret {a : α} : Concludes E φ w (.ret a) := ⟨w, a, fun _ _ => rfl, rfl, rfl⟩

theorem bind {p : Io ν α} {f : α → Io ν β} (h : Concludes E φ w p)
    (hf : ∀ (w' : World ν) a, w'.disk = w.disk → w'.held = w.held → Concludes E φ w' (f a)) :
    Concludes E φ w (p >>= f) := by
  obtain ⟨w₁, a, hrun, hd, hh⟩ := h
  obtain ⟨w₂, b, hrun', hd', hh'⟩ := hf w₁ a hd hh
  refine ⟨w₂, b, fun answer hc => ?_, hd'.trans hd, hh'.trans hh⟩
  rw [Prog.run_bind_of_run (hrun answer hc), hrun' answer hc]

theorem exceptBind {x : ExceptT ε (Io ν) α} {f : α → ExceptT ε (Io ν) β}
    (h : Concludes E φ w x.run) (hf : ∀ (w' : World ν) a, w'.disk = w.disk → w'.held = w.held →
      Concludes E φ w' (f a).run) : Concludes E φ w (x >>= f).run := by
  refine bind h fun w' r hd hh => ?_
  cases r with
  | error e => exact ret
  | ok a => exact hf w' a hd hh

theorem lift {p : Io ν α} (h : Concludes E φ w p) :
    Concludes E φ w (ExceptT.lift p : ExceptT ε (Io ν) α).run := bind h fun _ _ _ _ => ret

theorem issue {c : Cmd ν} {w' : World ν} {r : c.Resp}
    (h : ∀ answer, Calm φ answer → driven E answer c w = some (w', r))
    (hd : w'.disk = w.disk) (hh : w'.held = w.held) :
    Concludes E φ w (ContextStore.issue c) := by
  refine ⟨w', r, fun answer hc => ?_, hd, hh⟩
  simp only [ContextStore.issue, Prog.issue, Prog.run, h answer hc]

end Concludes

/-! ## 命令 -/

theorem concludes_now : Concludes E φ w timestamp.run :=
  .lift (.issue (fun answer hc => by rw [driven, hc.now]; rfl) rfl rfl)

theorem concludes_send {op : String} {c : RedisCmd} :
    Concludes E φ w (Metadata.runWithReconnect op (sendRedis c)).run := by
  refine ⟨{ w with redis := (w.redis.apply E.ext c).1 }, .ok (w.redis.apply E.ext c).2,
    fun answer hc => ?_, rfl, rfl⟩
  have hsend : (sendRedis c).run (driven E answer) w =
      some ({ w with redis := (w.redis.apply E.ext c).1 }, .ok (w.redis.apply E.ext c).2) := by
    simp only [sendRedis, issue, Prog.issue, Prog.run, driven, hc.redis, exec]
  unfold Metadata.runWithReconnect
  refine (Prog.run_bind_of_run (a := .ok (.ok (w.redis.apply E.ext c).2)) ?_ _).trans rfl
  exact (Prog.run_bind_of_run hsend _).trans rfl

theorem concludes_fileExists {p : String} : Concludes E φ w (fileExists n p) := by
  cases hf : φ (.fileExists n p) with
  | none => exact .issue (fun answer hc => by rw [driven, hc.exists_, hf]; rfl) rfl rfl
  | some msg => exact .issue (fun answer hc => by rw [driven, hc.exists_, hf]; rfl) rfl rfl

theorem run_readFile {answer : World ν → Cmd ν → Choice} (hc : Calm φ answer) (p : String) :
    (readFile n p).run (driven E answer) w = some (w, outcome φ w.disk n p) := by
  simp only [readFile, issue, Prog.issue, Prog.run, driven, hc.read, outcome]
  cases φ (.readFile n p) <;> rfl

theorem run_readBatch {answer : World ν → Cmd ν → Choice} (hc : Calm φ answer)
    (paths : List String) : (readBatch n paths).run (driven E answer) w =
      some (w, paths.map (outcome φ w.disk n)) := by
  refine joinAll_run (fun k => ?_) (fun p => run_readFile hc p) paths
  obtain ⟨i, hi⟩ := hc.pick w k
  refine ⟨i, ?_⟩
  simp only [pickNext, issue, Prog.issue, Prog.run, driven, hi, exec]

theorem concludes_withLock {cls : LockClass} {k : String} {body : ExceptT ε (Io ν) α}
    (hfree : w.held n cls k = false)
    (h : ∀ w' : World ν, Concludes E φ w' body.run) :
    Concludes E φ w (withLock n cls k body).run := by
  obtain ⟨w₁, r, hrun, hd, hh⟩ := h { w with held := setLock w.held n cls k true }
  refine ⟨{ w₁ with held := setLock w₁.held n cls k false }, r, fun answer hc => ?_, hd, ?_⟩
  · have hlock : (issue (.lock n cls k)).run (driven E answer) w =
        some ({ w with held := setLock w.held n cls k true }, ()) := by
      simp [issue, Prog.issue, Prog.run, driven, hc.lock, exec, hfree]
    have hunlock : (issue (.unlock n cls k)).run (driven E answer) w₁ =
        some ({ w₁ with held := setLock w₁.held n cls k false }, ()) := by
      simp only [issue, Prog.issue, Prog.run, driven, hc.unlock, exec]
    show (issue (.lock n cls k) >>= fun _ => body.run >>= fun r =>
      issue (.unlock n cls k) >>= fun _ => pure r).run (driven E answer) w = _
    rw [Prog.run_bind_of_run hlock, Prog.run_bind_of_run (hrun answer hc),
      Prog.run_bind_of_run hunlock]
    rfl
  · show setLock w₁.held n cls k false = w.held
    rw [hh]
    exact setLock_setLock hfree

namespace Storage

variable {key : ObjectKey} {m : BlockMeta}

theorem concludes_isExpired : Concludes E φ w (isExpired (ν := ν) m).run :=
  concludes_now.exceptBind fun _ _ _ _ => .ret

theorem concludes_purgeIfExpired (hfree : w.held n .storage key.toStringKey = false) :
    Concludes E φ w (purgeIfExpired E n key m).run := by
  refine concludes_isExpired.exceptBind fun w₁ expired _ hh => ?_
  cases expired with
  | false => exact .ret
  | true =>
    refine concludes_withLock (by rw [hh]; exact hfree) fun w₂ => ?_
    refine concludes_send.exceptBind fun w₃ current _ _ => ?_
    cases current with
    | none => exact .ret
    | some current =>
      refine concludes_isExpired.exceptBind fun w₄ still _ _ => ?_
      split
      · exact .ret
      · exact (concludes_now.exceptBind fun _ _ _ _ => .ret).exceptBind fun _ _ _ _ =>
          concludes_send

theorem concludes_readStriped {stripe : StripingInfo} :
    Concludes E φ w (readStriped E n stripe).run := by
  have hbatch : Concludes E φ w (readBatch n stripe.chunkPaths) :=
    ⟨w, _, fun answer hc => run_readBatch hc _, rfl, rfl⟩
  exact (hbatch.lift.exceptBind fun _ _ _ _ => .ret).exceptBind fun _ _ _ _ => .ret

theorem concludes_orPurgeMissing {read : Res ν α} (h : Concludes E φ w read.run) :
    Concludes E φ w (orPurgeMissing key m read).run := by
  refine Concludes.exceptBind (h.bind fun _ _ _ _ => .ret) fun w₁ r _ _ => ?_
  split
  · exact .ret
  · exact concludes_send.exceptBind fun _ _ _ _ => .ret
  · exact .ret

theorem concludes_batchSlot (hfree : w.held n .storage key.toStringKey = false) :
    Concludes E φ w (batchSlot E n key).run := by
  refine concludes_send.exceptBind fun w₁ found _ hh => ?_
  cases found with
  | none => exact .ret
  | some m =>
    refine (concludes_purgeIfExpired (by rw [hh]; exact hfree)).exceptBind fun w₂ purged _ _ => ?_
    cases purged with
    | true => exact .ret
    | false =>
      rw [if_neg Bool.false_ne_true]
      split
      · exact (concludes_orPurgeMissing concludes_readStriped).exceptBind fun _ _ _ _ => .ret
      · refine concludes_fileExists.lift.exceptBind fun w₃ found _ _ => ?_
        cases found with
        | false => exact concludes_send.exceptBind fun _ _ _ _ => .ret
        | true => exact .ret

def finish (n : ν) : Slot → Res ν (Option (Bytes × BlockMeta))
  | .done r => ofExcept r
  | .pending path m => do
    let data ← ofIo (← readFile n path)
    pure (some (data, m))

omit [DecidableEq ν] in
theorem get_eq_finish (key : ObjectKey) :
    Storage.get E n key = batchSlot E n key >>= finish n := by
  simp only [Storage.get, batchSlot, getWithMeta, bind_assoc]
  congr 1
  funext found
  cases found with
  | none => rfl
  | some m =>
    simp only [bind_assoc]
    congr 1
    funext purged
    cases purged with
    | true => rfl
    | false =>
      simp only [Bool.false_eq_true, if_false]
      split
      · rw [bind_assoc]
        rfl
      · rw [bind_assoc]
        congr 1
        funext found
        cases found with
        | true => rfl
        | false =>
          simp only [Bool.not_false, if_true, bind_assoc]
          rfl

def resolve (φ : Cmd ν → Option String) (disk : ν → String → Option Bytes) (n : ν) :
    Slot → Except KVError (Option (Bytes × BlockMeta))
  | .done r => r
  | .pending path m => readResult (outcome φ disk n path) m

theorem run_finish {answer : World ν → Cmd ν → Choice} (hc : Calm φ answer) (s : Slot) :
    (finish n s).run.run (driven E answer) w = some (w, resolve φ w.disk n s) := by
  cases s with
  | done r => rfl
  | pending path m =>
    have hread := run_readFile (E := E) (n := n) (w := w) hc path
    refine (Prog.run_bind_of_run (Prog.run_bind_of_run hread _) _).trans ?_
    simp only [resolve]
    cases outcome φ w.disk n path <;> rfl

def gets (E : Env ν) (n : ν) :
    List ObjectKey → Io ν (List (Except KVError (Option (Bytes × BlockMeta))))
  | [] => pure []
  | key :: keys => do
    let r ← (Storage.get E n key).run
    let rest ← gets E n keys
    pure (r :: rest)

theorem batchSlot_get (hfree : ∀ k, w.held n .storage k = false) (key : ObjectKey) :
    ∃ (w' : World ν) (slot : Slot), w'.disk = w.disk ∧ w'.held = w.held ∧
      ∀ answer, Calm φ answer →
        ((batchSlot E n key).run.run (driven E answer) w = some (w', .ok slot) ∨
          ∃ e, slot = .done (.error e) ∧
            (batchSlot E n key).run.run (driven E answer) w = some (w', .error e)) ∧
        (Storage.get E n key).run.run (driven E answer) w =
          some (w', resolve φ w.disk n slot) := by
  obtain ⟨w', s, hrun, hd, hh⟩ := concludes_batchSlot (E := E) (φ := φ)
    (hfree key.toStringKey)
  rw [get_eq_finish]
  cases s with
  | error e =>
    refine ⟨w', .done (.error e), hd, hh, fun answer hc => ⟨.inr ⟨e, rfl, hrun answer hc⟩, ?_⟩⟩
    exact Prog.run_bind_of_run (hrun answer hc) _
  | ok slot =>
    refine ⟨w', slot, hd, hh, fun answer hc => ⟨.inl (hrun answer hc), ?_⟩⟩
    rw [← hd]
    exact (Prog.run_bind_of_run (hrun answer hc) _).trans (run_finish hc slot)

theorem batchSlots_gets (hfree : ∀ k, w.held n .storage k = false) (keys : List ObjectKey) :
    ∃ (w' : World ν) (slots : List Slot), w'.disk = w.disk ∧
      ∀ answer, Calm φ answer →
        (batchSlots E n keys).run (driven E answer) w = some (w', slots) ∧
        (gets E n keys).run (driven E answer) w =
          some (w', slots.map (resolve φ w.disk n)) := by
  induction keys generalizing w with
  | nil => exact ⟨w, [], rfl, fun _ _ => ⟨rfl, rfl⟩⟩
  | cons key keys ih =>
    obtain ⟨w₁, slot, hd, hh, hfirst⟩ := batchSlot_get (E := E) (φ := φ) hfree key
    obtain ⟨w₂, slots, hd', hrest⟩ := ih (w := w₁) (by rw [hh]; exact hfree)
    refine ⟨w₂, slot :: slots, hd'.trans hd, fun answer hc => ?_⟩
    obtain ⟨hslots, hgets⟩ := hrest answer hc
    obtain ⟨hslot, hget⟩ := hfirst answer hc
    rw [hd] at hgets
    constructor
    · unfold batchSlots
      rcases hslot with hslot | ⟨e, rfl, hslot⟩ <;>
        rw [Prog.run_bind_of_run hslot, Prog.run_bind_of_run hslots] <;> rfl
    · unfold gets
      rw [Prog.run_bind_of_run hget, Prog.run_bind_of_run hgets]
      rfl

theorem nodup_ioRequests (slots : List Slot) : ((ioRequests slots).map Prod.fst).Nodup := by
  have hsub : ((ioRequests slots).map Prod.fst).Sublist (slots.zipIdx.map Prod.snd) := by
    unfold ioRequests
    induction slots.zipIdx with
    | nil => exact .slnil
    | cons x xs ih =>
      grind
  grind [List.zipIdx_map_snd]

omit [DecidableEq ν] in
theorem scatter_ioRequests {slots : List Slot} {reqs : List (ℕ × String × BlockMeta)}
    (hperm : reqs.Perm (ioRequests slots)) (disk : ν → String → Option Bytes) :
    (((reqs.zip ((reqs.map fun r => r.2.1).map (outcome φ disk n))).foldl
      (fun acc x => acc.set x.1.1 (some (readResult x.2 x.1.2.2))) (slots.map planned)).map
        fun r => r.getD (.error (.internal "missing slot"))) =
      slots.map (resolve φ disk n) := by
  let items := reqs.map fun r => (r.1, some (readResult (outcome φ disk n r.2.1) r.2.2))
  have hfold : (reqs.zip ((reqs.map fun r => r.2.1).map (outcome φ disk n))).foldl
      (fun acc x => acc.set x.1.1 (some (readResult x.2 x.1.2.2))) (slots.map planned) =
      items.foldl (fun acc x => acc.set x.1 x.2) (slots.map planned) := by
    have hzip : reqs.zip (reqs.map fun r => outcome φ disk n r.2.1) =
        reqs.map fun r => (r, outcome φ disk n r.2.1) := by
      simpa using List.zip_map' (f := id) (g := fun r => outcome φ disk n r.2.1) (l := reqs)
    rw [List.map_map, Function.comp_def, hzip, List.foldl_map, List.foldl_map]
  have hkeys : items.map Prod.fst = reqs.map Prod.fst := by
    rw [List.map_map]
    rfl
  have hout : ∀ i, (∀ path m, slots[i]? ≠ some (.pending path m)) → i ∉ items.map Prod.fst := by
    intro i hi hmem
    rw [hkeys] at hmem
    obtain ⟨x, hx, rfl⟩ := List.mem_map.mp hmem
    exact hi _ _ (mem_ioRequests.mp (hperm.mem_iff.mp hx))
  rw [hfold]
  refine List.ext_getElem? fun i => ?_
  rw [List.getElem?_map, List.getElem?_map]
  rcases hs : slots[i]? with _ | (r | ⟨path, m⟩)
  · rw [foldl_set_of_notMem (hout i (by simp [hs])), List.getElem?_map, hs]
    rfl
  · rw [foldl_set_of_notMem (hout i (by simp [hs])), List.getElem?_map, hs]
    rfl
  · have hmem : (i, some (readResult (outcome φ disk n path) m)) ∈ items :=
      List.mem_map_of_mem (f := fun r : ℕ × String × BlockMeta =>
        (r.1, some (readResult (outcome φ disk n r.2.1) r.2.2)))
        (hperm.mem_iff.mpr (mem_ioRequests (x := (i, path, m)).mpr hs))
    have hnodup : (items.map Prod.fst).Nodup := by
      rw [hkeys]
      exact (hperm.map Prod.fst).nodup_iff.mpr (nodup_ioRequests slots)
    have hlt : i < (slots.map planned).length := by
      grind
    rw [foldl_set_of_mem hnodup hmem hlt]
    rfl

/-- **`get_batch` は、keys を順に `get` するのと同じ結果を返し、同じ状態を残す。** -/
theorem getBatch_eq_gets (E : Env ν) (φ : Cmd ν → Option String) (n : ν) (w : World ν)
    (hfree : ∀ k, w.held n .storage k = false) (keys : List ObjectKey)
    {answer answer' : World ν → Cmd ν → Choice} (hc : Calm φ answer)
    (hc' : Calm φ answer') :
    ∃ w' results, (getBatch E n keys).run (driven E answer) w = some (w', results) ∧
      (gets E n keys).run (driven E answer') w = some (w', results) := by
  obtain ⟨w', slots, hd, hrun⟩ := batchSlots_gets (E := E) (φ := φ) hfree keys
  refine ⟨w', _, ?_, (hrun answer' hc').2⟩
  unfold getBatch
  rw [Prog.run_bind_of_run (hrun answer hc).1, Prog.run_bind_of_run (run_readBatch hc _), hd]
  refine congrArg (fun rs => some (w', rs)) (scatter_ioRequests ?_ w.disk)
  exact List.mergeSort_perm _ _

end Storage

end Concludes

def oldestFirst {ν : Type} (_ : World ν) : Cmd ν → Choice
  | .pick _ => .num 0
  | _ => .ok

theorem oldestFirst_calm : Calm (fun _ : Cmd (Fin 2) => none) oldestFirst :=
  ⟨fun _ => rfl, fun _ _ => rfl, fun _ _ _ _ => rfl, fun _ _ _ _ => rfl, fun _ _ _ => rfl,
    fun _ _ _ => rfl, fun _ _ => ⟨0, rfl⟩⟩

def storedMeta : BlockMeta := ⟨0, "a", 2, "", 1, "", 1, 0, 0, 0, 0, 0, "", false, none⟩

def storedWorld : World (Fin 2) :=
  { World.init 0 with
    redis := (Redis.empty.setBlock (ObjectKey.mk "" "k").toStringKey (some storedMeta)).setBlock
      (ObjectKey.mk "" "l").toStringKey (some { storedMeta with filePath := "b" })
    disk := fun _ p => if p = "a" then some [1, 2] else none }

theorem getBatch_eq_gets_repeated : ∃ w' results,
    (Storage.getBatch samplePlain nodeA [⟨"", "k"⟩, ⟨"", "l"⟩, ⟨"", "k"⟩, ⟨"", "l"⟩]).run
      (driven samplePlain oldestFirst) storedWorld = some (w', results) ∧
    (Storage.gets samplePlain nodeA [⟨"", "k"⟩, ⟨"", "l"⟩, ⟨"", "k"⟩, ⟨"", "l"⟩]).run
      (driven samplePlain oldestFirst) storedWorld = some (w', results) :=
  Storage.getBatch_eq_gets samplePlain (fun _ => none) nodeA storedWorld (fun _ => rfl) _
    oldestFirst_calm oldestFirst_calm

end ContextStore
