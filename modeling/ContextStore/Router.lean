import ContextStore.Data

/-!
# key と物理 path

`kv-service/server/src/router.rs` を写す。
-/

namespace ContextStore

/-! ## 外部の hash -/

def IsHexDigest (s : String) : Prop :=
  s.toList.length = 32 ∧ ∀ c ∈ s.toList, c.isDigit ∨ 'a' ≤ c ∧ c ≤ 'f'

structure Externs where
  hash64 : Bytes → UInt64
  md5 : String → { s : String // IsHexDigest s }
  gcTaskId : String → BlockMeta → String

def utf8 (s : String) : Bytes := s.toUTF8.data.toList

/-- `format!("{:016x}", h)`。 -/
def hex16 (h : UInt64) : String :=
  let ds := Nat.toDigits 16 h.toNat
  String.ofList (List.replicate (16 - ds.length) '0' ++ ds)

theorem hex16_ne_empty (h : UInt64) : hex16 h ≠ "" := by
  simp_all [hex16]

/-! ## object key -/

structure ObjectKey where
  nameSpace : String
  objectKey : String
deriving DecidableEq, Repr

namespace ObjectKey

def toStringKey (k : ObjectKey) : String :=
  toString k.nameSpace.utf8ByteSize ++ ":" ++ k.nameSpace ++ k.objectKey

def objectDigest (X : Externs) (k : ObjectKey) : String := (X.md5 k.toStringKey).1

end ObjectKey

/-! ## path -/

/-- `PathBuf::join`。 -/
def pathJoin (a b : String) : String :=
  if b.toList.head? = some '/' then b
  else if a.toList = [] ∨ a.toList.getLast? = some '/' then a ++ b
  else a ++ "/" ++ b

def splitSlash : List Char → List (List Char)
  | [] => [[]]
  | c :: rest =>
    if c = '/' then [] :: splitSlash rest
    else
      match splitSlash rest with
      | [] => [[c]]
      | piece :: more => (c :: piece) :: more

/-- `Path::components`。 -/
def pathComponents (p : String) : List (List Char) :=
  let pieces := splitSlash p.toList
  let body := pieces.filter fun s => decide (s ≠ [] ∧ s ≠ ['.'])
  if p.toList.head? = some '/' then ['/'] :: body
  else if pieces.head? = some ['.'] then ['.'] :: body
  else body

/-- `Path::starts_with`。 -/
def pathStartsWith (p base : String) : Bool :=
  (pathComponents base).isPrefixOf (pathComponents p)

/-! ## router -/

/-- `ShardRouter`。 -/
structure ShardRouter where
  devices : List String
  dataSubdir : String
  devices_ne : devices ≠ []

namespace ShardRouter

variable (X : Externs) (r : ShardRouter)

def RelativeSubdir : Prop := r.dataSubdir.toList.head? ≠ some '/'

instance : Decidable r.RelativeSubdir :=
  inferInstanceAs (Decidable (r.dataSubdir.toList.head? ≠ some '/'))

def numDevices : Nat := r.devices.length

theorem numDevices_pos : 0 < r.numDevices := List.length_pos_iff.mpr r.devices_ne

def objectHash (k : ObjectKey) : Nat :=
  (X.hash64 (utf8 k.toStringKey)).toNat % r.numDevices

def route (k : ObjectKey) : Nat := r.objectHash X k

def chunkDevice (k : ObjectKey) (chunkIdx : Nat) : Nat :=
  (r.objectHash X k + chunkIdx) % r.numDevices

def pathComponent (value : String) : String :=
  let out := value.toList.map fun c =>
    if c.isAlphanum || c == '.' || c == '-' || c == '_' then c else '_'
  if out = [] ∨ out = ['.'] ∨ out = ['.', '.'] then "_" else String.ofList out

def keyDir (k : ObjectKey) (deviceId : Nat) : String × String :=
  let digest := (k.objectDigest X).toList
  let hi := String.ofList (digest.take 2)
  let lo := String.ofList ((digest.drop 2).take 2)
  let file := String.ofList ((digest.drop 2).drop 2)
  let deviceRoot := (r.devices[deviceId]?).getD ""
  (pathJoin (pathJoin (pathJoin (pathJoin (pathJoin deviceRoot r.dataSubdir) "data")
    (pathComponent k.nameSpace)) hi) lo, file)

def keyToPathOnDevice (k : ObjectKey) (deviceId : Nat) : String :=
  let (dir, file) := r.keyDir X k deviceId
  pathJoin dir (file ++ ".bin")

/-- `key_to_path`。 -/
def keyToPath (k : ObjectKey) : String := r.keyToPathOnDevice X k (r.route X k)

/-- `key_to_versioned_path`。 -/
def keyToVersionedPath (k : ObjectKey) (deviceId generation layoutVersion : Nat) : String :=
  let (dir, file) := r.keyDir X k deviceId
  pathJoin dir (file ++ ".g" ++ toString generation ++ ".l" ++ toString layoutVersion ++ ".bin")

/-- `chunk_versioned_path`。 -/
def chunkVersionedPath (k : ObjectKey) (chunkIdx deviceId generation layoutVersion : Nat) :
    String :=
  let (dir, file) := r.keyDir X k deviceId
  pathJoin dir (file ++ ".g" ++ toString generation ++ ".l" ++ toString layoutVersion ++
    ".chunk" ++ toString chunkIdx ++ ".bin")

inductive FileKind where
  | whole
  | chunk (i : Nat)
deriving DecidableEq, Repr

def versionedPath (k : ObjectKey) (deviceId generation layoutVersion : Nat) : FileKind → String
  | .whole => r.keyToVersionedPath X k deviceId generation layoutVersion
  | .chunk i => r.chunkVersionedPath X k i deviceId generation layoutVersion

theorem append_sep_inj {c : Char} {a b a' b' : List Char} (hb : c ∉ b) (hb' : c ∉ b')
    (h : a ++ c :: b = a' ++ c :: b') : a = a' ∧ b = b' := by
  rcases List.append_eq_append_iff.mp h with ⟨m, rfl, hm⟩ | ⟨m, rfl, hm⟩
  · cases m with
    | nil => exact ⟨by simp, (List.cons.inj hm).2⟩
    | cons x m =>
      exact absurd (by rw [(List.cons.inj hm).2]; simp) hb
  · cases m with
    | nil => exact ⟨by simp, ((List.cons.inj hm).2).symm⟩
    | cons x m =>
      exact absurd (by rw [(List.cons.inj hm).2]; simp) hb'

theorem sep_append_inj {c : Char} {a b a' b' : List Char} (ha : c ∉ a) (ha' : c ∉ a')
    (h : a ++ c :: b = a' ++ c :: b') : a = a' ∧ b = b' := by
  have h' : b.reverse ++ c :: a.reverse = b'.reverse ++ c :: a'.reverse := by
    simpa using congrArg List.reverse h
  obtain ⟨hb, ha⟩ := append_sep_inj (by simpa using ha) (by simpa using ha') h'
  exact ⟨List.reverse_injective ha, List.reverse_injective hb⟩

theorem toString_nat_inj {m n : Nat} (h : (toString m).toList = (toString n).toList) : m = n := by
  grind [Nat.toList_repr, Nat.ofDigitChars_ten_toDigits]

theorem notMem_toString_nat {c : Char} (hc : ¬ c.isDigit) (n : Nat) :
    c ∉ (toString n).toList := by
  intro h
  rw [Nat.toString_eq_repr, Nat.toList_repr] at h
  exact hc (Nat.isDigit_of_mem_toDigits (by decide) (by decide) h)

def versionSuffix (generation layoutVersion : Nat) : FileKind → List Char
  | .whole => ".g".toList ++ (toString generation).toList ++
      '.' :: 'l' :: ((toString layoutVersion).toList ++ '.' :: "bin".toList)
  | .chunk i => ".g".toList ++ (toString generation).toList ++
      '.' :: 'l' :: ((toString layoutVersion).toList ++
        '.' :: ("chunk".toList ++ ((toString i).toList ++ '.' :: "bin".toList)))

theorem versionSuffix_inj {g l g' l' : Nat} {kind kind' : FileKind}
    (h : versionSuffix g l kind = versionSuffix g' l' kind') :
    g = g' ∧ l = l' ∧ kind = kind' := by
  have split : ∀ {a b : Nat} {x y : List Char},
      (toString a).toList ++ '.' :: x = (toString b).toList ++ '.' :: y → a = b ∧ x = y := by
    intro a b x y hab
    obtain ⟨hd, hx⟩ := sep_append_inj (notMem_toString_nat (by decide) a)
      (notMem_toString_nat (by decide) b) hab
    exact ⟨toString_nat_inj hd, hx⟩
  cases kind <;> cases kind' <;>
    simp only [versionSuffix, List.append_assoc, List.append_cancel_left_eq] at h
  · grind
  · grind
  · grind
  · obtain ⟨hg, h⟩ := split h
    obtain ⟨hl, h⟩ := split (List.cons.inj h).2
    grind [List.append_cancel_left]

theorem slash_notMem_versionSuffix (g l : Nat) (kind : FileKind) :
    '/' ∉ versionSuffix g l kind := by
  have hd (n : Nat) : '/' ∉ Nat.toDigits 10 n := by
    simpa using notMem_toString_nat (c := '/') (by decide) n
  cases kind <;> simp [versionSuffix, hd]

theorem slash_notMem_objectDigest (k : ObjectKey) : '/' ∉ (k.objectDigest X).toList := by
  intro h
  rcases (X.md5 k.toStringKey).2.2 '/' h with h | h
  · exact absurd h (by decide)
  · exact absurd h.1 (by decide)

theorem length_objectDigest (k : ObjectKey) : (k.objectDigest X).toList.length = 32 :=
  (X.md5 k.toStringKey).2.1

def IsComponent (b : String) : Prop := b.toList ≠ [] ∧ '/' ∉ b.toList

def IsDir (a : String) : Prop := a.toList ≠ [] ∧ a.toList.getLast? ≠ some '/'

theorem IsComponent.head_ne {b : String} (hb : IsComponent b) : b.toList.head? ≠ some '/' :=
  fun h => hb.2 (List.mem_of_head? h)

variable {a b : String}

theorem toList_pathJoin (ha : IsDir a) (hb : IsComponent b) :
    (pathJoin a b).toList = a.toList ++ '/' :: b.toList := by
  unfold pathJoin
  rw [if_neg hb.head_ne, if_neg (by rintro (h | h); exacts [ha.1 h, ha.2 h])]
  simp

theorem isDir_pathJoin (hb : IsComponent b) : IsDir (pathJoin a b) := by
  have hlast : ∀ l : List Char, (l ++ b.toList).getLast? ≠ some '/' := by
    intro l h
    rw [List.getLast?_append_of_ne_nil _ hb.1] at h
    exact hb.2 (List.mem_of_getLast? h)
  unfold pathJoin
  rw [if_neg hb.head_ne]
  split
  · exact ⟨by simp [hb.1], by rw [String.toList_append]; exact hlast _⟩
  · exact ⟨by simp, by rw [String.toList_append]; exact hlast _⟩

theorem isComponent_pathComponent (value : String) : IsComponent (pathComponent value) := by
  unfold pathComponent
  dsimp only
  split
  · exact ⟨by decide, by decide⟩
  next h =>
    refine ⟨by rw [String.toList_ofList]; exact fun he => h (.inl he), ?_⟩
    rw [String.toList_ofList]
    intro hm
    obtain ⟨c, -, hc⟩ := List.mem_map.mp hm
    split at hc
    next hal => subst hc; exact absurd hal (by decide)
    · exact absurd hc (by decide)

theorem isComponent_of_sublist {k : ObjectKey} {l : List Char}
    (hl : l.Sublist (k.objectDigest X).toList) (hne : l ≠ []) :
    IsComponent (String.ofList l) := by
  rw [IsComponent, String.toList_ofList]
  exact ⟨hne, fun h => slash_notMem_objectDigest X k (hl.subset h)⟩

theorem isComponent_fileName {k : ObjectKey} {g l : Nat} {kind : FileKind} {name : String}
    (hn : name.toList = ((k.objectDigest X).toList.drop 2).drop 2 ++ versionSuffix g l kind) :
    IsComponent name := by
  have hlen := length_objectDigest X k
  refine ⟨?_, ?_⟩
  · rw [hn]; intro h; simpa [hlen] using congrArg List.length h
  · rw [hn, List.mem_append, not_or]
    grind [slash_notMem_objectDigest, slash_notMem_versionSuffix]

theorem exists_versionedPath (k : ObjectKey) (dev g l : Nat) (kind : FileKind) :
    ∃ name, r.versionedPath X k dev g l kind = pathJoin (r.keyDir X k dev).1 name ∧
      name.toList = ((k.objectDigest X).toList.drop 2).drop 2 ++ versionSuffix g l kind := by
  cases kind with
  | whole =>
    refine ⟨(r.keyDir X k dev).2 ++ ".g" ++ toString g ++ ".l" ++ toString l ++ ".bin", ?_, ?_⟩
    · simp_all [versionedPath, keyToVersionedPath]
    · simp [keyDir, versionSuffix]
  | chunk i =>
    refine ⟨(r.keyDir X k dev).2 ++ ".g" ++ toString g ++ ".l" ++ toString l ++ ".chunk" ++
      toString i ++ ".bin", ?_, ?_⟩
    · simp_all [versionedPath, chunkVersionedPath]
    · simp [keyDir, versionSuffix]

theorem toList_versionedPath (k : ObjectKey) (dev g l : Nat) (kind : FileKind) :
    ∃ base : List Char, (r.versionedPath X k dev g l kind).toList =
      ((base ++ '/' :: (k.objectDigest X).toList.take 2) ++
        '/' :: ((k.objectDigest X).toList.drop 2).take 2) ++
        '/' :: (((k.objectDigest X).toList.drop 2).drop 2 ++ versionSuffix g l kind) := by
  have hlen := length_objectDigest X k
  have hhi := isComponent_of_sublist X (k := k) (List.take_sublist 2 _)
    (by intro h; simpa [hlen] using congrArg List.length h)
  have hlo := isComponent_of_sublist X (k := k)
    ((List.take_sublist 2 _).trans (List.drop_sublist 2 _))
    (by intro h; simpa [hlen] using congrArg List.length h)
  have hdir := isDir_pathJoin
    (a := pathJoin (pathJoin ((r.devices[dev]?).getD "") r.dataSubdir) "data")
    (isComponent_pathComponent k.nameSpace)
  refine ⟨(pathJoin (pathJoin (pathJoin ((r.devices[dev]?).getD "") r.dataSubdir) "data")
    (pathComponent k.nameSpace)).toList, ?_⟩
  obtain ⟨name, hpath, hname⟩ := r.exists_versionedPath X k dev g l kind
  unfold keyDir at hpath
  rw [hpath, toList_pathJoin (isDir_pathJoin hlo) (isComponent_fileName X hname),
    toList_pathJoin (isDir_pathJoin hhi) hlo, toList_pathJoin hdir hhi, hname,
    String.toList_ofList, String.toList_ofList]

theorem versionedPath_inj {r r' : ShardRouter} {k k' : ObjectKey} {dev g l dev' g' l' : Nat}
    {kind kind' : FileKind}
    (h : r.versionedPath X k dev g l kind = r'.versionedPath X k' dev' g' l' kind') :
    k.objectDigest X = k'.objectDigest X ∧ g = g' ∧ l = l' ∧ kind = kind' := by
  obtain ⟨base, hb⟩ := r.toList_versionedPath X k dev g l kind
  obtain ⟨base', hb'⟩ := r'.toList_versionedPath X k' dev' g' l' kind'
  have hs (k : ObjectKey) := slash_notMem_objectDigest X k
  have hlen := length_objectDigest X k
  have hlen' := length_objectDigest X k'
  have hnot (k : ObjectKey) (g l : Nat) (kind : FileKind) :
      '/' ∉ ((k.objectDigest X).toList.drop 2).drop 2 ++ versionSuffix g l kind := by
    rw [List.mem_append, not_or]
    grind [slash_notMem_versionSuffix]
  rw [h, hb'] at hb
  obtain ⟨hrest, hname⟩ := append_sep_inj (hnot k' g' l' kind') (hnot k g l kind) hb
  obtain ⟨hrest, hlo⟩ := append_sep_inj
    (fun hm => hs k' (List.mem_of_mem_drop (List.mem_of_mem_take hm)))
    (fun hm => hs k (List.mem_of_mem_drop (List.mem_of_mem_take hm))) hrest
  obtain ⟨-, hhi⟩ := append_sep_inj (fun hm => hs k' (List.mem_of_mem_take hm))
    (fun hm => hs k (List.mem_of_mem_take hm)) hrest
  obtain ⟨hfile, hsuf⟩ := List.append_inj hname (by simp [hlen, hlen'])
  obtain ⟨hg, hl, hk⟩ := versionSuffix_inj hsuf
  refine ⟨?_, hg.symm, hl.symm, hk.symm⟩
  grind [String.toList_inj, List.take_append_drop]

theorem splitSlash_ne_nil (l : List Char) : splitSlash l ≠ [] := by
  cases l with
  | nil => simp [splitSlash]
  | cons c l =>
    unfold splitSlash
    split
    · simp
    · split <;> simp

theorem splitSlash_cons (c : Char) (l : List Char) :
    splitSlash (c :: l) = if c = '/' then [] :: splitSlash l
      else match splitSlash l with
        | [] => [[c]]
        | piece :: more => (c :: piece) :: more := rfl

theorem splitSlash_append (a b : List Char) :
    splitSlash (a ++ '/' :: b) = splitSlash a ++ splitSlash b := by
  induction a with
  | nil => simp [splitSlash]
  | cons c a ih =>
    rw [List.cons_append, splitSlash_cons c (a ++ '/' :: b), splitSlash_cons c a]
    by_cases hc : c = '/'
    · rw [if_pos hc, if_pos hc, ih]
      rfl
    · rw [if_neg hc, if_neg hc, ih]
      grind [splitSlash_ne_nil]

theorem pathComponents_append {p a : String} {b : List Char} (hne : a.toList ≠ [])
    (hp : p.toList = a.toList ++ '/' :: b) :
    pathComponents p = pathComponents a ++
      (splitSlash b).filter fun s => decide (s ≠ [] ∧ s ≠ ['.']) := by
  have hhead : p.toList.head? = a.toList.head? := by
    rw [hp]
    cases h : a.toList with
    | nil => exact absurd h hne
    | cons c l => rfl
  have hpieces : (splitSlash p.toList).head? = (splitSlash a.toList).head? := by
    rw [hp, splitSlash_append]
    cases h : splitSlash a.toList with
    | nil => exact absurd h (splitSlash_ne_nil _)
    | cons x xs => rfl
  grind [pathComponents, splitSlash_append]

theorem exists_pathComponents_pathJoin (hb : b.toList.head? ≠ some '/') :
    ∃ cs, pathComponents (pathJoin a b) = pathComponents a ++ cs ∧
      ∀ c ∈ cs, c ∈ pathComponents b := by
  have hbody : ∀ c ∈ (splitSlash b.toList).filter (fun s => decide (s ≠ [] ∧ s ≠ ['.'])),
      c ∈ pathComponents b := by
    intro c hc
    unfold pathComponents
    grind
  unfold pathJoin
  rw [if_neg hb]
  by_cases hnil : a.toList = []
  · have ha : pathComponents a = [] := by
      unfold pathComponents
      rw [hnil]
      rfl
    simp_all
  · refine ⟨_, ?_, hbody⟩
    split
    next h =>
      have hlast := h.resolve_left hnil
      obtain ⟨l, hl⟩ := List.getLast?_eq_some_iff.mp hlast
      by_cases hl0 : l = []
      · simp_all [pathComponents, splitSlash]
      · have hbase : (String.ofList l).toList ≠ [] := by rw [String.toList_ofList]; exact hl0
        have ha := pathComponents_append (p := a) (a := String.ofList l) (b := []) hbase
          (by rw [String.toList_ofList, hl])
        grind [pathComponents_append, String.toList_ofList, String.toList_append, splitSlash]
    · exact pathComponents_append (p := a ++ "/" ++ b) (b := b.toList) hnil (by simp)

theorem pathComponents_prefix_pathJoin (hb : b.toList.head? ≠ some '/') :
    pathComponents a <+: pathComponents (pathJoin a b) := by
  obtain ⟨cs, hcs, -⟩ := exists_pathComponents_pathJoin (a := a) hb
  exact ⟨cs, hcs.symm⟩

theorem pathStartsWith_versionedPath (hrel : r.RelativeSubdir) {root : String} {dev : Nat}
    (hdev : r.devices[dev]? = some root) (k : ObjectKey) (g l : Nat) (kind : FileKind) :
    pathStartsWith (r.versionedPath X k dev g l kind) root = true := by
  have hdigest : ∀ l : List Char, l.Sublist (k.objectDigest X).toList →
      (String.ofList l).toList.head? ≠ some '/' := by
    grind [String.toList_ofList, slash_notMem_objectDigest, List.mem_of_head?]
  have hhi := hdigest _ (List.take_sublist 2 _)
  have hlo := hdigest _ ((List.take_sublist 2 _).trans (List.drop_sublist 2 _))
  have hdir : pathComponents root <+: pathComponents (r.keyDir X k dev).1 := by
    simp only [keyDir, hdev, Option.getD_some]
    refine (pathComponents_prefix_pathJoin hrel).trans ?_
    refine (pathComponents_prefix_pathJoin (b := "data") (by decide)).trans ?_
    refine (pathComponents_prefix_pathJoin (isComponent_pathComponent k.nameSpace).head_ne).trans ?_
    refine (pathComponents_prefix_pathJoin hhi).trans ?_
    exact pathComponents_prefix_pathJoin hlo
  obtain ⟨name, hpath, hname⟩ := r.exists_versionedPath X k dev g l kind
  grind [pathStartsWith, pathComponents_prefix_pathJoin, IsComponent.head_ne, isComponent_fileName]

end ShardRouter

attribute [irreducible] pathJoin

end ContextStore
