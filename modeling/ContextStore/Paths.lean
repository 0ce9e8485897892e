import ContextStore.Cluster.Run

/-!
# 物理 path の封じ込めと一意性
-/

namespace ContextStore

namespace ShardRouter

def IsName (b : String) : Prop := IsComponent b ∧ b.toList ≠ ['.'] ∧ b.toList ≠ ['.', '.']

theorem splitSlash_of_notMem {l : List Char} (h : '/' ∉ l) : splitSlash l = [l] := by
  induction l with
  | nil => rfl
  | cons c l ih =>
    simp_all [splitSlash_cons, Ne.symm]

theorem pathComponents_pathJoin {a b : String} (ha : IsDir a) (hb : IsName b) :
    pathComponents (pathJoin a b) = pathComponents a ++ [b.toList] := by
  rw [pathComponents_append ha.1 (toList_pathJoin ha hb.1), splitSlash_of_notMem hb.1.2]
  simp [hb.1.1, hb.2.1]

theorem isName_pathComponent (value : String) : IsName (pathComponent value) := by
  refine ⟨isComponent_pathComponent value, ?_⟩
  unfold pathComponent
  dsimp only
  split
  · exact ⟨by decide, by decide⟩
  · simp_all

theorem isName_of_hex {X : Externs} {k : ObjectKey} {l : List Char}
    (hl : l.Sublist (k.objectDigest X).toList) (hne : l ≠ []) : IsName (String.ofList l) := by
  have hdot : '.' ∉ l := by
    intro h
    rcases (X.md5 k.toStringKey).2.2 '.' (hl.subset h) with h | h
    · exact absurd h (by decide)
    · exact absurd h.1 (by decide)
  refine ⟨isComponent_of_sublist X hl hne, ?_, ?_⟩
  · rw [String.toList_ofList]
    rintro rfl
    simp at hdot
  · rw [String.toList_ofList]
    rintro rfl
    simp at hdot

theorem isName_fileName {X : Externs} {k : ObjectKey} {g l : Nat} {kind : FileKind} {name : String}
    (hn : name.toList = ((k.objectDigest X).toList.drop 2).drop 2 ++ versionSuffix g l kind) :
    IsName name := by
  have hlen := length_objectDigest X k
  have hlong : 2 < name.toList.length := by
    rw [hn]
    simp [hlen]
    omega
  refine ⟨isComponent_fileName X hn, ?_, ?_⟩
  · intro h
    rw [h] at hlong
    simp at hlong
  · intro h
    rw [h] at hlong
    simp at hlong

variable (X : Externs) (r : ShardRouter)

def dataDir (deviceId : Nat) : String :=
  pathJoin (pathJoin ((r.devices[deviceId]?).getD "") r.dataSubdir) "data"

def tailComponents (k : ObjectKey) (g l : Nat) (kind : FileKind) : List (List Char) :=
  let digest := (k.objectDigest X).toList
  [(pathComponent k.nameSpace).toList, digest.take 2, (digest.drop 2).take 2,
    (digest.drop 2).drop 2 ++ versionSuffix g l kind]

theorem isDir_dataDir (dev : Nat) : IsDir (r.dataDir dev) :=
  isDir_pathJoin ⟨by decide, by decide⟩

theorem pathComponents_versionedPath (k : ObjectKey) (dev g l : Nat) (kind : FileKind) :
    pathComponents (r.versionedPath X k dev g l kind) =
      pathComponents (r.dataDir dev) ++ tailComponents X k g l kind := by
  have hlen := length_objectDigest X k
  have hns := isName_pathComponent k.nameSpace
  have hhi := isName_of_hex (X := X) (k := k) (List.take_sublist 2 _)
    (by intro h; simpa [hlen] using congrArg List.length h)
  have hlo := isName_of_hex (X := X) (k := k)
    ((List.take_sublist 2 _).trans (List.drop_sublist 2 _))
    (by intro h; simpa [hlen] using congrArg List.length h)
  have hjoin : ∀ name : String,
      name.toList = ((k.objectDigest X).toList.drop 2).drop 2 ++ versionSuffix g l kind →
      pathComponents (pathJoin (r.keyDir X k dev).1 name) =
        pathComponents (r.dataDir dev) ++ tailComponents X k g l kind := by
    intro name hname
    change pathComponents (pathJoin (pathJoin (pathJoin (pathJoin (r.dataDir dev) _) _) _) name) = _
    rw [pathComponents_pathJoin (isDir_pathJoin hlo.1) (isName_fileName hname),
      pathComponents_pathJoin (isDir_pathJoin hhi.1) hlo,
      pathComponents_pathJoin (isDir_pathJoin hns.1) hhi,
      pathComponents_pathJoin (r.isDir_dataDir dev) hns, hname]
    simp [tailComponents]
  cases kind with
  | whole =>
    unfold versionedPath keyToVersionedPath
    exact hjoin _ (by simp [versionSuffix])
  | chunk i =>
    unfold versionedPath chunkVersionedPath
    exact hjoin _ (by simp [versionSuffix])

theorem tailComponents_plain (k : ObjectKey) (g l : Nat) (kind : FileKind) :
    ∀ c ∈ tailComponents X k g l kind, c ≠ [] ∧ '/' ∉ c ∧ c ≠ ['.'] ∧ c ≠ ['.', '.'] := by
  have hlen := length_objectDigest X k
  have hplain : ∀ {b : String}, IsName b →
      b.toList ≠ [] ∧ '/' ∉ b.toList ∧ b.toList ≠ ['.'] ∧ b.toList ≠ ['.', '.'] :=
    fun h => ⟨h.1.1, h.1.2, h.2⟩
  intro c hc
  simp only [tailComponents, List.mem_cons, List.not_mem_nil, or_false] at hc
  rcases hc with rfl | rfl | rfl | rfl
  · exact hplain (isName_pathComponent k.nameSpace)
  · simpa using hplain (isName_of_hex (X := X) (k := k) (List.take_sublist 2 _)
      (by intro h; simpa [hlen] using congrArg List.length h))
  · simpa using hplain (isName_of_hex (X := X) (k := k)
      ((List.take_sublist 2 _).trans (List.drop_sublist 2 _))
      (by intro h; simpa [hlen] using congrArg List.length h))
  · rw [← String.toList_ofList (l := _ ++ versionSuffix g l kind)]
    exact hplain (isName_fileName (by rw [String.toList_ofList]))

theorem tailComponents_inj {k k' : ObjectKey} {g l g' l' : Nat} {kind kind' : FileKind}
    (h : tailComponents X k g l kind = tailComponents X k' g' l' kind') :
    k.objectDigest X = k'.objectDigest X ∧ g = g' ∧ l = l' ∧ kind = kind' := by
  simp only [tailComponents, List.cons.injEq, and_true] at h
  obtain ⟨-, hhi, hlo, hname⟩ := h
  obtain ⟨hfile, hsuf⟩ := List.append_inj hname
    (by simp [length_objectDigest X k, length_objectDigest X k'])
  grind [versionSuffix_inj, String.toList_inj, List.take_append_drop]

end ShardRouter

theorem append_inj_of_utf8ByteSize {a b a' b' : String} (hsize : a.utf8ByteSize = a'.utf8ByteSize)
    (h : a ++ b = a' ++ b') : a = a' ∧ b = b' := by
  have key : ∀ {a a' m : String}, a.utf8ByteSize = a'.utf8ByteSize → a' = a ++ m → m = "" := by
    intro a a' m hsize hm
    simp_all
  have hl : a.toList ++ b.toList = a'.toList ++ b'.toList := by
    simpa using congrArg String.toList h
  rcases List.append_eq_append_iff.mp hl with ⟨m, ha, hb⟩ | ⟨m, ha, hb⟩
  · have hm := key hsize (m := String.ofList m) (by rw [← String.toList_inj]; simpa using ha)
    obtain rfl : m = [] := by simpa using congrArg String.toList hm
    exact ⟨String.toList_inj.mp (by simpa using ha.symm), String.toList_inj.mp (by simpa using hb)⟩
  · have hm := key hsize.symm (m := String.ofList m) (by rw [← String.toList_inj]; simpa using ha)
    obtain rfl : m = [] := by simpa using congrArg String.toList hm
    exact ⟨String.toList_inj.mp (by simpa using ha),
      String.toList_inj.mp (by simpa using hb.symm)⟩

theorem ObjectKey.toStringKey_inj {k k' : ObjectKey} (h : k.toStringKey = k'.toStringKey) :
    k = k' := by
  unfold ObjectKey.toStringKey at h
  have hl : (toString k.nameSpace.utf8ByteSize).toList ++ ':' ::
    (k.nameSpace ++ k.objectKey).toList =
      (toString k'.nameSpace.utf8ByteSize).toList ++
        ':' :: (k'.nameSpace ++ k'.objectKey).toList := by
    simpa using congrArg String.toList h
  obtain ⟨hsize, hrest⟩ := ShardRouter.sep_append_inj
    (ShardRouter.notMem_toString_nat (by decide) _)
    (ShardRouter.notMem_toString_nat (by decide) _) hl
  obtain ⟨hns, hkey⟩ := append_inj_of_utf8ByteSize (ShardRouter.toString_nat_inj hsize)
    (String.toList_inj.mp hrest)
  cases k
  cases k'
  simp_all

namespace ShardRouter

variable {X : Externs} {r : ShardRouter} {k k' : ObjectKey} {dev dev' g g' l l' : Nat}
  {kind kind' : FileKind}

def SeparateRoots (r : ShardRouter) : Prop :=
  ∀ (i j : Nat) (ri rj : String), r.devices[i]? = some ri → r.devices[j]? = some rj → i ≠ j →
    pathStartsWith rj ri = false

theorem root_prefix_dataDir (hrel : r.RelativeSubdir) {root : String}
    (h : r.devices[dev]? = some root) :
    pathComponents root <+: pathComponents (r.dataDir dev) := by
  unfold dataDir
  rw [h]
  exact (pathComponents_prefix_pathJoin hrel).trans
    (pathComponents_prefix_pathJoin (by decide))

theorem dataDir_inj (hrel : r.RelativeSubdir) (hroots : r.SeparateRoots)
    (hdev : dev < r.numDevices) (hdev' : dev' < r.numDevices)
    (h : pathComponents (r.dataDir dev) = pathComponents (r.dataDir dev')) : dev = dev' := by
  have hroot := List.getElem?_eq_getElem hdev
  have hroot' := List.getElem?_eq_getElem hdev'
  have hpre := root_prefix_dataDir hrel hroot
  have hpre' := root_prefix_dataDir hrel hroot'
  rw [h] at hpre
  by_contra hne
  rcases List.prefix_or_prefix_of_prefix hpre hpre' with hnest | hnest
  · have := hroots dev dev' _ _ hroot hroot' hne
    rw [pathStartsWith, List.isPrefixOf_iff_prefix.mpr hnest] at this
    cases this
  · have := hroots dev' dev _ _ hroot' hroot (Ne.symm hne)
    rw [pathStartsWith, List.isPrefixOf_iff_prefix.mpr hnest] at this
    cases this

/-- **世代つきの path は data directory の真下に封じ込められ、互いに衝突しない。** -/
theorem versioned_paths_contained_distinct
    (hmd5 : X.md5 k.toStringKey = X.md5 k'.toStringKey → k.toStringKey = k'.toStringKey)
    (hrel : r.RelativeSubdir) (hroots : r.SeparateRoots) (hdev : dev < r.numDevices)
    (hdev' : dev' < r.numDevices) :
    (∃ hi lo file : List Char, pathComponents (r.versionedPath X k dev g l kind) =
        pathComponents (r.dataDir dev) ++ [(pathComponent k.nameSpace).toList, hi, lo, file] ∧
      ∀ c ∈ [(pathComponent k.nameSpace).toList, hi, lo, file],
        c ≠ [] ∧ '/' ∉ c ∧ c ≠ ['.'] ∧ c ≠ ['.', '.']) ∧
    (pathComponents (r.versionedPath X k dev g l kind) =
        pathComponents (r.versionedPath X k' dev' g' l' kind') →
      k = k' ∧ dev = dev' ∧ g = g' ∧ l = l' ∧ kind = kind') := by
  constructor
  · exact ⟨_, _, _, pathComponents_versionedPath X r k dev g l kind,
      tailComponents_plain X k g l kind⟩
  · intro h
    rw [pathComponents_versionedPath, pathComponents_versionedPath] at h
    obtain ⟨hdir, htail⟩ := List.append_inj' h rfl
    obtain ⟨hdigest, hg, hl, hkind⟩ := tailComponents_inj X htail
    exact ⟨ObjectKey.toStringKey_inj (hmd5 (Subtype.ext hdigest)),
      dataDir_inj hrel hroots hdev hdev' hdir, hg, hl, hkind⟩

theorem versioned_paths_contained_distinct_unsafe_namespace :
    let r := (sampleConfig 0 false []).router
    let k : ObjectKey := ⟨"../a", "x"⟩
    let k' : ObjectKey := ⟨"../a", "y"⟩
    pathComponents (r.versionedPath sampleExt k 0 1 1 .whole) ≠
      pathComponents (r.versionedPath sampleExt k' 1 1 1 (.chunk 0)) := by
  intro r k k' h
  have hroots : r.SeparateRoots := by
    intro i j ri rj hi hj hij
    have hlen : r.devices.length = 2 := rfl
    have hi2 := (List.getElem?_eq_some_iff.mp hi).1
    have hj2 := (List.getElem?_eq_some_iff.mp hj).1
    obtain ⟨rfl, rfl⟩ | ⟨rfl, rfl⟩ : (i = 0 ∧ j = 1) ∨ (i = 1 ∧ j = 0) := by omega
    · cases hi; cases hj; decide
    · cases hi; cases hj; decide
  have := (versioned_paths_contained_distinct (by decide +kernel) (by decide) hroots (by decide)
    (by decide)).2 h
  exact absurd this.2.1 (by decide)

/-! ## `..` の解決 -/

def resolveStep (dir : List (List Char)) (c : List Char) : List (List Char) :=
  if c = ['/'] then []
  else if c = ['.'] then dir
  else if c = ['.', '.'] then dir.dropLast
  else dir ++ [c]

def resolvePath (cwd : List (List Char)) (p : String) : List (List Char) :=
  (pathComponents p).foldl resolveStep cwd

def Inside (cwd : List (List Char)) (r : ShardRouter) (p : String) : Prop :=
  ∃ d ∈ r.devices, resolvePath cwd d <+: resolvePath cwd p

def Descends (cs : List (List Char)) : Prop := ∀ c ∈ cs, c ≠ ['.', '.'] ∧ c ≠ ['/']

instance (cs : List (List Char)) : Decidable (Descends cs) :=
  inferInstanceAs (Decidable (∀ c ∈ cs, c ≠ ['.', '.'] ∧ c ≠ ['/']))

theorem Descends.append {cs ds : List (List Char)} (hc : Descends cs) (hd : Descends ds) :
    Descends (cs ++ ds) :=
  fun c h => (List.mem_append.mp h).elim (hc c) (hd c)

theorem resolve_descends {cs : List (List Char)} (h : Descends cs) (dir : List (List Char)) :
    dir <+: cs.foldl resolveStep dir := by
  induction cs generalizing dir with
  | nil => exact List.prefix_refl dir
  | cons c cs ih =>
    obtain ⟨hup, hroot⟩ := h c List.mem_cons_self
    refine List.IsPrefix.trans ?_ (ih (fun c' h' => h c' (List.mem_cons_of_mem _ h')) _)
    simp only [resolveStep, hroot, hup, if_false]
    split
    · exact List.prefix_refl dir
    · exact List.prefix_append dir [c]

theorem inside_of_descends {cwd cs : List (List Char)} {d p : String} (hd : d ∈ r.devices)
    (hp : pathComponents p = pathComponents d ++ cs) (h : Descends cs) : r.Inside cwd p := by
  refine ⟨d, hd, ?_⟩
  unfold resolvePath
  rw [hp, List.foldl_append]
  exact resolve_descends h _

theorem slash_notMem_splitSlash {l piece : List Char} (h : piece ∈ splitSlash l) :
    '/' ∉ piece := by
  induction l generalizing piece with
  | nil => simp_all [splitSlash]
  | cons c l ih =>
    rw [splitSlash_cons] at h
    split at h
    · rcases List.mem_cons.mp h with rfl | h
      · simp
      · exact ih h
    · grind

theorem ne_root_of_relative {b : String} (hb : b.toList.head? ≠ some '/') :
    ∀ c ∈ pathComponents b, c ≠ ['/'] := by
  rintro c hc rfl
  unfold pathComponents at hc
  dsimp only at hc
  rw [if_neg hb] at hc
  have hpiece : ∀ c ∈ (splitSlash b.toList).filter fun s => decide (s ≠ [] ∧ s ≠ ['.']),
      '/' ∉ c := fun c h => slash_notMem_splitSlash (List.mem_of_mem_filter h)
  grind

theorem exists_dataDir_descends (hrel : r.RelativeSubdir) {root : String}
    (h : r.devices[dev]? = some root)
    (hsub : ['.', '.'] ∉ pathComponents r.dataSubdir) :
    ∃ cs, pathComponents (r.dataDir dev) = pathComponents root ++ cs ∧ Descends cs := by
  obtain ⟨cs, hcs, hmem⟩ := exists_pathComponents_pathJoin (a := root) hrel
  obtain ⟨ds, hds, hdata⟩ := exists_pathComponents_pathJoin
    (a := pathJoin root r.dataSubdir) (b := "data") (by decide)
  refine ⟨cs ++ ds, ?_, Descends.append (fun c hc => ⟨?_, ?_⟩) fun c hc => ?_⟩
  · unfold dataDir
    rw [h, ← List.append_assoc, ← hcs]
    exact hds
  · rintro rfl
    exact hsub (hmem _ hc)
  · exact ne_root_of_relative hrel c (hmem c hc)
  · have hd : c ∈ [['d', 'a', 't', 'a']] := hdata c hc
    rw [List.mem_singleton.mp hd]
    exact ⟨by decide, by decide⟩

theorem inside_versionedPath (cwd : List (List Char)) (hrel : r.RelativeSubdir)
    (hdev : dev < r.numDevices)
    (hsub : ['.', '.'] ∉ pathComponents r.dataSubdir) {p : String}
    (hp : pathComponents p = pathComponents (r.versionedPath X k dev g l kind)) :
    r.Inside cwd p := by
  have hroot := List.getElem?_eq_getElem hdev
  obtain ⟨cs, hcs, hdesc⟩ := exists_dataDir_descends hrel hroot hsub
  refine inside_of_descends (List.mem_of_getElem? hroot)
    (?_ : pathComponents p = _ ++ (cs ++ tailComponents X k g l kind))
    (hdesc.append fun c hc => ?_)
  · rw [hp, pathComponents_versionedPath, hcs, List.append_assoc]
  · obtain ⟨-, hslash, -, hup⟩ := tailComponents_plain X k g l kind c hc
    refine ⟨hup, ?_⟩
    rintro rfl
    simp at hslash

end ShardRouter

end ContextStore
