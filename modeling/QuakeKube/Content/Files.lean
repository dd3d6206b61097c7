/-
# The assets a content server lists

`getAssets` walks the assets directory and lists every map pack and installer
in it with its size and checksum (`internal/quake/content/files.go`). The
directory is a tree of named entries; `filepath.Walk` visits each of them once,
under the path `Join(parent, name)`. Reading the tree does not fail here: the
error branches of `walk` and `ReadFile` are left out.

Key definitions: `Node`, `walk`, `getAssets`.
Key theorems: `mem_walk`, `assetFile_name`.
-/
import QuakeKube.Lib.Bytes
import QuakeKube.Lib.Path
import Mathlib.Logic.Function.Iterate

namespace QuakeKube
namespace Content

open Go Loc

/-- The polynomial division of `crc32.ChecksumIEEE`, one bit. -/
def crcBit (c : UInt32) : UInt32 := if c &&& 1 = 1 then (c >>> 1) ^^^ 0xEDB88320 else c >>> 1

def crcByte (c : UInt32) (b : UInt8) : UInt32 := crcBit^[8] (c ^^^ b.toUInt32)

/-- `crc32.ChecksumIEEE`. -/
def checksumIEEE (data : Bytes) : UInt32 := data.foldl crcByte 0xFFFFFFFF ^^^ 0xFFFFFFFF

mutual

/-- A file, or a directory. -/
inductive Node
  | file (data : Bytes)
  | dir (entries : Entries)

/-- The entries of a directory, in the order `filepath.Walk` visits them. -/
inductive Entries
  | nil
  | cons (name : Name) (node : Node) (rest : Entries)

end

mutual

/-- What `filepath.Walk` visits: each node with its path. -/
def visitNode (path : Text) : Node → List (Text × Node)
  | .file data => [(path, .file data)]
  | .dir es => (path, .dir es) :: visitEntries path es

def visitEntries (path : Text) : Entries → List (Text × Node)
  | .nil => []
  | .cons n node rest => visitNode (join [path, n.val]) node ++ visitEntries path rest

end

def hasExts (path : Text) (exts : List Text) : Bool := exts.any fun ext => hasSuffix path ext

/-- `walk`: the files the walk function is called for, with their bytes. -/
def walk (root : Text) (node : Node) (exts : List Text) : List (Text × Bytes) :=
  (visitNode root node).filterMap fun v =>
    if hasExts v.1 exts then
      match v.2 with
      | .file data => some (v.1, data)
      | .dir _ => none
    else none

/-- An entry of the manifest. -/
structure File where
  name : Text
  compressed : ℕ
  checksum : UInt32
deriving DecidableEq

def assetExts : List Text := [txt ".pk3", txt ".sh", txt ".run"]

/-- The entry `getAssets` appends for a file. -/
def assetFile (dir : Text) (v : Text × Bytes) : File where
  name := trimPrefix v.1 (dir ++ ['/'])
  compressed := v.2.length
  checksum := checksumIEEE v.2

def getAssets (dir : Text) (node : Node) : List File := (walk dir node assetExts).map (assetFile dir)

/-! ### What is visited

Below a directory every path is the place of the directory followed by the
names on the way down, written in its shortest form. -/

mutual

theorem mem_visitNode {path : Text} (hp : path ≠ []) : ∀ (node : Node) (v : Text × Node),
    v ∈ visitNode path node → v = (path, node) ∨
      ∃ ns, ns ≠ [] ∧ v.1 = ((locate path).enter ns).render
  | .file data, v, hv => by
    left
    simpa [visitNode] using hv
  | .dir es, v, hv => by
    rcases List.mem_cons.mp hv with rfl | hv
    · exact Or.inl rfl
    · exact Or.inr (mem_visitEntries hp es v hv)

theorem mem_visitEntries {path : Text} (hp : path ≠ []) : ∀ (es : Entries) (v : Text × Node),
    v ∈ visitEntries path es → ∃ ns, ns ≠ [] ∧ v.1 = ((locate path).enter ns).render
  | .nil, v, hv => by simp [visitEntries] at hv
  | .cons n node rest, v, hv => by
    have hj := join_name hp n
    rcases List.mem_append.mp hv with hv | hv
    · rcases mem_visitNode (by rw [hj]; exact render_ne_nil _) node v hv with rfl | ⟨ns, -, h⟩
      · exact ⟨[n], List.cons_ne_nil _ _, hj⟩
      · rw [hj, locate_render, enter_enter] at h
        exact ⟨[n] ++ ns, List.cons_ne_nil _ _, h⟩
    · exact mem_visitEntries hp rest v hv

end

/-- A listed file of an assets directory: where it lies, and that its path has
one of the extensions asked for. -/
theorem mem_walk {dir : Text} (hd : dir ≠ []) {es : Entries} {exts : List Text} {v : Text × Bytes}
    (h : v ∈ walk dir (.dir es) exts) :
    hasExts v.1 exts = true ∧ ∃ ns, ns ≠ [] ∧ v.1 = ((locate dir).enter ns).render := by
  obtain ⟨⟨p, node⟩, hm, hv⟩ := List.mem_filterMap.mp h
  simp only at hv
  split at hv
  · rename_i hext
    cases node with
    | dir es' => simp at hv
    | file data =>
      simp only [Option.some.injEq] at hv
      subst hv
      refine ⟨hext, ?_⟩
      rcases mem_visitNode hd (.dir es) _ hm with he | hns
      · simp at he
      · exact hns
  · simp at hv

/-! ### The names of the manifest -/

theorem relative_head {ns : List Name} (h : ns ≠ []) :
    ∃ n : Name, ∃ t, relative ns = n.val ++ t ∧ (t = [] ∨ t.head? = some '/') := by
  obtain ⟨n, ns, rfl⟩ := List.exists_cons_of_ne_nil h
  by_cases hn : ns = []
  · subst hn
    exact ⟨n, [], by rw [relative_singleton, List.append_nil], Or.inl rfl⟩
  · exact ⟨n, _, relative_cons n hn, Or.inr rfl⟩

/-- A name is not the start of a text that goes on with a slash, unless it is
all of what comes before that slash. -/
theorem name_not_prefix {a : Text} {n : Name} {t : Text} (ha : '/' ∉ a) (hne : a ≠ n.val)
    (ht : t = [] ∨ t.head? = some '/') : ¬ (a ++ ['/'] <+: n.val ++ t) := by
  rintro ⟨s, hs⟩
  have h1 : (a ++ '/' :: s).splitOn '/' = a :: s.splitOn '/' := by
    rw [List.splitOn_append_cons_self, List.splitOn_eq_singleton ha, List.singleton_append]
  have hs : a ++ '/' :: s = n.val ++ t := by simpa using hs
  rcases ht with rfl | ht
  · exact n.property.2.2.2 (by rw [← List.append_nil n.val, ← hs]; simp)
  · obtain ⟨t, rfl⟩ : ∃ t', t = '/' :: t' := by
      cases t with
      | nil => simp at ht
      | cons c t => exact ⟨t, by simpa using ht⟩
    rw [hs, List.splitOn_append_cons_self, List.splitOn_eq_singleton n.property.2.2.2] at h1
    simp only [List.singleton_append, List.cons.injEq] at h1
    exact hne h1.1.symm

/-- **The name of a listed file** is its path below the directory. Only below
the root, whose text already ends in the slash that is trimmed, is it the
absolute path. -/
theorem assetFile_name (D : Loc) {ns : List Name} (h : ns ≠ []) (data : Bytes) :
    (assetFile D.render (((D.enter ns).render), data)).name =
      if D = root then '/' :: relative ns else relative ns := by
  simp only [assetFile]
  obtain ⟨n, t, hn, ht⟩ := relative_head h
  by_cases hs : D.segments = []
  · rcases eq_of_segments_nil hs with rfl | rfl
    · rw [render_root_enter, if_pos rfl]
      apply trimPrefix_of_not
      rintro ⟨s, hs⟩
      simp only [render, root, if_true, segments, List.replicate_zero, List.map_nil, List.append_nil,
        List.intercalate_nil, List.cons_append, List.nil_append, List.cons.injEq, true_and] at hs
      exact name_not_prefix (a := []) (by simp) (Ne.symm n.property.1) ht ⟨s, by rw [← hn]; exact hs⟩
    · rw [render_here_enter h, if_neg (by decide)]
      apply trimPrefix_of_not
      rw [hn]
      exact name_not_prefix (a := ['.']) (by decide) (Ne.symm n.property.2.1) ht
  · have hr : D ≠ root := by rintro rfl; exact hs rfl
    rw [render_enter hs h, if_neg hr, show D.render ++ '/' :: relative ns =
      (D.render ++ ['/']) ++ relative ns by simp]
    exact trimPrefix_append _ _

end Content
end QuakeKube
