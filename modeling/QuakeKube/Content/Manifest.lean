/-
# The manifest against the tree

What `getAssets` lists, compared with the files that lie in the tree. The walk
visits cleaned paths, and the names are what is left of them after the prefix
`dir + "/"`; `content.go` passes on an absolute directory as it is spelled. So
the names are the relative paths where the directory is spelled in its shortest
form and is not the root, whose text already ends in the slash
(`manifest_iff`).

Key definitions: `Node.files`, `served`, `Manifest`.
Key theorems: `mem_files_iff`, `getAssets_eq`, `clean_of_append_slash`, `manifest_iff`.
-/
import QuakeKube.Content.FileSystem
import Mathlib.Data.List.Nodup

namespace QuakeKube
namespace Content

open Go Loc

/-! ### The files of a tree -/

mutual

/-- The regular files of a tree, with the names on the way down. -/
def Node.files : Node → List (List Name × Bytes)
  | .file data => [([], data)]
  | .dir es => es.files

def Entries.files : Entries → List (List Name × Bytes)
  | .nil => []
  | .cons n node rest => (node.files.map fun f => (n :: f.1, f.2)) ++ rest.files

end

mutual

/-- No directory has two entries of one name. -/
def Node.Distinct : Node → Prop
  | .file _ => True
  | .dir es => es.Distinct

def Entries.Distinct : Entries → Prop
  | .nil => True
  | .cons n node rest => rest.get n = none ∧ node.Distinct ∧ rest.Distinct

end

theorem not_mem_files_of_get {n : Name} {ns : List Name} {data : Bytes} : ∀ es : Entries,
    es.get n = none → (n :: ns, data) ∉ es.files
  | .nil, _ => by simp [Entries.files]
  | .cons m node rest, h => by
    have hm : m ≠ n := by
      rintro rfl
      simp [Entries.get] at h
    rw [Entries.get, if_neg hm] at h
    simp [Entries.files, hm, not_mem_files_of_get rest h]

mutual

/-- The files are those that `os.Stat` finds. -/
theorem mem_files_iff {data : Bytes} : ∀ (node : Node) (ns : List Name), node.Distinct →
    ((ns, data) ∈ node.files ↔ node.stat ns = .file data)
  | .file data', [], _ => by simp [Node.files, Node.stat, eq_comm]
  | .file _, _ :: _, _ => by simp [Node.files, Node.stat]
  | .dir es, [], _ => by
    rw [Node.files, Node.stat]
    simpa using nil_not_mem_files es
  | .dir es, n :: ns, h => mem_entries_files_iff es n ns h

theorem nil_not_mem_files {data : Bytes} : ∀ es : Entries, ([], data) ∉ es.files
  | .nil => by simp [Entries.files]
  | .cons n node rest => by simp [Entries.files, nil_not_mem_files rest]

theorem mem_entries_files_iff {data : Bytes} : ∀ (es : Entries) (n : Name) (ns : List Name), es.Distinct →
    ((n :: ns, data) ∈ es.files ↔ (Node.dir es).stat (n :: ns) = .file data)
  | .nil, n, ns, _ => by simp [Entries.files, Node.stat, Entries.get]
  | .cons m node rest, n, ns, ⟨hm, hnode, hrest⟩ => by
    have ih : (n :: ns, data) ∈ rest.files ↔ (Node.dir rest).stat (n :: ns) = .file data :=
      mem_entries_files_iff rest n ns hrest
    rw [Entries.files, List.mem_append]
    by_cases h : m = n
    · subst h
      have hg : (Entries.cons m node rest).get m = some node := by rw [Entries.get, if_pos rfl]
      rw [Node.stat_cons_of_get hg, ← mem_files_iff node ns hnode]
      simp [not_mem_files_of_get rest hm]
    · have hg : (Node.dir (.cons m node rest)).stat (n :: ns) = (Node.dir rest).stat (n :: ns) := by
        rw [Node.stat, Node.stat, Entries.get, if_neg h]
      rw [hg, ← ih]
      simp [h]

end

mutual

/-- No file is listed twice. -/
theorem nodup_files : ∀ node : Node, node.Distinct → (node.files.map Prod.fst).Nodup
  | .file _, _ => by simp [Node.files]
  | .dir es, h => nodup_entries_files es h

theorem nodup_entries_files : ∀ es : Entries, es.Distinct → (es.files.map Prod.fst).Nodup
  | .nil, _ => by simp [Entries.files]
  | .cons n node rest, ⟨hn, hnode, hrest⟩ => by
    have hm : (node.files.map fun f => (n :: f.1, f.2)).map Prod.fst =
        (node.files.map Prod.fst).map (List.cons n) := by
      rw [List.map_map, List.map_map]
      rfl
    rw [Entries.files, List.map_append, hm]
    apply List.nodup_append.mpr
    refine ⟨(nodup_files node hnode).map List.cons_injective, nodup_entries_files rest hrest, ?_⟩
    -- a name comes once among the entries
    intro p hp q hq he
    obtain ⟨ns, -, rfl⟩ := List.mem_map.mp hp
    obtain ⟨f, hf, rfl⟩ := List.mem_map.mp hq
    obtain ⟨p, data⟩ := f
    simp only at he
    subst he
    exact not_mem_files_of_get rest hn hf

end

/-! ### The walk lists them -/

/-- Where a file of the tree lies. -/
def filePath (dir : Text) (ns : List Name) : Text := ((locate dir).enter ns).render

/-- The files among what is visited. -/
def visitedFile : Text × Node → Option (Text × Bytes)
  | (p, .file data) => some (p, data)
  | (_, .dir _) => none

mutual

theorem visitNode_files (D : Loc) : ∀ node : Node,
    (visitNode D.render node).filterMap visitedFile = node.files.map fun f => ((D.enter f.1).render, f.2)
  | .file data => by simp [visitNode, visitedFile, Node.files]
  | .dir es => by
    rw [visitNode, List.filterMap_cons_none rfl, visitEntries_files (render_ne_nil D), Node.files]
    simp only [filePath, locate_render]

/-- **Every file is visited once**, under its path. -/
theorem visitEntries_files {path : Text} (hp : path ≠ []) : ∀ es : Entries,
    (visitEntries path es).filterMap visitedFile = es.files.map fun f => (filePath path f.1, f.2)
  | .nil => rfl
  | .cons n node rest => by
    rw [visitEntries, List.filterMap_append, visitEntries_files hp rest, Entries.files, List.map_append,
      join_name hp n, visitNode_files _ node, List.map_map]
    simp only [enter_enter, Function.comp_def, filePath, List.singleton_append]

end

/-- A walk lists the files whose path has one of the extensions. -/
theorem walk_eq_files {dir : Text} (hd : dir ≠ []) (es : Entries) (exts : List Text) :
    walk dir (.dir es) exts =
      (es.files.map fun f => (filePath dir f.1, f.2)).filter fun v => hasExts v.1 exts := by
  rw [← visitEntries_files hd es, List.filter_filterMap]
  rw [walk, visitNode, List.filterMap_cons_none (by split <;> rfl)]
  apply List.filterMap_congr
  rintro ⟨p, node⟩ -
  cases node <;> simp [visitedFile, Option.filter]

/-! ### What the manifest should say -/

/-- A file that is served: its path ends in one of the extensions. -/
def isServed (f : List Name × Bytes) : Bool := hasExts (relative f.1) assetExts

def served (es : Entries) : List (List Name × Bytes) := es.files.filter isServed

/-- The entry a served file should have: its path below the directory, its size
and its checksum. -/
def entry (f : List Name × Bytes) : File where
  name := relative f.1
  compressed := f.2.length
  checksum := checksumIEEE f.2

/-- What the manifest of a directory should be. -/
structure Manifest (dir : Text) (es : Entries) (fs : List File) : Prop where
  /-- One entry for each served file, and no other. -/
  entries : fs.Perm ((served es).map entry)
  /-- Its name, joined to the directory, is where the file lies. -/
  joined : ∀ f ∈ served es, join [dir, (entry f).name] = filePath dir f.1

theorem ne_nil_of_mem_files {es : Entries} {f : List Name × Bytes} (h : f ∈ es.files) : f.1 ≠ [] := by
  intro hn
  obtain ⟨ns, data⟩ := f
  simp only at hn
  subst hn
  exact nil_not_mem_files es h

/-- An extension without a slash ends a path where it ends its last name. -/
theorem hasExts_filePath_of_noSlash {exts : List Text} (hn : ∀ e ∈ exts, '/' ∉ e) (dir : Text) {ns : List Name}
    (hns : ns ≠ []) : hasExts (filePath dir ns) exts = hasExts (relative ns) exts := by
  have hsuf : ∀ e : Text, '/' ∉ e → (e <:+ filePath dir ns ↔ e <:+ relative ns) := by
    intro e he
    have hslash : ∀ d : Text, e <:+ d ++ '/' :: relative ns ↔ e <:+ relative ns := fun d =>
      ⟨suffix_of_append_slash he, fun h => h.trans ⟨d ++ ['/'], by simp⟩⟩
    by_cases hs : (locate dir).segments = []
    · rcases eq_of_segments_nil hs with hr | hr
      · rw [filePath, hr, render_root_enter]
        exact hslash []
      · rw [filePath, hr, render_here_enter hns]
    · rw [filePath, render_enter hs hns]
      exact hslash _
  apply Bool.eq_iff_iff.mpr
  simp only [hasExts, hasSuffix, List.any_eq_true, decide_eq_true_eq]
  exact exists_congr fun e => and_congr_right fun he => hsuf e (hn e he)

theorem hasExts_filePath (dir : Text) {ns : List Name} (hns : ns ≠ []) :
    hasExts (filePath dir ns) assetExts = hasExts (relative ns) assetExts :=
  hasExts_filePath_of_noSlash (by simp [assetExts, txt]) dir hns

/-- What `getAssets` lists: the served files, each named after its path. -/
theorem getAssets_eq {dir : Text} (hd : dir ≠ []) (es : Entries) :
    getAssets dir (.dir es) = (served es).map fun f => assetFile dir (filePath dir f.1, f.2) := by
  have hf : es.files.filter (fun f => hasExts (filePath dir f.1) assetExts) = served es :=
    List.filter_congr fun f h => hasExts_filePath dir (ne_nil_of_mem_files h)
  rw [getAssets, walk_eq_files hd, List.filter_map, List.map_map, ← hf]
  rfl

/-! ### The prefix that is trimmed -/

theorem splitOn_root_enter {ns : List Name} (hns : ns ≠ []) :
    (root.enter ns).render.splitOn '/' = [] :: ns.map Subtype.val := by
  have h : ∀ s ∈ ns.map Subtype.val, '/' ∉ s := by
    intro s hs
    obtain ⟨n, -, rfl⟩ := List.mem_map.mp hs
    exact n.property.2.2.2
  calc (root.enter ns).render.splitOn '/'
      = ([] ++ '/' :: relative ns).splitOn '/' := by rw [render_root_enter, List.nil_append]
    _ = [] :: (relative ns).splitOn '/' := by
      rw [List.splitOn_append_cons_self, List.splitOn_nil, List.singleton_append]
    _ = [] :: ns.map Subtype.val := by
      rw [relative, List.splitOn_intercalate _ h (by rwa [ne_eq, List.map_eq_nil_iff])]

/-- **A cleaned path goes on from a directory's text only where that text is
cleaned too**, and is not the root's, which has the slash already. -/
theorem clean_of_append_slash {dir : Text} (habs : dir.head? = some '/') {ns : List Name} (hns : ns ≠ [])
    (h : dir ++ ['/'] <+: (root.enter ns).render) : clean dir = dir ∧ dir ≠ ['/'] := by
  obtain ⟨t, ht⟩ := h
  obtain ⟨d, rfl⟩ := List.head?_eq_some_iff.mp habs
  have hsplit : ['/'].intercalate (d.splitOn '/') = d := List.intercalate_splitOn '/'
  -- the segments of the directory are names of the path
  have hseg : d.splitOn '/' ++ t.splitOn '/' = ns.map Subtype.val := by
    have h1 := splitOn_root_enter hns
    rw [← ht, show '/' :: d ++ ['/'] ++ t = [] ++ '/' :: (d ++ '/' :: t) by simp,
      List.splitOn_append_cons_self, List.splitOn_append_cons_self, List.splitOn_nil,
      List.singleton_append] at h1
    exact (List.cons.inj h1).2
  obtain ⟨ms, ks, rfl, hms, -⟩ := List.append_eq_map_iff.mp hseg
  have hm : ms ≠ [] := by
    rintro rfl
    exact List.splitOn_ne_nil '/' d hms.symm
  have hd : (root.enter ms).render = '/' :: d := by
    rw [render_root_enter, relative, hms, hsplit]
  constructor
  · rw [← hd, clean, locate_render]
  · rw [← hd, render_root_enter]
    intro he
    have hr : relative ms = [] := (List.cons.inj he).2
    obtain ⟨n, t, hn, -⟩ := relative_head hm
    rw [hn, List.append_eq_nil_iff] at hr
    exact n.property.1 hr.1

/-! ### The names -/

theorem locate_absolute {dir : Text} (habs : dir.head? = some '/') :
    locate dir = root.enter (locate dir).names := by
  have hr : (locate dir).rooted = true := by
    rw [locate, walk_rooted]
    exact (start_rooted dir).mpr habs
  ext1
  · exact hr
  · exact (locate dir).rooted_ups hr
  · rfl

theorem filePath_absolute {dir : Text} (habs : dir.head? = some '/') (ns : List Name) :
    filePath dir ns = (root.enter ((locate dir).names ++ ns)).render := by
  rw [filePath, locate_absolute habs, enter_enter]
  rfl

/-- A listed file has its relative path as its name where the directory is
spelled in its shortest form and is not the root. -/
theorem assetFile_eq_entry {dir : Text} (hc : clean dir = dir) (hr : dir ≠ ['/']) {f : List Name × Bytes}
    (hf : f.1 ≠ []) : assetFile dir (filePath dir f.1, f.2) = entry f := by
  have hroot : locate dir ≠ root := by
    intro h
    apply hr
    rw [← hc, clean, h]
    rfl
  have hname := assetFile_name (locate dir) hf f.2
  rw [if_neg hroot, show (locate dir).render = dir from hc] at hname
  rw [entry, ← hname]
  rfl

/-- Otherwise no prefix is trimmed, and the name is the path. -/
theorem assetFile_name_path {dir : Text} (habs : dir.head? = some '/')
    (h : ¬ (clean dir = dir ∧ dir ≠ ['/'])) {f : List Name × Bytes} (hf : f.1 ≠ []) :
    (assetFile dir (filePath dir f.1, f.2)).name = filePath dir f.1 := by
  have hns : (locate dir).names ++ f.1 ≠ [] := by simp [hf]
  have hp : ¬ (dir ++ ['/'] <+: filePath dir f.1) := by
    rw [filePath_absolute habs]
    exact fun hp => h (clean_of_append_slash habs hns hp)
  exact trimPrefix_of_not hp

theorem filePath_head {dir : Text} (habs : dir.head? = some '/') (ns : List Name) :
    (filePath dir ns).head? = some '/' := by
  rw [filePath_absolute habs, render_root_enter]
  rfl

theorem relative_head_ne {ns : List Name} (h : ns ≠ []) : (relative ns).head? ≠ some '/' := by
  obtain ⟨n, t, hn, -⟩ := relative_head h
  obtain ⟨c, cs, hc⟩ := List.exists_cons_of_ne_nil n.property.1
  rw [hn, hc]
  intro he
  have hcs : c = '/' := by simpa using he
  exact n.property.2.2.2 (by rw [hc, hcs]; exact List.mem_cons_self)

theorem join_relative {dir : Text} (hd : dir ≠ []) {ns : List Name} (hns : ns ≠ []) :
    join [dir, relative ns] = filePath dir ns := by
  rw [join_eq_render hd, List.flatMap_singleton, moves_relative hns, walk_into]
  rfl

/-- **When the manifest names the served files.** Where anything is served, the
directory must be spelled in its shortest form, and not be the root. -/
theorem manifest_iff (dir : Text) (habs : dir.head? = some '/') (es : Entries) :
    Manifest dir es (getAssets dir (.dir es)) ↔ served es = [] ∨ (clean dir = dir ∧ dir ≠ ['/']) := by
  have hd : dir ≠ [] := by
    rintro rfl
    simp at habs
  have hne : ∀ f ∈ served es, f.1 ≠ [] := fun f hf => ne_nil_of_mem_files (List.mem_filter.mp hf).1
  rw [getAssets_eq hd]
  constructor
  · intro h
    by_cases hs : served es = []
    · exact .inl hs
    · obtain ⟨f, hf⟩ := List.exists_mem_of_ne_nil _ hs
      right
      by_contra hc
      -- the name of a served file would start with a slash and not start with one
      have hm := (h.entries.mem_iff (a := assetFile dir (filePath dir f.1, f.2))).mp
        (List.mem_map_of_mem hf)
      obtain ⟨g, hg, he⟩ := List.mem_map.mp hm
      have hhead := filePath_head habs f.1
      rw [← assetFile_name_path habs hc (hne f hf), ← he] at hhead
      exact relative_head_ne (hne g hg) hhead
  · intro h
    refine ⟨?_, fun f hf => join_relative hd (hne f hf)⟩
    rcases h with hs | ⟨hc, hr⟩
    · rw [hs]
      exact List.Perm.nil
    · rw [List.map_congr_left fun f hf => assetFile_eq_entry hc hr (hne f hf)]

theorem isName_pak0 : IsName (txt "pak0.pk3") := by with_unfolding_all decide

/-- A directory with one map pack, which is empty. -/
def onePack : Entries := .cons ⟨txt "pak0.pk3", isName_pak0⟩ (.file []) .nil

theorem manifest_iff_clean : Manifest (txt "/assets") onePack (getAssets (txt "/assets") (.dir onePack)) :=
  (manifest_iff (txt "/assets") (by with_unfolding_all decide) onePack).mpr
    (.inr (by with_unfolding_all decide))

/-- Spelled with a slash at its end, the directory is not trimmed. -/
theorem manifest_trailing_slash :
    (getAssets (txt "/assets/") (.dir onePack)).map File.name = [txt "/assets/pak0.pk3"] ∧
      ¬ Manifest (txt "/assets/") onePack (getAssets (txt "/assets/") (.dir onePack)) := by
  have hnames : (getAssets (txt "/assets/") (.dir onePack)).map File.name = [txt "/assets/pak0.pk3"] := by
    with_unfolding_all decide
  have hserved : (served onePack).map (fun f => (entry f).name) = [txt "pak0.pk3"] := by
    with_unfolding_all decide
  refine ⟨hnames, fun h => ?_⟩
  have hp := h.entries.map File.name
  rw [hnames, List.map_map, Function.comp_def, hserved, List.singleton_perm_singleton] at hp
  exact absurd hp (by with_unfolding_all decide)

end Content
end QuakeKube
