/-
# The content server as a store

The handlers of `internal/quake/content/router.go` over the tree of files: what a
request answers, and what it makes of the tree. A file that is created is empty at
first, and the bytes follow; an upload can fail at each of its steps, and leaves
what it has written until then.

Seen as a store of bytes under paths, a request writes under the paths of its
uploads only, and none but an upload writes (`handle_stores`); an upload that is
answered with a page has stored every pack of it, and each is held until another
upload goes to its path (`uploaded_held`). Uploads that stay in the directory leave
everything else alone (`run_outside`).

Key definitions: `contents`, `Posted`, `handlePost`, `getMaps`, `Request`, `handle`.
Key theorems: `handle_stores`, `run_writes`, `uploaded_held`, `run_outside`.
-/
import QuakeKube.Content.Confined
import QuakeKube.Content.Listing
import QuakeKube.Content.Router
import QuakeKube.Lib.Store
import Mathlib.Data.List.Infix

namespace QuakeKube
namespace Content

open Go Loc Store

/-! ### The tree as a store -/

/-- What is held under the paths of a tree. -/
def Node.contents (root : Node) (p : List Name) : Option Bytes :=
  match root.stat p with
  | .file data => some data
  | _ => none

abbrev FileSystem.contents (fs : FileSystem) : List Name → Option Bytes := fs.root.contents

namespace Node

variable {root root' : Node} {p q : List Name} {data : Bytes}

theorem contents_eq_some : root.contents p = some data ↔ root.stat p = .file data := by
  unfold contents
  split <;> simp_all

/-- Below a file there is nothing. -/
theorem contents_below (h : root.stat p ≠ .dir) (hq : p <+: q) (hne : q ≠ p) : root.contents q = none := by
  by_contra hc
  obtain ⟨data, hd⟩ := Option.ne_none_iff_exists'.mp hc
  obtain ⟨r, rfl⟩ := hq
  rw [contents_eq_some] at hd
  obtain ⟨node, hn⟩ := find_of_stat_file p hd
  rw [stat_of_find p hn] at hd
  have hp : root.stat p = node.stat [] := by rw [← stat_of_find p hn, List.append_nil]
  cases node with
  | dir es => exact h hp
  | file _ =>
    obtain ⟨n, r, rfl⟩ := List.exists_cons_of_ne_nil fun he : r = [] => hne (by rw [he, List.append_nil])
    simp [stat] at hd

/-- **A write that succeeds is a write to the store.** -/
theorem contents_writeFile (h : root.writeFile data p = some root') :
    root'.contents = put root.contents (p, data) := by
  have hself := stat_writeFile_self p h
  funext q
  by_cases hq : q = p
  · rw [hq, contents_eq_some.mpr hself]
    exact (put_self root.contents (p, data)).symm
  · rw [put_of_ne hq]
    by_cases hp : p <+: q
    · rw [contents_below (by rw [hself]; simp) hp hq,
        contents_below (stat_ne_dir_of_writeFile p h p List.prefix_rfl) hp hq]
    · rw [contents, contents, stat_writeFile_of_ne p h q hp]

end Node

namespace FileSystem

variable {F : Faults} {fs : FileSystem} {path : Text} {data : Bytes}

theorem contents_writeFile (h : (fs.writeFile F path data).1 = none) :
    (fs.writeFile F path data).2.contents = put fs.contents (fs.place path, data) := by
  rcases writeFile_cases F fs path data with ⟨-, -, hw⟩ | ⟨hne, -⟩
  · exact Node.contents_writeFile hw
  · exact absurd h hne

/-- However it ends, a write writes to its path only. -/
theorem writes_writeFile (F : Faults) (fs : FileSystem) (path : Text) (data : Bytes) :
    Writes {fs.place path} fs.contents (fs.writeFile F path data).2.contents := by
  have hput : ∀ {d}, fs.root.writeFile d (fs.place path) = some (fs.writeFile F path data).2.root →
      Writes {fs.place path} fs.contents (fs.writeFile F path data).2.contents := by
    intro d hw
    have hd : (fs.writeFile F path data).2.contents = put fs.contents (fs.place path, d) :=
      Node.contents_writeFile hw
    rw [hd]
    exact .single (Set.mem_singleton _) _ _
  rcases writeFile_cases F fs path data with ⟨-, -, hw⟩ | ⟨-, hr | ⟨-, k, hw⟩⟩
  · exact hput hw
  · have he : (fs.writeFile F path data).2.contents = fs.contents := congrArg Node.contents hr
    rw [he]
    exact .refl _ _
  · exact hput hw

end FileSystem

/-! ### The handlers -/

/-- An entry of an uploaded archive: what opening it gives, and then the bytes that
are read and the error that ends them. -/
structure PostedEntry where
  name : Text
  opened : Except Text (Bytes × Option Text)

/-- The form's file, and what `zip.NewReader` makes of it. -/
structure Posted where
  filename : Text
  source : Bytes × Option Text
  archive : Except Text (List PostedEntry)

inductive Response
  | file (data : Bytes)
  | json (body : Bytes)
  | notFound
  /-- What the framework makes of a directory. -/
  | directory
  | page (html : Text)
  | failed (text : Text)
deriving DecidableEq

section Handlers

variable (R : Readers) (F : Faults) (walkError : Text → Text)

/-- `os.Create`, which leaves an empty file, and `io.Copy`. -/
def storeFile (path : Text) (source : Bytes × Option Text) (fs : FileSystem) : Option Text × FileSystem :=
  match fs.writeFile F path [] with
  | (some err, fs) => (some (txt "failed to create file: " ++ err), fs)
  | (none, fs) =>
    match fs.writeFile F path source.1 with
    | (some err, fs) => (some (txt "failed to copy file: " ++ err), fs)
    | (none, fs) => (source.2.map fun err => txt "failed to copy file: " ++ err, fs)

/-- The loop over the archive's entries. `files` are the map packs stored so far. -/
def storeEntries (assetsDir name filename : Text) :
    List PostedEntry → List Text → FileSystem → Response × FileSystem
  | [], files, fs => (.page (if files = [] then emptyPage filename else loadedPage filename files), fs)
  | f :: rest, files, fs =>
    if hasExts f.name [txt ".pk3"] then
      match f.opened with
      | .error err => (.failed (txt "failed to open file: " ++ err), fs)
      | .ok source =>
        match storeFile F (join [assetsDir, name, base f.name]) source fs with
        | (some err, fs) => (.failed err, fs)
        | (none, fs) => storeEntries assetsDir name filename rest (files ++ [base f.name]) fs
    else storeEntries assetsDir name filename rest files fs

/-- `POST /maps`: the form's file is missing, cannot be opened, or is there. -/
def handlePost (assetsDir name : Text) (file : Except Text (Except Text Posted)) (fs : FileSystem) :
    Response × FileSystem :=
  match file with
  | .error err => (.failed (txt "failed to get file: " ++ err), fs)
  | .ok (.error err) => (.failed (txt "failed to open file: " ++ err), fs)
  | .ok (.ok up) =>
    if hasExts up.filename [txt ".zip"] then
      match up.archive with
      | .error err => (.failed (txt "failed to read zip: " ++ err), fs)
      | .ok entries => storeEntries F assetsDir name up.filename entries [] fs
    else
      match storeFile F (join [assetsDir, name, up.filename]) up.source fs with
      | (some err, fs) => (.failed err, fs)
      | (none, fs) => (.page (uploadedPage (join [name, up.filename])), fs)

/-- `GET /assets/*`. -/
def handleAsset (assetsDir param : Text) (fs : FileSystem) : Response :=
  let path := assetPath assetsDir param
  if fs.notExist F path then .notFound
  else if path = [] then .notFound
  else
    match fs.root.stat (fs.place path) with
    | .file data => .file data
    | .dir => .directory
    | _ => .notFound

/-- What `filepath.Walk` finds under the directory. -/
def walked (assetsDir : Text) (fs : FileSystem) : Option Node :=
  if assetsDir = [] then none else fs.root.find (fs.place assetsDir)

/-- `GET /assets/manifest.json`. -/
def handleManifest (assetsDir : Text) (fs : FileSystem) : Response :=
  match walked assetsDir fs with
  | none => .failed (txt "failed to get assets: failed to walk: " ++ walkError assetsDir)
  | some node => .json (manifestBody (getAssets assetsDir node))

/-- `strings.TrimSuffix`. -/
def trimSuffix (s t : Text) : Text := if hasSuffix s t then s.take (s.length - t.length) else s

/-- `MapPack.Maps`, for a pack with these entries. -/
def packMaps (path : Text) (files : List ZipFile) : List Map :=
  (files.filter fun f => hasExts f.name [txt ".bsp"]).map fun f =>
    ⟨join [base (Go.dir path), base path], trimSuffix (base f.name) (txt ".bsp")⟩

/-- The maps of some packs, up to the first that cannot be read. -/
def mapsOf : List (Text × Bytes) → Except Text (List Map)
  | [] => .ok []
  | (path, data) :: rest =>
    match R.zip data with
    | .error err => .error (txt "failed to open map pack: " ++ err)
    | .ok files => (mapsOf rest).map fun maps => packMaps path files ++ maps

def getMaps (assetsDir : Text) (node : Node) : Except Text (List Map) :=
  mapsOf R (walk assetsDir node [txt ".pk3"])

/-- `GET /maps`. -/
def handleMaps (assetsDir : Text) (fs : FileSystem) : Response :=
  match walked assetsDir fs with
  | none => .failed (txt "failed to get maps: failed to walk: " ++ walkError assetsDir)
  | some node =>
    match getMaps R assetsDir node with
    | .error err => .failed (txt "failed to get maps: " ++ err)
    | .ok maps => .json (mapsBody maps)

inductive Request
  | manifest
  | asset (param : Text)
  | maps
  | post (name : Text) (file : Except Text (Except Text Posted))

/-- A request to a server of a directory. -/
def handle (assetsDir : Text) (fs : FileSystem) : Request → Response × FileSystem
  | .manifest => (handleManifest walkError assetsDir fs, fs)
  | .asset param => (handleAsset F assetsDir param fs, fs)
  | .maps => (handleMaps R walkError assetsDir fs, fs)
  | .post name file => handlePost F assetsDir name file fs

/-- Requests one after the other. -/
def run (assetsDir : Text) (fs : FileSystem) (reqs : List Request) : FileSystem :=
  reqs.foldl (fun fs req => (handle R F walkError assetsDir fs req).2) fs

end Handlers

/-! ### What a request writes -/

/-- The map packs of an archive, under their base names. -/
def packFiles (entries : List PostedEntry) : List (Text × Bytes) :=
  (entries.filter fun f => hasExts f.name [txt ".pk3"]).map fun f =>
    (base f.name, (f.opened.toOption.map Prod.fst).getD [])

/-- The names an upload stores files under, with their bytes. -/
def Posted.files (up : Posted) : List (Text × Bytes) :=
  if hasExts up.filename [txt ".zip"] then
    match up.archive with
    | .error _ => []
    | .ok entries => packFiles entries
  else [(up.filename, up.source.1)]

/-- Where the files of an upload go, from a working directory. -/
def placed (assetsDir name : Text) (cwd : List Name) (files : List (Text × Bytes)) :
    List (List Name × Bytes) :=
  files.map fun f => (absolute cwd (locate (join [assetsDir, name, f.1])), f.2)

def Request.writes (assetsDir : Text) (cwd : List Name) : Request → List (List Name × Bytes)
  | .post name (.ok (.ok up)) => placed assetsDir name cwd up.files
  | _ => []

/-- The keys of some writes. -/
def keys (ws : List (List Name × Bytes)) : Set (List Name) := {p | ∃ w ∈ ws, w.1 = p}

theorem keys_cons (w : List Name × Bytes) (ws : List (List Name × Bytes)) :
    {w.1} ⊆ keys (w :: ws) ∧ keys ws ⊆ keys (w :: ws) := by
  constructor
  · rintro p rfl
    exact ⟨w, List.mem_cons_self, rfl⟩
  · rintro p ⟨v, hv, rfl⟩
    exact ⟨v, List.mem_cons_of_mem w hv, rfl⟩

theorem packFiles_cons (f : PostedEntry) (rest : List PostedEntry) : packFiles (f :: rest) =
    if hasExts f.name [txt ".pk3"] then
      (base f.name, (f.opened.toOption.map Prod.fst).getD []) :: packFiles rest
    else packFiles rest := by
  rw [packFiles, List.filter_cons]
  split <;> rfl

section Writes

variable {R : Readers} {F : Faults} {walkError : Text → Text} {assetsDir name : Text} {fs : FileSystem}

theorem storeFile_writes (path : Text) (source : Bytes × Option Text) (fs : FileSystem) :
    (storeFile F path source fs).2.cwd = fs.cwd ∧
      Writes {fs.place path} fs.contents (storeFile F path source fs).2.contents := by
  have hcreate := FileSystem.writes_writeFile F fs path []
  have hcwd : (fs.writeFile F path []).2.cwd = fs.cwd := FileSystem.writeFile_cwd
  unfold storeFile
  split
  · rename_i he
    rw [he] at hcreate hcwd
    exact ⟨hcwd, hcreate⟩
  · rename_i made he
    rw [he] at hcreate hcwd
    have hcopy := FileSystem.writes_writeFile F made path source.1
    have hcwd' : (made.writeFile F path source.1).2.cwd = made.cwd := FileSystem.writeFile_cwd
    rw [place_congr hcwd] at hcopy
    split
    · rename_i he'
      rw [he'] at hcopy hcwd'
      exact ⟨hcwd'.trans hcwd, hcreate.trans hcopy⟩
    · rename_i he'
      rw [he'] at hcopy hcwd'
      exact ⟨hcwd'.trans hcwd, hcreate.trans hcopy⟩

/-- A file that is stored without an error holds all its bytes. -/
theorem storeFile_stored (path : Text) (source : Bytes × Option Text) (fs : FileSystem)
    (h : (storeFile F path source fs).1 = none) :
    (storeFile F path source fs).2.contents = put fs.contents (fs.place path, source.1) := by
  unfold storeFile at h ⊢
  split at h
  · cases h
  · rename_i made he
    have hmade : (fs.writeFile F path []).1 = none := by rw [he]
    have hcreate := FileSystem.contents_writeFile hmade
    have hcwd : (fs.writeFile F path []).2.cwd = fs.cwd := FileSystem.writeFile_cwd
    rw [he] at hcreate hcwd
    split at h
    · cases h
    · rename_i copied he'
      have hcopied : (made.writeFile F path source.1).1 = none := by rw [he']
      have hcopy := FileSystem.contents_writeFile hcopied
      rw [he', place_congr hcwd, hcreate, put_put] at hcopy
      exact hcopy

/-- What a step of the server does: the working directory stays, some files are
written, and all of them when it answers with a page. -/
structure Stores (ws : List (List Name × Bytes)) (fs : FileSystem) (r : Response × FileSystem) : Prop where
  cwd : r.2.cwd = fs.cwd
  writes : Writes (keys ws) fs.contents r.2.contents
  stored : ∀ html, r.1 = .page html → r.2.contents = puts fs.contents ws

theorem Stores.fail {ws : List (List Name × Bytes)} {r : Response × FileSystem} (hcwd : r.2.cwd = fs.cwd)
    (hw : Writes (keys ws) fs.contents r.2.contents) (h : ∀ html, r.1 ≠ .page html) : Stores ws fs r :=
  ⟨hcwd, hw, fun html he => absurd he (h html)⟩

theorem stores_entries (filename : Text) :
    ∀ (entries : List PostedEntry) (files : List Text) (fs : FileSystem),
    Stores (placed assetsDir name fs.cwd (packFiles entries)) fs
      (storeEntries F assetsDir name filename entries files fs)
  | [], _, fs => ⟨rfl, .refl _ _, fun _ _ => rfl⟩
  | f :: rest, files, fs => by
    unfold storeEntries
    rw [packFiles_cons]
    by_cases hf : hasExts f.name [txt ".pk3"] = true
    · rw [if_pos hf, if_pos hf]
      cases ho : f.opened with
      | error err => exact .fail rfl (.refl _ _) fun _ => Response.noConfusion
      | ok source =>
        have hwritten : (Except.toOption (.ok source : Except Text (Bytes × Option Text))).map Prod.fst =
          some source.1 := rfl
        rw [hwritten, Option.getD_some]
        obtain ⟨hcwd, hw⟩ := storeFile_writes (F := F) (join [assetsDir, name, base f.name]) source fs
        have hstored := storeFile_stored (F := F) (join [assetsDir, name, base f.name]) source fs
        obtain ⟨hhead, htail⟩ := keys_cons (fs.place (join [assetsDir, name, base f.name]), source.1)
          (placed assetsDir name fs.cwd (packFiles rest))
        dsimp only
        split
        · rename_i he
          rw [he] at hcwd hw
          exact .fail hcwd (hw.mono hhead) fun _ => Response.noConfusion
        · rename_i fs' he
          rw [he] at hcwd hw hstored
          have ih := stores_entries filename rest (files ++ [base f.name]) fs'
          rw [hcwd] at ih
          refine ⟨ih.cwd.trans hcwd, (hw.mono hhead).trans (ih.writes.mono htail), fun html hp => ?_⟩
          rw [ih.stored html hp, hstored rfl]
          rfl
    · rw [if_neg hf, if_neg hf]
      exact stores_entries filename rest files fs

/-- **What a request does**: it writes its uploads, all of them when it is answered
with a page, and nothing else. -/
theorem handle_stores (req : Request) :
    Stores (req.writes assetsDir fs.cwd) fs (handle R F walkError assetsDir fs req) := by
  cases req with
  | manifest =>
    refine .fail rfl (.refl _ _) fun html => ?_
    unfold handle handleManifest
    dsimp only
    split <;> exact Response.noConfusion
  | asset param =>
    refine .fail rfl (.refl _ _) fun html => ?_
    unfold handle handleAsset
    dsimp only
    split_ifs
    · exact Response.noConfusion
    · exact Response.noConfusion
    · split <;> exact Response.noConfusion
  | maps =>
    refine .fail rfl (.refl _ _) fun html => ?_
    unfold handle handleMaps
    dsimp only
    split
    · exact Response.noConfusion
    · split <;> exact Response.noConfusion
  | post name file =>
    unfold handle handlePost
    dsimp only
    rcases file with err | err | up
    · exact .fail rfl (.refl _ _) fun _ => Response.noConfusion
    · exact .fail rfl (.refl _ _) fun _ => Response.noConfusion
    · dsimp only [Request.writes]
      unfold Posted.files
      by_cases hz : hasExts up.filename [txt ".zip"] = true
      · rw [if_pos hz, if_pos hz]
        cases up.archive with
        | error err => exact .fail rfl (.refl _ _) fun _ => Response.noConfusion
        | ok entries => exact stores_entries up.filename entries [] fs
      · rw [if_neg hz, if_neg hz]
        obtain ⟨hcwd, hw⟩ := storeFile_writes (F := F) (join [assetsDir, name, up.filename]) up.source fs
        have hstored := storeFile_stored (F := F) (join [assetsDir, name, up.filename]) up.source fs
        have hhead := (keys_cons (fs.place (join [assetsDir, name, up.filename]), up.source.1) []).1
        split
        · rename_i he
          rw [he] at hcwd hw
          exact .fail hcwd (hw.mono hhead) fun _ => Response.noConfusion
        · rename_i fs' he
          rw [he] at hcwd hw hstored
          exact ⟨hcwd, hw.mono hhead, fun _ _ => hstored rfl⟩

end Writes

/-! ### Runs -/

section Keeps

variable {R : Readers} {F : Faults} {walkError : Text → Text} {assetsDir : Text} {I : FileSystem → Prop}
  (hI : ∀ fs path data, I fs → I (FileSystem.writeFile F fs path data).2)
include hI

theorem storeFile_keeps (path : Text) (source : Bytes × Option Text) {fs : FileSystem} (h : I fs) :
    I (storeFile F path source fs).2 := by
  have hcreate := hI fs path [] h
  unfold storeFile
  split
  · rename_i he
    rwa [he] at hcreate
  · rename_i made he
    rw [he] at hcreate
    have hcopy := hI made path source.1 hcreate
    split
    · rename_i he'
      rwa [he'] at hcopy
    · rename_i he'
      rwa [he'] at hcopy

theorem storeEntries_keeps (name filename : Text) :
    ∀ (entries : List PostedEntry) (files : List Text) {fs : FileSystem},
    I fs → I (storeEntries F assetsDir name filename entries files fs).2
  | [], _, _, h => h
  | f :: rest, files, fs, h => by
    unfold storeEntries
    split_ifs
    · split
      · exact h
      · rename_i source _
        have hs := storeFile_keeps hI (join [assetsDir, name, base f.name]) source h
        split
        · rename_i he
          rwa [he] at hs
        · rename_i he
          rw [he] at hs
          exact storeEntries_keeps name filename rest _ hs
    · exact storeEntries_keeps name filename rest files h

/-- What every write keeps, every run keeps. -/
theorem run_keeps {fs : FileSystem} (reqs : List Request) (h : I fs) :
    I (run R F walkError assetsDir fs reqs) := by
  induction reqs generalizing fs with
  | nil => exact h
  | cons req reqs ih =>
    apply ih
    match req with
    | .manifest | .asset _ | .maps | .post _ (.error _) | .post _ (.ok (.error _)) => exact h
    | .post name (.ok (.ok up)) =>
      unfold handle handlePost
      dsimp only
      split_ifs
      · split
        · exact h
        · exact storeEntries_keeps hI name up.filename _ [] h
      · have hs := storeFile_keeps hI (join [assetsDir, name, up.filename]) up.source h
        split
        · rename_i he
          rwa [he] at hs
        · rename_i he
          rwa [he] at hs

end Keeps

section Runs

variable {R : Readers} {F : Faults} {walkError : Text → Text} {assetsDir : Text}

theorem run_append (fs : FileSystem) (reqs reqs' : List Request) :
    run R F walkError assetsDir fs (reqs ++ reqs') =
      run R F walkError assetsDir (run R F walkError assetsDir fs reqs) reqs' := List.foldl_append

/-- **A run writes the uploads of its requests**, and nothing else. -/
theorem run_writes (fs : FileSystem) (reqs : List Request) :
    (run R F walkError assetsDir fs reqs).cwd = fs.cwd ∧
      Writes {p | ∃ req ∈ reqs, p ∈ keys (req.writes assetsDir fs.cwd)} fs.contents
        (run R F walkError assetsDir fs reqs).contents := by
  constructor
  · induction reqs generalizing fs with
    | nil => rfl
    | cons req reqs ih => exact (ih _).trans (handle_stores req).cwd
  · refine Writes.run (I := fun x => x.cwd = fs.cwd) (fun x req hx => ?_) (fun x req hx => ?_) reqs fs rfl
    · exact (handle_stores req).cwd.trans hx
    · have hstores : Stores (req.writes assetsDir x.cwd) x (handle R F walkError assetsDir x req) :=
        handle_stores req
      have hw := hstores.writes
      rwa [hx] at hw

/-- No request of a run uploads to a path. -/
def Untouched (assetsDir : Text) (cwd : List Name) (reqs : List Request) (p : List Name) : Prop :=
  ∀ req ∈ reqs, ∀ w ∈ req.writes assetsDir cwd, w.1 ≠ p

theorem run_contents {fs : FileSystem} {reqs : List Request} {p : List Name}
    (h : Untouched assetsDir fs.cwd reqs p) :
    (run R F walkError assetsDir fs reqs).contents p = fs.contents p := by
  refine (run_writes fs reqs).2.apply_of_not_mem ?_
  rintro ⟨req, hreq, w, hw, he⟩
  exact h req hreq w hw he

/-- What is served for a file that is there. -/
theorem handleAsset_of_contents {fs : FileSystem} {param : Text} {data : Bytes}
    (hp : assetPath assetsDir param ≠ [])
    (h : fs.contents (fs.place (assetPath assetsDir param)) = some data) :
    handleAsset F assetsDir param fs = .file data := by
  have hstat := Node.contents_eq_some.mp h
  have hexist : fs.notExist F (assetPath assetsDir param) = false := by
    simp [FileSystem.notExist, hp, hstat]
  simp only [handleAsset, hexist, if_neg Bool.false_ne_true, if_neg hp, hstat]

theorem assetPath_ne_nil (hd : assetsDir ≠ []) (param : Text) : assetPath assetsDir param ≠ [] := by
  rw [assetPath_eq_render hd]
  exact render_ne_nil _

/-- **An upload that is answered with its page has stored its files**, and each is
held until another upload goes to its path, whatever else is asked of the server and
however other uploads end. -/
theorem uploaded_held {fs : FileSystem} (before : List Request) {name html : Text}
    {file : Except Text (Except Text Posted)}
    (hpage : (handle R F walkError assetsDir (run R F walkError assetsDir fs before)
      (.post name file)).1 = .page html)
    {p : List Name} {data : Bytes}
    (hdata : lastPut p ((Request.post name file).writes assetsDir fs.cwd) = some data)
    {rest : List Request} (hrest : Untouched assetsDir fs.cwd rest p) :
    (run R F walkError assetsDir fs (before ++ .post name file :: rest)).contents p = some data := by
  set fs₁ := run R F walkError assetsDir fs before with hfs₁
  have hcwd₁ : fs₁.cwd = fs.cwd := (run_writes fs before).1
  have hstores : Stores ((Request.post name file).writes assetsDir fs₁.cwd) fs₁
      (handle R F walkError assetsDir fs₁ (.post name file)) := handle_stores (.post name file)
  set fs₂ := (handle R F walkError assetsDir fs₁ (.post name file)).2 with hfs₂
  have hcwd₂ : fs₂.cwd = fs.cwd := hstores.cwd.trans hcwd₁
  have hrun : run R F walkError assetsDir fs (before ++ .post name file :: rest) =
      run R F walkError assetsDir fs₂ rest := run_append fs before (.post name file :: rest)
  rw [hrun, run_contents (by rwa [hcwd₂]), hstores.stored html hpage, puts_apply, hcwd₁, hdata]
  rfl

namespace Upload

theorem isName_assets : IsName (txt "assets") := by with_unfolding_all decide

def assets : Name := ⟨txt "assets", isName_assets⟩

/-- An assets directory with the directory of the game. -/
def gameDisk : FileSystem := ⟨.dir (.cons assets (.dir (.cons baseq3 (.dir .nil) .nil)) .nil), [], []⟩

/-- A map pack of one byte. -/
def map : Request := .post (txt "baseq3") (.ok (.ok ⟨txt "q3dm1.pk3", ([1], none), .error []⟩))

end Upload

/-- **Uploads that stay in the directory leave everything else alone**, over every run. -/
theorem run_outside {fs : FileSystem} {reqs : List Request}
    (h : ∀ name up, Request.post name (.ok (.ok up)) ∈ reqs → ∀ f ∈ up.files, UploadStays assetsDir name f.1)
    {p : List Name} (hp : ¬ fs.place assetsDir <+: p) :
    (run R F walkError assetsDir fs reqs).contents p = fs.contents p := by
  apply run_contents
  intro req hreq w hw he
  match req with
  | .post name (.ok (.ok up)) =>
    obtain ⟨f, hf, rfl⟩ := List.mem_map.mp hw
    obtain ⟨ns, -, hns⟩ := (uploadPath_strictlyBeneath assetsDir name f.1).mpr (h name up hreq f hf)
    apply hp
    rw [← he]
    dsimp only
    rw [hns, absolute_enter]
    exact List.prefix_append _ _

open Pak Upload in
theorem run_outside_map :
    (run noArchives noFaults id dir gameDisk [map]).contents [baseq3] = gameDisk.contents [baseq3] := by
  have hout : ¬ gameDisk.place dir <+: [baseq3] := by with_unfolding_all decide
  refine run_outside (fun name up hup f hf => ?_) hout
  have hmap : .post name (.ok (.ok up)) = Upload.map := List.mem_singleton.mp hup
  obtain ⟨rfl, hfile⟩ := Request.post.inj hmap
  obtain rfl := Except.ok.inj (Except.ok.inj hfile)
  have hfiles : (Posted.mk (txt "q3dm1.pk3") ([1], none) (.error [])).files = [(txt "q3dm1.pk3", [1])] := by
    with_unfolding_all decide
  rw [hfiles] at hf
  rw [List.mem_singleton.mp hf]
  with_unfolding_all decide

end Runs

end Content
end QuakeKube
