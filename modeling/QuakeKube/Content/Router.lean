/-
# The routes of the content server

`GET /assets/*` and `POST /maps` of `internal/quake/content/router.go`: the
path that a request makes the server read, and the paths an upload makes it
create.

A requested path is cut after the first dash of its last segment
(`trimAssetName`) and joined to the assets directory. `requested` is where the
request leads on its own, read off its segments; the directory is left exactly
when that place does not come back into it (`assetPath_beneath_iff`). An upload
is joined from the form's game name and a base name, and the same law decides
it (`postMaps_confined_iff`).

Key definitions: `trimAssetName`, `assetPath`, `requested`, `postMaps`.
Key theorems: `walk_trimAssetName`, `assetPath_beneath_iff`, `postMaps_confined_iff`.
-/
import QuakeKube.Content.Files

namespace QuakeKube
namespace Content

open Go Loc

/-- The text after its first dash, all of it when it has none. -/
def afterDash (f : Text) : Text := f.drop (index f '-' + 1).toNat

/-- `trimAssetName`. -/
def trimAssetName (s : Text) : Text :=
  let (d, f) := split s
  join [d, f.drop (index f '-' + 1).toNat]

/-- The path that `GET /assets/*` stats and serves for the wildcard's text. -/
def assetPath (assetsDir param : Text) : Text := join [assetsDir, trimAssetName param]

/-- The routes below `/assets/`. The static one takes precedence. -/
inductive Route
  | manifest
  | asset (param : Text)
deriving DecidableEq

def route (path : Text) : Option Route :=
  if path = txt "/assets/manifest.json" then some .manifest
  else if hasPrefix path (txt "/assets/") then some (.asset (path.drop (txt "/assets/").length))
  else none

theorem afterDash_append {a : Text} (ha : '-' ∉ a) (b : Text) : afterDash (a ++ '-' :: b) = b := by
  have hi : index (a ++ '-' :: b) '-' = a.length := by
    simp [index, List.idxOf_append, ha]
  rw [afterDash, hi, show ((a.length : ℤ) + 1).toNat = a.length + 1 by omega]
  simp

theorem afterDash_of_not_mem {f : Text} (h : '-' ∉ f) : afterDash f = f := by
  simp [afterDash, index, h]

theorem afterDash_noSlash {f : Text} (h : '/' ∉ f) : '/' ∉ afterDash f :=
  fun hm => h (List.mem_of_mem_drop hm)

/-! ### Where a request leads -/

/-- The moves of a requested path, its last segment cut after the first dash. -/
def requestMoves (param : Text) : List Move :=
  ((param.splitOn '/').dropLast.map move) ++
    moves (afterDash ((param.splitOn '/').getLast (List.splitOn_ne_nil '/' param)))

/-- Where the request leads from the working directory, or from the root when
it starts with a slash. -/
def requested (param : Text) : Loc := (start param).walk (requestMoves param)

theorem requestMoves_of_noSlash {f : Text} (h : '/' ∉ f) : requestMoves f = moves (afterDash f) := by
  simp [requestMoves, List.splitOn_eq_singleton h]

theorem requestMoves_append_slash (d : Text) {f : Text} (h : '/' ∉ f) :
    requestMoves (d ++ '/' :: f) = moves d ++ moves (afterDash f) := by
  have hs : (d ++ '/' :: f).splitOn '/' = d.splitOn '/' ++ [f] := by
    rw [List.splitOn_append_cons_self, List.splitOn_eq_singleton h]
  simp only [requestMoves, hs, List.dropLast_concat, List.getLast_append_singleton, moves]

/-- The trimmed name is the place requested, written in its shortest form; it
is empty only for the working directory. -/
theorem trimAssetName_eq (param : Text) :
    (trimAssetName param = [] ∧ requested param = here) ∨
      trimAssetName param = (requested param).render := by
  rcases split_cases param with h | ⟨d, f, hf, rfl⟩
  · have he : trimAssetName param = join [[], afterDash param] := by
      simp only [trimAssetName, split_of_noSlash h, afterDash]
    rw [he, join, requested, requestMoves_of_noSlash h, start_of_noSlash h]
    by_cases hd : afterDash param = []
    · left
      rw [hd]
      exact ⟨rfl, rfl⟩
    · right
      rw [join_eq_render hd, List.flatMap_nil, walk_nil, locate, start_of_noSlash (afterDash_noSlash h)]
  · right
    have he : trimAssetName (d ++ '/' :: f) = join [d ++ ['/'], afterDash f] := by
      simp only [trimAssetName, split_append_slash d hf, afterDash]
    have hne : d ++ ['/'] ≠ [] := by simp
    have hstart : start (d ++ '/' :: f) = start (d ++ ['/']) := by
      rw [show d ++ '/' :: f = (d ++ ['/']) ++ f by simp, start_append hne]
    calc trimAssetName (d ++ '/' :: f) = join [d ++ ['/'], afterDash f] := he
      _ = ((start (d ++ ['/'])).walk (moves d ++ moves (afterDash f))).render := by
          rw [join_eq_render hne, locate, moves_append_slash]
          simp [walk_append]
      _ = (requested (d ++ '/' :: f)).render := by
          rw [requested, requestMoves_append_slash d hf, hstart]

theorem walk_trimAssetName (D : Loc) (param : Text) :
    D.walk (moves (trimAssetName param)) =
      (D.climb (requested param).ups).enter (requested param).names := by
  rcases trimAssetName_eq param with ⟨h1, h2⟩ | h
  · rw [h1, h2]
    simp [here]
  · rw [h, walk_moves_render]

theorem trimAssetName_head (param : Text) :
    (trimAssetName param).head? = some '/' ↔ param.head? = some '/' := by
  have hr : (requested param).rooted = (start param).rooted := walk_rooted _ _
  rw [← start_rooted param, ← hr]
  rcases trimAssetName_eq param with ⟨h1, h2⟩ | h
  · simp [h1, h2, here]
  · rw [h, render_head]

/-- The request comes back into the assets directory: the names of the
directory it climbs out of are the first ones it enters again. -/
def AssetStays (assetsDir param : Text) : Prop :=
  Anchored assetsDir param ∧
    Returns (locate assetsDir) (requested param).ups (requested param).names

instance (assetsDir param : Text) : Decidable (AssetStays assetsDir param) := by
  unfold AssetStays; infer_instance

/-- **Where reads stay inside the assets directory.** -/
theorem assetPath_beneath_iff (assetsDir param : Text) :
    (locate (assetPath assetsDir param)).Beneath (locate assetsDir) ↔ AssetStays assetsDir param := by
  have ha : Anchored assetsDir [trimAssetName param].flatten ↔ Anchored assetsDir param := by
    simp [Anchored, trimAssetName_head]
  have hu : (here.walk (moves (trimAssetName param))).ups = (requested param).ups := by
    rw [walk_trimAssetName]
    simp [climb_ups, here]
  have hn : (here.walk (moves (trimAssetName param))).names = (requested param).names := by
    rw [walk_trimAssetName]
    simp [here]
  rw [assetPath, beneath_join_iff, ha, List.flatMap_singleton, hu, hn]
  rfl

/-- A request for `/assets/../etc/passwd` reads `/etc/passwd`. -/
theorem assetPath_escapes :
    ¬ (locate (assetPath (txt "/assets") (txt "../etc/passwd"))).Beneath (locate (txt "/assets")) := by
  with_unfolding_all decide

/-! ### Uploads -/

/-- An entry of an uploaded archive. -/
structure ZipEntry where
  name : Text
  data : Bytes

/-- The form's file: its name and what `zip.NewReader` makes of it. -/
structure Upload where
  filename : Text
  data : Bytes
  archive : Except Text (List ZipEntry)

/-- How the file operations of an upload end: each fails with an error's text
or succeeds. -/
structure Disk where
  openEntry : ZipEntry → Option Text
  create : Text → Option Text
  copy : Text → Option Text

inductive Reply
  | html (page : Text)
  | error (text : Text)
deriving DecidableEq

/-- What a handler did: the paths it passed to `os.Create`, in order, and its
reply. -/
structure Outcome where
  creates : List Text
  reply : Reply

def emptyPage (filename : Text) : Text :=
  txt "<p>File " ++ filename ++ txt " did not contain any map pack files.</p>"

def loadedPage (filename : Text) (files : List Text) : Text :=
  txt "<p>Loaded the following map packs from file " ++ filename ++ txt ":</p><ul>" ++
    (files.map fun f => txt "<li>" ++ f ++ txt "</li>").flatten ++ txt "</ul>"

def uploadedPage (path : Text) : Text :=
  txt "<p>File " ++ path ++ txt " uploaded successfully.</p>"

/-- The loop over the archive's entries. `files` are the map packs stored so far. -/
def postZip (disk : Disk) (assetsDir name filename : Text) : List ZipEntry → List Text → Outcome
  | [], files => ⟨[], .html (if files = [] then emptyPage filename else loadedPage filename files)⟩
  | f :: rest, files =>
    if hasExts f.name [txt ".pk3"] then
      match disk.openEntry f with
      | some err => ⟨[], .error (txt "failed to open file: " ++ err)⟩
      | none =>
        let path := join [assetsDir, name, base f.name]
        match disk.create path with
        | some err => ⟨[path], .error (txt "failed to create file: " ++ err)⟩
        | none =>
          match disk.copy path with
          | some err => ⟨[path], .error (txt "failed to copy file: " ++ err)⟩
          | none =>
            let o := postZip disk assetsDir name filename rest (files ++ [base f.name])
            ⟨path :: o.creates, o.reply⟩
    else postZip disk assetsDir name filename rest files

/-- `POST /maps`, for the form value `name` and the form's file. -/
def postMaps (disk : Disk) (assetsDir name : Text) (up : Upload) : Outcome :=
  if hasExts up.filename [txt ".zip"] then
    match up.archive with
    | .error err => ⟨[], .error (txt "failed to read zip: " ++ err)⟩
    | .ok entries => postZip disk assetsDir name up.filename entries []
  else
    let path := join [assetsDir, name, up.filename]
    match disk.create path with
    | some err => ⟨[path], .error (txt "failed to create file: " ++ err)⟩
    | none =>
      match disk.copy path with
      | some err => ⟨[path], .error (txt "failed to copy file: " ++ err)⟩
      | none => ⟨[path], .html (uploadedPage (join [name, up.filename]))⟩

/-- The map packs of an archive. -/
def paks (entries : List ZipEntry) : List ZipEntry :=
  entries.filter fun f => hasExts f.name [txt ".pk3"]

theorem paks_cons (f : ZipEntry) (rest : List ZipEntry) :
    paks (f :: rest) = if hasExts f.name [txt ".pk3"] then f :: paks rest else paks rest := by
  rw [paks, List.filter_cons]
  rfl

/-- The base names an upload stores files under. -/
def uploadNames (up : Upload) : List Text :=
  if hasExts up.filename [txt ".zip"] then
    match up.archive with
    | .error _ => []
    | .ok entries => (paks entries).map fun f => base f.name
  else [up.filename]

/-- A disk on which nothing fails. -/
def willing : Disk := ⟨fun _ => none, fun _ => none, fun _ => none⟩

theorem postZip_creates (disk : Disk) (assetsDir name filename : Text) :
    ∀ (entries : List ZipEntry) (files : List Text),
      (postZip disk assetsDir name filename entries files).creates <+:
        (paks entries).map fun f => join [assetsDir, name, base f.name]
  | [], _ => List.prefix_rfl
  | f :: rest, files => by
    unfold postZip
    by_cases hf : hasExts f.name [txt ".pk3"] = true
    · rw [if_pos hf, paks_cons, if_pos hf, List.map_cons]
      split
      · exact List.nil_prefix
      · dsimp only
        split
        · exact List.prefix_append [_] _
        · split
          · exact List.prefix_append [_] _
          · exact (List.prefix_cons_inj _).mpr (postZip_creates disk assetsDir name filename rest _)
    · rw [if_neg hf, paks_cons, if_neg hf]
      exact postZip_creates disk assetsDir name filename rest files

theorem postZip_willing (assetsDir name filename : Text) :
    ∀ (entries : List ZipEntry) (files : List Text),
      (postZip willing assetsDir name filename entries files).creates =
        (paks entries).map fun f => join [assetsDir, name, base f.name]
  | [], _ => rfl
  | f :: rest, files => by
    unfold postZip
    by_cases hf : hasExts f.name [txt ".pk3"] = true
    · rw [if_pos hf, paks_cons, if_pos hf, List.map_cons]
      exact congrArg _ (postZip_willing assetsDir name filename rest _)
    · rw [if_neg hf, paks_cons, if_neg hf]
      exact postZip_willing assetsDir name filename rest files

/-- Every path an upload creates is joined from the directory, the form's name
and a base name of the upload. -/
theorem mem_postMaps_creates {disk : Disk} {assetsDir name : Text} {up : Upload} {p : Text}
    (h : p ∈ (postMaps disk assetsDir name up).creates) :
    ∃ s ∈ uploadNames up, p = join [assetsDir, name, s] := by
  unfold postMaps at h
  unfold uploadNames
  split at h
  · rename_i hz
    rw [if_pos hz]
    cases ha : up.archive with
    | error err => rw [ha] at h; simp at h
    | ok entries =>
      rw [ha] at h
      obtain ⟨f, hf, rfl⟩ := List.mem_map.mp ((postZip_creates ..).subset h)
      exact ⟨_, List.mem_map.mpr ⟨f, hf, rfl⟩, rfl⟩
  · rename_i hz
    rw [if_neg hz]
    refine ⟨_, List.mem_singleton_self _, ?_⟩
    dsimp only at h
    split at h
    · simpa using h
    · split at h <;> simpa using h

theorem postMaps_willing (assetsDir name : Text) (up : Upload) :
    (postMaps willing assetsDir name up).creates =
      (uploadNames up).map fun s => join [assetsDir, name, s] := by
  unfold postMaps uploadNames
  split
  · cases up.archive with
    | error err => rfl
    | ok entries => simp only [postZip_willing, List.map_map, Function.comp_def]
  · rfl

/-- Where the form's name and a base name lead from the working directory. -/
def uploaded (name s : Text) : Loc := here.walk (moves name ++ moves s)

/-- The upload comes back into the assets directory, and ends below it. -/
def UploadStays (assetsDir name s : Text) : Prop :=
  Anchored assetsDir (name ++ s) ∧
    Returns (locate assetsDir) (uploaded name s).ups (uploaded name s).names ∧
    (uploaded name s).names ≠
      (locate assetsDir).names.drop ((locate assetsDir).names.length - (uploaded name s).ups)

instance (assetsDir name s : Text) : Decidable (UploadStays assetsDir name s) := by
  unfold UploadStays; infer_instance

theorem uploadPath_strictlyBeneath (assetsDir name s : Text) :
    (locate (join [assetsDir, name, s])).StrictlyBeneath (locate assetsDir) ↔
      UploadStays assetsDir name s := by
  rw [strictlyBeneath_join_iff]
  simp [UploadStays, uploaded]

/-- **Where uploads stay inside the assets directory.** However the file
operations end, the handler creates files below the directory only, exactly
when the form's name followed by each base name stays below it. -/
theorem postMaps_confined_iff (assetsDir name : Text) (up : Upload) :
    (∀ disk, ∀ p ∈ (postMaps disk assetsDir name up).creates,
        (locate p).StrictlyBeneath (locate assetsDir)) ↔
      ∀ s ∈ uploadNames up, UploadStays assetsDir name s := by
  constructor
  · intro h s hs
    rw [← uploadPath_strictlyBeneath]
    apply h willing _
    rw [postMaps_willing]
    exact List.mem_map.mpr ⟨s, hs, rfl⟩
  · intro h disk p hp
    obtain ⟨s, hs, rfl⟩ := mem_postMaps_creates hp
    exact (uploadPath_strictlyBeneath assetsDir name s).mpr (h s hs)

/-- Uploaded as `x.pk3` under the name `../etc`, a file is created in `/etc`. -/
theorem postMaps_escapes :
    ¬ ∀ disk, ∀ p ∈ (postMaps disk (txt "/assets") (txt "../etc")
        ⟨txt "x.pk3", [], .error []⟩).creates, (locate p).StrictlyBeneath (locate (txt "/assets")) := by
  intro h
  have := h willing (txt "/etc/x.pk3") (by with_unfolding_all decide)
  exact absurd this (by with_unfolding_all decide)

end Content
end QuakeKube
