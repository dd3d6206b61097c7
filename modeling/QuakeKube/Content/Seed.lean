/-
# Seeding an assets directory

`CopyAssets` of `internal/quake/content/download.go`: each entry of a manifest
is downloaded to its path in the assets directory, unless there is something
already; the two installers are extracted too.

Runs follow one another, each of them can fail anywhere, and what one leaves
the next one finds (`seed`). A run that returns nil has mirrored its manifest
when it found nothing wrong to pass over and its writes did not get in each
other's way (`Clean`, `mirrors_while_clean`). Of what can go wrong only that
counts which does, in a call of the run itself.

Key definitions: `copyAssets`, `Mirrors`, `Clean`, `seed`.
Key theorems: `copyFiles_invariant`, `mirrors_of_clean`, `mirrors_while_clean`.
-/
import QuakeKube.Content.Download
import QuakeKube.Content.OwnCalls
import QuakeKube.Lib.Run

namespace QuakeKube
namespace Content

open Go Loc

variable (T : LowerTable) (R : Readers) (F : Faults) (W : Web)

/-! ### The code -/

/-- The entries that `CopyAssets` extracts. -/
def isDemo (name : Text) : Bool :=
  hasPrefix name (txt "linuxq3ademo") || hasPrefix name (txt "linuxq3apoint")

/-- A downloaded entry is saved, and extracted if it is an installer. -/
def saveAsset (f : File) (data : Bytes) (dir : Text) (fs : FileSystem) : Option Text × FileSystem :=
  match saveFile F f.name data dir false fs with
  | (some err, fs) => (some (txt "failed to save file: " ++ err), fs)
  | (none, fs) =>
    if isDemo f.name then
      match extractFromZip T R F data dir true fs with
      | (none, fs) => (none, fs)
      | (some _, fs) =>
        match extractFromGzip R F data dir true fs with
        | (none, fs) => (none, fs)
        | (some err, fs) => (some (txt "failed to extract pack " ++ f.name ++ txt ": " ++ err), fs)
    else (none, fs)

/-- The loop of `CopyAssets`. -/
def copyFiles (baseURL dir : Text) : List File → FileSystem → Option Text × FileSystem
  | [], fs => (none, fs)
  | f :: rest, fs =>
    if fs.notExist F (join [dir, f.name]) then
      match W.getBody (baseURL ++ assetURL f) with
      | .error err => (some (txt "failed to download file: " ++ err), fs)
      | .ok data =>
        match saveAsset T R F f data dir fs with
        | (some err, fs) => (some err, fs)
        | (none, fs) => copyFiles baseURL dir rest fs
    else copyFiles baseURL dir rest fs

/-- `strings.TrimSuffix` of a slash. -/
def trimSlash (u : Text) : Text := if hasSuffix u ['/'] then u.dropLast else u

/-- `CopyAssets` with a URL's text and what `getManifest` returns for it. -/
def copyAssets (u : Text) (manifest : Except Text (List File)) (dir : Text) (fs : FileSystem) :
    Option Text × FileSystem :=
  let baseURL := trimSlash u
  match manifest with
  | .error err => (some (txt "failed to get manifest: " ++ err), fs)
  | .ok files => copyFiles T R F W baseURL dir files fs

/-! ### What a run keeps -/

section Invariant

variable {T R F W} {I : FileSystem → Prop} {dir : Text} {fs : FileSystem}

/-- The map packs that extracting some data can write. -/
abbrev extracted (T : LowerTable) (R : Readers) (data : Bytes) : List ArchiveEntry :=
  zipPacks T R endsInPk3 data ++ tarPacks R endsInPk3 data

theorem saveAsset_invariant {f : File} {data : Bytes} (hf : I (saveFile F f.name data dir false fs).2)
    (hs : isDemo f.name = true → ∀ e ∈ extracted T R data, SaveKeeps F dir true I e) :
    I (saveAsset T R F f data dir fs).2 := by
  unfold saveAsset
  split
  · rename_i he
    rwa [he] at hf
  · rename_i he
    rw [he] at hf
    split
    · rename_i hd
      obtain ⟨hz, ht⟩ := List.forall_mem_append.mp (hs hd)
      have hk := extractFromZip_invariant hz hf
      split
      · rename_i he
        rwa [he] at hk
      · rename_i he
        rw [he] at hk
        have hg := extractFromGzip_invariant (R := R) ht hk
        split
        · rename_i he
          rwa [he] at hg
        · rename_i he
          rwa [he] at hg
    · exact hf

theorem copyFiles_invariant {baseURL : Text} : ∀ (files : List File) {fs : FileSystem},
    (∀ f ∈ files, ∀ data fs, fs.notExist F (join [dir, f.name]) = true → I fs →
      I (saveAsset T R F f data dir fs).2) →
    I fs → I (copyFiles T R F W baseURL dir files fs).2
  | [], _, _, h => h
  | f :: rest, fs, hs, h => by
    obtain ⟨hf, hrest⟩ := List.forall_mem_cons.mp hs
    unfold copyFiles
    split
    · rename_i hex
      split
      · exact h
      · rename_i data _
        have hk := hf data fs hex h
        split
        · rename_i he
          rwa [he] at hk
        · rename_i he
          rw [he] at hk
          exact copyFiles_invariant rest hrest hk
    · exact copyFiles_invariant rest hrest h

end Invariant

/-! ### Runs in parts -/

section Parts

variable {T R F W} {dir baseURL : Text}

/-- Some entries and then others: these are handled if there was no error before. -/
theorem copyFiles_append (rest : List File) : ∀ (done : List File) (fs : FileSystem),
    ((copyFiles T R F W baseURL dir done fs).1 = none → copyFiles T R F W baseURL dir (done ++ rest) fs =
      copyFiles T R F W baseURL dir rest (copyFiles T R F W baseURL dir done fs).2) ∧
    ((copyFiles T R F W baseURL dir done fs).1 ≠ none →
      copyFiles T R F W baseURL dir (done ++ rest) fs = copyFiles T R F W baseURL dir done fs)
  | [], fs => ⟨fun _ => rfl, fun h => absurd rfl h⟩
  | f :: done, fs => by
    have hall : (f :: done) ++ rest = f :: (done ++ rest) := rfl
    rw [hall, copyFiles, copyFiles]
    by_cases he : fs.notExist F (join [dir, f.name]) = true
    · simp only [if_pos he]
      cases W.getBody (baseURL ++ assetURL f) with
      | error err => exact ⟨nofun, fun _ => rfl⟩
      | ok data =>
        dsimp only
        rcases saveAsset T R F f data dir fs with ⟨_ | err, fs'⟩
        · exact copyFiles_append rest done fs'
        · exact ⟨nofun, fun _ => rfl⟩
    · simp only [if_neg he]
      exact copyFiles_append rest done fs

theorem own_saveAsset (f : File) (data : Bytes) (dir : Text) : Own fun F => saveAsset T R F f data dir := by
  by_cases hd : isDemo f.name = true
  · -- extracted like a zip, and else like a gzipped tar
    let gzipped : Faults → FileSystem → Option Text × FileSystem := fun F fs =>
      match extractFromGzip R F data dir true fs with
      | (none, fs) => (none, fs)
      | (some err, fs) => (some (txt "failed to extract pack " ++ f.name ++ txt ": " ++ err), fs)
    let zipped : Faults → FileSystem → Option Text × FileSystem := fun F fs =>
      match extractFromZip T R F data dir true fs with
      | (none, fs) => (none, fs)
      | (some _, fs) => gzipped F fs
    have hgzipped : Own gzipped := (own_extractFromGzip R data dir true).andThen
      (fun err => own_pure (some (txt "failed to extract pack " ++ f.name ++ txt ": " ++ err))) (own_pure none)
      (fun F fs err fs' he => by simp only [gzipped, he]) fun F fs fs' he => by simp only [gzipped, he]
    have hzipped : Own zipped := (own_extractFromZip T R data dir true).andThen
      (fun _ => hgzipped) (own_pure none)
      (fun F fs err fs' he => by simp only [zipped, he]) fun F fs fs' he => by simp only [zipped, he]
    refine (own_saveFile f.name data dir false).andThen
      (fun err => own_pure (some (txt "failed to save file: " ++ err))) hzipped ?_ ?_
    · intro F fs err fs' he
      simp only [saveAsset, he]
    · intro F fs fs' he
      simp only [saveAsset, he, if_pos hd, zipped, gzipped]
  · refine (own_saveFile f.name data dir false).andThen
      (fun err => own_pure (some (txt "failed to save file: " ++ err))) (own_pure none) ?_ ?_
    · intro F fs err fs' he
      simp only [saveAsset, he]
    · intro F fs fs' he
      simp only [saveAsset, he, if_neg hd]

theorem own_copyFiles (baseURL dir : Text) : ∀ files : List File,
    Own fun F => copyFiles T R F W baseURL dir files
  | [] => own_pure none
  | f :: rest => by
    let asked : Faults → FileSystem → Option Text × FileSystem := fun F fs =>
      match W.getBody (baseURL ++ assetURL f) with
      | .error err => (some (txt "failed to download file: " ++ err), fs)
      | .ok data =>
        match saveAsset T R F f data dir fs with
        | (some err, fs) => (some err, fs)
        | (none, fs) => copyFiles T R F W baseURL dir rest fs
    have hasked : Own asked := by
      cases hget : W.getBody (baseURL ++ assetURL f) with
      | error err =>
        refine (own_pure (some (txt "failed to download file: " ++ err))).congr fun F fs => ?_
        simp only [asked, hget]
      | ok data =>
        refine (own_saveAsset (T := T) (R := R) f data dir).andThen (fun err => own_pure (some err))
          (own_copyFiles baseURL dir rest) ?_ ?_
        · intro F fs err fs' he
          simp only [asked, hget, he]
        · intro F fs fs' he
          simp only [asked, hget, he]
    refine (own_notExist (join [dir, f.name]) hasked (own_copyFiles baseURL dir rest)).congr fun F fs => ?_
    rw [copyFiles]

/-- The calls for the first entries are the first calls. -/
theorem calls_copyFiles_append (baseURL dir : Text) (done rest : List File) (fs : FileSystem) :
    (copyFiles T R F W baseURL dir done fs).2.calls <+:
      (copyFiles T R F W baseURL dir (done ++ rest) fs).2.calls := by
  obtain ⟨hok, herror⟩ := copyFiles_append (T := T) (R := R) (F := F) (W := W) rest done fs
  by_cases hn : (copyFiles T R F W baseURL dir done fs).1 = none
  · rw [hok hn]
    exact (own_copyFiles baseURL dir rest).calls F _
  · simp only [herror hn, List.prefix_rfl]

end Parts

/-! ### Mirrors -/

section Mirror

variable (dir : Text) (fs : FileSystem)

/-- Where the file of an entry lies. -/
def placeOf (f : File) : List Name := fs.place (join [dir, f.name])

/-- The entry's file is there, and the one it should be. -/
def Right (f : File) : Prop :=
  ∃ data, fs.root.stat (placeOf dir fs f) = .file data ∧ checksumIEEE data = f.checksum

/-- Nothing is in the entry's place. -/
def Missing (f : File) : Prop := fs.root.stat (placeOf dir fs f) = .missing

instance (f : File) : Decidable (Missing dir fs f) := by unfold Missing; infer_instance

/-- The directory has the files of a manifest. -/
def Mirrors (files : List File) : Prop := ∀ f ∈ files, Right dir fs f

/-- To write bytes with checksum `c` to `path` makes no directory of the entry's
place, no file on the way to it, and no other file than the entry's in it. -/
def Spares (path : Text) (c : UInt32) (g : File) : Prop :=
  ¬ placeOf dir fs g <+: fs.place (Go.dir path) ∧
    (fs.place path <+: placeOf dir fs g → fs.place path = placeOf dir fs g ∧ c = g.checksum)

/-- What a run has to find. -/
structure Clean (baseURL : Text) (files : List File) : Prop where
  /-- Nothing wrong is in the place of an entry, and when the run comes to the entry `Stat` finds
  out that nothing is there. -/
  standing : ∀ done f rest, files = done ++ f :: rest → Right dir fs f ∨ Missing dir fs f ∧
    ∀ fs', copyFiles T R F W baseURL dir done fs = (none, fs') → F.stat fs'.calls (join [dir, f.name]) = false
  /-- What is saved for an entry leaves the others alone. -/
  saved : ∀ f ∈ files, Missing dir fs f → ∀ g ∈ files, Spares dir fs (join [dir, f.name]) f.checksum g
  /-- So does what is extracted, and no such write of the run fails in the place of an entry. -/
  extracted : ∀ f ∈ files, isDemo f.name = true → Missing dir fs f →
    ∀ data, W.getBody (baseURL ++ assetURL f) = .ok data →
      ∀ e ∈ extracted T R data, ∀ content, e.content = .ok content → ∀ g ∈ files,
        Spares dir fs (savePath (base e.name) dir true) (checksumIEEE content) g ∧
          (fs.place (savePath (base e.name) dir true) = placeOf dir fs g → ∀ before,
            Called fs.calls (copyFiles T R F W baseURL dir files fs).2.calls before
              (.writeFile (savePath (base e.name) dir true) content) →
            F.call before (.writeFile (savePath (base e.name) dir true) content) = none)

/-- What is written for the entries leaves them alone, whatever has been called before. -/
structure WritesSpare (baseURL : Text) (files : List File) : Prop where
  saved : ∀ f ∈ files, Missing dir fs f → ∀ g ∈ files, Spares dir fs (join [dir, f.name]) f.checksum g
  extracted : ∀ f ∈ files, isDemo f.name = true → Missing dir fs f →
    ∀ data, W.getBody (baseURL ++ assetURL f) = .ok data →
      ∀ e ∈ extracted T R data, ∀ content, e.content = .ok content → ∀ g ∈ files,
        Spares dir fs (savePath (base e.name) dir true) (checksumIEEE content) g ∧
          (fs.place (savePath (base e.name) dir true) = placeOf dir fs g →
            ∀ calls, F.call calls (.writeFile (savePath (base e.name) dir true) content) = none)

variable {dir fs} {F}

theorem place_congr {fs' : FileSystem} (h : fs'.cwd = fs.cwd) : fs'.place = fs.place := by
  funext path
  rw [FileSystem.place, FileSystem.place, h]

/-- A write that spares an entry leaves what is in its place, or puts its file there. -/
theorem saveFile_spares {filename : Text} {data : Bytes} {force : Bool} {g : File}
    (hs : Spares dir fs (savePath filename dir force) (checksumIEEE data) g)
    (hf : fs.place (savePath filename dir force) = placeOf dir fs g →
      (saveFile F filename data dir force fs).1 = none ∨
        ∀ calls, F.call calls (.writeFile (savePath filename dir force) data) = none) :
    (saveFile F filename data dir force fs).2.cwd = fs.cwd ∧
      ((saveFile F filename data dir force fs).2.root.stat (placeOf dir fs g) =
          fs.root.stat (placeOf dir fs g) ∨
        Right dir (saveFile F filename data dir force fs).2 g) := by
  set path := savePath filename dir force with hp
  have hm : (fs.mkdirAll F (Go.dir path)).2.root.stat (placeOf dir fs g) = fs.root.stat (placeOf dir fs g) :=
    (FileSystem.stat_after_mkdirAll F fs _ _).resolve_right fun h => hs.1 h.1
  rcases saveFile_cases F filename data dir force fs with ⟨-, he⟩ | ⟨-, -, he⟩
  · rw [← hp] at he
    set made := (fs.mkdirAll F (Go.dir path)).2 with hmade
    have hc : made.cwd = fs.cwd := FileSystem.mkdirAll_cwd
    have hplace := place_congr hc
    refine ⟨by rw [he, FileSystem.writeFile_cwd, hc], ?_⟩
    by_cases hpre : fs.place path <+: placeOf dir fs g
    · obtain ⟨heq, hsum⟩ := hs.2 hpre
      rw [he] at hf ⊢
      by_cases hn : (made.writeFile F path data).1 = none
      · have hw := FileSystem.writeFile_file hn
        rw [hplace, heq] at hw
        refine .inr ⟨data, ?_, hsum⟩
        rwa [placeOf, place_congr FileSystem.writeFile_cwd, hplace]
      · have hfault := (hf heq).resolve_left hn
        rw [FileSystem.writeFile_root_of_ne_none (hfault _) hn]
        exact .inl hm
    · left
      rw [he, FileSystem.stat_after_writeFile (by rwa [hplace]), hm]
  · rw [he]
    exact ⟨FileSystem.mkdirAll_cwd, .inl hm⟩

/-! ### A clean run -/

/-- What holds while a run copies `files`, of which it has handled `handled`. -/
structure Mirroring (dir : Text) (files handled : List File) (before fs : FileSystem) : Prop where
  cwd : fs.cwd = before.cwd
  each : ∀ g ∈ files, Right dir fs g ∨ Missing dir before g ∧ Missing dir fs g
  right : ∀ g ∈ handled, Right dir fs g
  subset : handled ⊆ files

variable {files handled : List File} {before : FileSystem} {T R W} {baseURL : Text}

theorem Clean.writesSpare (h : Clean T R F W dir fs baseURL files) :
    WritesSpare T R (F.within fs.calls (copyFiles T R F W baseURL dir files fs).2.calls) W dir fs
      baseURL files := by
  refine ⟨h.saved, fun f hf hd hm data hget e he content hc g hg => ?_⟩
  obtain ⟨hspares, hwrite⟩ := h.extracted f hf hd hm data hget e he content hc g hg
  exact ⟨hspares, fun hp calls => Faults.within_call_eq_none (hwrite hp calls)⟩

theorem spares_congr {fs' : FileSystem} (h : fs'.cwd = fs.cwd) {path : Text} {c : UInt32} {g : File} :
    Spares dir fs' path c g ↔ Spares dir fs path c g := by
  simp only [Spares, placeOf, place_congr h]

/-- A write that spares all entries goes on. -/
theorem Mirroring.saveFile (h : Mirroring dir files handled before fs) {filename : Text}
    {data : Bytes} {force : Bool}
    (hs : ∀ g ∈ files, Spares dir before (savePath filename dir force) (checksumIEEE data) g)
    (hf : ∀ g ∈ files, before.place (savePath filename dir force) = placeOf dir before g →
      (saveFile F filename data dir force fs).1 = none ∨
        ∀ calls, F.call calls (.writeFile (savePath filename dir force) data) = none) :
    Mirroring dir files handled before (saveFile F filename data dir force fs).2 := by
  have step : ∀ g ∈ files, (Content.saveFile F filename data dir force fs).2.cwd = fs.cwd ∧
      ((Content.saveFile F filename data dir force fs).2.root.stat (placeOf dir fs g) =
          fs.root.stat (placeOf dir fs g) ∨
        Right dir (Content.saveFile F filename data dir force fs).2 g) := fun g hg => by
    refine saveFile_spares ((spares_congr h.cwd).mpr (hs g hg)) fun he => hf g hg ?_
    rwa [placeOf, place_congr h.cwd] at he
  have keeps : ∀ g ∈ files, Right dir fs g → Right dir (Content.saveFile F filename data dir force fs).2 g := by
    rintro g hg ⟨content, hc, hsum⟩
    obtain ⟨hcwd, he | hr⟩ := step g hg
    · exact ⟨content, by rwa [placeOf, place_congr hcwd, ← placeOf, he], hsum⟩
    · exact hr
  refine ⟨?_, fun g hg => ?_, fun g hg => keeps g (h.subset hg) (h.right g hg), h.subset⟩
  · rw [saveFile_cwd, h.cwd]
  · rcases h.each g hg with hr | ⟨hb, hm⟩
    · exact .inl (keeps g hg hr)
    · obtain ⟨hcwd, he | hr⟩ := step g hg
      · refine .inr ⟨hb, ?_⟩
        rwa [Missing, placeOf, place_congr hcwd, ← placeOf, he]
      · exact .inl hr

/-- What is saved without an error is right. -/
theorem right_of_saveFile {f : File} {data : Bytes} (hsum : checksumIEEE data = f.checksum)
    (h : (saveFile F f.name data dir false fs).1 = none) :
    Right dir (saveFile F f.name data dir false fs).2 f := by
  rcases saveFile_cases F f.name data dir false fs with ⟨-, he⟩ | ⟨-, hne, -⟩
  · rw [he] at h ⊢
    have hw := FileSystem.writeFile_file h
    refine ⟨data, ?_, hsum⟩
    rwa [placeOf, place_congr FileSystem.writeFile_cwd]
  · exact absurd h hne

theorem saveFile_of_saveAsset {f : File} {data : Bytes} (h : (saveAsset T R F f data dir fs).1 = none) :
    (saveFile F f.name data dir false fs).1 = none := by
  unfold saveAsset at h
  split at h
  · cases h
  · rename_i he
    rw [he]

/-- One entry more. -/
theorem Mirroring.saveAsset {f : File} (hfile : f ∈ files) (h : Mirroring dir files handled before fs)
    (hc : WritesSpare T R F W dir before baseURL files) (hm : Missing dir before f) {data : Bytes}
    (hget : W.getBody (baseURL ++ assetURL f) = .ok data) (hsum : checksumIEEE data = f.checksum)
    (hn : (saveAsset T R F f data dir fs).1 = none) :
    Mirroring dir files (f :: handled) before (saveAsset T R F f data dir fs).2 := by
  have hsave := saveFile_of_saveAsset hn
  have hfirst : Mirroring dir files handled before (Content.saveFile F f.name data dir false fs).2 :=
    h.saveFile (fun g hg => hsum ▸ hc.saved f hfile hm g hg) fun g hg _ => .inl hsave
  refine saveAsset_invariant ⟨hfirst.cwd, hfirst.each, ?_, ?_⟩ ?_
  · exact List.forall_mem_cons.mpr ⟨right_of_saveFile hsum hsave, hfirst.right⟩
  · exact List.cons_subset.mpr ⟨hfile, h.subset⟩
  · intro hd e he content fs' hcontent hfs'
    have hspares := hc.extracted f hfile hd hm data hget e he content hcontent
    exact hfs'.saveFile (fun g hg => (hspares g hg).1) fun g hg heq => .inr ((hspares g hg).2 heq)

/-- What a run has found missing, and has written, was missing before it. -/
theorem Mirroring.missing_of_notExist (h : Mirroring dir files handled before fs) {f : File} (hf : f ∈ files)
    (he : fs.notExist F (join [dir, f.name]) = true) {data : Bytes}
    (hs : (Content.saveFile F f.name data dir false fs).1 = none) : Missing dir before f := by
  have hne : join [dir, f.name] ≠ [] := by
    rcases saveFile_cases F f.name data dir false fs with ⟨-, hw⟩ | ⟨-, hn, -⟩
    · rw [hw] at hs
      exact FileSystem.writeFile_ne_nil hs
    · exact absurd hs hn
  rcases h.each f hf with ⟨content, hr, -⟩ | ⟨hb, -⟩
  · simp only [FileSystem.notExist, hne, decide_false, Bool.false_or, Bool.and_eq_true, decide_eq_true_eq] at he
    rw [placeOf, he.2] at hr
    cases hr
  · exact hb

/-- What a clean run passes over is right. -/
theorem Mirroring.right_of_exists (h : Mirroring dir files handled before fs) {f : File} (hf : f ∈ files)
    (hst : Right dir before f ∨ Missing dir before f ∧ F.stat fs.calls (join [dir, f.name]) = false)
    (he : ¬ fs.notExist F (join [dir, f.name]) = true) : Right dir fs f := by
  refine (h.each f hf).resolve_right fun ⟨hb, hm⟩ => he ?_
  rcases hst with ⟨content, hr, -⟩ | ⟨-, hstat⟩
  · rw [Missing, hr] at hb
    cases hb
  · have hm : fs.root.stat (fs.place (join [dir, f.name])) = .missing := hm
    simp [FileSystem.notExist, hstat, hm]

/-- The entries that a clean run has handled when it returns nil are right. -/
theorem Mirroring.copyFiles (hc : WritesSpare T R F W dir before baseURL files)
    (hst : ∀ done f rest, files = done ++ f :: rest → ∀ fs',
      copyFiles T R F W baseURL dir done before = (none, fs') →
      Right dir before f ∨ Missing dir before f ∧ F.stat fs'.calls (join [dir, f.name]) = false)
    (honest : ∀ f ∈ files, ∀ data, W.getBody (baseURL ++ assetURL f) = .ok data →
      checksumIEEE data = f.checksum) :
    ∀ (rest : List File) {done : List File} {fs : FileSystem}, files = done ++ rest →
      copyFiles T R F W baseURL dir done before = (none, fs) → Mirroring dir files done before fs →
      (copyFiles T R F W baseURL dir rest fs).1 = none →
      ∀ g ∈ files, Right dir (copyFiles T R F W baseURL dir rest fs).2 g
  | [], done, fs, hsplit, _, h, _, g, hg => h.right g (by rwa [hsplit, List.append_nil] at hg)
  | f :: rest, done, fs, hsplit, hdone, h, hn, g, hg => by
    have hfile : f ∈ files := by rw [hsplit]; simp
    have hsplit' : files = (done ++ [f]) ++ rest := by rw [hsplit, List.append_assoc]; rfl
    -- the entry is handled after those before it
    have hstep : ∀ {fs'}, Content.copyFiles T R F W baseURL dir [f] fs = (none, fs') →
        Content.copyFiles T R F W baseURL dir (done ++ [f]) before = (none, fs') := by
      intro fs' hone
      have happend : Content.copyFiles T R F W baseURL dir (done ++ [f]) before =
          Content.copyFiles T R F W baseURL dir [f] (Content.copyFiles T R F W baseURL dir done before).2 :=
        (copyFiles_append [f] done before).1 (by rw [hdone])
      rw [happend, hdone]
      exact hone
    have hnext : ∀ {fs'}, Mirroring dir files (f :: done) before fs' →
        Mirroring dir files (done ++ [f]) before fs' := by
      intro fs' h'
      refine ⟨h'.cwd, h'.each, fun g hg => h'.right g (by simpa [or_comm] using hg), ?_⟩
      rw [hsplit']
      exact List.subset_append_left _ _
    unfold Content.copyFiles at hn ⊢
    by_cases hex : fs.notExist F (join [dir, f.name]) = true
    · rw [if_pos hex] at hn ⊢
      cases hget : W.getBody (baseURL ++ assetURL f) with
      | error err =>
        rw [hget] at hn
        cases hn
      | ok data =>
        rw [hget] at hn
        dsimp only at hn ⊢
        split at hn
        · cases hn
        · rename_i fs' he
          have hok : (Content.saveAsset T R F f data dir fs).1 = none := by rw [he]
          have hm := h.missing_of_notExist hfile hex (saveFile_of_saveAsset hok)
          have hone := h.saveAsset hfile hc hm hget (honest f hfile data hget) hok
          rw [he] at hone
          have hdone' : Content.copyFiles T R F W baseURL dir [f] fs = (none, fs') := by
            simp only [Content.copyFiles, if_pos hex, hget, he]
          exact Mirroring.copyFiles hc hst honest rest hsplit' (hstep hdone') (hnext hone) hn g hg
    · rw [if_neg hex] at hn ⊢
      have hright := h.right_of_exists hfile (hst done f rest hsplit fs hdone) hex
      have hone : Mirroring dir files (f :: done) before fs :=
        ⟨h.cwd, h.each, List.forall_mem_cons.mpr ⟨hright, h.right⟩, List.cons_subset.mpr ⟨hfile, h.subset⟩⟩
      have hdone' : Content.copyFiles T R F W baseURL dir [f] fs = (none, fs) := by
        simp only [Content.copyFiles, if_neg hex]
      exact Mirroring.copyFiles hc hst honest rest hsplit' (hstep hdone') (hnext hone) hn g hg

/-- A clean run that returns nil has mirrored its manifest. -/
theorem mirrors_of_clean {u : Text} (hc : Clean T R F W dir fs (trimSlash u) files)
    (honest : ∀ f ∈ files, ∀ data, W.getBody (trimSlash u ++ assetURL f) = .ok data →
      checksumIEEE data = f.checksum)
    (h : (copyAssets T R F W u (.ok files) dir fs).1 = none) :
    Mirrors dir (copyAssets T R F W u (.ok files) dir fs).2 files := by
  -- what goes wrong in other calls makes no difference
  set F' := F.within fs.calls (Content.copyFiles T R F W (trimSlash u) dir files fs).2.calls with hF'
  have hsame : Content.copyFiles T R F' W (trimSlash u) dir files fs =
      Content.copyFiles T R F W (trimSlash u) dir files fs := (own_copyFiles _ _ files).within_eq F fs
  have hst : ∀ done f rest, files = done ++ f :: rest → ∀ fs',
      Content.copyFiles T R F' W (trimSlash u) dir done fs = (none, fs') →
      Right dir fs f ∨ Missing dir fs f ∧ F'.stat fs'.calls (join [dir, f.name]) = false := by
    intro done f rest hsplit fs' hdone
    have hcalls := calls_copyFiles_append (T := T) (R := R) (F := F) (W := W) (trimSlash u) dir done
      (f :: rest) fs
    rw [← hsplit] at hcalls
    have hpart : Content.copyFiles T R F' W (trimSlash u) dir done fs =
        Content.copyFiles T R F W (trimSlash u) dir done fs :=
      (own_copyFiles _ _ done).agree F F' fs ((F.agree_within _ _).mono List.prefix_rfl hcalls)
    exact (hc.standing done f rest hsplit).imp_right fun ⟨hm, hstat⟩ => ⟨hm, hstat fs' (hpart.symm.trans hdone)⟩
  have start : Mirroring dir files [] fs fs := by
    refine ⟨rfl, fun g hg => ?_, by simp, by simp⟩
    obtain ⟨done, rest, hsplit⟩ := List.append_of_mem hg
    rcases hc.standing done g rest hsplit with hr | ⟨hm, -⟩
    · exact .inl hr
    · exact .inr ⟨hm, hm⟩
  have hall := Mirroring.copyFiles hc.writesSpare hst honest files rfl rfl start
  rw [hsame] at hall
  exact hall h

end Mirror

/-! ### One run after another -/

open Run

/-- A run of `CopyAssets`: what the source answers, and what goes wrong. -/
structure Seeding where
  faults : Faults
  web : Web
  url : Text
  manifest : Except Text (List File)

namespace Seeding

variable (dir : Text) (fs : FileSystem) (r : Seeding)

def result : Option Text × FileSystem := copyAssets T R r.faults r.web r.url r.manifest dir fs

/-- A download returns the bytes that the manifest's checksum was computed from. -/
def Honest : Prop := ∀ files, r.manifest = .ok files → ∀ f ∈ files, ∀ data,
  r.web.getBody (trimSlash r.url ++ assetURL f) = .ok data → checksumIEEE data = f.checksum

/-- If the run returns nil, it has mirrored its manifest. -/
def MirrorsManifest : Prop := ∀ files, r.manifest = .ok files → (r.result T R dir fs).1 = none →
  Mirrors dir (r.result T R dir fs).2 files

/-- If the run returns nil, what it found was clean. -/
def FindsClean : Prop := ∀ files, r.manifest = .ok files → (r.result T R dir fs).1 = none →
  Clean T R r.faults r.web dir fs (trimSlash r.url) files

end Seeding

/-- The next run finds what this one has left, also when it has failed. -/
def seed (dir : Text) (fs : FileSystem) (r : Seeding) : Option FileSystem := some (r.result T R dir fs).2

/-- **A successful seed is a mirror of its manifest** as long as the runs that
succeed find a clean directory. -/
theorem mirrors_while_clean (dir : Text) (fs : FileSystem) (runs : List Seeding)
    (h : Along (seed T R dir) (fun fs r => r.Honest ∧ r.FindsClean T R dir fs) fs runs) :
    Along (seed T R dir) (fun fs r => r.MirrorsManifest T R dir fs) fs runs := by
  refine h.mono fun fs r ⟨honest, clean⟩ files hfiles hn => ?_
  have hc := clean files hfiles hn
  unfold Seeding.result at hn ⊢
  rw [hfiles] at hn ⊢
  exact mirrors_of_clean hc (honest files hfiles) hn

/-! ### A map pack of two bytes -/

/-- Nothing is an archive. -/
def noArchives : Readers := ⟨fun _ => .error [], fun _ => .error []⟩

namespace Pak

def data : Bytes := [80, 75]

def file : File := ⟨txt "pak0.pk3", 2, checksumIEEE data⟩

/-- An empty disk. -/
def disk : FileSystem := ⟨.dir .nil, [], []⟩

def dir : Text := txt "/assets"

def noFaults : Faults := ⟨fun _ _ => none, fun _ _ => false, fun _ => []⟩

/-- Every file is truncated after a byte. -/
def truncating : Faults where
  call _
    | .mkdirAll _ => none
    | .writeFile _ _ => some 2
  stat _ _ := false
  text _ := txt "no space left on device"

def seeding (F : Faults) : Seeding :=
  ⟨F, ⟨fun _ => .ok [], fun _ => .ok data⟩, txt "http://content", .ok [file]⟩

def table : LowerTable := ⟨Char.toLower, fun _ _ => rfl⟩

theorem honest (F : Faults) : (seeding F).Honest := by
  intro files hf f hfile content hc
  cases hf
  cases hc
  rw [List.mem_singleton.mp hfile]
  rfl

end Pak

open Pak in
theorem mirrors_while_clean_pak :
    Along (seed table noArchives dir)
    (fun fs r => r.MirrorsManifest table noArchives dir fs) disk [seeding noFaults] := by
  apply mirrors_while_clean
  refine ⟨⟨honest _, ?_⟩, fun _ _ => trivial⟩
  intro files hf _
  cases hf
  have missing : Missing dir disk file := by with_unfolding_all decide
  have spares : Spares dir disk (join [dir, file.name]) file.checksum file :=
    ⟨by with_unfolding_all decide, fun _ => ⟨rfl, rfl⟩⟩
  refine ⟨?_, ?_, ?_⟩
  · intro done f rest hsplit
    have hf : f ∈ [file] := hsplit ▸ List.mem_append_right done List.mem_cons_self
    rw [List.mem_singleton.mp hf]
    exact .inr ⟨missing, fun _ _ => rfl⟩
  · exact List.forall_mem_singleton.mpr fun _ => List.forall_mem_singleton.mpr spares
  · exact List.forall_mem_singleton.mpr fun h => absurd h (by with_unfolding_all decide)

open Pak in
/-- The truncated file of a failed run is passed over by the next one, which
returns nil. -/
theorem truncated_passed_over :
    ¬ ∀ fs runs, Along (seed table noArchives dir) (fun _ r => r.Honest) fs runs →
      Along (seed table noArchives dir) (fun fs r => r.MirrorsManifest table noArchives dir fs) fs runs := by
  intro h
  have honestRuns :
      Along (seed table noArchives dir) (fun _ r => r.Honest) disk [seeding truncating, seeding noFaults] :=
    ⟨honest _, fun _ _ => ⟨honest _, fun _ _ => trivial⟩⟩
  obtain ⟨-, hnext⟩ := h disk _ honestRuns
  obtain ⟨hmirror, -⟩ := hnext _ rfl
  obtain ⟨content, hstat, hsum⟩ :=
    hmirror [file] rfl (by with_unfolding_all rfl) file (List.mem_singleton_self _)
  have hcontent : Stat.file content = .file [80] := hstat.symm.trans (by with_unfolding_all rfl)
  cases hcontent
  revert hsum
  with_unfolding_all decide

end Content
end QuakeKube
