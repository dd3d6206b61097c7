/-
# Extracting map packs

`extractPack` of `internal/quake/content/download.go`: the map packs of a zip,
of the installers in it, or of a gzipped tar that starts somewhere in the data,
are written to the directory of the game. The readers of the archive formats
are parameters (`Readers`); what they return is followed entry by entry, with
the errors that end an extraction and the ones it passes over.

What every write of a map pack keeps, the extraction keeps
(`extractPack_invariant`).

Key definitions: `saveFile`, `extractFromGzip`, `extractFromZip`, `extractPack`,
`tarPacks`, `zipPacks`.
Key theorems: `extractFromGzip_invariant`, `extractFromZip_invariant`, `extractPack_invariant`.
-/
import QuakeKube.Content.FileSystem

namespace QuakeKube
namespace Content

open Go Loc

/-! ### Archives -/

/-- `unicode.ToLower`, which takes from Go's tables what is not ASCII. -/
structure LowerTable where
  toLower : Char → Char
  ascii : ∀ c : Char, c.toNat < 128 → toLower c = c.toLower

/-- An entry of an archive, and what reading its bytes gives. -/
structure ArchiveEntry where
  name : Text
  content : Except Text Bytes

/-- `zip.File`: what `Open` gives, and then `io.ReadAll`. -/
structure ZipFile where
  name : Text
  opened : Except Text (Except Text Bytes)

def ZipFile.entry (f : ZipFile) : ArchiveEntry := ⟨f.name, f.opened.bind id⟩

theorem ZipFile.opened_of_content {f : ZipFile} {content : Bytes} (h : f.entry.content = .ok content) :
    f.opened = .ok (.ok content) := by
  unfold ZipFile.entry at h
  match hf : f.opened with
  | .error err => simp [hf, Except.bind] at h
  | .ok (.error err) => simp [hf, Except.bind] at h
  | .ok (.ok c) =>
    rw [hf] at h
    exact congrArg Except.ok h

/-- The entries that `tar.Reader.Next` returns, and the error it ends with when
that is not `io.EOF`. -/
structure TarStream where
  entries : List ArchiveEntry
  ending : Option Text

/-- `zip.NewReader`, and `gzip.NewReader` with a tar reader over it. -/
structure Readers where
  zip : Bytes → Except Text (List ZipFile)
  gzip : Bytes → Except Text TarStream

def gzipMagicHeader : Bytes := [0x1f, 0x8b]

/-- The data from the first gzip header on. -/
def fromMagic : Bytes → Option Bytes
  | [] => none
  | b :: data => if gzipMagicHeader.isPrefixOf (b :: data) then some (b :: data) else fromMagic data

variable (T : LowerTable) (R : Readers) (F : Faults)

/-- `strings.ToLower`. -/
def lowered (s : Text) : Text := s.map T.toLower

def isPack (name : Text) : Bool := hasSuffix (lowered T name) (txt ".pk3")

def isInstaller (name : Text) : Bool := hasSuffix (lowered T name) (txt ".sh")

/-- The test for the entries of a tar. -/
def endsInPk3 (name : Text) : Bool := hasSuffix name (txt ".pk3")

/-! ### Extraction -/

/-- The path that `saveFile` writes. -/
def savePath (filename dir : Text) (forceBaseQ3 : Bool) : Text :=
  if forceBaseQ3 then join [dir, txt "baseq3", filename] else join [dir, filename]

def saveFile (filename : Text) (data : Bytes) (dir : Text) (forceBaseQ3 : Bool) (fs : FileSystem) :
    Option Text × FileSystem :=
  let path := savePath filename dir forceBaseQ3
  match fs.mkdirAll F (Go.dir path) with
  | (some err, fs) => (some (txt "failed to create directory: " ++ err), fs)
  | (none, fs) => fs.writeFile F path data

def saveFileFromReader (f : ZipFile) (dir : Text) (forceBaseQ3 : Bool) (fs : FileSystem) :
    Option Text × FileSystem :=
  match f.opened with
  | .error err => (some (txt "failed to open file: " ++ err), fs)
  | .ok (.error err) => (some (txt "failed to read file: " ++ err), fs)
  | .ok (.ok content) => saveFile F (base f.name) content dir forceBaseQ3 fs

/-- The loop of `extractFromGzip`. -/
def extractTar (dir : Text) (forceBaseQ3 : Bool) (ending : Option Text) :
    List ArchiveEntry → Bool → FileSystem → Option Text × FileSystem
  | [], found, fs =>
    match ending with
    | some err => (some (txt "failed to read file: " ++ err), fs)
    | none => (if found then none else some (txt "no .pk3 files found in gzip"), fs)
  | hdr :: rest, found, fs =>
    if endsInPk3 hdr.name then
      match hdr.content with
      | .error err => (some (txt "failed to read file: " ++ err), fs)
      | .ok content =>
        match saveFile F (base hdr.name) content dir forceBaseQ3 fs with
        | (some err, fs) => (some (txt "failed to save file: " ++ err), fs)
        | (none, fs) => extractTar dir forceBaseQ3 ending rest true fs
    else extractTar dir forceBaseQ3 ending rest found fs

def extractFromGzip (data : Bytes) (dir : Text) (forceBaseQ3 : Bool) (fs : FileSystem) :
    Option Text × FileSystem :=
  match fromMagic data with
  | none => (some (txt "no gzip header found"), fs)
  | some data =>
    match R.gzip data with
    | .error err => (some (txt "failed to read gzip: " ++ err), fs)
    | .ok tar => extractTar F dir forceBaseQ3 tar.ending tar.entries false fs

/-- The loop of `extractFromZip`. -/
def extractFiles (dir : Text) (forceBaseQ3 : Bool) :
    List ZipFile → Bool → FileSystem → Option Text × FileSystem
  | [], found, fs => (if found then none else some (txt "no .pk3 files found in zip"), fs)
  | f :: rest, found, fs =>
    if isPack T f.name then
      match saveFileFromReader F f dir forceBaseQ3 fs with
      | (some err, fs) => (some (txt "failed to save file: " ++ err), fs)
      | (none, fs) => extractFiles dir forceBaseQ3 rest true fs
    else if isInstaller T f.name then
      match f.opened with
      | .error err => (some (txt "failed to open file: " ++ err), fs)
      | .ok (.error err) => (some (txt "failed to read file: " ++ err), fs)
      | .ok (.ok nestedData) =>
        -- the error of an installer is dropped
        match extractFromGzip R F nestedData dir forceBaseQ3 fs with
        | (some _, fs) => extractFiles dir forceBaseQ3 rest found fs
        | (none, fs) => extractFiles dir forceBaseQ3 rest true fs
    else extractFiles dir forceBaseQ3 rest found fs

def extractFromZip (data : Bytes) (dir : Text) (forceBaseQ3 : Bool) (fs : FileSystem) :
    Option Text × FileSystem :=
  match R.zip data with
  | .error err => (some (txt "failed to read zip: " ++ err), fs)
  | .ok files => extractFiles T R F dir forceBaseQ3 files false fs

def extractPack (data : Bytes) (dir : Text) (fs : FileSystem) : Option Text × FileSystem :=
  match extractFromZip T R F data dir true fs with
  | (none, fs) => (none, fs)
  | (some _, fs) => extractFromGzip R F data dir true fs

/-- `url.Parse`'s path of a URL, and `http.GetBody`. -/
structure Web where
  urlPath : Text → Except Text Text
  getBody : Text → Except Text Bytes

def downloadAndExtract (W : Web) (rawURL dir : Text)
    (extractor : Bytes → Text → FileSystem → Option Text × FileSystem) (fs : FileSystem) :
    Option Text × FileSystem :=
  match W.urlPath rawURL with
  | .error err => (some (txt "failed to parse URL: " ++ err), fs)
  | .ok path =>
    match W.getBody rawURL with
    | .error err => (some (txt "failed to download file: " ++ err), fs)
    | .ok data =>
      match saveFile F (base path) data dir false fs with
      | (some err, fs) => (some (txt "failed to save file: " ++ err), fs)
      | (none, fs) => extractor data dir fs

def downloadAssetsFromURLs (W : Web) (demoURL pakURL dir : Text) (fs : FileSystem) : Option Text × FileSystem :=
  match downloadAndExtract F W demoURL dir (extractPack T R F) fs with
  | (some err, fs) => (some (txt "failed to download demo: " ++ err), fs)
  | (none, fs) =>
    match downloadAndExtract F W pakURL dir (extractPack T R F) fs with
    | (some err, fs) => (some (txt "failed to download pak: " ++ err), fs)
    | (none, fs) => (none, fs)

/-- What the loop of `extractFromZip` does with one file: the error that ends
it, or whether a map pack was found. -/
def extractFile (dir : Text) (forceBaseQ3 : Bool) (f : ZipFile) (fs : FileSystem) :
    Except Text Bool × FileSystem :=
  if isPack T f.name then
    match saveFileFromReader F f dir forceBaseQ3 fs with
    | (some err, fs) => (.error (txt "failed to save file: " ++ err), fs)
    | (none, fs) => (.ok true, fs)
  else if isInstaller T f.name then
    match f.opened with
    | .error err => (.error (txt "failed to open file: " ++ err), fs)
    | .ok (.error err) => (.error (txt "failed to read file: " ++ err), fs)
    | .ok (.ok nestedData) =>
      match extractFromGzip R F nestedData dir forceBaseQ3 fs with
      | (some _, fs) => (.ok false, fs)
      | (none, fs) => (.ok true, fs)
  else (.ok false, fs)

theorem extractFiles_cons (dir : Text) (force : Bool) (f : ZipFile) (rest : List ZipFile) (found : Bool)
    (fs : FileSystem) : extractFiles T R F dir force (f :: rest) found fs =
      match extractFile T R F dir force f fs with
      | (.error err, fs) => (some err, fs)
      | (.ok isFound, fs) => extractFiles T R F dir force rest (found || isFound) fs := by
  rw [extractFiles, extractFile]
  by_cases hp : isPack T f.name = true
  · rw [if_pos hp, if_pos hp]
    split <;> simp
  · rw [if_neg hp, if_neg hp]
    by_cases hi : isInstaller T f.name = true
    · rw [if_pos hi, if_pos hi]
      split
      · rfl
      · rfl
      · split <;> simp
    · rw [if_neg hi, if_neg hi]
      simp

theorem saveFile_cases (filename : Text) (data : Bytes) (dir : Text) (force : Bool) (fs : FileSystem) :
    ((fs.mkdirAll F (Go.dir (savePath filename dir force))).1 = none ∧ saveFile F filename data dir force fs =
      (fs.mkdirAll F (Go.dir (savePath filename dir force))).2.writeFile F (savePath filename dir force) data) ∨
    (fs.mkdirAll F (Go.dir (savePath filename dir force))).1 ≠ none ∧
      (saveFile F filename data dir force fs).1 ≠ none ∧
        (saveFile F filename data dir force fs).2 =
        (fs.mkdirAll F (Go.dir (savePath filename dir force))).2 := by
  unfold saveFile
  dsimp only
  split
  · rename_i he
    exact .inr ⟨by simp [he], by simp, by rw [he]⟩
  · rename_i he
    exact .inl ⟨by rw [he], by rw [he]⟩

/-- `saveFile` leaves the working directory, and every directory. -/
theorem saveFile_cwd (filename : Text) (data : Bytes) (dir : Text) (force : Bool) (fs : FileSystem) :
    (saveFile F filename data dir force fs).2.cwd = fs.cwd := by
  rcases saveFile_cases F filename data dir force fs with ⟨-, he⟩ | ⟨-, -, he⟩
  · rw [he, FileSystem.writeFile_cwd, FileSystem.mkdirAll_cwd]
  · rw [he, FileSystem.mkdirAll_cwd]

theorem saveFile_dir {filename : Text} {data : Bytes} {dir : Text} {force : Bool} {fs : FileSystem}
    {q : List Name}
    (h : fs.root.stat q = .dir) : (saveFile F filename data dir force fs).2.root.stat q = .dir := by
  rcases saveFile_cases F filename data dir force fs with ⟨-, he⟩ | ⟨-, -, he⟩
  · rw [he]
    exact FileSystem.dir_after_writeFile (FileSystem.dir_after_mkdirAll h)
  · rw [he]
    exact FileSystem.dir_after_mkdirAll h

/-- Calls are only added. -/
theorem mem_calls_saveFile {filename : Text} {data : Bytes} {dir : Text} {force : Bool}
    {fs : FileSystem} {c : Call}
    (h : c ∈ fs.calls) : c ∈ (saveFile F filename data dir force fs).2.calls := by
  rcases saveFile_cases F filename data dir force fs with ⟨-, he⟩ | ⟨-, -, he⟩ <;> simp [he, h]

/-- Once the directory is made, the file is written. -/
theorem writeFile_mem_calls (filename : Text) (data : Bytes) (dir : Text) (force : Bool) {fs : FileSystem}
    (h : (fs.mkdirAll F (Go.dir (savePath filename dir force))).1 = none) :
    Call.writeFile (savePath filename dir force) data ∈ (saveFile F filename data dir force fs).2.calls := by
  rcases saveFile_cases F filename data dir force fs with ⟨-, he⟩ | ⟨hne, -⟩
  · simp [he]
  · exact absurd h hne

/-! ### The map packs of an archive -/

def tarEntries (data : Bytes) : List ArchiveEntry :=
  match (fromMagic data).map R.gzip with
  | some (.ok tar) => tar.entries
  | _ => []

/-- The entries that pass a test of the gzipped tar in some data. -/
def tarPacks (test : Text → Bool) (data : Bytes) : List ArchiveEntry :=
  (tarEntries R data).filter fun e => test e.name

/-- The map packs of an entry of a zip, where `test` tells them in an installer. -/
def ZipFile.packs (test : Text → Bool) (f : ZipFile) : List ArchiveEntry :=
  if isPack T f.name then [f.entry]
  else if isInstaller T f.name then
    match f.entry.content with
    | .error _ => []
    | .ok nestedData => tarPacks R test nestedData
  else []

def zipPacks (test : Text → Bool) (data : Bytes) : List ArchiveEntry :=
  match R.zip data with
  | .error _ => []
  | .ok files => files.flatMap (ZipFile.packs T R test)

variable {T R} in
/-- A map pack passes the test for entries of a zip, or of a tar. -/
theorem test_of_mem_zipPacks {test : Text → Bool} {data : Bytes} {e : ArchiveEntry}
    (h : e ∈ zipPacks T R test data) : isPack T e.name = true ∨ test e.name = true := by
  unfold zipPacks at h
  split at h
  · simp at h
  · obtain ⟨f, -, hf⟩ := List.mem_flatMap.mp h
    unfold ZipFile.packs at hf
    split at hf
    · rename_i hp
      rw [List.mem_singleton.mp hf]
      exact .inl hp
    · split at hf
      · split at hf
        · simp at hf
        · exact .inr (List.mem_filter.mp hf).2
      · simp at hf

variable {R} in
theorem mem_tarPacks_of_test {test test' : Text → Bool} {data : Bytes} {e : ArchiveEntry}
    (h : e ∈ tarPacks R test data) (ht : test e.name = true → test' e.name = true) :
    e ∈ tarPacks R test' data := by
  obtain ⟨hm, hp⟩ := List.mem_filter.mp h
  exact List.mem_filter.mpr ⟨hm, ht hp⟩

variable {T R} in
theorem mem_zipPacks_of_test {test test' : Text → Bool} {data : Bytes} {e : ArchiveEntry}
    (h : e ∈ zipPacks T R test data) (ht : test e.name = true → test' e.name = true) :
    e ∈ zipPacks T R test' data := by
  unfold zipPacks at h ⊢
  split
  · rename_i hz
    rwa [hz] at h
  · rename_i hz
    rw [hz] at h
    obtain ⟨f, hf, hp⟩ := List.mem_flatMap.mp h
    refine List.mem_flatMap.mpr ⟨f, hf, ?_⟩
    unfold ZipFile.packs at hp ⊢
    split
    · rename_i h
      rwa [if_pos h] at hp
    · rename_i h
      rw [if_neg h] at hp
      split
      · rename_i hi
        rw [if_pos hi] at hp
        split at hp
        · exact hp
        · exact mem_tarPacks_of_test hp ht
      · rename_i hi
        rwa [if_neg hi] at hp

/-! ### What extraction finds -/

section Found

variable {T R F} {dir : Text} {force : Bool} {data : Bytes}

theorem extractTar_found {ending : Option Text} :
    ∀ (entries : List ArchiveEntry) (found : Bool) {fs : FileSystem},
    (extractTar F dir force ending entries found fs).1 = none →
      found = true ∨ ∃ e ∈ entries, endsInPk3 e.name = true
  | [], found, _, h => by
    unfold extractTar at h
    split at h
    · cases h
    · left
      by_contra hf
      simp [hf] at h
  | hdr :: rest, found, fs, h => by
    by_cases ht : endsInPk3 hdr.name = true
    · exact .inr ⟨hdr, List.mem_cons_self, ht⟩
    · unfold extractTar at h
      rw [if_neg ht] at h
      refine (extractTar_found rest found h).imp_right ?_
      rintro ⟨e, he, hte⟩
      exact ⟨e, List.mem_cons_of_mem _ he, hte⟩

theorem extractFromGzip_found {fs : FileSystem} (h : (extractFromGzip R F data dir force fs).1 = none) :
    tarPacks R endsInPk3 data ≠ [] := by
  unfold extractFromGzip at h
  unfold tarPacks tarEntries
  split at h
  · cases h
  · rename_i hm
    split at h
    · cases h
    · rename_i hg
      simp only [hm, Option.map_some, hg]
      obtain ⟨e, he, ht⟩ := (extractTar_found _ _ h).resolve_left Bool.false_ne_true
      exact List.ne_nil_of_mem (List.mem_filter.mpr ⟨he, ht⟩)

theorem extractFile_found {f : ZipFile} {fs : FileSystem} (h : (extractFile T R F dir force f fs).1 = .ok true) :
    f.packs T R endsInPk3 ≠ [] := by
  unfold extractFile at h
  unfold ZipFile.packs
  split at h
  · rename_i hp
    rw [if_pos hp]
    exact List.cons_ne_nil _ _
  · rename_i hp
    rw [if_neg hp]
    split at h
    · rename_i hi
      rw [if_pos hi]
      split at h
      · cases h
      · cases h
      · rename_i nestedData hc
        rw [ZipFile.entry, hc]
        split at h
        · simp at h
        · rename_i he
          exact extractFromGzip_found (R := R) (F := F) (by rw [he])
    · simp at h

theorem extractFiles_found : ∀ (files : List ZipFile) (found : Bool) {fs : FileSystem},
    (extractFiles T R F dir force files found fs).1 = none →
      found = true ∨ files.flatMap (ZipFile.packs T R endsInPk3) ≠ []
  | [], found, _, h => by
    left
    by_contra hf
    simp [extractFiles, hf] at h
  | f :: rest, found, fs, h => by
    rw [List.flatMap_cons, Ne, List.append_eq_nil_iff, not_and_or]
    rw [extractFiles_cons] at h
    split at h
    · cases h
    · rename_i isFound fs' he
      rcases extractFiles_found rest _ h with hor | hne
      · rcases Bool.or_eq_true_iff.mp hor with hf | rfl
        · exact .inl hf
        · exact .inr (.inl (extractFile_found (by rw [he])))
      · exact .inr (.inr hne)

/-- A zip without a map pack is an error. -/
theorem extractFromZip_found {fs : FileSystem} (h : (extractFromZip T R F data dir force fs).1 = none) :
    zipPacks T R endsInPk3 data ≠ [] := by
  unfold extractFromZip at h
  unfold zipPacks
  split at h
  · cases h
  · rename_i files hz
    exact (extractFiles_found files false h).resolve_left Bool.false_ne_true

end Found

/-! ### What extraction keeps -/

section Invariant

variable {dir : Text} {force : Bool} {I : FileSystem → Prop} {data : Bytes} {fs : FileSystem}

/-- Writing a map pack keeps `I`, whether it succeeds or not. -/
def SaveKeeps (dir : Text) (force : Bool) (I : FileSystem → Prop) (e : ArchiveEntry) : Prop :=
  ∀ data fs, e.content = .ok data → I fs → I (saveFile F (base e.name) data dir force fs).2

variable {T R F}

theorem extractTar_invariant {ending : Option Text} :
    ∀ (es : List ArchiveEntry) (found : Bool) {fs : FileSystem},
    (∀ e ∈ es, endsInPk3 e.name = true → SaveKeeps F dir force I e) → I fs →
      I (extractTar F dir force ending es found fs).2
  | [], found, fs, _, h => by
    unfold extractTar
    split <;> exact h
  | hdr :: rest, found, fs, hs, h => by
    obtain ⟨hhdr, hrest⟩ := List.forall_mem_cons.mp hs
    unfold extractTar
    split
    · rename_i hp
      split
      · exact h
      · rename_i content hc
        have hk := hhdr hp content fs hc h
        split
        · rename_i he
          rwa [he] at hk
        · rename_i he
          rw [he] at hk
          exact extractTar_invariant rest true hrest hk
    · exact extractTar_invariant rest found hrest h

theorem extractFromGzip_invariant (hs : ∀ e ∈ tarPacks R endsInPk3 data, SaveKeeps F dir force I e) (h : I fs) :
    I (extractFromGzip R F data dir force fs).2 := by
  unfold tarPacks tarEntries at hs
  unfold extractFromGzip
  split
  · exact h
  · rename_i hm
    split
    · exact h
    · rename_i hg
      simp only [hm, Option.map_some, hg] at hs
      exact extractTar_invariant _ _ (fun e he hp => hs e (List.mem_filter.mpr ⟨he, hp⟩)) h

theorem saveFileFromReader_invariant {f : ZipFile} (hs : SaveKeeps F dir force I f.entry) (h : I fs) :
    I (saveFileFromReader F f dir force fs).2 := by
  unfold saveFileFromReader
  split
  · exact h
  · exact h
  · rename_i content hc
    exact hs content fs (by rw [ZipFile.entry, hc]; rfl) h

theorem extractFile_invariant {f : ZipFile} (hs : ∀ e ∈ f.packs T R endsInPk3, SaveKeeps F dir force I e)
    (h : I fs) : I (extractFile T R F dir force f fs).2 := by
  unfold ZipFile.packs at hs
  unfold extractFile
  split
  · rename_i hp
    rw [if_pos hp] at hs
    have hk := saveFileFromReader_invariant (hs _ (List.mem_singleton_self _)) h
    split <;> rename_i he <;> rwa [he] at hk
  · rename_i hp
    rw [if_neg hp] at hs
    split
    · rename_i hi
      rw [if_pos hi] at hs
      split
      · exact h
      · exact h
      · rename_i nestedData hc
        rw [ZipFile.entry, hc] at hs
        have hk := extractFromGzip_invariant (R := R) hs h
        split <;> rename_i he <;> rwa [he] at hk
    · exact h

theorem extractFiles_invariant : ∀ (files : List ZipFile) (found : Bool) {fs : FileSystem},
    (∀ e ∈ files.flatMap (ZipFile.packs T R endsInPk3), SaveKeeps F dir force I e) → I fs →
      I (extractFiles T R F dir force files found fs).2
  | [], _, _, _, h => h
  | f :: rest, found, fs, hs, h => by
    obtain ⟨hf, hrest⟩ := List.forall_mem_append.mp hs
    have hk := extractFile_invariant hf h
    rw [extractFiles_cons]
    split
    · rename_i he
      rwa [he] at hk
    · rename_i he
      rw [he] at hk
      exact extractFiles_invariant rest _ hrest hk

theorem extractFromZip_invariant (hs : ∀ e ∈ zipPacks T R endsInPk3 data, SaveKeeps F dir force I e)
    (h : I fs) :
    I (extractFromZip T R F data dir force fs).2 := by
  unfold zipPacks at hs
  unfold extractFromZip
  split
  · exact h
  · rename_i files hz
    rw [hz] at hs
    exact extractFiles_invariant files false hs h

/-- **What the write of every map pack keeps, the extraction keeps.** -/
theorem extractPack_invariant
    (hs : ∀ e ∈ zipPacks T R endsInPk3 data ++ tarPacks R endsInPk3 data, SaveKeeps F dir true I e) (h : I fs) :
    I (extractPack T R F data dir fs).2 := by
  obtain ⟨hz, ht⟩ := List.forall_mem_append.mp hs
  have hk := extractFromZip_invariant hz h
  unfold extractPack
  split
  · rename_i he
    rwa [he] at hk
  · rename_i he
    rw [he] at hk
    exact extractFromGzip_invariant ht hk

end Invariant

end Content
end QuakeKube
