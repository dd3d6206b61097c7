/-
# Which map packs survive their extraction

The map packs of an archive, with the extension in any case, and what there is
of them when `extractPack` has returned nil. A pack is kept if its file has its
bytes and is listed by `getAssets`. Three things lose one for certain: an
extension that is not in lower case, a second pack with the same base name and
other bytes, and bytes that cannot be read (`sound_of_losesNone`). Without them,
packs are only lost to errors that are passed over (`losesNone_of_sound`).

Key definitions: `packs`, `LosesNone`, `Sound`, `Smooth`.
Key theorems: `sound_of_losesNone`, `losesNone_of_sound`, `extractPack_loses_none`.
-/
import QuakeKube.Content.Confined
import QuakeKube.Content.OwnCalls

namespace QuakeKube
namespace Content

open Go Loc

variable (T : LowerTable) (R : Readers) (F : Faults)

/-- An installer that is read to its end, and has a map pack. -/
def Complete (data : Bytes) : Prop :=
  match (fromMagic data).map R.gzip with
  | some (.ok tar) => tar.ending = none ∧ ∃ e ∈ tar.entries, endsInPk3 e.name = true
  | _ => False

/-- The bytes of an entry can be read, and are as they should be. -/
def ArchiveEntry.Reads (P : Bytes → Prop) (e : ArchiveEntry) : Prop :=
  match e.content with
  | .error _ => False
  | .ok content => P content

/-- A zip whose map packs and installers can be read, with a map pack of its own
or a complete installer. -/
def Usable (data : Bytes) : Prop :=
  match R.zip data with
  | .error _ => False
  | .ok files =>
    (∀ f ∈ files, isPack T f.name = true ∨ isInstaller T f.name = true → f.entry.Reads fun _ => True) ∧
      ∃ f ∈ files, isPack T f.name = true ∨ isInstaller T f.name = true ∧ f.entry.Reads (Complete R)

instance : DecidablePred (Complete R) := fun data => by
  unfold Complete
  split <;> infer_instance

instance (P : Bytes → Prop) [DecidablePred P] (e : ArchiveEntry) : Decidable (e.Reads P) := by
  unfold ArchiveEntry.Reads
  split <;> infer_instance

instance : DecidablePred (Usable T R) := fun data => by
  unfold Usable
  split <;> infer_instance

/-- The map packs of an archive: those of a zip, and if that is not usable those
of a gzipped tar. -/
def packs (data : Bytes) : List ArchiveEntry :=
  zipPacks T R (isPack T) data ++ if Usable T R data then [] else tarPacks R (isPack T) data

def packPath (dir : Text) (e : ArchiveEntry) : Text := savePath (base e.name) dir true

/-- The pack's file has its bytes, and is listed with their checksum. -/
def Held (dir : Text) (fs : FileSystem) (e : ArchiveEntry) : Prop :=
  ∃ content, e.content = .ok content ∧ fs.root.stat (fs.place (packPath dir e)) = .file content ∧
    assetFile dir (packPath dir e, content) ∈ fs.assets dir

/-- No map pack is lost, and none is written over another one. -/
structure LosesNone (dir : Text) (fs : FileSystem) (es : List ArchiveEntry) : Prop where
  held : ∀ e ∈ es, Held dir fs e
  apart : ∀ e ∈ es, ∀ e' ∈ es, packPath dir e = packPath dir e' → e.content = e'.content

/-- What the map packs have to be. -/
structure Sound (dir : Text) (es : List ArchiveEntry) : Prop where
  readable : ∀ e ∈ es, e.Reads fun _ => True
  lower : ∀ e ∈ es, endsInPk3 e.name = true
  distinct : ∀ e ∈ es, ∀ e' ∈ es, base e.name = base e'.name → e.content = e'.content
  dir_ne : dir ≠ []

/-- Only directories are on the way to a path, and at its end is none. -/
structure Takes (fs : FileSystem) (path : Text) : Prop where
  way : (fs.root.mkdirAll (fs.place (Go.dir path))).isSome
  no_dir : fs.root.stat (fs.place path) ≠ .dir

/-- On the way from one state to another no call that saves a file fails otherwise than by the tree. -/
structure Undisturbed (F : Faults) (fs fs' : FileSystem) (path : Text) : Prop where
  mkdirAll : ∀ before, Called fs.calls fs'.calls before (.mkdirAll (Go.dir path)) →
    F.call before (.mkdirAll (Go.dir path)) = none
  writeFile : ∀ before data, Called fs.calls fs'.calls before (.writeFile path data) →
    F.call before (.writeFile path data) = none

/-- Nothing makes an error that is passed over. -/
structure Smooth (data : Bytes) (dir : Text) (fs : FileSystem) : Prop where
  usable : zipPacks T R (isPack T) data ≠ [] → Usable T R data
  undisturbed : ∀ e ∈ packs T R data, Undisturbed F fs (extractPack T R F data dir fs).2 (packPath dir e)
  takes : ∀ e ∈ packs T R data, Takes fs (packPath dir e)

/-- The same, whatever has been called before. -/
structure Unfailing (F : Faults) (path : Text) : Prop where
  mkdirAll : ∀ calls, F.call calls (.mkdirAll (Go.dir path)) = none
  writeFile : ∀ calls data, F.call calls (.writeFile path data) = none

variable {T R F} {dir : Text} {fs : FileSystem} {data : Bytes} {es : List ArchiveEntry}

theorem Undisturbed.unfailing {fs' : FileSystem} {path : Text} (h : Undisturbed F fs fs' path) :
    Unfailing (F.within fs.calls fs'.calls) path :=
  ⟨fun _ => Faults.within_call_eq_none (h.mkdirAll _), fun _ _ => Faults.within_call_eq_none (h.writeFile _ _)⟩

theorem ArchiveEntry.reads_iff {P : Bytes → Prop} {e : ArchiveEntry} :
    e.Reads P ↔ ∃ content, e.content = .ok content ∧ P content := by
  unfold ArchiveEntry.Reads
  cases e.content <;> simp

theorem exists_of_complete (h : Complete R data) : ∃ tar, (fromMagic data).map R.gzip = some (.ok tar) ∧
    tar.ending = none ∧ ∃ e ∈ tar.entries, endsInPk3 e.name = true := by
  unfold Complete at h
  cases hm : (fromMagic data).map R.gzip with
  | none =>
    rw [hm] at h
    exact h.elim
  | some tar =>
    rw [hm] at h
    cases tar with
    | error err => exact h.elim
    | ok tar => exact ⟨tar, rfl, h⟩

theorem exists_of_usable (h : Usable T R data) : ∃ files, R.zip data = .ok files ∧
    (∀ f ∈ files, isPack T f.name = true ∨ isInstaller T f.name = true → f.entry.Reads fun _ => True) ∧
      ∃ f ∈ files, isPack T f.name = true ∨ isInstaller T f.name = true ∧ f.entry.Reads (Complete R) := by
  unfold Usable at h
  cases hz : R.zip data with
  | error err =>
    rw [hz] at h
    exact h.elim
  | ok files =>
    rw [hz] at h
    exact ⟨files, rfl, h⟩

/-! ### The tests for the extension -/

theorem lowered_ascii {s : Text} (h : ∀ c ∈ s, c.toNat < 128 ∧ c.toLower = c) : lowered T s = s := by
  rw [lowered]
  conv_rhs => rw [← List.map_id s]
  exact List.map_congr_left fun c hc => (T.ascii c (h c hc).1).trans (h c hc).2

theorem isPack_of_endsInPk3 {name : Text} (h : endsInPk3 name = true) : isPack T name = true := by
  have hs : lowered T (txt ".pk3") <:+ lowered T name :=
    (of_decide_eq_true h : txt ".pk3" <:+ name).map T.toLower
  rw [lowered_ascii (by with_unfolding_all decide)] at hs
  exact decide_eq_true hs

theorem isPack_of_mem_packs {e : ArchiveEntry} (h : e ∈ packs T R data) : isPack T e.name = true := by
  rcases List.mem_append.mp h with hz | ht
  · exact (test_of_mem_zipPacks hz).elim id id
  · split at ht
    · simp at ht
    · exact (List.mem_filter.mp ht).2

/-! ### The path of a pack -/

/-- The directory of the game, below the assets directory. -/
def gamePlace (dir : Text) (fs : FileSystem) : List Name := absolute fs.cwd ((locate dir).enter [baseq3])

theorem packPath_eq {e : ArchiveEntry} (h : isPack T e.name = true) :
    packPath dir e = (((locate dir).enter [baseq3]).enter [⟨base e.name, isName_base_of_isPack h⟩]).render := by
  rw [enter_enter]
  exact savePath_eq ⟨base e.name, isName_base_of_isPack h⟩ dir true

theorem place_packPath {e : ArchiveEntry} (h : isPack T e.name = true) :
    fs.place (packPath dir e) = gamePlace dir fs ++ [⟨base e.name, isName_base_of_isPack h⟩] := by
  rw [FileSystem.place, packPath_eq h, locate_render, absolute_enter]
  rfl

theorem place_dir_packPath {e : ArchiveEntry} (h : isPack T e.name = true) :
    fs.place (Go.dir (packPath dir e)) = gamePlace dir fs := by
  rw [FileSystem.place, packPath_eq h, dir_render_enter, locate_render]
  rfl

theorem gamePlace_eq (dir : Text) (fs : FileSystem) : gamePlace dir fs = fs.place dir ++ [baseq3] := by
  rw [gamePlace, absolute_enter]
  rfl

/-! ### One save -/

/-- What the write of a map pack that nothing disturbs leaves. -/
structure Saved (dir : Text) (n : Name) (content : Bytes) (fs fs' : FileSystem) : Prop where
  cwd : fs'.cwd = fs.cwd
  game : fs'.root.stat (gamePlace dir fs) = .dir
  file : fs'.root.stat (gamePlace dir fs ++ [n]) = .file content
  others : ∀ m, m ≠ n → fs'.root.stat (gamePlace dir fs ++ [m]) = fs.root.stat (gamePlace dir fs ++ [m])

theorem saveFile_saved {e : ArchiveEntry} (hF : Unfailing F (packPath dir e))
    (hp : isPack T e.name = true) (ht : Takes fs (packPath dir e)) (content : Bytes) :
    (saveFile F (base e.name) content dir true fs).1 = none ∧
      Saved dir ⟨base e.name, isName_base_of_isPack hp⟩ content fs
        (saveFile F (base e.name) content dir true fs).2 := by
  have hplace : fs.place (packPath dir e) = gamePlace dir fs ++ [⟨base e.name, isName_base_of_isPack hp⟩] :=
    place_packPath hp
  have hgame : fs.place (Go.dir (packPath dir e)) = gamePlace dir fs := place_dir_packPath hp
  set n : Name := ⟨base e.name, isName_base_of_isPack hp⟩ with hn
  set path := packPath dir e with hpath
  have hmake : (fs.mkdirAll F (Go.dir path)).1 = none := FileSystem.attempt_eq_none (hF.mkdirAll _) ht.way
  have hdir := FileSystem.mkdirAll_dir hmake
  have hbelow : ∀ m, (fs.mkdirAll F (Go.dir path)).2.root.stat (gamePlace dir fs ++ [m]) =
      fs.root.stat (gamePlace dir fs ++ [m]) := by
    intro m
    refine (FileSystem.stat_after_mkdirAll F fs _ _).resolve_right fun h => ?_
    have hlen := h.1.length_le
    rw [hgame, List.length_append, List.length_singleton] at hlen
    omega
  have hcwd : (fs.mkdirAll F (Go.dir path)).2.cwd = fs.cwd := FileSystem.mkdirAll_cwd
  have hpl := place_congr hcwd
  rcases saveFile_cases F (base e.name) content dir true fs with ⟨-, he⟩ | ⟨hne, -⟩
  · have hpath' : savePath (base e.name) dir true = path := rfl
    rw [hpath'] at he
    set made := (fs.mkdirAll F (Go.dir path)).2 with hmade
    rw [hgame] at hdir
    have hnd : fs.root.stat (gamePlace dir fs ++ [n]) ≠ .dir := hplace ▸ ht.no_dir
    have hwrite : (made.writeFile F path content).1 = none := by
      refine FileSystem.attempt_eq_none (hF.writeFile _ _) ?_
      rw [if_neg (by rw [hpath, packPath_eq hp]; exact render_ne_nil _), hpl, hplace]
      exact Node.writeFile_isSome content n _ hdir (by rwa [hbelow n])
    have hfile := FileSystem.writeFile_file hwrite
    rw [hpl, hplace] at hfile
    rw [he]
    refine ⟨hwrite, FileSystem.writeFile_cwd.trans hcwd, FileSystem.dir_after_writeFile hdir,
      hfile, fun m hm => ?_⟩
    rw [FileSystem.stat_after_writeFile, hbelow m]
    rw [hpl, hplace]
    intro hpre
    have heq := hpre.eq_of_length (by simp)
    exact hm (List.singleton_inj.mp (List.append_cancel_left heq)).symm
  · exact absurd hmake hne

/-- The bytes of a pack are in its place. -/
def Stored (dir : Text) (e : ArchiveEntry) (fs : FileSystem) : Prop :=
  ∀ content, e.content = .ok content → fs.root.stat (fs.place (packPath dir e)) = .file content

/-- All packs can be written. -/
def Ready (dir : Text) (es : List ArchiveEntry) (fs : FileSystem) : Prop := ∀ e ∈ es, Takes fs (packPath dir e)

section Saves

variable {e e' : ArchiveEntry} {content : Bytes} (hF : ∀ e ∈ es, Unfailing F (packPath dir e))
  (hp : ∀ e ∈ es, isPack T e.name = true)
include hF hp

theorem ready_save (content : Bytes) (h : Ready dir es fs) (he : e ∈ es) :
    Ready dir es (saveFile F (base e.name) content dir true fs).2 := by
  obtain ⟨-, hs⟩ := saveFile_saved (hF e he) (hp e he) (h e he) content
  have hg : gamePlace dir (saveFile F (base e.name) content dir true fs).2 = gamePlace dir fs := by
    rw [gamePlace, hs.cwd, ← gamePlace]
  intro e' he'
  have hpe := hp e' he'
  constructor
  · rw [place_dir_packPath hpe, hg]
    refine Node.mkdirAll_isSome _ fun q ⟨r, hr⟩ => .inl ?_
    exact Node.stat_dir_of_append q (hr.symm ▸ hs.game)
  · rw [place_packPath hpe, hg]
    by_cases hn : (⟨base e'.name, isName_base_of_isPack hpe⟩ : Name) =
      ⟨base e.name, isName_base_of_isPack (hp e he)⟩
    · rw [hn, hs.file]
      exact Stat.noConfusion
    · rw [hs.others _ hn, ← place_packPath hpe]
      exact (h e' he').no_dir

/-- A pack is stored, and no other one is written over it. -/
theorem stored_save (hd : ∀ e ∈ es, ∀ e' ∈ es, base e.name = base e'.name → e.content = e'.content)
    (h : Ready dir es fs) (he : e ∈ es) (hc : e.content = .ok content) (he' : e' ∈ es)
    (hs : e' = e ∨ Stored dir e' fs) : Stored dir e' (saveFile F (base e.name) content dir true fs).2 := by
  obtain ⟨-, hsave⟩ := saveFile_saved (hF e he) (hp e he) (h e he) content
  have hpe := hp e' he'
  intro content' hc'
  rw [place_packPath hpe,
    show gamePlace dir (saveFile F (base e.name) content dir true fs).2 = gamePlace dir fs by
    rw [gamePlace, hsave.cwd, ← gamePlace]]
  by_cases hn : base e'.name = base e.name
  · have hsame : content' = content := by
      have := hd e' he' e he hn
      rw [hc', hc] at this
      exact Except.ok.inj this
    rw [hsame, ← hsave.file]
    simp only [hn]
  · rw [hsave.others _ fun heq => hn (congrArg Subtype.val heq), ← place_packPath hpe]
    rcases hs with rfl | hs
    · exact absurd rfl hn
    · exact hs content' hc'

/-! ### All saves -/

variable (hread : ∀ e ∈ es, e.Reads fun _ => True)
  (hd : ∀ e ∈ es, ∀ e' ∈ es, base e.name = base e'.name → e.content = e'.content)
include hd

theorem saveKeeps_stored (he' : e' ∈ es) (he : e ∈ es) :
    SaveKeeps F dir true (fun fs => Ready dir es fs ∧ Stored dir e' fs) e := fun _ _ hc h =>
  ⟨ready_save hF hp _ h.1 he, stored_save hF hp hd h.1 he hc he' (.inr h.2)⟩

include hread

/-- A tar whose map packs can be read and written: each of them is stored, and
without an error of the tar itself the extraction succeeds. -/
theorem extractTar_saves {ending : Option Text} :
    ∀ (entries : List ArchiveEntry) (found : Bool) {fs : FileSystem},
    (∀ e ∈ entries, endsInPk3 e.name = true → e ∈ es) → Ready dir es fs →
      (∀ e ∈ entries, endsInPk3 e.name = true →
        Stored dir e (extractTar F dir true ending entries found fs).2) ∧
      (ending = none → found = true ∨ (∃ e ∈ entries, endsInPk3 e.name = true) →
        (extractTar F dir true ending entries found fs).1 = none)
  | [], found, fs, _, _ => by
    refine ⟨by simp, ?_⟩
    rintro rfl (rfl | h)
    · rfl
    · simp at h
  | hdr :: rest, found, fs, hmem, h => by
    obtain ⟨hhdr, hrest⟩ := List.forall_mem_cons.mp hmem
    unfold extractTar
    by_cases ht : endsInPk3 hdr.name = true
    · have hin := hhdr ht
      obtain ⟨content, hc, -⟩ := ArchiveEntry.reads_iff.mp (hread hdr hin)
      obtain ⟨hok, -⟩ := saveFile_saved (hF hdr hin) (hp hdr hin) (h hdr hin) content
      have hready := ready_save hF hp content h hin
      have hstored := stored_save hF hp hd h hin hc hin (.inl rfl)
      rw [if_pos ht, hc]
      dsimp only
      split
      · rename_i he
        rw [he] at hok
        cases hok
      · rename_i he
        rw [he] at hready hstored
        obtain ⟨hall, hres⟩ := extractTar_saves rest true hrest hready
        refine ⟨List.forall_mem_cons.mpr ⟨fun _ => ?_, hall⟩, fun hend _ => hres hend (.inl rfl)⟩
        exact (extractTar_invariant rest true (fun e he ht => saveKeeps_stored hF hp hd hin (hrest e he ht))
          ⟨hready, hstored⟩).2
    · rw [if_neg ht]
      obtain ⟨hall, hres⟩ := extractTar_saves rest found hrest h
      refine ⟨List.forall_mem_cons.mpr ⟨fun h => absurd h ht, hall⟩, fun hend hf => hres hend (hf.imp_right ?_)⟩
      rintro ⟨e, he, hte⟩
      rcases List.mem_cons.mp he with rfl | he
      · exact absurd hte ht
      · exact ⟨e, he, hte⟩

theorem extractFromGzip_saves (hmem : tarPacks R endsInPk3 data ⊆ es) (h : Ready dir es fs) :
    (∀ e ∈ tarPacks R endsInPk3 data, Stored dir e (extractFromGzip R F data dir true fs).2) ∧
      (Complete R data → (extractFromGzip R F data dir true fs).1 = none) := by
  unfold tarPacks tarEntries Complete at *
  unfold extractFromGzip
  cases hm : fromMagic data with
  | none => simp
  | some data =>
    cases hg : R.gzip data with
    | error err => simp [hg]
    | ok tar =>
      simp only [hm, Option.map_some, hg] at hmem ⊢
      obtain ⟨hall, hres⟩ := extractTar_saves hF hp hread hd tar.entries false
        (fun e he ht => hmem (List.mem_filter.mpr ⟨he, ht⟩)) h
      exact ⟨fun e he => hall e (List.mem_filter.mp he).1 (List.mem_filter.mp he).2,
        fun hc => hres hc.1 (.inr hc.2)⟩

/-- A file of a zip that can be read: its map packs are stored, and the loop
goes on. A map pack has been found when the file is one, or an installer that is
extracted. -/
theorem extractFile_saves {f : ZipFile} (hmem : f.packs T R endsInPk3 ⊆ es)
    (hopen : isPack T f.name = true ∨ isInstaller T f.name = true → f.entry.Reads fun _ => True)
    (h : Ready dir es fs) : ∃ isFound fs', extractFile T R F dir true f fs = (.ok isFound, fs') ∧
      Ready dir es fs' ∧ (∀ e ∈ f.packs T R endsInPk3, Stored dir e fs') ∧
      (isPack T f.name = true ∨ isInstaller T f.name = true ∧ f.entry.Reads (Complete R) → isFound = true) := by
  unfold ZipFile.packs at hmem ⊢
  unfold extractFile
  by_cases hpk : isPack T f.name = true
  · obtain ⟨content, hc, -⟩ := ArchiveEntry.reads_iff.mp (hopen (.inl hpk))
    rw [if_pos hpk] at hmem ⊢
    rw [if_pos hpk, saveFileFromReader, ZipFile.opened_of_content hc]
    have hin : f.entry ∈ es := hmem (List.mem_singleton_self _)
    obtain ⟨hok, -⟩ := saveFile_saved (hF _ hin) (hp _ hin) (h _ hin) content
    have hready := ready_save hF hp content h hin
    have hstored := stored_save hF hp hd h hin hc hin (.inl rfl)
    have hname : f.entry.name = f.name := rfl
    rw [hname] at hok hready hstored
    dsimp only
    split
    · rename_i he
      rw [he] at hok
      cases hok
    · rename_i he
      rw [he] at hready hstored
      exact ⟨_, _, rfl, hready, List.forall_mem_singleton.mpr hstored, fun _ => rfl⟩
  · by_cases hi : isInstaller T f.name = true
    · obtain ⟨content, hc, -⟩ := ArchiveEntry.reads_iff.mp (hopen (.inr hi))
      rw [if_neg hpk, if_pos hi, hc] at hmem ⊢
      rw [if_neg hpk, if_pos hi, ZipFile.opened_of_content hc]
      obtain ⟨hnested, hcomplete⟩ := extractFromGzip_saves hF hp hread hd hmem h
      have hready : Ready dir es (extractFromGzip R F content dir true fs).2 :=
        extractFromGzip_invariant (fun e he _ _ _ hr => ready_save hF hp _ hr (hmem he)) h
      dsimp only
      split
      · rename_i he
        rw [he] at hnested hcomplete hready
        refine ⟨_, _, rfl, hready, hnested, ?_⟩
        rintro (hgp | ⟨-, hreads⟩)
        · exact absurd hgp hpk
        · obtain ⟨content', hc', hcomp⟩ := ArchiveEntry.reads_iff.mp hreads
          rw [hc] at hc'
          cases hc'
          cases hcomplete hcomp
      · rename_i he
        rw [he] at hnested hready
        exact ⟨_, _, rfl, hready, hnested, fun _ => rfl⟩
    · rw [if_neg hpk, if_neg hi]
      rw [if_neg hpk, if_neg hi]
      refine ⟨_, _, rfl, h, by simp, ?_⟩
      rintro (hgp | ⟨hgi, -⟩)
      · exact absurd hgp hpk
      · exact absurd hgi hi

/-- The files of a zip, whose map packs and installers can be read. -/
theorem extractFiles_saves : ∀ (files : List ZipFile) (found : Bool) {fs : FileSystem},
    files.flatMap (ZipFile.packs T R endsInPk3) ⊆ es →
    (∀ f ∈ files, isPack T f.name = true ∨ isInstaller T f.name = true → f.entry.Reads fun _ => True) →
    Ready dir es fs →
      (∀ e ∈ files.flatMap (ZipFile.packs T R endsInPk3),
        Stored dir e (extractFiles T R F dir true files found fs).2) ∧
      (found = true ∨ (∃ f ∈ files, isPack T f.name = true ∨
          isInstaller T f.name = true ∧ f.entry.Reads (Complete R)) →
        (extractFiles T R F dir true files found fs).1 = none)
  | [], found, fs, _, _, _ => by
    refine ⟨by simp, ?_⟩
    rintro (rfl | h)
    · rfl
    · simp at h
  | f :: rest, found, fs, hmem, hopen, h => by
    obtain ⟨hf, hrest⟩ := List.append_subset.mp hmem
    obtain ⟨hfo, hro⟩ := List.forall_mem_cons.mp hopen
    obtain ⟨isFound, fs', hstep, hready, hstored, hgood⟩ := extractFile_saves hF hp hread hd hf hfo h
    obtain ⟨hall, hres⟩ := extractFiles_saves rest (found || isFound) hrest hro hready
    -- what is stored stays so while the rest is extracted
    have keeps : ∀ e ∈ es, Stored dir e fs' →
        Stored dir e (extractFiles T R F dir true rest (found || isFound) fs').2 := fun e he hs =>
      (extractFiles_invariant rest _ (fun e' he' => saveKeeps_stored hF hp hd he (hrest he')) ⟨hready, hs⟩).2
    rw [extractFiles_cons, hstep]
    refine ⟨List.forall_mem_append.mpr ⟨fun e hm => keeps e (hf hm) (hstored e hm), hall⟩, fun hor => hres ?_⟩
    rcases hor with hfound | ⟨g, hg, hgg⟩
    · exact .inl (Bool.or_eq_true_iff.mpr (.inl hfound))
    · rcases List.mem_cons.mp hg with rfl | hg
      · exact .inl (Bool.or_eq_true_iff.mpr (.inr (hgood hgg)))
      · exact .inr ⟨g, hg, hgg⟩

end Saves

/-! ### Sound archives -/

theorem stored_of_zip (hs : Sound dir (zipPacks T R (isPack T) data))
    (hF : ∀ e ∈ zipPacks T R (isPack T) data, Unfailing F (packPath dir e))
    (hu : Usable T R data) (h : Ready dir (zipPacks T R (isPack T) data) fs) {e : ArchiveEntry}
    (he : e ∈ zipPacks T R (isPack T) data) : Stored dir e (extractPack T R F data dir fs).2 := by
  have hp : ∀ e ∈ zipPacks T R (isPack T) data, isPack T e.name = true := fun e he =>
    (test_of_mem_zipPacks he).elim id id
  have hsub : zipPacks T R endsInPk3 data ⊆ zipPacks T R (isPack T) data := fun e he =>
    mem_zipPacks_of_test he isPack_of_endsInPk3
  have hin : e ∈ zipPacks T R endsInPk3 data := mem_zipPacks_of_test he fun _ => hs.lower e he
  have hall : (∀ e ∈ zipPacks T R endsInPk3 data, Stored dir e (extractFromZip T R F data dir true fs).2) ∧
      (extractFromZip T R F data dir true fs).1 = none := by
    obtain ⟨files, hz, hopen, hgood⟩ := exists_of_usable hu
    generalize zipPacks T R (isPack T) data = es at *
    unfold zipPacks at hsub ⊢
    unfold extractFromZip
    rw [hz] at hsub ⊢
    obtain ⟨hall, hres⟩ := extractFiles_saves hF hp hs.readable hs.distinct files false hsub hopen h
    exact ⟨hall, hres (.inr hgood)⟩
  obtain ⟨hstored, hok⟩ := hall
  have hst := hstored e hin
  unfold extractPack
  split
  · rename_i hz'
    rwa [hz'] at hst
  · rename_i hz'
    rw [hz'] at hok
    cases hok

theorem stored_of_tar (hs : Sound dir (tarPacks R (isPack T) data))
    (hF : ∀ e ∈ tarPacks R (isPack T) data, Unfailing F (packPath dir e))
    (hz : zipPacks T R (isPack T) data = []) (h : Ready dir (tarPacks R (isPack T) data) fs) {e : ArchiveEntry}
    (he : e ∈ tarPacks R (isPack T) data) : Stored dir e (extractPack T R F data dir fs).2 := by
  have hp : ∀ e ∈ tarPacks R (isPack T) data, isPack T e.name = true := fun e he => (List.mem_filter.mp he).2
  have hzip : zipPacks T R endsInPk3 data = [] := List.eq_nil_iff_forall_not_mem.mpr fun e he => by
    have hany : e ∈ zipPacks T R (isPack T) data := mem_zipPacks_of_test he isPack_of_endsInPk3
    rw [hz] at hany
    simp at hany
  have hready : Ready dir (tarPacks R (isPack T) data) (extractFromZip T R F data dir true fs).2 :=
    extractFromZip_invariant (by simp [hzip]) h
  have hst := (extractFromGzip_saves hF hp hs.readable hs.distinct
    (fun e he => mem_tarPacks_of_test he isPack_of_endsInPk3) hready).1 e
      (mem_tarPacks_of_test he fun _ => hs.lower e he)
  unfold extractPack
  split
  · rename_i hn
    exact absurd hzip (extractFromZip_found (T := T) (R := R) (F := F) (by rw [hn]))
  · rename_i hn
    rwa [hn] at hst

/-- The packs of a sound archive are stored when nothing makes an error. -/
theorem stored_of_sound (hs : Sound dir (packs T R data)) (hm : Smooth T R F data dir fs) {e : ArchiveEntry}
    (he : e ∈ packs T R data) : Stored dir e (extractPack T R F data dir fs).2 := by
  obtain ⟨husable, hF, htakes⟩ := hm
  -- what goes wrong in other calls makes no difference
  rw [← (own_extractPack T R data dir).within_eq F fs]
  replace hF := fun e he => (hF e he).unfailing
  unfold packs at hs he hF htakes
  by_cases hu : Usable T R data
  · rw [if_pos hu, List.append_nil] at hs he hF htakes
    exact stored_of_zip hs hF hu htakes he
  · have hz : zipPacks T R (isPack T) data = [] := by_contra fun hne => hu (husable hne)
    rw [if_neg hu, hz, List.nil_append] at hs he hF htakes
    exact stored_of_tar hs hF hz htakes he

/-! ### Listed packs -/

theorem assetFile_mem_assets {e : ArchiveEntry} {content : Bytes} (hd : dir ≠ []) (hp : isPack T e.name = true)
    (hl : endsInPk3 e.name = true)
    (h : fs.root.stat (fs.place (packPath dir e)) = .file content) :
    assetFile dir (packPath dir e, content) ∈ fs.assets dir := by
  set n : Name := ⟨base e.name, isName_base_of_isPack hp⟩ with hn
  have hpath : packPath dir e = ((locate dir).enter [baseq3, n]).render := by
    rw [packPath_eq hp, enter_enter]
    rfl
  have hplace : fs.place (packPath dir e) = fs.place dir ++ [baseq3, n] := by
    rw [place_packPath hp, gamePlace_eq, List.append_assoc]
    rfl
  have hext : hasExts ((locate dir).enter [baseq3, n]).render assetExts = true := by
    obtain ⟨b, hb⟩ := render_enter_cons (locate dir) baseq3 (List.cons_ne_nil n [])
    rw [relative_singleton] at hb
    have hs : txt ".pk3" <:+ n.val :=
      (suffix_base (by with_unfolding_all decide) (by with_unfolding_all decide) (of_decide_eq_true hl)).1
    rw [hb, show b ++ '/' :: n.val = (b ++ ['/']) ++ n.val by simp]
    exact List.any_eq_true.mpr ⟨txt ".pk3", List.mem_cons_self,
      decide_eq_true (hs.trans (List.suffix_append _ _))⟩
  rw [hplace] at h
  obtain ⟨node, hnode⟩ := Node.find_of_stat_file _ h
  rw [Node.stat_of_find _ hnode] at h
  rw [FileSystem.assets, if_neg hd, hnode, hpath]
  exact List.mem_map_of_mem (mem_walk_of_stat hd (List.cons_ne_nil _ _) hext h)

/-- **Sound archives lose no map pack** when nothing makes an error. -/
theorem losesNone_of_sound (hs : Sound dir (packs T R data)) (hm : Smooth T R F data dir fs) :
    LosesNone dir (extractPack T R F data dir fs).2 (packs T R data) := by
  refine ⟨fun e he => ?_, fun e he e' he' hpath => ?_⟩
  · obtain ⟨content, hc, -⟩ := ArchiveEntry.reads_iff.mp (hs.readable e he)
    have hst := stored_of_sound hs hm he content hc
    exact ⟨content, hc, hst, assetFile_mem_assets hs.dir_ne (isPack_of_mem_packs he) (hs.lower e he) hst⟩
  · refine hs.distinct e he e' he' ?_
    have hp := isPack_of_mem_packs he
    have hp' := isPack_of_mem_packs he'
    rw [packPath_eq hp, packPath_eq hp'] at hpath
    have hn := enter_inj.mp (render_inj hpath)
    exact congrArg Subtype.val (List.singleton_inj.mp hn)

theorem trimPrefix_cases (s t : Text) : s = trimPrefix s t ∨ s = t ++ trimPrefix s t := by
  by_cases h : t <+: s
  · obtain ⟨a, rfl⟩ := h
    exact .inr (by rw [trimPrefix_append])
  · exact .inl (trimPrefix_of_not h).symm

/-- A suffix without a slash is not trimmed away with a directory. -/
theorem suffix_trimPrefix {e s : Text} (he : '/' ∉ e) (h : e <:+ s) (dir : Text) :
    e <:+ trimPrefix s (dir ++ ['/']) := by
  rcases trimPrefix_cases s (dir ++ ['/']) with hs | hs
  · rwa [← hs]
  · rw [hs, List.append_assoc] at h
    exact suffix_of_append_slash he h

theorem suffix_of_trimPrefix {e s t : Text} (h : e <:+ trimPrefix s t) : e <:+ s := by
  rcases trimPrefix_cases s t with hs | hs
  · rwa [hs]
  · rw [hs]
    exact h.trans (List.suffix_append _ _)

/-- Only a pack whose extension is in lower case is listed. -/
theorem lower_of_listed {e : ArchiveEntry} {content : Bytes} (hp : isPack T e.name = true)
    (h : assetFile dir (packPath dir e, content) ∈ fs.assets dir) : dir ≠ [] ∧ endsInPk3 e.name = true := by
  unfold FileSystem.assets at h
  by_cases hd : dir = []
  · simp [hd] at h
  rw [if_neg hd] at h
  refine ⟨hd, ?_⟩
  split at h
  · obtain ⟨v, hv, heq⟩ := List.mem_map.mp h
    obtain ⟨ext, hmem, hsuf⟩ := List.any_eq_true.mp (hasExts_of_mem_walk hv)
    have hasset : ∀ ext ∈ assetExts, '/' ∉ ext ∧ (∀ c ∈ ext, c.toNat < 128 ∧ c.toLower = c) ∧
        (ext = txt ".pk3" ∨ ¬ ext <:+ txt ".pk3" ∧ ¬ txt ".pk3" <:+ ext) := by with_unfolding_all decide
    obtain ⟨hslash, hascii, hor⟩ := hasset ext hmem
    -- the extension ends the name of the entry, and so the base name of the pack
    have hname : trimPrefix v.1 (dir ++ ['/']) = trimPrefix (packPath dir e) (dir ++ ['/']) :=
      congrArg File.name heq
    have hpath : ext <:+ packPath dir e :=
      suffix_of_trimPrefix (hname ▸ suffix_trimPrefix hslash (of_decide_eq_true hsuf) dir)
    have hbase : ext <:+ base e.name := by
      obtain ⟨b, hb⟩ := render_enter_cons (locate dir) baseq3
        (List.cons_ne_nil (⟨base e.name, isName_base_of_isPack hp⟩ : Name) [])
      rw [packPath_eq hp, enter_enter, List.singleton_append, hb, relative_singleton] at hpath
      exact suffix_of_append_slash hslash hpath
    obtain ⟨s, hs, hlow, hsslash, hlen⟩ := exists_suffix_of_isPack hp
    have hsbase := (suffix_base hsslash (List.ne_nil_of_length_pos (by omega)) hs).1
    have hext : ext = txt ".pk3" := by
      refine hor.resolve_right fun ⟨h1, h2⟩ => ?_
      rcases List.suffix_or_suffix_of_suffix hbase hsbase with hx | hx
      · have := hx.map T.toLower
        rw [hlow, show ext.map T.toLower = ext from lowered_ascii hascii] at this
        exact h1 this
      · have := hx.map T.toLower
        rw [hlow, show ext.map T.toLower = ext from lowered_ascii hascii] at this
        exact h2 this
    have hsame : ext <:+ s := List.suffix_of_suffix_length_le hbase hsbase (by
      rw [hext, hlen]
      with_unfolding_all decide)
    exact decide_eq_true (hext ▸ hsame.trans hs)
  · simp at h

/-- **What loses a map pack for certain**: none of it when no pack is lost. -/
theorem sound_of_losesNone {fs' : FileSystem} (hne : packs T R data ≠ [])
    (h : LosesNone dir fs' (packs T R data)) : Sound dir (packs T R data) := by
  have listed : ∀ e ∈ packs T R data, dir ≠ [] ∧ endsInPk3 e.name = true := fun e he => by
    obtain ⟨content, -, -, hl⟩ := h.held e he
    exact lower_of_listed (isPack_of_mem_packs he) hl
  obtain ⟨e₀, he₀⟩ := List.exists_mem_of_ne_nil _ hne
  refine ⟨fun e he => ?_, fun e he => (listed e he).2, fun e he e' he' hb => ?_, (listed e₀ he₀).1⟩
  · obtain ⟨content, hc, -⟩ := h.held e he
    exact ArchiveEntry.reads_iff.mpr ⟨content, hc, trivial⟩
  · exact h.apart e he e' he' (by rw [packPath, packPath, hb])

theorem zipPacks_ne_nil (h : zipPacks T R endsInPk3 data ≠ []) : zipPacks T R (isPack T) data ≠ [] := by
  obtain ⟨e, he⟩ := List.exists_mem_of_ne_nil _ h
  exact List.ne_nil_of_mem (mem_zipPacks_of_test he isPack_of_endsInPk3)

/-- A usable zip has a map pack. -/
theorem zipPacks_ne_nil_of_usable (h : Usable T R data) : zipPacks T R (isPack T) data ≠ [] := by
  refine zipPacks_ne_nil ?_
  obtain ⟨files, hz, -, f, hf, hgood⟩ := exists_of_usable h
  unfold zipPacks
  rw [hz]
  obtain ⟨e, he⟩ : ∃ e, e ∈ f.packs T R endsInPk3 := by
    unfold ZipFile.packs
    by_cases hp : isPack T f.name = true
    · exact ⟨f.entry, by rw [if_pos hp]; exact List.mem_singleton_self _⟩
    · obtain ⟨hi, hreads⟩ := hgood.resolve_left hp
      obtain ⟨content, hc, hcomp⟩ := ArchiveEntry.reads_iff.mp hreads
      obtain ⟨tar, htar, -, e, he, ht⟩ := exists_of_complete hcomp
      rw [if_neg hp, if_pos hi, hc]
      dsimp only
      unfold tarPacks tarEntries
      rw [htar]
      exact ⟨e, List.mem_filter.mpr ⟨he, ht⟩⟩
  exact List.ne_nil_of_mem (List.mem_flatMap.mpr ⟨f, hf, he⟩)

theorem packs_ne_nil (h : (extractPack T R F data dir fs).1 = none) : packs T R data ≠ [] := by
  unfold packs
  by_cases hu : Usable T R data
  · exact List.append_ne_nil_of_left_ne_nil (zipPacks_ne_nil_of_usable hu) _
  · rw [if_neg hu]
    unfold extractPack at h
    split at h
    · rename_i hn
      exact List.append_ne_nil_of_left_ne_nil
        (zipPacks_ne_nil (extractFromZip_found (T := T) (R := R) (F := F) (by rw [hn]))) _
    · obtain ⟨e, he⟩ := List.exists_mem_of_ne_nil _ (extractFromGzip_found h)
      exact List.append_ne_nil_of_right_ne_nil _
        (List.ne_nil_of_mem (mem_tarPacks_of_test he isPack_of_endsInPk3))

/-- **Extraction loses no map pack** of sound archives, as long as nothing makes an
error that is passed over; of every other archive it loses one. -/
theorem extractPack_loses_none (data : Bytes) (dir : Text) (fs : FileSystem)
    (h : (extractPack T R F data dir fs).1 = none) :
    (LosesNone dir (extractPack T R F data dir fs).2 (packs T R data) → Sound dir (packs T R data)) ∧
    (Sound dir (packs T R data) ∧ Smooth T R F data dir fs →
      LosesNone dir (extractPack T R F data dir fs).2 (packs T R data)) :=
  ⟨sound_of_losesNone (packs_ne_nil h), fun ⟨hs, hm⟩ => losesNone_of_sound hs hm⟩

/-! ### Two packs with one base name -/

namespace TwoPaks

/-- A zip with these files, whatever the data. -/
def readers (files : List ZipFile) : Readers := ⟨fun _ => .ok files, fun _ => .error []⟩

def pak (directory : Text) (content : Bytes) : ZipFile := ⟨directory ++ txt "/map.pk3", .ok (.ok content)⟩

end TwoPaks

open Pak TwoPaks in
theorem extractPack_loses_none_pak :
    (LosesNone Pak.dir (extractPack table (readers [pak (txt "a") [1]]) noFaults [] Pak.dir disk).2
        (packs table (readers [pak (txt "a") [1]]) []) →
      Sound Pak.dir (packs table (readers [pak (txt "a") [1]]) [])) ∧
    (Sound Pak.dir (packs table (readers [pak (txt "a") [1]]) []) ∧
        Smooth table (readers [pak (txt "a") [1]]) noFaults [] Pak.dir disk →
      LosesNone Pak.dir (extractPack table (readers [pak (txt "a") [1]]) noFaults [] Pak.dir disk).2
        (packs table (readers [pak (txt "a") [1]]) [])) :=
  extractPack_loses_none [] Pak.dir disk (by with_unfolding_all rfl)

open Pak TwoPaks in
/-- `a/map.pk3` is written over by `b/map.pk3`. -/
theorem pack_overwritten : ¬ ∀ R fs, (extractPack table R noFaults [] Pak.dir fs).1 = none →
    LosesNone Pak.dir (extractPack table R noFaults [] Pak.dir fs).2 (packs table R []) := by
  intro h
  have hl := h (readers [pak (txt "a") [1], pak (txt "b") [2]]) disk (by with_unfolding_all rfl)
  have hzip : zipPacks table (readers [pak (txt "a") [1], pak (txt "b") [2]]) (isPack table) [] =
      [⟨txt "a/map.pk3", .ok [1]⟩, ⟨txt "b/map.pk3", .ok [2]⟩] := by with_unfolding_all rfl
  have ha : (⟨txt "a/map.pk3", .ok [1]⟩ : ArchiveEntry) ∈
      packs table (readers [pak (txt "a") [1], pak (txt "b") [2]]) [] :=
    List.mem_append_left _ (hzip ▸ by simp)
  have hb : (⟨txt "b/map.pk3", .ok [2]⟩ : ArchiveEntry) ∈
      packs table (readers [pak (txt "a") [1], pak (txt "b") [2]]) [] :=
    List.mem_append_left _ (hzip ▸ by simp)
  obtain ⟨content, hc, hstat, -⟩ := hl.held _ ha
  obtain ⟨content', hc', hstat', -⟩ := hl.held _ hb
  cases hc
  cases hc'
  have hpath : packPath Pak.dir ⟨txt "a/map.pk3", .ok [1]⟩ = packPath Pak.dir ⟨txt "b/map.pk3", .ok [2]⟩ := by
    with_unfolding_all decide
  rw [hpath] at hstat
  cases hstat.symm.trans hstat'

end Content
end QuakeKube
