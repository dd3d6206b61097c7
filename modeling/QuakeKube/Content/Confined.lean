/-
# Where downloads are written

The paths that `CopyAssets`, `downloadAndExtract` and the extractors pass to
`os.MkdirAll` and `os.WriteFile`. A map pack of an archive is written under its
base name, which ends in `.pk3` and so is a name. The name of a manifest's entry
and the base name of a URL are joined as they are: what decides is where they
lead, as it does for an upload (`confined_iff`).

Key definitions: `Call.Confined`, `NameStays`, `Harmless`.
Key theorems: `saveFile_confined`, `confined_iff`.
-/
import QuakeKube.Content.Seed

namespace QuakeKube
namespace Content

open Go Loc

variable {T : LowerTable} {R : Readers} {F : Faults} {W : Web} {dir : Text}

/-- Directories are made beneath `dir`, and files are written below it. -/
def Call.Confined (dir : Text) : Call → Prop
  | .mkdirAll path => (locate path).Beneath (locate dir)
  | .writeFile path _ => (locate path).StrictlyBeneath (locate dir)

/-- A name that, joined to `dir`, comes back into it and ends below. -/
def NameStays (dir name : Text) : Prop :=
  Anchored dir name ∧ Returns (locate dir) (here.walk (moves name)).ups (here.walk (moves name)).names ∧
    (here.walk (moves name)).names ≠
      (locate dir).names.drop ((locate dir).names.length - (here.walk (moves name)).ups)

instance (dir name : Text) : Decidable (NameStays dir name) := by unfold NameStays; infer_instance

theorem nameStays_iff (dir name : Text) :
    (locate (join [dir, name])).StrictlyBeneath (locate dir) ↔ NameStays dir name := by
  rw [strictlyBeneath_join_iff]
  simp [NameStays]

/-! ### Every save -/

theorem join_eq (es : List Text) : join es = [] ∨ join es = (locate (join es)).render := by
  induction es with
  | nil => exact .inl rfl
  | cons e es ih =>
    by_cases he : e = []
    · rw [he]
      exact ih
    · right
      rw [join_eq_render he, locate_render]

/-- The directory of a path below `dir` is beneath it. -/
theorem beneath_dir {es : List Text} {D : Loc} (h : (locate (join es)).StrictlyBeneath D) :
    (locate (Go.dir (join es))).Beneath D := by
  obtain ⟨ns, hne, hl⟩ := h
  have hp : join es = (D.enter ns).render := by
    rcases join_eq es with he | he
    · rw [he] at hl
      have hn : [] = D.names ++ ns := congrArg Loc.names hl
      exact absurd (List.append_eq_nil_iff.mp hn.symm).2 hne
    · rw [he, hl]
  obtain ⟨ms, n, rfl⟩ : ∃ ms n, ns = ms ++ [n] :=
    ⟨ns.dropLast, ns.getLast hne, (List.dropLast_append_getLast hne).symm⟩
  rw [hp, ← enter_enter, dir_render_enter, locate_render]
  exact ⟨ms, rfl⟩

/-- What is saved below `dir` is saved with calls confined to it. -/
theorem saveFile_confined {filename : Text} {data : Bytes} {force : Bool} {fs : FileSystem}
    (hp : (locate (savePath filename dir force)).StrictlyBeneath (locate dir))
    (h : ∀ c ∈ fs.calls, c.Confined dir) :
    ∀ c ∈ (saveFile F filename data dir force fs).2.calls, c.Confined dir := by
  have hdir : (Call.mkdirAll (Go.dir (savePath filename dir force))).Confined dir := by
    unfold savePath at hp ⊢
    split at hp
    · rename_i hf
      rw [if_pos hf]
      exact beneath_dir hp
    · rename_i hf
      rw [if_neg hf]
      exact beneath_dir hp
  rcases saveFile_cases F filename data dir force fs with ⟨-, he⟩ | ⟨-, -, he⟩
  · rw [he, FileSystem.writeFile_calls, FileSystem.mkdirAll_calls]
    simp only [List.forall_mem_append, List.forall_mem_singleton]
    exact ⟨⟨h, hdir⟩, hp⟩
  · rw [he, FileSystem.mkdirAll_calls]
    simp only [List.forall_mem_append, List.forall_mem_singleton]
    exact ⟨h, hdir⟩

/-! ### Map packs -/

theorem isName_baseq3 : IsName (txt "baseq3") := by with_unfolding_all decide

/-- The directory of the game. -/
def baseq3 : Name := ⟨txt "baseq3", isName_baseq3⟩

theorem anchored_name (dir : Text) (n : Name) (s : Text) : Anchored dir (n.val ++ s) := by
  intro _ hs
  obtain ⟨c, t, hc⟩ := List.exists_cons_of_ne_nil n.property.1
  rw [hc] at hs
  have hslash : c = '/' := by simpa using hs
  exact n.property.2.2.2 (by simp [hc, hslash])

/-- Where a file is saved under a name. -/
theorem locate_savePath (n : Name) (dir : Text) (force : Bool) :
    locate (savePath n.val dir force) = (locate dir).enter (if force then [baseq3, n] else [n]) := by
  have into (n : Name) : moves n.val = [.into n] := by
    rw [moves_of_noSlash n.property.2.2.2, move_name]
  unfold savePath
  cases force
  · rw [if_neg Bool.false_ne_true, locate_join_cons]
    · rw [List.flatMap_singleton, into]
      rfl
    · rw [List.flatten_singleton, ← List.append_nil n.val]
      exact anchored_name dir n []
  · rw [if_pos rfl, show txt "baseq3" = baseq3.val from rfl, locate_join_cons]
    · rw [List.flatMap_cons, List.flatMap_singleton, into, into]
      exact walk_into (locate dir) [baseq3, n]
    · rw [List.flatten_cons]
      exact anchored_name dir baseq3 _

/-- The path of a file that is saved under a name. -/
theorem savePath_eq (n : Name) (dir : Text) (force : Bool) :
    savePath n.val dir force = ((locate dir).enter (if force then [baseq3, n] else [n])).render := by
  have hl := locate_savePath n dir force
  have hne : ¬ savePath n.val dir force = [] := fun he => by
    have hn := congrArg Loc.names hl
    rw [he] at hn
    have : (locate dir).names ++ (if force then [baseq3, n] else [n]) = [] := hn.symm
    cases force <;> simp at this
  have hj : ∃ es, savePath n.val dir force = join es := by
    unfold savePath
    split <;> exact ⟨_, rfl⟩
  obtain ⟨es, he⟩ := hj
  rw [← hl, he]
  exact (join_eq es).resolve_left (he ▸ hne)

theorem isName_base_of_endsInPk3 {name : Text} (h : endsInPk3 name = true) : IsName (base name) := by
  obtain ⟨hs, hslash⟩ :=
    suffix_base (e := txt ".pk3") (by with_unfolding_all decide) (by with_unfolding_all decide)
    (of_decide_eq_true h)
  refine isName_of_length hslash (le_trans ?_ hs.length_le)
  with_unfolding_all decide

/-- What ends in `.pk3` in any case ends in four characters of a last segment. -/
theorem exists_suffix_of_isPack {name : Text} (h : isPack T name = true) :
    ∃ s, s <:+ name ∧ s.map T.toLower = txt ".pk3" ∧ '/' ∉ s ∧ s.length = 4 := by
  obtain ⟨a, ha⟩ := of_decide_eq_true h
  obtain ⟨b, s, rfl, -, hs⟩ := List.map_eq_append_iff.mp ha.symm
  refine ⟨s, List.suffix_append b s, hs, fun hm => ?_, ?_⟩
  · have hlow := List.mem_map_of_mem (f := T.toLower) hm
    rw [hs, T.ascii '/' (by decide)] at hlow
    exact absurd hlow (by with_unfolding_all decide)
  · rw [← List.length_map T.toLower, hs]
    with_unfolding_all rfl

theorem isName_base_of_isPack {name : Text} (h : isPack T name = true) : IsName (base name) := by
  obtain ⟨s, hs, -, hslash, hlen⟩ := exists_suffix_of_isPack h
  obtain ⟨hb, hbase⟩ := suffix_base hslash (List.ne_nil_of_length_pos (by omega)) hs
  exact isName_of_length hbase (by have := hb.length_le; omega)

/-- The map packs that extraction can write have names. -/
theorem isName_of_mem_packs {data : Bytes} {e : ArchiveEntry}
    (h : e ∈ zipPacks T R endsInPk3 data ++ tarPacks R endsInPk3 data) : IsName (base e.name) := by
  rcases List.mem_append.mp h with he | he
  · rcases test_of_mem_zipPacks he with hp | hp
    · exact isName_base_of_isPack hp
    · exact isName_base_of_endsInPk3 hp
  · exact isName_base_of_endsInPk3 (List.mem_filter.mp he).2

/-! ### Everything that is downloaded -/

/-- A name that stays, or leads to a place without a name of its own (`/`, `.`,
`..`), which always is a directory and passed over. -/
def Harmless (dir name : Text) : Prop :=
  NameStays dir name ∨ join [dir, name] ≠ [] ∧ (locate (join [dir, name])).names = []

instance (dir name : Text) : Decidable (Harmless dir name) := by unfold Harmless; infer_instance

/-- Whatever the archives hold and whatever goes wrong, the calls for a manifest,
for a URL with some path and for an archive are confined. -/
structure WritesInside (T : LowerTable) (dir : Text) (files : List File) (urlPath : Text)
    (R : Readers) (F : Faults)
    (W : Web) (fs : FileSystem) : Prop where
  copied : ∀ u, ∀ c ∈ (copyAssets T R F W u (.ok files) dir fs).2.calls, c.Confined dir
  downloaded : ∀ rawURL, W.urlPath rawURL = .ok urlPath →
    ∀ c ∈ (downloadAndExtract F W rawURL dir (extractPack T R F) fs).2.calls, c.Confined dir
  zip : ∀ data force, ∀ c ∈ (extractFromZip T R F data dir force fs).2.calls, c.Confined dir
  gzip : ∀ data force, ∀ c ∈ (extractFromGzip R F data dir force fs).2.calls, c.Confined dir

/-- What holds while confined calls are made. -/
structure Inside (dir : Text) (before fs : FileSystem) : Prop where
  calls : ∀ c ∈ fs.calls, c.Confined dir
  cwd : fs.cwd = before.cwd
  there : fs.root.stat before.cwd = .dir

variable {before fs : FileSystem}

theorem Inside.saveFile (h : Inside dir before fs) {filename : Text} {data : Bytes} {force : Bool}
    (hp : (locate (savePath filename dir force)).StrictlyBeneath (locate dir)) :
    Inside dir before (saveFile F filename data dir force fs).2 :=
  ⟨saveFile_confined hp h.calls, (saveFile_cwd F filename data dir force fs).trans h.cwd,
    saveFile_dir F h.there⟩

theorem Inside.pack {data : Bytes} {force : Bool} {e : ArchiveEntry} (h : e ∈ extracted T R data) :
    SaveKeeps F dir force (Inside dir before) e := by
  intro content fs _ hfs
  refine hfs.saveFile ?_
  exact ⟨_, by split <;> simp, locate_savePath ⟨base e.name, isName_of_mem_packs h⟩ dir force⟩

/-- A place without a name is on the way to the working directory. -/
theorem notExist_eq_false (h : Inside dir before fs) {path : Text} (hne : path ≠ [])
    (hn : (locate path).names = []) : fs.notExist F path = false := by
  obtain ⟨q, hq⟩ : ∃ q, before.cwd = fs.place path ++ q := by
    unfold FileSystem.place absolute
    rw [hn, h.cwd]
    split
    · exact ⟨before.cwd, rfl⟩
    · exact ⟨before.cwd.drop (before.cwd.length - (locate path).ups), by
        rw [List.append_nil, List.take_append_drop]⟩
  have hdir := Node.stat_dir_of_append _ (hq ▸ h.there)
  simp [FileSystem.notExist, hne, hdir]

theorem Inside.copyAsset (h : Inside dir before fs) {f : File} (hf : Harmless dir f.name) {data : Bytes}
    (hex : fs.notExist F (join [dir, f.name]) = true) :
    Inside dir before (saveAsset T R F f data dir fs).2 := by
  refine saveAsset_invariant ?_ fun _ e he => Inside.pack he
  rcases hf with hs | ⟨hne, hn⟩
  · exact h.saveFile ((nameStays_iff dir f.name).mpr hs)
  · rw [notExist_eq_false h hne hn] at hex
    cases hex

theorem Inside.downloadAndExtract (h : Inside dir before fs) {rawURL : Text}
    (hurl : ∀ urlPath, W.urlPath rawURL = .ok urlPath → IsName (base urlPath)) :
    Inside dir before (downloadAndExtract F W rawURL dir (extractPack T R F) fs).2 := by
  unfold Content.downloadAndExtract
  split
  · exact h
  · rename_i urlPath hpath
    split
    · exact h
    · rename_i data _
      have hk : Inside dir before (Content.saveFile F (base urlPath) data dir false fs).2 :=
        h.saveFile ⟨_, by simp, locate_savePath ⟨base urlPath, hurl urlPath hpath⟩ dir false⟩
      split
      · rename_i he
        rwa [he] at hk
      · rename_i he
        rw [he] at hk
        exact extractPack_invariant (fun e he => Inside.pack he) hk

/-- The demo and the point release, one after the other. -/
theorem Inside.downloadAssetsFromURLs (h : Inside dir before fs) {demoURL pakURL : Text}
    (hurl : ∀ rawURL ∈ [demoURL, pakURL], ∀ urlPath, W.urlPath rawURL = .ok urlPath → IsName (base urlPath)) :
    Inside dir before (downloadAssetsFromURLs T R F W demoURL pakURL dir fs).2 := by
  have hdemo := h.downloadAndExtract (T := T) (R := R) (F := F) (hurl demoURL (by simp))
  unfold Content.downloadAssetsFromURLs
  split
  · rename_i he
    rwa [he] at hdemo
  · rename_i he
    rw [he] at hdemo
    have hpak := hdemo.downloadAndExtract (T := T) (R := R) (F := F) (hurl pakURL (by simp))
    split
    · rename_i he
      rwa [he] at hpak
    · rename_i he
      rwa [he] at hpak

/-- Harmless names are enough. -/
theorem writesInside {files : List File} {urlPath : Text} (hfiles : ∀ f ∈ files, Harmless dir f.name)
    (hurl : IsName (base urlPath)) (hcalls : fs.calls = []) (hcwd : fs.root.stat fs.cwd = .dir) :
    WritesInside T dir files urlPath R F W fs := by
  have h : Inside dir fs fs := ⟨by simp [hcalls], rfl, hcwd⟩
  refine ⟨fun u => ?_, fun rawURL hpath => ?_, fun data force => ?_, fun data force => ?_⟩
  · exact (copyFiles_invariant files (fun f hf data fs' hex h' => h'.copyAsset (hfiles f hf) hex) h).calls
  · refine (h.downloadAndExtract fun urlPath' hpath' => ?_).calls
    rw [hpath] at hpath'
    exact Except.ok.inj hpath' ▸ hurl
  · exact (extractFromZip_invariant (fun e he => Inside.pack (List.mem_append_left _ he)) h).calls
  · exact (extractFromGzip_invariant (fun e he => Inside.pack (T := T) (List.mem_append_right _ he)) h).calls

/-! ### What a harmful name does -/

theorem base_cases (p : Text) : IsName (base p) ∨ base p ∈ [['.'], dotdot, ['/']] := by
  by_cases hname : IsName (base p)
  · exact .inl hname
  · right
    unfold base at hname ⊢
    by_cases hp : p = []
    · rw [if_pos hp]
      simp
    · rw [if_neg hp] at hname ⊢
      by_cases hl : (p.rdropWhile (· = '/')).rtakeWhile (· ≠ '/') = []
      · rw [if_pos hl]
        simp
      · rw [if_neg hl] at hname ⊢
        have hslash : '/' ∉ (p.rdropWhile (· = '/')).rtakeWhile (· ≠ '/') := fun hm => by
          simpa using List.mem_rtakeWhile_imp hm
        by_contra hmem
        simp only [List.mem_cons, List.not_mem_nil, or_false, not_or] at hmem
        exact hname ⟨hl, hmem.1, hmem.2.1, hslash⟩

/-- A base name that is no name of an entry leads out of the directory, or nowhere. -/
theorem not_nameStays_of_base (dir : Text) {s : Text} (h : s ∈ [['.'], dotdot, ['/']]) : ¬ NameStays dir s := by
  rintro ⟨-, ⟨-, hback⟩, hne⟩
  have hn : (here.walk (moves s)).names = [] := by
    simp only [List.mem_cons, List.not_mem_nil, or_false] at h
    rcases h with rfl | rfl | rfl <;> decide
  rw [hn] at hback hne
  exact hne (List.prefix_nil.mp hback).symm

/-- Nothing is in the way on a bare disk. -/
theorem mkdirAll_bare {root : Node} {cwd : List Name}
    (hroot : ∀ q, root.stat q = if q <+: cwd then .dir else .missing)
    (hF : ∀ calls call, F.call calls call = none) (path : Text) :
    (FileSystem.mkdirAll F ⟨root, cwd, []⟩ path).1 = none := by
  refine FileSystem.attempt_eq_none (hF _ _) (Node.mkdirAll_isSome _ fun q _ => ?_)
  rw [hroot]
  split
  · exact .inl rfl
  · exact .inr rfl

theorem mem_calls_saveAsset {f : File} {data : Bytes} {fs : FileSystem} {c : Call}
    (h : c ∈ (saveFile F f.name data dir false fs).2.calls) : c ∈ (saveAsset T R F f data dir fs).2.calls :=
  saveAsset_invariant (I := fun fs => c ∈ fs.calls) h fun _ _ _ _ _ _ hc => mem_calls_saveFile F hc

/-- An entry that is missing is written, when `Stat` fails for every other path. -/
theorem writeFile_mem_copyFiles {path baseURL : Text} {data : Bytes} {fs : FileSystem} {f : File}
    (hpath : path = join [dir, f.name]) (hmissing : fs.notExist F path = true)
    (hother : ∀ p, p ≠ path → fs.notExist F p = false) (hget : ∀ url, W.getBody url = .ok data)
    (hmake : (fs.mkdirAll F (Go.dir path)).1 = none) : ∀ files : List File, f ∈ files →
      Call.writeFile path data ∈ (copyFiles T R F W baseURL dir files fs).2.calls
  | [], h => by simp at h
  | g :: rest, h => by
    by_cases hg : join [dir, g.name] = path
    · have hcall : Call.writeFile path data ∈ (saveAsset T R F g data dir fs).2.calls := by
        have hpath : savePath g.name dir false = path := hg
        exact mem_calls_saveAsset (hpath ▸ writeFile_mem_calls F g.name data dir false (hpath.symm ▸ hmake))
      unfold copyFiles
      rw [hg, if_pos hmissing, hget]
      dsimp only
      split
      · rename_i he
        rwa [he] at hcall
      · rename_i he
        rw [he] at hcall
        refine copyFiles_invariant (I := fun fs => Call.writeFile path data ∈ fs.calls) rest ?_ hcall
        intro g' _ data' fs' _ hfs'
        exact mem_calls_saveAsset (mem_calls_saveFile F hfs')
    · have hf : f ∈ rest := by
        rcases List.mem_cons.mp h with rfl | hf
        · exact absurd hpath.symm hg
        · exact hf
      unfold copyFiles
      rw [hother _ hg, if_neg Bool.false_ne_true]
      exact writeFile_mem_copyFiles hpath hmissing hother hget hmake rest hf

theorem mem_calls_downloadAndExtract {rawURL urlPath : Text} {data : Bytes} {fs : FileSystem} {c : Call}
    (hpath : W.urlPath rawURL = .ok urlPath) (hget : W.getBody rawURL = .ok data)
    (h : c ∈ (saveFile F (base urlPath) data dir false fs).2.calls) :
    c ∈ (downloadAndExtract F W rawURL dir (extractPack T R F) fs).2.calls := by
  unfold downloadAndExtract
  rw [hpath, hget]
  dsimp only
  split
  · rename_i he
    rwa [he] at h
  · rename_i he
    rw [he] at h
    exact extractPack_invariant (I := fun fs => c ∈ fs.calls) (fun _ _ _ _ _ hc => mem_calls_saveFile F hc) h

/-- The names that a process can be in so that a place is not on its way. -/
theorem exists_cwd {L : Loc} (h : L.names ≠ []) : ∃ cwd, ¬ absolute cwd L <+: cwd := by
  obtain ⟨n, ns, hn⟩ := List.exists_cons_of_ne_nil h
  obtain ⟨m, hm⟩ : ∃ m : Name, n ≠ m := by
    by_cases hb : n = baseq3
    · exact ⟨⟨txt "assets", by with_unfolding_all decide⟩, by rw [hb]; with_unfolding_all decide⟩
    · exact ⟨baseq3, hb⟩
  refine ⟨List.replicate L.ups m, fun hp => ?_⟩
  have habs : absolute (List.replicate L.ups m) L = n :: ns := by
    unfold absolute
    split
    · exact hn
    · rw [hn, List.length_replicate, Nat.sub_self, List.take_zero, List.nil_append]
  rw [habs] at hp
  exact hm (List.eq_of_mem_replicate (hp.subset List.mem_cons_self))

/-- Responses with nothing in them. -/
def emptyWeb (urlPath : Text) : Web := ⟨fun _ => .ok urlPath, fun _ => .ok []⟩

/-- Only `path` is looked up without an error. -/
def onlyStat (path : Text) : Faults := ⟨fun _ _ => none, fun _ p => p ≠ path, fun _ => []⟩

theorem harmless_of_writesInside {files : List File} {urlPath : Text}
    (h : ∀ R F W fs, fs.calls = [] → fs.root.stat fs.cwd = .dir → WritesInside T dir files urlPath R F W fs)
    {f : File} (hf : f ∈ files) : Harmless dir f.name := by
  by_contra hharm
  obtain ⟨hstays, hplace⟩ := not_or.mp hharm
  set path := join [dir, f.name] with hpath
  obtain ⟨cwd, hcwd⟩ : ∃ cwd, path = [] ∨ ¬ absolute cwd (locate path) <+: cwd := by
    by_cases hne : path = []
    · exact ⟨[], .inl hne⟩
    · obtain ⟨cwd, hcwd⟩ := exists_cwd fun hn => hplace ⟨hne, hn⟩
      exact ⟨cwd, .inr hcwd⟩
  obtain ⟨root, hroot⟩ := Node.exists_bare cwd
  have hmissing : FileSystem.notExist (onlyStat path) ⟨root, cwd, []⟩ path = true := by
    have hstat : path = [] ∨ root.stat (absolute cwd (locate path)) = .missing :=
      hcwd.imp_right fun hp => by rw [hroot, if_neg hp]
    simp only [FileSystem.notExist, onlyStat, ne_eq, not_true, decide_false, Bool.not_false, Bool.true_and,
      Bool.or_eq_true, decide_eq_true_eq]
    exact hstat
  have hinside := h noArchives (onlyStat path) (emptyWeb urlPath) ⟨root, cwd, []⟩ rfl (by simp [hroot])
  have hcall := hinside.copied [] (.writeFile path []) (writeFile_mem_copyFiles hpath hmissing
    (fun p hp => by simp [FileSystem.notExist, onlyStat, hp]) (fun _ => rfl)
    (mkdirAll_bare hroot (fun _ _ => rfl) _) files hf)
  exact hstays ((nameStays_iff dir f.name).mp hcall)

theorem isName_of_writesInside {files : List File} {urlPath : Text}
    (h : ∀ R F W fs, fs.calls = [] → fs.root.stat fs.cwd = .dir → WritesInside T dir files urlPath R F W fs) :
    IsName (base urlPath) := by
  refine (base_cases urlPath).resolve_right fun hbase => ?_
  obtain ⟨root, hroot⟩ := Node.exists_bare []
  have hinside := h noArchives (onlyStat []) (emptyWeb urlPath) ⟨root, [], []⟩ rfl (by simp [hroot])
  have hcall := hinside.downloaded [] rfl (.writeFile (join [dir, base urlPath]) [])
    (mem_calls_downloadAndExtract rfl rfl
      (writeFile_mem_calls _ _ _ _ _ (mkdirAll_bare hroot (fun _ _ => rfl) _)))
  exact not_nameStays_of_base dir hbase ((nameStays_iff dir _).mp hcall)

/-- **Where downloads stay inside the assets directory.** No archive leads out of
it. A manifest does with a name that is not harmless, and a URL with a path
whose base name is `.`, `..` or `/`. -/
theorem confined_iff (T : LowerTable) (dir : Text) (files : List File) (urlPath : Text) :
    (∀ R F W fs, fs.calls = [] → fs.root.stat fs.cwd = .dir → WritesInside T dir files urlPath R F W fs) ↔
      (∀ f ∈ files, Harmless dir f.name) ∧ IsName (base urlPath) := by
  constructor
  · exact fun h => ⟨fun f hf => harmless_of_writesInside h hf, isName_of_writesInside h⟩
  · rintro ⟨hfiles, hurl⟩ R F W fs hcalls hcwd
    exact writesInside hfiles hurl hcalls hcwd

/-- An entry named `../etc/cron.d/x` is written to `/etc/cron.d`. -/
def straying : File := ⟨txt "../etc/cron.d/x", 0, 0⟩

theorem manifest_escapes : ¬ ∀ fs, fs.calls = [] → fs.root.stat fs.cwd = .dir →
    WritesInside Pak.table (txt "/assets") [straying] (txt "demo.sh") noArchives Pak.noFaults
      (emptyWeb (txt "demo.sh")) fs := by
  intro h
  have hcall := (h Pak.disk rfl rfl).copied [] (.writeFile (txt "/etc/cron.d/x") []) (by
    have hcalls : (copyAssets Pak.table noArchives Pak.noFaults (emptyWeb (txt "demo.sh")) [] (.ok [straying])
        (txt "/assets") Pak.disk).2.calls =
        [.mkdirAll (txt "/etc/cron.d"), .writeFile (txt "/etc/cron.d/x") []] := by with_unfolding_all rfl
    rw [hcalls]
    simp)
  revert hcall
  unfold Call.Confined
  with_unfolding_all decide

end Content
end QuakeKube
