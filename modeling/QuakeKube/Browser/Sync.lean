/-
# The packs in the game client

`SyncPaks` of `public/ioquake3.js` downloads, one after the other, the packs of the
manifest that the client does not have with their checksum, and saves each under its
name below the home directory. A pack's directory is made with `FS.mkdir`, which
makes one directory and not those above it.

When every download brings what its checksum promises, a run without an error leaves
every pack valid if and only if no two packs of different checksums are saved in one
place (`syncPaks_valid_iff`). From an empty home directory the run comes to an end
if and only if no pack lies deeper than one directory below what was made before it
(`syncPaks_returns_iff`): this depends on the order of the manifest.

Key definitions: `Node.mkdir`, `savePak`, `dirtyPaks`, `syncPaks`, `Reached`.
Key theorems: `mkdir_spec`, `syncPaks_valid_iff`, `syncPaks_returns_iff`.
-/
import QuakeKube.Browser.Manifest
import QuakeKube.Content.Serving
import Mathlib.Data.List.Infix

namespace QuakeKube

open Go Loc Store

namespace Content.Node

/-! ### One directory -/

/-- How `FS.mkdir` ends: it makes the directory, or there is something in its place,
or the directory it is to be made in is not there. -/
inductive Made
  | made (root : Node)
  | present
  | failed

def mkdir : List Name → Node → Made
  | [], _ => .present
  | _ :: _, .file _ => .failed
  | n :: ns, .dir es =>
    match ns, es.get n with
    | [], some _ => .present
    | [], none => .made (.dir (es.set n (.dir .nil)))
    | _ :: _, none => .failed
    | _ :: _, some node =>
      match mkdir ns node with
      | .made node => .made (.dir (es.set n node))
      | .present => .present
      | .failed => .failed

/-- What each end means. -/
def MkdirSpec (p : List Name) (root : Node) : Made → Prop
  | .made root' => p ≠ [] ∧ root.stat p = .missing ∧ root.stat p.dropLast = .dir ∧
      ∀ q, root'.stat q = if q = p then .dir else root.stat q
  | .present => root.stat p = .dir ∨ ∃ data, root.stat p = .file data
  | .failed => p ≠ [] ∧ root.stat p.dropLast ≠ .dir

/-- **What `FS.mkdir` does.** -/
theorem mkdir_spec : ∀ (p : List Name) (root : Node), MkdirSpec p root (root.mkdir p)
  | [], .file data => .inr ⟨data, rfl⟩
  | [], .dir _ => .inl rfl
  | [_], .file _ => ⟨by simp, by simp [stat]⟩
  | _ :: _ :: _, .file _ => ⟨by simp, by simp [stat]⟩
  | [n], .dir es => by
    unfold mkdir
    cases hg : es.get n with
    | some node =>
      show _ ∨ _
      rw [stat_cons_of_get hg]
      cases node with
      | dir es' => exact .inl rfl
      | file data => exact .inr ⟨data, rfl⟩
    | none =>
      refine ⟨by simp, stat_cons_of_get_eq_none hg [], rfl, fun q => ?_⟩
      match q with
      | [] => rfl
      | m :: ms =>
        by_cases hm : m = n
        · subst hm
          rw [stat_cons_set_self, stat_cons_of_get_eq_none hg]
          cases ms with
          | nil => exact (if_pos rfl).symm
          | cons k ks => simp [stat, Entries.get]
        · rw [stat_cons_set_of_ne hm, if_neg (by simp [hm])]
  | n :: m :: ms, .dir es => by
    unfold mkdir
    cases hg : es.get n with
    | none => exact ⟨by simp, by simp [stat_cons_of_get_eq_none hg]⟩
    | some node =>
      have ih := mkdir_spec (m :: ms) node
      dsimp only
      split
      · rename_i root' hr
        rw [hr] at ih
        obtain ⟨-, hmissing, hparent, hall⟩ := ih
        refine ⟨by simp, by rwa [stat_cons_of_get hg], ?_, fun q => ?_⟩
        · rw [List.dropLast_cons_of_ne_nil (by simp), stat_cons_of_get hg]
          exact hparent
        · match q with
          | [] => rfl
          | k :: ks =>
            by_cases hk : k = n
            · subst hk
              rw [stat_cons_set_self, stat_cons_of_get hg, hall]
              simp
            · rw [stat_cons_set_of_ne hk, if_neg (by simp [hk])]
      · rename_i hr
        rw [hr] at ih
        show _ ∨ _
        rw [stat_cons_of_get hg]
        exact ih
      · rename_i hr
        rw [hr] at ih
        refine ⟨by simp, ?_⟩
        rw [List.dropLast_cons_of_ne_nil (by simp), stat_cons_of_get hg]
        exact ih.2

/-- A directory that is made holds nothing. -/
theorem contents_mkdir {p : List Name} {root root' : Node} (h : root.mkdir p = .made root') :
    root'.contents = root.contents := by
  have hspec := mkdir_spec p root
  rw [h] at hspec
  obtain ⟨-, hmissing, -, hall⟩ := hspec
  funext q
  rw [contents, contents, hall]
  split_ifs with hq
  · rw [hq, hmissing]
  · rfl

end Content.Node

namespace Browser

open Content

/-! ### One pack -/

/-- Where a pack is saved, below the directories of `fs_homepath`. -/
def place (home : List Name) (name : Text) : List Name := ((root.enter home).walk (moves name)).names

theorem place_relative (home : List Name) {ns : List Name} (h : ns ≠ []) :
    place home (relative ns) = home ++ ns := by
  rw [place, moves_relative h, walk_into]
  rfl

/-- How `SavePak` ends: it calls back, without an error or with one, or it throws. -/
inductive Saved
  | saved (tree : Node)
  | failed (tree : Node)
  | thrown (tree : Node)

/-- `SavePak`, up to `FS.syncfs`. -/
def savePak (home : List Name) (name : Text) (data : Bytes) (tree : Node) : Saved :=
  let localPath := place home name
  let write (tree : Node) : Saved :=
    match tree.writeFile data localPath with
    | none => .thrown tree
    | some tree => .saved tree
  match tree.mkdir localPath.dropLast with
  | .made tree => write tree
  | .present => write tree
  | .failed => .failed tree

/-- `CRC32File`, `none` where it returns null. -/
def crc32File (tree : Node) (path : List Name) : Option ℤ :=
  (tree.contents path).map fun data => ((checksumIEEE data).toNat : ℤ)

/-- `ValidatePak`. -/
def validatePak (home : List Name) (tree : Node) (asset : Asset) : Bool :=
  match crc32File tree (place home asset.name) with
  | none => false
  | some crc => asset.checksum = some crc

/-- `ValidateInstaller`. -/
def validateInstaller (home : List Name) (tree : Node) (installer : Installer) : Bool :=
  installer.paks.all fun pak => crc32File tree (place home pak.dest) = some pak.checksum

/-- `name.indexOf('.pk3') !== -1`. -/
def isPak (asset : Asset) : Bool := decide (txt ".pk3" <:+: asset.name)

/-- `DirtyPaks`. -/
def dirtyPaks (home : List Name) (tree : Node) (manifest : List Asset) : List Asset :=
  manifest.filter fun asset => isPak asset && !validatePak home tree asset

section Save

variable {home : List Name} {name : Text} {data : Bytes} {tree tree' : Node} {asset : Asset}

/-- A pack that is saved is written in its place, and nothing else is. -/
theorem contents_savePak (h : savePak home name data tree = .saved tree') :
    tree'.contents = put tree.contents (place home name, data) := by
  have hwrite : ∀ t : Node, (match t.writeFile data (place home name) with
      | none => Saved.thrown t
      | some t => .saved t) = .saved tree' → tree'.contents = put t.contents (place home name, data) := by
    intro t ht
    split at ht
    · cases ht
    · cases ht
      exact Node.contents_writeFile ‹_›
  unfold savePak at h
  dsimp only at h
  split at h
  · rename_i t hm
    rw [hwrite t h, Node.contents_mkdir hm]
  · exact hwrite tree h
  · cases h

theorem validatePak_iff : validatePak home tree asset = true ↔
    ∃ data, tree.contents (place home asset.name) = some data ∧
      asset.checksum = some ((checksumIEEE data).toNat : ℤ) := by
  unfold validatePak crc32File
  cases tree.contents (place home asset.name) <;> simp

end Save

/-! ### One after the other -/

/-- `name.replace(/(.+\/|)(.+?)$/, '$1' + checksum + '-$2')`, with the text of the checksum. -/
def replaceWith (checksum : Text) : Text → Text
  | [] => []
  | c :: s =>
    match groups (c :: s) (c :: s).length with
    | some (d, b) => d ++ checksum ++ '-' :: b
    | none => c :: replaceWith checksum s

theorem replaceWith_natText (n : ℕ) (s : Text) : replaceWith (natText n) s = replaceName n s := by
  induction s with
  | nil => rfl
  | cons c s ih =>
    unfold replaceWith replaceName
    cases groups (c :: s) (c :: s).length with
    | none => exact congrArg (c :: ·) ih
    | some db => rfl

/-- The path of the URL that is requested for an asset. -/
def downloadPath (asset : Asset) : Text :=
  txt "/assets/" ++ replaceWith (numberText asset.checksum) asset.name

theorem downloadPath_fileAsset (f : File) : downloadPath (fileAsset f) = downloadAsset f :=
  congrArg _ (replaceWith_natText _ _)

/-- A game client, with what it is answered. -/
structure Client where
  /-- The directories of `fs_homepath`. -/
  home : List Name
  /-- The answer to the `i`-th download, for a path. -/
  get : ℕ → Text → Except Text Bytes
  /-- The error of `FS.syncfs` after the `i`-th download, if there is one. -/
  syncfs : ℕ → Option Text

/-- How a run ends. After a handler has thrown, nothing calls back, and the game
does not start. -/
inductive Synced
  | returned (err : Option Text) (tree : Node)
  | thrown (tree : Node)

/-- The entry of a pack, as the client reads it. -/
def packAsset (f : List Name × Bytes) : Asset := fileAsset (entry f)

namespace Client

variable (C : Client)

/-- `DownloadAssets` from the `i`-th asset on, as `SyncPaks` calls it. -/
def downloadFrom (i : ℕ) : List Asset → Node → Synced
  | [], tree => .returned none tree
  | asset :: rest, tree =>
    match C.get i (downloadPath asset) with
    | .error err => .returned (some err) tree
    | .ok data =>
      match savePak C.home asset.name data tree with
      | .failed tree => .returned (some (txt "FS error")) tree
      | .thrown tree => .thrown tree
      | .saved tree =>
        match C.syncfs i with
        | some err => .returned (some err) tree
        | none => downloadFrom (i + 1) rest tree

/-- `SyncPaks`. -/
def syncPaks (manifest : List Asset) (tree : Node) : Synced :=
  C.downloadFrom 0 (dirtyPaks C.home tree manifest) tree

/-- What is downloaded has the checksum of its asset. -/
def Honest (assets : List Asset) : Prop := ∀ i, ∀ asset ∈ assets, ∀ data,
  C.get i (downloadPath asset) = .ok data → asset.checksum = some ((checksumIEEE data).toNat : ℤ)

variable {C}

/-- A run goes on after a download that was answered and saved. -/
theorem downloadFrom_cons {i : ℕ} {asset : Asset} {rest : List Asset} {tree tree' : Node}
    (h : C.downloadFrom i (asset :: rest) tree = .returned none tree') :
    ∃ data t, C.get i (downloadPath asset) = .ok data ∧ savePak C.home asset.name data tree = .saved t ∧
      C.downloadFrom (i + 1) rest t = .returned none tree' := by
  rw [downloadFrom] at h
  split at h
  · cases h
  · rename_i data hget
    split at h
    · cases h
    · cases h
    · rename_i t hsave
      split at h
      · cases h
      · exact ⟨data, t, hget, hsave, h⟩

section Valid

/-- Packs that are saved in one place have one checksum. -/
def Agree (home : List Name) (assets : List Asset) : Prop := ∀ a ∈ assets, ∀ b ∈ assets,
  isPak a = true → isPak b = true → place home a.name = place home b.name → a.checksum = b.checksum

/-- What a download that was saved leaves valid. -/
theorem validatePak_savePak {a b : Asset} {data : Bytes} {tree tree' : Node}
    (h : savePak C.home a.name data tree = .saved tree')
    (ha : a.checksum = some ((checksumIEEE data).toNat : ℤ))
    (hagree : place C.home b.name = place C.home a.name → b.checksum = a.checksum)
    (hb : place C.home b.name = place C.home a.name ∨ validatePak C.home tree b = true) :
    validatePak C.home tree' b = true := by
  rw [validatePak_iff, contents_savePak h]
  by_cases hp : place C.home b.name = place C.home a.name
  · refine ⟨data, ?_, (hagree hp).trans ha⟩
    rw [hp]
    exact Store.put_self _ _
  · obtain ⟨d, hd, hc⟩ := validatePak_iff.mp (hb.resolve_left hp)
    exact ⟨d, (Store.put_of_ne hp).trans hd, hc⟩

/-- A run leaves valid what it downloads, and what was valid. -/
theorem downloadFrom_valid {assets : List Asset} (hC : C.Honest assets) (hagree : Agree C.home assets)
    {b : Asset}
    (hb : b ∈ assets) (hpak : isPak b = true) : ∀ (l : List Asset) (i : ℕ) (tree tree' : Node),
      (∀ a ∈ l, a ∈ assets ∧ isPak a = true) → C.downloadFrom i l tree = .returned none tree' →
      b ∈ l ∨ validatePak C.home tree b = true → validatePak C.home tree' b = true
  | [], _, tree, tree', _, h, hv => by
    cases h
    exact hv.resolve_left List.not_mem_nil
  | a :: l, i, tree, tree', hl, h, hv => by
    obtain ⟨⟨ha, hapak⟩, hl⟩ := List.forall_mem_cons.mp hl
    obtain ⟨data, t, hget, hsave, hrest⟩ := downloadFrom_cons h
    have hsame : place C.home b.name = place C.home a.name → b.checksum = a.checksum :=
      hagree b hb a ha hpak hapak
    refine downloadFrom_valid hC hagree hb hpak l (i + 1) t tree' hl hrest ?_
    rcases hv with hv | hv
    · rcases List.mem_cons.mp hv with rfl | hv
      · exact .inr (validatePak_savePak hsave (hC i b hb data hget) hsame (.inl rfl))
      · exact .inl hv
    · exact .inr (validatePak_savePak hsave (hC i a ha data hget) hsame (.inr hv))

/-- **A run without an error leaves every pack valid** if and only if no two packs
of different checksums are saved in one place. -/
theorem syncPaks_valid_iff {manifest : List Asset} (hC : C.Honest manifest) {tree tree' : Node}
    (h : C.syncPaks manifest tree = .returned none tree') :
    (∀ a ∈ manifest, isPak a = true → validatePak C.home tree' a = true) ↔ Agree C.home manifest := by
  constructor
  · intro hv a ha b hb hap hbp hplace
    obtain ⟨d, hd, hc⟩ := validatePak_iff.mp (hv a ha hap)
    obtain ⟨d', hd', hc'⟩ := validatePak_iff.mp (hv b hb hbp)
    rw [hplace] at hd
    have hdd : d = d' := Option.some.inj (hd.symm.trans hd')
    rw [hc, hc', hdd]
  · intro hagree b hb hpak
    refine downloadFrom_valid hC hagree hb hpak _ 0 tree tree' (fun a ha => ?_) h ?_
    · obtain ⟨ha, hdirty⟩ := List.mem_filter.mp ha
      exact ⟨ha, (Bool.and_eq_true_iff.mp hdirty).1⟩
    · cases hv : validatePak C.home tree b with
      | true => exact .inr rfl
      | false => exact .inl (List.mem_filter.mpr ⟨hb, by simp [hpak, hv]⟩)

namespace OnePak

def base : Name := ⟨txt "base", by with_unfolding_all decide⟩

/-- A client that is always sent one byte. -/
def client : Client := ⟨[base], fun _ _ => .ok [1], fun _ => none⟩

def tree : Node := .dir (.cons base (.dir .nil) .nil)

/-- Two packs with that byte. -/
def manifest : List Asset := [packAsset ([⟨txt "a.pk3", by with_unfolding_all decide⟩], [1]),
  packAsset ([⟨txt "b.pk3", by with_unfolding_all decide⟩], [1])]

theorem honest : client.Honest manifest := by
  intro i asset ha data hd
  cases hd
  rcases List.mem_cons.mp ha with rfl | ha
  · rfl
  · rw [List.mem_singleton.mp ha]
    rfl

end OnePak

open OnePak in
theorem syncPaks_valid_iff_onePak : ∃ tree', client.syncPaks manifest tree = .returned none tree' ∧
    ((∀ a ∈ manifest, isPak a = true → validatePak client.home tree' a = true) ↔
      Agree client.home manifest) := by
  have hrun : ∃ tree', client.syncPaks manifest tree = .returned none tree' := ⟨_, by with_unfolding_all rfl⟩
  obtain ⟨tree', h⟩ := hrun
  exact ⟨tree', h, syncPaks_valid_iff honest h⟩

end Valid

/-! ### An empty home directory -/

/-- The directory a pack is saved in is made in one that is there: the home directory,
or one that a pack before it is saved in. -/
def Reached (made : Set (List Name)) : List (List Name) → Prop
  | [] => True
  | ns :: rest => ns.dropLast.dropLast ∈ made ∧ Reached (insert ns.dropLast made) rest

/-- Below the home directory there are some directories and files, and nothing else. -/
structure Holds (home : List Name) (made files : Set (List Name)) (tree : Node) : Prop where
  dir : ∀ q, tree.stat (home ++ q) = .dir ↔ q ∈ made
  file : ∀ q data, tree.stat (home ++ q) = .file data → q ∈ files

/-- Directories with those above them, up to the home directory, all of them on the
way to a file. -/
structure Forest (made files : Set (List Name)) : Prop where
  home : [] ∈ made
  parent : ∀ d ∈ made, d.dropLast ∈ made
  above : ∀ d ∈ made, d ≠ [] → ∃ f ∈ files, d <+: f ∧ d ≠ f

section Fresh

variable {home : List Name} {made files : Set (List Name)} {tree : Node} {ns : List Name}

theorem dropLast_ne_self (h : ns ≠ []) : ns.dropLast ≠ ns := fun he => by
  have hlen := congrArg List.length he
  have hpos := List.length_pos_iff.mpr h
  rw [List.length_dropLast] at hlen
  omega

theorem Forest.insert (hf : Forest made files) (h : ns.dropLast.dropLast ∈ made) (hne : ns ≠ []) :
    Forest (insert ns.dropLast made) (insert ns files) where
  home := .inr hf.home
  parent d hd := by
    rcases hd with rfl | hd
    · exact .inr h
    · exact .inr (hf.parent d hd)
  above d hd hd' := by
    rcases hd with rfl | hd
    · exact ⟨ns, .inl rfl, List.dropLast_prefix ns, dropLast_ne_self hne⟩
    · obtain ⟨f, hfm, hpre⟩ := hf.above d hd hd'
      exact ⟨f, .inr hfm, hpre⟩

/-- A file is written in a directory that is there, where none is. -/
theorem Holds.write (data : Bytes) (hh : Holds home made files tree) (hne : ns ≠ [])
    (hparent : ns.dropLast ∈ made) (hns : ns ∉ made) :
    ∃ tree', tree.writeFile data (home ++ ns) = some tree' ∧ Holds home made (insert ns files) tree' := by
  have hsplit : home ++ ns.dropLast ++ [ns.getLast hne] = home ++ ns := by
    rw [List.append_assoc, List.dropLast_append_getLast]
  have hsome := Node.writeFile_isSome data (ns.getLast hne) (home ++ ns.dropLast) ((hh.dir _).mpr hparent)
    (by rw [hsplit]; exact fun hd => hns ((hh.dir ns).mp hd))
  rw [hsplit] at hsome
  obtain ⟨tree', hw⟩ := Option.isSome_iff_exists.mp hsome
  have hself := Node.stat_writeFile_self _ hw
  refine ⟨tree', hw, fun q => ?_, fun q d hq => ?_⟩
  · by_cases hp : ns <+: q
    · -- neither before nor now a directory is there
      obtain ⟨r, rfl⟩ := hp
      have hnow : tree'.stat (home ++ (ns ++ r)) ≠ .dir := by
        intro hd
        rw [← List.append_assoc] at hd
        rw [Node.stat_dir_of_append _ hd] at hself
        cases hself
      have hbefore : ns ++ r ∉ made := by
        intro hm
        have hd := (hh.dir _).mpr hm
        rw [← List.append_assoc] at hd
        exact hns ((hh.dir _).mp (Node.stat_dir_of_append _ hd))
      exact ⟨fun hd => absurd hd hnow, fun hm => absurd hm hbefore⟩
    · rw [Node.stat_writeFile_of_ne _ hw _ (by rwa [List.prefix_append_right_inj])]
      exact hh.dir q
  · by_cases hp : ns <+: q
    · by_cases he : q = ns
      · exact .inl he
      · have hnone := Node.contents_below (q := home ++ q) (by rw [hself]; simp)
          ((List.prefix_append_right_inj home).mpr hp) (by simpa using he)
        rw [Node.contents_eq_some.mpr hq] at hnone
        cases hnone
    · rw [Node.stat_writeFile_of_ne _ hw _ (by rwa [List.prefix_append_right_inj])] at hq
      exact .inr (hh.file q d hq)

/-- **One pack of an empty home directory**: it is saved if the directory above its
own is there, and otherwise the run is at its end. -/
theorem savePak_step (data : Bytes) (hh : Holds home made files tree) (hf : Forest made files) (hne : ns ≠ [])
    (hbelow : ∀ f ∈ files, ¬ f <+: ns) (habove : ∀ f ∈ files, ¬ ns <+: f) :
    (ns.dropLast.dropLast ∈ made ∧ ∃ tree', savePak home (relative ns) data tree = .saved tree' ∧
      Holds home (insert ns.dropLast made) (insert ns files) tree') ∨
    (ns.dropLast.dropLast ∉ made ∧ savePak home (relative ns) data tree = .failed tree) := by
  have hplace := place_relative home hne
  have hdir : (home ++ ns).dropLast = home ++ ns.dropLast := List.dropLast_append_of_ne_nil hne
  have hns : ns ∉ made := by
    intro hm
    obtain ⟨f, hfm, hpre, -⟩ := hf.above ns hm hne
    exact habove f hfm hpre
  have hns' : ns ∉ insert ns.dropLast made := by
    rintro (h | h)
    · exact dropLast_ne_self hne h.symm
    · exact hns h
  have hspec := Node.mkdir_spec (home ++ ns.dropLast) tree
  unfold savePak
  rw [hplace]
  dsimp only
  rw [hdir]
  cases hm : tree.mkdir (home ++ ns.dropLast) with
  | made t =>
    rw [hm] at hspec
    obtain ⟨-, hmissing, hparent, hall⟩ := hspec
    have hsub : ns.dropLast ≠ [] := by
      intro he
      rw [he, (hh.dir []).mpr hf.home] at hmissing
      cases hmissing
    rw [List.dropLast_append_of_ne_nil hsub] at hparent
    have ht : Holds home (insert ns.dropLast made) files t := by
      refine ⟨fun q => ?_, fun q d hq => ?_⟩
      · rw [hall]
        by_cases hq : q = ns.dropLast
        · simp [hq]
        · rw [if_neg (by simpa using hq), hh.dir q]
          simp [hq]
      · rw [hall] at hq
        split_ifs at hq
        exact hh.file q d hq
    obtain ⟨tree', hw, hholds⟩ := ht.write data hne (.inl rfl) hns'
    refine .inl ⟨(hh.dir _).mp hparent, tree', ?_, hholds⟩
    dsimp only
    rw [hw]
  | present =>
    rw [hm] at hspec
    -- what is there is no file, since the pack would lie below it
    have hthere : ns.dropLast ∈ made := by
      rcases hspec with hd | ⟨d, hd⟩
      · exact (hh.dir _).mp hd
      · exact absurd (List.dropLast_prefix ns) (hbelow _ (hh.file _ d hd))
    have hsame : insert ns.dropLast made = made := Set.insert_eq_of_mem hthere
    obtain ⟨tree', hw, hholds⟩ := hh.write data hne hthere hns
    refine .inl ⟨hf.parent _ hthere, tree', ?_, ?_⟩
    · dsimp only
      rw [hw]
    · rwa [hsame]
  | failed =>
    rw [hm] at hspec
    obtain ⟨hne', hparent⟩ := hspec
    refine .inr ⟨fun hmade => hparent ?_, rfl⟩
    by_cases hsub : ns.dropLast = []
    · have hhome := (hh.dir []).mpr hf.home
      rw [hsub, List.append_nil] at hne' ⊢
      rw [List.append_nil] at hhome
      rw [← List.dropLast_append_getLast hne'] at hhome
      exact Node.stat_dir_of_append _ hhome
    · rw [List.dropLast_append_of_ne_nil hsub]
      exact (hh.dir _).mpr hmade

/-- Neither of two files lies below the other. -/
def Apart (f g : List Name) : Prop := ¬ f <+: g ∧ ¬ g <+: f

variable {C : Client}

/-- Every download of some packs is answered with their bytes, and nothing else fails. -/
structure Serves (C : Client) (packs : List (List Name × Bytes)) : Prop where
  get : ∀ f ∈ packs, ∀ i, C.get i (downloadPath (packAsset f)) = .ok f.2
  syncfs : ∀ i, C.syncfs i = none

/-- A run over the packs of an empty home directory. -/
theorem downloadFrom_fresh : ∀ {packs : List (List Name × Bytes)} {made files : Set (List Name)}
    {tree : Node},
    C.Serves packs → Holds C.home made files tree → Forest made files → (∀ f ∈ packs, f.1 ≠ []) →
    (packs.map Prod.fst).Pairwise Apart → (∀ f ∈ packs, ∀ g ∈ files, Apart f.1 g) → ∀ i : ℕ,
    (Reached made (packs.map Prod.fst) ∧
      ∃ tree', C.downloadFrom i (packs.map packAsset) tree = .returned none tree' ∧
      tree'.contents = puts tree.contents (packs.map fun f => (C.home ++ f.1, f.2))) ∨
    (¬ Reached made (packs.map Prod.fst) ∧ ∃ err tree',
      C.downloadFrom i (packs.map packAsset) tree = .returned (some err) tree')
  | [], _, _, tree, _, _, _, _, _, _, i => .inl ⟨trivial, tree, rfl, rfl⟩
  | f :: packs, made, files, tree, hs, hh, hf, hne, hpw, happ, i => by
    obtain ⟨hget, hgets⟩ := List.forall_mem_cons.mp hs.get
    obtain ⟨hne₀, hne⟩ := List.forall_mem_cons.mp hne
    obtain ⟨happ₀, happ⟩ := List.forall_mem_cons.mp happ
    rw [List.map_cons, List.pairwise_cons] at hpw
    have hname : (packAsset f).name = relative f.1 := rfl
    rcases savePak_step f.2 hh hf hne₀ (fun g hg => (happ₀ g hg).2) (fun g hg => (happ₀ g hg).1) with
      ⟨hmade, t, hsave, ht⟩ | ⟨hmade, hsave⟩
    · have hstep : C.downloadFrom i ((f :: packs).map packAsset) tree =
          C.downloadFrom (i + 1) (packs.map packAsset) t := by
        rw [List.map_cons, downloadFrom, hget i]
        dsimp only
        rw [hname, hsave]
        dsimp only
        rw [hs.syncfs]
      have hnext := downloadFrom_fresh ⟨hgets, hs.syncfs⟩ ht (hf.insert hmade hne₀) hne hpw.2
        (fun g hg k hk => by
        rcases hk with rfl | hk
        · have hboth := hpw.1 g.1 (List.mem_map_of_mem hg)
          exact ⟨hboth.2, hboth.1⟩
        · exact happ g hg k hk) (i + 1)
      have hcontents : t.contents = put tree.contents (C.home ++ f.1, f.2) := by
        rw [contents_savePak hsave, place_relative _ hne₀]
      rw [hstep]
      rcases hnext with ⟨hr, tree', he, hc⟩ | ⟨hr, hend⟩
      · refine .inl ⟨⟨hmade, hr⟩, tree', he, ?_⟩
        rw [hc, hcontents]
        rfl
      · exact .inr ⟨fun h => hr h.2, hend⟩
    · refine .inr ⟨fun h => hmade h.1, txt "FS error", tree, ?_⟩
      rw [List.map_cons, downloadFrom, hget i]
      dsimp only
      rw [hname, hsave]

/-- A home directory with nothing in it. -/
structure Fresh (home : List Name) (tree : Node) : Prop where
  directory : tree.stat home = .dir
  missing : ∀ n q, tree.stat (home ++ n :: q) = .missing

theorem fresh_onePak : Fresh [OnePak.base] OnePak.tree where
  directory := by with_unfolding_all decide
  missing n q := by
    have hget : (Entries.cons OnePak.base (.dir .nil) .nil).get OnePak.base = some (.dir .nil) := if_pos rfl
    have hbelow : OnePak.tree.stat ([OnePak.base] ++ n :: q) = (Node.dir .nil).stat (n :: q) :=
      Node.stat_cons_of_get hget (n :: q)
    have hnone : Entries.nil.get n = none := rfl
    rw [hbelow, Node.stat_cons_of_get_eq_none hnone]

theorem Fresh.holds (h : Fresh home tree) : Holds home {[]} ∅ tree := by
  refine ⟨fun q => ?_, fun q d hq => ?_⟩
  · cases q with
    | nil => simp [h.directory]
    | cons n q => simp [h.missing]
  · cases q with
    | nil =>
      rw [List.append_nil, h.directory] at hq
      cases hq
    | cons n q =>
      rw [h.missing] at hq
      cases hq

theorem forest_home : Forest {[]} ∅ where
  home := rfl
  parent d hd := by
    rw [Set.mem_singleton_iff.mp hd]
    rfl
  above d hd hne := absurd (Set.mem_singleton_iff.mp hd) hne

/-- The packs of a manifest. -/
def packsOf (files : List (List Name × Bytes)) : List (List Name × Bytes) :=
  files.filter fun f => isPak (packAsset f)

theorem dirtyPaks_fresh (h : Fresh home tree) {files : List (List Name × Bytes)}
    (hne : ∀ f ∈ files, f.1 ≠ []) :
    dirtyPaks home tree (files.map packAsset) = (packsOf files).map packAsset := by
  have hinvalid : ∀ f ∈ files, validatePak home tree (packAsset f) = false := by
    intro f hf
    have hplace : place home (packAsset f).name = home ++ f.1 := place_relative home (hne f hf)
    have hnone : tree.contents (home ++ f.1) = none := by
      obtain ⟨n, q, hq⟩ := List.exists_cons_of_ne_nil (hne f hf)
      rw [hq, Node.contents, h.missing]
    rw [validatePak, crc32File, hplace, hnone]
    rfl
  rw [dirtyPaks, packsOf, List.filter_map]
  refine congrArg _ (List.filter_congr fun f hf => ?_)
  simp [hinvalid f hf]

/-- **When a client without packs gets them all.** The run comes to its end if and
only if each pack's directory is made in one that is there; then every pack is there
with its bytes, and nothing else is. -/
theorem syncPaks_returns_iff {files : List (List Name × Bytes)} (h : Fresh C.home tree)
    (hs : C.Serves (packsOf files))
    (hne : ∀ f ∈ files, f.1 ≠ []) (hpw : ((packsOf files).map Prod.fst).Pairwise Apart) :
    ((∃ tree', C.syncPaks (files.map packAsset) tree = .returned none tree') ↔
      Reached {[]} ((packsOf files).map Prod.fst)) ∧
    ∀ tree', C.syncPaks (files.map packAsset) tree = .returned none tree' →
      tree'.contents = puts tree.contents ((packsOf files).map fun f => (C.home ++ f.1, f.2)) := by
  have hpacks : ∀ f ∈ packsOf files, f.1 ≠ [] := fun f hf => hne f (List.mem_filter.mp hf).1
  have hrun := downloadFrom_fresh hs h.holds forest_home hpacks hpw
    (fun _ _ _ hg => absurd hg (Set.notMem_empty _)) 0
  rw [syncPaks, dirtyPaks_fresh h hne]
  rcases hrun with ⟨hr, tree', he, hc⟩ | ⟨hr, err, tree', he⟩
  · refine ⟨⟨fun _ => hr, fun _ => ⟨tree', he⟩⟩, fun t ht => ?_⟩
    rw [he] at ht
    cases ht
    exact hc
  · refine ⟨⟨fun ⟨t, ht⟩ => ?_, fun h => absurd h hr⟩, fun t ht => ?_⟩
    · rw [he] at ht
      cases ht
    · rw [he] at ht
      cases ht

end Fresh

end Client

end Browser
end QuakeKube
