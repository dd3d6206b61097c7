/-
# One content server seeded from another

`CopyAssets` against a content server of the same program: the manifest goes over
the wire as JSON, and each file is asked for by the URL that the entry makes. An
empty directory that is seeded so ends up with every served file, byte for byte, if
all of them lie in the server's assets directory itself; one that lies further down
cannot be fetched, and ends the seeding with an error (`seed_iff`).

Key definitions: `getBody`, `copyEntries`, `seedFrom`, `serverWeb`, `Seeds`.
Key theorems: `copyFiles_flat`, `serverWeb_nested`, `seedFrom_cases`, `seed_iff`.
-/
import QuakeKube.Content.Serving

namespace QuakeKube
namespace Content

open Go Loc Store

/-! ### Over the wire -/

/-- A character that no URL has. -/
def isControl (c : Char) : Bool := c.toNat < 0x20 || c.toNat = 0x7f

/-- The text has no such character. -/
def NoControl (s : Text) : Prop := ∀ c ∈ s, isControl c = false

instance : DecidablePred NoControl := fun s => by unfold NoControl; infer_instance

/-- What of a URL comes before its fragment. -/
def beforeFragment (url : Text) : Text := url.takeWhile (· ≠ '#')

theorem NoControl.beforeFragment {url : Text} (h : NoControl url) : NoControl (beforeFragment url) :=
  fun c hc => h c ((List.takeWhile_subset _) hc)

/-- `http.GetBody` of a URL of the server: the body of an answer that is no error, if the
request can be made. -/
def getBody (P : PrintTable) (index : Text → Except Text Bytes) (url : Text) (response : Response) :
    Except Text Bytes :=
  if NoControl (beforeFragment url) then
    match response with
    | .file data => .ok data
    | .json body => .ok body
    | .page html => .ok (Bytes.encode html)
    | .directory => index url
    | .notFound => .error (txt "cannot get url " ++ quote P url ++ txt ": Not Found")
    | .failed _ => .error (txt "cannot get url " ++ quote P url ++ txt ": Internal Server Error")
  else
    .error (txt "cannot create request for " ++ quote P url ++ txt ": parse " ++
      quote P (beforeFragment url) ++ txt ": net/url: invalid control character in URL")

/-- How a program goes on: it returns, or it panics. -/
inductive Copied
  | returned (err : Option Text) (fs : FileSystem)
  | panicked (fs : FileSystem)

section Code

variable (T : LowerTable) (R : Readers) (F : Faults) (W : Web) (jsonError : Bytes → Text)

/-- The loop of `CopyAssets` over pointers to files. -/
def copyEntries (baseURL dir : Text) : List (Option File) → FileSystem → Copied
  | [], fs => .returned none fs
  | none :: _, fs => .panicked fs
  | some f :: rest, fs =>
    match copyFiles T R F W baseURL dir [f] fs with
    | (some err, fs) => .returned (some err) fs
    | (none, fs) => copyEntries baseURL dir rest fs

/-- `CopyAssets`, with the manifest it downloads. -/
def seedFrom (u dir : Text) (fs : FileSystem) : Copied :=
  match getManifest W jsonError (trimSlash u) with
  | .error err => .returned (some (txt "failed to get manifest: " ++ err)) fs
  | .ok files => copyEntries T R F W (trimSlash u) dir files fs

variable {T R F W jsonError}

theorem copyFiles_cons {baseURL dir : Text} (f : File) (rest : List File) (fs : FileSystem) :
    copyFiles T R F W baseURL dir (f :: rest) fs =
      match copyFiles T R F W baseURL dir [f] fs with
      | (some err, fs) => (some err, fs)
      | (none, fs) => copyFiles T R F W baseURL dir rest fs := by
  rw [copyFiles, copyFiles]
  split_ifs
  · cases W.getBody (baseURL ++ assetURL f) with
    | error err => rfl
    | ok data =>
      dsimp only
      split
      · rfl
      · rfl
  · rfl

/-- Without null entries it is the loop over the files. -/
theorem copyEntries_some {baseURL dir : Text} (files : List File) (fs : FileSystem) :
    copyEntries T R F W baseURL dir (files.map some) fs =
      .returned (copyFiles T R F W baseURL dir files fs).1 (copyFiles T R F W baseURL dir files fs).2 := by
  induction files generalizing fs with
  | nil => rfl
  | cons f files ih =>
    have hcons : copyFiles T R F W baseURL dir (f :: files) fs =
        match copyFiles T R F W baseURL dir [f] fs with
        | (some err, fs) => (some err, fs)
        | (none, fs) => copyFiles T R F W baseURL dir files fs := copyFiles_cons f files fs
    rw [List.map_cons, copyEntries]
    split
    · rename_i he
      rw [he] at hcons
      rw [hcons]
    · rename_i he
      rw [he] at hcons
      rw [hcons]
      exact ih _

end Code

/-! ### A file in the directory itself -/

/-- No file operation fails otherwise than by the tree. -/
structure Faultless (F : Faults) : Prop where
  call : ∀ calls c, F.call calls c = none
  stat : ∀ calls path, F.stat calls path = false

/-- An assets directory with nothing in the place of some names. -/
structure Free (dir : Text) (names : Set Name) (fs : FileSystem) : Prop where
  directory : fs.root.stat (fs.place dir) = .dir
  missing : ∀ n ∈ names, ∀ q, fs.root.stat (fs.place dir ++ n :: q) = .missing

section Saves

variable {T : LowerTable} {R : Readers} {F : Faults} {W : Web} {dir baseURL : Text} {fs : FileSystem}

theorem place_join (hd : dir ≠ []) (ns : List Name) (hns : ns ≠ []) :
    fs.place (join [dir, relative ns]) = fs.place dir ++ ns := by
  rw [join_relative hd hns, place_filePath]

/-- What saving a file in a directory that is there does: it writes the file. -/
theorem saveFile_flat (hF : Faultless F) (hd : dir ≠ []) {n : Name} {names : Set Name} (h : Free dir names fs)
    (hn : n ∈ names) (data : Bytes) :
    (saveFile F n.val data dir false fs).1 = none ∧
      (saveFile F n.val data dir false fs).2.cwd = fs.cwd ∧
      (saveFile F n.val data dir false fs).2.contents = put fs.contents (fs.place dir ++ [n], data) ∧
      Free dir (names \ {n}) (saveFile F n.val data dir false fs).2 := by
  have hpath : savePath n.val dir false = ((locate dir).enter [n]).render := join_name hd n
  have hplace : fs.place (savePath n.val dir false) = fs.place dir ++ [n] := by
    rw [FileSystem.place, hpath, locate_render, absolute_enter]
    rfl
  have hparent : fs.place (Go.dir (savePath n.val dir false)) = fs.place dir := by
    rw [FileSystem.place, hpath, dir_render_enter, locate_render]
    rfl
  set path := savePath n.val dir false with hp
  -- the directory is there
  have hmade : (fs.mkdirAll F (Go.dir path)).1 = none := by
    refine FileSystem.attempt_eq_none (hF.call _ _) (Node.mkdirAll_isSome _ fun q hq => .inl ?_)
    obtain ⟨r, hr⟩ := hq
    rw [hparent] at hr
    exact Node.stat_dir_of_append q (hr.symm ▸ h.directory)
  set made := (fs.mkdirAll F (Go.dir path)).2 with hmadeEq
  have hcwd : made.cwd = fs.cwd := FileSystem.mkdirAll_cwd
  have hsame : ∀ q, made.root.stat q = fs.root.stat q := by
    intro q
    refine (FileSystem.stat_after_mkdirAll F fs (Go.dir path) q).resolve_right fun hq => ?_
    obtain ⟨r, hr⟩ := hq.1
    rw [hparent] at hr
    have hdir := Node.stat_dir_of_append q (hr.symm ▸ h.directory : fs.root.stat (q ++ r) = .dir)
    rw [hq.2.1] at hdir
    cases hdir
  have hcontents : made.contents = fs.contents := by
    funext q
    rw [FileSystem.contents, FileSystem.contents, Node.contents, Node.contents, hsame]
  have hpl : made.place path = fs.place dir ++ [n] := by rw [place_congr hcwd, hplace]
  have hwrite : (made.writeFile F path data).1 = none := by
    refine FileSystem.attempt_eq_none (hF.call _ _) ?_
    rw [if_neg (by rw [hpath]; exact render_ne_nil _), hpl]
    refine Node.writeFile_isSome data n _ (by rw [hsame]; exact h.directory) ?_
    rw [hsame, h.missing n hn []]
    exact Stat.noConfusion
  have hsave : saveFile F n.val data dir false fs = made.writeFile F path data := by
    rcases saveFile_cases F n.val data dir false fs with ⟨-, he⟩ | ⟨hne, -⟩
    · exact he
    · exact absurd hmade hne
  have hcwd' : (made.writeFile F path data).2.cwd = fs.cwd := FileSystem.writeFile_cwd.trans hcwd
  rw [hsave]
  refine ⟨hwrite, hcwd', ?_, ?_, fun m hm q => ?_⟩
  · rw [FileSystem.contents_writeFile hwrite, hpl, hcontents]
  · rw [place_congr hcwd']
    exact FileSystem.dir_after_writeFile ((hsame _).trans h.directory)
  · rw [place_congr hcwd', FileSystem.stat_after_writeFile, hsame]
    · exact h.missing m hm.1 q
    · rw [hpl]
      rintro ⟨r, hr⟩
      rw [List.append_assoc, List.append_cancel_left_eq] at hr
      exact hm.2 (List.cons.inj hr).1.symm

/-- The entry of a file in the directory itself. -/
def flatEntry (e : Name × Bytes) : File := entry ([e.1], e.2)

theorem flatEntry_name (e : Name × Bytes) : (flatEntry e).name = e.1.val := relative_singleton e.1

theorem notExist_of_missing {path : Text} (hF : Faultless F) (h : fs.root.stat (fs.place path) = .missing) :
    fs.notExist F path = true := by
  simp [FileSystem.notExist, hF.stat, h]

/-- One file of the directory is fetched and saved. -/
theorem copyFiles_step (hF : Faultless F) (hd : dir ≠ []) {e : Name × Bytes} {names : Set Name}
    (h : Free dir names fs) (hn : e.1 ∈ names) (hdemo : isDemo e.1.val = false)
    (hget : W.getBody (baseURL ++ assetURL (flatEntry e)) = .ok e.2) (rest : List File) :
    ∃ fs', copyFiles T R F W baseURL dir (flatEntry e :: rest) fs = copyFiles T R F W baseURL dir rest fs' ∧
      fs'.cwd = fs.cwd ∧ fs'.contents = put fs.contents (fs.place dir ++ [e.1], e.2) ∧
      Free dir (names \ {e.1}) fs' := by
  obtain ⟨hsaved, hcwd, hcontents, hfree⟩ := saveFile_flat hF hd h hn e.2
  have hplace : fs.place (join [dir, (flatEntry e).name]) = fs.place dir ++ [e.1] :=
    place_join hd [e.1] (List.cons_ne_nil _ _)
  have hexist : fs.notExist F (join [dir, (flatEntry e).name]) = true :=
    notExist_of_missing hF (by rw [hplace]; exact h.missing e.1 hn [])
  have hpair : saveFile F e.1.val e.2 dir false fs = (none, (saveFile F e.1.val e.2 dir false fs).2) :=
    Prod.ext hsaved rfl
  have hasset : saveAsset T R F (flatEntry e) e.2 dir fs =
      (none, (saveFile F e.1.val e.2 dir false fs).2) := by
    rw [saveAsset, flatEntry_name, hpair]
    dsimp only
    rw [hdemo]
    exact if_neg Bool.false_ne_true
  refine ⟨_, ?_, hcwd, hcontents, hfree⟩
  rw [copyFiles, if_pos hexist, hget]
  dsimp only
  rw [hasset]

/-- **Files of the directory are fetched and saved** one after the other. -/
theorem copyFiles_flat (hF : Faultless F) (hd : dir ≠ []) : ∀ (es : List (Name × Bytes)) {fs : FileSystem}
    {names : Set Name}, Free dir names fs → (es.map Prod.fst).Nodup → (∀ e ∈ es, e.1 ∈ names) →
    (∀ e ∈ es, isDemo e.1.val = false) →
    (∀ e ∈ es, W.getBody (baseURL ++ assetURL (flatEntry e)) = .ok e.2) → ∀ rest : List File,
    ∃ fs', copyFiles T R F W baseURL dir (es.map flatEntry ++ rest) fs =
      copyFiles T R F W baseURL dir rest fs' ∧
      fs'.cwd = fs.cwd ∧ fs'.contents = puts fs.contents (es.map fun e => (fs.place dir ++ [e.1], e.2)) ∧
      Free dir {n | n ∈ names ∧ n ∉ es.map Prod.fst} fs'
  | [], fs, names, h, _, _, _, _, rest => ⟨fs, rfl, rfl, rfl, h.directory, fun n hn => h.missing n hn.1⟩
  | e :: es, fs, names, h, hnd, hn, hdemo, hget, rest => by
    rw [List.map_cons, List.nodup_cons] at hnd
    obtain ⟨hn₀, hn⟩ := List.forall_mem_cons.mp hn
    obtain ⟨hdemo₀, hdemo⟩ := List.forall_mem_cons.mp hdemo
    obtain ⟨hget₀, hget⟩ := List.forall_mem_cons.mp hget
    obtain ⟨fs₁, hrun₁, hcwd₁, hcontents₁, hfree₁⟩ :=
      copyFiles_step (T := T) (R := R) hF hd h hn₀ hdemo₀ hget₀ (es.map flatEntry ++ rest)
    have hothers : ∀ e' ∈ es, e'.1 ∈ names \ {e.1} := fun e' he' =>
      ⟨hn e' he', fun he => hnd.1 (List.mem_map.mpr ⟨e', he', he⟩)⟩
    obtain ⟨fs₂, hrun₂, hcwd₂, hcontents₂, hfree₂⟩ :=
      copyFiles_flat hF hd es hfree₁ hnd.2 hothers hdemo hget rest
    refine ⟨fs₂, hrun₁.trans hrun₂, hcwd₂.trans hcwd₁, ?_, hfree₂.directory, fun n hm => ?_⟩
    · rw [hcontents₂, hcontents₁, place_congr hcwd₁]
      rfl
    · obtain ⟨hname, hnew⟩ := hm
      rw [List.map_cons, List.mem_cons, not_or] at hnew
      exact hfree₂.missing n ⟨⟨hname, hnew.1⟩, hnew.2⟩

end Saves

/-! ### The server that is asked -/

section Server

variable (P : PrintTable) (index : Text → Except Text Bytes) (Fs : Faults) (walkError : Text → Text)

/-- The web with a content server under a URL, and nothing else. -/
def serverWeb (baseURL assetsDir : Text) (fs : FileSystem) : Web where
  urlPath := fun _ => .error []
  getBody url :=
    if hasPrefix url baseURL then
      getBody P index url (answer Fs walkError assetsDir (url.drop baseURL.length) fs)
    else .error url

variable {P index Fs walkError} {baseURL assetsDir : Text} {fs : FileSystem}

theorem serverWeb_get (path : Text) :
    (serverWeb P index Fs walkError baseURL assetsDir fs).getBody (baseURL ++ path) =
    getBody P index (baseURL ++ path) (answer Fs walkError assetsDir path fs) := by
  have hp : hasPrefix (baseURL ++ path) baseURL = true := decide_eq_true (List.prefix_append _ _)
  simp only [serverWeb, hp, if_true, List.drop_left]

theorem NoControl.trimSlash {u : Text} (h : NoControl u) : NoControl (trimSlash u) := by
  unfold Content.trimSlash
  split_ifs
  · exact fun c hc => h c (List.dropLast_subset u hc)
  · exact h

/-- The URL of an entry can be asked for if its name can. -/
theorem noControl_assetURL (hbase : NoControl baseURL) {f : File} (hf : NoControl f.name) :
    NoControl (baseURL ++ assetURL f) := by
  have hassets : NoControl (txt "/assets/") := by with_unfolding_all decide
  have hdash : NoControl (txt "-") := by with_unfolding_all decide
  have hdigits : NoControl (natText f.checksum.toNat) := by
    intro c hc
    obtain ⟨hlo, hhi⟩ := isDigit_range (isDigit_of_mem_natText hc)
    simp only [isControl, Bool.or_eq_false_iff, decide_eq_false_iff_not]
    omega
  exact List.forall_mem_append.mpr ⟨hbase, List.forall_mem_append.mpr
    ⟨List.forall_mem_append.mpr ⟨List.forall_mem_append.mpr ⟨hassets, hdigits⟩, hdash⟩, hf⟩⟩

/-- No directory has a name that starts like the request for a file further down. -/
def Unprefixed (assetsDir : Text) (fs : FileSystem) : Prop :=
  ∀ (n : Name) (k : ℕ) (t : Text), n.val = natText k ++ '-' :: t →
    fs.root.stat (fs.place assetsDir ++ [n]) ≠ .dir

/-- The manifest of the server. -/
theorem serverWeb_manifest (jsonError : Bytes → Text) (h : Standing assetsDir fs)
    (hbase : NoControl baseURL) (hc : clean assetsDir = assetsDir) (hr : assetsDir ≠ ['/']) (hs : Sized fs) :
    ∃ files, getManifest (serverWeb P index Fs walkError baseURL assetsDir fs) jsonError baseURL =
      .ok (files.map some) ∧ Lists assetsDir fs files := by
  obtain ⟨es, hw, hl⟩ := lists_getAssets h hc hr
  have hroute : route (requestPath (txt "/assets/manifest.json")) = some .manifest := by
    with_unfolding_all decide
  have hanswer : answer Fs walkError assetsDir (txt "/assets/manifest.json") fs =
      .json (manifestBody (getAssets assetsDir (.dir es))) := by
    rw [answer, hroute]
    dsimp only
    rw [handleManifest, hw]
  have hsized : ∀ f ∈ getAssets assetsDir (.dir es), f.Sized := by
    intro f hf
    obtain ⟨ns, data, hheld, -, rfl⟩ := (hl.mem f).mp hf
    exact hs _ data hheld
  refine ⟨_, ?_, hl⟩
  have hpath : NoControl (txt "/assets/manifest.json") := by with_unfolding_all decide
  have hurl : NoControl (baseURL ++ txt "/assets/manifest.json") := List.forall_mem_append.mpr ⟨hbase, hpath⟩
  rw [getManifest, serverWeb_get, hanswer, getBody, if_pos hurl.beforeFragment]
  dsimp only
  rw [unmarshal_manifestBody hsized]

/-- A file in the directory itself is answered with its bytes. -/
theorem serverWeb_flat (hbase : NoControl baseURL) (hne : assetsDir ≠ []) {e : Name × Bytes}
    (hheld : fs.contents (fs.place assetsDir ++ [e.1]) = some e.2) (hurl : PlainURL e.1.val)
    (hcontrol : NoControl e.1.val) :
    (serverWeb P index Fs walkError baseURL assetsDir fs).getBody (baseURL ++ assetURL (flatEntry e)) =
      .ok e.2 := by
  have hname := flatEntry_name e
  have hserve : serve assetsDir (assetURL (flatEntry e)) = some (filePath assetsDir [e.1]) := by
    have hrequested := requested_file (flatEntry e).checksum.toNat e.1
    rw [serve_assetURL hne (by rwa [hname]), hname, hrequested]
    show some (((locate assetsDir).climb 0).enter [e.1]).render = _
    rw [climb_zero, filePath]
  have hanswer : answer Fs walkError assetsDir (assetURL (flatEntry e)) fs = .file e.2 :=
    answer_of_serve hne hserve (by rw [place_filePath, hheld])
  rw [serverWeb_get, hanswer, getBody,
    if_pos (noControl_assetURL hbase (by rwa [hname])).beforeFragment]

theorem stat_below_of_ne_dir {root : Node} {p : List Name} (h : root.stat p ≠ .dir) {q : List Name}
    (hq : q ≠ []) :
    root.stat (p ++ q) = .missing ∨ root.stat (p ++ q) = .notDir := by
  by_contra hc
  obtain ⟨hm, hd⟩ := not_or.mp hc
  obtain ⟨node, hn⟩ := Node.exists_find p hm hd
  have hp : root.stat p = node.stat [] := by rw [← Node.stat_of_find p hn, List.append_nil]
  obtain ⟨n, q, rfl⟩ := List.exists_cons_of_ne_nil hq
  rw [Node.stat_of_find p hn] at hd
  cases node with
  | dir es => exact h hp
  | file data => exact hd rfl

/-- A file further down is not found. -/
theorem serverWeb_nested (hne : assetsDir ≠ []) (hu : Unprefixed assetsDir fs) {g : Name} {ms : List Name}
    (hms : ms ≠ []) {data : Bytes} (hext : hasExts (relative (g :: ms)) assetExts = true)
    (hurl : PlainURL (relative (g :: ms))) : ∃ err,
    (serverWeb P index Fs walkError baseURL assetsDir fs).getBody
      (baseURL ++ assetURL (entry (g :: ms, data))) =
      .error err := by
  set f := entry (g :: ms, data) with hf
  have hname : f.name = relative (g :: ms) := rfl
  obtain ⟨ns, l, hsplit⟩ := (List.eq_nil_or_concat ms).resolve_left hms
  rw [List.concat_eq_append] at hsplit
  have hlast : relative (g :: ms) = relative (g :: ns) ++ '/' :: l.val := by
    rw [hsplit, ← relative_concat (List.cons_ne_nil g ns) l]
    rfl
  rw [hlast] at hext
  -- the checksum stays with the first name, and a dash is cut off the last one
  let x : Name := ⟨natText f.checksum.toNat ++ '-' :: g.val, isName_checksum _ g.property.2.2.2⟩
  let y : Name := ⟨afterDash l.val, isName_afterDash hext⟩
  have hrequested : requested (natText f.checksum.toNat ++ '-' :: f.name) = here.enter (x :: ns ++ [y]) := by
    have hx : natText f.checksum.toNat ++ '-' :: f.name = relative (x :: ns ++ [l]) := by
      rw [hname, List.cons_append, relative_cons x (by simp), relative_cons g hms, hsplit]
      simp [x]
    rw [hx]
    exact requested_below rfl
  have hstat := stat_below_of_ne_dir (hu x _ _ rfl) (q := ns ++ [y]) (by simp)
  have hanswer : answer Fs walkError assetsDir (assetURL f) fs = .notFound := by
    have hpath : assetPath assetsDir (natText f.checksum.toNat ++ '-' :: f.name) =
        ((locate assetsDir).enter (x :: ns ++ [y])).render := by
      rw [assetPath_eq_render hne, hrequested]
      show (((locate assetsDir).climb 0).enter (x :: ns ++ [y])).render = _
      rw [climb_zero]
    have hplace : fs.place (assetPath assetsDir (natText f.checksum.toNat ++ '-' :: f.name)) =
        fs.place assetsDir ++ [x] ++ (ns ++ [y]) := by
      rw [hpath, FileSystem.place, locate_render, absolute_enter]
      simp [FileSystem.place]
    rw [answer, requestPath_assetURL (by rwa [hname]), route_assetURL]
    dsimp only
    rw [handleAsset, hplace]
    split_ifs
    · rfl
    · rfl
    · rcases hstat with hstat | hstat <;> rw [hstat]
  rw [serverWeb_get, hanswer, getBody]
  split_ifs
  · exact ⟨_, rfl⟩
  · exact ⟨_, rfl⟩

end Server

/-! ### The whole seeding -/

/-- A list of things of two kinds starts with some of the first kind, and then ends
or goes on with one of the second. -/
theorem exists_split {α β : Type} {g : β → α} {p : β → Prop} {q : α → Prop} (l : List α)
    (h : ∀ a ∈ l, (∃ b, p b ∧ a = g b) ∨ q a) : ∃ (bs : List β) (rest : List α), (∀ b ∈ bs, p b) ∧
      l = bs.map g ++ rest ∧ (rest = [] ∨ ∃ a rest', rest = a :: rest' ∧ q a) := by
  induction l with
  | nil => exact ⟨[], [], by simp, rfl, .inl rfl⟩
  | cons a l ih =>
    obtain ⟨ha, hl⟩ := List.forall_mem_cons.mp h
    rcases ha with ⟨b, hb, rfl⟩ | ha
    · obtain ⟨bs, rest, hbs, rfl, hrest⟩ := ih hl
      exact ⟨b :: bs, rest, List.forall_mem_cons.mpr ⟨hb, hbs⟩, rfl, hrest⟩
    · exact ⟨[], a :: l, by simp, rfl, .inr ⟨a, l, rfl, ha⟩⟩

section Seeding

variable {T : LowerTable} {R : Readers} {P : PrintTable} {index : Text → Except Text Bytes} {F Fs : Faults}
  {walkError : Text → Text} {jsonError : Bytes → Text} {u dir assetsDir : Text} {fs server : FileSystem}

/-- A server that can be seeded from: its names can stand in a URL as they are, none of its
files is one of the two installers, and no directory is taken for a checksum. -/
structure Seeds (assetsDir : Text) (server : FileSystem) : Prop where
  ready : Standing assetsDir server
  cleaned : clean assetsDir = assetsDir
  not_root : assetsDir ≠ ['/']
  sized : Sized server
  unprefixed : Unprefixed assetsDir server
  names : ∀ ns data, server.contents (server.place assetsDir ++ ns) = some data →
    hasExts (relative ns) assetExts = true →
      PlainURL (relative ns) ∧ NoControl (relative ns) ∧ isDemo (relative ns) = false

theorem Seeds.ne_nil (h : Seeds assetsDir server) : assetsDir ≠ [] := by
  rw [← h.cleaned]
  exact render_ne_nil _

/-- A file that the server lists in its directory itself. -/
def ListedFlat (assetsDir : Text) (server : FileSystem) (e : Name × Bytes) : Prop :=
  server.contents (server.place assetsDir ++ [e.1]) = some e.2 ∧ hasExts e.1.val assetExts = true

/-- One that it lists further down. -/
def ListedNested (assetsDir : Text) (server : FileSystem) (f : File) : Prop :=
  ∃ g ms data, ms ≠ [] ∧ server.contents (server.place assetsDir ++ g :: ms) = some data ∧
    hasExts (relative (g :: ms)) assetExts = true ∧ f = entry (g :: ms, data)

/-- **What the manifest makes of a seeding**: files of the directory are copied up to
the first one further down, which ends it with an error. -/
theorem seedFrom_cases (h : Seeds assetsDir server) (hu : NoControl u) (hF : Faultless F) (hd : dir ≠ [])
    (hfree : Free dir Set.univ fs) :
    ∃ files, Lists assetsDir server files ∧
      ((∃ (es : List (Name × Bytes)) (fs' : FileSystem), files = es.map flatEntry ∧
        (∀ e ∈ es, ListedFlat assetsDir server e) ∧
        seedFrom T R F (serverWeb P index Fs walkError (trimSlash u) assetsDir server) jsonError u dir fs =
          .returned none fs' ∧
        fs'.contents = puts fs.contents (es.map fun e => (fs.place dir ++ [e.1], e.2))) ∨
      (∃ f ∈ files, ListedNested assetsDir server f) ∧ ∃ (err : Text) (fs' : FileSystem),
        seedFrom T R F (serverWeb P index Fs walkError (trimSlash u) assetsDir server) jsonError u dir fs =
          .returned (some err) fs') := by
  set W := serverWeb P index Fs walkError (trimSlash u) assetsDir server with hW
  have hlisted : ∃ files, getManifest W jsonError (trimSlash u) = .ok (files.map some) ∧
      Lists assetsDir server files :=
    serverWeb_manifest jsonError h.ready hu.trimSlash h.cleaned h.not_root h.sized
  obtain ⟨files, hmanifest, hl⟩ := hlisted
  have hseed : seedFrom T R F W jsonError u dir fs =
      .returned (copyFiles T R F W (trimSlash u) dir files fs).1
        (copyFiles T R F W (trimSlash u) dir files fs).2 := by
    rw [seedFrom, hmanifest]
    exact copyEntries_some files fs
  have hkinds : ∀ f ∈ files, (∃ e, ListedFlat assetsDir server e ∧ f = flatEntry e) ∨
      ListedNested assetsDir server f := by
    intro f hf
    obtain ⟨ns, data, hheld, hext, rfl⟩ := (hl.mem f).mp hf
    match ns with
    | [] =>
      rw [List.append_nil, Node.contents_eq_some, h.ready.directory] at hheld
      cases hheld
    | [n] => exact .inl ⟨(n, data), ⟨hheld, by rwa [relative_singleton] at hext⟩, rfl⟩
    | g :: m :: ms => exact .inr ⟨g, m :: ms, data, List.cons_ne_nil _ _, hheld, hext, rfl⟩
  obtain ⟨es, rest, hes, hsplit, hrest⟩ := exists_split files hkinds
  have hnames : ∀ e ∈ es, PlainURL e.1.val ∧ NoControl e.1.val ∧ isDemo e.1.val = false := by
    intro e he
    have hboth := h.names [e.1] e.2 (hes e he).1 (by rw [relative_singleton]; exact (hes e he).2)
    rwa [relative_singleton] at hboth
  have hnodup : (es.map Prod.fst).Nodup := by
    have hall := hl.nodup
    rw [hsplit, List.map_append, List.map_map] at hall
    have hvals : es.map (File.name ∘ flatEntry) = (es.map Prod.fst).map Subtype.val := by
      rw [List.map_map]
      exact List.map_congr_left fun e _ => flatEntry_name e
    rw [hvals] at hall
    exact List.Nodup.of_map _ (List.nodup_append.mp hall).1
  have hget : ∀ e ∈ es, W.getBody (trimSlash u ++ assetURL (flatEntry e)) = .ok e.2 := fun e he =>
    serverWeb_flat hu.trimSlash h.ne_nil (hes e he).1 (hnames e he).1 (hnames e he).2.1
  obtain ⟨fs₁, hrun, hcwd, hcontents, hfree₁⟩ := copyFiles_flat (T := T) (R := R) hF hd es hfree hnodup
    (fun e _ => Set.mem_univ _) (fun e he => (hnames e he).2.2) hget rest
  refine ⟨files, hl, ?_⟩
  rcases hrest with rfl | ⟨f, rest, rfl, hnested⟩
  · refine .inl ⟨es, fs₁, by rw [hsplit, List.append_nil], hes, ?_, hcontents⟩
    rw [hseed, hsplit, hrun]
    rfl
  · have hmem : f ∈ files := by
      rw [hsplit]
      exact List.mem_append_right _ List.mem_cons_self
    obtain ⟨g, ms, data, hms, hheld, hext, rfl⟩ := hnested
    have hnot : ∃ err, W.getBody (trimSlash u ++ assetURL (entry (g :: ms, data))) = .error err :=
      serverWeb_nested h.ne_nil h.unprefixed hms hext (h.names _ data hheld hext).1
    obtain ⟨err, herr⟩ := hnot
    -- its place is free: no file of the directory has the name of one
    have hg : g ∉ es.map Prod.fst := by
      intro hmemg
      obtain ⟨e, he, rfl⟩ := List.mem_map.mp hmemg
      have hfile := Node.contents_eq_some.mp (hes e he).1
      have hbelow := Node.contents_below (q := server.place assetsDir ++ e.1 :: ms) (by rw [hfile]; simp)
        ⟨ms, by simp⟩ fun hq => hms (by simpa using hq)
      rw [FileSystem.contents, hbelow] at hheld
      cases hheld
    have hexist : fs₁.notExist F (join [dir, (entry (g :: ms, data)).name]) = true := by
      apply notExist_of_missing hF
      have hplace : fs₁.place (join [dir, (entry (g :: ms, data)).name]) = fs₁.place dir ++ g :: ms :=
        place_join hd (g :: ms) (List.cons_ne_nil _ _)
      rw [hplace]
      exact hfree₁.missing g ⟨Set.mem_univ _, hg⟩ ms
    refine .inr ⟨⟨_, hmem, g, ms, data, hms, hheld, hext, rfl⟩,
      txt "failed to download file: " ++ err, fs₁, ?_⟩
    rw [hseed, hsplit, hrun, copyFiles, if_pos hexist, herr]

/-- **An empty directory is seeded if and only if all files that the server lists lie
in its directory itself**; then it holds these files, byte for byte, and no other
file is written. -/
theorem seed_iff (h : Seeds assetsDir server) (hu : NoControl u) (hF : Faultless F) (hd : dir ≠ [])
    (hfree : Free dir Set.univ fs) :
    ((∃ fs', seedFrom T R F
      (serverWeb P index Fs walkError (trimSlash u) assetsDir server) jsonError u dir fs =
        .returned none fs') ↔
      ∀ ns data, server.contents (server.place assetsDir ++ ns) = some data →
        hasExts (relative ns) assetExts = true → ns.length = 1) ∧
    ∀ fs', seedFrom T R F (serverWeb P index Fs walkError (trimSlash u) assetsDir server) jsonError u dir fs =
        .returned none fs' →
      (∀ n : Name, fs'.contents (fs.place dir ++ [n]) =
        if hasExts n.val assetExts then server.contents (server.place assetsDir ++ [n]) else none) ∧
      ∀ p, (∀ n : Name, p ≠ fs.place dir ++ [n]) → fs'.contents p = fs.contents p := by
  set W := serverWeb P index Fs walkError (trimSlash u) assetsDir server with hW
  have hcases : ∃ files, Lists assetsDir server files ∧
      ((∃ (es : List (Name × Bytes)) (fs' : FileSystem), files = es.map flatEntry ∧
        (∀ e ∈ es, ListedFlat assetsDir server e) ∧
        seedFrom T R F W jsonError u dir fs = .returned none fs' ∧
        fs'.contents = puts fs.contents (es.map fun e => (fs.place dir ++ [e.1], e.2))) ∨
      (∃ f ∈ files, ListedNested assetsDir server f) ∧ ∃ (err : Text) (fs' : FileSystem),
        seedFrom T R F W jsonError u dir fs = .returned (some err) fs') := seedFrom_cases h hu hF hd hfree
  obtain ⟨files, hl, hcases⟩ := hcases
  rcases hcases with
    ⟨es, fs₁, hfiles, hes, hseed, hcontents⟩ | ⟨⟨f, hf, g, ms, data, hms, hheld, hext, -⟩, err, fs₁, hseed⟩
  · have hlisted : ∀ n d, hasExts n.val assetExts = true →
        server.contents (server.place assetsDir ++ [n]) = some d →
        ∃ e ∈ es, e.1 = n := by
      intro n d hext hheld
      have hf : flatEntry (n, d) ∈ files := (hl.mem _).mpr ⟨[n], d, hheld, by rwa [relative_singleton], rfl⟩
      rw [hfiles] at hf
      obtain ⟨e, he, heq⟩ := List.mem_map.mp hf
      refine ⟨e, he, Subtype.ext ?_⟩
      have hname := congrArg File.name heq
      rwa [flatEntry_name, flatEntry_name] at hname
    refine ⟨⟨fun _ ns data hheld hext => ?_, fun _ => ⟨fs₁, hseed⟩⟩, fun fs' hfs' => ?_⟩
    · have hf : entry (ns, data) ∈ files := (hl.mem _).mpr ⟨ns, data, hheld, hext, rfl⟩
      rw [hfiles] at hf
      obtain ⟨e, -, heq⟩ := List.mem_map.mp hf
      have hns : ns ≠ [] := by
        rintro rfl
        rw [List.append_nil, Node.contents_eq_some, h.ready.directory] at hheld
        cases hheld
      have hone := relative_inj (List.cons_ne_nil _ _) hns (congrArg File.name heq)
      rw [← hone]
      rfl
    · rw [hseed] at hfs'
      cases hfs'
      refine ⟨fun n => ?_, fun p hp => ?_⟩
      · rw [hcontents]
        rcases puts_cases fs.contents (es.map fun e => (fs.place dir ++ [e.1], e.2))
          (fs.place dir ++ [n]) with
          ⟨w, hw, hk, hv⟩ | ⟨hn, hv⟩
        · obtain ⟨e, he, rfl⟩ := List.mem_map.mp hw
          obtain rfl : e.1 = n := by simpa using hk
          rw [hv, if_pos (hes e he).2, (hes e he).1]
        · have hempty : fs.contents (fs.place dir ++ [n]) = none := by
            rw [FileSystem.contents, Node.contents, hfree.missing n (Set.mem_univ _) []]
          rw [hv, hempty]
          split_ifs with hext
          · by_contra hc
            obtain ⟨d, hheld⟩ := Option.ne_none_iff_exists'.mp (Ne.symm hc)
            obtain ⟨e, he, rfl⟩ := hlisted n d hext hheld
            exact hn _ (List.mem_map.mpr ⟨e, he, rfl⟩) rfl
          · rfl
      · rw [hcontents]
        refine puts_of_forall_ne fun w hw => ?_
        obtain ⟨e, -, rfl⟩ := List.mem_map.mp hw
        exact (hp e.1).symm
  · refine ⟨⟨?_, fun hall => ?_⟩, ?_⟩
    · rintro ⟨fs', hfs'⟩
      rw [hseed] at hfs'
      cases hfs'
    · have hone := hall (g :: ms) data hheld hext
      exact absurd (List.length_eq_zero_iff.mp (Nat.succ.inj hone)) hms
    · intro fs' hfs'
      rw [hseed] at hfs'
      cases hfs'

end Seeding

namespace OnePack

theorem seeds : Seeds Pak.dir server where
  ready := ready
  cleaned := by with_unfolding_all decide
  not_root := by with_unfolding_all decide
  sized := sized
  unprefixed n k t _ hd := by
    have hplace : server.place Pak.dir = [assets] := by with_unfolding_all decide
    rw [hplace] at hd
    by_cases hn : pak0 = n
    · subst hn
      revert hd
      with_unfolding_all decide
    · have hmissing : onePack.get n = none := if_neg hn
      have hget : (Entries.cons assets (.dir onePack) .nil).get assets = some (.dir onePack) := if_pos rfl
      have hbelow : server.root.stat ([assets] ++ [n]) = (Node.dir onePack).stat [n] :=
        Node.stat_cons_of_get hget [n]
      rw [hbelow, Node.stat_cons_of_get_eq_none hmissing] at hd
      cases hd
  names ns data h _ := by
    have hplace : server.place Pak.dir = [assets] := by with_unfolding_all decide
    rw [hplace] at h
    obtain rfl : ns = [pak0] := by simpa using (contents h).1
    exact ⟨by with_unfolding_all decide, by with_unfolding_all decide, by with_unfolding_all decide⟩

/-- An empty assets directory. -/
def emptyDir : FileSystem := ⟨.dir (.cons assets (.dir .nil) .nil), [], []⟩

theorem free : Free Pak.dir Set.univ emptyDir where
  directory := by with_unfolding_all decide
  missing n _ q := by
    have hplace : emptyDir.place Pak.dir = [assets] := by with_unfolding_all decide
    have hget : (Entries.cons assets (.dir .nil) .nil).get assets = some (.dir .nil) := if_pos rfl
    have hbelow : emptyDir.root.stat ([assets] ++ n :: q) = (Node.dir .nil).stat (n :: q) :=
      Node.stat_cons_of_get hget (n :: q)
    have hnone : Entries.nil.get n = none := rfl
    rw [hplace, hbelow, Node.stat_cons_of_get_eq_none hnone]

end OnePack

open Pak OnePack in
theorem seed_iff_onePack : ∃ fs', seedFrom table noArchives noFaults
    (serverWeb .ascii7 (fun _ => .error []) noFaults id (trimSlash (txt "http://content")) dir server)
    (fun _ => []) (txt "http://content") dir emptyDir = .returned none fs' ∧
      fs'.contents [assets, pak0] = some [] := by
  have hu : NoControl (txt "http://content") := by with_unfolding_all decide
  have hF : Faultless noFaults := ⟨fun _ _ => rfl, fun _ _ => rfl⟩
  have hd : Pak.dir ≠ [] := by with_unfolding_all decide
  have hplace : server.place dir = [assets] := by with_unfolding_all decide
  have hflat : ∀ ns data, server.contents (server.place dir ++ ns) = some data →
      hasExts (relative ns) assetExts = true → ns.length = 1 := by
    intro ns data h _
    rw [hplace] at h
    obtain rfl : ns = [pak0] := by simpa using (contents h).1
    rfl
  obtain ⟨fs', hseed⟩ : ∃ fs', seedFrom table noArchives noFaults
      (serverWeb .ascii7 (fun _ => .error []) noFaults id (trimSlash (txt "http://content")) dir server)
      (fun _ => []) (txt "http://content") dir emptyDir = .returned none fs' :=
    (seed_iff seeds hu hF hd free).1.mpr hflat
  have hfile := ((seed_iff seeds hu hF hd free).2 fs' hseed).1 pak0
  have hempty : emptyDir.place dir = [assets] := by with_unfolding_all decide
  have hext : hasExts pak0.val assetExts = true := by with_unfolding_all decide
  rw [hempty, if_pos hext, hplace] at hfile
  exact ⟨fs', hseed, hfile.trans (by with_unfolding_all rfl)⟩

end Content
end QuakeKube
