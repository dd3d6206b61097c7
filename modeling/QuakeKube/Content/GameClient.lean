/-
# The assets a game client asks for

The game client puts an asset's checksum in front of its base name
(`DownloadAsset` of `public/ioquake3.js`), and `GET /assets/*` takes it off
again (`trimAssetName` of `internal/quake/content/router.go`). A checksum has no
dash, so that the first dash of the last segment is the one that ends it,
whatever dashes the path has (`trimAssetName_checksummed`).

The client cuts the name with a regular expression, modelled here as its
backtracking matcher tries it. On a name of one line it cuts where `Split` does
(`replaceName_eq`), and the server answers with the very file that the manifest
lists, at any depth (`serve_downloadAsset`). What the browser sends of the URL is the
whole of it where there is no tab, line end or backslash (`sentPath_downloadAsset`).

Key definitions: `checksummed`, `groups`, `replaceName`, `downloadAsset`, `sentPath`.
Key theorems: `trimAssetName_checksummed`, `trimAssetName_undoes`, `replaceName_eq`,
`serve_downloadAsset`, `sentPath_downloadAsset`.
-/
import QuakeKube.Content.Download

namespace QuakeKube
namespace Content

open Go Loc

/-- A path with a checksum and a dash in front of its base name. -/
def checksummed (n : ℕ) (p : Text) : Text :=
  let (d, b) := split p
  d ++ natText n ++ '-' :: b

theorem checksummed_of_noSlash (n : ℕ) {f : Text} (h : '/' ∉ f) : checksummed n f = natText n ++ '-' :: f := by
  rw [checksummed, split_of_noSlash h]
  rfl

theorem checksummed_append_slash (n : ℕ) (d : Text) {f : Text} (h : '/' ∉ f) :
    checksummed n (d ++ '/' :: f) = d ++ '/' :: (natText n ++ '-' :: f) := by
  rw [checksummed, split_append_slash d h]
  simp

/-- The part up to the last slash stays, and a checksum goes in front of the rest. -/
theorem split_checksummed (n : ℕ) (p : Text) :
    split (checksummed n p) = ((split p).1, natText n ++ '-' :: (split p).2) := by
  rcases split_cases p with h | ⟨d, f, hf, rfl⟩
  · have hs : '/' ∉ natText n ++ '-' :: p := (isName_checksum n h).2.2.2
    rw [checksummed_of_noSlash n h, split_of_noSlash hs, split_of_noSlash h]
  · have hs : '/' ∉ natText n ++ '-' :: f := (isName_checksum n hf).2.2.2
    rw [checksummed_append_slash n d hf, split_append_slash d hs, split_append_slash d hf]

/-- **The checksum is taken off again**, and the path cleaned. -/
theorem trimAssetName_checksummed (n : ℕ) (p : Text) : trimAssetName (checksummed n p) = join [p] := by
  have hd : afterDash (natText n ++ '-' :: (split p).2) = (split p).2 :=
    afterDash_append (natText_not_mem rfl) _
  calc trimAssetName (checksummed n p)
      = join [(split p).1, afterDash (natText n ++ '-' :: (split p).2)] := by
        rw [trimAssetName, split_checksummed]
        rfl
    _ = join [(split p).1, (split p).2] := by rw [hd]
    _ = join [p] := join_split p

theorem trimAssetName_relPath (n : ℕ) (p : RelPath) : trimAssetName (checksummed n p.text) = p.text := by
  rw [trimAssetName_checksummed, p.join_text]

theorem assetPath_checksummed (assetsDir : Text) (n : ℕ) (p : RelPath) :
    assetPath assetsDir (checksummed n p.text) = join [assetsDir, p.text] := by
  rw [assetPath, trimAssetName_relPath]

/-- **`trimAssetName` undoes the client's checksum.** Of a cleaned relative path
the path itself is left, and the file at that path is read. Two paths are never
taken for one another, whatever their checksums; and where they climb equally
far, as those of assets, which do not climb, the files read are different. -/
theorem trimAssetName_undoes (n : ℕ) (p : RelPath) :
    trimAssetName (checksummed n p.text) = p.text ∧
      (∀ assetsDir, assetPath assetsDir (checksummed n p.text) = join [assetsDir, p.text] ∧
        locate (assetPath assetsDir (checksummed n p.text)) =
          ((locate assetsDir).climb (locate p.text).ups).enter (locate p.text).names) ∧
      ∀ (m : ℕ) (q : RelPath),
        (trimAssetName (checksummed m q.text) = trimAssetName (checksummed n p.text) ↔ q = p) ∧
        ∀ assetsDir, (locate q.text).ups = (locate p.text).ups ∧
          assetPath assetsDir (checksummed m q.text) = assetPath assetsDir (checksummed n p.text) ↔ q = p := by
  refine ⟨trimAssetName_relPath n p, fun assetsDir => ⟨assetPath_checksummed assetsDir n p, ?_⟩,
    fun m q => ⟨?_, fun assetsDir => ?_⟩⟩
  · rw [assetPath_checksummed, p.locate_join]
  · rw [trimAssetName_relPath, trimAssetName_relPath, ← RelPath.ext_iff]
  · rw [assetPath_checksummed, assetPath_checksummed]
    exact RelPath.join_inj assetsDir

/-! ### The client's request -/

/-- What `.` does not match. -/
def IsLineTerminator (c : Char) : Prop := c ∈ ['\n', '\r', '\u2028', '\u2029']

instance : DecidablePred IsLineTerminator := fun c => by unfold IsLineTerminator; infer_instance

/-- No line ends in the text. -/
def OneLine (s : Text) : Prop := ∀ c ∈ s, ¬ IsLineTerminator c

instance : DecidablePred OneLine := fun s => by unfold OneLine; infer_instance

/-- What `.+\/` matches. -/
def MatchesDirs (g : Text) : Prop := 2 ≤ g.length ∧ g.getLast? = some '/' ∧ OneLine g

instance : DecidablePred MatchesDirs := fun g => by unfold MatchesDirs; infer_instance

/-- What `.+?` matches up to the end. -/
def MatchesRest (t : Text) : Prop := t ≠ [] ∧ OneLine t

instance : DecidablePred MatchesRest := fun t => by unfold MatchesRest; infer_instance

/-- The groups of `(.+\/|)(.+?)$` matched from the start of `s`, the first of at
most `k` characters: as many as it can have, and else none. -/
def groups (s : Text) : ℕ → Option (Text × Text)
  | 0 => if MatchesRest s then some ([], s) else none
  | k + 1 =>
    if MatchesDirs (s.take (k + 1)) ∧ MatchesRest (s.drop (k + 1)) then
      some (s.take (k + 1), s.drop (k + 1))
    else groups s k

/-- `name.replace(/(.+\/|)(.+?)$/, '$1' + checksum + '-$2')`, at the leftmost
match. There are two groups, so that `$1` ends where the checksum begins. -/
def replaceName (checksum : ℕ) : Text → Text
  | [] => []
  | c :: s =>
    match groups (c :: s) (c :: s).length with
    | some (d, b) => d ++ natText checksum ++ '-' :: b
    | none => c :: replaceName checksum s

/-- The path of the URL that `DownloadAsset` requests. -/
def downloadAsset (asset : File) : Text :=
  txt "/assets/" ++ replaceName asset.checksum.toNat asset.name

theorem groups_of_noSlash {s : Text} (h : '/' ∉ s) (hs : MatchesRest s) : ∀ k, groups s k = some ([], s)
  | 0 => if_pos hs
  | k + 1 => by
    have hd : ¬ MatchesDirs (s.take (k + 1)) := by
      rintro ⟨-, hl, -⟩
      exact h (List.mem_of_mem_take (List.mem_of_getLast? hl))
    rw [groups, if_neg fun hm => hd hm.1]
    exact groups_of_noSlash h hs k

/-- The first group goes to the last slash, however many characters it may have. -/
theorem groups_append {d b : Text} (hd : MatchesDirs d) (hb : MatchesRest b) (hslash : '/' ∉ b) {k : ℕ}
    (hk : d.length ≤ k) : groups (d ++ b) k = some (d, b) := by
  induction k, hk using Nat.le_induction with
  | base =>
    obtain ⟨k, hlen⟩ : ∃ k, d.length = k + 1 := Nat.exists_eq_add_of_le' (by have := hd.1; omega)
    have ht : (d ++ b).take (k + 1) = d := by rw [← hlen, List.take_left]
    have hr : (d ++ b).drop (k + 1) = b := by rw [← hlen, List.drop_left]
    rw [hlen, groups, ht, hr, if_pos ⟨hd, hb⟩]
  | succ k hk ih =>
    -- a longer group ends in the base name
    have hlong : ¬ MatchesDirs ((d ++ b).take (k + 1)) := by
      rintro ⟨-, hl, -⟩
      have hne : b.take (k + 1 - d.length) ≠ [] := by
        rw [Ne, List.take_eq_nil_iff, not_or]
        exact ⟨by omega, hb.1⟩
      rw [List.take_append, List.getLast?_append_of_ne_nil _ hne] at hl
      exact hslash (List.mem_of_mem_take (List.mem_of_getLast? hl))
    rw [groups, if_neg fun hm => hlong hm.1]
    exact ih

theorem replaceName_of_groups {n : ℕ} {s d b : Text} (hs : s ≠ []) (h : groups s s.length = some (d, b)) :
    replaceName n s = d ++ natText n ++ '-' :: b := by
  obtain ⟨c, s, rfl⟩ := List.exists_cons_of_ne_nil hs
  rw [replaceName, h]

/-- The expression finds what `Split` does. -/
theorem groups_eq_split {p : RelPath} (h : OneLine p.text) :
    groups p.text p.text.length = some (split p.text) := by
  have hb := p.split_snd_ne_nil
  rcases split_cases p.text with hp | ⟨d, f, hf, hp⟩
  · rw [split_of_noSlash hp]
    exact groups_of_noSlash hp ⟨p.ne_nil, h⟩ _
  · have hr := p.relative
    rw [hp] at h hr
    rw [hp, split_append_slash d hf] at hb ⊢
    have hdirs : MatchesDirs (d ++ ['/']) := by
      have hd : d ≠ [] := by
        rintro rfl
        exact hr rfl
      have hlen := List.length_pos_iff.mpr hd
      refine ⟨by rw [List.length_append, List.length_singleton]; omega, by simp, fun c hc => h c ?_⟩
      rw [List.append_cons]
      exact List.mem_append_left f hc
    have hrest : MatchesRest f := ⟨hb, fun c hc => h c (List.mem_append_right d (List.mem_cons_of_mem _ hc))⟩
    rw [List.append_cons]
    exact groups_append hdirs hrest hf (by simp)

/-- **The client's cut.** On one line it is made at the last slash. -/
theorem replaceName_eq (n : ℕ) {p : RelPath} (h : OneLine p.text) :
    replaceName n p.text = checksummed n p.text :=
  replaceName_of_groups p.ne_nil (groups_eq_split h)

/-- A slash in front belongs to no group of its own. -/
example : replaceName 7 (txt "/pak0.pk3") = txt "7-/pak0.pk3" := by with_unfolding_all decide

/-! ### The manifest's files -/

theorem checksummed_eq (n : ℕ) (p : Text) :
    checksummed n p = (split p).1 ++ (natText n ++ ['-']) ++ (split p).2 := by
  simp [checksummed]

theorem plainURL_checksummed (n : ℕ) {p : Text} (h : PlainURL p) : PlainURL (checksummed n p) := by
  rw [← split_append p] at h
  obtain ⟨hd, hb⟩ := List.forall_mem_append.mp h
  rw [checksummed_eq]
  exact (PlainURL.append hd (plainURL_checksum n)).append hb

/-- A request for a path is answered with the file there. -/
theorem serve_checksummed (assetsDir : Text) (n : ℕ) {p : RelPath} (h : PlainURL p.text) :
    serve assetsDir (txt "/assets/" ++ checksummed n p.text) = some (join [assetsDir, p.text]) := by
  have hdash : '-' ∈ checksummed n p.text := by
    rw [checksummed_eq]
    simp
  rw [serve, requestPath_of_plain (plainURL_assets.append (plainURL_checksummed n h)), route_asset hdash]
  exact congrArg some (assetPath_checksummed assetsDir n p)

/-- **The game client is served what the manifest lists.** For every file that a
cleaned assets directory other than the root lists, at any depth, the request of
the client for its entry is answered with that very file. -/
theorem serve_downloadAsset {assetsDir : Text} (hd : clean assetsDir = assetsDir) (hroot : assetsDir ≠ ['/'])
    {es : Entries} {v : Text × Bytes} (hv : v ∈ walk assetsDir (.dir es) assetExts)
    (hurl : PlainURL (assetFile assetsDir v).name) (hline : OneLine (assetFile assetsDir v).name) :
    serve assetsDir (downloadAsset (assetFile assetsDir v)) = some v.1 := by
  have hne : assetsDir ≠ [] := by
    rw [← hd]
    exact render_ne_nil _
  obtain ⟨-, ns, hns, hp⟩ := mem_walk hne hv
  have hD : locate assetsDir ≠ root := by
    intro h
    rw [← hd, clean, h] at hroot
    exact hroot rfl
  let p : RelPath := .ofLoc (here.enter ns) rfl
  have hname : (assetFile assetsDir v).name = p.text := by
    have h := assetFile_name (locate assetsDir) hns v.2
    rw [if_neg hD, ← hp, ← clean, hd] at h
    exact h.trans (render_here_enter hns).symm
  have hloc : locate p.text = here.enter ns := locate_render (here.enter ns)
  rw [hname] at hurl hline
  calc serve assetsDir (downloadAsset (assetFile assetsDir v))
      = serve assetsDir (txt "/assets/" ++ checksummed (assetFile assetsDir v).checksum.toNat p.text) := by
        rw [downloadAsset, hname, replaceName_eq _ hline]
    _ = some (join [assetsDir, p.text]) := serve_checksummed assetsDir _ hurl
    _ = some (((locate assetsDir).climb 0).enter ns).render := by
        rw [join_eq_render hne, List.flatMap_singleton, p.walk_moves, hloc]
        rfl
    _ = some v.1 := by rw [climb_zero, hp]

/-! ### What the browser sends -/

/-- The path that a browser asks for when it is given one: tabs and line ends are taken out,
and a backslash is a slash. -/
def sentPath (path : Text) : Text :=
  (path.filter fun c => c ∉ ['\t', '\n', '\r']).map fun c => if c = '\\' then '/' else c

/-- The browser changes nothing of the text. -/
def SentWhole (s : Text) : Prop := ∀ c ∈ s, c ∉ ['\t', '\n', '\r', '\\']

instance : DecidablePred SentWhole := fun s => by unfold SentWhole; infer_instance

theorem sentPath_of_whole {s : Text} (h : SentWhole s) : sentPath s = s := by
  have hfilter : (s.filter fun c => c ∉ ['\t', '\n', '\r']) = s := by
    refine List.filter_eq_self.mpr fun c hc => ?_
    have hne := h c hc
    simp only [List.mem_cons, List.not_mem_nil, or_false, not_or] at hne ⊢
    simp [hne]
  have hmap : s.map (fun c => if c = '\\' then '/' else c) = s.map id := by
    refine List.map_congr_left fun c hc => if_neg ?_
    rintro rfl
    exact h _ hc (by simp)
  rw [sentPath, hfilter, hmap, List.map_id]

theorem groups_eq_some {s d b : Text} : ∀ {k : ℕ}, groups s k = some (d, b) → d ++ b = s
  | 0, h => by
    unfold groups at h
    split_ifs at h
    cases h
    rfl
  | k + 1, h => by
    unfold groups at h
    split_ifs at h
    · cases h
      exact List.take_append_drop _ _
    · exact groups_eq_some h

theorem sentWhole_replaceName (n : ℕ) {s : Text} (h : SentWhole s) : SentWhole (replaceName n s) := by
  have hdigits : SentWhole (natText n ++ ['-']) := by
    refine List.forall_mem_append.mpr ⟨fun c hc => ?_, by decide⟩
    have hd := isDigit_of_mem_natText hc
    simp [ne_of_test (d := '\t') hd rfl, ne_of_test (d := '\n') hd rfl, ne_of_test (d := '\r') hd rfl,
      ne_of_test (d := '\\') hd rfl]
  induction s with
  | nil => exact h
  | cons c s ih =>
    obtain ⟨hc, hs⟩ := List.forall_mem_cons.mp h
    unfold replaceName
    split
    · rename_i d b hgroups
      rw [← groups_eq_some hgroups] at h
      obtain ⟨hd, hb⟩ := List.forall_mem_append.mp h
      rw [List.append_cons, List.append_assoc d]
      exact List.forall_mem_append.mpr ⟨List.forall_mem_append.mpr ⟨hd, hdigits⟩, hb⟩
    · exact List.forall_mem_cons.mpr ⟨hc, ih hs⟩

/-- The request for an asset is sent as the client makes it. -/
theorem sentPath_downloadAsset {f : File} (h : SentWhole f.name) :
    sentPath (downloadAsset f) = downloadAsset f := by
  have hassets : SentWhole (txt "/assets/") := by with_unfolding_all decide
  exact sentPath_of_whole (List.forall_mem_append.mpr ⟨hassets, sentWhole_replaceName _ h⟩)

end Content
end QuakeKube
