/-
# Seeding a content server from another one

`CopyAssets` (`internal/quake/content/download.go`) asks for a manifest entry
`f` under `/assets/<checksum>-<name>`, the checksum before the whole name. The
server that answers cuts the checksum off the last segment of the path
(`trimAssetName`), as the game client writes it. The two agree on the files
that lie directly in the assets directory, and on no others
(`serve_assetURL_iff`).
-/
import QuakeKube.Content.Router

namespace QuakeKube
namespace Content

open Go Loc

/-- The URL path `CopyAssets` requests for an entry of the manifest. -/
def assetURL (f : File) : Text :=
  txt "/assets/" ++ natText f.checksum.toNat ++ txt "-" ++ f.name

/-- The path of a request, as the router sees it: the URL's text up to a query
or a fragment. Without a `%` nothing is unescaped. -/
def requestPath (url : Text) : Text := url.takeWhile fun c => c ≠ '?' ∧ c ≠ '#'

/-- The path of the file a server with assets directory `assetsDir` answers a
request with; none when another route answers. -/
def serve (assetsDir url : Text) : Option Text :=
  match route (requestPath url) with
  | some (.asset param) => some (assetPath assetsDir param)
  | _ => none

/-- No character of a name has a meaning of its own in a URL. -/
def PlainURL (s : Text) : Prop := ∀ c ∈ s, c ≠ '%' ∧ c ≠ '?' ∧ c ≠ '#'

instance (s : Text) : Decidable (PlainURL s) := by unfold PlainURL; infer_instance

theorem assetPath_eq_render {assetsDir : Text} (hd : assetsDir ≠ []) (param : Text) :
    assetPath assetsDir param =
      (((locate assetsDir).climb (requested param).ups).enter (requested param).names).render := by
  rw [assetPath, join_eq_render hd, List.flatMap_singleton, walk_trimAssetName]

/-! ### The wildcard of a manifest entry -/

theorem PlainURL.append {s t : Text} (hs : PlainURL s) (ht : PlainURL t) : PlainURL (s ++ t) :=
  List.forall_mem_append.mpr ⟨hs, ht⟩

theorem plainURL_assets : PlainURL (txt "/assets/") := by with_unfolding_all decide

theorem plainURL_checksum (n : ℕ) : PlainURL (natText n ++ ['-']) := by
  refine PlainURL.append (fun c hc => ?_) (by decide)
  have hd := isDigit_of_mem_natText hc
  exact ⟨ne_of_test hd rfl, ne_of_test hd rfl, ne_of_test hd rfl⟩

theorem requestPath_of_plain {url : Text} (h : PlainURL url) : requestPath url = url :=
  List.takeWhile_eq_self_iff.mpr fun c hc => decide_eq_true (h c hc).2

/-- The name of the manifest has no dash. -/
theorem route_asset {s : Text} (h : '-' ∈ s) : route (txt "/assets/" ++ s) = some (.asset s) := by
  have hm : txt "/assets/manifest.json" = txt "/assets/" ++ txt "manifest.json" := by with_unfolding_all decide
  have hne : txt "/assets/" ++ s ≠ txt "/assets/manifest.json" := by
    rw [hm, Ne, List.append_cancel_left_eq]
    rintro rfl
    exact absurd h (by with_unfolding_all decide)
  have hp : hasPrefix (txt "/assets/" ++ s) (txt "/assets/") = true := decide_eq_true (List.prefix_append _ _)
  rw [route, if_neg hne, if_pos hp, List.drop_left]

theorem assetURL_eq (f : File) :
    assetURL f = txt "/assets/" ++ (natText f.checksum.toNat ++ '-' :: f.name) := by
  simp [assetURL, txt_eq]

theorem route_assetURL (f : File) :
    route (assetURL f) = some (.asset (natText f.checksum.toNat ++ '-' :: f.name)) := by
  rw [assetURL_eq]
  exact route_asset (List.mem_append_right _ List.mem_cons_self)

theorem requestPath_assetURL {f : File} (h : PlainURL f.name) : requestPath (assetURL f) = assetURL f := by
  have hu := plainURL_assets.append ((plainURL_checksum f.checksum.toNat).append h)
  rw [List.append_assoc, List.singleton_append, ← assetURL_eq] at hu
  exact requestPath_of_plain hu

theorem serve_assetURL {assetsDir : Text} (hd : assetsDir ≠ []) {f : File} (h : PlainURL f.name) :
    serve assetsDir (assetURL f) = some (((locate assetsDir).climb
      (requested (natText f.checksum.toNat ++ '-' :: f.name)).ups).enter
        (requested (natText f.checksum.toNat ++ '-' :: f.name)).names).render := by
  rw [serve, requestPath_assetURL h, route_assetURL]
  exact congrArg some (assetPath_eq_render hd _)

/-- A checksum, a dash and a text without a slash make a name. -/
theorem isName_checksum (n : ℕ) {a : Text} (ha : '/' ∉ a) : IsName (natText n ++ '-' :: a) := by
  have hd : '-' ∈ natText n ++ '-' :: a := by simp
  refine ⟨by simp, ?_, ?_, ?_⟩
  · intro h; rw [h] at hd; exact absurd hd (by decide)
  · intro h; rw [h] at hd; exact absurd hd (by decide)
  · simp [natText_not_mem (n := n) (c := '/') rfl, ha]

/-- In a directory's file the checksum is cut off. -/
theorem requested_file (k : ℕ) (n : Name) : requested (natText k ++ '-' :: n.val) = here.enter [n] := by
  have hs : '/' ∉ natText k ++ '-' :: n.val := (isName_checksum k n.property.2.2.2).2.2.2
  rw [requested, start_of_noSlash hs, requestMoves_of_noSlash hs,
    afterDash_append (natText_not_mem rfl), moves_of_noSlash n.property.2.2.2, move_name]
  rfl

theorem relative_concat {ns : List Name} (h : ns ≠ []) (n : Name) :
    relative (ns ++ [n]) = relative ns ++ '/' :: n.val := by
  have hm : ns.map Subtype.val ≠ [] := by simpa only [ne_eq, List.map_eq_nil_iff] using h
  rw [relative, List.map_append, intercalate_append hm (by simp)]
  simp [relative]

/-- Further down only the file's own name is cut: the first segment keeps the
checksum. -/
theorem requested_below {x l y : Name} {ns : List Name} (hy : afterDash l.val = y.val) :
    requested (relative (x :: ns ++ [l])) = here.enter (x :: ns ++ [y]) := by
  have hne : x :: ns ≠ [] := List.cons_ne_nil _ _
  have hst : start (relative (x :: ns) ++ '/' :: l.val) = here := by
    obtain ⟨n, t, hn, -⟩ := relative_head hne
    rw [hn, List.append_assoc, start_append n.property.1, start_of_noSlash n.property.2.2.2]
  have hy' : moves y.val = [.into y] := by rw [moves_of_noSlash y.property.2.2.2, move_name]
  calc requested (relative (x :: ns ++ [l])) = requested (relative (x :: ns) ++ '/' :: l.val) := by
        rw [relative_concat hne]
    _ = here.walk (moves (relative (x :: ns)) ++ moves (afterDash l.val)) := by
        rw [requested, hst, requestMoves_append_slash _ l.property.2.2.2]
    _ = (here.enter (x :: ns)).walk [.into y] := by
        rw [hy, hy', moves_relative hne, walk_append, walk_into]
    _ = here.enter (x :: ns ++ [y]) := enter_enter here (x :: ns) [y]

/-! ### The extension survives the cut -/

/-- A suffix without a dash survives the cut at the first dash. -/
theorem suffix_afterDash {e f : Text} (he : '-' ∉ e) (h : e <:+ f) : e <:+ afterDash f := by
  obtain ⟨a, rfl⟩ := h
  by_cases ha : '-' ∈ a
  · obtain ⟨b, c, rfl, hb⟩ := List.eq_append_cons_of_mem ha
    rw [List.append_assoc, List.cons_append, afterDash_append hb]
    exact List.suffix_append c e
  · rw [afterDash_of_not_mem (by simp [ha, he])]
    exact List.suffix_append a e

/-- The extensions of assets have no slash and no dash, and end no segment
that leads nowhere or up. -/
theorem asset_ext {p : Text} (h : hasExts p assetExts = true) :
    ∃ e, e <:+ p ∧ '/' ∉ e ∧ '-' ∉ e ∧ 3 ≤ e.length := by
  have hall : ∀ e ∈ assetExts, '/' ∉ e ∧ '-' ∉ e ∧ 3 ≤ e.length := by with_unfolding_all decide
  obtain ⟨e, he, hs⟩ := List.any_eq_true.mp h
  exact ⟨e, of_decide_eq_true hs, hall e he⟩

/-- What the cut leaves of the last name of an asset's path is a name. -/
theorem isName_afterDash {a : Text} {l : Name} (h : hasExts (a ++ '/' :: l.val) assetExts = true) :
    IsName (afterDash l.val) := by
  obtain ⟨e, hs, hslash, hdash, hlen⟩ := asset_ext h
  have hle := (suffix_afterDash hdash (suffix_of_append_slash hslash hs)).length_le
  have hne : ∀ s : Text, s.length < 3 → afterDash l.val ≠ s := by
    rintro s hs rfl
    omega
  exact ⟨hne _ (by decide), hne _ (by decide), hne _ (by decide), afterDash_noSlash l.property.2.2.2⟩

theorem slash_relative {ms : List Name} (h : ms ≠ []) :
    ∃ a, '/' :: relative ms = a ++ '/' :: (ms.getLast h).val := by
  conv => enter [1, a, 1]; rw [← List.dropLast_append_getLast h]
  by_cases hd : ms.dropLast = []
  · exact ⟨[], by rw [hd, List.nil_append, relative_singleton]; rfl⟩
  · exact ⟨'/' :: relative ms.dropLast, by rw [relative_concat hd]; rfl⟩

/-- Below a place's entry the path goes on with a slash. -/
theorem render_enter_cons (D : Loc) (n : Name) {ms : List Name} (h : ms ≠ []) :
    ∃ b, (D.enter (n :: ms)).render = b ++ '/' :: relative ms := by
  have hc : n :: ms ≠ [] := List.cons_ne_nil _ _
  by_cases hs : D.segments = []
  · rcases eq_of_segments_nil hs with rfl | rfl
    · exact ⟨'/' :: n.val, by rw [render_root_enter, relative_cons n h]; rfl⟩
    · exact ⟨n.val, by rw [render_here_enter hc, relative_cons n h]⟩
  · exact ⟨D.render ++ '/' :: n.val, by rw [render_enter hs hc, relative_cons n h]; simp⟩

/-- Further down than the directory itself the request never leads to the file. -/
theorem requested_relative_ne {x : Name} {ms ns : List Name} (hm : ms ≠ [])
    (hext : ∃ a, hasExts (a ++ '/' :: (ms.getLast hm).val) assetExts = true)
    (hns : ns = ms ∨ ∃ n : Name, n ≠ x ∧ ns = n :: ms) :
    (requested (relative (x :: ms))).ups = 0 ∧ (requested (relative (x :: ms))).names ≠ ns := by
  obtain ⟨a, ha⟩ := hext
  have hr := @requested_below x (ms.getLast hm) ⟨_, isName_afterDash ha⟩ ms.dropLast rfl
  rw [List.cons_append, List.dropLast_append_getLast] at hr
  rw [hr]
  refine ⟨rfl, fun h => ?_⟩
  have hlen : ms.dropLast.length + 1 = ms.length := by
    have := List.length_pos_iff.mpr hm
    rw [List.length_dropLast]
    omega
  rcases hns with rfl | ⟨n, hne, rfl⟩
  · have := congrArg List.length h
    simp only [enter_names, here, List.nil_append, List.length_cons, List.length_append] at this
    omega
  · simp only [enter_names, here, List.nil_append, List.cons.injEq, List.cons_append] at h
    exact hne h.1.symm

/-- Below the root, where every name starts with the slash, no request leads to the file. -/
theorem requested_root_ne (k : ℕ) {ns : List Name} (hns : ns ≠ [])
    (hext : hasExts (root.enter ns).render assetExts = true) :
    (requested (natText k ++ '-' :: '/' :: relative ns)).ups = 0 ∧
      (requested (natText k ++ '-' :: '/' :: relative ns)).names ≠ ns := by
  let x : Name := ⟨natText k ++ ['-'], isName_checksum k (a := []) (by simp)⟩
  have hx : natText k ++ '-' :: '/' :: relative ns = relative (x :: ns) := by
    rw [relative_cons x hns]
    simp [x]
  obtain ⟨a, ha⟩ := slash_relative hns
  rw [render_root_enter, ha] at hext
  rw [hx]
  exact requested_relative_ne hns ⟨a, hext⟩ (.inl rfl)

/-- Nor does one below a directory's entry. -/
theorem requested_entry_ne (k : ℕ) {D : Loc} {n : Name} {ms : List Name} (hms : ms ≠ [])
    (hext : hasExts (D.enter (n :: ms)).render assetExts = true) :
    (requested (natText k ++ '-' :: relative (n :: ms))).ups = 0 ∧
      (requested (natText k ++ '-' :: relative (n :: ms))).names ≠ n :: ms := by
  let x : Name := ⟨natText k ++ '-' :: n.val, isName_checksum k n.property.2.2.2⟩
  have hx : natText k ++ '-' :: relative (n :: ms) = relative (x :: ms) := by
    rw [relative_cons n hms, relative_cons x hms]
    simp [x]
  have hnx : n ≠ x := by
    intro h
    have hlen := congrArg (fun m : Name => m.val.length) h
    simp only [x, List.length_append, List.length_cons] at hlen
    omega
  obtain ⟨b, hb⟩ := render_enter_cons D n hms
  obtain ⟨a, ha⟩ := slash_relative hms
  rw [hb, ha, ← List.append_assoc] at hext
  rw [hx]
  exact requested_relative_ne hms ⟨b ++ a, hext⟩ (.inr ⟨n, hnx, rfl⟩)

/-- A request that does not climb leads to the file it names. -/
theorem render_climb_iff (D : Loc) {R : Loc} (hu : R.ups = 0) (ns : List Name) :
    ((D.climb R.ups).enter R.names).render = (D.enter ns).render ↔ R.names = ns := by
  rw [hu, climb_zero]
  constructor
  · exact fun h => enter_inj.mp (render_inj h)
  · rintro rfl
    rfl

/-- **Which files can be fetched.** For every file a cleaned assets directory
lists, the request `CopyAssets` makes for its entry is answered with that very
file exactly when the entry's name has no slash. -/
theorem serve_assetURL_iff {assetsDir : Text} (hd : clean assetsDir = assetsDir) {es : Entries}
    {v : Text × Bytes} (hv : v ∈ walk assetsDir (.dir es) assetExts)
    (hurl : PlainURL (assetFile assetsDir v).name) :
    serve assetsDir (assetURL (assetFile assetsDir v)) = some v.1 ↔
      '/' ∉ (assetFile assetsDir v).name := by
  have hne : assetsDir ≠ [] := by rw [← hd]; exact render_ne_nil _
  obtain ⟨hext, ns, hns, hp⟩ := mem_walk hne hv
  set D := locate assetsDir with hD
  have hdir : assetsDir = D.render := hd.symm
  obtain ⟨p, data⟩ := v
  simp only at hp hext
  have hname : (assetFile assetsDir (p, data)).name = if D = root then '/' :: relative ns else relative ns := by
    rw [hp, hdir]
    exact assetFile_name D hns data
  rw [serve_assetURL hne hurl, ← hD, Option.some_inj]
  generalize (assetFile assetsDir (p, data)).checksum.toNat = k
  generalize (assetFile assetsDir (p, data)).name = name at hname
  subst hp
  by_cases hroot : D = root
  · rw [if_pos hroot] at hname
    subst hname
    rw [hroot] at hext
    obtain ⟨h1, h2⟩ := requested_root_ne k hns hext
    rw [render_climb_iff D h1]
    simp [h2]
  · rw [if_neg hroot] at hname
    subst hname
    obtain ⟨n, ms, rfl⟩ := List.exists_cons_of_ne_nil hns
    by_cases hms : ms = []
    · -- a file of the directory itself
      subst hms
      have hr := requested_file k n
      rw [relative_singleton, render_climb_iff D (by rw [hr]; rfl), hr]
      simp [here, n.property.2.2.2]
    · obtain ⟨h1, h2⟩ := requested_entry_ne k hms hext
      rw [render_climb_iff D h1, relative_cons n hms]
      simp only [List.mem_append, List.mem_cons, true_or, or_true, not_true_eq_false, iff_false]
      rwa [relative_cons n hms] at h2

/-- An assets directory with one map pack. -/
def flatAssets : Entries := .cons ⟨txt "pak0.pk3", by with_unfolding_all decide⟩ (.file [80, 75]) .nil

/-- The same map pack in the game's directory. -/
def gameAssets : Entries := .cons ⟨txt "baseq3", by with_unfolding_all decide⟩ (.dir flatAssets) .nil

theorem serve_assetURL_flat :
    serve (txt "/assets") (assetURL (assetFile (txt "/assets") (txt "/assets/pak0.pk3", [80, 75]))) =
        some (txt "/assets/pak0.pk3") ↔
      '/' ∉ (assetFile (txt "/assets") (txt "/assets/pak0.pk3", [80, 75])).name :=
  have hv : (txt "/assets/pak0.pk3", [80, 75]) ∈ walk (txt "/assets") (.dir flatAssets) assetExts := by
    with_unfolding_all decide
  serve_assetURL_iff (by with_unfolding_all decide) hv (by with_unfolding_all decide)

/-- `baseq3/pak0.pk3` is listed, and its URL leads to a path with the checksum
still in it. -/
theorem serve_assetURL_misses :
    ¬ ∀ v ∈ walk (txt "/assets") (.dir gameAssets) assetExts, PlainURL (assetFile (txt "/assets") v).name →
      serve (txt "/assets") (assetURL (assetFile (txt "/assets") v)) = some v.1 := by
  intro h
  have := h (txt "/assets/baseq3/pak0.pk3", [80, 75]) (by with_unfolding_all decide)
    (by with_unfolding_all decide)
  exact absurd this (by decide +kernel)

end Content
end QuakeKube
