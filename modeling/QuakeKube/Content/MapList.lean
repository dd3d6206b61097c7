/-
# The maps of the map packs

`GET /maps` opens every map pack below the assets directory
(`internal/quake/content/maps.go`). It lists their maps if each of them can be
read, and one that cannot takes the whole list away, in every state a server
reaches (`maps_reached`). A map's pack is named after its last two path elements:
the name that the manifest has for it where the pack lies one directory down, and
nowhere else (`map_file_iff`).

Key definitions: `Readable`, `ListsMaps`.
Key theorems: `mapsOf_cases`, `maps_reached`, `map_file_iff`.
-/
import QuakeKube.Content.Serving

namespace QuakeKube
namespace Content

open Go Loc Store

/-- A map pack that can be opened. -/
def Readable (R : Readers) (data : Bytes) : Prop := ∃ files, R.zip data = .ok files

def packExts : List Text := [txt ".pk3"]

/-- The maps of the packs that are held. -/
def ListsMaps (R : Readers) (assetsDir : Text) (fs : FileSystem) (maps : List Map) : Prop :=
  ∀ m, m ∈ maps ↔ ∃ ns data files, fs.contents (fs.place assetsDir ++ ns) = some data ∧
    hasExts (relative ns) packExts = true ∧ R.zip data = .ok files ∧
      m ∈ packMaps (filePath assetsDir ns) files

section Maps

variable {R : Readers} {F : Faults} {walkError : Text → Text} {assetsDir : Text} {fs : FileSystem}

/-- All packs are read, or one cannot be. -/
theorem mapsOf_cases (R : Readers) (vs : List (Text × Bytes)) :
    ((∀ v ∈ vs, Readable R v.2) ∧ ∃ maps, mapsOf R vs = .ok maps ∧
      ∀ m, m ∈ maps ↔ ∃ v ∈ vs, ∃ files, R.zip v.2 = .ok files ∧ m ∈ packMaps v.1 files) ∨
    ((∃ v ∈ vs, ¬ Readable R v.2) ∧ ∃ err, mapsOf R vs = .error err) := by
  induction vs with
  | nil => exact .inl ⟨by simp, [], rfl, by simp⟩
  | cons v vs ih =>
    obtain ⟨path, data⟩ := v
    cases hz : R.zip data with
    | error err =>
      refine .inr ⟨⟨_, List.mem_cons_self, ?_⟩, _, by rw [mapsOf, hz]⟩
      rintro ⟨files, hf⟩
      rw [hz] at hf
      cases hf
    | ok files =>
      rcases ih with ⟨hread, maps, hm, hmem⟩ | ⟨⟨v, hv, hn⟩, err, he⟩
      · refine .inl ⟨List.forall_mem_cons.mpr ⟨⟨files, hz⟩, hread⟩, packMaps path files ++ maps, ?_,
        fun m => ?_⟩
        · rw [mapsOf, hz, hm]
          rfl
        · rw [List.mem_append, hmem]
          constructor
          · rintro (h | ⟨v, hv, h⟩)
            · exact ⟨_, List.mem_cons_self, files, hz, h⟩
            · exact ⟨v, List.mem_cons_of_mem _ hv, h⟩
          · rintro ⟨v, hv, files', hz', h⟩
            rcases List.mem_cons.mp hv with rfl | hv
            · rw [hz] at hz'
              cases hz'
              exact .inl h
            · exact .inr ⟨v, hv, files', hz', h⟩
      · refine .inr ⟨⟨v, List.mem_cons_of_mem _ hv, hn⟩, err, ?_⟩
        rw [mapsOf, hz, he]
        rfl

/-- The packs that are walked are those that are held. -/
theorem mem_walk_packs (hne : assetsDir ≠ []) {es : Entries}
    (hn : fs.root.find (fs.place assetsDir) = some (.dir es)) (hd : es.Distinct) (v : Text × Bytes) :
    v ∈ walk assetsDir (.dir es) packExts ↔ ∃ ns, v.1 = filePath assetsDir ns ∧
      fs.contents (fs.place assetsDir ++ ns) = some v.2 ∧ hasExts (relative ns) packExts = true := by
  have hslash : ∀ e ∈ packExts, '/' ∉ e := by simp [packExts, txt]
  obtain ⟨p, data⟩ := v
  rw [walk_eq_files hne, List.mem_filter, List.mem_map]
  constructor
  · rintro ⟨⟨⟨ns, d⟩, hf, he⟩, hext⟩
    cases he
    rw [hasExts_filePath_of_noSlash hslash _ (ne_nil_of_mem_files hf)] at hext
    exact ⟨ns, rfl, (mem_files_contents hn hd ns d).mp hf, hext⟩
  · rintro ⟨ns, rfl, hheld, hext⟩
    have hf := (mem_files_contents hn hd ns data).mpr hheld
    have hpath := (hasExts_filePath_of_noSlash hslash assetsDir (ne_nil_of_mem_files hf)).trans hext
    exact ⟨⟨(ns, data), hf, rfl⟩, hpath⟩

/-- **The maps are listed if and only if every map pack that is held can be read**,
in every state a server reaches; the list has the maps of these packs, and no others. -/
theorem maps_reached (h : Standing assetsDir fs) (hne : assetsDir ≠ []) (reqs : List Request) :
    ((∃ maps, (handle R F walkError assetsDir (run R F walkError assetsDir fs reqs) .maps).1 =
      .json (mapsBody maps)) ↔
      ∀ ns data, (run R F walkError assetsDir fs reqs).contents (fs.place assetsDir ++ ns) = some data →
        hasExts (relative ns) packExts = true → Readable R data) ∧
    ∀ body, (handle R F walkError assetsDir (run R F walkError assetsDir fs reqs) .maps).1 = .json body →
      ∃ maps, body = mapsBody maps ∧ ListsMaps R assetsDir (run R F walkError assetsDir fs reqs) maps := by
  have hcwd : (run R F walkError assetsDir fs reqs).cwd = fs.cwd := (run_writes fs reqs).1
  have hstand : Standing assetsDir (run R F walkError assetsDir fs reqs) := run_standing h reqs
  set fs₁ := run R F walkError assetsDir fs reqs with hfs₁
  obtain ⟨es, hw, hn, hd⟩ := hstand.walked hne
  have hmem := mem_walk_packs hne hn hd
  rw [← place_congr hcwd]
  have hok : ∀ maps, mapsOf R (walk assetsDir (.dir es) packExts) = .ok maps →
      (handle R F walkError assetsDir fs₁ .maps).1 = .json (mapsBody maps) := by
    intro maps hm
    rw [packExts] at hm
    simp only [handle, handleMaps, hw, getMaps, hm]
  have hfailed : ∀ err, mapsOf R (walk assetsDir (.dir es) packExts) = .error err →
      (handle R F walkError assetsDir fs₁ .maps).1 = .failed (txt "failed to get maps: " ++ err) := by
    intro err hm
    rw [packExts] at hm
    simp only [handle, handleMaps, hw, getMaps, hm]
  rcases mapsOf_cases R (walk assetsDir (.dir es) packExts) with
    ⟨hread, maps, hm, hl⟩ | ⟨⟨v, hv, hbad⟩, err, he⟩
  · have hanswer := hok maps hm
    refine ⟨⟨fun _ ns data hheld hext => ?_, fun _ => ⟨maps, hanswer⟩⟩,
      fun body hb => ⟨maps, ?_, fun m => ?_⟩⟩
    · exact hread (filePath assetsDir ns, data) ((hmem _).mpr ⟨ns, rfl, hheld, hext⟩)
    · rw [hanswer] at hb
      exact (Response.json.inj hb).symm
    · rw [hl]
      constructor
      · rintro ⟨v, hv, files, hz, hmap⟩
        obtain ⟨ns, hp, hheld, hext⟩ := (hmem v).mp hv
        exact ⟨ns, v.2, files, hheld, hext, hz, hp ▸ hmap⟩
      · rintro ⟨ns, data, files, hheld, hext, hz, hmap⟩
        exact ⟨(filePath assetsDir ns, data), (hmem _).mpr ⟨ns, rfl, hheld, hext⟩, files, hz, hmap⟩
  · have hanswer := hfailed err he
    obtain ⟨ns, -, hheld, hext⟩ := (hmem v).mp hv
    refine ⟨⟨?_, fun hall => absurd (hall ns v.2 hheld hext) hbad⟩, fun body hb => ?_⟩
    · rintro ⟨maps, hmaps⟩
      rw [hanswer] at hmaps
      cases hmaps
    · rw [hanswer] at hb
      cases hb

/-- Readers that find one map in every pack. -/
def oneMap : Readers := { noArchives with zip := fun _ => .ok [⟨txt "maps/q3dm1.bsp", .error []⟩] }

open Pak OnePack in
theorem maps_reached_onePack :
    let fs := run oneMap noFaults id dir server [.manifest]
    ∃ maps, (handle oneMap noFaults id dir fs .maps).1 = .json (mapsBody maps) ∧
      ListsMaps oneMap dir fs maps ∧ ⟨txt "assets/pak0.pk3", txt "q3dm1"⟩ ∈ maps := by
  intro fs
  have hdir : Pak.dir ≠ [] := by with_unfolding_all decide
  obtain ⟨hiff, hlists⟩ := @maps_reached oneMap noFaults id dir server ready hdir [.manifest]
  obtain ⟨_, hanswer⟩ := hiff.mpr fun _ _ _ _ => ⟨_, rfl⟩
  obtain ⟨maps, hbody, hmaps⟩ := hlists _ hanswer
  have hheld : fs.contents (fs.place dir ++ [pak0]) = some [] := by with_unfolding_all decide
  have hmap : (⟨txt "assets/pak0.pk3", txt "q3dm1"⟩ : Map) ∈
      packMaps (filePath dir [pak0]) [⟨txt "maps/q3dm1.bsp", .error []⟩] := by with_unfolding_all decide
  refine ⟨maps, hanswer.trans (congrArg _ hbody), hmaps, (hmaps _).mpr ?_⟩
  exact ⟨[pak0], [], _, hheld, by with_unfolding_all decide, rfl, hmap⟩

/-! ### The pack of a map -/

theorem base_render_enter (D : Loc) (n : Name) : base (D.enter [n]).render = n.val := by
  by_cases hs : D.segments = []
  · rcases eq_of_segments_nil hs with rfl | rfl
    · rw [render_root_enter, relative_singleton]
      exact base_append_slash [] n.property.2.2.2 n.property.1
    · rw [render_here_enter (List.cons_ne_nil _ _), relative_singleton]
      exact base_of_noSlash n.property.2.2.2 n.property.1
  · rw [render_enter hs (List.cons_ne_nil _ _), relative_singleton]
    exact base_append_slash _ n.property.2.2.2 n.property.1

/-- The pack a map is listed with. -/
theorem packMaps_file {path : Text} {files : List ZipFile} {m : Map} (h : m ∈ packMaps path files) :
    m.file = join [base (Go.dir path), base path] := by
  obtain ⟨f, -, rfl⟩ := List.mem_map.mp h
  rfl

theorem join_names (g n : Name) : join [g.val, n.val] = relative [g, n] := by
  have hg : locate g.val = here.enter [g] := by
    rw [locate, start_of_noSlash g.property.2.2.2, moves_of_noSlash g.property.2.2.2, move_name]
    rfl
  have hn : moves n.val = [n].map .into := by
    rw [moves_of_noSlash n.property.2.2.2, move_name]
    rfl
  rw [join_eq_render g.property.1, List.flatMap_singleton, hg, hn, walk_into, enter_enter]
  exact render_here_enter (List.cons_ne_nil _ _)

/-- The last two names of a pack's path. -/
theorem pack_file {ks : List Name} {g n : Name} {path : Text}
    (h : path = (root.enter (ks ++ [g, n])).render) :
    join [base (Go.dir path), base path] = relative [g, n] := by
  have hpath : path = (((root.enter ks).enter [g]).enter [n]).render := by
    rw [h, enter_enter, enter_enter]
    rfl
  rw [hpath, dir_render_enter, base_render_enter, base_render_enter, join_names]

/-- In the root itself a pack's path is kept as it is. -/
theorem pack_file_root (n : Name) :
    join [base (Go.dir (root.enter [n]).render), base (root.enter [n]).render] = (root.enter [n]).render := by
  have hbase : base root.render = ['/'] := by with_unfolding_all decide
  have hroot : locate ['/'] = root := by with_unfolding_all decide
  have hn : moves n.val = [n].map .into := by
    rw [moves_of_noSlash n.property.2.2.2, move_name]
    rfl
  rw [dir_render_enter, base_render_enter, hbase, join_eq_render (List.cons_ne_nil _ _),
    List.flatMap_singleton, hroot, hn, walk_into]

/-- **A map's pack is named as in the manifest if and only if** it lies one directory
below a directory that is spelled in its shortest form, or in the root itself. -/
theorem map_file_iff (habs : assetsDir.head? = some '/') {ns : List Name} (hns : ns ≠ []) (data : Bytes)
    {files : List ZipFile} {m : Map} (hm : m ∈ packMaps (filePath assetsDir ns) files) :
    m.file = (assetFile assetsDir (filePath assetsDir ns, data)).name ↔
      (locate assetsDir = root ∧ ns.length = 1) ∨
        (locate assetsDir ≠ root ∧ clean assetsDir = assetsDir ∧ ns.length = 2) := by
  have hfile : m.file = join [base (Go.dir (filePath assetsDir ns)), base (filePath assetsDir ns)] :=
    packMaps_file hm
  have hclean : assetsDir = ['/'] → locate assetsDir = root := by
    rintro rfl
    with_unfolding_all decide
  -- two names of the path are no path from the root
  have hne : ∀ g n : Name, relative [g, n] ≠ filePath assetsDir ns := fun g n he =>
    relative_head_ne (List.cons_ne_nil g [n]) (he ▸ filePath_head habs ns)
  by_cases hroot : locate assetsDir = root
  · have hspelled : ¬ (clean assetsDir = assetsDir ∧ assetsDir ≠ ['/']) := by
      rintro ⟨hc, hr⟩
      apply hr
      rw [← hc, clean, hroot]
      rfl
    have hname : (assetFile assetsDir (filePath assetsDir ns, data)).name = filePath assetsDir ns :=
      assetFile_name_path (f := (ns, data)) habs hspelled hns
    have hpath : filePath assetsDir ns = (root.enter ns).render := by rw [filePath, hroot]
    have honly : m.file = filePath assetsDir ns ↔ ns.length = 1 := by
      obtain ⟨ks, n, rfl⟩ := (List.eq_nil_or_concat ns).resolve_left hns
      rcases List.eq_nil_or_concat ks with rfl | ⟨ks, g, rfl⟩
      · refine iff_of_true ?_ rfl
        rw [hfile, hpath]
        exact pack_file_root n
      · refine iff_of_false ?_ (by simp)
        have hlast : filePath assetsDir ((ks.concat g).concat n) = (root.enter (ks ++ [g, n])).render := by
          rw [hpath, List.concat_eq_append, List.concat_append]
        rw [hfile, pack_file hlast]
        exact hne g n
    rw [hname, honly]
    simp [hroot]
  · have hnames : (locate assetsDir).names ≠ [] := by
      intro hn
      apply hroot
      rw [locate_absolute habs, hn]
      rfl
    -- the path has two names at least
    have hall : ∃ ks g n, (locate assetsDir).names ++ ns = ks ++ [g, n] := by
      obtain ⟨ms, d, hd⟩ := (List.eq_nil_or_concat _).resolve_left hnames
      obtain ⟨ks, n, hn⟩ := (List.eq_nil_or_concat ns).resolve_left hns
      rcases List.eq_nil_or_concat ks with rfl | ⟨ks, g, rfl⟩
      · exact ⟨ms, d, n, by rw [hd, hn]; simp⟩
      · exact ⟨(locate assetsDir).names ++ ks, g, n, by rw [hn]; simp⟩
    obtain ⟨ks, g, n, hall⟩ := hall
    have htwo : m.file = relative [g, n] := by
      rw [hfile]
      exact pack_file (by rw [filePath_absolute habs, hall])
    by_cases hc : clean assetsDir = assetsDir
    · have hname : (assetFile assetsDir (filePath assetsDir ns, data)).name = relative ns :=
        congrArg File.name (assetFile_eq_entry (f := (ns, data)) hc (fun h => hroot (hclean h)) hns)
      have hlength : relative [g, n] = relative ns ↔ ns.length = 2 := by
        constructor
        · intro h
          rw [← relative_inj (List.cons_ne_nil _ _) hns h]
          rfl
        · intro h
          rw [(List.append_inj_right' hall (by simpa using h)).symm]
      rw [htwo, hname, hlength]
      simp [hroot, hc]
    · have hname : (assetFile assetsDir (filePath assetsDir ns, data)).name = filePath assetsDir ns :=
        assetFile_name_path (f := (ns, data)) habs (fun h => hc h.1) hns
      rw [htwo, hname]
      exact iff_of_false (hne g n) (by simp [hroot, hc])

open Pak OnePack in
/-- In the assets directory itself the pack is not the one of the manifest; one directory down it is. -/
theorem map_file_iff_flat : txt "assets/pak0.pk3" ≠ (assetFile dir (filePath dir [pak0], [])).name ∧
    txt "baseq3/pak0.pk3" = (assetFile dir (filePath dir [baseq3, pak0], [])).name := by
  let files : List ZipFile := [⟨txt "maps/q3dm1.bsp", .error []⟩]
  have hflat : (⟨txt "assets/pak0.pk3", txt "q3dm1"⟩ : Map) ∈ packMaps (filePath dir [pak0]) files := by
    with_unfolding_all decide
  have hdown : (⟨txt "baseq3/pak0.pk3", txt "q3dm1"⟩ : Map) ∈ packMaps (filePath dir [baseq3, pak0]) files := by
    with_unfolding_all decide
  have habs : dir.head? = some '/' := by with_unfolding_all decide
  constructor
  · have hiff := map_file_iff habs (List.cons_ne_nil _ _) [] hflat
    exact fun h => absurd (hiff.mp h) (by with_unfolding_all decide)
  · exact (map_file_iff habs (List.cons_ne_nil _ _) [] hdown).mpr (.inr (by with_unfolding_all decide))

end Maps

end Content
end QuakeKube
