/-
# One request after the other

The handlers that run to their end (`handle`) and the requests that go step by step
(`Requests.step`) are two models of one server, and the paths of its uploads are modelled a
third time where they are cut together (`postMaps`).

All three create the same paths (`creates_posted`). An upload that is alone goes in steps to
where its handler comes in one, whatever fails on the way (`handlePost_goes`); so requests one
after the other are one of the ways in which requests side by side can go (`run_simulated`).

Key definitions: `Posted.upload`, `Requests.Quiet`, `Requests.Ends`, `Requests.Done`.
Key theorems: `creates_posted`, `storeFile_goes`, `handlePost_goes`, `run_simulated`.
-/
import QuakeKube.Content.Overlap

namespace QuakeKube
namespace Content

open Go Loc Store Run
open Pieces (Write Read)

/-! ### The paths of an upload -/

/-- The upload as the paths are cut together of it. -/
def Posted.upload (up : Posted) : Upload where
  filename := up.filename
  data := up.source.1
  archive := up.archive.map fun entries => entries.map fun f =>
    ⟨f.name, (f.opened.toOption.map Prod.fst).getD []⟩

theorem packFiles_names (entries : List PostedEntry) : (packFiles entries).map Prod.fst =
    (paks (entries.map fun f => ⟨f.name, (f.opened.toOption.map Prod.fst).getD []⟩)).map
      fun f => base f.name := by
  rw [packFiles, paks, List.filter_map, List.map_map, List.map_map]
  rfl

theorem files_names (up : Posted) : up.files.map Prod.fst = uploadNames up.upload := by
  unfold Posted.files uploadNames
  by_cases hz : hasExts up.filename [txt ".zip"] = true
  · have hz' : hasExts up.upload.filename [txt ".zip"] = true := hz
    rw [if_pos hz, if_pos hz', Posted.upload]
    cases up.archive with
    | error err => rfl
    | ok entries => exact packFiles_names entries
  · have hz' : ¬ hasExts up.upload.filename [txt ".zip"] = true := hz
    rw [if_neg hz, if_neg hz']
    rfl

/-- **What an upload is to store** goes to the places of the paths that the router's handler
creates where nothing fails, in their order. -/
theorem creates_posted (assetsDir name : Text) (cwd : List Name) (up : Posted) :
    (placed assetsDir name cwd up.files).map Prod.fst =
      (postMaps willing assetsDir name up.upload).creates.map fun path => absolute cwd (locate path) := by
  rw [postMaps_willing, ← files_names, placed, List.map_map, List.map_map, List.map_map]
  rfl

section Alone

variable {F : Faults} {assetsDir name : Text} {fs : FileSystem} {s t : Requests} {i : ℕ}
  {files rest : List (List Name × Bytes)} {p : List Name} {v : Bytes} {root root' : Node} {q : Posting}

/-! ### An upload alone -/

/-- No request but the upload `i` is at work on a file. -/
structure Requests.Quiet (s : Requests) (i : ℕ) : Prop where
  posts : ∀ j q, j ≠ i → s.posts j = some q → q.current = none
  gets : s.gets = fun _ => none

theorem Requests.Quiet.not_writing (h : s.Quiet i) (hi : s.posts i = some q) (hq : q.current = none)
    (p : List Name) : ¬ s.Writing p := by
  rintro ⟨j, q', w, hq', hw, -⟩
  by_cases hj : j = i
  · subst hj
    rw [← Option.some.inj (hi.symm.trans hq'), hq] at hw
    cases hw
  · rw [h.posts j q' hj hq'] at hw
    cases hw

theorem Requests.Quiet.not_reading (h : s.Quiet i) (p : List Name) : ¬ s.Reading p := by
  rintro ⟨j, r, hr, -⟩
  rw [h.gets] at hr
  cases hr

theorem Requests.Quiet.update (h : s.Quiet i) (hposts : t.posts = Function.update s.posts i (some q))
    (hgets : t.gets = s.gets) : t.Quiet i where
  posts j q' hj hq' := by
    rw [hposts, Function.update_of_ne hj] at hq'
    exact h.posts j q' hj hq'
  gets := hgets.trans h.gets

theorem goes_nowhere (hi : s.posts i = some q) : s.Goes assetsDir fs.cwd i s.root q [] := by
  refine ⟨s, .start rfl, rfl, ?_, rfl, (List.append_nil _).symm⟩
  rw [← hi, Function.update_eq_self]

/-- The bytes of a file that has just been created, or the first of them. -/
theorem goes_written (hi : s.posts i = some ⟨files, rest, some ⟨p, v, 0⟩, none⟩)
    (hempty : s.root.writeFile [] p = some s.root) {k : ℕ} (hroot : s.root.writeFile (v.take k) p = some root) :
    s.Goes assetsDir fs.cwd i root ⟨files, rest, some ⟨p, v, (v.take k).length⟩, none⟩ [] := by
  by_cases hk : v.take k = []
  · -- nothing is written
    rw [hk, hempty] at hroot
    obtain rfl := Option.some.inj hroot
    rw [hk]
    exact goes_nowhere hi
  · have hold : s.root.contents p = some [] :=
      Node.contents_eq_some.mpr (Node.stat_writeFile_self p hempty)
    have htake : v.take (v.take k).length = v.take k := by
      rw [List.length_take, ← List.take_eq_take_min]
    refine goes_write hi hold (List.length_pos_iff.mpr hk) (by rw [List.length_take]; omega) ?_
    rwa [htake, List.drop_nil, List.append_nil]

/-- **One file**: it is stored as the handler stores it, or the upload fails with what the handler
has left. -/
theorem storeFile_goes (path : Text) (source : Bytes × Option Text) (hs : s.Quiet i)
    (hroot : s.root = fs.root)
    (hi : s.posts i = some ⟨files, (fs.place path, source.1) :: rest, none, none⟩) :
    ((storeFile F path source fs).1 = none ∧
      s.Goes assetsDir fs.cwd i (storeFile F path source fs).2.root ⟨files, rest, none, none⟩
        [(fs.place path, source.1)]) ∨
    ((storeFile F path source fs).1 ≠ none ∧ ∃ rest' more,
      s.Goes assetsDir fs.cwd i (storeFile F path source fs).2.root ⟨files, rest', none, some .failed⟩ more) := by
  have hw := hs.not_writing hi rfl (fs.place path)
  have hr := hs.not_reading (fs.place path)
  -- the file's own steps, up to where it fails
  have hfail : ∀ {current : Option (Write (List Name) UInt8)} {root : Node},
      s.Goes assetsDir fs.cwd i root ⟨files, rest, current, none⟩ [] →
      ∃ rest' more, s.Goes assetsDir fs.cwd i root ⟨files, rest', none, some .failed⟩ more := by
    intro current root h
    refine ⟨rest, [] ++ (current.map Write.soFar).toList, h.trans fun t ht hposts _ => ?_⟩
    rw [← ht]
    exact goes_fail (by rw [hposts, Function.update_self])
  rcases FileSystem.writeFile_cases F fs path [] with ⟨hn, -, hmade⟩ | ⟨hn, hmade⟩
  · obtain ⟨made, he⟩ : ∃ made, fs.writeFile F path [] = (none, made) := ⟨_, Prod.ext hn rfl⟩
    have hcwd : made.cwd = fs.cwd := by
      have h : (fs.writeFile F path []).2.cwd = fs.cwd := FileSystem.writeFile_cwd
      rwa [he] at h
    rw [he] at hmade
    have hcreate : s.Goes assetsDir fs.cwd i made.root
        ⟨files, rest, some ⟨fs.place path, source.1, 0⟩, none⟩ [] :=
      goes_create hi (hroot ▸ hmade) hw hr
    have hempty : made.root.writeFile [] (fs.place path) = some made.root :=
      (Node.writeFile_writeFile [] _ hmade).trans hmade
    have hwritten : ∀ {k root}, made.root.writeFile (source.1.take k) (fs.place path) = some root →
        s.Goes assetsDir fs.cwd i root
          ⟨files, rest, some ⟨fs.place path, source.1, (source.1.take k).length⟩, none⟩ [] := by
      intro k root h
      refine hcreate.trans fun t ht hposts _ => goes_written ?_ (ht ▸ hempty) (ht ▸ h)
      rw [hposts, Function.update_self]
    have hcopy := FileSystem.writeFile_cases F made path source.1
    rw [place_congr hcwd] at hcopy
    rcases hcopy with ⟨hn', -, hcopied⟩ | ⟨hn', hcopied⟩
    · obtain ⟨copied, he'⟩ : ∃ copied, made.writeFile F path source.1 = (none, copied) := ⟨_, Prod.ext hn' rfl⟩
      rw [he'] at hcopied
      have hwhole := hwritten (k := source.1.length) (by rwa [List.take_length])
      rw [List.take_length] at hwhole
      simp only [storeFile, he, he']
      cases hsource : source.2 with
      | some err => exact .inr ⟨by simp, hfail hwhole⟩
      | none =>
        refine .inl ⟨rfl, hwhole.trans fun t ht hposts _ => ?_⟩
        rw [← ht]
        exact goes_copied (by rw [hposts, Function.update_self])
    · obtain ⟨err, copied, he'⟩ : ∃ err copied, made.writeFile F path source.1 = (some err, copied) := by
        obtain ⟨err, herr⟩ := Option.ne_none_iff_exists'.mp hn'
        exact ⟨err, _, Prod.ext herr rfl⟩
      rw [he'] at hcopied
      simp only [storeFile, he, he']
      refine .inr ⟨Option.some_ne_none _, ?_⟩
      rcases hcopied with hsame | ⟨-, k, hpart⟩
      · rw [hsame]
        exact hfail hcreate
      · exact hfail (hwritten hpart)
  · obtain ⟨err, made, he⟩ : ∃ err made, fs.writeFile F path [] = (some err, made) := by
      obtain ⟨err, herr⟩ := Option.ne_none_iff_exists'.mp hn
      exact ⟨err, _, Prod.ext herr rfl⟩
    rw [he] at hmade
    simp only [storeFile, he]
    refine .inr ⟨Option.some_ne_none _, ?_⟩
    rcases hmade with hsame | ⟨-, k, hpart⟩
    · rw [hsame, ← hroot]
      exact ⟨_, _, goes_fail hi⟩
    · rw [List.take_nil, ← hroot] at hpart
      exact hfail (goes_create hi hpart hw hr)

/-- The upload `i` of some files comes in steps to the tree and to the kind of answer that its
handler comes to. -/
def Requests.Ends (s : Requests) (assetsDir : Text) (cwd : List Name) (i : ℕ)
    (files : List (List Name × Bytes)) (r : Response × FileSystem) : Prop :=
  ((∃ html, r.1 = .page html) ∧
    ∃ more, s.Goes assetsDir cwd i r.2.root ⟨files, [], none, some .page⟩ more) ∨
  ((∃ err, r.1 = .failed err) ∧
    ∃ rest more, s.Goes assetsDir cwd i r.2.root ⟨files, rest, none, some .failed⟩ more)

theorem Requests.Ends.exists {r : Response × FileSystem} (h : s.Ends assetsDir fs.cwd i files r) :
    ∃ t q, Reach (Requests.step assetsDir fs.cwd) (Exclusive assetsDir fs.cwd) (· = s) t ∧
      t.root = r.2.root ∧ t.posts = Function.update s.posts i (some q) ∧ t.gets = s.gets ∧
      q.files = files ∧ q.current = none ∧ (q.answer = some .page ↔ ∃ html, r.1 = .page html) := by
  rcases h with ⟨hpage, more, t, ht, hroot, hposts, hgets, -⟩ |
    ⟨⟨err, he⟩, rest, more, t, ht, hroot, hposts, hgets, -⟩
  · exact ⟨t, _, ht, hroot, hposts, hgets, rfl, rfl, iff_of_true rfl hpage⟩
  · refine ⟨t, _, ht, hroot, hposts, hgets, rfl, rfl, iff_of_false (by simp) ?_⟩
    rintro ⟨html, hp⟩
    cases he.symm.trans hp

theorem Requests.Goes.ends {more : List (List Name × Bytes)} {r : Response × FileSystem}
    (h : s.Goes assetsDir fs.cwd i root q more)
    (hnext : ∀ t : Requests, t.root = root → t.posts = Function.update s.posts i (some q) →
      t.gets = s.gets → t.Ends assetsDir fs.cwd i files r) : s.Ends assetsDir fs.cwd i files r := by
  obtain ⟨t, ht, hroot, hposts, hgets, hlog⟩ := h
  rcases hnext t hroot hposts hgets with ⟨hpage, more', ht'⟩ | ⟨hfail, rest', more', ht'⟩
  · exact .inl ⟨hpage, _, ht'.after ht hposts hgets hlog⟩
  · exact .inr ⟨hfail, _, _, ht'.after ht hposts hgets hlog⟩

/-- The loop over an archive's entries. -/
theorem storeEntries_goes (filename : Text) : ∀ (entries : List PostedEntry) (stored : List Text)
    {s : Requests} {fs : FileSystem}, s.Quiet i → s.root = fs.root →
    s.posts i = some ⟨files, placed assetsDir name fs.cwd (packFiles entries), none, none⟩ →
    s.Ends assetsDir fs.cwd i files (storeEntries F assetsDir name filename entries stored fs)
  | [], stored, s, fs, _, hroot, hi => by
    refine .inl ⟨⟨_, rfl⟩, [], ?_⟩
    rw [storeEntries, ← hroot]
    exact goes_answer hi
  | f :: entries, stored, s, fs, hs, hroot, hi => by
    rw [packFiles_cons] at hi
    unfold storeEntries
    by_cases hf : hasExts f.name [txt ".pk3"] = true
    · rw [if_pos hf] at hi ⊢
      cases ho : f.opened with
      | error err =>
        have hfail : s.Goes assetsDir fs.cwd i s.root _ _ := goes_fail hi
        exact .inr ⟨⟨_, rfl⟩, _, _, hroot ▸ hfail⟩
      | ok source =>
        rw [ho] at hi
        have hcwd := (storeFile_writes (F := F) (join [assetsDir, name, base f.name]) source fs).1
        dsimp only
        rcases storeFile_goes (F := F) (join [assetsDir, name, base f.name]) source hs hroot hi with
          ⟨hn, hfile⟩ | ⟨hn, rest', more, hfile⟩
        · obtain ⟨fs', he⟩ : ∃ fs', storeFile F (join [assetsDir, name, base f.name]) source fs = (none, fs') :=
            ⟨_, Prod.ext hn rfl⟩
          rw [he] at hfile hcwd
          simp only [he]
          refine hfile.ends fun t ht hposts hgets => ?_
          rw [← hcwd]
          refine storeEntries_goes filename entries _ (hs.update hposts hgets) ht ?_
          rw [hposts, Function.update_self, hcwd]
          rfl
        · obtain ⟨err, herr⟩ := Option.ne_none_iff_exists'.mp hn
          obtain ⟨fs', he⟩ : ∃ fs',
              storeFile F (join [assetsDir, name, base f.name]) source fs = (some err, fs') :=
            ⟨_, Prod.ext herr rfl⟩
          rw [he] at hfile
          simp only [he]
          exact .inr ⟨⟨err, rfl⟩, rest', more, hfile⟩
    · rw [if_neg hf] at hi ⊢
      exact storeEntries_goes filename entries stored hs hroot hi

/-- **An upload that is alone** comes in steps to where its handler comes in one. -/
theorem handlePost_goes (up : Posted) (hs : s.Quiet i) (hi : s.posts i = none) (hroot : s.root = fs.root) :
    s.Ends assetsDir fs.cwd i (placed assetsDir name fs.cwd up.files)
      (handlePost F assetsDir name (.ok (.ok up)) fs) := by
  have hpost : s.Goes assetsDir fs.cwd i s.root
      (.begun (placed assetsDir name fs.cwd up.files) up.readable) [] := by
    refine ⟨s.setPost i (.begun (placed assetsDir name fs.cwd up.files) up.readable),
      .next (.post i name up) (.start rfl) trivial ?_, rfl, rfl, rfl, (List.append_nil _).symm⟩
    simp only [Requests.step, hi]
  unfold handlePost
  dsimp only
  by_cases hz : hasExts up.filename [txt ".zip"] = true
  · rw [if_pos hz]
    cases ha : up.archive with
    | error err =>
      -- the archive cannot be read
      have hread : up.readable = false := by simp [Posted.readable, hz, ha, Except.toOption]
      rw [hread] at hpost
      exact .inr ⟨⟨_, rfl⟩, _, _, hroot ▸ hpost⟩
    | ok entries =>
      have hread : up.readable = true := by simp [Posted.readable, ha, Except.toOption]
      have hfiles : up.files = packFiles entries := by rw [Posted.files, if_pos hz, ha]
      rw [hread] at hpost
      refine hpost.ends fun t ht hposts hgets => ?_
      refine storeEntries_goes up.filename entries [] (hs.update hposts hgets) (ht.trans hroot) ?_
      rw [hposts, Function.update_self, hfiles]
      rfl
  · rw [if_neg hz]
    have hread : up.readable = true := by simp [Posted.readable, hz]
    have hfiles : up.files = [(up.filename, up.source.1)] := by rw [Posted.files, if_neg hz]
    rw [hread] at hpost
    refine hpost.ends fun t ht hposts hgets => ?_
    have htroot : t.root = fs.root := ht.trans hroot
    have hti : t.posts i = some ⟨placed assetsDir name fs.cwd up.files,
        [(fs.place (join [assetsDir, name, up.filename]), up.source.1)], none, none⟩ := by
      rw [hposts, Function.update_self, hfiles]
      rfl
    rcases storeFile_goes (F := F) (join [assetsDir, name, up.filename]) up.source
      (hs.update hposts hgets) htroot hti with ⟨hn, hfile⟩ | ⟨hn, rest', more, hfile⟩
    · obtain ⟨fs', he⟩ : ∃ fs', storeFile F (join [assetsDir, name, up.filename]) up.source fs = (none, fs') :=
        ⟨_, Prod.ext hn rfl⟩
      rw [he] at hfile
      simp only [he]
      refine hfile.ends fun t' ht' hposts' _ => .inl ⟨⟨_, rfl⟩, [], ?_⟩
      show t'.Goes assetsDir fs.cwd i fs'.root _ []
      rw [← ht']
      exact goes_answer (by rw [hposts', Function.update_self])
    · obtain ⟨err, herr⟩ := Option.ne_none_iff_exists'.mp hn
      obtain ⟨fs', he⟩ : ∃ fs',
          storeFile F (join [assetsDir, name, up.filename]) up.source fs = (some err, fs') :=
        ⟨_, Prod.ext herr rfl⟩
      rw [he] at hfile
      simp only [he]
      exact .inr ⟨⟨err, rfl⟩, rest', more, hfile⟩

end Alone

/-! ### Requests one after the other -/

section Runs

variable {R : Readers} {F : Faults} {walkError : Text → Text} {assetsDir : Text} {fs : FileSystem}
  {reqs : List Request} {req : Request} {s : Requests}

/-- None is under way, and each upload has ended with the page that its handler answers with,
or has failed. -/
structure Requests.Done (s : Requests) (R : Readers) (F : Faults) (walkError : Text → Text)
    (assetsDir : Text) (fs : FileSystem) (reqs : List Request) : Prop where
  root : s.root = (run R F walkError assetsDir fs reqs).root
  gets : s.gets = fun _ => none
  fresh : ∀ j, reqs.length ≤ j → s.posts j = none
  idle : ∀ j q, s.posts j = some q → q.current = none
  answered : ∀ j name up, reqs[j]? = some (.post name (.ok (.ok up))) → ∃ q, s.posts j = some q ∧
    q.files = placed assetsDir name fs.cwd up.files ∧ (q.answer = some .page ↔
      ∃ html, (handlePost F assetsDir name (.ok (.ok up))
        (run R F walkError assetsDir fs (reqs.take j))).1 = .page html)

theorem Requests.Done.quiet (h : s.Done R F walkError assetsDir fs reqs) (i : ℕ) : s.Quiet i :=
  ⟨fun j q _ => h.idle j q, h.gets⟩

/-- A request that is no upload. -/
theorem Requests.Done.append (h : s.Done R F walkError assetsDir fs reqs)
    (hreq : ∀ fs, (handle R F walkError assetsDir fs req).2 = fs)
    (hne : ∀ name up, req ≠ .post name (.ok (.ok up))) :
    s.Done R F walkError assetsDir fs (reqs ++ [req]) where
  root := by
    rw [h.root, run_append]
    exact congrArg FileSystem.root (hreq _).symm
  gets := h.gets
  fresh j hj := h.fresh j (by rw [List.length_append] at hj; omega)
  idle := h.idle
  answered j name up hj := by
    rcases Nat.lt_or_ge j reqs.length with hlt | hge
    · rw [List.getElem?_append_left hlt] at hj
      rw [List.take_append_of_le_length hlt.le]
      exact h.answered j name up hj
    · rw [List.getElem?_append_right hge] at hj
      exact absurd (List.mem_singleton.mp (List.mem_of_getElem? hj)).symm (hne name up)

/-- An upload takes the number of its place among the requests. -/
theorem Requests.Done.append_post (h : s.Done R F walkError assetsDir fs reqs) (name : Text) (up : Posted) :
    ∃ t, Reach (Requests.step assetsDir fs.cwd) (Exclusive assetsDir fs.cwd) (· = s) t ∧
      t.Done R F walkError assetsDir fs (reqs ++ [.post name (.ok (.ok up))]) := by
  set fs' := run R F walkError assetsDir fs reqs with hfs'
  have hcwd : fs'.cwd = fs.cwd := (run_writes fs reqs).1
  have hends : s.Ends assetsDir fs'.cwd reqs.length (placed assetsDir name fs'.cwd up.files)
      (handlePost F assetsDir name (.ok (.ok up)) fs') :=
    handlePost_goes up (h.quiet reqs.length) (h.fresh _ le_rfl) h.root
  rw [hcwd] at hends
  obtain ⟨t, q, ht, hroot, hposts, hgets, hfiles, hcurrent, hpage⟩ := hends.exists
  refine ⟨t, ht, ?_, hgets.trans h.gets, fun j hj => ?_, fun j q' hq' => ?_, fun j name' up' hj => ?_⟩
  · rw [hroot, run_append]
    rfl
  · rw [List.length_append, List.length_singleton] at hj
    rw [hposts, Function.update_of_ne (by omega)]
    exact h.fresh j (by omega)
  · rw [hposts] at hq'
    rcases Pieces.update_eq_some.mp hq' with ⟨-, rfl⟩ | ⟨-, hq'⟩
    · exact hcurrent
    · exact h.idle j q' hq'
  · rcases Nat.lt_or_ge j reqs.length with hlt | hge
    · rw [List.getElem?_append_left hlt] at hj
      rw [List.take_append_of_le_length hlt.le, hposts, Function.update_of_ne hlt.ne]
      exact h.answered j name' up' hj
    · have hlast : j = reqs.length := by
        have hlt := (List.getElem?_eq_some_iff.mp hj).1
        rw [List.length_append, List.length_singleton] at hlt
        omega
      subst hlast
      rw [List.getElem?_concat_length] at hj
      obtain ⟨rfl, hup⟩ := Request.post.inj (Option.some.inj hj)
      obtain rfl := Except.ok.inj (Except.ok.inj hup)
      refine ⟨q, by rw [hposts, Function.update_self], hfiles, ?_⟩
      rwa [List.take_left]

/-- **Requests one after the other** are requests that keep apart: the server comes in their steps
to the files that it comes to with its handlers, and each upload to the answer of its own. -/
theorem run_simulated (fs : FileSystem) (reqs : List Request) :
    ∃ s, Reach (Requests.step assetsDir fs.cwd) (Exclusive assetsDir fs.cwd) (· = .started fs.root) s ∧
      s.Done R F walkError assetsDir fs reqs := by
  induction reqs using List.reverseRecOn with
  | nil =>
    refine ⟨.started fs.root, .start rfl, rfl, rfl, fun _ _ => rfl, fun j q hq => ?_, fun j name up hj => ?_⟩
    · cases hq
    · cases hj
  | append_singleton reqs req ih =>
    obtain ⟨s, hs, hdone⟩ := ih
    match req with
    | .post name (.ok (.ok up)) =>
      obtain ⟨t, ht, hdone'⟩ := hdone.append_post name up
      exact ⟨t, hs.trans ht, hdone'⟩
    | .manifest | .asset _ | .maps | .post _ (.error _) | .post _ (.ok (.error _)) =>
      exact ⟨s, hs, hdone.append (fun _ => rfl) (by simp)⟩

end Runs

end Content
end QuakeKube
