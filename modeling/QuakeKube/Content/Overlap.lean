/-
# Requests at the same time

The server answers every request in a goroutine of its own. `os.Create` empties a file, and
`io.Copy` then writes it piece after piece, so that uploads and downloads of one file that are
under way together see each other: the file can end as neither of two uploads that were both
answered with a page (`overlapping_mixed`).

As long as none begins on a file that another one is at work on, the server is the store that
its requests one after the other make of it: each file as the last upload to it that has ended
left it, and each download from a state of that store (`uploads_linear`).

What is read of an upload is all there is of it, unless the upload fails; and an upload can fail
at any time.

Key definitions: `Posting`, `Requests`, `Requests.step`, `Exclusive`, `Requests.abs`.
Key theorems: `abs_step`, `filed_step`, `uploads_linear`, `overlapping_mixed`.
-/
import QuakeKube.Content.Requests
import QuakeKube.Lib.Pieces

namespace QuakeKube
namespace Content

open Go Loc Store Run
open Pieces (Write Read Apart)

/-! ### Requests under way -/

inductive Posting.Answer
  | page
  | failed
deriving DecidableEq

/-- A `POST /maps`, from where its form has been read. -/
structure Posting where
  /-- The files it is to store. -/
  files : List (List Name × Bytes)
  /-- Those that it has not created yet. -/
  rest : List (List Name × Bytes)
  /-- The one between its `os.Create` and the end of its `io.Copy`. -/
  current : Option (Write (List Name) UInt8)
  answer : Option Posting.Answer

/-- The files, and the requests by their numbers. -/
structure Requests where
  root : Node
  posts : ℕ → Option Posting
  gets : ℕ → Option (Read (List Name) UInt8)
  /-- What has been written of each file, in the order in which the uploads were done with it. -/
  log : List (List Name × Bytes)
  /-- The downloads that have ended. -/
  served : List (Read (List Name) UInt8)

/-- The form's file is a file, or an archive that can be read. -/
def Posted.readable (up : Posted) : Bool :=
  !hasExts up.filename [txt ".zip"] || up.archive.toOption.isSome

def Posting.begun (files : List (List Name × Bytes)) (readable : Bool) : Posting :=
  ⟨files, files, none, if readable then none else some .failed⟩

inductive Requests.Act
  | post (i : ℕ) (name : Text) (up : Posted)
  | create (i : ℕ)
  /-- `io.Copy` writes the next bytes. -/
  | write (i : ℕ) (n : ℕ)
  /-- `io.Copy` comes to the end of its source. -/
  | copied (i : ℕ)
  | fail (i : ℕ)
  | answer (i : ℕ)
  | get (j : ℕ) (param : Text)
  | read (j : ℕ) (n : ℕ)
  /-- The download ends, with all that it was to bring or without. -/
  | leave (j : ℕ)

namespace Requests

variable (assetsDir : Text) (cwd : List Name)

/-- The file that `GET /assets/*` serves. -/
def assetPlace (param : Text) : List Name := absolute cwd (locate (assetPath assetsDir param))

def setPost (s : Requests) (i : ℕ) (p : Posting) : Requests :=
  { s with posts := Function.update s.posts i (some p) }

def step (s : Requests) : Act → Option Requests
  | .post i name up => match s.posts i with
    | some _ => none
    | none => some (s.setPost i (.begun (placed assetsDir name cwd up.files) up.readable))
  | .create i => match s.posts i with
    | some ⟨files, f :: rest, none, none⟩ => (s.root.writeFile [] f.1).map fun root =>
        { s with root := root }.setPost i ⟨files, rest, some ⟨f.1, f.2, 0⟩, none⟩
    | _ => none
  | .write i n => match s.posts i with
    | some ⟨files, rest, some w, none⟩ => (s.root.contents w.key).bind fun old =>
        if 0 < n ∧ w.written + n ≤ w.value.length then
          (s.root.writeFile (Pieces.overwrite 0 old w.written ((w.value.drop w.written).take n)) w.key).map
            fun root => { s with root := root }.setPost i
              ⟨files, rest, some { w with written := w.written + n }, none⟩
        else none
    | _ => none
  | .copied i => match s.posts i with
    | some ⟨files, rest, some w, none⟩ =>
      if w.written = w.value.length then
        some ({ s with log := s.log ++ [w.soFar] }.setPost i ⟨files, rest, none, none⟩)
      else none
    | _ => none
  | .fail i => match s.posts i with
    | some ⟨files, rest, current, none⟩ =>
      some ({ s with log := s.log ++ (current.map Write.soFar).toList }.setPost i
        ⟨files, rest, none, some .failed⟩)
    | _ => none
  | .answer i => match s.posts i with
    | some ⟨files, [], none, none⟩ => some (s.setPost i ⟨files, [], none, some .page⟩)
    | _ => none
  | .get j param => match s.gets j, s.root.contents (assetPlace assetsDir cwd param) with
    | none, some data => some { s with
        gets := Function.update s.gets j (some ⟨assetPlace assetsDir cwd param, data.length, []⟩) }
    | _, _ => none
  | .read j n => match s.gets j with
    | none => none
    | some r => (s.root.contents r.key).map fun data =>
        { s with gets := Function.update s.gets j (some (r.take data n)) }
  | .leave j => match s.gets j with
    | none => none
    | some r => some { s with gets := Function.update s.gets j none, served := s.served ++ [r] }

/-- An upload is at work on a file. -/
def Writing (s : Requests) (p : List Name) : Prop :=
  ∃ i q w, s.posts i = some q ∧ q.current = some w ∧ w.key = p

/-- A download is at work on a file. -/
def Reading (s : Requests) (p : List Name) : Prop := ∃ j r, s.gets j = some r ∧ r.key = p

end Requests

/-- None begins on a file that another one is at work on, unless both only read. -/
def Exclusive (assetsDir : Text) (cwd : List Name) (s : Requests) : Requests.Act → Prop
  | .create i => ∀ q, s.posts i = some q → ∀ f ∈ q.rest.head?, ¬ s.Writing f.1 ∧ ¬ s.Reading f.1
  | .get _ param => ¬ s.Writing (Requests.assetPlace assetsDir cwd param)
  | _ => True

/-- The server without its requests. -/
def Requests.started (root : Node) : Requests := ⟨root, fun _ => none, fun _ => none, [], []⟩

/-! ### Requests as writers and readers -/

/-- The uploads write in pieces, the downloads read in pieces. -/
def Requests.abs (s : Requests) : Pieces.State (List Name) ℕ UInt8 where
  held := s.root.contents
  writers i := (s.posts i).bind (·.current)
  readers := s.gets
  log := s.log
  ended := s.served

variable {assetsDir : Text} {cwd : List Name} {s s' : Requests} {a : Requests.Act} {i : ℕ} {q : Posting}

theorem abs_setPost (s : Requests) (i : ℕ) (q : Posting) : (s.setPost i q).abs =
    { s.abs with writers := Function.update s.abs.writers i q.current } := by
  have hwriters : (s.setPost i q).abs.writers = Function.update s.abs.writers i q.current := by
    funext j
    by_cases hj : j = i
    · subst hj
      simp [Requests.abs, Requests.setPost]
    · simp [Requests.abs, Requests.setPost, hj]
  rw [← hwriters]
  rfl

/-- A request whose current file stays as it is. -/
theorem abs_setPost_self (h : (s.posts i).bind (·.current) = q.current) : (s.setPost i q).abs = s.abs := by
  have hself : Function.update s.abs.writers i q.current = s.abs.writers :=
    h ▸ Function.update_eq_self i s.abs.writers
  rw [abs_setPost, hself]

theorem writing_abs (p : List Name) : s.abs.Writing p ↔ s.Writing p := by
  constructor
  · rintro ⟨i, w, hw, rfl⟩
    obtain ⟨q, hq, hw⟩ := Option.bind_eq_some_iff.mp hw
    exact ⟨i, q, w, hq, hw, rfl⟩
  · rintro ⟨i, q, w, hq, hw, rfl⟩
    exact ⟨i, w, Option.bind_eq_some_iff.mpr ⟨q, hq, hw⟩, rfl⟩

/-- **A step of the server is one of a writer or a reader**, or none of either. -/
theorem abs_step (hs : s.step assetsDir cwd a = some s') : s'.abs = s.abs ∨
    ∃ b, s.abs.step 0 b = some s'.abs ∧ (Exclusive assetsDir cwd s a → Apart s.abs b) := by
  cases a with
  | post i name up =>
    simp only [Requests.step] at hs
    split at hs <;> cases hs
    rename_i hi
    exact .inl (abs_setPost_self (by rw [hi]; rfl))
  | create i =>
    simp only [Requests.step] at hs
    split at hs
    · rename_i files f rest hi
      obtain ⟨root, hroot, rfl⟩ := Option.map_eq_some_iff.mp hs
      refine .inr ⟨.create i f.1 f.2, ?_, fun ha => ?_⟩
      · have hw : s.abs.writers i = none := by simp [Requests.abs, hi]
        simp only [Pieces.State.step, hw, abs_setPost]
        simp only [Requests.abs, Node.contents_writeFile hroot]
      · obtain ⟨hw, hr⟩ := ha _ hi f rfl
        exact ⟨mt (writing_abs f.1).mp hw, hr⟩
    · cases hs
  | write i n =>
    simp only [Requests.step] at hs
    split at hs
    · rename_i files rest w hi
      obtain ⟨old, hold, hs⟩ := Option.bind_eq_some_iff.mp hs
      split at hs
      · rename_i hn
        obtain ⟨root, hroot, rfl⟩ := Option.map_eq_some_iff.mp hs
        refine .inr ⟨.write i n, ?_, fun _ => trivial⟩
        have hw : s.abs.writers i = some w := by simp [Requests.abs, hi]
        have hheld : s.abs.held w.key = some old := hold
        simp only [Pieces.State.step, hw, hheld, hn, abs_setPost]
        simp only [Requests.abs, Node.contents_writeFile hroot]
        rfl
      · cases hs
    · cases hs
  | copied i =>
    simp only [Requests.step] at hs
    split at hs
    · rename_i files rest w hi
      split at hs <;> cases hs
      refine .inr ⟨.close i, ?_, fun _ => trivial⟩
      have hw : s.abs.writers i = some w := by simp [Requests.abs, hi]
      simp only [Pieces.State.step, hw, abs_setPost]
      rfl
    · cases hs
  | fail i =>
    simp only [Requests.step] at hs
    split at hs
    · rename_i files rest current hi
      cases hs
      cases current with
      | none =>
        refine .inl ((abs_setPost_self (by simp [hi])).trans ?_)
        simp [Requests.abs]
      | some w =>
        refine .inr ⟨.close i, ?_, fun _ => trivial⟩
        have hw : s.abs.writers i = some w := by simp [Requests.abs, hi]
        simp only [Pieces.State.step, hw, abs_setPost]
        rfl
    · cases hs
  | answer i =>
    simp only [Requests.step] at hs
    split at hs <;> cases hs
    rename_i files hi
    exact .inl (abs_setPost_self (by simp [hi]))
  | get j param =>
    simp only [Requests.step] at hs
    split at hs <;> cases hs
    rename_i data hj hdata
    refine .inr ⟨.open j (Requests.assetPlace assetsDir cwd param), ?_, fun ha => mt (writing_abs _).mp ha⟩
    have hj' : s.abs.readers j = none := hj
    have hheld : s.abs.held (Requests.assetPlace assetsDir cwd param) = some data := hdata
    simp only [Pieces.State.step, hj', hheld]
    rfl
  | read j n =>
    simp only [Requests.step] at hs
    split at hs
    · cases hs
    · rename_i r hj
      obtain ⟨data, hdata, rfl⟩ := Option.map_eq_some_iff.mp hs
      refine .inr ⟨.read j n, ?_, fun _ => trivial⟩
      have hj' : s.abs.readers j = some r := hj
      have hheld : s.abs.held r.key = some data := hdata
      simp only [Pieces.State.step, hj', hheld]
      rfl
  | leave j =>
    simp only [Requests.step] at hs
    split at hs <;> cases hs
    rename_i r hj
    refine .inr ⟨.leave j, ?_, fun _ => trivial⟩
    have hj' : s.abs.readers j = some r := hj
    simp only [Pieces.State.step, hj']
    rfl

/-- **Requests that keep apart are a store that is written whole.** -/
theorem linear_requests {root : Node} (h : Reach (Requests.step assetsDir cwd) (Exclusive assetsDir cwd)
    (· = .started root) s) : Pieces.Linear root.contents s.abs := by
  have hsim : ∃ t, Reach (Pieces.State.step 0) Apart
      (· = ⟨root.contents, fun _ => none, fun _ => none, [], []⟩) t ∧ t = s.abs := by
    refine h.simulated (R := fun s t => t = s.abs) ?_ ?_
    · rintro _ rfl
      exact ⟨_, rfl, rfl⟩
    · rintro s a s' _ rfl ha hs
      refine ⟨s'.abs, ?_, rfl⟩
      rcases abs_step hs with he | ⟨b, hb, hapart⟩
      · exact .start he
      · exact .next b (.start rfl) (hapart ha) hb
  obtain ⟨_, ht, rfl⟩ := hsim
  exact .reach ht

/-! ### What an upload has stored -/

/-- The files of an upload that has not failed are those that are stored, the one at work, and
those that are left. -/
structure Posting.Filed (q : Posting) (log : List (List Name × Bytes)) : Prop where
  answered : q.answer ≠ none → q.current = none
  page : q.answer = some .page → q.rest = []
  files : q.answer ≠ some .failed → ∃ done,
    q.files = done ++ (q.current.map fun w => (w.key, w.value)).toList ++ q.rest ∧ done.Sublist log

/-- What is stored is of an upload. -/
structure Filed (s : Requests) : Prop where
  posts : ∀ i q, s.posts i = some q → q.Filed s.log
  log : ∀ e ∈ s.log, ∃ i q, s.posts i = some q ∧ ∃ f ∈ q.files, f.1 = e.1 ∧ e.2 <+: f.2

theorem Filed.setPost (h : Filed s) (root : Node) {more : List (List Name × Bytes)}
    (hold : ∀ q', s.posts i = some q' → q'.files = q.files) (hq : q.Filed (s.log ++ more))
    (hmore : ∀ e ∈ more, ∃ f ∈ q.files, f.1 = e.1 ∧ e.2 <+: f.2) :
    Filed ({ s with root := root, log := s.log ++ more }.setPost i q) := by
  constructor
  · intro j q' hq'
    rcases Pieces.update_eq_some.mp hq' with ⟨-, rfl⟩ | ⟨-, hq'⟩
    · exact hq
    · obtain ⟨h1, h2, h3⟩ := h.posts j q' hq'
      refine ⟨h1, h2, fun hf => ?_⟩
      obtain ⟨done, hdone, hsub⟩ := h3 hf
      exact ⟨done, hdone, hsub.trans (List.sublist_append_left _ _)⟩
  · intro e he
    rcases List.mem_append.mp he with he | he
    · obtain ⟨j, q', hq', f, hf, hrest⟩ := h.log e he
      by_cases hj : j = i
      · subst hj
        exact ⟨j, q, Function.update_self _ _ _, f, hold q' hq' ▸ hf, hrest⟩
      · exact ⟨j, q', (Function.update_of_ne hj _ _).trans hq', f, hf, hrest⟩
    · exact ⟨i, q, Function.update_self _ _ _, hmore e he⟩

/-- Of a request's files, without anything new in the store. -/
theorem Filed.setPost_nil (h : Filed s) (hold : ∀ q', s.posts i = some q' → q'.files = q.files)
    (hq : q.Filed s.log) {root : Node} : Filed ({ s with root := root }.setPost i q) := by
  have hset := h.setPost root hold ((List.append_nil s.log).symm ▸ hq) fun e he => absurd he List.not_mem_nil
  rwa [List.append_nil] at hset

/-- The file that a request is at work on is one of its own. -/
theorem Posting.Filed.mem_files {log : List (List Name × Bytes)} (h : q.Filed log)
    {w : Write (List Name) UInt8}
    (hw : q.current = some w) (hf : q.answer = none) : (w.key, w.value) ∈ q.files := by
  obtain ⟨done, hdone, -⟩ := h.files (by simp [hf])
  rw [hdone, hw]
  simp

theorem filed_step (h : Filed s) (hs : s.step assetsDir cwd a = some s') : Filed s' := by
  cases a with
  | post i name up =>
    simp only [Requests.step] at hs
    split at hs <;> cases hs
    rename_i hi
    refine h.setPost_nil (fun q' hq' => ?_) ?_
    · cases hi.symm.trans hq'
    · refine ⟨fun _ => rfl, fun hp => ?_, fun _ => ⟨[], rfl, List.nil_sublist _⟩⟩
      simp only [Posting.begun] at hp
      split at hp <;> cases hp
  | create i =>
    simp only [Requests.step] at hs
    split at hs
    · rename_i files f rest hi
      obtain ⟨root, -, rfl⟩ := Option.map_eq_some_iff.mp hs
      obtain ⟨done, hdone, hsub⟩ := (h.posts i _ hi).files (Option.some_ne_none _).symm
      refine h.setPost_nil (fun q' hq' => ?_) ?_
      · cases hi.symm.trans hq'
        rfl
      · refine ⟨fun hc => absurd rfl hc, fun hp => absurd hp (Option.some_ne_none _).symm, fun _ => ?_⟩
        exact ⟨done, by simpa using hdone, hsub⟩
    · cases hs
  | write i n =>
    simp only [Requests.step] at hs
    split at hs
    · rename_i files rest w hi
      obtain ⟨old, -, hs⟩ := Option.bind_eq_some_iff.mp hs
      split at hs
      · obtain ⟨root, -, rfl⟩ := Option.map_eq_some_iff.mp hs
        obtain ⟨done, hdone, hsub⟩ := (h.posts i _ hi).files (Option.some_ne_none _).symm
        refine h.setPost_nil (fun q' hq' => ?_) ?_
        · cases hi.symm.trans hq'
          rfl
        · exact ⟨fun hc => absurd rfl hc, fun hp => absurd hp (Option.some_ne_none _).symm,
            fun _ => ⟨done, hdone, hsub⟩⟩
      · cases hs
    · cases hs
  | copied i =>
    simp only [Requests.step] at hs
    split at hs
    · rename_i files rest w hi
      split at hs <;> cases hs
      rename_i hall
      obtain ⟨done, hdone, hsub⟩ := (h.posts i _ hi).files (Option.some_ne_none _).symm
      have hsoFar : w.soFar = (w.key, w.value) := by rw [Write.soFar, hall, List.take_length]
      refine h.setPost s.root (fun q' hq' => ?_) ?_ fun e he => ?_
      · cases hi.symm.trans hq'
        rfl
      · refine ⟨fun _ => rfl, fun hp => absurd hp (Option.some_ne_none _).symm, fun _ => ?_⟩
        exact ⟨done ++ [w.soFar], by simpa [hsoFar] using hdone, hsub.append_right _⟩
      · rw [List.mem_singleton.mp he, hsoFar]
        exact ⟨_, (h.posts i _ hi).mem_files rfl rfl, rfl, List.prefix_rfl⟩
    · cases hs
  | fail i =>
    simp only [Requests.step] at hs
    split at hs
    · rename_i files rest current hi
      cases hs
      refine h.setPost s.root (fun q' hq' => ?_) ?_ fun e he => ?_
      · cases hi.symm.trans hq'
        rfl
      · exact ⟨fun _ => rfl, fun hp => absurd (Option.some.inj hp) (by decide), fun hc => absurd rfl hc⟩
      · obtain ⟨w, rfl, rfl⟩ := Option.map_eq_some_iff.mp (Option.mem_toList.mp he)
        exact ⟨_, (h.posts i _ hi).mem_files rfl rfl, rfl, List.take_prefix _ _⟩
    · cases hs
  | answer i =>
    simp only [Requests.step] at hs
    split at hs <;> cases hs
    rename_i files hi
    obtain ⟨done, hdone, hsub⟩ := (h.posts i _ hi).files (Option.some_ne_none _).symm
    refine h.setPost_nil (fun q' hq' => ?_) ?_
    · cases hi.symm.trans hq'
      rfl
    · exact ⟨fun _ => rfl, fun _ => rfl, fun _ => ⟨done, hdone, hsub⟩⟩
  | get j param =>
    simp only [Requests.step] at hs
    split at hs <;> cases hs
    exact ⟨h.posts, h.log⟩
  | read j n =>
    simp only [Requests.step] at hs
    split at hs
    · cases hs
    · obtain ⟨data, -, rfl⟩ := Option.map_eq_some_iff.mp hs
      exact ⟨h.posts, h.log⟩
  | leave j =>
    simp only [Requests.step] at hs
    split at hs <;> cases hs
    exact ⟨h.posts, h.log⟩

theorem filed_started (root : Node) : Filed (.started root) := ⟨nofun, nofun⟩

/-- **Uploads and downloads that keep apart are taken one after the other**: a file that no upload
is at work on is as the last upload to it has left it; an upload that is answered with a page has
stored each of its files, whole and in order; what is stored is the beginning of a file of some
upload, and of no other; and what a download has got is the beginning of its file, of the length
announced, as it stood at some time between two uploads. -/
theorem uploads_linear {root : Node} (h : Reach (Requests.step assetsDir cwd) (Exclusive assetsDir cwd)
    (· = .started root) s) :
    (∀ p, ¬ s.Writing p → s.root.contents p = puts root.contents s.log p) ∧
    (∀ i q, s.posts i = some q → q.answer = some .page → q.files.Sublist s.log) ∧
    (∀ e ∈ s.log, ∃ i q, s.posts i = some q ∧ ∃ f ∈ q.files, f.1 = e.1 ∧ e.2 <+: f.2) ∧
    ∀ r ∈ s.served, ∃ done data, done <+: s.log ∧ puts root.contents done r.key = some data ∧
      r.size = data.length ∧ r.got <+: data := by
  have hlinear := linear_requests h
  have hfiled : Filed s :=
    h.invariant (fun _ h0 => h0 ▸ filed_started root) fun _ _ _ hf _ hs => filed_step hf hs
  refine ⟨fun p hp => hlinear.held p (mt (writing_abs p).mp hp), fun i q hq hpage => ?_, hfiled.log,
    hlinear.ended⟩
  obtain ⟨hanswered, hrest, hfiles⟩ := hfiled.posts i q hq
  obtain ⟨done, hdone, hsub⟩ := hfiles (by simp [hpage])
  rw [hanswered (by simp [hpage]), hrest hpage] at hdone
  simpa [hdone] using hsub

/-! ### The steps of one upload -/

/-- By steps of the upload `i` alone the server comes to have the files of `root`, the upload to
be `q`, and the log to go on with `more`. -/
def Requests.Goes (assetsDir : Text) (cwd : List Name) (s : Requests) (i : ℕ) (root : Node) (q : Posting)
    (more : List (List Name × Bytes)) : Prop :=
  ∃ s', Reach (Requests.step assetsDir cwd) (Exclusive assetsDir cwd) (· = s) s' ∧ s'.root = root ∧
    s'.posts = Function.update s.posts i (some q) ∧ s'.gets = s.gets ∧ s'.log = s.log ++ more

section Goes

variable {root root' : Node} {q' : Posting} {more more' files rest : List (List Name × Bytes)}
  {current : Option (Write (List Name) UInt8)} {w : Write (List Name) UInt8} {p : List Name}
  {v old : Bytes} {n : ℕ}

/-- Steps that come after a state that the server has come to. -/
theorem Requests.Goes.after {t : Requests} (h : t.Goes assetsDir cwd i root' q' more')
    (ht : Reach (Requests.step assetsDir cwd) (Exclusive assetsDir cwd) (· = s) t)
    (hposts : t.posts = Function.update s.posts i (some q)) (hgets : t.gets = s.gets)
    (hlog : t.log = s.log ++ more) : s.Goes assetsDir cwd i root' q' (more ++ more') := by
  obtain ⟨t', ht', hroot', hposts', hgets', hlog'⟩ := h
  refine ⟨t', ht.trans ht', hroot', ?_, hgets'.trans hgets, ?_⟩
  · rw [hposts', hposts, Function.update_idem]
  · rw [hlog', hlog, List.append_assoc]

theorem Requests.Goes.trans (h : s.Goes assetsDir cwd i root q more)
    (hnext : ∀ t : Requests, t.root = root → t.posts = Function.update s.posts i (some q) →
      t.gets = s.gets → t.Goes assetsDir cwd i root' q' more') :
    s.Goes assetsDir cwd i root' q' (more ++ more') := by
  obtain ⟨t, ht, hroot, hposts, hgets, hlog⟩ := h
  exact (hnext t hroot hposts hgets).after ht hposts hgets hlog

theorem step_create (hi : s.posts i = some ⟨files, (p, v) :: rest, none, none⟩)
    (hroot : s.root.writeFile [] p = some root) : s.step assetsDir cwd (.create i) =
      some ({ s with root := root }.setPost i ⟨files, rest, some ⟨p, v, 0⟩, none⟩) := by
  simp only [Requests.step, hi, hroot, Option.map_some]

/-- An upload that creates its file where none is at work keeps apart. -/
theorem exclusive_create (hi : s.posts i = some ⟨files, (p, v) :: rest, none, none⟩)
    (hw : ¬ s.Writing p) (hr : ¬ s.Reading p) : Exclusive assetsDir cwd s (.create i) := by
  intro q hq f hf
  cases hi.symm.trans hq
  cases Option.some.inj hf
  exact ⟨hw, hr⟩

theorem goes_create (hi : s.posts i = some ⟨files, (p, v) :: rest, none, none⟩)
    (hroot : s.root.writeFile [] p = some root) (hw : ¬ s.Writing p) (hr : ¬ s.Reading p) :
    s.Goes assetsDir cwd i root ⟨files, rest, some ⟨p, v, 0⟩, none⟩ [] :=
  ⟨_, .next _ (.start rfl) (exclusive_create hi hw hr) (step_create hi hroot), rfl, rfl, rfl,
    (List.append_nil _).symm⟩

theorem goes_write (hi : s.posts i = some ⟨files, rest, some ⟨p, v, 0⟩, none⟩)
    (hold : s.root.contents p = some old) (hn : 0 < n) (hlen : n ≤ v.length)
    (hroot : s.root.writeFile (v.take n ++ old.drop n) p = some root) :
    s.Goes assetsDir cwd i root ⟨files, rest, some ⟨p, v, n⟩, none⟩ [] := by
  have hpiece : Pieces.overwrite 0 old 0 ((v.drop 0).take n) = v.take n ++ old.drop n := by
    simp [Pieces.overwrite, Nat.min_eq_left hlen]
  have hstep : s.step assetsDir cwd (.write i n) =
      some ({ s with root := root }.setPost i ⟨files, rest, some ⟨p, v, n⟩, none⟩) := by
    simp only [Requests.step, hi, hold, Option.bind_some, Nat.zero_add, hn, hlen, and_self, if_true,
      hpiece, hroot, Option.map_some]
  exact ⟨_, .next (.write i n) (.start rfl) trivial hstep, rfl, rfl, rfl, (List.append_nil _).symm⟩

theorem goes_copied (hi : s.posts i = some ⟨files, rest, some ⟨p, v, v.length⟩, none⟩) :
    s.Goes assetsDir cwd i s.root ⟨files, rest, none, none⟩ [(p, v)] := by
  have hstep : s.step assetsDir cwd (.copied i) =
      some ({ s with log := s.log ++ [(p, v)] }.setPost i ⟨files, rest, none, none⟩) := by
    simp [Requests.step, hi, Write.soFar]
  exact ⟨_, .next (.copied i) (.start rfl) trivial hstep, rfl, rfl, rfl, rfl⟩

theorem goes_answer (hi : s.posts i = some ⟨files, [], none, none⟩) :
    s.Goes assetsDir cwd i s.root ⟨files, [], none, some .page⟩ [] := by
  have hstep : s.step assetsDir cwd (.answer i) = some (s.setPost i ⟨files, [], none, some .page⟩) := by
    simp only [Requests.step, hi]
  exact ⟨_, .next (.answer i) (.start rfl) trivial hstep, rfl, rfl, rfl, (List.append_nil _).symm⟩

theorem goes_fail (hi : s.posts i = some ⟨files, rest, current, none⟩) :
    s.Goes assetsDir cwd i s.root ⟨files, rest, none, some .failed⟩ (current.map Write.soFar).toList := by
  have hstep : s.step assetsDir cwd (.fail i) = some ({ s with
      log := s.log ++ (current.map Write.soFar).toList }.setPost i ⟨files, rest, none, some .failed⟩) := by
    simp only [Requests.step, hi]
  exact ⟨_, .next (.fail i) (.start rfl) trivial hstep, rfl, rfl, rfl, rfl⟩

end Goes

/-! ### Uploads that overlap -/

theorem Node.writeFile_isSome_of_contents (data : Bytes) {old : Bytes} : ∀ {p : List Name} {root : Node},
    p ≠ [] → root.contents p = some old → (root.writeFile data p).isSome
  | [], _, hp, _ => absurd rfl hp
  | n :: ns, .file _, _, h => by simp [Node.contents_eq_some, Node.stat] at h
  | n :: ns, .dir es, _, h => by
    rw [Node.contents_eq_some, Node.stat] at h
    split at h
    · cases h
    · rename_i node hn
      cases ns with
      | nil =>
        cases node with
        | dir _ => cases h
        | file _ => simp [Node.writeFile, hn]
      | cons m ms =>
        simp only [Node.writeFile, hn, Option.isSome_map]
        exact writeFile_isSome_of_contents data (List.cons_ne_nil m ms) (Node.contents_eq_some.mpr h)

/-- The path of an upload that is no archive. -/
abbrev uploadPlace (assetsDir : Text) (cwd : List Name) (name filename : Text) : List Name :=
  absolute cwd (locate (join [assetsDir, name, filename]))

variable {p : List Name} {v old : Bytes}

theorem step_post {name filename : Text} (hz : hasExts filename [txt ".zip"] = false) (hi : s.posts i = none)
    (v : Bytes) : s.step assetsDir cwd (.post i name ⟨filename, (v, none), .error []⟩) = some (s.setPost i
      ⟨[(uploadPlace assetsDir cwd name filename, v)], [(uploadPlace assetsDir cwd name filename, v)],
        none, none⟩) := by
  simp only [Requests.step, hi]
  simp [Posting.begun, placed, Posted.files, Posted.readable, hz]

/-- An upload begins, as far as the `os.Create` of its file. -/
theorem exists_begun (ok : Requests → Requests.Act → Prop) {name filename : Text}
    (hz : hasExts filename [txt ".zip"] = false) (hp : uploadPlace assetsDir cwd name filename = p)
    (hi : s.posts i = none) (hw : (s.root.writeFile [] p).isSome) (v : Bytes)
    (hpost : ok s (.post i name ⟨filename, (v, none), .error []⟩))
    (hcreate : ∀ t : Requests, t.posts = Function.update s.posts i (some ⟨[(p, v)], [(p, v)], none, none⟩) →
      t.gets = s.gets → ok t (.create i)) :
    ∃ s', Reach (Requests.step assetsDir cwd) ok (· = s) s' ∧
      s'.posts = Function.update s.posts i (some ⟨[(p, v)], [], some ⟨p, v, 0⟩, none⟩) ∧
      s'.gets = s.gets ∧ s'.log = s.log ∧ s'.root.contents = put s.root.contents (p, []) := by
  obtain ⟨root, hroot⟩ := Option.isSome_iff_exists.mp hw
  subst hp
  set p := uploadPlace assetsDir cwd name filename with hp
  set s₁ := s.setPost i ⟨[(p, v)], [(p, v)], none, none⟩ with hs₁
  have hstep : s₁.step assetsDir cwd (.create i) =
      some ({ s₁ with root := root }.setPost i ⟨[(p, v)], [], some ⟨p, v, 0⟩, none⟩) :=
    step_create (Function.update_self _ _ _) hroot
  refine ⟨_, .next _ (.next _ (.start rfl) hpost (step_post hz hi v)) (hcreate s₁ rfl rfl) hstep, ?_, rfl,
    rfl, Node.contents_writeFile hroot⟩
  simp [hs₁, Requests.setPost]

/-- An upload goes on to its page, with what it writes on the way. -/
theorem exists_answered {files : List (List Name × Bytes)} (hv : v ≠ []) (hp : p ≠ [])
    (hi : s.posts i = some ⟨files, [], some ⟨p, v, 0⟩, none⟩) (hold : s.root.contents p = some old) :
    ∃ s', Reach (Requests.step assetsDir cwd) (Exclusive assetsDir cwd) (· = s) s' ∧
      s'.posts = Function.update s.posts i (some ⟨files, [], none, some .page⟩) ∧
      s'.log = s.log ++ [(p, v)] ∧ s'.root.contents = put s.root.contents (p, v ++ old.drop v.length) := by
  obtain ⟨root, hroot⟩ := Option.isSome_iff_exists.mp
    (Node.writeFile_isSome_of_contents (v ++ old.drop v.length) hp hold)
  have hwritten : s.root.writeFile (v.take v.length ++ old.drop v.length) p = some root := by
    rwa [List.take_length]
  have hgoes : s.Goes assetsDir cwd i root ⟨files, [], none, some .page⟩ ([] ++ ([(p, v)] ++ [])) := by
    refine (goes_write hi hold (List.length_pos_iff.mpr hv) le_rfl hwritten).trans fun t ht hposts _ => ?_
    rw [← ht]
    refine (goes_copied (by rw [hposts, Function.update_self])).trans fun t' ht' hposts' _ => ?_
    rw [← ht']
    exact goes_answer (by rw [hposts', Function.update_self])
  obtain ⟨s', hreach, hs', hposts, -, hlog⟩ := hgoes
  exact ⟨s', hreach, hposts, hlog, by rw [hs', Node.contents_writeFile hroot]⟩

/-- **Two uploads of one file that overlap can leave what neither of them is**, and both are
answered with a page. -/
theorem overlapping_mixed {name filename : Text} (hz : hasExts filename [txt ".zip"] = false) {root : Node}
    (hw : (root.writeFile [] (uploadPlace assetsDir cwd name filename)).isSome) {v v' : Bytes} (hv : v ≠ [])
    (hlt : v.length < v'.length) (hne : ¬ v <+: v') :
    ∃ s data, Reach (Requests.step assetsDir cwd) always (· = .started root) s ∧
      (∀ i < 2, ∃ q, s.posts i = some q ∧ q.answer = some .page) ∧
      s.root.contents (uploadPlace assetsDir cwd name filename) = some data ∧ data ≠ v ∧ data ≠ v' := by
  set p := uploadPlace assetsDir cwd name filename with hp
  have hpne : p ≠ [] := by
    intro he
    rw [he, Node.writeFile_nil] at hw
    cases hw
  have hv' : v' ≠ [] := List.ne_nil_of_length_pos (Nat.zero_lt_of_lt hlt)
  -- both begin, the second one goes on to its end, and then the first one
  obtain ⟨s₁, h₁, hposts₁, -, -, hc₁⟩ := exists_begun always (s := .started root) (i := 0) hz hp.symm
    rfl hw v trivial fun _ _ _ => trivial
  have hheld₁ : s₁.root.contents p = some [] := by rw [hc₁, put_self]
  obtain ⟨s₂, h₂, hposts₂, -, -, hc₂⟩ := exists_begun always (i := 1) hz hp.symm (by rw [hposts₁]; rfl)
    (Node.writeFile_isSome_of_contents [] hpne hheld₁) v' trivial fun _ _ _ => trivial
  obtain ⟨s₃, h₃, hposts₃, -, hc₃⟩ := exists_answered (i := 1) hv' hpne
    (by rw [hposts₂, Function.update_self]) (by rw [hc₂, put_self])
  obtain ⟨s₄, h₄, hposts₄, -, hc₄⟩ := exists_answered (i := 0) hv hpne
    (by rw [hposts₃, hposts₂, hposts₁]; rfl) (by rw [hc₃, put_self])
  have hheld₄ : s₄.root.contents p = some (v ++ v'.drop v.length) := by
    rw [hc₄, put_self, List.drop_nil, List.append_nil]
  refine ⟨s₄, _, h₁.trans (h₂.trans ((h₃.trans h₄).mono fun _ _ _ => trivial)), fun j hj => ?_, hheld₄,
    fun he => ?_, fun he => ?_⟩
  · rw [hposts₄, hposts₃]
    match j, hj with
    | 0, _ => exact ⟨_, rfl, rfl⟩
    | 1, _ => exact ⟨_, rfl, rfl⟩
  · have hlen := congrArg List.length he
    rw [List.length_append, List.length_drop] at hlen
    omega
  · exact hne ⟨_, he⟩

section Example

open Pak Upload

theorem not_writing_of_posts {t : Requests} (ht : t.posts = Function.update s.posts i (some q))
    (hq : ∀ w ∈ q.current, w.key ≠ p) (h : ¬ s.Writing p) : ¬ t.Writing p := by
  rintro ⟨j, q', w, hq', hw, hp⟩
  rw [ht] at hq'
  rcases Pieces.update_eq_some.mp hq' with ⟨-, rfl⟩ | ⟨-, hq'⟩
  · exact hq w hw hp
  · exact h ⟨j, q', w, hq', hw, hp⟩

theorem isName_q3dm7 : IsName (txt "q3dm7.pk3") := by with_unfolding_all decide

/-- The directory of the game, with a pack that is uploaded anew. -/
def onDisk : Node := .dir (.cons assets (.dir (.cons baseq3
  (.dir (.cons ⟨txt "q3dm7.pk3", isName_q3dm7⟩ (.file [0, 0]) .nil)) .nil)) .nil)

/-- Uploads of two map packs at the same time: the second one ends first. -/
theorem uploads_linear_maps : ∃ (s : Requests) (q q' : Posting), s.posts 0 = some q ∧ s.posts 1 = some q' ∧
    q.answer = some .page ∧ q'.answer = some .page ∧
    s.log = [(uploadPlace dir [] (txt "baseq3") (txt "q3dm7.pk3"), [2]),
      (uploadPlace dir [] (txt "baseq3") (txt "q3dm1.pk3"), [1])] ∧
    q.files.Sublist s.log ∧ q'.files.Sublist s.log ∧
    s.root.contents (uploadPlace dir [] (txt "baseq3") (txt "q3dm1.pk3")) = some [1] ∧
    s.root.contents (uploadPlace dir [] (txt "baseq3") (txt "q3dm7.pk3")) = some [2] := by
  have hz₀ : hasExts (txt "q3dm1.pk3") [txt ".zip"] = false := by with_unfolding_all decide
  have hz₁ : hasExts (txt "q3dm7.pk3") [txt ".zip"] = false := by with_unfolding_all decide
  have hw₀ : (onDisk.writeFile [] (uploadPlace dir [] (txt "baseq3") (txt "q3dm1.pk3"))).isSome := by
    with_unfolding_all decide
  have hold : onDisk.contents (uploadPlace dir [] (txt "baseq3") (txt "q3dm7.pk3")) = some [0, 0] := by
    with_unfolding_all decide
  have hne : uploadPlace dir [] (txt "baseq3") (txt "q3dm1.pk3") ≠
      uploadPlace dir [] (txt "baseq3") (txt "q3dm7.pk3") := by with_unfolding_all decide
  have hne₀ : uploadPlace dir [] (txt "baseq3") (txt "q3dm1.pk3") ≠ [] := by with_unfolding_all decide
  have hne₁ : uploadPlace dir [] (txt "baseq3") (txt "q3dm7.pk3") ≠ [] := by with_unfolding_all decide
  set p₀ := uploadPlace dir [] (txt "baseq3") (txt "q3dm1.pk3") with hp₀
  set p₁ := uploadPlace dir [] (txt "baseq3") (txt "q3dm7.pk3") with hp₁
  have hidle : ∀ p, ¬ (Requests.started onDisk).Writing p := by
    rintro p ⟨_, _, _, hq, -⟩
    cases hq
  have hunread : ∀ t : Requests, t.gets = (fun _ => none) → ∀ p, ¬ t.Reading p := by
    rintro t ht p ⟨j, r, hr, -⟩
    rw [ht] at hr
    cases hr
  -- both create their files
  obtain ⟨s₁, h₁, hposts₁, hgets₁, hlog₁, hc₁⟩ := exists_begun (Exclusive dir [])
    (s := .started onDisk) (i := 0) hz₀ hp₀.symm rfl hw₀ [1] trivial fun t ht hg =>
      exclusive_create (by rw [ht, Function.update_self]) (not_writing_of_posts ht (by simp) (hidle p₀))
        (hunread t hg p₀)
  have hheld₁ : s₁.root.contents p₁ = some [0, 0] := by rw [hc₁, put_of_ne hne.symm]; exact hold
  have hidle₁ : ¬ s₁.Writing p₁ := not_writing_of_posts hposts₁ (by simpa using hne) (hidle p₁)
  obtain ⟨s₂, h₂, hposts₂, -, hlog₂, hc₂⟩ := exists_begun (Exclusive dir []) (s := s₁) (i := 1) hz₁ hp₁.symm
    (by rw [hposts₁]; rfl) (Node.writeFile_isSome_of_contents [] hne₁ hheld₁) [2] trivial fun t ht hg =>
      exclusive_create (by rw [ht, Function.update_self]) (not_writing_of_posts ht (by simp) hidle₁)
        (hunread t (hg.trans hgets₁) p₁)
  -- the second one comes to its page, and then the first one
  obtain ⟨s₃, h₃, hposts₃, hlog₃, hc₃⟩ := exists_answered (i := 1) (List.cons_ne_nil 2 []) hne₁
    (by rw [hposts₂, Function.update_self]) (by rw [hc₂, put_self])
  obtain ⟨s₄, h₄, hposts₄, hlog₄, hc₄⟩ := exists_answered (i := 0) (List.cons_ne_nil 1 []) hne₀
    (by rw [hposts₃, hposts₂, hposts₁]; rfl)
    (by rw [hc₃, put_of_ne hne, hc₂, put_of_ne hne, hc₁, put_self])
  have hlinear := uploads_linear (h₁.trans (h₂.trans (h₃.trans h₄)))
  have hlog : s₄.log = [(p₁, [2]), (p₀, [1])] := by
    rw [hlog₄, hlog₃, hlog₂, hlog₁]
    rfl
  have hq₀ : s₄.posts 0 = some ⟨[(p₀, [1])], [], none, some .page⟩ := by rw [hposts₄, Function.update_self]
  have hq₁ : s₄.posts 1 = some ⟨[(p₁, [2])], [], none, some .page⟩ := by
    rw [hposts₄, hposts₃]
    rfl
  refine ⟨s₄, _, _, hq₀, hq₁, rfl, rfl, hlog, hlinear.2.1 0 _ hq₀ rfl, hlinear.2.1 1 _ hq₁ rfl, ?_, ?_⟩
  · rw [hc₄, put_self]
    rfl
  · rw [hc₄, put_of_ne hne.symm, hc₃, put_self]
    rfl

theorem overlapping_mixed_maps :
    ∃ s data, Reach (Requests.step dir []) always (· = .started gameDisk.root) s ∧
    (∀ i < 2, ∃ q, s.posts i = some q ∧ q.answer = some .page) ∧
    s.root.contents (uploadPlace dir [] (txt "baseq3") (txt "q3dm1.pk3")) = some data ∧
      data ≠ [1] ∧ data ≠ [2, 3] :=
  overlapping_mixed (by with_unfolding_all decide) (by with_unfolding_all decide) (by decide)
    (by decide) (by decide)

end Example

end Content
end QuakeKube
