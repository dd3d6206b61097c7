/-
# Watching the config file

`watch` (`internal/quake/server/server.go`) asks fsnotify for the events of the
config file, or of its directory when the file is a symlink, as a ConfigMap's
are. A watch on a file belongs to the file's inode: when another file is renamed
over it, the watch reports a Remove and is gone. Nothing adds it again. So of a
regular file every change is noticed up to the first replacement, the replacement
too, and no change after it (`along_notices_iff`). The watch on a directory stays
(`along_notices_of_symlink`).

Key definitions: `isRelevantEvent`, `getWatchPath`, `watch`, `Watch.step`, `Notices`.
Key theorems: `along_notices_iff`, `along_notices_of_symlink`.
-/
import QuakeKube.Lib.Path
import QuakeKube.Lib.Run

namespace QuakeKube
namespace Server

open Go Run

/-- `fsnotify.Op`. -/
abbrev Op := BitVec 32

namespace Op

def create : Op := 1
def write : Op := 2
def remove : Op := 4
def rename : Op := 8
def chmod : Op := 16

end Op

/-- `fsnotify.Event`. -/
structure Event where
  name : Text
  op : Op
deriving DecidableEq

/-- `isRelevantEvent`. -/
def isRelevantEvent (configFile : Text) (event : Event) (watchPath : Text) : Bool :=
  if watchPath ≠ configFile then
    let basename := base configFile
    let eventBasename := base event.name
    if eventBasename = txt "..data" then true
    else if eventBasename = basename then true
    else if event.op &&& Op.create ≠ 0 ∧ eventBasename = txt "..data_tmp" then false
    else false
  else event.op &&& (Op.write ||| Op.create ||| Op.remove ||| Op.rename) ≠ 0

/-- `getWatchPath`, from what `os.Lstat` says: whether the file is a symlink. -/
def getWatchPath (configFile : Text) (lstat : Except Text Bool) : Except Text Text :=
  match lstat with
  | .error e => .error (txt "failed to stat config file: " ++ e)
  | .ok symlink => if symlink then .ok (dir configFile) else .ok configFile

namespace Watch

/-- What is watched. -/
inductive Target
  | file (inode : ℕ)
  | dir
deriving DecidableEq

/-- The watch goroutine, and the file it is about. -/
structure State where
  watchPath : Text
  /-- The file the path leads to now. -/
  inode : ℕ
  /-- The watch, none once it has been removed. -/
  target : Option Target
  /-- The events the goroutine has not received yet. -/
  queue : List Event
  /-- The debounce timer is armed. -/
  timer : Bool
deriving DecidableEq

inductive Act
  /-- The file is written in place. -/
  | write
  /-- Another file is renamed over it; of a ConfigMap, `..data` is. -/
  | replace
  /-- The goroutine receives an event. -/
  | receive
  /-- The debounce timer fires. -/
  | fire
deriving DecidableEq

/-- A change of the config file. -/
def Act.IsChange : Act → Prop
  | .write | .replace => True
  | .receive | .fire => False

instance : DecidablePred Act.IsChange := fun a => by unfold Act.IsChange; split <;> infer_instance

end Watch

open Watch

/-- What can go wrong in `watch` before the goroutine runs: the watcher is not
made, the file not found, the watch not added. -/
structure WatchCalls where
  newWatcher : Option Text
  lstat : Except Text Bool
  add : Option Text

/-- `watch`, up to the goroutine's start. -/
def watch (configFile : Text) (calls : WatchCalls) (inode : ℕ) : Except Text Watch.State :=
  match calls.newWatcher with
  | some e => .error (txt "failed to create watcher: " ++ e)
  | none =>
    match getWatchPath configFile calls.lstat with
    | .error e => .error (txt "failed to get watch path: " ++ e)
    | .ok watchPath =>
      match calls.add with
      | some e => .error (txt "failed to watch " ++ watchPath ++ txt ": " ++ e)
      | none => .ok {
          watchPath := watchPath
          inode := inode
          target := some (if watchPath = configFile then .file inode else .dir)
          queue := []
          timer := false }

namespace Watch

variable (configFile : Text)

/-- What the watch reports of a write: it must be on the file itself. -/
def State.written (s : State) : List Event :=
  if s.target = some (.file s.inode) then [⟨configFile, Op.write⟩] else []

/-- What the watch reports of a replacement. In a directory a link is made
under another name and renamed to `..data`. -/
def State.replaced (s : State) : List Event :=
  match s.target with
  | some (.file i) => if i = s.inode then [⟨configFile, Op.remove⟩] else []
  | some .dir => [⟨s.watchPath ++ txt "/..data_tmp", Op.create⟩, ⟨s.watchPath ++ txt "/..data_tmp", Op.rename⟩,
      ⟨s.watchPath ++ txt "/..data", Op.create⟩]
  | none => []

/-- A watch on the file that is replaced goes with it. -/
def State.targetAfterReplace (s : State) : Option Target :=
  if s.target = some (.file s.inode) then none else s.target

/-- One step of the goroutine's loop, or a change of the file. -/
def step (s : State) : Act → Option State
  | .write => some { s with queue := s.queue ++ s.written configFile }
  | .replace => some { s with
      queue := s.queue ++ s.replaced configFile
      target := s.targetAfterReplace
      inode := s.inode + 1 }
  | .receive => match s.queue with
    | [] => none
    | event :: queue =>
      if isRelevantEvent configFile event s.watchPath then some { s with queue := queue, timer := true }
      else some { s with queue := queue }
  | .fire => if s.timer then some { s with timer := false } else none

/-- A change queues a relevant event, and the receipt of a relevant event arms
the timer. -/
def Notices (s : State) (a : Act) : Prop :=
  (a.IsChange → ∃ s' events, step configFile s a = some s' ∧ s'.queue = s.queue ++ events ∧
    ∃ event ∈ events, isRelevantEvent configFile event s.watchPath = true) ∧
  (a = .receive → ∀ event queue, s.queue = event :: queue →
    isRelevantEvent configFile event s.watchPath = true → ∃ s', step configFile s a = some s' ∧ s'.timer = true)

/-- No change comes after a replacement. -/
def Once (acts : List Act) : Prop :=
  ∀ before after, acts = before ++ .replace :: after → ∀ a ∈ after, ¬ a.IsChange

/-! ### What a step notices -/

variable {configFile} {s s' t : State} {a : Act}

/-- The events a change queues. -/
def State.reported (configFile : Text) (s : State) : Act → List Event
  | .write => s.written configFile
  | .replace => s.replaced configFile
  | .receive | .fire => []

/-- What a step leaves as it was, and what it queues. -/
theorem step_change (configFile : Text) (s : State) (ha : a.IsChange) : ∃ s', step configFile s a = some s' ∧
    s'.queue = s.queue ++ s.reported configFile a ∧ s'.watchPath = s.watchPath := by
  cases a with
  | write => exact ⟨_, rfl, rfl, rfl⟩
  | replace => exact ⟨_, rfl, rfl, rfl⟩
  | receive => exact ha.elim
  | fire => exact ha.elim

theorem step_calm (ha : ¬ a.IsChange) (h : step configFile s a = some s') :
    s'.watchPath = s.watchPath ∧ s'.target = s.target ∧ s'.inode = s.inode := by
  cases a with
  | write => exact absurd trivial ha
  | replace => exact absurd trivial ha
  | receive =>
    simp only [step] at h
    split at h
    · cases h
    · split at h <;> cases h <;> exact ⟨rfl, rfl, rfl⟩
  | fire =>
    simp only [step] at h
    split at h
    · cases h
      exact ⟨rfl, rfl, rfl⟩
    · cases h

/-- A watch that is not on the file there stays what it is. -/
theorem step_target (ht : s.target ≠ some (.file s.inode)) (h : step configFile s a = some s') :
    s'.watchPath = s.watchPath ∧ s'.target = s.target := by
  cases a with
  | write =>
    cases h
    exact ⟨rfl, rfl⟩
  | replace =>
    cases h
    exact ⟨rfl, if_neg ht⟩
  | receive | fire =>
    obtain ⟨hp, ht, -⟩ := step_calm id h
    exact ⟨hp, ht⟩

/-- Only changes can go unnoticed. -/
theorem notices_of_calm (ha : ¬ a.IsChange) : Notices configFile s a := by
  refine ⟨fun h => absurd h ha, ?_⟩
  rintro rfl event queue hq hr
  refine ⟨{ s with queue := queue, timer := true }, ?_, rfl⟩
  simp only [step, hq, hr, if_true]

theorem notices_change_iff (ha : a.IsChange) : Notices configFile s a ↔
    ∃ event ∈ s.reported configFile a, isRelevantEvent configFile event s.watchPath = true := by
  obtain ⟨s', hs, hq, -⟩ := step_change configFile s ha
  constructor
  · rintro ⟨h, -⟩
    obtain ⟨t, events, ht, hqt, hev⟩ := h ha
    rw [hs] at ht
    cases ht
    rw [hq, List.append_cancel_left_eq] at hqt
    rwa [hqt]
  · intro h
    refine ⟨fun _ => ⟨s', _, hs, hq, h⟩, ?_⟩
    rintro rfl
    exact ha.elim

/-! ### A regular file -/

/-- The watch is on the file that is there. -/
structure OnFile (configFile : Text) (s : State) : Prop where
  path : s.watchPath = configFile
  target : s.target = some (.file s.inode)

/-- The watch is gone. -/
structure Gone (configFile : Text) (s : State) : Prop where
  path : s.watchPath = configFile
  target : s.target = none

theorem isRelevantEvent_file {name watchPath : Text} {op : Op}
    (h : op &&& (Op.write ||| Op.create ||| Op.remove ||| Op.rename) ≠ 0) (hp : watchPath = configFile) :
    isRelevantEvent configFile ⟨name, op⟩ watchPath = true := by
  rw [isRelevantEvent, if_neg (not_not.mpr hp)]
  exact decide_eq_true h

theorem OnFile.notices (hI : OnFile configFile s) (ha : a.IsChange) : Notices configFile s a := by
  apply (notices_change_iff ha).mpr
  cases a with
  | write =>
    refine ⟨⟨configFile, Op.write⟩, ?_, isRelevantEvent_file (by decide) hI.path⟩
    simp [State.reported, State.written, hI.target]
  | replace =>
    refine ⟨⟨configFile, Op.remove⟩, ?_, isRelevantEvent_file (by decide) hI.path⟩
    simp [State.reported, State.replaced, hI.target]
  | receive => exact ha.elim
  | fire => exact ha.elim

theorem OnFile.step (hI : OnFile configFile s) (h : step configFile s a = some s') :
    if a = .replace then Gone configFile s' else OnFile configFile s' := by
  cases a with
  | write =>
    cases h
    exact ⟨hI.path, hI.target⟩
  | replace =>
    cases h
    exact ⟨hI.path, if_pos hI.target⟩
  | receive | fire =>
    obtain ⟨hp, ht, hi⟩ := step_calm id h
    exact ⟨hp.trans hI.path, by rw [ht, hi, hI.target]⟩

theorem Gone.not_notices (hI : Gone configFile s) (ha : a.IsChange) : ¬ Notices configFile s a := by
  rw [notices_change_iff ha]
  cases a <;> simp [State.reported, State.written, State.replaced, hI.target]

theorem Gone.step (hI : Gone configFile s) (h : step configFile s a = some s') : Gone configFile s' := by
  obtain ⟨hp, ht⟩ := step_target (by simp [hI.target]) h
  exact ⟨hp.trans hI.path, ht.trans hI.target⟩

/-- Once the watch is gone, no change is noticed. -/
theorem Gone.along_iff (hI : Gone configFile s) {acts : List Act}
    (h : run (Watch.step configFile) s acts = some t) :
    Along (Watch.step configFile) (Notices configFile) s acts ↔ ∀ a ∈ acts, ¬ a.IsChange := by
  induction acts generalizing s with
  | nil => simp [Along]
  | cons a acts ih =>
    obtain ⟨s', hs, hr⟩ := Option.bind_eq_some_iff.mp h
    have ih := ih (hI.step hs) hr
    by_cases ha : a.IsChange
    · simp [Along, hI.not_notices ha, ha]
    · simp [Along, notices_of_calm ha, ha, hs, ih]

theorem once_cons_replace {acts : List Act} : Once (.replace :: acts) ↔ ∀ a ∈ acts, ¬ a.IsChange := by
  constructor
  · exact fun h => h [] acts rfl
  · intro h before after he a ha
    cases before with
    | nil =>
      cases he
      exact h a ha
    | cons b before =>
      cases he
      exact h a (List.mem_append_right _ (List.mem_cons_of_mem _ ha))

theorem once_cons {acts : List Act} (ha : a ≠ .replace) : Once (a :: acts) ↔ Once acts := by
  constructor
  · intro h before after he
    exact h (a :: before) after (by rw [he]; rfl)
  · intro h before after he
    cases before with
    | nil =>
      cases he
      exact absurd rfl ha
    | cons b before =>
      cases he
      exact h before after rfl

theorem OnFile.along_iff (hI : OnFile configFile s) {acts : List Act}
    (h : run (Watch.step configFile) s acts = some t) :
    Along (Watch.step configFile) (Notices configFile) s acts ↔ Once acts := by
  induction acts generalizing s with
  | nil => simp [Along, Once]
  | cons a acts ih =>
    obtain ⟨s', hs, hr⟩ := Option.bind_eq_some_iff.mp h
    have hn : Notices configFile s a := by
      by_cases ha : a.IsChange
      · exact hI.notices ha
      · exact notices_of_calm ha
    have hI' := hI.step hs
    by_cases ha : a = .replace
    · rw [if_pos ha] at hI'
      rw [ha, once_cons_replace, ← hI'.along_iff hr]
      rw [ha] at hn hs
      simp [Along, hn, hs]
    · rw [if_neg ha] at hI'
      rw [once_cons ha, ← ih hI' hr]
      simp [Along, hn, hs]

theorem watch_ok {calls : WatchCalls} {inode : ℕ} (h : watch configFile calls inode = .ok s) :
    ∃ watchPath, getWatchPath configFile calls.lstat = .ok watchPath ∧ s.watchPath = watchPath ∧
      s.target = some (if watchPath = configFile then .file s.inode else .dir) := by
  unfold watch at h
  split at h
  · cases h
  · split at h
    · cases h
    · split at h
      · cases h
      · cases h
        exact ⟨_, by assumption, rfl, rfl⟩

/-- **When every change of a regular config file is noticed.** In a run of the
goroutine and of writes and replacements, none of them may come after a
replacement. -/
theorem along_notices_iff (configFile : Text) (calls : WatchCalls) (inode : ℕ) (s t : State)
    (acts : List Act) (hreg : calls.lstat = .ok false) (hs : watch configFile calls inode = .ok s)
    (h : run (Watch.step configFile) s acts = some t) :
    Along (Watch.step configFile) (Notices configFile) s acts ↔ Once acts := by
  obtain ⟨watchPath, hp, rfl, ht⟩ := watch_ok hs
  rw [hreg, getWatchPath, if_neg Bool.false_ne_true] at hp
  have hpath : configFile = s.watchPath := Except.ok.inj hp
  rw [if_pos hpath.symm] at ht
  exact OnFile.along_iff ⟨hpath.symm, ht⟩ h

/-- The calls of `watch` on a regular file. -/
def regularFile : WatchCalls := ⟨none, .ok false, none⟩

/-- The watch on a regular file, as it starts. -/
def watched : State := ⟨txt "config.yaml", 0, some (.file 0), [], false⟩

theorem watch_regularFile : watch (txt "config.yaml") regularFile 0 = .ok watched := by
  simp [watch, getWatchPath, regularFile, watched]

theorem along_notices_write : Along (Watch.step (txt "config.yaml")) (Notices (txt "config.yaml")) watched
    [.write, .receive, .fire, .replace, .receive] ↔ Once [.write, .receive, .fire, .replace, .receive] :=
  along_notices_iff _ _ _ _ ⟨txt "config.yaml", 1, none, [], true⟩ _ rfl watch_regularFile
    (by with_unfolding_all decide)

/-- The second replacement goes unnoticed. -/
theorem replaced_twice :
    run (Watch.step (txt "config.yaml")) watched [.replace, .receive, .fire, .replace] =
        some ⟨txt "config.yaml", 2, none, [], false⟩ ∧
      ¬ Along (Watch.step (txt "config.yaml")) (Notices (txt "config.yaml")) watched
        [.replace, .receive, .fire, .replace] := by
  have hrun : run (Watch.step (txt "config.yaml")) watched [.replace, .receive, .fire] =
      some ⟨txt "config.yaml", 1, none, [], false⟩ := by with_unfolding_all decide
  refine ⟨by with_unfolding_all decide, fun h => ?_⟩
  have hlast : Along (Watch.step (txt "config.yaml")) (Notices (txt "config.yaml"))
      ⟨txt "config.yaml", 1, none, [], false⟩ [.replace] := Along.at_run h hrun
  have hgone : Gone (txt "config.yaml") ⟨txt "config.yaml", 1, none, [], false⟩ := ⟨rfl, rfl⟩
  exact hgone.not_notices (a := .replace) trivial hlast.1

/-! ### A symlink -/

/-- The watch is on the directory. -/
structure OnDir (configFile : Text) (s : State) : Prop where
  path : s.watchPath ≠ configFile
  target : s.target = some .dir

theorem base_data (path : Text) : base (path ++ txt "/..data") = txt "..data" := by
  have h : txt "/..data" = '/' :: txt "..data" := by with_unfolding_all decide
  rw [h]
  exact base_append_slash path (by with_unfolding_all decide) (by with_unfolding_all decide)

theorem OnDir.notices (hI : OnDir configFile s) : Notices configFile s .replace := by
  apply (notices_change_iff (a := .replace) trivial).mpr
  refine ⟨⟨s.watchPath ++ txt "/..data", Op.create⟩, ?_, ?_⟩
  · simp [State.reported, State.replaced, hI.target]
  · rw [isRelevantEvent, if_pos hI.path]
    simp only [base_data, if_true]

theorem OnDir.step (hI : OnDir configFile s) (h : Watch.step configFile s a = some s') :
    OnDir configFile s' := by
  obtain ⟨hp, ht⟩ := step_target (by simp [hI.target]) h
  exact ⟨hp ▸ hI.path, ht.trans hI.target⟩

/-- **Every update of a ConfigMap is noticed.** -/
theorem along_notices_of_symlink {calls : WatchCalls} {inode : ℕ} {acts : List Act}
    (hlink : calls.lstat = .ok true) (hdir : dir configFile ≠ configFile)
    (hs : watch configFile calls inode = .ok s) (ha : ∀ a ∈ acts, a ≠ .write) :
    Along (Watch.step configFile) (Notices configFile) s acts := by
  obtain ⟨watchPath, hp, rfl, ht⟩ := watch_ok hs
  rw [hlink, getWatchPath, if_pos rfl] at hp
  have hpath : dir configFile = s.watchPath := Except.ok.inj hp
  rw [hpath] at hdir
  rw [if_neg hdir] at ht
  have hI : OnDir configFile s := ⟨hdir, ht⟩
  clear hs hp ht hpath hdir
  induction acts generalizing s with
  | nil => trivial
  | cons a acts ih =>
    refine ⟨?_, fun s' h => ih (fun b hb => ha b (List.mem_cons_of_mem _ hb)) (hI.step h)⟩
    cases a with
    | write => exact absurd rfl (ha _ List.mem_cons_self)
    | replace => exact hI.notices
    | receive | fire => exact notices_of_calm id

end Watch
end Server
end QuakeKube
