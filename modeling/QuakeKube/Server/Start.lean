/-
# The game server's supervisor

`Server.Start` (`internal/quake/server/server.go`) writes `server.cfg`, starts
ioq3ded, spawns `monitorProcess` and, with a config file, goes on in
`watchAndReload`; `Restart` (`pkg/exec/exec.go`) replaces the child. Here the
pieces that run side by side are one step function: the main goroutine (`Main`),
the watch goroutine with its debounce timer, the goroutines that wait for a
child (`Waiter`), the children, and whoever edits the config file.

The wrapper `Cmd` is shared: `Restart` puts a new inner command into it, and a
`monitorProcess` goroutine reads the inner command when it first runs.
A `Kill` requests the end of a process; the process ends at a later step, and is
gone from the process table once somebody has waited for it.

Config files are opaque here, of type `κ`, and so are the texts of `server.cfg`,
of type `γ`: `Program.load` says what `reload` makes of a config file. A file that
cannot be read is one that `load` fails on.

Key definitions: `State`, `Act`, `step`, `Step`.
Key theorem: `step_cases`.
-/
import QuakeKube.Lib.Run

namespace QuakeKube
namespace Server

/-- What `reload` makes of a file's content: an error, a panic, or a `server.cfg`. -/
inductive Load (γ : Type)
  | fails
  | panics
  | gives (g : γ)
deriving DecidableEq

/-- The parts of the program that look at the contents: `yaml.Unmarshal` and
`Marshal` in `reload`, and the text `writeDefaultConfig` writes. -/
structure Program (κ γ : Type) where
  load : κ → Load γ
  default : γ

/-- The program whose `server.cfg` is the config file itself. -/
def Program.copy : Program ℕ ℕ := ⟨.gives, 0⟩

/-- A child as the operating system has it. -/
inductive Life
  | running
  /-- It has been killed and has not ended yet. -/
  | dying
  /-- It has ended; nobody has waited for it. -/
  | exited (ok : Bool)
  /-- It has been waited for. -/
  | reaped (ok : Bool)
deriving DecidableEq

/-- An ioq3ded process, and the `server.cfg` it found. -/
structure Proc (γ : Type) where
  life : Life
  cfg : Option γ
deriving DecidableEq

/-- A goroutine in `monitorProcess`. -/
inductive Waiter
  /-- It has not read the inner command yet. -/
  | spawned
  | waiting (child : ℕ)
  /-- `Wait` has returned the exit status, or an error of its own. -/
  | finished (status : Option Bool)
deriving DecidableEq

/-- A `reload`, and the `Start` of a child after it, happen on the way into the
loop or in it. -/
inductive Round
  | initial
  | again
deriving DecidableEq

/-- How `Server.Start` ends. -/
inductive Outcome
  | configFailed
  | startFailed
  | watchFailed
  | killFailed
  | panicked
  | waited (status : Option Bool)
deriving DecidableEq

/-- Where the main goroutine is. -/
inductive Main (κ : Type)
  /-- `writeDefaultConfig`. -/
  | writingDefault
  /-- `reload`, at `os.ReadFile`. -/
  | reading (r : Round)
  /-- `reload`, with the file's content. -/
  | writing (r : Round) (c : κ)
  /-- `cmd.Start`. -/
  | starting (r : Round)
  /-- `go s.monitorProcess(cmd)`. -/
  | spawning (r : Round)
  /-- `s.watch`. -/
  | registering
  /-- The head of the loop in `watchAndReload`. -/
  | looping
  /-- The `select` of `watchAndReload`. -/
  | selecting
  /-- `Restart`, at `Kill`. -/
  | killing
  /-- `Restart`, at the new inner command. -/
  | replacing
  /-- `return cmd.Wait()`, without a config file. -/
  | waiting (child : Option ℕ)
  | returned (o : Outcome)
deriving DecidableEq

structure State (κ γ : Type) where
  hasConfig : Bool
  main : Main κ
  /-- What the config file holds. -/
  file : κ
  /-- What the last `os.ReadFile` of `reload` returned. -/
  lastRead : Option κ
  watching : Bool
  /-- The relevant events the watch goroutine has not received yet. -/
  queue : ℕ
  /-- The debounce timer is armed. -/
  timer : Bool
  serverCfg : Option γ
  procs : List (Proc γ)
  /-- The process of the wrapper's inner command; none before its `Start`. -/
  cmd : Option ℕ
  waiters : List Waiter
deriving DecidableEq

inductive Act (κ : Type)
  /-- Somebody writes the config file. -/
  | change (c : κ)
  /-- A child ends. -/
  | exit (child : ℕ) (ok : Bool)
  /-- The watch goroutine receives an event. -/
  | event
  /-- The debounce timer fires. -/
  | fire
  /-- A waiter reads the inner command. -/
  | monitorRead (waiter : ℕ)
  /-- A waiter's `Wait` returns. -/
  | monitorReturn (waiter : ℕ)
  -- the steps of the main goroutine, and their failures
  | read
  | write
  | writeFail
  | start
  | startFail
  | spawn
  | register
  | registerFail
  | loop
  | kill
  | replace
  | waitReturn
deriving DecidableEq

variable {κ γ : Type}

namespace State

def Init (s : State κ γ) : Prop :=
  s.main = (if s.hasConfig then .reading .initial else .writingDefault) ∧ s.lastRead = none ∧
    s.watching = false ∧ s.queue = 0 ∧ s.timer = false ∧ s.procs = [] ∧ s.cmd = none ∧ s.waiters = []

/-- The state `Start` is called in: a config file that holds `c`, and the
`server.cfg` an earlier run has left. -/
def fresh (hasConfig : Bool) (c : κ) (g : Option γ) : State κ γ where
  hasConfig := hasConfig
  main := if hasConfig then .reading .initial else .writingDefault
  file := c
  lastRead := none
  watching := false
  queue := 0
  timer := false
  serverCfg := g
  procs := []
  cmd := none
  waiters := []

theorem init_fresh (b : Bool) (c : κ) (g : Option γ) : (fresh b c g).Init :=
  ⟨rfl, rfl, rfl, rfl, rfl, rfl, rfl, rfl⟩

def life? (s : State κ γ) (i : ℕ) : Option Life := s.procs[i]?.map Proc.life

def setLife (s : State κ γ) (i : ℕ) (l : Life) : State κ γ :=
  { s with procs := s.procs.modify i fun q => { q with life := l } }

/-- `reload` returned an error: `Start` returns it, the loop logs it. -/
def reloadFailed (s : State κ γ) : Round → State κ γ
  | .initial => { s with main := .returned .configFailed }
  | .again => { s with main := .looping }

/-- `reload` has written `g`: the first child starts, or `Restart` begins. -/
def reloaded (s : State κ γ) (g : γ) : Round → State κ γ
  | .initial => { s with serverCfg := some g, main := .starting .initial }
  | .again => { s with serverCfg := some g, main := .killing }

/-- `Wait` for a child: blocked while it lives, and only the first gets the status. -/
def wait (s : State κ γ) (i : ℕ) : Option (Option Bool × State κ γ) :=
  match s.life? i with
  | some (.exited ok) => some (some ok, s.setLife i (.reaped ok))
  | some (.reaped _) => some (none, s)
  | _ => none

/-- What a waiter that reads the inner command does next. Without a process
`Wait` returns an error at once. -/
def nextWaiter (s : State κ γ) : Waiter :=
  match s.cmd with
  | some i => .waiting i
  | none => .finished none

/-- `Process.Kill` on the current child; `os.ErrProcessDone` when it has been
waited for. -/
def kill (s : State κ γ) : State κ γ :=
  match s.cmd with
  | none => { s with main := .replacing }
  | some i => match s.life? i with
    | some (.reaped _) => { s with main := .returned .killFailed }
    | some (.exited _) | none => { s with main := .replacing }
    | some .running | some .dying => { s.setLife i .dying with main := .replacing }

end State

open State

/-- One step. The first six actions are those of the environment, the watch
goroutine and the waiters; the rest belong to the main goroutine. -/
def step (p : Program κ γ) (s : State κ γ) : Act κ → Option (State κ γ)
  | .change c => some { s with file := c, queue := if s.watching then s.queue + 1 else s.queue }
  | .exit i ok => match s.life? i with
    | some .running => some (s.setLife i (.exited ok))
    | some .dying => some (s.setLife i (.exited false))
    | _ => none
  | .event => match s.queue with
    | n + 1 => some { s with queue := n, timer := true }
    | 0 => none
  | .fire => match s.timer, s.main with
    | false, _ => none
    | true, .selecting => some { s with timer := false, main := .reading .again }
    -- nobody receives: the send is dropped
    | true, _ => some { s with timer := false }
  | .monitorRead j => match s.waiters[j]? with
    | some .spawned => some { s with waiters := s.waiters.set j s.nextWaiter }
    | _ => none
  | .monitorReturn j => match s.waiters[j]? with
    | some (.waiting i) =>
      (s.wait i).map fun (r, s) => { s with waiters := s.waiters.set j (.finished r) }
    | _ => none
  | .read => match s.main with
    | .reading r => some { s with lastRead := some s.file, main := .writing r s.file }
    | _ => none
  | .write => match s.main with
    | .writingDefault => some (s.reloaded p.default .initial)
    | .writing r c => match p.load c with
      | .fails => some (s.reloadFailed r)
      | .panics => some { s with main := .returned .panicked }
      | .gives g => some (s.reloaded g r)
    | _ => none
  | .writeFail => match s.main with
    | .writingDefault => some (s.reloadFailed .initial)
    | .writing r _ => some (s.reloadFailed r)
    | _ => none
  | .start => match s.main with
    | .starting r => some { s with
        procs := s.procs ++ [⟨.running, s.serverCfg⟩], cmd := some s.procs.length, main := .spawning r }
    | _ => none
  | .startFail => match s.main with
    | .starting _ => some { s with main := .returned .startFailed }
    | _ => none
  | .spawn => match s.main with
    | .spawning .initial => some { s with
        waiters := s.waiters ++ [.spawned],
        main := if s.hasConfig then .registering else .waiting s.cmd }
    | .spawning .again => some { s with waiters := s.waiters ++ [.spawned], main := .looping }
    | _ => none
  | .register => match s.main with
    | .registering => some { s with watching := true, main := .looping }
    | _ => none
  | .registerFail => match s.main with
    | .registering => some { s with main := .returned .watchFailed }
    | _ => none
  | .loop => match s.main with
    | .looping => some { s with main := .selecting }
    | _ => none
  | .kill => match s.main with
    | .killing => some s.kill
    | _ => none
  | .replace => match s.main with
    | .replacing => some { s with cmd := none, main := .starting .again }
    | _ => none
  | .waitReturn => match s.main with
    | .waiting none => some { s with main := .returned (.waited none) }
    | .waiting (some i) => (s.wait i).map fun (r, s) => { s with main := .returned (.waited r) }
    | _ => none

/-- A step of the main goroutine. -/
def Act.IsMain : Act κ → Prop
  | .change _ | .exit _ _ | .event | .fire | .monitorRead _ | .monitorReturn _ => False
  | _ => True

/-- `Wait` for child `i` returns status `r` and leaves `s'`. -/
inductive Waited (s : State κ γ) (i : ℕ) : Option Bool → State κ γ → Prop
  | status {ok : Bool} : s.life? i = some (.exited ok) → Waited s i (some ok) (s.setLife i (.reaped ok))
  | error {ok : Bool} : s.life? i = some (.reaped ok) → Waited s i none s

/-- What each action can do, one constructor for each way it can go. -/
inductive Step (p : Program κ γ) (s : State κ γ) : Act κ → State κ γ → Prop
  | change (c : κ) :
      Step p s (.change c) { s with file := c, queue := if s.watching then s.queue + 1 else s.queue }
  | exit {i : ℕ} {ok : Bool} : s.life? i = some .running → Step p s (.exit i ok) (s.setLife i (.exited ok))
  | killed {i : ℕ} {ok : Bool} : s.life? i = some .dying → Step p s (.exit i ok) (s.setLife i (.exited false))
  | event {n : ℕ} : s.queue = n + 1 → Step p s .event { s with queue := n, timer := true }
  | received : s.timer = true → s.main = .selecting →
      Step p s .fire { s with timer := false, main := .reading .again }
  | dropped : s.timer = true → s.main ≠ .selecting → Step p s .fire { s with timer := false }
  | monitorRead {j : ℕ} : s.waiters[j]? = some .spawned →
      Step p s (.monitorRead j) { s with waiters := s.waiters.set j s.nextWaiter }
  | monitorReturn {j i : ℕ} {r : Option Bool} {t : State κ γ} : s.waiters[j]? = some (.waiting i) →
      Waited s i r t → Step p s (.monitorReturn j) { t with waiters := t.waiters.set j (.finished r) }
  | read {r : Round} : s.main = .reading r →
      Step p s .read { s with lastRead := some s.file, main := .writing r s.file }
  | writeDefault : s.main = .writingDefault → Step p s .write (s.reloaded p.default .initial)
  | write {r : Round} {c : κ} {g : γ} : s.main = .writing r c → p.load c = .gives g →
      Step p s .write (s.reloaded g r)
  | invalid {r : Round} {c : κ} : s.main = .writing r c → p.load c = .fails →
      Step p s .write (s.reloadFailed r)
  | panic {r : Round} {c : κ} : s.main = .writing r c → p.load c = .panics →
      Step p s .write { s with main := .returned .panicked }
  | writeFail {r : Round} {c : κ} : s.main = .writing r c → Step p s .writeFail (s.reloadFailed r)
  | defaultFail : s.main = .writingDefault → Step p s .writeFail (s.reloadFailed .initial)
  | start {r : Round} : s.main = .starting r → Step p s .start { s with
      procs := s.procs ++ [⟨.running, s.serverCfg⟩], cmd := some s.procs.length, main := .spawning r }
  | startFail {r : Round} : s.main = .starting r →
      Step p s .startFail { s with main := .returned .startFailed }
  | spawnFirst : s.main = .spawning .initial → Step p s .spawn { s with
      waiters := s.waiters ++ [.spawned],
      main := if s.hasConfig then .registering else .waiting s.cmd }
  | spawnAgain : s.main = .spawning .again →
      Step p s .spawn { s with waiters := s.waiters ++ [.spawned], main := .looping }
  | register : s.main = .registering → Step p s .register { s with watching := true, main := .looping }
  | registerFail : s.main = .registering →
      Step p s .registerFail { s with main := .returned .watchFailed }
  | loop : s.main = .looping → Step p s .loop { s with main := .selecting }
  | kill : s.main = .killing → Step p s .kill s.kill
  | replace : s.main = .replacing → Step p s .replace { s with cmd := none, main := .starting .again }
  | waitNothing : s.main = .waiting none →
      Step p s .waitReturn { s with main := .returned (.waited none) }
  | waitReturn {i : ℕ} {r : Option Bool} {t : State κ γ} : s.main = .waiting (some i) →
      Waited s i r t → Step p s .waitReturn { t with main := .returned (.waited r) }

theorem wait_cases {s : State κ γ} {i : ℕ} {r : Option Bool} {t : State κ γ}
    (h : s.wait i = some (r, t)) : Waited s i r t := by
  unfold State.wait at h
  split at h
  · cases h
    exact .status ‹_›
  · cases h
    exact .error ‹_›
  · cases h

/-- Every step is one of `Step`'s. -/
theorem step_cases {p : Program κ γ} {s s' : State κ γ} {a : Act κ} (h : step p s a = some s') :
    Step p s a s' := by
  cases a with
  | change c => cases h; exact .change c
  | exit i ok =>
    simp only [step] at h
    split at h
    · cases h; exact .exit ‹_›
    · cases h; exact .killed ‹_›
    · cases h
  | event =>
    simp only [step] at h
    split at h
    · cases h; exact .event ‹_›
    · cases h
  | fire =>
    simp only [step] at h
    split at h
    · cases h
    · cases h; exact .received ‹_› ‹_›
    · cases h; exact .dropped ‹_› (by assumption)
  | monitorRead j =>
    simp only [step] at h
    split at h
    · cases h; exact .monitorRead ‹_›
    · cases h
  | monitorReturn j =>
    simp only [step] at h
    split at h
    · obtain ⟨⟨r, t⟩, hw, rfl⟩ := Option.map_eq_some_iff.mp h
      exact .monitorReturn ‹_› (wait_cases hw)
    · cases h
  | write =>
    simp only [step] at h
    split at h
    · cases h; exact .writeDefault ‹_›
    · split at h
      · cases h; exact .invalid ‹_› ‹_›
      · cases h; exact .panic ‹_› ‹_›
      · cases h; exact .write ‹_› ‹_›
    · cases h
  | writeFail =>
    simp only [step] at h
    split at h
    · cases h; exact .defaultFail ‹_›
    · cases h; exact .writeFail ‹_›
    · cases h
  | spawn =>
    simp only [step] at h
    split at h
    · cases h; exact .spawnFirst ‹_›
    · cases h; exact .spawnAgain ‹_›
    · cases h
  | waitReturn =>
    simp only [step] at h
    split at h
    · cases h; exact .waitNothing ‹_›
    · obtain ⟨⟨r, t⟩, hw, rfl⟩ := Option.map_eq_some_iff.mp h
      exact .waitReturn ‹_› (wait_cases hw)
    · cases h
  | read | start | startFail | register | registerFail | loop | kill | replace =>
    simp only [step] at h
    split at h
    · cases h
      constructor
      assumption
    · cases h

end Server
end QuakeKube
