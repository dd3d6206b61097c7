/-
# Replacing the child

`Restart` kills the child and starts the next one right away, and it gives up
when the kill fails. Two things follow, one for each state the child can be in
when `Kill` is called. If it is alive, it may still be alive when its
replacement starts, on the same port (`two_live_of_kill`); only a child that has
ended by then is replaced safely (`one_live`). If `monitorProcess` has already
waited for it, `Kill` returns `os.ErrProcessDone`, `watchAndReload` returns it,
and no child is started any more (`no_child_of_reaped`); a child nobody has
waited for is always replaced (`child_started`).

Key definitions: `State.Live`, `Vacated`, `Unreaped`, `State.Started`.
Key theorems: `one_live`, `two_live_of_kill`, `child_started`, `no_child_of_reaped`.
-/
import QuakeKube.Server.HotReload

namespace QuakeKube
namespace Server

open Run

variable {κ γ : Type} {p : Program κ γ}

/-! ### How a step changes the children -/

/-- The process has not ended. -/
def State.Live (s : State κ γ) (i : ℕ) : Prop := s.life? i = some .running ∨ s.life? i = some .dying

instance (s : State κ γ) (i : ℕ) : Decidable (s.Live i) := by unfold State.Live; infer_instance

/-- `Kill` is called on a child that has ended. -/
def Vacated (s : State κ γ) : Act κ → Prop
  | .kill => ∀ i ∈ s.cmd, ¬ s.Live i
  | _ => True

/-- `Kill` is called on a child nobody has waited for. -/
def Unreaped (s : State κ γ) : Act κ → Prop
  | .kill => ∀ i ∈ s.cmd, s.life? i ≠ some (.reaped true) ∧ s.life? i ≠ some (.reaped false)
  | _ => True

/-- The action is the `Kill` of a restart. -/
def Act.isKill : Act κ → Bool
  | .kill => true
  | _ => false

theorem vacated_iff (s : State κ γ) (a : Act κ) :
    (a.isKill = true → ∀ i ∈ s.cmd, ¬ s.Live i) ↔ Vacated s a := by
  cases a <;> simp [Act.isKill, Vacated]

theorem unreaped_iff (s : State κ γ) (a : Act κ) :
    (a.isKill = true → ∀ i ∈ s.cmd, s.life? i ≠ some (.reaped true) ∧ s.life? i ≠ some (.reaped false)) ↔
      Unreaped s a := by
  cases a <;> simp [Act.isKill, Unreaped]

instance (s : State κ γ) (a : Act κ) : Decidable (Vacated s a) := decidable_of_iff _ (vacated_iff s a)

instance (s : State κ γ) (a : Act κ) : Decidable (Unreaped s a) := decidable_of_iff _ (unreaped_iff s a)

theorem life?_setLife (s : State κ γ) (i j : ℕ) (l : Life) :
    (s.setLife i l).life? j = if i = j then (s.life? j).map fun _ => l else s.life? j := by
  simp only [State.life?, State.setLife, List.getElem?_modify, Option.map_map]
  split <;> simp_all [Function.comp_def]

@[simp] theorem setLife_length (s : State κ γ) (i : ℕ) (l : Life) :
    (s.setLife i l).procs.length = s.procs.length := by
  simp [State.setLife]

/-- A process that ends is no more alive, and no other comes alive. -/
theorem live_of_setLife {s : State κ γ} {i j : ℕ} {l : Life} (hl : l ≠ .running) (hl' : l ≠ .dying)
    (h : (s.setLife i l).Live j) : s.Live j ∧ j ≠ i := by
  by_cases hij : i = j
  · subst hij
    rcases hi : s.life? i with _ | m <;> simp [State.Live, life?_setLife, hi, hl, hl'] at h
  · simp only [State.Live, life?_setLife, if_neg hij] at h
    exact ⟨h, fun h => hij h.symm⟩

theorem Waited.live {s t : State κ γ} {i j : ℕ} {r : Option Bool} (h : Waited s i r t) (hj : t.Live j) :
    s.Live j := by
  cases h with
  | status => exact (live_of_setLife (by simp) (by simp) hj).1
  | error => exact hj

theorem Waited.cmd_eq {s t : State κ γ} {i : ℕ} {r : Option Bool} (h : Waited s i r t) :
    t.cmd = s.cmd := by
  cases h <;> rfl

/-- A process is alive after `Start` if it is the new one or was alive before. -/
theorem live_start {s : State κ γ} {q : Proc γ} {c : Option ℕ} {m : Main κ} {j : ℕ}
    (h : State.Live { s with procs := s.procs ++ [q], cmd := c, main := m } j) :
    s.Live j ∨ j = s.procs.length := by
  rcases Nat.lt_trichotomy j s.procs.length with hj | hj | hj
  · left
    simpa [State.Live, State.life?, List.getElem?_append_left hj] using h
  · exact .inr hj
  · have : (s.procs ++ [q])[j]? = none := List.getElem?_eq_none (by simp; omega)
    simp [State.Live, State.life?, this] at h

/-- The four ways `Kill` can go. -/
theorem kill_cases (s : State κ γ) :
    (s.cmd = none ∧ s.kill = { s with main := .replacing }) ∨
    ∃ i, s.cmd = some i ∧
      (((∃ b, s.life? i = some (.reaped b)) ∧ s.kill = { s with main := .returned .killFailed }) ∨
      (s.Live i ∧ s.kill = { s.setLife i .dying with main := .replacing }) ∨
      (¬ s.Live i ∧ (∀ b, s.life? i ≠ some (.reaped b)) ∧ s.kill = { s with main := .replacing })) := by
  unfold State.kill
  split
  · exact .inl ⟨‹_›, rfl⟩
  · rename_i i hi
    refine .inr ⟨i, hi, ?_⟩
    split
    · exact .inl ⟨⟨_, ‹_›⟩, rfl⟩
    · exact .inr (.inr ⟨by simp_all [State.Live], by simp_all, rfl⟩)
    · exact .inr (.inr ⟨by simp_all [State.Live], by simp_all, rfl⟩)
    · exact .inr (.inl ⟨.inl ‹_›, rfl⟩)
    · exact .inr (.inl ⟨.inr ‹_›, rfl⟩)

/-! ### One live child -/

/-- Places of the main goroutine where no child may be alive: before the first
`Start`, and in `Restart` after the kill. -/
def Main.Vacant : Main κ → Prop
  | .writingDefault | .reading .initial | .writing .initial _ | .starting _ | .replacing => True
  | _ => False

structure Single (s : State κ γ) : Prop where
  current : ∀ i, s.Live i → s.cmd = some i
  vacant : s.main.Vacant → ∀ i, ¬ s.Live i

theorem Single.move {s s' : State κ γ} (hI : Single s) (hl : ∀ i, s'.Live i → s.Live i)
    (hc : s'.cmd = s.cmd) (hm : s'.main.Vacant → s.main.Vacant) : Single s' :=
  ⟨fun i hi => hc ▸ hI.current i (hl i hi), fun hv i hi => hI.vacant (hm hv) i (hl i hi)⟩

theorem single_kill {s : State κ γ} (hI : Single s) (hk : ∀ i ∈ s.cmd, ¬ s.Live i) : Single s.kill := by
  have hnone : ∀ i, ¬ s.Live i := fun i hi => hk i (hI.current i hi) hi
  have hsame : ∀ m, Single { s with main := m } := fun m =>
    ⟨fun i hi => absurd hi (hnone i), fun _ => hnone⟩
  rcases kill_cases s with ⟨-, h⟩ | ⟨i, hi, ⟨-, h⟩ | ⟨hl, -⟩ | ⟨-, -, h⟩⟩
  · exact h ▸ hsame _
  · exact h ▸ hsame _
  · exact absurd hl (hnone i)
  · exact h ▸ hsame _

theorem single_step {s s' : State κ γ} {a : Act κ} (hI : Single s) (hk : Vacated s a)
    (h : Step p s a s') : Single s' := by
  cases h with
  | change | event | dropped | monitorRead => exact ⟨hI.current, hI.vacant⟩
  | exit | killed =>
    exact hI.move (fun _ hi => (live_of_setLife (by simp) (by simp) hi).1) rfl id
  | monitorReturn _ hw =>
    have hm := hw.watch_eq.1
    exact hI.move (fun _ hi => hw.live hi) hw.cmd_eq fun h => hm ▸ h
  | received | panic | startFail | spawnAgain | register | registerFail | loop | waitNothing =>
    exact hI.move (fun _ => id) rfl fun h => h.elim
  | read hm =>
    rename_i r
    exact hI.move (fun _ => id) rfl fun h => by cases r <;> simp_all [Main.Vacant]
  | writeDefault hm | defaultFail hm =>
    exact hI.move (fun _ => id) rfl fun _ => by simp [hm, Main.Vacant]
  | @write r _ _ hm | @invalid r _ hm | @writeFail r _ hm =>
    cases r with
    | initial => exact hI.move (fun _ => id) rfl fun _ => by simp [hm, Main.Vacant]
    | again => exact hI.move (fun _ => id) rfl fun h => h.elim
  | start hm =>
    have hnone := hI.vacant (by simp [hm, Main.Vacant])
    refine ⟨fun i hi => ?_, fun h => h.elim⟩
    rcases live_start hi with hi | rfl
    · exact absurd hi (hnone i)
    · rfl
  | spawnFirst hm =>
    refine hI.move (fun _ => id) rfl fun h => ?_
    revert h
    cases s.hasConfig <;> simp [Main.Vacant]
  | kill => exact single_kill hI hk
  | replace hm =>
    have hnone := hI.vacant (by simp [hm, Main.Vacant])
    exact ⟨fun i hi => absurd hi (hnone i), fun _ => hnone⟩
  | waitReturn _ hw => exact hI.move (fun _ hi => hw.live hi) hw.cmd_eq fun h => h.elim

theorem single_init {s : State κ γ} (h : s.Init) : Single s := by
  have hp : s.procs = [] := h.2.2.2.2.2.1
  have hnone : ∀ i, ¬ s.Live i := fun i hi => by simp [State.Live, State.life?, hp] at hi
  exact ⟨fun i hi => absurd hi (hnone i), fun _ => hnone⟩

/-- **At most one child is alive** in every run whose kills all find the child
ended. -/
theorem one_live {s : State κ γ} (h : Reach (step p) Vacated State.Init s) {i j : ℕ}
    (hi : s.Live i) (hj : s.Live j) : i = j := by
  have hI : Single s :=
    h.invariant (fun _ => single_init) fun _ _ _ hI hk hs => single_step hI hk (step_cases hs)
  exact Option.some.inj ((hI.current i hi).symm.trans (hI.current j hj))

/-- A reload after the child has ended, before its waiter returns. -/
theorem one_live_exited :
    ∃ s ∈ run (step .copy) (State.fresh true 0 none)
      [.read, .write, .start, .spawn, .register, .loop, .change 1, .exit 0 false, .event, .fire,
        .read, .write, .kill, .replace, .start, .spawn, .loop],
      s.Live 1 ∧ ∀ i, s.Live i → i = 1 := by
  obtain ⟨s, hs, hl⟩ : ∃ s ∈ run (step .copy) (State.fresh true 0 none)
      [.read, .write, .start, .spawn, .register, .loop, .change 1, .exit 0 false, .event, .fire,
        .read, .write, .kill, .replace, .start, .spawn, .loop], s.Live 1 := by decide
  have hr : Reach (step .copy) Vacated State.Init s :=
    Reach.of_run (.start (State.init_fresh true 0 none)) (by decide) hs
  exact ⟨s, hs, hl, fun i hi => one_live hr hi hl⟩

/-- **Two live children** after one reload. -/
theorem two_live :
    ∃ s ∈ run (step .copy) (State.fresh true 0 none)
      [.read, .write, .start, .spawn, .register, .loop, .change 1, .event, .fire,
        .read, .write, .kill, .replace, .start],
      s.Live 0 ∧ s.Live 1 := by
  decide

/-- **A live child can outlive its replacement's start**, wherever `Kill` finds one. -/
theorem two_live_of_kill {s : State κ γ} {i : ℕ} (hm : s.main = .killing) (hc : s.cmd = some i)
    (hl : s.Live i) :
    ∃ t ∈ run (step p) s [.kill, .replace, .start], t.Live i ∧ ∃ j, j ≠ i ∧ t.Live j := by
  have hi : i < s.procs.length := by
    by_contra h
    have : s.procs[i]? = none := List.getElem?_eq_none (by omega)
    simp [State.Live, State.life?, this] at hl
  have hk : s.kill = { s.setLife i .dying with main := .replacing } := by
    rcases kill_cases s with ⟨h, -⟩ | ⟨j, hj, h⟩
    · simp [h] at hc
    · obtain rfl : j = i := Option.some.inj (hj.symm.trans hc)
      rcases h with ⟨⟨b, hb⟩, -⟩ | ⟨-, h⟩ | ⟨h, -⟩
      · rcases hl with hl | hl <;> simp [hb] at hl
      · exact h
      · exact absurd hl h
  refine ⟨_, by simp only [run_cons, step, hm, Option.bind_some, hk, run_nil]; rfl, .inr ?_,
    s.procs.length, by omega, .inl ?_⟩
  · simp [State.life?, State.setLife, hi, List.getElem?_append_left]
  · simp [State.life?]

/-! ### A child that has been waited for -/

/-- Child `k` has been started, with `g` for its `server.cfg`. -/
def State.Started (s : State κ γ) (k : ℕ) (g : γ) : Prop :=
  s.cmd = some k ∧ s.procs[k]?.map Proc.cfg = some (some g)

/-- A reload has written `g`, `Restart` is at `m`, and `k` children have been started. -/
structure State.Restarting (s : State κ γ) (m : Main κ) (g : γ) (k : ℕ) : Prop where
  main : s.main = m
  cfg : s.serverCfg = some g
  length : s.procs.length = k

/-- Outside its `select`, the main goroutine and what it works on are left alone
by everybody else. -/
theorem restarting_env {s s' : State κ γ} {a : Act κ} {m : Main κ} {g : γ} {k : ℕ} (ha : ¬ a.IsMain)
    (hm : m ≠ .selecting) (hP : s.Restarting m g k) (h : Step p s a s') : s'.Restarting m g k := by
  cases h with
  | change | event | dropped | monitorRead => exact ⟨hP.main, hP.cfg, hP.length⟩
  | exit | killed => exact ⟨hP.main, hP.cfg, (setLife_length _ _ _).trans hP.length⟩
  | received _ h => exact absurd (hP.main.symm.trans h) hm
  | monitorReturn _ hw =>
    cases hw with
    | status => exact ⟨hP.main, hP.cfg, (setLife_length _ _ _).trans hP.length⟩
    | error => exact ⟨hP.main, hP.cfg, hP.length⟩
  | _ => exact absurd trivial ha

theorem kill_of_unreaped {s : State κ γ} (h : ∀ i ∈ s.cmd, s.life? i ≠ some (.reaped true) ∧
    s.life? i ≠ some (.reaped false)) {m : Main κ} {g : γ} {k : ℕ} (hP : s.Restarting m g k) :
    s.kill.Restarting .replacing g k := by
  rcases kill_cases s with ⟨-, hk⟩ | ⟨i, hi, ⟨⟨b, hb⟩, -⟩ | ⟨-, hk⟩ | ⟨-, -, hk⟩⟩
  · exact hk ▸ ⟨rfl, hP.cfg, hP.length⟩
  · cases b
    · exact absurd hb (h i hi).2
    · exact absurd hb (h i hi).1
  · exact hk ▸ ⟨rfl, hP.cfg, (setLife_length _ _ _).trans hP.length⟩
  · exact hk ▸ ⟨rfl, hP.cfg, hP.length⟩

/-- No step but a kill of a reaped child fails with `killFailed`. -/
theorem killFailed_step {s s' : State κ γ} {a : Act κ} (hk : Unreaped s a)
    (hs : s.main ≠ .returned .killFailed) (h : Step p s a s') : s'.main ≠ .returned .killFailed := by
  cases h with
  | change | event | dropped | monitorRead | exit | killed => exact hs
  | monitorReturn _ hw => exact hw.watch_eq.1 ▸ hs
  | kill =>
    rcases kill_cases s with ⟨-, h⟩ | ⟨i, hi, ⟨⟨b, hb⟩, -⟩ | ⟨-, h⟩ | ⟨-, -, h⟩⟩
    · simp [h]
    · cases b
      · exact absurd hb (hk i hi).2
      · exact absurd hb (hk i hi).1
    · simp [h]
    · simp [h]
  | @write r | @invalid r | @writeFail r => cases r <;> simp [State.reloaded, State.reloadFailed]
  | spawnFirst => cases s.hasConfig <;> simp
  | _ => simp [State.reloaded, State.reloadFailed]

theorem main_kill {s s' : State κ γ} {a : Act κ} (ha : a.IsMain) (hm : s.main = .killing)
    (h : Step p s a s') : a = .kill ∧ s' = s.kill := by
  cases h with
  | kill => exact ⟨rfl, rfl⟩
  | change | exit | killed | event | received | dropped | monitorRead | monitorReturn => exact ha.elim
  | _ => simp_all

theorem main_replace {s s' : State κ γ} {a : Act κ} (ha : a.IsMain) (hm : s.main = .replacing)
    (h : Step p s a s') : s' = { s with cmd := none, main := .starting .again } := by
  cases h with
  | replace => rfl
  | change | exit | killed | event | received | dropped | monitorRead | monitorReturn => exact ha.elim
  | _ => simp_all

theorem main_start {s s' : State κ γ} {a : Act κ} {g : γ} {k : ℕ} (ha : a.IsMain)
    (hP : s.Restarting (.starting .again) g k) (h : Step p s a s') :
    s'.Started k g ∨ s'.main = .returned .startFailed := by
  have hm := hP.main
  cases h with
  | start =>
    left
    obtain ⟨-, hg, rfl⟩ := hP
    exact ⟨rfl, by simp [hg]⟩
  | startFail => exact .inr rfl
  | change | exit | killed | event | received | dropped | monitorRead | monitorReturn => exact ha.elim
  | _ => simp_all

/-- The main goroutine leaves a place of `Restart` by its own next step. -/
theorem leadsTo_restarting {e : Execution (step p)} (hok : e.Meets Unreaped) (hf : e.WeaklyFair Act.IsMain)
    {m : Main κ} (hm : m ≠ .selecting) {g : γ} {k : ℕ} {Q : State κ γ → Prop}
    (hhelp : ∀ s a s', Unreaped s a → a.IsMain → s.Restarting m g k → Step p s a s' → Q s')
    (hable : ∀ s : State κ γ, s.main = m → ∃ a, a.IsMain ∧ step p s a ≠ none) :
    e.LeadsTo (State.Restarting · m g k) Q := by
  apply Execution.leadsTo_of_ensures hok hf
  · intro s a s' _ ha hP hs
    exact .inl (restarting_env ha hm hP (step_cases hs))
  · intro s a s' hk ha hP hs
    exact hhelp s a s' hk ha hP (step_cases hs)
  · intro s hP
    exact hable s hP.main

/-- **A reload that has written `server.cfg` starts a new child with it**, unless
the start itself fails, and no kill fails, in every fair execution whose kills all
find the child not waited for. -/
theorem child_started (e : Execution (step p)) (h0 : (e.state 0).Init) (hok : e.Meets Unreaped)
    (hf : e.WeaklyFair Act.IsMain) :
    (∀ n, (e.state n).main ≠ .returned .killFailed) ∧
    ∀ n g, (e.state n).main = .killing → (e.state n).serverCfg = some g →
      ∃ m, n ≤ m ∧ ((e.state m).Started (e.state n).procs.length g ∨
        (e.state m).main = .returned .startFailed) := by
  constructor
  · intro n
    refine (Execution.reach h0 hok n).invariant (fun s hs => ?_) fun s a s' hI hk hs =>
      killFailed_step hk hI (step_cases hs)
    rw [hs.1]
    split <;> simp
  · intro n g hm hg
    have h1 : ∀ k, e.LeadsTo (State.Restarting · .killing g k) (State.Restarting · .replacing g k) := by
      refine fun k => leadsTo_restarting hok hf (by simp) (fun s a s' hk ha hP hs => ?_)
        fun s hm => ⟨.kill, trivial, by simp [step, hm]⟩
      obtain ⟨rfl, rfl⟩ := main_kill ha hP.main hs
      exact kill_of_unreaped hk hP
    have h2 : ∀ k, e.LeadsTo (State.Restarting · .replacing g k)
        (State.Restarting · (.starting .again) g k) := by
      refine fun k => leadsTo_restarting hok hf (by simp) (fun s a s' _ ha hP hs => ?_)
        fun s hm => ⟨.replace, trivial, by simp [step, hm]⟩
      rw [main_replace ha hP.main hs]
      exact ⟨rfl, hP.cfg, hP.length⟩
    have h3 : ∀ k, e.LeadsTo (State.Restarting · (.starting .again) g k)
        fun s => s.Started k g ∨ s.main = .returned .startFailed := by
      refine fun k => leadsTo_restarting hok hf (by simp) (fun s a s' _ ha hP hs => ?_)
        fun s hm => ⟨.start, trivial, by simp [step, hm]⟩
      exact main_start ha hP hs
    exact ((h1 _).trans (h2 _)).trans (h3 _) n ⟨hm, hg, rfl⟩

/-- In its `select` the main goroutine waits for somebody else. -/
theorem selecting_idle {s : State κ γ} (hm : s.main = .selecting) {a : Act κ} (ha : a.IsMain) :
    step p s a = none := by
  cases a <;> first | exact ha.elim | simp [step, hm]

/-- On `reloadOnce` the new child is started. -/
theorem child_started_reloadOnce :
    ∃ t, ∃ h : run (step .copy) (State.fresh true 0 none) reloadOnce = some t,
      ∃ m, 11 ≤ m ∧ (((Execution.ofRun reloadOnce h).state m).Started 1 1 ∨
        ((Execution.ofRun reloadOnce h).state m).main = .returned .startFailed) := by
  obtain ⟨t, h, hm⟩ : ∃ t ∈ run (step .copy) (State.fresh true 0 none) reloadOnce,
      t.main = .selecting := by decide
  exact ⟨t, h, (child_started (Execution.ofRun reloadOnce h) (State.init_fresh true 0 none)
    (Execution.ofRun_meets h (by decide))
    (Execution.ofRun_weaklyFair h fun a ha => selecting_idle hm ha)).2 11 1 rfl rfl⟩

/-- **A reload that ends the supervisor**: the first child has crashed and has
been waited for; the new `server.cfg` is written, and `Kill` fails. -/
theorem child_not_started :
    ∃ s ∈ run (step .copy) (State.fresh true 0 none)
      [.read, .write, .start, .spawn, .register, .loop, .exit 0 false, .monitorRead 0,
        .monitorReturn 0, .change 1, .event, .fire, .read, .write],
      s.main = .killing ∧ s.serverCfg = some 1 ∧
        ∃ t ∈ step .copy s .kill, t.main = .returned .killFailed ∧ t.procs.length = 1 := by
  decide

/-- `Restart` is about to kill a child that has been waited for, or has tried to. -/
def State.Doomed (s : State κ γ) (i : ℕ) (b : Bool) (k : ℕ) : Prop :=
  s.procs.length = k ∧ (s.main = .returned .killFailed ∨
    (s.main = .killing ∧ s.cmd = some i ∧ s.life? i = some (.reaped b)))

theorem life?_setLife_of_ne {s : State κ γ} {i j : ℕ} {l m m' : Life} (hi : s.life? i = some m)
    (hj : s.life? j = some m') (hne : m ≠ m') : (s.setLife j l).life? i = some m := by
  rw [life?_setLife, if_neg, hi]
  rintro rfl
  exact hne (Option.some.inj (hi.symm.trans hj))

theorem doomed_step {s s' : State κ γ} {a : Act κ} {i k : ℕ} {b : Bool} (hI : s.Doomed i b k)
    (h : Step p s a s') : s'.Doomed i b k := by
  have hset : ∀ j l m, s.life? j = some m → (∀ b, m ≠ .reaped b) → (s.setLife j l).Doomed i b k := by
    intro j l m hj hne
    refine ⟨(setLife_length _ _ _).trans hI.1, hI.2.imp id fun ⟨h1, h2, h3⟩ => ⟨h1, h2, ?_⟩⟩
    exact life?_setLife_of_ne h3 hj (hne b).symm
  cases h with
  | change | event | dropped | monitorRead => exact hI
  | exit hj | killed hj => exact hset _ _ _ hj (by simp)
  | monitorReturn _ hw =>
    cases hw with
    | status hj => exact hset _ _ _ hj (by simp)
    | error => exact hI
  | kill hm =>
    rcases hI with ⟨hk, h | ⟨-, hc, hb⟩⟩
    · simp [h] at hm
    · refine ⟨?_, .inl ?_⟩ <;> simp [State.kill, hc, hb, hk]
  | received _ hm | read hm | writeDefault hm | write hm | invalid hm | panic hm | writeFail hm
  | defaultFail hm | start hm | startFail hm | spawnFirst hm | spawnAgain hm | register hm
  | registerFail hm | loop hm | replace hm | waitNothing hm | waitReturn hm =>
    rcases hI with ⟨-, h | ⟨h, -⟩⟩ <;> simp [h] at hm

/-- **No child is started any more** once a reload finds the child waited for. -/
theorem no_child_of_reaped {s t : State κ γ} {i : ℕ} {b : Bool} (hm : s.main = .killing)
    (hc : s.cmd = some i) (hb : s.life? i = some (.reaped b))
    (h : Reach (step p) always (· = s) t) : t.procs.length = s.procs.length := by
  have hs : s.Doomed i b s.procs.length := ⟨rfl, .inr ⟨hm, hc, hb⟩⟩
  have hI : t.Doomed i b s.procs.length :=
    h.invariant (I := (State.Doomed · i b s.procs.length)) (fun _ ht => ht ▸ hs)
      fun _ _ _ hI _ hs => doomed_step hI (step_cases hs)
  exact hI.1

end Server
end QuakeKube
