/-
# What the hot-reload loop loses

A change of the config file queues an event, an event arms the debounce timer,
the timer's firing sends on a channel nobody may be receiving from, and a
received send reloads. So a change is on its way to a reload while an event is
queued, the timer is armed or a reload is about to read (`Pending`). It drops
out at two places: a change before `watch` has registered the watcher queues no
event, and a send is dropped while `watchAndReload` is past the read of an
earlier reload. `Keeps` says that neither happens; then no change is lost
(`lastRead_eq_file`), and where one of them does, the change is lost for good
(`lost_of_not_keeps`).

Key definitions: `Pending`, `Keeps`.
Key theorems: `lastRead_eq_file`, `lost_of_not_keeps`.
-/
import QuakeKube.Server.Start

namespace QuakeKube
namespace Server

open Run

variable {κ γ : Type} {p : Program κ γ}

/-- The main goroutine is in the loop of `watchAndReload`. -/
def Main.InLoop : Main κ → Prop
  | .reading .again | .writing .again _ | .starting .again | .spawning .again
  | .looping | .selecting | .killing | .replacing => True
  | _ => False

/-- In the loop, and neither in its `select` nor at the read of a reload. -/
def Main.Busy : Main κ → Prop
  | .writing .again _ | .starting .again | .spawning .again | .looping | .killing | .replacing => True
  | _ => False

instance : DecidablePred (Main.Busy (κ := κ)) := fun m => by
  unfold Main.Busy; split <;> infer_instance

/-- The file's content has been read, or a reload that will read it is on its way. -/
def Pending (s : State κ γ) : Prop :=
  s.lastRead = some s.file ∨ 0 < s.queue ∨ s.timer = true ∨ s.main = .reading .again

/-- The two places where a change can be lost: the watcher is registered only
after the file has changed, or the timer fires while the loop is busy, the file
has changed since the last read and no later event is queued. -/
def Keeps (s : State κ γ) : Act κ → Prop
  | .register => s.lastRead = some s.file
  | .fire => ¬ (s.main.Busy ∧ s.lastRead ≠ some s.file ∧ s.queue = 0)
  | _ => True

instance [DecidableEq κ] (s : State κ γ) (a : Act κ) : Decidable (Keeps s a) := by
  unfold Keeps; split <;> infer_instance

/-- Before the watcher is registered there are no events; from then on the
loop may run. -/
structure Wired (s : State κ γ) : Prop where
  loop : s.main.InLoop → s.watching = true
  queue : s.watching = false → s.queue = 0
  timer : s.watching = false → s.timer = false
  /-- The way into the loop is not taken again. -/
  once : s.watching = true → s.main.InLoop ∨ ∃ o, s.main = .returned o

theorem Waited.watch_eq {s t : State κ γ} {i : ℕ} {r : Option Bool} (h : Waited s i r t) :
    t.main = s.main ∧ t.file = s.file ∧ t.lastRead = s.lastRead ∧ t.watching = s.watching ∧
      t.queue = s.queue ∧ t.timer = s.timer := by
  cases h <;> exact ⟨rfl, rfl, rfl, rfl, rfl, rfl⟩

/-- `Kill` leaves the watch goroutine's part alone and stays in the loop or returns. -/
theorem kill_watch_eq (s : State κ γ) :
    s.kill.file = s.file ∧ s.kill.lastRead = s.lastRead ∧ s.kill.watching = s.watching ∧
      s.kill.queue = s.queue ∧ s.kill.timer = s.timer ∧
      (s.kill.main = .replacing ∨ s.kill.main = .returned .killFailed) := by
  unfold State.kill
  split
  · exact ⟨rfl, rfl, rfl, rfl, rfl, .inl rfl⟩
  · split
    · exact ⟨rfl, rfl, rfl, rfl, rfl, .inr rfl⟩
    all_goals exact ⟨rfl, rfl, rfl, rfl, rfl, .inl rfl⟩

/-- A step that leaves the watch goroutine alone stays in the loop, returns, or
stays on the way into the loop. -/
theorem Wired.move {s s' : State κ γ} (hI : Wired s)
    (heq : s'.watching = s.watching ∧ s'.queue = s.queue ∧ s'.timer = s.timer)
    (h : (s.main.InLoop ∧ s'.main.InLoop) ∨ (∃ o, s'.main = .returned o) ∨
      (¬ s.main.InLoop ∧ (∀ o, s.main ≠ .returned o) ∧ ¬ s'.main.InLoop)) : Wired s' := by
  obtain ⟨hw, hq, ht⟩ := heq
  refine ⟨fun hl => ?_, fun h => ?_, fun h => ?_, fun hwt => ?_⟩
  · rw [hw]
    rcases h with ⟨h, -⟩ | ⟨o, ho⟩ | ⟨-, -, h⟩
    · exact hI.loop h
    · simp [ho, Main.InLoop] at hl
    · exact absurd hl h
  · rw [hq]
    exact hI.queue (hw ▸ h)
  · rw [ht]
    exact hI.timer (hw ▸ h)
  · rcases h with ⟨-, h⟩ | ⟨o, ho⟩ | ⟨h1, h2, -⟩
    · exact .inl h
    · exact .inr ⟨o, ho⟩
    · rcases hI.once (hw ▸ hwt) with h | ⟨o, ho⟩
      · exact absurd h h1
      · exact absurd ho (h2 o)

theorem wired_reloadFailed {s : State κ γ} (hI : Wired s) {r : Round} {c : κ} (h : s.main = .writing r c) :
    Wired (s.reloadFailed r) := by
  cases r with
  | initial => exact hI.move ⟨rfl, rfl, rfl⟩ (.inr (.inl ⟨_, rfl⟩))
  | again => exact hI.move ⟨rfl, rfl, rfl⟩ (.inl ⟨by simp [h, Main.InLoop], trivial⟩)

/-- The same program point in the first round and in the loop. -/
theorem Wired.round {s s' : State κ γ} (hI : Wired s)
    (heq : s'.watching = s.watching ∧ s'.queue = s.queue ∧ s'.timer = s.timer) {r : Round}
    {f g : Round → Main κ} (hm : s.main = f r) (hm' : s'.main = g r)
    (hf : ∀ r, (f r).InLoop ↔ r = .again) (hg : ∀ r, (g r).InLoop ↔ r = .again)
    (hret : ∀ r o, f r ≠ .returned o) : Wired s' := by
  apply hI.move heq
  rw [hm, hm', hf, hg]
  cases r with
  | initial => exact .inr (.inr ⟨by simp, hret _, by simp⟩)
  | again => exact .inl ⟨rfl, rfl⟩

theorem wired_step {s s' : State κ γ} {a : Act κ} (hI : Wired s) (h : Step p s a s') : Wired s' := by
  cases h with
  | change c =>
    refine ⟨hI.loop, fun hw => ?_, hI.timer, hI.once⟩
    simp [show s.watching = false from hw, hI.queue hw]
  | exit | killed | monitorRead => exact ⟨hI.loop, hI.queue, hI.timer, hI.once⟩
  | monitorReturn _ hw =>
    obtain ⟨hm, -, -, hwt, hq, ht⟩ := hw.watch_eq
    exact ⟨by simpa [hm, hwt] using hI.loop, by simpa [hwt, hq] using hI.queue,
      by simpa [hwt, ht] using hI.timer, by simpa [hwt, hm] using hI.once⟩
  | event hq =>
    have hw : s.watching = true := by
      by_contra h
      simp [hI.queue (by simpa using h)] at hq
    exact ⟨hI.loop, fun h => by simp [hw] at h, fun h => by simp [hw] at h, hI.once⟩
  | received _ hm =>
    have hw := hI.loop (by simp [hm, Main.InLoop])
    exact ⟨fun _ => hw, hI.queue, fun _ => rfl, fun _ => .inl trivial⟩
  | dropped => exact ⟨hI.loop, hI.queue, fun _ => rfl, hI.once⟩
  | read hm =>
    refine hI.round ⟨rfl, rfl, rfl⟩ (f := Main.reading) (g := fun r => .writing r s.file) hm rfl
      ?_ ?_ (by simp) <;> (intro r; cases r <;> simp [Main.InLoop])
  | writeDefault hm => exact hI.move ⟨rfl, rfl, rfl⟩ (.inr (.inr (by simp [hm, Main.InLoop, State.reloaded])))
  | @write r c g hm =>
    cases r with
    | initial => exact hI.move ⟨rfl, rfl, rfl⟩ (.inr (.inr (by simp [hm, Main.InLoop, State.reloaded])))
    | again => exact hI.move ⟨rfl, rfl, rfl⟩ (.inl (by simp [hm, Main.InLoop, State.reloaded]))
  | invalid hm | writeFail hm => exact wired_reloadFailed hI hm
  | panic | defaultFail | startFail | registerFail | waitNothing =>
    exact hI.move ⟨rfl, rfl, rfl⟩ (.inr (.inl ⟨_, rfl⟩))
  | start hm =>
    refine hI.round ⟨rfl, rfl, rfl⟩ (f := Main.starting) (g := Main.spawning) hm rfl
      ?_ ?_ (by simp) <;> (intro r; cases r <;> simp [Main.InLoop])
  | spawnFirst hm =>
    refine hI.move ⟨rfl, rfl, rfl⟩ (.inr (.inr ?_))
    cases hc : s.hasConfig <;> simp [hm, Main.InLoop]
  | spawnAgain hm | loop hm | replace hm =>
    exact hI.move ⟨rfl, rfl, rfl⟩ (.inl ⟨by simp [hm, Main.InLoop], trivial⟩)
  | register hm => exact ⟨fun _ => rfl, fun h => by simp at h, fun h => by simp at h, fun _ => .inl trivial⟩
  | kill hm =>
    obtain ⟨-, -, hw, hq, ht, hk⟩ := kill_watch_eq s
    apply hI.move ⟨hw, hq, ht⟩
    rcases hk with hk | hk
    · exact .inl ⟨by simp [hm, Main.InLoop], by simp [hk, Main.InLoop]⟩
    · exact .inr (.inl ⟨_, hk⟩)
  | waitReturn hm hw =>
    obtain ⟨-, -, -, hwt, hq, ht⟩ := hw.watch_eq
    exact hI.move ⟨hwt, hq, ht⟩ (.inr (.inl ⟨_, rfl⟩))

theorem wired_init {s : State κ γ} (h : s.Init) : Wired s := by
  obtain ⟨hm, -, hw, hq, ht, -⟩ := h
  have hl : ¬ s.main.InLoop := by
    rw [hm]
    split <;> simp [Main.InLoop]
  exact ⟨fun h => absurd h hl, fun _ => hq, fun _ => ht, fun h => by simp [hw] at h⟩

/-! ### Nothing is lost where `Keeps` holds -/

/-- In the loop, a change is on its way or has been read. -/
structure Kept (s : State κ γ) : Prop extends Wired s where
  pending : s.main.InLoop → Pending s

theorem Pending.move {s s' : State κ γ} (h : Pending s) (hm : s.main ≠ .reading .again)
    (heq : s'.lastRead = s.lastRead ∧ s'.file = s.file ∧ s'.queue = s.queue ∧ s'.timer = s.timer) :
    Pending s' := by
  obtain ⟨hr, hf, hq, ht⟩ := heq
  rcases h with h | h | h | h
  · exact .inl (by rw [hr, hf, h])
  · exact .inr (.inl (hq ▸ h))
  · exact .inr (.inr (.inl (ht ▸ h)))
  · exact absurd h hm

/-- A place of the loop is its `select`, the read of a reload, or busy. -/
theorem Main.InLoop.cases {m : Main κ} (h : m.InLoop) : m = .selecting ∨ m = .reading .again ∨ m.Busy := by
  unfold Main.InLoop at h
  split at h
  all_goals first | exact .inl rfl | exact .inr (.inl rfl) | exact .inr (.inr trivial) | exact h.elim

theorem pending_step {s s' : State κ γ} {a : Act κ} (hI : Kept s) (hk : Keeps s a) (h : Step p s a s')
    (hl : s'.main.InLoop) : Pending s' := by
  cases h with
  | change c =>
    have hw := hI.loop hl
    exact .inr (.inl (by simp [hw]))
  | exit | killed | monitorRead => exact hI.pending hl
  | monitorReturn _ hw =>
    obtain ⟨hm, hf, hr, -, hq, ht⟩ := hw.watch_eq
    have hp := hI.pending (by simpa [hm] using hl)
    simpa [Pending, hm, hf, hr, hq, ht] using hp
  | event => exact .inr (.inr (.inl rfl))
  | received => exact .inr (.inr (.inr rfl))
  | dropped _ hm =>
    -- the send is lost; the read to come, or the event still queued, makes up for it
    rcases Main.InLoop.cases hl with h | h | h
    · exact absurd h hm
    · exact .inr (.inr (.inr h))
    · by_cases hr : s.lastRead = some s.file
      · exact .inl hr
      · refine .inr (.inl (Nat.pos_of_ne_zero fun hq => hk ⟨h, hr, hq⟩))
  | read => exact .inl rfl
  | writeDefault | startFail | panic | defaultFail | registerFail | waitNothing | waitReturn =>
    exact hl.elim
  | @write r _ _ hm | @invalid r _ hm | @writeFail r _ hm =>
    cases r with
    | initial => exact hl.elim
    | again => exact (hI.pending (by simp [hm, Main.InLoop])).move (by simp [hm]) ⟨rfl, rfl, rfl, rfl⟩
  | @start r hm =>
    cases r with
    | initial => exact hl.elim
    | again => exact (hI.pending (by simp [hm, Main.InLoop])).move (by simp [hm]) ⟨rfl, rfl, rfl, rfl⟩
  | spawnFirst hm =>
    revert hl
    cases hc : s.hasConfig <;> simp [Main.InLoop]
  | spawnAgain hm | loop hm | replace hm =>
    exact (hI.pending (by simp [hm, Main.InLoop])).move (by simp [hm]) ⟨rfl, rfl, rfl, rfl⟩
  | register => exact .inl hk
  | kill hm =>
    obtain ⟨hf, hr, -, hq, ht, -⟩ := kill_watch_eq s
    exact (hI.pending (by simp [hm, Main.InLoop])).move (by simp [hm]) ⟨hr, hf, hq, ht⟩

theorem kept_of_reach {s : State κ γ} (h : Reach (step p) Keeps State.Init s) : Kept s := by
  refine h.invariant (fun s hs => ?_) fun s a s' hI hk hs => ?_
  · refine ⟨wired_init hs, fun hl => ?_⟩
    have := (wired_init hs).loop hl
    simp [hs.2.2.1] at this
  · exact ⟨wired_step hI.toWired (step_cases hs), pending_step hI hk (step_cases hs)⟩

/-- **No change is lost.** Where no step is one of the two that lose a change,
the loop, waiting in its `select` with no event queued and no timer armed, has
read what the file holds. -/
theorem lastRead_eq_file {s : State κ γ} (h : Reach (step p) Keeps State.Init s)
    (hm : s.main = .selecting) (hq : s.queue = 0) (ht : s.timer = false) : s.lastRead = some s.file := by
  have hp := (kept_of_reach h).pending (by simp [hm, Main.InLoop])
  rcases hp with h | h | h | h
  · exact h
  · omega
  · simp [ht] at h
  · simp [hm] at h

/-- One reload after the first: the file changes while the loop waits. -/
def reloadOnce : List (Act ℕ) :=
  [.read, .write, .start, .spawn, .register, .loop, .change 1, .event, .fire,
    .read, .write, .kill, .replace, .start, .spawn, .loop]

/-- On `reloadOnce` the change is read. -/
theorem lastRead_eq_file_reloadOnce :
    ∃ s ∈ run (step .copy) (State.fresh true 0 none) reloadOnce, s.file = 1 ∧ s.lastRead = some s.file := by
  obtain ⟨s, hs, hm, hq, ht, hf⟩ : ∃ s ∈ run (step .copy) (State.fresh true 0 none) reloadOnce,
      s.main = .selecting ∧ s.queue = 0 ∧ s.timer = false ∧ s.file = 1 := by decide
  have hr : Reach (step .copy) Keeps State.Init s :=
    Reach.of_run (.start (State.init_fresh true 0 none)) (by decide) hs
  exact ⟨s, hs, hf, lastRead_eq_file hr hm hq ht⟩

/-- **Two changes that are lost**, with the loop waiting and nothing left to
wake it: one between the first read and the registration of the watcher, and one
whose timer fires while the child is being replaced. -/
theorem lastRead_ne_file :
    (∃ s ∈ run (step .copy) (State.fresh true 0 none)
      [.read, .write, .start, .spawn, .change 1, .register, .loop],
      s.main = .selecting ∧ s.queue = 0 ∧ s.timer = false ∧ s.lastRead = some 0 ∧ s.file = 1) ∧
    (∃ s ∈ run (step .copy) (State.fresh true 0 none)
      [.read, .write, .start, .spawn, .register, .loop, .change 1, .event, .fire,
        .read, .write, .kill, .change 2, .event, .fire, .replace, .start, .spawn, .loop],
      s.main = .selecting ∧ s.queue = 0 ∧ s.timer = false ∧ s.lastRead = some 1 ∧ s.file = 2) := by
  decide

/-! ### Where `Keeps` fails the change is lost -/

/-- The file has changed since the last read, and nothing will make the loop
read it. -/
structure Lost (s : State κ γ) : Prop where
  stale : s.lastRead ≠ some s.file
  queue : s.queue = 0
  timer : s.timer = false
  main : (s.main.InLoop ∧ s.main ≠ .reading .again) ∨ ∃ o, s.main = .returned o

theorem Lost.move {s s' : State κ γ} (h : Lost s)
    (heq : s'.lastRead = s.lastRead ∧ s'.file = s.file ∧ s'.queue = s.queue ∧ s'.timer = s.timer)
    (hm : (s'.main.InLoop ∧ s'.main ≠ .reading .again) ∨ ∃ o, s'.main = .returned o) : Lost s' := by
  obtain ⟨hr, hf, hq, ht⟩ := heq
  exact ⟨by rw [hr, hf]; exact h.stale, hq.trans h.queue, ht.trans h.timer, hm⟩

theorem lost_step {s s' : State κ γ} {a : Act κ} (hL : Lost s) (ha : ∀ c, a ≠ .change c)
    (h : Step p s a s') : Lost s' := by
  have hmain : ∀ m, s.main = m → (m.InLoop ∧ m ≠ .reading .again) ∨ ∃ o, m = .returned o :=
    fun m hm => hm ▸ hL.main
  cases h with
  | change c => exact absurd rfl (ha c)
  | exit | killed | monitorRead => exact ⟨hL.stale, hL.queue, hL.timer, hL.main⟩
  | monitorReturn _ hw =>
    obtain ⟨hm, hf, hr, -, hq, ht⟩ := hw.watch_eq
    exact hL.move ⟨hr, hf, hq, ht⟩ (by simpa [hm] using hL.main)
  | event hq => simp [hL.queue] at hq
  | received ht | dropped ht => simp [hL.timer] at ht
  | @read r hm => cases r <;> simpa [Main.InLoop] using hmain _ hm
  | writeDefault hm | defaultFail hm | spawnFirst hm | register hm | registerFail hm | waitNothing hm =>
    simpa [Main.InLoop] using hmain _ hm
  | waitReturn hm => simpa [Main.InLoop] using hmain _ hm
  | @write r _ _ hm | @invalid r _ hm | @writeFail r _ hm | @start r hm =>
    cases r with
    | initial => simpa [Main.InLoop] using hmain _ hm
    | again => exact hL.move ⟨rfl, rfl, rfl, rfl⟩ (.inl ⟨trivial, by simp [State.reloaded, State.reloadFailed]⟩)
  | panic | startFail => exact hL.move ⟨rfl, rfl, rfl, rfl⟩ (.inr ⟨_, rfl⟩)
  | spawnAgain | loop | replace => exact hL.move ⟨rfl, rfl, rfl, rfl⟩ (.inl ⟨trivial, by simp⟩)
  | kill =>
    obtain ⟨hf, hr, -, hq, ht, hk⟩ := kill_watch_eq s
    apply hL.move ⟨hr, hf, hq, ht⟩
    rcases hk with hk | hk
    · exact .inl ⟨by simp [hk, Main.InLoop], by simp [hk]⟩
    · exact .inr ⟨_, hk⟩

/-- **A step that `Keeps` excludes loses the change.** Until the file changes
again, no event is queued, no timer armed and no reload reads the file. -/
theorem lost_of_not_keeps {s s' t : State κ γ} {a : Act κ} (hs : Reach (step p) always State.Init s)
    (hk : ¬ Keeps s a) (h : step p s a = some s')
    (ht : Reach (step p) (fun _ a => ∀ c, a ≠ .change c) (· = s') t) : Lost t := by
  have hI : Wired s :=
    hs.invariant (fun _ => wired_init) fun _ _ _ hI _ hs => wired_step hI (step_cases hs)
  have hL : Lost s' := by
    cases step_cases h with
    | register hm =>
      have hw : s.watching = false := by
        by_contra hw
        rcases hI.once (by simpa using hw) with hl | ⟨o, ho⟩
        · simp [hm, Main.InLoop] at hl
        · simp [hm] at ho
      exact ⟨hk, hI.queue hw, hI.timer hw, .inl ⟨trivial, by simp⟩⟩
    | received _ hm => exact absurd (fun h => by simp [hm, Main.Busy] at h) hk
    | dropped =>
      obtain ⟨hb, hr, hq⟩ := not_not.mp hk
      refine ⟨hr, hq, rfl, .inl ?_⟩
      unfold Main.Busy at hb
      split at hb
      all_goals first | exact hb.elim | simp_all [Main.InLoop]
    | _ => exact absurd trivial hk
  exact ht.invariant (fun _ h => h ▸ hL) fun _ _ _ hL ha hs => lost_step hL ha (step_cases hs)

end Server
end QuakeKube
