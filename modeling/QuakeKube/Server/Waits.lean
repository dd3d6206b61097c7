/-
# Who waits for a child

A child is waited for by the `monitorProcess` goroutine spawned after its start,
and without a config file by `Start` as well. The goroutine reads the inner
command of the shared wrapper when it first runs, and by then `Restart` may have
replaced it: then it waits for another child, or for none.

The calls of `Wait` are logged here with the child they are for (`waits`). Each
child is waited for once as long as `Restart` replaces the inner command only
after every goroutine has read it, and, without a config file, as long as the
goroutine does not come to read it at all (`Settled`). The first step that does
not meet this breaks it (`waited_once_iff`).

Key definitions: `waits`, `WaitedOnce`, `Settled`.
Key theorem: `waited_once_iff`.
-/
import QuakeKube.Server.Restart

namespace QuakeKube
namespace Server

open Run

variable {κ γ : Type} {p : Program κ γ}

/-- The child that a step begins to wait for. -/
def waits (s : State κ γ) : Act κ → List ℕ
  | .monitorRead _ => s.cmd.toList
  | .spawn => match s.main with
    | .spawning .initial => if s.hasConfig then [] else s.cmd.toList
    | _ => []
  | _ => []

/-- The child has ended well. -/
def State.Succeeded (s : State κ γ) (i : ℕ) : Prop :=
  s.life? i = some (.exited true) ∨ s.life? i = some (.reaped true)

/-- A goroutine is about to wait for the child of the inner command: it has been
spawned, or is being spawned. -/
def State.Attended (s : State κ γ) : Prop := .spawned ∈ s.waiters ∨ ∃ r, s.main = .spawning r

/-- The children of a state and the log of the waits so far. -/
structure WaitedOnce (u : State κ γ × List ℕ) : Prop where
  once : u.2.Nodup
  /-- A child that nobody waits for yet is the one a goroutine is about to wait for. -/
  all : ∀ i < u.1.procs.length, i ∈ u.2 ∨ (u.1.cmd = some i ∧ u.1.Attended)
  /-- Without a config file `Start` returns nil exactly when the child succeeds. -/
  status : u.1.hasConfig = false → ∀ o, u.1.main = .returned o →
    (o = .waited (some true) ↔ u.1.Succeeded 0)

/-- The goroutines have read the inner command before it is replaced, and only
with a config file do they read it. -/
def Settled (u : State κ γ × List ℕ) : Act κ → Prop
  | .monitorRead _ => u.1.hasConfig = true
  | .replace => .spawned ∉ u.1.waiters
  | _ => True

theorem settled_replace_iff (u : State κ γ × List ℕ) :
    u.1.waiters.contains .spawned = false ↔ Settled u .replace := by
  simp [Settled]

instance (u : State κ γ × List ℕ) : (a : Act κ) → Decidable (Settled u a)
  | .monitorRead _ => inferInstanceAs (Decidable (u.1.hasConfig = true))
  | .replace => decidable_of_iff _ (settled_replace_iff u)
  | .change _ | .exit _ _ | .event | .fire | .monitorReturn _ | .read | .write | .writeFail
  | .start | .startFail | .spawn | .register | .registerFail | .loop | .kill | .waitReturn => .isTrue trivial

/-! ### With a config file -/

/-- On the way to the first child, or between `Start` and the spawn of its waiter. -/
def Main.Starting : Main κ → Prop
  | .reading .initial | .writing .initial _ | .starting _ | .spawning _ => True
  | _ => False

/-- The waits with a config file. -/
structure Monitored (u : State κ γ × List ℕ) : Prop where
  config : u.1.hasConfig = true
  main : u.1.main ≠ .writingDefault ∧ ∀ c, u.1.main ≠ .waiting c
  nodup : u.2.Nodup
  lt : ∀ i ∈ u.2, i < u.1.procs.length
  all : ∀ i < u.1.procs.length, i ∈ u.2 ∨ (u.1.cmd = some i ∧ u.1.Attended)
  /-- The child about to be waited for is waited for by nobody else. -/
  attended : u.1.Attended → ∃ i, u.1.cmd = some i ∧ i ∉ u.2 ∧ i < u.1.procs.length
  /-- All waiters but the last have read the inner command. -/
  last : ∀ j : ℕ, u.1.waiters[j]? = some .spawned → j + 1 = u.1.waiters.length
  idle : u.1.main.Starting → .spawned ∉ u.1.waiters

theorem Monitored.waitedOnce {u : State κ γ × List ℕ} (h : Monitored u) : WaitedOnce u where
  once := h.nodup
  all := h.all
  status hc := absurd (h.config.symm.trans hc) Bool.noConfusion

/-- A step of the main goroutine, or of the environment, that starts nothing,
spawns nothing and replaces nothing. -/
theorem Monitored.move {u : State κ γ × List ℕ} {s' : State κ γ} (hI : Monitored u)
    (hc : s'.hasConfig = u.1.hasConfig) (hp : s'.procs.length = u.1.procs.length)
    (hcmd : s'.cmd = u.1.cmd) (hw : s'.waiters = u.1.waiters)
    (hm : s'.main = u.1.main ∨ ((∀ r, u.1.main ≠ .spawning r) ∧ (∀ r, s'.main ≠ .spawning r) ∧
      s'.main ≠ .writingDefault ∧ (∀ c, s'.main ≠ .waiting c) ∧
      (s'.main.Starting → u.1.main.Starting))) : Monitored (s', u.2) := by
  have hatt : s'.Attended ↔ u.1.Attended := by
    unfold State.Attended
    rw [hw]
    rcases hm with hm | ⟨h1, h2, -⟩
    · rw [hm]
    · simp [h1, h2]
  refine ⟨hc.trans hI.config, ?_, hI.nodup, ?_, ?_, ?_, ?_, ?_⟩
  · rcases hm with hm | ⟨-, -, h1, h2, -⟩
    · simpa only [hm] using hI.main
    · exact ⟨h1, h2⟩
  · simpa only [hp] using hI.lt
  · simpa only [hp, hcmd, hatt] using hI.all
  · simpa only [hp, hcmd, hatt] using hI.attended
  · simpa only [hw] using hI.last
  · simp only [hw]
    rcases hm with hm | ⟨-, -, -, -, h⟩
    · simpa only [hm] using hI.idle
    · exact fun hs => hI.idle (h hs)

theorem not_spawned_of_set {ws : List Waiter} {j : ℕ} {w : Waiter} (hw : w ≠ .spawned)
    (hlast : ∀ k : ℕ, ws[k]? = some .spawned → k + 1 = ws.length) (hj : j + 1 = ws.length) :
    .spawned ∉ ws.set j w := by
  intro h
  obtain ⟨k, hk⟩ := List.mem_iff_getElem?.mp h
  rw [List.getElem?_set] at hk
  by_cases hjk : j = k
  · subst hjk
    rw [if_pos rfl] at hk
    split at hk
    · exact hw (Option.some.inj hk)
    · cases hk
  · rw [if_neg hjk] at hk
    exact hjk (by have := hlast k hk; omega)

/-- A waiter that reads the inner command waits for a child nobody else waits for. -/
theorem Monitored.read {u : State κ γ × List ℕ} {j : ℕ} (hI : Monitored u)
    (hj : u.1.waiters[j]? = some .spawned) :
    Monitored ({ u.1 with waiters := u.1.waiters.set j u.1.nextWaiter }, u.2 ++ u.1.cmd.toList) := by
  have hmem : .spawned ∈ u.1.waiters := List.mem_of_getElem? hj
  obtain ⟨i, hi, hlog, hlt⟩ := hI.attended (.inl hmem)
  have hnext : u.1.nextWaiter = .waiting i := by rw [State.nextWaiter, hi]
  have hnone : .spawned ∉ u.1.waiters.set j u.1.nextWaiter :=
    not_spawned_of_set (by simp [hnext]) hI.last (hI.last j hj)
  have hmain : ¬ u.1.main.Starting := fun h => hI.idle h hmem
  rw [hi, Option.toList_some]
  refine ⟨hI.config, hI.main, ?_, ?_, ?_, ?_, ?_, fun _ => hnone⟩
  · rw [List.nodup_append]
    refine ⟨hI.nodup, by simp, ?_⟩
    rintro a ha b hb rfl
    exact hlog (List.mem_singleton.mp hb ▸ ha)
  · intro k hk
    rcases List.mem_append.mp hk with hk | hk
    · exact hI.lt k hk
    · exact List.mem_singleton.mp hk ▸ hlt
  · intro k hk
    left
    rcases hI.all k hk with h | ⟨h, -⟩
    · exact List.mem_append_left _ h
    · cases Option.some.inj (hi.symm.trans h)
      exact List.mem_append_right _ List.mem_cons_self
  · rintro (h | ⟨r, h⟩)
    · exact absurd h hnone
    · exact absurd (by rw [show u.1.main = .spawning r from h]; trivial) hmain
  · exact fun k hk => absurd (List.mem_of_getElem? hk) hnone

theorem spawned_set_iff {ws : List Waiter} {j : ℕ} {v w : Waiter} (hj : ws[j]? = some v) (hv : v ≠ .spawned)
    (hw : w ≠ .spawned) (k : ℕ) : (ws.set j w)[k]? = some .spawned ↔ ws[k]? = some .spawned := by
  by_cases hjk : j = k
  · subst hjk
    have hlt : j < ws.length := (List.getElem?_eq_some_iff.mp hj).1
    rw [List.getElem?_set_self hlt, hj]
    simp [hv, hw]
  · rw [List.getElem?_set_ne hjk]

/-- A waiter whose `Wait` returns leaves the spawned ones alone. -/
theorem Monitored.return {u : State κ γ × List ℕ} {j i : ℕ} {r : Option Bool} {t : State κ γ}
    (hI : Monitored u) (hj : u.1.waiters[j]? = some (.waiting i)) (hw : Waited u.1 i r t) :
    Monitored ({ t with waiters := t.waiters.set j (.finished r) }, u.2) := by
  obtain ⟨hc, hp, hcmd, hws, hm⟩ : t.hasConfig = u.1.hasConfig ∧ t.procs.length = u.1.procs.length ∧
      t.cmd = u.1.cmd ∧ t.waiters = u.1.waiters ∧ t.main = u.1.main := by
    cases hw <;> simp [State.setLife]
  have hset : ∀ k : ℕ, (t.waiters.set j (.finished r))[k]? = some .spawned ↔
      u.1.waiters[k]? = some .spawned := by
    rw [hws]
    exact spawned_set_iff hj (by simp) (by simp)
  have hmem : .spawned ∈ t.waiters.set j (.finished r) ↔ .spawned ∈ u.1.waiters := by
    rw [List.mem_iff_getElem?, List.mem_iff_getElem?]
    exact exists_congr hset
  have hatt : State.Attended { t with waiters := t.waiters.set j (.finished r) } ↔ u.1.Attended := by
    simp only [State.Attended, hmem, hm]
  refine ⟨hc.trans hI.config, ?_, hI.nodup, ?_, ?_, ?_, ?_, ?_⟩
  · simpa only [hm] using hI.main
  · simpa only [hp] using hI.lt
  · intro k hk
    exact (hI.all k (hp ▸ hk)).imp_right fun h => ⟨hcmd.trans h.1, hatt.mpr h.2⟩
  · intro h
    obtain ⟨k, h1, h2, h3⟩ := hI.attended (hatt.mp h)
    exact ⟨k, hcmd.trans h1, h2, hp.symm ▸ h3⟩
  · intro k hk
    rw [List.length_set, hws]
    exact hI.last k ((hset k).mp hk)
  · simpa only [hm, hmem] using hI.idle

/-- The new child is the one a goroutine is about to wait for. -/
theorem Monitored.start {u : State κ γ × List ℕ} {r : Round} {q : Proc γ} (hI : Monitored u)
    (hm : u.1.main = .starting r) :
    Monitored
      ({ u.1 with procs := u.1.procs ++ [q], cmd := some u.1.procs.length, main := .spawning r }, u.2) := by
  have hidle : .spawned ∉ u.1.waiters := hI.idle (by rw [hm]; trivial)
  refine ⟨hI.config, ⟨by simp, by simp⟩, hI.nodup, ?_, ?_, ?_, hI.last, fun _ => hidle⟩
  · intro i hi
    have := hI.lt i hi
    simp only [List.length_append, List.length_singleton]
    omega
  · intro i hi
    by_cases hlt : i < u.1.procs.length
    · left
      rcases hI.all i hlt with h | ⟨-, h | ⟨r', h⟩⟩
      · exact h
      · exact absurd h hidle
      · simp [hm] at h
    · right
      simp only [List.length_append, List.length_singleton] at hi
      exact ⟨congrArg some (by omega), .inr ⟨r, rfl⟩⟩
  · intro _
    refine ⟨_, rfl, fun h => ?_, by simp⟩
    have := hI.lt _ h
    omega

/-- The waiter of the new child is spawned. -/
theorem Monitored.spawn {u : State κ γ × List ℕ} {r : Round} {m : Main κ} (hI : Monitored u)
    (hm : u.1.main = .spawning r) (h1 : m ≠ .writingDefault) (h2 : ∀ c, m ≠ .waiting c) (h3 : ¬ m.Starting) :
    Monitored ({ u.1 with waiters := u.1.waiters ++ [.spawned], main := m }, u.2) := by
  have hidle : .spawned ∉ u.1.waiters := hI.idle (by rw [hm]; trivial)
  have hatt : u.1.Attended := .inr ⟨r, hm⟩
  have hatt' : State.Attended { u.1 with waiters := u.1.waiters ++ [.spawned], main := m } := .inl (by simp)
  refine ⟨hI.config, ⟨h1, h2⟩, hI.nodup, hI.lt, ?_, fun _ => hI.attended hatt, ?_, fun h => absurd h h3⟩
  · exact fun i hi => (hI.all i hi).imp_right fun h => ⟨h.1, hatt'⟩
  · intro j hj
    rcases Nat.lt_trichotomy j u.1.waiters.length with h | h | h
    · rw [List.getElem?_append_left h] at hj
      exact absurd (List.mem_of_getElem? hj) hidle
    · simp [h]
    · rw [List.getElem?_eq_none (by simp; omega)] at hj
      cases hj

/-- The inner command is replaced after all waiters have read it. -/
theorem Monitored.replace {u : State κ γ × List ℕ} (hI : Monitored u) (hm : u.1.main = .replacing)
    (h : .spawned ∉ u.1.waiters) : Monitored ({ u.1 with cmd := none, main := .starting .again }, u.2) := by
  have hnot : ¬ u.1.Attended := by
    rintro (hs | ⟨r, hs⟩)
    · exact h hs
    · simp [hm] at hs
  refine ⟨hI.config, ⟨by simp, by simp⟩, hI.nodup, hI.lt, ?_, ?_, hI.last, fun _ => h⟩
  · intro i hi
    exact (hI.all i hi).imp_right fun h => absurd h.2 hnot
  · rintro (hs | ⟨r, hs⟩)
    · exact absurd hs h
    · cases hs

/-- A step that begins no wait. -/
theorem Monitored.silent {u : State κ γ × List ℕ} {s' : State κ γ} {log : List ℕ} (hlog : log = [])
    (h : Monitored (s', u.2)) : Monitored (s', u.2 ++ log) := by
  rwa [hlog, List.append_nil]

theorem monitored_step {u : State κ γ × List ℕ} {a : Act κ} {s' : State κ γ} (hI : Monitored u)
    (ha : Settled u a) (h : Step p u.1 a s') : Monitored (s', u.2 ++ waits u.1 a) := by
  cases h with
  | monitorRead hj => exact hI.read hj
  | monitorReturn hj hw => exact .silent rfl (hI.return hj hw)
  | start hm => exact .silent rfl (hI.start hm)
  | spawnFirst hm =>
    rw [if_pos hI.config]
    refine .silent ?_ (hI.spawn hm (by simp) (by simp) id)
    simp only [waits, hm, hI.config, if_true]
  | spawnAgain hm =>
    refine .silent ?_ (hI.spawn hm (by simp) (by simp) id)
    simp only [waits, hm]
  | replace hm => exact .silent rfl (hI.replace hm ha)
  | writeDefault hm | defaultFail hm => exact absurd hm hI.main.1
  | waitNothing hm | waitReturn hm => exact absurd hm (hI.main.2 _)
  | change | event | dropped =>
    apply Monitored.silent rfl
    exact hI.move rfl rfl rfl rfl (.inl rfl)
  | exit | killed =>
    apply Monitored.silent rfl
    exact hI.move rfl (setLife_length _ _ _) rfl rfl (.inl rfl)
  | received _ hm | panic hm _ | startFail hm | register hm | registerFail hm | loop hm =>
    apply Monitored.silent rfl
    exact hI.move rfl rfl rfl rfl (.inr (by simp [hm, Main.Starting]))
  | @read r hm =>
    apply Monitored.silent rfl
    refine hI.move rfl rfl rfl rfl (.inr ?_)
    cases r <;> simp [hm, Main.Starting]
  | @write r _ _ hm | @invalid r _ hm | @writeFail r _ hm =>
    apply Monitored.silent rfl
    cases r with
    | initial =>
      exact hI.move rfl rfl rfl rfl (.inr (by simp [hm, Main.Starting, State.reloaded, State.reloadFailed]))
    | again =>
      exact hI.move rfl rfl rfl rfl (.inr (by simp [hm, Main.Starting, State.reloaded, State.reloadFailed]))
  | kill hm =>
    apply Monitored.silent rfl
    rcases kill_cases u.1 with ⟨-, h⟩ | ⟨i, -, ⟨-, h⟩ | ⟨-, h⟩ | ⟨-, -, h⟩⟩
    · rw [h]
      exact hI.move rfl rfl rfl rfl (.inr (by simp [hm, Main.Starting]))
    · rw [h]
      exact hI.move rfl rfl rfl rfl (.inr (by simp [hm, Main.Starting]))
    · rw [h]
      exact hI.move rfl (setLife_length _ _ _) rfl rfl (.inr (by simp [hm, Main.Starting]))
    · rw [h]
      exact hI.move rfl rfl rfl rfl (.inr (by simp [hm, Main.Starting]))

/-- A command replaced under a waiter leaves the old child without one. -/
theorem Monitored.unsettled {u : State κ γ × List ℕ} (hI : Monitored u)
    (h : .spawned ∈ u.1.waiters) :
    ¬ WaitedOnce ({ u.1 with cmd := none, main := .starting .again }, u.2 ++ []) := by
  intro hw
  obtain ⟨i, -, hlog, hlt⟩ := hI.attended (.inl h)
  rcases hw.all i hlt with hi | ⟨hi, -⟩
  · exact hlog (List.append_nil u.2 ▸ hi)
  · cases hi

/-! ### Without a config file -/

/-- The one child has been started, and nobody has waited for it to its end. -/
structure OneChild (u : State κ γ × List ℕ) : Prop where
  length : u.1.procs.length = 1
  cmd : u.1.cmd = some 0
  unreaped : ∀ ok, u.1.life? 0 ≠ some (.reaped ok)

/-- The places of `Start` without a config file, up to the end of its `Wait`. -/
inductive Alone (u : State κ γ × List ℕ) : Prop
  | before : u.1.main = .writingDefault ∨ u.1.main = .starting .initial ∨
      u.1.main = .returned .configFailed ∨ u.1.main = .returned .startFailed →
      u.1.procs = [] → u.1.waiters = [] → u.2 = [] → Alone u
  | spawning : u.1.main = .spawning .initial → OneChild u → u.1.waiters = [] → u.2 = [] → Alone u
  | waiting : u.1.main = .waiting (some 0) → OneChild u → u.1.waiters = [.spawned] → u.2 = [0] → Alone u
  | ended (ok : Bool) : u.1.main = .returned (.waited (some ok)) → u.1.procs.length = 1 → u.1.cmd = some 0 →
      u.1.life? 0 = some (.reaped ok) → u.1.waiters = [.spawned] → u.2 = [0] → Alone u

theorem Alone.waitedOnce {u : State κ γ × List ℕ} (h : Alone u) : WaitedOnce u := by
  cases h with
  | before hm hp hw hl =>
    refine ⟨by simp [hl], by simp [hp], fun _ o ho => ?_⟩
    have hnot : ¬ u.1.Succeeded 0 := by simp [State.Succeeded, State.life?, hp]
    rcases hm with hm | hm | hm | hm <;> rw [hm] at ho <;> cases ho <;> simp [hnot]
  | spawning hm hc hw hl =>
    refine ⟨by simp [hl], fun i hi => .inr ⟨?_, .inr ⟨_, hm⟩⟩, fun _ o ho => ?_⟩
    · have hi : i = 0 := by have := hc.length; omega
      rw [hc.cmd, hi]
    · rw [hm] at ho
      cases ho
  | waiting hm hc hw hl =>
    refine ⟨by simp [hl], fun i hi => .inl ?_, fun _ o ho => ?_⟩
    · have := hc.length
      rw [hl]
      exact List.mem_singleton.mpr (by omega)
    · rw [hm] at ho
      cases ho
  | ended ok hm hp hc hlife hw hl =>
    refine ⟨by simp [hl], fun i hi => .inl ?_, fun _ o ho => ?_⟩
    · rw [hl]
      exact List.mem_singleton.mpr (by omega)
    · rw [hm] at ho
      cases ho
      simp [State.Succeeded, hlife]

/-- A step that touches neither the child, its waiter nor the main goroutine. -/
theorem Alone.frame {u : State κ γ × List ℕ} {s' : State κ γ} (h : Alone u) (hm : s'.main = u.1.main)
    (hp : s'.procs = u.1.procs) (hc : s'.cmd = u.1.cmd) (hw : s'.waiters = u.1.waiters) : Alone (s', u.2) := by
  have hlife : s'.life? = u.1.life? := by
    funext i
    rw [State.life?, State.life?, hp]
  have hone : OneChild u → OneChild (s', u.2) := fun h =>
    ⟨by rw [hp]; exact h.length, hc.trans h.cmd, by rw [hlife]; exact h.unreaped⟩
  cases h with
  | before h1 h2 h3 h4 => exact .before (by rwa [hm]) (hp.trans h2) (hw.trans h3) h4
  | spawning h1 h2 h3 h4 => exact .spawning (hm.trans h1) (hone h2) (hw.trans h3) h4
  | waiting h1 h2 h3 h4 => exact .waiting (hm.trans h1) (hone h2) (hw.trans h3) h4
  | ended ok h1 h2 h3 h4 h5 h6 =>
    exact .ended ok (hm.trans h1) (by rw [hp]; exact h2) (hc.trans h3) (by rw [hlife]; exact h4)
      (hw.trans h5) h6

/-- The child ends. -/
theorem Alone.exit {u : State κ γ × List ℕ} {i : ℕ} {l : Life} {ok : Bool} (h : Alone u)
    (hi : u.1.life? i = some l) (hl : ∀ b, l ≠ .reaped b) : Alone (u.1.setLife i (.exited ok), u.2) := by
  have hone : OneChild u → OneChild (u.1.setLife i (.exited ok), u.2) := by
    intro h
    refine ⟨by rw [setLife_length]; exact h.length, h.cmd, fun b hb => ?_⟩
    rw [life?_setLife] at hb
    split at hb
    · cases h0 : u.1.life? 0 <;> simp [h0] at hb
    · exact h.unreaped b hb
  cases h with
  | before h1 h2 h3 h4 => simp [State.life?, h2] at hi
  | spawning h1 h2 h3 h4 => exact .spawning h1 (hone h2) h3 h4
  | waiting h1 h2 h3 h4 => exact .waiting h1 (hone h2) h3 h4
  | ended b h1 h2 h3 h4 h5 h6 =>
    have hi0 : i ≠ 0 := by
      rintro rfl
      exact hl b (Option.some.inj (hi.symm.trans h4))
    refine .ended b h1 (by rw [setLife_length]; exact h2) h3 ?_ h5 h6
    rw [life?_setLife, if_neg hi0, h4]

/-- The places the main goroutine is never at. -/
theorem Alone.main_ne {u : State κ γ × List ℕ} (h : Alone u) : (∀ r, u.1.main ≠ .reading r) ∧
    (∀ r c, u.1.main ≠ .writing r c) ∧ u.1.main ≠ .starting .again ∧ u.1.main ≠ .spawning .again ∧
    u.1.main ≠ .registering ∧ u.1.main ≠ .looping ∧ u.1.main ≠ .selecting ∧ u.1.main ≠ .killing ∧
    u.1.main ≠ .replacing ∧ u.1.main ≠ .waiting none := by
  cases h with
  | before h1 => rcases h1 with h | h | h | h <;> simp [h]
  | spawning h => simp [h]
  | waiting h => simp [h]
  | ended ok h => simp [h]

/-- Before the child there is nothing. -/
theorem Alone.of_before {u : State κ γ × List ℕ} (h : Alone u)
    (hm : u.1.main = .writingDefault ∨ u.1.main = .starting .initial) :
    u.1.procs = [] ∧ u.1.waiters = [] ∧ u.2 = [] := by
  cases h with
  | before _ hp hw hl => exact ⟨hp, hw, hl⟩
  | spawning h | waiting h | ended _ h => rcases hm with hm | hm <;> exact nomatch hm.symm.trans h

theorem Alone.of_spawning {u : State κ γ × List ℕ} (h : Alone u) (hm : u.1.main = .spawning .initial) :
    OneChild u ∧ u.1.waiters = [] ∧ u.2 = [] := by
  cases h with
  | before h => rcases h with h | h | h | h <;> exact nomatch hm.symm.trans h
  | spawning _ hc hw hl => exact ⟨hc, hw, hl⟩
  | waiting h | ended _ h => exact nomatch hm.symm.trans h

theorem Alone.of_waiting {u : State κ γ × List ℕ} {c : Option ℕ} (h : Alone u) (hm : u.1.main = .waiting c) :
    c = some 0 ∧ OneChild u ∧ u.1.waiters = [.spawned] ∧ u.2 = [0] := by
  cases h with
  | before h => rcases h with h | h | h | h <;> exact nomatch hm.symm.trans h
  | waiting h hc hw hl => exact ⟨Main.waiting.inj (hm.symm.trans h), hc, hw, hl⟩
  | spawning h | ended _ h => exact nomatch hm.symm.trans h

/-- The child is reaped by the `Wait` of `Start`. -/
theorem Alone.reap {u : State κ γ × List ℕ} {ok : Bool} (hc : OneChild u) (hlife : u.1.life? 0 = some (.exited ok))
    (hw : u.1.waiters = [.spawned]) (hl : u.2 = [0]) :
    Alone ({ u.1.setLife 0 (.reaped ok) with main := .returned (.waited (some ok)) }, u.2) := by
  refine .ended ok rfl (by simpa using hc.length) hc.cmd ?_ hw hl
  have hreaped : (u.1.setLife 0 (.reaped ok)).life? 0 = some (.reaped ok) := by
    rw [life?_setLife, if_pos rfl, hlife]
    rfl
  exact hreaped

theorem Alone.silent {u : State κ γ × List ℕ} {s' : State κ γ} {log : List ℕ} (hlog : log = [])
    (h : Alone (s', u.2)) : Alone (s', u.2 ++ log) := by
  rwa [hlog, List.append_nil]

theorem alone_step {u : State κ γ × List ℕ} {a : Act κ} {s' : State κ γ} (hI : Alone u)
    (hc : u.1.hasConfig = false) (ha : Settled u a) (h : Step p u.1 a s') :
    Alone (s', u.2 ++ waits u.1 a) := by
  obtain ⟨n1, n2, n3, n4, n5, n6, n7, n8, n9, n10⟩ := hI.main_ne
  cases h with
  | change | event | dropped =>
    apply Alone.silent rfl
    exact hI.frame rfl rfl rfl rfl
  | exit hi =>
    apply Alone.silent rfl
    exact hI.exit hi (by simp)
  | killed hi =>
    apply Alone.silent rfl
    exact hI.exit hi (by simp)
  | monitorRead => exact absurd (hc.symm.trans ha) Bool.noConfusion
  | @monitorReturn j _ _ _ hj _ =>
    -- the waiter has not read the inner command
    have hw : u.1.waiters = [] ∨ u.1.waiters = [.spawned] := by
      cases hI with
      | before _ _ h _ | spawning _ _ h _ => exact .inl h
      | waiting _ _ h _ | ended _ _ _ _ _ h _ => exact .inr h
    rcases hw with hw | hw <;> rw [hw] at hj
    · simp at hj
    · cases j <;> simp at hj
  | received _ hm => exact absurd hm n7
  | read hm => exact absurd hm (n1 _)
  | write hm | invalid hm | panic hm | writeFail hm => exact absurd hm (n2 _ _)
  | register hm | registerFail hm => exact absurd hm n5
  | loop hm => exact absurd hm n6
  | kill hm => exact absurd hm n8
  | replace hm => exact absurd hm n9
  | spawnAgain hm => exact absurd hm n4
  | waitNothing hm => exact absurd hm n10
  | writeDefault hm =>
    obtain ⟨hp, hw, hl⟩ := hI.of_before (.inl hm)
    exact .silent rfl (.before (.inr (.inl rfl)) hp hw hl)
  | defaultFail hm =>
    obtain ⟨hp, hw, hl⟩ := hI.of_before (.inl hm)
    exact .silent rfl (.before (.inr (.inr (.inl rfl))) hp hw hl)
  | @startFail r hm =>
    cases r with
    | again => exact absurd hm n3
    | initial =>
      obtain ⟨hp, hw, hl⟩ := hI.of_before (.inr hm)
      exact .silent rfl (.before (.inr (.inr (.inr rfl))) hp hw hl)
  | @start r hm =>
    cases r with
    | again => exact absurd hm n3
    | initial =>
      obtain ⟨hp, hw, hl⟩ := hI.of_before (.inr hm)
      refine .silent rfl (.spawning rfl ⟨by simp [hp], by simp [hp], ?_⟩ hw hl)
      simp [State.life?, hp]
  | spawnFirst hm =>
    obtain ⟨hone, hw, hl⟩ := hI.of_spawning hm
    have hlog : u.2 ++ waits u.1 .spawn = [0] := by simp [waits, hm, hc, hl, hone.cmd]
    rw [hlog, hc, if_neg Bool.false_ne_true]
    exact .waiting (congrArg _ hone.cmd) ⟨hone.length, hone.cmd, hone.unreaped⟩ (by simp [hw]) rfl
  | waitReturn hm hw =>
    obtain ⟨hi, hone, hws, hl⟩ := hI.of_waiting hm
    cases hi
    cases hw with
    | error h => exact absurd h (hone.unreaped _)
    | status h => exact .silent rfl (.reap hone h hws hl)

/-- The goroutine waits for the child that `Start` waits for. -/
theorem Alone.unsettled {u : State κ γ × List ℕ} {s' : State κ γ} {j : ℕ} (hI : Alone u)
    (hj : u.1.waiters[j]? = some .spawned) : ¬ WaitedOnce (s', u.2 ++ waits u.1 (.monitorRead j)) := by
  intro hw
  have hcmd : u.2 = [0] ∧ u.1.cmd = some 0 := by
    cases hI with
    | before _ _ h _ | spawning _ _ h _ => simp [h] at hj
    | waiting _ h _ hl => exact ⟨hl, h.cmd⟩
    | ended _ _ _ h _ _ hl => exact ⟨hl, h⟩
  have := hw.once
  simp [waits, hcmd] at this

/-! ### Both modes -/

/-- The waits of a run that has been settled so far. -/
def Sound (u : State κ γ × List ℕ) : Prop := Monitored u ∨ (u.1.hasConfig = false ∧ Alone u)

theorem Sound.waitedOnce {u : State κ γ × List ℕ} (h : Sound u) : WaitedOnce u := by
  rcases h with h | ⟨-, h⟩
  · exact h.waitedOnce
  · exact h.waitedOnce

theorem step_hasConfig {s s' : State κ γ} {a : Act κ} (h : Step p s a s') : s'.hasConfig = s.hasConfig := by
  cases h with
  | monitorReturn _ hw | waitReturn _ hw => cases hw <;> rfl
  | @write r | @invalid r | @writeFail r => cases r <;> rfl
  | kill =>
    rcases kill_cases s with ⟨-, h⟩ | ⟨i, -, ⟨-, h⟩ | ⟨-, h⟩ | ⟨-, -, h⟩⟩ <;> rw [h]
    rfl
  | _ => rfl

theorem sound_step {u : State κ γ × List ℕ} {a : Act κ} {s' : State κ γ} (hI : Sound u) (ha : Settled u a)
    (h : Step p u.1 a s') : Sound (s', u.2 ++ waits u.1 a) := by
  rcases hI with hI | ⟨hc, hI⟩
  · exact .inl (monitored_step hI ha h)
  · exact .inr ⟨(step_hasConfig h).trans hc, alone_step hI hc ha h⟩

theorem not_waitedOnce_of_not_settled {u : State κ γ × List ℕ} {a : Act κ} {s' : State κ γ} (hI : Sound u)
    (ha : ¬ Settled u a) (h : Step p u.1 a s') : ¬ WaitedOnce (s', u.2 ++ waits u.1 a) := by
  cases h with
  | monitorRead hj =>
    rcases hI with hI | ⟨-, hI⟩
    · exact absurd hI.config ha
    · exact hI.unsettled hj
  | replace hm =>
    rcases hI with hI | ⟨-, hI⟩
    · exact hI.unsettled (not_not.mp ha)
    · obtain ⟨-, -, -, -, -, -, -, -, h, -⟩ := hI.main_ne
      exact absurd hm h
  | _ => exact absurd trivial ha

theorem sound_init {s : State κ γ} (h : s.Init) : Sound (s, []) := by
  obtain ⟨hm, -, -, -, -, hp, hcmd, hw⟩ := h
  cases hc : s.hasConfig with
  | false =>
    rw [hc, if_neg Bool.false_ne_true] at hm
    exact .inr ⟨hc, .before (.inl hm) hp hw rfl⟩
  | true =>
    rw [hc, if_pos rfl] at hm
    left
    refine ⟨hc, by simp [hm], List.nodup_nil, by simp, by simp [hp], ?_, by simp [hw], by simp [hw]⟩
    rintro (h | ⟨r, h⟩)
    · simp [hw] at h
    · simp [hm] at h

/-- **When every child is waited for once**, in every state of a run of `Start`:
`Restart` replaces the inner command only after every waiter has read it, and
without a config file the waiter does not run. -/
theorem waited_once_iff (p : Program κ γ) {s : State κ γ} (h0 : s.Init) {acts : List (Act κ)}
    {u : State κ γ × List ℕ} (h : run (logged (step p) waits) (s, []) acts = some u) :
    Throughout (logged (step p) waits) WaitedOnce (s, []) acts ↔
      Along (logged (step p) waits) Settled (s, []) acts := by
  refine throughout_iff_along (I := Sound) (fun _ => Sound.waitedOnce) ?_ ?_ (sound_init h0) h
  · rintro v a ⟨s', log⟩ hI ha hv
    obtain ⟨hs, hlog⟩ := logged_eq_some.mp hv
    rw [show log = v.2 ++ waits v.1 a from hlog]
    exact sound_step hI ha (step_cases hs)
  · rintro v a ⟨s', log⟩ hI ha hv
    obtain ⟨hs, hlog⟩ := logged_eq_some.mp hv
    rw [show log = v.2 ++ waits v.1 a from hlog]
    exact not_waitedOnce_of_not_settled hI ha (step_cases hs)

/-- A reload after the waiter of the first child has read the inner command. -/
theorem waited_once_reload :
    Throughout (logged (step .copy) waits) WaitedOnce (State.fresh true 0 none, [])
      [.read, .write, .start, .spawn, .monitorRead 0, .register, .loop, .change 1, .event, .fire, .read, .write,
        .kill, .replace, .start, .spawn, .monitorRead 1] := by
  obtain ⟨u, hu⟩ : ∃ u, run (logged (step .copy) waits) (State.fresh true 0 none, [])
      [.read, .write, .start, .spawn, .monitorRead 0, .register, .loop, .change 1, .event, .fire, .read, .write,
        .kill, .replace, .start, .spawn, .monitorRead 1] = some u := Option.isSome_iff_exists.mp (by decide)
  exact (waited_once_iff .copy (State.init_fresh true 0 none) hu).mpr (by decide)

/-- Without a config file `Start` and the waiter wait for the same child, which
succeeds, and `Start` returns an error; with one, a waiter that comes late waits
for the next child, as the next waiter does. -/
theorem waited_twice :
    (∃ u ∈ run (logged (step .copy) waits) (State.fresh false 0 none, [])
        [.write, .start, .spawn, .monitorRead 0, .exit 0 true, .monitorReturn 0, .waitReturn],
      u.1.main = .returned (.waited none) ∧ u.1.life? 0 = some (.reaped true) ∧ ¬ WaitedOnce u) ∧
    ∃ u ∈ run (logged (step .copy) waits) (State.fresh true 0 none, [])
        [.read, .write, .start, .spawn, .register, .loop, .change 1, .event, .fire, .read, .write,
          .kill, .replace, .start, .spawn, .monitorRead 0, .monitorRead 1],
      u.1.procs.length = 2 ∧ u.2 = [1, 1] ∧ ¬ WaitedOnce u := by
  constructor
  · obtain ⟨u, hu, hm, hl, hlog⟩ : ∃ u ∈ run (logged (step .copy) waits) (State.fresh false 0 none, [])
        [.write, .start, .spawn, .monitorRead 0, .exit 0 true, .monitorReturn 0, .waitReturn],
        u.1.main = .returned (.waited none) ∧ u.1.life? 0 = some (.reaped true) ∧ u.2 = [0, 0] := by decide
    refine ⟨u, hu, hm, hl, fun h => ?_⟩
    have := h.once
    simp [hlog] at this
  · obtain ⟨u, hu, hp, hlog⟩ : ∃ u ∈ run (logged (step .copy) waits) (State.fresh true 0 none, [])
        [.read, .write, .start, .spawn, .register, .loop, .change 1, .event, .fire, .read, .write,
          .kill, .replace, .start, .spawn, .monitorRead 0, .monitorRead 1],
        u.1.procs.length = 2 ∧ u.2 = [1, 1] := by decide
    refine ⟨u, hu, hp, hlog, fun h => ?_⟩
    have := h.once
    simp [hlog] at this

end Server
end QuakeKube
