/-
# Runs of a labelled step function

A system is a function `step : σ → α → Option σ`: the state after action `a`,
none when `a` cannot happen. `Reach` is what some interleaving of the actions
reaches, each taken where it meets a condition `ok`; `run` follows a given
list of actions. An `Execution` never ends (it may stand still), and is fair
to a group of actions when the group is not passed over for ever.

Key definitions: `Reach`, `run`, `Along`, `Throughout`, `logged`, `Execution`, `Execution.WeaklyFair`,
`Execution.LeadsTo`.
Key theorems: `Reach.invariant`, `Reach.of_run`, `Reach.simulated`, `along_congr`,
`throughout_iff_along`, `Execution.reach`, `Execution.leadsTo_of_ensures`,
`Execution.LeadsTo.trans`, `Execution.ofRun_weaklyFair`.
-/
import Mathlib.Tactic.Common

namespace Run

universe u v

variable {σ : Type u} {α : Type v} {step : σ → α → Option σ} {ok : σ → α → Prop} {init : σ → Prop}

/-- The states reached from `init` by actions that meet `ok` where they are taken. -/
inductive Reach (step : σ → α → Option σ) (ok : σ → α → Prop) (init : σ → Prop) : σ → Prop
  | start {s : σ} : init s → Reach step ok init s
  | next {s s' : σ} (a : α) : Reach step ok init s → ok s a → step s a = some s' → Reach step ok init s'

/-- Every action, anywhere. -/
def always : σ → α → Prop := fun _ _ => True

/-- What holds at first and is kept by every step holds of every reached state. -/
theorem Reach.invariant {I : σ → Prop} (h0 : ∀ s, init s → I s)
    (hstep : ∀ s a s', I s → ok s a → step s a = some s' → I s') {s : σ} (h : Reach step ok init s) :
    I s := by
  induction h with
  | start hs => exact h0 _ hs
  | next a _ ha hs ih => exact hstep _ a _ ih ha hs

/-- Follows a list of actions. -/
def run (step : σ → α → Option σ) : σ → List α → Option σ
  | s, [] => some s
  | s, a :: as => (step s a).bind fun s' => run step s' as

@[simp] theorem run_nil (s : σ) : run step s [] = some s := rfl

theorem run_cons (s : σ) (a : α) (as : List α) :
    run step s (a :: as) = (step s a).bind fun s' => run step s' as := rfl

theorem run_append (s : σ) (as bs : List α) :
    run step s (as ++ bs) = (run step s as).bind fun s' => run step s' bs := by
  induction as generalizing s with
  | nil => rfl
  | cons a as ih =>
    rw [List.cons_append, run_cons, run_cons, Option.bind_assoc]
    exact congrArg _ (funext ih)

/-- The actions of a list meet `ok` where the list takes them. -/
def Along (step : σ → α → Option σ) (ok : σ → α → Prop) : σ → List α → Prop
  | _, [] => True
  | s, a :: as => ok s a ∧ ∀ s' ∈ step s a, Along step ok s' as

instance instDecidableAlong [∀ s a, Decidable (ok s a)] (s : σ) :
    (as : List α) → Decidable (Along step ok s as)
  | [] => .isTrue trivial
  | a :: as =>
    have : DecidablePred fun s' => Along step ok s' as := fun s' => instDecidableAlong s' as
    inferInstanceAs (Decidable (ok s a ∧ ∀ s' ∈ step s a, Along step ok s' as))

theorem along_always (s : σ) (as : List α) : Along step always s as := by
  induction as generalizing s with
  | nil => trivial
  | cons a as ih => exact ⟨trivial, fun s' _ => ih s'⟩

theorem Along.mono {ok' : σ → α → Prop} (h : ∀ s a, ok s a → ok' s a) {s : σ} {as : List α}
    (ha : Along step ok s as) : Along step ok' s as := by
  induction as generalizing s with
  | nil => trivial
  | cons a as ih => exact ⟨h s a ha.1, fun s' hs' => ih (ha.2 s' hs')⟩

/-- Conditions that an invariant makes the same hold along the same lists. -/
theorem along_congr {I : σ → Prop} {P Q : σ → α → Prop} (hstep : ∀ s a s', I s → step s a = some s' → I s')
    (h : ∀ s a, I s → (P s a ↔ Q s a)) {s : σ} (hs : I s) (as : List α) :
    Along step P s as ↔ Along step Q s as := by
  induction as generalizing s with
  | nil => exact Iff.rfl
  | cons a as ih =>
    exact and_congr (h s a hs) (forall_congr' fun s' => forall_congr' fun h' => ih (hstep s a s' hs h'))

/-- What holds along a list holds where it has brought the system. -/
theorem Along.at_run {s t : σ} {as bs : List α} (h : Along step ok s (as ++ bs))
    (hr : run step s as = some t) : Along step ok t bs := by
  induction as generalizing s with
  | nil =>
    cases hr
    exact h
  | cons a as ih =>
    obtain ⟨s', h1, h2⟩ := Option.bind_eq_some_iff.mp hr
    exact ih (h.2 s' h1) h2

theorem Reach.of_run {s t : σ} {as : List α} (hs : Reach step ok init s) (hok : Along step ok s as)
    (h : run step s as = some t) : Reach step ok init t := by
  induction as generalizing s with
  | nil =>
    cases h
    exact hs
  | cons a as ih =>
    obtain ⟨s', h1, h2⟩ := Option.bind_eq_some_iff.mp h
    exact ih (.next a hs hok.1 h1) (hok.2 s' h1) h2

theorem Reach.mono {ok' : σ → α → Prop} (hok : ∀ s a, ok s a → ok' s a) {s : σ} (h : Reach step ok init s) :
    Reach step ok' init s := by
  induction h with
  | start h0 => exact .start h0
  | next a _ ha hs ih => exact .next a ih (hok _ a ha) hs

theorem Reach.trans {s t : σ} (hs : Reach step ok init s) (h : Reach step ok (· = s) t) :
    Reach step ok init t := by
  induction h with
  | start h0 => exact h0 ▸ hs
  | next a _ hok hstep ih => exact .next a ih hok hstep

/-- What a relation holds of at first, and each step of one system answers with steps of another,
relates every reached state to a reached one. -/
theorem Reach.simulated {τ β : Type*} {step' : τ → β → Option τ} {ok' : τ → β → Prop} {init' : τ → Prop}
    {R : σ → τ → Prop} (h0 : ∀ s, init s → ∃ t, init' t ∧ R s t)
    (hstep : ∀ s a s' t, R s t → ok s a → step s a = some s' → ∃ t', Reach step' ok' (· = t) t' ∧ R s' t')
    {s : σ} (h : Reach step ok init s) : ∃ t, Reach step' ok' init' t ∧ R s t := by
  induction h with
  | start hs =>
    obtain ⟨t, ht, hR⟩ := h0 _ hs
    exact ⟨t, .start ht, hR⟩
  | next a _ hok hs ih =>
    obtain ⟨t, ht, hR⟩ := ih
    obtain ⟨t', ht', hR'⟩ := hstep _ a _ t hR hok hs
    exact ⟨t', ht.trans ht', hR'⟩

/-! ### What holds all along a run -/

/-- `P` holds of every state a list of actions comes by, the last one included. -/
def Throughout (step : σ → α → Option σ) (P : σ → Prop) : σ → List α → Prop
  | s, [] => P s
  | s, a :: as => P s ∧ ∀ s' ∈ step s a, Throughout step P s' as

theorem Throughout.head {P : σ → Prop} {s : σ} {as : List α} (h : Throughout step P s as) : P s := by
  cases as with
  | nil => exact h
  | cons a as => exact h.1

/-- **A property that exactly the wrong steps break.** `I` gives `P`, steps that
meet `ok` keep `I`, and a step from `I` that does not meet `ok` leaves `P`. -/
theorem throughout_iff_along {I P : σ → Prop} (hP : ∀ s, I s → P s)
    (hkeep : ∀ s a s', I s → ok s a → step s a = some s' → I s')
    (hbreak : ∀ s a s', I s → ¬ ok s a → step s a = some s' → ¬ P s')
    {s t : σ} (hs : I s) {as : List α} (h : run step s as = some t) :
    Throughout step P s as ↔ Along step ok s as := by
  induction as generalizing s with
  | nil => exact iff_of_true (hP s hs) trivial
  | cons a as ih =>
    obtain ⟨s', h1, h2⟩ := Option.bind_eq_some_iff.mp h
    by_cases ha : ok s a
    · have ih := ih (hkeep s a s' hs ha h1) h2
      constructor
      · intro ⟨_, hr⟩
        refine ⟨ha, fun u hu => ?_⟩
        cases Option.some.inj (h1.symm.trans hu)
        exact ih.mp (hr s' h1)
      · intro ⟨_, hr⟩
        refine ⟨hP s hs, fun u hu => ?_⟩
        cases Option.some.inj (h1.symm.trans hu)
        exact ih.mpr (hr s' h1)
    · refine iff_of_false (fun hr => ?_) fun hr => ha hr.1
      exact hbreak s a s' hs ha h1 (hr.2 s' h1).head

/-- The step, with a log of what each action adds to it. -/
def logged {β : Type} (step : σ → α → Option σ) (note : σ → α → List β) (u : σ × List β) (a : α) :
    Option (σ × List β) :=
  (step u.1 a).map fun s' => (s', u.2 ++ note u.1 a)

theorem logged_eq_some {β : Type} {note : σ → α → List β} {u v : σ × List β} {a : α} :
    logged step note u a = some v ↔ step u.1 a = some v.1 ∧ v.2 = u.2 ++ note u.1 a := by
  obtain ⟨s', log⟩ := v
  rw [logged, Option.map_eq_some_iff]
  constructor
  · rintro ⟨t, ht, he⟩
    cases he
    exact ⟨ht, rfl⟩
  · rintro ⟨ht, rfl⟩
    exact ⟨s', ht, rfl⟩

/-! ### Executions -/

/-- A run that never ends. Where no action is given the state stands still. -/
structure Execution (step : σ → α → Option σ) where
  state : ℕ → σ
  act : ℕ → Option α
  next : ∀ n, match act n with
    | some a => step (state n) a = some (state (n + 1))
    | none => state (n + 1) = state n

namespace Execution

variable (e : Execution step)

theorem next_of_some {n : ℕ} {a : α} (h : e.act n = some a) :
    step (e.state n) a = some (e.state (n + 1)) := by
  have := e.next n
  rwa [h] at this

theorem next_of_none {n : ℕ} (h : e.act n = none) : e.state (n + 1) = e.state n := by
  have := e.next n
  rwa [h] at this

/-- Every action meets `ok` where it is taken. -/
def Meets (ok : σ → α → Prop) : Prop := ∀ n a, e.act n = some a → ok (e.state n) a

/-- The actions of `H` are not passed over for ever: again and again one of
them is taken, or none of them can be. -/
def WeaklyFair (H : α → Prop) : Prop :=
  ∀ n, ∃ m, n ≤ m ∧ ((∃ a, e.act m = some a ∧ H a) ∨ ∀ a, H a → step (e.state m) a = none)

/-- Whenever `P` holds, `Q` holds then or later. -/
def LeadsTo (P Q : σ → Prop) : Prop := ∀ n, P (e.state n) → ∃ m, n ≤ m ∧ Q (e.state m)

variable {e}

/-- The states of an execution are reached. -/
theorem reach (h0 : init (e.state 0)) (hok : e.Meets ok) (n : ℕ) : Reach step ok init (e.state n) := by
  induction n with
  | zero => exact .start h0
  | succ n ih =>
    cases ha : e.act n with
    | none => rwa [e.next_of_none ha]
    | some a => exact .next a ih (hok n a ha) (e.next_of_some ha)

theorem LeadsTo.trans {P Q R : σ → Prop} (h1 : e.LeadsTo P Q) (h2 : e.LeadsTo Q R) : e.LeadsTo P R := by
  intro n hn
  obtain ⟨m, hm, hq⟩ := h1 n hn
  obtain ⟨k, hk, hr⟩ := h2 m hq
  exact ⟨k, Nat.le_trans hm hk, hr⟩

/-- **A fair group that is needed and able acts.** While `P` holds some action
of `H` is possible, the actions of `H` give `Q`, and every other step keeps `P`
or gives `Q`. -/
theorem leadsTo_of_ensures {H : α → Prop} {P Q : σ → Prop} (hok : e.Meets ok) (hf : e.WeaklyFair H)
    (hstay : ∀ s a s', ok s a → ¬ H a → P s → step s a = some s' → P s' ∨ Q s')
    (hhelp : ∀ s a s', ok s a → H a → P s → step s a = some s' → Q s')
    (hable : ∀ s, P s → ∃ a, H a ∧ step s a ≠ none) : e.LeadsTo P Q := by
  intro n hn
  obtain ⟨m, hm, hfair⟩ := hf n
  -- up to the step of `H`, `P` lasts or `Q` has come
  have hlast : ∀ k, (∃ j, j ≤ n + k ∧ n ≤ j ∧ Q (e.state j)) ∨ P (e.state (n + k)) := by
    intro k
    induction k with
    | zero => exact .inr hn
    | succ k ih =>
      rcases ih with ⟨j, hj, hnj, hq⟩ | hp
      · exact .inl ⟨j, by omega, hnj, hq⟩
      · cases ha : e.act (n + k) with
        | none =>
          right
          rw [← Nat.add_assoc, e.next_of_none ha]
          exact hp
        | some a =>
          have hs := e.next_of_some ha
          by_cases hH : H a
          · exact .inl ⟨n + k + 1, by omega, by omega, hhelp _ a _ (hok _ a ha) hH hp hs⟩
          · rcases hstay _ a _ (hok _ a ha) hH hp hs with hp' | hq
            · exact .inr hp'
            · exact .inl ⟨n + k + 1, by omega, by omega, hq⟩
  obtain ⟨k, rfl⟩ := Nat.exists_eq_add_of_le hm
  rcases hlast k with ⟨j, -, hnj, hq⟩ | hp
  · exact ⟨j, hnj, hq⟩
  · rcases hfair with ⟨a, ha, hH⟩ | hnone
    · exact ⟨n + k + 1, by omega, hhelp _ a _ (hok _ a ha) hH hp (e.next_of_some ha)⟩
    · obtain ⟨a, hH, hne⟩ := hable _ hp
      exact absurd (hnone a hH) hne

/-! ### A finite run that then stands still -/

/-- The state after the first `n` actions. -/
def follow (step : σ → α → Option σ) : σ → List α → ℕ → σ
  | s, [], _ => s
  | s, _ :: _, 0 => s
  | s, a :: as, n + 1 => match step s a with
    | some s' => follow step s' as n
    | none => s

theorem follow_zero (s : σ) (as : List α) : follow step s as 0 = s := by
  cases as <;> rfl

theorem follow_next {s t : σ} {as : List α} (h : run step s as = some t) (n : ℕ) :
    match as[n]? with
    | some a => step (follow step s as n) a = some (follow step s as (n + 1))
    | none => follow step s as (n + 1) = follow step s as n := by
  induction as generalizing s n with
  | nil => rfl
  | cons a as ih =>
    obtain ⟨s', h1, h2⟩ := Option.bind_eq_some_iff.mp h
    cases n with
    | zero => simp [follow, h1, follow_zero]
    | succ n => simpa [follow, h1] using ih h2 n

theorem follow_of_length_le {s t : σ} {as : List α} (h : run step s as = some t) {n : ℕ}
    (hn : as.length ≤ n) : follow step s as n = t := by
  induction as generalizing s n with
  | nil => exact Option.some.inj h
  | cons a as ih =>
    obtain ⟨s', h1, h2⟩ := Option.bind_eq_some_iff.mp h
    cases n with
    | zero => simp at hn
    | succ n => simpa [follow, h1] using ih h2 (by simpa using hn)

/-- The execution that follows `as` and then stands still. -/
def ofRun {s t : σ} (as : List α) (h : run step s as = some t) : Execution step where
  state := follow step s as
  act n := as[n]?
  next := follow_next h

theorem ofRun_meets {s t : σ} {as : List α} (h : run step s as = some t) (hok : Along step ok s as) :
    (ofRun as h).Meets ok := by
  intro n a ha
  change as[n]? = some a at ha
  change ok (follow step s as n) a
  induction as generalizing s n with
  | nil => simp at ha
  | cons b as ih =>
    obtain ⟨s', h1, h2⟩ := Option.bind_eq_some_iff.mp h
    cases n with
    | zero =>
      cases Option.some.inj ha
      exact hok.1
    | succ n => simpa [follow, h1] using ih h2 (hok.2 s' h1) n (by simpa using ha)

/-- Standing still is fair to actions that are not possible there. -/
theorem ofRun_weaklyFair {s t : σ} {as : List α} (h : run step s as = some t) {H : α → Prop}
    (ht : ∀ a, H a → step t a = none) : (ofRun as h).WeaklyFair H := by
  intro n
  refine ⟨max n as.length, Nat.le_max_left _ _, .inr fun a ha => ?_⟩
  have hstate : (ofRun as h).state (max n as.length) = t :=
    follow_of_length_le h (Nat.le_max_right _ _)
  rw [hstate]
  exact ht a ha

end Execution
end Run
