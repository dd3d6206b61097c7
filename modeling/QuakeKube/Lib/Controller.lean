/-
# A controller that works from a cache

Objects are stored under keys. A controller has a copy of them (`cache`) that
follows the store: the versions a key has taken since are `coming`, one event
each, and an event that has reached the cache is a notice for the controller's
handlers, which queue the requests it `marks`. A worker runs the code for a
queued request against the cache; a request that is marked while it runs is
queued again, and so is one whose run has failed. Everyone may write to the
store at any time.

Whatever the order of these steps, a request is waiting, or its run is well
founded, or its work is done (`Attends`): an event that could change that marks
the request. So in an idle state all work is done, and the cache is the store.

Key definitions: `Program`, `State`, `step`, `Program.Sound`, `Waiting`, `Attends`.
Key theorems: `step_cases`, `attends`, `cache_of_idle`, `settled_of_idle`.
-/
import Mathlib.Logic.Function.Basic
import QuakeKube.Lib.Run

namespace Controller

open Run Function

variable {κ : Type} {ν : κ → Type} {ρ χ : Type} {π : ρ → Type}

/-- What there is under each key. -/
abbrev View (ν : κ → Type) := ∀ k, Option (ν k)

/-- A copy of the store, of which the objects can be listed. -/
structure Cache (ν : κ → Type) where
  get : View ν
  keys : List κ
  complete : ∀ k, get k ≠ none → k ∈ keys

def Cache.empty : Cache ν := ⟨fun _ => none, [], fun _ h => absurd rfl h⟩

@[simp] theorem Cache.get_empty (k : κ) : Cache.empty.get k = (none : Option (ν k)) := rfl

/-- A version of the object under a key. -/
structure Version (ν : κ → Type) where
  key : κ
  value : Option (ν key)

/-- What one move of a run does. -/
structure Move (ν : κ → Type) (π : Type) where
  write : Option (Version ν)
  /-- The run goes on from there; none when it returns. -/
  goesOn : Option π
  /-- The request is queued again. -/
  requeue : Bool

/-- The code of a controller: which requests a handler makes of an object of an
event, and how the run of a request moves, given the cache, the store and what
else it is answered. -/
structure Program (ν : κ → Type) (π : ρ → Type) (χ : Type) where
  marks : View ν → Version ν → ρ → Bool
  start : ∀ r, π r
  next : ∀ r, π r → Cache ν → View ν → χ → Option (Move ν (π r))

structure State (ν : κ → Type) (π : ρ → Type) where
  store : View ν
  cache : Cache ν
  /-- The versions of each key that have not reached the cache. -/
  coming : ∀ k, List (Option (ν k))
  /-- The changes of the cache that have not been handled, old and new version. -/
  notices : ∀ k, List (Option (ν k) × Option (ν k))
  queued : ρ → Bool
  running : ∀ r, Option (π r)

inductive Action (ν : κ → Type) (ρ χ : Type)
  /-- Somebody writes an object. -/
  | write (v : Version ν)
  | deliver (k : κ)
  | handle (k : κ)
  /-- A request is queued for another reason. -/
  | mark (r : ρ)
  | start (r : ρ)
  | move (r : ρ) (c : χ)
  | fail (r : ρ)

namespace State

/-- Some objects are stored, and the controller has heard of none. -/
def initial (store : View ν) : State ν π where
  store := store
  cache := .empty
  coming k := match store k with
    | none => []
    | some v => [some v]
  notices _ := []
  queued _ := false
  running _ := none

/-- All events are delivered and handled, and no request is queued or running. -/
structure Idle (s : State ν π) : Prop where
  coming : ∀ k, s.coming k = []
  notices : ∀ k, s.notices k = []
  queued : ∀ r, s.queued r = false
  running : ∀ r, s.running r = none

/-- Idle, where only some keys can have had events. -/
theorem Idle.of_keys {s : State ν π} {keys : List κ} (inside : ∀ k ∈ keys, s.coming k = [] ∧ s.notices k = [])
    (outside : ∀ k ∉ keys, s.coming k = [] ∧ s.notices k = [])
    (requests : ∀ r, s.queued r = false ∧ s.running r = none) : s.Idle := by
  have events : ∀ k, s.coming k = [] ∧ s.notices k = [] := by
    intro k
    by_cases hk : k ∈ keys
    · exact inside k hk
    · exact outside k hk
  exact ⟨fun k => (events k).1, fun k => (events k).2, fun r => (requests r).1, fun r => (requests r).2⟩

end State

variable (P : Program ν π χ)

/-- The request is queued, or an event that marks it is on its way. -/
inductive Waiting (s : State ν π) (r : ρ) : Prop
  | queued (h : s.queued r = true)
  | noticed (k : κ) (old new : Option (ν k)) (h : (old, new) ∈ s.notices k)
      (hm : P.marks s.cache.get ⟨k, old⟩ r = true ∨ P.marks s.cache.get ⟨k, new⟩ r = true)
  | coming (k : κ) (o : Option (ν k)) (h : o ∈ s.coming k) (hm : ∀ V, P.marks V ⟨k, o⟩ r = true)

variable {P}

theorem Waiting.mono {s s' : State ν π} {r : ρ} (h : Waiting P s r) (hc : s'.cache = s.cache)
    (hq : s.queued r = true → s'.queued r = true) (hn : ∀ k, s.notices k ⊆ s'.notices k)
    (ho : ∀ k, s.coming k ⊆ s'.coming k) : Waiting P s' r := by
  cases h with
  | queued h => exact .queued (hq h)
  | noticed k old new h hm => exact .noticed k old new (hn k h) (hc.symm ▸ hm)
  | coming k o h hm => exact .coming k o (ho k h) hm

theorem not_waiting_of_idle {s : State ν π} (hi : s.Idle) (r : ρ) : ¬ Waiting P s r := by
  intro h
  cases h with
  | queued h => simp [hi.queued r] at h
  | noticed k o n h => simp [hi.notices k] at h
  | coming k o h => simp [hi.coming k] at h

variable [DecidableEq κ]

/-- A copy that has got a version. -/
def View.set (V : View ν) (v : Version ν) : View ν := update V v.key v.value

theorem View.set_of_ne {V : View ν} {v : Version ν} {k : κ} (h : k ≠ v.key) : V.set v k = V k :=
  update_of_ne h _ _

def Cache.set (c : Cache ν) (v : Version ν) : Cache ν where
  get := c.get.set v
  keys := v.key :: c.keys
  complete k h := by
    by_cases hk : k = v.key
    · exact hk ▸ List.mem_cons_self
    · rw [View.set_of_ne hk] at h
      exact List.mem_cons_of_mem _ (c.complete k h)

namespace State

/-- What is written, if anything, is stored and becomes an event. -/
def put (s : State ν π) (w : Option (Version ν)) : State ν π :=
  { s with
    store := w.elim s.store (View.set s.store)
    coming := w.elim s.coming fun v => update s.coming v.key (s.coming v.key ++ [v.value]) }

variable (s : State ν π) (w : Option (Version ν))

@[simp] theorem put_cache : (s.put w).cache = s.cache := rfl
@[simp] theorem put_notices : (s.put w).notices = s.notices := rfl
@[simp] theorem put_queued : (s.put w).queued = s.queued := rfl
@[simp] theorem put_running : (s.put w).running = s.running := rfl

end State

theorem coming_put (s : State ν π) (w : Option (Version ν)) (k : κ) : s.coming k ⊆ (s.put w).coming k := by
  cases w with
  | none => exact List.Subset.refl _
  | some v =>
    by_cases hk : k = v.key
    · subst hk
      simp [State.put]
    · simp [State.put, hk]

theorem Waiting.put {s : State ν π} {r : ρ} (h : Waiting P s r) (w : Option (Version ν)) :
    Waiting P (s.put w) r :=
  h.mono rfl id (fun _ => List.Subset.refl _) (coming_put s w)

/-- What is written reaches the handlers. -/
theorem waiting_put {s : State ν π} {r : ρ} {v : Version ν} (h : ∀ V, P.marks V v r = true) :
    Waiting P (s.put (some v)) r :=
  .coming v.key v.value (by simp [State.put]) h

/-! ### Steps -/

variable [DecidableEq ρ] (P)

def step (s : State ν π) : Action ν ρ χ → Option (State ν π)
  | .write v => some (s.put (some v))
  | .deliver k => match s.coming k with
    | [] => none
    | o :: os => some { s with
        cache := s.cache.set ⟨k, o⟩
        coming := update s.coming k os
        notices := update s.notices k (s.notices k ++ [(s.cache.get k, o)]) }
  | .handle k => match s.notices k with
    | [] => none
    | (old, new) :: os => some { s with
        notices := update s.notices k os
        queued := fun r => s.queued r || P.marks s.cache.get ⟨k, old⟩ r || P.marks s.cache.get ⟨k, new⟩ r }
  | .mark r => some { s with queued := update s.queued r true }
  | .start r =>
    if s.queued r = true ∧ s.running r = none then
      some { s with queued := update s.queued r false, running := update s.running r (some (P.start r)) }
    else none
  | .move r c => do
    let p ← s.running r
    let m ← P.next r p s.cache s.store c
    some { s.put m.write with
      queued := update s.queued r (s.queued r || m.requeue)
      running := update s.running r m.goesOn }
  | .fail r => match s.running r with
    | none => none
    | some _ => some { s with queued := update s.queued r true, running := update s.running r none }

/-! ### What a step can do -/

inductive Step (s : State ν π) : Action ν ρ χ → State ν π → Prop
  | write {v : Version ν} : Step s (.write v) (s.put (some v))
  | deliver {k : κ} {o : Option (ν k)} {os : List (Option (ν k))} : s.coming k = o :: os →
      Step s (.deliver k) { s with
        cache := s.cache.set ⟨k, o⟩
        coming := update s.coming k os
        notices := update s.notices k (s.notices k ++ [(s.cache.get k, o)]) }
  | handle {k : κ} {old new : Option (ν k)} {os : List (Option (ν k) × Option (ν k))} :
      s.notices k = (old, new) :: os → Step s (.handle k) { s with
        notices := update s.notices k os
        queued := fun r => s.queued r || P.marks s.cache.get ⟨k, old⟩ r || P.marks s.cache.get ⟨k, new⟩ r }
  | mark {r : ρ} : Step s (.mark r) { s with queued := update s.queued r true }
  | start {r : ρ} : s.queued r = true → s.running r = none → Step s (.start r) { s with
      queued := update s.queued r false
      running := update s.running r (some (P.start r)) }
  | move {r : ρ} {c : χ} {p : π r} {m : Move ν (π r)} : s.running r = some p →
      P.next r p s.cache s.store c = some m → Step s (.move r c) { s.put m.write with
        queued := update s.queued r (s.queued r || m.requeue)
        running := update s.running r m.goesOn }
  | fail {r : ρ} {p : π r} : s.running r = some p → Step s (.fail r) { s with
      queued := update s.queued r true
      running := update s.running r none }

variable {P}

theorem step_cases {s s' : State ν π} {a : Action ν ρ χ} (h : step P s a = some s') : Step P s a s' := by
  cases a with
  | write v => cases h; exact .write
  | deliver k =>
    simp only [step] at h
    split at h <;> cases h
    exact .deliver ‹_›
  | handle k =>
    simp only [step] at h
    split at h <;> cases h
    exact .handle ‹_›
  | mark r => cases h; exact .mark
  | start r =>
    simp only [step] at h
    split at h <;> cases h
    next hr => exact .start hr.1 hr.2
  | move r c =>
    obtain ⟨p, hp, h⟩ := Option.bind_eq_some_iff.mp h
    obtain ⟨m, hm, h⟩ := Option.bind_eq_some_iff.mp h
    cases h
    exact .move hp hm
  | fail r =>
    simp only [step] at h
    split at h <;> cases h
    exact .fail ‹_›

/-! ### What a step leaves alone -/

/-- The keys an action may be about, where a run writes the keys `W`. -/
def Action.Touches (W : ρ → κ → Prop) : Action ν ρ χ → κ → Prop
  | .write v, k => v.key = k
  | .deliver j, k | .handle j, k => j = k
  | .move r _, k => W r k
  | .mark _, _ | .start _, _ | .fail _, _ => False

omit [DecidableEq ρ] in
theorem put_of_ne {s : State ν π} {w : Option (Version ν)} {k : κ} (h : ∀ v ∈ w, v.key ≠ k) :
    (s.put w).coming k = s.coming k := by
  cases w with
  | none => rfl
  | some v => exact update_of_ne (h v rfl).symm _ _

/-- There are no events of a key that an action is not about. -/
theorem events_of_step {W : ρ → κ → Prop}
    (hw : ∀ r p cache store c m, P.next r p cache store c = some m → ∀ w ∈ m.write, W r w.key)
    {s s' : State ν π} {a : Action ν ρ χ} {k : κ} (hs : step P s a = some s') (ha : ¬ a.Touches W k) :
    s'.coming k = s.coming k ∧ s'.notices k = s.notices k := by
  cases step_cases hs with
  | write => exact ⟨put_of_ne fun u hu => by cases hu; exact ha, rfl⟩
  | deliver => exact ⟨update_of_ne (Ne.symm ha) _ _, update_of_ne (Ne.symm ha) _ _⟩
  | handle => exact ⟨rfl, update_of_ne (Ne.symm ha) _ _⟩
  | @move r c p m _ hm =>
    refine ⟨put_of_ne fun w hmw hk => ha ?_, rfl⟩
    rw [← hk]
    exact hw r p _ _ c m hm w hmw
  | mark | start | fail => exact ⟨rfl, rfl⟩

theorem events_of_run {W : ρ → κ → Prop}
    (hw : ∀ r p cache store c m, P.next r p cache store c = some m → ∀ w ∈ m.write, W r w.key)
    {s s' : State ν π} {as : List (Action ν ρ χ)} {k : κ} (hs : run (step P) s as = some s')
    (ha : ∀ a ∈ as, ¬ a.Touches W k) : s'.coming k = s.coming k ∧ s'.notices k = s.notices k := by
  induction as generalizing s with
  | nil =>
    cases hs
    exact ⟨rfl, rfl⟩
  | cons a as ih =>
    obtain ⟨t, h1, h2⟩ := Option.bind_eq_some_iff.mp hs
    have first := events_of_step hw h1 (ha a List.mem_cons_self)
    have rest := ih h2 fun b hb => ha b (List.mem_cons_of_mem a hb)
    exact ⟨rest.1.trans first.1, rest.2.trans first.2⟩

/-! ### The cache follows the store -/

variable (P)

/-- What the cache comes to is what is stored. -/
def Synced (s : State ν π) : Prop := ∀ k, (s.coming k).getLastD (s.cache.get k) = s.store k

omit [DecidableEq ρ] in
theorem synced_put {s : State ν π} (h : Synced s) (w : Option (Version ν)) : Synced (s.put w) := by
  cases w with
  | none => exact h
  | some v =>
    intro k
    by_cases hk : k = v.key
    · subst hk
      simp [State.put, View.set]
    · simpa [State.put, View.set, hk] using h k

theorem synced_step {s s' : State ν π} {a : Action ν ρ χ} (h : Synced s) (hs : step P s a = some s') :
    Synced s' := by
  cases step_cases hs with
  | write | move => exact synced_put h _
  | @deliver k o os he =>
    intro j
    by_cases hj : j = k
    · subst hj
      simpa [Cache.set, View.set, he, List.getLast?_cons] using h j
    · simpa [Cache.set, View.set, hj] using h j
  | handle | mark | start | fail => exact h

/-- The states that the controller, its users and the events bring about. -/
abbrev Reached (s : State ν π) : Prop := Reach (step P) always (fun s => ∃ store, s = .initial store) s

theorem synced {s : State ν π} (h : Reached P s) : Synced s := by
  refine h.invariant ?_ fun _ _ _ hi _ hs => synced_step P hi hs
  rintro _ ⟨store, rfl⟩ k
  simp only [State.initial]
  cases store k <;> rfl

variable {P}

/-- With all events delivered, the cache is the store. -/
theorem cache_of_idle {s : State ν π} (h : Reached P s) (hi : s.Idle) : s.cache.get = s.store := by
  funext k
  simpa [hi.coming k] using synced P h k

/-! ### Waiting, or well founded, or done -/

/-- A move keeps the run well founded, or asks for another run, or writes what
marks the request. -/
def Leads (marks : View ν → Version ν → ρ → Bool) (Good : ∀ r, π r → View ν → Prop)
    (Settled : ρ → View ν → Prop)
    (r : ρ) (V : View ν) (m : Move ν (π r)) : Prop :=
  m.requeue = true ∨ (∃ w ∈ m.write, ∀ V', marks V' w r = true) ∨
    match m.goesOn with
    | some q => Good r q V
    | none => Settled r V

variable (P) in
/-- What is asked of the code. `Good` is what a run in progress has made sure of,
`Settled` that the work of a request is done, both as the cache has it. -/
structure Program.Sound where
  Good : ∀ r, π r → View ν → Prop
  Settled : ρ → View ν → Prop
  settled_nothing : ∀ r, Settled r fun _ => none
  /-- A change of the cache that marks a request neither before nor after leaves it alone. -/
  marks_of_quiet : ∀ (V : View ν) (v : Version ν) (r : ρ), let V' := V.set v
    P.marks V' ⟨v.key, V v.key⟩ r = false → P.marks V' v r = false →
      ∀ w, P.marks V w r = true → P.marks V' w r = true
  good_of_quiet : ∀ (V : View ν) (v : Version ν) (r : ρ), let V' := V.set v
    P.marks V' ⟨v.key, V v.key⟩ r = false → P.marks V' v r = false → ∀ p, Good r p V → Good r p V'
  settled_of_quiet : ∀ (V : View ν) (v : Version ν) (r : ρ), let V' := V.set v
    P.marks V' ⟨v.key, V v.key⟩ r = false → P.marks V' v r = false → Settled r V → Settled r V'
  good_start : ∀ r V, Good r (P.start r) V
  good_next : ∀ {r} {p : π r} {cache : Cache ν} {store c m}, Good r p cache.get →
    P.next r p cache store c = some m → Leads P.marks Good Settled r cache.get m

variable (L : P.Sound)

/-- No request is forgotten. -/
def Attends (s : State ν π) (r : ρ) : Prop :=
  Waiting P s r ∨ match s.running r with
    | some p => L.Good r p s.cache.get
    | none => L.Settled r s.cache.get

omit [DecidableEq ρ] in
theorem attends_deliver {s : State ν π} {k : κ} {o : Option (ν k)} {os : List (Option (ν k))} {r : ρ}
    (h : Attends L s r) (he : s.coming k = o :: os) : Attends L { s with
      cache := s.cache.set ⟨k, o⟩
      coming := update s.coming k os
      notices := update s.notices k (s.notices k ++ [(s.cache.get k, o)]) } r := by
  -- the new notice marks the request, or the request is left alone
  by_cases hm : P.marks (View.set s.cache.get ⟨k, o⟩) ⟨k, s.cache.get k⟩ r = true ∨
    P.marks (View.set s.cache.get ⟨k, o⟩) ⟨k, o⟩ r = true
  · exact .inl (.noticed k (s.cache.get k) o (by simp) hm)
  · obtain ⟨h1, h2⟩ : P.marks (View.set s.cache.get ⟨k, o⟩) ⟨k, s.cache.get k⟩ r = false ∧
        P.marks (View.set s.cache.get ⟨k, o⟩) ⟨k, o⟩ r = false := by simpa using hm
    have keeps := L.marks_of_quiet s.cache.get ⟨k, o⟩ r h1 h2
    rcases h with h | h
    · left
      cases h with
      | queued h => exact .queued h
      | noticed j old new h hj =>
        refine .noticed j old new ?_ (hj.imp (keeps _) (keeps _))
        by_cases hjk : j = k
        · subst hjk
          simp [h]
        · simpa [hjk] using h
      | coming j x h hj =>
        refine .coming j x ?_ hj
        by_cases hjk : j = k
        · subst hjk
          rw [he, List.mem_cons] at h
          rcases h with rfl | h
          · exact absurd (hj _) (by rw [h2]; exact Bool.false_ne_true)
          · simpa using h
        · simpa [hjk] using h
    · right
      revert h
      simp only
      cases s.running r with
      | none => exact L.settled_of_quiet s.cache.get ⟨k, o⟩ r h1 h2
      | some p => exact L.good_of_quiet s.cache.get ⟨k, o⟩ r h1 h2 p

omit [DecidableEq ρ] in
theorem attends_handle {s : State ν π} {k : κ} {old new : Option (ν k)}
    {os : List (Option (ν k) × Option (ν k))} {r : ρ} (h : Attends L s r)
    (he : s.notices k = (old, new) :: os) : Attends L { s with
      notices := update s.notices k os
      queued := fun r => s.queued r || P.marks s.cache.get ⟨k, old⟩ r || P.marks s.cache.get ⟨k, new⟩ r } r := by
  rcases h with h | h
  · left
    cases h with
    | queued h => exact .queued (by simp [h])
    | noticed j o n h hm =>
      by_cases hj : j = k
      · subst hj
        rw [he, List.mem_cons] at h
        rcases h with h | h
        · cases h
          exact .queued (by rcases hm with hm | hm <;> simp [hm])
        · exact .noticed j o n (by simpa using h) hm
      · exact .noticed j o n (by simpa [hj] using h) hm
    | coming j o h hm => exact .coming j o h hm
  · exact .inr h

theorem attends_move {s : State ν π} {q : ρ} {c : χ} {p : π q} {m : Move ν (π q)} (h : ∀ r, Attends L s r)
    (hp : s.running q = some p) (hm : P.next q p s.cache s.store c = some m) (r : ρ) :
    Attends L { s.put m.write with
      queued := update s.queued q (s.queued q || m.requeue)
      running := update s.running q m.goesOn } r := by
  rcases h r with h | h
  · left
    refine (h.put m.write).mono rfl (fun hq => ?_) (fun _ => List.Subset.refl _) fun _ => List.Subset.refl _
    have queued : s.queued r = true := hq
    by_cases hr : r = q
    · subst hr
      simp [queued]
    · simp [hr, queued]
  · by_cases hr : r = q
    · subst hr
      rw [hp] at h
      rcases L.good_next h hm with hq | ⟨w, hw, hk⟩ | hg
      · exact .inl (.queued (by simp [hq]))
      · left
        rw [Option.mem_def] at hw
        refine (waiting_put (s := s) hk).mono rfl (fun hq => ?_) (fun _ => List.Subset.refl _) fun k => ?_
        · have queued : s.queued r = true := hq
          simp [queued]
        · rw [hw]
          exact List.Subset.refl _
      · right
        simpa using hg
    · right
      simpa [hr] using h

/-- A change of one request's place in the queue and run leaves the others alone. -/
theorem attends_other {s : State ν π} {q r : ρ} {b : Bool} {p : Option (π q)} (h : Attends L s r)
    (hr : r ≠ q) : Attends L { s with queued := update s.queued q b, running := update s.running q p } r := by
  rcases h with hw | hg
  · refine .inl (hw.mono rfl (fun hq => ?_) (fun _ => List.Subset.refl _) fun _ => List.Subset.refl _)
    simpa [hr] using hq
  · right
    simpa [hr] using hg

theorem attends_step {s s' : State ν π} {a : Action ν ρ χ} (h : ∀ r, Attends L s r)
    (hs : step P s a = some s') (r : ρ) : Attends L s' r := by
  cases step_cases hs with
  | @write v => exact (h r).imp_left fun hw => hw.put (some v)
  | deliver he => exact attends_deliver L (h r) he
  | handle he => exact attends_handle L (h r) he
  | @mark q =>
    refine (h r).imp_left fun hw => hw.mono rfl (fun hq => ?_) (fun _ => List.Subset.refl _) fun _ =>
      List.Subset.refl _
    by_cases hr : r = q <;> simp [hr, hq]
  | @start q =>
    by_cases hr : r = q
    · subst hr
      exact .inr (by simpa using L.good_start r s.cache.get)
    · exact attends_other L (h r) hr
  | move hp hm => exact attends_move L h hp hm r
  | @fail q =>
    by_cases hr : r = q
    · exact .inl (.queued (by simp [hr]))
    · exact attends_other L (h r) hr

/-- **No request is forgotten**, in whatever order the steps come. -/
theorem attends {s : State ν π} (h : Reached P s) (r : ρ) : Attends L s r := by
  refine h.invariant (I := fun s => ∀ r, Attends L s r) ?_ (fun _ _ _ hi _ hs => attends_step L hi hs) r
  rintro _ ⟨store, rfl⟩ r
  exact .inr (L.settled_nothing r)

/-- **In an idle state all work is done**, as the store has it. -/
theorem settled_of_idle {s : State ν π} (h : Reached P s) (hi : s.Idle) (r : ρ) : L.Settled r s.store := by
  have ha := (attends L h r).resolve_left (not_waiting_of_idle hi r)
  rw [hi.running r, cache_of_idle h hi] at ha
  exact ha

end Controller
