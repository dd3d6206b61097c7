/-
# Values that are written in pieces

A store whose values are sequences. A writer begins with an empty value under its key, and
adds piece after piece of its own value, each at the position it has got to; where another
one has cut the value short, `fill` stands in between. A reader knows the length that the
value had when it began, and takes piece after piece. Any number of both work at once.

As long as none begins to write where another one writes or reads, and none to read where
another one writes (`Apart`), nothing of this shows: the store is one that is written whole,
by the writers in the order of their ends, and a reader has got the beginning of a value
that such a store held (`Linear`).

Key definitions: `overwrite`, `State`, `State.step`, `Apart`, `Linear`.
Key theorems: `linear_step`, `Linear.reach`.
-/
import QuakeKube.Lib.Run
import QuakeKube.Lib.Store
import Mathlib.Data.List.Infix

namespace Pieces

open Run Store

variable {κ ι α : Type}

/-! ### Writers and readers -/

/-- A value with a piece written at a position. -/
def overwrite (fill : α) (old : List α) (pos : ℕ) (piece : List α) : List α :=
  (old ++ List.replicate (pos - old.length) fill).take pos ++ piece ++ old.drop (pos + piece.length)

structure Write (κ α : Type) where
  key : κ
  value : List α
  written : ℕ

/-- What it has written so far. -/
def Write.soFar (w : Write κ α) : κ × List α := (w.key, w.value.take w.written)

structure Read (κ α : Type) where
  key : κ
  /-- The length of the value when it began. -/
  size : ℕ
  got : List α

/-- It takes up to `n` more of the value that is there. -/
def Read.take (r : Read κ α) (value : List α) (n : ℕ) : Read κ α :=
  { r with got := r.got ++ (value.drop r.got.length).take (min n (r.size - r.got.length)) }

structure State (κ ι α : Type) where
  held : κ → Option (List α)
  writers : ι → Option (Write κ α)
  readers : ι → Option (Read κ α)
  /-- What the writers that have ended have written, in the order of their ends. -/
  log : List (κ × List α)
  /-- The readers that have ended. -/
  ended : List (Read κ α)

inductive Act (κ ι α : Type)
  | create (i : ι) (k : κ) (value : List α)
  | write (i : ι) (n : ℕ)
  /-- A writer ends, with all of its value or without. -/
  | close (i : ι)
  | open (i : ι) (k : κ)
  | read (i : ι) (n : ℕ)
  | leave (i : ι)

variable [DecidableEq κ] [DecidableEq ι]

def State.step (fill : α) (s : State κ ι α) : Act κ ι α → Option (State κ ι α)
  | .create i k value => match s.writers i with
    | some _ => none
    | none => some { s with
        held := put s.held (k, []), writers := Function.update s.writers i (some ⟨k, value, 0⟩) }
  | .write i n => match s.writers i with
    | none => none
    | some w => match s.held w.key with
      | none => none
      | some old =>
        if 0 < n ∧ w.written + n ≤ w.value.length then some { s with
          held := put s.held (w.key, overwrite fill old w.written ((w.value.drop w.written).take n))
          writers := Function.update s.writers i (some { w with written := w.written + n }) }
        else none
  | .close i => match s.writers i with
    | none => none
    | some w => some { s with
        writers := Function.update s.writers i none, log := s.log ++ [w.soFar] }
  | .open i k => match s.readers i, s.held k with
    | none, some value => some { s with
        readers := Function.update s.readers i (some ⟨k, value.length, []⟩) }
    | _, _ => none
  | .read i n => match s.readers i with
    | none => none
    | some r => match s.held r.key with
      | none => none
      | some value => some { s with readers := Function.update s.readers i (some (r.take value n)) }
  | .leave i => match s.readers i with
    | none => none
    | some r => some { s with
        readers := Function.update s.readers i none, ended := s.ended ++ [r] }

/-! ### Each on its own -/

def State.Writing (s : State κ ι α) (k : κ) : Prop := ∃ i w, s.writers i = some w ∧ w.key = k

def State.Reading (s : State κ ι α) (k : κ) : Prop := ∃ i r, s.readers i = some r ∧ r.key = k

/-- None begins where another one would notice. -/
def Apart (s : State κ ι α) : Act κ ι α → Prop
  | .create _ k _ => ¬ s.Writing k ∧ ¬ s.Reading k
  | .open _ k => ¬ s.Writing k
  | _ => True

/-- What a reader has got is the beginning of a value. -/
def Read.Of (r : Read κ α) (value : List α) : Prop := r.size = value.length ∧ r.got <+: value

/-- The store is one that is written whole, and held `start` at first. -/
structure Linear (start : κ → Option (List α)) (s : State κ ι α) : Prop where
  held : ∀ k, ¬ s.Writing k → s.held k = puts start s.log k
  writing : ∀ i w, s.writers i = some w → w.written ≤ w.value.length ∧ s.held w.key = some w.soFar.2
  one : ∀ i j v w, s.writers i = some v → s.writers j = some w → v.key = w.key → i = j
  reading : ∀ i r, s.readers i = some r → ¬ s.Writing r.key ∧ ∃ value, s.held r.key = some value ∧ r.Of value
  ended : ∀ r ∈ s.ended, ∃ done value, done <+: s.log ∧ puts start done r.key = some value ∧ r.Of value

variable {start : κ → Option (List α)} {fill : α} {s s' : State κ ι α} {a : Act κ ι α} {i : ι} {n : ℕ}

omit [DecidableEq κ] [DecidableEq ι] in
/-- A writer's next piece goes to the end of what it has written. -/
theorem overwrite_soFar (w : Write κ α) (h : w.written + n ≤ w.value.length) :
    overwrite fill w.soFar.2 w.written ((w.value.drop w.written).take n) = w.value.take (w.written + n) := by
  have hlen : (w.value.take w.written).length = w.written := List.length_take_of_le (by omega)
  have htake : (w.value.take w.written).take w.written = w.value.take w.written := by
    rw [List.take_take, Nat.min_self]
  have hdrop : ∀ m, (w.value.take w.written).drop (w.written + m) = [] :=
    fun m => List.drop_eq_nil_of_le (by omega)
  rw [overwrite, Write.soFar, hlen, Nat.sub_self, List.replicate_zero, List.append_nil, htake, hdrop,
    List.append_nil, List.take_add]

omit [DecidableEq κ] [DecidableEq ι] in
/-- A reader that takes more of its value. -/
theorem Read.Of.take {r : Read κ α} {value : List α} (h : r.Of value) (n : ℕ) :
    (r.take value n).Of value := by
  obtain ⟨hsize, rest, rfl⟩ := h
  refine ⟨hsize, ?_⟩
  rw [Read.take, List.drop_left]
  exact (List.prefix_append_right_inj r.got).mpr (List.take_prefix _ rest)

section Update

variable {β : Type} {f : ι → Option β} {x y : β} {j : ι}

theorem update_eq_some : Function.update f i (some x) j = some y ↔ j = i ∧ x = y ∨ j ≠ i ∧ f j = some y := by
  by_cases h : j = i
  · simp [h]
  · simp [h]

theorem update_none_eq_some : Function.update f i none j = some y ↔ j ≠ i ∧ f j = some y := by
  by_cases h : j = i
  · simp [h]
  · simp [h]

end Update

/-! ### What a step keeps -/

variable {k : κ}

omit [DecidableEq κ] in
/-- The keys that are written to once a writer has begun, or gone on. -/
theorem writing_update {w : Write κ α} {t : State κ ι α}
    (ht : t.writers = Function.update s.writers i (some w))
    (hw : ∀ v, s.writers i = some v → v.key = w.key) : t.Writing k ↔ w.key = k ∨ s.Writing k := by
  constructor
  · rintro ⟨j, v, hv, rfl⟩
    rw [ht, update_eq_some] at hv
    rcases hv with ⟨-, rfl⟩ | ⟨-, hv⟩
    · exact .inl rfl
    · exact .inr ⟨j, v, hv, rfl⟩
  · rintro (rfl | ⟨j, v, hv, rfl⟩)
    · exact ⟨i, w, by rw [ht, Function.update_self], rfl⟩
    · by_cases hj : j = i
      · subst hj
        exact ⟨j, w, by rw [ht, Function.update_self], (hw v hv).symm⟩
      · exact ⟨j, v, by rw [ht, Function.update_of_ne hj, hv], rfl⟩

theorem Linear.create (h : Linear start s) {value : List α} (hi : s.writers i = none) (hw : ¬ s.Writing k)
    (hr : ¬ s.Reading k) : Linear start { s with
      held := put s.held (k, []), writers := Function.update s.writers i (some ⟨k, value, 0⟩) } := by
  set t : State κ ι α := { s with
    held := put s.held (k, []), writers := Function.update s.writers i (some ⟨k, value, 0⟩) } with ht
  have hwriting : ∀ k', t.Writing k' ↔ k = k' ∨ s.Writing k' := fun k' =>
    writing_update (w := ⟨k, value, 0⟩) rfl fun v hv => by simp [hi] at hv
  refine ⟨fun k' hk' => ?_, fun j v hv => ?_, fun j j' v v' hv hv' he => ?_, fun j r hrj => ?_, h.ended⟩
  · obtain ⟨hne, hk'⟩ := not_or.mp (mt (hwriting k').mpr hk')
    exact (put_of_ne (Ne.symm hne)).trans (h.held k' hk')
  · rcases update_eq_some.mp hv with ⟨-, rfl⟩ | ⟨-, hv⟩
    · exact ⟨Nat.zero_le _, put_self s.held (k, [])⟩
    · have hne : v.key ≠ k := fun he => hw ⟨j, v, hv, he⟩
      exact ⟨(h.writing j v hv).1, (put_of_ne hne).trans (h.writing j v hv).2⟩
  · rcases update_eq_some.mp hv with ⟨rfl, rfl⟩ | ⟨-, hold⟩
    · rcases update_eq_some.mp hv' with ⟨rfl, -⟩ | ⟨-, hold'⟩
      · rfl
      · exact absurd ⟨j', v', hold', he.symm⟩ hw
    · rcases update_eq_some.mp hv' with ⟨-, rfl⟩ | ⟨-, hold'⟩
      · exact absurd ⟨j, v, hold, he⟩ hw
      · exact h.one j j' v v' hold hold' he
  · obtain ⟨hnw, value', hheld, hof⟩ := h.reading j r hrj
    have hne : r.key ≠ k := fun he => hr ⟨j, r, hrj, he⟩
    refine ⟨fun hc => ?_, value', (put_of_ne hne).trans hheld, hof⟩
    rcases (hwriting r.key).mp hc with he | hc
    · exact hne he.symm
    · exact hnw hc

theorem Linear.write (h : Linear start s) {w : Write κ α} (hi : s.writers i = some w)
    (hn : w.written + n ≤ w.value.length) : Linear start { s with
      held := put s.held (w.key, overwrite fill w.soFar.2 w.written ((w.value.drop w.written).take n))
      writers := Function.update s.writers i (some { w with written := w.written + n }) } := by
  rw [overwrite_soFar w hn]
  set w' : Write κ α := { w with written := w.written + n } with hw'
  set t : State κ ι α := { s with
    held := put s.held (w.key, w.value.take (w.written + n))
    writers := Function.update s.writers i (some w') } with ht
  have hsame : ∀ k', t.Writing k' ↔ s.Writing k' := by
    intro k'
    have hkey : ∀ v, s.writers i = some v → v.key = w'.key := fun v hv => by
      rw [← Option.some.inj (hi.symm.trans hv)]
    rw [writing_update (t := t) rfl hkey]
    exact or_iff_right_of_imp fun he => ⟨i, w, hi, he⟩
  refine ⟨fun k' hk' => ?_, fun j v hv => ?_, fun j j' v v' hv hv' he => ?_, fun j r hrj => ?_, h.ended⟩
  · rw [hsame] at hk'
    have hne : k' ≠ w.key := fun he => hk' ⟨i, w, hi, he.symm⟩
    exact (put_of_ne hne).trans (h.held k' hk')
  · rcases update_eq_some.mp hv with ⟨-, rfl⟩ | ⟨hj, hv⟩
    · exact ⟨hn, put_self s.held (w.key, w.value.take (w.written + n))⟩
    · have hne : v.key ≠ w.key := fun he => hj (h.one j i v w hv hi he)
      exact ⟨(h.writing j v hv).1, (put_of_ne hne).trans (h.writing j v hv).2⟩
  · rcases update_eq_some.mp hv with ⟨rfl, rfl⟩ | ⟨-, hold⟩
    · rcases update_eq_some.mp hv' with ⟨rfl, -⟩ | ⟨-, hold'⟩
      · rfl
      · exact h.one j j' w v' hi hold' he
    · rcases update_eq_some.mp hv' with ⟨rfl, rfl⟩ | ⟨-, hold'⟩
      · exact h.one j j' v w hold hi he
      · exact h.one j j' v v' hold hold' he
  · obtain ⟨hnw, value', hheld, hof⟩ := h.reading j r hrj
    have hne : r.key ≠ w.key := fun he => hnw ⟨i, w, hi, he.symm⟩
    exact ⟨mt (hsame r.key).mp hnw, value', (put_of_ne hne).trans hheld, hof⟩

omit [DecidableEq κ] in
/-- A writer has ended: others write where others wrote. -/
theorem writing_close {w : Write κ α} {t : State κ ι α} (hi : s.writers i = some w)
    (ht : t.writers = Function.update s.writers i none)
    (hone : ∀ j v, s.writers j = some v → v.key = w.key → j = i) : t.Writing k ↔ s.Writing k ∧ k ≠ w.key := by
  constructor
  · rintro ⟨j, v, hv, rfl⟩
    rw [ht, update_none_eq_some] at hv
    exact ⟨⟨j, v, hv.2, rfl⟩, fun he => hv.1 (hone j v hv.2 he)⟩
  · rintro ⟨⟨j, v, hv, rfl⟩, hne⟩
    refine ⟨j, v, ?_, rfl⟩
    rw [ht, update_none_eq_some]
    refine ⟨?_, hv⟩
    rintro rfl
    exact hne (congrArg Write.key (Option.some.inj (hv.symm.trans hi)))

theorem Linear.close (h : Linear start s) {w : Write κ α} (hi : s.writers i = some w) : Linear start { s with
    writers := Function.update s.writers i none, log := s.log ++ [w.soFar] } := by
  set t : State κ ι α := { s with
    writers := Function.update s.writers i none, log := s.log ++ [w.soFar] } with ht
  have hwriting : ∀ k', t.Writing k' ↔ s.Writing k' ∧ k' ≠ w.key := fun k' =>
    writing_close hi rfl fun j v hv he => h.one j i v w hv hi he
  have hput : ∀ k', puts start t.log k' = put (puts start s.log) w.soFar k' := by
    intro k'
    rw [ht, puts_append]
    rfl
  refine ⟨fun k' hk' => ?_, fun j v hv => ?_, fun j j' v v' hv hv' he => ?_, fun j r hrj => ?_,
    fun r hr => ?_⟩
  · by_cases hk : k' = w.key
    · subst hk
      rw [hput]
      exact (h.writing i w hi).2.trans (put_self _ w.soFar).symm
    · rw [hput, put_of_ne hk]
      exact h.held k' fun hc => hk' ((hwriting k').mpr ⟨hc, hk⟩)
  · exact h.writing j v (update_none_eq_some.mp hv).2
  · exact h.one j j' v v' (update_none_eq_some.mp hv).2 (update_none_eq_some.mp hv').2 he
  · obtain ⟨hnw, hvalue⟩ := h.reading j r hrj
    exact ⟨fun hc => hnw ((hwriting r.key).mp hc).1, hvalue⟩
  · obtain ⟨done, value, hdone, hrest⟩ := h.ended r hr
    exact ⟨done, value, hdone.trans (List.prefix_append _ _), hrest⟩

theorem Linear.open (h : Linear start s) {value : List α} (hk : s.held k = some value) (hw : ¬ s.Writing k) :
    Linear start { s with readers := Function.update s.readers i (some ⟨k, value.length, []⟩) } := by
  refine ⟨h.held, h.writing, h.one, fun j r hr => ?_, h.ended⟩
  rcases update_eq_some.mp hr with ⟨-, rfl⟩ | ⟨-, hr⟩
  · exact ⟨hw, value, hk, rfl, List.nil_prefix⟩
  · exact h.reading j r hr

theorem Linear.read (h : Linear start s) {r : Read κ α} {value : List α} (hi : s.readers i = some r)
    (hk : s.held r.key = some value) (n : ℕ) :
    Linear start { s with readers := Function.update s.readers i (some (r.take value n)) } := by
  refine ⟨h.held, h.writing, h.one, fun j r' hr' => ?_, h.ended⟩
  rcases update_eq_some.mp hr' with ⟨-, rfl⟩ | ⟨-, hr'⟩
  · obtain ⟨hnw, value', hheld, hof⟩ := h.reading i r hi
    obtain rfl := Option.some.inj (hk.symm.trans hheld)
    exact ⟨hnw, value, hheld, hof.take n⟩
  · exact h.reading j r' hr'

theorem Linear.leave (h : Linear start s) {r : Read κ α} (hi : s.readers i = some r) : Linear start { s with
    readers := Function.update s.readers i none, ended := s.ended ++ [r] } := by
  refine ⟨h.held, h.writing, h.one, fun j r' hr' => h.reading j r' (update_none_eq_some.mp hr').2, ?_⟩
  refine List.forall_mem_append.mpr ⟨h.ended, ?_⟩
  rw [List.forall_mem_singleton]
  obtain ⟨hnw, value, hheld, hof⟩ := h.reading i r hi
  exact ⟨s.log, value, List.prefix_rfl, (h.held r.key hnw).symm.trans hheld, hof⟩

/-- **A step keeps the store one that is written whole**, unless it begins where another one
would notice. -/
theorem linear_step (h : Linear start s) (ha : Apart s a) (hs : s.step fill a = some s') :
    Linear start s' := by
  cases a with
  | create i k value =>
    simp only [State.step] at hs
    split at hs <;> cases hs
    rename_i hi
    exact h.create hi ha.1 ha.2
  | write i n =>
    simp only [State.step] at hs
    split at hs
    · cases hs
    · rename_i w hi
      rw [(h.writing i w hi).2] at hs
      simp only at hs
      split at hs <;> cases hs
      rename_i hn
      exact h.write hi hn.2
  | close i =>
    simp only [State.step] at hs
    split at hs <;> cases hs
    rename_i w hi
    exact h.close hi
  | «open» i k =>
    simp only [State.step] at hs
    split at hs <;> cases hs
    rename_i value _ hk
    exact h.open hk ha
  | read i n =>
    simp only [State.step] at hs
    split at hs
    · cases hs
    · rename_i r hi
      split at hs <;> cases hs
      rename_i value hk
      exact h.read hi hk n
  | leave i =>
    simp only [State.step] at hs
    split at hs <;> cases hs
    rename_i r hi
    exact h.leave hi

omit [DecidableEq ι] in
/-- Nobody at work yet. -/
theorem linear_start : Linear start (⟨start, fun _ => none, fun _ => none, [], []⟩ : State κ ι α) :=
  ⟨fun _ _ => rfl, nofun, nofun, nofun, nofun⟩

/-- **A store whose writers and readers are kept apart is one that is written whole.** -/
theorem Linear.reach (h : Reach (State.step fill) Apart
    (· = (⟨start, fun _ => none, fun _ => none, [], []⟩ : State κ ι α)) s) : Linear start s :=
  h.invariant (fun _ h0 => h0 ▸ linear_start) fun _ _ _ hl ha hs => linear_step hl ha hs

end Pieces
