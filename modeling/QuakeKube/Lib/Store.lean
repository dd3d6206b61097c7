/-
# Stores

A store holds values under keys, and is written one key at a time. After some
writes a key holds what was written to it last, and what it held before where
nothing was (`puts_apply`). A system whose steps are writes to its store is one
that keeps every key its steps leave alone, over whole runs (`Writes.run`).

Key definitions: `put`, `puts`, `lastPut`, `Writes`.
Key theorems: `puts_apply`, `Writes.trans`, `Writes.run`.
-/
import Mathlib.Data.Set.Basic
import Mathlib.Logic.Function.Basic

namespace Store

variable {κ α : Type} [DecidableEq κ]

/-- A write of a value under a key. -/
def put (s : κ → Option α) (w : κ × α) : κ → Option α := Function.update s w.1 (some w.2)

def puts (s : κ → Option α) (ws : List (κ × α)) : κ → Option α := ws.foldl put s

/-- What is written under a key last. -/
def lastPut (k : κ) : List (κ × α) → Option α
  | [] => none
  | w :: ws => (lastPut k ws).or (if w.1 = k then some w.2 else none)

variable {s : κ → Option α} {ws : List (κ × α)} {w : κ × α} {k : κ}

theorem put_self (s : κ → Option α) (w : κ × α) : put s w w.1 = some w.2 := Function.update_self _ _ _

theorem put_of_ne (h : k ≠ w.1) : put s w k = s k := Function.update_of_ne h _ _

/-- Of two writes under a key the second stands. -/
theorem put_put (s : κ → Option α) (k : κ) (a b : α) : put (put s (k, a)) (k, b) = put s (k, b) :=
  Function.update_idem _ _ _

theorem puts_append (s : κ → Option α) (ws vs : List (κ × α)) : puts s (ws ++ vs) = puts (puts s ws) vs :=
  List.foldl_append

/-- **A key holds what was written to it last.** -/
theorem puts_apply (s : κ → Option α) (ws : List (κ × α)) (k : κ) :
    puts s ws k = (lastPut k ws).or (s k) := by
  induction ws generalizing s with
  | nil => rfl
  | cons w ws ih =>
    have hstep : puts s (w :: ws) = puts (put s w) ws := rfl
    have hput : put s w k = (if w.1 = k then some w.2 else none).or (s k) := by
      by_cases hk : w.1 = k
      · rw [if_pos hk, ← hk, put_self]
        rfl
      · rw [if_neg hk, put_of_ne (Ne.symm hk)]
        rfl
    rw [hstep, ih, lastPut, Option.or_assoc, hput]

theorem lastPut_eq_none_iff : lastPut k ws = none ↔ ∀ w ∈ ws, w.1 ≠ k := by
  induction ws with
  | nil => simp [lastPut]
  | cons w ws ih =>
    rw [lastPut, Option.or_eq_none_iff, ih, List.forall_mem_cons]
    constructor
    · rintro ⟨h, hw⟩
      refine ⟨fun hk => ?_, h⟩
      rw [if_pos hk] at hw
      exact Option.some_ne_none _ hw
    · rintro ⟨hw, h⟩
      exact ⟨h, if_neg hw⟩

theorem puts_of_forall_ne (h : ∀ w ∈ ws, w.1 ≠ k) : puts s ws k = s k := by
  rw [puts_apply, lastPut_eq_none_iff.mpr h]
  rfl

/-- A key holds what one of the writes wrote to it, or none did. -/
theorem puts_cases (s : κ → Option α) (ws : List (κ × α)) (k : κ) :
    (∃ w ∈ ws, w.1 = k ∧ puts s ws k = some w.2) ∨ (∀ w ∈ ws, w.1 ≠ k) ∧ puts s ws k = s k := by
  induction ws generalizing s with
  | nil => exact .inr ⟨by simp, rfl⟩
  | cons w ws ih =>
    rcases ih (put s w) with ⟨v, hv, hk, he⟩ | ⟨hn, he⟩
    · exact .inl ⟨v, List.mem_cons_of_mem w hv, hk, he⟩
    · by_cases hk : w.1 = k
      · refine .inl ⟨w, List.mem_cons_self, hk, he.trans ?_⟩
        rw [← hk, put_self]
      · exact .inr ⟨List.forall_mem_cons.mpr ⟨hk, hn⟩, he.trans (put_of_ne (Ne.symm hk))⟩

/-! ### Steps that write -/

/-- From one store to the next only some keys are written. -/
def Writes (K : Set κ) (s s' : κ → Option α) : Prop := ∃ ws, s' = puts s ws ∧ ∀ w ∈ ws, w.1 ∈ K

namespace Writes

variable {K : Set κ} {s' s'' : κ → Option α}

theorem refl (K : Set κ) (s : κ → Option α) : Writes K s s := ⟨[], rfl, by simp⟩

theorem single (hk : k ∈ K) (s : κ → Option α) (a : α) : Writes K s (put s (k, a)) :=
  ⟨[(k, a)], rfl, by simpa using hk⟩

theorem trans (h : Writes K s s') (h' : Writes K s' s'') : Writes K s s'' := by
  obtain ⟨ws, rfl, hws⟩ := h
  obtain ⟨vs, rfl, hvs⟩ := h'
  exact ⟨ws ++ vs, (puts_append s ws vs).symm, List.forall_mem_append.mpr ⟨hws, hvs⟩⟩

theorem mono {J : Set κ} (h : Writes J s s') (hJ : J ⊆ K) : Writes K s s' := by
  obtain ⟨ws, hs, hws⟩ := h
  exact ⟨ws, hs, fun w hw => hJ (hws w hw)⟩

/-- The other keys hold what they held. -/
theorem apply_of_not_mem (h : Writes K s s') (hk : k ∉ K) : s' k = s k := by
  obtain ⟨ws, rfl, hws⟩ := h
  exact puts_of_forall_ne fun w hw he => hk (he ▸ hws w hw)

/-- **A run writes what its steps write**, where each of them keeps what the next
one's keys depend on. -/
theorem run {σ ι : Type} {step : σ → ι → σ} {contents : σ → κ → Option α} {I : σ → Prop} {keys : ι → Set κ}
    (hinv : ∀ x i, I x → I (step x i))
    (hstep : ∀ x i, I x → Writes (keys i) (contents x) (contents (step x i))) (is : List ι) :
    ∀ x, I x → Writes {k | ∃ i ∈ is, k ∈ keys i} (contents x) (contents (is.foldl step x)) := by
  induction is with
  | nil => exact fun x _ => .refl _ _
  | cons i is ih =>
    intro x hx
    have hfirst := (hstep x i hx).mono (K := {k | ∃ j ∈ i :: is, k ∈ keys j})
      fun k hk => ⟨i, List.mem_cons_self, hk⟩
    have hrest := (ih (step x i) (hinv x i hx)).mono (K := {k | ∃ j ∈ i :: is, k ∈ keys j})
      fun k ⟨j, hj, hk⟩ => ⟨j, List.mem_cons_of_mem i hj, hk⟩
    exact hfirst.trans hrest

end Writes

end Store
