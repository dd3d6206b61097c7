/-
# A value that is kept until it is set again

At each step of a cycle a value may be set; where it is not, it stays what it was.
The value at a step is what was set last, or what it was before the first step
(`kept_eq`). It is the same in every cycle if and only if the first step of the
cycle sets it, or what the cycle sets last is what it was to begin with
(`kept_periodic_iff`).

Key definitions: `kept`, `lastSet`.
Key theorems: `kept_eq`, `kept_eq_iff`, `kept_const_iff`, `kept_periodic_iff`.
-/
import Mathlib.Data.List.Basic

namespace Kept

variable {α : Type} (own : ℕ → Option α) (g : α)

/-- The value at step `k`: what the step sets, or else what it was. -/
def kept : ℕ → α
  | 0 => (own 0).getD g
  | k + 1 => (own (k + 1)).getD (kept k)

/-- What is set last before step `k`. -/
def lastSet : ℕ → Option α
  | 0 => none
  | k + 1 => (own k).or (lastSet k)

/-- **The value is what was set last.** -/
theorem kept_eq (k : ℕ) : kept own g k = (lastSet own (k + 1)).getD g := by
  induction k with
  | zero => cases h : own 0 <;> simp [kept, lastSet, h]
  | succ k ih =>
    have hlast : lastSet own (k + 2) = (own (k + 1)).or (lastSet own (k + 1)) := rfl
    rw [kept, ih, hlast]
    cases own (k + 1) <;> rfl

theorem kept_of_own {k : ℕ} {a : α} (h : own k = some a) : kept own g k = a := by
  cases k <;> simp [kept, h]

/-- **The value is a given one at each step if and only if** it is at the first, and each later step
makes it of that of the step before. -/
theorem kept_eq_iff {m : ℕ → α} :
    (∀ k, kept own g k = m k) ↔ (own 0).getD g = m 0 ∧ ∀ k, (own (k + 1)).getD (m k) = m (k + 1) := by
  constructor
  · intro h
    refine ⟨h 0, fun k => ?_⟩
    rw [← h k]
    exact h (k + 1)
  · rintro ⟨h0, hnext⟩ k
    induction k with
    | zero => exact h0
    | succ k ih => rw [kept, ih, hnext]

/-- **What the first step sets lasts if and only if** no later step sets anything else. -/
theorem kept_const_iff {a : α} (h0 : own 0 = some a) :
    (∀ k, kept own g k = a) ↔ ∀ k, ∀ b ∈ own (k + 1), b = a := by
  constructor
  · intro h k b hb
    rw [← h (k + 1)]
    exact (kept_of_own own g hb).symm
  · intro h k
    induction k with
    | zero => exact kept_of_own own g h0
    | succ k ih =>
      rw [kept, ih]
      cases hk : own (k + 1) with
      | none => rfl
      | some b => exact h k b hk

/-- It is set in some step, or stays what it was. -/
theorem lastSet_eq_some {k : ℕ} {a : α} (h : lastSet own k = some a) : ∃ i < k, own i = some a := by
  induction k with
  | zero => cases h
  | succ k ih =>
    rw [lastSet] at h
    cases hk : own k with
    | some b =>
      rw [hk] at h
      exact ⟨k, Nat.lt_succ_self k, hk.trans h⟩
    | none =>
      rw [hk] at h
      obtain ⟨i, hi, ha⟩ := ih h
      exact ⟨i, Nat.lt_succ_of_lt hi, ha⟩

theorem lastSet_ne_none {i k : ℕ} (hi : i < k) (h : own i ≠ none) : lastSet own k ≠ none := by
  induction k with
  | zero => exact absurd hi (Nat.not_lt_zero i)
  | succ k ih =>
    rw [lastSet, Ne, Option.or_eq_none_iff, not_and_or]
    rcases Nat.lt_succ_iff_lt_or_eq.mp hi with hi | rfl
    · exact .inr (ih hi)
    · exact .inl h

variable {own g} {n : ℕ}

/-- **The value is the same in every cycle if and only if** the first step sets it,
or the last value set is that from before the first. -/
theorem kept_periodic_iff (hn : 0 < n) (hp : ∀ k, own (k + n) = own k) :
    (∀ k, kept own g (k + n) = kept own g k) ↔ own 0 ≠ none ∨ (lastSet own n).getD g = g := by
  obtain ⟨m, rfl⟩ := Nat.exists_eq_succ_of_ne_zero (Nat.pos_iff_ne_zero.mp hn)
  have hfirst : own (m + 1) = own 0 := by
    have h := hp 0
    rwa [Nat.zero_add] at h
  have hround : kept own g (m + 1) = (own 0).getD ((lastSet own (m + 1)).getD g) := by
    rw [kept, kept_eq, hfirst]
  constructor
  · intro h
    have h0 := h 0
    rw [Nat.zero_add, hround, kept] at h0
    cases ho : own 0 with
    | some a => exact .inl (Option.some_ne_none a)
    | none =>
      rw [ho] at h0
      exact .inr h0
  · intro h k
    induction k with
    | zero =>
      rw [Nat.zero_add, hround, kept]
      rcases h with h | h
      · obtain ⟨a, ha⟩ := Option.ne_none_iff_exists'.mp h
        rw [ha]
        rfl
      · rw [h]
    | succ k ih => rw [show k + 1 + (m + 1) = k + (m + 1) + 1 by omega, kept, kept, ih,
        show k + (m + 1) + 1 = k + 1 + (m + 1) by omega, hp]

/-- A value seen through `f`. -/
theorem kept_map {β : Type} (f : α → β) (k : ℕ) :
    kept (fun k => (own k).map f) (f g) k = f (kept own g k) := by
  induction k with
  | zero => exact Option.getD_map f g (own 0)
  | succ k ih =>
    rw [kept, kept, ih]
    exact Option.getD_map f _ (own (k + 1))

/-! ### Cycles over a list -/

section Lists

variable {β : Type} (f : β → Option α)

/-- The steps before `k` are the first `k` items, last to first. -/
theorem lastSet_list {l : List β} {own : ℕ → Option α} (h : ∀ i b, l[i]? = some b → own i = f b) {k : ℕ}
    (hk : k ≤ l.length) : lastSet own k = (l.take k).reverse.findSome? f := by
  induction k with
  | zero => rfl
  | succ k ih =>
    have hlt : k < l.length := hk
    have htake : l.take (k + 1) = l.take k ++ [l[k]] := (List.take_append_getElem hlt).symm
    rw [lastSet, ih (Nat.le_of_succ_le hk), h k l[k] (List.getElem?_eq_getElem hlt), htake,
      List.reverse_append, List.reverse_singleton, List.singleton_append, List.findSome?_cons]
    cases f l[k] <;> rfl

end Lists

end Kept
