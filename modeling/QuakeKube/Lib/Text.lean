/-
# Texts and decimal numbers

A text is the list of its characters. `natText` and `intText` write a number
as Go's `%d` does, `parseInt` reads it back. The functions on prefixes and
suffixes are those of Go's `strings`.
-/
import Mathlib.Data.List.DropRight

namespace Go

/-! ### Bounded quantifiers

They are decided over their bound, and not over all characters. -/

section Bounded

variable (p : Char → Prop) [DecidablePred p]

instance (priority := high) decidableForallMemList (l : List Char) : Decidable (∀ c ∈ l, p c) :=
  List.decidableBAll p l

instance (priority := high) decidableExistsMemList (l : List Char) : Decidable (∃ c ∈ l, p c) :=
  List.decidableBEx p l

instance (priority := high) decidableForallMemOption (o : Option Char) : Decidable (∀ c ∈ o, p c) :=
  o.decidableForallMem

instance (priority := high) decidableExistsMemOption (o : Option Char) : Decidable (∃ c ∈ o, p c) :=
  o.decidableExistsMem

end Bounded

/-! ### Characters -/

/-- A character that passes a test is none that fails it. -/
theorem ne_of_test {p : Char → Bool} {c d : Char} (hc : p c = true) (hd : p d = false) :
    c ≠ d := by
  rintro rfl
  exact Bool.false_ne_true (hd.symm.trans hc)

theorem isDigit_range {c : Char} (h : c.isDigit = true) : 0x30 ≤ c.toNat ∧ c.toNat ≤ 0x39 := by
  obtain ⟨h1, h2⟩ := Bool.and_eq_true_iff.mp h
  exact ⟨of_decide_eq_true h1, of_decide_eq_true h2⟩

theorem isAlpha_range {c : Char} (h : c.isAlpha = true) : 0x41 ≤ c.toNat ∧ c.toNat ≤ 0x7a := by
  rcases Bool.or_eq_true_iff.mp h with h | h
  · have hlo : 0x41 ≤ c.toNat := (of_decide_eq_true h).1
    have hhi : c.toNat ≤ 0x5a := (of_decide_eq_true h).2
    omega
  · obtain ⟨h1, h2⟩ := Bool.and_eq_true_iff.mp h
    have hlo : 0x61 ≤ c.toNat := of_decide_eq_true h1
    have hhi : c.toNat ≤ 0x7a := of_decide_eq_true h2
    omega

/-! ### Texts -/

/-- A string. -/
abbrev Text := List Char

instance (priority := high) decidableMemTexts (t : Text) (l : List Text) : Decidable (t ∈ l) := inferInstance

/-- A text constant. Irreducible, so that no tactic spells it out on its own. -/
@[irreducible] def txt (s : String) : Text := s.toList

theorem txt_eq (s : String) : txt s = s.toList := by unfold txt; rfl

theorem txt_inj {a b : String} : txt a = txt b ↔ a = b := by
  rw [txt_eq, txt_eq]
  exact String.toList_inj

/-- The digits of `n`. -/
def natText (n : ℕ) : Text := Nat.toDigits 10 n

/-- `strconv.Itoa`, `%d`. -/
def intText : ℤ → Text
  | .ofNat n => natText n
  | .negSucc n => '-' :: natText (n + 1)

theorem natText_ne_nil (n : ℕ) : natText n ≠ [] := Nat.toDigits_ne_nil

theorem isDigit_of_mem_natText {n : ℕ} {c : Char} (h : c ∈ natText n) : c.isDigit = true :=
  Nat.isDigit_of_mem_toDigits (by decide) (by decide) h

theorem natText_not_mem {n : ℕ} {c : Char} (hc : c.isDigit = false) : c ∉ natText n :=
  fun h => ne_of_test (isDigit_of_mem_natText h) hc rfl

theorem isDigit_of_mem_intText {z : ℤ} {c : Char} (h : c ∈ intText z) : c.isDigit = true ∨ c = '-' := by
  cases z with
  | ofNat n => exact .inl (isDigit_of_mem_natText h)
  | negSucc n =>
    rcases List.mem_cons.mp h with rfl | h
    · exact .inr rfl
    · exact .inl (isDigit_of_mem_natText h)

/-- A run of digits, all of the text. -/
def parseNat (s : Text) : Option ℕ :=
  if s ≠ [] ∧ s.all Char.isDigit then some (Nat.ofDigitChars 10 s 0) else none

/-- A decimal integer, all of the text. -/
def parseInt : Text → Option ℤ
  | '-' :: s => (parseNat s).map fun n => -(n : ℤ)
  | s => (parseNat s).map fun n => (n : ℤ)

theorem parseNat_natText (n : ℕ) : parseNat (natText n) = some n := by
  have hd : (natText n).all Char.isDigit = true :=
    List.all_eq_true.mpr fun c hc => isDigit_of_mem_natText hc
  rw [parseNat, if_pos ⟨natText_ne_nil n, hd⟩, natText, Nat.ofDigitChars_ten_toDigits]

theorem parseInt_intText (z : ℤ) : parseInt (intText z) = some z := by
  cases z with
  | ofNat n =>
    have hh : ∀ s, natText n ≠ '-' :: s := by
      intro s h
      have hmem : '-' ∈ natText n := by
        rw [h]
        exact List.mem_cons_self
      exact absurd hmem (natText_not_mem rfl)
    unfold intText parseInt
    split
    · exact absurd ‹_› (hh _)
    · rw [parseNat_natText]; rfl
  | negSucc n =>
    simp only [intText, parseInt, parseNat_natText]
    rfl

/-- `strings.HasSuffix`. -/
def hasSuffix (s t : Text) : Bool := decide (t <:+ s)

/-- `strings.HasPrefix`. -/
def hasPrefix (s t : Text) : Bool := decide (t <+: s)

/-- `strings.Join`. -/
def joinText (sep : Text) : List Text → Text
  | [] => []
  | [t] => t
  | t :: ts => t ++ sep ++ joinText sep ts

/-- `strings.TrimPrefix`. -/
def trimPrefix (s t : Text) : Text := if hasPrefix s t then s.drop t.length else s

/-- `strings.Index` of a one-character text. -/
def index (s : Text) (c : Char) : ℤ := if c ∈ s then (s.idxOf c : ℤ) else -1

theorem trimPrefix_append (t s : Text) : trimPrefix (t ++ s) t = s := by
  simp [trimPrefix, hasPrefix]

theorem trimPrefix_of_not {s t : Text} (h : ¬ t <+: s) : trimPrefix s t = s := by
  simp [trimPrefix, hasPrefix, h]

/-- A scan runs to the end of `s` and stops at `t`. -/
theorem takeWhile_append_stop {p : Char → Bool} {s t : Text} (hs : ∀ c ∈ s, p c = true)
    (ht : ∀ c ∈ t.head?, p c = false) : (s ++ t).takeWhile p = s := by
  rw [List.takeWhile_append_of_pos hs]
  cases t with
  | nil => simp
  | cons c t => simp [ht c rfl]

theorem dropWhile_append_stop {p : Char → Bool} {s t : Text} (hs : ∀ c ∈ s, p c = true)
    (ht : ∀ c ∈ t.head?, p c = false) : (s ++ t).dropWhile p = t := by
  rw [List.dropWhile_append_of_pos hs]
  cases t with
  | nil => simp
  | cons c t => simp [ht c rfl]

/-! ### Lines -/

/-- The lines of a text: what stands before, between and after its newlines. -/
def splitLines : Text → List Text
  | [] => [[]]
  | c :: s => if c = '\n' then [] :: splitLines s
    else match splitLines s with
      | [] => [[c]]
      | l :: ls => (c :: l) :: ls

theorem splitLines_line {l : Text} (h : '\n' ∉ l) (r : Text) :
    splitLines (l ++ '\n' :: r) = l :: splitLines r := by
  induction l with
  | nil => simp [splitLines]
  | cons c l ih =>
    rw [List.mem_cons, not_or] at h
    obtain ⟨hc, hl⟩ := h
    rw [List.cons_append, splitLines, if_neg (Ne.symm hc), ih hl]

theorem splitLines_of_not_mem {l : Text} (h : '\n' ∉ l) : splitLines l = [l] := by
  induction l with
  | nil => rfl
  | cons c l ih =>
    rw [List.mem_cons, not_or] at h
    rw [splitLines, if_neg (Ne.symm h.1), ih h.2]

theorem splitLines_ne_nil (s : Text) : splitLines s ≠ [] := by
  cases s with
  | nil => exact List.cons_ne_nil _ _
  | cons c s =>
    rw [splitLines]
    split_ifs
    · exact List.cons_ne_nil _ _
    · split <;> exact List.cons_ne_nil _ _

theorem mem_of_mem_splitLines {s l : Text} {c : Char} (hl : l ∈ splitLines s) (hc : c ∈ l) : c ∈ s := by
  induction s generalizing l with
  | nil =>
    obtain rfl := List.mem_singleton.mp hl
    exact hc
  | cons d s ih =>
    obtain ⟨k, ks, hs⟩ := List.exists_cons_of_ne_nil (splitLines_ne_nil s)
    rw [splitLines, hs] at hl
    rw [hs] at ih
    split_ifs at hl with hd
    · rcases List.mem_cons.mp hl with rfl | hl
      · exact absurd hc List.not_mem_nil
      · exact List.mem_cons_of_mem _ (ih hl hc)
    · rcases List.mem_cons.mp hl with rfl | hl
      · rcases List.mem_cons.mp hc with rfl | hc
        · exact List.mem_cons_self
        · exact List.mem_cons_of_mem _ (ih List.mem_cons_self hc)
      · exact List.mem_cons_of_mem _ (ih (List.mem_cons_of_mem _ hl) hc)

/-- What stands before the first newline belongs to the first line. -/
theorem splitLines_append {a s l : Text} {ls : List Text} (h : '\n' ∉ a) (hs : splitLines s = l :: ls) :
    splitLines (a ++ s) = (a ++ l) :: ls := by
  induction a with
  | nil => exact hs
  | cons c a ih =>
    rw [List.mem_cons, not_or] at h
    rw [List.cons_append, splitLines, if_neg (Ne.symm h.1), ih h.2]
    rfl

/-- A newline ends the lines before it. -/
theorem splitLines_newline (s r : Text) : splitLines (s ++ '\n' :: r) = splitLines s ++ splitLines r := by
  induction s with
  | nil => rfl
  | cons c s ih =>
    obtain ⟨l, ls, hs⟩ := List.exists_cons_of_ne_nil (splitLines_ne_nil s)
    rw [hs] at ih
    by_cases hc : c = '\n'
    · rw [List.cons_append, splitLines, if_pos hc, splitLines, if_pos hc, ih, hs]
      rfl
    · rw [List.cons_append, splitLines, if_neg hc, splitLines, if_neg hc, ih, hs]
      rfl

theorem eq_of_splitLines {s l : Text} (h : splitLines s = [l]) : s = l := by
  by_cases hn : '\n' ∈ s
  · obtain ⟨a, b, rfl⟩ := List.append_of_mem hn
    rw [splitLines_newline] at h
    have ha := List.length_pos_iff.mpr (splitLines_ne_nil a)
    have hb := List.length_pos_iff.mpr (splitLines_ne_nil b)
    have hlen := congrArg List.length h
    rw [List.length_append, List.length_singleton] at hlen
    omega
  · rw [splitLines_of_not_mem hn] at h
    exact List.head_eq_of_cons_eq h

/-! ### Joined texts -/

theorem joinText_cons {sep t : Text} {ts : List Text} (h : ts ≠ []) :
    joinText sep (t :: ts) = t ++ sep ++ joinText sep ts := by
  cases ts with
  | nil => exact absurd rfl h
  | cons u us => rfl

theorem mem_joinText {sep : Text} {ts : List Text} {c : Char} (h : c ∈ joinText sep ts) :
    c ∈ sep ∨ ∃ t ∈ ts, c ∈ t := by
  induction ts with
  | nil => simp [joinText] at h
  | cons t ts ih =>
    cases ts with
    | nil => exact .inr ⟨t, List.mem_cons_self, h⟩
    | cons u us =>
      rw [joinText_cons (by simp), List.mem_append, List.mem_append] at h
      rcases h with (h | h) | h
      · exact .inr ⟨t, List.mem_cons_self, h⟩
      · exact .inl h
      · rcases ih h with h | ⟨v, hv, h⟩
        · exact .inl h
        · exact .inr ⟨v, List.mem_cons_of_mem _ hv, h⟩

end Go
