/-
# Bytes

What Go's `bytes` package does with a separator of one byte, over lists of any
elements: `cut`, `splitN`, `trimPrefix`, `trimSuffix`, `trim`; `bytes.Split` is
`List.splitOn`. `atoi` is `strconv.Atoi` of ASCII bytes, which reads back what
`intText` writes (`atoi_ascii`).

Key definitions: `cut`, `splitN`, `atoi`.
Key theorems: `splitN_append`, `flatMap_lines`, `atoi_ascii`.
-/
import Mathlib.Algebra.Group.Int.Defs
import Mathlib.Data.List.Basic
import QuakeKube.Lib.Text

namespace Go

abbrev Bytes := List UInt8

/-- ASCII characters as bytes. -/
def ascii (t : Text) : Bytes := t.map fun c => UInt8.ofNat c.toNat

namespace Bytes

/-! ### Separators -/

section Separators

variable {α : Type} [DecidableEq α] (sep : α)

/-- Before and after the first separator. -/
def cut (s : List α) : Option (List α × List α) :=
  if sep ∈ s then some (s.takeWhile (· ≠ sep), (s.dropWhile (· ≠ sep)).tail) else none

/-- `bytes.SplitN`, for `n` that are not negative. -/
def splitN : ℕ → List α → List (List α)
  | 0, _ => []
  | 1, s => [s]
  | n + 2, s => match cut sep s with
    | none => [s]
    | some (before, after) => before :: splitN (n + 1) after

/-- `bytes.TrimPrefix`. -/
def trimPrefix : List α → List α
  | [] => []
  | c :: s => if c = sep then s else c :: s

/-- `bytes.TrimSuffix`. -/
def trimSuffix (s : List α) : List α := if s.getLast? = some sep then s.dropLast else s

/-- `bytes.Trim`. -/
def trim (s : List α) : List α := ((s.dropWhile (· = sep)).reverse.dropWhile (· = sep)).reverse

variable {sep} {a s : List α}

theorem cut_append (h : sep ∉ a) (b : List α) : cut sep (a ++ sep :: b) = some (a, b) := by
  have ha : ∀ c ∈ a, decide (c ≠ sep) = true := fun c hc => decide_eq_true fun he => h (he ▸ hc)
  rw [cut, if_pos (by simp), List.takeWhile_append_of_pos ha, List.dropWhile_append_of_pos ha]
  simp

theorem cut_of_not_mem (h : sep ∉ s) : cut sep s = none := if_neg h

theorem splitN_append (h : sep ∉ a) (n : ℕ) (b : List α) :
    splitN sep (n + 2) (a ++ sep :: b) = a :: splitN sep (n + 1) b := by
  rw [splitN, cut_append h]

theorem splitN_of_not_mem (h : sep ∉ s) (n : ℕ) : splitN sep (n + 1) s = [s] := by
  cases n with
  | zero => rfl
  | succ n => rw [splitN, cut_of_not_mem h]

theorem splitN_one (s : List α) : splitN sep 1 s = [s] := rfl

theorem trimSuffix_append (s : List α) : trimSuffix sep (s ++ [sep]) = s := by
  simp [trimSuffix]

theorem trimSuffix_of_not_mem (h : sep ∉ s) : trimSuffix sep s = s :=
  if_neg fun hl => h (List.mem_of_getLast? hl)

/-- A separator is left where there is one before the last element. -/
theorem mem_trimSuffix_iff : sep ∈ trimSuffix sep s ↔ sep ∈ s.dropLast := by
  unfold trimSuffix
  split
  · exact Iff.rfl
  · next hlast =>
    rcases List.eq_nil_or_concat s with rfl | ⟨t, x, rfl⟩
    · exact Iff.rfl
    · have hx : sep ≠ x := fun h => hlast (by simp [h])
      simp [hx]

omit [DecidableEq α] in
/-- Lines that each end with the separator. -/
theorem flatMap_lines {ls : List (List α)} (h : ls ≠ []) :
    ls.flatMap (· ++ [sep]) = [sep].intercalate ls ++ [sep] := by
  induction ls with
  | nil => exact absurd rfl h
  | cons l ls ih =>
    cases ls with
    | nil => simp
    | cons l' ls =>
      rw [List.flatMap_cons, ih (by simp), List.intercalate_cons_cons]
      simp

end Separators

/-! ### Numbers -/

def isDigit (b : UInt8) : Bool := 0x30 ≤ b && b ≤ 0x39

/-- A run of digits, all of the bytes. -/
def digits (s : Bytes) : Option ℕ :=
  if s ≠ [] ∧ s.all isDigit then some (s.foldl (fun n b => 10 * n + (b.toNat - 0x30)) 0) else none

/-- What `strconv.Atoi` reads, before it looks at the range. -/
def signed : Bytes → Option ℤ
  | 0x2d :: s => (digits s).map fun n => -(n : ℤ)
  | 0x2b :: s => (digits s).map fun n => (n : ℤ)
  | s => (digits s).map fun n => (n : ℤ)

/-- `strconv.Atoi`, for the 64 bits of an `int`. -/
def atoi (s : Bytes) : Option Int64 :=
  (signed s).bind fun z => if -2 ^ 63 ≤ z ∧ z < 2 ^ 63 then some (Int64.ofInt z) else none

theorem toNat_ofNat_of_isDigit {c : Char} (h : c.isDigit = true) :
    (UInt8.ofNat c.toNat).toNat = c.toNat ∧ 0x30 ≤ c.toNat ∧ c.toNat ≤ 0x39 := by
  have hr := isDigit_range h
  refine ⟨?_, hr⟩
  rw [UInt8.toNat_ofNat', Nat.mod_eq_of_lt (by omega)]

theorem isDigit_ofNat {c : Char} (h : c.isDigit = true) : isDigit (UInt8.ofNat c.toNat) = true := by
  obtain ⟨he, h1, h2⟩ := toNat_ofNat_of_isDigit h
  simp [isDigit, UInt8.le_iff_toNat_le, he, h1, h2]

theorem foldl_ascii {t : Text} (hd : ∀ c ∈ t, c.isDigit = true) (n : ℕ) :
    (ascii t).foldl (fun n b => 10 * n + (b.toNat - 0x30)) n = Nat.ofDigitChars 10 t n := by
  induction t generalizing n with
  | nil => simp [ascii]
  | cons c t ih =>
    obtain ⟨hc, ht⟩ := List.forall_mem_cons.mp hd
    rw [ascii, List.map_cons, List.foldl_cons, (toNat_ofNat_of_isDigit hc).1, Nat.ofDigitChars_cons]
    exact ih ht _

theorem digits_ascii {t : Text} (hne : t ≠ []) (hd : ∀ c ∈ t, c.isDigit = true) :
    digits (ascii t) = some (Nat.ofDigitChars 10 t 0) := by
  have all : (ascii t).all isDigit = true := by
    rw [List.all_eq_true]
    intro b hb
    obtain ⟨c, hc, rfl⟩ := List.mem_map.mp hb
    exact isDigit_ofNat (hd c hc)
  rw [digits, if_pos ⟨by simpa [ascii] using hne, all⟩, foldl_ascii hd]

theorem digits_natText (n : ℕ) : digits (ascii (natText n)) = some n := by
  rw [digits_ascii (natText_ne_nil n) fun c => isDigit_of_mem_natText, natText, Nat.ofDigitChars_ten_toDigits]

/-- A number without a sign is not read as one with a sign. -/
theorem signed_of_isDigit {b : UInt8} {s : Bytes} (hb : isDigit b = true) :
    signed (b :: s) = (digits (b :: s)).map fun n => (n : ℤ) := by
  unfold signed
  split
  · rename_i h
    injection h with h
    rw [h] at hb
    exact absurd hb (by decide)
  · rename_i h
    injection h with h
    rw [h] at hb
    exact absurd hb (by decide)
  · rfl

theorem signed_ascii (z : ℤ) : signed (ascii (intText z)) = some z := by
  cases z with
  | ofNat n =>
    obtain ⟨c, t, ht⟩ := List.exists_cons_of_ne_nil (natText_ne_nil n)
    have hc : c.isDigit = true := isDigit_of_mem_natText (ht ▸ List.mem_cons_self)
    have hn := digits_natText n
    rw [ht, ascii, List.map_cons] at hn
    rw [intText, ht, ascii, List.map_cons, signed_of_isDigit (isDigit_ofNat hc), hn]
    rfl
  | negSucc n =>
    have hn := digits_natText (n + 1)
    have hs : ascii (intText (.negSucc n)) = 0x2d :: ascii (natText (n + 1)) := rfl
    rw [hs, signed, hn]
    rfl

/-- **A written number is read back.** -/
theorem atoi_ascii (n : Int64) : atoi (ascii (intText n.toInt)) = some n := by
  rw [atoi, signed_ascii, Option.bind_some, if_pos ⟨n.le_toInt, n.toInt_lt⟩, Int64.ofInt_toInt]

theorem not_mem_ascii_intText {b : UInt8} (z : ℤ) (hb : isDigit b = false) (hm : b ≠ 0x2d) :
    b ∉ ascii (intText z) := by
  intro h
  obtain ⟨c, hc, rfl⟩ := List.mem_map.mp h
  rcases isDigit_of_mem_intText hc with hd | rfl
  · rw [isDigit_ofNat hd] at hb
    exact Bool.false_ne_true hb.symm
  · exact hm rfl

end Bytes
end Go
