/-
# Quoted texts

`quote` is Go's `strconv.Quote`, the `%q` of a format: printable characters as
they are, the rest as escapes. Which characters are printable is Unicode's
table, here a `PrintTable` with what is known of it. `readQuoted` reads a
double-quoted scalar as YAML 1.1 escapes it; every text quoted by Go is read
back (`readQuoted_quote`).

Key definitions: `PrintTable`, `quote`, `readQuoted`.
Key theorems: `readQuoted_quote`, `isPrint_quote`.
-/
import Mathlib.Tactic.Ring
import QuakeKube.Lib.Text

namespace Go

/-- `unicode.IsPrint`: the printable part of ASCII is printable; the control
characters, the spaces and separators past ASCII, the byte order mark and what
is no character are not. -/
structure PrintTable where
  isPrint : Char → Bool
  ascii : ∀ c : Char, 0x20 ≤ c.toNat → c.toNat < 0x7f → isPrint c = true
  printable : ∀ c : Char, isPrint c = true → 0x20 ≤ c.toNat ∧ (c.toNat < 0x7f ∨ 0xa0 < c.toNat) ∧
    c.toNat ≠ 0x2028 ∧ c.toNat ≠ 0x2029 ∧ c.toNat ≠ 0xfeff ∧ c.toNat ≠ 0xfffe ∧ c.toNat ≠ 0xffff

/-- Nothing past ASCII is printable. -/
def PrintTable.ascii7 : PrintTable where
  isPrint c := decide (0x20 ≤ c.toNat ∧ c.toNat < 0x7f)
  ascii c h1 h2 := by simp [h1, h2]
  printable c h := by
    have := of_decide_eq_true h
    omega

/-! ### Writing -/

/-- `k` hexadecimal digits of `n`. -/
def hexText : (k n : ℕ) → Text
  | 0, _ => []
  | k + 1, n => hexText k (n / 16) ++ [Nat.digitChar (n % 16)]

/-- The letter after the backslash for a control character that has one. -/
def controlLetter (c : Char) : Option Char :=
  if c.toNat = 0x07 then some 'a'
  else if c.toNat = 0x08 then some 'b'
  else if c.toNat = 0x0c then some 'f'
  else if c.toNat = 0x0a then some 'n'
  else if c.toNat = 0x0d then some 'r'
  else if c.toNat = 0x09 then some 't'
  else if c.toNat = 0x0b then some 'v'
  else none

/-- `appendEscapedRune`, for a double-quoted text. -/
def escapeRune (P : PrintTable) (c : Char) : Text :=
  if c = '"' ∨ c = '\\' then ['\\', c]
  else if P.isPrint c then [c]
  else match controlLetter c with
    | some l => ['\\', l]
    | none =>
      if c.toNat < 0x20 ∨ c.toNat = 0x7f then ['\\', 'x'] ++ hexText 2 c.toNat
      else if c.toNat < 0x10000 then ['\\', 'u'] ++ hexText 4 c.toNat
      else ['\\', 'U'] ++ hexText 8 c.toNat

/-- `strconv.Quote`. -/
def quote (P : PrintTable) (s : Text) : Text := '"' :: s.flatMap (escapeRune P) ++ ['"']

/-! ### Reading -/

/-- The value of a hexadecimal digit. -/
def hexDigit (c : Char) : Option ℕ :=
  if c.isDigit then some (c.toNat - '0'.toNat)
  else if 'a' ≤ c ∧ c ≤ 'f' then some (c.toNat - 'a'.toNat + 10)
  else if 'A' ≤ c ∧ c ≤ 'F' then some (c.toNat - 'A'.toNat + 10)
  else none

/-- `k` hexadecimal digits in front, added to `acc`. -/
def readHex : (k acc : ℕ) → Text → Option (ℕ × Text)
  | 0, acc, s => some (acc, s)
  | _ + 1, _, [] => none
  | k + 1, acc, c :: s => match hexDigit c with
    | some d => readHex k (16 * acc + d) s
    | none => none

/-- The character a letter after a backslash stands for. -/
def escapeLetter : Char → Option Char
  | '0' => some (Char.ofNat 0x00)
  | 'a' => some (Char.ofNat 0x07)
  | 'b' => some (Char.ofNat 0x08)
  | 't' | '\t' => some (Char.ofNat 0x09)
  | 'n' => some (Char.ofNat 0x0a)
  | 'v' => some (Char.ofNat 0x0b)
  | 'f' => some (Char.ofNat 0x0c)
  | 'r' => some (Char.ofNat 0x0d)
  | 'e' => some (Char.ofNat 0x1b)
  | ' ' => some ' '
  | '"' => some '"'
  | '\'' => some '\''
  | '\\' => some '\\'
  | 'N' => some (Char.ofNat 0x85)
  | '_' => some (Char.ofNat 0xa0)
  | 'L' => some (Char.ofNat 0x2028)
  | 'P' => some (Char.ofNat 0x2029)
  | _ => none

/-- The number of digits of a numeric escape. -/
def escapeWidth : Char → Option ℕ
  | 'x' => some 2
  | 'u' => some 4
  | 'U' => some 8
  | _ => none

/-- One character of a double-quoted scalar, escaped or not. -/
def readRune : Text → Option (Char × Text)
  | [] => none
  | '\\' :: [] => none
  | '\\' :: l :: s => match escapeWidth l with
    | some k => match readHex k 0 s with
      | some (n, s') => if n.isValidChar then some (Char.ofNat n, s') else none
      | none => none
    | none => (escapeLetter l).map fun c => (c, s)
  | c :: s => some (c, s)

/-- The characters up to the closing quote, and the text after it. -/
def readRunes : (fuel : ℕ) → Text → Option (Text × Text)
  | 0, _ => none
  | _ + 1, '"' :: s => some ([], s)
  | fuel + 1, s => match readRune s with
    | none => none
    | some (c, s') => (readRunes fuel s').map fun (t, r) => (c :: t, r)

/-- A double-quoted scalar after its opening quote. -/
def readQuoted (s : Text) : Option (Text × Text) := readRunes s.length s

/-! ### Reading what has been written -/

theorem hexDigit_digitChar {d : ℕ} (h : d < 16) : hexDigit (Nat.digitChar d) = some d := by
  have : ∀ d < 16, hexDigit (Nat.digitChar d) = some d := by decide
  exact this d h

theorem readHex_add (k l acc : ℕ) (s : Text) :
    readHex (k + l) acc s = (readHex k acc s).bind fun (n, s') => readHex l n s' := by
  induction k generalizing acc s with
  | zero => simp [readHex]
  | succ k ih =>
    rw [Nat.add_right_comm]
    cases s with
    | nil => rfl
    | cons c s =>
      rcases hc : hexDigit c with _ | d
      · simp [readHex, hc]
      · simp [readHex, hc, ih]

theorem readHex_hexText (k n acc : ℕ) (s : Text) (h : n < 16 ^ k) :
    readHex k acc (hexText k n ++ s) = some (16 ^ k * acc + n, s) := by
  induction k generalizing n s with
  | zero =>
    obtain rfl : n = 0 := by simpa using h
    simp [readHex, hexText]
  | succ k ih =>
    have hdiv : n / 16 < 16 ^ k := by
      rw [pow_succ] at h
      omega
    have hd : hexDigit (Nat.digitChar (n % 16)) = some (n % 16) := hexDigit_digitChar (Nat.mod_lt _ (by omega))
    have hval : 16 * (16 ^ k * acc + n / 16) + n % 16 = 16 ^ (k + 1) * acc + n := by
      rw [pow_succ]
      have := Nat.div_add_mod n 16
      ring_nf
      omega
    rw [hexText, List.append_assoc, readHex_add, ih _ _ hdiv]
    simp [readHex, hd, hval]

theorem isValidChar_toNat (c : Char) : c.toNat.isValidChar := c.valid

theorem ofNat_toNat (c : Char) : Char.ofNat c.toNat = c := Char.ofNat_toNat c

/-- A numeric escape is read as its character. -/
theorem readRune_hex {l : Char} {k : ℕ} (hl : escapeWidth l = some k) (c : Char) (s : Text)
    (hc : c.toNat < 16 ^ k) : readRune ('\\' :: l :: (hexText k c.toNat ++ s)) = some (c, s) := by
  have hr := readHex_hexText k c.toNat 0 s hc
  rw [Nat.mul_zero, Nat.zero_add] at hr
  simp only [readRune, hl, hr, if_pos (isValidChar_toNat c), ofNat_toNat]

theorem toNat_lt (c : Char) : c.toNat < 0x110000 := by
  rcases c.valid with h | ⟨-, h⟩
  · have : c.toNat < 0xd800 := h
    omega
  · exact h

theorem readRune_letter {c l : Char} (h : controlLetter c = some l) (s : Text) :
    readRune ('\\' :: l :: s) = some (c, s) := by
  have hall : ∀ {n k}, c.toNat = n → (some k = some l) → readRune ('\\' :: k :: s) = some (Char.ofNat n, s) →
      readRune ('\\' :: l :: s) = some (c, s) := by
    rintro n k rfl hk hr
    cases hk
    rw [hr, ofNat_toNat]
  unfold controlLetter at h
  split_ifs at h with h1 h2 h3 h4 h5 h6 h7
  · exact hall h1 h rfl
  · exact hall h2 h rfl
  · exact hall h3 h rfl
  · exact hall h4 h rfl
  · exact hall h5 h rfl
  · exact hall h6 h rfl
  · exact hall h7 h rfl

theorem readRune_escapeRune (P : PrintTable) (c : Char) (s : Text) :
    readRune (escapeRune P c ++ s) = some (c, s) := by
  unfold escapeRune
  by_cases hq : c = '"' ∨ c = '\\'
  · rw [if_pos hq]
    rcases hq with rfl | rfl <;> rfl
  · rw [if_neg hq]
    obtain ⟨hq, hb⟩ := not_or.mp hq
    by_cases hp : P.isPrint c = true
    · rw [if_pos hp]
      show readRune (c :: s) = _
      unfold readRune
      split
      all_goals grind
    · rw [if_neg hp]
      cases hl : controlLetter c with
      | some l => exact readRune_letter hl s
      | none =>
        have hlt := toNat_lt c
        simp only
        split_ifs with h1 h2
        · exact readRune_hex (k := 2) rfl c s (by omega)
        · exact readRune_hex (k := 4) rfl c s (by omega)
        · exact readRune_hex (k := 8) rfl c s (by omega)

theorem escapeRune_head (P : PrintTable) (c : Char) :
    ∃ d r, escapeRune P c = d :: r ∧ d ≠ '"' := by
  unfold escapeRune
  by_cases hq : c = '"' ∨ c = '\\'
  · rw [if_pos hq]
    exact ⟨'\\', [c], rfl, by decide⟩
  · rw [if_neg hq]
    by_cases hp : P.isPrint c = true
    · rw [if_pos hp]
      exact ⟨c, [], rfl, (not_or.mp hq).1⟩
    · rw [if_neg hp]
      cases controlLetter c with
      | some l => exact ⟨'\\', [l], rfl, by decide⟩
      | none =>
        simp only
        split_ifs
        · exact ⟨'\\', _, rfl, by decide⟩
        · exact ⟨'\\', _, rfl, by decide⟩
        · exact ⟨'\\', _, rfl, by decide⟩

theorem readRunes_succ {fuel : ℕ} {d : Char} {s : Text} (hd : d ≠ '"') :
    readRunes (fuel + 1) (d :: s) = match readRune (d :: s) with
      | none => none
      | some (c, s') => (readRunes fuel s').map fun (t, r) => (c :: t, r) := by
  rw [readRunes]
  intro s' h
  exact hd (List.cons.inj h).1

theorem readRunes_escape (P : PrintTable) (s rest : Text) {fuel : ℕ} (h : s.length < fuel) :
    readRunes fuel (s.flatMap (escapeRune P) ++ '"' :: rest) = some (s, rest) := by
  induction s generalizing fuel with
  | nil =>
    obtain ⟨fuel, rfl⟩ : ∃ k, fuel = k + 1 := ⟨fuel - 1, by simp at h; omega⟩
    rfl
  | cons c s ih =>
    obtain ⟨fuel, rfl⟩ : ∃ k, fuel = k + 1 := ⟨fuel - 1, by simp at h; omega⟩
    obtain ⟨d, r, hd, hne⟩ := escapeRune_head P c
    have hr := readRune_escapeRune P c (s.flatMap (escapeRune P) ++ '"' :: rest)
    have hlen : s.length < fuel := by simpa using h
    rw [List.flatMap_cons, List.append_assoc]
    rw [hd, List.cons_append] at hr ⊢
    rw [readRunes_succ hne, hr]
    show (readRunes fuel _).map _ = _
    rw [ih hlen]
    rfl

theorem length_le_flatMap {f : Char → Text} (hf : ∀ c, f c ≠ []) (s : Text) :
    s.length ≤ (s.flatMap f).length := by
  induction s with
  | nil => simp
  | cons c s ih =>
    have := List.length_pos_iff.mpr (hf c)
    rw [List.flatMap_cons, List.length_append, List.length_cons]
    omega

/-- **What Go quotes, YAML reads back.** -/
theorem readQuoted_quote (P : PrintTable) (s rest : Text) :
    readQuoted ((quote P s).tail ++ rest) = some (s, rest) := by
  have hne : ∀ c, escapeRune P c ≠ [] := fun c => by
    obtain ⟨d, r, h, -⟩ := escapeRune_head P c
    simp [h]
  have hlen := length_le_flatMap hne s
  show readQuoted (s.flatMap (escapeRune P) ++ ['"'] ++ rest) = _
  rw [List.append_assoc]
  exact readRunes_escape P s rest (by rw [List.length_append, List.length_append, List.length_singleton]; omega)

/-! ### What is written is printable -/

theorem PrintTable.isPrint_ascii (P : PrintTable) (c : Char)
    (h : 0x20 ≤ c.toNat ∧ c.toNat < 0x7f) : P.isPrint c = true := P.ascii c h.1 h.2

theorem mem_hexText {k n : ℕ} {d : Char} (h : d ∈ hexText k n) : ∃ r < 16, d = Nat.digitChar r := by
  induction k generalizing n with
  | zero => exact absurd h List.not_mem_nil
  | succ k ih =>
    rw [hexText, List.mem_append, List.mem_singleton] at h
    rcases h with h | rfl
    · exact ih h
    · exact ⟨n % 16, Nat.mod_lt _ (by omega), rfl⟩

theorem isPrint_hexText (P : PrintTable) (k n : ℕ) : ∀ d ∈ hexText k n, P.isPrint d = true := by
  have hall : ∀ r < 16, 0x20 ≤ (Nat.digitChar r).toNat ∧ (Nat.digitChar r).toNat < 0x7f := by decide
  intro d hd
  obtain ⟨r, hr, rfl⟩ := mem_hexText hd
  exact P.isPrint_ascii _ (hall r hr)

theorem controlLetter_mem {c l : Char} (h : controlLetter c = some l) :
    l ∈ ['a', 'b', 'f', 'n', 'r', 't', 'v'] := by
  unfold controlLetter at h
  split_ifs at h <;> cases h <;> decide

theorem isPrint_controlLetter (P : PrintTable) {c l : Char} (h : controlLetter c = some l) :
    P.isPrint l = true := by
  have hall : ∀ l ∈ ['a', 'b', 'f', 'n', 'r', 't', 'v'], 0x20 ≤ l.toNat ∧ l.toNat < 0x7f := by decide
  exact P.isPrint_ascii l (hall l (controlLetter_mem h))

theorem isPrint_escapeRune (P : PrintTable) (c : Char) : ∀ d ∈ escapeRune P c, P.isPrint d = true := by
  have hslash : P.isPrint '\\' = true := P.isPrint_ascii _ (by decide)
  have hcons : ∀ {l : Char} {t : Text}, P.isPrint l = true → (∀ d ∈ t, P.isPrint d = true) →
      ∀ d ∈ ['\\', l] ++ t, P.isPrint d = true := by
    intro l t hl ht d hd
    rcases List.mem_append.mp hd with hd | hd
    · rcases List.mem_pair.mp hd with rfl | rfl
      · exact hslash
      · exact hl
    · exact ht d hd
  unfold escapeRune
  by_cases hq : c = '"' ∨ c = '\\'
  · rw [if_pos hq]
    have hc : P.isPrint c = true := by
      rcases hq with rfl | rfl
      · exact P.isPrint_ascii _ (by decide)
      · exact hslash
    exact hcons (t := []) hc (by simp)
  · rw [if_neg hq]
    by_cases hp : P.isPrint c = true
    · rw [if_pos hp]
      intro d hd
      rw [List.mem_singleton.mp hd, hp]
    · rw [if_neg hp]
      cases hl : controlLetter c with
      | some l => exact hcons (t := []) (isPrint_controlLetter P hl) (by simp)
      | none =>
        simp only
        split_ifs
        · exact hcons (P.isPrint_ascii 'x' (by decide)) (isPrint_hexText P _ _)
        · exact hcons (P.isPrint_ascii 'u' (by decide)) (isPrint_hexText P _ _)
        · exact hcons (P.isPrint_ascii 'U' (by decide)) (isPrint_hexText P _ _)

/-- A quoted text has printable characters only. -/
theorem isPrint_quote (P : PrintTable) (s : Text) : ∀ d ∈ quote P s, P.isPrint d = true := by
  have hq : P.isPrint '"' = true := P.isPrint_ascii _ (by decide)
  intro d hd
  rw [quote, List.mem_append, List.mem_cons, List.mem_singleton, List.mem_flatMap] at hd
  rcases hd with (rfl | ⟨c, -, hd⟩) | rfl
  · exact hq
  · exact isPrint_escapeRune P c d hd
  · exact hq

/-! ### Quotes in what is written -/

/-- A quote is written for a quote only. -/
theorem quote_mem_escapeRune {P : PrintTable} {c : Char} (h : '"' ∈ escapeRune P c) : c = '"' := by
  have hhex : ∀ r < 16, Nat.digitChar r ≠ '"' := by decide
  have hletter : ∀ l ∈ ['a', 'b', 'f', 'n', 'r', 't', 'v'], l ≠ '"' := by decide
  have hdigits : ∀ {l : Char} {k n : ℕ}, l ≠ '"' → '"' ∉ ['\\', l] ++ hexText k n := by
    intro l k n hl hm
    rcases List.mem_append.mp hm with hm | hm
    · simp [Ne.symm hl] at hm
    · obtain ⟨r, hr, he⟩ := mem_hexText hm
      exact hhex r hr he.symm
  unfold escapeRune at h
  by_cases hq : c = '"' ∨ c = '\\'
  · rw [if_pos hq] at h
    simpa [eq_comm] using h
  · rw [if_neg hq] at h
    by_cases hp : P.isPrint c = true
    · rw [if_pos hp] at h
      exact (List.mem_singleton.mp h).symm
    · rw [if_neg hp] at h
      cases hl : controlLetter c with
      | some l =>
        rw [hl] at h
        have hne := hletter l (controlLetter_mem hl)
        simp [Ne.symm hne] at h
      | none =>
        rw [hl] at h
        simp only at h
        split_ifs at h
        · exact absurd h (hdigits (by decide))
        · exact absurd h (hdigits (by decide))
        · exact absurd h (hdigits (by decide))

/-- A text without quotes is written between the only two. -/
theorem quote_eq_of_not_mem (P : PrintTable) {t : Text} (h : '"' ∉ t) :
    ∃ u, quote P t = '"' :: (u ++ ['"']) ∧ '"' ∉ u := by
  refine ⟨t.flatMap (escapeRune P), rfl, fun hu => ?_⟩
  obtain ⟨c, hc, hm⟩ := List.mem_flatMap.mp hu
  exact h (quote_mem_escapeRune hm ▸ hc)

theorem newline_not_mem_quote (P : PrintTable) (t : Text) : '\n' ∉ quote P t := fun h =>
  absurd (P.printable _ (isPrint_quote P t _ h)).1 (by decide)

/-- Printable ASCII without quotes and backslashes. -/
def Plain (t : Text) : Prop := ∀ c ∈ t, 0x20 ≤ c.toNat ∧ c.toNat ≤ 0x7e ∧ c ≠ '"' ∧ c ≠ '\\'

instance (t : Text) : Decidable (Plain t) := decidableForallMemList _ t

theorem Plain.quote_not_mem {t : Text} (h : Plain t) : '"' ∉ t := fun hc => (h _ hc).2.2.1 rfl

/-- It is written as it is. -/
theorem Plain.quote {t : Text} (h : Plain t) (P : PrintTable) : Go.quote P t = '"' :: (t ++ ['"']) := by
  have hrune : ∀ c ∈ t, escapeRune P c = [c] := fun c hc => by
    obtain ⟨h1, h2, h3, h4⟩ := h c hc
    have hor : ¬ (c = '"' ∨ c = '\\') := not_or.mpr ⟨h3, h4⟩
    rw [escapeRune, if_neg hor, if_pos (P.ascii c h1 (by omega))]
  have hflat : t.flatMap (escapeRune P) = t := by
    clear h
    induction t with
    | nil => rfl
    | cons c t ih =>
      rw [List.flatMap_cons, hrune c List.mem_cons_self, ih fun d hd => hrune d (List.mem_cons_of_mem _ hd)]
      rfl
  rw [Go.quote, hflat, List.cons_append]

theorem plain_natText (n : ℕ) : Plain (natText n) := fun c hc => by
  have hd := isDigit_of_mem_natText hc
  obtain ⟨h1, h2⟩ := isDigit_range hd
  exact ⟨by omega, by omega, ne_of_test hd rfl, ne_of_test hd rfl⟩

theorem plain_intText (z : ℤ) : Plain (intText z) := fun c hc => by
  rcases isDigit_of_mem_intText hc with hd | rfl
  · obtain ⟨h1, h2⟩ := isDigit_range hd
    exact ⟨by omega, by omega, ne_of_test hd rfl, ne_of_test hd rfl⟩
  · decide

end Go
