/-
# JSON

Values, how `encoding/json` writes them (`render`: with or without an indent, and
with the characters that mean something to HTML escaped), and the grammar that it
reads (`parse`). Whatever the layout, what is written is read back
(`parse_render`).

A number stands for itself: it is the text that the grammar allows, and the reader
of a value decides what it takes from it. The limit on the depth of a text is left
out.

Key definitions: `Value`, `Layout`, `render`, `parse`.
Key theorems: `readString_escape`, `value_render`, `parse_render`.
-/
import QuakeKube.Lib.Quote

namespace Json

open Go

/-! ### Values -/

/-- The characters of numbers. -/
def isNumberChar (c : Char) : Bool := c.isDigit || c ∈ ['-', '+', '.', 'e', 'E']

/-- One digit or more. -/
def afterDigits : Text → Option Text
  | [] => none
  | c :: s => if c.isDigit then some (s.dropWhile Char.isDigit) else none

def afterSign : Text → Text
  | '-' :: s => s
  | s => s

/-- A zero, or digits that do not start with one. -/
def afterInteger : Text → Option Text
  | '0' :: s => some s
  | s => afterDigits s

def afterFraction : Text → Option Text
  | '.' :: s => afterDigits s
  | s => some s

def afterExponent : Text → Option Text
  | [] => some []
  | c :: s =>
    if c = 'e' ∨ c = 'E' then
      match s with
      | '+' :: s => afterDigits s
      | '-' :: s => afterDigits s
      | s => afterDigits s
    else some (c :: s)

/-- What the grammar calls a number. -/
def isNumber (s : Text) : Bool :=
  s.all isNumberChar && ((afterInteger (afterSign s)).bind afterFraction).bind afterExponent == some []

structure Number where
  text : Text
  valid : isNumber text = true
deriving DecidableEq

inductive Value
  | null
  | bool (b : Bool)
  | number (n : Number)
  | string (s : Text)
  | array (items : List Value)
  | object (fields : List (Text × Value))

/-! ### Writing -/

/-- The letter after the backslash for a control character that has one. -/
def controlLetter (c : Char) : Option Char :=
  if c.toNat = 0x08 then some 'b'
  else if c.toNat = 0x0c then some 'f'
  else if c.toNat = 0x0a then some 'n'
  else if c.toNat = 0x0d then some 'r'
  else if c.toNat = 0x09 then some 't'
  else none

/-- A character of a string, as `appendString` writes it when it escapes HTML. -/
def escape (c : Char) : Text :=
  if c = '"' ∨ c = '\\' then ['\\', c]
  else match controlLetter c with
    | some l => ['\\', l]
    | none =>
      if c.toNat < 0x20 ∨ c ∈ ['<', '>', '&'] ∨ c.toNat = 0x2028 ∨ c.toNat = 0x2029 then
        ['\\', 'u'] ++ hexText 4 c.toNat
      else [c]

def quoted (s : Text) : Text := '"' :: s.flatMap escape ++ ['"']

/-- Where lines begin: nowhere, or with an indent for each level. -/
structure Layout where
  indent : Option Text
  /-- What may stand between two tokens. -/
  blank : ∀ i ∈ indent, ∀ c ∈ i, c ∈ [' ', '\t']

namespace Layout

variable (L : Layout)

def line (depth : ℕ) : Text :=
  match L.indent with
  | none => []
  | some i => '\n' :: (List.replicate depth i).flatten

def colon : Text :=
  match L.indent with
  | none => [':']
  | some _ => [':', ' ']

end Layout

mutual

def render (L : Layout) (depth : ℕ) : Value → Text
  | .null => ['n', 'u', 'l', 'l']
  | .bool true => ['t', 'r', 'u', 'e']
  | .bool false => ['f', 'a', 'l', 's', 'e']
  | .number n => n.text
  | .string s => quoted s
  | .array [] => ['[', ']']
  | .array (v :: vs) =>
    '[' :: (L.line (depth + 1) ++ render L (depth + 1) v ++ renderItems L (depth + 1) vs ++
      L.line depth) ++ [']']
  | .object [] => ['{', '}']
  | .object ((k, v) :: fs) =>
    '{' :: (L.line (depth + 1) ++ quoted k ++ L.colon ++ render L (depth + 1) v ++
      renderFields L (depth + 1) fs ++ L.line depth) ++ ['}']

/-- The items after the first. -/
def renderItems (L : Layout) (depth : ℕ) : List Value → Text
  | [] => []
  | v :: vs => ',' :: (L.line depth ++ render L depth v) ++ renderItems L depth vs

def renderFields (L : Layout) (depth : ℕ) : List (Text × Value) → Text
  | [] => []
  | (k, v) :: fs =>
    ',' :: (L.line depth ++ quoted k ++ L.colon ++ render L depth v) ++ renderFields L depth fs

end

/-! ### Reading -/

def isSpace (c : Char) : Bool := c ∈ [' ', '\t', '\r', '\n']

def skip (s : Text) : Text := s.dropWhile isSpace

/-- The character a letter after a backslash stands for. -/
def escapeLetter : Char → Option Char
  | '"' => some '"'
  | '\\' => some '\\'
  | '/' => some '/'
  | 'b' => some (Char.ofNat 0x08)
  | 'f' => some (Char.ofNat 0x0c)
  | 'n' => some (Char.ofNat 0x0a)
  | 'r' => some (Char.ofNat 0x0d)
  | 't' => some (Char.ofNat 0x09)
  | _ => none

/-- The second half of a surrogate pair. -/
def readLow (high : ℕ) : Text → Option (Char × Text)
  | '\\' :: 'u' :: s =>
    (readHex 4 0 s).bind fun (low, s') =>
      if high < 0xdc00 ∧ 0xdc00 ≤ low ∧ low < 0xe000 then
        some (Char.ofNat (0x10000 + (high - 0xd800) * 0x400 + (low - 0xdc00)), s')
      else none
  | _ => none

/-- What an escape stands for, after its backslash. Half a pair is no character. -/
def readEscape : Text → Option (Char × Text)
  | [] => none
  | 'u' :: s =>
    (readHex 4 0 s).map fun (n, s') =>
      if 0xd800 ≤ n ∧ n < 0xe000 then (readLow n s').getD (Char.ofNat 0xfffd, s') else (Char.ofNat n, s')
  | c :: s => (escapeLetter c).map fun d => (d, s)

/-- One character of a string. -/
def readChar : Text → Option (Char × Text)
  | [] => none
  | '\\' :: s => readEscape s
  | c :: s => if c.toNat < 0x20 then none else some (c, s)

/-- The characters up to the closing quote, and the text after it. -/
def readChars : (fuel : ℕ) → Text → Option (Text × Text)
  | 0, _ => none
  | _ + 1, '"' :: s => some ([], s)
  | fuel + 1, s => (readChar s).bind fun (c, s') => (readChars fuel s').map fun (t, r) => (c :: t, r)

/-- A string after its opening quote. -/
def readString (s : Text) : Option (Text × Text) := readChars s.length s

/-- A value that is no string, array or object. -/
def readScalar : Text → Option (Value × Text)
  | 'n' :: 'u' :: 'l' :: 'l' :: s => some (.null, s)
  | 't' :: 'r' :: 'u' :: 'e' :: s => some (.bool true, s)
  | 'f' :: 'a' :: 'l' :: 's' :: 'e' :: s => some (.bool false, s)
  | s =>
    if h : isNumber (s.takeWhile isNumberChar) = true then
      some (.number ⟨s.takeWhile isNumberChar, h⟩, s.dropWhile isNumberChar)
    else none

mutual

/-- A value, and the text after it. -/
def value : (fuel : ℕ) → Text → Option (Value × Text)
  | 0, _ => none
  | fuel + 1, s =>
    match skip s with
    | '"' :: s => (readString s).map fun (t, r) => (.string t, r)
    | '[' :: s =>
      match skip s with
      | ']' :: r => some (.array [], r)
      | _ => (items fuel s).map fun (vs, r) => (.array vs, r)
    | '{' :: s =>
      match skip s with
      | '}' :: r => some (.object [], r)
      | _ => (fields fuel s).map fun (fs, r) => (.object fs, r)
    | s => readScalar s

/-- Items up to the closing bracket. -/
def items : (fuel : ℕ) → Text → Option (List Value × Text)
  | 0, _ => none
  | fuel + 1, s =>
    (value fuel s).bind fun (v, r) =>
      match skip r with
      | ']' :: r => some ([v], r)
      | ',' :: r => (items fuel r).map fun (vs, r) => (v :: vs, r)
      | _ => none

/-- A name, a colon and a value, up to the closing brace. -/
def fields : (fuel : ℕ) → Text → Option (List (Text × Value) × Text)
  | 0, _ => none
  | fuel + 1, s =>
    match skip s with
    | '"' :: s =>
      (readString s).bind fun (k, r) =>
        match skip r with
        | ':' :: r =>
          (value fuel r).bind fun (v, r) =>
            match skip r with
            | '}' :: r => some ([(k, v)], r)
            | ',' :: r => (fields fuel r).map fun (fs, r) => ((k, v) :: fs, r)
            | _ => none
        | _ => none
    | _ => none

end

/-- One value, all of the text. -/
def parse (s : Text) : Option Value :=
  (value (s.length + 1) s).bind fun (v, r) => if skip r = [] then some v else none

/-! ### Strings -/

theorem readEscape_hex (c : Char) (h : c.toNat < 0xd800) (s : Text) :
    readEscape ('u' :: (hexText 4 c.toNat ++ s)) = some (c, s) := by
  have hr := readHex_hexText 4 c.toNat 0 s (by omega)
  rw [Nat.mul_zero, Nat.zero_add] at hr
  have hno : ¬ (0xd800 ≤ c.toNat ∧ c.toNat < 0xe000) := by omega
  simp only [readEscape, hr, Option.map_some, if_neg hno, Char.ofNat_toNat]

theorem readEscape_letter {c l : Char} (h : controlLetter c = some l) (s : Text) :
    readEscape (l :: s) = some (c, s) := by
  have hall : ∀ {n k}, c.toNat = n → some k = some l → readEscape (k :: s) = some (Char.ofNat n, s) →
      readEscape (l :: s) = some (c, s) := by
    rintro n k rfl hk hr
    cases hk
    rw [hr, Char.ofNat_toNat]
  unfold controlLetter at h
  split_ifs at h with h1 h2 h3 h4 h5
  · exact hall h1 h rfl
  · exact hall h2 h rfl
  · exact hall h3 h rfl
  · exact hall h4 h rfl
  · exact hall h5 h rfl

/-- **A character is read back**, escaped or not. -/
theorem readChar_escape (c : Char) (s : Text) : readChar (escape c ++ s) = some (c, s) := by
  unfold escape
  by_cases hq : c = '"' ∨ c = '\\'
  · rw [if_pos hq]
    rcases hq with rfl | rfl <;> rfl
  · rw [if_neg hq]
    cases hl : controlLetter c with
    | some l => exact readEscape_letter hl s
    | none =>
      dsimp only
      split_ifs with h
      · apply readEscape_hex
        rcases h with h | h | h | h
        · omega
        · have hlt : ∀ c ∈ ['<', '>', '&'], c.toNat < 0xd800 := by decide
          exact hlt c h
        · omega
        · omega
      · have hc : ¬ c.toNat < 0x20 := fun hc => h (.inl hc)
        have hb : c ≠ '\\' := fun hc => hq (.inr hc)
        show readChar (c :: s) = some (c, s)
        unfold readChar
        split
        all_goals grind

theorem escape_head (c : Char) : ∃ d r, escape c = d :: r ∧ d ≠ '"' := by
  unfold escape
  by_cases hq : c = '"' ∨ c = '\\'
  · rw [if_pos hq]
    exact ⟨'\\', [c], rfl, by decide⟩
  · rw [if_neg hq]
    cases controlLetter c with
    | some l => exact ⟨'\\', [l], rfl, by decide⟩
    | none =>
      dsimp only
      split_ifs
      · exact ⟨'\\', _, rfl, by decide⟩
      · exact ⟨c, [], rfl, (not_or.mp hq).1⟩

theorem readChars_succ {fuel : ℕ} {d : Char} {s : Text} (hd : d ≠ '"') : readChars (fuel + 1) (d :: s) =
    (readChar (d :: s)).bind fun (c, s') => (readChars fuel s').map fun (t, r) => (c :: t, r) := by
  rw [readChars]
  intro s' h
  exact hd (List.cons.inj h).1

theorem readChars_escape (s r : Text) {fuel : ℕ} (h : s.length < fuel) :
    readChars fuel (s.flatMap escape ++ '"' :: r) = some (s, r) := by
  induction s generalizing fuel with
  | nil =>
    obtain ⟨fuel, rfl⟩ := Nat.exists_eq_succ_of_ne_zero (Nat.ne_of_gt h)
    rfl
  | cons c s ih =>
    obtain ⟨fuel, rfl⟩ := Nat.exists_eq_succ_of_ne_zero (Nat.ne_of_gt (Nat.zero_lt_of_lt h))
    obtain ⟨d, e, he, hd⟩ := escape_head c
    have hc := readChar_escape c (s.flatMap escape ++ '"' :: r)
    rw [he, List.cons_append] at hc
    rw [List.flatMap_cons, he, List.append_assoc, List.cons_append, readChars_succ hd, hc, Option.bind_some]
    dsimp only
    rw [ih (Nat.lt_of_succ_lt_succ h)]
    rfl

theorem length_le_flatMap_escape (s : Text) : s.length ≤ (s.flatMap escape).length := by
  induction s with
  | nil => exact Nat.le_refl 0
  | cons c s ih =>
    obtain ⟨d, e, he, -⟩ := escape_head c
    rw [List.flatMap_cons, he, List.length_append, List.length_cons, List.length_cons]
    omega

/-- **A string is read back.** -/
theorem readString_escape (s r : Text) : readString (s.flatMap escape ++ '"' :: r) = some (s, r) := by
  have hlen := length_le_flatMap_escape s
  exact readChars_escape s r (by rw [List.length_append, List.length_cons]; omega)

/-! ### Numbers -/

/-- No number goes on with the text. -/
def Ends (r : Text) : Prop := ∀ c ∈ r.head?, isNumberChar c = false

theorem Number.isNumberChar (n : Number) : ∀ c ∈ n.text, isNumberChar c = true :=
  List.all_eq_true.mp (Bool.and_eq_true_iff.mp n.valid).1

theorem Number.ne_nil (n : Number) : n.text ≠ [] := by
  intro h
  have hv := n.valid
  rw [h] at hv
  exact absurd hv (by decide)

/-- **A number is read to its end.** -/
theorem readScalar_number (n : Number) {r : Text} (hr : Ends r) :
    readScalar (n.text ++ r) = some (.number n, r) := by
  have ht : (n.text ++ r).takeWhile Json.isNumberChar = n.text := takeWhile_append_stop n.isNumberChar hr
  have hd : (n.text ++ r).dropWhile Json.isNumberChar = r := dropWhile_append_stop n.isNumberChar hr
  obtain ⟨c, t, hc⟩ := List.exists_cons_of_ne_nil n.ne_nil
  have hchar : Json.isNumberChar c = true := n.isNumberChar c (hc ▸ List.mem_cons_self)
  have hletter : ∀ d ∈ ['n', 't', 'f'], c ≠ d := by
    have hall : ∀ d ∈ ['n', 't', 'f'], Json.isNumberChar d = false := by decide
    rintro d hd rfl
    exact Bool.false_ne_true ((hall c hd).symm.trans hchar)
  have hother : readScalar (n.text ++ r) =
      if h : isNumber ((n.text ++ r).takeWhile Json.isNumberChar) = true then
        some (.number ⟨(n.text ++ r).takeWhile Json.isNumberChar, h⟩,
          (n.text ++ r).dropWhile Json.isNumberChar)
      else none := by
    rw [hc, List.cons_append]
    unfold readScalar
    split
    · exact absurd (List.cons.inj ‹_›).1 (hletter _ (by simp))
    · exact absurd (List.cons.inj ‹_›).1 (hletter _ (by simp))
    · exact absurd (List.cons.inj ‹_›).1 (hletter _ (by simp))
    · rfl
  rw [hother]
  simp only [ht, hd, n.valid, dif_pos]

/-! ### Values -/

variable (L : Layout)

theorem skip_of_head {c : Char} (h : isSpace c = false) (s : Text) : skip (c :: s) = c :: s :=
  List.dropWhile_cons_of_neg (by rw [h]; exact Bool.false_ne_true)

theorem Layout.skip_line (depth : ℕ) (s : Text) : skip (L.line depth ++ s) = skip s := by
  have hspace : ∀ c ∈ L.line depth, isSpace c = true := by
    intro c hc
    unfold line at hc
    split at hc
    · exact absurd hc List.not_mem_nil
    · rename_i i hi
      rcases List.mem_cons.mp hc with rfl | hc
      · rfl
      · obtain ⟨t, ht, hc⟩ := List.mem_flatten.mp hc
        rw [List.eq_of_mem_replicate ht] at hc
        have hblank : ∀ c ∈ [' ', '\t'], isSpace c = true := by decide
        exact hblank c (L.blank i hi c hc)
  exact List.dropWhile_append_of_pos hspace

/-- A value starts where the blanks end. -/
theorem value_congr (fuel : ℕ) {s t : Text} (h : skip s = skip t) : value fuel s = value fuel t := by
  cases fuel with
  | zero => rfl
  | succ fuel => rw [value, value, h]

theorem value_line (fuel depth : ℕ) (s : Text) : value fuel (L.line depth ++ s) = value fuel s :=
  value_congr fuel (L.skip_line depth s)

/-- What a value starts with opens no blank and closes nothing. -/
def Opens (c : Char) : Prop := isSpace c = false ∧ c ≠ ']' ∧ c ≠ '}'

instance : DecidablePred Opens := fun c => by unfold Opens; infer_instance

theorem opens_of_isNumberChar {c : Char} (h : isNumberChar c = true) : Opens c := by
  have hno : ∀ d ∈ [' ', '\t', '\r', '\n', ']', '}'], isNumberChar d = false := by decide
  have hne : ∀ d ∈ [' ', '\t', '\r', '\n', ']', '}'], c ≠ d := by
    rintro d hd rfl
    exact Bool.false_ne_true ((hno c hd).symm.trans h)
  refine ⟨?_, hne _ (by simp), hne _ (by simp)⟩
  simp [isSpace, hne]

theorem render_head (depth : ℕ) (v : Value) : ∃ c t, render L depth v = c :: t ∧ Opens c := by
  unfold render
  split
  · exact ⟨_, _, rfl, by decide⟩
  · exact ⟨_, _, rfl, by decide⟩
  · exact ⟨_, _, rfl, by decide⟩
  · rename_i n
    obtain ⟨c, t, hc⟩ := List.exists_cons_of_ne_nil n.ne_nil
    exact ⟨c, t, hc, opens_of_isNumberChar (n.isNumberChar c (hc ▸ List.mem_cons_self))⟩
  · exact ⟨_, _, rfl, by decide⟩
  · exact ⟨_, _, rfl, by decide⟩
  · exact ⟨_, _, rfl, by decide⟩
  · exact ⟨_, _, rfl, by decide⟩
  · exact ⟨_, _, rfl, by decide⟩

/-- What may follow an item. -/
def moreItems (fuel : ℕ) (s : Text) : Option (List Value × Text) :=
  match skip s with
  | ']' :: r => some ([], r)
  | ',' :: r => items fuel r
  | _ => none

def moreFields (fuel : ℕ) (s : Text) : Option (List (Text × Value) × Text) :=
  match skip s with
  | '}' :: r => some ([], r)
  | ',' :: r => fields fuel r
  | _ => none

section More

variable {s r : Text} (fuel : ℕ)

theorem moreItems_close (h : skip s = ']' :: r) : moreItems fuel s = some ([], r) := by
  rw [moreItems, h]
  rfl

theorem moreItems_comma (h : skip s = ',' :: r) : moreItems fuel s = items fuel r := by
  rw [moreItems, h]
  rfl

theorem moreFields_close (h : skip s = '}' :: r) : moreFields fuel s = some ([], r) := by
  rw [moreFields, h]
  rfl

theorem moreFields_comma (h : skip s = ',' :: r) : moreFields fuel s = fields fuel r := by
  rw [moreFields, h]
  rfl

end More

theorem items_succ {fuel : ℕ} {s r : Text} {v : Value} (h : value fuel s = some (v, r)) :
    items (fuel + 1) s = (moreItems fuel r).map fun (vs, r) => (v :: vs, r) := by
  rw [items, h, Option.bind_some]
  unfold moreItems
  dsimp only
  split <;> rfl

theorem fields_succ {fuel : ℕ} {s r r' : Text} {k : Text} {v : Value}
    (hs : skip s = '"' :: (k.flatMap escape ++ '"' :: r)) (hc : skip r = ':' :: r')
    {r'' : Text} (h : value fuel r' = some (v, r'')) :
    fields (fuel + 1) s = (moreFields fuel r'').map fun (fs, r) => ((k, v) :: fs, r) := by
  rw [fields, hs]
  simp only [readString_escape, Option.bind_some, hc, h]
  unfold moreFields
  split <;> rfl

theorem ends_line (depth : ℕ) {c : Char} (h : isNumberChar c = false) (r : Text) :
    Ends (L.line depth ++ c :: r) := by
  unfold Layout.line
  split
  · rintro d hd
    rw [List.nil_append, List.head?_cons, Option.mem_some] at hd
    rw [← hd, h]
  · rintro d hd
    rw [List.cons_append, List.head?_cons, Option.mem_some] at hd
    rw [← hd]
    rfl

theorem ends_items (depth : ℕ) (vs : List Value) (d : ℕ) (r : Text) :
    Ends (renderItems L depth vs ++ (L.line d ++ ']' :: r)) := by
  cases vs with
  | nil => exact ends_line L d rfl r
  | cons v vs =>
    rintro c hc
    rw [renderItems, List.cons_append, List.cons_append, List.head?_cons, Option.mem_some] at hc
    rw [← hc]
    rfl

theorem ends_fields (depth : ℕ) (fs : List (Text × Value)) (d : ℕ) (r : Text) :
    Ends (renderFields L depth fs ++ (L.line d ++ '}' :: r)) := by
  cases fs with
  | nil => exact ends_line L d rfl r
  | cons f fs =>
    rintro c hc
    rw [renderFields, List.cons_append, List.cons_append, List.head?_cons, Option.mem_some] at hc
    rw [← hc]
    rfl

theorem skip_colon (r : Text) : ∃ b, skip (L.colon ++ r) = ':' :: (b ++ r) ∧ skip (b ++ r) = skip r := by
  unfold Layout.colon
  split
  · exact ⟨[], rfl, rfl⟩
  · exact ⟨[' '], rfl, rfl⟩

theorem value_scalar {c : Char} (h : Opens c) (hn : c ∉ ['"', '[', '{']) (fuel : ℕ) (s : Text) :
    value (fuel + 1) (c :: s) = readScalar (c :: s) := by
  have hne : c ≠ '"' ∧ c ≠ '[' ∧ c ≠ '{' := by simpa using hn
  rw [value, skip_of_head h.1]
  split
  · exact absurd (List.cons.inj ‹_›).1 hne.1
  · exact absurd (List.cons.inj ‹_›).1 hne.2.1
  · exact absurd (List.cons.inj ‹_›).1 hne.2.2
  · rfl

theorem value_number (n : Number) {r : Text} (hr : Ends r) (fuel : ℕ) :
    value (fuel + 1) (n.text ++ r) = some (.number n, r) := by
  have hread := readScalar_number n hr
  obtain ⟨c, t, hc⟩ := List.exists_cons_of_ne_nil n.ne_nil
  have hchar : isNumberChar c = true := n.isNumberChar c (hc ▸ List.mem_cons_self)
  have hn : c ∉ ['"', '[', '{'] := by
    have hno : ∀ d ∈ ['"', '[', '{'], isNumberChar d = false := by decide
    exact fun hm => Bool.false_ne_true ((hno c hm).symm.trans hchar)
  rw [hc, List.cons_append] at hread ⊢
  rw [value_scalar (opens_of_isNumberChar hchar) hn, hread]

theorem quoted_append (s r : Text) : quoted s ++ r = '"' :: (s.flatMap escape ++ '"' :: r) := by
  simp [quoted]

theorem value_quoted (s r : Text) (fuel : ℕ) : value (fuel + 1) (quoted s ++ r) = some (.string s, r) := by
  rw [quoted_append, value, skip_of_head (by decide)]
  show (readString (s.flatMap escape ++ '"' :: r)).map (fun (t, r) => (Value.string t, r)) = _
  rw [readString_escape]
  rfl

/-- What does not open a bracket's end is an item. -/
theorem value_array {c : Char} {s t : Text} (hs : skip s = c :: t) (hc : Opens c) (fuel : ℕ) :
    value (fuel + 1) ('[' :: s) = (items fuel s).map fun (vs, r) => (.array vs, r) := by
  rw [value, skip_of_head (by decide)]
  show (match skip s with
    | ']' :: r => some (Value.array [], r)
    | _ => (items fuel s).map fun (vs, r) => (Value.array vs, r)) = _
  rw [hs]
  split
  · exact absurd (List.cons.inj ‹_›).1 hc.2.1
  · rfl

theorem value_object {c : Char} {s t : Text} (hs : skip s = c :: t) (hc : Opens c) (fuel : ℕ) :
    value (fuel + 1) ('{' :: s) = (fields fuel s).map fun (fs, r) => (.object fs, r) := by
  rw [value, skip_of_head (by decide)]
  show (match skip s with
    | '}' :: r => some (Value.object [], r)
    | _ => (fields fuel s).map fun (fs, r) => (Value.object fs, r)) = _
  rw [hs]
  split
  · exact absurd (List.cons.inj ‹_›).1 hc.2.2
  · rfl

/-- An item that is read, and what follows it. -/
theorem items_line {fuel depth : ℕ} {v : Value} {s : Text}
    (h : value fuel (render L depth v ++ s) = some (v, s)) (d : ℕ) :
    items (fuel + 1) (L.line d ++ (render L depth v ++ s)) =
      (moreItems fuel s).map fun (vs, r) => (v :: vs, r) :=
  items_succ (by rw [value_line, h])

theorem fields_line {fuel depth : ℕ} {v : Value} {s : Text}
    (h : value fuel (render L depth v ++ s) = some (v, s)) (d : ℕ) (k : Text) :
    fields (fuel + 1) (L.line d ++ (quoted k ++ (L.colon ++ (render L depth v ++ s)))) =
      (moreFields fuel s).map fun (fs, r) => ((k, v) :: fs, r) := by
  obtain ⟨b, hcolon, hblank⟩ := skip_colon L (render L depth v ++ s)
  have hs : skip (L.line d ++ (quoted k ++ (L.colon ++ (render L depth v ++ s)))) =
      '"' :: (k.flatMap escape ++ '"' :: (L.colon ++ (render L depth v ++ s))) := by
    rw [L.skip_line, quoted_append, skip_of_head (by decide)]
  exact fields_succ hs hcolon ((value_congr fuel hblank).trans h)

theorem skip_close (d : ℕ) {c : Char} (hc : isSpace c = false) (r : Text) :
    skip (L.line d ++ c :: r) = c :: r := by
  rw [L.skip_line, skip_of_head hc]

mutual

/-- **A value that was written is read**, with fuel for each of its characters. -/
theorem value_render (depth : ℕ) : ∀ (v : Value) {fuel : ℕ} {r : Text}, Ends r →
    (render L depth v).length ≤ fuel → value fuel (render L depth v ++ r) = some (v, r)
  | .null, 0, _, _, hf => absurd hf (by simp [render])
  | .null, fuel + 1, _, _, _ => rfl
  | .bool true, 0, _, _, hf => absurd hf (by simp [render])
  | .bool true, fuel + 1, _, _, _ => rfl
  | .bool false, 0, _, _, hf => absurd hf (by simp [render])
  | .bool false, fuel + 1, _, _, _ => rfl
  | .number n, 0, _, _, hf => absurd (List.length_eq_zero_iff.mp (Nat.le_zero.mp hf)) n.ne_nil
  | .number n, fuel + 1, _, hr, _ => value_number n hr fuel
  | .string s, 0, _, _, hf => absurd hf (by simp [render, quoted])
  | .string s, fuel + 1, r, _, _ => value_quoted s r fuel
  | .array [], 0, _, _, hf => absurd hf (by simp [render])
  | .array [], fuel + 1, _, _, _ => rfl
  | .object [], 0, _, _, hf => absurd hf (by simp [render])
  | .object [], fuel + 1, _, _, _ => rfl
  | .array (v :: vs), fuel, r, _, hf => by
    simp only [render, List.length_append, List.length_cons, List.length_nil] at hf
    obtain ⟨fuel, rfl⟩ := Nat.exists_eq_add_of_le' (by omega : 2 ≤ fuel)
    obtain ⟨c, t, hc, hopens⟩ := render_head L (depth + 1) v
    have hskip : skip (L.line (depth + 1) ++ (render L (depth + 1) v ++
        (renderItems L (depth + 1) vs ++ (L.line depth ++ ']' :: r)))) =
        c :: (t ++ (renderItems L (depth + 1) vs ++ (L.line depth ++ ']' :: r))) := by
      rw [L.skip_line, hc, List.cons_append, skip_of_head hopens.1]
    have hv := value_render (depth + 1) v (ends_items L (depth + 1) vs depth r)
      (show (render L (depth + 1) v).length ≤ fuel by omega)
    have htail := moreItems_render (depth + 1) depth vs (r := r)
      (show (renderItems L (depth + 1) vs).length ≤ fuel by omega)
    calc value (fuel + 2) (render L depth (.array (v :: vs)) ++ r)
        = value (fuel + 2) ('[' :: (L.line (depth + 1) ++ (render L (depth + 1) v ++
            (renderItems L (depth + 1) vs ++ (L.line depth ++ ']' :: r))))) := by
          rw [render]
          simp
      _ = some (.array (v :: vs), r) := by
          rw [value_array hskip hopens, items_line L hv, htail]
          rfl
  | .object ((k, v) :: fs), fuel, r, _, hf => by
    simp only [render, List.length_append, List.length_cons, List.length_nil] at hf
    obtain ⟨fuel, rfl⟩ := Nat.exists_eq_add_of_le' (by omega : 2 ≤ fuel)
    have hskip : skip (L.line (depth + 1) ++ (quoted k ++ (L.colon ++ (render L (depth + 1) v ++
        (renderFields L (depth + 1) fs ++ (L.line depth ++ '}' :: r)))))) =
        '"' :: (k.flatMap escape ++ '"' :: (L.colon ++ (render L (depth + 1) v ++
          (renderFields L (depth + 1) fs ++ (L.line depth ++ '}' :: r))))) := by
      rw [L.skip_line, quoted_append, skip_of_head (by decide)]
    have hv := value_render (depth + 1) v (ends_fields L (depth + 1) fs depth r)
      (show (render L (depth + 1) v).length ≤ fuel by omega)
    have htail := moreFields_render (depth + 1) depth fs (r := r)
      (show (renderFields L (depth + 1) fs).length ≤ fuel by omega)
    calc value (fuel + 2) (render L depth (.object ((k, v) :: fs)) ++ r)
        = value (fuel + 2) ('{' :: (L.line (depth + 1) ++ (quoted k ++ (L.colon ++ (render L (depth + 1) v ++
            (renderFields L (depth + 1) fs ++ (L.line depth ++ '}' :: r))))))) := by
          rw [render]
          simp
      _ = some (.object ((k, v) :: fs), r) := by
          rw [value_object hskip (by decide), fields_line L hv, htail]
          rfl

theorem moreItems_render (depth d : ℕ) : ∀ (vs : List Value) {fuel : ℕ} {r : Text},
    (renderItems L depth vs).length ≤ fuel →
      moreItems fuel (renderItems L depth vs ++ (L.line d ++ ']' :: r)) = some (vs, r)
  | [], fuel, r, _ => by
    rw [renderItems, List.nil_append, moreItems_close fuel (skip_close L d (by decide) r)]
  | v :: vs, fuel, r, hf => by
    simp only [renderItems, List.length_append, List.length_cons] at hf
    obtain ⟨fuel, rfl⟩ := Nat.exists_eq_add_of_le' (by omega : 1 ≤ fuel)
    have hv := value_render depth v (ends_items L depth vs d r)
      (show (render L depth v).length ≤ fuel by omega)
    have htail := moreItems_render depth d vs (r := r)
      (show (renderItems L depth vs).length ≤ fuel by omega)
    rw [renderItems, List.cons_append, List.cons_append, moreItems_comma _ (skip_of_head (by decide) _),
      List.append_assoc, List.append_assoc, items_line L hv, htail]
    rfl

theorem moreFields_render (depth d : ℕ) : ∀ (fs : List (Text × Value)) {fuel : ℕ} {r : Text},
    (renderFields L depth fs).length ≤ fuel →
      moreFields fuel (renderFields L depth fs ++ (L.line d ++ '}' :: r)) = some (fs, r)
  | [], fuel, r, _ => by
    rw [renderFields, List.nil_append, moreFields_close fuel (skip_close L d (by decide) r)]
  | (k, v) :: fs, fuel, r, hf => by
    simp only [renderFields, List.length_append, List.length_cons] at hf
    obtain ⟨fuel, rfl⟩ := Nat.exists_eq_add_of_le' (by omega : 1 ≤ fuel)
    have hv := value_render depth v (ends_fields L depth fs d r)
      (show (render L depth v).length ≤ fuel by omega)
    have htail := moreFields_render depth d fs (r := r)
      (show (renderFields L depth fs).length ≤ fuel by omega)
    rw [renderFields, List.cons_append, List.cons_append, moreFields_comma _ (skip_of_head (by decide) _)]
    simp only [List.append_assoc]
    rw [fields_line L hv, htail]
    rfl

end

/-- **What is written is read back**, in every layout and with blanks after it. -/
theorem parse_render (depth : ℕ) (v : Value) {r : Text} (hr : ∀ c ∈ r, isSpace c = true) :
    parse (render L depth v ++ r) = some v := by
  have hends : Ends r := by
    intro c hc
    have hno : ∀ d ∈ [' ', '\t', '\r', '\n'], isNumberChar d = false := by decide
    exact hno c (of_decide_eq_true (hr c (List.mem_of_mem_head? hc)))
  have hskip : skip r = [] := List.dropWhile_eq_nil_iff.mpr hr
  rw [parse, value_render L depth v hends (by rw [List.length_append]; omega)]
  exact if_pos hskip

/-! ### Natural numbers -/

/-- Only zero starts with a zero. -/
theorem natText_head (n : ℕ) : natText n = ['0'] ∨ ∃ c t, natText n = c :: t ∧ c ≠ '0' := by
  induction n using Nat.strong_induction_on with
  | _ n ih =>
    by_cases hn : n < 10
    · have hall : ∀ n < 10, natText n = ['0'] ∨ Nat.digitChar n ≠ '0' := by decide
      rcases hall n hn with h | h
      · exact .inl h
      · exact .inr ⟨_, [], Nat.toDigits_of_lt_base hn, h⟩
    · have hsplit : natText n = natText (n / 10) ++ [Nat.digitChar (n % 10)] :=
        Nat.toDigits_of_base_le (by decide) (Nat.le_of_not_lt hn)
      rcases ih (n / 10) (by omega) with h | ⟨c, t, h, hc⟩
      · have hzero : n / 10 = 0 := by
          have hp := parseNat_natText (n / 10)
          rw [h] at hp
          exact (Option.some.inj hp).symm
        omega
      · exact .inr ⟨c, t ++ [Nat.digitChar (n % 10)], by rw [hsplit, h, List.cons_append], hc⟩

theorem afterInteger_natText (n : ℕ) : afterInteger (afterSign (natText n)) = some [] := by
  rcases natText_head n with h | ⟨c, t, h, hc⟩
  · rw [h]
    rfl
  · have hdigit : ∀ d ∈ c :: t, d.isDigit = true := fun d hd => isDigit_of_mem_natText (h ▸ hd)
    have hsign : afterSign (c :: t) = c :: t := by
      unfold afterSign
      split
      · exact absurd (hdigit '-' (by simp_all)) (by decide)
      · rfl
    have hdigits : afterInteger (c :: t) = afterDigits (c :: t) := by
      unfold afterInteger
      split
      · exact absurd (List.cons.inj ‹_›).1 hc
      · rfl
    have hrest : t.dropWhile Char.isDigit = [] :=
      List.dropWhile_eq_nil_iff.mpr fun d hd => hdigit d (List.mem_cons_of_mem c hd)
    rw [h, hsign, hdigits, afterDigits, if_pos (hdigit c List.mem_cons_self), hrest]

theorem isNumber_natText (n : ℕ) : isNumber (natText n) = true := by
  have hchars : (natText n).all isNumberChar = true := by
    rw [List.all_eq_true]
    intro c hc
    rw [isNumberChar, isDigit_of_mem_natText hc, Bool.true_or]
  rw [isNumber, hchars, afterInteger_natText]
  rfl

/-- A natural number. -/
def Number.nat (n : ℕ) : Number := ⟨natText n, isNumber_natText n⟩

end Json
