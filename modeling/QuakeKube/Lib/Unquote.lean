/-
# Unquoting

Go's `strconv.Unquote` over bytes: a double-quoted, single-quoted or raw string
without its quotes, escapes replaced by what they stand for. Runes are decoded
and encoded by Lean's own UTF-8; a byte that does not start one is read as the
replacement character. Bytes that are valid UTF-8 and need no escape are read
back from between their quotes (`unquote_quoted`).

Key definitions: `decodeRune`, `toText`, `unquoteChar`, `unquote`.
Key theorems: `toText_encode`, `unquote_quoted`.
-/
import QuakeKube.Lib.Bytes

namespace Go
namespace Bytes

/-! ### Runes -/

/-- `utf8.ValidString`. -/
def validString (s : Bytes) : Bool := ByteArray.validateUTF8 ⟨s.toArray⟩

/-- What is valid is what some characters are encoded as. -/
theorem validString_iff {s : Bytes} :
    validString s = true ↔ ∃ t : Text, s = t.flatMap String.utf8EncodeChar := by
  rw [validString, ByteArray.validateUTF8_eq_true_iff]
  constructor
  · rintro ⟨t, ht⟩
    exact ⟨t, by simpa [List.utf8Encode, ByteArray.ext_iff] using ht⟩
  · rintro ⟨t, rfl⟩
    exact ⟨t, ByteArray.ext (by simp [List.utf8Encode])⟩

/-- `utf8.RuneError`. -/
def runeError : Char := Char.ofNat 0xfffd

/-- `utf8.DecodeRune`: the rune in front, and the bytes after it. -/
def decodeRune (s : Bytes) : Char × Bytes :=
  match ByteArray.utf8DecodeChar? ⟨s.toArray⟩ 0 with
  | some c => (c, s.drop c.utf8Size)
  | none => (runeError, s.drop 1)

/-- The characters of some bytes, a replacement character for each byte that starts none. -/
def runes : (fuel : ℕ) → Bytes → Text
  | 0, _ => []
  | _ + 1, [] => []
  | fuel + 1, b :: s => (decodeRune (b :: s)).1 :: runes fuel (decodeRune (b :: s)).2

/-- A string as its characters. -/
def toText (s : Bytes) : Text := runes s.length s

/-- A text in UTF-8. -/
def encode (t : Text) : Bytes := t.flatMap String.utf8EncodeChar

theorem decodeRune_encode (c : Char) (s : Bytes) : decodeRune (String.utf8EncodeChar c ++ s) = (c, s) := by
  have hdecode := ByteArray.utf8DecodeChar?_utf8EncodeChar_append (b := ⟨s.toArray⟩) (c := c)
  have hbytes : (String.utf8EncodeChar c).toByteArray ++ ⟨s.toArray⟩ =
      (⟨(String.utf8EncodeChar c ++ s).toArray⟩ : ByteArray) := ByteArray.ext (by simp)
  rw [hbytes] at hdecode
  rw [decodeRune, hdecode]
  dsimp only
  rw [← String.length_utf8EncodeChar c, List.drop_left]

theorem runes_encode (t : Text) {fuel : ℕ} (h : t.length ≤ fuel) : runes fuel (encode t) = t := by
  induction t generalizing fuel with
  | nil => cases fuel <;> rfl
  | cons c t ih =>
    obtain ⟨fuel, rfl⟩ := Nat.exists_eq_add_of_le'
      (Nat.le_trans (Nat.succ_le_succ (Nat.zero_le _)) h : 1 ≤ fuel)
    obtain ⟨b, s, hb⟩ := List.exists_cons_of_ne_nil (String.utf8EncodeChar_ne_nil (c := c))
    have hc := decodeRune_encode c (encode t)
    have henc : encode (c :: t) = String.utf8EncodeChar c ++ encode t := List.flatMap_cons
    rw [hb, List.cons_append] at hc
    rw [henc, hb, List.cons_append, runes, hc, ih (Nat.le_of_succ_le_succ h)]

/-- **A text is read back from its bytes.** -/
theorem toText_encode (t : Text) : toText (encode t) = t := by
  apply runes_encode
  induction t with
  | nil => exact Nat.zero_le _
  | cons c t ih =>
    have hpos : 0 < (String.utf8EncodeChar c).length := List.length_pos_iff.mpr String.utf8EncodeChar_ne_nil
    rw [encode, List.flatMap_cons, List.length_append, List.length_cons]
    rw [encode] at ih
    omega

/-! ### Escapes -/

/-- `unhex`. -/
def unhex (b : UInt8) : Option ℕ :=
  if 0x30 ≤ b ∧ b ≤ 0x39 then some (b.toNat - 0x30)
  else if 0x61 ≤ b ∧ b ≤ 0x66 then some (b.toNat - 0x61 + 10)
  else if 0x41 ≤ b ∧ b ≤ 0x46 then some (b.toNat - 0x41 + 10)
  else none

def octal (b : UInt8) : Option ℕ := if 0x30 ≤ b ∧ b ≤ 0x37 then some (b.toNat - 0x30) else none

/-- `n` digits of a base in front, added to `acc`. -/
def readDigits (digit : UInt8 → Option ℕ) (base : ℕ) : (n acc : ℕ) → Bytes → Option (ℕ × Bytes)
  | 0, acc, s => some (acc, s)
  | _ + 1, _, [] => none
  | n + 1, acc, b :: s => (digit b).bind fun d => readDigits digit base n (base * acc + d) s

/-- A byte a letter after a backslash stands for. -/
def escapeByte : UInt8 → Option UInt8
  | 0x61 => some 0x07
  | 0x62 => some 0x08
  | 0x66 => some 0x0c
  | 0x6e => some 0x0a
  | 0x72 => some 0x0d
  | 0x74 => some 0x09
  | 0x76 => some 0x0b
  | 0x5c => some 0x5c
  | _ => none

/-- The digits of `\u` and `\U`. -/
def escapeRuneWidth : UInt8 → Option ℕ
  | 0x75 => some 4
  | 0x55 => some 8
  | _ => none

/-- What follows a backslash, as it is appended, and the bytes after it. -/
def unescape (quote c : UInt8) (s : Bytes) : Option (Bytes × Bytes) :=
  match escapeByte c, escapeRuneWidth c with
  | some b, _ => some ([b], s)
  | none, some width => (readDigits unhex 16 width 0 s).bind fun (v, s) =>
      if v.isValidChar then some (String.utf8EncodeChar (Char.ofNat v), s) else none
  | none, none =>
    if c = 0x78 then (readDigits unhex 16 2 0 s).map fun (v, s) => ([UInt8.ofNat v], s)
    else if 0x30 ≤ c ∧ c ≤ 0x37 then (readDigits octal 8 2 (c.toNat - 0x30) s).bind fun (v, s) =>
      if v ≤ 255 then some ([UInt8.ofNat v], s) else none
    else if c = 0x27 ∨ c = 0x22 then (if c = quote then some ([c], s) else none)
    else none

/-- `strconv.UnquoteChar`: what the first character appends, and the bytes after it. -/
def unquoteChar (quote : UInt8) : Bytes → Option (Bytes × Bytes)
  | [] => none
  | c :: s =>
    if c = quote then none
    else if 0x80 ≤ c then
      let (r, rest) := decodeRune (c :: s)
      some (String.utf8EncodeChar r, rest)
    else if c ≠ 0x5c then some ([c], s)
    else match s with
      | [] => none
      | e :: s => unescape quote e s

/-! ### Strings -/

/-- The characters of a quoted string up to its closing quote, and the bytes after
that; a single-quoted one has one character. The fuel bounds their number. -/
def unquoteChars (quote : UInt8) : (fuel : ℕ) → Bytes → Option (Bytes × Bytes)
  | 0, _ => none
  | _ + 1, [] => none
  | fuel + 1, c :: s =>
    if c = quote then some ([], s)
    else if c = 0x0a then none
    else match unquoteChar quote (c :: s) with
      | none => none
      | some (out, rest) =>
        if quote = 0x27 then match rest with
          | q :: rest => if q = quote then some (out, rest) else none
          | [] => none
        else (unquoteChars quote fuel rest).map fun (more, rest) => (out ++ more, rest)

/-- What stands between single quotes is one rune. -/
def oneRune (body : Bytes) : Bool :=
  let (r, rest) := decodeRune body
  rest.isEmpty && (r ≠ runeError || body.length - rest.length ≠ 1)

/-- `strconv.unquote`: the string in front, and the bytes after it. -/
def unquotePrefix : Bytes → Option (Bytes × Bytes)
  | [] => none
  | quote :: s => match cut quote s with
    | none => none
    | some (body, after) =>
      if quote = 0x60 then some (body.filter (· ≠ 0x0d), after)
      else if quote = 0x22 ∨ quote = 0x27 then
        -- a string without escapes is taken as it is
        if 0x5c ∉ body ∧ 0x0a ∉ body ∧ (if quote = 0x22 then validString body else oneRune body) then
          some (body, after)
        else unquoteChars quote (s.length + 1) s
      else none

/-- `strconv.Unquote`. -/
def unquote (s : Bytes) : Option Bytes :=
  match unquotePrefix s with
  | some (out, []) => some out
  | _ => none

/-- **What needs no escape is read back from between its quotes.** -/
theorem unquote_quoted {s : Bytes} (hq : 0x22 ∉ s) (hb : 0x5c ∉ s) (hn : 0x0a ∉ s)
    (hv : validString s = true) :
    unquote (0x22 :: s ++ [0x22]) = some s := by
  have hp : unquotePrefix (0x22 :: (s ++ [0x22])) = some (s, []) := by
    simp [unquotePrefix, cut_append hq [], hb, hn, hv]
  simp [unquote, hp]

end Bytes
end Go
