/-
# Block documents

The part of YAML 1.1 that line-by-line writers use, as go-yaml reads it: block
mappings and sequences by indentation, plain and double-quoted scalars on one
line, comments. A text is cut into tokens with their columns (`tokens`), and the
tokens are nested by column (`parse`). Flow collections, anchors, tags, block
scalars, scalars over several lines, document markers and line breaks other than
the newline are not read: to go-yaml each of these stands for something else than
the characters written. What plain scalars are numbers or times, past the
decimal integers, is a `Numbers`.

Key definitions: `Node`, `resolve`, `tokens`, `parse`, `load`.
-/
import QuakeKube.Lib.Quote

namespace Yaml

open Go

/-! ### Values -/

/-- A value of a document. `other` is a scalar that is a number or a time, but
no decimal integer. -/
inductive Node where
  | null
  | bool (b : Bool)
  | int (z : ℤ)
  | str (t : Text)
  | other (t : Text)
  | seq (items : List Node)
  | map (entries : List (Text × Node))

/-- The plain scalars read as a float, a time or an integer not written in plain
decimal: they begin as a number does, and no `m` or `s` is in them. -/
structure Numbers where
  isOther : Text → Bool
  head : ∀ t, isOther t = true → ∃ c s, t = c :: s ∧ (c.isDigit = true ∨ c = '+' ∨ c = '-' ∨ c = '.')
  no_unit : ∀ t, isOther t = true → 'm' ∉ t ∧ 's' ∉ t

/-- No number but the decimal integers. -/
def Numbers.none : Numbers := ⟨fun _ => false, by simp, by simp⟩

def nullWords : List Text := [[], txt "~", txt "null", txt "Null", txt "NULL"]

def trueWords : List Text :=
  [txt "y", txt "Y", txt "yes", txt "Yes", txt "YES", txt "true", txt "True", txt "TRUE",
    txt "on", txt "On", txt "ON"]

def falseWords : List Text :=
  [txt "n", txt "N", txt "no", txt "No", txt "NO", txt "false", txt "False", txt "FALSE",
    txt "off", txt "Off", txt "OFF"]

/-- A 64-bit integer as `%d` writes it. -/
def decimal (t : Text) : Option ℤ :=
  match parseInt t with
  | some z => if intText z = t ∧ -2 ^ 63 ≤ z ∧ z < 2 ^ 63 then some z else none
  | none => none

/-- The value of a plain scalar. -/
def resolve (N : Numbers) (t : Text) : Node :=
  if t ∈ nullWords then .null
  else if t ∈ trueWords then .bool true
  else if t ∈ falseWords then .bool false
  else match decimal t with
    | some z => .int z
    | none => if N.isOther t then .other t else .str t

/-- The value of a key; of several entries with one key, the last counts. -/
def lookup (k : Text) : List (Text × Node) → Option Node
  | [] => none
  | (k', v) :: es => match lookup k es with
    | some w => some w
    | none => if k = k' then some v else none

theorem lookup_append (k : Text) (es fs : List (Text × Node)) :
    lookup k (es ++ fs) = (lookup k fs).or (lookup k es) := by
  induction es with
  | nil =>
    rw [List.nil_append]
    cases lookup k fs <;> rfl
  | cons e es ih =>
    obtain ⟨k', v⟩ := e
    rw [List.cons_append, lookup, ih, lookup]
    cases lookup k fs <;> cases lookup k es <;> rfl

/-! ### Tokens -/

/-- A scalar as it is written. -/
inductive Scalar where
  | plain (t : Text)
  | quoted (t : Text)
deriving DecidableEq

def Scalar.text : Scalar → Text
  | .plain t => t
  | .quoted t => t

def Scalar.node (N : Numbers) : Scalar → Node
  | .plain t => resolve N t
  | .quoted t => .str t

inductive Lexeme where
  | dash
  | key (k : Text)
  | scalar (s : Scalar)
deriving DecidableEq

structure Tok where
  col : ℕ
  lex : Lexeme
deriving DecidableEq

/-- The characters a document may hold. -/
def allowed (c : Char) : Bool :=
  decide (c.toNat = 0x09 ∨ (0x20 ≤ c.toNat ∧ c.toNat ≤ 0x7e) ∨ (0xa0 ≤ c.toNat ∧ c.toNat ≤ 0xd7ff) ∨
    (0xe000 ≤ c.toNat ∧ c.toNat ≤ 0xfffd) ∨ 0x10000 ≤ c.toNat) &&
  decide (c.toNat ≠ 0x2028 ∧ c.toNat ≠ 0x2029)

def isBlank (c : Char) : Bool := c == ' ' || c == '\t'

/-- At a blank or at the end of the line. -/
def atBlank : Text → Bool
  | [] => true
  | c :: _ => isBlank c

/-- A plain scalar up to `: `, ` #` or the end of the line. -/
def plainRun : Text → Text × Text
  | [] => ([], [])
  | c :: s =>
    if (c = ':' ∧ atBlank s = true) ∨ (isBlank c = true ∧ s.head? = some '#') then ([], c :: s)
    else (c :: (plainRun s).1, (plainRun s).2)

/-- The characters no plain scalar begins with. -/
def indicators : List Char :=
  ['-', '?', ':', ',', '[', ']', '{', '}', '#', '&', '*', '!', '|', '>', '\'', '"', '%', '@', '`']

/-- A plain scalar begins here. -/
def plainStart : Text → Bool
  | [] => false
  | c :: s => (!isBlank c && decide (c ∉ indicators)) ||
    (decide (c ∈ ['-', '?', ':']) && !atBlank s)

def lexScalar : Text → Option (Scalar × Text)
  | '"' :: s => (readQuoted s).map fun (t, r) => (.quoted t, r)
  | s => if plainStart s then
      some (.plain ((plainRun s).1.rdropWhile isBlank), (plainRun s).2)
    else none

/-- Nothing but a comment is left of the line. -/
def atEnd (s : Text) : Bool :=
  match s.dropWhile isBlank with
  | [] => true
  | c :: _ => c == '#'

/-- What follows a key and its colon. -/
def lexValue (col : ℕ) (s : Text) : Option (List Tok) :=
  if atEnd s then some []
  else match lexScalar (s.dropWhile isBlank) with
    | some (v, r) => if atEnd r then some [⟨col, .scalar v⟩] else none
    | none => none

/-- A scalar, or a key with its value. -/
def lexEntry (col : ℕ) (s : Text) : Option (List Tok) :=
  match lexScalar s with
  | none => none
  | some (v, r) =>
    if atEnd r then some [⟨col, .scalar v⟩]
    else match r.dropWhile isBlank with
      | ':' :: r' => if atBlank r' then (lexValue (col + 1) r').map (⟨col, .key v.text⟩ :: ·) else none
      | _ => none

/-- A line from the column `col` on. -/
def lexFrom : (fuel col : ℕ) → Text → Option (List Tok)
  | 0, _, _ => none
  | fuel + 1, col, s =>
    let n := (s.takeWhile (· == ' ')).length
    match s.dropWhile (· == ' ') with
    | [] => some []
    | '#' :: _ => some []
    | '-' :: r =>
      if atBlank r then (lexFrom fuel (col + n + 1) r).map (⟨col + n, .dash⟩ :: ·)
      else lexEntry (col + n) ('-' :: r)
    | r => lexEntry (col + n) r

/-- `---` and `...` at the beginning of a line. -/
def isMarker (s : Text) : Bool :=
  (hasPrefix s ['-', '-', '-'] || hasPrefix s ['.', '.', '.']) && atBlank (s.drop 3)

/-- The byte order mark, which is passed over at the beginning of a line. -/
def bom : Char := Char.ofNat 0xfeff

def lexLine (s : Text) : Option (List Tok) :=
  if s.all allowed && !isMarker s then
    if s.head? = some bom then lexFrom s.length 1 s.tail else lexFrom (s.length + 1) 0 s
  else none

def tokens (s : Text) : Option (List Tok) := ((splitLines s).mapM lexLine).map List.flatten

/-! ### Nesting -/

/-- The tokens before the first one that is not inside, and each such one with
the tokens inside it. -/
def split (inside : Tok → Bool) : List Tok → List Tok × List (Tok × List Tok)
  | [] => ([], [])
  | t :: ts =>
    if inside t then (t :: (split inside ts).1, (split inside ts).2)
    else ([], (t, (split inside ts).1) :: (split inside ts).2)

/-- Below an item of a sequence at `col`. -/
def inItem (col : ℕ) (t : Tok) : Bool := decide (col < t.col)

/-- Below an entry of a mapping at `col`; a sequence may stand under its key. -/
def inEntry (col : ℕ) (t : Tok) : Bool := decide (col < t.col ∨ (t.col = col ∧ t.lex = .dash))

/-- An item at `col`, its value read by `f`. -/
def itemOf (f : List Tok → Option Node) (col : ℕ) : Tok × List Tok → Option Node
  | (⟨c, .dash⟩, b) => if c = col then f b else none
  | _ => none

/-- An entry at `col`, its value read by `f`. -/
def entryOf (f : List Tok → Option Node) (col : ℕ) : Tok × List Tok → Option (Text × Node)
  | (⟨c, .key k⟩, b) => if c = col then (f b).map (k, ·) else none
  | _ => none

/-- The value of a block of tokens, nested less than `fuel` deep. -/
def parse (N : Numbers) : (fuel : ℕ) → List Tok → Option Node
  | 0, _ => none
  | _ + 1, [] => some .null
  | fuel + 1, t :: ts => match t.lex with
    | .scalar s => if ts = [] then some (s.node N) else none
    | .dash => ((split (inItem t.col) (t :: ts)).2.mapM (itemOf (parse N fuel) t.col)).map .seq
    | .key _ => ((split (inEntry t.col) (t :: ts)).2.mapM (entryOf (parse N fuel) t.col)).map .map

/-- The document of a text. -/
def load (N : Numbers) (s : Text) : Option Node :=
  (tokens s).bind fun ts => parse N (ts.length + 1) ts

end Yaml
