/-
# Writing block documents

What a program that writes YAML line by line has to know: a text of entries
(`WritesEntries`) or items (`WritesItems`) composes as the text does, and is read
as the mapping or sequence of its values.

Key definitions: `Reads`, `PlainWord`, `IsKey`, `WritesEntries`, `WritesItems`.
Key theorems: `Entries.parses`, `Items.parses`, `WritesEntries.append`, `WritesEntries.load`.
-/
import QuakeKube.Lib.Duration
import QuakeKube.Lib.Yaml

namespace Yaml

open Go

/-! ### Lexing what a writer writes -/

/-- The lines before and after a newline are read on their own. -/
theorem tokens_newline (a b : Text) :
    tokens (a ++ '\n' :: b) = (tokens a).bind fun ts => (tokens b).map (ts ++ ·) := by
  simp only [tokens, splitLines_newline, List.mapM_append]
  cases (splitLines a).mapM lexLine <;> cases (splitLines b).mapM lexLine <;> simp

/-- The text gives these tokens, whatever follows. -/
def Lexes (s : Text) (ts : List Tok) : Prop := ∀ r, tokens (s ++ r) = (tokens r).map (ts ++ ·)

theorem Lexes.nil : Lexes [] [] := fun r => by
  cases h : tokens r <;> simp [h]

theorem Lexes.append {s s' : Text} {ts ts' : List Tok} (h : Lexes s ts) (h' : Lexes s' ts') :
    Lexes (s ++ s') (ts ++ ts') := fun r => by
  rw [List.append_assoc, h, h']
  cases tokens r <;> simp

theorem Lexes.line {l : Text} {ts : List Tok} (hn : '\n' ∉ l) (h : lexLine l = some ts) :
    Lexes (l ++ ['\n']) ts := fun r => by
  have hsplit : splitLines (l ++ ['\n'] ++ r) = l :: splitLines r := by
    rw [List.append_assoc]
    exact splitLines_line hn r
  unfold tokens
  rw [hsplit, List.mapM_cons, h]
  cases (splitLines r).mapM lexLine <;> simp

theorem Lexes.tokens {s : Text} {ts : List Tok} (h : Lexes s ts) : tokens s = some ts := by
  have h' := h []
  rw [List.append_nil] at h'
  rw [h', show Yaml.tokens [] = some [] from rfl]
  simp

/-! ### Scalars and lines -/

theorem newline_not_mem {l : Text} (h : l.all allowed = true) : '\n' ∉ l := fun hn => by
  have := List.all_eq_true.mp h _ hn
  exact absurd this (by decide)

/-- A text that stands for this scalar when it is all the value there is. -/
structure Reads (v : Text) (sc : Scalar) : Prop where
  allowed : v.all allowed = true
  lex : lexScalar v = some (sc, [])
  start : ∃ c s, v = c :: s ∧ isBlank c = false ∧ c ≠ '#'

theorem allowed_of_isPrint (P : PrintTable) {c : Char} (h : P.isPrint c = true) : Yaml.allowed c = true := by
  obtain ⟨h1, h2, h3, h4, h5, h6, h7⟩ := P.printable c h
  have hv : c.toNat < 0xd800 ∨ 0xdfff < c.toNat := by
    rcases c.valid with hv | ⟨hv, -⟩
    · exact .inl hv
    · exact .inr hv
  have hok : (c.toNat = 0x09 ∨ (0x20 ≤ c.toNat ∧ c.toNat ≤ 0x7e) ∨ (0xa0 ≤ c.toNat ∧ c.toNat ≤ 0xd7ff) ∨
      (0xe000 ≤ c.toNat ∧ c.toNat ≤ 0xfffd) ∨ 0x10000 ≤ c.toNat) := by omega
  unfold Yaml.allowed
  rw [decide_eq_true hok, decide_eq_true ⟨h3, h4⟩]
  rfl

/-- What Go quotes stands for the text quoted. -/
theorem Reads.quote (P : PrintTable) (t : Text) : Reads (quote P t) (.quoted t) where
  allowed := List.all_eq_true.mpr fun c hc => allowed_of_isPrint P (isPrint_quote P t c hc)
  lex := by
    have h := readQuoted_quote P t []
    rw [List.append_nil] at h
    show (readQuoted (Go.quote P t).tail).map _ = _
    rw [h]
    rfl
  start := ⟨'"', (Go.quote P t).tail, rfl, by decide, by decide⟩

/-- A text that is a plain scalar wherever it stands. -/
structure PlainWord (v : Text) : Prop where
  start : plainStart v = true
  chars : ∀ c ∈ v, Yaml.allowed c = true ∧ isBlank c = false ∧ c ≠ ':'

theorem plainRun_append {a : Text} (h : ∀ c ∈ a, isBlank c = false ∧ c ≠ ':') (r : Text) :
    plainRun (a ++ r) = (a ++ (plainRun r).1, (plainRun r).2) := by
  induction a with
  | nil => rfl
  | cons c a ih =>
    have hc : ¬ ((c = ':' ∧ atBlank (a ++ r) = true) ∨ (isBlank c = true ∧ (a ++ r).head? = some '#')) := by
      obtain ⟨hb, hne⟩ := h c List.mem_cons_self
      rintro (⟨hc, -⟩ | ⟨hc, -⟩)
      · exact hne hc
      · rw [hb] at hc
        exact absurd hc (by decide)
    rw [List.cons_append, plainRun, if_neg hc, ih fun d hd => h d (List.mem_cons_of_mem _ hd)]
    rfl

theorem rdropWhile_of_forall {p : Char → Bool} {a : Text} (h : ∀ c ∈ a, p c = false) : a.rdropWhile p = a := by
  rw [List.rdropWhile_eq_self_iff]
  intro ha
  rw [h _ (List.getLast_mem ha)]
  decide

theorem PlainWord.head {v : Text} (h : PlainWord v) :
    ∃ c s, v = c :: s ∧ isBlank c = false ∧ c ≠ '#' ∧ c ≠ '"' := by
  have hs := h.start
  cases v with
  | nil => exact absurd hs (by decide)
  | cons c s =>
    refine ⟨c, s, rfl, (h.chars c List.mem_cons_self).2.1, ?_, ?_⟩
    · rintro rfl
      simp [plainStart, indicators] at hs
    · rintro rfl
      simp [plainStart, indicators] at hs

/-- A plain word is scanned up to the end of the line or the colon of a key. -/
theorem PlainWord.lexScalar {v : Text} (h : PlainWord v) {r : Text} (hr : (plainRun r).1 = [])
    (hr' : (plainRun r).2 = r) (hs : plainStart (v ++ r) = true) :
    Yaml.lexScalar (v ++ r) = some (.plain v, r) := by
  obtain ⟨c, s, rfl, -, -, hq⟩ := h.head
  have hrun := plainRun_append (a := c :: s) (fun d hd => (h.chars d hd).2) r
  have hdrop := rdropWhile_of_forall (p := isBlank) fun d hd => (h.chars d hd).2.1
  rw [hr, hr', List.append_nil] at hrun
  rw [List.cons_append] at hs hrun ⊢
  unfold Yaml.lexScalar
  split
  · rename_i heq
    exact absurd (List.cons.inj heq).1 hq
  · rw [if_pos hs, hrun, hdrop]

/-- A plain word stands for itself. -/
theorem PlainWord.reads {v : Text} (h : PlainWord v) : Reads v (.plain v) where
  allowed := List.all_eq_true.mpr fun c hc => (h.chars c hc).1
  lex := by
    have hl := h.lexScalar (r := []) rfl rfl (by rw [List.append_nil]; exact h.start)
    rwa [List.append_nil] at hl
  start := by
    obtain ⟨c, s, hv, hb, hh, -⟩ := h.head
    exact ⟨c, s, hv, hb, hh⟩

/-- A key: letters only. -/
structure IsKey (k : Text) : Prop where
  ne_nil : k ≠ []
  letters : ∀ c ∈ k, c.isAlpha = true

instance (k : Text) : Decidable (IsKey k) :=
  decidable_of_iff (k ≠ [] ∧ ∀ c ∈ k, c.isAlpha = true) ⟨fun h => ⟨h.1, h.2⟩, fun h => ⟨h.1, h.2⟩⟩

/-- No indicator passes the test. -/
theorem not_mem_indicators {p : Char → Bool} {c : Char} (h : p c = true)
    (hall : ∀ d ∈ indicators, p d = false) : c ∉ indicators :=
  fun hc => ne_of_test h (hall c hc) rfl

theorem isBlank_eq_false {p : Char → Bool} {c : Char} (h : p c = true) (h1 : p ' ' = false)
    (h2 : p '\t' = false) : isBlank c = false := by
  simp [isBlank, ne_of_test h h1, ne_of_test h h2]

/-- A key is a plain word, and remains one whatever follows. -/
theorem IsKey.plainStart {k : Text} (h : IsKey k) (r : Text) : plainStart (k ++ r) = true := by
  cases k with
  | nil => exact absurd rfl h.ne_nil
  | cons c k =>
    have hc := h.letters c List.mem_cons_self
    simp [Yaml.plainStart, isBlank_eq_false hc rfl rfl, not_mem_indicators hc (by decide)]

theorem IsKey.plainWord {k : Text} (h : IsKey k) : PlainWord k where
  start := by
    have := h.plainStart []
    rwa [List.append_nil] at this
  chars c hc := by
    have ha := h.letters c hc
    have hr := isAlpha_range ha
    refine ⟨?_, isBlank_eq_false ha rfl rfl, ne_of_test ha rfl⟩
    unfold Yaml.allowed
    rw [decide_eq_true (by omega), decide_eq_true (by omega)]
    rfl

theorem IsKey.head {k : Text} (h : IsKey k) : ∃ c s, k = c :: s ∧ c.isAlpha = true := by
  cases k with
  | nil => exact absurd rfl h.ne_nil
  | cons c s => exact ⟨c, s, rfl, h.letters c List.mem_cons_self⟩

theorem lexScalar_key {k : Text} (h : IsKey k) {r : Text} (hr : atBlank r = true) :
    lexScalar (k ++ ':' :: r) = some (.plain k, ':' :: r) := by
  have hrun : plainRun (':' :: r) = ([], ':' :: r) := by
    rw [plainRun, if_pos (.inl ⟨rfl, hr⟩)]
  apply h.plainWord.lexScalar
  · rw [hrun]
  · rw [hrun]
  · exact h.plainStart _

theorem lexEntry_key {k : Text} (h : IsKey k) {r : Text} (hr : atBlank r = true) (col : ℕ) :
    lexEntry col (k ++ ':' :: r) = (lexValue (col + 1) r).map (⟨col, .key k⟩ :: ·) := by
  have hend : atEnd (':' :: r) = false := rfl
  have hdrop : (':' :: r).dropWhile isBlank = ':' :: r := rfl
  unfold lexEntry
  rw [lexScalar_key h hr]
  simp only [hend, hdrop, if_pos hr]
  rfl

theorem Reads.dropWhile {v : Text} {sc : Scalar} (h : Reads v sc) : v.dropWhile isBlank = v := by
  obtain ⟨c, s, rfl, hb, -⟩ := h.start
  rw [List.dropWhile_cons, hb]
  rfl

theorem Reads.atEnd {v : Text} {sc : Scalar} (h : Reads v sc) : Yaml.atEnd v = false := by
  unfold Yaml.atEnd
  rw [h.dropWhile]
  obtain ⟨c, s, rfl, -, hh⟩ := h.start
  simpa using hh

theorem Reads.lexValue {v : Text} {sc : Scalar} (h : Reads v sc) (col : ℕ) :
    Yaml.lexValue col (' ' :: v) = some [⟨col, .scalar sc⟩] := by
  have hdrop : (' ' :: v).dropWhile isBlank = v := h.dropWhile
  have hend : Yaml.atEnd (' ' :: v) = false := by
    have := h.atEnd
    unfold Yaml.atEnd at this ⊢
    rw [h.dropWhile] at this
    rw [hdrop, this]
  unfold Yaml.lexValue
  rw [hend, hdrop, h.lex]
  rfl

/-- `i` blanks. -/
def spaces (i : ℕ) : Text := List.replicate i ' '

theorem takeWhile_spaces (i : ℕ) {c : Char} (hc : c ≠ ' ') (s : Text) :
    ((spaces i ++ c :: s).takeWhile (· == ' ')).length = i := by
  rw [takeWhile_append_stop]
  · exact List.length_replicate
  · intro d hd
    rw [List.eq_of_mem_replicate hd]
    rfl
  · intro d hd
    cases hd
    simpa using hc

theorem dropWhile_spaces (i : ℕ) {c : Char} (hc : c ≠ ' ') (s : Text) :
    (spaces i ++ c :: s).dropWhile (· == ' ') = c :: s := by
  apply dropWhile_append_stop
  · intro d hd
    rw [List.eq_of_mem_replicate hd]
    rfl
  · intro d hd
    cases hd
    simpa using hc

/-- A line that begins with a letter or a quote is an entry. -/
theorem lexFrom_entry {c : Char} (h : c ≠ ' ' ∧ c ≠ '#' ∧ c ≠ '-') (fuel col i : ℕ) (s : Text) :
    lexFrom (fuel + 1) col (spaces i ++ c :: s) = lexEntry (col + i) (c :: s) := by
  obtain ⟨hb, hh, hd⟩ := h
  unfold lexFrom
  simp only [takeWhile_spaces i hb, dropWhile_spaces i hb]
  split
  · simp_all
  · simp_all
  · simp_all
  · rfl

theorem lexFrom_dash (fuel col i : ℕ) (s : Text) :
    lexFrom (fuel + 1) col (spaces i ++ '-' :: ' ' :: s) =
      (lexFrom fuel (col + i + 1) (' ' :: s)).map (⟨col + i, .dash⟩ :: ·) := by
  have hb : ('-' : Char) ≠ ' ' := by decide
  rw [lexFrom]
  simp only [takeWhile_spaces i hb, dropWhile_spaces i hb]
  rfl

theorem isMarker_eq_false {c d : Char} (h : (c ≠ '-' ∧ c ≠ '.') ∨ (d ≠ '-' ∧ d ≠ '.')) (s : Text) :
    isMarker (c :: d :: s) = false := by
  have h1 : hasPrefix (c :: d :: s) ['-', '-', '-'] = false := by
    simp only [hasPrefix, List.cons_prefix_cons, decide_eq_false_iff_not]
    rintro ⟨rfl, rfl, -⟩
    simp at h
  have h2 : hasPrefix (c :: d :: s) ['.', '.', '.'] = false := by
    simp only [hasPrefix, List.cons_prefix_cons, decide_eq_false_iff_not]
    rintro ⟨rfl, rfl, -⟩
    simp at h
  rw [isMarker, h1, h2]
  rfl

theorem isMarker_spaces {i : ℕ} {c d : Char} (h : (c ≠ '-' ∧ c ≠ '.') ∨ (d ≠ '-' ∧ d ≠ '.')) (s : Text) :
    isMarker (spaces i ++ c :: d :: s) = false := by
  rcases i with - | i
  · exact isMarker_eq_false h s
  · rcases i with - | i <;> exact isMarker_eq_false (.inl (by decide)) _

theorem allowed_spaces (i : ℕ) : (spaces i).all allowed = true := by
  apply List.all_eq_true.mpr
  intro c hc
  rw [List.eq_of_mem_replicate hc]
  rfl

theorem lexLine_eq {s : Text} (ha : s.all allowed = true) (hm : isMarker s = false)
    (hb : s.head? ≠ some bom) : lexLine s = lexFrom (s.length + 1) 0 s := by
  rw [lexLine, ha, hm]
  exact if_neg hb

theorem head?_spaces {i : ℕ} {c : Char} (hc : c ≠ bom) (s : Text) : (spaces i ++ c :: s).head? ≠ some bom := by
  rcases i with - | i
  · exact fun h => hc (Option.some.inj h)
  · have hblank : ' ' ≠ bom := by decide
    exact fun h => hblank (Option.some.inj h)

section Lines

variable {i : ℕ} {k v : Text} {sc : Scalar}

theorem IsKey.allowed (hk : IsKey k) : k.all Yaml.allowed = true := hk.plainWord.reads.allowed

theorem IsKey.head_ne (hk : IsKey k) :
    ∃ c s, k = c :: s ∧ (c ≠ ' ' ∧ c ≠ '#' ∧ c ≠ '-') ∧ (c ≠ '-' ∧ c ≠ '.') := by
  obtain ⟨c, s, rfl, hc⟩ := hk.head
  exact ⟨c, s, rfl, ⟨ne_of_test hc rfl, ne_of_test hc rfl, ne_of_test hc rfl⟩, ne_of_test hc rfl,
    ne_of_test hc rfl⟩

theorem isMarker_key (hk : IsKey k) (s : Text) : isMarker (spaces i ++ (k ++ ':' :: s)) = false := by
  obtain ⟨c, t, rfl, -, hc⟩ := hk.head_ne
  rcases t with - | ⟨d, t⟩
  · exact isMarker_spaces (.inl hc) s
  · exact isMarker_spaces (.inl hc) (t ++ ':' :: s)

theorem lexFrom_key (hk : IsKey k) {r : Text} (hr : atBlank r = true) (fuel col : ℕ) :
    lexFrom (fuel + 1) col (spaces i ++ (k ++ ':' :: r)) =
      (lexValue (col + i + 1) r).map (⟨col + i, .key k⟩ :: ·) := by
  rw [← lexEntry_key hk hr]
  obtain ⟨c, t, rfl, hc, -⟩ := hk.head_ne
  exact lexFrom_entry hc fuel col i _

theorem head?_key (hk : IsKey k) (s : Text) : (spaces i ++ (k ++ s)).head? ≠ some bom := by
  obtain ⟨c, t, rfl, hc⟩ := hk.head
  exact head?_spaces (ne_of_test hc rfl) (t ++ s)

/-- `key: value` -/
theorem lexLine_field (hk : IsKey k) (hv : Reads v sc) :
    lexLine (spaces i ++ (k ++ ':' :: ' ' :: v)) = some [⟨i, .key k⟩, ⟨i + 1, .scalar sc⟩] := by
  rw [lexLine_eq, lexFrom_key hk rfl, hv.lexValue]
  · simp
  · simp [allowed_spaces, hk.allowed, hv.allowed, show Yaml.allowed ':' = true from rfl,
      show Yaml.allowed ' ' = true from rfl]
  · exact isMarker_key hk _
  · exact head?_key hk _

/-- `key:` -/
theorem lexLine_header (hk : IsKey k) : lexLine (spaces i ++ (k ++ [':'])) = some [⟨i, .key k⟩] := by
  rw [lexLine_eq, lexFrom_key hk rfl]
  · simp [lexValue, atEnd]
  · simp [allowed_spaces, hk.allowed, show Yaml.allowed ':' = true from rfl]
  · exact isMarker_key hk _
  · exact head?_key hk _

/-- `- key:`, and then whatever the rest of the line is. -/
theorem lexLine_itemKey (hk : IsKey k) {l : Text} (hl : l.all Yaml.allowed = true) :
    lexLine (spaces i ++ '-' :: ' ' :: (k ++ ':' :: ' ' :: l)) =
      (lexValue (i + 3) (' ' :: l)).map fun ts => ⟨i, .dash⟩ :: ⟨i + 2, .key k⟩ :: ts := by
  rw [lexLine_eq, lexFrom_dash]
  · have h := lexFrom_key (i := 1) hk (r := ' ' :: l) rfl
      ((spaces i ++ '-' :: ' ' :: (k ++ ':' :: ' ' :: l)).length - 1) (0 + i + 1)
    have hlen : (spaces i ++ '-' :: ' ' :: (k ++ ':' :: ' ' :: l)).length - 1 + 1 =
        (spaces i ++ '-' :: ' ' :: (k ++ ':' :: ' ' :: l)).length := by
      rw [List.length_append, List.length_cons]
      omega
    rw [hlen] at h
    rw [show ' ' :: (k ++ ':' :: ' ' :: l) = spaces 1 ++ (k ++ ':' :: ' ' :: l) from rfl] at h ⊢
    rw [h, Option.map_map, Nat.zero_add]
    rfl
  · simp [allowed_spaces, hk.allowed, hl, show Yaml.allowed ':' = true from rfl,
      show Yaml.allowed ' ' = true from rfl, show Yaml.allowed '-' = true from rfl]
  · exact isMarker_spaces (.inr ⟨by decide, by decide⟩) _
  · exact head?_spaces (by decide) _

/-- `- key: value` -/
theorem lexLine_itemField (hk : IsKey k) (hv : Reads v sc) :
    lexLine (spaces i ++ '-' :: ' ' :: (k ++ ':' :: ' ' :: v)) =
      some [⟨i, .dash⟩, ⟨i + 2, .key k⟩, ⟨i + 3, .scalar sc⟩] := by
  rw [lexLine_itemKey hk hv.allowed, hv.lexValue]
  rfl

/-- `- "value"` -/
theorem lexLine_item (hv : Reads v sc) (hd : v.head? ≠ some '-') :
    lexLine (spaces i ++ '-' :: ' ' :: v) = some [⟨i, .dash⟩, ⟨i + 2, .scalar sc⟩] := by
  rw [lexLine_eq, lexFrom_dash]
  · obtain ⟨c, s, rfl, hb, hh⟩ := hv.start
    have hc : c ≠ ' ' ∧ c ≠ '#' ∧ c ≠ '-' := by
      refine ⟨?_, hh, fun h => hd (by rw [h]; rfl)⟩
      rintro rfl
      exact absurd hb (by decide)
    have h := lexFrom_entry hc ((spaces i ++ '-' :: ' ' :: c :: s).length - 1) (0 + i + 1) 1 s
    have hlen : (spaces i ++ '-' :: ' ' :: c :: s).length - 1 + 1 =
        (spaces i ++ '-' :: ' ' :: c :: s).length := by
      rw [List.length_append, List.length_cons]
      omega
    rw [hlen] at h
    rw [show ' ' :: c :: s = spaces 1 ++ c :: s from rfl] at h ⊢
    rw [h, lexEntry, hv.lex]
    simp [atEnd, Nat.add_assoc]
  · simp [allowed_spaces, hv.allowed, show Yaml.allowed ' ' = true from rfl,
      show Yaml.allowed '-' = true from rfl]
  · exact isMarker_spaces (.inr ⟨by decide, by decide⟩) _
  · exact head?_spaces (by decide) _

end Lines

/-! ### Numbers, durations and words -/

/-- A text that begins as a number does, with digits and units in it. -/
def NumberLike (t : Text) : Prop :=
  ∃ c s, c.isDigit = true ∧ (t = c :: s ∨ t = '-' :: c :: s) ∧
    ∀ e ∈ c :: s, e.isDigit = true ∨ e ∈ unitChars

theorem numberChar {c : Char} (h : c.isDigit = true ∨ c ∈ unitChars) :
    allowed c = true ∧ isBlank c = false ∧ c ≠ ':' := by
  rcases h with h | h
  · obtain ⟨h1, h2⟩ := isDigit_range h
    refine ⟨?_, isBlank_eq_false h rfl rfl, ne_of_test h rfl⟩
    unfold allowed
    rw [decide_eq_true (by omega), decide_eq_true (by omega)]
    rfl
  · have hall : ∀ c ∈ unitChars, allowed c = true ∧ isBlank c = false ∧ c ≠ ':' := by decide
    exact hall c h

theorem NumberLike.plainWord {t : Text} (h : NumberLike t) : PlainWord t := by
  obtain ⟨c, s, hc, ht, hs⟩ := h
  have hblank := (numberChar (.inl hc)).2.1
  rcases ht with rfl | rfl
  · refine ⟨?_, fun e he => numberChar (hs e he)⟩
    simp [plainStart, hblank, not_mem_indicators hc (by decide)]
  · refine ⟨?_, fun e he => ?_⟩
    · simp [plainStart, atBlank, hblank]
    · rcases List.mem_cons.mp he with rfl | he
      · decide
      · exact numberChar (hs e he)

def words : List Text := nullWords ++ trueWords ++ falseWords

theorem NumberLike.not_mem_words {t : Text} (h : NumberLike t) : t ∉ words := by
  have hall : ∀ t ∈ words, ∀ c ∈ t.head?, c.isDigit = false ∧ c ≠ '-' := by with_unfolding_all decide
  obtain ⟨c, s, hc, ht, -⟩ := h
  intro hw
  rcases ht with rfl | rfl
  · exact ne_of_test hc (hall _ hw c rfl).1 rfl
  · exact (hall _ hw '-' rfl).2 rfl

theorem resolve_of_not_mem {t : Text} (h : t ∉ words) (N : Numbers) : resolve N t =
    match decimal t with
    | some z => .int z
    | none => if N.isOther t then .other t else .str t := by
  simp only [words, List.mem_append, not_or] at h
  obtain ⟨⟨h1, h2⟩, h3⟩ := h
  exact (if_neg h1).trans ((if_neg h2).trans (if_neg h3))

theorem numberLike_natText (n : ℕ) : ∃ c s, c.isDigit = true ∧ natText n = c :: s ∧
    ∀ e ∈ c :: s, e.isDigit = true ∨ e ∈ unitChars := by
  obtain ⟨c, s, h⟩ := List.exists_cons_of_ne_nil (natText_ne_nil n)
  have hd : ∀ e ∈ c :: s, e.isDigit = true := fun e he => by
    rw [← h] at he
    exact isDigit_of_mem_natText he
  exact ⟨c, s, hd c List.mem_cons_self, h, fun e he => .inl (hd e he)⟩

theorem numberLike_intText (z : ℤ) : NumberLike (intText z) := by
  cases z with
  | ofNat n =>
    obtain ⟨c, s, hc, h, hs⟩ := numberLike_natText n
    exact ⟨c, s, hc, .inl h, hs⟩
  | negSucc n =>
    obtain ⟨c, s, hc, h, hs⟩ := numberLike_natText (n + 1)
    exact ⟨c, s, hc, .inr (by rw [intText, h]), hs⟩

theorem numberLike_duration (d : Duration) : NumberLike d.text := by
  obtain ⟨c, s, hc, ht, hs, -⟩ := d.text_shape
  exact ⟨c, s, hc, ht, hs⟩

theorem decimal_intText {z : ℤ} (h : -2 ^ 63 ≤ z ∧ z < 2 ^ 63) : decimal (intText z) = some z := by
  rw [decimal, parseInt_intText]
  exact if_pos ⟨rfl, h⟩

theorem eq_of_decimal {t : Text} {z : ℤ} (h : decimal t = some z) : t = intText z := by
  unfold decimal at h
  split at h
  · split_ifs at h with hz
    cases h
    exact hz.1.symm
  · exact absurd h (by simp)

/-- An integer is read as itself. -/
theorem resolve_int {z : ℤ} (h : -2 ^ 63 ≤ z ∧ z < 2 ^ 63) (N : Numbers) : resolve N (intText z) = .int z := by
  rw [resolve_of_not_mem (numberLike_intText z).not_mem_words, decimal_intText h]

/-- What begins as a number and has a unit in it is a text. -/
theorem NumberLike.resolve {t : Text} (h : NumberLike t) (hu : 'm' ∈ t ∨ 's' ∈ t) (N : Numbers) :
    resolve N t = .str t := by
  have hdec : decimal t = none := by
    rcases hd : decimal t with _ | z
    · rfl
    · have hz : ∀ u ∈ t, u.isDigit = true ∨ u = '-' := by
        rw [eq_of_decimal hd]
        exact fun u hu => isDigit_of_mem_intText hu
      rcases hu with hu | hu
      · exact absurd (hz _ hu) (by decide)
      · exact absurd (hz _ hu) (by decide)
  have hother : N.isOther t = false := by
    rcases ho : N.isOther t with _ | _
    · rfl
    · obtain ⟨hm, hs⟩ := N.no_unit t ho
      rcases hu with hu | hu
      · exact absurd hu hm
      · exact absurd hu hs
  rw [resolve_of_not_mem h.not_mem_words, hdec, hother]
  rfl

theorem resolve_duration (d : Duration) (N : Numbers) : Yaml.resolve N d.text = .str d.text := by
  obtain ⟨-, -, -, -, -, hs⟩ := d.text_shape
  exact (numberLike_duration d).resolve (.inr hs) N

/-- A word that begins with a letter or an underscore is a text, a boolean or null. -/
theorem resolve_word {c : Char} {s : Text} (hc : c.isAlpha = true ∨ c = '_') (hw : c :: s ∉ words)
    (N : Numbers) : Yaml.resolve N (c :: s) = .str (c :: s) := by
  have hnum : ¬ (c.isDigit = true ∨ c = '+' ∨ c = '-' ∨ c = '.') := by
    rcases hc with hc | rfl
    · have hd : c.isDigit = false := by
        rcases hd : c.isDigit with _ | _
        · rfl
        · have h1 := isDigit_range hd
          have h2 := isAlpha_range hc
          omega
      rw [hd]
      simp [ne_of_test (d := '+') hc rfl, ne_of_test (d := '-') hc rfl, ne_of_test (d := '.') hc rfl]
    · decide
  have hdec : decimal (c :: s) = none := by
    rcases hd : decimal (c :: s) with _ | z
    · rfl
    · have hmem : c ∈ intText z := by
        rw [← eq_of_decimal hd]
        exact List.mem_cons_self
      rcases isDigit_of_mem_intText hmem with h | h
      · exact absurd (.inl h) hnum
      · exact absurd (.inr (.inr (.inl h))) hnum
  have hother : N.isOther (c :: s) = false := by
    rcases ho : N.isOther (c :: s) with _ | _
    · rfl
    · obtain ⟨c', s', heq, h⟩ := N.head _ ho
      rw [← (List.cons.inj heq).1] at h
      exact absurd h hnum
  rw [resolve_of_not_mem hw, hdec, hother]
  rfl

theorem IsKey.resolve {k : Text} (h : IsKey k) (hw : k ∉ words) (N : Numbers) : Yaml.resolve N k = .str k := by
  obtain ⟨c, s, rfl, hc⟩ := h.head
  exact resolve_word (.inl hc) hw N

/-! ### Nesting what a writer writes -/

theorem split_inside {inside : Tok → Bool} {b : List Tok} (h : ∀ t ∈ b, inside t = true) (ts : List Tok) :
    split inside (b ++ ts) = (b ++ (split inside ts).1, (split inside ts).2) := by
  induction b with
  | nil => rfl
  | cons t b ih =>
    rw [List.cons_append, split, if_pos (h t List.mem_cons_self),
      ih fun u hu => h u (List.mem_cons_of_mem _ hu)]
    rfl

/-- A head and what is inside it is one block. -/
theorem split_block {inside : Tok → Bool} {t : Tok} {b ts : List Tok} (ht : inside t = false)
    (hb : ∀ u ∈ b, inside u = true) (hts : (split inside ts).1 = []) :
    split inside (t :: (b ++ ts)) = ([], (t, b) :: (split inside ts).2) := by
  rw [split, ht, split_inside hb, hts, List.append_nil]
  rfl

/-- The tokens nest to this value. -/
def Parses (N : Numbers) (ts : List Tok) (v : Node) : Prop := ∀ n, ts.length < n → parse N n ts = some v

theorem load_eq {N : Numbers} {s : Text} {ts : List Tok} {v : Node} (h : Lexes s ts) (hp : Parses N ts v) :
    load N s = some v := by
  rw [load, h.tokens]
  exact hp _ (Nat.lt_succ_self _)

theorem Parses.null (N : Numbers) : Parses N [] .null := fun n hn => by
  obtain ⟨n, rfl⟩ : ∃ m, n = m + 1 := ⟨n - 1, by simp at hn; omega⟩
  rfl

theorem Parses.scalar (N : Numbers) (col : ℕ) (sc : Scalar) : Parses N [⟨col, .scalar sc⟩] (sc.node N) :=
  fun n hn => by
    obtain ⟨n, rfl⟩ : ∃ m, n = m + 1 := ⟨n - 1, by simp at hn; omega⟩
    rfl

/-- The tokens are entries of a mapping at `col`. -/
inductive Entries (N : Numbers) (col : ℕ) : List Tok → List (Text × Node) → Prop
  | nil : Entries N col [] []
  | cons {k : Text} {b ts : List Tok} {v : Node} {es : List (Text × Node)} :
      (∀ t ∈ b, col < t.col) → Parses N b v → Entries N col ts es →
      Entries N col (⟨col, .key k⟩ :: (b ++ ts)) ((k, v) :: es)

/-- The tokens are items of a sequence at `col`. -/
inductive Items (N : Numbers) (col : ℕ) : List Tok → List Node → Prop
  | nil : Items N col [] []
  | cons {b ts : List Tok} {v : Node} {vs : List Node} :
      (∀ t ∈ b, col < t.col) → Parses N b v → Items N col ts vs →
      Items N col (⟨col, .dash⟩ :: (b ++ ts)) (v :: vs)

variable {N : Numbers} {col : ℕ}

theorem Entries.single {k : Text} {b : List Tok} {v : Node} (hb : ∀ t ∈ b, col < t.col) (hv : Parses N b v) :
    Entries N col (⟨col, .key k⟩ :: b) [(k, v)] := by
  have h := Entries.cons (k := k) hb hv .nil
  rwa [List.append_nil] at h

theorem Items.single {b : List Tok} {v : Node} (hb : ∀ t ∈ b, col < t.col) (hv : Parses N b v) :
    Items N col (⟨col, .dash⟩ :: b) [v] := by
  have h := Items.cons hb hv .nil
  rwa [List.append_nil] at h

theorem Entries.append {ts ts' : List Tok} {es es' : List (Text × Node)} (h : Entries N col ts es)
    (h' : Entries N col ts' es') : Entries N col (ts ++ ts') (es ++ es') := by
  induction h with
  | nil => exact h'
  | cons hb hv _ ih =>
    rw [List.cons_append, List.append_assoc]
    exact .cons hb hv ih

theorem Items.append {ts ts' : List Tok} {vs vs' : List Node} (h : Items N col ts vs)
    (h' : Items N col ts' vs') : Items N col (ts ++ ts') (vs ++ vs') := by
  induction h with
  | nil => exact h'
  | cons hb hv _ ih =>
    rw [List.cons_append, List.append_assoc]
    exact .cons hb hv ih

theorem Entries.col_le {ts : List Tok} {es : List (Text × Node)} (h : Entries N col ts es) :
    ∀ t ∈ ts, col ≤ t.col := by
  induction h with
  | nil => simp
  | cons hb _ _ ih =>
    intro t ht
    rw [List.mem_cons, List.mem_append] at ht
    rcases ht with rfl | ht | ht
    · exact le_rfl
    · exact (hb t ht).le
    · exact ih t ht

theorem Items.col_le {ts : List Tok} {vs : List Node} (h : Items N col ts vs) : ∀ t ∈ ts, col ≤ t.col := by
  induction h with
  | nil => simp
  | cons hb _ _ ih =>
    intro t ht
    rw [List.mem_cons, List.mem_append] at ht
    rcases ht with rfl | ht | ht
    · exact le_rfl
    · exact (hb t ht).le
    · exact ih t ht

theorem Entries.split {ts : List Tok} {es : List (Text × Node)} (h : Entries N col ts es) {n : ℕ}
    (hn : ts.length ≤ n) : (split (inEntry col) ts).1 = [] ∧
      (split (inEntry col) ts).2.mapM (entryOf (parse N n) col) = some es := by
  induction h with
  | nil => exact ⟨rfl, rfl⟩
  | @cons k b ts v es hb hv _ ih =>
    rw [List.length_cons, List.length_append] at hn
    obtain ⟨h1, h2⟩ := ih (by omega)
    have hin : ∀ t ∈ b, inEntry col t = true := fun t ht => decide_eq_true (.inl (hb t ht))
    have hhead : inEntry col ⟨col, .key k⟩ = false := by simp [inEntry]
    rw [split_block hhead hin h1]
    refine ⟨rfl, ?_⟩
    rw [List.mapM_cons, h2, entryOf, if_pos rfl, hv n (by omega)]
    rfl

theorem Items.split {ts : List Tok} {vs : List Node} (h : Items N col ts vs) {n : ℕ}
    (hn : ts.length ≤ n) : (split (inItem col) ts).1 = [] ∧
      (split (inItem col) ts).2.mapM (itemOf (parse N n) col) = some vs := by
  induction h with
  | nil => exact ⟨rfl, rfl⟩
  | @cons b ts v vs hb hv _ ih =>
    rw [List.length_cons, List.length_append] at hn
    obtain ⟨h1, h2⟩ := ih (by omega)
    have hin : ∀ t ∈ b, inItem col t = true := fun t ht => decide_eq_true (hb t ht)
    have hhead : inItem col ⟨col, .dash⟩ = false := by simp [inItem]
    rw [split_block hhead hin h1]
    refine ⟨rfl, ?_⟩
    rw [List.mapM_cons, h2, itemOf, if_pos rfl, hv n (by omega)]
    rfl

/-- The value of a section: what is under its key. -/
def mapping (es : List (Text × Node)) : Node := if es.isEmpty then .null else .map es

/-- **Entries nest to their mapping.** -/
theorem Entries.parses {ts : List Tok} {es : List (Text × Node)} (h : Entries N col ts es) :
    Parses N ts (mapping es) := by
  cases h with
  | nil => exact Parses.null N
  | @cons k b ts v es hb hv hes =>
    intro n hn
    obtain ⟨n, rfl⟩ : ∃ m, n = m + 1 := ⟨n - 1, by rw [List.length_cons] at hn; omega⟩
    obtain ⟨-, h2⟩ := Entries.split (Entries.cons (k := k) hb hv hes) (n := n) (by omega)
    show Option.map Node.map ((Yaml.split (inEntry col) (⟨col, .key k⟩ :: (b ++ ts))).2.mapM _) = _
    rw [h2]
    rfl

/-- **Items nest to their sequence.** -/
theorem Items.parses {ts : List Tok} {vs : List Node} (h : Items N col ts vs) (hne : vs ≠ []) :
    Parses N ts (.seq vs) := by
  cases h with
  | nil => exact absurd rfl hne
  | @cons b ts v vs hb hv hvs =>
    intro n hn
    obtain ⟨n, rfl⟩ : ∃ m, n = m + 1 := ⟨n - 1, by rw [List.length_cons] at hn; omega⟩
    obtain ⟨-, h2⟩ := Items.split (Items.cons hb hv hvs) (n := n) (by omega)
    show Option.map Node.seq ((Yaml.split (inItem col) (⟨col, .dash⟩ :: (b ++ ts))).2.mapM _) = _
    rw [h2]
    rfl

/-! ### What a writer writes -/

/-- The text is lines with these entries of a mapping at `col`. -/
def WritesEntries (N : Numbers) (col : ℕ) (s : Text) (es : List (Text × Node)) : Prop :=
  ∃ ts, Lexes s ts ∧ Entries N col ts es

/-- The text is lines with these items of a sequence at `col`. -/
def WritesItems (N : Numbers) (col : ℕ) (s : Text) (vs : List Node) : Prop :=
  ∃ ts, Lexes s ts ∧ Items N col ts vs

section Writing

variable {s s' k v : Text} {sc : Scalar} {es es' : List (Text × Node)} {vs vs' : List Node} {i j : ℕ}

theorem WritesEntries.nil : WritesEntries N i [] [] := ⟨[], .nil, .nil⟩

theorem WritesItems.nil : WritesItems N i [] [] := ⟨[], .nil, .nil⟩

theorem WritesEntries.append (h : WritesEntries N i s es) (h' : WritesEntries N i s' es') :
    WritesEntries N i (s ++ s') (es ++ es') := by
  obtain ⟨ts, hl, he⟩ := h
  obtain ⟨ts', hl', he'⟩ := h'
  exact ⟨ts ++ ts', hl.append hl', he.append he'⟩

theorem WritesItems.append (h : WritesItems N i s vs) (h' : WritesItems N i s' vs') :
    WritesItems N i (s ++ s') (vs ++ vs') := by
  obtain ⟨ts, hl, he⟩ := h
  obtain ⟨ts', hl', he'⟩ := h'
  exact ⟨ts ++ ts', hl.append hl', he.append he'⟩

theorem WritesItems.flatMap {α : Type} {f : α → Text} {g : α → Node} {l : List α}
    (h : ∀ a ∈ l, WritesItems N i (f a) [g a]) : WritesItems N i (l.flatMap f) (l.map g) := by
  induction l with
  | nil => exact .nil
  | cons a l ih =>
    rw [List.flatMap_cons, List.map_cons]
    exact (h a List.mem_cons_self).append (ih fun b hb => h b (List.mem_cons_of_mem _ hb))

/-- `key: value` -/
theorem WritesEntries.field (hk : IsKey k) (hv : Reads v sc) :
    WritesEntries N i (spaces i ++ (k ++ ':' :: ' ' :: v) ++ ['\n']) [(k, sc.node N)] := by
  have hn : '\n' ∉ spaces i ++ (k ++ ':' :: ' ' :: v) := newline_not_mem (by
    simp [allowed_spaces, hk.allowed, hv.allowed, show Yaml.allowed ':' = true from rfl,
      show Yaml.allowed ' ' = true from rfl])
  refine ⟨_, Lexes.line hn (lexLine_field hk hv), ?_⟩
  exact .single (by simp) (Parses.scalar N _ sc)

/-- `key:` -/
theorem lexes_header (hk : IsKey k) : Lexes (spaces i ++ (k ++ [':']) ++ ['\n']) [⟨i, .key k⟩] := by
  have hn : '\n' ∉ spaces i ++ (k ++ [':']) := newline_not_mem (by
    simp [allowed_spaces, hk.allowed, show Yaml.allowed ':' = true from rfl])
  exact Lexes.line hn (lexLine_header hk)

/-- `key:` with entries under it. -/
theorem WritesEntries.section (hk : IsKey k) (h : WritesEntries N j s es) (hij : i < j) :
    WritesEntries N i (spaces i ++ (k ++ [':']) ++ ['\n'] ++ s) [(k, mapping es)] := by
  obtain ⟨ts, hl, he⟩ := h
  refine ⟨_, (lexes_header hk).append hl, ?_⟩
  have hcol : ∀ t ∈ ts, i < t.col := fun t ht => lt_of_lt_of_le hij (he.col_le t ht)
  exact .single hcol he.parses

/-- `key:` with items under it. -/
theorem WritesEntries.list (hk : IsKey k) (h : WritesItems N j s vs) (hne : vs ≠ []) (hij : i < j) :
    WritesEntries N i (spaces i ++ (k ++ [':']) ++ ['\n'] ++ s) [(k, .seq vs)] := by
  obtain ⟨ts, hl, he⟩ := h
  refine ⟨_, (lexes_header hk).append hl, ?_⟩
  have hcol : ∀ t ∈ ts, i < t.col := fun t ht => lt_of_lt_of_le hij (he.col_le t ht)
  exact .single hcol (he.parses hne)

/-- `- value` -/
theorem WritesItems.item (hv : Reads v sc) (hd : v.head? ≠ some '-') :
    WritesItems N i (spaces i ++ '-' :: ' ' :: v ++ ['\n']) [sc.node N] := by
  have hn : '\n' ∉ spaces i ++ '-' :: ' ' :: v := newline_not_mem (by
    simp [allowed_spaces, hv.allowed, show Yaml.allowed '-' = true from rfl,
      show Yaml.allowed ' ' = true from rfl])
  refine ⟨_, Lexes.line hn (lexLine_item hv hd), ?_⟩
  exact .single (by simp) (Parses.scalar N _ sc)

/-- `- key: value` with more entries below. -/
theorem WritesItems.mapping (hk : IsKey k) (hv : Reads v sc) (h : WritesEntries N (i + 2) s es) :
    WritesItems N i (spaces i ++ '-' :: ' ' :: (k ++ ':' :: ' ' :: v) ++ ['\n'] ++ s)
      [.map ((k, sc.node N) :: es)] := by
  obtain ⟨ts, hl, he⟩ := h
  have hn : '\n' ∉ spaces i ++ '-' :: ' ' :: (k ++ ':' :: ' ' :: v) := newline_not_mem (by
    simp [allowed_spaces, hk.allowed, hv.allowed, show Yaml.allowed ':' = true from rfl,
      show Yaml.allowed '-' = true from rfl, show Yaml.allowed ' ' = true from rfl])
  refine ⟨_, (Lexes.line hn (lexLine_itemField hk hv)).append hl, ?_⟩
  have hentries : Entries N (i + 2) (⟨i + 2, .key k⟩ :: ([⟨i + 3, .scalar sc⟩] ++ ts)) ((k, sc.node N) :: es) :=
    .cons (by simp) (Parses.scalar N _ sc) he
  have hcol : ∀ t ∈ (⟨i + 2, .key k⟩ :: ([⟨i + 3, .scalar sc⟩] ++ ts) : List Tok), i < t.col :=
    fun t ht => lt_of_lt_of_le (by omega) (hentries.col_le t ht)
  exact .single hcol hentries.parses

/-- **A text of entries is read as their mapping.** -/
theorem WritesEntries.load (h : WritesEntries N 0 s es) : load N s = some (Yaml.mapping es) := by
  obtain ⟨ts, hl, he⟩ := h
  exact load_eq hl he.parses

end Writing

end Yaml
