/-
# A text in a line of a script

What becomes of a text that is written at the end of a line: which commands it
adds (`extra`), and which words. A text between quotes with no quote in it is one
word. A text without quotes and semicolons is its words, and it is these words
with a blank between two if and only if it is spaced so and has no comment in it
(`Spaced.words`, `spaced_of_words`).

Key definitions: `groups`, `extra`, `Contained`, `Bare`, `Spaced`.
Key theorems: `commands_setting`, `lex_words`.
-/
import QuakeKube.Lib.Script
import Mathlib.Data.List.Chain

namespace Script

open Go

/-! ### The commands a text adds -/

/-- The commands of a text, also those without a word. -/
def groups (t : Text) : List Command := (splitLines t).flatMap fun l => group (lex (.bare []) l)

/-- The words of a text up to its first semicolon or line break. -/
def firstWords (t : Text) : Command := (groups t).headD []

/-- The commands a text has after these words. -/
def extra (t : Text) : List Command := (groups t).tail.filter (· ≠ [])

/-- A text that adds no command where it is written. -/
def Contained (t : Text) : Prop := extra t = []

instance (t : Text) : Decidable (Contained t) := decidable_of_iff (extra t = []) Iff.rfl

theorem commands_eq_filter (t : Text) : commands t = (groups t).filter (· ≠ []) := by
  rw [groups, List.filter_flatMap]
  rfl

theorem commands_newline (s r : Text) : commands (s ++ '\n' :: r) = commands s ++ commands r := by
  rw [commands, splitLines_newline, List.flatMap_append]
  rfl

theorem group_ne_nil (ps : List Piece) : group ps ≠ [] := by
  cases ps with
  | nil => exact List.cons_ne_nil _ _
  | cons p ps =>
    cases p with
    | semicolon => exact List.cons_ne_nil _ _
    | word w =>
      rw [group]
      split <;> exact List.cons_ne_nil _ _

theorem groups_eq {t l : Text} {ls : List Text} (h : splitLines t = l :: ls) :
    groups t = group (lex (.bare []) l) ++ ls.flatMap fun l => group (lex (.bare []) l) := by
  rw [groups, h, List.flatMap_cons]

theorem lex_word {w : Text} (h : BareWord w) (t : Text) :
    lex (.bare []) (w ++ ' ' :: t) = .word w :: lex (.bare []) t := by
  rw [lex_bare h.chars, List.append_nil, lex_blank, flush_reverse h.ne_nil]
  rfl

theorem BareWord.newline {w : Text} (h : BareWord w) : '\n' ∉ w := fun hc =>
  absurd (h.chars _ hc).1 (by decide)

/-- Two words at the beginning of a line. -/
theorem groups_words {a b : Text} (ha : BareWord a) (hb : BareWord b) (t : Text) :
    groups (a ++ ' ' :: (b ++ ' ' :: t)) = (a :: b :: firstWords t) :: (groups t).tail := by
  obtain ⟨l, ls, hl⟩ := List.exists_cons_of_ne_nil (splitLines_ne_nil t)
  obtain ⟨g, gs, hg⟩ := List.exists_cons_of_ne_nil (group_ne_nil (lex (.bare []) l))
  have hsplit : splitLines (a ++ ' ' :: (b ++ ' ' :: t)) = (a ++ ' ' :: (b ++ ' ' :: l)) :: ls := by
    have hpre : '\n' ∉ a ++ ' ' :: (b ++ [' ']) := by
      simp [ha.newline, hb.newline]
    have h := splitLines_append hpre hl
    simpa only [List.append_assoc, List.cons_append, List.nil_append] using h
  have hgroup : group (lex (.bare []) (a ++ ' ' :: (b ++ ' ' :: l))) = (a :: b :: g) :: gs := by
    rw [lex_word ha, lex_word hb, group, group, hg]
  rw [firstWords, groups_eq hsplit, groups_eq hl, hgroup, hg]
  rfl

/-- **A line with two words and a text**: one command, and what the text adds. -/
theorem commands_setting {a b : Text} (ha : BareWord a) (hb : BareWord b) (t r : Text) :
    commands (a ++ ' ' :: (b ++ ' ' :: t) ++ '\n' :: r) =
      (a :: b :: firstWords t) :: (extra t ++ commands r) := by
  rw [commands_newline, commands_eq_filter (a ++ ' ' :: (b ++ ' ' :: t)), groups_words ha hb,
    List.filter_cons_of_pos (by simp)]
  rfl

/-- A text on one line. -/
theorem groups_line {t : Text} (h : '\n' ∉ t) : groups t = group (lex (.bare []) t) := by
  rw [groups, splitLines_of_not_mem h, List.flatMap_cons]
  exact List.append_nil _

/-- Words add no command. -/
theorem groups_of_words {t : Text} (h : '\n' ∉ t) {ws : List Text} (hl : lex (.bare []) t = ws.map .word) :
    groups t = [ws] := by
  rw [groups_line h, hl, group_words]

theorem contained_of_words {t : Text} (h : '\n' ∉ t) {ws : List Text} (hl : lex (.bare []) t = ws.map .word) :
    Contained t := by
  rw [Contained, extra, groups_of_words h hl]
  rfl

theorem firstWords_of_words {t : Text} (h : '\n' ∉ t) {ws : List Text} (hl : lex (.bare []) t = ws.map .word) :
    firstWords t = ws := by
  rw [firstWords, groups_of_words h hl]
  rfl

/-- Between quotes there is one word. -/
theorem lex_quoted {t : Text} (h : '"' ∉ t) : lex (.bare []) ('"' :: (t ++ ['"'])) = [t].map .word :=
  (Pieces.quoted h).lex

/-! ### The words of a text without quotes -/

/-- Two characters a comment begins with. -/
def Opens (a b : Char) : Prop := a = '/' ∧ (b = '/' ∨ b = '*')

instance (a b : Char) : Decidable (Opens a b) := by unfold Opens; infer_instance

/-- A text that is one bare word between blanks. -/
structure Bare (w : Text) : Prop where
  ne_nil : w ≠ []
  chars : ∀ c ∈ w, 0x20 < c.toNat ∧ c ≠ '"' ∧ c ≠ ';'
  uncommented : w.IsChain fun a b => ¬ Opens a b

instance (w : Text) : Decidable (Bare w) :=
  decidable_of_iff (w ≠ [] ∧ (∀ c ∈ w, 0x20 < c.toNat ∧ c ≠ '"' ∧ c ≠ ';') ∧ w.IsChain fun a b => ¬ Opens a b)
    ⟨fun h => ⟨h.1, h.2.1, h.2.2⟩, fun h => ⟨h.1, h.2, h.3⟩⟩

/-- Words with one blank between two. -/
def Spaced (t : Text) : Prop := ∀ w ∈ t.splitOn ' ', Bare w

instance (t : Text) : Decidable (Spaced t) := List.decidableBAll _ _

/-- What holds where the scanner is, when there are no quotes: the word begun is
bare so far, and the next character does not open a comment with its last. -/
def Mode.Ok : Mode → Text → Prop
  | .bare acc, s => (∀ c ∈ acc, 0x20 < c.toNat ∧ c ≠ '"' ∧ c ≠ ';') ∧
      (acc.reverse.IsChain fun a b => ¬ Opens a b) ∧ ∀ a ∈ acc.head?, ∀ b ∈ s.head?, ¬ Opens a b
  | .quote _, _ => False
  | _, _ => True

theorem Mode.ok_start (s : Text) : Mode.Ok (.bare []) s :=
  ⟨fun _ h => absurd h List.not_mem_nil, .nil, fun _ h => absurd h (by simp)⟩

theorem bare_flush {acc : Text} {w : Text} (hc : ∀ c ∈ acc, 0x20 < c.toNat ∧ c ≠ '"' ∧ c ≠ ';')
    (hu : acc.reverse.IsChain fun a b => ¬ Opens a b) (hw : .word w ∈ flush acc) : Bare w := by
  unfold flush at hw
  split_ifs at hw with hn
  · exact absurd hw List.not_mem_nil
  · obtain rfl := Piece.word.inj (List.mem_singleton.mp hw)
    exact ⟨by simpa using hn, fun c h => hc c (List.mem_reverse.mp h), hu⟩

/-- The next character goes to the word. -/
theorem Mode.Ok.cons {acc s : Text} {c : Char} (h : Mode.Ok (.bare acc) (c :: s))
    (hc : 0x20 < c.toNat ∧ c ≠ '"' ∧ c ≠ ';') (hn : ∀ b ∈ s.head?, ¬ Opens c b) :
    Mode.Ok (.bare (c :: acc)) s := by
  obtain ⟨h1, h2, h3⟩ := h
  refine ⟨fun d hd => ?_, ?_, fun a ha b hb => ?_⟩
  · rcases List.mem_cons.mp hd with rfl | hd
    · exact hc
    · exact h1 d hd
  · rw [List.reverse_cons, List.isChain_append]
    refine ⟨h2, .singleton _, fun a ha b hb => ?_⟩
    rw [List.getLast?_reverse] at ha
    obtain rfl : b = c := by simpa using hb.symm
    exact h3 a ha b rfl
  · obtain rfl : a = c := by simpa using ha.symm
    exact hn b hb

/-- **Every word of a text without quotes is bare.** -/
theorem lex_words {m : Mode} {s : Text} (hm : m.Ok s) (hs : '"' ∉ s) {w : Text} (hw : .word w ∈ lex m s) :
    Bare w := by
  have htail : ∀ {c : Char} {s : Text}, '"' ∉ c :: s → '"' ∉ s := fun h hc => h (List.mem_cons_of_mem _ hc)
  fun_induction lex m s with
  | case1 acc => exact bare_flush hm.1 hm.2.1 hw
  | case2 acc => exact hm.elim
  | case3 | case4 | case5 => exact absurd hw List.not_mem_nil
  | case6 acc c s h => exact bare_flush hm.1 hm.2.1 hw
  | case7 acc c s h1 h2 ih =>
    rcases List.mem_append.mp hw with hw | hw
    · exact bare_flush hm.1 hm.2.1 hw
    · exact ih trivial (htail hs) hw
  | case8 acc s h1 h2 ih => exact absurd List.mem_cons_self hs
  | case9 acc s h1 h2 h3 ih =>
    rcases List.mem_append.mp hw with hw | hw
    · exact bare_flush hm.1 hm.2.1 hw
    · exact ih (Mode.ok_start _) (htail hs) ((List.mem_cons.mp hw).resolve_left (by simp))
  | case10 acc c s h1 h2 h3 h4 h5 ih =>
    rcases List.mem_append.mp hw with hw | hw
    · exact bare_flush hm.1 hm.2.1 hw
    · exact ih (Mode.ok_start _) (htail hs) hw
  | case11 acc c s h1 h2 h3 h4 h5 ih =>
    refine ih (hm.cons ⟨by omega, h3, h4⟩ fun b hb ho => ?_) (htail hs) hw
    have hb' : s.head? = some b := hb
    rcases ho.2 with rfl | rfl
    · exact h1 ⟨ho.1, hb'⟩
    · exact h2 ⟨ho.1, hb'⟩
  | case12 | case13 => exact hm.elim
  | case14 c s ih => exact ih trivial (htail hs) hw
  | case15 c s h ih => exact ih trivial (htail hs) hw
  | case16 c s h ih => exact ih trivial (htail hs) hw
  | case17 c s ih => exact ih (Mode.ok_start _) (htail hs) hw

/-- Without semicolons there is one command. -/
theorem lex_semicolon {m : Mode} {s : Text} (hs : ';' ∉ s) : .semicolon ∉ lex m s := by
  have hflush : ∀ acc, Piece.semicolon ∉ flush acc := by
    intro acc
    unfold flush
    split_ifs <;> simp
  have htail : ∀ {c : Char} {s : Text}, ';' ∉ c :: s → ';' ∉ s := fun h hc => h (List.mem_cons_of_mem _ hc)
  fun_induction lex m s with
  | case1 acc => exact hflush acc
  | case2 acc => simp
  | case3 | case4 | case5 => simp
  | case6 acc c s h => exact hflush acc
  | case7 acc c s h1 h2 ih => simpa [hflush acc] using ih (htail hs)
  | case8 acc s h1 h2 ih => simpa [hflush acc] using ih (htail hs)
  | case9 acc s h1 h2 h3 ih => exact absurd List.mem_cons_self hs
  | case10 acc c s h1 h2 h3 h4 h5 ih => simpa [hflush acc] using ih (htail hs)
  | case11 acc c s h1 h2 h3 h4 h5 ih => exact ih (htail hs)
  | case12 acc s ih => simpa using ih (htail hs)
  | case13 acc c s h ih => exact ih (htail hs)
  | case14 c s ih => exact ih (htail hs)
  | case15 c s h ih => exact ih (htail hs)
  | case16 c s h ih => exact ih (htail hs)
  | case17 c s ih => exact ih (htail hs)

theorem exists_words {ps : List Piece} (h : .semicolon ∉ ps) : ∃ ws : List Text, ps = ws.map .word := by
  induction ps with
  | nil => exact ⟨[], rfl⟩
  | cons p ps ih =>
    rw [List.mem_cons, not_or] at h
    obtain ⟨ws, rfl⟩ := ih h.2
    cases p with
    | semicolon => exact absurd rfl h.1
    | word w => exact ⟨w :: ws, rfl⟩

theorem mem_group {ps : List Piece} {c : Command} {w : Text} (hc : c ∈ group ps) (hw : w ∈ c) :
    .word w ∈ ps := by
  induction ps generalizing c with
  | nil =>
    obtain rfl := List.mem_singleton.mp hc
    exact absurd hw List.not_mem_nil
  | cons p ps ih =>
    obtain ⟨g, gs, hg⟩ := List.exists_cons_of_ne_nil (group_ne_nil ps)
    cases p with
    | semicolon =>
      rcases List.mem_cons.mp hc with rfl | hc
      · exact absurd hw List.not_mem_nil
      · exact List.mem_cons_of_mem _ (ih hc hw)
    | word u =>
      rw [group, hg] at hc
      rw [hg] at ih
      rcases List.mem_cons.mp hc with rfl | hc
      · rcases List.mem_cons.mp hw with rfl | hw
        · exact List.mem_cons_self
        · exact List.mem_cons_of_mem _ (ih List.mem_cons_self hw)
      · exact List.mem_cons_of_mem _ (ih (List.mem_cons_of_mem _ hc) hw)

/-- The words of a text without quotes. -/
theorem bare_of_mem_commands {t : Text} (h : '"' ∉ t) {c : Command} (hc : c ∈ commands t) {w : Text}
    (hw : w ∈ c) : Bare w := by
  obtain ⟨l, hl, hc⟩ := List.mem_flatMap.mp hc
  have hq : '"' ∉ l := fun hm => h (mem_of_mem_splitLines hl hm)
  exact lex_words (Mode.ok_start l) hq (mem_group (List.mem_of_mem_filter hc) hw)

/-! ### Spaced texts -/

theorem Bare.blank {w : Text} (h : Bare w) : ' ' ∉ w := fun hc => absurd (h.chars _ hc).1 (by decide)

/-- A bare word is scanned to its end. -/
theorem lex_bare_word {w : Text} (hc : ∀ c ∈ w, 0x20 < c.toNat ∧ c ≠ '"' ∧ c ≠ ';')
    (hu : w.IsChain fun a b => ¬ Opens a b) {r : Text} (hr : r.head?.getD ' ' = ' ') (acc : Text) :
    lex (.bare acc) (w ++ r) = lex (.bare (w.reverse ++ acc)) r := by
  induction w generalizing acc with
  | nil => rfl
  | cons c w ih =>
    obtain ⟨hb, hq, hs⟩ := hc c List.mem_cons_self
    have hopen : ∀ b, c = '/' ∧ (w ++ r).head? = some b → ¬ (b = '/' ∨ b = '*') := by
      rintro b ⟨hslash, hhead⟩ hob
      cases w with
      | nil =>
        rw [List.nil_append] at hhead
        rw [hhead] at hr
        obtain rfl : b = ' ' := hr
        exact absurd hob (by decide)
      | cons d w =>
        obtain rfl : d = b := by simpa using hhead
        exact (List.isChain_cons_cons.mp hu).1 ⟨hslash, hob⟩
    rw [List.cons_append, lex, if_neg (fun h => hopen _ h (.inl rfl)), if_neg (fun h => hopen _ h (.inr rfl)),
      if_neg hq, if_neg hs, if_neg (by omega), ih (fun d hd => hc d (List.mem_cons_of_mem _ hd)) hu.tail]
    simp

theorem Bare.pieces {w : Text} (h : Bare w) : Pieces w [.word w] := by
  intro r hr
  rw [lex_bare_word h.chars h.uncommented hr, List.append_nil, lex_flush hr, flush_reverse h.ne_nil]

/-- Bare words with blanks between them are these words. -/
theorem pieces_joinText {ws : List Text} (h : ∀ w ∈ ws, Bare w) :
    Pieces (joinText [' '] ws) (ws.map .word) := by
  induction ws with
  | nil => exact .nil
  | cons w ws ih =>
    have hw := (h w List.mem_cons_self).pieces
    have hws := ih fun v hv => h v (List.mem_cons_of_mem _ hv)
    cases ws with
    | nil => exact hw
    | cons v ws =>
      show Pieces (w ++ [' '] ++ joinText [' '] (v :: ws)) _
      rw [List.append_assoc]
      exact hw.append hws

theorem joinText_eq_intercalate (sep : Text) (ts : List Text) : joinText sep ts = sep.intercalate ts := by
  induction ts with
  | nil => rfl
  | cons t ts ih =>
    cases ts with
    | nil => exact List.intercalate_singleton.symm
    | cons u us => rw [joinText_cons (List.cons_ne_nil _ _), ih, List.intercalate_cons_cons]

/-- **A spaced text is its words.** -/
theorem Spaced.words {t : Text} (h : Spaced t) :
    lex (.bare []) t = (t.splitOn ' ').map .word ∧ joinText [' '] (t.splitOn ' ') = t := by
  have hjoin : joinText [' '] (t.splitOn ' ') = t := by
    rw [joinText_eq_intercalate, List.intercalate_splitOn]
  refine ⟨?_, hjoin⟩
  have hp := (pieces_joinText h).lex
  rwa [hjoin] at hp

/-- **Bare words with a blank between two are a spaced text.** -/
theorem spaced_of_words {ws : List Text} (h : ∀ w ∈ ws, Bare w) (hne : ws ≠ []) :
    Spaced (joinText [' '] ws) := by
  rw [Spaced, joinText_eq_intercalate, List.splitOn_intercalate ' ' (fun w hw => (h w hw).blank) hne]
  exact h

end Script
