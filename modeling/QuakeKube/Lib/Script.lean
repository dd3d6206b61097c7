/-
# Console scripts

The scripts of ioq3's console. A command ends at a newline, or at a semicolon
outside double quotes; a quoted word runs to the next quote, without escapes; a
bare word runs over the characters above the blank and stops at a quote or a
comment; `//` comments out the rest of the line. `set` and its kin store a text
under a name, `vstr` runs a stored text, `map` loads a map, and a name alone with
a value sets a variable that is there.

Key definitions: `commands`, `Console`, `Console.apply`, `run`, `Executes`, `Trace`.
Key theorems: `Pieces.append`, `lineCommands_eq`, `Executes.append`, `Executes.det`,
`Executes.invariant`.
-/
import QuakeKube.Lib.Text
import Mathlib.Logic.Function.Basic

namespace Script

open Go

/-! ### Words and commands -/

inductive Piece where
  | word (t : Text)
  | semicolon
deriving DecidableEq

/-- Where the scanner of a line is: in a bare word, begun or not, in a quoted
word, at the second character of a comment's bracket, or in the comment. -/
inductive Mode where
  | bare (acc : Text)
  | quote (acc : Text)
  | opening
  | comment
  | closing
deriving DecidableEq

/-- A bare word ends here, if one has begun. -/
def flush (acc : Text) : List Piece := if acc = [] then [] else [.word acc.reverse]

/-- The words and semicolons of a line. -/
def lex : Mode → Text → List Piece
  | .bare acc, [] => flush acc
  | .quote acc, [] => [.word acc.reverse]
  | .opening, [] => []
  | .comment, [] => []
  | .closing, [] => []
  | .bare acc, c :: s =>
    if c = '/' ∧ s.head? = some '/' then flush acc
    else if c = '/' ∧ s.head? = some '*' then flush acc ++ lex .opening s
    else if c = '"' then flush acc ++ lex (.quote []) s
    else if c = ';' then flush acc ++ .semicolon :: lex (.bare []) s
    else if c.toNat ≤ 0x20 then flush acc ++ lex (.bare []) s
    else lex (.bare (c :: acc)) s
  | .quote acc, c :: s =>
    if c = '"' then .word acc.reverse :: lex (.bare []) s else lex (.quote (c :: acc)) s
  | .opening, _ :: s => lex .comment s
  | .comment, c :: s => if c = '*' ∧ s.head? = some '/' then lex .closing s else lex .comment s
  | .closing, _ :: s => lex (.bare []) s

/-- A command: its words. -/
abbrev Command := List Text

/-- The words between the semicolons. -/
def group : List Piece → List Command
  | [] => [[]]
  | .semicolon :: ps => [] :: group ps
  | .word w :: ps => match group ps with
    | [] => [[w]]
    | c :: cs => (w :: c) :: cs

/-- The commands of a line; those without a word do nothing. -/
def lineCommands (l : Text) : List Command := (group (lex (.bare []) l)).filter (· ≠ [])

/-- The commands of a script. -/
def commands (s : Text) : List Command := (splitLines s).flatMap lineCommands

/-! ### Running -/

/-- The console: its variables, the maps loaded so far, each with the variables
it was loaded under, and the names that were to be run but stood for nothing. -/
structure Console where
  cvar : Text → Option Text
  loaded : List (Text × (Text → Option Text))
  missed : List Text

def setters : List Text := [txt "set", txt "seta", txt "sets", txt "setu"]

namespace Console

def setCvar (s : Console) (v t : Text) : Console := { s with cvar := Function.update s.cvar v (some t) }

/-- A command other than `vstr`. -/
def apply (s : Console) : Command → Console
  | [] => s
  | [_] => s
  | name :: w :: ws =>
    if name ∈ setters then if ws = [] then s else s.setCvar w (joinText [' '] ws)
    else if name = txt "map" then { s with loaded := s.loaded ++ [(w, s.cvar)] }
    else if s.cvar name ≠ none then s.setCvar name (joinText [' '] (w :: ws)) else s

end Console

/-- The text a `vstr` is to run. -/
def vstr? : Command → Option Text
  | [name, v] => if name = txt "vstr" then some v else none
  | _ => none

/-- The console after these commands, with at most `fuel` steps. -/
def run : (fuel : ℕ) → List Command → Console → Option Console
  | _, [], s => some s
  | 0, _ :: _, _ => none
  | fuel + 1, c :: cs, s => match vstr? c with
    | none => run fuel cs (s.apply c)
    | some v => match s.cvar v with
      | some t => run fuel (commands t ++ cs) s
      | none => run fuel cs { s with missed := s.missed ++ [v] }

/-- The commands end, and leave the console so. -/
def Executes (cs : List Command) (s s' : Console) : Prop := ∃ fuel, run fuel cs s = some s'

/-! ### Scanning -/

/-- A text that is one bare word wherever it stands between blanks. -/
structure BareWord (w : Text) : Prop where
  ne_nil : w ≠ []
  chars : ∀ c ∈ w, 0x20 < c.toNat ∧ c ≠ '"' ∧ c ≠ ';' ∧ c ≠ '/'

instance (w : Text) : Decidable (BareWord w) :=
  decidable_of_iff (w ≠ [] ∧ ∀ c ∈ w, 0x20 < c.toNat ∧ c ≠ '"' ∧ c ≠ ';' ∧ c ≠ '/')
    ⟨fun h => ⟨h.1, h.2⟩, fun h => ⟨h.1, h.2⟩⟩

/-- Before a blank or the end of the line, the text gives these pieces. -/
def Pieces (s : Text) (ps : List Piece) : Prop :=
  ∀ r, r.head?.getD ' ' = ' ' → lex (.bare []) (s ++ r) = ps ++ lex (.bare []) r

theorem lex_bare {w : Text} (h : ∀ c ∈ w, 0x20 < c.toNat ∧ c ≠ '"' ∧ c ≠ ';' ∧ c ≠ '/') (acc r : Text) :
    lex (.bare acc) (w ++ r) = lex (.bare (w.reverse ++ acc)) r := by
  induction w generalizing acc with
  | nil => rfl
  | cons c w ih =>
    obtain ⟨hb, hq, hs, hc⟩ := h c List.mem_cons_self
    rw [List.cons_append, lex, if_neg (by simp [hc]), if_neg (by simp [hc]), if_neg hq, if_neg hs,
      if_neg (by omega), ih fun d hd => h d (List.mem_cons_of_mem _ hd)]
    simp

theorem lex_blank (acc r : Text) : lex (.bare acc) (' ' :: r) = flush acc ++ lex (.bare []) r := by
  rw [lex, if_neg (by simp), if_neg (by simp), if_neg (by decide), if_neg (by decide), if_pos (by decide)]

theorem flush_reverse {w : Text} (h : w ≠ []) : flush w.reverse = [.word w] := by
  rw [flush, if_neg (by simpa using h), List.reverse_reverse]

/-- A bare word ends at a blank and at the end of the line. -/
theorem lex_flush {r : Text} (hr : r.head?.getD ' ' = ' ') (acc : Text) :
    lex (.bare acc) r = flush acc ++ lex (.bare []) r := by
  cases r with
  | nil => simp [lex, flush]
  | cons c r =>
    obtain rfl : c = ' ' := hr
    rw [lex_blank, lex_blank]
    simp [flush]

theorem Pieces.nil : Pieces [] [] := fun _ _ => rfl

theorem Pieces.word {w : Text} (h : BareWord w) : Pieces w [.word w] := by
  intro r hr
  rw [lex_bare h.chars, List.append_nil, lex_flush hr, flush_reverse h.ne_nil]

theorem Pieces.semicolon : Pieces [';'] [.semicolon] := fun _ _ => rfl

theorem lex_quote {t : Text} (h : '"' ∉ t) (acc r : Text) :
    lex (.quote acc) (t ++ '"' :: r) = .word (acc.reverse ++ t) :: lex (.bare []) r := by
  induction t generalizing acc with
  | nil => simp [lex]
  | cons c t ih =>
    rw [List.mem_cons, not_or] at h
    rw [List.cons_append, lex, if_neg (Ne.symm h.1), ih h.2]
    simp

/-- A quoted word is what stands between its quotes. -/
theorem Pieces.quoted {t : Text} (h : '"' ∉ t) : Pieces ('"' :: (t ++ ['"'])) [.word t] := fun r _ => by
  have hopen : ∀ u, lex (.bare []) ('"' :: u) = lex (.quote []) u := fun _ => rfl
  rw [List.cons_append, hopen, List.append_assoc]
  exact lex_quote h [] r

/-- Texts with a blank between them. -/
theorem Pieces.append {s t : Text} {ps qs : List Piece} (hs : Pieces s ps) (ht : Pieces t qs) :
    Pieces (s ++ ' ' :: t) (ps ++ qs) := fun r hr => by
  have hblank : lex (.bare []) (' ' :: (t ++ r)) = lex (.bare []) (t ++ r) := lex_blank [] _
  rw [List.append_assoc, List.cons_append, hs _ rfl, hblank, ht r hr, List.append_assoc]

theorem Pieces.lex {s : Text} {ps : List Piece} (h : Pieces s ps) : lex (.bare []) s = ps := by
  have h' := h [] rfl
  rwa [List.append_nil, show Script.lex (.bare []) [] = [] from rfl, List.append_nil] at h'

theorem group_words (ws : List Text) : group (ws.map .word) = [ws] := by
  induction ws with
  | nil => rfl
  | cons w ws ih => rw [List.map_cons, group, ih]

theorem group_command (ws : List Text) (ps : List Piece) :
    group (ws.map .word ++ .semicolon :: ps) = ws :: group ps := by
  induction ws with
  | nil => rfl
  | cons w ws ih => rw [List.map_cons, List.cons_append, group, ih]

/-- Commands with a semicolon between two. -/
def pieces : List Command → List Piece
  | [] => []
  | [c] => c.map .word
  | c :: cs => c.map .word ++ .semicolon :: pieces cs

theorem pieces_append (cs : List Command) {ds : List Command} (hc : cs ≠ []) (hd : ds ≠ []) :
    pieces (cs ++ ds) = pieces cs ++ .semicolon :: pieces ds := by
  induction cs with
  | nil => exact absurd rfl hc
  | cons c cs ih =>
    cases cs with
    | nil =>
      obtain ⟨d, ds, rfl⟩ := List.exists_cons_of_ne_nil hd
      rfl
    | cons b cs =>
      have h := ih (by simp)
      show c.map .word ++ .semicolon :: pieces (b :: cs ++ ds) = _
      rw [h]
      show _ = c.map .word ++ .semicolon :: pieces (b :: cs) ++ .semicolon :: pieces ds
      rw [List.append_assoc, List.cons_append]

theorem pieces_word (w : Text) (c : Command) (cs : List Command) :
    pieces ((w :: c) :: cs) = .word w :: pieces (c :: cs) := by
  cases cs <;> rfl

theorem group_pieces {cs : List Command} (h : cs ≠ []) : group (pieces cs) = cs := by
  induction cs with
  | nil => exact absurd rfl h
  | cons c cs ih =>
    cases cs with
    | nil => exact group_words c
    | cons b cs =>
      show group (c.map .word ++ .semicolon :: pieces (b :: cs)) = _
      rw [group_command, ih (by simp)]

/-- A line of commands, each with a word. -/
theorem lineCommands_eq {l : Text} {cs : List Command} (h : Pieces l (pieces cs)) (hne : cs ≠ [])
    (hw : ∀ c ∈ cs, c ≠ []) : lineCommands l = cs := by
  rw [lineCommands, h.lex, group_pieces hne, List.filter_eq_self]
  intro c hc
  simpa using hw c hc

theorem commands_line {l : Text} (h : '\n' ∉ l) (r : Text) :
    commands (l ++ '\n' :: r) = lineCommands l ++ commands r := by
  rw [commands, splitLines_line h, List.flatMap_cons]
  rfl

theorem commands_eq {l : Text} (h : '\n' ∉ l) : commands l = lineCommands l := by
  rw [commands, splitLines_of_not_mem h]
  simp

/-- The text is one command. -/
def IsCommand (t : Text) (c : Command) : Prop := Pieces t (c.map .word)

/-- Commands joined by semicolons. -/
theorem Pieces.join {ts : List Text} {cs : List Command} (h : List.Forall₂ IsCommand ts cs) :
    Pieces (joinText [' ', ';', ' '] ts) (pieces cs) := by
  induction h with
  | nil => exact .nil
  | @cons t c ts cs hc hcs ih =>
    cases hcs with
    | nil => exact hc
    | @cons t' c' ts cs _ _ =>
      have hsep := hc.append (Pieces.semicolon.append ih)
      show Pieces (t ++ [' ', ';', ' '] ++ joinText [' ', ';', ' '] (t' :: ts)) _
      rw [List.append_assoc]
      exact hsep

/-! ### Variables -/

/-- The variable a command other than `vstr` may set. -/
def target : Command → Option Text
  | name :: w :: _ => if name ∈ setters then some w else if name = txt "map" then none else some name
  | _ => none

theorem Console.apply_cvar {c : Command} {v : Text} (h : target c ≠ some v) (s : Console) :
    (s.apply c).cvar v = s.cvar v := by
  match c with
  | [] => rfl
  | [_] => rfl
  | name :: w :: ws =>
    simp only [target] at h
    simp only [Console.apply]
    split_ifs at h ⊢ with h1 h2 h3
    · rfl
    · exact Function.update_of_ne (fun hv => h (by rw [hv])) _ _
    · rfl
    · exact Function.update_of_ne (fun hv => h (by rw [hv])) _ _
    · rfl

/-- What a variable holds after a command: what it held, or words of the command. -/
theorem Console.apply_cvar_cases {c : Command} {s : Console} {v t : Text} (h : (s.apply c).cvar v = some t) :
    s.cvar v = some t ∨ (target c = some v ∧ ∀ d ∈ t, d = ' ' ∨ ∃ w ∈ c, d ∈ w) := by
  by_cases ht : target c = some v
  · match c with
    | [] => exact absurd ht (by simp [target])
    | [_] => exact absurd ht (by simp [target])
    | name :: w :: ws =>
      have hjoin : ∀ us : List Text, (∀ u ∈ us, u ∈ name :: w :: ws) →
          ∀ d ∈ joinText [' '] us, d = ' ' ∨ ∃ u ∈ name :: w :: ws, d ∈ u := by
        intro us hus d hd
        rcases mem_joinText hd with hd | ⟨u, hu, hd⟩
        · exact .inl (List.mem_singleton.mp hd)
        · exact .inr ⟨u, hus u hu, hd⟩
      have hset : ∀ {x u : Text}, x = v → Function.update s.cvar x (some u) v = some t → t = u := by
        rintro x u rfl hu
        rw [Function.update_self] at hu
        exact (Option.some.inj hu).symm
      simp only [target] at ht
      simp only [Console.apply] at h
      split_ifs at h ht with h1 h2 h3 h4
      · exact .inl h
      · refine .inr ⟨by simp only [target]; rw [if_pos h1, ht], ?_⟩
        rw [hset (Option.some.inj ht) h]
        exact hjoin ws fun u hu => by simp [hu]
      · refine .inr ⟨by simp only [target]; rw [if_neg h1, if_neg h3, ht], ?_⟩
        rw [hset (Option.some.inj ht) h]
        exact hjoin (w :: ws) fun u hu => List.mem_cons_of_mem _ hu
      · exact .inl h
  · rw [Console.apply_cvar ht] at h
    exact .inl h

theorem foldl_apply_cvar {cs : List Command} {v : Text} (h : ∀ c ∈ cs, target c ≠ some v) (s : Console) :
    (cs.foldl Console.apply s).cvar v = s.cvar v := by
  induction cs generalizing s with
  | nil => rfl
  | cons c cs ih =>
    rw [List.foldl_cons, ih fun d hd => h d (List.mem_cons_of_mem _ hd),
      Console.apply_cvar (h c List.mem_cons_self)]

theorem Console.apply_set {name v t : Text} (h : name ∈ setters) (s : Console) :
    s.apply [name, v, t] = s.setCvar v t := by
  simp only [Console.apply]
  rw [if_pos h, if_neg (by simp)]
  rfl

theorem Console.apply_missed (c : Command) (s : Console) : (s.apply c).missed = s.missed := by
  match c with
  | [] => rfl
  | [_] => rfl
  | name :: w :: ws =>
    simp only [Console.apply]
    split_ifs <;> rfl

theorem foldl_apply_missed (cs : List Command) (s : Console) :
    (cs.foldl Console.apply s).missed = s.missed := by
  induction cs generalizing s with
  | nil => rfl
  | cons c cs ih => rw [List.foldl_cons, ih, Console.apply_missed]

/-- Only `map` loads a map. -/
theorem Console.apply_loaded {c : Command} (h : c.head? ≠ some (txt "map")) (s : Console) :
    (s.apply c).loaded = s.loaded := by
  match c with
  | [] => rfl
  | [_] => rfl
  | name :: w :: ws =>
    have hmap : name ≠ txt "map" := fun hn => h (by rw [hn]; rfl)
    simp only [Console.apply]
    rw [if_neg hmap]
    split_ifs <;> rfl

theorem foldl_apply_loaded {cs : List Command} (h : ∀ c ∈ cs, c.head? ≠ some (txt "map")) (s : Console) :
    (cs.foldl Console.apply s).loaded = s.loaded := by
  induction cs generalizing s with
  | nil => rfl
  | cons c cs ih =>
    rw [List.foldl_cons, ih fun d hd => h d (List.mem_cons_of_mem _ hd),
      Console.apply_loaded (h c List.mem_cons_self)]

/-! ### Running on -/

theorem run_mono {n m : ℕ} {cs : List Command} {s s' : Console} (h : run n cs s = some s') (hm : n ≤ m) :
    run m cs s = some s' := by
  induction n generalizing m cs s with
  | zero =>
    cases cs with
    | nil => cases m <;> exact h
    | cons c cs => exact absurd h (by simp [run])
  | succ n ih =>
    obtain ⟨m, rfl⟩ := Nat.exists_eq_add_of_le' (Nat.le_trans (Nat.succ_le_succ (Nat.zero_le n)) hm)
    cases cs with
    | nil => exact h
    | cons c cs =>
      have hle : n ≤ m := Nat.succ_le_succ_iff.mp hm
      rw [run] at h ⊢
      cases hv : vstr? c with
      | none =>
        rw [hv] at h
        exact ih h hle
      | some v =>
        rw [hv] at h
        simp only at h ⊢
        cases ht : s.cvar v with
        | none =>
          rw [ht] at h
          exact ih h hle
        | some t =>
          rw [ht] at h
          exact ih h hle

/-- A run has one end. -/
theorem Executes.det {cs : List Command} {s s1 s2 : Console} (h1 : Executes cs s s1)
    (h2 : Executes cs s s2) : s1 = s2 := by
  obtain ⟨n1, h1⟩ := h1
  obtain ⟨n2, h2⟩ := h2
  have e1 := run_mono h1 (Nat.le_max_left n1 n2)
  have e2 := run_mono h2 (Nat.le_max_right n1 n2)
  rw [e1] at e2
  exact Option.some.inj e2

theorem Executes.nil (s : Console) : Executes [] s s := ⟨0, rfl⟩

theorem Executes.command {c : Command} {cs : List Command} {s s' : Console} (hc : vstr? c = none)
    (h : Executes cs (s.apply c) s') : Executes (c :: cs) s s' := by
  obtain ⟨n, hn⟩ := h
  refine ⟨n + 1, ?_⟩
  rw [run, hc]
  exact hn

theorem Executes.vstr {v t : Text} {cs : List Command} {s s' : Console} (hv : s.cvar v = some t)
    (h : Executes (commands t ++ cs) s s') : Executes ([txt "vstr", v] :: cs) s s' := by
  obtain ⟨n, hn⟩ := h
  refine ⟨n + 1, ?_⟩
  have hc : vstr? [txt "vstr", v] = some v := by rw [vstr?, if_pos rfl]
  rw [run, hc]
  simp only [hv]
  exact hn

/-- Commands none of which runs a variable are applied one after the other. -/
theorem executes_foldl {cs : List Command} (h : ∀ c ∈ cs, vstr? c = none) (s : Console) :
    Executes cs s (cs.foldl Console.apply s) := by
  induction cs generalizing s with
  | nil => exact .nil s
  | cons c cs ih =>
    rw [List.foldl_cons]
    exact .command (h c List.mem_cons_self) (ih (fun d hd => h d (List.mem_cons_of_mem _ hd)) _)

/-- One script after the other. -/
theorem Executes.append {cs ds : List Command} {s s' s'' : Console} (h : Executes cs s s')
    (h' : Executes ds s' s'') : Executes (cs ++ ds) s s'' := by
  obtain ⟨n, hn⟩ := h
  induction n generalizing cs s with
  | zero =>
    cases cs with
    | nil =>
      obtain rfl : s = s' := Option.some.inj hn
      exact h'
    | cons c cs => exact absurd hn (by simp [run])
  | succ n ih =>
    cases cs with
    | nil =>
      obtain rfl : s = s' := Option.some.inj hn
      exact h'
    | cons c cs =>
      rw [run] at hn
      rw [List.cons_append]
      cases hv : vstr? c with
      | none =>
        rw [hv] at hn
        exact .command hv (ih hn)
      | some v =>
        rw [hv] at hn
        simp only at hn
        cases ht : s.cvar v with
        | none =>
          rw [ht] at hn
          obtain ⟨m, hm⟩ := ih hn
          refine ⟨m + 1, ?_⟩
          rw [run, hv]
          simp only [ht]
          exact hm
        | some t =>
          rw [ht] at hn
          simp only at hn
          have hrest := ih hn
          rw [List.append_assoc] at hrest
          obtain ⟨m, hm⟩ := hrest
          refine ⟨m + 1, ?_⟩
          rw [run, hv]
          simp only [ht]
          exact hm

/-! ### What is kept, and what is executed -/

/-- What every command of a script keeps, and every text it may run, holds to its end. -/
theorem Executes.invariant {I : Console → Prop} {J : Command → Prop}
    (happly : ∀ c s, J c → vstr? c = none → I s → I (s.apply c))
    (hmiss : ∀ s v, I s → I { s with missed := s.missed ++ [v] })
    (htext : ∀ s v t, I s → s.cvar v = some t → ∀ c ∈ commands t, J c)
    {cs : List Command} {s s' : Console} (h : Executes cs s s') (hJ : ∀ c ∈ cs, J c) (hI : I s) : I s' := by
  obtain ⟨n, h⟩ := h
  induction n generalizing cs s with
  | zero =>
    cases cs with
    | nil => exact Option.some.inj h ▸ hI
    | cons c cs => exact absurd h (by simp [run])
  | succ n ih =>
    cases cs with
    | nil => exact Option.some.inj h ▸ hI
    | cons c cs =>
      have hcs : ∀ d ∈ cs, J d := fun d hd => hJ d (List.mem_cons_of_mem _ hd)
      rw [run] at h
      cases hv : vstr? c with
      | none =>
        rw [hv] at h
        exact ih hcs (happly c s (hJ c List.mem_cons_self) hv hI) h
      | some v =>
        rw [hv] at h
        simp only at h
        cases ht : s.cvar v with
        | none =>
          rw [ht] at h
          exact ih hcs (hmiss s v hI) h
        | some t =>
          rw [ht] at h
          exact ih (fun d hd => (List.mem_append.mp hd).elim (htext s v t hI ht d) (hcs d)) hI h

/-- The commands executed, one after the other: those of a text that is run come
after the `vstr` that runs it. -/
inductive Trace : List Command → Console → List Command → Prop
  | nil {s : Console} : Trace [] s []
  | command {c : Command} {cs tr : List Command} {s : Console} :
      vstr? c = none → Trace cs (s.apply c) tr → Trace (c :: cs) s (c :: tr)
  | vstr {c : Command} {cs tr : List Command} {s : Console} {v t : Text} :
      vstr? c = some v → s.cvar v = some t → Trace (commands t ++ cs) s tr → Trace (c :: cs) s (c :: tr)
  | missed {c : Command} {cs tr : List Command} {s : Console} {v : Text} :
      vstr? c = some v → s.cvar v = none → Trace cs { s with missed := s.missed ++ [v] } tr →
      Trace (c :: cs) s (c :: tr)

/-- Commands none of which runs a text are what is executed. -/
theorem trace_self {cs : List Command} (h : ∀ c ∈ cs, vstr? c = none) (s : Console) : Trace cs s cs := by
  induction cs generalizing s with
  | nil => exact .nil
  | cons c cs ih =>
    exact .command (h c List.mem_cons_self) (ih (fun d hd => h d (List.mem_cons_of_mem _ hd)) _)

/-- Every command of the script is executed. -/
theorem Trace.sublist {cs tr : List Command} {s : Console} (h : Trace cs s tr) : cs.Sublist tr := by
  induction h with
  | nil => exact .slnil
  | command _ _ ih => exact ih.cons_cons _
  | vstr _ _ _ ih => exact ((List.sublist_append_right _ _).trans ih).cons_cons _
  | missed _ _ _ ih => exact ih.cons_cons _

theorem Trace.eq_self {cs tr : List Command} {s : Console} (h : Trace cs s tr)
    (hc : ∀ c ∈ cs, vstr? c = none) : tr = cs := by
  induction h with
  | nil => rfl
  | command _ _ ih => rw [ih fun d hd => hc d (List.mem_cons_of_mem _ hd)]
  | vstr hv _ _ _ =>
    rw [hc _ List.mem_cons_self] at hv
    cases hv
  | missed hv _ _ _ =>
    rw [hc _ List.mem_cons_self] at hv
    cases hv

end Script
