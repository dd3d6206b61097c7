/-
# The map rotation

`MarshalMaps` writes one variable `d0`, `d1`, … for each map, whose text sets the
game type and the limits, loads the map and makes the next variable the next map;
and it runs `d0`. The texts are scripts of the console: `entryCommands` are the
commands of one, and after the whole script every variable holds its entry
(`executes_marshalMaps`).

Key definitions: `Map.command`, `marshalMaps`, `entryCommands`, `SetsGameType`.
Key theorems: `commands_entryText`, `executes_marshalMaps`, `setsGameType_iff`.
-/
import QuakeKube.Lib.Float
import QuakeKube.Lib.Script
import QuakeKube.Server.Config

namespace QuakeKube
namespace Server

open Go Script

/-- `int(d.Minutes())`, computed in float64. -/
def minutes (d : Duration) : ℤ :=
  let m := float64 (float64 (d.toInt.tdiv minute.toInt) +
    float64 (float64 (d.toInt.tmod minute.toInt) / (60 * 10 ^ 9)))
  if 0 ≤ m then ⌊m⌋ else ⌈m⌉

/-- `Map.command`. -/
def Map.command (m : Map) : Text :=
  joinText (txt " ; ") (
    [txt "g_gametype " ++ natText m.type.number] ++
    (if m.type = .CaptureTheFlag ∧ m.captureLimit ≠ 0 then
      [txt "capturelimit " ++ intText m.captureLimit.toInt] else []) ++
    (if m.fragLimit ≠ 0 then [txt "fraglimit " ++ intText m.fragLimit.toInt] else []) ++
    (if m.timeLimit ≠ 0 then [txt "timelimit " ++ intText (minutes m.timeLimit)] else []) ++
    [txt "map " ++ m.name])

/-- The variable of the entry `i`. -/
def entryVar (i : ℕ) : Text := 'd' :: natText i

/-- The text of the entry before `next`. -/
def entryText (m : Map) (next : Text) : Text :=
  txt "seta " ++ m.command ++ txt " ; set nextmap vstr " ++ next

/-- The line of `MarshalMaps` for the map at `i` of `n`. -/
def entryLine (n : ℕ) (m : Map) (i : ℕ) : Text :=
  txt "set " ++ entryVar i ++ txt " \"" ++ entryText m (entryVar ((i + 1) % n)) ++ txt "\"\n"

/-- `MarshalMaps`. -/
def marshalMaps (maps : List Map) : Text :=
  (maps.zipIdx.flatMap fun (m, i) => entryLine maps.length m i) ++
    if 0 < maps.length then txt "vstr d0\n" else []

/-! ### The commands of an entry -/

/-- The limits of a map, as its entry sets them. -/
def limits (m : Map) : List Command :=
  (if m.type = .CaptureTheFlag ∧ m.captureLimit ≠ 0 then
    [[txt "capturelimit", intText m.captureLimit.toInt]] else []) ++
  (if m.fragLimit ≠ 0 then [[txt "fraglimit", intText m.fragLimit.toInt]] else []) ++
  (if m.timeLimit ≠ 0 then [[txt "timelimit", intText (minutes m.timeLimit)]] else [])

/-- `map`, with the name if there is one. -/
def mapCommand (name : Text) : Command := txt "map" :: if name = [] then [] else [name]

/-- What an entry does after it has set the game type. -/
def entryRest (m : Map) (next : Text) : List Command :=
  limits m ++ [mapCommand m.name, [txt "set", txt "nextmap", txt "vstr", next]]

/-- The commands of the entry before `next`. -/
def entryCommands (m : Map) (next : Text) : List Command :=
  [txt "seta", txt "g_gametype", natText m.type.number] :: entryRest m next

/-- A limit is a variable and its value. -/
theorem limits_cases {m : Map} {c : Command} (h : c ∈ limits m) :
    ∃ v ∈ [txt "capturelimit", txt "fraglimit", txt "timelimit"], ∃ w, c = [v, w] := by
  have hlimit : ∀ {p : Prop} [Decidable p] {v w : Text},
      v ∈ [txt "capturelimit", txt "fraglimit", txt "timelimit"] → c ∈ (if p then [[v, w]] else []) →
      ∃ v ∈ [txt "capturelimit", txt "fraglimit", txt "timelimit"], ∃ w, c = [v, w] := by
    intro p _ v w hv hc
    split_ifs at hc
    · exact ⟨v, hv, w, List.mem_singleton.mp hc⟩
    · exact absurd hc List.not_mem_nil
  simp only [limits, List.mem_append] at h
  rcases h with (h | h) | h
  · exact hlimit (by simp) h
  · exact hlimit (by simp) h
  · exact hlimit (by simp) h

/-- The commands of an entry after the first. -/
theorem entryRest_cases {m : Map} {next : Text} {c : Command} (h : c ∈ entryRest m next) :
    (∃ v ∈ [txt "capturelimit", txt "fraglimit", txt "timelimit"], ∃ w, c = [v, w]) ∨
      c = mapCommand m.name ∨ c = [txt "set", txt "nextmap", txt "vstr", next] := by
  simp only [entryRest, List.mem_append, List.mem_cons, List.not_mem_nil, or_false] at h
  rcases h with h | rfl | rfl
  · exact .inl (limits_cases h)
  · exact .inr (.inl rfl)
  · exact .inr (.inr rfl)

/-- A name the console takes for one word. -/
def NameWord (t : Text) : Prop := t = [] ∨ BareWord t

theorem bareWord_natText (n : ℕ) : BareWord (natText n) where
  ne_nil := natText_ne_nil n
  chars c hc := by
    have hd := isDigit_of_mem_natText hc
    have hlo := (isDigit_range hd).1
    exact ⟨by omega, ne_of_test hd rfl, ne_of_test hd rfl, ne_of_test hd rfl⟩

theorem bareWord_intText (z : ℤ) : BareWord (intText z) := by
  cases z with
  | ofNat n => exact bareWord_natText n
  | negSucc n =>
    refine ⟨List.cons_ne_nil _ _, fun c hc => ?_⟩
    rcases List.mem_cons.mp hc with rfl | hc
    · decide
    · exact (bareWord_natText (n + 1)).chars c hc

theorem bareWord_entryVar (i : ℕ) : BareWord (entryVar i) where
  ne_nil := List.cons_ne_nil _ _
  chars c hc := by
    rcases List.mem_cons.mp hc with rfl | hc
    · decide
    · exact (bareWord_natText i).chars c hc

/-- A word and the blank after it. -/
def IsHead (pre name : String) : Prop := BareWord (txt name) ∧ txt pre = txt name ++ [' ']

instance (pre name : String) : Decidable (IsHead pre name) := by unfold IsHead; infer_instance

theorem heads_command : IsHead "g_gametype " "g_gametype" ∧ IsHead "capturelimit " "capturelimit" ∧
    IsHead "fraglimit " "fraglimit" ∧ IsHead "timelimit " "timelimit" ∧ IsHead "map " "map" := by
  with_unfolding_all decide

theorem heads_entry : IsHead "seta " "seta" ∧ IsHead "set " "set" ∧ IsHead "nextmap " "nextmap" ∧
    IsHead "vstr " "vstr" := by with_unfolding_all decide

/-- A setting: a variable and its value. -/
theorem pieces_setting {pre name : String} (h : IsHead pre name) {w : Text} (hw : BareWord w) :
    IsCommand (txt pre ++ w) [txt name, w] := by
  obtain ⟨hn, hp⟩ := h
  rw [IsCommand, hp, List.append_assoc]
  exact (Pieces.word hn).append (Pieces.word hw)

theorem pieces_map {name : Text} (h : NameWord name) :
    IsCommand (txt "map " ++ name) (mapCommand name) := by
  obtain ⟨-, -, -, -, hmap⟩ := heads_command
  unfold mapCommand
  by_cases hn : name = []
  · rw [if_pos hn, hn, IsCommand, hmap.2, List.append_assoc]
    exact .append (.word hmap.1) .nil
  · rw [if_neg hn]
    exact pieces_setting hmap (h.resolve_left hn)

theorem forall₂_ite {R : Text → Command → Prop} {p : Prop} [Decidable p] {t : Text} {c : Command} (h : R t c) :
    List.Forall₂ R (if p then [t] else []) (if p then [c] else []) := by
  split_ifs
  · exact .cons h .nil
  · exact .nil

/-- What `Map.command` writes. -/
theorem pieces_command {m : Map} (h : NameWord m.name) :
    Pieces m.command (pieces ([txt "g_gametype", natText m.type.number] :: limits m ++
    [mapCommand m.name])) := by
  have hsep : txt " ; " = [' ', ';', ' '] := by with_unfolding_all decide
  obtain ⟨htype, hcapture, hfrag, htime, -⟩ := heads_command
  have htype := pieces_setting htype (bareWord_natText m.type.number)
  have hcapture := pieces_setting hcapture (bareWord_intText m.captureLimit.toInt)
  have hfrag := pieces_setting hfrag (bareWord_intText m.fragLimit.toInt)
  have htime := pieces_setting htime (bareWord_intText (minutes m.timeLimit))
  unfold Map.command limits
  rw [hsep]
  apply Pieces.join
  simp only [List.append_assoc, List.cons_append, List.nil_append]
  apply List.Forall₂.cons htype
  exact List.rel_append (forall₂_ite hcapture) (List.rel_append (forall₂_ite hfrag)
    (List.rel_append (forall₂_ite htime) (.cons (pieces_map h) .nil)))

/-- What stands in the quotes of an entry. -/
theorem pieces_entryText {m : Map} (h : NameWord m.name) {next : Text} (hn : BareWord next) :
    Pieces (entryText m next) (pieces (entryCommands m next)) := by
  obtain ⟨hseta, hword, hname, hvstr⟩ := heads_entry
  have hset : txt " ; set nextmap vstr " =
      ' ' :: ([';'] ++ ' ' :: (txt "set" ++ ' ' :: (txt "nextmap" ++ ' ' :: (txt "vstr" ++ [' '])))) := by
    with_unfolding_all decide
  have hnext : Pieces (txt "set" ++ ' ' :: (txt "nextmap" ++ ' ' :: (txt "vstr" ++ ' ' :: next)))
      (pieces [[txt "set", txt "nextmap", txt "vstr", next]]) :=
    .append (.word hword.1) (.append (.word hname.1) (.append (.word hvstr.1) (.word hn)))
  have hall := (Pieces.word hseta.1).append
    ((pieces_command h).append (Pieces.semicolon.append hnext))
  have htext : entryText m next = txt "seta" ++ ' ' :: (m.command ++ ' ' :: ([';'] ++ ' ' ::
      (txt "set" ++ ' ' :: (txt "nextmap" ++ ' ' :: (txt "vstr" ++ ' ' :: next))))) := by
    rw [entryText, hseta.2, hset]
    simp only [List.append_assoc, List.cons_append, List.nil_append]
  have hpieces : pieces (entryCommands m next) = [.word (txt "seta")] ++
      (pieces ([txt "g_gametype", natText m.type.number] :: limits m ++ [mapCommand m.name]) ++
        ([.semicolon] ++ pieces [[txt "set", txt "nextmap", txt "vstr", next]])) := by
    calc pieces (entryCommands m next)
        = pieces (([txt "seta", txt "g_gametype", natText m.type.number] :: limits m ++ [mapCommand m.name]) ++
            [[txt "set", txt "nextmap", txt "vstr", next]]) := by
          rw [List.append_assoc]
          rfl
      _ = pieces ([txt "seta", txt "g_gametype", natText m.type.number] :: limits m ++ [mapCommand m.name]) ++
            .semicolon :: pieces [[txt "set", txt "nextmap", txt "vstr", next]] :=
          pieces_append _ (List.cons_ne_nil _ _) (List.cons_ne_nil _ _)
      _ = _ := by
          rw [List.cons_append, pieces_word]
          rfl
  rw [htext, hpieces]
  exact hall

/-- A text that fits between quotes on one line. -/
def Quiet (t : Text) : Prop := ∀ c ∈ t, c ≠ '"' ∧ c ≠ '\n'

instance (t : Text) : Decidable (Quiet t) := by unfold Quiet; infer_instance

theorem Quiet.append {s t : Text} (hs : Quiet s) (ht : Quiet t) : Quiet (s ++ t) := fun c hc =>
  (List.mem_append.mp hc).elim (hs c) (ht c)

theorem quiet_of_bareWord {w : Text} (h : BareWord w) : Quiet w := fun c hc => by
  obtain ⟨hb, hq, -⟩ := h.chars c hc
  refine ⟨hq, ?_⟩
  rintro rfl
  exact absurd hb (by decide)

theorem quiet_setting {pre name : String} (h : IsHead pre name) {t : Text} (ht : Quiet t) :
    Quiet (txt pre ++ t) := by
  rw [h.2]
  exact ((quiet_of_bareWord h.1).append (by decide)).append ht

theorem quiet_name {t : Text} (h : NameWord t) : Quiet t := by
  rcases h with rfl | h
  · exact fun c hc => absurd hc List.not_mem_nil
  · exact quiet_of_bareWord h

theorem quiet_command {m : Map} (h : NameWord m.name) : Quiet m.command := by
  have hite : ∀ {p : Prop} [Decidable p] {t u : Text}, Quiet u → t ∈ (if p then [u] else []) → Quiet t := by
    intro p _ t u hu ht
    split_ifs at ht
    · rwa [List.mem_singleton.mp ht]
    · exact absurd ht List.not_mem_nil
  have hparts : ∀ t ∈ ([txt "g_gametype " ++ natText m.type.number] ++
      (if m.type = .CaptureTheFlag ∧ m.captureLimit ≠ 0 then
        [txt "capturelimit " ++ intText m.captureLimit.toInt] else []) ++
      (if m.fragLimit ≠ 0 then [txt "fraglimit " ++ intText m.fragLimit.toInt] else []) ++
      (if m.timeLimit ≠ 0 then [txt "timelimit " ++ intText (minutes m.timeLimit)] else []) ++
      [txt "map " ++ m.name]), Quiet t := by
    intro t ht
    obtain ⟨htype, hcapture, hfrag, htime, hmap⟩ := heads_command
    simp only [List.mem_append, List.mem_singleton] at ht
    rcases ht with (((rfl | ht) | ht) | ht) | rfl
    · exact quiet_setting htype (quiet_of_bareWord (bareWord_natText _))
    · exact hite (quiet_setting hcapture (quiet_of_bareWord (bareWord_intText _))) ht
    · exact hite (quiet_setting hfrag (quiet_of_bareWord (bareWord_intText _))) ht
    · exact hite (quiet_setting htime (quiet_of_bareWord (bareWord_intText _))) ht
    · exact quiet_setting hmap (quiet_name h)
  have hsep : Quiet (txt " ; ") := by with_unfolding_all decide
  intro c hc
  rcases mem_joinText hc with hc | ⟨t, ht, hc⟩
  · exact hsep c hc
  · exact hparts t ht c hc

theorem quiet_entryText {m : Map} (h : NameWord m.name) {next : Text} (hn : BareWord next) :
    Quiet (entryText m next) := by
  obtain ⟨hseta, -⟩ := heads_entry
  have hset : Quiet (txt " ; set nextmap vstr ") := by with_unfolding_all decide
  have hnext := hset.append (quiet_of_bareWord hn)
  have hall := (quiet_setting hseta (quiet_command h)).append hnext
  rwa [← List.append_assoc] at hall

theorem Quiet.quote {t : Text} (h : Quiet t) : '"' ∉ t := fun hc => (h _ hc).1 rfl

theorem Quiet.newline {t : Text} (h : Quiet t) : '\n' ∉ t := fun hc => (h _ hc).2 rfl

/-- **The commands of an entry.** -/
theorem commands_entryText {m : Map} (h : NameWord m.name) {next : Text} (hn : BareWord next) :
    commands (entryText m next) = entryCommands m next := by
  rw [commands_eq (quiet_entryText h hn).newline]
  apply lineCommands_eq (pieces_entryText h hn)
  · simp [entryCommands]
  · intro c hc
    rcases List.mem_cons.mp hc with rfl | hc
    · exact List.cons_ne_nil _ _
    · rcases entryRest_cases hc with ⟨v, -, w, rfl⟩ | rfl | rfl <;> exact List.cons_ne_nil _ _

/-! ### The whole script -/

/-- The definition of the entry `i` of `n`. -/
def entryDef (n : ℕ) (m : Map) (i : ℕ) : Command :=
  [txt "set", entryVar i, entryText m (entryVar ((i + 1) % n))]

theorem commands_entryLine {m : Map} (h : NameWord m.name) (n i : ℕ) (r : Text) :
    commands (entryLine n m i ++ r) = entryDef n m i :: commands r := by
  have hnext := bareWord_entryVar ((i + 1) % n)
  have hquiet := quiet_entryText h hnext
  obtain ⟨-, hset, -⟩ := heads_entry
  have hopen : txt " \"" = [' ', '"'] := by with_unfolding_all decide
  have hclose : txt "\"\n" = ['"', '\n'] := by with_unfolding_all decide
  have hline : entryLine n m i ++ r = (txt "set" ++ ' ' :: (entryVar i ++ ' ' ::
      ('"' :: (entryText m (entryVar ((i + 1) % n)) ++ ['"'])))) ++ '\n' :: r := by
    rw [entryLine, hset.2, hopen, hclose]
    simp only [List.append_assoc, List.cons_append, List.nil_append]
  have hpieces : Pieces (txt "set" ++ ' ' :: (entryVar i ++ ' ' ::
      ('"' :: (entryText m (entryVar ((i + 1) % n)) ++ ['"'])))) (pieces [entryDef n m i]) :=
    .append (.word hset.1) (.append (.word (bareWord_entryVar i)) (.quoted hquiet.quote))
  have hn : '\n' ∉ txt "set" ++ ' ' :: (entryVar i ++ ' ' ::
      ('"' :: (entryText m (entryVar ((i + 1) % n)) ++ ['"']))) := by
    have h1 := (quiet_of_bareWord hset.1).newline
    have h2 := (quiet_of_bareWord (bareWord_entryVar i)).newline
    have h3 := hquiet.newline
    simp [h1, h2, h3]
  rw [hline, commands_line hn, lineCommands_eq hpieces (by simp) (by simp [entryDef])]
  rfl

/-- The definitions of the entries from `k` on. -/
def entryDefs (n k : ℕ) (maps : List Map) : List Command := (maps.zipIdx k).map fun (m, i) => entryDef n m i

theorem commands_entryLines {maps : List Map} (h : ∀ m ∈ maps, NameWord m.name) (n k : ℕ) (r : Text) :
    commands (((maps.zipIdx k).flatMap fun (m, i) => entryLine n m i) ++ r) =
      entryDefs n k maps ++ commands r := by
  induction maps generalizing k with
  | nil => rfl
  | cons m maps ih =>
    rw [List.zipIdx_cons, List.flatMap_cons, List.append_assoc, commands_entryLine (h m List.mem_cons_self),
      ih fun m' hm => h m' (List.mem_cons_of_mem _ hm)]
    rfl

/-- **What the console is told**: every definition, then to run the first entry. -/
theorem commands_marshalMaps_append {maps : List Map} (h : ∀ m ∈ maps, NameWord m.name) (hne : maps ≠ [])
    (r : Text) : commands (marshalMaps maps ++ r) =
      entryDefs maps.length 0 maps ++ [txt "vstr", entryVar 0] :: commands r := by
  have hline : txt "vstr d0\n" = (txt "vstr" ++ ' ' :: entryVar 0) ++ ['\n'] := by with_unfolding_all decide
  have hn : '\n' ∉ txt "vstr" ++ ' ' :: entryVar 0 := by with_unfolding_all decide
  have hvstr : lineCommands (txt "vstr" ++ ' ' :: entryVar 0) = [[txt "vstr", entryVar 0]] := by
    with_unfolding_all decide
  have hlast : commands (txt "vstr d0\n" ++ r) = [txt "vstr", entryVar 0] :: commands r := by
    rw [hline, List.append_assoc, List.singleton_append, commands_line hn, hvstr, List.singleton_append]
  calc commands (marshalMaps maps ++ r)
      = entryDefs maps.length 0 maps ++ commands (txt "vstr d0\n" ++ r) := by
        rw [marshalMaps, if_pos (List.length_pos_iff.mpr hne), List.append_assoc, commands_entryLines h]
    _ = entryDefs maps.length 0 maps ++ [txt "vstr", entryVar 0] :: commands r := by rw [hlast]

theorem commands_marshalMaps {maps : List Map} (h : ∀ m ∈ maps, NameWord m.name) (hne : maps ≠ []) :
    commands (marshalMaps maps) = entryDefs maps.length 0 maps ++ [[txt "vstr", entryVar 0]] := by
  have happ := commands_marshalMaps_append h hne []
  rwa [List.append_nil] at happ

/-! ### Running it -/

theorem entryVar_injective {i j : ℕ} (h : entryVar i = entryVar j) : i = j := by
  have hd := congrArg parseNat (List.cons.inj h).2
  rw [parseNat_natText, parseNat_natText] at hd
  exact Option.some.inj hd

theorem entryVar_ne {v : Text} (h : v.head? ≠ some 'd') (i : ℕ) : entryVar i ≠ v := by
  rintro rfl
  exact h rfl

theorem apply_entryDef (n : ℕ) (m : Map) (i : ℕ) (s : Console) :
    s.apply (entryDef n m i) = s.setCvar (entryVar i) (entryText m (entryVar ((i + 1) % n))) :=
  Console.apply_set (by with_unfolding_all decide) s

theorem target_entryDef (n : ℕ) (m : Map) (i : ℕ) : target (entryDef n m i) = some (entryVar i) := by
  have hset : txt "set" ∈ setters := by with_unfolding_all decide
  simp only [entryDef, target]
  rw [if_pos hset]

/-- Later definitions are of other entries. -/
theorem target_entryDefs {n k i : ℕ} {maps : List Map} (h : i < k) :
    ∀ c ∈ entryDefs n k maps, target c ≠ some (entryVar i) := by
  intro c hc
  simp only [entryDefs, List.mem_map, Prod.exists] at hc
  obtain ⟨m, j, hmem, rfl⟩ := hc
  have hj := List.le_snd_of_mem_zipIdx hmem
  rw [target_entryDef]
  intro hv
  have := entryVar_injective (Option.some.inj hv)
  omega

/-- Every definition is there after all of them. -/
theorem cvar_entryDefs {n k i : ℕ} {maps : List Map} {m : Map} (h : maps[i]? = some m) (s : Console) :
    ((entryDefs n k maps).foldl Console.apply s).cvar (entryVar (k + i)) =
      some (entryText m (entryVar ((k + i + 1) % n))) := by
  induction maps generalizing k i s with
  | nil => simp at h
  | cons m' maps ih =>
    have hcons : entryDefs n k (m' :: maps) = entryDef n m' k :: entryDefs n (k + 1) maps := rfl
    rw [hcons, List.foldl_cons, apply_entryDef]
    cases i with
    | zero =>
      obtain rfl : m' = m := by simpa using h
      rw [foldl_apply_cvar (target_entryDefs (by omega))]
      exact Function.update_self _ _ _
    | succ i =>
      have h' : maps[i]? = some m := by simpa using h
      have hi := ih (k := k + 1) h' (s.setCvar (entryVar k) (entryText m' (entryVar ((k + 1) % n))))
      rw [show k + (i + 1) = k + 1 + i by omega]
      exact hi

theorem vstr?_entryDefs (n k : ℕ) (maps : List Map) : ∀ c ∈ entryDefs n k maps, vstr? c = none := by
  intro c hc
  simp only [entryDefs, List.mem_map, Prod.exists] at hc
  obtain ⟨m, j, -, rfl⟩ := hc
  rfl

theorem head?_entryDefs (n k : ℕ) (maps : List Map) : ∀ c ∈ entryDefs n k maps, c.head? ≠ some (txt "map") := by
  have hset : txt "set" ≠ txt "map" := by with_unfolding_all decide
  intro c hc
  simp only [entryDefs, List.mem_map, Prod.exists] at hc
  obtain ⟨m, j, -, rfl⟩ := hc
  exact fun h => hset (Option.some.inj h)

theorem vstr?_entryCommands {m : Map} {next : Text} : ∀ c ∈ entryCommands m next, vstr? c = none := by
  have hne : ∀ v ∈ [txt "capturelimit", txt "fraglimit", txt "timelimit"], v ≠ txt "vstr" := by
    with_unfolding_all decide
  have hmap : txt "map" ≠ txt "vstr" := by with_unfolding_all decide
  intro c hc
  rcases List.mem_cons.mp hc with rfl | hc
  · rfl
  rcases entryRest_cases hc with ⟨v, hv, w, rfl⟩ | rfl | rfl
  · exact if_neg (hne v hv)
  · unfold mapCommand
    split_ifs
    · rfl
    · exact if_neg hmap
  · rfl

/-- The console after an entry. -/
def played (m : Map) (next : Text) (s : Console) : Console := (entryCommands m next).foldl Console.apply s

theorem executes_entry (m : Map) (next : Text) (s : Console) :
    Executes (entryCommands m next) s (played m next s) :=
  executes_foldl vstr?_entryCommands s

/-- The limits are variables of their own. -/
theorem limit_names : ∀ v ∈ [txt "capturelimit", txt "fraglimit", txt "timelimit"],
    v ∉ setters ∧ v ≠ txt "map" := by with_unfolding_all decide

theorem target_limit {v : Text} (hv : v ∈ [txt "capturelimit", txt "fraglimit", txt "timelimit"]) (w : Text) :
    target [v, w] = some v := by
  obtain ⟨h1, h2⟩ := limit_names v hv
  rw [target, if_neg h1, if_neg h2]

theorem target_mapCommand (name : Text) : target (mapCommand name) = none := by
  have hmap : txt "map" ∉ setters := by with_unfolding_all decide
  unfold mapCommand
  split_ifs
  · rfl
  · rw [target, if_neg hmap, if_pos rfl]

theorem target_set (v w : Text) (ws : List Text) : target (txt "set" :: v :: w :: ws) = some v := by
  have hset : txt "set" ∈ setters := by with_unfolding_all decide
  exact if_pos hset

/-- What is set after the game type: limits and the next map. -/
theorem target_entryRest {m : Map} {next : Text} {c : Command} (hc : c ∈ entryRest m next) {v : Text}
    (h : target c = some v) : v ∈ [txt "capturelimit", txt "fraglimit", txt "timelimit", txt "nextmap"] := by
  rcases entryRest_cases hc with ⟨v', hv', w, rfl⟩ | rfl | rfl
  · rw [target_limit hv'] at h
    rw [← Option.some.inj h]
    exact List.mem_append_left [txt "nextmap"] hv'
  · rw [target_mapCommand] at h
    cases h
  · rw [target_set] at h
    simp [← Option.some.inj h]

theorem apply_gametype (m : Map) (s : Console) :
    s.apply [txt "seta", txt "g_gametype", natText m.type.number] =
      s.setCvar (txt "g_gametype") (natText m.type.number) :=
  Console.apply_set (by with_unfolding_all decide) s

/-- An entry leaves the others alone. -/
theorem played_entryVar (m : Map) (next : Text) (i : ℕ) (s : Console) :
    (played m next s).cvar (entryVar i) = s.cvar (entryVar i) := by
  have hhead : ∀ v ∈ [txt "capturelimit", txt "fraglimit", txt "timelimit", txt "nextmap"],
      v.head? ≠ some 'd' := by with_unfolding_all decide
  have hrest : ∀ c ∈ entryRest m next, target c ≠ some (entryVar i) := fun c hc ht =>
    entryVar_ne (hhead _ (target_entryRest hc ht)) i rfl
  have hg : entryVar i ≠ txt "g_gametype" := entryVar_ne (by with_unfolding_all decide) i
  rw [played, entryCommands, List.foldl_cons, foldl_apply_cvar hrest, apply_gametype]
  exact Function.update_of_ne hg _ _

/-- After an entry the game type is the map's. -/
theorem played_gametype (m : Map) (next : Text) (s : Console) :
    (played m next s).cvar (txt "g_gametype") = some (natText m.type.number) := by
  have hne : txt "g_gametype" ∉ [txt "capturelimit", txt "fraglimit", txt "timelimit", txt "nextmap"] := by
    with_unfolding_all decide
  have hrest : ∀ c ∈ entryRest m next, target c ≠ some (txt "g_gametype") := fun c hc ht =>
    hne (target_entryRest hc ht)
  rw [played, entryCommands, List.foldl_cons, foldl_apply_cvar hrest, apply_gametype]
  exact Function.update_self _ _ _

/-- The console with every entry defined. -/
def defined (maps : List Map) (s : Console) : Console := (entryDefs maps.length 0 maps).foldl Console.apply s

theorem defined_entryVar {maps : List Map} {i : ℕ} {m : Map} (hm : maps[i]? = some m) (s : Console) :
    (defined maps s).cvar (entryVar i) = some (entryText m (entryVar ((i + 1) % maps.length))) := by
  have hi := cvar_entryDefs (n := maps.length) (k := 0) hm s
  rwa [Nat.zero_add] at hi

/-- **The script defines the entries and runs the first.** -/
theorem executes_script {maps : List Map} (h : ∀ m ∈ maps, NameWord m.name) {m : Map} (hm : maps[0]? = some m)
    (s : Console) : Executes (commands (marshalMaps maps)) s
      (played m (entryVar ((0 + 1) % maps.length)) (defined maps s)) := by
  have hmem : m ∈ maps := List.mem_of_getElem? hm
  have hplay : ∀ s1, Executes (commands (entryText m (entryVar ((0 + 1) % maps.length))) ++ []) s1
      (played m (entryVar ((0 + 1) % maps.length)) s1) := by
    intro s1
    rw [List.append_nil, commands_entryText (h m hmem) (bareWord_entryVar _)]
    exact executes_entry m _ s1
  rw [commands_marshalMaps h (List.ne_nil_of_mem hmem)]
  exact (executes_foldl (vstr?_entryDefs maps.length 0 maps) s).append
    (.vstr (defined_entryVar hm s) (hplay _))

/-- **Every entry is there once the script has run.** -/
theorem executes_marshalMaps {maps : List Map} (h : ∀ m ∈ maps, NameWord m.name) (hne : maps ≠ [])
    (s : Console) : ∃ s', Executes (commands (marshalMaps maps)) s s' ∧ ∀ i m, maps[i]? = some m →
      s'.cvar (entryVar i) = some (entryText m (entryVar ((i + 1) % maps.length))) := by
  obtain ⟨m0, h0⟩ : ∃ m0, maps[0]? = some m0 := by
    cases maps with
    | nil => exact absurd rfl hne
    | cons m0 rest => exact ⟨m0, rfl⟩
  refine ⟨_, executes_script h h0 s, fun i m hm => ?_⟩
  rw [played_entryVar]
  exact defined_entryVar hm s

/-- The entry `i` that the script defines sets the game type to `n`. -/
def SetsGameType (script : Text) (i n : ℕ) : Prop :=
  ∀ s, ∃ s' t s'', Executes (commands script) s s' ∧ s'.cvar (entryVar i) = some t ∧
    Executes (commands t) s' s'' ∧ s''.cvar (txt "g_gametype") = some (natText n)

/-- **An entry of the rotation sets the type of its map, and no other.** -/
theorem setsGameType_iff {maps : List Map} (h : ∀ m ∈ maps, NameWord m.name) {i : ℕ} {m : Map}
    (hm : maps[i]? = some m) (n : ℕ) : SetsGameType (marshalMaps maps) i n ↔ m.type.number = n := by
  have hmem : m ∈ maps := List.mem_of_getElem? hm
  have hne : maps ≠ [] := List.ne_nil_of_mem hmem
  have hplay : ∀ s, Executes (commands (entryText m (entryVar ((i + 1) % maps.length)))) s
      (played m (entryVar ((i + 1) % maps.length)) s) := by
    intro s
    rw [commands_entryText (h m hmem) (bareWord_entryVar _)]
    exact executes_entry m _ s
  constructor
  · intro hs
    obtain ⟨s1, t, s2, hx1, ht, hx2, hg⟩ := hs ⟨fun _ => none, [], []⟩
    obtain ⟨s1', hx1', hdefs⟩ := executes_marshalMaps h hne ⟨fun _ => none, [], []⟩
    obtain rfl := hx1.det hx1'
    rw [hdefs i m hm] at ht
    obtain rfl := Option.some.inj ht
    obtain rfl := hx2.det (hplay s1)
    rw [played_gametype] at hg
    have hn := congrArg parseNat (Option.some.inj hg)
    rw [parseNat_natText, parseNat_natText] at hn
    exact Option.some.inj hn
  · rintro rfl s
    obtain ⟨s1, hx1, hdefs⟩ := executes_marshalMaps h hne s
    exact ⟨s1, _, _, hx1, hdefs i m hm, hplay s1, played_gametype m _ s1⟩

end Server
end QuakeKube
