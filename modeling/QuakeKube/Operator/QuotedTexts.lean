/-
# The quoted texts of the configuration file

The message of the day, the two passwords, the hostname and the commands are
written with `%q`. Whatever the text, it is one double-quoted scalar on one line,
which is read back as that text, and the rest of the file is read as it would be
with any other text in its place (`quoted_reads_back`): nothing in it ends its
quotes or its line.

This holds of every configuration, also of one whose map names make the file
unreadable.

Key definitions: `Place`, `Place.set`, `Place.Written`.
Key theorems: `generateConfigYAML_set`, `quoted_reads_back`.
-/
import QuakeKube.Lib.YamlHole
import QuakeKube.Operator.ConfigYaml

namespace QuakeKube
namespace Operator

open Go Yaml

/-! ### The places -/

/-- Where a text is written quoted. -/
inductive Place
  | motd
  | gamePassword
  | hostname
  | rconPassword
  | command (i : ℕ)
deriving DecidableEq

namespace Place

/-- The text at the place, none where there is no such section or command. -/
def text (c : ServerConfigSpec) : Place → Option Text
  | .motd => c.game.map (·.motd)
  | .gamePassword => c.game.map (·.password)
  | .hostname => c.server.map (·.hostname)
  | .rconPassword => c.server.map (·.rconPassword)
  | .command i => c.commands[i]?

/-- The configuration with another text at the place. -/
def set (c : ServerConfigSpec) (s : Text) : Place → ServerConfigSpec
  | .motd => { c with game := c.game.map fun g => { g with motd := s } }
  | .gamePassword => { c with game := c.game.map fun g => { g with password := s } }
  | .hostname => { c with server := c.server.map fun t => { t with hostname := s } }
  | .rconPassword => { c with server := c.server.map fun t => { t with rconPassword := s } }
  | .command i => { c with commands := c.commands.set i s }

/-- Only commands are written when they are empty. -/
def Written (s : Text) : Place → Prop
  | .motd | .gamePassword | .hostname | .rconPassword => s ≠ []
  | .command _ => True

/-- What stands before the text on its line. -/
def key : Place → Text
  | .motd => txt "  motd: "
  | .gamePassword => txt "  password: "
  | .hostname => txt "  hostname: "
  | .rconPassword => txt "  password: "
  | .command _ => txt "  - "

theorem set_text {c : ServerConfigSpec} {pl : Place} {s : Text} (h : pl.text c = some s) : pl.set c s = c := by
  obtain ⟨fl, tl, g, t, b, ms, cs⟩ := c
  cases pl with
  | motd | gamePassword =>
    obtain ⟨g, rfl, rfl⟩ := Option.map_eq_some_iff.mp h
    rfl
  | hostname | rconPassword =>
    obtain ⟨t, rfl, rfl⟩ := Option.map_eq_some_iff.mp h
    rfl
  | command i =>
    have hs : cs.set i s = cs := by
      obtain ⟨hi, hget⟩ := List.getElem?_eq_some_iff.mp h
      rw [← hget, List.set_getElem_self]
    simp only [set, hs]

theorem newline_not_mem_key (pl : Place) : '\n' ∉ pl.key := by
  cases pl <;> simp [key, txt]

/-- No text at a place changes how the names and types are read. -/
theorem readable_set {c : ServerConfigSpec} (h : Readable c) (pl : Place) (s : Text) :
    Readable (pl.set c s) := by
  cases pl with
  | motd | gamePassword =>
    refine ⟨h.names, h.mapTypes, fun g hg => ?_⟩
    obtain ⟨g', hg', rfl⟩ := Option.map_eq_some_iff.mp hg
    exact h.gameType g' hg'
  | hostname | rconPassword | command i => exact ⟨h.names, h.mapTypes, h.gameType⟩

end Place

/-! ### Lines of the file -/

variable {P : PrintTable} {pl : Place} {f : Text → Text}

theorem wholeLines_line (pre : String) (v : Text) : WholeLines (line pre v) := .inr ⟨txt pre ++ v, rfl⟩

theorem wholeLines_given {α : Type} {f : α → Text} (h : ∀ a, WholeLines (f a)) (o : Option α) :
    WholeLines (given o f) := by
  cases o with
  | none => exact .nil
  | some a => exact h a

theorem wholeLines_ite {p : Prop} [Decidable p] {t : Text} (h : WholeLines t) :
    WholeLines (if p then t else []) := by
  split_ifs
  · exact h
  · exact .nil

theorem wholeLines_header {header key : String} (h : IsHeader header key) : WholeLines (txt header) := by
  refine .inr ⟨txt key ++ [':'], ?_⟩
  rw [h.shape, List.append_assoc]
  rfl

theorem wholeLines_bot (b : BotConfigSpec) : WholeLines (botYAML b) :=
  (((wholeLines_header lines_bot.1).append (wholeLines_given (fun _ => wholeLines_line _ _) _)).append
    (wholeLines_given (fun _ => wholeLines_line _ _) _)).append (wholeLines_ite (wholeLines_line _ _))

theorem wholeLines_game (g : GameConfigSpec) : WholeLines (gameYAML P g) :=
  ((((((wholeLines_header lines_game.1).append (wholeLines_ite (wholeLines_line _ _))).append
    (wholeLines_ite (wholeLines_line _ _))).append (wholeLines_ite (wholeLines_line _ _))).append
    (wholeLines_given (fun _ => wholeLines_line _ _) _)).append
    (wholeLines_given (fun _ => wholeLines_line _ _) _)).append (wholeLines_ite (wholeLines_line _ _)) |>.append
    (wholeLines_given (fun _ => wholeLines_line _ _) _)

theorem wholeLines_server (s : ServerSettings) : WholeLines (serverYAML P s) :=
  (((wholeLines_header lines_server.1).append (wholeLines_ite (wholeLines_line _ _))).append
    (wholeLines_given (fun _ => wholeLines_line _ _) _)).append (wholeLines_ite (wholeLines_line _ _))

theorem wholeLines_map (m : MapSpec) : WholeLines (mapYAML m) :=
  ((((wholeLines_line _ _).append (wholeLines_ite (wholeLines_line _ _))).append
    (wholeLines_given (fun _ => wholeLines_line _ _) _)).append
    (wholeLines_given (fun _ => wholeLines_line _ _) _)).append
      (wholeLines_given (fun _ => wholeLines_line _ _) _)

theorem wholeLines_maps (maps : List MapSpec) : WholeLines (mapsYAML maps) :=
  wholeLines_ite ((wholeLines_header headers_lists.1).append (.flatMap wholeLines_map))

/-! ### Around a quoted text -/

/-- `f` writes a text that is quoted at `pl`: whole lines before, its line, and
what follows are the same for every text. -/
def Around (P : PrintTable) (pl : Place) (f : Text → Text) : Prop :=
  ∃ before after, WholeLines before ∧
    ∀ s, pl.Written s → f s = before ++ (pl.key ++ quote P s ++ '\n' :: after)

theorem Around.left {t : Text} (ht : WholeLines t) (h : Around P pl f) : Around P pl fun s => t ++ f s := by
  obtain ⟨before, after, hb, h⟩ := h
  refine ⟨t ++ before, after, ht.append hb, fun s hs => ?_⟩
  show t ++ f s = _
  rw [h s hs]
  simp

theorem Around.right (h : Around P pl f) (t : Text) : Around P pl fun s => f s ++ t := by
  obtain ⟨before, after, hb, h⟩ := h
  refine ⟨before, after ++ t, hb, fun s hs => ?_⟩
  show f s ++ t = _
  rw [h s hs]
  simp

theorem Around.line {pre : String} (hk : pl.key = txt pre) :
    Around P pl fun s => Operator.line pre (quote P s) := by
  refine ⟨[], [], .nil, fun s _ => ?_⟩
  rw [hk]
  rfl

/-- A text that is written when it is not empty. -/
theorem Around.ite {pre : String} (hk : pl.key = txt pre) (hw : ∀ s, pl.Written s → s ≠ []) :
    Around P pl fun s => if s ≠ [] then Operator.line pre (quote P s) else [] := by
  obtain ⟨before, after, hb, h⟩ := Around.line (P := P) hk
  refine ⟨before, after, hb, fun s hs => ?_⟩
  rw [← h s hs]
  exact if_pos (hw s hs)

theorem around_motd (g : GameConfigSpec) : Around P .motd fun s => gameYAML P { g with motd := s } := by
  have hbefore : WholeLines (txt "game:\n" ++ if g.type ≠ [] then line "  type: " g.type else []) :=
    (wholeLines_header lines_game.1).append (wholeLines_ite (wholeLines_line _ _))
  have hline : Around P .motd fun s => if s ≠ [] then line "  motd: " (quote P s) else [] :=
    Around.ite rfl fun _ hs => hs
  exact (((((hline.left hbefore).right
    (if g.forceRespawn then line "  forceRespawn: " (txt "true") else [])).right
    (given g.inactivity fun d => line "  inactivity: " d.text)).right
    (given g.quadFactor fun n => line "  quadFactor: " (intText n.toInt))).right
    (if g.password ≠ [] then line "  password: " (quote P g.password) else [])).right
    (given g.weaponRespawn fun n => line "  weaponRespawn: " (intText n.toInt))

theorem around_gamePassword (g : GameConfigSpec) :
    Around P .gamePassword fun s => gameYAML P { g with password := s } := by
  have hbefore : WholeLines (txt "game:\n" ++ (if g.type ≠ [] then line "  type: " g.type else []) ++
      (if g.motd ≠ [] then line "  motd: " (quote P g.motd) else []) ++
      (if g.forceRespawn then line "  forceRespawn: " (txt "true") else []) ++
      given g.inactivity (fun d => line "  inactivity: " d.text) ++
      given g.quadFactor (fun n => line "  quadFactor: " (intText n.toInt))) :=
    (((((wholeLines_header lines_game.1).append (wholeLines_ite (wholeLines_line _ _))).append
      (wholeLines_ite (wholeLines_line _ _))).append (wholeLines_ite (wholeLines_line _ _))).append
      (wholeLines_given (fun _ => wholeLines_line _ _) _)).append
        (wholeLines_given (fun _ => wholeLines_line _ _) _)
  have hline : Around P .gamePassword fun s => if s ≠ [] then line "  password: " (quote P s) else [] :=
    Around.ite rfl fun _ hs => hs
  exact (hline.left hbefore).right (given g.weaponRespawn fun n => line "  weaponRespawn: " (intText n.toInt))

theorem around_hostname (t : ServerSettings) :
    Around P .hostname fun s => serverYAML P { t with hostname := s } := by
  have hline : Around P .hostname fun s => if s ≠ [] then line "  hostname: " (quote P s) else [] :=
    Around.ite rfl fun _ hs => hs
  exact ((hline.left (wholeLines_header lines_server.1)).right
    (given t.maxClients fun n => line "  maxClients: " (intText n.toInt))).right
    (if t.rconPassword ≠ [] then line "  password: " (quote P t.rconPassword) else [])

theorem around_rconPassword (t : ServerSettings) :
    Around P .rconPassword fun s => serverYAML P { t with rconPassword := s } := by
  have hbefore : WholeLines (txt "server:\n" ++
      (if t.hostname ≠ [] then line "  hostname: " (quote P t.hostname) else []) ++
      given t.maxClients (fun n => line "  maxClients: " (intText n.toInt))) :=
    ((wholeLines_header lines_server.1).append (wholeLines_ite (wholeLines_line _ _))).append
      (wholeLines_given (fun _ => wholeLines_line _ _) _)
  have hline : Around P .rconPassword fun s => if s ≠ [] then line "  password: " (quote P s) else [] :=
    Around.ite rfl fun _ hs => hs
  exact hline.left hbefore

theorem around_command {cs : List Text} {i : ℕ} (hi : i < cs.length) :
    Around P (.command i) fun s => commandsYAML P (cs.set i s) := by
  have hline : Around P (.command i) fun s => line "  - " (quote P s) := Around.line rfl
  have hbefore : WholeLines (txt "commands:\n" ++ (cs.take i).flatMap fun cmd => line "  - " (quote P cmd)) :=
    (wholeLines_header headers_lists.2).append (.flatMap fun _ => wholeLines_line _ _)
  obtain ⟨before, after, hb, h⟩ :=
    (hline.left hbefore).right ((cs.drop (i + 1)).flatMap fun cmd => line "  - " (quote P cmd))
  refine ⟨before, after, hb, fun s hs => ?_⟩
  have hlen : 0 < (cs.set i s).length := by
    rw [List.length_set]
    omega
  rw [← h s hs]
  show commandsYAML P (cs.set i s) = _
  rw [commandsYAML, if_pos hlen, List.set_eq_take_append_cons_drop, if_pos hi, List.flatMap_append,
    List.flatMap_cons]
  simp only [List.append_assoc]

/-- **The file around a quoted text.** -/
theorem around_generateConfigYAML {c : ServerConfigSpec} (h : (pl.text c).isSome = true) :
    Around P pl fun s => generateConfigYAML P (some (pl.set c s)) := by
  have hfirst : WholeLines (line "fragLimit: " (intText (c.fragLimit.getD 25).toInt) ++
      line "timeLimit: " (timeLimitText c) ++ given c.bot botYAML) :=
    ((wholeLines_line _ _).append (wholeLines_line _ _)).append (wholeLines_given wholeLines_bot _)
  obtain ⟨t, ht⟩ := Option.isSome_iff_exists.mp h
  obtain ⟨fl, tl, g, sv, b, ms, cs⟩ := c
  have hgame : ∀ g : Option GameConfigSpec, WholeLines (given g (gameYAML P)) :=
    wholeLines_given wholeLines_game
  cases pl with
  | motd =>
    obtain ⟨g, rfl, -⟩ := Option.map_eq_some_iff.mp ht
    dsimp only [generateConfigYAML, Place.set, Option.map_some, timeLimitText]
    exact ((((around_motd g).left hfirst).right _).right _).right _
  | gamePassword =>
    obtain ⟨g, rfl, -⟩ := Option.map_eq_some_iff.mp ht
    dsimp only [generateConfigYAML, Place.set, Option.map_some, timeLimitText]
    exact ((((around_gamePassword g).left hfirst).right _).right _).right _
  | hostname =>
    obtain ⟨t, rfl, -⟩ := Option.map_eq_some_iff.mp ht
    dsimp only [generateConfigYAML, Place.set, Option.map_some, timeLimitText]
    exact (((around_hostname t).left (hfirst.append (hgame g))).right _).right _
  | rconPassword =>
    obtain ⟨t, rfl, -⟩ := Option.map_eq_some_iff.mp ht
    dsimp only [generateConfigYAML, Place.set, Option.map_some, timeLimitText]
    exact (((around_rconPassword t).left (hfirst.append (hgame g))).right _).right _
  | command i =>
    have hi : i < cs.length := (List.getElem?_eq_some_iff.mp ht).1
    dsimp only [generateConfigYAML, Place.set, timeLimitText]
    exact (around_command hi).left (((hfirst.append (hgame g)).append
      (wholeLines_given wholeLines_server _)).append (wholeLines_maps ms))

/-! ### Reading -/

/-- The line of a quoted text: its key or dash, and the text. -/
theorem lexLine_place (P : PrintTable) (pl : Place) : ∃ ts col, ∀ s,
    lexLine (pl.key ++ quote P s) = some (ts ++ [quotedTok col s]) := by
  have hfield : ∀ {pre key : String}, IsLine pre 2 key → ∀ s,
      lexLine (txt pre ++ quote P s) = some ([⟨2, .key (txt key)⟩] ++ [quotedTok 3 s]) := by
    intro pre key h s
    rw [h.shape, show spaces 2 ++ txt key ++ [':', ' '] ++ quote P s =
      spaces 2 ++ (txt key ++ ':' :: ' ' :: quote P s) by simp]
    exact lexLine_field h.isKey (.quote P s)
  obtain ⟨-, -, lmotd, -, -, -, lpass, -⟩ := lines_game
  obtain ⟨-, lhost, -, -⟩ := lines_server
  cases pl with
  | motd => exact ⟨_, _, hfield lmotd⟩
  | gamePassword | rconPassword => exact ⟨_, _, hfield lpass⟩
  | hostname => exact ⟨_, _, hfield lhost⟩
  | command i =>
    refine ⟨[⟨2, .dash⟩], 4, fun s => ?_⟩
    have hpre : txt "  - " = spaces 2 ++ ['-', ' '] := by with_unfolding_all decide
    rw [Place.key, hpre, List.append_assoc]
    exact lexLine_item (.quote P s) (by simp [quote])

/-- What Go quotes is a double-quoted scalar on one line: no character in it ends
a line, and the scalar ends where the quoted text does, whatever follows. -/
structure OneScalar (P : PrintTable) (s : Text) : Prop where
  allowed : (quote P s).all allowed = true
  line : '\n' ∉ quote P s
  scalar : ∀ rest, lexScalar (quote P s ++ rest) = some (.quoted s, rest)

theorem oneScalar_quote (P : PrintTable) (s : Text) : OneScalar P s where
  allowed := (Reads.quote P s).allowed
  line := newline_not_mem (Reads.quote P s).allowed
  scalar rest := by
    show (readQuoted ((quote P s).tail ++ rest)).map _ = _
    rw [readQuoted_quote]
    rfl

/-- **Every quoted text reads back**, as one scalar on one line, and what follows
it is read as with any other text; if the map names make the file readable at all,
all of it is read as what was written. -/
theorem quoted_reads_back (N : Numbers) (P : PrintTable) (c : ServerConfigSpec) (pl : Place)
    (h : (pl.text c).isSome = true) :
    (∀ s, pl.text c = some s → pl.set c s = c) ∧ (∀ s, OneScalar P s) ∧
      Around P pl (fun s => generateConfigYAML P (some (pl.set c s))) ∧
      ((∀ s, pl.Written s → load N (generateConfigYAML P (some (pl.set c s))) = none) ∨
        ∃ ctx : Ctx, ∀ s, pl.Written s →
          load N (generateConfigYAML P (some (pl.set c s))) = some (ctx.fill (.str s))) ∧
      (Readable c → ∀ s, load N (generateConfigYAML P (some (pl.set c s))) =
        some (.map (configEntries N (pl.set c s)))) := by
  have haround := around_generateConfigYAML (P := P) h
  refine ⟨fun s => Place.set_text, oneScalar_quote P, haround, ?_,
    fun hc s => load_generateConfigYAML N P (pl.readable_set hc s)⟩
  obtain ⟨before, after, hb, hf⟩ := haround
  obtain ⟨ts, col, hl⟩ := lexLine_place P pl
  have hn : ∀ s, '\n' ∉ pl.key ++ quote P s := fun s => by
    simp [pl.newline_not_mem_key, (oneScalar_quote P s).line]
  have hu : Uniform fun s => load N (before ++ (pl.key ++ quote P s ++ '\n' :: after)) := uniform_load hb hl hn
  beta_reduce at hf
  rcases hu with hu | ⟨ctx, hu⟩
  · left
    intro s hs
    rw [hf s hs]
    exact hu s
  · right
    refine ⟨ctx, fun s hs => ?_⟩
    rw [hf s hs]
    exact hu s

/-- A configuration with a password for the console. -/
def guarded : ServerConfigSpec :=
  { ServerConfigSpec.zero with server := some { ServerSettings.zero with rconPassword := txt "secret" } }

/-- Another password, with a quote and a line of its own in it, stays in its place. -/
theorem quoted_reads_back_password :
    load .none (generateConfigYAML .ascii7 (some (Place.rconPassword.set guarded (txt "\"\nmaps:")))) =
      some (.map (configEntries .none (Place.rconPassword.set guarded (txt "\"\nmaps:")))) := by
  have hread : Readable guarded := by
    refine ⟨?_, ?_, ?_⟩ <;> simp [guarded, ServerConfigSpec.zero]
  obtain ⟨-, -, -, -, h⟩ := quoted_reads_back .none .ascii7 guarded .rconPassword rfl
  exact h hread _

end Operator
end QuakeKube
