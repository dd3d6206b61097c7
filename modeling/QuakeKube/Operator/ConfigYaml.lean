/-
# The configuration file

`generateConfigYAML` writes the configuration of a server as YAML, line by line:
integers, durations, game types and map names as they are, texts quoted. When the
map names stand for themselves as plain scalars, the file is read as
`configEntries` (`load_generateConfigYAML`).

Key definitions: `generateConfigYAML`, `configEntries`.
Key theorem: `load_generateConfigYAML`.
-/
import QuakeKube.Lib.YamlWriter
import QuakeKube.Operator.Document

namespace QuakeKube
namespace Operator

open Go Yaml

/-! ### Writing -/

/-- A line with a value at its end. -/
def line (pre : String) (v : Text) : Text := txt pre ++ v ++ ['\n']

/-- What `f` writes for a value that is there. -/
def given {α β : Type} (o : Option α) (f : α → List β) : List β :=
  match o with
  | none => []
  | some a => f a

def botYAML (b : BotConfigSpec) : Text :=
  txt "bot:\n" ++
  given b.minPlayers (fun n => line "  minPlayers: " (intText n.toInt)) ++
  given b.skill (fun n => line "  skill: " (intText n.toInt)) ++
  (if b.noChat then line "  noChat: " (txt "true") else [])

def gameYAML (P : PrintTable) (g : GameConfigSpec) : Text :=
  txt "game:\n" ++
  (if g.type ≠ [] then line "  type: " g.type else []) ++
  (if g.motd ≠ [] then line "  motd: " (quote P g.motd) else []) ++
  (if g.forceRespawn then line "  forceRespawn: " (txt "true") else []) ++
  given g.inactivity (fun d => line "  inactivity: " d.text) ++
  given g.quadFactor (fun n => line "  quadFactor: " (intText n.toInt)) ++
  (if g.password ≠ [] then line "  password: " (quote P g.password) else []) ++
  given g.weaponRespawn (fun n => line "  weaponRespawn: " (intText n.toInt))

def serverYAML (P : PrintTable) (s : ServerSettings) : Text :=
  txt "server:\n" ++
  (if s.hostname ≠ [] then line "  hostname: " (quote P s.hostname) else []) ++
  given s.maxClients (fun n => line "  maxClients: " (intText n.toInt)) ++
  (if s.rconPassword ≠ [] then line "  password: " (quote P s.rconPassword) else [])

def mapYAML (m : MapSpec) : Text :=
  line "  - name: " m.name ++
  (if m.type ≠ [] then line "    type: " m.type else []) ++
  given m.captureLimit (fun n => line "    captureLimit: " (intText n.toInt)) ++
  given m.fragLimit (fun n => line "    fragLimit: " (intText n.toInt)) ++
  given m.timeLimit (fun d => line "    timeLimit: " d.text)

def mapsYAML (maps : List MapSpec) : Text :=
  if 0 < maps.length then txt "maps:\n" ++ maps.flatMap mapYAML else []

def commandsYAML (P : PrintTable) (commands : List Text) : Text :=
  if 0 < commands.length then txt "commands:\n" ++ commands.flatMap (fun cmd => line "  - " (quote P cmd))
  else []

/-- The text of the time limit. -/
def timeLimitText (c : ServerConfigSpec) : Text :=
  match c.timeLimit with
  | none => txt "15m"
  | some d => d.text

/-- `generateConfigYAML`. -/
def generateConfigYAML (P : PrintTable) : Option ServerConfigSpec → Text
  | none => txt "fragLimit: 25\ntimeLimit: 15m\n"
  | some c =>
    line "fragLimit: " (intText (c.fragLimit.getD 25).toInt) ++
    line "timeLimit: " (timeLimitText c) ++
    given c.bot botYAML ++
    given c.game (gameYAML P) ++
    given c.server (serverYAML P) ++
    mapsYAML c.maps ++
    commandsYAML P c.commands

/-! ### The document -/

/-- An entry with a value that is there. -/
def entry (key : String) (v : Node) : List (Text × Node) := [(txt key, v)]

def intEntry (key : String) (n : Int64) : List (Text × Node) := entry key (.int n.toInt)

def durationEntry (key : String) (d : Duration) : List (Text × Node) := entry key (.str d.text)

/-- An entry for a text that is not empty. -/
def textEntry (key : String) (t : Text) : List (Text × Node) := if t ≠ [] then entry key (.str t) else []

/-- An entry for what is true. -/
def trueEntry (key : String) (b : Bool) : List (Text × Node) := if b then entry key (.bool true) else []

def botEntries (b : BotConfigSpec) : List (Text × Node) :=
  given b.minPlayers (intEntry "minPlayers") ++ given b.skill (intEntry "skill") ++ trueEntry "noChat" b.noChat

def gameEntries (g : GameConfigSpec) : List (Text × Node) :=
  textEntry "type" g.type ++ textEntry "motd" g.motd ++ trueEntry "forceRespawn" g.forceRespawn ++
  given g.inactivity (durationEntry "inactivity") ++ given g.quadFactor (intEntry "quadFactor") ++
  textEntry "password" g.password ++ given g.weaponRespawn (intEntry "weaponRespawn")

def serverEntries (s : ServerSettings) : List (Text × Node) :=
  textEntry "hostname" s.hostname ++ given s.maxClients (intEntry "maxClients") ++
  textEntry "password" s.rconPassword

def mapEntries (N : Numbers) (m : MapSpec) : List (Text × Node) :=
  entry "name" (resolve N m.name) ++ textEntry "type" m.type ++
  given m.captureLimit (intEntry "captureLimit") ++ given m.fragLimit (intEntry "fragLimit") ++
  given m.timeLimit (durationEntry "timeLimit")

def listEntry (key : String) (vs : List Node) : List (Text × Node) :=
  if vs = [] then [] else entry key (.seq vs)

/-- What the file says. -/
def configEntries (N : Numbers) (c : ServerConfigSpec) : List (Text × Node) :=
  intEntry "fragLimit" (c.fragLimit.getD 25) ++ entry "timeLimit" (.str (timeLimitText c)) ++
  given c.bot (fun b => entry "bot" (mapping (botEntries b))) ++
  given c.game (fun g => entry "game" (mapping (gameEntries g))) ++
  given c.server (fun s => entry "server" (mapping (serverEntries s))) ++
  listEntry "maps" (c.maps.map fun m => .map (mapEntries N m)) ++
  listEntry "commands" (c.commands.map .str)

/-! ### Looking an entry up -/

section Lookup

variable (k : Text) (key : String)

theorem lookup_entry (v : Node) : lookup k (entry key v) = if k = txt key then some v else none := rfl

theorem lookup_given {α : Type} (o : Option α) (f : α → Node) :
    lookup k (given o fun a => entry key (f a)) = if k = txt key then o.map f else none := by
  cases o with
  | none => exact (ite_self _).symm
  | some a => rfl

theorem lookup_intEntry (o : Option Int64) :
    lookup k (given o (intEntry key)) = if k = txt key then o.map (fun n => .int n.toInt) else none :=
  lookup_given k key o _

theorem lookup_durationEntry (o : Option Duration) :
    lookup k (given o (durationEntry key)) = if k = txt key then o.map (fun d => .str d.text) else none :=
  lookup_given k key o _

theorem lookup_textEntry (t : Text) :
    lookup k (textEntry key t) = if k = txt key then (if t ≠ [] then some (.str t) else none) else none := by
  unfold textEntry
  split_ifs with ht hk hk
  · rw [lookup_entry, if_pos hk]
  · rw [lookup_entry, if_neg hk]
  · rfl
  · rfl

theorem lookup_trueEntry (b : Bool) :
    lookup k (trueEntry key b) = if k = txt key then (if b then some (.bool true) else none) else none := by
  unfold trueEntry
  split_ifs with hb hk hk
  · rw [lookup_entry, if_pos hk]
  · rw [lookup_entry, if_neg hk]
  · rfl
  · rfl

theorem lookup_listEntry (vs : List Node) :
    lookup k (listEntry key vs) = if k = txt key then (if vs = [] then none else some (.seq vs)) else none := by
  unfold listEntry
  split_ifs with hv hk hk
  · rfl
  · rfl
  · rw [lookup_entry, if_pos hk]
  · rw [lookup_entry, if_neg hk]

end Lookup

theorem lookup_mapEntries (N : Numbers) (m : MapSpec) (key : String) : lookup (txt key) (mapEntries N m) =
    ((((if key = "timeLimit" then m.timeLimit.map (fun d => .str d.text) else none).or
      (if key = "fragLimit" then m.fragLimit.map (fun n => .int n.toInt) else none)).or
      (if key = "captureLimit" then m.captureLimit.map (fun n => .int n.toInt) else none)).or
      (if key = "type" then (if m.type ≠ [] then some (.str m.type) else none) else none)).or
      (if key = "name" then some (resolve N m.name) else none) := by
  simp only [mapEntries, lookup_append, lookup_intEntry, lookup_textEntry, lookup_durationEntry, lookup_entry,
    txt_inj, Option.or_assoc]

theorem lookup_configEntries (N : Numbers) (c : ServerConfigSpec) (k : Text) :
    lookup k (configEntries N c) =
      ((((((if k = txt "commands" then (if c.commands.map Node.str = [] then none
          else some (.seq (c.commands.map .str))) else none).or
        (if k = txt "maps" then (if (c.maps.map fun m => Node.map (mapEntries N m)) = [] then none
          else some (.seq (c.maps.map fun m => .map (mapEntries N m)))) else none)).or
        (if k = txt "server" then c.server.map (fun s => mapping (serverEntries s)) else none)).or
        (if k = txt "game" then c.game.map (fun g => mapping (gameEntries g)) else none)).or
        (if k = txt "bot" then c.bot.map (fun b => mapping (botEntries b)) else none)).or
        (if k = txt "timeLimit" then some (.str (timeLimitText c)) else none)).or
        (if k = txt "fragLimit" then some (.int (c.fragLimit.getD 25).toInt) else none) := by
  simp only [configEntries, intEntry, lookup_append, lookup_given, lookup_listEntry, lookup_entry,
    Option.or_assoc]

/-! ### Reading it back -/

section Reading

variable {N : Numbers} {i : ℕ} {v : Text} {sc : Scalar}

/-- The line is that of the field `key`, `i` blanks in. -/
structure IsLine (pre : String) (i : ℕ) (key : String) : Prop where
  isKey : IsKey (txt key)
  shape : txt pre = spaces i ++ txt key ++ [':', ' ']

instance (pre : String) (i : ℕ) (key : String) : Decidable (IsLine pre i key) :=
  decidable_of_iff (IsKey (txt key) ∧ txt pre = spaces i ++ txt key ++ [':', ' '])
    ⟨fun h => ⟨h.1, h.2⟩, fun h => ⟨h.1, h.2⟩⟩

/-- The line is that of the section `key`. -/
structure IsHeader (header key : String) : Prop where
  isKey : IsKey (txt key)
  shape : txt header = txt key ++ [':', '\n']

instance (header key : String) : Decidable (IsHeader header key) :=
  decidable_of_iff (IsKey (txt key) ∧ txt header = txt key ++ [':', '\n'])
    ⟨fun h => ⟨h.1, h.2⟩, fun h => ⟨h.1, h.2⟩⟩

/-! ### The lines of the file -/

theorem lines_bot : IsHeader "bot:\n" "bot" ∧ IsLine "  minPlayers: " 2 "minPlayers" ∧
    IsLine "  skill: " 2 "skill" ∧ IsLine "  noChat: " 2 "noChat" := by with_unfolding_all decide

theorem lines_game : IsHeader "game:\n" "game" ∧ IsLine "  type: " 2 "type" ∧
    IsLine "  motd: " 2 "motd" ∧ IsLine "  forceRespawn: " 2 "forceRespawn" ∧
    IsLine "  inactivity: " 2 "inactivity" ∧ IsLine "  quadFactor: " 2 "quadFactor" ∧
    IsLine "  password: " 2 "password" ∧ IsLine "  weaponRespawn: " 2 "weaponRespawn" := by
  with_unfolding_all decide

theorem lines_server : IsHeader "server:\n" "server" ∧ IsLine "  hostname: " 2 "hostname" ∧
    IsLine "  maxClients: " 2 "maxClients" ∧ IsLine "  password: " 2 "password" := by
  with_unfolding_all decide

theorem lines_map : IsLine "    type: " 4 "type" ∧ IsLine "    captureLimit: " 4 "captureLimit" ∧
    IsLine "    fragLimit: " 4 "fragLimit" ∧ IsLine "    timeLimit: " 4 "timeLimit" := by
  with_unfolding_all decide

theorem lines_limits : IsLine "fragLimit: " 0 "fragLimit" ∧ IsLine "timeLimit: " 0 "timeLimit" := by
  with_unfolding_all decide

theorem headers_lists : IsHeader "maps:\n" "maps" ∧ IsHeader "commands:\n" "commands" := by
  with_unfolding_all decide

/-! ### Writing them -/

theorem writes_line {pre key : String} (h : IsLine pre i key) (hv : Reads v sc) :
    WritesEntries N i (line pre v) (entry key (sc.node N)) := by
  have hf := WritesEntries.field (N := N) (i := i) h.isKey hv
  have hline : line pre v = spaces i ++ (txt key ++ ':' :: ' ' :: v) ++ ['\n'] := by
    rw [line, h.shape]
    simp
  rw [hline]
  exact hf

theorem writes_given {α : Type} {o : Option α} {f : α → Text} {g : α → List (Text × Node)}
    (h : ∀ a, WritesEntries N i (f a) (g a)) : WritesEntries N i (given o f) (given o g) := by
  cases o with
  | none => exact .nil
  | some a => exact h a

theorem writes_ite {p : Prop} [Decidable p] {s : Text} {es : List (Text × Node)}
    (h : p → WritesEntries N i s es) : WritesEntries N i (if p then s else []) (if p then es else []) := by
  split_ifs with hp
  · exact h hp
  · exact .nil

theorem toInt_range (n : Int64) : -2 ^ 63 ≤ n.toInt ∧ n.toInt < 2 ^ 63 := ⟨n.le_toInt, n.toInt_lt⟩

theorem writes_int {pre key : String} (hl : IsLine pre i key) (n : Int64) :
    WritesEntries N i (line pre (intText n.toInt)) (intEntry key n) := by
  have h := writes_line (N := N) hl (numberLike_intText n.toInt).plainWord.reads
  rwa [Scalar.node, resolve_int (toInt_range n)] at h

theorem writes_duration {pre key : String} (hl : IsLine pre i key) (d : Duration) :
    WritesEntries N i (line pre d.text) (durationEntry key d) := by
  have h := writes_line (N := N) hl (numberLike_duration d).plainWord.reads
  rwa [Scalar.node, resolve_duration] at h

theorem writes_quoted (P : PrintTable) {pre key : String} (hl : IsLine pre i key) (t : Text) :
    WritesEntries N i (if t ≠ [] then line pre (quote P t) else []) (textEntry key t) :=
  writes_ite fun _ => writes_line (N := N) hl (.quote P t)

theorem writes_true {pre key : String} (hl : IsLine pre i key) (b : Bool) :
    WritesEntries N i (if b then line pre (txt "true") else []) (trueEntry key b) := by
  have htrue : IsKey (txt "true") := by with_unfolding_all decide
  have hres : Yaml.resolve N (txt "true") = .bool true := by
    have h1 : txt "true" ∉ nullWords := by with_unfolding_all decide
    have h2 : txt "true" ∈ trueWords := by with_unfolding_all decide
    rw [Yaml.resolve, if_neg h1, if_pos h2]
  apply writes_ite
  intro _
  have h := writes_line (N := N) hl htrue.plainWord.reads
  rwa [Scalar.node, hres] at h

/-- A game type is a word of letters, read as a text. -/
theorem gameType_word {t : GameType} (h : t ∈ GameType.all) : IsKey t ∧ t ∉ words := by
  have hall : ∀ t ∈ GameType.all, IsKey t ∧ t ∉ words := by with_unfolding_all decide
  exact hall t h

theorem writes_type {pre : String} (hl : IsLine pre i "type") {t : GameType}
    (ht : t ≠ [] → t ∈ GameType.all) :
    WritesEntries N i (if t ≠ [] then line pre t else []) (textEntry "type" t) := by
  apply writes_ite
  intro hne
  obtain ⟨hkey, hw⟩ := gameType_word (ht hne)
  have h := writes_line (N := N) hl hkey.plainWord.reads
  rwa [Scalar.node, hkey.resolve hw] at h

theorem writes_section {header key : String} (hh : IsHeader header key) {s : Text}
    {es : List (Text × Node)} (h : WritesEntries N 2 s es) :
    WritesEntries N 0 (txt header ++ s) (entry key (mapping es)) := by
  have hs := WritesEntries.section (i := 0) hh.isKey h (by decide)
  have heq : spaces 0 ++ (txt key ++ [':']) ++ ['\n'] = txt header := by
    rw [hh.shape, List.append_assoc, List.append_assoc]
    rfl
  rwa [heq] at hs

theorem writes_list {header key : String} (hh : IsHeader header key) {s : Text} {vs : List Node}
    (h : WritesItems N 2 s vs) (hne : vs ≠ []) :
    WritesEntries N 0 (txt header ++ s) (entry key (.seq vs)) := by
  have hs := WritesEntries.list (i := 0) hh.isKey h hne (by decide)
  have heq : spaces 0 ++ (txt key ++ [':']) ++ ['\n'] = txt header := by
    rw [hh.shape, List.append_assoc, List.append_assoc]
    rfl
  rwa [heq] at hs

theorem writes_bot (b : BotConfigSpec) :
    WritesEntries N 0 (botYAML b) (entry "bot" (mapping (botEntries b))) := by
  obtain ⟨lbot, lmin, lskill, lchat⟩ := lines_bot
  have hmin := writes_int (N := N) lmin
  have hskill := writes_int (N := N) lskill
  have hchat := writes_true (N := N) lchat b.noChat
  have hs := writes_section lbot
    (((writes_given (o := b.minPlayers) hmin).append (writes_given (o := b.skill) hskill)).append hchat)
  simpa only [botYAML, botEntries, List.append_assoc] using hs

theorem writes_game (P : PrintTable) {g : GameConfigSpec} (ht : g.type ≠ [] → g.type ∈ GameType.all) :
    WritesEntries N 0 (gameYAML P g) (entry "game" (mapping (gameEntries g))) := by
  obtain ⟨lgame, ltype, lmotd, lforce, lidle, lquad, lpass, lweapon⟩ := lines_game
  have htype := writes_type (N := N) ltype ht
  have hmotd := writes_quoted (N := N) P lmotd g.motd
  have hforce := writes_true (N := N) lforce g.forceRespawn
  have hidle := writes_duration (N := N) lidle
  have hquad := writes_int (N := N) lquad
  have hpass := writes_quoted (N := N) P lpass g.password
  have hweapon := writes_int (N := N) lweapon
  have hs := writes_section lgame
    ((((((htype.append hmotd).append hforce).append (writes_given (o := g.inactivity) hidle)).append
      (writes_given (o := g.quadFactor) hquad)).append hpass).append
        (writes_given (o := g.weaponRespawn) hweapon))
  simpa only [gameYAML, gameEntries, List.append_assoc] using hs

theorem writes_server (P : PrintTable) (s : ServerSettings) :
    WritesEntries N 0 (serverYAML P s) (entry "server" (mapping (serverEntries s))) := by
  obtain ⟨lserver, lhost, lmax, lpass⟩ := lines_server
  have hhost := writes_quoted (N := N) P lhost s.hostname
  have hmax := writes_int (N := N) lmax
  have hpass := writes_quoted (N := N) P lpass s.rconPassword
  have hs := writes_section lserver
    ((hhost.append (writes_given (o := s.maxClients) hmax)).append hpass)
  simpa only [serverYAML, serverEntries, List.append_assoc] using hs

theorem writes_map {m : MapSpec} (hn : Reads m.name (.plain m.name))
    (ht : m.type ≠ [] → m.type ∈ GameType.all) :
    WritesItems N 2 (mapYAML m) [.map (mapEntries N m)] := by
  obtain ⟨ltype, lcap, lfrag, ltime⟩ := lines_map
  have htype := writes_type (N := N) ltype ht
  have hcap := writes_int (N := N) lcap
  have hfrag := writes_int (N := N) lfrag
  have htime := writes_duration (N := N) ltime
  have hs := WritesItems.mapping (N := N) (i := 2) (k := txt "name") (by with_unfolding_all decide) hn
    (((htype.append (writes_given (o := m.captureLimit) hcap)).append
      (writes_given (o := m.fragLimit) hfrag)).append (writes_given (o := m.timeLimit) htime))
  have hpre : txt "  - name: " = spaces 2 ++ '-' :: ' ' :: (txt "name" ++ [':', ' ']) := by
    with_unfolding_all decide
  have hline : line "  - name: " m.name =
      spaces 2 ++ '-' :: ' ' :: (txt "name" ++ ':' :: ' ' :: m.name) ++ ['\n'] := by
    rw [line, hpre]
    simp
  rw [← hline] at hs
  simpa only [mapYAML, mapEntries, entry, Scalar.node, List.append_assoc, List.singleton_append,
    List.cons_append, List.nil_append] using hs

theorem writes_maps {maps : List MapSpec} (hn : ∀ m ∈ maps, Reads m.name (.plain m.name))
    (ht : ∀ m ∈ maps, m.type ≠ [] → m.type ∈ GameType.all) :
    WritesEntries N 0 (mapsYAML maps) (listEntry "maps" (maps.map fun m => .map (mapEntries N m))) := by
  cases maps with
  | nil => exact .nil
  | cons m ms =>
    have hitems := WritesItems.flatMap (N := N) (i := 2) (f := mapYAML) (g := fun m => .map (mapEntries N m))
      (l := m :: ms) fun m hm => writes_map (hn m hm) (ht m hm)
    exact writes_list headers_lists.1 hitems (by simp)

theorem writes_commands (P : PrintTable) (commands : List Text) :
    WritesEntries N 0 (commandsYAML P commands) (listEntry "commands" (commands.map .str)) := by
  have hitem : ∀ cmd, WritesItems N 2 (line "  - " (quote P cmd)) [.str cmd] := fun cmd => by
    have h := WritesItems.item (N := N) (i := 2) (.quote P cmd) (by simp [quote])
    have hpre : txt "  - " = spaces 2 ++ ['-', ' '] := by with_unfolding_all decide
    rw [line, hpre, List.append_assoc (spaces 2)]
    exact h
  cases commands with
  | nil => exact .nil
  | cons cmd cmds =>
    have hitems := WritesItems.flatMap (l := cmd :: cmds) fun c _ => hitem c
    exact writes_list headers_lists.2 hitems (by simp)

/-- The time limit is a duration, or the one written when there is none. -/
theorem numberLike_timeLimitText (c : ServerConfigSpec) :
    NumberLike (timeLimitText c) ∧ ('m' ∈ timeLimitText c ∨ 's' ∈ timeLimitText c) := by
  unfold timeLimitText
  cases c.timeLimit with
  | none =>
    have ht : txt "15m" = ['1', '5', 'm'] := by with_unfolding_all decide
    simp only [ht]
    exact ⟨⟨'1', ['5', 'm'], rfl, .inl rfl, by decide⟩, by decide⟩
  | some d =>
    obtain ⟨-, -, -, -, -, hs⟩ := d.text_shape
    exact ⟨numberLike_duration d, .inr hs⟩

/-- The names stand for themselves, and the types are those of the CRD. -/
structure Readable (c : ServerConfigSpec) : Prop where
  names : ∀ m ∈ c.maps, Reads m.name (.plain m.name)
  mapTypes : ∀ m ∈ c.maps, m.type ≠ [] → m.type ∈ GameType.all
  gameType : ∀ g ∈ c.game, g.type ≠ [] → g.type ∈ GameType.all

/-- The CRD admits no other types. -/
theorem types_of_admitted {c : ServerConfigSpec} (ha : c.encode.Admitted) :
    (∀ m ∈ c.maps, m.type ≠ [] → m.type ∈ GameType.all) ∧
      ∀ g ∈ c.game, g.type ≠ [] → g.type ∈ GameType.all := by
  obtain ⟨-, hgame, -, -, hmaps⟩ := ha
  refine ⟨fun m hm ht => ?_, fun g hg ht => ?_⟩
  · have hms : omitNil (c.maps.map MapSpec.encode) = some (c.maps.map MapSpec.encode) := by
      rw [omitNil, if_neg]
      simpa using List.ne_nil_of_mem hm
    exact hmaps _ hms m.encode (List.mem_map_of_mem hm) m.type (if_neg ht)
  · have hge : g.encode ∈ c.game.map GameConfigSpec.encode := by
      rw [show c.game = some g from hg]
      rfl
    exact (hgame g.encode hge).1 g.type (if_neg ht)

/-- **The file is read as what it was written from.** -/
theorem load_generateConfigYAML (N : Numbers) (P : PrintTable) {c : ServerConfigSpec} (h : Readable c) :
    load N (generateConfigYAML P (some c)) = some (.map (configEntries N c)) := by
  have hfrag := writes_int (N := N) lines_limits.1 (c.fragLimit.getD 25)
  have htime := writes_line (N := N) lines_limits.2
    (numberLike_timeLimitText c).1.plainWord.reads
  rw [Scalar.node, (numberLike_timeLimitText c).1.resolve (numberLike_timeLimitText c).2] at htime
  have hgame : WritesEntries N 0 (given c.game (gameYAML P))
      (given c.game fun g => entry "game" (mapping (gameEntries g))) := by
    rcases hg : c.game with _ | g
    · exact .nil
    · exact writes_game P (h.gameType g hg)
  have hall := ((((((hfrag.append htime).append (writes_given (o := c.bot) writes_bot)).append hgame).append
    (writes_given (o := c.server) (writes_server P))).append (writes_maps h.names h.mapTypes)).append
    (writes_commands P c.commands)).load
  exact hall

end Reading

end Operator
end QuakeKube
