/-
# From the operator to the game server

The operator writes the configuration file of a server, and the game server reads
it over its defaults. `received` is the configuration it gets, field by field
(`ofYaml_generateConfigYAML`).

A map without a type of its own is played as free for all, whatever the game's
type: the file has no type for it, and the server's default is the zero value
(`mapTypes_kept_iff`).

Key definitions: `received`, `Identifier`, `gameNumber`, `MapTypesKept`.
Key theorems: `ofYaml_generateConfigYAML`, `mapTypes_kept_iff`.
-/
import QuakeKube.Operator.ConfigYaml
import QuakeKube.Server.Maps

namespace QuakeKube
namespace Pipeline

open Go Yaml Operator Server

/-! ### Decoding a field -/

section Fields

variable {key : String} {es : List (Text × Node)}

theorem field_absent {α : Type} {set : α → Node → Option α} {old : α} (h : lookup (txt key) es = none) :
    field es key set old = some old := by
  rw [field, h]

theorem field_int {o : Option Int64} {old : Int64} (h : lookup (txt key) es = o.map fun n => .int n.toInt) :
    field es key setInt old = some (o.getD old) := by
  cases o with
  | none => exact field_absent h
  | some n =>
    rw [field, h]
    show setInt old (.int n.toInt) = some n
    rw [setInt, if_pos (toInt_range n), Int64.ofInt_toInt]

theorem field_duration {o : Option Duration} {old : Duration}
    (h : lookup (txt key) es = o.map fun d => .str d.text) :
    field es key setDuration old = some (o.getD old) := by
  cases o with
  | none => exact field_absent h
  | some d =>
    rw [field, h]
    exact parseDuration_text d

theorem field_text {t old : Text} (h : lookup (txt key) es = if t ≠ [] then some (.str t) else none) :
    field es key setText old = some (if t ≠ [] then t else old) := by
  split_ifs at h ⊢ with ht
  · rw [field, h]
    rfl
  · exact field_absent h

theorem field_true {b old : Bool} (h : lookup (txt key) es = if b then some (.bool true) else none) :
    field es key setBool old = some (b || old) := by
  cases b with
  | false => exact field_absent h
  | true =>
    rw [field, h]
    rfl

/-- A game type over its value. -/
def typeOver (old : Server.GameType) (t : Operator.GameType) : Server.GameType :=
  if t ≠ [] then (Server.GameType.unmarshalText t).getD old else old

theorem field_type {t : Operator.GameType} {old : Server.GameType} (ht : t ≠ [] → t ∈ Operator.GameType.all)
    (h : lookup (txt key) es = if t ≠ [] then some (.str t) else none) :
    field es key setGameType old = some (typeOver old t) := by
  have hall : ∀ t ∈ Operator.GameType.all, (Server.GameType.unmarshalText t).isSome = true := by
    with_unfolding_all decide
  by_cases hne : t ≠ []
  · obtain ⟨u, hu⟩ := Option.isSome_iff_exists.mp (hall t (ht hne))
    rw [if_pos hne] at h
    rw [field, h, typeOver, if_pos hne, hu]
    exact hu
  · rw [if_neg hne] at h
    rw [field_absent h, typeOver, if_neg hne]

end Fields

/-! ### Names -/

/-- A plain identifier: a letter or an underscore, then letters, digits and
underscores. -/
def Identifier (t : Text) : Prop :=
  (∃ c ∈ t.head?, c.isAlpha = true ∨ c = '_') ∧ ∀ c ∈ t, c.isAlphanum = true ∨ c = '_'

instance (t : Text) : Decidable (Identifier t) := by unfold Identifier; infer_instance

/-- A name over a text: YAML takes some words for null or a boolean. -/
def nameOver (old t : Text) : Text :=
  if t ∈ nullWords then old
  else if t ∈ trueWords then txt "true"
  else if t ∈ falseWords then txt "false"
  else t

theorem identifier_char {c : Char} (h : c.isAlphanum = true ∨ c = '_') :
    0x30 ≤ c.toNat ∧ c.toNat ≤ 0x7a ∧ c ≠ ':' ∧ c ≠ ';' := by
  rcases h with h | rfl
  · rcases Bool.or_eq_true_iff.mp h with h | h
    · obtain ⟨h1, h2⟩ := isAlpha_range h
      exact ⟨by omega, h2, ne_of_test h rfl, ne_of_test h rfl⟩
    · obtain ⟨h1, h2⟩ := isDigit_range h
      exact ⟨h1, by omega, ne_of_test h rfl, ne_of_test h rfl⟩
  · decide

theorem Identifier.head {t : Text} (h : Identifier t) : ∃ c s, t = c :: s ∧ (c.isAlpha = true ∨ c = '_') := by
  obtain ⟨⟨c, hc, ha⟩, -⟩ := h
  cases t with
  | nil => exact absurd hc (by simp)
  | cons d s =>
    obtain rfl : d = c := by simpa using hc
    exact ⟨d, s, rfl, ha⟩

/-- A plain name: letters, digits and underscores. -/
structure PlainName (t : Text) : Prop where
  ne_nil : t ≠ []
  chars : ∀ c ∈ t, c.isAlphanum = true ∨ c = '_'

instance (t : Text) : Decidable (PlainName t) :=
  decidable_of_iff (t ≠ [] ∧ ∀ c ∈ t, c.isAlphanum = true ∨ c = '_') ⟨fun h => ⟨h.1, h.2⟩, fun h => ⟨h.1, h.2⟩⟩

theorem Identifier.plainName {t : Text} (h : Identifier t) : PlainName t := by
  obtain ⟨c, s, rfl, -⟩ := h.head
  exact ⟨List.cons_ne_nil c s, h.2⟩

theorem PlainName.plainWord {t : Text} (h : PlainName t) : PlainWord t where
  start := by
    obtain ⟨c, s, rfl⟩ := List.exists_cons_of_ne_nil h.ne_nil
    have hc' : isBlank c = false ∧ c ∉ indicators := by
      rcases h.chars c List.mem_cons_self with hc | rfl
      · exact ⟨isBlank_eq_false hc rfl rfl, not_mem_indicators hc (by decide)⟩
      · decide
    simp [plainStart, hc'.1, hc'.2]
  chars c hc := by
    obtain ⟨h1, h2, h3, -⟩ := identifier_char (h.chars c hc)
    refine ⟨?_, ?_, h3⟩
    · unfold Yaml.allowed
      rw [decide_eq_true (by omega), decide_eq_true (by omega)]
      rfl
    · have hne : ∀ d : Char, d.toNat < 0x30 → c ≠ d := by
        rintro d hd rfl
        omega
      simp [isBlank, hne ' ' (by decide), hne '\t' (by decide)]

theorem PlainName.bareWord {t : Text} (h : PlainName t) : Script.BareWord t where
  ne_nil := h.ne_nil
  chars c hc := by
    obtain ⟨h1, -, -, h4⟩ := identifier_char (h.chars c hc)
    have hne : ∀ d : Char, d.toNat < 0x30 → c ≠ d := by
      rintro d hd rfl
      omega
    exact ⟨by omega, hne _ (by decide), h4, hne _ (by decide)⟩

theorem Identifier.not_other {t : Text} (h : Identifier t) (N : Numbers) : N.isOther t = false := by
  rcases ho : N.isOther t with _ | _
  · rfl
  · obtain ⟨c, s, rfl, hc⟩ := h.head
    obtain ⟨d, u, heq, hd⟩ := N.head _ ho
    obtain ⟨rfl, rfl⟩ := List.cons.inj heq
    rcases hc with hc | rfl
    · rcases hd with hd | rfl | rfl | rfl
      · have h1 := isDigit_range hd
        have h2 := isAlpha_range hc
        omega
      all_goals exact absurd hc (by decide)
    · exact absurd hd (by decide)

/-- A plain scalar that is no float and no time is read as a name. -/
theorem setText_resolve {N : Numbers} {t : Text} (h : N.isOther t = false) (old : Text) :
    setText old (resolve N t) = some (nameOver old t) := by
  unfold nameOver
  by_cases h1 : t ∈ nullWords
  · rw [resolve, if_pos h1, if_pos h1]
    rfl
  by_cases h2 : t ∈ trueWords
  · rw [resolve, if_neg h1, if_pos h2, if_neg h1, if_pos h2]
    rfl
  by_cases h3 : t ∈ falseWords
  · rw [resolve, if_neg h1, if_neg h2, if_pos h3, if_neg h1, if_neg h2, if_pos h3]
    rfl
  · have hw : t ∉ words := by simp [words, h1, h2, h3]
    rw [if_neg h1, if_neg h2, if_neg h3, resolve_of_not_mem hw, h]
    split
    · rename_i z hz
      rw [eq_of_decimal hz]
      rfl
    · rfl

theorem nameWord_nameOver {old t : Text} (h : PlainName t) (ho : NameWord old) : NameWord (nameOver old t) := by
  unfold nameOver
  split_ifs
  · exact ho
  · exact .inr (by with_unfolding_all decide)
  · exact .inr (by with_unfolding_all decide)
  · exact .inr h.bareWord

/-! ### Sections -/

/-- The bot section over its value: what is false is not written. -/
def botOver (old : BotConfig) (b : BotConfigSpec) : BotConfig where
  minPlayers := b.minPlayers.getD old.minPlayers
  noChat := b.noChat || old.noChat
  skill := b.skill.getD old.skill

theorem fields_bot (old : BotConfig) (b : BotConfigSpec) :
    old.fields (botEntries b) = some (botOver old b) := by
  have hmin : field (botEntries b) "minPlayers" setInt old.minPlayers =
    some (b.minPlayers.getD old.minPlayers) :=
    field_int (by simp [botEntries, lookup_append, lookup_intEntry, lookup_trueEntry, txt_inj])
  have hchat : field (botEntries b) "noChat" setBool old.noChat = some (b.noChat || old.noChat) :=
    field_true (by simp [botEntries, lookup_append, lookup_intEntry, lookup_trueEntry, txt_inj])
  have hskill : field (botEntries b) "skill" setInt old.skill = some (b.skill.getD old.skill) :=
    field_int (by simp [botEntries, lookup_append, lookup_intEntry, lookup_trueEntry, txt_inj])
  unfold BotConfig.fields
  rw [hmin, hchat, hskill]
  rfl

/-- The game section over its value; the file has no log. -/
def gameOver (old : GameConfig) (g : GameConfigSpec) : GameConfig where
  forceRespawn := g.forceRespawn || old.forceRespawn
  gameType := typeOver old.gameType g.type
  inactivity := g.inactivity.getD old.inactivity
  log := old.log
  motd := if g.motd ≠ [] then g.motd else old.motd
  joinPassword := if g.password ≠ [] then g.password else old.joinPassword
  quadFactor := g.quadFactor.getD old.quadFactor
  weaponRespawn := g.weaponRespawn.getD old.weaponRespawn

theorem fields_game (old : GameConfig) {g : GameConfigSpec}
    (ht : g.type ≠ [] → g.type ∈ Operator.GameType.all) :
    old.fields (gameEntries g) = some (gameOver old g) := by
  have hlookup : ∀ key : String, lookup (txt key) (gameEntries g) =
      ((((((if key = "weaponRespawn" then g.weaponRespawn.map (fun n => .int n.toInt) else none).or
        (if key = "password" then (if g.password ≠ [] then some (.str g.password) else none) else none)).or
        (if key = "quadFactor" then g.quadFactor.map (fun n => .int n.toInt) else none)).or
        (if key = "inactivity" then g.inactivity.map (fun d => .str d.text) else none)).or
        (if key = "forceRespawn" then (if g.forceRespawn then some (.bool true) else none) else none)).or
        (if key = "motd" then (if g.motd ≠ [] then some (.str g.motd) else none) else none)).or
        (if key = "type" then (if g.type ≠ [] then some (.str g.type) else none) else none) := by
    intro key
    simp only [gameEntries, lookup_append, lookup_intEntry, lookup_textEntry, lookup_trueEntry,
      lookup_durationEntry, txt_inj, Option.or_assoc]
  have hforce : field (gameEntries g) "forceRespawn" setBool old.forceRespawn =
      some (g.forceRespawn || old.forceRespawn) := field_true (by rw [hlookup]; simp)
  have htype : field (gameEntries g) "type" setGameType old.gameType = some (typeOver old.gameType g.type) :=
    field_type ht (by rw [hlookup]; simp)
  have hidle : field (gameEntries g) "inactivity" setDuration old.inactivity =
      some (g.inactivity.getD old.inactivity) := field_duration (by rw [hlookup]; simp)
  have hlog : field (gameEntries g) "log" setText old.log = some old.log := field_absent (by rw [hlookup]; simp)
  have hmotd : field (gameEntries g) "motd" setText old.motd =
    some (if g.motd ≠ [] then g.motd else old.motd) :=
    field_text (by rw [hlookup]; simp)
  have hpass : field (gameEntries g) "password" setText old.joinPassword =
      some (if g.password ≠ [] then g.password else old.joinPassword) := field_text (by rw [hlookup]; simp)
  have hquad : field (gameEntries g) "quadFactor" setInt old.quadFactor =
      some (g.quadFactor.getD old.quadFactor) := field_int (by rw [hlookup]; simp)
  have hweapon : field (gameEntries g) "weaponRespawn" setInt old.weaponRespawn =
      some (g.weaponRespawn.getD old.weaponRespawn) := field_int (by rw [hlookup]; simp)
  unfold GameConfig.fields
  rw [hforce, htype, hidle, hlog, hmotd, hpass, hquad, hweapon]
  rfl

/-- The server section over its value. -/
def serverOver (old : ServerConfig) (s : ServerSettings) : ServerConfig where
  hostname := if s.hostname ≠ [] then s.hostname else old.hostname
  maxClients := s.maxClients.getD old.maxClients
  rconPassword := if s.rconPassword ≠ [] then s.rconPassword else old.rconPassword

theorem fields_server (old : ServerConfig) (s : ServerSettings) :
    old.fields (serverEntries s) = some (serverOver old s) := by
  have hhost : field (serverEntries s) "hostname" setText old.hostname =
      some (if s.hostname ≠ [] then s.hostname else old.hostname) :=
    field_text (by simp [serverEntries, lookup_append, lookup_intEntry, lookup_textEntry, txt_inj])
  have hmax : field (serverEntries s) "maxClients" setInt old.maxClients =
      some (s.maxClients.getD old.maxClients) :=
    field_int (by simp [serverEntries, lookup_append, lookup_intEntry, lookup_textEntry, txt_inj])
  have hpass : field (serverEntries s) "password" setText old.rconPassword =
      some (if s.rconPassword ≠ [] then s.rconPassword else old.rconPassword) :=
    field_text (by simp [serverEntries, lookup_append, lookup_intEntry, lookup_textEntry, txt_inj])
  unfold ServerConfig.fields
  rw [hhost, hmax, hpass]
  rfl

/-- A map over the map that was there. -/
def mapOver (old : Server.Map) (m : MapSpec) : Server.Map where
  name := nameOver old.name m.name
  type := typeOver old.type m.type
  captureLimit := m.captureLimit.getD old.captureLimit
  fragLimit := m.fragLimit.getD old.fragLimit
  timeLimit := m.timeLimit.getD old.timeLimit

theorem fields_map (N : Numbers) (old : Server.Map) {m : MapSpec} (hn : N.isOther m.name = false)
    (ht : m.type ≠ [] → m.type ∈ Operator.GameType.all) :
    old.fields (mapEntries N m) = some (mapOver old m) := by
  have hlookup := lookup_mapEntries N m
  have hname : field (mapEntries N m) "name" setText old.name = some (nameOver old.name m.name) := by
    rw [field, hlookup]
    exact setText_resolve hn old.name
  have htype : field (mapEntries N m) "type" setGameType old.type = some (typeOver old.type m.type) :=
    field_type ht (by rw [hlookup]; simp)
  have hcap : field (mapEntries N m) "captureLimit" setInt old.captureLimit =
      some (m.captureLimit.getD old.captureLimit) := field_int (by rw [hlookup]; simp)
  have hfrag : field (mapEntries N m) "fragLimit" setInt old.fragLimit =
    some (m.fragLimit.getD old.fragLimit) :=
    field_int (by rw [hlookup]; simp)
  have htime : field (mapEntries N m) "timeLimit" setDuration old.timeLimit =
      some (m.timeLimit.getD old.timeLimit) := field_duration (by rw [hlookup]; simp)
  unfold Server.Map.fields
  rw [hname, htype, hcap, hfrag, htime]
  rfl

/-- Maps over the maps that were there. -/
def mapsOver : List Server.Map → List MapSpec → List Server.Map
  | _, [] => []
  | olds, m :: ms => mapOver (olds.headD Server.Map.zero) m :: mapsOver olds.tail ms

theorem setItems_maps (N : Numbers) {ms : List MapSpec} (hn : ∀ m ∈ ms, N.isOther m.name = false)
    (ht : ∀ m ∈ ms, m.type ≠ [] → m.type ∈ Operator.GameType.all) (olds : List Server.Map) :
    setItems (setStruct Server.Map.fields) Server.Map.zero olds (ms.map fun m => .map (mapEntries N m)) =
      some (mapsOver olds ms) := by
  induction ms generalizing olds with
  | nil => rfl
  | cons m ms ih =>
    have hm := fields_map N (olds.headD Server.Map.zero) (hn m List.mem_cons_self) (ht m List.mem_cons_self)
    have hms := ih (fun m' h => hn m' (List.mem_cons_of_mem _ h))
      (fun m' h => ht m' (List.mem_cons_of_mem _ h)) olds.tail
    rw [List.map_cons, setItems]
    show (Server.Map.fields _ _).bind _ = _
    rw [hm, hms]
    rfl

theorem setItems_commands (olds commands : List Text) :
    setItems setText [] olds (commands.map .str) = some commands := by
  induction commands generalizing olds with
  | nil => rfl
  | cons cmd cmds ih =>
    rw [List.map_cons, setItems, ih]
    rfl

/-! ### The configuration received -/

/-- The configuration the game server gets. -/
def received (c : ServerConfigSpec) : Config where
  fragLimit := c.fragLimit.getD withDefault.fragLimit
  timeLimit := c.timeLimit.getD withDefault.timeLimit
  gameConfig := c.game.elim withDefault.gameConfig (gameOver withDefault.gameConfig)
  networkConfig := withDefault.networkConfig
  botConfig := c.bot.elim withDefault.botConfig (botOver withDefault.botConfig)
  fileServerConfig := withDefault.fileServerConfig
  serverConfig := c.server.elim withDefault.serverConfig (serverOver withDefault.serverConfig)
  overrides := c.commands
  maps := if c.maps = [] then withDefault.maps else mapsOver withDefault.maps c.maps

theorem setStruct_mapping {α : Type} {fields : α → List (Text × Node) → Option α} {old new : α}
    {es : List (Text × Node)} (h : fields old es = some new) (hnil : es = [] → new = old) :
    setStruct fields old (mapping es) = some new := by
  cases es with
  | nil => rw [hnil rfl]; rfl
  | cons e es => exact h

/-- A section that may be there. -/
theorem field_section {α β : Type} {es : List (Text × Node)} {key : String}
    {fields : α → List (Text × Node) → Option α} {old : α} {o : Option β}
    {entries : β → List (Text × Node)} {set : α → β → α}
    (h : lookup (txt key) es = o.map fun b => mapping (entries b))
    (hf : ∀ b ∈ o, fields old (entries b) = some (set old b)) (hnil : fields old [] = some old) :
    field es key (setStruct fields) old = some (o.elim old (set old)) := by
  cases o with
  | none => exact field_absent h
  | some b =>
    have hb := hf b rfl
    rw [field, h]
    apply setStruct_mapping hb
    intro he
    rw [he, hnil] at hb
    exact (Option.some.inj hb).symm

/-- **What the game server reads is what the operator wrote, over its defaults.** -/
theorem ofYaml_generateConfigYAML (N : Numbers) (P : PrintTable) {c : ServerConfigSpec} (h : Readable c)
    (hn : ∀ m ∈ c.maps, N.isOther m.name = false) :
    Config.ofYaml N (generateConfigYAML P (some c)) = some (received c) := by
  have hlookup := fun key : String => lookup_configEntries N c (txt key)
  simp only [txt_inj] at hlookup
  have hfrag : field (configEntries N c) "fragLimit" setInt withDefault.fragLimit =
      some (c.fragLimit.getD withDefault.fragLimit) :=
    field_int (o := some (c.fragLimit.getD 25)) (by rw [hlookup]; simp)
  have htime : field (configEntries N c) "timeLimit" setDuration withDefault.timeLimit =
      some (c.timeLimit.getD withDefault.timeLimit) := by
    have h15 : parseDuration (txt "15m") = some withDefault.timeLimit := by with_unfolding_all decide
    rw [field, hlookup]
    show parseDuration (timeLimitText c) = _
    unfold timeLimitText
    cases c.timeLimit with
    | none => exact h15
    | some d => exact parseDuration_text d
  have hgame : field (configEntries N c) "game" (setStruct GameConfig.fields) withDefault.gameConfig =
      some (c.game.elim withDefault.gameConfig (gameOver withDefault.gameConfig)) :=
    field_section (by rw [hlookup]; simp) (fun g hg => fields_game _ (h.gameType g hg)) rfl
  have hbot : field (configEntries N c) "bot" (setStruct BotConfig.fields) withDefault.botConfig =
      some (c.bot.elim withDefault.botConfig (botOver withDefault.botConfig)) :=
    field_section (by rw [hlookup]; simp) (fun b _ => fields_bot _ b) rfl
  have hserver : field (configEntries N c) "server" (setStruct ServerConfig.fields) withDefault.serverConfig =
      some (c.server.elim withDefault.serverConfig (serverOver withDefault.serverConfig)) :=
    field_section (by rw [hlookup]; simp) (fun s _ => fields_server _ s) rfl
  have hnetwork : field (configEntries N c) "network" (setStruct NetworkConfig.fields) withDefault.networkConfig =
      some withDefault.networkConfig := field_absent (by rw [hlookup]; simp)
  have hfs : field (configEntries N c) "fs" (setStruct FileServerConfig.fields) withDefault.fileServerConfig =
      some withDefault.fileServerConfig := field_absent (by rw [hlookup]; simp)
  have hcommands : field (configEntries N c) "commands" (setSlice setText []) withDefault.overrides =
      some c.commands := by
    by_cases hc : c.commands = []
    · rw [field_absent (by rw [hlookup]; simp [hc]), hc]
      rfl
    · rw [field, hlookup, if_pos rfl, if_neg (by simpa using hc)]
      exact setItems_commands _ _
  have hmaps : field (configEntries N c) "maps" (setSlice (setStruct Server.Map.fields) Server.Map.zero)
      withDefault.maps = some (if c.maps = [] then withDefault.maps else mapsOver withDefault.maps c.maps) := by
    by_cases hm : c.maps = []
    · rw [field_absent (by rw [hlookup]; simp [hm]), if_pos hm]
    · have hl : lookup (txt "maps") (configEntries N c) =
          some (.seq (c.maps.map fun m => .map (mapEntries N m))) := by
        rw [hlookup]
        simp [hm]
      rw [field, hl, if_neg hm]
      exact setItems_maps N hn h.mapTypes _
  rw [Config.ofYaml, load_generateConfigYAML N P h]
  show withDefault.fields (configEntries N c) = _
  unfold Config.fields
  rw [hfrag, htime, hgame, hnetwork, hbot, hfs, hserver, hcommands, hmaps]
  rfl

/-! ### Game types -/

theorem readable {c : ServerConfigSpec} (ha : c.encode.Admitted) (hn : ∀ m ∈ c.maps, Identifier m.name) :
    Readable c := by
  obtain ⟨hmaps, hgame⟩ := types_of_admitted ha
  exact ⟨fun m hm => (hn m hm).plainName.plainWord.reads, hmaps, hgame⟩

theorem mapsOver_length (olds : List Server.Map) (ms : List MapSpec) :
    (mapsOver olds ms).length = ms.length := by
  induction ms generalizing olds with
  | nil => rfl
  | cons m ms ih => rw [mapsOver, List.length_cons, List.length_cons, ih]

theorem mapsOver_getElem? (olds : List Server.Map) (ms : List MapSpec) (i : ℕ) :
    (mapsOver olds ms)[i]? = ms[i]?.map (mapOver (olds.getD i Server.Map.zero)) := by
  induction ms generalizing olds i with
  | nil => rfl
  | cons m ms ih =>
    cases i with
    | zero => cases olds <;> rfl
    | succ i =>
      have h := ih olds.tail i
      cases olds with
      | nil => simpa [mapsOver] using h
      | cons o olds => simpa [mapsOver] using h

/-- The number the game server has for a game type; free for all when there is none. -/
def gameNumber (t : Operator.GameType) : ℕ :=
  if t = Operator.GameType.Tournament then 1
  else if t = Operator.GameType.SinglePlayer then 2
  else if t = Operator.GameType.TeamDeathmatch then 3
  else if t = Operator.GameType.CaptureTheFlag then 4
  else 0

/-- The type a map is to be played in: its own, or else the game's. -/
def playedType (c : ServerConfigSpec) (m : MapSpec) : Operator.GameType :=
  if m.type ≠ [] then m.type else c.game.elim [] (·.type)

theorem number_typeOver {t : Operator.GameType} (ht : t ≠ [] → t ∈ Operator.GameType.all) :
    (typeOver .FreeForAll t).number = gameNumber t := by
  have hall : ∀ t ∈ [] :: Operator.GameType.all, (typeOver .FreeForAll t).number = gameNumber t := by
    with_unfolding_all decide
  by_cases hne : t = []
  · exact hall t (by simp [hne])
  · exact hall t (List.mem_cons_of_mem _ (ht hne))

theorem gameNumber_eq_zero {t : Operator.GameType} (ht : t ≠ [] → t ∈ Operator.GameType.all) :
    gameNumber t = 0 ↔ t = [] ∨ t = Operator.GameType.FreeForAll := by
  have hall : ∀ t ∈ [] :: Operator.GameType.all,
      (gameNumber t = 0 ↔ t = [] ∨ t = Operator.GameType.FreeForAll) := by with_unfolding_all decide
  by_cases hne : t = []
  · exact hall t (by simp [hne])
  · exact hall t (List.mem_cons_of_mem _ (ht hne))

/-- The entry of every map sets the type the map is to be played in. -/
def MapTypesKept (N : Numbers) (P : PrintTable) (c : ServerConfigSpec) : Prop :=
  ∃ cfg, Config.ofYaml N (generateConfigYAML P (some c)) = some cfg ∧
    ∀ i m, c.maps[i]? = some m → SetsGameType (marshalMaps cfg.maps) i (gameNumber (playedType c m))

/-- The default maps have no type and no limits of their own. -/
theorem withDefault_maps (i : ℕ) : ∃ name, NameWord name ∧
    withDefault.maps.getD i Server.Map.zero = ⟨name, .FreeForAll, 0, 0, 0⟩ := by
  have hq : Script.BareWord (txt "q3dm7") ∧ Script.BareWord (txt "q3dm17") := by with_unfolding_all decide
  rcases i with - | - | i
  · exact ⟨_, .inr hq.1, rfl⟩
  · exact ⟨_, .inr hq.2, rfl⟩
  · exact ⟨_, .inl rfl, rfl⟩

theorem nameWord_received {c : ServerConfigSpec} (hn : ∀ m ∈ c.maps, PlainName m.name) :
    ∀ m ∈ (received c).maps, NameWord m.name := by
  intro m hm
  obtain ⟨i, hi⟩ := List.getElem?_of_mem hm
  by_cases hne : c.maps = []
  · obtain ⟨name, hname, hold⟩ := withDefault_maps i
    rw [received, if_pos hne] at hi
    rw [List.getD_eq_getElem?_getD, hi, Option.getD_some] at hold
    rw [hold]
    exact hname
  · obtain ⟨name, hname, hold⟩ := withDefault_maps i
    rw [received, if_neg hne, mapsOver_getElem?, hold, Option.map_eq_some_iff] at hi
    obtain ⟨mi, hmi, rfl⟩ := hi
    exact nameWord_nameOver (hn mi (List.mem_of_getElem? hmi)) hname

/-- The entry of a map sets the map's own type, and free for all when it has none. -/
theorem entry_type {c : ServerConfigSpec} (h : Readable c) (hn : ∀ m ∈ c.maps, PlainName m.name) {i : ℕ}
    {m : MapSpec} (hm : c.maps[i]? = some m) (n : ℕ) :
    SetsGameType (marshalMaps (received c).maps) i n ↔ gameNumber m.type = n := by
  have hmem : m ∈ c.maps := List.mem_of_getElem? hm
  obtain ⟨name, -, hold⟩ := withDefault_maps i
  have hi : (received c).maps[i]? = some (mapOver (withDefault.maps.getD i Server.Map.zero) m) := by
    rw [received, if_neg (List.ne_nil_of_mem hmem), mapsOver_getElem?, hm]
    rfl
  have htype : (mapOver (withDefault.maps.getD i Server.Map.zero) m).type = typeOver .FreeForAll m.type := by
    rw [mapOver, hold]
  rw [setsGameType_iff (nameWord_received hn) hi, htype, number_typeOver (h.mapTypes m hmem)]

/-- **A map is played in its own type or the game's if and only if no map goes
without a type under a game that is not free for all.** -/
theorem mapTypes_kept_iff (N : Numbers) (P : PrintTable) {c : ServerConfigSpec} (ha : c.encode.Admitted)
    (hn : ∀ m ∈ c.maps, Identifier m.name) :
    MapTypesKept N P c ↔ (∀ m ∈ c.maps, m.type ≠ []) ∨
      ∀ g ∈ c.game, g.type = [] ∨ g.type = Operator.GameType.FreeForAll := by
  have hr := readable ha hn
  have hplain : ∀ m ∈ c.maps, PlainName m.name := fun m hm => (hn m hm).plainName
  have hcfg := ofYaml_generateConfigYAML N P hr fun m hm => (hn m hm).not_other N
  have hgame : ∀ g ∈ c.game, (gameNumber g.type = 0 ↔ g.type = [] ∨ g.type = Operator.GameType.FreeForAll) :=
    fun g hg => gameNumber_eq_zero (hr.gameType g hg)
  have hnone : gameNumber [] = 0 := by with_unfolding_all decide
  constructor
  · rintro ⟨cfg, h, hkept⟩
    obtain rfl : received c = cfg := Option.some.inj (hcfg.symm.trans h)
    by_cases hall : ∀ m ∈ c.maps, m.type ≠ []
    · exact .inl hall
    right
    simp only [not_forall, not_not] at hall
    obtain ⟨m, hm, ht⟩ := hall
    obtain ⟨i, hi⟩ := List.getElem?_of_mem hm
    have hset := (entry_type hr hplain hi _).mp (hkept i m hi)
    intro g hg
    rw [← hgame g hg]
    have hg' : c.game = some g := hg
    rw [ht, hnone, playedType, if_neg (not_not.mpr ht), hg'] at hset
    exact hset.symm
  · intro hcond
    refine ⟨received c, hcfg, fun i m hi => ?_⟩
    have hm : m ∈ c.maps := List.mem_of_getElem? hi
    rw [entry_type hr hplain hi]
    by_cases ht : m.type = []
    · have hg : ∀ g ∈ c.game, g.type = [] ∨ g.type = Operator.GameType.FreeForAll :=
        hcond.resolve_left fun hall => hall m hm ht
      rw [playedType, if_neg (not_not.mpr ht), ht]
      rcases hc : c.game with _ | g
      · rfl
      · exact hnone.trans ((hgame g hc).mpr (hg g hc)).symm
    · rw [playedType, if_pos ht]

/-- A server of capture the flag with one map, which has no type of its own. -/
def arenaCtf : ServerConfigSpec where
  fragLimit := some 25
  timeLimit := none
  game := some ⟨Operator.GameType.CaptureTheFlag, txt "Capture the Flag - Red vs Blue!", false,
    none, some 3, [], none⟩
  server := some ⟨txt "QuakeKube CTF", some 12, []⟩
  bot := none
  maps := [⟨txt "q3ctf1", [], some 8, none, none⟩]
  commands := []

theorem mapTypes_kept_typed : MapTypesKept Numbers.none PrintTable.ascii7
      { arenaCtf with maps := [⟨txt "q3ctf1", Operator.GameType.CaptureTheFlag, some 8, none, none⟩] } :=
  (mapTypes_kept_iff _ _ (by with_unfolding_all decide) (by with_unfolding_all decide)).mpr
    (.inl (by with_unfolding_all decide))

/-- **The map of a capture-the-flag server without a type of its own is played
free for all.** -/
theorem mapType_lost : arenaCtf.encode.Admitted ∧ (∀ m ∈ arenaCtf.maps, Identifier m.name) ∧
    ¬ MapTypesKept Numbers.none PrintTable.ascii7 arenaCtf := by
  have ha : arenaCtf.encode.Admitted := by with_unfolding_all decide
  have hn : ∀ m ∈ arenaCtf.maps, Identifier m.name := by with_unfolding_all decide
  refine ⟨ha, hn, ?_⟩
  rintro ⟨cfg, h, hkept⟩
  have hcfg := ofYaml_generateConfigYAML Numbers.none PrintTable.ascii7 (readable ha hn)
    fun m hm => (hn m hm).not_other _
  obtain rfl := Option.some.inj (hcfg.symm.trans h)
  have hset := (entry_type (readable ha hn) (fun m hm => (hn m hm).plainName) (i := 0) rfl _).mp (hkept 0 _ rfl)
  exact absurd hset (by with_unfolding_all decide)

end Pipeline
end QuakeKube
