/-
# The server's configuration as a script

`Config.Marshal` writes `server.cfg`: a line for each variable, its value quoted
as Go quotes it, but for the download URL, which stands as it is; then the maps,
then the extra commands.

Go escapes a quote with a backslash, where the console knows no escapes and takes
the quote for the end of the word. So a text with a quote in it can leave its
quotes, and a semicolon there begins a command (`sameCommands_iff`). In the URL,
which is not quoted, the two slashes of `http://` begin a comment (`carries_iff`).

Key definitions: `Setting`, `Config.settings`, `Config.marshal`, `Safe`, `Carried`.
Key theorems: `commands_settings`, `cvar_settings`, `sameCommands_iff`, `carries_iff`.
-/
import QuakeKube.Lib.ScriptWords
import QuakeKube.Server.Maps
import Mathlib.Data.List.Nodup

namespace QuakeKube
namespace Server

open Go Script

/-! ### Writing -/

/-- `boolToString`. -/
def boolToString (b : Bool) : Text := if b then txt "1" else txt "0"

/-- `int(d.Seconds())`, computed in float64. -/
def seconds (d : Duration) : ℤ :=
  let s := float64 (float64 (d.toInt.tdiv (10 ^ 9)) + float64 (float64 (d.toInt.tmod (10 ^ 9)) / 10 ^ 9))
  if 0 ≤ s then ⌊s⌋ else ⌈s⌉

/-- A line of the file, with the value it is to give: `seta` quotes it. -/
inductive Setting where
  | seta (name : String) (value : Text)
  | sets (name : String) (value : Text)
deriving DecidableEq

namespace Setting

def line (P : PrintTable) : Setting → Text
  | .seta name value => txt "seta " ++ txt name ++ txt " " ++ quote P value ++ txt "\n"
  | .sets name value => txt "sets " ++ txt name ++ txt " " ++ value ++ txt "\n"

def command : Setting → Text
  | .seta _ _ => txt "seta"
  | .sets _ _ => txt "sets"

def name : Setting → String
  | .seta name _ => name
  | .sets name _ => name

def value : Setting → Text
  | .seta _ value => value
  | .sets _ value => value

/-- The value as it is written. -/
def written (P : PrintTable) : Setting → Text
  | .seta _ value => quote P value
  | .sets _ value => value

/-- The first command of the line. -/
def first (P : PrintTable) (s : Setting) : Command := s.command :: txt s.name :: firstWords (s.written P)

end Setting

def Config.gameSettings (c : Config) : List Setting := [
  .seta "fraglimit" (intText c.fragLimit.toInt),
  .seta "timelimit" (intText (minutes c.timeLimit)),
  .seta "bot_minplayers" (intText c.botConfig.minPlayers.toInt),
  .seta "bot_nochat" (boolToString c.botConfig.noChat),
  .seta "g_forcerespawn" (boolToString c.gameConfig.forceRespawn),
  .seta "g_gametype" (natText c.gameConfig.gameType.number),
  .seta "g_inactivity" (intText (seconds c.gameConfig.inactivity)),
  .seta "g_log" c.gameConfig.log,
  .seta "g_motd" c.gameConfig.motd,
  .seta "g_password" c.gameConfig.joinPassword,
  .seta "g_quadfactor" (intText c.gameConfig.quadFactor.toInt),
  .seta "g_spSkill" (intText c.botConfig.skill.toInt),
  .seta "g_weaponrespawn" (intText c.gameConfig.weaponRespawn.toInt)]

def Config.networkSettings (c : Config) : List Setting :=
  .seta "sv_allowDownload" (boolToString c.networkConfig.allowDownload) ::
  if c.networkConfig.downloadURL ≠ [] then [.sets "sv_dlURL" c.networkConfig.downloadURL] else []

def Config.fileServerSettings (c : Config) : List Setting := [
  .seta "fs_basegame" c.fileServerConfig.baseGame,
  .seta "fs_basepath" c.fileServerConfig.basePath,
  .seta "fs_copyfiles" (boolToString c.fileServerConfig.copyFiles),
  .seta "fs_debug" (boolToString c.fileServerConfig.debug),
  .seta "fs_game" c.fileServerConfig.game,
  .seta "fs_homepath" c.fileServerConfig.homePath]

def Config.serverSettings (c : Config) : List Setting := [
  .seta "sv_hostname" c.serverConfig.hostname,
  .seta "sv_maxclients" (intText c.serverConfig.maxClients.toInt),
  .seta "rconpassword" c.serverConfig.rconPassword]

/-- The variables the file sets, in its order. -/
def Config.settings (c : Config) : List Setting :=
  c.gameSettings ++ c.networkSettings ++ c.fileServerSettings ++ c.serverSettings

/-- `Config.Marshal`. -/
def Config.marshal (P : PrintTable) (c : Config) : Text :=
  c.settings.flatMap (Setting.line P) ++
  (if 0 < c.maps.length then marshalMaps c.maps else []) ++
  c.overrides.flatMap (· ++ ['\n'])

/-! ### The commands of the file -/

/-- The names of the variables. -/
def cvarNames : List String := [
  "fraglimit", "timelimit", "bot_minplayers", "bot_nochat", "g_forcerespawn", "g_gametype", "g_inactivity",
  "g_log", "g_motd", "g_password", "g_quadfactor", "g_spSkill", "g_weaponrespawn", "sv_allowDownload",
  "sv_dlURL", "fs_basegame", "fs_basepath", "fs_copyfiles", "fs_debug", "fs_game", "fs_homepath",
  "sv_hostname", "sv_maxclients", "rconpassword"]

theorem names_settings (c : Config) : (c.settings.map Setting.name).Sublist cvarNames := by
  unfold Config.settings Config.networkSettings
  split_ifs
  · exact List.Sublist.refl _
  · exact List.erase_sublist (a := "sv_dlURL") (l := cvarNames)

theorem nodup_settings (c : Config) : (c.settings.map Setting.name).Nodup :=
  (names_settings c).nodup (by decide)

theorem bareWord_name {c : Config} {s : Setting} (hs : s ∈ c.settings) : BareWord (txt s.name) := by
  have hall : ∀ n ∈ cvarNames, BareWord (txt n) := by with_unfolding_all decide
  exact hall _ ((names_settings c).subset (List.mem_map_of_mem hs))

namespace Setting

variable (P : PrintTable)

theorem bareWord_command (s : Setting) : BareWord s.command := by
  have hall : BareWord (txt "seta") ∧ BareWord (txt "sets") := by with_unfolding_all decide
  cases s with
  | seta name value => exact hall.1
  | sets name value => exact hall.2

theorem command_mem_setters (s : Setting) : s.command ∈ setters := by
  have hall : txt "seta" ∈ setters ∧ txt "sets" ∈ setters := by with_unfolding_all decide
  cases s with
  | seta name value => exact hall.1
  | sets name value => exact hall.2

theorem line_eq (s : Setting) :
    s.line P = s.command ++ ' ' :: (txt s.name ++ ' ' :: s.written P) ++ ['\n'] := by
  have hpre : txt "seta " = txt "seta" ++ [' '] ∧ txt "sets " = txt "sets" ++ [' '] ∧ txt " " = [' '] ∧
      txt "\n" = ['\n'] := by with_unfolding_all decide
  obtain ⟨h1, h2, h3, h4⟩ := hpre
  cases s with
  | seta name value =>
    simp only [line, command, Setting.name, written, h1, h3, h4, List.append_assoc, List.cons_append,
      List.nil_append]
  | sets name value =>
    simp only [line, command, Setting.name, written, h2, h3, h4, List.append_assoc, List.cons_append,
      List.nil_append]

theorem commands_line {s : Setting} (hs : BareWord (txt s.name)) (r : Text) :
    commands (s.line P ++ r) = s.first P :: (extra (s.written P) ++ commands r) := by
  have h := commands_setting s.bareWord_command hs (s.written P) r
  rw [line_eq, List.append_assoc]
  exact h

theorem vstr?_first (s : Setting) : vstr? (s.first P) = none := by
  have hne : ∀ w ∈ setters, w ≠ txt "vstr" := by with_unfolding_all decide
  unfold first
  cases firstWords (s.written P) with
  | nil => exact if_neg (hne _ s.command_mem_setters)
  | cons w ws => rfl

theorem target_first (s : Setting) : target (s.first P) = some (txt s.name) := by
  rw [first, target, if_pos s.command_mem_setters]

/-- What the first command does to its variable. -/
theorem apply_first (s : Setting) (con : Console) : con.apply (s.first P) =
    if firstWords (s.written P) = [] then con
    else con.setCvar (txt s.name) (joinText [' '] (firstWords (s.written P))) := by
  rw [first]
  simp only [Console.apply]
  rw [if_pos s.command_mem_setters]

end Setting

/-- **The commands of the settings**: one for each, and what its value adds. -/
theorem commands_settings (P : PrintTable) {ss : List Setting} (h : ∀ s ∈ ss, BareWord (txt s.name))
    (r : Text) :
    commands (ss.flatMap (Setting.line P) ++ r) =
      (ss.flatMap fun s => s.first P :: extra (s.written P)) ++ commands r := by
  induction ss with
  | nil => rfl
  | cons s ss ih =>
    rw [List.flatMap_cons, List.append_assoc, Setting.commands_line P (h s List.mem_cons_self),
      ih fun t ht => h t (List.mem_cons_of_mem _ ht), List.flatMap_cons]
    simp

/-- The commands of a file without maps and extra commands. -/
theorem commands_marshal (P : PrintTable) {c : Config} (hm : c.maps = []) (ho : c.overrides = []) :
    commands (c.marshal P) = c.settings.flatMap fun s => s.first P :: extra (s.written P) := by
  have h := commands_settings P (fun s (hs : s ∈ c.settings) => bareWord_name hs) []
  have hnil : commands [] = [] := rfl
  rw [hnil, List.append_nil, List.append_nil] at h
  rw [Config.marshal, hm, ho]
  simpa using h

theorem newline_not_mem_quoted (P : PrintTable) {t : Text} (h : '"' ∉ t) :
    '\n' ∉ quote P t ∧ lex (.bare []) (quote P t) = [(quote P t).tail.dropLast].map .word := by
  obtain ⟨u, hu, hq⟩ := quote_eq_of_not_mem P h
  refine ⟨newline_not_mem_quote P t, ?_⟩
  rw [hu, lex_quoted hq]
  simp

/-- A text without quotes stays between its own. -/
theorem contained_quote (P : PrintTable) {t : Text} (h : '"' ∉ t) : Contained (quote P t) :=
  contained_of_words (newline_not_mem_quoted P h).1 (newline_not_mem_quoted P h).2

theorem plain_boolToString (b : Bool) : Plain (boolToString b) := by
  have hall : Plain (boolToString true) ∧ Plain (boolToString false) := by with_unfolding_all decide
  cases b
  · exact hall.2
  · exact hall.1

/-! ### Texts that stay where they are written -/

/-- The texts that are quoted. -/
def Config.texts (c : Config) : List Text := [
  c.gameConfig.log, c.gameConfig.motd, c.gameConfig.joinPassword, c.fileServerConfig.baseGame,
  c.fileServerConfig.basePath, c.fileServerConfig.game, c.fileServerConfig.homePath,
  c.serverConfig.hostname, c.serverConfig.rconPassword]

/-- The configuration without its texts. -/
def Config.blank (c : Config) : Config := { c with
  gameConfig := { c.gameConfig with log := [], motd := [], joinPassword := [] }
  networkConfig := { c.networkConfig with downloadURL := [] }
  fileServerConfig := { c.fileServerConfig with baseGame := [], basePath := [], game := [], homePath := [] }
  serverConfig := { c.serverConfig with hostname := [], rconPassword := [] } }

/-- No text adds a command to the file. -/
structure Safe (P : PrintTable) (c : Config) : Prop where
  quoted : ∀ t ∈ c.texts, Contained (quote P t)
  url : Contained c.networkConfig.downloadURL

instance (P : PrintTable) (c : Config) : Decidable (Safe P c) :=
  decidable_of_iff ((∀ t ∈ c.texts, Contained (quote P t)) ∧ Contained c.networkConfig.downloadURL)
    ⟨fun h => ⟨h.1, h.2⟩, fun h => ⟨h.1, h.2⟩⟩

/-- The download URL is the one value that is not quoted. -/
theorem mem_settings_sets {c : Config} {name : String} {value : Text} :
    .sets name value ∈ c.settings ↔
      c.networkConfig.downloadURL ≠ [] ∧ name = "sv_dlURL" ∧ value = c.networkConfig.downloadURL := by
  unfold Config.settings Config.networkSettings
  by_cases hu : c.networkConfig.downloadURL = []
  · rw [if_neg (not_not.mpr hu)]
    simp [Config.gameSettings, Config.fileServerSettings, Config.serverSettings, hu]
  · rw [if_pos hu]
    simp [Config.gameSettings, Config.fileServerSettings, Config.serverSettings, hu]

/-- What holds of numbers, of booleans and of the texts holds of every quoted value. -/
theorem forall_seta {c : Config} {p : Text → Prop} (hint : ∀ z, p (intText z)) (hnat : ∀ n, p (natText n))
    (hbool : ∀ b, p (boolToString b)) (ht : ∀ t ∈ c.texts, p t) {name : String} {value : Text}
    (h : .seta name value ∈ c.settings) : p value := by
  have hnetwork : .seta name value ∈ c.networkSettings →
      value = boolToString c.networkConfig.allowDownload := by
    unfold Config.networkSettings
    split_ifs <;> simp
  simp only [Config.texts, List.forall_mem_cons] at ht
  obtain ⟨hlog, hmotd, hpass, hbase, hpath, hgame, hhome, hhost, hrcon, -⟩ := ht
  simp only [Config.settings, List.mem_append] at h
  rcases h with ((h | h) | h) | h
  · simp only [Config.gameSettings, List.mem_cons, Setting.seta.injEq, List.not_mem_nil, or_false] at h
    rcases h with h | h | h | h | h | h | h | h | h | h | h | h | h <;> rw [h.2] <;>
      first | assumption | apply_assumption
  · rw [hnetwork h]
    exact hbool _
  · simp only [Config.fileServerSettings, List.mem_cons, Setting.seta.injEq, List.not_mem_nil, or_false] at h
    rcases h with h | h | h | h | h | h <;> rw [h.2] <;> first | assumption | apply_assumption
  · simp only [Config.serverSettings, List.mem_cons, Setting.seta.injEq, List.not_mem_nil, or_false] at h
    rcases h with h | h | h <;> rw [h.2] <;> first | assumption | apply_assumption

/-- Every text is the value of a line. -/
theorem exists_seta {c : Config} {t : Text} (h : t ∈ c.texts) : ∃ name, .seta name t ∈ c.settings := by
  simp only [Config.texts, List.mem_cons, List.not_mem_nil, or_false] at h
  simp only [Config.settings, Config.gameSettings, Config.fileServerSettings, Config.serverSettings,
    List.mem_append, List.mem_cons, Setting.seta.injEq]
  rcases h with rfl | rfl | rfl | rfl | rfl | rfl | rfl | rfl | rfl
  · exact ⟨"g_log", by simp⟩
  · exact ⟨"g_motd", by simp⟩
  · exact ⟨"g_password", by simp⟩
  · exact ⟨"fs_basegame", by simp⟩
  · exact ⟨"fs_basepath", by simp⟩
  · exact ⟨"fs_game", by simp⟩
  · exact ⟨"fs_homepath", by simp⟩
  · exact ⟨"sv_hostname", by simp⟩
  · exact ⟨"rconpassword", by simp⟩

/-- What is written of the numbers and booleans stays where it is anyway. -/
theorem safe_iff (P : PrintTable) (c : Config) : Safe P c ↔ ∀ s ∈ c.settings, Contained (s.written P) := by
  have hplain : ∀ t, Plain t → Contained (quote P t) := fun t h => contained_quote P h.quote_not_mem
  constructor
  · intro h s hs
    cases s with
    | seta name value =>
      exact forall_seta (p := fun t => Contained (quote P t)) (fun z => hplain _ (plain_intText z))
        (fun n => hplain _ (plain_natText n)) (fun b => hplain _ (plain_boolToString b)) h.quoted hs
    | sets name value =>
      obtain ⟨-, -, rfl⟩ := mem_settings_sets.mp hs
      exact h.url
  · intro h
    refine ⟨fun t ht => ?_, ?_⟩
    · obtain ⟨name, hs⟩ := exists_seta ht
      exact h _ hs
    · by_cases hu : c.networkConfig.downloadURL = []
      · rw [hu]
        decide
      · exact h _ (mem_settings_sets.mpr ⟨hu, rfl, rfl⟩)

/-- The command and the variable. -/
def Setting.subject (s : Setting) : Command := [s.command, txt s.name]

/-- Configurations that differ in their texts only, and both have a download URL or
both have none. -/
structure SameButTexts (c c' : Config) : Prop where
  blank : c.blank = c'.blank
  url : c.networkConfig.downloadURL = [] ↔ c'.networkConfig.downloadURL = []

theorem SameButTexts.subjects {c c' : Config} (h : SameButTexts c c') :
    c.settings.map Setting.subject = c'.settings.map Setting.subject := by
  -- what does not depend on the values
  let seta : String → Command := fun n => [txt "seta", txt n]
  have hsubjects : ∀ d : Config, d.settings.map Setting.subject = (cvarNames.take 13).map seta ++
      (d.networkSettings.map Setting.subject ++ ((cvarNames.drop 15).take 6).map seta ++
        (cvarNames.drop 21).map seta) := by
    intro d
    have hgame : d.gameSettings.map Setting.subject = (cvarNames.take 13).map seta := rfl
    have hfile : d.fileServerSettings.map Setting.subject = ((cvarNames.drop 15).take 6).map seta := rfl
    have hserver : d.serverSettings.map Setting.subject = (cvarNames.drop 21).map seta := rfl
    rw [Config.settings, List.map_append, List.map_append, List.map_append, hgame, hfile, hserver]
    simp only [List.append_assoc]
  have hnetwork : c.networkSettings.map Setting.subject = c'.networkSettings.map Setting.subject := by
    unfold Config.networkSettings
    by_cases hu : c.networkConfig.downloadURL = []
    · rw [if_neg (not_not.mpr hu), if_neg (not_not.mpr (h.url.mp hu))]
      rfl
    · rw [if_pos hu, if_pos fun hu' => hu (h.url.mpr hu')]
      rfl
  rw [hsubjects, hsubjects, hnetwork]

/-- The same commands are executed on the same variables, whatever the console. -/
def SameCommands (P : PrintTable) (c c' : Config) : Prop :=
  ∀ s, ∃ tr tr', Trace (commands (c.marshal P)) s tr ∧ Trace (commands (c'.marshal P)) s tr' ∧
    tr.map (List.take 2) = tr'.map (List.take 2)

section Commands

variable {P : PrintTable} {c : Config}

/-- Of a safe configuration the file is the settings, one command for each. -/
theorem Safe.commands (h : Safe P c) (hm : c.maps = []) (ho : c.overrides = []) :
    commands (c.marshal P) = c.settings.map (Setting.first P) := by
  have hall : ∀ ss : List Setting, (∀ s ∈ ss, Contained (s.written P)) →
      (ss.flatMap fun s => s.first P :: extra (s.written P)) = ss.map (Setting.first P) := by
    intro ss hss
    induction ss with
    | nil => rfl
    | cons s ss ih =>
      have hs : extra (s.written P) = [] := hss s List.mem_cons_self
      rw [List.flatMap_cons, hs, ih fun t ht => hss t (List.mem_cons_of_mem _ ht)]
      rfl
  rw [commands_marshal P hm ho, hall _ ((safe_iff P c).mp h)]

/-- No more commands than settings: then no text adds one. -/
theorem safe_of_length (hm : c.maps = []) (ho : c.overrides = [])
    (h : (Script.commands (c.marshal P)).length ≤ c.settings.length) : Safe P c := by
  have hall : ∀ ss : List Setting, (ss.flatMap fun s => s.first P :: extra (s.written P)).length ≤ ss.length →
      ∀ s ∈ ss, Contained (s.written P) := by
    intro ss hlen
    have hlow : ∀ ss : List Setting,
      ss.length ≤ (ss.flatMap fun s => s.first P :: extra (s.written P)).length := by
      intro ss
      induction ss with
      | nil => exact le_rfl
      | cons s ss ih =>
        rw [List.flatMap_cons, List.length_append, List.length_cons, List.length_cons]
        omega
    induction ss with
    | nil => exact fun _ hs => absurd hs List.not_mem_nil
    | cons s ss ih =>
      rw [List.flatMap_cons, List.length_append, List.length_cons, List.length_cons] at hlen
      have hss := hlow ss
      intro t ht
      rcases List.mem_cons.mp ht with rfl | ht
      · exact List.length_eq_zero_iff.mp (by omega)
      · exact ih (by omega) t ht
  rw [commands_marshal P hm ho] at h
  exact (safe_iff P c).mpr (hall _ h)

theorem vstr?_settings (c : Config) : ∀ d ∈ c.settings.map (Setting.first P), vstr? d = none := by
  intro d hd
  obtain ⟨t, -, rfl⟩ := List.mem_map.mp hd
  exact t.vstr?_first P

theorem executes_first (c : Config) (s : Console) : Executes (c.settings.map (Setting.first P)) s
    ((c.settings.map (Setting.first P)).foldl Console.apply s) :=
  executes_foldl (vstr?_settings c) s

theorem Safe.trace_iff (h : Safe P c) (hm : c.maps = []) (ho : c.overrides = []) {s : Console}
    {tr : List Command} :
    Trace (Script.commands (c.marshal P)) s tr ↔ tr = c.settings.map (Setting.first P) := by
  rw [h.commands hm ho]
  constructor
  · exact fun ht => ht.eq_self (vstr?_settings c)
  · rintro rfl
    exact trace_self (vstr?_settings c) s

/-- The commands and variables of a file depend on no text that is safe. -/
theorem map_take_first (ss : List Setting) :
    (ss.map (Setting.first P)).map (List.take 2) = ss.map Setting.subject := by
  rw [List.map_map]
  rfl

theorem SameButTexts.maps {c' : Config} (h : SameButTexts c c') (hm : c.maps = []) : c'.maps = [] :=
  (congrArg Config.maps h.blank).symm.trans hm

theorem SameButTexts.overrides {c' : Config} (h : SameButTexts c c') (ho : c.overrides = []) :
    c'.overrides = [] :=
  (congrArg Config.overrides h.blank).symm.trans ho

/-- What runs the commands of a safe configuration is safe. -/
theorem Safe.of_sameCommands {c' : Config} (hs : Safe P c) (hm : c.maps = []) (ho : c.overrides = [])
    (h : SameButTexts c c') (hsame : SameCommands P c c') : Safe P c' := by
  obtain ⟨tr, tr', ht, ht', heq⟩ := hsame ⟨fun _ => none, [], []⟩
  obtain rfl := (hs.trace_iff hm ho).mp ht
  apply safe_of_length (h.maps hm) (h.overrides ho)
  calc (Script.commands (c'.marshal P)).length ≤ tr'.length := ht'.sublist.length_le
    _ = (tr'.map (List.take 2)).length := by rw [List.length_map]
    _ = c'.settings.length := by rw [← heq, map_take_first, h.subjects, List.length_map]

/-- **A configuration runs the commands of a safe one if and only if it is safe.** -/
theorem sameCommands_iff {c' : Config} (hm : c.maps = []) (ho : c.overrides = []) (h : SameButTexts c c')
    (hs : Safe P c) : SameCommands P c c' ↔ Safe P c' := by
  constructor
  · exact hs.of_sameCommands hm ho h
  · intro hs' s
    refine ⟨_, _, (hs.trace_iff hm ho).mpr rfl, (hs'.trace_iff (h.maps hm) (h.overrides ho)).mpr rfl, ?_⟩
    rw [map_take_first, map_take_first, h.subjects]

end Commands

/-- The defaults without maps, with this message of the day. -/
def greeting (motd : Text) : Config :=
  { withDefault with maps := [], gameConfig := { withDefault.gameConfig with motd := motd } }

theorem sameCommands_greeting :
    SameCommands PrintTable.ascii7 (greeting []) (greeting (txt "semi; colons // stay")) ↔
      Safe PrintTable.ascii7 (greeting (txt "semi; colons // stay")) :=
  sameCommands_iff rfl rfl ⟨rfl, Iff.rfl⟩ (by with_unfolding_all decide)

/-- **A message with a quote and a semicolon adds a command**, here `quit`. -/
theorem motd_injects : SameButTexts (greeting []) (greeting (txt "\";quit")) ∧
    ¬ SameCommands PrintTable.ascii7 (greeting []) (greeting (txt "\";quit")) := by
  have hsafe : Safe PrintTable.ascii7 (greeting []) := by with_unfolding_all decide
  have hunsafe : ¬ Safe PrintTable.ascii7 (greeting (txt "\";quit")) := by with_unfolding_all decide
  have hsame : SameButTexts (greeting []) (greeting (txt "\";quit")) := ⟨rfl, Iff.rfl⟩
  exact ⟨hsame, fun h => hunsafe (hsafe.of_sameCommands rfl rfl hsame h)⟩

/-! ### The values the console holds -/

/-- What a configuration has is what its variables hold. -/
structure Carried (c : Config) (v : Text → Option Text) : Prop where
  fraglimit : v (txt "fraglimit") = some (intText c.fragLimit.toInt)
  timelimit : v (txt "timelimit") = some (intText (minutes c.timeLimit))
  bot_minplayers : v (txt "bot_minplayers") = some (intText c.botConfig.minPlayers.toInt)
  bot_nochat : v (txt "bot_nochat") = some (boolToString c.botConfig.noChat)
  g_forcerespawn : v (txt "g_forcerespawn") = some (boolToString c.gameConfig.forceRespawn)
  g_gametype : v (txt "g_gametype") = some (natText c.gameConfig.gameType.number)
  g_inactivity : v (txt "g_inactivity") = some (intText (seconds c.gameConfig.inactivity))
  g_log : v (txt "g_log") = some c.gameConfig.log
  g_motd : v (txt "g_motd") = some c.gameConfig.motd
  g_password : v (txt "g_password") = some c.gameConfig.joinPassword
  g_quadfactor : v (txt "g_quadfactor") = some (intText c.gameConfig.quadFactor.toInt)
  g_spSkill : v (txt "g_spSkill") = some (intText c.botConfig.skill.toInt)
  g_weaponrespawn : v (txt "g_weaponrespawn") = some (intText c.gameConfig.weaponRespawn.toInt)
  sv_allowDownload : v (txt "sv_allowDownload") = some (boolToString c.networkConfig.allowDownload)
  sv_dlURL : c.networkConfig.downloadURL ≠ [] → v (txt "sv_dlURL") = some c.networkConfig.downloadURL
  fs_basegame : v (txt "fs_basegame") = some c.fileServerConfig.baseGame
  fs_basepath : v (txt "fs_basepath") = some c.fileServerConfig.basePath
  fs_copyfiles : v (txt "fs_copyfiles") = some (boolToString c.fileServerConfig.copyFiles)
  fs_debug : v (txt "fs_debug") = some (boolToString c.fileServerConfig.debug)
  fs_game : v (txt "fs_game") = some c.fileServerConfig.game
  fs_homepath : v (txt "fs_homepath") = some c.fileServerConfig.homePath
  sv_hostname : v (txt "sv_hostname") = some c.serverConfig.hostname
  sv_maxclients : v (txt "sv_maxclients") = some (intText c.serverConfig.maxClients.toInt)
  rconpassword : v (txt "rconpassword") = some c.serverConfig.rconPassword

/-- Executing the file gives the variables the values of the configuration. -/
def Carries (P : PrintTable) (c : Config) : Prop :=
  ∀ s, ∃ s', Executes (commands (c.marshal P)) s s' ∧ Carried c s'.cvar

section Values

variable {P : PrintTable}

/-- **After the settings a variable holds the words of its line**; they are of
different variables. -/
theorem cvar_settings {ss : List Setting} (hn : (ss.map Setting.name).Nodup) {s : Setting} (hs : s ∈ ss)
    (con : Console) : ((ss.map (Setting.first P)).foldl Console.apply con).cvar (txt s.name) =
      if firstWords (s.written P) = [] then con.cvar (txt s.name)
      else some (joinText [' '] (firstWords (s.written P))) := by
  induction ss generalizing con with
  | nil => exact absurd hs List.not_mem_nil
  | cons t ss ih =>
    rw [List.map_cons, List.nodup_cons] at hn
    obtain ⟨hnew, hn⟩ := hn
    rw [List.map_cons, List.foldl_cons]
    rcases List.mem_cons.mp hs with rfl | hs
    · have hlater : ∀ d ∈ ss.map (Setting.first P), target d ≠ some (txt s.name) := by
        intro d hd ht
        obtain ⟨u, hu, rfl⟩ := List.mem_map.mp hd
        rw [u.target_first P] at ht
        have hname : u.name = s.name := txt_inj.mp (Option.some.inj ht)
        exact hnew (hname ▸ List.mem_map_of_mem hu)
      rw [foldl_apply_cvar hlater, s.apply_first P]
      split_ifs
      · rfl
      · exact Function.update_self _ _ _
    · have hother : target (t.first P) ≠ some (txt s.name) := by
        intro ht
        rw [t.target_first P] at ht
        have hname : t.name = s.name := txt_inj.mp (Option.some.inj ht)
        exact hnew (hname ▸ List.mem_map_of_mem hs)
      rw [ih hn hs, Console.apply_cvar hother]

/-- A plain text is the word between its quotes. -/
theorem firstWords_quote {t : Text} (h : Plain t) : firstWords (quote P t) = [t] := by
  have hline := newline_not_mem_quote P t
  rw [h.quote P] at hline ⊢
  exact firstWords_of_words hline (lex_quoted h.quote_not_mem)

/-- The line of a quoted plain text sets it. -/
theorem cvar_seta {ss : List Setting} (hn : (ss.map Setting.name).Nodup) {name : String} {value : Text}
    (hs : .seta name value ∈ ss) (hv : Plain value) (con : Console) :
    ((ss.map (Setting.first P)).foldl Console.apply con).cvar (txt name) = some value := by
  have h := cvar_settings (P := P) hn hs con
  rwa [Setting.written, firstWords_quote hv, if_neg (List.cons_ne_nil _ _)] at h

/-- Plain texts are safe, and so is a URL without semicolons and line breaks. -/
theorem safe_of_plain {c : Config} (ht : ∀ t ∈ c.texts, Plain t) (hu : '\n' ∉ c.networkConfig.downloadURL)
    (hs : ';' ∉ c.networkConfig.downloadURL) : Safe P c := by
  refine ⟨fun t h => contained_quote P (ht t h).quote_not_mem, ?_⟩
  obtain ⟨ws, hws⟩ := exists_words (lex_semicolon (m := .bare []) hs)
  exact contained_of_words hu hws

/-- What holds while the file of a plain configuration is executed on an empty
console: no quotes anywhere, and no semicolon in the download URL. -/
structure Unquoted (s : Console) : Prop where
  quote : ∀ v t, s.cvar v = some t → '"' ∉ t
  semicolon : ∀ t, s.cvar (txt "sv_dlURL") = some t → ';' ∉ t

/-- A command that keeps it so. -/
structure UnquotedCommand (c : Command) : Prop where
  quote : ∀ w ∈ c, '"' ∉ w
  semicolon : target c = some (txt "sv_dlURL") → ∀ w ∈ c, ';' ∉ w

theorem Unquoted.apply {c : Command} {s : Console} (hc : UnquotedCommand c) (hs : Unquoted s) :
    Unquoted (s.apply c) where
  quote v t h hq := by
    rcases Console.apply_cvar_cases h with h | ⟨-, h⟩
    · exact hs.quote v t h hq
    · rcases h _ hq with h | ⟨w, hw, h⟩
      · exact absurd h (by decide)
      · exact hc.quote w hw h
  semicolon t h hq := by
    rcases Console.apply_cvar_cases h with h | ⟨ht, h⟩
    · exact hs.semicolon t h hq
    · rcases h _ hq with h | ⟨w, hw, h⟩
      · exact absurd h (by decide)
      · exact hc.semicolon ht w hw h

theorem unquotedCommand_of_bare {c : Command} (h : ∀ w ∈ c, Bare w) : UnquotedCommand c where
  quote w hw hq := ((h w hw).chars _ hq).2.1 rfl
  semicolon _ w hw hq := ((h w hw).chars _ hq).2.2 rfl

theorem Executes.unquoted {cs : List Command} {s s' : Console} (h : Executes cs s s')
    (hcs : ∀ c ∈ cs, UnquotedCommand c) (hs : Unquoted s) : Unquoted s' :=
  h.invariant (fun _ _ hc _ hs => hs.apply hc) (fun _ _ hs => ⟨hs.quote, hs.semicolon⟩)
    (fun _ _ _ hs ht _ hc => unquotedCommand_of_bare fun _ hw => bare_of_mem_commands (hs.quote _ _ ht) hc hw)
    hcs hs

variable {c : Config}

theorem plain_seta (ht : ∀ t ∈ c.texts, Plain t) {name : String} {value : Text}
    (hs : .seta name value ∈ c.settings) : Plain value :=
  forall_seta plain_intText plain_natText plain_boolToString ht hs

/-- The lines of a plain configuration keep the console unquoted: only the line of
the URL sets the URL. -/
theorem unquotedCommand_settings (ht : ∀ t ∈ c.texts, Plain t) (hu : Plain c.networkConfig.downloadURL)
    (hne : c.networkConfig.downloadURL ≠ []) {s : Setting} (hs : s ∈ c.settings) {d : Command}
    (hd : d ∈ s.first P :: extra (s.written P)) : UnquotedCommand d := by
  have hbare := bareWord_name hs
  have hname := (quiet_of_bareWord hbare).quote
  have hcommand := (quiet_of_bareWord s.bareWord_command).quote
  cases s with
  | seta name value =>
    have hv := plain_seta ht hs
    have hextra : extra (quote P value) = [] := contained_quote P hv.quote_not_mem
    have hfirst : firstWords (quote P value) = [value] := firstWords_quote hv
    rw [Setting.first, Setting.written, hextra, hfirst, List.mem_singleton] at hd
    subst hd
    refine ⟨fun w hw => ?_, fun htarget => ?_⟩
    · simp only [List.mem_cons, List.not_mem_nil, or_false] at hw
      rcases hw with rfl | rfl | rfl
      · exact hcommand
      · exact hname
      · exact hv.quote_not_mem
    · have hsets : .sets "sv_dlURL" c.networkConfig.downloadURL ∈ c.settings :=
        mem_settings_sets.mpr ⟨hne, rfl, rfl⟩
      have htxt : txt name = txt "sv_dlURL" := by
        rw [target, if_pos (Setting.command_mem_setters _)] at htarget
        exact Option.some.inj htarget
      exact absurd (List.inj_on_of_nodup_map (nodup_settings c) hs hsets (txt_inj.mp htxt)) (by simp)
  | sets name value =>
    obtain ⟨-, -, rfl⟩ := mem_settings_sets.mp hs
    have hline := Setting.commands_line P hbare []
    have hnil : commands [] = [] := rfl
    rw [hnil, List.append_nil, List.append_nil] at hline
    have hquote : '"' ∉ (Setting.sets name c.networkConfig.downloadURL).line P := by
      rw [Setting.line_eq]
      have hq := hu.quote_not_mem
      simp only [Setting.command, Setting.name] at hcommand hname
      simp [Setting.command, Setting.name, Setting.written, hcommand, hname, hq]
    rw [← hline] at hd
    exact unquotedCommand_of_bare fun w hw => bare_of_mem_commands hquote hd hw

/-- A file that gives its variables the values of the configuration has a spaced URL. -/
theorem spaced_of_carries (hm : c.maps = []) (ho : c.overrides = []) (ht : ∀ t ∈ c.texts, Plain t)
    (hu : Plain c.networkConfig.downloadURL) (hne : c.networkConfig.downloadURL ≠ []) (h : Carries P c) :
    Spaced c.networkConfig.downloadURL := by
  obtain ⟨s', hx, hcarried⟩ := h ⟨fun _ => none, [], []⟩
  have hurl := hcarried.sv_dlURL hne
  have hsemi : ';' ∉ c.networkConfig.downloadURL := by
    have hempty : Unquoted ⟨fun _ => none, [], []⟩ := ⟨by simp, by simp⟩
    have hcs : ∀ d ∈ commands (c.marshal P), UnquotedCommand d := by
      intro d hd
      rw [commands_marshal P hm ho] at hd
      obtain ⟨s, hs, hd⟩ := List.mem_flatMap.mp hd
      exact unquotedCommand_settings ht hu hne hs hd
    exact (Executes.unquoted hx hcs hempty).semicolon _ hurl
  have hline : '\n' ∉ c.networkConfig.downloadURL := fun hn => absurd (hu _ hn).1 (by decide)
  have hsafe := safe_of_plain (P := P) ht hline hsemi
  obtain ⟨ws, hws⟩ := exists_words (lex_semicolon (m := .bare []) hsemi)
  have hbare : ∀ w ∈ ws, Bare w := fun w hw =>
    lex_words (Mode.ok_start _) hu.quote_not_mem (hws ▸ List.mem_map_of_mem hw)
  rw [hsafe.commands hm ho] at hx
  obtain rfl := hx.det (executes_first c ⟨fun _ => none, [], []⟩)
  have hvalue := cvar_settings (P := P) (nodup_settings c) (mem_settings_sets.mpr ⟨hne, rfl, rfl⟩)
    ⟨fun _ => none, [], []⟩
  have hwritten : (Setting.sets "sv_dlURL" c.networkConfig.downloadURL).written P =
      c.networkConfig.downloadURL := rfl
  rw [hwritten, firstWords_of_words hline hws] at hvalue
  have heq := hurl.symm.trans hvalue
  split_ifs at heq with hnil
  rw [Option.some.inj heq]
  exact spaced_of_words hbare hnil

/-- **The variables hold what the configuration has if and only if the download
URL is spaced**, where there is one: no semicolon, no `//` and no `/*` in it, and
no blank too many. -/
theorem carries_iff (hm : c.maps = []) (ho : c.overrides = []) (ht : ∀ t ∈ c.texts, Plain t)
    (hu : Plain c.networkConfig.downloadURL) :
    Carries P c ↔ c.networkConfig.downloadURL = [] ∨ Spaced c.networkConfig.downloadURL := by
  have hline : '\n' ∉ c.networkConfig.downloadURL := fun hn => absurd (hu _ hn).1 (by decide)
  constructor
  · intro h
    by_cases hne : c.networkConfig.downloadURL = []
    · exact .inl hne
    · exact .inr (spaced_of_carries hm ho ht hu hne h)
  · intro hurl s
    have hsafe : Safe P c := by
      refine ⟨fun t h => contained_quote P (ht t h).quote_not_mem, ?_⟩
      rcases hurl with hnil | hspaced
      · rw [hnil]
        decide
      · exact contained_of_words hline hspaced.words.1
    have hrun := executes_first (P := P) c s
    rw [← hsafe.commands hm ho] at hrun
    refine ⟨_, hrun, ?_⟩
    rw [hsafe.commands hm ho]
    have hseta : ∀ {name value}, .seta name value ∈ c.settings →
        ((c.settings.map (Setting.first P)).foldl Console.apply s).cvar (txt name) = some value :=
      fun hs => cvar_seta (nodup_settings c) hs (plain_seta ht hs) s
    constructor
    case sv_dlURL =>
      intro hne
      have hspaced := hurl.resolve_left hne
      have hs : .sets "sv_dlURL" c.networkConfig.downloadURL ∈ c.settings :=
        mem_settings_sets.mpr ⟨hne, rfl, rfl⟩
      have hvalue := cvar_settings (P := P) (nodup_settings c) hs s
      have hwords : firstWords ((Setting.sets "sv_dlURL" c.networkConfig.downloadURL).written P) =
          c.networkConfig.downloadURL.splitOn ' ' := firstWords_of_words hline hspaced.words.1
      rw [hwords, if_neg (List.splitOn_ne_nil _ _), hspaced.words.2] at hvalue
      exact hvalue
    all_goals
      apply hseta
      simp [Config.settings, Config.gameSettings, Config.networkSettings, Config.fileServerSettings,
        Config.serverSettings]

/-- The defaults without maps, with this download URL. -/
def serving (url : Text) : Config :=
  { withDefault with maps := [], networkConfig := ⟨true, url⟩ }

theorem carries_serving : Carries PrintTable.ascii7 (serving (txt "files.example.com")) ↔
    txt "files.example.com" = [] ∨ Spaced (txt "files.example.com") :=
  carries_iff rfl rfl (by with_unfolding_all decide) (by with_unfolding_all decide)

/-- **The URL of a web server is cut off** at the two slashes. -/
theorem url_cut_off : (∀ t ∈ (serving (txt "http://files")).texts, Plain t) ∧ Plain (txt "http://files") ∧
    ¬ Carries PrintTable.ascii7 (serving (txt "http://files")) := by
  have ht : ∀ t ∈ (serving (txt "http://files")).texts, Plain t := by with_unfolding_all decide
  have hu : Plain (txt "http://files") := by with_unfolding_all decide
  have hne : txt "http://files" ≠ [] := by with_unfolding_all decide
  have hspaced : ¬ Spaced (txt "http://files") := by with_unfolding_all decide
  exact ⟨ht, hu, fun h => hspaced (spaced_of_carries rfl rfl ht hu hne h)⟩

end Values

end Server
end QuakeKube
