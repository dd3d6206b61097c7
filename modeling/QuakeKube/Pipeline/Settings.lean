/-
# The settings of a server

The configuration a user means by a resolved spec: what it sets, over the game
server's defaults for what it leaves unset. The game server gets that
configuration if and only if no bot section asks for bots that chat
(`settingsReach_iff`): the operator writes `noChat` only where it is true, and the
game server has it true by default.

Key definitions: `intended`, `SettingsReach`.
Key theorem: `settingsReach_iff`.
-/
import QuakeKube.Operator.MapNames
import QuakeKube.Pipeline

namespace QuakeKube
namespace Pipeline

open Go Yaml Operator Server

/-! ### The configuration meant -/

/-- A text that is set, or else the old one. -/
def textOr (old t : Text) : Text := if t = [] then old else t

/-- The game type of that name, or else the old one. -/
def typeOr (old : Server.GameType) (t : Operator.GameType) : Server.GameType :=
  if t = Operator.GameType.FreeForAll then .FreeForAll
  else if t = Operator.GameType.Tournament then .Tournament
  else if t = Operator.GameType.SinglePlayer then .SinglePlayer
  else if t = Operator.GameType.TeamDeathmatch then .TeamDeathmatch
  else if t = Operator.GameType.CaptureTheFlag then .CaptureTheFlag
  else old

def intendedBot (b : BotConfigSpec) : BotConfig where
  minPlayers := b.minPlayers.getD withDefault.botConfig.minPlayers
  noChat := b.noChat
  skill := b.skill.getD withDefault.botConfig.skill

def intendedGame (g : GameConfigSpec) : GameConfig where
  forceRespawn := g.forceRespawn
  gameType := typeOr withDefault.gameConfig.gameType g.type
  inactivity := g.inactivity.getD withDefault.gameConfig.inactivity
  log := withDefault.gameConfig.log
  motd := textOr withDefault.gameConfig.motd g.motd
  joinPassword := textOr withDefault.gameConfig.joinPassword g.password
  quadFactor := g.quadFactor.getD withDefault.gameConfig.quadFactor
  weaponRespawn := g.weaponRespawn.getD withDefault.gameConfig.weaponRespawn

def intendedServer (s : ServerSettings) : ServerConfig where
  hostname := textOr withDefault.serverConfig.hostname s.hostname
  maxClients := s.maxClients.getD withDefault.serverConfig.maxClients
  rconPassword := textOr withDefault.serverConfig.rconPassword s.rconPassword

/-- A map as the spec has it; the default maps have no limits of their own. -/
def intendedMap (m : MapSpec) : Server.Map where
  name := m.name
  type := typeOr .FreeForAll m.type
  captureLimit := m.captureLimit.getD 0
  fragLimit := m.fragLimit.getD 0
  timeLimit := m.timeLimit.getD 0

/-- What the spec sets, over the defaults of the game server. -/
def intended (c : ServerConfigSpec) : Config where
  fragLimit := c.fragLimit.getD withDefault.fragLimit
  timeLimit := c.timeLimit.getD withDefault.timeLimit
  gameConfig := c.game.elim withDefault.gameConfig intendedGame
  networkConfig := withDefault.networkConfig
  botConfig := c.bot.elim withDefault.botConfig intendedBot
  fileServerConfig := withDefault.fileServerConfig
  serverConfig := c.server.elim withDefault.serverConfig intendedServer
  overrides := c.commands
  maps := if c.maps = [] then withDefault.maps else c.maps.map intendedMap

/-- The game server gets the configuration meant. -/
def SettingsReach (N : Numbers) (P : PrintTable) (c : ServerConfigSpec) : Prop :=
  Config.ofYaml N (generateConfigYAML P (some c)) = some (intended c)

/-! ### Section by section -/

theorem typeOver_eq {t : Operator.GameType} (ht : t ≠ [] → t ∈ Operator.GameType.all) (old : Server.GameType) :
    typeOver old t = typeOr old t := by
  have hall : ∀ t ∈ [] :: Operator.GameType.all, typeOver old t = typeOr old t := by
    cases old <;> with_unfolding_all decide
  by_cases hne : t = []
  · exact hall t (by simp [hne])
  · exact hall t (List.mem_cons_of_mem _ (ht hne))

theorem textOver_eq (old t : Text) : (if t ≠ [] then t else old) = textOr old t := ite_not _ _ _

/-- A name that stands for itself is the name of the map, whatever map was there. -/
theorem nameOver_eq {N : Numbers} {t : Text} (h : Verbatim N t) (old : Text) :
    N.isOther t = false ∧ nameOver old t = t := by
  obtain ⟨-, h⟩ := h
  have hw : t ∉ words := by
    intro hw
    unfold resolve at h
    simp only [words, List.mem_append] at hw
    split_ifs at h
    · exact absurd hw (by tauto)
    · exact absurd hw (by tauto)
  have hother : N.isOther t = false := by
    rw [resolve_of_not_mem hw] at h
    split at h
    · cases h
    · split_ifs at h with ho
      exact Bool.eq_false_iff.mpr ho
  refine ⟨hother, ?_⟩
  have hset := setText_resolve hother old
  rw [h] at hset
  exact (Option.some.inj hset).symm

theorem botOver_eq_iff (b : BotConfigSpec) :
    botOver withDefault.botConfig b = intendedBot b ↔ b.noChat = true := by
  have htrue : withDefault.botConfig.noChat = true := rfl
  simp only [botOver, intendedBot, htrue, Bool.or_true, BotConfig.mk.injEq, true_and, and_true]
  exact eq_comm

theorem gameOver_eq {g : GameConfigSpec} (ht : g.type ≠ [] → g.type ∈ Operator.GameType.all) :
    gameOver withDefault.gameConfig g = intendedGame g := by
  have hfalse : withDefault.gameConfig.forceRespawn = false := rfl
  simp only [gameOver, intendedGame, hfalse, Bool.or_false, typeOver_eq ht, textOver_eq]

theorem serverOver_eq (s : ServerSettings) : serverOver withDefault.serverConfig s = intendedServer s := by
  simp only [serverOver, intendedServer, textOver_eq]

/-- The maps of the spec take nothing from maps without a type and limits. -/
theorem mapsOver_eq {N : Numbers} {olds : List Server.Map} {ms : List MapSpec}
    (ho : ∀ old ∈ olds, ∃ name, old = ⟨name, .FreeForAll, 0, 0, 0⟩) (hn : ∀ m ∈ ms, Verbatim N m.name)
    (ht : ∀ m ∈ ms, m.type ≠ [] → m.type ∈ Operator.GameType.all) :
    mapsOver olds ms = ms.map intendedMap := by
  induction ms generalizing olds with
  | nil => rfl
  | cons m ms ih =>
    have hold : ∃ name, olds.headD Server.Map.zero = ⟨name, .FreeForAll, 0, 0, 0⟩ := by
      cases olds with
      | nil => exact ⟨[], rfl⟩
      | cons old olds => exact ho old List.mem_cons_self
    obtain ⟨name, hname⟩ := hold
    have hrest : mapsOver olds.tail ms = ms.map intendedMap := ih (fun old h => ho old (List.mem_of_mem_tail h))
      (fun m' h => hn m' (List.mem_cons_of_mem _ h)) (fun m' h => ht m' (List.mem_cons_of_mem _ h))
    have hfirst : mapOver ⟨name, .FreeForAll, 0, 0, 0⟩ m = intendedMap m := by
      rw [mapOver, (nameOver_eq (hn m List.mem_cons_self) name).2, typeOver_eq (ht m List.mem_cons_self)]
      rfl
    rw [mapsOver, List.map_cons, hrest, hname, hfirst]

/-! ### The whole configuration -/

variable {N : Numbers} {P : PrintTable} {c : ServerConfigSpec}

theorem received_maps (hn : ∀ m ∈ c.maps, Verbatim N m.name)
    (ht : ∀ m ∈ c.maps, m.type ≠ [] → m.type ∈ Operator.GameType.all) :
    (received c).maps = (intended c).maps := by
  have hold : ∀ old ∈ withDefault.maps, ∃ name, old = (⟨name, .FreeForAll, 0, 0, 0⟩ : Server.Map) := by
    intro old h
    rcases List.mem_cons.mp h with rfl | h
    · exact ⟨_, rfl⟩
    · rw [List.mem_singleton.mp h]
      exact ⟨_, rfl⟩
  rw [received, intended, mapsOver_eq hold hn ht]

/-- The file of a spec with such names is read. -/
theorem ofYaml_received (N : Numbers) (P : PrintTable) (ha : c.encode.Admitted)
    (hn : ∀ m ∈ c.maps, Verbatim N m.name) :
    Config.ofYaml N (generateConfigYAML P (some c)) = some (received c) := by
  obtain ⟨hmaps, hgame⟩ := types_of_admitted ha
  exact ofYaml_generateConfigYAML N P ⟨fun m hm => plainScalar_iff.mp (hn m hm).1, hmaps, hgame⟩
    fun m hm => (nameOver_eq (hn m hm) []).1

theorem received_eq_iff (ha : c.encode.Admitted) (hn : ∀ m ∈ c.maps, Verbatim N m.name) :
    received c = intended c ↔ ∀ b ∈ c.bot, b.noChat = true := by
  obtain ⟨hmaps, hgame⟩ := types_of_admitted ha
  constructor
  · intro h b hb
    have hbot := congrArg Config.botConfig h
    rw [received, intended, show c.bot = some b from hb] at hbot
    exact (botOver_eq_iff b).mp hbot
  · intro h
    have hm := received_maps hn hmaps
    have hg : c.game.elim withDefault.gameConfig (gameOver withDefault.gameConfig) =
        c.game.elim withDefault.gameConfig intendedGame := by
      rcases hc : c.game with _ | g
      · rfl
      · exact gameOver_eq (hgame g hc)
    have hb : c.bot.elim withDefault.botConfig (botOver withDefault.botConfig) =
        c.bot.elim withDefault.botConfig intendedBot := by
      rcases hc : c.bot with _ | b
      · rfl
      · exact (botOver_eq_iff b).mpr (h b hc)
    have hs : c.server.elim withDefault.serverConfig (serverOver withDefault.serverConfig) =
        c.server.elim withDefault.serverConfig intendedServer := by
      rcases c.server with _ | s
      · rfl
      · exact serverOver_eq s
    calc received c = { received c with maps := (intended c).maps } := by rw [← hm]
      _ = intended c := by
        rw [received, intended, hg, hb, hs]

/-- **The settings reach the game server if and only if no bot section asks for
chat.** -/
theorem settingsReach_iff (ha : c.encode.Admitted) (hn : ∀ m ∈ c.maps, Verbatim N m.name) :
    SettingsReach N P c ↔ ∀ b ∈ c.bot, b.noChat = true := by
  rw [SettingsReach, ofYaml_received N P ha hn, Option.some.injEq]
  exact received_eq_iff ha hn

/-- A server with two bots and no maps of its own. -/
def twoBots (noChat : Bool) : ServerConfigSpec :=
  { ServerConfigSpec.zero with bot := some ⟨some 2, some 3, noChat⟩ }

theorem settingsReach_silent : SettingsReach Numbers.none PrintTable.ascii7 (twoBots true) ↔
    ∀ b ∈ (twoBots true).bot, b.noChat = true :=
  settingsReach_iff (by with_unfolding_all decide) (by simp [twoBots, ServerConfigSpec.zero])

/-- **Bots that are to chat do not.** -/
theorem chat_lost : (twoBots false).encode.Admitted ∧
    (∀ m ∈ (twoBots false).maps, Verbatim Numbers.none m.name) ∧
    ¬ SettingsReach Numbers.none PrintTable.ascii7 (twoBots false) := by
  have ha : (twoBots false).encode.Admitted := by with_unfolding_all decide
  have hn : ∀ m ∈ (twoBots false).maps, Verbatim Numbers.none m.name := by simp [twoBots, ServerConfigSpec.zero]
  refine ⟨ha, hn, fun h => ?_⟩
  rw [SettingsReach, ofYaml_received _ _ ha hn, Option.some.injEq] at h
  exact absurd ((received_eq_iff ha hn).mp h _ rfl) (by decide)

end Pipeline
end QuakeKube
