/-
# The game server's configuration

The Go types of `internal/quake/server`, the defaults a configuration starts
from, and what decoding a configuration file over them gives: a key sets the
field with its tag, a key that is absent leaves the field as it is, and so does
null, but for a duration. A text field takes a number or a boolean as its text,
and the items of a list are decoded over the items that were there. Keys without
a field are passed over.

Key definitions: `Config`, `withDefault`, `Config.decode`, `Config.ofYaml`.
-/
import QuakeKube.Lib.Duration
import QuakeKube.Lib.Yaml

namespace QuakeKube
namespace Server

open Go Yaml

/-- The type of game. -/
inductive GameType where
  | FreeForAll
  | Tournament
  | SinglePlayer
  | TeamDeathmatch
  | CaptureTheFlag
deriving DecidableEq

/-- The value of the constant. -/
def GameType.number : GameType → ℕ
  | .FreeForAll => 0
  | .Tournament => 1
  | .SinglePlayer => 2
  | .TeamDeathmatch => 3
  | .CaptureTheFlag => 4

/-- `UnmarshalText`. -/
def GameType.unmarshalText (t : Text) : Option GameType :=
  if t = txt "FreeForAll" ∨ t = txt "FFA" then some .FreeForAll
  else if t = txt "Tournament" then some .Tournament
  else if t = txt "SinglePlayer" then some .SinglePlayer
  else if t = txt "TeamDeathmatch" then some .TeamDeathmatch
  else if t = txt "CaptureTheFlag" ∨ t = txt "CTF" then some .CaptureTheFlag
  else none

structure Map where
  name : Text
  type : GameType
  captureLimit : Int64
  fragLimit : Int64
  timeLimit : Duration
deriving DecidableEq

structure GameConfig where
  forceRespawn : Bool
  gameType : GameType
  inactivity : Duration
  log : Text
  motd : Text
  joinPassword : Text
  quadFactor : Int64
  weaponRespawn : Int64
deriving DecidableEq

structure BotConfig where
  minPlayers : Int64
  noChat : Bool
  skill : Int64
deriving DecidableEq

structure FileServerConfig where
  baseGame : Text
  basePath : Text
  copyFiles : Bool
  debug : Bool
  game : Text
  homePath : Text
deriving DecidableEq

structure NetworkConfig where
  allowDownload : Bool
  downloadURL : Text
deriving DecidableEq

structure ServerConfig where
  hostname : Text
  maxClients : Int64
  rconPassword : Text
deriving DecidableEq

structure Config where
  fragLimit : Int64
  timeLimit : Duration
  gameConfig : GameConfig
  networkConfig : NetworkConfig
  botConfig : BotConfig
  fileServerConfig : FileServerConfig
  serverConfig : ServerConfig
  overrides : List Text
  maps : List Map
deriving DecidableEq

/-- `time.Minute`. -/
def minute : Duration := 60000000000

/-- The zero value, as a slice grows by it. -/
def Map.zero : Map := ⟨[], .FreeForAll, 0, 0, 0⟩

/-- `WithDefault`. -/
def withDefault : Config where
  overrides := []
  fragLimit := 25
  timeLimit := 15 * minute
  maps := [⟨txt "q3dm7", .FreeForAll, 0, 0, 0⟩, ⟨txt "q3dm17", .FreeForAll, 0, 0, 0⟩]
  gameConfig := {
    log := []
    motd := txt "Welcome to QuakeKube!"
    quadFactor := 3
    gameType := .FreeForAll
    weaponRespawn := 3
    inactivity := 10 * minute
    forceRespawn := false
    joinPassword := [] }
  botConfig := { minPlayers := 0, skill := 2, noChat := true }
  serverConfig := {
    maxClients := 12
    hostname := txt "quakekube"
    rconPassword := txt "changeme" }
  networkConfig := ⟨false, []⟩
  fileServerConfig := ⟨[], [], false, false, [], []⟩

/-! ### Decoding -/

/-- A value over a text. Floats and times are not followed into texts. -/
def setText (old : Text) : Node → Option Text
  | .null => some old
  | .str t => some t
  | .int z => some (intText z)
  | .bool b => some (if b then txt "true" else txt "false")
  | _ => none

def setInt (old : Int64) : Node → Option Int64
  | .null => some old
  | .int z => if -2 ^ 63 ≤ z ∧ z < 2 ^ 63 then some (Int64.ofInt z) else none
  | _ => none

def setBool (old : Bool) : Node → Option Bool
  | .null => some old
  | .bool b => some b
  | _ => none

/-- A `metav1.Duration` takes null for the empty text, which is no duration. -/
def setDuration (_old : Duration) : Node → Option Duration
  | .str t => parseDuration t
  | _ => none

def setGameType (old : GameType) : Node → Option GameType
  | .null => some old
  | .str t => GameType.unmarshalText t
  | _ => none

/-- The field with the tag `key`, set over its value. -/
def field {α : Type} (es : List (Text × Node)) (key : String) (set : α → Node → Option α) (old : α) :
    Option α :=
  match lookup (txt key) es with
  | none => some old
  | some v => set old v

/-- A structure over its value: from the entries of a mapping. -/
def setStruct {α : Type} (fields : α → List (Text × Node) → Option α) (old : α) : Node → Option α
  | .null => some old
  | .map es => fields old es
  | _ => none

def Map.fields (old : Map) (es : List (Text × Node)) : Option Map := do
  let name ← field es "name" setText old.name
  let type ← field es "type" setGameType old.type
  let captureLimit ← field es "captureLimit" setInt old.captureLimit
  let fragLimit ← field es "fragLimit" setInt old.fragLimit
  let timeLimit ← field es "timeLimit" setDuration old.timeLimit
  some ⟨name, type, captureLimit, fragLimit, timeLimit⟩

def GameConfig.fields (old : GameConfig) (es : List (Text × Node)) : Option GameConfig := do
  let forceRespawn ← field es "forceRespawn" setBool old.forceRespawn
  let gameType ← field es "type" setGameType old.gameType
  let inactivity ← field es "inactivity" setDuration old.inactivity
  let log ← field es "log" setText old.log
  let motd ← field es "motd" setText old.motd
  let joinPassword ← field es "password" setText old.joinPassword
  let quadFactor ← field es "quadFactor" setInt old.quadFactor
  let weaponRespawn ← field es "weaponRespawn" setInt old.weaponRespawn
  some ⟨forceRespawn, gameType, inactivity, log, motd, joinPassword, quadFactor, weaponRespawn⟩

def BotConfig.fields (old : BotConfig) (es : List (Text × Node)) : Option BotConfig := do
  let minPlayers ← field es "minPlayers" setInt old.minPlayers
  let noChat ← field es "noChat" setBool old.noChat
  let skill ← field es "skill" setInt old.skill
  some ⟨minPlayers, noChat, skill⟩

def FileServerConfig.fields (old : FileServerConfig) (es : List (Text × Node)) :
    Option FileServerConfig := do
  let baseGame ← field es "baseGame" setText old.baseGame
  let basePath ← field es "basePath" setText old.basePath
  let copyFiles ← field es "copyFiles" setBool old.copyFiles
  let debug ← field es "debug" setBool old.debug
  let game ← field es "game" setText old.game
  let homePath ← field es "homePath" setText old.homePath
  some ⟨baseGame, basePath, copyFiles, debug, game, homePath⟩

def NetworkConfig.fields (old : NetworkConfig) (es : List (Text × Node)) : Option NetworkConfig := do
  let allowDownload ← field es "allowDownload" setBool old.allowDownload
  let downloadURL ← field es "downloadURL" setText old.downloadURL
  some ⟨allowDownload, downloadURL⟩

def ServerConfig.fields (old : ServerConfig) (es : List (Text × Node)) : Option ServerConfig := do
  let hostname ← field es "hostname" setText old.hostname
  let maxClients ← field es "maxClients" setInt old.maxClients
  let rconPassword ← field es "password" setText old.rconPassword
  some ⟨hostname, maxClients, rconPassword⟩

/-- Items over the items that were there, and over `zero` past their end. -/
def setItems {α : Type} (set : α → Node → Option α) (zero : α) : List α → List Node → Option (List α)
  | _, [] => some []
  | olds, v :: vs => do
    let a ← set (olds.headD zero) v
    let rest ← setItems set zero olds.tail vs
    some (a :: rest)

/-- A slice over its value; null makes it nil. -/
def setSlice {α : Type} (set : α → Node → Option α) (zero : α) (olds : List α) : Node → Option (List α)
  | .null => some []
  | .seq vs => setItems set zero olds vs
  | _ => none

def Config.fields (old : Config) (es : List (Text × Node)) : Option Config := do
  let fragLimit ← field es "fragLimit" setInt old.fragLimit
  let timeLimit ← field es "timeLimit" setDuration old.timeLimit
  let gameConfig ← field es "game" (setStruct GameConfig.fields) old.gameConfig
  let networkConfig ← field es "network" (setStruct NetworkConfig.fields) old.networkConfig
  let botConfig ← field es "bot" (setStruct BotConfig.fields) old.botConfig
  let fileServerConfig ← field es "fs" (setStruct FileServerConfig.fields) old.fileServerConfig
  let serverConfig ← field es "server" (setStruct ServerConfig.fields) old.serverConfig
  let overrides ← field es "commands" (setSlice setText []) old.overrides
  let maps ← field es "maps" (setSlice (setStruct Map.fields) Map.zero) old.maps
  some ⟨fragLimit, timeLimit, gameConfig, networkConfig, botConfig, fileServerConfig, serverConfig,
    overrides, maps⟩

/-- A document over a configuration. Null would leave no configuration at all. -/
def Config.decode (old : Config) : Node → Option Config
  | .map es => old.fields es
  | _ => none

/-- The configuration `reload` reads from a file. -/
def Config.ofYaml (N : Numbers) (data : Text) : Option Config := (load N data).bind withDefault.decode

end Server
end QuakeKube
