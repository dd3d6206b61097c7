/-
# The operator's types

The Go types of `operator/api/v1alpha1`. A pointer is an `Option`; an empty
string, `false` and an empty or nil slice are the zero values of fields that are
no pointers. The pod's own settings are types of Kubernetes, taken with their
JSON form as a `Codec`.
-/
import QuakeKube.Lib.Duration

namespace QuakeKube
namespace Operator

open Go

/-- The name of a game mode, empty when unset. -/
abbrev GameType := Text

namespace GameType

def FreeForAll : GameType := txt "FreeForAll"
def Tournament : GameType := txt "Tournament"
def SinglePlayer : GameType := txt "SinglePlayer"
def TeamDeathmatch : GameType := txt "TeamDeathmatch"
def CaptureTheFlag : GameType := txt "CaptureTheFlag"

/-- The names the CRD admits. -/
def all : List GameType := [FreeForAll, Tournament, SinglePlayer, TeamDeathmatch, CaptureTheFlag]

theorem FreeForAll_ne_nil : FreeForAll ≠ [] := by with_unfolding_all decide

theorem ne_nil_of_mem_all {t : GameType} (h : t ∈ all) : t ≠ [] := by
  have : ∀ t ∈ all, t ≠ [] := by with_unfolding_all decide
  exact this t h

end GameType

structure GameConfigSpec where
  type : GameType
  motd : Text
  forceRespawn : Bool
  inactivity : Option Duration
  quadFactor : Option Int64
  password : Text
  weaponRespawn : Option Int64
deriving DecidableEq

structure ServerSettings where
  hostname : Text
  maxClients : Option Int64
  rconPassword : Text
deriving DecidableEq

structure BotConfigSpec where
  minPlayers : Option Int64
  skill : Option Int64
  noChat : Bool
deriving DecidableEq

structure MapSpec where
  name : Text
  type : GameType
  captureLimit : Option Int64
  fragLimit : Option Int64
  timeLimit : Option Duration
deriving DecidableEq

structure ServerConfigSpec where
  fragLimit : Option Int64
  timeLimit : Option Duration
  game : Option GameConfigSpec
  server : Option ServerSettings
  bot : Option BotConfigSpec
  maps : List MapSpec
  commands : List Text
deriving DecidableEq

/-- The zero values of the section types, as `&T{}` makes them. -/
def GameConfigSpec.zero : GameConfigSpec := ⟨[], [], false, none, none, [], none⟩
def ServerSettings.zero : ServerSettings := ⟨[], none, []⟩
def BotConfigSpec.zero : BotConfigSpec := ⟨none, none, false⟩
def ServerConfigSpec.zero : ServerConfigSpec := ⟨none, none, none, none, none, [], []⟩

structure TemplateReference where
  name : Text
  ns : Text
deriving DecidableEq

structure GatewayReference where
  name : Text
  ns : Text
deriving DecidableEq

structure GatewaySpec where
  enabled : Bool
  gatewayRef : Option GatewayReference
  hostname : Text
deriving DecidableEq

/-- A type of Kubernetes with its JSON form: what has been decoded is encoded
into something that decodes to it again. -/
structure Codec where
  Doc : Type
  Val : Type
  decode : Doc → Option Val
  encode : Val → Doc
  decode_encode : ∀ {d v}, decode d = some v → decode (encode v) = some v

/-- `ResourceRequirements`, `PodSecurityContext` and `SecurityContext`. -/
structure Core where
  resources : Codec
  podSecurityContext : Codec
  securityContext : Codec

/-- A type that is its own JSON form. -/
def Codec.self (α : Type) : Codec := ⟨α, α, some, id, fun _ => rfl⟩

/-- The settings of a pod, when nobody looks at them. -/
def Core.unit : Core := ⟨.self Unit, .self Unit, .self Unit⟩

structure QuakeServerSpec (K : Core) where
  agreeEula : Bool
  templateRef : Option TemplateReference
  serverConfig : Option ServerConfigSpec
  gateway : Option GatewaySpec
  resources : Option K.resources.Val
  podSecurityContext : Option K.podSecurityContext.Val
  securityContext : Option K.securityContext.Val

/-- A server object, with the part of its metadata the controller writes. -/
structure QuakeServer (K : Core) where
  finalizers : List Text
  spec : QuakeServerSpec K

structure QuakeServerTemplateSpec where
  serverConfig : Option ServerConfigSpec
deriving DecidableEq

end Operator
end QuakeKube
