/-
# Server documents

What a user submits and what the API server stores: the object of the CRD's
schema, every field of it present or absent, durations as texts and integers of
any size. `decode` makes the Go value of a document by its json tags, `encode`
writes it back, leaving out what `omitempty` leaves out, and `defaults` fills in
the schema's defaults where a field is absent and its object is there.

Writing a value and filling in the defaults gives the value back, but for one
field: `gateway.enabled` is a plain `bool` with `omitempty` whose default is true
(`decode_defaults_encode`).

Key definitions: `ServerConfigDoc`, `SpecDoc`, `SpecDoc.decode`, `SpecDoc.defaults`,
`SpecDoc.Admitted`, `QuakeServerSpec.encode`.
Key theorem: `decode_defaults_encode`.
-/
import QuakeKube.Operator.Types

namespace QuakeKube
namespace Operator

open Go

/-! ### The objects of the schema -/

structure GameConfigDoc where
  type : Option Text
  motd : Option Text
  forceRespawn : Option Bool
  inactivity : Option Text
  quadFactor : Option ℤ
  password : Option Text
  weaponRespawn : Option ℤ
deriving DecidableEq

structure ServerSettingsDoc where
  hostname : Option Text
  maxClients : Option ℤ
  rconPassword : Option Text
deriving DecidableEq

structure BotConfigDoc where
  minPlayers : Option ℤ
  skill : Option ℤ
  noChat : Option Bool
deriving DecidableEq

structure MapDoc where
  name : Text
  type : Option Text
  captureLimit : Option ℤ
  fragLimit : Option ℤ
  timeLimit : Option Text
deriving DecidableEq

structure ServerConfigDoc where
  fragLimit : Option ℤ
  timeLimit : Option Text
  game : Option GameConfigDoc
  server : Option ServerSettingsDoc
  bot : Option BotConfigDoc
  maps : Option (List MapDoc)
  commands : Option (List Text)
deriving DecidableEq

structure ReferenceDoc where
  name : Text
  ns : Option Text
deriving DecidableEq

structure GatewayDoc where
  enabled : Option Bool
  gatewayRef : Option ReferenceDoc
  hostname : Option Text
deriving DecidableEq

structure SpecDoc (K : Core) where
  agreeEula : Bool
  templateRef : Option ReferenceDoc
  serverConfig : Option ServerConfigDoc
  gateway : Option GatewayDoc
  resources : Option K.resources.Doc
  podSecurityContext : Option K.podSecurityContext.Doc
  securityContext : Option K.securityContext.Doc

structure ServerDoc (K : Core) where
  finalizers : List Text
  spec : SpecDoc K

variable {K : Core}

/-! ### Decoding -/

/-- An integer as a Go `int`. -/
def decodeInt (z : ℤ) : Option Int64 :=
  if -2 ^ 63 ≤ z ∧ z < 2 ^ 63 then some (Int64.ofInt z) else none

def GameConfigDoc.decode (d : GameConfigDoc) : Option GameConfigSpec := do
  let inactivity ← d.inactivity.mapM parseDuration
  let quadFactor ← d.quadFactor.mapM decodeInt
  let weaponRespawn ← d.weaponRespawn.mapM decodeInt
  some {
    type := d.type.getD []
    motd := d.motd.getD []
    forceRespawn := d.forceRespawn.getD false
    inactivity := inactivity
    quadFactor := quadFactor
    password := d.password.getD []
    weaponRespawn := weaponRespawn }

def ServerSettingsDoc.decode (d : ServerSettingsDoc) : Option ServerSettings := do
  let maxClients ← d.maxClients.mapM decodeInt
  some {
    hostname := d.hostname.getD []
    maxClients := maxClients
    rconPassword := d.rconPassword.getD [] }

def BotConfigDoc.decode (d : BotConfigDoc) : Option BotConfigSpec := do
  let minPlayers ← d.minPlayers.mapM decodeInt
  let skill ← d.skill.mapM decodeInt
  some {
    minPlayers := minPlayers
    skill := skill
    noChat := d.noChat.getD false }

def MapDoc.decode (d : MapDoc) : Option MapSpec := do
  let captureLimit ← d.captureLimit.mapM decodeInt
  let fragLimit ← d.fragLimit.mapM decodeInt
  let timeLimit ← d.timeLimit.mapM parseDuration
  some {
    name := d.name
    type := d.type.getD []
    captureLimit := captureLimit
    fragLimit := fragLimit
    timeLimit := timeLimit }

def ServerConfigDoc.decode (d : ServerConfigDoc) : Option ServerConfigSpec := do
  let fragLimit ← d.fragLimit.mapM decodeInt
  let timeLimit ← d.timeLimit.mapM parseDuration
  let game ← d.game.mapM GameConfigDoc.decode
  let server ← d.server.mapM ServerSettingsDoc.decode
  let bot ← d.bot.mapM BotConfigDoc.decode
  let maps ← (d.maps.getD []).mapM MapDoc.decode
  some {
    fragLimit := fragLimit
    timeLimit := timeLimit
    game := game
    server := server
    bot := bot
    maps := maps
    commands := d.commands.getD [] }

def GatewayDoc.decode (d : GatewayDoc) : GatewaySpec where
  enabled := d.enabled.getD false
  gatewayRef := d.gatewayRef.map fun r => ⟨r.name, r.ns.getD []⟩
  hostname := d.hostname.getD []

def SpecDoc.decode (d : SpecDoc K) : Option (QuakeServerSpec K) := do
  let serverConfig ← d.serverConfig.mapM ServerConfigDoc.decode
  let resources ← d.resources.mapM K.resources.decode
  let podSecurityContext ← d.podSecurityContext.mapM K.podSecurityContext.decode
  let securityContext ← d.securityContext.mapM K.securityContext.decode
  some {
    agreeEula := d.agreeEula
    templateRef := d.templateRef.map fun r => ⟨r.name, r.ns.getD []⟩
    serverConfig := serverConfig
    gateway := d.gateway.map GatewayDoc.decode
    resources := resources
    podSecurityContext := podSecurityContext
    securityContext := securityContext }

/-! ### Encoding -/

/-- `omitempty` on a string, a `bool` and a slice. -/
def omitText (t : Text) : Option Text := if t = [] then none else some t
def omitFalse (b : Bool) : Option Bool := if b then some true else none
def omitNil {α : Type} (l : List α) : Option (List α) := if l.isEmpty then none else some l

def GameConfigSpec.encode (g : GameConfigSpec) : GameConfigDoc where
  type := omitText g.type
  motd := omitText g.motd
  forceRespawn := omitFalse g.forceRespawn
  inactivity := g.inactivity.map Duration.text
  quadFactor := g.quadFactor.map Int64.toInt
  password := omitText g.password
  weaponRespawn := g.weaponRespawn.map Int64.toInt

def ServerSettings.encode (s : ServerSettings) : ServerSettingsDoc where
  hostname := omitText s.hostname
  maxClients := s.maxClients.map Int64.toInt
  rconPassword := omitText s.rconPassword

def BotConfigSpec.encode (b : BotConfigSpec) : BotConfigDoc where
  minPlayers := b.minPlayers.map Int64.toInt
  skill := b.skill.map Int64.toInt
  noChat := omitFalse b.noChat

def MapSpec.encode (m : MapSpec) : MapDoc where
  name := m.name
  type := omitText m.type
  captureLimit := m.captureLimit.map Int64.toInt
  fragLimit := m.fragLimit.map Int64.toInt
  timeLimit := m.timeLimit.map Duration.text

def ServerConfigSpec.encode (c : ServerConfigSpec) : ServerConfigDoc where
  fragLimit := c.fragLimit.map Int64.toInt
  timeLimit := c.timeLimit.map Duration.text
  game := c.game.map GameConfigSpec.encode
  server := c.server.map ServerSettings.encode
  bot := c.bot.map BotConfigSpec.encode
  maps := omitNil (c.maps.map MapSpec.encode)
  commands := omitNil c.commands

def GatewaySpec.encode (g : GatewaySpec) : GatewayDoc where
  enabled := omitFalse g.enabled
  gatewayRef := g.gatewayRef.map fun r => ⟨r.name, omitText r.ns⟩
  hostname := omitText g.hostname

def QuakeServerSpec.encode (s : QuakeServerSpec K) : SpecDoc K where
  agreeEula := s.agreeEula
  templateRef := s.templateRef.map fun r => ⟨r.name, omitText r.ns⟩
  serverConfig := s.serverConfig.map ServerConfigSpec.encode
  gateway := s.gateway.map GatewaySpec.encode
  resources := s.resources.map K.resources.encode
  podSecurityContext := s.podSecurityContext.map K.podSecurityContext.encode
  securityContext := s.securityContext.map K.securityContext.encode

/-! ### The schema -/

def GameConfigDoc.defaults (d : GameConfigDoc) : GameConfigDoc :=
  { d with
    type := some (d.type.getD GameType.FreeForAll)
    quadFactor := some (d.quadFactor.getD 3) }

def ServerSettingsDoc.defaults (d : ServerSettingsDoc) : ServerSettingsDoc :=
  { d with maxClients := some (d.maxClients.getD 12) }

def BotConfigDoc.defaults (d : BotConfigDoc) : BotConfigDoc :=
  { d with skill := some (d.skill.getD 3) }

/-- The defaults of the CRD, the same for servers and templates. -/
def ServerConfigDoc.defaults (d : ServerConfigDoc) : ServerConfigDoc :=
  { d with
    fragLimit := some (d.fragLimit.getD 25)
    game := d.game.map GameConfigDoc.defaults
    server := d.server.map ServerSettingsDoc.defaults
    bot := d.bot.map BotConfigDoc.defaults }

def GatewayDoc.defaults (d : GatewayDoc) : GatewayDoc :=
  { d with enabled := some (d.enabled.getD true) }

def SpecDoc.defaults (d : SpecDoc K) : SpecDoc K :=
  { d with
    serverConfig := d.serverConfig.map ServerConfigDoc.defaults
    gateway := d.gateway.map GatewayDoc.defaults }

def GameConfigDoc.Admitted (d : GameConfigDoc) : Prop :=
  (∀ t ∈ d.type, t ∈ GameType.all) ∧ ∀ z ∈ d.quadFactor, 1 ≤ z

def ServerSettingsDoc.Admitted (d : ServerSettingsDoc) : Prop :=
  ∀ z ∈ d.maxClients, 1 ≤ z ∧ z ≤ 64

def BotConfigDoc.Admitted (d : BotConfigDoc) : Prop :=
  (∀ z ∈ d.minPlayers, 0 ≤ z) ∧ ∀ z ∈ d.skill, 1 ≤ z ∧ z ≤ 5

def MapDoc.Admitted (d : MapDoc) : Prop := ∀ t ∈ d.type, t ∈ GameType.all

/-- The bounds and the enumerations of the CRD. -/
def ServerConfigDoc.Admitted (d : ServerConfigDoc) : Prop :=
  (∀ z ∈ d.fragLimit, 0 ≤ z) ∧ (∀ g ∈ d.game, g.Admitted) ∧ (∀ s ∈ d.server, s.Admitted) ∧
    (∀ b ∈ d.bot, b.Admitted) ∧ ∀ ms ∈ d.maps, ∀ m ∈ ms, m.Admitted

def SpecDoc.Admitted (d : SpecDoc K) : Prop := ∀ c ∈ d.serverConfig, c.Admitted

instance : DecidablePred GameConfigDoc.Admitted := fun d => by unfold GameConfigDoc.Admitted; infer_instance
instance : DecidablePred ServerSettingsDoc.Admitted := fun d => by
  unfold ServerSettingsDoc.Admitted; infer_instance
instance : DecidablePred BotConfigDoc.Admitted := fun d => by unfold BotConfigDoc.Admitted; infer_instance
instance : DecidablePred MapDoc.Admitted := fun d => by unfold MapDoc.Admitted; infer_instance
instance : DecidablePred ServerConfigDoc.Admitted := fun d => by
  unfold ServerConfigDoc.Admitted; infer_instance
instance : DecidablePred (SpecDoc.Admitted (K := K)) := fun d => by unfold SpecDoc.Admitted; infer_instance

/-! ### What has been decoded -/

theorem mapM_eq_some_some {α β : Type} {f : α → Option β} {o : Option α} {b : β}
    (h : o.mapM f = some (some b)) : ∃ a, o = some a ∧ f a = some b := by
  cases o with
  | none => simp at h
  | some a =>
    rcases hb : f a with _ | b'
    · simp [hb] at h
    · exact ⟨a, rfl, by simpa [hb] using h⟩

theorem mapM_some_ne_none {α β : Type} {f : α → Option β} {a : α} {p : Option β}
    (h : (some a).mapM f = some p) : p ≠ none := by
  rintro rfl
  rcases hb : f a with _ | b <;> simp [hb] at h

theorem GameConfigDoc.decode_eq {d : GameConfigDoc} {g : GameConfigSpec} (h : d.decode = some g) :
    d.inactivity.mapM parseDuration = some g.inactivity ∧ d.quadFactor.mapM decodeInt = some g.quadFactor ∧
      d.weaponRespawn.mapM decodeInt = some g.weaponRespawn ∧ g.type = d.type.getD [] ∧
      g.motd = d.motd.getD [] ∧ g.forceRespawn = d.forceRespawn.getD false ∧
      g.password = d.password.getD [] := by
  simp only [GameConfigDoc.decode, Option.bind_eq_bind, Option.bind_eq_some_iff, Option.some.injEq] at h
  obtain ⟨_, h1, _, h2, _, h3, rfl⟩ := h
  exact ⟨h1, h2, h3, rfl, rfl, rfl, rfl⟩

theorem ServerSettingsDoc.decode_eq {d : ServerSettingsDoc} {s : ServerSettings} (h : d.decode = some s) :
    d.maxClients.mapM decodeInt = some s.maxClients ∧ s.hostname = d.hostname.getD [] ∧
      s.rconPassword = d.rconPassword.getD [] := by
  simp only [ServerSettingsDoc.decode, Option.bind_eq_bind, Option.bind_eq_some_iff, Option.some.injEq] at h
  obtain ⟨_, h1, rfl⟩ := h
  exact ⟨h1, rfl, rfl⟩

theorem BotConfigDoc.decode_eq {d : BotConfigDoc} {b : BotConfigSpec} (h : d.decode = some b) :
    d.minPlayers.mapM decodeInt = some b.minPlayers ∧ d.skill.mapM decodeInt = some b.skill ∧
      b.noChat = d.noChat.getD false := by
  simp only [BotConfigDoc.decode, Option.bind_eq_bind, Option.bind_eq_some_iff, Option.some.injEq] at h
  obtain ⟨_, h1, _, h2, rfl⟩ := h
  exact ⟨h1, h2, rfl⟩

theorem ServerConfigDoc.decode_eq {d : ServerConfigDoc} {c : ServerConfigSpec} (h : d.decode = some c) :
    d.fragLimit.mapM decodeInt = some c.fragLimit ∧ d.timeLimit.mapM parseDuration = some c.timeLimit ∧
      d.game.mapM GameConfigDoc.decode = some c.game ∧ d.server.mapM ServerSettingsDoc.decode = some c.server ∧
      d.bot.mapM BotConfigDoc.decode = some c.bot ∧ (d.maps.getD []).mapM MapDoc.decode = some c.maps ∧
      c.commands = d.commands.getD [] := by
  simp only [ServerConfigDoc.decode, Option.bind_eq_bind, Option.bind_eq_some_iff, Option.some.injEq] at h
  obtain ⟨_, h1, _, h2, _, h3, _, h4, _, h5, _, h6, rfl⟩ := h
  exact ⟨h1, h2, h3, h4, h5, h6, rfl⟩

theorem SpecDoc.decode_eq {d : SpecDoc K} {s : QuakeServerSpec K} (h : d.decode = some s) :
    d.serverConfig.mapM ServerConfigDoc.decode = some s.serverConfig ∧
      d.resources.mapM K.resources.decode = some s.resources ∧
      d.podSecurityContext.mapM K.podSecurityContext.decode = some s.podSecurityContext ∧
      d.securityContext.mapM K.securityContext.decode = some s.securityContext ∧
      s.gateway = d.gateway.map GatewayDoc.decode := by
  simp only [SpecDoc.decode, Option.bind_eq_bind, Option.bind_eq_some_iff, Option.some.injEq] at h
  obtain ⟨_, h1, _, h2, _, h3, _, h4, rfl⟩ := h
  exact ⟨h1, h2, h3, h4, rfl⟩

/-! ### Writing and reading back -/

theorem decodeInt_toInt (n : Int64) : decodeInt n.toInt = some n := by
  have h1 := n.le_toInt
  have h2 := n.toInt_lt
  rw [decodeInt, if_pos (by omega), Int64.ofInt_toInt]

/-- A field that is a pointer is read back. -/
theorem mapM_map {α β : Type} {f : α → Option β} {g : β → α} (o : Option β)
    (h : ∀ b ∈ o, f (g b) = some b) : (o.map g).mapM f = some o := by
  cases o with
  | none => rfl
  | some b => simp [h b rfl]

@[simp] theorem mapM_decodeInt_toInt (o : Option Int64) : (o.map Int64.toInt).mapM decodeInt = some o :=
  mapM_map o fun n _ => decodeInt_toInt n

@[simp] theorem mapM_parseDuration_text (o : Option Duration) :
    (o.map Duration.text).mapM parseDuration = some o :=
  mapM_map o fun d _ => parseDuration_text d

@[simp] theorem omitText_getD (t : Text) : (omitText t).getD [] = t := by
  unfold omitText; split <;> simp_all

@[simp] theorem omitFalse_getD (b : Bool) : (omitFalse b).getD false = b := by
  cases b <;> rfl

@[simp] theorem omitNil_getD {α : Type} (l : List α) : (omitNil l).getD [] = l := by
  cases l <;> rfl

/-- Every field with a default is set, in each section that is there. -/
structure ServerConfigSpec.Full (c : ServerConfigSpec) : Prop where
  fragLimit : c.fragLimit ≠ none
  type : ∀ g ∈ c.game, g.type ≠ []
  quadFactor : ∀ g ∈ c.game, g.quadFactor ≠ none
  maxClients : ∀ s ∈ c.server, s.maxClients ≠ none
  skill : ∀ b ∈ c.bot, b.skill ≠ none

/-- A value that some document decodes to. -/
def Codec.Decoded (C : Codec) (v : C.Val) : Prop := ∃ d, C.decode d = some v

theorem Codec.decoded_of_mapM {C : Codec} {o : Option C.Doc} {p : Option C.Val}
    (h : o.mapM C.decode = some p) : ∀ v ∈ p, C.Decoded v := by
  intro v hv
  obtain ⟨d, -, hd⟩ := mapM_eq_some_some (Option.mem_def.mp hv ▸ h)
  exact ⟨d, hd⟩

structure QuakeServerSpec.Full (s : QuakeServerSpec K) : Prop where
  serverConfig : ∀ c ∈ s.serverConfig, c.Full
  resources : ∀ v ∈ s.resources, K.resources.Decoded v
  podSecurityContext : ∀ v ∈ s.podSecurityContext, K.podSecurityContext.Decoded v
  securityContext : ∀ v ∈ s.securityContext, K.securityContext.Decoded v

theorem some_getD_map_toInt {o : Option Int64} (h : o ≠ none) (z : ℤ) :
    some ((o.map Int64.toInt).getD z) = o.map Int64.toInt := by
  cases o with
  | none => exact absurd rfl h
  | some n => rfl

theorem omitText_getD_of_ne {t : Text} (h : t ≠ []) (u : Text) : (omitText t).getD u = t := by
  rw [omitText, if_neg h, Option.getD_some]

theorem game_decode_defaults_encode {g : GameConfigSpec} (ht : g.type ≠ []) (hq : g.quadFactor ≠ none) :
    g.encode.defaults.decode = some g := by
  simp [GameConfigDoc.decode, GameConfigDoc.defaults, GameConfigSpec.encode, some_getD_map_toInt hq,
    omitText_getD_of_ne ht]

theorem server_decode_defaults_encode {s : ServerSettings} (hm : s.maxClients ≠ none) :
    s.encode.defaults.decode = some s := by
  simp [ServerSettingsDoc.decode, ServerSettingsDoc.defaults, ServerSettings.encode,
    some_getD_map_toInt hm]

theorem bot_decode_defaults_encode {b : BotConfigSpec} (hs : b.skill ≠ none) :
    b.encode.defaults.decode = some b := by
  simp [BotConfigDoc.decode, BotConfigDoc.defaults, BotConfigSpec.encode, some_getD_map_toInt hs]

theorem map_decode_encode (m : MapSpec) : m.encode.decode = some m := by
  simp [MapDoc.decode, MapSpec.encode]

theorem mapM_decode_encode (l : List MapSpec) : (l.mapM fun m => m.encode.decode) = some l := by
  induction l with
  | nil => rfl
  | cons m l ih =>
    rw [List.mapM_cons, ih, map_decode_encode]
    rfl

theorem config_decode_defaults_encode {c : ServerConfigSpec} (h : c.Full) :
    c.encode.defaults.decode = some c := by
  have hg : (c.game.map fun g => g.encode.defaults).mapM GameConfigDoc.decode = some c.game :=
    mapM_map _ fun g hg => game_decode_defaults_encode (h.type g hg) (h.quadFactor g hg)
  have hs : (c.server.map fun s => s.encode.defaults).mapM ServerSettingsDoc.decode = some c.server :=
    mapM_map _ fun s hs => server_decode_defaults_encode (h.maxClients s hs)
  have hb : (c.bot.map fun b => b.encode.defaults).mapM BotConfigDoc.decode = some c.bot :=
    mapM_map _ fun b hb => bot_decode_defaults_encode (h.skill b hb)
  simp [ServerConfigDoc.decode, ServerConfigDoc.defaults, ServerConfigSpec.encode, Option.map_map,
    Function.comp_def, some_getD_map_toInt h.fragLimit, hg, hs, hb, mapM_decode_encode]

/-- A written gateway comes back enabled. -/
theorem gateway_decode_defaults_encode (g : GatewaySpec) :
    g.encode.defaults.decode = { g with enabled := true } := by
  obtain ⟨enabled, ref, hostname⟩ := g
  cases enabled <;> cases ref <;>
    simp [GatewayDoc.decode, GatewayDoc.defaults, GatewaySpec.encode, omitFalse]

theorem Codec.mapM_map_encode {C : Codec} {o : Option C.Val} (h : ∀ v ∈ o, C.Decoded v) :
    (o.map C.encode).mapM C.decode = some o :=
  mapM_map o fun v hv => by
    obtain ⟨d, hd⟩ := h v hv
    exact C.decode_encode hd

/-- **Writing a value and filling in the defaults** gives it back with every
gateway enabled. -/
theorem decode_defaults_encode {s : QuakeServerSpec K} (h : s.Full) :
    s.encode.defaults.decode =
      some { s with gateway := s.gateway.map fun g => { g with enabled := true } } := by
  have hc : (s.serverConfig.map fun c => c.encode.defaults).mapM ServerConfigDoc.decode =
      some s.serverConfig := mapM_map _ fun c hc => config_decode_defaults_encode (h.serverConfig c hc)
  simp [SpecDoc.decode, SpecDoc.defaults, QuakeServerSpec.encode, Option.map_map, Function.comp_def,
    gateway_decode_defaults_encode, hc, Codec.mapM_map_encode h.resources,
    Codec.mapM_map_encode h.podSecurityContext, Codec.mapM_map_encode h.securityContext]

end Operator
end QuakeKube
