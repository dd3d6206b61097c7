/-
# A template and the values that override it

`resolveConfig` (`operator/internal/controller/quakeserver_controller.go`) puts a
server's own configuration over its template's, field by field. A configuration
is read here as what it has at each of its seventeen fields (`value`); merging
then is one rule for all of them (`merge`): a value that is not empty overrides,
an empty one stands only where the template has nothing.

Two things follow for a document a user submits. What it states overrides the
template's value unless it states `false`, the empty string or an empty list
where the template has more (`stated_overrides_iff`). What it leaves out comes
from the template unless the schema has filled in a default of its own, in a
section that is there (`omitted_inherits_iff`).

Key definitions: `Field`, `Value`, `ServerConfigSpec.value`, `ServerConfigDoc.value`,
`mergeServerConfig`, `resolveConfig`.
Key theorems: `value_mergeServerConfig`, `stated_overrides_iff`, `omitted_inherits_iff`.
-/
import QuakeKube.Operator.Webhook

namespace QuakeKube
namespace Operator

open Go

/-! ### The fields of a configuration -/

inductive GameField
  | type | motd | forceRespawn | inactivity | quadFactor | password | weaponRespawn
deriving DecidableEq

inductive ServerField
  | hostname | maxClients | rconPassword
deriving DecidableEq

inductive BotField
  | minPlayers | skill | noChat
deriving DecidableEq

inductive Field
  | fragLimit | timeLimit | maps | commands
  | game (f : GameField)
  | server (f : ServerField)
  | bot (f : BotField)
deriving DecidableEq

/-- What a field can hold. -/
inductive Value
  | int (n : Int64)
  | duration (d : Duration)
  | text (t : Text)
  | bool (b : Bool)
  | maps (ms : List MapSpec)
  | texts (ts : List Text)
deriving DecidableEq

/-- The values `mergeServerConfig` takes for unset. -/
def Value.isEmpty : Value → Bool
  | .text t => t.isEmpty
  | .bool b => !b
  | .maps ms => ms.isEmpty
  | .texts ts => ts.isEmpty
  | .int _ | .duration _ => false

def GameConfigSpec.value (g : GameConfigSpec) : GameField → Option Value
  | .type => some (.text g.type)
  | .motd => some (.text g.motd)
  | .forceRespawn => some (.bool g.forceRespawn)
  | .inactivity => g.inactivity.map .duration
  | .quadFactor => g.quadFactor.map .int
  | .password => some (.text g.password)
  | .weaponRespawn => g.weaponRespawn.map .int

def ServerSettings.value (s : ServerSettings) : ServerField → Option Value
  | .hostname => some (.text s.hostname)
  | .maxClients => s.maxClients.map .int
  | .rconPassword => some (.text s.rconPassword)

def BotConfigSpec.value (b : BotConfigSpec) : BotField → Option Value
  | .minPlayers => b.minPlayers.map .int
  | .skill => b.skill.map .int
  | .noChat => some (.bool b.noChat)

/-- What a configuration has at a field; nothing where a pointer on the way is nil. -/
def ServerConfigSpec.value (c : ServerConfigSpec) : Field → Option Value
  | .fragLimit => c.fragLimit.map .int
  | .timeLimit => c.timeLimit.map .duration
  | .maps => some (.maps c.maps)
  | .commands => some (.texts c.commands)
  | .game f => c.game.bind (·.value f)
  | .server f => c.server.bind (·.value f)
  | .bot f => c.bot.bind (·.value f)

def GameConfigDoc.value (d : GameConfigDoc) : GameField → Option Value
  | .type => d.type.map .text
  | .motd => d.motd.map .text
  | .forceRespawn => d.forceRespawn.map .bool
  | .inactivity => (d.inactivity.bind parseDuration).map .duration
  | .quadFactor => (d.quadFactor.bind decodeInt).map .int
  | .password => d.password.map .text
  | .weaponRespawn => (d.weaponRespawn.bind decodeInt).map .int

def ServerSettingsDoc.value (d : ServerSettingsDoc) : ServerField → Option Value
  | .hostname => d.hostname.map .text
  | .maxClients => (d.maxClients.bind decodeInt).map .int
  | .rconPassword => d.rconPassword.map .text

def BotConfigDoc.value (d : BotConfigDoc) : BotField → Option Value
  | .minPlayers => (d.minPlayers.bind decodeInt).map .int
  | .skill => (d.skill.bind decodeInt).map .int
  | .noChat => d.noChat.map .bool

/-- The value a document states at a field; nothing where it leaves it out. -/
def ServerConfigDoc.value (d : ServerConfigDoc) : Field → Option Value
  | .fragLimit => (d.fragLimit.bind decodeInt).map .int
  | .timeLimit => (d.timeLimit.bind parseDuration).map .duration
  | .maps => (d.maps.bind (·.mapM MapDoc.decode)).map .maps
  | .commands => d.commands.map .texts
  | .game f => d.game.bind (·.value f)
  | .server f => d.server.bind (·.value f)
  | .bot f => d.bot.bind (·.value f)

/-! ### The merge -/

def mergeGameConfig (base override : GameConfigSpec) : GameConfigSpec where
  type := if override.type ≠ [] then override.type else base.type
  motd := if override.motd ≠ [] then override.motd else base.motd
  forceRespawn := if override.forceRespawn then override.forceRespawn else base.forceRespawn
  inactivity := override.inactivity.or base.inactivity
  quadFactor := override.quadFactor.or base.quadFactor
  password := if override.password ≠ [] then override.password else base.password
  weaponRespawn := override.weaponRespawn.or base.weaponRespawn

def mergeServerSettings (base override : ServerSettings) : ServerSettings where
  hostname := if override.hostname ≠ [] then override.hostname else base.hostname
  maxClients := override.maxClients.or base.maxClients
  rconPassword := if override.rconPassword ≠ [] then override.rconPassword else base.rconPassword

def mergeBotConfig (base override : BotConfigSpec) : BotConfigSpec where
  minPlayers := override.minPlayers.or base.minPlayers
  skill := override.skill.or base.skill
  noChat := if override.noChat then override.noChat else base.noChat

/-- A section of the override goes into the base's, or into an empty one. -/
def mergeSection {α : Type} (merge : α → α → α) (zero : α) (base override : Option α) : Option α :=
  match override with
  | none => base
  | some o => some (merge (base.getD zero) o)

/-- `mergeServerConfig`; nil is `none`. -/
def mergeServerConfig (base override : Option ServerConfigSpec) : Option ServerConfigSpec :=
  match base, override with
  | base, none => base
  | none, override => override
  | some b, some o => some {
      fragLimit := o.fragLimit.or b.fragLimit
      timeLimit := o.timeLimit.or b.timeLimit
      game := mergeSection mergeGameConfig .zero b.game o.game
      server := mergeSection mergeServerSettings .zero b.server o.server
      bot := mergeSection mergeBotConfig .zero b.bot o.bot
      maps := if 0 < o.maps.length then o.maps else b.maps
      commands := if 0 < o.commands.length then o.commands else b.commands }

/-- Why `r.Get` returns no template. -/
inductive GetError
  | notFound
  | other (message : Text)
deriving DecidableEq

/-- `resolveConfig`, with `r.Get` for the templates. -/
def resolveConfig {K : Core} (get : Text → Except GetError QuakeServerTemplateSpec) (s : QuakeServerSpec K) :
    Except Text ServerConfigSpec :=
  let result := s.serverConfig.getD .zero
  match s.templateRef with
  | none => .ok result
  | some ref => match get ref.name with
    | .error .notFound => .error (txt "template " ++ ref.name ++ txt " not found")
    | .error (.other message) => .error message
    -- a template without a configuration leaves the server's own
    | .ok template => match mergeServerConfig template.serverConfig (some result) with
      | some c => .ok c
      | none => .ok result

/-- What a merge leaves of two values at one field. -/
def merge (base override : Option Value) : Option Value :=
  match override with
  | none => base
  | some v => if v.isEmpty then base.or (some v) else some v

/-! ### The merge of configurations, field by field -/

@[simp] theorem merge_none (x : Option Value) : merge x none = x := rfl

@[simp] theorem none_merge (y : Option Value) : merge none y = y := by
  cases y with
  | none => rfl
  | some v => simp [merge]

@[simp] theorem merge_text (x y : Text) :
    merge (some (.text x)) (some (.text y)) = some (.text (if y ≠ [] then y else x)) := by
  by_cases h : y = [] <;> simp [merge, Value.isEmpty, h]

@[simp] theorem merge_bool (x y : Bool) :
    merge (some (.bool x)) (some (.bool y)) = some (.bool (if y then y else x)) := by
  cases y <;> simp [merge, Value.isEmpty]

@[simp] theorem merge_int (x y : Option Int64) : merge (x.map .int) (y.map .int) = (y.or x).map .int := by
  cases y <;> simp [merge, Value.isEmpty]

@[simp] theorem merge_duration (x y : Option Duration) :
    merge (x.map .duration) (y.map .duration) = (y.or x).map .duration := by
  cases y <;> simp [merge, Value.isEmpty]

@[simp] theorem merge_maps (x y : List MapSpec) :
    merge (some (.maps x)) (some (.maps y)) = some (.maps (if 0 < y.length then y else x)) := by
  cases y <;> simp [merge, Value.isEmpty]

@[simp] theorem merge_texts (x y : List Text) :
    merge (some (.texts x)) (some (.texts y)) = some (.texts (if 0 < y.length then y else x)) := by
  cases y <;> simp [merge, Value.isEmpty]

theorem value_mergeGameConfig (b o : GameConfigSpec) (f : GameField) :
    (mergeGameConfig b o).value f = merge (b.value f) (o.value f) := by
  cases f <;> simp [mergeGameConfig, GameConfigSpec.value]

theorem value_mergeServerSettings (b o : ServerSettings) (f : ServerField) :
    (mergeServerSettings b o).value f = merge (b.value f) (o.value f) := by
  cases f <;> simp [mergeServerSettings, ServerSettings.value]

theorem value_mergeBotConfig (b o : BotConfigSpec) (f : BotField) :
    (mergeBotConfig b o).value f = merge (b.value f) (o.value f) := by
  cases f <;> simp [mergeBotConfig, BotConfigSpec.value]

/-- A section merges like its fields, if an empty section adds nothing. -/
theorem value_mergeSection {α φ : Type} {mg : α → α → α} {zero : α} (value : α → φ → Option Value)
    (hmg : ∀ b o f, value (mg b o) f = merge (value b f) (value o f))
    (hzero : ∀ o f, merge (value zero f) (value o f) = value o f) (b o : Option α) (f : φ) :
    (mergeSection mg zero b o).bind (value · f) = merge (b.bind (value · f)) (o.bind (value · f)) := by
  cases o with
  | none => rfl
  | some o =>
    cases b with
    | none => simp [mergeSection, hmg, hzero, none_merge]
    | some b => simp [mergeSection, hmg]

/-- **Merging is the same rule at every field.** -/
theorem value_mergeServerConfig (b o : ServerConfigSpec) :
    ∃ r, mergeServerConfig (some b) (some o) = some r ∧ ∀ f, r.value f = merge (b.value f) (o.value f) := by
  refine ⟨_, rfl, fun f => ?_⟩
  cases f with
  | fragLimit | timeLimit | maps | commands => simp [ServerConfigSpec.value]
  | game f =>
    refine value_mergeSection GameConfigSpec.value value_mergeGameConfig ?_ _ _ f
    intro o f
    cases f <;> simp [GameConfigSpec.value, GameConfigSpec.zero]
  | server f =>
    refine value_mergeSection ServerSettings.value value_mergeServerSettings ?_ _ _ f
    intro o f
    cases f <;> simp [ServerSettings.value, ServerSettings.zero]
  | bot f =>
    refine value_mergeSection BotConfigSpec.value value_mergeBotConfig ?_ _ _ f
    intro o f
    cases f <;> simp [BotConfigSpec.value, BotConfigSpec.zero]

/-! ### A document and its value -/

/-- A field of a document against the field of the value it decodes to: what is
stated is there, and what is left out is nil or empty. -/
def Reads (stated value : Option Value) : Prop :=
  (∀ v, stated = some v → value = some v) ∧ (stated = none → ∀ w, value = some w → w.isEmpty)

theorem reads_text {o : Option Text} {t : Text} (h : t = o.getD []) :
    Reads (o.map .text) (some (.text t)) := by
  subst h
  cases o <;> simp [Reads, Value.isEmpty]

theorem reads_bool {o : Option Bool} {b : Bool} (h : b = o.getD false) :
    Reads (o.map .bool) (some (.bool b)) := by
  subst h
  cases o <;> simp [Reads, Value.isEmpty]

theorem reads_texts {o : Option (List Text)} {ts : List Text} (h : ts = o.getD []) :
    Reads (o.map .texts) (some (.texts ts)) := by
  subst h
  cases o <;> simp [Reads, Value.isEmpty]

/-- What decodes an optional part value by value keeps what is stated in it. -/
theorem reads_mapM {α β : Type} {dec : α → Option β} {dv : α → Option Value} {sv : β → Option Value}
    (hr : ∀ a b, dec a = some b → Reads (dv a) (sv b)) {o : Option α} {p : Option β}
    (h : o.mapM dec = some p) : Reads (o.bind dv) (p.bind sv) := by
  cases p with
  | none =>
    cases o with
    | none => simp [Reads]
    | some a => exact absurd rfl (mapM_some_ne_none h)
  | some b =>
    obtain ⟨a, rfl, hb⟩ := mapM_eq_some_some h
    exact hr a b hb

theorem reads_pointer {α β : Type} {f : α → Option β} {o : Option α} {p : Option β} (k : β → Value)
    (h : o.mapM f = some p) : Reads ((o.bind f).map k) (p.map k) := by
  have hr : ∀ a b, f a = some b → Reads ((f a).map k) (some (k b)) := by
    intro a b hab
    simp [Reads, hab]
  rw [Option.map_bind, Option.map_eq_bind]
  exact reads_mapM hr h

theorem reads_maps {o : Option (List MapDoc)} {ms : List MapSpec}
    (h : (o.getD []).mapM MapDoc.decode = some ms) :
    Reads ((o.bind (·.mapM MapDoc.decode)).map .maps) (some (.maps ms)) := by
  cases o with
  | none =>
    obtain rfl : [] = ms := by simpa using h
    simp [Reads, Value.isEmpty]
  | some l =>
    have hl : l.mapM MapDoc.decode = some ms := h
    simp [Reads, hl]

theorem reads_section {α β φ : Type} {dec : α → Option β} {dv : α → φ → Option Value}
    {sv : β → φ → Option Value} (hr : ∀ a b f, dec a = some b → Reads (dv a f) (sv b f)) {o : Option α}
    {p : Option β} (h : o.mapM dec = some p) (f : φ) : Reads (o.bind (dv · f)) (p.bind (sv · f)) :=
  reads_mapM (fun a b => hr a b f) h

/-- **Decoding keeps every stated value** and leaves the other fields empty. -/
theorem reads_decode {d : ServerConfigDoc} {c : ServerConfigSpec} (h : d.decode = some c) (f : Field) :
    Reads (d.value f) (c.value f) := by
  obtain ⟨hfrag, htime, hg, hs, hb, hmaps, hcmd⟩ := ServerConfigDoc.decode_eq h
  cases f with
  | fragLimit => exact reads_pointer _ hfrag
  | timeLimit => exact reads_pointer _ htime
  | maps => exact reads_maps hmaps
  | commands => exact reads_texts hcmd
  | game f =>
    refine reads_section (fun a b f hab => ?_) hg f
    obtain ⟨h1, h2, h3, h4, h5, h6, h7⟩ := GameConfigDoc.decode_eq hab
    cases f with
    | type => exact reads_text h4
    | motd => exact reads_text h5
    | forceRespawn => exact reads_bool h6
    | inactivity => exact reads_pointer _ h1
    | quadFactor => exact reads_pointer _ h2
    | password => exact reads_text h7
    | weaponRespawn => exact reads_pointer _ h3
  | server f =>
    refine reads_section (fun a b f hab => ?_) hs f
    obtain ⟨h1, h2, h3⟩ := ServerSettingsDoc.decode_eq hab
    cases f with
    | hostname => exact reads_text h2
    | maxClients => exact reads_pointer _ h1
    | rconPassword => exact reads_text h3
  | bot f =>
    refine reads_section (fun a b f hab => ?_) hb f
    obtain ⟨h1, h2, h3⟩ := BotConfigDoc.decode_eq hab
    cases f with
    | minPlayers => exact reads_pointer _ h1
    | skill => exact reads_pointer _ h2
    | noChat => exact reads_bool h3

/-! ### What a user states -/

/-- The empty value of a field that is no pointer. -/
def Field.empty : Field → Value
  | .maps => .maps []
  | .commands => .texts []
  | .game .forceRespawn | .bot .noChat => .bool false
  | _ => .text []

theorem eq_empty {c : ServerConfigSpec} {f : Field} {v : Value} (h : c.value f = some v)
    (hv : v.isEmpty = true) : v = f.empty := by
  have hint : ∀ o : Option Int64, o.map Value.int ≠ some v := by
    rintro (_ | n) h <;> simp at h
    simp [← h, Value.isEmpty] at hv
  have hdur : ∀ o : Option Duration, o.map Value.duration ≠ some v := by
    rintro (_ | n) h <;> simp at h
    simp [← h, Value.isEmpty] at hv
  have htext : ∀ t : Text, some (Value.text t) = some v → v = .text [] := by
    rintro t h
    obtain rfl := Option.some.inj h
    simpa [Value.isEmpty] using hv
  have hbool : ∀ b : Bool, some (Value.bool b) = some v → v = .bool false := by
    rintro b h
    obtain rfl := Option.some.inj h
    simpa [Value.isEmpty] using hv
  cases f with
  | fragLimit => exact absurd h (hint _)
  | timeLimit => exact absurd h (hdur _)
  | maps | commands =>
    obtain rfl := Option.some.inj h
    simpa [Value.isEmpty, Field.empty] using hv
  | game f =>
    obtain ⟨g, -, hg⟩ := Option.bind_eq_some_iff.mp h
    cases f with
    | type | motd | password => exact htext _ hg
    | forceRespawn => exact hbool _ hg
    | inactivity => exact absurd hg (hdur _)
    | quadFactor | weaponRespawn => exact absurd hg (hint _)
  | server f =>
    obtain ⟨g, -, hg⟩ := Option.bind_eq_some_iff.mp h
    cases f with
    | hostname | rconPassword => exact htext _ hg
    | maxClients => exact absurd hg (hint _)
  | bot f =>
    obtain ⟨g, -, hg⟩ := Option.bind_eq_some_iff.mp h
    cases f with
    | minPlayers | skill => exact absurd hg (hint _)
    | noChat => exact hbool _ hg

/-- With a template in place, resolving is merging. -/
theorem resolveConfig_eq {K : Core} {get : Text → Except GetError QuakeServerTemplateSpec}
    {s : QuakeServerSpec K} {ref : TemplateReference} {t : ServerConfigSpec}
    (href : s.templateRef = some ref) (hget : get ref.name = .ok ⟨some t⟩) :
    ∃ r, resolveConfig get s = .ok r ∧
      ∀ f, r.value f = merge (t.value f) ((s.serverConfig.getD .zero).value f) := by
  obtain ⟨r, hr, hv⟩ := value_mergeServerConfig t (s.serverConfig.getD .zero)
  refine ⟨r, ?_, hv⟩
  simp only [resolveConfig, href, hget, hr]

/-- **A stated value overrides the template's** exactly when no field is stated
as `false`, empty text or an empty list over a template that has more. -/
theorem stated_overrides_iff {K : Core} {get : Text → Except GetError QuakeServerTemplateSpec}
    {s : QuakeServerSpec K} {ref : TemplateReference} {t c : ServerConfigSpec} {u : ServerConfigDoc}
    (hu : u.decode = some c) (hs : s.serverConfig = some c) (href : s.templateRef = some ref)
    (hget : get ref.name = .ok ⟨some t⟩) :
    ∃ r, resolveConfig get s = .ok r ∧
      ((∀ f v, u.value f = some v → r.value f = some v) ↔
        ∀ f v w, u.value f = some v → v.isEmpty → t.value f = some w → w.isEmpty) := by
  obtain ⟨r, hr, hv⟩ := resolveConfig_eq href hget
  rw [hs, Option.getD_some] at hv
  refine ⟨r, hr, fun h f v w hf hve htf => ?_, fun h f v hf => ?_⟩
  · have hrv := h f v hf
    rw [hv, (reads_decode hu f).1 v hf, htf, merge, if_pos hve] at hrv
    obtain rfl : w = v := Option.some.inj hrv
    exact hve
  · have hcf := (reads_decode hu f).1 v hf
    rw [hv, hcf]
    rcases hve : v.isEmpty with _ | _
    · simp [merge, hve]
    rcases htf : t.value f with _ | w
    · exact none_merge _
    · have hw := h f v w hf hve htf
      obtain rfl : w = v := (eq_empty htf hw).trans (eq_empty hcf hve).symm
      rw [merge, if_pos hve]
      rfl

/-- A document without a field. -/
def ServerConfigDoc.zero : ServerConfigDoc := ⟨none, none, none, none, none, none, none⟩

/-- A template with room for 32 players and silent bots. -/
def arenaDoc : ServerConfigDoc :=
  { ServerConfigDoc.zero with
    fragLimit := some 25
    server := some ⟨none, some 32, none⟩
    bot := some ⟨none, some 3, some true⟩ }

/-- A server that refers to the template and states `u`. -/
def arenaServer (u : ServerConfigDoc) : SpecDoc .unit where
  agreeEula := true
  templateRef := some ⟨['a'], none⟩
  serverConfig := some u
  gateway := none
  resources := none
  podSecurityContext := none
  securityContext := none

/-- A stated limit is no empty value. -/
theorem stated_overrides_fragLimit :
    ∃ s t, (arenaServer { ServerConfigDoc.zero with fragLimit := some 30 }).decode = some s ∧
      arenaDoc.decode = some t ∧ ∃ r, resolveConfig (fun _ => .ok ⟨some t⟩) s = .ok r ∧
        r.value .fragLimit = some (.int 30) := by
  have hu : ({ ServerConfigDoc.zero with fragLimit := some 30 } : ServerConfigDoc).decode =
      some { ServerConfigSpec.zero with fragLimit := some 30 } := rfl
  obtain ⟨t, ht⟩ : ∃ t, arenaDoc.decode = some t := ⟨_, rfl⟩
  let s : QuakeServerSpec .unit := ⟨true, some ⟨['a'], []⟩,
    some { ServerConfigSpec.zero with fragLimit := some 30 }, none, none, none, none⟩
  let get : Text → Except GetError QuakeServerTemplateSpec := fun _ => .ok ⟨some t⟩
  have hs : s.serverConfig = some { ServerConfigSpec.zero with fragLimit := some 30 } := rfl
  have href : s.templateRef = some ⟨['a'], []⟩ := rfl
  have hget : get ['a'] = .ok ⟨some t⟩ := rfl
  obtain ⟨r, hr, hiff⟩ := stated_overrides_iff hu hs href hget
  refine ⟨s, t, rfl, ht, r, hr, hiff.mpr (fun f v w hf hv => ?_) _ _ rfl⟩
  cases f <;> simp [ServerConfigDoc.value, ServerConfigDoc.zero] at hf
  obtain ⟨n, -, rfl⟩ := hf
  cases hv

/-- **A stated `false` is lost**: the user lets the bots talk, the template's
silence stays. -/
theorem stated_not_override :
    ∃ s t r, (arenaServer { ServerConfigDoc.zero with bot := some ⟨none, none, some false⟩ }).decode = some s ∧
      arenaDoc.decode = some t ∧ resolveConfig (fun _ => .ok ⟨some t⟩) s = .ok r ∧
      ServerConfigDoc.value { ServerConfigDoc.zero with bot := some ⟨none, none, some false⟩ } (.bot .noChat) =
        some (.bool false) ∧ r.value (.bot .noChat) = some (.bool true) :=
  ⟨_, _, _, rfl, rfl, rfl, rfl, rfl⟩

/-! ### What a user leaves out -/

/-- The schema's defaults in each section. -/
def GameField.default : GameField → Option Value
  | .type => some (.text GameType.FreeForAll)
  | .quadFactor => some (.int 3)
  | _ => none

def ServerField.default : ServerField → Option Value
  | .maxClients => some (.int 12)
  | _ => none

def BotField.default : BotField → Option Value
  | .skill => some (.int 3)
  | _ => none

/-- The default the schema has for a field of `u`: only where its section is there. -/
def schemaDefault (u : ServerConfigDoc) : Field → Option Value
  | .fragLimit => some (.int 25)
  | .game f => u.game.bind fun _ => f.default
  | .server f => u.server.bind fun _ => f.default
  | .bot f => u.bot.bind fun _ => f.default
  | .timeLimit | .maps | .commands => none

theorem schemaDefault_ne_empty {u : ServerConfigDoc} {f : Field} {v : Value}
    (h : schemaDefault u f = some v) : v.isEmpty = false := by
  cases f with
  | fragLimit =>
    obtain rfl := Option.some.inj h
    rfl
  | timeLimit | maps | commands => cases h
  | game f =>
    obtain ⟨_, -, h⟩ := Option.bind_eq_some_iff.mp h
    cases f <;> cases h <;> simp [Value.isEmpty, GameType.FreeForAll_ne_nil]
  | server f =>
    obtain ⟨_, -, h⟩ := Option.bind_eq_some_iff.mp h
    cases f <;> cases h
    rfl
  | bot f =>
    obtain ⟨_, -, h⟩ := Option.bind_eq_some_iff.mp h
    cases f <;> cases h
    rfl

/-- An integer nobody states has the default after the schema's. -/
theorem int_default {o : Option ℤ} {z : ℤ} {n : Int64} {p : Option Int64} (hz : decodeInt z = some n)
    (h : (some (o.getD z)).mapM decodeInt = some p) (ho : (o.bind decodeInt).map Value.int = none) :
    ((some (o.getD z)).bind decodeInt).map Value.int = some (.int n) := by
  cases o with
  | none => simp [hz]
  | some x =>
    -- an integer that does not fit is not decoded at all
    have hx : decodeInt x = none := by simpa using ho
    simp [hx] at h

theorem value_game_defaults {u : GameConfigDoc} {c : GameConfigSpec} (hd : u.defaults.decode = some c)
    {f : GameField} (hf : u.value f = none) : u.defaults.value f = f.default := by
  cases f with
  | type =>
    have ht : u.type = none := by simpa [GameConfigDoc.value] using hf
    simp [GameConfigDoc.value, GameConfigDoc.defaults, GameField.default, ht]
  | quadFactor => exact int_default rfl (GameConfigDoc.decode_eq hd).2.1 hf
  | motd | forceRespawn | inactivity | password | weaponRespawn => exact hf

theorem value_server_defaults {u : ServerSettingsDoc} {c : ServerSettings}
    (hd : u.defaults.decode = some c) {f : ServerField} (hf : u.value f = none) :
    u.defaults.value f = f.default := by
  cases f with
  | maxClients => exact int_default rfl (ServerSettingsDoc.decode_eq hd).1 hf
  | hostname | rconPassword => exact hf

theorem value_bot_defaults {u : BotConfigDoc} {c : BotConfigSpec} (hd : u.defaults.decode = some c)
    {f : BotField} (hf : u.value f = none) : u.defaults.value f = f.default := by
  cases f with
  | skill => exact int_default rfl (BotConfigDoc.decode_eq hd).2.1 hf
  | minPlayers | noChat => exact hf

theorem value_section_defaults {α β φ : Type} {fill : α → α} {dec : α → Option β}
    {dv : α → φ → Option Value} {dflt : φ → Option Value}
    (hfill : ∀ a b f, dec (fill a) = some b → dv a f = none → dv (fill a) f = dflt f) {o : Option α}
    {p : Option β} (h : (o.map fill).mapM dec = some p) {f : φ} (hf : o.bind (dv · f) = none) :
    (o.map fill).bind (dv · f) = o.bind fun _ => dflt f := by
  cases o with
  | none => rfl
  | some a =>
    rcases hb : dec (fill a) with _ | b
    · simp [hb] at h
    · exact hfill a b f hb hf

/-- Where `u` states nothing, the schema's default is all that is filled in. -/
theorem value_defaults {u : ServerConfigDoc} {c : ServerConfigSpec} (hd : u.defaults.decode = some c)
    {f : Field} (hf : u.value f = none) : u.defaults.value f = schemaDefault u f := by
  obtain ⟨hfrag, -, hg, hs, hb, -⟩ := ServerConfigDoc.decode_eq hd
  cases f with
  | fragLimit => exact int_default rfl hfrag hf
  | timeLimit | maps | commands => exact hf
  | game f => exact value_section_defaults (fun _ _ _ h hf => value_game_defaults h hf) hg hf
  | server f => exact value_section_defaults (fun _ _ _ h hf => value_server_defaults h hf) hs hf
  | bot f => exact value_section_defaults (fun _ _ _ h hf => value_bot_defaults h hf) hb hf

/-- The webhook's own default is no news where a type is already set. -/
theorem value_default {c : ServerConfigSpec} {f : Field} (h : f = .game .type → c.value f ≠ some (.text [])) :
    c.default.value f = c.value f := by
  cases f with
  | fragLimit | timeLimit | maps | commands | server f | bot f => rfl
  | game f =>
    rcases hg : c.game with _ | g
    · simp [ServerConfigSpec.value, ServerConfigSpec.default, hg]
    · simp only [ServerConfigSpec.value, ServerConfigSpec.default, hg, Option.map_some, Option.bind_some]
      by_cases ht : g.type = []
      · cases f with
        | type => exact absurd (by simp [ServerConfigSpec.value, hg, GameConfigSpec.value, ht]) (h rfl)
        | motd | forceRespawn | inactivity | quadFactor | password | weaponRespawn =>
          simp [GameConfigSpec.default, ht, GameConfigSpec.value]
      · rw [GameConfigSpec.default_eq_self ht]

/-- What is stored for a document, at the fields the document leaves out. -/
theorem reads_stored {u : ServerConfigDoc} {c : ServerConfigSpec} (hd : u.defaults.decode = some c)
    {f : Field} (hf : u.value f = none) : Reads (schemaDefault u f) (c.default.value f) := by
  have hr := reads_decode hd f
  rw [value_defaults hd hf] at hr
  rw [value_default]
  · exact hr
  · rintro rfl ht
    rcases hs : schemaDefault u (.game .type) with _ | v
    · -- without a game section there is no type
      rcases hg : u.game with _ | g
      · have := (ServerConfigDoc.decode_eq hd).2.2.1
        have hcg : c.game = none := by simpa [ServerConfigDoc.defaults, hg] using this.symm
        simp [ServerConfigSpec.value, hcg] at ht
      · simp [schemaDefault, hg, GameField.default] at hs
    · have hne := schemaDefault_ne_empty hs
      obtain rfl : v = .text [] := Option.some.inj ((hr.1 v hs).symm.trans ht)
      exact absurd hne (by simp [Value.isEmpty])

theorem isEmpty_of_zero {f : Field} {v : Value} (h : ServerConfigSpec.zero.value f = some v) :
    v.isEmpty = true := by
  cases f <;> simp [ServerConfigSpec.value, ServerConfigSpec.zero] at h <;> simp [← h, Value.isEmpty]

theorem mutating_of_admission {K : Core} {d d' : SpecDoc K} (h : admission d = some d') :
    mutating d = some d' := by
  simp only [admission, Option.bind_eq_bind, Option.bind_eq_some_iff, guard] at h
  obtain ⟨e, he, _, -, _, -, h⟩ := h
  exact he.trans (by simpa using h)

/-- The configuration of a stored server, against what its document states and
what the schema adds. -/
theorem reads_admission {K : Core} {d d' : SpecDoc K} {s : QuakeServerSpec K} (ha : admission d = some d')
    (hs : d'.decode = some s) {f : Field} (hf : (d.serverConfig.bind (·.value f)) = none) :
    Reads (d.serverConfig.bind (schemaDefault · f)) ((s.serverConfig.getD .zero).value f) := by
  have hm := mutating_of_admission ha
  obtain ⟨s0, hd, -⟩ := Option.map_eq_some_iff.mp hm
  obtain ⟨e, he, -, hdec⟩ := mutating_decode hd
  obtain rfl : d' = e := Option.some.inj (hm.symm.trans he)
  obtain rfl : s0.default.enabled = s := Option.some.inj (hdec.symm.trans hs)
  have hc := (SpecDoc.decode_eq hd).1
  rcases hu : d.serverConfig with _ | u
  · -- no configuration at all: nothing is filled in
    have hc0 : s0.serverConfig = none := by simpa [SpecDoc.defaults, hu] using hc.symm
    refine ⟨by simp, fun _ w hw => ?_⟩
    simp only [QuakeServerSpec.enabled, QuakeServerSpec.default, hc0, Option.map_none,
      Option.getD_none] at hw
    exact isEmpty_of_zero hw
  · simp only [SpecDoc.defaults, hu, Option.map_some] at hc
    rcases hcu : u.defaults.decode with _ | c
    · simp [hcu] at hc
    · have hc0 : s0.serverConfig = some c := by simpa [hcu] using hc.symm
      have hsc : s0.default.enabled.serverConfig.getD .zero = c.default := by
        simp [QuakeServerSpec.enabled, QuakeServerSpec.default, hc0]
      rw [hsc]
      exact reads_stored hcu (by simpa [hu] using hf)

/-- **A field the user leaves out comes from the template** exactly when the
schema has no default of its own for it in a section the user has given, or the
template has that very value. -/
theorem omitted_inherits_iff {K : Core} {get : Text → Except GetError QuakeServerTemplateSpec}
    {d d' : SpecDoc K} {s : QuakeServerSpec K} {ref : TemplateReference} {t : ServerConfigDoc}
    {c : ServerConfigSpec} (ha : admission d = some d') (hs : d'.decode = some s)
    (href : s.templateRef = some ref) (hget : get ref.name = .ok ⟨some c⟩) (ht : t.decode = some c) :
    ∃ r, resolveConfig get s = .ok r ∧
      ((∀ f v, d.serverConfig.bind (·.value f) = none → t.value f = some v → r.value f = some v) ↔
        ∀ f v w, d.serverConfig.bind (·.value f) = none → t.value f = some v →
          d.serverConfig.bind (schemaDefault · f) = some w → w = v) := by
  obtain ⟨r, hr, hv⟩ := resolveConfig_eq href hget
  refine ⟨r, hr, fun h f v w hf htf hw => ?_, fun h f v hf htf => ?_⟩
  · have hrv := h f v hf htf
    obtain ⟨u, -, hsd⟩ := Option.bind_eq_some_iff.mp hw
    rw [hv, (reads_admission ha hs hf).1 w hw, merge, schemaDefault_ne_empty hsd] at hrv
    simpa using hrv
  · have hreads := reads_admission ha hs hf
    rw [hv, (reads_decode ht f).1 v htf]
    rcases hw : d.serverConfig.bind (schemaDefault · f) with _ | w
    · rcases hcv : (s.serverConfig.getD .zero).value f with _ | x
      · rfl
      · rw [merge, if_pos (hreads.2 hw x hcv)]
        rfl
    · obtain ⟨u, -, hsd⟩ := Option.bind_eq_some_iff.mp hw
      obtain rfl := h f v w hf htf hw
      rw [hreads.1 w hw, merge, schemaDefault_ne_empty hsd]
      simp

/-- A server without a section of its own takes the template's. -/
theorem omitted_inherits_maxClients :
    ∃ d s t r, admission (arenaServer { ServerConfigDoc.zero with commands := some [] }) = some d ∧
      d.decode = some s ∧ arenaDoc.decode = some t ∧ resolveConfig (fun _ => .ok ⟨some t⟩) s = .ok r ∧
      r.value (.server .maxClients) = some (.int 32) := by
  obtain ⟨d, s, hd, hs, href⟩ : ∃ d s,
      admission (arenaServer { ServerConfigDoc.zero with commands := some [] }) = some d ∧
      d.decode = some s ∧ s.templateRef = some ⟨['a'], []⟩ := ⟨_, _, rfl, rfl, rfl⟩
  obtain ⟨t, ht⟩ : ∃ t, arenaDoc.decode = some t := ⟨_, rfl⟩
  let get : Text → Except GetError QuakeServerTemplateSpec := fun _ => .ok ⟨some t⟩
  have hget : get ['a'] = .ok ⟨some t⟩ := rfl
  obtain ⟨r, hr, hiff⟩ := omitted_inherits_iff hd hs href hget ht
  refine ⟨d, s, t, r, hd, hs, ht, hr, hiff.mpr (fun f v w hf htf hw => ?_) _ _ rfl rfl⟩
  -- only the frag limit is filled in, and the template has it at its default
  cases f with
  | fragLimit =>
    obtain rfl : Value.int 25 = w := Option.some.inj hw
    exact Option.some.inj htf
  | _ => cases hw

/-- **A field that is left out loses the template's value**: the user names the
server, and the schema's 12 clients take the place of the template's 32. -/
theorem omitted_not_inherited :
    ∃ d s t r, admission (arenaServer { ServerConfigDoc.zero with server := some ⟨some ['u'], none, none⟩ }) =
        some d ∧
      d.decode = some s ∧ arenaDoc.decode = some t ∧ resolveConfig (fun _ => .ok ⟨some t⟩) s = .ok r ∧
      arenaDoc.value (.server .maxClients) = some (.int 32) ∧
      r.value (.server .maxClients) = some (.int 12) :=
  ⟨_, _, _, _, rfl, rfl, rfl, rfl, rfl, rfl⟩

end Operator
end QuakeKube
