/-
# Writes that pass the webhooks

Every write of a server goes through the API server's defaults and the two
webhooks of `operator/api/v1alpha1/quakeserver_webhook.go`: the mutating one
decodes the object, sets a missing game type and writes the object back, the
validating one checks what came of it. The controller adds and removes its
finalizer by writing the whole object (`update`).

What a write keeps of the spec is decided by `decode_defaults_encode`: all but an
explicit `gateway.enabled: false`, which `omitempty` leaves out and the schema's
default sets to true again (`spec_kept_iff`).

Key definitions: `QuakeServerSpec.default`, `validateQuakeServer`, `mutating`,
`admission`, `update`.
Key theorem: `spec_kept_iff`.
-/
import QuakeKube.Operator.Document

namespace QuakeKube
namespace Operator

open Go

variable {K : Core}

/-! ### The webhooks -/

/-- `QuakeServer.Default`: a game section without a type gets one. -/
def GameConfigSpec.default (g : GameConfigSpec) : GameConfigSpec :=
  if g.type = [] then { g with type := GameType.FreeForAll } else g

theorem GameConfigSpec.default_type_ne (g : GameConfigSpec) : g.default.type ≠ [] := by
  unfold GameConfigSpec.default
  split
  · exact GameType.FreeForAll_ne_nil
  · assumption

theorem GameConfigSpec.default_quadFactor (g : GameConfigSpec) : g.default.quadFactor = g.quadFactor := by
  unfold GameConfigSpec.default
  split <;> rfl

theorem GameConfigSpec.default_eq_self {g : GameConfigSpec} (h : g.type ≠ []) : g.default = g := if_neg h

def ServerConfigSpec.default (c : ServerConfigSpec) : ServerConfigSpec :=
  { c with game := c.game.map GameConfigSpec.default }

def QuakeServerSpec.default (s : QuakeServerSpec K) : QuakeServerSpec K :=
  { s with serverConfig := s.serverConfig.map ServerConfigSpec.default }

/-- The errors `validateQuakeServer` collects. -/
def validateQuakeServer (s : QuakeServerSpec K) : List Text :=
  (if s.agreeEula then []
    else [txt "spec.agreeEula must be set to true to accept the Quake 3 EULA"]) ++
  (match s.templateRef with
    | some ⟨[], _⟩ => [txt "spec.templateRef.name cannot be empty when templateRef is specified"]
    | _ => []) ++
  (match s.gateway with
    | some ⟨true, none, _⟩ => [txt "spec.gateway.gatewayRef is required when gateway is enabled"]
    | some ⟨true, some ⟨[], _⟩, _⟩ => [txt "spec.gateway.gatewayRef.name cannot be empty"]
    | _ => [])

/-- `ValidationError.Error`. -/
def errorText : List Text → Text
  | [e] => e
  | es => txt "validation failed:" ++ es.flatMap fun e => txt "\n  - " ++ e

/-- The mutating webhook between two rounds of the schema's defaults; none when
the object does not decode. -/
def mutating (d : SpecDoc K) : Option (SpecDoc K) :=
  d.defaults.decode.map fun s => s.default.encode.defaults

/-- What is stored of a write; none when it is rejected. -/
def admission (d : SpecDoc K) : Option (SpecDoc K) := do
  let d' ← mutating d
  let s ← d'.decode
  guard (d'.Admitted ∧ validateQuakeServer s = [])
  some d'

/-! ### The controller's writes -/

def quakeServerFinalizer : Text := txt "quakekube.io/finalizer"

/-- `controllerutil.AddFinalizer`. -/
def addFinalizer (s : QuakeServer K) : QuakeServer K :=
  if quakeServerFinalizer ∈ s.finalizers then s
  else { s with finalizers := s.finalizers ++ [quakeServerFinalizer] }

/-- `controllerutil.RemoveFinalizer`. -/
def removeFinalizer (s : QuakeServer K) : QuakeServer K :=
  { s with finalizers := s.finalizers.filter (· ≠ quakeServerFinalizer) }

/-- `r.Get`: a stored object as the controller reads it. -/
def ServerDoc.decode (o : ServerDoc K) : Option (QuakeServer K) :=
  o.spec.defaults.decode.map fun s => ⟨o.finalizers, s⟩

/-- `r.Update`: the whole object is written. -/
def update (s : QuakeServer K) : Option (ServerDoc K) :=
  (admission s.spec.encode).map fun d => ⟨s.finalizers, d⟩

/-! ### What a write keeps -/

/-- Every gateway enabled. -/
def QuakeServerSpec.enabled (s : QuakeServerSpec K) : QuakeServerSpec K :=
  { s with gateway := s.gateway.map fun g => { g with enabled := true } }

/-- The same, but for a game type that was not set. -/
def SameButType (s t : QuakeServerSpec K) : Prop :=
  t = s ∨ ∃ c g type, s.serverConfig = some c ∧ c.game = some g ∧ g.type = [] ∧
    t = { s with serverConfig := some { c with game := some { g with type := type } } }

theorem SameButType.gateway_eq {s t : QuakeServerSpec K} (h : SameButType s t) : t.gateway = s.gateway := by
  rcases h with rfl | ⟨c, g, type, -, -, -, rfl⟩ <;> rfl

/-! ### Documents with the defaults filled in -/

theorem full_default_of_decode {d : SpecDoc K} {s : QuakeServerSpec K} (h : d.defaults.decode = some s) :
    s.default.Full := by
  obtain ⟨hc, hr, hp, hq, -⟩ := SpecDoc.decode_eq h
  refine ⟨fun c' hc' => ?_, Codec.decoded_of_mapM hr, Codec.decoded_of_mapM hp, Codec.decoded_of_mapM hq⟩
  obtain ⟨c, hs, rfl⟩ := Option.map_eq_some_iff.mp hc'
  obtain ⟨_, hd, hc⟩ := mapM_eq_some_some (hs ▸ hc)
  obtain ⟨dc, -, rfl⟩ := Option.map_eq_some_iff.mp hd
  obtain ⟨hfrag, -, hg, hsv, hb, -⟩ := ServerConfigDoc.decode_eq hc
  refine ⟨mapM_some_ne_none hfrag, fun g' hg' => ?_, fun g' hg' => ?_, fun sv hsv' => ?_, fun b hb' => ?_⟩
  · obtain ⟨g, -, rfl⟩ := Option.map_eq_some_iff.mp hg'
    exact GameConfigSpec.default_type_ne g
  · obtain ⟨g, hs', rfl⟩ := Option.map_eq_some_iff.mp hg'
    obtain ⟨_, hd, hg⟩ := mapM_eq_some_some (hs' ▸ hg)
    obtain ⟨dg, -, rfl⟩ := Option.map_eq_some_iff.mp hd
    rw [GameConfigSpec.default_quadFactor]
    exact mapM_some_ne_none (GameConfigDoc.decode_eq hg).2.1
  · obtain ⟨_, hd, hsv⟩ := mapM_eq_some_some (hsv' ▸ hsv)
    obtain ⟨ds, -, rfl⟩ := Option.map_eq_some_iff.mp hd
    exact mapM_some_ne_none (ServerSettingsDoc.decode_eq hsv).1
  · obtain ⟨_, hd, hb⟩ := mapM_eq_some_some (hb' ▸ hb)
    obtain ⟨db, -, rfl⟩ := Option.map_eq_some_iff.mp hd
    exact mapM_some_ne_none (BotConfigDoc.decode_eq hb).2.1

/-- The schema admits no empty game type, so the webhook finds nothing to set. -/
theorem default_eq_self {d : SpecDoc K} {s : QuakeServerSpec K} (ha : d.defaults.Admitted)
    (h : d.defaults.decode = some s) : s.default = s := by
  have hc := (SpecDoc.decode_eq h).1
  rcases s with ⟨eula, ref, _ | ⟨frag, time, _ | g, server, bot, maps, commands⟩, gateway, r, p, q⟩
  · rfl
  · rfl
  · obtain ⟨dc, hdc, hc⟩ := mapM_eq_some_some hc
    obtain ⟨dg, hdg, hg⟩ := mapM_eq_some_some (ServerConfigDoc.decode_eq hc).2.2.1
    have hadm : dg.Admitted := (ha dc hdc).2.1 dg hdg
    obtain ⟨dc', -, rfl⟩ := Option.map_eq_some_iff.mp hdc
    obtain ⟨dg', -, rfl⟩ := Option.map_eq_some_iff.mp hdg
    have ht : g.type ≠ [] := by
      rw [(GameConfigDoc.decode_eq hg).2.2.2.1]
      exact GameType.ne_nil_of_mem_all (hadm.1 _ rfl)
    simp [QuakeServerSpec.default, ServerConfigSpec.default, GameConfigSpec.default_eq_self ht]

theorem map_map_self {α : Type} {f : α → α} (h : ∀ a, f (f a) = f a) (o : Option α) :
    (o.map f).map f = o.map f := by
  cases o <;> simp [h]

theorem ServerConfigDoc.defaults_defaults (d : ServerConfigDoc) : d.defaults.defaults = d.defaults := by
  simp only [ServerConfigDoc.defaults, Option.getD_some,
    map_map_self (f := GameConfigDoc.defaults) fun _ => rfl,
    map_map_self (f := ServerSettingsDoc.defaults) fun _ => rfl,
    map_map_self (f := BotConfigDoc.defaults) fun _ => rfl]

theorem SpecDoc.defaults_defaults (d : SpecDoc K) : d.defaults.defaults = d.defaults := by
  simp only [SpecDoc.defaults, map_map_self ServerConfigDoc.defaults_defaults,
    map_map_self (f := GatewayDoc.defaults) fun _ => rfl]

theorem enabled_eq_self_iff (s : QuakeServerSpec K) :
    s.enabled = s ↔ ∀ g ∈ s.gateway, g.enabled = true := by
  rcases s with ⟨eula, ref, config, _ | ⟨enabled, gref, hostname⟩, r, p, q⟩
  · simp [QuakeServerSpec.enabled]
  · cases enabled <;> simp [QuakeServerSpec.enabled]

/-- The gateway of a read object is disabled where the document says so. -/
theorem gateway_enabled_iff {d : SpecDoc K} {s : QuakeServerSpec K} (h : d.defaults.decode = some s) :
    (∀ g ∈ s.gateway, g.enabled = true) ↔ ∀ g ∈ d.gateway, g.enabled ≠ some false := by
  rw [(SpecDoc.decode_eq h).2.2.2.2]
  rcases hg : d.gateway with _ | ⟨_ | _ | _, ref, host⟩ <;>
    simp [SpecDoc.defaults, GatewayDoc.defaults, GatewayDoc.decode, hg]

/-- What the mutating webhook makes of an object that decodes to `s`. -/
theorem mutating_decode {d : SpecDoc K} {s : QuakeServerSpec K} (h : d.defaults.decode = some s) :
    ∃ d', mutating d = some d' ∧ d'.defaults = d' ∧ d'.decode = some s.default.enabled :=
  ⟨s.default.encode.defaults, by rw [mutating, h]; rfl, SpecDoc.defaults_defaults _,
    decode_defaults_encode (full_default_of_decode h)⟩

/-- What is stored of a write of `s` is `s` with its gateway enabled. -/
theorem update_decode {s : QuakeServer K} {o : ServerDoc K} {t : QuakeServer K} (hf : s.spec.Full)
    (hs : s.spec.default = s.spec) (hu : update s = some o) (ht : o.decode = some t) :
    t.spec = s.spec.enabled := by
  have henc : s.spec.encode.defaults.decode = some s.spec.enabled := decode_defaults_encode hf
  obtain ⟨d', hm, hd, hdec⟩ := mutating_decode henc
  have hen : s.spec.enabled.default.enabled = s.spec.enabled := by
    have : s.spec.enabled.default = s.spec.default.enabled := rfl
    rw [this, hs]
    simp [QuakeServerSpec.enabled, Option.map_map, Function.comp_def]
  obtain ⟨d, ha, rfl⟩ := Option.map_eq_some_iff.mp hu
  have hd' : d = d' := by
    simp only [admission, hm, hdec, Option.bind_eq_bind, Option.bind_some, guard] at ha
    split at ha
    · exact (Option.some.inj ha).symm
    · cases ha
  obtain ⟨u, hu', rfl⟩ := Option.map_eq_some_iff.mp ht
  subst hd'
  rw [hd, hdec, hen] at hu'
  exact (Option.some.inj hu').symm

/-- **The spec survives the webhook and the finalizer writes** exactly when the
user has not disabled the gateway. -/
theorem spec_kept_iff {o : ServerDoc K} {s : QuakeServer K} (ha : o.spec.defaults.Admitted)
    (h : o.decode = some s) :
    ((∃ d t, mutating o.spec = some d ∧ d.decode = some t ∧ SameButType s.spec t) ∧
      ∀ write ∈ [addFinalizer, removeFinalizer], ∀ o' t, update (write s) = some o' →
        o'.decode = some t → t.spec = s.spec) ↔
    ∀ g ∈ o.spec.gateway, g.enabled ≠ some false := by
  obtain ⟨spec, hd, rfl⟩ := Option.map_eq_some_iff.mp h
  have hdef : spec.default = spec := default_eq_self ha hd
  have hfull : spec.Full := hdef ▸ full_default_of_decode hd
  obtain ⟨d, hm, -, hdec⟩ := mutating_decode hd
  rw [hdef] at hdec
  rw [← gateway_enabled_iff hd, ← enabled_eq_self_iff]
  constructor
  · rintro ⟨⟨d', t, hm', ht, hsame⟩, -⟩
    obtain rfl : d = d' := Option.some.inj (hm.symm.trans hm')
    obtain rfl : spec.enabled = t := Option.some.inj (hdec.symm.trans ht)
    -- only the gateway can differ, and the webhook may only touch the game type
    have hgw := hsame.gateway_eq
    rw [enabled_eq_self_iff]
    intro g hg
    have : spec.enabled.gateway = some { g with enabled := true } := by
      simp [QuakeServerSpec.enabled, Option.mem_def.mp hg]
    rw [hgw, Option.mem_def.mp hg] at this
    exact congrArg GatewaySpec.enabled (Option.some.inj this)
  · intro hen
    refine ⟨⟨d, _, hm, hdec, .inl hen⟩, fun write hw o' t hu ht => ?_⟩
    have hspec : (write ⟨o.finalizers, spec⟩).spec = spec := by
      rcases List.mem_pair.mp hw with rfl | rfl
      · unfold addFinalizer; split <;> rfl
      · rfl
    rw [update_decode (by rw [hspec]; exact hfull) (by rw [hspec]; exact hdef) hu ht, hspec, hen]

/-- A server whose gateway the user has switched on or off. -/
def gatewayDoc (enabled : Bool) : ServerDoc .unit where
  finalizers := []
  spec := {
    agreeEula := true
    templateRef := none
    serverConfig := none
    gateway := some ⟨some enabled, some ⟨['g', 'w'], none⟩, none⟩
    resources := none
    podSecurityContext := none
    securityContext := none }

theorem spec_kept_enabled :
    ∃ s, (gatewayDoc true).decode = some s ∧
      ((∃ d t, mutating (gatewayDoc true).spec = some d ∧ d.decode = some t ∧ SameButType s.spec t) ∧
      ∀ write ∈ [addFinalizer, removeFinalizer], ∀ o' t, update (write s) = some o' →
        o'.decode = some t → t.spec = s.spec) :=
  ⟨_, rfl, (spec_kept_iff (by decide) rfl).mpr (by
    rintro g hg
    obtain rfl := Option.some.inj hg
    simp)⟩

/-- **A disabled gateway is enabled** when the server is created, and by the
controller's first write when it has got past the webhooks. -/
theorem spec_not_kept :
    ∃ s, (gatewayDoc false).decode = some s ∧ s.spec.gateway.map GatewaySpec.enabled = some false ∧
      (∃ d t, admission (gatewayDoc false).spec = some d ∧ d.decode = some t ∧
        t.gateway.map GatewaySpec.enabled = some true) ∧
      ∃ o t, update (addFinalizer s) = some o ∧ o.decode = some t ∧
        t.spec.gateway.map GatewaySpec.enabled = some true := by
  exact ⟨_, rfl, rfl, ⟨_, _, rfl, rfl, rfl⟩, _, _, rfl, rfl, rfl⟩

end Operator
end QuakeKube
