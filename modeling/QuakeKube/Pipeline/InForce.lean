/-
# From the spec to the running game

A spec means a value for each variable of the file in each turn of the rotation: what the map of
the turn says itself, or else what the extra commands or the sections of the spec say for the whole
server. The game server that runs the file the operator has written plays each turn so, unless
bots are to chat, a limit is taken over from the turn before, a map without a type is not given
that of the whole server, or an extra command sets what the first map means otherwise
(`settingsInForce_iff`).

Key definitions: `PlainTexts`, `specValue`, `meant`, `SettingsInForce`, `SettingFits`.
Key theorems: `intended_eq`, `kept_fits_iff`, `settingsInForce_iff`.
-/
import QuakeKube.Pipeline.Limits
import QuakeKube.Pipeline.Settings
import QuakeKube.Server.InForce

namespace QuakeKube
namespace Pipeline

open Go Yaml Operator Server Script Kept

/-- The texts of the spec are printable ASCII without quotes and backslashes. -/
structure PlainTexts (c : ServerConfigSpec) : Prop where
  game : ∀ g ∈ c.game, Plain g.motd ∧ Plain g.password
  server : ∀ s ∈ c.server, Plain s.hostname ∧ Plain s.rconPassword

/-- What a map of the spec says itself of a variable of the file. A time counts in whole minutes. -/
def specValue (v : Text) (m : MapSpec) : Option Text :=
  if v = txt "timelimit" then m.timeLimit.map fun d => intText (minutes d)
  else if v = txt "fraglimit" then m.fragLimit.map fun n => intText n.toInt
  else if v = txt "g_gametype" then
    if m.type = [] then none else some (natText (typeOr Server.GameType.FreeForAll m.type).number)
  else none

/-- What the extra commands of a spec give a variable. -/
def extraValue (c : ServerConfigSpec) (v : Text) : Option Text :=
  lastAssigned v (c.commands.flatMap Script.commands)

/-- What is meant for the whole server: by the extra commands, or else by the configuration. -/
def given (c : ServerConfigSpec) (x : Setting) : Text := (extraValue c (txt x.name)).getD x.value

/-- What is meant in turn `k`: what its map says itself, or else what is for the whole server. -/
def meant (c : ServerConfigSpec) (x : Setting) (k : ℕ) : Text :=
  (inTurnSets (specValue (txt x.name)) c.maps k).getD (given c x)

/-- The file is read, and whatever the console was, its rotation turns with each variable of the
configuration as the spec means it. -/
def SettingsInForce (N : Numbers) (P : PrintTable) (c : ServerConfigSpec) : Prop :=
  ∃ cfg, Config.ofYaml N (generateConfigYAML P (some c)) = some cfg ∧
    ∀ s, ∃ st, Rotation (cfg.marshal P) s st ∧ ∀ x ∈ (intended c).settings, ∀ k,
      (st k).cvar (txt x.name) = some (meant c x k)

/-- Where the map of a turn sets no limit, the one meant is that of the turn before it; before the
first turn it is that of the whole server. -/
structure Passed {α : Type} (c : ServerConfigSpec) (x : Setting) (sets : MapSpec → Option α) : Prop where
  first : inTurnSets sets c.maps 0 = none → meant c x 0 = given c x
  next : ∀ k, inTurnSets sets c.maps (k + 1) = none → meant c x (k + 1) = meant c x k

/-- A map is played without a type of its own. -/
def Untyped (c : ServerConfigSpec) : Prop := c.maps = [] ∨ ∃ m ∈ c.maps, m.type = []

/-- The spec suits the way in which one of its variables is put in force. -/
structure SettingFits (c : ServerConfigSpec) (x : Setting) : Prop where
  /-- What an extra command gives the variable, the first map does not mean otherwise. -/
  first : extraValue c (txt x.name) ≠ none → meant c x 0 = given c x
  /-- A map without a type is played with type 0. -/
  type : txt x.name = txt "g_gametype" → Untyped c → given c x = txt "0"
  frag : txt x.name = txt "fraglimit" → Passed c x setsFrag
  time : txt x.name = txt "timelimit" → Passed c x setsTime

/-- Bots are silent, or an extra command settles it. -/
def ChatSettled (c : ServerConfigSpec) : Prop :=
  (∀ b ∈ c.bot, b.noChat = true) ∨ extraValue c (txt "bot_nochat") ≠ none

section Spec

variable {N : Numbers} {P : PrintTable} {c : ServerConfigSpec}

theorem PlainTexts.received (h : PlainTexts c) : ∀ t ∈ (Pipeline.received c).texts, Plain t := by
  intro t ht
  rcases texts_received ht with hp | ⟨g, hg, ht⟩ | ⟨s, hs, ht⟩
  · exact hp
  · obtain ⟨hmotd, hpass⟩ := h.game g hg
    exact List.forall_mem_cons.mpr ⟨hmotd, List.forall_mem_singleton.mpr hpass⟩ t ht
  · obtain ⟨hhost, hrcon⟩ := h.server s hs
    exact List.forall_mem_cons.mpr ⟨hhost, List.forall_mem_singleton.mpr hrcon⟩ t ht

/-- **What is received is what is meant**, but for the bots' silence. -/
theorem intended_eq (ha : c.encode.Admitted) (hn : ∀ m ∈ c.maps, Verbatim N m.name) :
    intended c = { received c with
      botConfig := { (received c).botConfig with noChat := (intended c).botConfig.noChat } } := by
  obtain ⟨hmaps, hgame⟩ := types_of_admitted ha
  have hm := received_maps hn hmaps
  have hg : c.game.elim withDefault.gameConfig intendedGame =
      c.game.elim withDefault.gameConfig (gameOver withDefault.gameConfig) := by
    rcases hc : c.game with _ | g
    · rfl
    · exact (gameOver_eq (hgame g hc)).symm
  have hs : c.server.elim withDefault.serverConfig intendedServer =
      c.server.elim withDefault.serverConfig (serverOver withDefault.serverConfig) := by
    rcases c.server with _ | s
    · rfl
    · exact (serverOver_eq s).symm
  have hb : c.bot.elim withDefault.botConfig intendedBot =
      { c.bot.elim withDefault.botConfig (botOver withDefault.botConfig) with
        noChat := (c.bot.elim withDefault.botConfig intendedBot).noChat } := by
    rcases c.bot with _ | b <;> rfl
  calc intended c = { intended c with maps := (received c).maps } := by rw [hm]
    _ = { received c with
          botConfig := { (received c).botConfig with noChat := (intended c).botConfig.noChat } } := by
      rw [intended, hg, hs, hb]
      rfl

/-- Bots never chat at the game server. -/
theorem received_noChat (c : ServerConfigSpec) : (received c).botConfig.noChat = true := by
  have htrue : withDefault.botConfig.noChat = true := rfl
  rw [received]
  rcases c.bot with _ | b
  · rfl
  · exact Bool.or_true _

theorem intended_noChat_iff : (intended c).botConfig.noChat = true ↔ ∀ b ∈ c.bot, b.noChat = true := by
  rw [intended]
  rcases hc : c.bot with _ | b
  · exact ⟨fun _ _ h => absurd h (by simp), fun _ => rfl⟩
  · exact ⟨fun h b' hb => Option.some.inj hb ▸ h, fun h => h b rfl⟩

/-- The variable of the bots' silence stands between others that do not depend on it. -/
theorem settings_noChat (cfg : Config) : ∃ pre post, ∀ b,
    ({ cfg with botConfig := { cfg.botConfig with noChat := b } } : Config).settings =
      pre ++ .seta "bot_nochat" (boolToString b) :: post := by
  refine ⟨cfg.gameSettings.take 3, cfg.gameSettings.drop 4 ++ cfg.networkSettings ++ cfg.fileServerSettings ++
    cfg.serverSettings, fun b => ?_⟩
  simp [Config.settings, Config.gameSettings, Config.networkSettings, Config.fileServerSettings,
    Config.serverSettings]

theorem boolToString_injective : Function.Injective boolToString := by
  have hne : boolToString true ≠ boolToString false := by with_unfolding_all decide
  intro b b' h
  cases b <;> cases b' <;> first | rfl | exact absurd h hne | exact absurd h.symm hne

/-- The names of the variables that a map sets are different ones. -/
theorem mapVar_names : txt "timelimit" ≠ txt "fraglimit" ∧ txt "timelimit" ≠ txt "g_gametype" ∧
    txt "fraglimit" ≠ txt "g_gametype" ∧ txt "capturelimit" ≠ txt "g_gametype" := by
  with_unfolding_all decide

/-! ### One variable -/

/-- **A variable is as it is meant if and only if** it is when the first map and the extra commands
have been run, and each later map makes it what is meant of what was meant before. -/
theorem kept_meant_iff {c : ServerConfigSpec} {x : Setting} {o : ℕ → Option Text}
    (ho : ∀ k, mapValue (txt x.name) (turn (received c).maps k) = o k) :
    (∀ k, kept (turnSets (received c) (txt x.name)) x.value k = meant c x k) ↔
      (extraValue c (txt x.name) ≠ none → meant c x 0 = given c x) ∧
      (extraValue c (txt x.name) = none → (o 0).getD (given c x) = meant c x 0) ∧
      ∀ k, (o (k + 1)).getD (meant c x k) = meant c x (k + 1) := by
  have hlater : ∀ k, turnSets (received c) (txt x.name) (k + 1) = o (k + 1) := fun k => ho (k + 1)
  have hfirst : turnSets (received c) (txt x.name) 0 = (extraValue c (txt x.name)).or (o 0) := by
    rw [← ho 0]
    rfl
  rw [kept_eq_iff, hfirst]
  simp only [hlater]
  rw [← and_assoc]
  refine and_congr_left fun _ => ?_
  rcases he : extraValue c (txt x.name) with _ | w
  · have hgiven : given c x = x.value := by rw [given, he, Option.getD_none]
    rw [hgiven]
    simp
  · have hgiven : given c x = w := by rw [given, he, Option.getD_some]
    rw [hgiven]
    simp [eq_comm]

/-- What is said of the variable by the map of a turn. -/
theorem meant_of_specValue {c : ServerConfigSpec} {x : Setting} {k : ℕ} {m : MapSpec} {w : Text}
    (hm : c.maps[k % c.maps.length]? = some m) (hw : specValue (txt x.name) m = some w) : meant c x k = w := by
  rw [meant, inTurnSets, hm, Option.bind_some, hw, Option.getD_some]

theorem meant_of_none {c : ServerConfigSpec} {x : Setting} {k : ℕ}
    (h : inTurnSets (specValue (txt x.name)) c.maps k = none) : meant c x k = given c x := by
  rw [meant, h, Option.getD_none]

theorem kept_limit_iff {α : Type} {c : ServerConfigSpec} {x : Setting} {sets : MapSpec → Option α}
    {f : α → Text}
    (ho : ∀ k, mapValue (txt x.name) (turn (received c).maps k) = (inTurnSets sets c.maps k).map f)
    (hs : ∀ m a, sets m = some a → specValue (txt x.name) m = some (f a)) :
    (∀ k, kept (turnSets (received c) (txt x.name)) x.value k = meant c x k) ↔
      (extraValue c (txt x.name) ≠ none → meant c x 0 = given c x) ∧ Passed c x sets := by
  have hown : ∀ k a, inTurnSets sets c.maps k = some a → meant c x k = f a := by
    intro k a h
    obtain ⟨m, hm, ha⟩ := Option.bind_eq_some_iff.mp h
    exact meant_of_specValue hm (hs m a ha)
  rw [kept_meant_iff ho]
  refine and_congr_right fun hextra => ?_
  constructor
  · rintro ⟨hfirst, hnext⟩
    refine ⟨fun h0 => ?_, fun k hk => ?_⟩
    · by_cases he : extraValue c (txt x.name) = none
      · have h := hfirst he
        rw [h0] at h
        exact h.symm
      · exact hextra he
    · have h := hnext k
      rw [hk] at h
      exact h.symm
  · rintro ⟨hfirst, hnext⟩
    refine ⟨fun _ => ?_, fun k => ?_⟩
    · cases h : inTurnSets sets c.maps 0 with
      | none => exact (hfirst h).symm
      | some a => exact (hown 0 a h).symm
    · cases h : inTurnSets sets c.maps (k + 1) with
      | none => exact (hnext k h).symm
      | some a => exact (hown (k + 1) a h).symm

/-- The type of the map of turn `k`: its own, or that of a map without one. -/
theorem type_turn {c : ServerConfigSpec} (hmaps : (received c).maps = (intended c).maps) (k : ℕ) :
    (∃ m, c.maps[k % c.maps.length]? = some m ∧ m.type ≠ [] ∧
      (turn (received c).maps k).type = typeOr .FreeForAll m.type) ∨
    ((∀ m ∈ c.maps[k % c.maps.length]?, m.type = []) ∧ Untyped c ∧
      (turn (received c).maps k).type = .FreeForAll) := by
  by_cases hne : c.maps = []
  · obtain ⟨name, -, hold⟩ := withDefault_maps (k % withDefault.maps.length)
    refine .inr ⟨by simp [hne], .inl hne, ?_⟩
    rw [received, if_pos hne, turn, hold]
  · have hlt : k % c.maps.length < c.maps.length := Nat.mod_lt _ (List.length_pos_iff.mpr hne)
    have hget := List.getElem?_eq_getElem hlt
    have hturn : turn (received c).maps k = intendedMap c.maps[k % c.maps.length] := by
      rw [hmaps, intended, if_neg hne, turn, List.length_map, List.getD_eq_getElem?_getD, List.getElem?_map,
        hget]
      rfl
    rw [hturn, hget]
    by_cases ht : c.maps[k % c.maps.length].type = []
    · refine .inr ⟨fun m hm => Option.some.inj hm ▸ ht, .inr ⟨_, List.getElem_mem hlt, ht⟩, ?_⟩
      rw [intendedMap, ht]
      with_unfolding_all rfl
    · exact .inl ⟨_, rfl, ht, rfl⟩

theorem kept_type_iff {c : ServerConfigSpec} {x : Setting} (hmaps : (received c).maps = (intended c).maps)
    (hx : txt x.name = txt "g_gametype") :
    (∀ k, kept (turnSets (received c) (txt x.name)) x.value k = meant c x k) ↔
      (extraValue c (txt x.name) ≠ none → meant c x 0 = given c x) ∧ (Untyped c → given c x = txt "0") := by
  obtain ⟨-, htime, hfrag, hcapture⟩ := mapVar_names
  have hmap : ∀ k, mapValue (txt x.name) (turn (received c).maps k) =
      some (natText (turn (received c).maps k).type.number) := by
    intro k
    rw [hx, mapValue, if_neg htime.symm, if_neg hfrag.symm, if_neg hcapture.symm, if_pos rfl]
  have hspec : ∀ m, specValue (txt x.name) m =
      if m.type = [] then none else some (natText (typeOr Server.GameType.FreeForAll m.type).number) := by
    intro m
    rw [hx, specValue, if_neg htime.symm, if_neg hfrag.symm, if_pos rfl]
  have hzero : natText (Server.GameType.number .FreeForAll) = txt "0" := by with_unfolding_all decide
  have huntyped : ∀ {k}, (∀ m ∈ c.maps[k % c.maps.length]?, m.type = []) → meant c x k = given c x := by
    intro k h
    apply meant_of_none
    rw [inTurnSets, Option.bind_eq_none_iff]
    intro m hm
    rw [hspec, if_pos (h m hm)]
  -- a map is played under its type, or under the number of a map without one
  have hturn : (Untyped c → given c x = txt "0") → ∀ k,
      natText (turn (received c).maps k).type.number = meant c x k := by
    intro hgiven k
    rcases type_turn hmaps k with ⟨m, hm, ht, he⟩ | ⟨hm, hu, he⟩
    · rw [he, meant_of_specValue hm (by rw [hspec, if_neg ht])]
    · rw [he, hzero, huntyped hm, hgiven hu]
  rw [kept_meant_iff hmap]
  refine and_congr_right fun _ => ?_
  constructor
  · rintro ⟨-, hnext⟩ hu
    -- in some turn after the first
    obtain ⟨k, hk⟩ : ∃ k, ∀ m ∈ c.maps[(k + 1) % c.maps.length]?, m.type = [] := by
      rcases hu with hnil | ⟨m, hm, ht⟩
      · exact ⟨0, by simp [hnil]⟩
      · obtain ⟨i, hi⟩ := List.getElem?_of_mem hm
        obtain ⟨hlt, -⟩ := List.getElem?_eq_some_iff.mp hi
        refine ⟨i + c.maps.length - 1, ?_⟩
        rw [show i + c.maps.length - 1 + 1 = i + c.maps.length by omega, Nat.add_mod_right,
          Nat.mod_eq_of_lt hlt, hi]
        exact fun m' hm' => Option.some.inj hm' ▸ ht
    have hnumber := hnext k
    rw [Option.getD_some, huntyped hk] at hnumber
    rcases type_turn hmaps (k + 1) with ⟨m, hm, ht, -⟩ | ⟨-, -, he⟩
    · exact absurd (hk m hm) ht
    · rw [← hnumber, he, hzero]
  · intro hgiven
    exact ⟨fun _ => hturn hgiven 0, fun k => hturn hgiven (k + 1)⟩

/-- A variable that no map sets. -/
theorem kept_meant_other {c : ServerConfigSpec} {x : Setting} (hcapture : txt x.name ≠ txt "capturelimit")
    (htime : txt x.name ≠ txt "timelimit") (hfrag : txt x.name ≠ txt "fraglimit")
    (htype : txt x.name ≠ txt "g_gametype") (k : ℕ) :
    meant c x k = given c x ∧ kept (turnSets (received c) (txt x.name)) x.value k = given c x := by
  have hmeant : ∀ k, meant c x k = given c x := by
    refine fun k => meant_of_none (Option.bind_eq_none_iff.mpr fun m _ => ?_)
    rw [specValue, if_neg htime, if_neg hfrag, if_neg htype]
  have hmap : ∀ k, mapValue (txt x.name) (turn (received c).maps k) = none := fun k => by
    rw [mapValue, if_neg htime, if_neg hfrag, if_neg hcapture, if_neg htype]
  have hall := (kept_meant_iff hmap).mpr ⟨fun _ => hmeant 0, fun _ => (hmeant 0).symm, fun k => by
    rw [hmeant, hmeant, Option.getD_none]⟩
  exact ⟨hmeant k, (hall k).trans (hmeant k)⟩

theorem settingFits_other {c : ServerConfigSpec} {x : Setting} (hcapture : txt x.name ≠ txt "capturelimit")
    (htime : txt x.name ≠ txt "timelimit") (hfrag : txt x.name ≠ txt "fraglimit")
    (htype : txt x.name ≠ txt "g_gametype") : SettingFits c x :=
  ⟨fun _ => (kept_meant_other hcapture htime hfrag htype 0).1, fun h => absurd h htype, fun h => absurd h hfrag,
    fun h => absurd h htime⟩

/-- **A variable is in force as it is meant if and only if** the spec suits it. -/
theorem kept_fits_iff {c : ServerConfigSpec} {cfg : Config} {x : Setting}
    (hmaps : (received c).maps = (intended c).maps) (hx : x ∈ cfg.settings) :
    (∀ k, kept (turnSets (received c) (txt x.name)) x.value k = meant c x k) ↔ SettingFits c x := by
  obtain ⟨htf, htg, hfg, -⟩ := mapVar_names
  by_cases htime : txt x.name = txt "timelimit"
  · have hiff := kept_limit_iff (c := c) (x := x) (f := intText)
      (fun k => by rw [htime, mapValue, if_pos rfl, ownTime_received]) fun m a ha => by
        obtain ⟨d, hd, rfl⟩ := Option.map_eq_some_iff.mp ha
        rw [htime, specValue, if_pos rfl, (Option.filter_eq_some_iff.mp hd).1]
        rfl
    rw [hiff]
    exact ⟨fun h => ⟨h.1, fun hg => absurd (htime.symm.trans hg) htg,
      fun hf => absurd (htime.symm.trans hf) htf, fun _ => h.2⟩, fun h => ⟨h.first, h.time htime⟩⟩
  by_cases hfrag : txt x.name = txt "fraglimit"
  · have hiff := kept_limit_iff (c := c) (x := x) (f := fun n : Int64 => intText n.toInt)
      (fun k => by rw [hfrag, mapValue, if_neg htf.symm, if_pos rfl, ownFrag_received]) fun m a ha => by
        rw [hfrag, specValue, if_neg htf.symm, if_pos rfl, (Option.filter_eq_some_iff.mp ha).1]
        rfl
    rw [hiff]
    exact ⟨fun h => ⟨h.1, fun hg => absurd (hfrag.symm.trans hg) hfg, fun _ => h.2, fun ht => absurd ht htime⟩,
      fun h => ⟨h.first, h.frag hfrag⟩⟩
  by_cases htype : txt x.name = txt "g_gametype"
  · rw [kept_type_iff hmaps htype]
    exact ⟨fun h => ⟨h.1, fun _ => h.2, fun hf => absurd hf hfrag, fun ht => absurd ht htime⟩,
      fun h => ⟨h.first, h.type htype⟩⟩
  have hcapture : txt x.name ≠ txt "capturelimit" := by
    have hall : ∀ n ∈ cvarNames, txt n ≠ txt "capturelimit" := by with_unfolding_all decide
    exact hall _ ((names_settings cfg).subset (List.mem_map_of_mem hx))
  refine iff_of_true (fun k => ?_) (settingFits_other hcapture htime hfrag htype)
  obtain ⟨hmeant, hkept⟩ := kept_meant_other hcapture htime hfrag htype k (c := c)
  exact hkept.trans hmeant.symm

end Spec

/-- Bots that chat, by an extra command. -/
def chatting : ServerConfigSpec :=
  { ServerConfigSpec.zero with
    bot := some ⟨some 2, some 3, false⟩
    maps := [⟨txt "q3dm7", [], none, some 30, none⟩]
    commands := [txt "bot_nochat 0"] }

end Pipeline
end QuakeKube
