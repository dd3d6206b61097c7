/-
# The limits in force

The frag limit and the time limit are variables of the console: the file sets the
global ones, the entry of a map sets the map's own where they are not zero, and
each stays as it is until it is set again. So in every turn of the rotation the
limit in force is the one that was set last (`limits_inTurn`). A limit of less than
a minute is no limit (`minutes_eq_zero_iff`).

Key definitions: `ownFrag`, `ownTime`, `Bystander`, `Undisturbed`, `begun`.
Key theorems: `minutes_eq_zero_iff`, `rotation_marshal`, `limits_inTurn`.
-/
import QuakeKube.Lib.Kept
import QuakeKube.Server.Marshal
import QuakeKube.Server.Rotation

namespace QuakeKube
namespace Server

open Go Script Kept

/-! ### Minutes -/

theorem float64_intCast {z : ℤ} (h0 : 0 ≤ z) (h1 : z < 2 ^ 53) : float64 z = z := by
  obtain ⟨n, rfl⟩ := Int.eq_ofNat_of_zero_le h0
  exact float64_natCast (by exact_mod_cast h1)

/-- **Less than a minute is no minute**, and a minute or more is one at least. -/
theorem minutes_eq_zero_iff {d : Duration} (h : 0 < d.toInt) : minutes d = 0 ↔ d.toInt < minute.toInt := by
  have hmin : minute.toInt = 60 * 10 ^ 9 := by decide
  have hd := d.toInt_lt
  rw [minutes, hmin, Int.tdiv_eq_ediv_of_nonneg h.le, Int.tmod_eq_emod_of_nonneg h.le]
  -- whole minutes and the rest are exact
  rw [float64_intCast (by omega) (by omega), float64_intCast (by omega) (by omega)]
  have hr0 : (0 : ℚ) ≤ (d.toInt % (60 * 10 ^ 9) : ℤ) / (60 * 10 ^ 9) := by
    have h0 : (0 : ℚ) ≤ (d.toInt % (60 * 10 ^ 9) : ℤ) := by exact_mod_cast (by omega : 0 ≤ d.toInt % (60 * 10 ^ 9))
    positivity
  have hf0 := float64_nonneg hr0
  by_cases hlt : d.toInt < 60 * 10 ^ 9
  · have hdiv : d.toInt / (60 * 10 ^ 9) = 0 := by omega
    have hr1 : ((d.toInt % (60 * 10 ^ 9) : ℤ) : ℚ) / (60 * 10 ^ 9) ≤ 1 - 1 / (60 * 10 ^ 9) := by
      have h1 : ((d.toInt % (60 * 10 ^ 9) : ℤ) : ℚ) ≤ 60 * 10 ^ 9 - 1 := by
        exact_mod_cast (by omega : d.toInt % (60 * 10 ^ 9) ≤ 60 * 10 ^ 9 - 1)
      have hmul : (1 - 1 / (60 * 10 ^ 9) : ℚ) * (60 * 10 ^ 9) = 60 * 10 ^ 9 - 1 := by norm_num
      rwa [div_le_iff₀ (by norm_num), hmul]
    -- each of the two roundings adds no more than one part in 2 ^ 53
    have h1 := abs_le.mp (abs_float64_sub_le (((d.toInt % (60 * 10 ^ 9) : ℤ) : ℚ) / (60 * 10 ^ 9)))
    rw [abs_of_nonneg hr0] at h1
    have h2 := abs_le.mp (abs_float64_sub_le (float64 (((d.toInt % (60 * 10 ^ 9) : ℤ) : ℚ) / (60 * 10 ^ 9))))
    rw [abs_of_nonneg hf0] at h2
    have hm0 := float64_nonneg hf0
    have hm1 : float64 (float64 (((d.toInt % (60 * 10 ^ 9) : ℤ) : ℚ) / (60 * 10 ^ 9))) < 1 := by linarith
    rw [hdiv, Int.cast_zero, zero_add]
    simp only [if_pos hm0, hlt, iff_true]
    exact Int.floor_eq_zero_iff.mpr ⟨hm0, hm1⟩
  · have hq : (1 : ℚ) ≤ (d.toInt / (60 * 10 ^ 9) : ℤ) := by exact_mod_cast (by omega : 1 ≤ d.toInt / (60 * 10 ^ 9))
    have hsum : (1 : ℚ) ≤ (d.toInt / (60 * 10 ^ 9) : ℤ) +
        float64 (((d.toInt % (60 * 10 ^ 9) : ℤ) : ℚ) / (60 * 10 ^ 9)) := by linarith
    have hm := one_le_float64 hsum
    have hfloor : (1 : ℤ) ≤ ⌊float64 ((d.toInt / (60 * 10 ^ 9) : ℤ) +
        float64 (((d.toInt % (60 * 10 ^ 9) : ℤ) : ℚ) / (60 * 10 ^ 9)))⌋ :=
          Int.le_floor.mpr (by rwa [Int.cast_one])
    simp only [if_pos (zero_le_one.trans hm), hlt, iff_false]
    exact (zero_lt_one.trans_le hfloor).ne'

/-! ### What a map sets -/

/-- The frag limit an entry sets; zero sets none. -/
def ownFrag (m : Map) : Option Text := if m.fragLimit ≠ 0 then some (intText m.fragLimit.toInt) else none

/-- The time limit an entry sets; zero sets none. -/
def ownTime (m : Map) : Option Text := if m.timeLimit ≠ 0 then some (intText (minutes m.timeLimit)) else none

/-- The limit a map sets, or else the one in force. -/
def KeptLimit (v : Text) (own : Map → Option Text) : Prop :=
  ∀ m next s old, s.cvar v = some old → (played m next s).cvar v = some ((own m).getD old)

/-- A variable that is there and is no command is set by its name. -/
theorem apply_limit {v w old : Text} {s : Console} (hv : v ∉ setters ∧ v ≠ txt "map")
    (h : s.cvar v = some old) :
    (s.apply [v, w]).cvar v = some w := by
  simp only [Console.apply]
  rw [if_neg hv.1, if_neg hv.2, if_pos (by rw [h]; exact Option.some_ne_none old)]
  exact Function.update_self _ _ _

/-- The command for a limit, where there is one. -/
def setLimit (v : Text) (o : Option Text) : List Command := o.elim [] fun w => [[v, w]]

/-- What an entry does before its frag limit. -/
def beforeLimits (m : Map) : List Command :=
  [txt "seta", txt "g_gametype", natText m.type.number] ::
    if m.type = .CaptureTheFlag ∧ m.captureLimit ≠ 0 then [[txt "capturelimit", intText m.captureLimit.toInt]]
    else []

/-- What an entry does after its time limit. -/
def afterLimits (m : Map) (next : Text) : List Command :=
  [mapCommand m.name, [txt "set", txt "nextmap", txt "vstr", next]]

/-- The commands of an entry, a limit at a time. -/
theorem entryCommands_eq (m : Map) (next : Text) : entryCommands m next =
    beforeLimits m ++ (setLimit (txt "fraglimit") (ownFrag m) ++
      (setLimit (txt "timelimit") (ownTime m) ++ afterLimits m next)) := by
  have hfrag : (if m.fragLimit ≠ 0 then [[txt "fraglimit", intText m.fragLimit.toInt]] else []) =
      setLimit (txt "fraglimit") (ownFrag m) := by
    unfold ownFrag setLimit
    split_ifs <;> rfl
  have htime : (if m.timeLimit ≠ 0 then [[txt "timelimit", intText (minutes m.timeLimit)]] else []) =
      setLimit (txt "timelimit") (ownTime m) := by
    unfold ownTime setLimit
    split_ifs <;> rfl
  rw [entryCommands, entryRest, limits, hfrag, htime, beforeLimits, afterLimits]
  simp only [List.append_assoc, List.cons_append]

/-- A limit between commands that leave it alone. -/
theorem keptLimit_of_split {v : Text} {own : Map → Option Text} (hv : v ∉ setters ∧ v ≠ txt "map")
    (h : ∀ m next, ∃ pre post, entryCommands m next = pre ++ (setLimit v (own m) ++ post) ∧
      (∀ c ∈ pre, target c ≠ some v) ∧ ∀ c ∈ post, target c ≠ some v) : KeptLimit v own := by
  intro m next s old hold
  obtain ⟨pre, post, heq, hpre, hpost⟩ := h m next
  have hbefore : (pre.foldl Console.apply s).cvar v = some old := by
    rw [foldl_apply_cvar hpre, hold]
  rw [played, heq, List.foldl_append, List.foldl_append, foldl_apply_cvar hpost]
  cases own m with
  | none => exact hbefore
  | some w => exact apply_limit hv hbefore

/-- What the two limits are not. -/
theorem limit_ne : ∀ v ∈ [txt "fraglimit", txt "timelimit"],
    v ≠ txt "g_gametype" ∧ v ≠ txt "capturelimit" ∧ v ≠ txt "nextmap" ∧ v.head? ≠ some 'd' := by
  with_unfolding_all decide

theorem target_setLimit {v w : Text} (hw : w ∈ [txt "capturelimit", txt "fraglimit", txt "timelimit"])
    (hne : w ≠ v) (o : Option Text) : ∀ c ∈ setLimit w o, target c ≠ some v := by
  intro c hc
  cases o with
  | none => exact absurd hc List.not_mem_nil
  | some u =>
    rw [List.mem_singleton.mp hc, target_limit hw]
    exact fun h => hne (Option.some.inj h)

theorem target_gametype (w : Text) : target [txt "seta", txt "g_gametype", w] = some (txt "g_gametype") := by
  have hseta : txt "seta" ∈ setters := by with_unfolding_all decide
  exact if_pos hseta

theorem target_beforeLimits {v : Text} (hv : v ∈ [txt "fraglimit", txt "timelimit"]) (m : Map) :
    ∀ c ∈ beforeLimits m, target c ≠ some v := by
  obtain ⟨h1, h2, -⟩ := limit_ne v hv
  intro c hc
  rcases List.mem_cons.mp hc with rfl | hc
  · rw [target_gametype]
    exact fun h => h1 (Option.some.inj h).symm
  · split_ifs at hc
    · rw [List.mem_singleton.mp hc, target_limit (by simp)]
      exact fun h => h2 (Option.some.inj h).symm
    · exact absurd hc List.not_mem_nil

theorem target_afterLimits {v : Text} (hv : v ∈ [txt "fraglimit", txt "timelimit"]) (m : Map) (next : Text) :
    ∀ c ∈ afterLimits m next, target c ≠ some v := by
  obtain ⟨-, -, h3, -⟩ := limit_ne v hv
  intro c hc
  rcases List.mem_cons.mp hc with rfl | hc
  · rw [target_mapCommand]
    exact fun h => (nomatch h)
  · rw [List.mem_singleton.mp hc, target_set]
    exact fun h => h3 (Option.some.inj h).symm

/-- **A map is played under its own frag limit**, or the one in force. -/
theorem keptLimit_frag : KeptLimit (txt "fraglimit") ownFrag := by
  have hne : txt "timelimit" ≠ txt "fraglimit" := by with_unfolding_all decide
  apply keptLimit_of_split (limit_names _ (by simp))
  intro m next
  refine ⟨_, _, entryCommands_eq m next, target_beforeLimits (by simp) m, fun c hc => ?_⟩
  rcases List.mem_append.mp hc with hc | hc
  · exact target_setLimit (by simp) hne _ c hc
  · exact target_afterLimits (by simp) m next c hc

/-- **A map is played under its own time limit**, or the one in force. -/
theorem keptLimit_time : KeptLimit (txt "timelimit") ownTime := by
  have hne : txt "fraglimit" ≠ txt "timelimit" := by with_unfolding_all decide
  apply keptLimit_of_split (limit_names _ (by simp))
  intro m next
  have heq := entryCommands_eq m next
  rw [← List.append_assoc] at heq
  refine ⟨_, _, heq, fun c hc => ?_, target_afterLimits (by simp) m next⟩
  rcases List.mem_append.mp hc with hc | hc
  · exact target_beforeLimits (by simp) m c hc
  · exact target_setLimit (by simp) hne _ c hc

/-- **In every turn the limit in force is the one that was set last.** -/
theorem cvar_inTurn {v : Text} {own : Map → Option Text} (hk : KeptLimit v own) {maps : List Map} {s : Console}
    {g : Text} (h0 : s.cvar v = some ((own (turn maps 0)).getD g)) (k : ℕ) :
    (inTurn maps s k).cvar v = some (kept (fun k => own (turn maps k)) g k) := by
  induction k with
  | zero => exact h0
  | succ k ih => exact hk _ _ _ _ ih

/-! ### The whole file -/

/-- What the rotation depends on: the limits, the entries, and which is the next. -/
def RotationVar (v : Text) : Prop :=
  v ∈ [txt "fraglimit", txt "timelimit", txt "nextmap"] ∨ ∃ i, v = entryVar i

/-- A command that runs no text and loads no map, and leaves the rotation alone. -/
structure Bystander (c : Command) : Prop where
  vstr : vstr? c = none
  map : c.head? ≠ some (txt "map")
  target : ∀ v ∈ target c, ¬ RotationVar v

/-- What the texts add to the file, if anything, leaves the rotation alone, and so
do the extra commands. -/
structure Undisturbed (P : PrintTable) (c : Config) : Prop where
  settings : ∀ s ∈ c.settings, ∀ d ∈ extra (s.written P), Bystander d
  overrides : ∀ t ∈ c.overrides, ∀ d ∈ commands t, Bystander d

theorem bystanders_vstr {cs : List Command} (h : ∀ c ∈ cs, Bystander c) : ∀ c ∈ cs, vstr? c = none :=
  fun c hc => (h c hc).vstr

theorem bystanders_cvar {cs : List Command} (h : ∀ c ∈ cs, Bystander c) {v : Text} (hv : RotationVar v)
    (s : Console) : (cs.foldl Console.apply s).cvar v = s.cvar v :=
  foldl_apply_cvar (fun c hc ht => (h c hc).target v ht hv) s

theorem commands_lines (ts : List Text) : commands (ts.flatMap (· ++ ['\n'])) = ts.flatMap commands := by
  induction ts with
  | nil => rfl
  | cons t ts ih =>
    rw [List.flatMap_cons, List.flatMap_cons, List.append_assoc, List.singleton_append, commands_newline, ih]

section File

variable {P : PrintTable} {c : Config}

/-- The commands of the settings, with what the texts add. -/
def settingCommands (P : PrintTable) (c : Config) : List Command :=
  c.settings.flatMap fun s => s.first P :: extra (s.written P)

/-- **The commands of a file with maps.** -/
theorem commands_rotating (P : PrintTable) (hn : ∀ m ∈ c.maps, NameWord m.name) (hne : c.maps ≠ []) :
    commands (c.marshal P) = settingCommands P c ++
      (entryDefs c.maps.length 0 c.maps ++ [txt "vstr", entryVar 0] :: c.overrides.flatMap commands) := by
  have hset : ∀ r, commands (c.settings.flatMap (Setting.line P) ++ r) = settingCommands P c ++ commands r :=
    commands_settings P fun _ hs => bareWord_name hs
  calc commands (c.marshal P)
      = settingCommands P c ++ commands (marshalMaps c.maps ++ c.overrides.flatMap fun s => s ++ ['\n']) := by
        rw [Config.marshal, if_pos (List.length_pos_iff.mpr hne), List.append_assoc, hset]
    _ = settingCommands P c ++ (entryDefs c.maps.length 0 c.maps ++ [txt "vstr", entryVar 0] ::
          c.overrides.flatMap commands) := by rw [commands_marshalMaps_append hn hne, commands_lines]

/-- The console when the settings are made. -/
def settled (P : PrintTable) (c : Config) (s : Console) : Console :=
  (settingCommands P c).foldl Console.apply s

/-- The console when the file has been run, in the first turn. -/
def begun (P : PrintTable) (c : Config) (s : Console) : Console :=
  (c.overrides.flatMap commands).foldl Console.apply (firstTurn c.maps (settled P c s))

theorem vstr?_settingCommands (h : Undisturbed P c) : ∀ d ∈ settingCommands P c, vstr? d = none := by
  intro d hd
  obtain ⟨s, hs, hd⟩ := List.mem_flatMap.mp hd
  rcases List.mem_cons.mp hd with rfl | hd
  · exact s.vstr?_first P
  · exact (h.settings s hs d hd).vstr

theorem Undisturbed.bystanders (h : Undisturbed P c) : ∀ d ∈ c.overrides.flatMap commands, Bystander d := by
  intro d hd
  obtain ⟨t, ht, hd⟩ := List.mem_flatMap.mp hd
  exact h.overrides t ht d hd

/-- The file leaves the rotation to turn. -/
theorem turning_begun (h : Undisturbed P c) (s : Console) : Turning c.maps 0 (begun P c s) := by
  obtain ⟨hentries, hnext⟩ := turning_firstTurn c.maps (settled P c s)
  refine ⟨fun i m hm => ?_, ?_⟩
  · rw [begun, bystanders_cvar h.bystanders (.inr ⟨i, rfl⟩)]
    exact hentries i m hm
  · rw [begun, bystanders_cvar h.bystanders (.inl (by simp))]
    exact hnext

/-- **The file is run, and then the rotation turns.** -/
theorem rotation_marshal (h : Undisturbed P c) (hn : ∀ m ∈ c.maps, NameWord m.name) (hne : c.maps ≠ [])
    (s : Console) : Rotation (c.marshal P) s (inTurn c.maps (begun P c s)) where
  start := by
    have hset := executes_foldl (vstr?_settingCommands h) s
    have hplay := executes_firstTurn hn hne (settled P c s)
    rw [commands_marshalMaps hn hne] at hplay
    have hover := executes_foldl (bystanders_vstr h.bystanders) (firstTurn c.maps (settled P c s))
    have hall := hset.append (hplay.append hover)
    rw [List.append_assoc, List.singleton_append] at hall
    rw [commands_rotating P hn hne]
    exact hall
  next := executes_inTurn (turning_begun h s) hn hne

/-- A number stands in the file as it is. -/
theorem first_seta {value : Text} (hv : Plain value) (name : String) :
    (Setting.seta name value).first P = [txt "seta", txt name, value] ∧
      extra ((Setting.seta name value).written P) = [] := by
  refine ⟨?_, contained_quote P hv.quote_not_mem⟩
  rw [Setting.first, Setting.written, firstWords_quote hv]
  rfl

/-- A limit is set by its line, and by nothing after it. -/
theorem cvar_settled (h : Undisturbed P c) {name : String} {value : Text} (hs : .seta name value ∈ c.settings)
    (hv : Plain value) (hr : RotationVar (txt name)) (s : Console) :
    (settled P c s).cvar (txt name) = some value := by
  have hall : ∀ ss : List Setting, (ss.map Setting.name).Nodup →
      (∀ t ∈ ss, ∀ d ∈ extra (t.written P), Bystander d) → .seta name value ∈ ss → ∀ s,
      ((ss.flatMap fun t => t.first P :: extra (t.written P)).foldl Console.apply s).cvar (txt name) =
        some value := by
    intro ss hnd hx hmem s
    induction ss generalizing s with
    | nil => exact absurd hmem List.not_mem_nil
    | cons t ss ih =>
      rw [List.map_cons, List.nodup_cons] at hnd
      have hx' : ∀ u ∈ ss, ∀ d ∈ extra (u.written P), Bystander d :=
        fun u hu => hx u (List.mem_cons_of_mem _ hu)
      rw [List.flatMap_cons, List.foldl_append]
      rcases List.mem_cons.mp hmem with rfl | hmem
      · obtain ⟨hfirst, hextra⟩ := first_seta (P := P) hv name
        have hlater : ∀ d ∈ ss.flatMap fun t => t.first P :: extra (t.written P),
            target d ≠ some (txt name) := by
          intro d hd ht
          obtain ⟨u, hu, hd⟩ := List.mem_flatMap.mp hd
          rcases List.mem_cons.mp hd with rfl | hd
          · rw [u.target_first P] at ht
            have hname : u.name = name := txt_inj.mp (Option.some.inj ht)
            exact hnd.1 (List.mem_map.mpr ⟨u, hu, hname⟩)
          · exact (hx' u hu d hd).target _ ht hr
        have hseta : txt "seta" ∈ setters := by with_unfolding_all decide
        rw [foldl_apply_cvar hlater, hfirst, hextra, List.foldl_cons, List.foldl_nil, Console.apply_set hseta]
        exact Function.update_self _ _ _
      · exact ih hnd.2 hx' hmem _
  exact hall c.settings (nodup_settings c) h.settings hs s

/-- What is there when the settings are made is there in the first turn, but for the
limits of the first map. -/
theorem cvar_begun (h : Undisturbed P c) {v : Text} (hv : v ∈ [txt "fraglimit", txt "timelimit"])
    {own : Map → Option Text} (hk : KeptLimit v own) {s : Console} {g : Text}
    (hg : (settled P c s).cvar v = some g) :
    (begun P c s).cvar v = some ((own (turn c.maps 0)).getD g) := by
  have hr : RotationVar v := by
    rcases List.mem_cons.mp hv with rfl | hv
    · exact .inl (by simp)
    · exact .inl (by simp [List.mem_singleton.mp hv])
  have hdefs : ∀ d ∈ entryDefs c.maps.length 0 c.maps, target d ≠ some v := by
    intro d hd ht
    simp only [entryDefs, List.mem_map, Prod.exists] at hd
    obtain ⟨m, i, -, rfl⟩ := hd
    rw [target_entryDef] at ht
    exact entryVar_ne (limit_ne v hv).2.2.2 i (Option.some.inj ht)
  have hdefined : (defined c.maps (settled P c s)).cvar v = some g := by
    rw [defined, foldl_apply_cvar hdefs, hg]
  rw [begun, bystanders_cvar h.bystanders hr]
  exact hk _ _ _ _ hdefined

/-- **The limits in every turn**: what was set last, by the file or by a map. -/
theorem limits_inTurn (h : Undisturbed P c) (s : Console) (k : ℕ) :
    (inTurn c.maps (begun P c s) k).cvar (txt "fraglimit") =
        some (kept (fun k => ownFrag (turn c.maps k)) (intText c.fragLimit.toInt) k) ∧
      (inTurn c.maps (begun P c s) k).cvar (txt "timelimit") =
        some (kept (fun k => ownTime (turn c.maps k)) (intText (minutes c.timeLimit)) k) := by
  have hfrag : .seta "fraglimit" (intText c.fragLimit.toInt) ∈ c.settings := by
    simp [Config.settings, Config.gameSettings]
  have htime : .seta "timelimit" (intText (minutes c.timeLimit)) ∈ c.settings := by
    simp [Config.settings, Config.gameSettings]
  have hf := cvar_settled h hfrag (plain_intText _) (.inl (by simp)) s
  have ht := cvar_settled h htime (plain_intText _) (.inl (by simp)) s
  exact ⟨cvar_inTurn keptLimit_frag (cvar_begun h (by simp) keptLimit_frag hf) k,
    cvar_inTurn keptLimit_time (cvar_begun h (by simp) keptLimit_time ht) k⟩

/-- **The file sets the time limit once**, to the minutes of the configuration. -/
theorem seta_timelimit_iff (h : Undisturbed P c) (hn : ∀ m ∈ c.maps, NameWord m.name) (hne : c.maps ≠ [])
    (t : Text) : [txt "seta", txt "timelimit", t] ∈ commands (c.marshal P) ↔
      t = intText (minutes c.timeLimit) := by
  have htime : .seta "timelimit" (intText (minutes c.timeLimit)) ∈ c.settings := by
    simp [Config.settings, Config.gameSettings]
  have hfirst := (first_seta (P := P) (plain_intText (minutes c.timeLimit)) "timelimit").1
  have hseta : txt "seta" ∈ setters := by with_unfolding_all decide
  have htarget : target [txt "seta", txt "timelimit", t] = some (txt "timelimit") := if_pos hseta
  have hr : RotationVar (txt "timelimit") := .inl (by simp)
  rw [commands_rotating P hn hne]
  constructor
  · intro hmem
    have hset : txt "seta" ≠ txt "set" ∧ txt "seta" ≠ txt "vstr" := by with_unfolding_all decide
    rcases List.mem_append.mp hmem with hmem | hmem
    · obtain ⟨u, hu, hd⟩ := List.mem_flatMap.mp hmem
      rcases List.mem_cons.mp hd with hd | hd
      · have hname : u.name = "timelimit" := by
          have ht := u.target_first P
          rw [← hd, htarget] at ht
          exact (txt_inj.mp (Option.some.inj ht)).symm
        have huniq := List.inj_on_of_nodup_map (nodup_settings c) hu htime hname
        rw [huniq, hfirst] at hd
        simpa using hd
      · exact absurd hr ((h.settings u hu _ hd).target _ htarget)
    · rcases List.mem_append.mp hmem with hd | hd
      · simp only [entryDefs, List.mem_map, Prod.exists] at hd
        obtain ⟨m, i, -, hd⟩ := hd
        exact absurd (List.cons.inj hd).1.symm hset.1
      · rcases List.mem_cons.mp hd with hd | hd
        · exact absurd (List.cons.inj hd).1 hset.2
        · exact absurd hr ((h.bystanders _ hd).target _ htarget)
  · rintro rfl
    refine List.mem_append_left _ (List.mem_flatMap.mpr ⟨_, htime, ?_⟩)
    rw [hfirst]
    exact List.mem_cons_self

end File

end Server
end QuakeKube
