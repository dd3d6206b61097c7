/-
# Map names in the configuration file

The name of a map is the one text of the file that is written without quotes. The
file says of the maps what they are if and only if every name is a plain scalar
that stands for itself (`encodedFaithfully_iff`): a name that is something else to
the reader takes room from the names, and there is none to spare.

Key definitions: `EncodedFaithfully`, `Verbatim`.
Key theorem: `encodedFaithfully_iff`.
-/
import QuakeKube.Lib.YamlCount
import QuakeKube.Operator.ConfigYaml

namespace QuakeKube
namespace Operator

open Go Yaml

variable {N : Numbers} {P : PrintTable} {c : ServerConfigSpec}

/-! ### What the file is to say -/

/-- The value is an entry with the map's name, and with its type and limits as far
as they are given. -/
structure Encodes (m : MapSpec) (es : List (Text × Node)) : Prop where
  name : lookup (txt "name") es = some (.str m.name)
  type : lookup (txt "type") es = if m.type ≠ [] then some (.str m.type) else none
  captureLimit : lookup (txt "captureLimit") es = m.captureLimit.map fun n => .int n.toInt
  fragLimit : lookup (txt "fragLimit") es = m.fragLimit.map fun n => .int n.toInt
  timeLimit : lookup (txt "timeLimit") es = m.timeLimit.map fun d => .str d.text

/-- The keys written for the sections the configuration has. -/
def sectionKeys (c : ServerConfigSpec) : List Text :=
  [txt "fragLimit", txt "timeLimit"] ++ given c.bot (fun _ => [txt "bot"]) ++
  given c.game (fun _ => [txt "game"]) ++ given c.server (fun _ => [txt "server"]) ++
  (if c.maps = [] then [] else [txt "maps"]) ++ (if c.commands = [] then [] else [txt "commands"])

/-- A document whose maps are those of the configuration, one for one, with no key
but those of its sections; and what it has under the other keys is what the file
has there when there are no maps. -/
structure Says (N : Numbers) (P : PrintTable) (c : ServerConfigSpec) (es : List (Text × Node)) : Prop where
  maps : ∃ vs, lookup (txt "maps") es = some (.seq vs) ∧
    List.Forall₂ (fun m v => ∃ fs, v = .map fs ∧ Encodes m fs) c.maps vs
  keys : ∀ e ∈ es, e.1 ∈ sectionKeys c
  others : ∃ fs, load N (generateConfigYAML P (some { c with maps := [] })) = some (.map fs) ∧
    ∀ k ≠ txt "maps", lookup k es = lookup k fs

/-- The file is read as such a document. -/
def EncodedFaithfully (N : Numbers) (P : PrintTable) (c : ServerConfigSpec) : Prop :=
  ∃ es, load N (generateConfigYAML P (some c)) = some (.map es) ∧ Says N P c es

/-- The name is a plain scalar on one line, and neither null nor a boolean nor a
number nor a time. -/
def Verbatim (N : Numbers) (t : Text) : Prop := PlainScalar t ∧ resolve N t = .str t

/-! ### Lines without a name -/

section Lines

variable {i : ℕ} {v : Text} {sc : Scalar}

theorem quiet_line {pre key : String} (hl : IsLine pre i key) (hne : key ≠ "name") (hv : Reads v sc) :
    Quiet (txt "name") (line pre v) := by
  have hf := Quiet.field (k := txt "name") (i := i) hl.isKey (mt txt_inj.mp hne) hv
  have heq : line pre v = spaces i ++ (txt key ++ ':' :: ' ' :: v) ++ ['\n'] := by
    rw [line, hl.shape]
    simp
  rw [heq]
  exact hf

theorem quiet_header {header key : String} (hh : IsHeader header key) (hne : key ≠ "name") :
    Quiet (txt "name") (txt header) := by
  have hq := Quiet.header (k := txt "name") (i := 0) hh.isKey (mt txt_inj.mp hne)
  have heq : txt header = spaces 0 ++ (txt key ++ [':']) ++ ['\n'] := by
    rw [hh.shape, List.append_assoc, List.append_assoc]
    rfl
  rw [heq]
  exact hq

theorem quiet_given {α : Type} {o : Option α} {f : α → Text} (h : ∀ a ∈ o, Quiet (txt "name") (f a)) :
    Quiet (txt "name") (given o f) := by
  cases o with
  | none => exact Quiet.nil _
  | some a => exact h a rfl

theorem quiet_int {pre key : String} (hl : IsLine pre i key) (hne : key ≠ "name") (n : Int64) :
    Quiet (txt "name") (line pre (intText n.toInt)) :=
  quiet_line hl hne (numberLike_intText n.toInt).plainWord.reads

theorem quiet_duration {pre key : String} (hl : IsLine pre i key) (hne : key ≠ "name") (d : Duration) :
    Quiet (txt "name") (line pre d.text) :=
  quiet_line hl hne (numberLike_duration d).plainWord.reads

theorem quiet_true {pre key : String} (hl : IsLine pre i key) (hne : key ≠ "name") :
    Quiet (txt "name") (line pre (txt "true")) := by
  have htrue : IsKey (txt "true") := by with_unfolding_all decide
  exact quiet_line hl hne htrue.plainWord.reads

theorem quiet_type {pre : String} (hl : IsLine pre i "type") {t : GameType} (ht : t ∈ GameType.all) :
    Quiet (txt "name") (line pre t) :=
  quiet_line hl (by decide) (gameType_word ht).1.plainWord.reads

theorem quiet_bot (b : BotConfigSpec) : Quiet (txt "name") (botYAML b) := by
  obtain ⟨lbot, lmin, lskill, lchat⟩ := lines_bot
  have hmin := quiet_given (o := b.minPlayers) fun n _ => quiet_int lmin (by decide) n
  have hskill := quiet_given (o := b.skill) fun n _ => quiet_int lskill (by decide) n
  have hchat := Quiet.ite (p := b.noChat = true) fun _ => quiet_true lchat (by decide)
  exact (((quiet_header lbot (by decide)).append hmin).append hskill).append hchat

theorem quiet_game (P : PrintTable) {g : GameConfigSpec} (ht : g.type ≠ [] → g.type ∈ GameType.all) :
    Quiet (txt "name") (gameYAML P g) := by
  obtain ⟨lgame, ltype, lmotd, lforce, lidle, lquad, lpass, lweapon⟩ := lines_game
  have htype := Quiet.ite (p := g.type ≠ []) fun h => quiet_type ltype (ht h)
  have hmotd := Quiet.ite (p := g.motd ≠ []) fun _ => quiet_line lmotd (by decide) (.quote P g.motd)
  have hforce := Quiet.ite (p := g.forceRespawn = true) fun _ => quiet_true lforce (by decide)
  have hidle := quiet_given (o := g.inactivity) fun d _ => quiet_duration lidle (by decide) d
  have hquad := quiet_given (o := g.quadFactor) fun n _ => quiet_int lquad (by decide) n
  have hpass := Quiet.ite (p := g.password ≠ []) fun _ => quiet_line lpass (by decide) (.quote P g.password)
  have hweapon := quiet_given (o := g.weaponRespawn) fun n _ => quiet_int lweapon (by decide) n
  exact (((((((quiet_header lgame (by decide)).append htype).append hmotd).append hforce).append hidle).append
    hquad).append hpass).append hweapon

theorem quiet_server (P : PrintTable) (s : ServerSettings) : Quiet (txt "name") (serverYAML P s) := by
  obtain ⟨lserver, lhost, lmax, lpass⟩ := lines_server
  have hhost := Quiet.ite (p := s.hostname ≠ []) fun _ => quiet_line lhost (by decide) (.quote P s.hostname)
  have hmax := quiet_given (o := s.maxClients) fun n _ => quiet_int lmax (by decide) n
  have hpass := Quiet.ite (p := s.rconPassword ≠ []) fun _ =>
    quiet_line lpass (by decide) (.quote P s.rconPassword)
  exact (((quiet_header lserver (by decide)).append hhost).append hmax).append hpass

theorem quiet_commands (P : PrintTable) (commands : List Text) :
    Quiet (txt "name") (commandsYAML P commands) := by
  have hitem : ∀ cmd, Quiet (txt "name") (line "  - " (quote P cmd)) := fun cmd => by
    have h := Quiet.item (k := txt "name") (i := 2) (.quote P cmd) (by simp [quote])
    have hpre : txt "  - " = spaces 2 ++ ['-', ' '] := by with_unfolding_all decide
    rw [line, hpre, List.append_assoc (spaces 2)]
    exact h
  exact Quiet.ite fun _ =>
    (quiet_header headers_lists.2 (by decide)).append (Quiet.flatMap fun cmd _ => hitem cmd)

end Lines

/-! ### The room for names -/

/-- The lines of a map below the one with its name. -/
def limitsYAML (m : MapSpec) : Text :=
  (if m.type ≠ [] then line "    type: " m.type else []) ++
  given m.captureLimit (fun n => line "    captureLimit: " (intText n.toInt)) ++
  given m.fragLimit (fun n => line "    fragLimit: " (intText n.toInt)) ++
  given m.timeLimit (fun d => line "    timeLimit: " d.text)

theorem mapYAML_eq (m : MapSpec) : mapYAML m =
    (spaces 2 ++ '-' :: ' ' :: (txt "name" ++ ':' :: ' ' :: m.name)) ++ '\n' :: limitsYAML m := by
  have hpre : txt "  - name: " = spaces 2 ++ '-' :: ' ' :: (txt "name" ++ [':', ' ']) := by
    with_unfolding_all decide
  rw [mapYAML, limitsYAML, line, hpre]
  simp

theorem quiet_limits {m : MapSpec} (ht : m.type ≠ [] → m.type ∈ GameType.all) :
    Quiet (txt "name") (limitsYAML m) := by
  obtain ⟨ltype, lcap, lfrag, ltime⟩ := lines_map
  have htype := Quiet.ite (p := m.type ≠ []) fun h => quiet_type ltype (ht h)
  have hcap := quiet_given (o := m.captureLimit) fun n _ => quiet_int lcap (by decide) n
  have hfrag := quiet_given (o := m.fragLimit) fun n _ => quiet_int lfrag (by decide) n
  have htime := quiet_given (o := m.timeLimit) fun d _ => quiet_duration ltime (by decide) d
  exact ((htype.append hcap).append hfrag).append htime

/-- **There is room for the names, and for no more**; and they take it all up only
where each of them is a plain scalar. -/
theorem names_weight {ms : List MapSpec} (ht : ∀ m ∈ ms, m.type ≠ [] → m.type ∈ GameType.all) {r : Text}
    (hr : Quiet (txt "name") r) {ts : List Tok} (h : tokens (ms.flatMap mapYAML ++ r) = some ts) (b : Bool) :
    weight (txt "name") b ts ≤ (ms.map fun m => m.name.length + 1).sum ∧
      ((ms.map fun m => m.name.length + 1).sum ≤ weight (txt "name") b ts → ∀ m ∈ ms, PlainScalar m.name) := by
  have hkey : IsKey (txt "name") := by with_unfolding_all decide
  induction ms generalizing ts b with
  | nil =>
    rw [← List.append_nil r] at hr
    have h' : tokens (r ++ []) = some ts := by
      rw [List.append_nil]
      exact h
    rw [List.append_nil] at hr
    obtain ⟨us, hus, hle⟩ := hr.weight_le h'
    cases hus
    exact ⟨hle b, fun _ m hm => absurd hm List.not_mem_nil⟩
  | cons m ms ih =>
    rw [List.flatMap_cons, mapYAML_eq, List.append_assoc, List.append_assoc, List.cons_append,
      List.append_assoc] at h
    rw [← List.cons_append, ← List.cons_append, ← List.append_assoc] at h
    obtain ⟨us, vs, hus, hvs, rfl⟩ := tokens_newline_cases h
    obtain ⟨ws, hws, hle⟩ := (quiet_limits (ht m List.mem_cons_self)).weight_le hvs
    obtain ⟨hname, hplain⟩ := weight_itemField (txt "name") hkey hus b
    obtain ⟨hrest, hall⟩ := ih (fun m' hm' => ht m' (List.mem_cons_of_mem _ hm')) hws
      (endsAt (txt "name") b us)
    have hstep := hle (endsAt (txt "name") b us)
    rw [weight_append, List.map_cons, List.sum_cons]
    refine ⟨by omega, fun hfull m' hm' => ?_⟩
    rcases List.mem_cons.mp hm' with rfl | hm'
    · exact hplain (by omega)
    · exact hall (by omega) m' hm'

/-- Names that the file says are plain scalars. -/
theorem plainScalar_of_faithful (hr : ∀ m ∈ c.maps, m.type ≠ [] → m.type ∈ GameType.all)
    (hg : ∀ g ∈ c.game, g.type ≠ [] → g.type ∈ GameType.all) (h : EncodedFaithfully N P c) :
    ∀ m ∈ c.maps, PlainScalar m.name := by
  obtain ⟨es, hload, hsays⟩ := h
  obtain ⟨vs, hvs, hall⟩ := hsays.maps
  obtain ⟨ts, hts, hparse⟩ := Option.bind_eq_some_iff.mp hload
  obtain ⟨_, col, b, hin, hb⟩ := parse_lookup hparse hvs
  have hnames : (c.maps.map MapSpec.name).Sublist (valuesAfter (txt "name") false ts) := by
    have hnamed : List.Forall₂ (fun t v => ∃ fs, v = .map fs ∧ lookup (txt "name") fs = some (.str t))
        (c.maps.map MapSpec.name) vs := by
      rw [List.forall₂_map_left_iff]
      apply hall.imp
      rintro m v ⟨fs, rfl, hfs⟩
      exact ⟨fs, rfl, hfs.name⟩
    have hsub := values_sublist hb hnamed
    exact hsub.trans (valuesAfter_within _ ((List.suffix_cons _ b).isInfix.trans hin) false)
  have hroom : (c.maps.map fun m => m.name.length + 1).sum ≤ weight (txt "name") false ts := by
    have hsum := (hnames.map fun v => v.length + 1).sum_le_sum fun _ _ => Nat.zero_le _
    rwa [List.map_map] at hsum
  by_cases hne : c.maps = []
  · rw [hne]
    exact fun m hm => absurd hm List.not_mem_nil
  · -- the file is sections without names, the maps, and the commands
    have hgame : Quiet (txt "name") (given c.game (gameYAML P)) :=
      quiet_given fun g hcg => quiet_game P (hg g hcg)
    have hpre := (((((quiet_int lines_limits.1 (by decide) (c.fragLimit.getD 25)).append
      (quiet_line lines_limits.2 (by decide) (numberLike_timeLimitText c).1.plainWord.reads)).append
      (quiet_given (o := c.bot) fun b _ => quiet_bot b)).append hgame).append
      (quiet_given (o := c.server) fun s _ => quiet_server P s)).append
        (quiet_header headers_lists.1 (by decide))
    have hmaps : mapsYAML c.maps = txt "maps:\n" ++ c.maps.flatMap mapYAML :=
      if_pos (List.length_pos_iff.mpr hne)
    have hfile : generateConfigYAML P (some c) = (line "fragLimit: " (intText (c.fragLimit.getD 25).toInt) ++
        line "timeLimit: " (timeLimitText c) ++ given c.bot botYAML ++ given c.game (gameYAML P) ++
        given c.server (serverYAML P) ++ txt "maps:\n") ++
        (c.maps.flatMap mapYAML ++ commandsYAML P c.commands) := by
      rw [generateConfigYAML, hmaps]
      simp only [List.append_assoc]
    rw [hfile] at hts
    obtain ⟨us, hus, hle⟩ := hpre.weight_le hts
    have hfull := (names_weight hr (quiet_commands P c.commands) hus false).2
    exact hfull (hroom.trans (hle false))

/-! ### When the file says it -/

theorem encodes_mapEntries {m : MapSpec} (h : resolve N m.name = .str m.name) : Encodes m (mapEntries N m) where
  name := by rw [lookup_mapEntries, h]; simp
  type := by rw [lookup_mapEntries]; simp
  captureLimit := by rw [lookup_mapEntries]; simp
  fragLimit := by rw [lookup_mapEntries]; simp
  timeLimit := by rw [lookup_mapEntries]; simp

theorem keys_configEntries (N : Numbers) (c : ServerConfigSpec) :
    (configEntries N c).map Prod.fst = sectionKeys c := by
  have hgiven : ∀ {α : Type} (o : Option α) (key : String) (f : α → Node),
      (given o fun a => entry key (f a)).map Prod.fst = given o fun _ => [txt key] := by
    intro α o key f
    cases o <;> rfl
  have hlist : ∀ (key : String) (vs : List Node),
      (listEntry key vs).map Prod.fst = if vs = [] then [] else [txt key] := by
    intro key vs
    unfold listEntry
    split_ifs <;> rfl
  rw [configEntries, sectionKeys]
  simp only [List.map_append, hgiven, hlist, List.map_eq_nil_iff]
  rfl

/-- **The file says of the maps what they are if and only if every name stands for
itself.** -/
theorem encodedFaithfully_iff (ha : c.encode.Admitted) (hne : c.maps ≠ []) :
    EncodedFaithfully N P c ↔ ∀ m ∈ c.maps, Verbatim N m.name := by
  obtain ⟨hmaps, hgame⟩ := types_of_admitted ha
  have hread : (∀ m ∈ c.maps, PlainScalar m.name) → Readable c := fun h =>
    ⟨fun m hm => plainScalar_iff.mp (h m hm), hmaps, hgame⟩
  have hseq : lookup (txt "maps") (configEntries N c) =
      some (.seq (c.maps.map fun m => .map (mapEntries N m))) := by
    rw [lookup_configEntries]
    simp [txt_inj, hne]
  constructor
  · intro h
    have hplain := plainScalar_of_faithful hmaps hgame h
    obtain ⟨es, hload, hsays⟩ := h
    rw [load_generateConfigYAML N P (hread hplain)] at hload
    obtain rfl := Node.map.inj (Option.some.inj hload)
    obtain ⟨vs, hvs, hall⟩ := hsays.maps
    rw [hseq] at hvs
    obtain rfl := Node.seq.inj (Option.some.inj hvs)
    intro m hm
    refine ⟨hplain m hm, ?_⟩
    obtain ⟨fs, hfs, henc⟩ := List.forall₂_same.mp (List.forall₂_map_right_iff.mp hall) m hm
    obtain rfl := Node.map.inj hfs
    have hname := henc.name
    rw [lookup_mapEntries] at hname
    simpa using hname
  · intro h
    refine ⟨_, load_generateConfigYAML N P (hread fun m hm => (h m hm).1), ⟨_, hseq, ?_⟩, ?_, ?_⟩
    · rw [List.forall₂_map_right_iff, List.forall₂_same]
      exact fun m hm => ⟨_, rfl, encodes_mapEntries (h m hm).2⟩
    · rw [← keys_configEntries N c]
      exact fun e he => List.mem_map_of_mem he
    · have hnone : Readable { c with maps := [] } := ⟨fun m hm => absurd hm List.not_mem_nil,
        fun m hm => absurd hm List.not_mem_nil, hgame⟩
      refine ⟨_, load_generateConfigYAML N P hnone, fun k hk => ?_⟩
      rw [lookup_configEntries, lookup_configEntries, if_neg hk, if_neg hk]
      rfl

/-- A server with one map. -/
def oneMap (name : Text) : ServerConfigSpec :=
  { ServerConfigSpec.zero with maps := [⟨name, [], none, none, none⟩] }

theorem encodedFaithfully_q3dm7 : EncodedFaithfully Numbers.none PrintTable.ascii7 (oneMap (txt "q3dm7")) ↔
    ∀ m ∈ (oneMap (txt "q3dm7")).maps, Verbatim Numbers.none m.name :=
  encodedFaithfully_iff (by with_unfolding_all decide) (by with_unfolding_all decide)

/-- **A name with a line break brings another map with it**, and a limit of its own. -/
theorem name_injects :
    (oneMap (txt "q3dm7\n    fragLimit: 1\n  - name: q3dm17")).encode.Admitted ∧
      ¬ EncodedFaithfully Numbers.none PrintTable.ascii7
        (oneMap (txt "q3dm7\n    fragLimit: 1\n  - name: q3dm17")) := by
  have ha : (oneMap (txt "q3dm7\n    fragLimit: 1\n  - name: q3dm17")).encode.Admitted := by
    with_unfolding_all decide
  obtain ⟨hmaps, hgame⟩ := types_of_admitted ha
  refine ⟨ha, fun h => ?_⟩
  have hplain := plainScalar_of_faithful hmaps hgame h _ List.mem_cons_self
  exact absurd hplain.allowed (by with_unfolding_all decide)

end Operator
end QuakeKube
