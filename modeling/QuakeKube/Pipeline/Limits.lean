/-
# The limits of the maps

A spec gives limits to the server and to maps; the file of the game server has the
global ones first and a map's own in its entry. A map without a limit is played
under that of the map before it, so the first map takes over what the last one
left; a limit of zero is written as no limit at all; and a time limit is cut to
whole minutes. `mapLimitsKept_iff` says when none of this happens.

Key definitions: `MapLimitsKept`, `Steady`, `LimitsFit`, `Undisturbed`.
Key theorem: `mapLimitsKept_iff`.
-/
import QuakeKube.Pipeline
import QuakeKube.Server.Limits

namespace QuakeKube
namespace Pipeline

open Go Yaml Script Operator Server Kept

/-! ### What is to hold -/

/-- In every run of the server each map has the same limits in every cycle, and its
own frag limit where the spec gives one; and no positive time limit, of the server
or of a map, comes to no minutes. -/
def MapLimitsKept (N : Numbers) (P : PrintTable) (c : ServerConfigSpec) : Prop :=
  ∃ cfg, Config.ofYaml N (generateConfigYAML P (some c)) = some cfg ∧
    (0 < (c.timeLimit.getD withDefault.timeLimit).toInt →
      [txt "seta", txt "timelimit", txt "0"] ∉ commands (cfg.marshal P)) ∧
    ∀ s, ∃ st, Rotation (cfg.marshal P) s st ∧ ∀ k,
      (st (k + cfg.maps.length)).cvar (txt "fraglimit") = (st k).cvar (txt "fraglimit") ∧
      (st (k + cfg.maps.length)).cvar (txt "timelimit") = (st k).cvar (txt "timelimit") ∧
      ∀ m ∈ c.maps[k % c.maps.length]?,
        (∀ f ∈ m.fragLimit, (st k).cvar (txt "fraglimit") = some (intText f.toInt)) ∧
        ∀ d ∈ m.timeLimit, 0 < d.toInt → (st k).cvar (txt "timelimit") ≠ some (txt "0")

/-! ### When it holds -/

/-- The frag limit a map sets. -/
def setsFrag (m : MapSpec) : Option Int64 := m.fragLimit.filter (· ≠ 0)

/-- The time limit a map sets, in minutes. -/
def setsTime (m : MapSpec) : Option ℤ := (m.timeLimit.filter (· ≠ 0)).map minutes

/-- The first map sets the value, or no map does, or the last one that does sets it
to what it is for the whole server. -/
def Steady {α : Type} (sets : MapSpec → Option α) (g : α) (maps : List MapSpec) : Prop :=
  (∃ m ∈ maps.head?, sets m ≠ none) ∨ ∀ x ∈ maps.reverse.findSome? sets, x = g

/-- The limits of the spec suit the way they are passed on. -/
structure LimitsFit (c : ServerConfigSpec) : Prop where
  frag : Steady setsFrag (c.fragLimit.getD 25) c.maps
  time : Steady setsTime (minutes (c.timeLimit.getD withDefault.timeLimit)) c.maps
  noFrag : ∀ m ∈ c.maps, m.fragLimit = some 0 → c.fragLimit = some 0 ∧ ∀ m' ∈ c.maps, setsFrag m' = none
  globalMinute : ∀ d ∈ c.timeLimit, 0 < d.toInt → minute.toInt ≤ d.toInt
  mapMinute : ∀ m ∈ c.maps, ∀ d ∈ m.timeLimit, 0 < d.toInt → minute.toInt ≤ d.toInt

/-- What the texts of the spec add to the file, if anything, leaves the rotation
alone, and so do the extra commands. -/
structure Undisturbed (P : PrintTable) (c : ServerConfigSpec) : Prop where
  game : ∀ g ∈ c.game, ∀ t ∈ [g.motd, g.password], ∀ d ∈ extra (quote P t), Bystander d
  server : ∀ s ∈ c.server, ∀ t ∈ [s.hostname, s.rconPassword], ∀ d ∈ extra (quote P t), Bystander d
  commands : ∀ t ∈ c.commands, ∀ d ∈ commands t, Bystander d

/-! ### Passing the limits on -/

section Passing

variable {α : Type} {sets : MapSpec → Option α} {g : α} {maps : List MapSpec}

/-- What is set in turn `k`. -/
def inTurnSets (sets : MapSpec → Option α) (maps : List MapSpec) (k : ℕ) : Option α :=
  maps[k % maps.length]?.bind sets

theorem inTurnSets_of_lt {i : ℕ} {m : MapSpec} (h : maps[i]? = some m) : inTurnSets sets maps i = sets m := by
  obtain ⟨hlt, -⟩ := List.getElem?_eq_some_iff.mp h
  rw [inTurnSets, Nat.mod_eq_of_lt hlt, h]
  rfl

/-- **The value is the same in every cycle if and only if it is steady.** -/
theorem kept_steady_iff {n : ℕ} (hn : 0 < n) (hlen : maps ≠ [] → n = maps.length) :
    (∀ k, kept (inTurnSets sets maps) g (k + n) = kept (inTurnSets sets maps) g k) ↔ Steady sets g maps := by
  by_cases hne : maps = []
  · have hnone : ∀ k, inTurnSets sets maps k = none := by
      intro k
      rw [inTurnSets, hne]
      rfl
    rw [kept_periodic_iff hn fun k => (hnone _).trans (hnone k).symm]
    have hlast : lastSet (inTurnSets sets maps) n = none := by
      rcases h : lastSet (inTurnSets sets maps) n with _ | a
      · rfl
      · obtain ⟨i, -, hi⟩ := lastSet_eq_some _ h
        rw [hnone i] at hi
        cases hi
    rw [hlast]
    exact iff_of_true (.inr rfl) (.inr (by simp [hne]))
  · rw [hlen hne]
    rw [kept_periodic_iff (List.length_pos_iff.mpr hne) fun k => by
      rw [inTurnSets, Nat.add_mod_right]
      rfl]
    have hlast : lastSet (inTurnSets sets maps) maps.length = _ :=
      lastSet_list sets (fun i m h => inTurnSets_of_lt h) le_rfl
    rw [List.take_length] at hlast
    have hfirst : inTurnSets sets maps 0 ≠ none ↔ ∃ m ∈ maps.head?, sets m ≠ none := by
      obtain ⟨m, ms, rfl⟩ := List.exists_cons_of_ne_nil hne
      rw [inTurnSets_of_lt (i := 0) rfl]
      simp
    rw [hlast, hfirst, Steady]
    cases maps.reverse.findSome? sets with
    | none => simp
    | some x => simp

end Passing

theorem intText_injective : Function.Injective intText := by
  intro z w h
  have hp := congrArg parseInt h
  rw [parseInt_intText, parseInt_intText] at hp
  exact Option.some.inj hp

/-- The limits of the map of turn `k`, as the game server has them. -/
theorem turn_received (c : ServerConfigSpec) (k : ℕ) :
    (turn (received c).maps k).fragLimit = (c.maps[k % c.maps.length]?.bind MapSpec.fragLimit).getD 0 ∧
      (turn (received c).maps k).timeLimit = (c.maps[k % c.maps.length]?.bind MapSpec.timeLimit).getD 0 := by
  by_cases hne : c.maps = []
  · obtain ⟨name, -, hold⟩ := withDefault_maps (k % withDefault.maps.length)
    rw [received, if_pos hne, turn, hold, hne]
    exact ⟨rfl, rfl⟩
  · have hlt : k % c.maps.length < c.maps.length := Nat.mod_lt _ (List.length_pos_iff.mpr hne)
    obtain ⟨name, -, hold⟩ := withDefault_maps (k % c.maps.length)
    rw [received, if_neg hne, turn, mapsOver_length, List.getD_eq_getElem?_getD, mapsOver_getElem?, hold,
      List.getElem?_eq_getElem hlt]
    exact ⟨rfl, rfl⟩

/-- A limit that is there and not zero. -/
theorem filter_getD (o : Option Int64) :
    (if o.getD 0 ≠ 0 then some (o.getD 0) else none) = o.filter (· ≠ 0) := by
  cases o with
  | none => rfl
  | some n =>
    rw [Option.getD_some, Option.filter_some]
    by_cases h : n = 0 <;> simp [h]

theorem ownFrag_received (c : ServerConfigSpec) (k : ℕ) :
    ownFrag (turn (received c).maps k) = (inTurnSets setsFrag c.maps k).map fun n => intText n.toInt := by
  have hown : ∀ m : Server.Map, ownFrag m =
      (if m.fragLimit ≠ 0 then some m.fragLimit else none).map fun n => intText n.toInt := by
    intro m
    unfold ownFrag
    split_ifs <;> rfl
  rw [hown, (turn_received c k).1, filter_getD, inTurnSets]
  cases c.maps[k % c.maps.length]? <;> rfl

theorem ownTime_received (c : ServerConfigSpec) (k : ℕ) :
    ownTime (turn (received c).maps k) = (inTurnSets setsTime c.maps k).map intText := by
  have hown : ∀ m : Server.Map, ownTime m =
      (if m.timeLimit ≠ 0 then some m.timeLimit else none).map fun d => intText (minutes d) := by
    intro m
    unfold ownTime
    split_ifs <;> rfl
  rw [hown, (turn_received c k).2, filter_getD, inTurnSets]
  cases c.maps[k % c.maps.length]? with
  | none => rfl
  | some m =>
    rw [Option.bind_some, Option.bind_some, setsTime, Option.map_map]
    rfl

/-! ### The console in every turn -/

section Runs

variable {N : Numbers} {P : PrintTable} {c : ServerConfigSpec}

theorem received_maps_ne_nil (c : ServerConfigSpec) : (received c).maps ≠ [] := by
  by_cases hne : c.maps = []
  · rw [received, if_pos hne]
    exact List.cons_ne_nil _ _
  · intro h
    rw [received, if_neg hne] at h
    have hlen := congrArg List.length h
    rw [mapsOver_length] at hlen
    exact hne (List.length_eq_zero_iff.mp hlen)

theorem received_length (hne : c.maps ≠ []) : (received c).maps.length = c.maps.length := by
  rw [received, if_neg hne, mapsOver_length]

theorem mem_gameOver {old : GameConfig} {g : GameConfigSpec} {t : Text}
    (ht : t ∈ [(gameOver old g).log, (gameOver old g).motd, (gameOver old g).joinPassword]) :
    t ∈ [old.log, old.motd, old.joinPassword] ∨ t ∈ [g.motd, g.password] := by
  simp only [gameOver, List.mem_cons, List.not_mem_nil, or_false] at ht ⊢
  split_ifs at ht <;> tauto

theorem mem_serverOver {old : ServerConfig} {sv : ServerSettings} {t : Text}
    (ht : t ∈ [(serverOver old sv).hostname, (serverOver old sv).rconPassword]) :
    t ∈ [old.hostname, old.rconPassword] ∨ t ∈ [sv.hostname, sv.rconPassword] := by
  simp only [serverOver, List.mem_cons, List.not_mem_nil, or_false] at ht ⊢
  split_ifs at ht <;> tauto

/-- The game server's texts are those of the spec and plain ones of its own. -/
theorem texts_received {t : Text} (ht : t ∈ (received c).texts) : Plain t ∨
    (∃ g ∈ c.game, t ∈ [g.motd, g.password]) ∨ ∃ sv ∈ c.server, t ∈ [sv.hostname, sv.rconPassword] := by
  have hdefault : ∀ t ∈ withDefault.texts, Plain t := by with_unfolding_all decide
  have hsplit : (received c).texts = [(received c).gameConfig.log, (received c).gameConfig.motd,
      (received c).gameConfig.joinPassword] ++ ((withDefault.texts.drop 3).take 4 ++
        [(received c).serverConfig.hostname, (received c).serverConfig.rconPassword]) := rfl
  rw [hsplit, List.mem_append, List.mem_append] at ht
  rcases ht with ht | ht | ht
  · have hown : t ∈ withDefault.texts.take 3 → Plain t := fun h => hdefault t (List.mem_of_mem_take h)
    rw [received] at ht
    rcases hg : c.game with _ | g
    · rw [hg] at ht
      exact .inl (hown ht)
    · rw [hg] at ht
      rcases mem_gameOver ht with h | h
      · exact .inl (hown h)
      · exact .inr (.inl ⟨g, rfl, h⟩)
  · exact .inl (hdefault t (List.mem_of_mem_drop (List.mem_of_mem_take ht)))
  · have hown : t ∈ withDefault.texts.drop 7 → Plain t := fun h => hdefault t (List.mem_of_mem_drop h)
    rw [received] at ht
    rcases hs : c.server with _ | sv
    · rw [hs] at ht
      exact .inl (hown ht)
    · rw [hs] at ht
      rcases mem_serverOver ht with h | h
      · exact .inl (hown h)
      · exact .inr (.inr ⟨sv, rfl, h⟩)

/-- The texts and commands of the spec are all the game server has besides its
defaults. -/
theorem Undisturbed.received (h : Undisturbed P c) : Server.Undisturbed P (Pipeline.received c) := by
  have hplain : ∀ {t : Text}, Plain t → ∀ d ∈ extra (quote P t), Bystander d := by
    intro t ht d hd
    have hc : Contained (quote P t) := contained_quote P ht.quote_not_mem
    rw [Contained] at hc
    rw [hc] at hd
    exact absurd hd List.not_mem_nil
  have htexts : ∀ t ∈ (Pipeline.received c).texts, ∀ d ∈ extra (quote P t), Bystander d := by
    intro t ht
    rcases texts_received ht with hp | ⟨g, hg, ht⟩ | ⟨s, hs, ht⟩
    · exact hplain hp
    · exact h.game g hg t ht
    · exact h.server s hs t ht
  refine ⟨fun s hs => ?_, h.commands⟩
  cases s with
  | seta name value =>
    exact forall_seta (p := fun t => ∀ d ∈ extra (quote P t), Bystander d) (fun z => hplain (plain_intText z))
      (fun n => hplain (plain_natText n)) (fun b => hplain (plain_boolToString b)) htexts hs
  | sets name value =>
    exact absurd rfl (mem_settings_sets.mp hs).1

/-- **The limits in every turn**, by the spec. -/
theorem limits_received (h : Undisturbed P c) (s : Console) (k : ℕ) :
    (inTurn (received c).maps (begun P (received c) s) k).cvar (txt "fraglimit") =
        some (intText (kept (inTurnSets setsFrag c.maps) (c.fragLimit.getD 25) k).toInt) ∧
      (inTurn (received c).maps (begun P (received c) s) k).cvar (txt "timelimit") =
        some (intText (kept (inTurnSets setsTime c.maps)
          (minutes (c.timeLimit.getD withDefault.timeLimit)) k)) := by
  obtain ⟨hfrag, htime⟩ := limits_inTurn h.received s k
  have hf : (fun k => ownFrag (turn (received c).maps k)) =
      fun k => (inTurnSets setsFrag c.maps k).map fun n => intText n.toInt := funext (ownFrag_received c)
  have ht : (fun k => ownTime (turn (received c).maps k)) =
      fun k => (inTurnSets setsTime c.maps k).map intText := funext (ownTime_received c)
  rw [hf] at hfrag
  rw [ht] at htime
  rw [hfrag, htime]
  exact ⟨congrArg some (kept_map (fun n : Int64 => intText n.toInt) k), congrArg some (kept_map intText k)⟩

/-- What every run of the server does, by the limits in its turns. -/
theorem mapLimitsKept_turns (ha : c.encode.Admitted)
    (hn : ∀ m ∈ c.maps, PlainName m.name ∧ N.isOther m.name = false) (hu : Undisturbed P c) :
    MapLimitsKept N P c ↔
      (0 < (c.timeLimit.getD withDefault.timeLimit).toInt →
        minutes (c.timeLimit.getD withDefault.timeLimit) ≠ 0) ∧
      (∀ k, kept (inTurnSets setsFrag c.maps) (c.fragLimit.getD 25) (k + (received c).maps.length) =
        kept (inTurnSets setsFrag c.maps) (c.fragLimit.getD 25) k) ∧
      (∀ k, kept (inTurnSets setsTime c.maps) (minutes (c.timeLimit.getD withDefault.timeLimit))
          (k + (received c).maps.length) =
        kept (inTurnSets setsTime c.maps) (minutes (c.timeLimit.getD withDefault.timeLimit)) k) ∧
      ∀ k, ∀ m ∈ c.maps[k % c.maps.length]?,
        (∀ f ∈ m.fragLimit, kept (inTurnSets setsFrag c.maps) (c.fragLimit.getD 25) k = f) ∧
        ∀ d ∈ m.timeLimit, 0 < d.toInt →
          kept (inTurnSets setsTime c.maps) (minutes (c.timeLimit.getD withDefault.timeLimit)) k ≠ 0 := by
  obtain ⟨htypes, hgame⟩ := types_of_admitted ha
  have hcfg := ofYaml_generateConfigYAML N P
    ⟨fun m hm => (hn m hm).1.plainWord.reads, htypes, hgame⟩ fun m hm => (hn m hm).2
  have hword := nameWord_received fun m hm => (hn m hm).1
  have hne := received_maps_ne_nil c
  have hzero : txt "0" = intText 0 := by with_unfolding_all decide
  have hglobal : [txt "seta", txt "timelimit", txt "0"] ∉ commands ((received c).marshal P) ↔
      minutes (c.timeLimit.getD withDefault.timeLimit) ≠ 0 := by
    rw [seta_timelimit_iff hu.received hword hne, hzero, intText_injective.eq_iff, eq_comm]
    rfl
  have hint : Function.Injective fun n : Int64 => intText n.toInt := fun n n' h =>
    Int64.toInt_inj.mp (intText_injective h)
  constructor
  · rintro ⟨cfg, h, hset, hrun⟩
    obtain rfl := Option.some.inj (hcfg.symm.trans h)
    obtain ⟨st, hst, hk⟩ := hrun ⟨fun _ => none, [], []⟩
    obtain rfl := hst.unique (rotation_marshal hu.received hword hne _)
    simp only [limits_received hu, Option.some.injEq, hzero, ne_eq, intText_injective.eq_iff,
      Int64.toInt_inj] at hk
    exact ⟨fun hpos => hglobal.mp (hset hpos), fun k => (hk k).1, fun k => (hk k).2.1, fun k => (hk k).2.2⟩
  · rintro ⟨hset, hfrag, htime, hown⟩
    refine ⟨_, hcfg, fun hpos => hglobal.mpr (hset hpos), fun s => ⟨_, rotation_marshal hu.received hword hne s,
      fun k => ?_⟩⟩
    simp only [limits_received hu, Option.some.injEq, hzero, ne_eq, intText_injective.eq_iff, Int64.toInt_inj]
    exact ⟨hfrag k, htime k, hown k⟩

/-- A map that is given a limit of zero is played without one if and only if there
is no other to take over. -/
theorem noFrag_iff {m : MapSpec} {i : ℕ} (hm : c.maps[i]? = some m) :
    (∀ k, c.maps[k % c.maps.length]? = some m → kept (inTurnSets setsFrag c.maps) (c.fragLimit.getD 25) k = 0) ↔
      c.fragLimit = some 0 ∧ ∀ m' ∈ c.maps, setsFrag m' = none := by
  obtain ⟨hi, -⟩ := List.getElem?_eq_some_iff.mp hm
  have hglobal : c.fragLimit.getD 25 = 0 ↔ c.fragLimit = some 0 := by
    cases c.fragLimit with
    | none => exact iff_of_false (by decide) (by simp)
    | some f => simp
  constructor
  · intro h
    have hturn := h (i + c.maps.length) (by rw [Nat.add_mod_right, Nat.mod_eq_of_lt hi, hm])
    rw [kept_eq] at hturn
    -- after a whole cycle, and no limit that is set is zero
    have hnone : lastSet (inTurnSets setsFrag c.maps) (i + c.maps.length + 1) = none := by
      rcases hlast : lastSet (inTurnSets setsFrag c.maps) (i + c.maps.length + 1) with _ | a
      · rfl
      · rw [hlast, Option.getD_some] at hturn
        obtain ⟨j, -, hj⟩ := lastSet_eq_some _ hlast
        obtain ⟨m', -, hset⟩ := Option.bind_eq_some_iff.mp hj
        rw [hturn] at hset
        simp [setsFrag, Option.filter_eq_some_iff] at hset
    rw [hnone] at hturn
    refine ⟨hglobal.mp hturn, fun m' hm' => ?_⟩
    obtain ⟨j, hj⟩ := List.getElem?_of_mem hm'
    obtain ⟨hlt, -⟩ := List.getElem?_eq_some_iff.mp hj
    have hown : inTurnSets setsFrag c.maps j = setsFrag m' := inTurnSets_of_lt hj
    by_contra hset
    rw [← hown] at hset
    exact lastSet_ne_none _ (by omega) hset hnone
  · rintro ⟨hg, hall⟩ k -
    rw [kept_eq]
    rcases hlast : lastSet (inTurnSets setsFrag c.maps) (k + 1) with _ | a
    · exact hglobal.mpr hg
    · obtain ⟨j, -, hj⟩ := lastSet_eq_some _ hlast
      obtain ⟨m', hm', hset⟩ := Option.bind_eq_some_iff.mp hj
      rw [hall m' (List.mem_of_getElem? hm')] at hset
      cases hset

/-- **Each map keeps its limits if and only if the limits of the spec suit the way
they are passed on.** -/
theorem mapLimitsKept_iff (ha : c.encode.Admitted)
    (hn : ∀ m ∈ c.maps, PlainName m.name ∧ N.isOther m.name = false) (hu : Undisturbed P c) :
    MapLimitsKept N P c ↔ LimitsFit c := by
  have hpos : 0 < (received c).maps.length := List.length_pos_iff.mpr (received_maps_ne_nil c)
  have hminute : ∀ d : Duration, 0 < d.toInt → (minutes d ≠ 0 ↔ minute.toInt ≤ d.toInt) := by
    intro d hd
    rw [Ne, minutes_eq_zero_iff hd, not_lt]
  have hdefault : minute.toInt ≤ withDefault.timeLimit.toInt ∧ 0 < withDefault.timeLimit.toInt := by decide
  -- the map of turn `k` sets its own limits
  have hfrag : ∀ {k m f}, c.maps[k % c.maps.length]? = some m → m.fragLimit = some f → f ≠ 0 →
      kept (inTurnSets setsFrag c.maps) (c.fragLimit.getD 25) k = f := by
    intro k m f hm hf hne
    apply kept_of_own
    rw [inTurnSets, hm, Option.bind_some, setsFrag, hf]
    simp [hne]
  have htime : ∀ {k m d}, c.maps[k % c.maps.length]? = some m → m.timeLimit = some d → 0 < d.toInt →
      kept (inTurnSets setsTime c.maps) (minutes (c.timeLimit.getD withDefault.timeLimit)) k = minutes d := by
    intro k m d hm hd hpos
    have hne : d ≠ 0 := by
      rintro rfl
      exact absurd hpos (by decide)
    apply kept_of_own
    rw [inTurnSets, hm, Option.bind_some, setsTime, hd]
    simp [hne]
  rw [mapLimitsKept_turns ha hn hu, kept_steady_iff hpos received_length, kept_steady_iff hpos received_length]
  constructor
  · rintro ⟨hset, hsteady, hsteady', hturn⟩
    refine ⟨hsteady, hsteady', fun m hm h0 => ?_, fun d hd hd0 => ?_, fun m hm d hd hd0 => ?_⟩
    · obtain ⟨i, hi⟩ := List.getElem?_of_mem hm
      exact (noFrag_iff hi).mp fun k hk => (hturn k m hk).1 0 h0
    · rw [show c.timeLimit = some d from hd, Option.getD_some] at hset
      exact (hminute d hd0).mp (hset hd0)
    · obtain ⟨i, hi⟩ := List.getElem?_of_mem hm
      obtain ⟨hlt, -⟩ := List.getElem?_eq_some_iff.mp hi
      have hi' : c.maps[i % c.maps.length]? = some m := by rw [Nat.mod_eq_of_lt hlt, hi]
      have hne := (hturn i m hi').2 d hd hd0
      rw [htime hi' hd hd0] at hne
      exact (hminute d hd0).mp hne
  · rintro ⟨hsteady, hsteady', hno, hglobal, hmap⟩
    refine ⟨fun _ => ?_, hsteady, hsteady', fun k m hm => ⟨fun f hf => ?_, fun d hd hd0 => ?_⟩⟩
    · rcases hc : c.timeLimit with _ | d
      · exact (hminute _ hdefault.2).mpr hdefault.1
      · rename_i h0
        rw [hc, Option.getD_some] at h0
        exact (hminute d h0).mpr (hglobal d hc h0)
    · have hmem : m ∈ c.maps := List.mem_of_getElem? hm
      by_cases h0 : f = 0
      · obtain ⟨i, hi⟩ := List.getElem?_of_mem hmem
        subst h0
        exact (noFrag_iff hi).mpr (hno m hmem hf) k hm
      · exact hfrag hm hf h0
    · rw [htime hm hd hd0]
      exact (hminute d hd0).mpr (hmap m (List.mem_of_getElem? hm) d hd hd0)

end Runs

/-- A server of two maps, of which the second has a frag limit of its own. -/
def twoMaps (first : Option Int64) : ServerConfigSpec :=
  { ServerConfigSpec.zero with
    fragLimit := some 25
    maps := [⟨txt "q3dm7", [], none, first, none⟩, ⟨txt "q3dm17", [], none, some 10, none⟩] }

theorem mapLimitsKept_twoMaps : MapLimitsKept Numbers.none PrintTable.ascii7 (twoMaps (some 30)) ↔
    LimitsFit (twoMaps (some 30)) :=
  mapLimitsKept_iff (by with_unfolding_all decide) (by with_unfolding_all decide)
    ⟨by simp [twoMaps, ServerConfigSpec.zero], by simp [twoMaps, ServerConfigSpec.zero],
      by simp [twoMaps, ServerConfigSpec.zero]⟩

/-- **The limit of the last map becomes that of the first**: 25 frags in the first
cycle, 10 in every other. -/
theorem limit_taken_over : (twoMaps none).encode.Admitted ∧
    (∀ m ∈ (twoMaps none).maps, PlainName m.name ∧ Numbers.none.isOther m.name = false) ∧
    Undisturbed PrintTable.ascii7 (twoMaps none) ∧
    ¬ MapLimitsKept Numbers.none PrintTable.ascii7 (twoMaps none) := by
  have ha : (twoMaps none).encode.Admitted := by with_unfolding_all decide
  have hn : ∀ m ∈ (twoMaps none).maps, PlainName m.name ∧ Numbers.none.isOther m.name = false := by
    with_unfolding_all decide
  have hu : Undisturbed PrintTable.ascii7 (twoMaps none) :=
    ⟨by simp [twoMaps, ServerConfigSpec.zero], by simp [twoMaps, ServerConfigSpec.zero],
      by simp [twoMaps, ServerConfigSpec.zero]⟩
  refine ⟨ha, hn, hu, fun h => ?_⟩
  obtain ⟨-, hfrag, -⟩ := (mapLimitsKept_turns ha hn hu).mp h
  exact absurd (hfrag 0) (by with_unfolding_all decide)

end Pipeline
end QuakeKube
