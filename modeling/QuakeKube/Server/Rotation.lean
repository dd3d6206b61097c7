/-
# The rotation over time

When a map ends the console runs what is stored under `nextmap`, which is the
entry of the next map: every turn of the rotation plays the map that comes after
that of the turn before, and after the last one the first again. `inTurn` is the
console in each turn; `Turning` is what one turn hands to the next.

Key definitions: `Rotation`, `turn`, `inTurn`, `Turning`.
Key theorems: `Rotation.unique`, `Turning.next_turn`, `marshalMaps_rotates`.
-/
import QuakeKube.Server.Maps

namespace QuakeKube
namespace Server

open Go Script

/-! ### Turns -/

/-- What the console runs at the end of a map. -/
def endOfMap : Command := [txt "vstr", txt "nextmap"]

/-- A script is run, and then one map ends after the other. -/
structure Rotation (script : Text) (s : Console) (st : ℕ → Console) : Prop where
  start : Executes (commands script) s (st 0)
  next : ∀ k, Executes [endOfMap] (st k) (st (k + 1))

theorem Rotation.unique {script : Text} {s : Console} {st st' : ℕ → Console} (h : Rotation script s st)
    (h' : Rotation script s st') : st = st' := by
  funext k
  induction k with
  | zero => exact h.start.det h'.start
  | succ k ih =>
    have hk := h.next k
    rw [ih] at hk
    exact hk.det (h'.next k)

/-- The map of turn `k`. -/
def turn (maps : List Map) (k : ℕ) : Map := maps.getD (k % maps.length) Map.zero

/-- The entry to be run after turn `k`. -/
def nextEntry (maps : List Map) (k : ℕ) : Text := entryVar ((k + 1) % maps.length)

/-- The console in turn `k`, from that in the first. -/
def inTurn (maps : List Map) (s : Console) : ℕ → Console
  | 0 => s
  | k + 1 => played (turn maps (k + 1)) (nextEntry maps (k + 1)) (inTurn maps s k)

/-- What turn `k` hands to the next: the entries, and which of them is to be run. -/
structure Turning (maps : List Map) (k : ℕ) (s : Console) : Prop where
  entries : ∀ i m, maps[i]? = some m →
    s.cvar (entryVar i) = some (entryText m (entryVar ((i + 1) % maps.length)))
  next : s.cvar (txt "nextmap") = some (txt "vstr " ++ nextEntry maps k)

section Turns

variable {maps : List Map}

theorem getElem?_turn (hne : maps ≠ []) (k : ℕ) : maps[k % maps.length]? = some (turn maps k) := by
  have hlt : k % maps.length < maps.length := Nat.mod_lt _ (List.length_pos_iff.mpr hne)
  rw [turn, List.getD_eq_getElem?_getD, List.getElem?_eq_getElem hlt, Option.getD_some]

theorem turn_mem (hne : maps ≠ []) (k : ℕ) : turn maps k ∈ maps :=
  List.mem_of_getElem? (getElem?_turn hne k)

/-- The last command of an entry makes the next one the text of `nextmap`. -/
theorem played_nextmap (m : Map) (next : Text) (s : Console) :
    (played m next s).cvar (txt "nextmap") = some (txt "vstr " ++ next) := by
  have hset : txt "set" ∈ setters := by with_unfolding_all decide
  have hcommands : entryCommands m next =
      ([txt "seta", txt "g_gametype", natText m.type.number] :: (limits m ++ [mapCommand m.name])) ++
        [[txt "set", txt "nextmap", txt "vstr", next]] := by
    simp [entryCommands, entryRest]
  have happly : ∀ s' : Console, s'.apply [txt "set", txt "nextmap", txt "vstr", next] =
      s'.setCvar (txt "nextmap") (joinText [' '] [txt "vstr", next]) := by
    intro s'
    simp only [Console.apply]
    rw [if_pos hset, if_neg (List.cons_ne_nil _ _)]
  have htext : joinText [' '] [txt "vstr", next] = txt "vstr " ++ next := by
    have hv : txt "vstr " = txt "vstr" ++ [' '] := by with_unfolding_all decide
    rw [hv]
    rfl
  calc (played m next s).cvar (txt "nextmap")
      = ((([txt "seta", txt "g_gametype", natText m.type.number] :: (limits m ++ [mapCommand m.name])).foldl
          Console.apply s).setCvar (txt "nextmap") (txt "vstr " ++ next)).cvar (txt "nextmap") := by
        rw [played, hcommands, List.foldl_append, List.foldl_cons, List.foldl_nil, happly, htext]
    _ = some (txt "vstr " ++ next) := Function.update_self _ _ _

/-- What was handed over stays, but for the next entry. -/
theorem turning_played {k : ℕ} {s : Console} (m : Map)
    (h : ∀ i m, maps[i]? = some m →
      s.cvar (entryVar i) = some (entryText m (entryVar ((i + 1) % maps.length)))) :
    Turning maps k (played m (nextEntry maps k) s) where
  entries i m' hm := by
    rw [played_entryVar]
    exact h i m' hm
  next := played_nextmap m _ s

/-- **One turn**: the end of a map runs the entry of the next. -/
theorem Turning.next_turn {k : ℕ} {s : Console} (h : Turning maps k s) (hn : ∀ m ∈ maps, NameWord m.name)
    (hne : maps ≠ []) : Executes [endOfMap] s (played (turn maps (k + 1)) (nextEntry maps (k + 1)) s) := by
  have hentry := h.entries _ _ (getElem?_turn hne (k + 1))
  rw [Nat.mod_add_mod] at hentry
  have hplay : Executes (commands (entryText (turn maps (k + 1)) (nextEntry maps (k + 1))) ++ []) s
      (played (turn maps (k + 1)) (nextEntry maps (k + 1)) s) := by
    have hbare : BareWord (nextEntry maps (k + 1)) := bareWord_entryVar _
    rw [List.append_nil, commands_entryText (hn _ (turn_mem hne _)) hbare]
    exact executes_entry _ _ s
  have hvstr : commands (txt "vstr " ++ nextEntry maps k) = [[txt "vstr", nextEntry maps k]] := by
    have hbare : BareWord (nextEntry maps k) := bareWord_entryVar _
    obtain ⟨-, -, -, hhead⟩ := heads_entry
    have hpieces : IsCommand (txt "vstr " ++ nextEntry maps k) [txt "vstr", nextEntry maps k] :=
      pieces_setting hhead hbare
    have hline : '\n' ∉ txt "vstr " ++ nextEntry maps k :=
      (quiet_setting hhead (quiet_of_bareWord hbare)).newline
    rw [commands_eq hline]
    refine lineCommands_eq ?_ (by simp) (by simp)
    exact hpieces
  apply Executes.vstr h.next
  rw [hvstr]
  exact .vstr hentry hplay

/-- **Every turn** hands over what the next one needs. -/
theorem turning_inTurn {s : Console} (h : Turning maps 0 s) (k : ℕ) : Turning maps k (inTurn maps s k) := by
  induction k with
  | zero => exact h
  | succ k ih => exact turning_played _ ih.entries

theorem executes_inTurn {s : Console} (h : Turning maps 0 s) (hn : ∀ m ∈ maps, NameWord m.name)
    (hne : maps ≠ []) (k : ℕ) : Executes [endOfMap] (inTurn maps s k) (inTurn maps s (k + 1)) :=
  (turning_inTurn h k).next_turn hn hne

/-- The console in the first turn. -/
def firstTurn (maps : List Map) (s : Console) : Console :=
  played (turn maps 0) (nextEntry maps 0) (defined maps s)

theorem turning_firstTurn (maps : List Map) (s : Console) : Turning maps 0 (firstTurn maps s) :=
  turning_played _ fun _ _ hm => defined_entryVar hm s

theorem executes_firstTurn (hn : ∀ m ∈ maps, NameWord m.name) (hne : maps ≠ []) (s : Console) :
    Executes (commands (marshalMaps maps)) s (firstTurn maps s) := by
  have h0 : maps[0]? = some (turn maps 0) := by
    have h := getElem?_turn hne 0
    rwa [Nat.zero_mod] at h
  exact executes_script hn h0 s

end Turns

/-! ### The maps loaded -/

/-- The map was loaded, in its own game type. -/
def LoadedAs (l : Text × (Text → Option Text)) (m : Map) : Prop :=
  l.1 = m.name ∧ l.2 (txt "g_gametype") = some (natText m.type.number)

/-- What a limit does not do: load a map, or set the game type. -/
theorem limits_quiet {m : Map} {c : Command} (h : c ∈ limits m) :
    c.head? ≠ some (txt "map") ∧ target c ≠ some (txt "g_gametype") := by
  have hne : ∀ v ∈ [txt "capturelimit", txt "fraglimit", txt "timelimit"],
      v ≠ txt "map" ∧ v ∉ setters ∧ v ≠ txt "g_gametype" := by with_unfolding_all decide
  obtain ⟨v, hv, w, rfl⟩ := limits_cases h
  obtain ⟨h1, h2, h3⟩ := hne v hv
  refine ⟨fun hm => h1 (Option.some.inj hm), fun ht => ?_⟩
  rw [target, if_neg h2, if_neg h1] at ht
  exact h3 (Option.some.inj ht)

/-- **An entry loads its map**, and runs nothing that is not there. -/
theorem played_loaded {m : Map} (hm : m.name ≠ []) (next : Text) (s : Console) :
    (∃ l, (played m next s).loaded = s.loaded ++ [l] ∧ LoadedAs l m) ∧
      (played m next s).missed = s.missed := by
  refine ⟨?_, foldl_apply_missed _ _⟩
  have hhead : txt "set" ≠ txt "map" ∧ txt "seta" ≠ txt "map" := by with_unfolding_all decide
  have hset : ∀ ws, (txt "set" :: ws).head? ≠ some (txt "map") := fun _ h => hhead.1 (Option.some.inj h)
  have hseta : ∀ ws, (txt "seta" :: ws).head? ≠ some (txt "map") := fun _ h => hhead.2 (Option.some.inj h)
  have hmap : txt "map" ∉ setters := by with_unfolding_all decide
  -- the console the map is loaded on
  let s1 := (limits m).foldl Console.apply (s.apply [txt "seta", txt "g_gametype", natText m.type.number])
  have hloaded : s1.loaded = s.loaded := by
    rw [foldl_apply_loaded fun c hc => (limits_quiet hc).1, Console.apply_loaded (hseta _)]
  have htype : s1.cvar (txt "g_gametype") = some (natText m.type.number) := by
    rw [foldl_apply_cvar fun c hc => (limits_quiet hc).2, apply_gametype]
    exact Function.update_self _ _ _
  have hload : s1.apply (mapCommand m.name) = { s1 with loaded := s1.loaded ++ [(m.name, s1.cvar)] } := by
    rw [mapCommand, if_neg hm]
    simp only [Console.apply]
    rw [if_neg hmap, if_pos trivial]
  have hplayed : played m next s =
      (s1.apply (mapCommand m.name)).apply [txt "set", txt "nextmap", txt "vstr", next] := by
    rw [played, entryCommands, entryRest, List.foldl_cons, List.foldl_append]
    rfl
  refine ⟨(m.name, s1.cvar), ?_, rfl, htype⟩
  rw [hplayed, Console.apply_loaded (hset _), hload, hloaded]

/-- The maps loaded up to turn `k`. -/
theorem loaded_inTurn {maps : List Map} {s s0 : Console} (hn : ∀ m ∈ maps, m.name ≠ []) (hne : maps ≠ [])
    {l0 : Text × (Text → Option Text)} (h0 : s0.loaded = s.loaded ++ [l0] ∧ LoadedAs l0 (turn maps 0))
    (hm : s0.missed = s.missed) (k : ℕ) :
    (∃ ls, (inTurn maps s0 k).loaded = s.loaded ++ ls ∧
      List.Forall₂ LoadedAs ls ((List.range (k + 1)).map (turn maps))) ∧
      (inTurn maps s0 k).missed = s.missed := by
  induction k with
  | zero => exact ⟨⟨[l0], h0.1, .cons h0.2 .nil⟩, hm⟩
  | succ k ih =>
    obtain ⟨⟨ls, hls, hall⟩, hmissed⟩ := ih
    obtain ⟨⟨l, hl, has⟩, hmissed'⟩ := played_loaded (hn _ (turn_mem hne (k + 1))) (nextEntry maps (k + 1))
      (inTurn maps s0 k)
    refine ⟨⟨ls ++ [l], ?_, ?_⟩, hmissed'.trans hmissed⟩
    · calc (inTurn maps s0 (k + 1)).loaded = (inTurn maps s0 k).loaded ++ [l] := hl
        _ = s.loaded ++ (ls ++ [l]) := by rw [hls, List.append_assoc]
    · rw [List.range_succ, List.map_append]
      exact List.rel_append hall (.cons has .nil)

/-- **The rotation visits every map in order, for ever**: up to turn `k` it has
loaded the maps of the turns from 0 to `k`, one in each, in its own game type, and
it has run no variable that is not there. -/
theorem marshalMaps_rotates {maps : List Map} (hn : ∀ m ∈ maps, BareWord m.name) (hne : maps ≠ [])
    (s : Console) : ∃ st, Rotation (marshalMaps maps) s st ∧ ∀ k,
      (∃ ls, (st k).loaded = s.loaded ++ ls ∧
        List.Forall₂ LoadedAs ls ((List.range (k + 1)).map (turn maps))) ∧ (st k).missed = s.missed := by
  have hword : ∀ m ∈ maps, NameWord m.name := fun m hm => .inr (hn m hm)
  have hname : ∀ m ∈ maps, m.name ≠ [] := fun m hm => (hn m hm).ne_nil
  have hturning := turning_firstTurn maps s
  obtain ⟨⟨l0, hl0, has⟩, hmissed⟩ :=
    played_loaded (hname _ (turn_mem hne 0)) (nextEntry maps 0) (defined maps s)
  have hdefs : (defined maps s).loaded = s.loaded ∧ (defined maps s).missed = s.missed :=
    ⟨foldl_apply_loaded (head?_entryDefs _ _ maps) s, foldl_apply_missed _ s⟩
  rw [hdefs.1] at hl0
  rw [hdefs.2] at hmissed
  exact ⟨inTurn maps (firstTurn maps s), ⟨executes_firstTurn hword hne s, executes_inTurn hturning hword hne⟩,
    loaded_inTurn hname hne ⟨hl0, has⟩ hmissed⟩

/-- Two maps, one after the other. -/
theorem marshalMaps_rotates_two :
    let maps : List Map := [⟨txt "q3dm7", .FreeForAll, 0, 10, 0⟩, ⟨txt "q3ctf1", .CaptureTheFlag, 8, 0, 0⟩]
    ∃ st, Rotation (marshalMaps maps) ⟨fun _ => none, [], []⟩ st ∧ ∀ k,
      (∃ ls, (st k).loaded = [] ++ ls ∧
        List.Forall₂ LoadedAs ls ((List.range (k + 1)).map (turn maps))) ∧ (st k).missed = [] :=
  marshalMaps_rotates (by with_unfolding_all decide) (List.cons_ne_nil _ _) _

end Server
end QuakeKube
