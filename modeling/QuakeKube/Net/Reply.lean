/-
# Status replies that are read back

A reply as a game server writes it (`reply`): the header, a line of keys and
values, each after a backslash, and for every player a line with the score, the
ping and the name in double quotes. Both parsers give back the map and the
players it was written from (`reply_decoded`).

Key definitions: `reply`, `Writable`.
Key theorem: `reply_decoded`.
-/
import QuakeKube.Net.Status

namespace QuakeKube
namespace Net

open Go Go.Bytes

/-! ### Writing -/

/-- The line of keys and values. -/
def configLine (kvs : List (Bytes × Bytes)) : Bytes :=
  kvs.flatMap fun kv => backslash :: kv.1 ++ backslash :: kv.2

def playerLine (p : Player) : Bytes :=
  ascii (intText p.score.toInt) ++ space :: (ascii (intText p.ping.toInt) ++
    space :: (doubleQuote :: p.name ++ [doubleQuote]))

/-- The reply of a server with this configuration and these players. -/
def reply (kvs : List (Bytes × Bytes)) (players : List Player) : Bytes :=
  statusHeader ++ newline :: (configLine kvs ++ newline :: (players.map playerLine).flatMap (· ++ [newline]))

/-- No backslash and no newline. -/
def Clean (s : Bytes) : Prop := backslash ∉ s ∧ newline ∉ s

instance (s : Bytes) : Decidable (Clean s) := inferInstanceAs (Decidable (_ ∧ _))

/-- Clean UTF-8 without double quotes. -/
def Legible (name : Bytes) : Prop := Clean name ∧ doubleQuote ∉ name ∧ validString name = true

/-- What a reply can be written of: a map of clean keys to clean values, and
players with legible names. -/
structure Writable (kvs : List (Bytes × Bytes)) (players : List Player) : Prop where
  distinct : (kvs.map (·.1)).Nodup
  clean : ∀ kv ∈ kvs, Clean kv.1 ∧ Clean kv.2
  names : ∀ p ∈ players, Legible p.name

variable {kvs : List (Bytes × Bytes)} {players : List Player}

/-! ### The configuration -/

/-- The keys and values in turn. -/
def words (kvs : List (Bytes × Bytes)) : List Bytes := kvs.flatMap fun kv => [kv.1, kv.2]

theorem pairs_words (kvs : List (Bytes × Bytes)) : pairs (words kvs) = kvs := by
  induction kvs with
  | nil => rfl
  | cons kv kvs ih =>
    change kv :: pairs (words kvs) = kv :: kvs
    rw [ih]

theorem mem_words {s : Bytes} (h : ∀ kv ∈ kvs, Clean kv.1 ∧ Clean kv.2) (hs : s ∈ words kvs) : Clean s := by
  obtain ⟨kv, hkv, hs⟩ := List.mem_flatMap.mp hs
  rcases List.mem_pair.mp hs with rfl | rfl
  · exact (h kv hkv).1
  · exact (h kv hkv).2

theorem configLine_eq_flatMap (kvs : List (Bytes × Bytes)) :
    configLine kvs = (words kvs).flatMap (backslash :: ·) := by
  induction kvs with
  | nil => rfl
  | cons kv kvs ih =>
    change backslash :: kv.1 ++ backslash :: kv.2 ++ configLine kvs = _
    rw [ih]
    simp [words]

theorem flatMap_cons_eq {sep : UInt8} {ls : List Bytes} (h : ls ≠ []) :
    ls.flatMap (sep :: ·) = sep :: [sep].intercalate ls := by
  induction ls with
  | nil => exact absurd rfl h
  | cons l ls ih =>
    cases ls with
    | nil => simp
    | cons l' ls =>
      rw [List.flatMap_cons, ih (by simp), List.intercalate_cons_cons]
      simp

theorem newline_not_mem_configLine (h : ∀ kv ∈ kvs, Clean kv.1 ∧ Clean kv.2) : newline ∉ configLine kvs := by
  rw [configLine_eq_flatMap, List.mem_flatMap]
  rintro ⟨s, hs, hm⟩
  rcases List.mem_cons.mp hm with hn | hm
  · exact absurd hn (by decide)
  · exact (mem_words h hs).2 hm

/-- The line is read as the pairs it was written of. -/
theorem parseMap_configLine (h : ∀ kv ∈ kvs, Clean kv.1 ∧ Clean kv.2) :
    parseMap (configLine kvs) = mapOf kvs := by
  have hn := newline_not_mem_configLine h
  have hsplit : pairs ((trimSuffix newline (trimPrefix backslash (configLine kvs))).splitOn backslash) = kvs := by
    by_cases hw : words kvs = []
    · have hk : kvs = [] := by rw [← pairs_words kvs, hw]; rfl
      rw [hk]
      rfl
    · rw [configLine_eq_flatMap, flatMap_cons_eq hw] at hn ⊢
      rw [Bytes.trimPrefix, if_pos rfl, trimSuffix_of_not_mem fun hm => hn (List.mem_cons_of_mem _ hm),
        List.splitOn_intercalate backslash (fun s hs => (mem_words h hs).1) hw, pairs_words]
  simp only [parseMap, cut_of_not_mem hn, hsplit]

/-- Entries that are written one after the other, with distinct keys. -/
theorem foldl_update_eq {κ β : Type} [DecidableEq κ] [BEq κ] [LawfulBEq κ] {kvs : List (κ × β)}
    (h : (kvs.map (·.1)).Nodup) (m : κ → Option β) (k : κ) :
    kvs.foldl (fun (m : κ → Option β) kv => Function.update m kv.1 (some kv.2)) m k =
      (kvs.lookup k).or (m k) := by
  induction kvs generalizing m with
  | nil => rfl
  | cons kv kvs ih =>
    obtain ⟨hk, hkvs⟩ := List.nodup_cons.mp h
    rw [List.foldl_cons, ih hkvs, List.lookup_cons]
    by_cases he : k = kv.1
    · subst he
      have hnone : kvs.lookup kv.1 = none := by
        refine List.lookup_eq_none_iff.mpr fun p hp => bne_iff_ne.mpr fun hkp => hk ?_
        change kv.1 ∈ _
        rw [hkp]
        exact List.mem_map_of_mem hp
      simp [hnone]
    · have hb : (k == kv.1) = false := by simpa using he
      simp [he, hb]

/-- A map with distinct keys. -/
theorem mapOf_eq_lookup (h : (kvs.map (·.1)).Nodup) : mapOf kvs = fun k => kvs.lookup k := by
  funext k
  rw [mapOf, foldl_update_eq h, Option.or_none]

/-! ### The players -/

/-- The three fields of a player's line. -/
def written (p : Player) : Bytes × Bytes × Bytes :=
  (ascii (intText p.score.toInt), ascii (intText p.ping.toInt), doubleQuote :: p.name ++ [doubleQuote])

theorem fields_playerLine (p : Player) : fields (playerLine p) = some (written p) := by
  have number : ∀ z, space ∉ ascii (intText z) := fun z => not_mem_ascii_intText z (by decide) (by decide)
  rw [fields, playerLine, splitN_append (number _), splitN_append (number _), splitN_one]
  rfl

theorem strictPlayer_written {p : Player} (h : Legible p.name) : strictPlayer (written p) = some p := by
  obtain ⟨⟨hb, hn⟩, hq, hv⟩ := h
  have name : unquote (doubleQuote :: p.name ++ [doubleQuote]) = some p.name := unquote_quoted hq hb hn hv
  rw [written, strictPlayer, name, atoi_ascii, atoi_ascii]
  rfl

theorem newline_not_mem_playerLine {p : Player} (h : Clean p.name) : newline ∉ playerLine p := by
  have number : ∀ z, newline ∉ ascii (intText z) := fun z => not_mem_ascii_intText z (by decide) (by decide)
  have hs : newline ≠ space := by decide
  have hq : newline ≠ doubleQuote := by decide
  simp [playerLine, number, hs, hq, h.2]

theorem filterMap_fields (players : List Player) :
    (players.map playerLine).filterMap fields = players.map written := by
  induction players with
  | nil => rfl
  | cons p ps ih => rw [List.map_cons, List.filterMap_cons, fields_playerLine, ih, List.map_cons]

theorem mapM_strictPlayer_written (h : ∀ p ∈ players, Legible p.name) :
    (players.map written).mapM strictPlayer = some players := by
  induction players with
  | nil => rfl
  | cons p ps ih =>
    obtain ⟨hp, hps⟩ := List.forall_mem_cons.mp h
    rw [List.map_cons, List.mapM_cons, strictPlayer_written hp, ih hps]
    rfl

theorem filterMap_lenientPlayer_written (h : ∀ p ∈ players, Legible p.name) :
    (players.map written).filterMap lenientPlayer = players := by
  have wellFormed : ∀ line ∈ players.map written, WellFormed line := by
    intro line hline
    obtain ⟨p, hp, rfl⟩ := List.mem_map.mp hline
    by_contra hw
    rw [← strictPlayer_eq_none_iff, strictPlayer_written (h p hp)] at hw
    cases hw
  have both := (mapM_strictPlayer wellFormed).symm.trans (mapM_strictPlayer_written h)
  exact Option.some.inj both

/-! ### The whole reply -/

theorem newline_not_mem_statusHeader : newline ∉ statusHeader := by with_unfolding_all decide

theorem splitN_reply_nil (h : Writable kvs []) :
    splitN newline 3 (trimSuffix newline (reply kvs [])) = [statusHeader, configLine kvs] := by
  have hr : reply kvs [] = (statusHeader ++ newline :: configLine kvs) ++ [newline] := by simp [reply]
  rw [hr, trimSuffix_append, splitN_append newline_not_mem_statusHeader,
    splitN_of_not_mem (newline_not_mem_configLine h.clean)]

/-- The third part has the lines of the players, the last one without its end. -/
theorem splitN_reply (h : Writable kvs players) (hp : players ≠ []) :
    splitN newline 3 (trimSuffix newline (reply kvs players)) =
      [statusHeader, configLine kvs, [newline].intercalate (players.map playerLine)] := by
  have hr : reply kvs players =
      (statusHeader ++
        newline :: (configLine kvs ++ newline :: [newline].intercalate (players.map playerLine))) ++
        [newline] := by
    rw [reply, flatMap_lines (by simpa using hp)]
    simp
  calc splitN newline 3 (trimSuffix newline (reply kvs players))
      = statusHeader :: splitN newline 2 (configLine kvs ++
          newline :: [newline].intercalate (players.map playerLine)) := by
        rw [hr, trimSuffix_append, splitN_append newline_not_mem_statusHeader]
    _ = [statusHeader, configLine kvs, [newline].intercalate (players.map playerLine)] := by
        rw [splitN_append (newline_not_mem_configLine h.clean), splitN_one]

/-- The lines that are parsed are those that were written. -/
theorem splitOn_playerLines (h : Writable kvs players) (hp : players ≠ []) :
    ([newline].intercalate (players.map playerLine)).splitOn newline = players.map playerLine := by
  refine List.splitOn_intercalate newline (fun l hl => ?_) (by simpa using hp)
  obtain ⟨p, hp, rfl⟩ := List.mem_map.mp hl
  exact newline_not_mem_playerLine (h.names p hp).1

/-- **Status replies are decoded exactly**, by both parsers. -/
theorem reply_decoded (h : Writable kvs players) :
    getStatus (reply kvs players) = some ⟨fun k => kvs.lookup k, players⟩ ∧
      parseStatusResponse (reply kvs players) = some ⟨fun k => kvs.lookup k, players⟩ := by
  have config : parseMap (configLine kvs) = fun k => kvs.lookup k := by
    rw [parseMap_configLine h.clean, mapOf_eq_lookup h.distinct]
  have config' : parseConfigMap (configLine kvs) = fun k => kvs.lookup k := config
  by_cases hp : players = []
  · subst hp
    simp only [getStatus, parseStatusResponse, splitN_reply_nil h, config, config', and_self]
  · simp only [getStatus, parseStatusResponse, splitN_reply h hp, config, config', parsePlayers,
      splitOn_playerLines h hp, filterMap_parsePlayer, filterMap_fields, mapM_strictPlayer_written h.names,
      filterMap_lenientPlayer_written h.names, Option.getD_some, and_self]

/-- A name past ASCII. -/
def fahrer : Player := ⟨"Fährer 2".toList.flatMap String.utf8EncodeChar, 48, -3⟩

def mapname : List (Bytes × Bytes) :=
  [(ascii (txt "mapname"), ascii (txt "q3dm17")), (ascii (txt "g_needpass"), [])]

theorem writable_fahrer : Writable mapname [fahrer] where
  distinct := by with_unfolding_all decide
  clean := by with_unfolding_all decide
  names := by
    rw [List.forall_mem_singleton]
    exact ⟨by with_unfolding_all decide, by with_unfolding_all decide, validString_iff.mpr ⟨_, rfl⟩⟩

theorem reply_decoded_fahrer :
    getStatus (reply mapname [fahrer]) = some ⟨fun k => mapname.lookup k, [fahrer]⟩ ∧
      parseStatusResponse (reply mapname [fahrer]) = some ⟨fun k => mapname.lookup k, [fahrer]⟩ :=
  reply_decoded writable_fahrer

end Net
end QuakeKube
