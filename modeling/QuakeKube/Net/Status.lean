/-
# Two parsers of one status reply

A game server answers `getstatus` with a header line, a line of keys and values
and a line for each player. The reply is parsed in two places: by `GetStatus` of
`internal/quake/net`, for the server's own metrics, and by `parseStatusResponse`
of the operator. They differ in what they do with a player line that is not well
formed: the first gives up all players, the second skips the line, or keeps a
name that does not unquote.

They agree if and only if all player lines are well formed, or none has a score
and a ping (`agree_iff`).

Key definitions: `getStatus`, `parseStatusResponse`, `WellFormed`, `Agreeable`.
Key theorem: `agree_iff`.
-/
import QuakeKube.Lib.Unquote

namespace QuakeKube
namespace Net

open Go Go.Bytes

/-! ### What both parse -/

structure Player where
  name : Bytes
  ping : Int64
  score : Int64
deriving DecidableEq

structure StatusResponse where
  configuration : Bytes → Option Bytes
  players : List Player

/-- `OutOfBandHeader` and the word a server answers `getstatus` with. -/
def statusHeader : Bytes := [0xff, 0xff, 0xff, 0xff] ++ ascii (txt "statusResponse")

def newline : UInt8 := 0x0a
def backslash : UInt8 := 0x5c
def space : UInt8 := 0x20
def doubleQuote : UInt8 := 0x22

/-- The elements two by two. -/
def pairs : List Bytes → List (Bytes × Bytes)
  | k :: v :: parts => (k, v) :: pairs parts
  | _ => []

/-- A map that is given these values one after the other. -/
def mapOf (kvs : List (Bytes × Bytes)) : Bytes → Option Bytes :=
  kvs.foldl (fun m kv => Function.update m kv.1 (some kv.2)) fun _ => none

/-- `parseMap`. -/
def parseMap (data : Bytes) : Bytes → Option Bytes :=
  let data := match cut newline data with
    | none => data
    | some (_, after) => after
  mapOf (pairs ((trimSuffix newline (trimPrefix backslash data)).splitOn backslash))

/-- `parseConfigMap`, the operator's copy of `parseMap`. -/
def parseConfigMap (data : Bytes) : Bytes → Option Bytes :=
  let data := match cut newline data with
    | none => data
    | some (_, after) => after
  mapOf (pairs ((trimSuffix newline (trimPrefix backslash data)).splitOn backslash))

/-- The fields of a player line: score, ping and name; none when there are not three. -/
def fields (line : Bytes) : Option (Bytes × Bytes × Bytes) :=
  match splitN space 3 line with
  | [score, ping, name] => some (score, ping, name)
  | _ => none

/-! ### `internal/quake/net` -/

/-- The player of a line with three fields; none is an error. -/
def strictPlayer : Bytes × Bytes × Bytes → Option Player
  | (score, ping, name) => do
    let name ← unquote name
    let ping ← atoi ping
    let score ← atoi score
    return ⟨name, ping, score⟩

/-- `parsePlayers`: the lines with three fields; one error is the error of all. -/
def parsePlayers (data : Bytes) : Option (List Player) :=
  ((data.splitOn newline).filterMap fields).mapM strictPlayer

/-- What `GetStatus` makes of a reply. -/
def getStatus (resp : Bytes) : Option StatusResponse :=
  match splitN newline 3 (trimSuffix newline resp) with
  | [_, configuration] => some ⟨parseMap configuration, []⟩
  -- the error is dropped, and the players with it
  | [_, configuration, players] => some ⟨parseMap configuration, (parsePlayers players).getD []⟩
  | _ => none

/-! ### The operator -/

/-- The player of a line with three fields; none is a line that is skipped. -/
def lenientPlayer : Bytes × Bytes × Bytes → Option Player
  | (score, ping, name) => do
    let score ← atoi score
    let ping ← atoi ping
    -- a name that does not unquote is kept without the quotes around it
    return ⟨(unquote name).getD (trim doubleQuote name), ping, score⟩

/-- One line of the operator's `parsePlayers`. -/
def parsePlayer (line : Bytes) : Option Player :=
  if line = [] then none else (fields line).bind lenientPlayer

def parseStatusResponse (resp : Bytes) : Option StatusResponse :=
  match splitN newline 3 (trimSuffix newline resp) with
  | [_, configuration] => some ⟨parseConfigMap configuration, []⟩
  | [_, configuration, players] =>
    some ⟨parseConfigMap configuration, (players.splitOn newline).filterMap parsePlayer⟩
  | _ => none

/-! ### When they agree -/

/-- The player lines of a reply: those with three fields. -/
def playerLines (resp : Bytes) : List (Bytes × Bytes × Bytes) :=
  match splitN newline 3 (trimSuffix newline resp) with
  | [_, _, players] => (players.splitOn newline).filterMap fields
  | _ => []

/-- The score and the ping of a line are integers. -/
def HasNumbers (line : Bytes × Bytes × Bytes) : Prop := atoi line.1 ≠ none ∧ atoi line.2.1 ≠ none

/-- And the name unquotes. -/
def WellFormed (line : Bytes × Bytes × Bytes) : Prop := HasNumbers line ∧ unquote line.2.2 ≠ none

/-- All player lines are well formed, or none has a score and a ping. -/
def Agreeable (resp : Bytes) : Prop :=
  (∀ line ∈ playerLines resp, WellFormed line) ∨ ∀ line ∈ playerLines resp, ¬ HasNumbers line

variable {line : Bytes × Bytes × Bytes} {lines : List (Bytes × Bytes × Bytes)}

theorem strictPlayer_eq_none_iff : strictPlayer line = none ↔ ¬ WellFormed line := by
  obtain ⟨score, ping, name⟩ := line
  cases hs : atoi score <;> cases hp : atoi ping <;> cases hn : unquote name <;>
    simp [strictPlayer, WellFormed, HasNumbers, hs, hp, hn]

theorem lenientPlayer_eq_none_iff : lenientPlayer line = none ↔ ¬ HasNumbers line := by
  obtain ⟨score, ping, name⟩ := line
  cases hs : atoi score <;> cases hp : atoi ping <;> simp [lenientPlayer, HasNumbers, hs, hp]

/-- A well-formed line is the same player for both. -/
theorem lenientPlayer_eq (h : WellFormed line) : lenientPlayer line = strictPlayer line := by
  obtain ⟨score, ping, name⟩ := line
  obtain ⟨⟨hs, hp⟩, hn⟩ := h
  obtain ⟨_, hs⟩ := Option.ne_none_iff_exists'.mp hs
  obtain ⟨_, hp⟩ := Option.ne_none_iff_exists'.mp hp
  obtain ⟨_, hn⟩ := Option.ne_none_iff_exists'.mp hn
  simp [strictPlayer, lenientPlayer, hs, hp, hn]

/-- Nothing is lost of well-formed lines. -/
theorem mapM_strictPlayer (h : ∀ l ∈ lines, WellFormed l) :
    lines.mapM strictPlayer = some (lines.filterMap lenientPlayer) := by
  induction lines with
  | nil => rfl
  | cons l lines ih =>
    obtain ⟨hl, hls⟩ := List.forall_mem_cons.mp h
    obtain ⟨p, hp⟩ := Option.ne_none_iff_exists'.mp fun hn => strictPlayer_eq_none_iff.mp hn hl
    rw [List.mapM_cons, hp, ih hls, List.filterMap_cons, lenientPlayer_eq hl, hp]
    rfl

/-- One line that is not well formed loses all. -/
theorem mapM_strictPlayer_eq_none (h : ¬ ∀ l ∈ lines, WellFormed l) : lines.mapM strictPlayer = none := by
  induction lines with
  | nil => exact absurd (by simp) h
  | cons l lines ih =>
    rw [List.mapM_cons]
    by_cases hl : WellFormed l
    · rw [ih fun hls => h (List.forall_mem_cons.mpr ⟨hl, hls⟩)]
      cases strictPlayer l <;> rfl
    · rw [strictPlayer_eq_none_iff.mpr hl]
      rfl

/-- When both have the same players. -/
theorem players_eq_iff : (lines.mapM strictPlayer).getD [] = lines.filterMap lenientPlayer ↔
    (∀ l ∈ lines, WellFormed l) ∨ ∀ l ∈ lines, ¬ HasNumbers l := by
  have skipped : lines.filterMap lenientPlayer = [] ↔ ∀ l ∈ lines, ¬ HasNumbers l := by
    simp [List.filterMap_eq_nil_iff, lenientPlayer_eq_none_iff]
  by_cases h : ∀ l ∈ lines, WellFormed l
  · rw [mapM_strictPlayer h]
    exact iff_of_true rfl (.inl h)
  · rw [mapM_strictPlayer_eq_none h, Option.getD_none, eq_comm, skipped]
    exact ⟨.inr, fun hor => hor.resolve_left h⟩

theorem filterMap_parsePlayer (ls : List Bytes) :
    ls.filterMap parsePlayer = (ls.filterMap fields).filterMap lenientPlayer := by
  rw [List.filterMap_filterMap]
  refine List.filterMap_congr fun l _ => ?_
  by_cases hl : l = []
  · rw [hl]
    rfl
  · rw [parsePlayer, if_neg hl]

/-- **The two parsers agree on a reply** if and only if its player lines are all
well formed, or have no score and ping all of them. -/
theorem agree_iff (resp : Bytes) : getStatus resp = parseStatusResponse resp ↔ Agreeable resp := by
  unfold getStatus parseStatusResponse Agreeable playerLines
  match splitN newline 3 (trimSuffix newline resp) with
  | [] => simp
  | [_] => simp
  | [_, configuration] => simp [parseMap, parseConfigMap]
  | [_, configuration, players] =>
    simp only [Option.some.injEq, StatusResponse.mk.injEq, filterMap_parsePlayer]
    exact (and_iff_right rfl).trans players_eq_iff
  | _ :: _ :: _ :: _ :: _ => simp

/-- A player whose name has no quotes. -/
def unquotedReply : Bytes := statusHeader ++ ascii (txt "\n\\mapname\\q3dm1\n7 50 Sarge\n")

theorem not_agree : ¬ getStatus unquotedReply = parseStatusResponse unquotedReply := by
  intro h
  have players := congrArg (fun s => s.map fun s => s.players.length) h
  revert players
  with_unfolding_all decide

end Net
end QuakeKube
