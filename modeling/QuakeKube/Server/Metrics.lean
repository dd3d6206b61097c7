/-
# The player metrics

`monitorMetrics` polls the server's status and sets a gauge for every player of the
reply. It sets, and never deletes: a series stays when its player has left. So the
metrics describe the reply after every successful poll if and only if nobody leaves,
and every label can be one (`metrics_describe_iff`).

Key definitions: `Metrics`, `Poll`, `poll`, `Describes`, `Stay`.
Key theorems: `poll_eq`, `describes_iff`, `metrics_describe_iff`.
-/
import QuakeKube.Lib.Float
import QuakeKube.Lib.Run
import QuakeKube.Net.Reply

namespace QuakeKube
namespace Server

open Go Go.Bytes Net Run

/-! ### The gauges -/

/-- The values of `quake_active_players`, of `quake_player_scores` by player and
map, and of `quake_player_pings` by player. -/
structure Metrics where
  activePlayers : ℚ
  scores : Bytes × Bytes → Option ℚ
  pings : Bytes → Option ℚ

namespace Metrics

def start : Metrics := ⟨0, fun _ => none, fun _ => none⟩

variable (accepts : Bytes → Bool)

/-- `scores.WithLabelValues(player, mapname).Set(value)`, which panics where a label
value is not accepted. -/
def setScore (player mapname : Bytes) (value : ℚ) (m : Metrics) : Option Metrics :=
  if accepts player && accepts mapname then
    some { m with scores := Function.update m.scores (player, mapname) (some value) }
  else none

/-- `pings.WithLabelValues(player).Set(value)`. -/
def setPing (player : Bytes) (value : ℚ) (m : Metrics) : Option Metrics :=
  if accepts player then some { m with pings := Function.update m.pings player (some value) } else none

/-- One player of a reply. -/
def setPlayer (configuration : Bytes → Option Bytes) (m : Metrics) (p : Player) : Option Metrics := do
  let m ← match configuration (ascii (txt "mapname")) with
    | none => some m
    | some mapname => m.setScore accepts p.name mapname (float64 p.score.toInt)
  m.setPing accepts p.name (float64 p.ping.toInt)

end Metrics

/-- What `GetStatus` returns to `monitorMetrics`. -/
inductive Poll
  | failed
  | status (reply : StatusResponse)

/-- One tick of `monitorMetrics`; none where it panics. -/
def poll (accepts : Bytes → Bool) (m : Metrics) : Poll → Option Metrics
  | .failed => some m
  | .status reply =>
    reply.players.foldlM (Metrics.setPlayer accepts reply.configuration)
      { m with activePlayers := float64 reply.players.length }

/-! ### What a reply sets -/

def mapname (reply : StatusResponse) : Option Bytes := reply.configuration (ascii (txt "mapname"))

def names (reply : StatusResponse) : List Bytes := reply.players.map (·.name)

def pingSeries (reply : StatusResponse) : List (Bytes × ℚ) :=
  reply.players.map fun p => (p.name, float64 p.ping.toInt)

def scoreSeries (reply : StatusResponse) : List (Bytes × ℚ) :=
  reply.players.map fun p => (p.name, float64 p.score.toInt)

/-- Every label value of the reply is accepted. -/
def Labelled (accepts : Bytes → Bool) (reply : StatusResponse) : Prop :=
  ∀ p ∈ reply.players, accepts p.name = true ∧ ∀ map ∈ mapname reply, accepts map = true

section Poll

variable {accepts : Bytes → Bool} {reply : StatusResponse} {m : Metrics}

/-- The gauges of a player are set, where the labels are accepted. -/
theorem setPlayer_eq {p : Player} (hname : accepts p.name = true)
    (hmap : ∀ map ∈ mapname reply, accepts map = true) :
    m.setPlayer accepts reply.configuration p = some { m with
      scores := (mapname reply).elim m.scores fun map =>
        Function.update m.scores (p.name, map) (some (float64 p.score.toInt))
      pings := Function.update m.pings p.name (some (float64 p.ping.toInt)) } := by
  cases hm : mapname reply with
  | none =>
    have hconf : reply.configuration (ascii (txt "mapname")) = none := hm
    simp only [Metrics.setPlayer, hconf]
    exact if_pos hname
  | some map =>
    have hconf : reply.configuration (ascii (txt "mapname")) = some map := hm
    have hlabels : (accepts p.name && accepts map) = true := by rw [hname, hmap map hm, Bool.and_self]
    simp only [Metrics.setPlayer, hconf, Metrics.setScore, if_pos hlabels]
    exact if_pos hname

/-- A label that is not accepted is a panic. -/
theorem setPlayer_eq_none {p : Player}
    (h : ¬ (accepts p.name = true ∧ ∀ map ∈ mapname reply, accepts map = true)) :
    m.setPlayer accepts reply.configuration p = none := by
  cases hm : mapname reply with
  | none =>
    have hconf : reply.configuration (ascii (txt "mapname")) = none := hm
    have hname : ¬ accepts p.name = true := fun hname => h ⟨hname, by simp [hm]⟩
    simp only [Metrics.setPlayer, hconf]
    exact if_neg hname
  | some map =>
    have hconf : reply.configuration (ascii (txt "mapname")) = some map := hm
    have hlabels : ¬ (accepts p.name && accepts map) = true := by
      intro hand
      obtain ⟨hname, hmap⟩ := Bool.and_eq_true_iff.mp hand
      exact h ⟨hname, by simpa [hm] using hmap⟩
    simp only [Metrics.setPlayer, hconf, Metrics.setScore, if_neg hlabels]
    rfl

variable (reply m) in
/-- The metrics after a tick that does not panic. -/
def Metrics.after : Metrics where
  activePlayers := float64 reply.players.length
  scores := (mapname reply).elim m.scores fun map =>
    ((scoreSeries reply).map fun s => ((s.1, map), s.2)).foldl
      (fun scores s => Function.update scores s.1 (some s.2)) m.scores
  pings := (pingSeries reply).foldl (fun pings s => Function.update pings s.1 (some s.2)) m.pings

theorem foldlM_setPlayer {ps : List Player}
    (h : ∀ p ∈ ps, accepts p.name = true ∧ ∀ map ∈ mapname reply, accepts map = true) :
    ps.foldlM (Metrics.setPlayer accepts reply.configuration) m = some { m with
      scores := (mapname reply).elim m.scores fun map =>
        ps.foldl (fun scores p => Function.update scores (p.name, map) (some (float64 p.score.toInt))) m.scores
      pings :=
        ps.foldl (fun pings p => Function.update pings p.name (some (float64 p.ping.toInt))) m.pings } := by
  induction ps generalizing m with
  | nil => cases hm : mapname reply <;> rfl
  | cons p ps ih =>
    obtain ⟨⟨hname, hmap⟩, hps⟩ := List.forall_mem_cons.mp h
    rw [List.foldlM_cons, setPlayer_eq hname hmap]
    refine (ih hps).trans ?_
    cases hm : mapname reply <;> rfl

theorem foldlM_setPlayer_eq_none {ps : List Player}
    (h : ¬ ∀ p ∈ ps, accepts p.name = true ∧ ∀ map ∈ mapname reply, accepts map = true) :
    ps.foldlM (Metrics.setPlayer accepts reply.configuration) m = none := by
  induction ps generalizing m with
  | nil => exact absurd (by simp) h
  | cons p ps ih =>
    rw [List.foldlM_cons]
    by_cases hp : accepts p.name = true ∧ ∀ map ∈ mapname reply, accepts map = true
    · rw [setPlayer_eq hp.1 hp.2]
      exact ih fun hps => h (List.forall_mem_cons.mpr ⟨hp, hps⟩)
    · rw [setPlayer_eq_none hp]
      rfl

/-- **One tick**: every series of the reply is set, or a label is not accepted. -/
theorem poll_eq (h : Labelled accepts reply) : poll accepts m (.status reply) = some (m.after reply) := by
  rw [poll, foldlM_setPlayer h, Metrics.after, pingSeries, scoreSeries, List.foldl_map]
  cases mapname reply with
  | none => rfl
  | some map =>
    rw [Option.elim_some, Option.elim_some, List.map_map, List.foldl_map]
    rfl

theorem poll_eq_none (h : ¬ Labelled accepts reply) : poll accepts m (.status reply) = none :=
  foldlM_setPlayer_eq_none h

/-! ### What is left -/

/-- The metrics of a reply: its players and no others. -/
structure Describes (reply : StatusResponse) (m : Metrics) : Prop where
  activePlayers : m.activePlayers = float64 reply.players.length
  pings : ∀ name, m.pings name = (pingSeries reply).lookup name
  scores : ∀ map ∈ mapname reply, ∀ name, m.scores (name, map) = (scoreSeries reply).lookup name

theorem lookup_series_eq_none_iff (value : Player → ℚ) (name : Bytes) :
    (reply.players.map fun p => (p.name, value p)).lookup name = none ↔ name ∉ names reply := by
  rw [List.lookup_eq_none_iff]
  constructor
  · intro h hmem
    obtain ⟨p, hp, rfl⟩ := List.mem_map.mp hmem
    exact bne_iff_ne.mp (h _ (List.mem_map_of_mem hp)) rfl
  · intro h s hs
    obtain ⟨p, hp, rfl⟩ := List.mem_map.mp hs
    exact bne_iff_ne.mpr fun he => h (he ▸ List.mem_map_of_mem hp)

theorem or_eq_left_iff {α : Type} {x y : Option α} : x.or y = x ↔ (x = none → y = none) := by
  cases x <;> simp

theorem pings_after (hd : (names reply).Nodup) (name : Bytes) :
    (m.after reply).pings name = ((pingSeries reply).lookup name).or (m.pings name) := by
  have hkeys : ((pingSeries reply).map (·.1)).Nodup := by
    rw [pingSeries, List.map_map]
    exact hd
  exact foldl_update_eq hkeys m.pings name

theorem lookup_with (ss : List (Bytes × ℚ)) (map map' name : Bytes) :
    (ss.map fun s => ((s.1, map), s.2)).lookup (name, map') = if map' = map then ss.lookup name else none := by
  induction ss with
  | nil => simp
  | cons s ss ih =>
    rw [List.map_cons, List.lookup_cons, List.lookup_cons, ih]
    by_cases hmap : map' = map
    · have hkey : ((name, map') == (s.1, map)) = (name == s.1) := by simp [hmap]
      rw [hkey, if_pos hmap, if_pos hmap]
    · have hkey : ((name, map') == (s.1, map)) = false := by simp [hmap]
      rw [hkey, if_neg hmap, if_neg hmap]

/-- The scores of the map of the reply are set, those of the others stay. -/
theorem scores_after (hd : (names reply).Nodup) {map : Bytes} (hm : mapname reply = some map)
    (name map' : Bytes) :
    (m.after reply).scores (name, map') =
      (if map' = map then (scoreSeries reply).lookup name else none).or (m.scores (name, map')) := by
  have hkeys : (((scoreSeries reply).map fun s => ((s.1, map), s.2)).map (·.1)).Nodup := by
    have hpairs := hd.map (f := fun name => (name, map)) fun _ _ h => congrArg Prod.fst h
    rw [scoreSeries, List.map_map, List.map_map]
    rw [names, List.map_map] at hpairs
    exact hpairs
  simp only [Metrics.after, hm, Option.elim_some]
  rw [foldl_update_eq hkeys, lookup_with]

/-- **A tick describes its reply** if and only if every series there was belongs to a
player of the reply. -/
theorem describes_after_iff (hd : (names reply).Nodup) : Describes reply (m.after reply) ↔
    (∀ name, m.pings name ≠ none → name ∈ names reply) ∧
      ∀ map ∈ mapname reply, ∀ name, m.scores (name, map) ≠ none → name ∈ names reply := by
  have hpings : (∀ name, (m.after reply).pings name = (pingSeries reply).lookup name) ↔
      ∀ name, m.pings name ≠ none → name ∈ names reply := by
    refine forall_congr' fun name => ?_
    rw [pings_after hd, or_eq_left_iff, pingSeries, lookup_series_eq_none_iff]
    exact not_imp_comm
  have hscores : (∀ map ∈ mapname reply, ∀ name,
      (m.after reply).scores (name, map) = (scoreSeries reply).lookup name) ↔
        ∀ map ∈ mapname reply, ∀ name, m.scores (name, map) ≠ none → name ∈ names reply := by
    refine forall_congr' fun map => forall_congr' fun hm => forall_congr' fun name => ?_
    rw [scores_after hd hm, if_pos rfl, or_eq_left_iff, scoreSeries, lookup_series_eq_none_iff]
    exact not_imp_comm
  constructor
  · intro h
    exact ⟨hpings.mp h.pings, hscores.mp h.scores⟩
  · intro h
    exact ⟨rfl, hpings.mpr h.1, hscores.mpr h.2⟩

/-- The players there are series of: those `seen`. -/
structure Seen (seen : Bytes → Prop) (m : Metrics) : Prop where
  pings : ∀ name, m.pings name ≠ none ↔ seen name
  scores : ∀ name map, m.scores (name, map) ≠ none → seen name

theorem seen_start : Seen (fun _ => False) .start where
  pings _ := iff_of_false (fun h => h rfl) id
  scores _ _ h := h rfl

variable {seen : Bytes → Prop}

theorem Seen.after (h : Seen seen m) (hd : (names reply).Nodup) :
    Seen (fun name => seen name ∨ name ∈ names reply) (m.after reply) where
  pings name := by
    rw [pings_after hd, ← h.pings, ne_eq, Option.or_eq_none_iff, pingSeries, lookup_series_eq_none_iff,
      not_and_or, not_not, or_comm]
  scores name map := by
    cases hm : mapname reply with
    | none =>
      intro hne
      simp only [Metrics.after, hm, Option.elim_none] at hne
      exact .inl (h.scores name map hne)
    | some map' =>
      rw [scores_after hd hm, ne_eq, Option.or_eq_none_iff, not_and_or]
      rintro (hne | hne)
      · by_cases hmap : map = map'
        · rw [if_pos hmap, scoreSeries, lookup_series_eq_none_iff, not_not] at hne
          exact .inr hne
        · exact absurd (if_neg hmap) hne
      · exact .inl (h.scores name map hne)

/-! ### Every poll -/

/-- The tick of a successful poll comes to its end and describes the reply. -/
def Described (accepts : Bytes → Bool) (m : Metrics) : Poll → Prop
  | .failed => True
  | .status reply => ∃ m', poll accepts m (.status reply) = some m' ∧ Describes reply m'

/-- The replies of the polls that are successful. -/
def replies (polls : List Poll) : List StatusResponse :=
  polls.filterMap fun
    | .failed => none
    | .status reply => some reply

/-- Who was there in a reply is there in a later one. -/
def Stay (earlier later : StatusResponse) : Prop := ∀ name ∈ names earlier, name ∈ names later

/-- A successful poll from where the players `seen` have series. -/
theorem described_iff (h : Seen seen m) (hd : (names reply).Nodup) :
    Described accepts m (.status reply) ↔
      Labelled accepts reply ∧ ∀ name, seen name → name ∈ names reply := by
  by_cases hl : Labelled accepts reply
  · have hiff : Described accepts m (.status reply) ↔ Describes reply (m.after reply) := by
      simp only [Described, poll_eq hl, Option.some.injEq, exists_eq_left']
    rw [hiff, describes_after_iff hd, and_iff_right hl]
    constructor
    · intro hdesc name hname
      exact hdesc.1 name ((h.pings name).mpr hname)
    · intro hstay
      exact ⟨fun name hne => hstay name ((h.pings name).mp hne),
        fun map _ name hne => hstay name (h.scores name map hne)⟩
  · simp only [Described, poll_eq_none hl, hl, false_and, reduceCtorEq, exists_false]

theorem along_described_iff (h : Seen seen m) {polls : List Poll}
    (hd : ∀ reply ∈ replies polls, (names reply).Nodup) :
    Along (poll accepts) (Described accepts) m polls ↔
      (∀ reply ∈ replies polls, ∀ name, seen name → name ∈ names reply) ∧
        (replies polls).Pairwise Stay ∧ ∀ reply ∈ replies polls, Labelled accepts reply := by
  induction polls generalizing seen m with
  | nil => simp [Along, replies]
  | cons p polls ih =>
    cases p with
    | failed =>
      have hfailed : Along (poll accepts) (Described accepts) m (.failed :: polls) ↔
          Along (poll accepts) (Described accepts) m polls := by
        simp [Along, Described, poll]
      rw [hfailed]
      exact ih h hd
    | status reply =>
      have hreplies : replies (.status reply :: polls) = reply :: replies polls := rfl
      rw [hreplies] at hd ⊢
      obtain ⟨hd, hds⟩ := List.forall_mem_cons.mp hd
      rw [Along, described_iff h hd, List.pairwise_cons, List.forall_mem_cons, List.forall_mem_cons]
      by_cases hl : Labelled accepts reply
      · have hnext : (∀ m' ∈ poll accepts m (.status reply),
          Along (poll accepts) (Described accepts) m' polls) ↔
            Along (poll accepts) (Described accepts) (m.after reply) polls := by
          simp [poll_eq hl]
        rw [hnext, ih (h.after hd) hds]
        constructor
        · rintro ⟨⟨-, hstay⟩, hseen, hpair, hls⟩
          exact ⟨⟨hstay, fun r hr name hname => hseen r hr name (.inl hname)⟩,
            ⟨fun r hr name hname => hseen r hr name (.inr hname), hpair⟩, hl, hls⟩
        · rintro ⟨⟨hstay, hseen⟩, ⟨hfirst, hpair⟩, -, hls⟩
          refine ⟨⟨hl, hstay⟩, fun r hr name hname => ?_, hpair, hls⟩
          exact hname.elim (hseen r hr name) (hfirst r hr name)
      · exact iff_of_false (fun hleft => hl hleft.1.1) (fun hright => hl hright.2.2.1)

/-- **The metrics describe the players** after every successful poll if and only if
nobody who has been in a reply is missing from a later one, and the label values of
every reply are accepted. -/
theorem metrics_describe_iff (accepts : Bytes → Bool) {polls : List Poll}
    (hd : ∀ reply ∈ replies polls, (names reply).Nodup) :
    Along (poll accepts) (Described accepts) .start polls ↔
      (replies polls).Pairwise Stay ∧ ∀ reply ∈ replies polls, Labelled accepts reply := by
  rw [along_described_iff seen_start hd]
  exact and_iff_right fun _ _ _ h => h.elim

end Poll

/-! ### A player who leaves -/

def onMap (players : List Player) : StatusResponse :=
  ⟨mapOf [(ascii (txt "mapname"), ascii (txt "q3dm7"))], players⟩

def sarge : Player := ⟨ascii (txt "Sarge"), 50, 10⟩

theorem labelled_sarge : Labelled validString (onMap [sarge]) := by
  rw [Labelled, onMap, List.forall_mem_singleton]
  refine ⟨validString_iff.mpr ⟨"Sarge".toList, by with_unfolding_all rfl⟩, fun map hm => ?_⟩
  cases hm.symm.trans (show _ = some (ascii (txt "q3dm7")) by with_unfolding_all rfl)
  exact validString_iff.mpr ⟨"q3dm7".toList, by with_unfolding_all rfl⟩

theorem metrics_describe_joined :
    Along (poll validString) (Described validString) .start
      [.status (onMap []), .failed, .status (onMap [sarge])] := by
  have hreplies :
      replies [.status (onMap []), .failed, .status (onMap [sarge])] = [onMap [], onMap [sarge]] := rfl
  refine (metrics_describe_iff validString ?_).mpr ⟨?_, ?_⟩
  · rw [hreplies]
    simp [names, onMap]
  · rw [hreplies, List.pairwise_pair]
    exact nofun
  · rw [hreplies]
    refine List.forall_mem_cons.mpr ⟨nofun, List.forall_mem_singleton.mpr labelled_sarge⟩

/-- **The series of a player who has left remain.** -/
theorem series_left : ¬ ∀ polls, (∀ reply ∈ replies polls, (names reply).Nodup) →
    Along (poll validString) (Described validString) .start polls := by
  intro h
  have hd : ∀ reply ∈ replies [.status (onMap [sarge]), .status (onMap [])], (names reply).Nodup := by
    simp [replies, names, onMap]
  obtain ⟨-, hstay, -⟩ := (along_described_iff seen_start hd).mp (h _ hd)
  have hleft : Stay (onMap [sarge]) (onMap []) := List.rel_of_pairwise_cons hstay List.mem_cons_self
  exact nomatch hleft _ List.mem_cons_self

end Server
end QuakeKube
