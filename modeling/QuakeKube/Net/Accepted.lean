/-
# Which replies are taken for a status

`parseStatusResponse` of the operator refuses a reply by the number of its lines
and by nothing else: it is accepted if and only if it has a newline before its last
byte (`accepted_iff`). So what it accepts is a status reply just where that is so
of the reply, and `GetPlayerCount` counts the players of any other
(`status_replies_iff`).

Key definitions: `StatusReply`, `Client.getStatus`, `Client.getPlayerCount`.
Key theorems: `accepted_iff`, `getPlayerCount_ok_iff`, `status_replies_iff`.
-/
import QuakeKube.Net.Query
import QuakeKube.Net.Reply

namespace QuakeKube
namespace Net

open Go Go.Bytes

/-! ### The client -/

namespace Client

/-- The error of a reply that is not accepted. -/
def unexpectedFormat (resp : Bytes) : Text :=
  txt "unexpected response format: got " ++
    natText (splitN newline 3 (trimSuffix newline resp)).length ++ txt " parts"

variable (c : Client) (sys : Sockets) (addr : Text) (arrived : List Datagram)

def getStatus : Except Text StatusResponse := do
  let resp ← c.sendCommand sys addr getStatusCommand arrived
  match parseStatusResponse resp with
  | none => .error (unexpectedFormat resp)
  | some status => .ok status

def getPlayerCount : Except Text ℕ := do
  let status ← c.getStatus sys addr arrived
  return status.players.length

end Client

/-! ### What is accepted -/

/-- A reply to `getstatus`: the header, and a second line that is empty or a
sequence of keys and values. -/
def StatusReply (resp : Bytes) : Prop :=
  ∃ kvs rest, (∀ kv ∈ kvs, Clean kv.1 ∧ Clean kv.2) ∧ (rest = [] ∨ rest.head? = some newline) ∧
    resp = statusHeader ++ newline :: (configLine kvs ++ rest)

/-- **A reply is accepted** if and only if it has a newline before its last byte. -/
theorem accepted_iff {resp : Bytes} : parseStatusResponse resp ≠ none ↔ newline ∈ resp.dropLast := by
  rw [← mem_trimSuffix_iff]
  unfold parseStatusResponse
  by_cases h : newline ∈ trimSuffix newline resp
  · refine iff_of_true ?_ h
    obtain ⟨first, rest, hsplit, hfirst⟩ := List.eq_append_cons_of_mem h
    rw [hsplit, splitN_append hfirst]
    by_cases hrest : newline ∈ rest
    · obtain ⟨config, players, rfl, hconfig⟩ := List.eq_append_cons_of_mem hrest
      rw [splitN_append hconfig, splitN_one]
      exact nofun
    · rw [splitN_of_not_mem hrest]
      exact nofun
  · rw [splitN_of_not_mem h]
    exact iff_of_false (fun hne => hne rfl) h

section Count

variable {c : Client} {sys : Sockets} {addr : Text} {arrived : List Datagram}

/-- A count is that of an accepted reply. -/
theorem getPlayerCount_ok_iff {n : ℕ} : c.getPlayerCount sys addr arrived = .ok n ↔
    ∃ resp status, c.sendCommand sys addr getStatusCommand arrived = .ok resp ∧
      parseStatusResponse resp = some status ∧ status.players.length = n := by
  unfold Client.getPlayerCount Client.getStatus
  cases c.sendCommand sys addr getStatusCommand arrived with
  | error err => exact iff_of_false nofun nofun
  | ok resp =>
    show (do let status ← (match parseStatusResponse resp with
      | none => Except.error (Client.unexpectedFormat resp)
      | some status => .ok status); return status.players.length) = Except.ok n ↔ _
    cases hs : parseStatusResponse resp with
    | none =>
      refine iff_of_false nofun ?_
      rintro ⟨resp', status, hresp, hstatus, -⟩
      cases hresp
      exact nomatch hs.symm.trans hstatus
    | some status =>
      constructor
      · intro h
        exact ⟨resp, status, rfl, hs, Except.ok.inj h⟩
      · rintro ⟨resp', status', hresp, hstatus, rfl⟩
        cases hresp
        cases hs.symm.trans hstatus
        rfl

/-- What is accepted is a status reply just of replies without a newline before
their last byte, and of status replies. -/
theorem statusReply_of_accepted_iff {resp : Bytes} :
    (parseStatusResponse resp ≠ none → StatusReply resp) ↔ newline ∉ resp.dropLast ∨ StatusReply resp := by
  rw [accepted_iff, imp_iff_not_or]

/-- **Which replies are taken for a status.** The parser accepts a status reply or
nothing, and the player count is that of a status reply, exactly where the reply
has no newline before its last byte or is one. -/
theorem status_replies_iff (resp : Bytes) (c : Client) (sys : Sockets) (addr : Text) (arrived : List Datagram) :
    ((parseStatusResponse resp ≠ none → StatusReply resp) ↔ newline ∉ resp.dropLast ∨ StatusReply resp) ∧
    ((∀ n, c.getPlayerCount sys addr arrived = .ok n →
        ∃ resp, c.sendCommand sys addr getStatusCommand arrived = .ok resp ∧ StatusReply resp) ↔
      ∀ resp, c.sendCommand sys addr getStatusCommand arrived = .ok resp →
        newline ∉ resp.dropLast ∨ StatusReply resp) := by
  refine ⟨statusReply_of_accepted_iff, ?_⟩
  constructor
  · intro h resp hresp
    rw [← statusReply_of_accepted_iff]
    intro haccepted
    obtain ⟨status, hstatus⟩ := Option.ne_none_iff_exists'.mp haccepted
    obtain ⟨resp', hresp', hreply⟩ := h _ (getPlayerCount_ok_iff.mpr ⟨resp, status, hresp, hstatus, rfl⟩)
    cases hresp.symm.trans hresp'
    exact hreply
  · intro h n hn
    obtain ⟨resp, status, hresp, hstatus, -⟩ := getPlayerCount_ok_iff.mp hn
    refine ⟨resp, hresp, ?_⟩
    apply statusReply_of_accepted_iff.mpr (h resp hresp)
    rw [hstatus]
    exact nofun

end Count

/-! ### A message to a player -/

/-- What a server sends to be printed. -/
def printReply : Bytes := outOfBandHeader ++ ascii (txt "print\nServer is full.\n")

theorem not_statusReply_printReply : ¬ StatusReply printReply := by
  rintro ⟨kvs, rest, -, -, h⟩
  have hheader : printReply.take statusHeader.length = statusHeader := by
    rw [h, List.take_left]
  revert hheader
  with_unfolding_all decide

/-- **It is accepted as a status**, of a server without players. -/
theorem print_accepted : ¬ ((∀ resp, parseStatusResponse resp ≠ none → StatusReply resp) ∧
    ∀ (c : Client) (sys : Sockets) (addr : Text) (arrived : List Datagram) (n : ℕ),
      c.getPlayerCount sys addr arrived = .ok n →
        ∃ resp, c.sendCommand sys addr getStatusCommand arrived = .ok resp ∧ StatusReply resp) := by
  rintro ⟨h, -⟩
  exact not_statusReply_printReply (h _ (accepted_iff.mpr (by with_unfolding_all decide)))

end Net
end QuakeKube
