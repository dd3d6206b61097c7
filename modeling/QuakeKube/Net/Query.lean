/-
# Queries over UDP

`SendCommand` of `internal/quake/net` and `sendCommand` of the operator's client
send one packet from a socket that anyone can send to, and return the first
datagram that comes, whoever has sent it. The result is determined by the
datagrams of the server that was asked if and only if no stranger comes first with
other bytes (`sendCommand_listens`).

Key definitions: `query`, `sendCommand`, `Client.sendCommand`, `own`, `Undisturbed`.
Key theorems: `determined_iff`, `query_own_iff`, `sendCommand_listens`.
-/
import QuakeKube.Lib.Duration
import QuakeKube.Net.Status

namespace QuakeKube
namespace Net

open Go Go.Bytes

/-! ### The query -/

/-- `net.UDPAddr` of a udp4 address. -/
structure UDPAddr where
  ip : UInt32
  port : UInt16
deriving DecidableEq

/-- A datagram that arrives at the socket. -/
structure Datagram where
  source : UDPAddr
  data : Bytes
deriving DecidableEq

/-- What of a query can fail. -/
inductive Part
  | resolve | listen | deadline | write | read
deriving DecidableEq

/-- The calls of package net, with the texts of their errors. -/
structure Sockets where
  resolveUDPAddr : Text → Except Text UDPAddr
  listenPacket : Except Text Unit
  setDeadline : Duration → Except Text Unit
  writeTo : Bytes → UDPAddr → Except Text Unit
  /-- The error of a read to which nothing has come by the deadline. -/
  timeoutError : Text

def outOfBandHeader : Bytes := [0xff, 0xff, 0xff, 0xff]
def getStatusCommand : Bytes := ascii (txt "getstatus")

def second : Duration := 1000000000

section Query

variable (size : ℕ) (timeout : Duration) (wrap : Part → Text → Text) (sys : Sockets) (addr : Text) (cmd : Bytes)

/-- The socket is opened and the command sent. -/
def send : Except Text Unit := do
  let raddr ← (sys.resolveUDPAddr addr).mapError (wrap .resolve)
  sys.listenPacket.mapError (wrap .listen)
  (sys.setDeadline timeout).mapError (wrap .deadline)
  (sys.writeTo (outOfBandHeader ++ cmd) raddr).mapError (wrap .write)

/-- `conn.ReadFrom`: the first datagram that arrives before the deadline, as much
of it as the buffer holds. -/
def readFrom (arrived : List Datagram) : Except Text Bytes :=
  match arrived with
  | [] => .error (wrap .read sys.timeoutError)
  -- the source is dropped
  | d :: _ => .ok (d.data.take size)

/-- A query with a buffer of `size` bytes. -/
def query (arrived : List Datagram) : Except Text Bytes := do
  send timeout wrap sys addr cmd
  readFrom size wrap sys arrived

end Query

/-- `SendCommand` of `internal/quake/net`. -/
def sendCommand (sys : Sockets) (addr : Text) (cmd : Bytes) : List Datagram → Except Text Bytes :=
  query (1024 * 1024) (5 * second) (fun _ err => err) sys addr cmd

/-- The operator's client. -/
structure Client where
  timeout : Duration
deriving DecidableEq

namespace Client

def defaultTimeout : Duration := 3 * second

def newClient : Client := ⟨defaultTimeout⟩

/-- What the client puts before the error of a part. -/
def errorContext (addr : Text) : Part → Text
  | .resolve => txt "resolving address " ++ addr ++ txt ": "
  | .listen => txt "creating UDP socket: "
  | .deadline => txt "setting deadline: "
  | .write => txt "sending command: "
  | .read => txt "reading response: "

/-- Without a timeout of its own the client takes the default. -/
def queryTimeout (c : Client) : Duration := if c.timeout = 0 then defaultTimeout else c.timeout

def sendCommand (c : Client) (sys : Sockets) (addr : Text) (cmd : Bytes) : List Datagram → Except Text Bytes :=
  query (64 * 1024) c.queryTimeout (fun part err => errorContext addr part ++ err) sys addr cmd

end Client

/-! ### What a result is determined by -/

/-- Determined by a view of the input, on inputs that go with their view: to be the
same as on the view itself. -/
theorem determined_iff {α β : Type} {view : α → α} (hview : ∀ x, view (view x) = view x) {A : Set α}
    (hA : ∀ x ∈ A, view x ∈ A) (f : α → β) :
    (∀ x ∈ A, ∀ y ∈ A, view x = view y → f x = f y) ↔ ∀ x ∈ A, f x = f (view x) := by
  constructor
  · intro h x hx
    exact h x hx (view x) (hA x hx) (hview x).symm
  · intro h x hx y hy hxy
    calc f x = f (view x) := h x hx
      _ = f (view y) := congrArg f hxy
      _ = f y := (h y hy).symm

/-- The datagrams of the server. -/
def own (raddr : UDPAddr) (arrived : List Datagram) : List Datagram := arrived.filter (·.source = raddr)

theorem own_own (raddr : UDPAddr) (arrived : List Datagram) :
    own raddr (own raddr arrived) = own raddr arrived := by
  simp [own]

/-- The first datagram is the server's, or has the bytes of the server's first one,
as far as the buffer goes; or there is none. -/
def Undisturbed (size : ℕ) (raddr : UDPAddr) (arrived : List Datagram) : Prop :=
  ∀ d ∈ arrived.head?, d.source = raddr ∨ ∃ d' ∈ (own raddr arrived).head?, d.data.take size = d'.data.take size

/-- The socket has been opened and the command has been sent to the address. -/
structure Sent (timeout : Duration) (sys : Sockets) (raddr : UDPAddr) (cmd : Bytes) : Prop where
  listen : sys.listenPacket = .ok ()
  deadline : sys.setDeadline timeout = .ok ()
  write : sys.writeTo (outOfBandHeader ++ cmd) raddr = .ok ()

section Listens

variable {size : ℕ} {timeout : Duration} {wrap : Part → Text → Text} {sys : Sockets} {addr : Text} {cmd : Bytes}
  {raddr : UDPAddr}

theorem mapError_eq_ok {α : Type} {g : Text → Text} {x : Except Text α} {a : α} :
    x.mapError g = .ok a ↔ x = .ok a := by
  cases x <;> simp [Except.mapError]

theorem send_ok_iff (timeout : Duration) (wrap : Part → Text → Text) (cmd : Bytes)
    (hr : sys.resolveUDPAddr addr = .ok raddr) :
    send timeout wrap sys addr cmd = .ok () ↔ Sent timeout sys raddr cmd := by
  have hparts : Sent timeout sys raddr cmd ↔ sys.listenPacket = .ok () ∧ sys.setDeadline timeout = .ok () ∧
      sys.writeTo (outOfBandHeader ++ cmd) raddr = .ok () :=
    ⟨fun h => ⟨h.listen, h.deadline, h.write⟩, fun h => ⟨h.1, h.2.1, h.2.2⟩⟩
  rw [hparts, send, hr]
  show (do sys.listenPacket.mapError _; (sys.setDeadline timeout).mapError _; _) = _ ↔ _
  cases sys.listenPacket with
  | error err => exact iff_of_false nofun nofun
  | ok =>
    show (do (sys.setDeadline timeout).mapError _; _) = _ ↔ _
    cases sys.setDeadline timeout with
    | error err => exact iff_of_false nofun nofun
    | ok =>
      show (sys.writeTo _ raddr).mapError _ = _ ↔ _
      rw [mapError_eq_ok]
      exact ⟨fun h => ⟨rfl, rfl, h⟩, fun h => h.2.2⟩

theorem readFrom_own_iff (xs : List Datagram) :
    readFrom size wrap sys xs = readFrom size wrap sys (own raddr xs) ↔ Undisturbed size raddr xs := by
  unfold Undisturbed
  cases xs with
  | nil => exact iff_of_true rfl nofun
  | cons d xs =>
    rw [List.head?_cons]
    simp only [Option.mem_some_iff, forall_eq']
    by_cases hd : d.source = raddr
    · have hown : own raddr (d :: xs) = d :: own raddr xs := List.filter_cons_of_pos (by simpa using hd)
      rw [hown]
      exact iff_of_true rfl (.inl hd)
    · rw [or_iff_right hd]
      cases hown : own raddr (d :: xs) with
      | nil => exact iff_of_false nofun nofun
      | cons d' ys => simp [readFrom]

/-- **A query hears the server alone** if and only if it is undisturbed, or nothing
is read at all. -/
theorem query_own_iff (hr : sys.resolveUDPAddr addr = .ok raddr) (xs : List Datagram) :
    query size timeout wrap sys addr cmd xs = query size timeout wrap sys addr cmd (own raddr xs) ↔
      (Sent timeout sys raddr cmd → Undisturbed size raddr xs) := by
  unfold query
  have hsent := send_ok_iff timeout wrap cmd hr
  cases hsend : send timeout wrap sys addr cmd with
  | error err =>
    have hnot : ¬ Sent timeout sys raddr cmd := fun h => nomatch hsend.symm.trans (hsent.mpr h)
    exact iff_of_true rfl fun h => absurd h hnot
  | ok =>
    have hs := hsent.mp hsend
    rw [forall_prop_of_true hs]
    exact readFrom_own_iff xs

/-- A query that hears the server alone just where `cond` holds: its result is then
that of the server's own datagrams, and any sequences that can be told apart only
by strangers have one result. -/
structure Listens (cond : List Datagram → Prop) (raddr : UDPAddr) (f : List Datagram → Except Text Bytes) :
    Prop where
  own_iff : ∀ xs, f xs = f (own raddr xs) ↔ cond xs
  determined : ∀ A : Set (List Datagram), (∀ xs ∈ A, own raddr xs ∈ A) →
    ((∀ xs ∈ A, ∀ ys ∈ A, own raddr xs = own raddr ys → f xs = f ys) ↔ ∀ xs ∈ A, cond xs)

theorem listens_query (hr : sys.resolveUDPAddr addr = .ok raddr) :
    Listens (fun xs => Sent timeout sys raddr cmd → Undisturbed size raddr xs) raddr
      (query size timeout wrap sys addr cmd) where
  own_iff := query_own_iff hr
  determined A hA := by
    rw [determined_iff (own_own raddr) hA]
    exact forall₂_congr fun xs _ => query_own_iff hr xs

/-- **What a status query listens to.** Both queries hear the server alone where no
stranger's datagram comes before its first one, and only there. -/
theorem sendCommand_listens (hr : sys.resolveUDPAddr addr = .ok raddr) :
    Listens (fun xs => Sent (5 * second) sys raddr cmd → Undisturbed (1024 * 1024) raddr xs) raddr
      (sendCommand sys addr cmd) ∧
    ∀ c : Client, Listens (fun xs => Sent c.queryTimeout sys raddr cmd → Undisturbed (64 * 1024) raddr xs) raddr
      (c.sendCommand sys addr cmd) :=
  ⟨listens_query hr, fun _ => listens_query hr⟩

end Listens

/-! ### A stranger -/

def gameServer : UDPAddr := ⟨0x0a000005, 27960⟩
def stranger : UDPAddr := ⟨0x0a000909, 53⟩

/-- Sockets that work, for a network with one game server. -/
def arenaSockets : Sockets where
  resolveUDPAddr _ := .ok gameServer
  listenPacket := .ok ()
  setDeadline _ := .ok ()
  writeTo _ _ := .ok ()
  timeoutError := txt "i/o timeout"

/-- The reply of the server, after a datagram of somebody else. -/
def forged : List Datagram :=
  [⟨stranger, statusHeader ++ ascii (txt "\n\n0 0 \"nobody\"")⟩,
    ⟨gameServer, statusHeader ++ ascii (txt "\n\n")⟩]

theorem sendCommand_listens_arena : Listens
    (fun xs => Sent (5 * second) arenaSockets gameServer getStatusCommand →
      Undisturbed (1024 * 1024) gameServer xs)
    gameServer (sendCommand arenaSockets (txt "arena:27960") getStatusCommand) :=
  (sendCommand_listens rfl).1

theorem not_undisturbed_forged {size : ℕ} (hsize : 64 ≤ size) : ¬ Undisturbed size gameServer forged := by
  intro h
  have hall : ∀ d ∈ forged, d.data.take size = d.data := by
    have hlength : ∀ d ∈ forged, d.data.length ≤ 64 := by with_unfolding_all decide
    exact fun d hd => List.take_of_length_le ((hlength d hd).trans hsize)
  have hne : forged.head?.map (·.data) ≠ (own gameServer forged).head?.map (·.data) := by
    with_unfolding_all decide
  rcases h _ rfl with hs | ⟨d, hd, hdata⟩
  · exact absurd hs (by decide)
  · have hmem : d ∈ forged := List.mem_of_mem_filter (List.mem_of_mem_head? hd)
    rw [hall _ List.mem_cons_self, hall _ hmem] at hdata
    exact hne (by rw [hd, forged]; exact congrArg some hdata)

/-- **What a stranger sends first is the result**, of either query. -/
theorem stranger_heard :
    ¬ (sendCommand arenaSockets (txt "arena:27960") getStatusCommand).FactorsThrough (own gameServer) ∧
      ¬ (Client.newClient.sendCommand arenaSockets (txt "arena:27960") getStatusCommand).FactorsThrough
        (own gameServer) := by
  have hown : own gameServer forged = own gameServer (own gameServer forged) := (own_own _ _).symm
  constructor
  · intro h
    exact not_undisturbed_forged (by omega) ((query_own_iff rfl forged).mp (h hown) ⟨rfl, rfl, rfl⟩)
  · intro h
    exact not_undisturbed_forged (by omega) ((query_own_iff rfl forged).mp (h hown) ⟨rfl, rfl, rfl⟩)

end Net
end QuakeKube
