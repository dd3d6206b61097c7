/-
# The game client's socket

The browser has no datagrams. `SOCKFS` of `public/ioquake3.js` gives the game a socket
that has a websocket for each address it sends to: a peer. The peers are in a table
under their addresses; one that is asked for and not there, or whose websocket is no
longer open, is made. What a closed websocket does last is to take its peer out of
the table, by the address.

There is one websocket that lives for each address, as long as no peer takes the
place of one that lives, and none that is closed takes another one out
(`alone_while_calm`). What the game reads is what has come, in order: of a stream all
of it, of a datagram what fits into the game's buffer (`read_iff`).

Key definitions: `Sock`, `sendmsg`, `recvmsg`, `Sock.step`, `Tabled`, `Calm`, `heardStep`.
Key theorems: `tabled_step`, `alone_while_calm`, `stream_run`, `dgram_run`, `read_iff`.
-/
import QuakeKube.Client.Proxy
import Mathlib.Data.List.Forall2
import Mathlib.Data.List.TakeDrop

namespace QuakeKube
namespace Browser

open Go Run

/-! ### The socket -/

inductive SocketType
  | stream
  | dgram
deriving DecidableEq

/-- `WebSocket.readyState`. -/
inductive ReadyState
  | connecting
  | opened
  | closing
  | closed
deriving DecidableEq

/-- The codes of the errors that the socket throws. -/
inductive Errno
  | EDESTADDRREQ
  | ENOTCONN
  | EAGAIN
  | EHOSTUNREACH
  | EALREADY
  | EISCONN
  | EINPROGRESS
deriving DecidableEq

/-- A peer, with its websocket and what was sent on it. -/
structure Peer where
  addr : Text
  port : ℕ
  readyState : ReadyState
  sent : List Bytes
  dgramSendQueue : List Bytes
  /-- No message has come, in `handlePeerEvents`. -/
  first : Bool

/-- What is in the receive queue. -/
structure Message where
  addr : Text
  port : ℕ
  data : Bytes
deriving DecidableEq

/-- The peers of the table are indices of `made`: the handlers of a websocket keep
the peers that are not in the table any more. -/
structure Sock where
  type : SocketType
  sport : Option ℕ
  /-- With `dport`. -/
  daddr : Option (Text × ℕ)
  made : List Peer
  peers : Text → Option ℕ
  recvQueue : List Message

/-- What `createSocket` makes. -/
def createSocket (type : SocketType) : Sock := ⟨type, none, none, [], fun _ => none, []⟩

def key (addr : Text) (port : ℕ) : Text := addr ++ ':' :: natText port

def Peer.key (p : Peer) : Text := Browser.key p.addr p.port

/-- Connecting or open. -/
def Peer.Lives (p : Peer) : Prop := p.readyState = .connecting ∨ p.readyState = .opened

instance (p : Peer) : Decidable p.Lives := by unfold Peer.Lives; infer_instance

/-- The message with which a bound socket tells its port. -/
def portMessage (sport : ℕ) : Bytes :=
  Client.portPrefix ++ [UInt8.ofNat (sport / 256 % 256), UInt8.ofNat (sport % 256)]

def isPortMessage (data : Bytes) : Bool := data.length = 10 && Client.isPort data

/-- `(data[8] << 8) | data[9]`. -/
def newPort (data : Bytes) : ℕ := (data.getD 8 0).toNat * 256 + (data.getD 9 0).toNat

namespace Sock

def getPeer (s : Sock) (addr : Text) (port : ℕ) : Option (ℕ × Peer) :=
  (s.peers (key addr port)).bind fun i => s.made[i]?.map fun p => (i, p)

def addPeer (s : Sock) (p : Peer) (i : ℕ) : Sock := { s with peers := Function.update s.peers p.key (some i) }

def removePeer (s : Sock) (p : Peer) : Sock := { s with peers := Function.update s.peers p.key none }

def setPeer (s : Sock) (i : ℕ) (p : Peer) : Sock := { s with made := s.made.set i p }

/-- The peer that `createPeer` makes for an address. -/
def newPeer (s : Sock) (addr : Text) (port : ℕ) : Peer where
  addr := addr
  port := port
  readyState := .connecting
  sent := []
  dgramSendQueue := match s.type, s.sport with
    | .dgram, some sport => [portMessage sport]
    | _, _ => []
  first := true

def withPeer (s : Sock) (addr : Text) (port : ℕ) : Sock :=
  { s with made := s.made ++ [s.newPeer addr port] }.addPeer (s.newPeer addr port) s.made.length

/-- `refused`: the browser does not make the websocket. -/
def createPeer (refused : Bool) (s : Sock) (addr : Text) (port : ℕ) : Except Errno Sock :=
  if refused then .error .EHOSTUNREACH else .ok (s.withPeer addr port)

/-- `peer.dgram_send_queue.push(data)`. -/
def enqueue (s : Sock) (i : ℕ) (data : Bytes) : Sock :=
  { s with made := s.made.modify i fun p => { p with dgramSendQueue := p.dgramSendQueue ++ [data] } }

/-- `peer.socket.send(data)`. -/
def send (s : Sock) (i : ℕ) (data : Bytes) : Sock :=
  { s with made := s.made.modify i fun p => { p with sent := p.sent ++ [data] } }

/-- With the peer that the data is given to. -/
def sendmsg (refused : Bool) (s : Sock) (data : Bytes) (dest : Option (Text × ℕ)) : Except Errno (Sock × ℕ) :=
  match s.type with
  | .dgram => match dest.or s.daddr with
    | none => .error .EDESTADDRREQ
    | some (addr, port) => match s.getPeer addr port with
      | some (i, p) =>
        if p.readyState = .opened then .ok (s.send i data, i)
        else if p.readyState = .connecting then .ok (s.enqueue i data, i)
        else (s.createPeer refused addr port).map fun s' => (s'.enqueue s.made.length data, s.made.length)
      | none => (s.createPeer refused addr port).map fun s' => (s'.enqueue s.made.length data, s.made.length)
  | .stream => match s.daddr.bind fun d => s.getPeer d.1 d.2 with
    | none => .error .ENOTCONN
    | some (i, p) =>
      if p.readyState = .opened then .ok (s.send i data, i)
      else if p.readyState = .connecting then .error .EAGAIN
      else .error .ENOTCONN

/-- None is a socket that is closed. -/
def recvmsg (s : Sock) (length : ℕ) : Except Errno (Option Message × Sock) :=
  match s.recvQueue with
  | [] => match s.type with
    | .dgram => .error .EAGAIN
    | .stream => match s.daddr.bind fun d => s.getPeer d.1 d.2 with
      | none => .error .ENOTCONN
      | some (_, p) => if p.Lives then .error .EAGAIN else .ok (none, s)
  | queued :: rest =>
    let unread := { queued with data := queued.data.drop length }
    .ok (some { queued with data := queued.data.take length },
      { s with recvQueue := if s.type = .stream ∧ length < queued.data.length then unread :: rest else rest })

def bind (s : Sock) (port : ℕ) : Sock := { s with sport := s.sport.or (some port) }

/-- Always throws. -/
def connect (refused : Bool) (s : Sock) (addr : Text) (port : ℕ) : Sock × Errno :=
  match s.daddr.bind fun d => s.getPeer d.1 d.2 with
  | some (_, p) => (s, if p.readyState = .connecting then .EALREADY else .EISCONN)
  | none => match s.createPeer refused addr port with
    | .error e => (s, e)
    | .ok s' => ({ s' with daddr := some (addr, port) }, .EINPROGRESS)

/-! ### The websockets' events -/

def handleOpen (s : Sock) (i : ℕ) (p : Peer) : Sock :=
  s.setPeer i { p with readyState := .opened, sent := p.sent ++ p.dgramSendQueue, dgramSendQueue := [] }

def handleMessage (s : Sock) (i : ℕ) (p : Peer) (data : Bytes) : Sock :=
  if p.first && isPortMessage data then
    let moved := { p with first := false, port := newPort data }
    ((s.removePeer p).setPeer i moved).addPeer moved i
  else
    { s.setPeer i { p with first := false } with recvQueue := s.recvQueue ++ [⟨p.addr, p.port, data⟩] }

def handleClose (s : Sock) (i : ℕ) (p : Peer) : Sock :=
  (s.setPeer i { p with readyState := .closed }).removePeer p

end Sock

/-- What can happen to a socket: the game's calls, and the events of the websockets. -/
inductive Event
  | bind (port : ℕ)
  | connect (refused : Bool) (addr : Text) (port : ℕ)
  | sendmsg (refused : Bool) (data : Bytes) (dest : Option (Text × ℕ))
  | recvmsg (length : ℕ)
  | opens (i : ℕ)
  | message (i : ℕ) (data : Bytes)
  /-- The other side closes, or the connection is lost. -/
  | closing (i : ℕ)
  | closed (i : ℕ)

/-- A call that throws leaves the socket as it is. -/
def Sock.step (s : Sock) : Event → Option Sock
  | .bind port => some (s.bind port)
  | .connect refused addr port => some (s.connect refused addr port).1
  | .sendmsg refused data dest => match s.sendmsg refused data dest with
    | .ok (s', _) => some s'
    | .error _ => some s
  | .recvmsg length => match s.recvmsg length with
    | .ok (_, s') => some s'
    | .error _ => some s
  | .opens i => match s.made[i]? with
    | some p => if p.readyState = .connecting then some (s.handleOpen i p) else none
    | none => none
  | .message i data => match s.made[i]? with
    | some p => if p.readyState = .opened then some (s.handleMessage i p data) else none
    | none => none
  | .closing i => match s.made[i]? with
    | some p => if p.Lives then some (s.setPeer i { p with readyState := .closing }) else none
    | none => none
  | .closed i => match s.made[i]? with
    | some p => if p.readyState = .closed then none else some (s.handleClose i p)
    | none => none

/-! ### What a step can do -/

/-- No peer that lives is in the table under the address. -/
def Sock.Vacant (s : Sock) (addr : Text) (port : ℕ) : Prop := ∀ x ∈ s.getPeer addr port, ¬ x.2.Lives

inductive Step (s : Sock) : Event → Sock → Prop
  | bind {port : ℕ} : Step s (.bind port) (s.bind port)
  /-- A call has thrown, or it has read nothing. -/
  | unsent {refused : Bool} {data : Bytes} {dest : Option (Text × ℕ)} {c : Errno} :
      s.sendmsg refused data dest = .error c → Step s (.sendmsg refused data dest) s
  | unconnected {refused : Bool} {addr : Text} {port : ℕ} :
      (refused = false → (s.daddr.bind fun d => s.getPeer d.1 d.2) ≠ none) →
        Step s (.connect refused addr port) s
  | unread {length : ℕ} : (∀ m t, s.recvmsg length ≠ .ok (some m, t)) → Step s (.recvmsg length) s
  | connect {addr : Text} {port : ℕ} : (s.daddr.bind fun d => s.getPeer d.1 d.2) = none →
      Step s (.connect false addr port) { s.withPeer addr port with daddr := some (addr, port) }
  | send {refused : Bool} {data : Bytes} {dest : Option (Text × ℕ)} {i : ℕ} {p : Peer} : s.made[i]? = some p →
      p.readyState = .opened → s.sendmsg refused data dest = .ok (s.send i data, i) →
      Step s (.sendmsg refused data dest) (s.send i data)
  | queue {refused : Bool} {data : Bytes} {dest : Option (Text × ℕ)} {i : ℕ} {p : Peer} :
    s.made[i]? = some p →
      p.readyState = .connecting → s.sendmsg refused data dest = .ok (s.enqueue i data, i) →
      Step s (.sendmsg refused data dest) (s.enqueue i data)
  | make {data : Bytes} {dest : Option (Text × ℕ)} {addr : Text} {port : ℕ} : s.Vacant addr port →
      s.sendmsg false data dest = .ok ((s.withPeer addr port).enqueue s.made.length data, s.made.length) →
      Step s (.sendmsg false data dest) ((s.withPeer addr port).enqueue s.made.length data)
  | read {length : ℕ} {queued : Message} {rest : List Message} : s.recvQueue = queued :: rest →
      Step s (.recvmsg length) { s with
        recvQueue := if s.type = .stream ∧ length < queued.data.length then
          { queued with data := queued.data.drop length } :: rest else rest }
  | opens {i : ℕ} {p : Peer} : s.made[i]? = some p → p.readyState = .connecting →
      Step s (.opens i) (s.handleOpen i p)
  | message {i : ℕ} {p : Peer} {data : Bytes} : s.made[i]? = some p → p.readyState = .opened →
      Step s (.message i data) (s.handleMessage i p data)
  | closing {i : ℕ} {p : Peer} : s.made[i]? = some p → p.Lives →
      Step s (.closing i) (s.setPeer i { p with readyState := .closing })
  | closed {i : ℕ} {p : Peer} : s.made[i]? = some p → p.readyState ≠ .closed →
      Step s (.closed i) (s.handleClose i p)

theorem getPeer_eq_some {s : Sock} {addr : Text} {port : ℕ} {i : ℕ} {p : Peer} :
    s.getPeer addr port = some (i, p) ↔ s.peers (key addr port) = some i ∧ s.made[i]? = some p := by
  simp only [Sock.getPeer, Option.bind_eq_some_iff, Option.map_eq_some_iff, Prod.mk.injEq]
  constructor
  · rintro ⟨j, hj, q, hq, rfl, rfl⟩
    exact ⟨hj, hq⟩
  · rintro ⟨hj, hq⟩
    exact ⟨i, hj, p, hq, rfl, rfl⟩

/-- The ways of a message that is sent. -/
theorem sendmsg_cases {refused : Bool} {s s' : Sock} {data : Bytes} {dest : Option (Text × ℕ)} {i : ℕ}
    (h : s.sendmsg refused data dest = .ok (s', i)) : Step s (.sendmsg refused data dest) s' := by
  have h' := h
  unfold Sock.sendmsg at h
  have hmakes : ∀ addr port, s.Vacant addr port →
      (s.createPeer refused addr port).map
        (fun t => (t.enqueue s.made.length data, s.made.length)) = .ok (s', i) →
      Step s (.sendmsg refused data dest) s' := by
    intro addr port hv hm
    cases refused with
    | true => cases hm
    | false =>
      cases hm
      exact .make hv h'
  split at h
  · split at h
    · cases h
    · rename_i addr port _
      split at h
      · rename_i j p hp
        obtain ⟨-, hj⟩ := getPeer_eq_some.mp hp
        split at h
        · cases h
          exact .send hj ‹_› h'
        · split at h
          · cases h
            exact .queue hj ‹_› h'
          · refine hmakes addr port (fun x hx => ?_) h
            cases Option.some.inj (hp.symm.trans hx)
            exact not_or.mpr ⟨‹_›, ‹_›⟩
      · rename_i hp
        refine hmakes addr port (fun x hx => ?_) h
        cases hp.symm.trans hx
  · split at h
    · cases h
    · rename_i j p hp
      obtain ⟨d, -, hd⟩ := Option.bind_eq_some_iff.mp hp
      obtain ⟨-, hj⟩ := getPeer_eq_some.mp hd
      split at h
      · cases h
        exact .send hj ‹_› h'
      · split at h <;> cases h

theorem recvmsg_nil {s : Sock} (h : s.recvQueue = []) (length : ℕ) :
    (∃ c, s.recvmsg length = .error c) ∨ s.recvmsg length = .ok (none, s) := by
  unfold Sock.recvmsg
  rw [h]
  dsimp only
  split
  · exact .inl ⟨_, rfl⟩
  · split
    · exact .inl ⟨_, rfl⟩
    · split
      · exact .inl ⟨_, rfl⟩
      · exact .inr rfl

theorem step_cases {s s' : Sock} {e : Event} (h : s.step e = some s') : Step s e s' := by
  cases e with
  | bind port =>
    cases h
    exact .bind
  | connect refused addr port =>
    cases h
    unfold Sock.connect
    split
    · rename_i hd
      exact .unconnected fun _ => by rw [hd]; exact Option.some_ne_none _
    · cases refused with
      | true => exact .unconnected nofun
      | false => exact .connect ‹_›
  | sendmsg refused data dest =>
    simp only [Sock.step] at h
    split at h
    · cases h
      exact sendmsg_cases ‹_›
    · cases h
      exact .unsent ‹_›
  | recvmsg length =>
    cases hq : s.recvQueue with
    | nil =>
      rcases recvmsg_nil hq length with ⟨c, hr⟩ | hr
      · simp only [Sock.step, hr] at h
        cases h
        exact .unread (by simp [hr])
      · simp only [Sock.step, hr] at h
        cases h
        exact .unread (by simp [hr])
    | cons queued rest =>
      simp only [Sock.step, Sock.recvmsg, hq] at h
      cases h
      exact .read hq
  | opens i =>
    simp only [Sock.step] at h
    split at h
    · split at h <;> cases h
      exact .opens ‹_› ‹_›
    · cases h
  | message i data =>
    simp only [Sock.step] at h
    split at h
    · split at h <;> cases h
      exact .message ‹_› ‹_›
    · cases h
  | closing i =>
    simp only [Sock.step] at h
    split at h
    · split at h <;> cases h
      exact .closing ‹_› ‹_›
    · cases h
  | closed i =>
    simp only [Sock.step] at h
    split at h
    · split at h <;> cases h
      exact .closed ‹_› ‹_›
    · cases h

/-! ### One websocket for each address -/

/-- The table has its peers under their addresses, and has every peer that lives. -/
structure Tabled (s : Sock) : Prop where
  holds : ∀ k i, s.peers k = some i → ∃ p, s.made[i]? = some p ∧ p.key = k
  lives : ∀ i p, s.made[i]? = some p → p.Lives → s.peers p.key = some i

/-- No two peers that live have one address. -/
def Alone (s : Sock) : Prop :=
  ∀ (i j : ℕ) (p q : Peer), s.made[i]? = some p → s.made[j]? = some q → p.Lives → q.Lives →
    p.key = q.key → i = j

theorem Tabled.alone {s : Sock} (h : Tabled s) : Alone s := by
  intro i j p q hi hj hp hq hk
  have hpi := h.lives i p hi hp
  have hqj := h.lives j q hj hq
  rw [hk] at hpi
  exact Option.some.inj (hpi.symm.trans hqj)

/-- A peer other than the `i`th lives, and has the address in the table. -/
def Sock.Taken (s : Sock) (i : ℕ) (k : Text) : Prop :=
  ∃ j q, j ≠ i ∧ s.peers k = some j ∧ s.made[j]? = some q ∧ q.Lives

/-- No peer takes the place of one that lives, and none that is closed takes
another one that lives out of the table. -/
def Calm (s : Sock) : Event → Prop
  | .connect refused addr port =>
    refused = false → (s.daddr.bind fun d => s.getPeer d.1 d.2) = none → s.Vacant addr port
  | .message i data => ∀ p ∈ s.made[i]?, p.first = true → isPortMessage data = true →
    ¬ s.Taken i (key p.addr (newPort data))
  | .closed i => ∀ p ∈ s.made[i]?, ¬ s.Taken i p.key
  | _ => True

variable {s s' : Sock} {e : Event} {i : ℕ} {p : Peer}

theorem getElem?_setPeer (h : s.made[i]? = some p) (q : Peer) (j : ℕ) :
    (s.setPeer i q).made[j]? = if j = i then some q else s.made[j]? := by
  obtain ⟨hi, -⟩ := List.getElem?_eq_some_iff.mp h
  by_cases hj : j = i
  · subst hj
    rw [if_pos rfl]
    exact List.getElem?_set_self hi
  · rw [if_neg hj]
    exact List.getElem?_set_ne (Ne.symm hj)

theorem getElem?_withPeer (s : Sock) (addr : Text) (port j : ℕ) :
    (s.withPeer addr port).made[j]? =
      if j = s.made.length then some (s.newPeer addr port) else s.made[j]? := by
  show (s.made ++ [s.newPeer addr port])[j]? = _
  by_cases hj : j = s.made.length
  · rw [hj, if_pos rfl, List.getElem?_concat_length]
  · rw [if_neg hj, List.getElem?_append]
    split
    · rfl
    · rw [List.getElem?_eq_none (by rw [List.length_singleton]; omega), List.getElem?_eq_none (by omega)]

theorem peers_withPeer (s : Sock) (addr : Text) (port : ℕ) (k : Text) :
    (s.withPeer addr port).peers k = if k = key addr port then some s.made.length else s.peers k :=
  Function.update_apply _ _ _ _

theorem modify_eq_set {α : Type} {l : List α} {a : α} {i : ℕ} (h : l[i]? = some a) (f : α → α) :
    l.modify i f = l.set i (f a) := by
  obtain ⟨hi, -⟩ := List.getElem?_eq_some_iff.mp h
  refine List.ext_getElem? fun j => ?_
  by_cases hj : i = j
  · subst hj
    rw [List.getElem?_modify_eq, h, List.getElem?_set_self hi]
    rfl
  · rw [List.getElem?_modify_ne f l hj, List.getElem?_set_ne hj]

theorem send_eq (h : s.made[i]? = some p) (data : Bytes) :
    s.send i data = s.setPeer i { p with sent := p.sent ++ [data] } := by
  rw [Sock.send, modify_eq_set h, Sock.setPeer]

theorem enqueue_eq (h : s.made[i]? = some p) (data : Bytes) :
    s.enqueue i data = s.setPeer i { p with dgramSendQueue := p.dgramSendQueue ++ [data] } := by
  rw [Sock.enqueue, modify_eq_set h, Sock.setPeer]

/-- A peer is changed, and keeps its address. -/
theorem Tabled.setPeer (h : Tabled s) (hi : s.made[i]? = some p) {q : Peer} (hk : q.key = p.key)
    (hq : q.Lives → p.Lives) : Tabled (s.setPeer i q) := by
  constructor
  · intro k j hj
    obtain ⟨r, hr, hkey⟩ := h.holds k j hj
    rw [getElem?_setPeer hi]
    split
    · rename_i hji
      subst hji
      cases Option.some.inj (hi.symm.trans hr)
      exact ⟨q, rfl, hk.trans hkey⟩
    · exact ⟨r, hr, hkey⟩
  · intro j r hr hl
    rw [getElem?_setPeer hi] at hr
    split at hr
    · rename_i hji
      cases hr
      subst hji
      show s.peers q.key = _
      rw [hk]
      exact h.lives j p hi (hq hl)
    · exact h.lives j r hr hl

theorem Tabled.withPeer (h : Tabled s) {addr : Text} {port : ℕ} (hv : s.Vacant addr port) :
    Tabled (s.withPeer addr port) := by
  constructor
  · intro k j hj
    rw [peers_withPeer] at hj
    rw [getElem?_withPeer]
    split at hj
    · rename_i hk
      cases hj
      rw [if_pos rfl]
      exact ⟨_, rfl, hk.symm⟩
    · obtain ⟨r, hr, hkey⟩ := h.holds k j hj
      obtain ⟨hlt, -⟩ := List.getElem?_eq_some_iff.mp hr
      rw [if_neg (Nat.ne_of_lt hlt)]
      exact ⟨r, hr, hkey⟩
  · intro j r hr hl
    rw [getElem?_withPeer] at hr
    rw [peers_withPeer]
    split at hr
    · rename_i hj
      cases hr
      rw [hj]
      exact if_pos rfl
    · have hp := h.lives j r hr hl
      rw [if_neg fun hk => ?_]
      · exact hp
      · exact hv (j, r) (getPeer_eq_some.mpr ⟨hk ▸ hp, hr⟩) hl

theorem peers_handleClose (s : Sock) (i : ℕ) (p : Peer) (k : Text) :
    (s.handleClose i p).peers k = if k = p.key then none else s.peers k :=
  Function.update_apply _ _ _ _

/-- A peer is taken out of the table, which has no other that lives under its address. -/
theorem Tabled.handleClose (h : Tabled s) (hi : s.made[i]? = some p) (ht : ¬ s.Taken i p.key) :
    Tabled (s.handleClose i p) := by
  have hclosed := h.setPeer hi (q := { p with readyState := .closed }) rfl (by simp [Peer.Lives])
  constructor
  · intro k j hj
    rw [peers_handleClose] at hj
    split at hj
    · cases hj
    · exact hclosed.holds k j hj
  · intro j r hr hl
    have hr' : (s.setPeer i { p with readyState := .closed }).made[j]? = some r := hr
    rw [getElem?_setPeer hi] at hr'
    split at hr'
    · cases hr'
      simp [Peer.Lives] at hl
    · rename_i hji
      have hp := h.lives j r hr' hl
      have hne : r.key ≠ p.key := by
        intro hk
        rw [hk] at hp
        exact ht ⟨j, r, hji, hp, hr', hl⟩
      rw [peers_handleClose, if_neg hne]
      exact hp

/-- A peer that lives is put under another address, which no other has. -/
theorem Tabled.moved (h : Tabled s) (hi : s.made[i]? = some p) (hl : p.Lives) {q : Peer}
    (ht : ¬ s.Taken i q.key) : Tabled (((s.removePeer p).setPeer i q).addPeer q i) := by
  have hget : ∀ j, (((s.removePeer p).setPeer i q).addPeer q i).made[j]? =
      if j = i then some q else s.made[j]? :=
    getElem?_setPeer (s := s.removePeer p) hi q
  have hpeers : ∀ k, (((s.removePeer p).setPeer i q).addPeer q i).peers k =
      if k = q.key then some i else if k = p.key then none else s.peers k := by
    intro k
    show Function.update (Function.update s.peers p.key none) q.key (some i) k = _
    rw [Function.update_apply, Function.update_apply]
  have hpi := h.lives i p hi hl
  constructor
  · intro k j hj
    rw [hpeers] at hj
    rw [hget]
    split at hj
    · rename_i hk
      cases hj
      exact ⟨q, if_pos rfl, hk.symm⟩
    · split at hj
      · cases hj
      · rename_i hk
        obtain ⟨r, hr, hkey⟩ := h.holds k j hj
        rw [if_neg]
        · exact ⟨r, hr, hkey⟩
        · rintro rfl
          cases Option.some.inj (hi.symm.trans hr)
          exact hk hkey.symm
  · intro j r hr hlr
    rw [hget] at hr
    rw [hpeers]
    split at hr
    · rename_i hji
      cases hr
      rw [if_pos rfl, hji]
    · rename_i hji
      have hp := h.lives j r hr hlr
      rw [if_neg, if_neg]
      · exact hp
      · intro hk
        rw [hk] at hp
        exact hji (Option.some.inj (hp.symm.trans hpi))
      · exact fun hk => ht ⟨j, r, hji, hk ▸ hp, hr, hlr⟩

theorem getElem?_made_withPeer (s : Sock) (addr : Text) (port : ℕ) :
    (s.withPeer addr port).made[s.made.length]? = some (s.newPeer addr port) := by
  rw [getElem?_withPeer, if_pos rfl]

theorem tabled_step (h : Tabled s) (ha : Calm s e) (hs : s.step e = some s') : Tabled s' := by
  cases step_cases hs with
  | bind | read => exact ⟨h.holds, h.lives⟩
  | unsent | unconnected | unread => exact h
  | connect hd =>
    have hw := h.withPeer (ha rfl hd)
    exact ⟨hw.holds, hw.lives⟩
  | @send _ data _ i p hi =>
    rw [send_eq hi]
    exact h.setPeer hi rfl id
  | @queue _ data _ i p hi =>
    rw [enqueue_eq hi]
    exact h.setPeer hi rfl id
  | @make data _ addr port hv =>
    rw [enqueue_eq (getElem?_made_withPeer s addr port)]
    exact (h.withPeer hv).setPeer (getElem?_made_withPeer s addr port) rfl id
  | opens hi hc => exact h.setPeer hi rfl fun _ => .inl hc
  | @message i p data hi ho =>
    unfold Sock.handleMessage
    split
    · rename_i hm
      rw [Bool.and_eq_true] at hm
      exact h.moved hi (.inr ho) (ha p hi hm.1 hm.2)
    · have hw := h.setPeer hi (q := { p with first := false }) rfl id
      exact ⟨hw.holds, hw.lives⟩
  | closing hi => exact h.setPeer hi rfl (by simp [Peer.Lives])
  | closed hi => exact h.handleClose hi (ha _ hi)

/-- The address of a peer that lives, which is not in the table, is given another peer by the next message. -/
theorem exists_twice (h : s.type = .dgram) {j : ℕ} {q : Peer} (hj : s.made[j]? = some q) (hl : q.Lives)
    (hv : s.peers q.key = none) : ∃ es t, run Sock.step s es = some t ∧ ¬ Alone t := by
  have hnone : s.getPeer q.addr q.port = none := by
    rw [Sock.getPeer, show s.peers (key q.addr q.port) = none from hv]
    rfl
  have hrun : s.step (.sendmsg false [] (some (q.addr, q.port))) =
      some ((s.withPeer q.addr q.port).enqueue s.made.length []) := by
    simp only [Sock.step, Sock.sendmsg, h, Option.some_or, hnone]
    rfl
  refine ⟨[.sendmsg false [] (some (q.addr, q.port))],
    (s.withPeer q.addr q.port).enqueue s.made.length [], ?_,
    fun ha => ?_⟩
  · rw [run_cons, hrun]
    rfl
  · obtain ⟨hlt, -⟩ := List.getElem?_eq_some_iff.mp hj
    have hnew := getElem?_made_withPeer s q.addr q.port
    rw [enqueue_eq hnew] at ha
    have hold := (getElem?_setPeer hnew { s.newPeer q.addr q.port with
      dgramSendQueue := (s.newPeer q.addr q.port).dgramSendQueue ++ [[]] } j).trans
        (if_neg (Nat.ne_of_lt hlt))
    rw [getElem?_withPeer, if_neg (Nat.ne_of_lt hlt), hj] at hold
    exact Nat.ne_of_lt hlt (ha j _ q _ hold ((getElem?_setPeer hnew _ _).trans (if_pos rfl)) hl
      (.inl rfl) rfl)

/-- After a step that is not calm there are two that live, or can be. -/
theorem exists_twice_of_not_calm (h : Tabled s) (ht : s.type = .dgram) (ha : ¬ Calm s e)
    (hs : s.step e = some s') : ∃ es t, run Sock.step s' es = some t ∧ ¬ Alone t := by
  cases step_cases hs with
  | @connect addr port hd =>
    obtain ⟨⟨j, q⟩, hq, hl⟩ : ∃ x, s.getPeer addr port = some x ∧ x.2.Lives := by
      simpa [Calm, hd, Sock.Vacant] using ha
    obtain ⟨hk, hj⟩ := getPeer_eq_some.mp hq
    obtain ⟨r, hr, hkey⟩ := h.holds _ j hk
    cases Option.some.inj (hj.symm.trans hr)
    obtain ⟨hlt, -⟩ := List.getElem?_eq_some_iff.mp hj
    have hold := getElem?_withPeer s addr port j
    rw [if_neg (Nat.ne_of_lt hlt), hj] at hold
    have hnew := getElem?_made_withPeer s addr port
    exact ⟨[], _, rfl, fun hal => Nat.ne_of_lt hlt (hal j _ q _ hold hnew hl (.inl rfl) hkey)⟩
  | @message i p data hi ho =>
    simp only [Calm, not_forall, not_not] at ha
    obtain ⟨p', hp', hf, hm, j, q, hji, hk, hj, hl⟩ := ha
    cases Option.some.inj (hi.symm.trans hp')
    obtain ⟨r, hr, hkey⟩ := h.holds _ j hk
    cases Option.some.inj (hj.symm.trans hr)
    refine ⟨[], _, rfl, fun hal => ?_⟩
    rw [Sock.handleMessage, hf, hm] at hal
    have hget := getElem?_setPeer (s := s.removePeer p) hi { p with first := false, port := newPort data }
    exact hji (hal j i q _ ((hget j).trans ((if_neg hji).trans hj))
      ((hget i).trans (if_pos rfl)) hl (.inr ho) hkey)
  | @closed i p hi =>
    simp only [Calm, not_forall, not_not] at ha
    obtain ⟨p', hp', j, q, hji, hk, hj, hl⟩ := ha
    cases Option.some.inj (hi.symm.trans hp')
    obtain ⟨r, hr, hkey⟩ := h.holds _ j hk
    cases Option.some.inj (hj.symm.trans hr)
    refine exists_twice ht (j := j) (q := q) ?_ hl ?_
    · exact (getElem?_setPeer hi _ j).trans ((if_neg hji).trans hj)
    · rw [peers_handleClose, if_pos hkey]
  | unconnected hd => exact absurd (fun hr hnone => absurd hnone (hd hr)) ha
  | _ => exact absurd trivial ha

theorem type_step (hs : s.step e = some s') : s'.type = s.type := by
  cases step_cases hs with
  | @message i p data =>
    unfold Sock.handleMessage
    split <;> rfl
  | _ => rfl

/-- A socket of the game's that has just been made. -/
def Fresh (s : Sock) : Prop := s = createSocket .dgram

/-- **There is one websocket for each address** as long as the steps are calm;
after one that is not, there can be two. -/
theorem alone_while_calm :
    (∀ s, Reach Sock.step Calm Fresh s → Alone s) ∧
    ∀ s e s', Reach Sock.step Calm Fresh s → ¬ Calm s e → s.step e = some s' →
      ∃ es t, run Sock.step s' es = some t ∧ ¬ Alone t := by
  have hinv : ∀ s, Reach Sock.step Calm Fresh s → Tabled s ∧ s.type = .dgram := by
    intro s hs
    refine hs.invariant (I := fun s => Tabled s ∧ s.type = .dgram) ?_
      fun _ _ _ hi ha hs => ⟨tabled_step hi.1 ha hs, (type_step hs).trans hi.2⟩
    rintro _ rfl
    exact ⟨⟨nofun, nofun⟩, rfl⟩
  refine ⟨fun s hs => (hinv s hs).1.alone, fun s e s' hs ha hstep => ?_⟩
  exact exists_twice_of_not_calm (hinv s hs).1 (hinv s hs).2 ha hstep

/-- A websocket closes late: the game has sent again before, and sends again after. -/
theorem not_alone_always : ¬ ∀ s, Reach Sock.step always Fresh s → Alone s := by
  intro h
  have hrun : ∃ s, run Sock.step (createSocket .dgram) [.sendmsg false [] (some ([], 0)), .closing 0,
      .sendmsg false [] (some ([], 0)), .closed 0, .sendmsg false [] (some ([], 0))] = some s ∧
      s.made[1]? = some ⟨[], 0, .connecting, [], [[]], true⟩ ∧
      s.made[2]? = some ⟨[], 0, .connecting, [], [[]], true⟩ := ⟨_, rfl, rfl, rfl⟩
  obtain ⟨s, hs, h1, h2⟩ := hrun
  have halone := h s (.of_run (.start rfl) (along_always _ _) hs)
  exact absurd (halone 1 2 _ _ h1 h2 (.inl rfl) (.inl rfl) rfl) (by decide)

/-! ### What the game reads -/

/-- What comes to the queue. -/
def arriving (s : Sock) : Event → List Message
  | .message i data => match s.made[i]? with
    | some p => if p.first && isPortMessage data then [] else [⟨p.addr, p.port, data⟩]
    | none => []
  | _ => []

/-- What the game is given. -/
def reading (s : Sock) : Event → List Message
  | .recvmsg length => match s.recvmsg length with
    | .ok (some m, _) => [m]
    | _ => []
  | _ => []

/-- With all that has come and all that was read. -/
def heardStep : (Sock × List Message) × List Message → Event →
    Option ((Sock × List Message) × List Message) :=
  logged (logged Sock.step arriving) fun u => reading u.1

/-- A datagram fits into what it is read into. -/
def Fits (s : Sock) : Event → Prop
  | .recvmsg length => ∀ q ∈ s.recvQueue.head?, q.data.length ≤ length
  | _ => True

instance (s : Sock) (e : Event) : Decidable (Fits s e) := by
  unfold Fits
  split <;> infer_instance

/-- The beginning of a message. -/
def CutOf (m a : Message) : Prop := m.addr = a.addr ∧ m.port = a.port ∧ m.data <+: a.data

/-- What a step does to the queue. -/
theorem queue_step (hs : s.step e = some s') :
    (reading s e = [] ∧ s'.recvQueue = s.recvQueue ++ arriving s e) ∨
    ∃ length q rest, e = .recvmsg length ∧ s.recvQueue = q :: rest ∧ arriving s e = [] ∧
      reading s e = [{ q with data := q.data.take length }] ∧
      s'.recvQueue = if s.type = .stream ∧ length < q.data.length then
        { q with data := q.data.drop length } :: rest else rest := by
  cases step_cases hs with
  | @read length q rest hq =>
    refine .inr ⟨length, q, rest, rfl, hq, rfl, ?_, rfl⟩
    simp only [reading, Sock.recvmsg, hq]
  | @unread length hr =>
    refine .inl ⟨?_, (List.append_nil _).symm⟩
    cases hm : s.recvmsg length with
    | error c => simp only [reading, hm]
    | ok x =>
      obtain ⟨_ | m, t⟩ := x
      · simp only [reading, hm]
      · exact absurd hm (hr m t)
  | @message i p data hi ho =>
    refine .inl ⟨rfl, ?_⟩
    simp only [arriving, hi]
    unfold Sock.handleMessage
    split
    · exact (List.append_nil _).symm
    · rfl
  | _ => exact .inl ⟨rfl, (List.append_nil _).symm⟩

/-- What is not read fits. -/
theorem fits_of_reading (h : reading s e = []) : Fits s e := by
  cases e with
  | recvmsg length =>
    intro q hq
    obtain ⟨rest, hrest⟩ := List.head?_eq_some_iff.mp hq
    simp only [reading, Sock.recvmsg, hrest] at h
    cases h
  | _ => trivial

theorem heardStep_eq_some {u v : (Sock × List Message) × List Message} :
    heardStep u e = some v ↔ u.1.1.step e = some v.1.1 ∧ v.1.2 = u.1.2 ++ arriving u.1.1 e ∧
      v.2 = u.2 ++ reading u.1.1 e := by
  rw [heardStep, logged_eq_some, logged_eq_some, and_assoc]

/-- A stream loses nothing. -/
theorem stream_run {es : List Event} {u v : (Sock × List Message) × List Message}
    (ht : u.1.1.type = .stream) (h : run heardStep u es = some v)
    (hu : (u.2 ++ u.1.1.recvQueue).flatMap (·.data) = u.1.2.flatMap (·.data)) :
    (v.2 ++ v.1.1.recvQueue).flatMap (·.data) = v.1.2.flatMap (·.data) := by
  induction es generalizing u with
  | nil =>
    cases h
    exact hu
  | cons e es ih =>
    obtain ⟨w, hw, hrest⟩ := Option.bind_eq_some_iff.mp h
    obtain ⟨hs, harr, hread⟩ := heardStep_eq_some.mp hw
    refine ih ((type_step hs).trans ht) hrest ?_
    rw [harr, hread]
    rcases queue_step hs with ⟨hr, hq⟩ | ⟨length, q, rest, rfl, hq, ha, hr, hq'⟩
    · rw [hr, hq, List.append_nil, ← List.append_assoc, List.flatMap_append, hu, List.flatMap_append]
    · rw [ha, hr, List.append_nil, ← hu, hq', hq]
      by_cases hlong : length < q.data.length
      · rw [if_pos ⟨ht, hlong⟩]
        simp only [List.flatMap_append, List.flatMap_cons, List.flatMap_nil, List.append_nil,
          List.append_assoc]
        rw [← List.append_assoc (q.data.take length), List.take_append_drop]
      · rw [if_neg fun hc => hlong hc.2]
        simp [List.take_of_length_le (Nat.le_of_not_lt hlong)]

/-- A datagram that is read is the beginning of one that has come. -/
theorem dgram_run {es : List Event} {u v : (Sock × List Message) × List Message} {done : List Message}
    (ht : u.1.1.type = .dgram) (h : run heardStep u es = some v) (hu : u.1.2 = done ++ u.1.1.recvQueue)
    (hcut : List.Forall₂ CutOf u.2 done) : ∃ done', v.1.2 = done' ++ v.1.1.recvQueue ∧
      List.Forall₂ CutOf v.2 done' ∧ (v.2 = done' ↔ u.2 = done ∧ Along Sock.step Fits u.1.1 es) := by
  induction es generalizing u done with
  | nil =>
    cases h
    exact ⟨done, hu, hcut, (and_iff_left trivial).symm⟩
  | cons e es ih =>
    obtain ⟨w, hw, hrest⟩ := Option.bind_eq_some_iff.mp h
    obtain ⟨hs, harr, hread⟩ := heardStep_eq_some.mp hw
    have htw := (type_step hs).trans ht
    have halong : Along Sock.step Fits u.1.1 (e :: es) ↔ Fits u.1.1 e ∧ Along Sock.step Fits w.1.1 es := by
      refine and_congr_right fun _ => ⟨fun ha => ha _ hs, fun ha s' hs' => ?_⟩
      cases Option.some.inj (hs.symm.trans hs')
      exact ha
    rw [halong]
    rcases queue_step hs with ⟨hr, hq⟩ | ⟨length, q, rest, rfl, hq, ha, hr, hq'⟩
    · rw [hr, List.append_nil] at hread
      have hw' : w.1.2 = done ++ w.1.1.recvQueue := by rw [harr, hu, hq, List.append_assoc]
      have hfits : Fits u.1.1 e := fits_of_reading hr
      obtain ⟨done', hv, hcut', hiff⟩ := ih htw hrest hw' (hread ▸ hcut)
      refine ⟨done', hv, hcut', ?_⟩
      rw [hiff, hread, and_iff_right hfits]
    · rw [if_neg fun hc => by rw [ht] at hc; cases hc.1] at hq'
      have hw' : w.1.2 = (done ++ [q]) ++ w.1.1.recvQueue := by
        rw [harr, ha, List.append_nil, hu, hq, hq', List.append_assoc, List.singleton_append]
      have hnew : CutOf { q with data := q.data.take length } q := ⟨rfl, rfl, List.take_prefix _ _⟩
      obtain ⟨done', hv, hcut', hiff⟩ :=
        ih htw hrest hw' (hread ▸ hr ▸ List.rel_append hcut (.cons hnew .nil))
      refine ⟨done', hv, hcut', ?_⟩
      have hfits : Fits u.1.1 (.recvmsg length) ↔ ({ q with data := q.data.take length } : Message) = q := by
        rw [Message.mk.injEq]
        simp [Fits, hq, List.take_eq_self_iff]
      rw [hiff, hread, hr, hfits, ← and_assoc]
      refine and_congr_left' ?_
      constructor
      · intro he
        obtain ⟨h1, h2⟩ := List.append_inj he hcut.length_eq
        exact ⟨h1, (List.cons.inj h2).1⟩
      · rintro ⟨h1, h2⟩
        rw [h1, h2]

/-- **A stream is read to the last byte, and a datagram once, from its beginning**;
all that has come is read or is still there if and only if each datagram fits into
what it is read into. -/
theorem read_iff {type : SocketType} {es : List Event} {t : Sock} {arrived read : List Message}
    (h : run heardStep ((createSocket type, []), []) es = some ((t, arrived), read)) :
    (type = .stream → (read ++ t.recvQueue).flatMap (·.data) = arrived.flatMap (·.data)) ∧
    (type = .dgram → (∃ done, arrived = done ++ t.recvQueue ∧ List.Forall₂ CutOf read done) ∧
      (arrived = read ++ t.recvQueue ↔ Along Sock.step Fits (createSocket .dgram) es)) := by
  refine ⟨?_, ?_⟩
  · rintro rfl
    exact stream_run rfl h rfl
  · rintro rfl
    have hnone : ([] : List Message) = [] ++ (createSocket .dgram).recvQueue := rfl
    obtain ⟨done, hdone, hcut, hiff⟩ := dgram_run rfl h hnone .nil
    refine ⟨⟨done, hdone, hcut⟩, ?_⟩
    have hread : arrived = read ++ t.recvQueue ↔ read = done := by
      change arrived = done ++ t.recvQueue at hdone
      rw [hdone, List.append_left_inj, eq_comm]
    rw [hread]
    exact hiff.trans (and_iff_right rfl)

/-- Two bytes, read into one. -/
theorem read_iff_cut : ∃ t arrived read, run heardStep ((createSocket .dgram, []), [])
    [.sendmsg false [] (some ([], 0)), .opens 0, .message 0 [0x41, 0x42], .recvmsg 1] =
      some ((t, arrived), read) ∧ arrived ≠ read ++ t.recvQueue := by
  obtain ⟨⟨⟨t, arrived⟩, read⟩, hrun⟩ : ∃ v, run heardStep ((createSocket .dgram, []), [])
    [.sendmsg false [] (some ([], 0)), .opens 0, .message 0 [0x41, 0x42], .recvmsg 1] = some v := ⟨_, rfl⟩
  refine ⟨t, arrived, read, hrun, ?_⟩
  rw [Ne, ((read_iff hrun).2 rfl).2]
  decide

end Browser
end QuakeKube
