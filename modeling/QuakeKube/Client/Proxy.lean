/-
# The websocket proxy

`WebsocketUDPProxy.ServeHTTP` of `internal/quake/client/proxy.go`, for one
browser: a goroutine that reads the browser's messages and sends them to the game
server, one that reads the datagrams of the backend socket and writes them to the
browser, and the function itself, which waits for an error and closes both ends.
They step in any order, and so do the browser and whoever sends datagrams.
A call of `ws.WriteMessage` begins in one step and ends in another.

The proxy is a faithful bridge as long as it reads no datagram of another source
than the game server (`bridge_while_fromServer`); what it sends to the server is
right in any case. Its two writers keep apart as long as the browser is not lost
while a datagram is on its way to it, and no datagram is read while a lost
browser is told so (`apart_while_calm`).

Key definitions: `State`, `step`, `Bridge`, `FromServer`, `Overlap`, `Calm`.
Key theorems: `step_cases`, `follows`, `bridge_while_fromServer`, `apart_while_calm`.
-/
import QuakeKube.Lib.Bytes
import QuakeKube.Lib.Run

namespace QuakeKube
namespace Client

open Go Run

variable {A : Type}

/-! ### The goroutines -/

structure Datagram (A : Type) where
  source : A
  payload : Bytes

/-- The goroutine that reads the websocket. -/
inductive Reader
  | reading
  /-- It has a message for the game server. -/
  | sending (msg : Bytes)
  /-- The read has failed; the error is not in the channel yet. -/
  | failed
  /-- The error is in the channel, and a close message is to be written. -/
  | closing
  /-- In `ws.WriteMessage(websocket.CloseMessage, m)`. -/
  | writingClose
  /-- An error of the backend socket is to be put into the channel. -/
  | reporting
  | returned
deriving DecidableEq

/-- The goroutine that reads the backend socket. -/
inductive Backend
  | reading
  /-- It has a datagram for the browser. -/
  | received (payload : Bytes)
  /-- In `ws.WriteMessage(websocket.BinaryMessage, buffer[:n])`. -/
  | writing (payload : Bytes)
  | reporting
  | returned
deriving DecidableEq

/-- `ServeHTTP` itself. -/
inductive Main
  | waiting
  /-- Its deferred calls are to be made. -/
  | returning
  | backendClosed
  | returned
deriving DecidableEq

structure State (A : Type) where
  /-- The browser's messages: those that were read, and those that were not. -/
  messagesRead : List Bytes
  messagesComing : List Bytes
  /-- The datagrams at the backend socket. -/
  datagramsRead : List (Datagram A)
  datagramsComing : List (Datagram A)
  /-- The datagrams that were written, with their destination. -/
  sent : List (A × Bytes)
  /-- The binary messages that were written to the browser. -/
  written : List Bytes
  reader : Reader
  backend : Backend
  main : Main
  /-- There is an error in `errc`, which has room for one. -/
  errc : Bool

def State.initial : State A := ⟨[], [], [], [], [], [], .reading, .reading, .waiting, false⟩

inductive Action (A : Type)
  | browserSends (msg : Bytes)
  | arrives (d : Datagram A)
  | readMessage
  | readFails
  | send
  /-- `delivered`: the datagram was written for all that. -/
  | sendFails (delivered : Bool)
  | readerReports
  | closeBegins
  | closeEnds
  | receive
  | receiveFails
  | writeBegins
  | writeEnds
  | writeFails (delivered : Bool)
  | backendReports
  | takesError
  | cancelled
  | closesBackend
  | closesWebsocket

/-- What a browser must not get through to the server. -/
def portPrefix : Bytes := [0xff, 0xff, 0xff, 0xff] ++ ascii (txt "port")

def isPort (msg : Bytes) : Bool := portPrefix.isPrefixOf msg

/-- The backend socket is open until `ServeHTTP` closes it. -/
def State.backendOpen (s : State A) : Bool := s.main = .waiting || s.main = .returning

def step (addr : A) (s : State A) : Action A → Option (State A)
  | .browserSends msg => some { s with messagesComing := s.messagesComing ++ [msg] }
  | .arrives d => some { s with datagramsComing := s.datagramsComing ++ [d] }
  | .readMessage => match s.reader, s.messagesComing with
    | .reading, msg :: rest => some { s with
        messagesRead := s.messagesRead ++ [msg]
        messagesComing := rest
        reader := if isPort msg then .reading else .sending msg }
    | _, _ => none
  | .readFails => if s.reader = .reading then some { s with reader := .failed } else none
  | .send => match s.reader with
    | .sending msg =>
      if s.backendOpen then some { s with sent := s.sent ++ [(addr, msg)], reader := .reading } else none
    | _ => none
  | .sendFails delivered => match s.reader with
    | .sending msg => some { s with
        sent := if delivered then s.sent ++ [(addr, msg)] else s.sent
        reader := .reporting }
    | _ => none
  | .readerReports => match s.reader, s.errc with
    | .failed, false => some { s with reader := .closing, errc := true }
    | .reporting, false => some { s with reader := .returned, errc := true }
    | _, _ => none
  | .closeBegins => if s.reader = .closing then some { s with reader := .writingClose } else none
  | .closeEnds => if s.reader = .writingClose then some { s with reader := .returned } else none
  | .receive => match s.backend, s.datagramsComing with
    | .reading, d :: rest =>
      if s.backendOpen then some { s with
        datagramsRead := s.datagramsRead ++ [d]
        datagramsComing := rest
        backend := .received d.payload }
      else none
    | _, _ => none
  | .receiveFails => if s.backend = .reading then some { s with backend := .reporting } else none
  | .writeBegins => match s.backend with
    | .received payload => some { s with backend := .writing payload }
    | _ => none
  | .writeEnds => match s.backend with
    | .writing payload => some { s with written := s.written ++ [payload], backend := .reading }
    | _ => none
  | .writeFails delivered => match s.backend with
    | .writing payload => some { s with
        written := if delivered then s.written ++ [payload] else s.written
        backend := .reporting }
    | _ => none
  | .backendReports =>
    if s.backend = .reporting ∧ s.errc = false then some { s with backend := .returned, errc := true } else none
  | .takesError =>
    if s.main = .waiting ∧ s.errc = true then some { s with main := .returning, errc := false } else none
  | .cancelled => if s.main = .waiting then some { s with main := .returning } else none
  | .closesBackend => if s.main = .returning then some { s with main := .backendClosed } else none
  | .closesWebsocket => if s.main = .backendClosed then some { s with main := .returned } else none

/-- The states of a connection that has just begun. -/
def Starts (s : State A) : Prop := s = .initial

/-! ### What a step can do -/

inductive Step (addr : A) (s : State A) : Action A → State A → Prop
  | browserSends {msg : Bytes} :
      Step addr s (.browserSends msg) { s with messagesComing := s.messagesComing ++ [msg] }
  | arrives {d : Datagram A} : Step addr s (.arrives d) { s with datagramsComing := s.datagramsComing ++ [d] }
  | readMessage {msg : Bytes} {rest : List Bytes} : s.reader = .reading → s.messagesComing = msg :: rest →
      Step addr s .readMessage { s with
        messagesRead := s.messagesRead ++ [msg]
        messagesComing := rest
        reader := if isPort msg then .reading else .sending msg }
  | readFails : s.reader = .reading → Step addr s .readFails { s with reader := .failed }
  | send {msg : Bytes} : s.reader = .sending msg → s.backendOpen = true →
      Step addr s .send { s with sent := s.sent ++ [(addr, msg)], reader := .reading }
  | sendFails {msg : Bytes} {delivered : Bool} : s.reader = .sending msg →
      Step addr s (.sendFails delivered) { s with
        sent := if delivered then s.sent ++ [(addr, msg)] else s.sent
        reader := .reporting }
  | reportsLost : s.reader = .failed → s.errc = false →
      Step addr s .readerReports { s with reader := .closing, errc := true }
  | reportsUnsent : s.reader = .reporting → s.errc = false →
      Step addr s .readerReports { s with reader := .returned, errc := true }
  | closeBegins : s.reader = .closing → Step addr s .closeBegins { s with reader := .writingClose }
  | closeEnds : s.reader = .writingClose → Step addr s .closeEnds { s with reader := .returned }
  | receive {d : Datagram A} {rest : List (Datagram A)} : s.backend = .reading → s.datagramsComing = d :: rest →
      s.backendOpen = true → Step addr s .receive { s with
        datagramsRead := s.datagramsRead ++ [d]
        datagramsComing := rest
        backend := .received d.payload }
  | receiveFails : s.backend = .reading → Step addr s .receiveFails { s with backend := .reporting }
  | writeBegins {p : Bytes} : s.backend = .received p → Step addr s .writeBegins { s with backend := .writing p }
  | writeEnds {p : Bytes} : s.backend = .writing p →
      Step addr s .writeEnds { s with written := s.written ++ [p], backend := .reading }
  | writeFails {p : Bytes} {delivered : Bool} : s.backend = .writing p →
      Step addr s (.writeFails delivered) { s with
        written := if delivered then s.written ++ [p] else s.written
        backend := .reporting }
  | backendReports : s.backend = .reporting → s.errc = false →
      Step addr s .backendReports { s with backend := .returned, errc := true }
  | takesError : s.main = .waiting → s.errc = true →
      Step addr s .takesError { s with main := .returning, errc := false }
  | cancelled : s.main = .waiting → Step addr s .cancelled { s with main := .returning }
  | closesBackend : s.main = .returning → Step addr s .closesBackend { s with main := .backendClosed }
  | closesWebsocket : s.main = .backendClosed → Step addr s .closesWebsocket { s with main := .returned }

theorem step_cases {addr : A} {s s' : State A} {a : Action A} (h : step addr s a = some s') :
    Step addr s a s' := by
  cases a with
  | browserSends msg => cases h; exact .browserSends
  | arrives d => cases h; exact .arrives
  | readMessage =>
    simp only [step] at h
    split at h <;> cases h
    exact .readMessage ‹_› ‹_›
  | readFails =>
    simp only [step] at h
    split at h <;> cases h
    exact .readFails ‹_›
  | send =>
    simp only [step] at h
    split at h
    · split at h <;> cases h
      exact .send ‹_› ‹_›
    · cases h
  | sendFails delivered =>
    simp only [step] at h
    split at h <;> cases h
    exact .sendFails ‹_›
  | readerReports =>
    simp only [step] at h
    split at h <;> cases h
    · exact .reportsLost ‹_› ‹_›
    · exact .reportsUnsent ‹_› ‹_›
  | closeBegins =>
    simp only [step] at h
    split at h <;> cases h
    exact .closeBegins ‹_›
  | closeEnds =>
    simp only [step] at h
    split at h <;> cases h
    exact .closeEnds ‹_›
  | receive =>
    simp only [step] at h
    split at h
    · split at h <;> cases h
      exact .receive ‹_› ‹_› ‹_›
    · cases h
  | receiveFails =>
    simp only [step] at h
    split at h <;> cases h
    exact .receiveFails ‹_›
  | writeBegins =>
    simp only [step] at h
    split at h <;> cases h
    exact .writeBegins ‹_›
  | writeEnds =>
    simp only [step] at h
    split at h <;> cases h
    exact .writeEnds ‹_›
  | writeFails delivered =>
    simp only [step] at h
    split at h <;> cases h
    exact .writeFails ‹_›
  | backendReports =>
    simp only [step] at h
    split at h <;> cases h
    next hb => exact .backendReports hb.1 hb.2
  | takesError =>
    simp only [step] at h
    split at h <;> cases h
    next hm => exact .takesError hm.1 hm.2
  | cancelled =>
    simp only [step] at h
    split at h <;> cases h
    exact .cancelled ‹_›
  | closesBackend =>
    simp only [step] at h
    split at h <;> cases h
    exact .closesBackend ‹_›
  | closesWebsocket =>
    simp only [step] at h
    split at h <;> cases h
    exact .closesWebsocket ‹_›

/-! ### What was sent and written -/

/-- What a list of messages is forwarded as. -/
def forwarded (addr : A) (msgs : List Bytes) : List (A × Bytes) :=
  (msgs.filter fun m => !isPort m).map (addr, ·)

/-- What was sent of the messages that were read: all but the one on its way. -/
structure ReaderFollows (addr : A) (s : State A) : Prop where
  sent : s.sent <+: forwarded addr s.messagesRead
  reading : s.reader = .reading → s.sent = forwarded addr s.messagesRead
  sending : ∀ msg, s.reader = .sending msg → s.sent ++ [(addr, msg)] = forwarded addr s.messagesRead

/-- What was written of the datagrams that were read. -/
structure BackendFollows (s : State A) : Prop where
  written : s.written <+: s.datagramsRead.map (·.payload)
  reading : s.backend = .reading → s.written = s.datagramsRead.map (·.payload)
  holding : ∀ p, s.backend = .received p ∨ s.backend = .writing p →
    s.written ++ [p] = s.datagramsRead.map (·.payload)

theorem forwarded_append (addr : A) (msgs : List Bytes) (msg : Bytes) :
    forwarded addr (msgs ++ [msg]) = forwarded addr msgs ++ if isPort msg then [] else [(addr, msg)] := by
  by_cases h : isPort msg = true <;> simp [forwarded, h]

variable {addr : A} {s s' : State A} {a : Action A}

theorem readerFollows_step (h : ReaderFollows addr s) (hs : step addr s a = some s') :
    ReaderFollows addr s' := by
  cases step_cases hs with
  | @readMessage msg rest hr hc =>
    have hsent := h.reading hr
    by_cases hp : isPort msg = true
    · have happ : forwarded addr (s.messagesRead ++ [msg]) = s.sent := by simp [forwarded_append, hp, hsent]
      refine ⟨?_, fun _ => happ.symm, ?_⟩
      · exact happ ▸ List.prefix_refl _
      · simp [hp]
    · have happ : forwarded addr (s.messagesRead ++ [msg]) = s.sent ++ [(addr, msg)] := by
        simp [forwarded_append, hp, hsent]
      refine ⟨?_, ?_, ?_⟩
      · exact happ ▸ List.prefix_append _ _
      · simp [hp]
      · intro m hm
        simp only [hp, Bool.false_eq_true, if_false, Reader.sending.injEq] at hm
        rw [← hm]
        exact happ.symm
  | send hr =>
    have hsent := h.sending _ hr
    exact ⟨hsent ▸ List.prefix_refl _, fun _ => hsent, nofun⟩
  | @sendFails msg delivered hr =>
    refine ⟨?_, nofun, nofun⟩
    cases delivered with
    | true => exact h.sending msg hr ▸ List.prefix_refl _
    | false => exact h.sent
  | readFails | reportsLost | reportsUnsent | closeBegins | closeEnds => exact ⟨h.sent, nofun, nofun⟩
  -- the browser, the backend goroutine and `ServeHTTP` leave what was read alone
  | _ => exact ⟨h.sent, h.reading, h.sending⟩

theorem backendFollows_step (h : BackendFollows s) (hs : step addr s a = some s') : BackendFollows s' := by
  cases step_cases hs with
  | receive hb =>
    have hw := h.reading hb
    refine ⟨?_, nofun, ?_⟩
    · rw [hw, List.map_append]
      exact List.prefix_append _ _
    · rintro p (hp | hp) <;> cases hp
      rw [hw, List.map_append, List.map_singleton]
  | @writeBegins p hb =>
    refine ⟨h.written, nofun, ?_⟩
    rintro q (hq | hq) <;> cases hq
    exact h.holding p (.inl hb)
  | @writeEnds p hb =>
    have hw := h.holding p (.inr hb)
    exact ⟨hw ▸ List.prefix_refl _, fun _ => hw, nofun⟩
  | @writeFails p delivered hb =>
    refine ⟨?_, nofun, nofun⟩
    cases delivered with
    | true => exact h.holding p (.inr hb) ▸ List.prefix_refl _
    | false => exact h.written
  | receiveFails | backendReports => exact ⟨h.written, nofun, nofun⟩
  -- the reader and `ServeHTTP` leave the datagrams alone
  | _ => exact ⟨h.written, h.reading, h.holding⟩

/-- In any run, whatever its steps meet. -/
theorem follows {ok : State A → Action A → Prop} (h : Reach (step addr) ok Starts s) :
    ReaderFollows addr s ∧ BackendFollows s := by
  refine h.invariant (I := fun s => ReaderFollows addr s ∧ BackendFollows s) ?_
    fun _ _ _ hi _ hs => ⟨readerFollows_step hi.1 hs, backendFollows_step hi.2 hs⟩
  rintro _ rfl
  exact ⟨⟨List.prefix_refl _, fun _ => rfl, nofun⟩, ⟨List.prefix_refl _, fun _ => rfl, nofun⟩⟩

/-! ### The bridge -/

/-- A datagram that is read is the game server's. -/
def FromServer (addr : A) (s : State A) : Action A → Prop
  | .receive => ∀ d ∈ s.datagramsComing.head?, d.source = addr
  | _ => True

/-- Every datagram that was read is the game server's. -/
def AllFromServer (addr : A) (s : State A) : Prop := ∀ d ∈ s.datagramsRead, d.source = addr

theorem allFromServer_step (h : AllFromServer addr s) (ha : FromServer addr s a)
    (hs : step addr s a = some s') :
    AllFromServer addr s' := by
  cases step_cases hs with
  | @receive d rest _ hc =>
    intro x hx
    rcases List.mem_append.mp hx with hx | hx
    · exact h x hx
    · rw [List.mem_singleton.mp hx]
      exact ha d (by rw [hc]; rfl)
  | _ => exact h

theorem forwarded_prefix_of_append (addr : A) (msgs more : List Bytes) :
    forwarded addr msgs <+: forwarded addr (msgs ++ more) := by
  simp [forwarded]

variable [DecidableEq A]

/-- The payloads of the datagrams that the game server has sent to the socket. -/
def fromServer (addr : A) (ds : List (Datagram A)) : List Bytes :=
  (ds.filter fun d => d.source = addr).map (·.payload)

/-- What was sent to the server and written to the browser is the beginning of
what the other side has sent. -/
structure Bridge (addr : A) (s : State A) : Prop where
  toServer : s.sent <+: forwarded addr (s.messagesRead ++ s.messagesComing)
  toBrowser : s.written <+: fromServer addr (s.datagramsRead ++ s.datagramsComing)

theorem fromServer_prefix_of_append (addr : A) (ds more : List (Datagram A)) :
    fromServer addr ds <+: fromServer addr (ds ++ more) := by
  simp [fromServer]

theorem fromServer_of_all (h : AllFromServer addr s) :
    fromServer addr s.datagramsRead = s.datagramsRead.map (·.payload) := by
  rw [fromServer, List.filter_eq_self.mpr fun d hd => decide_eq_true (h d hd)]

theorem bridge_of_reach (h : Reach (step addr) (FromServer addr) Starts s) : Bridge addr s := by
  have all : AllFromServer addr s := by
    refine h.invariant ?_ fun _ _ _ hi ha hs => allFromServer_step hi ha hs
    rintro _ rfl d hd
    cases hd
  obtain ⟨hr, hb⟩ := follows h
  refine ⟨hr.sent.trans (forwarded_prefix_of_append _ _ _), ?_⟩
  have hw := hb.written
  rw [← fromServer_of_all all] at hw
  exact hw.trans (fromServer_prefix_of_append _ _ _)

omit [DecidableEq A] in
/-- The backend goroutine can read and write all that has arrived. -/
theorem exists_drain (addr : A) (hb : s.backend = .reading) (ho : s.backendOpen = true) :
    ∃ as t, run (step addr) s as = some t ∧
    t.written = s.written ++ s.datagramsComing.map (·.payload) ∧
    t.datagramsRead = s.datagramsRead ++ s.datagramsComing ∧ t.datagramsComing = [] := by
  induction hc : s.datagramsComing generalizing s with
  | nil => exact ⟨[], s, rfl, by simp, by simp, hc⟩
  | cons d rest ih =>
    let s1 : State A := { s with
      datagramsRead := s.datagramsRead ++ [d]
      datagramsComing := rest
      written := s.written ++ [d.payload]
      backend := .reading }
    obtain ⟨as, t, hrun, hw, hd, ht⟩ := ih (s := s1) rfl ho rfl
    refine ⟨.receive :: .writeBegins :: .writeEnds :: as, t, ?_, ?_, ?_, ht⟩
    · simp only [run_cons, step, hb, hc, ho, if_true, Option.bind_some]
      exact hrun
    · rw [hw]
      simp [s1]
    · rw [hd]
      simp [s1]

/-- A datagram that was read of another source: more is written than the server has sent. -/
theorem not_bridge_of_foreign (hw : s.written = s.datagramsRead.map (·.payload)) (hc : s.datagramsComing = [])
    (h : ¬ AllFromServer addr s) : ¬ Bridge addr s := by
  intro hbridge
  have hlen := hbridge.toBrowser.length_le
  rw [hw, hc, List.append_nil, fromServer, List.length_map, List.length_map] at hlen
  refine h fun d hd => ?_
  have hall := List.length_filter_eq_length_iff.mp (Nat.le_antisymm (List.length_filter_le _ _) hlen)
  exact of_decide_eq_true (hall d hd)

/-- **The proxy is a faithful bridge** as long as it reads no datagram of another
source than the game server; one that it reads can be the end of that. -/
theorem bridge_while_fromServer (addr : A) :
    (∀ s, Reach (step addr) (FromServer addr) Starts s → Bridge addr s) ∧
    ∀ s a s', Reach (step addr) (FromServer addr) Starts s → ¬ FromServer addr s a → step addr s a = some s' →
      ∃ as t, run (step addr) s' as = some t ∧ ¬ Bridge addr t := by
  refine ⟨fun s hs => bridge_of_reach hs, fun s a s' hs ha hstep => ?_⟩
  cases step_cases hstep with
  | @receive d rest hb hc ho =>
    have hd : d.source ≠ addr := by simpa [FromServer, hc] using ha
    have hw := (follows hs).2.reading hb
    -- it is written, and what has arrived after it
    obtain ⟨as, t, hrun, htw, htr, htc⟩ := exists_drain addr (s := { s with
      datagramsRead := s.datagramsRead ++ [d]
      datagramsComing := rest
      written := s.written ++ [d.payload]
      backend := .reading }) rfl ho
    refine ⟨.writeBegins :: .writeEnds :: as, t, ?_, not_bridge_of_foreign ?_ htc fun hall => hd ?_⟩
    · simp only [run_cons, step, Option.bind_some]
      exact hrun
    · rw [htw, htr, hw]
      simp
    · exact hall d (by simp [htr])
  | _ => exact absurd trivial ha

/-- A datagram from anywhere else reaches the browser. -/
theorem foreign_datagram_written : ¬ ∀ s, Reach (step (A := ℕ) 0) always Starts s → Bridge 0 s := by
  intro h
  have hrun : run (step (A := ℕ) 0) .initial [.arrives ⟨1, [0x41]⟩, .receive, .writeBegins, .writeEnds] =
      some { State.initial with datagramsRead := [⟨1, [0x41]⟩], written := [[0x41]] } := rfl
  have hb := h _ (.of_run (.start rfl) (along_always _ _) hrun)
  exact absurd hb.toBrowser (by decide)

/-! ### Two writers -/

omit [DecidableEq A]

/-- Both goroutines are in a call of `ws.WriteMessage`. -/
def Overlap (s : State A) : Prop := s.reader = .writingClose ∧ ∃ p, s.backend = .writing p

/-- The browser is lost, and has not been told so to the end. -/
def Reader.IsLosing (r : Reader) : Prop := r = .failed ∨ r = .closing ∨ r = .writingClose

/-- There is a datagram on its way to the browser. -/
def Backend.Holds (b : Backend) : Prop := ∃ p, b = .received p ∨ b = .writing p

/-- The browser is not lost while a datagram is on its way to it, and no datagram
is read while a lost browser is told so. -/
def Calm (s : State A) : Action A → Prop
  | .readFails => ¬ s.backend.Holds
  | .receive => ¬ s.reader.IsLosing
  | _ => True

/-- The two do not come together. -/
def Apart (s : State A) : Prop := ¬ (s.reader.IsLosing ∧ s.backend.Holds)

theorem not_overlap_of_apart (h : Apart s) : ¬ Overlap s :=
  fun ⟨hr, p, hb⟩ => h ⟨.inr (.inr hr), p, .inr hb⟩

theorem apart_step (h : Apart s) (ha : Calm s a) (hs : step addr s a = some s') : Apart s' := by
  cases step_cases hs with
  | readFails => exact fun ⟨_, hb⟩ => ha hb
  | receive => exact fun ⟨hr, _⟩ => ha hr
  | readMessage =>
    rintro ⟨hr, _⟩
    revert hr
    split <;> simp [Reader.IsLosing]
  | reportsLost hr => exact fun ⟨_, hb⟩ => h ⟨.inl hr, hb⟩
  | closeBegins hr => exact fun ⟨_, hb⟩ => h ⟨.inr (.inl hr), hb⟩
  | @writeBegins p hb => exact fun ⟨hr, _⟩ => h ⟨hr, p, .inl hb⟩
  | send | sendFails | reportsUnsent | closeEnds => exact fun ⟨hr, _⟩ => by simp [Reader.IsLosing] at hr
  | receiveFails | writeEnds | writeFails | backendReports => exact fun ⟨_, hb⟩ => by simp [Backend.Holds] at hb
  | browserSends | arrives | takesError | cancelled | closesBackend | closesWebsocket => exact h

/-- An error in the channel is of a goroutine that goes on to close or has returned. -/
def Reported (s : State A) : Prop :=
  s.errc = true → (s.reader = .closing ∨ s.reader = .writingClose ∨ s.reader = .returned) ∨
    s.backend = .returned

theorem reported_step (h : Reported s) (hs : step addr s a = some s') : Reported s' := by
  cases step_cases hs with
  | readMessage hr | readFails hr | send hr | sendFails hr =>
    exact fun he => .inr ((h he).resolve_left (by simp [hr]))
  | receive hb | receiveFails hb | writeBegins hb | writeEnds hb | writeFails hb =>
    exact fun he => .inl ((h he).resolve_right (by simp [hb]))
  | reportsLost => exact fun _ => .inl (.inl rfl)
  | closeBegins => exact fun _ => .inl (.inr (.inl rfl))
  | reportsUnsent | closeEnds => exact fun _ => .inl (.inr (.inr rfl))
  | backendReports => exact fun _ => .inr rfl
  | takesError => exact nofun
  | browserSends | arrives | cancelled | closesBackend | closesWebsocket => exact h

theorem exists_writingClose (addr : A) (hr : s.reader.IsLosing) (he : s.reader = .failed → s.errc = false) :
    ∃ as t, run (step addr) s as = some t ∧ t.reader = .writingClose ∧ t.backend = s.backend := by
  rcases hr with hr | hr | hr
  · exact ⟨[.readerReports, .closeBegins], { s with reader := .writingClose, errc := true },
      by simp [run_cons, step, hr, he hr], rfl, rfl⟩
  · exact ⟨[.closeBegins], { s with reader := .writingClose }, by simp [run_cons, step, hr], rfl, rfl⟩
  · exact ⟨[], s, rfl, hr, rfl⟩

/-- Once they have come together, both can write. -/
theorem exists_overlap (hr : s.reader.IsLosing) (hb : s.backend.Holds)
    (he : s.reader = .failed → s.errc = false) :
    ∃ as t, run (step addr) s as = some t ∧ Overlap t := by
  obtain ⟨as, t, hrun, htr, htb⟩ := exists_writingClose addr hr he
  obtain ⟨p, hp | hp⟩ := hb
  · refine ⟨as ++ [.writeBegins], { t with backend := .writing p }, ?_, htr, p, rfl⟩
    rw [run_append, hrun]
    simp [run_cons, step, htb, hp]
  · exact ⟨as, t, hrun, htr, p, htb.trans hp⟩

theorem reported {ok : State A → Action A → Prop} (h : Reach (step addr) ok Starts s) : Reported s := by
  refine h.invariant ?_ fun _ _ _ hi _ hs => reported_step hi hs
  rintro _ rfl he
  cases he

/-- The step that brings them together leaves the channel free for the error. -/
theorem exists_overlap_of_not_calm (h : Reported s) (ha : ¬ Calm s a) (hs : step addr s a = some s') :
    ∃ as t, run (step addr) s' as = some t ∧ Overlap t := by
  cases step_cases hs with
  | readFails hr =>
    have hb : s.backend.Holds := not_not.mp ha
    refine exists_overlap (.inl rfl) hb fun _ => ?_
    by_contra he
    obtain ⟨p, hp⟩ := hb
    rcases h (Bool.not_eq_false _ ▸ he) with he | he
    · simp [hr] at he
    · simp [he] at hp
  | @receive d _ hb =>
    refine exists_overlap (not_not.mp ha) ⟨d.payload, .inl rfl⟩ fun hr => ?_
    by_contra he
    rcases h (Bool.not_eq_false _ ▸ he) with he | he
    · simp [show s.reader = .failed from hr] at he
    · simp [hb] at he
  | _ => exact absurd trivial ha

/-- **The proxy never writes from both goroutines at once** as long as its steps
are calm; after one that is not, it can. -/
theorem apart_while_calm (addr : A) :
    (∀ s, Reach (step addr) Calm Starts s → ¬ Overlap s) ∧
    ∀ s a s', Reach (step addr) Calm Starts s → ¬ Calm s a → step addr s a = some s' →
      ∃ as t, run (step addr) s' as = some t ∧ Overlap t := by
  refine ⟨fun s hs => not_overlap_of_apart ?_, fun s a s' hs ha => exists_overlap_of_not_calm (reported hs) ha⟩
  refine hs.invariant ?_ fun _ _ _ hi ha hs => apart_step hi ha hs
  rintro _ rfl ⟨hr, _⟩
  simp [Reader.IsLosing, State.initial] at hr

/-- The browser is lost while a datagram is written to it. -/
theorem lost_while_writing : ¬ ∀ s, Reach (step (A := ℕ) 0) always Starts s → ¬ Overlap s := by
  intro h
  have hrun : run (step (A := ℕ) 0) .initial
      [.arrives ⟨0, [0x41]⟩, .receive, .writeBegins, .readFails, .readerReports, .closeBegins] =
      some { State.initial with
        datagramsRead := [⟨0, [0x41]⟩]
        reader := .writingClose
        backend := .writing [0x41]
        errc := true } := rfl
  exact h _ (.of_run (.start rfl) (along_always _ _) hrun) ⟨rfl, _, rfl⟩

end Client
end QuakeKube
