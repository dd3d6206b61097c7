/-
# From the game to its server, and back

One websocket of the game's socket, and the proxy at its other end. The game, the
browser, the network, the proxy's goroutines and whoever sends datagrams to it step
in any order, and so do the other websockets of the socket; a websocket delivers its
messages in order.

What the proxy has sent to the game server is the beginning of what the game has sent
over the websocket, without what begins like a port message; the port message that the
socket itself has put before it does not get there (`to_server`). What has come to the
game's queue is the beginning of what the proxy has read, but for a first datagram
that is a port message (`to_game`). As long as both ends are open the rest can follow.

Key definitions: `Line`, `Line.step`, `Carries`, `heard`.
Key theorems: `carries_step`, `to_server`, `to_game`.
-/
import QuakeKube.Browser.Socket

namespace QuakeKube
namespace Browser

open Go Run
open Client (forwarded isPort)

variable {A : Type}

/-! ### The websocket between them -/

structure Line (A : Type) where
  sock : Sock
  proxy : Client.State A
  /-- How many of the proxy's messages the browser has been handed. -/
  handed : ℕ
  /-- What the game has sent over the websocket. -/
  given : List Bytes
  /-- What has come over it to the game's queue. -/
  arrived : List Bytes

inductive Move (A : Type)
  | browser (e : Event)
  /-- The websocket's next message comes to the proxy. -/
  | up
  /-- The proxy's next message comes to the browser. -/
  | down
  | proxy (a : Client.Action A)

/-- What a call of the game's gives to the `i`th peer. -/
def givenTo (i : ℕ) (s : Sock) : Event → List Bytes
  | .sendmsg refused data dest => match s.sendmsg refused data dest with
    | .ok (_, j) => if j = i then [data] else []
    | .error _ => []
  | _ => []

/-- A message of the `i`th peer's comes from its proxy. -/
def Event.IsFrom (i : ℕ) : Event → Prop
  | .message j _ => j = i
  | _ => False

instance (i : ℕ) (e : Event) : Decidable (e.IsFrom i) := by
  unfold Event.IsFrom
  split <;> infer_instance

/-- A message of the browser's comes from the websocket. -/
def IsMessage : Client.Action A → Prop
  | .browserSends _ => True
  | _ => False

instance (a : Client.Action A) : Decidable (IsMessage a) := by
  unfold IsMessage
  split <;> infer_instance

/-- What the proxy has been handed. -/
def Line.delivered (l : Line A) : List Bytes := l.proxy.messagesRead ++ l.proxy.messagesComing

def Line.step (addr : A) (i : ℕ) (l : Line A) : Move A → Option (Line A)
  | .browser e =>
    if e.IsFrom i then none
    else (l.sock.step e).map fun s => { l with sock := s, given := l.given ++ givenTo i l.sock e }
  | .up =>
    l.sock.made[i]?.bind fun p => p.sent[l.delivered.length]?.bind fun data =>
    (Client.step addr l.proxy (.browserSends data)).map fun x => { l with proxy := x }
  | .down =>
    l.proxy.written[l.handed]?.bind fun data => (l.sock.step (.message i data)).map fun s => { l with
      sock := s
      handed := l.handed + 1
      arrived := l.arrived ++ (s.recvQueue.drop l.sock.recvQueue.length).map (·.data) }
  | .proxy a =>
    if IsMessage a then none else (Client.step addr l.proxy a).map fun x => { l with proxy := x }

/-- A socket that was just made. -/
def Line.Starts (l : Line A) : Prop :=
  ∃ type, l = ⟨createSocket type, .initial, 0, [], []⟩

/-! ### What a peer carries -/

/-- What was sent on the websocket of the `i`th peer or waits for it to open is what
the game has given to it, after what the socket has told of itself. -/
structure Carries (s : Sock) (i : ℕ) (given : List Bytes) : Prop where
  unmade : s.made.length ≤ i → given = []
  made : ∀ p, s.made[i]? = some p → ∃ told, (∀ m ∈ told, isPort m = true) ∧
    p.sent ++ p.dgramSendQueue = told ++ given
  opened : ∀ p, s.made[i]? = some p → p.readyState = .opened → p.dgramSendQueue = []

variable {s s' : Sock} {e : Event} {i : ℕ} {given : List Bytes}

theorem isPort_portMessage (sport : ℕ) : isPort (portMessage sport) = true :=
  List.isPrefixOf_iff_prefix.mpr (List.prefix_append _ _)

theorem isPort_newPeer (s : Sock) (addr : Text) (port : ℕ) :
    ∀ m ∈ (s.newPeer addr port).dgramSendQueue, isPort m = true := by
  intro m hm
  simp only [Sock.newPeer] at hm
  split at hm
  · rw [List.mem_singleton.mp hm]
    exact isPort_portMessage _
  · cases hm

/-- A peer is changed, and carries what it did and what it is given. -/
theorem Carries.setPeer (h : Carries s i given) {j : ℕ} {p q : Peer} (hj : s.made[j]? = some p)
    {more : List Bytes}
    (hq : j = i → q.sent ++ q.dgramSendQueue = p.sent ++ p.dgramSendQueue ++ more)
    (ho : q.readyState = .opened → (p.readyState = .opened → p.dgramSendQueue = []) → q.dgramSendQueue = []) :
    Carries (s.setPeer j q) i (given ++ if j = i then more else []) := by
  have hget := getElem?_setPeer hj q i
  constructor
  · intro hi
    have hlen : s.made.length ≤ i := by simpa [Sock.setPeer] using hi
    obtain ⟨hlt, -⟩ := List.getElem?_eq_some_iff.mp hj
    rw [h.unmade hlen, if_neg (by omega), List.nil_append]
  · intro r hr
    rw [hget] at hr
    split at hr
    · rename_i hij
      cases hr
      subst hij
      obtain ⟨told, htold, he⟩ := h.made p hj
      refine ⟨told, htold, ?_⟩
      rw [hq rfl, he, if_pos rfl, List.append_assoc]
    · rename_i hij
      rw [if_neg (Ne.symm hij), List.append_nil]
      exact h.made r hr
  · intro r hr hopen
    rw [hget] at hr
    split at hr
    · rename_i hij
      cases hr
      subst hij
      exact ho hopen (h.opened p hj)
    · exact h.opened r hr hopen

theorem Carries.withPeer (h : Carries s i given) (addr : Text) (port : ℕ) :
    Carries (s.withPeer addr port) i given := by
  constructor
  · intro hi
    refine h.unmade ?_
    have hlen : s.made.length + 1 ≤ i := by simpa [Sock.withPeer, Sock.addPeer] using hi
    omega
  · intro r hr
    rw [getElem?_withPeer] at hr
    split at hr
    · rename_i hi
      cases hr
      refine ⟨(s.newPeer addr port).dgramSendQueue, isPort_newPeer s addr port, ?_⟩
      rw [h.unmade hi.ge, List.append_nil]
      rfl
    · exact h.made r hr
  · intro r hr hopen
    rw [getElem?_withPeer] at hr
    split at hr
    · cases hr
      cases hopen
    · exact h.opened r hr hopen

theorem Carries.congr (h : Carries s i given) (hs : s'.made = s.made) : Carries s' i given :=
  ⟨hs ▸ h.unmade, hs ▸ h.made, hs ▸ h.opened⟩

theorem givenTo_of_ok {refused : Bool} {data : Bytes} {dest : Option (Text × ℕ)} {j : ℕ}
    (h : s.sendmsg refused data dest = .ok (s', j)) (i : ℕ) :
    givenTo i s (.sendmsg refused data dest) = if j = i then [data] else [] := by
  rw [givenTo, h]

/-- A peer changes otherwise. -/
theorem Carries.setPeer_nil (h : Carries s i given) {j : ℕ} {p q : Peer} (hj : s.made[j]? = some p)
    (hq : q.sent ++ q.dgramSendQueue = p.sent ++ p.dgramSendQueue)
    (ho : q.readyState = .opened → (p.readyState = .opened → p.dgramSendQueue = []) → q.dgramSendQueue = []) :
    Carries (s.setPeer j q) i given := by
  have hmore : j = i → q.sent ++ q.dgramSendQueue = p.sent ++ p.dgramSendQueue ++ [] := by
    intro _
    rw [hq, List.append_nil]
  have hset := h.setPeer hj hmore ho
  rwa [ite_self, List.append_nil] at hset

/-- **What the game sends is carried by the peer it is given to.** -/
theorem carries_step (h : Carries s i given) (hs : s.step e = some s') :
    Carries s' i (given ++ givenTo i s e) := by
  have hnil := List.append_nil given
  cases step_cases hs with
  | bind | read => exact hnil.symm ▸ h.congr rfl
  | unconnected | unread => exact hnil.symm ▸ h
  | unsent he =>
    rw [givenTo, he, List.append_nil]
    exact h
  | connect => exact hnil.symm ▸ (h.withPeer _ _).congr rfl
  | send hj hopen hok =>
    rw [givenTo_of_ok hok, send_eq hj]
    refine h.setPeer hj (fun hji => ?_) fun _ hp => hp hopen
    rw [h.opened _ (hji ▸ hj) hopen, List.append_nil, List.append_nil]
  | queue hj hc hok =>
    rw [givenTo_of_ok hok, enqueue_eq hj]
    exact h.setPeer hj (fun _ => (List.append_assoc _ _ _).symm)
      fun ho => absurd (hc.symm.trans ho) (by decide)
  | @make _ _ addr port _ hok =>
    have hnew := getElem?_made_withPeer s addr port
    rw [givenTo_of_ok hok, enqueue_eq hnew]
    exact (h.withPeer addr port).setPeer hnew (fun _ => (List.append_assoc _ _ _).symm) nofun
  | opens hj hc =>
    exact hnil.symm ▸ h.setPeer_nil hj (List.append_nil _) fun _ _ => rfl
  | @message j p data hj ho =>
    refine hnil.symm ▸ ?_
    unfold Sock.handleMessage
    split
    · exact (h.setPeer_nil hj (q := { p with first := false, port := newPort data }) rfl
        fun ho hp => hp ho).congr rfl
    · exact (h.setPeer_nil hj (q := { p with first := false }) rfl fun ho hp => hp ho).congr rfl
  | closing hj => exact hnil.symm ▸ h.setPeer_nil hj rfl nofun
  | @closed j p hj =>
    exact hnil.symm ▸ (h.setPeer_nil hj (q := { p with readyState := .closed }) rfl nofun).congr rfl

/-! ### What a step leaves of a peer -/

/-- Where a peer is from: it was there, with the beginning of what was sent on it, or it is new. -/
def ComesFrom (s : Sock) (i : ℕ) (e : Event) (q : Peer) : Prop :=
  (∃ p, s.made[i]? = some p ∧ p.sent <+: q.sent ∧ (¬ e.IsFrom i → q.first = p.first)) ∨
    s.made.length ≤ i ∧ q.sent = [] ∧ q.first = true

theorem comesFrom_self {p : Peer} (h : s.made[i]? = some p) (e : Event) : ComesFrom s i e p :=
  .inl ⟨p, h, List.prefix_refl _, fun _ => rfl⟩

theorem comesFrom_setPeer {j : ℕ} {p q r : Peer} (hj : s.made[j]? = some p)
    (hr : (s.setPeer j q).made[i]? = some r) (hs : p.sent <+: q.sent)
    (hf : j = i → ¬ e.IsFrom i → q.first = p.first) : ComesFrom s i e r := by
  rw [getElem?_setPeer hj] at hr
  split at hr
  · rename_i hij
    cases hr
    subst hij
    exact .inl ⟨p, hj, hs, hf rfl⟩
  · exact comesFrom_self hr e

theorem comesFrom_withPeer {addr : Text} {port : ℕ} {r : Peer} (hr : (s.withPeer addr port).made[i]? = some r)
    (e : Event) : ComesFrom s i e r := by
  rw [getElem?_withPeer] at hr
  split at hr
  · cases hr
    exact .inr ⟨Nat.le_of_eq (Eq.symm ‹_›), rfl, rfl⟩
  · exact comesFrom_self hr e

theorem comesFrom_step (hs : s.step e = some s') {q : Peer} (hq : s'.made[i]? = some q) :
    ComesFrom s i e q := by
  cases step_cases hs with
  | bind | read | unconnected | unread | unsent => exact comesFrom_self hq _
  | connect => exact comesFrom_withPeer hq _
  | send hj =>
    rw [send_eq hj] at hq
    exact comesFrom_setPeer hj hq (List.prefix_append _ _) fun _ _ => rfl
  | queue hj =>
    rw [enqueue_eq hj] at hq
    exact comesFrom_setPeer hj hq (List.prefix_refl _) fun _ _ => rfl
  | @make _ _ addr port =>
    rw [enqueue_eq (getElem?_made_withPeer s addr port),
      getElem?_setPeer (getElem?_made_withPeer s addr port)] at hq
    split at hq
    · cases hq
      exact .inr ⟨Nat.le_of_eq (Eq.symm ‹_›), rfl, rfl⟩
    · exact comesFrom_withPeer hq _
  | opens hj => exact comesFrom_setPeer hj hq (List.prefix_append _ _) fun _ _ => rfl
  | @message j p data hj =>
    unfold Sock.handleMessage at hq
    split at hq
    · exact comesFrom_setPeer (q := { p with first := false, port := newPort data }) hj hq
        (List.prefix_refl _)
        fun hji he => absurd hji he
    · exact comesFrom_setPeer (q := { p with first := false }) hj hq (List.prefix_refl _)
        fun hji he => absurd hji he
  | closing hj => exact comesFrom_setPeer hj hq (List.prefix_refl _) fun _ _ => rfl
  | @closed j p hj =>
    exact comesFrom_setPeer (q := { p with readyState := .closed }) hj hq (List.prefix_refl _) fun _ _ => rfl

theorem length_made_step (hs : s.step e = some s') : s.made.length ≤ s'.made.length := by
  cases step_cases hs with
  | connect => simp [Sock.withPeer, Sock.addPeer]
  | make => simp [Sock.withPeer, Sock.addPeer, Sock.enqueue]
  | send => simp [Sock.send]
  | queue => simp [Sock.enqueue]
  | message =>
    unfold Sock.handleMessage
    split <;> simp [Sock.setPeer, Sock.removePeer, Sock.addPeer]
  | opens | closing | closed => simp [Sock.handleOpen, Sock.handleClose, Sock.setPeer, Sock.removePeer]
  | _ => exact Nat.le_refl _

/-! ### The proxy's end -/

section Proxy

variable {addr : A} {x y : Client.State A} {a : Client.Action A}

theorem written_step (h : Client.step addr x a = some y) : x.written <+: y.written := by
  cases Client.step_cases h with
  | writeEnds => exact List.prefix_append _ _
  | @writeFails p delivered =>
    cases delivered with
    | true => exact List.prefix_append _ _
    | false => exact List.prefix_refl _
  | _ => exact List.prefix_refl _

/-- No message is lost or made up between the websocket and the reader. -/
theorem delivered_step (h : Client.step addr x a = some y) (ha : ¬ IsMessage a) :
    y.messagesRead ++ y.messagesComing = x.messagesRead ++ x.messagesComing := by
  cases Client.step_cases h with
  | browserSends => exact absurd trivial ha
  | readMessage _ hc => rw [hc, List.append_assoc, List.singleton_append]
  | _ => rfl

end Proxy

/-! ### The game's end -/

/-- What the socket makes of a peer's messages: the first one can be a port message. -/
def heard : List Bytes → List Bytes
  | [] => []
  | m :: ms => if isPortMessage m then ms else m :: ms

theorem heard_concat (ms : List Bytes) (m : Bytes) :
    heard (ms ++ [m]) = heard ms ++ if ms = [] ∧ isPortMessage m = true then [] else [m] := by
  cases ms with
  | nil => by_cases hm : isPortMessage m = true <;> simp [heard, hm]
  | cons n ns => by_cases hn : isPortMessage n = true <;> simp [heard, hn]

theorem heard_prefix {ms ns : List Bytes} (h : ms <+: ns) : heard ms <+: heard ns := by
  obtain ⟨rest, rfl⟩ := h
  cases ms with
  | nil => exact List.nil_prefix
  | cons m ms =>
    by_cases hm : isPortMessage m = true <;> simp [heard, hm]

/-- A message of an open peer's is put into the queue, or it is the first and a port message. -/
theorem message_spec {data : Bytes} (hs : s.step (.message i data) = some s') : ∃ p q,
    s.made[i]? = some p ∧ s'.made[i]? = some q ∧ q.readyState = .opened ∧ q.first = false ∧
    (s'.recvQueue.drop s.recvQueue.length).map (·.data) =
      if p.first = true ∧ isPortMessage data = true then [] else [data] := by
  cases step_cases hs with
  | @message i p data hi ho =>
    by_cases hm : p.first = true ∧ isPortMessage data = true
    · have hget := getElem?_setPeer (s := s.removePeer p) hi { p with first := false, port := newPort data } i
      have hs' : s.handleMessage i p data = ((s.removePeer p).setPeer i
          { p with first := false, port := newPort data }).addPeer
            { p with first := false, port := newPort data } i := by
        rw [Sock.handleMessage, hm.1, hm.2]
        rfl
      rw [if_pos rfl] at hget
      refine ⟨p, { p with first := false, port := newPort data }, hi, ?_, ho, rfl, ?_⟩
      · rw [hs']
        exact hget
      · rw [hs', if_pos hm]
        simp [Sock.addPeer, Sock.setPeer, Sock.removePeer]
    · have hget := getElem?_setPeer hi { p with first := false } i
      have hs' : s.handleMessage i p data = { s.setPeer i { p with first := false } with
          recvQueue := s.recvQueue ++ [⟨p.addr, p.port, data⟩] } := by
        rw [Sock.handleMessage, if_neg (by simpa using hm)]
      rw [if_pos rfl] at hget
      refine ⟨p, { p with first := false }, hi, ?_, ho, rfl, ?_⟩
      · rw [hs']
        exact hget
      · rw [hs', if_neg hm]
        simp

/-! ### Both ends -/

variable {addr : A} {l l' : Line A}

/-- What is where, between the game and its server. -/
structure Line.Sound (addr : A) (i : ℕ) (l : Line A) : Prop where
  carries : Carries l.sock i l.given
  unmade : l.sock.made.length ≤ i → l.delivered = [] ∧ l.handed = 0
  delivered : ∀ p, l.sock.made[i]? = some p → l.delivered <+: p.sent
  first : ∀ p, l.sock.made[i]? = some p → (p.first = true ↔ l.handed = 0)
  handed : l.handed ≤ l.proxy.written.length
  arrived : l.arrived = heard (l.proxy.written.take l.handed)
  reader : Client.ReaderFollows addr l.proxy
  backend : Client.BackendFollows l.proxy

theorem not_unmade {s : Sock} {i : ℕ} {p : Peer} (h : s.made[i]? = some p) : ¬ s.made.length ≤ i := by
  obtain ⟨hlt, -⟩ := List.getElem?_eq_some_iff.mp h
  omega

theorem Line.Sound.browser (h : l.Sound addr i) (he : ¬ e.IsFrom i) (hs : l.sock.step e = some s') :
    Line.Sound addr i { l with sock := s', given := l.given ++ givenTo i l.sock e } where
  carries := carries_step h.carries hs
  unmade hi := h.unmade (Nat.le_trans (length_made_step hs) hi)
  delivered q hq := by
    rcases comesFrom_step hs hq with ⟨p, hp, hsent, -⟩ | ⟨hi, -⟩
    · exact (h.delivered p hp).trans hsent
    · exact (h.unmade hi).1 ▸ List.nil_prefix
  first q hq := by
    rcases comesFrom_step hs hq with ⟨p, hp, -, hf⟩ | ⟨hi, -, hf⟩
    · rw [hf he]
      exact h.first p hp
    · exact iff_of_true hf (h.unmade hi).2
  handed := h.handed
  arrived := h.arrived
  reader := h.reader
  backend := h.backend

theorem prefix_concat {ms ns : List Bytes} {m : Bytes} (h : ms <+: ns) (hm : ns[ms.length]? = some m) :
    ms ++ [m] <+: ns := by
  obtain ⟨rest, rfl⟩ := h
  rw [List.getElem?_append_right (Nat.le_refl _), Nat.sub_self] at hm
  cases rest with
  | nil => cases hm
  | cons n rest =>
    cases hm
    exact ⟨rest, by simp⟩

theorem Line.Sound.up (h : l.Sound addr i) {p : Peer} (hp : l.sock.made[i]? = some p) {data : Bytes}
    (hd : p.sent[l.delivered.length]? = some data) {x : Client.State A}
    (hx : Client.step addr l.proxy (.browserSends data) = some x) :
    Line.Sound addr i { l with proxy := x } where
  carries := h.carries
  unmade hi := absurd hi (not_unmade hp)
  delivered q hq := by
    cases Option.some.inj (hp.symm.trans hq)
    cases hx
    have hpre := prefix_concat (h.delivered p hp) hd
    rwa [Line.delivered, List.append_assoc] at hpre
  first := h.first
  handed := h.handed.trans (written_step hx).length_le
  arrived := by
    cases hx
    exact h.arrived
  reader := Client.readerFollows_step h.reader hx
  backend := Client.backendFollows_step h.backend hx

theorem Line.Sound.down (h : l.Sound addr i) {data : Bytes} (hd : l.proxy.written[l.handed]? = some data)
    (hs : l.sock.step (.message i data) = some s') : Line.Sound addr i { l with
      sock := s'
      handed := l.handed + 1
      arrived := l.arrived ++ (s'.recvQueue.drop l.sock.recvQueue.length).map (·.data) } := by
  obtain ⟨p, q, hp, hq, -, hfirst, harrives⟩ := message_spec hs
  have hcarries := carries_step h.carries hs
  obtain ⟨hlt, -⟩ := List.getElem?_eq_some_iff.mp hd
  refine ⟨?_, fun hi => absurd hi (not_unmade hq), fun r hr => ?_, fun r hr => ?_, hlt, ?_, h.reader,
    h.backend⟩
  · exact List.append_nil l.given ▸ hcarries
  · rcases comesFrom_step (i := i) hs hr with ⟨p', hp', hsent, -⟩ | ⟨hi, -⟩
    · exact (h.delivered p' hp').trans hsent
    · exact absurd hi (not_unmade hp)
  · cases Option.some.inj (hq.symm.trans hr)
    exact iff_of_false (by simp [hfirst]) (by simp)
  · show l.arrived ++ _ = _
    have hnil : l.proxy.written.take l.handed = [] ↔ l.handed = 0 := by
      rw [List.take_eq_nil_iff, or_iff_left_of_imp]
      intro hw
      rw [hw] at hlt
      exact absurd hlt (Nat.not_lt_zero _)
    have hcond : p.first = true ∧ isPortMessage data = true ↔
        l.proxy.written.take l.handed = [] ∧ isPortMessage data = true := by rw [hnil, h.first p hp]
    rw [harrives, h.arrived, List.take_add_one, hd, Option.toList_some, heard_concat]
    exact congrArg _ (if_congr hcond rfl rfl)

theorem Line.Sound.proxied (h : l.Sound addr i) {a : Client.Action A} (ha : ¬ IsMessage a)
    {x : Client.State A}
    (hx : Client.step addr l.proxy a = some x) : Line.Sound addr i { l with proxy := x } := by
  have hdelivered : Line.delivered { l with proxy := x } = l.delivered := delivered_step hx ha
  obtain ⟨more, hmore⟩ := written_step hx
  refine ⟨h.carries, hdelivered ▸ h.unmade, hdelivered ▸ h.delivered, h.first, ?_, ?_, ?_, ?_⟩
  · exact h.handed.trans (written_step hx).length_le
  · show l.arrived = _
    rw [← hmore, List.take_append_of_le_length h.handed]
    exact h.arrived
  · exact Client.readerFollows_step h.reader hx
  · exact Client.backendFollows_step h.backend hx

theorem sound_step (h : l.Sound addr i) {m : Move A} (hs : l.step addr i m = some l') : l'.Sound addr i := by
  cases m with
  | browser e =>
    simp only [Line.step] at hs
    split at hs
    · cases hs
    · obtain ⟨s, hstep, rfl⟩ := Option.map_eq_some_iff.mp hs
      exact h.browser ‹_› hstep
  | up =>
    obtain ⟨p, hp, hs⟩ := Option.bind_eq_some_iff.mp hs
    obtain ⟨data, hd, hs⟩ := Option.bind_eq_some_iff.mp hs
    obtain ⟨x, hx, rfl⟩ := Option.map_eq_some_iff.mp hs
    exact h.up hp hd hx
  | down =>
    obtain ⟨data, hd, hs⟩ := Option.bind_eq_some_iff.mp hs
    obtain ⟨s, hstep, rfl⟩ := Option.map_eq_some_iff.mp hs
    exact h.down hd hstep
  | proxy a =>
    simp only [Line.step] at hs
    split at hs
    · cases hs
    · obtain ⟨x, hx, rfl⟩ := Option.map_eq_some_iff.mp hs
      exact h.proxied ‹_› hx

theorem sound {ok : Line A → Move A → Prop} (h : Reach (Line.step addr i) ok Line.Starts l) :
    l.Sound addr i := by
  refine h.invariant ?_ fun _ _ _ hi _ hs => sound_step hi hs
  rintro _ ⟨type, rfl⟩
  refine ⟨⟨fun _ => rfl, nofun, nofun⟩, fun _ => ⟨rfl, rfl⟩, nofun, nofun, Nat.le_refl _, rfl, ?_, ?_⟩
  · exact ⟨List.prefix_refl _, fun _ => rfl, nofun⟩
  · exact ⟨List.prefix_refl _, fun _ => rfl, nofun⟩

/-! ### To the server -/

/-- The websocket can deliver all that was sent on it. -/
theorem exists_up (addr : A) {p : Peer} {rest : List Bytes} (hp : l.sock.made[i]? = some p)
    (hrest : p.sent = l.delivered ++ rest) :
      ∃ ms x, run (Line.step addr i) l ms = some { l with proxy := x } ∧
    x.messagesRead ++ x.messagesComing = p.sent ∧ x.reader = l.proxy.reader ∧ x.main = l.proxy.main := by
  induction rest generalizing l with
  | nil => exact ⟨[], l.proxy, rfl, by rw [hrest, List.append_nil, Line.delivered], rfl, rfl⟩
  | cons data rest ih =>
    have hnext : p.sent[l.delivered.length]? = some data := by
      rw [hrest, List.getElem?_append_right (Nat.le_refl _), Nat.sub_self, List.getElem?_cons_zero]
    have hstep : l.step addr i .up = some { l with
        proxy := { l.proxy with messagesComing := l.proxy.messagesComing ++ [data] } } := by
      simp only [Line.step, hp, Option.bind_some, hnext]
      rfl
    obtain ⟨ms, x, hrun, hx, hreader, hmain⟩ := ih (l := { l with
      proxy := { l.proxy with messagesComing := l.proxy.messagesComing ++ [data] } }) hp (by
        rw [hrest, Line.delivered, Line.delivered]
        simp only [List.append_assoc, List.singleton_append])
    refine ⟨.up :: ms, x, ?_, hx, hreader, hmain⟩
    rw [run_cons, hstep]
    exact hrun

/-- The reader can send all that has come to it. -/
theorem exists_read (addr : A) {x : Client.State A} (hr : x.reader = .reading) (ho : x.backendOpen = true) :
    ∃ as y, run (Client.step addr) x as = some y ∧ (∀ a ∈ as, ¬ IsMessage a) ∧ y.reader = .reading ∧
    y.messagesRead = x.messagesRead ++ x.messagesComing := by
  induction hc : x.messagesComing generalizing x with
  | nil => exact ⟨[], x, rfl, by simp, hr, (List.append_nil _).symm⟩
  | cons msg rest ih =>
    let z : Client.State A := { x with
      messagesRead := x.messagesRead ++ [msg]
      messagesComing := rest
      reader := .reading
      sent := if isPort msg then x.sent else x.sent ++ [(addr, msg)] }
    obtain ⟨as, y, hrun, has, hy, hread⟩ := ih (x := z) rfl ho rfl
    have hread' : y.messagesRead = x.messagesRead ++ msg :: rest := by
      rw [hread, List.append_assoc, List.singleton_append]
    cases hm : isPort msg with
    | true =>
      refine ⟨.readMessage :: as, y, ?_, List.forall_mem_cons.mpr ⟨id, has⟩, hy, hread'⟩
      rw [run_cons, Client.step, hr, hc]
      simp only [z, hm, if_true] at hrun
      simp only [hm, if_true, Option.bind_some]
      exact hr ▸ hrun
    | false =>
      refine ⟨.readMessage :: .send :: as, y, ?_, ?_, hy, hread'⟩
      · rw [run_cons, Client.step, hr, hc]
        simp only [z, hm, Bool.false_eq_true, if_false] at hrun
        have ho' := ho
        unfold Client.State.backendOpen at ho'
        simp only [hm, Bool.false_eq_true, if_false, Option.bind_some, run_cons, Client.step,
          Client.State.backendOpen, ho', if_true]
        exact hrun
      · exact List.forall_mem_cons.mpr ⟨id, List.forall_mem_cons.mpr ⟨id, has⟩⟩

/-- The proxy steps by itself. -/
theorem run_proxied {as : List (Client.Action A)} (ha : ∀ a ∈ as, ¬ IsMessage a) {y : Client.State A}
    (h : run (Client.step addr) l.proxy as = some y) :
    run (Line.step addr i) l (as.map .proxy) = some { l with proxy := y } := by
  induction as generalizing l with
  | nil =>
    cases h
    rfl
  | cons a as ih =>
    obtain ⟨x, hx, hrest⟩ := Option.bind_eq_some_iff.mp h
    have hstep : l.step addr i (.proxy a) = some { l with proxy := x } := by
      rw [Line.step, if_neg (ha a List.mem_cons_self), hx, Option.map_some]
    rw [List.map_cons, run_cons, hstep]
    exact ih (l := { l with proxy := x }) (fun b hb => ha b (List.mem_cons_of_mem a hb)) hrest

theorem forwarded_told {told : List Bytes} (h : ∀ m ∈ told, isPort m = true) (given : List Bytes) :
    forwarded addr (told ++ given) = forwarded addr given := by
  have htold : told.filter (fun m => !isPort m) = [] := by
    rw [List.filter_eq_nil_iff]
    intro m hm
    simp [h m hm]
  rw [forwarded, forwarded, List.filter_append, htold, List.nil_append]

/-- The proxy's reader takes messages: neither the browser nor the backend has failed it. -/
def TakesMessages (x : Client.State A) : Prop := x.reader = .reading ∨ ∃ msg, x.reader = .sending msg

/-- The server can get all that the game has sent, from where the reader waits for a message. -/
theorem exists_forwarded {i : ℕ} (h : Reach (Line.step addr i) always Line.Starts l) {p : Peer}
    (hp : l.sock.made[i]? = some p) (ho : p.readyState = .opened) (hr : l.proxy.reader = .reading)
    (hb : l.proxy.backendOpen = true) : ∃ ms t, run (Line.step addr i) l ms = some t ∧ t.given = l.given ∧
      t.proxy.sent = forwarded addr l.given := by
  have hl := sound h
  obtain ⟨told, htold, he⟩ := hl.carries.made p hp
  rw [hl.carries.opened p hp ho, List.append_nil] at he
  obtain ⟨rest, hrest⟩ := hl.delivered p hp
  obtain ⟨ms, x, hup, hx, hreader, hmain⟩ := exists_up addr hp hrest.symm
  have hopen : x.backendOpen = true := by rwa [Client.State.backendOpen, hmain]
  obtain ⟨as, y, hrun, has, hy, hread⟩ := exists_read addr (hreader.trans hr) hopen
  have hall : run (Line.step addr i) l (ms ++ as.map .proxy) = some { l with proxy := y } := by
    rw [run_append, hup]
    exact run_proxied (l := { l with proxy := x }) has hrun
  refine ⟨ms ++ as.map .proxy, { l with proxy := y }, hall, rfl, ?_⟩
  have hsent := (sound (h.of_run (along_always _ _) hall)).reader.reading hy
  exact hsent.trans (by rw [hread, hx, he, forwarded_told htold])

/-- **The game server gets what the game has sent**, in order and once, without what
looks like a port message; it can get all of it as long as both ends are open. -/
theorem to_server {i : ℕ} (h : Reach (Line.step addr i) always Line.Starts l) :
    l.proxy.sent <+: forwarded addr l.given ∧
    ∀ p, l.sock.made[i]? = some p → p.readyState = .opened → TakesMessages l.proxy →
      l.proxy.backendOpen = true →
      ∃ ms t, run (Line.step addr i) l ms = some t ∧ t.given = l.given ∧
        t.proxy.sent = forwarded addr l.given := by
  have hl := sound h
  constructor
  · cases hp : l.sock.made[i]? with
    | none =>
      have hnone := (hl.unmade (List.getElem?_eq_none_iff.mp hp)).1
      have hread := hl.reader.sent
      rw [List.append_eq_nil_iff.mp hnone |>.1] at hread
      exact List.prefix_nil.mp hread ▸ List.nil_prefix
    | some p =>
      obtain ⟨told, htold, he⟩ := hl.carries.made p hp
      have hpre : l.proxy.messagesRead <+: told ++ l.given :=
        ((List.prefix_append _ _).trans (hl.delivered p hp)).trans (he ▸ List.prefix_append _ _)
      obtain ⟨more, hmore⟩ := hpre
      have hforwarded := Client.forwarded_prefix_of_append addr l.proxy.messagesRead more
      rw [hmore, forwarded_told htold] at hforwarded
      exact hl.reader.sent.trans hforwarded
  · intro p hp ho hr hb
    rcases hr with hr | ⟨msg, hr⟩
    · exact exists_forwarded h hp ho hr hb
    · -- the message in hand goes first
      let x : Client.State A := { l.proxy with sent := l.proxy.sent ++ [(addr, msg)], reader := .reading }
      have hstep : Client.step addr l.proxy .send = some x := by simp only [Client.step, hr, hb, if_true, x]
      have hnot : ¬ IsMessage (Client.Action.send : Client.Action A) := id
      have hsend : l.step addr i (.proxy .send) = some { l with proxy := x } := by
        rw [Line.step, if_neg hnot, hstep, Option.map_some]
      obtain ⟨ms, t, hrun, ht⟩ := exists_forwarded (h.next _ trivial hsend) hp ho rfl hb
      refine ⟨.proxy .send :: ms, t, ?_, ht⟩
      rw [run_cons, hsend]
      exact hrun

/-- A message that waits for the websocket, behind the socket's port. -/
theorem to_server_waiting :
    ∃ l, run (Line.step (0 : ℕ) 0) ⟨createSocket .dgram, .initial, 0, [], []⟩
      [.browser (.bind 27961), .browser (.sendmsg false [0x41] (some ([], 0))), .browser (.opens 0)] =
        some l ∧
    l.proxy.sent <+: forwarded 0 l.given ∧
    ∃ ms t, run (Line.step 0 0) l ms = some t ∧ t.proxy.sent = [(0, [0x41])] := by
  obtain ⟨l, hrun, hgiven, ⟨p, hp, ho⟩, hr, hb⟩ :
      ∃ l, run (Line.step (0 : ℕ) 0) ⟨createSocket .dgram, .initial, 0, [], []⟩
        [.browser (.bind 27961), .browser (.sendmsg false [0x41] (some ([], 0))), .browser (.opens 0)] =
          some l ∧
      l.given = [[0x41]] ∧ (∃ p, l.sock.made[0]? = some p ∧ p.readyState = .opened) ∧
      l.proxy.reader = .reading ∧ l.proxy.backendOpen = true := ⟨_, rfl, rfl, ⟨_, rfl, rfl⟩, rfl, rfl⟩
  have hreach : Reach (Line.step (0 : ℕ) 0) always Line.Starts l :=
    .of_run (.start ⟨.dgram, rfl⟩) (along_always _ _) hrun
  obtain ⟨hpre, hall⟩ := to_server hreach
  obtain ⟨ms, t, hms, -, hsent⟩ := hall p hp ho (.inl hr) hb
  refine ⟨l, hrun, hpre, ms, t, hms, hsent.trans ?_⟩
  rw [hgiven]
  decide

/-! ### To the game -/

/-- The websocket can deliver all that was written to it. -/
theorem exists_down (addr : A) {p : Peer} (hp : l.sock.made[i]? = some p)
    (ho : p.readyState = .opened) {n : ℕ}
    (hn : l.handed + n = l.proxy.written.length) : ∃ ms t, run (Line.step addr i) l ms = some t ∧
    t.proxy = l.proxy ∧ t.handed = l.proxy.written.length := by
  induction n generalizing l p with
  | zero => exact ⟨[], l, rfl, rfl, hn⟩
  | succ n ih =>
    have hlt : l.handed < l.proxy.written.length := by omega
    have hstep : l.sock.step (.message i l.proxy.written[l.handed]) =
        some (l.sock.handleMessage i p l.proxy.written[l.handed]) := by
      simp only [Sock.step, hp, ho, if_true]
    obtain ⟨p', q, -, hq, hopen, -⟩ := message_spec hstep
    let l' : Line A := { l with
      sock := l.sock.handleMessage i p l.proxy.written[l.handed]
      handed := l.handed + 1
      arrived := l.arrived ++ ((l.sock.handleMessage i p l.proxy.written[l.handed]).recvQueue.drop
        l.sock.recvQueue.length).map (·.data) }
    have hdown : l.step addr i .down = some l' := by
      simp only [Line.step, List.getElem?_eq_getElem hlt, Option.bind_some, hstep]
      rfl
    obtain ⟨ms, t, hrun, ht, hhanded⟩ :=
      ih (l := l') hq hopen (show l.handed + 1 + n = l.proxy.written.length by omega)
    refine ⟨.down :: ms, t, ?_, ht, hhanded⟩
    rw [run_cons, hdown]
    exact hrun

/-- **The game gets what was sent to the proxy**, in order and once, but for a first
datagram that is a port message; it can get all that was written as long as its end is open. -/
theorem to_game {i : ℕ} (h : Reach (Line.step addr i) always Line.Starts l) :
    l.arrived <+: heard (l.proxy.datagramsRead.map (·.payload)) ∧
    ∀ p, l.sock.made[i]? = some p → p.readyState = .opened →
      ∃ ms t, run (Line.step addr i) l ms = some t ∧ t.proxy = l.proxy ∧
        t.arrived = heard l.proxy.written := by
  have hl := sound h
  constructor
  · rw [hl.arrived]
    exact heard_prefix ((List.take_prefix _ _).trans hl.backend.written)
  · intro p hp ho
    obtain ⟨ms, t, hrun, ht, hhanded⟩ := exists_down addr hp ho (Nat.add_sub_cancel' hl.handed)
    refine ⟨ms, t, hrun, ht, ?_⟩
    rw [(sound (h.of_run (along_always _ _) hrun)).arrived, hhanded, ht, List.take_length]

/-- A datagram that has been written to the browser. -/
theorem to_game_written :
    ∃ l, run (Line.step (0 : ℕ) 0) ⟨createSocket .dgram, .initial, 0, [], []⟩
      [.browser (.sendmsg false [0x41] (some ([], 0))), .browser (.opens 0), .proxy (.arrives ⟨0, [0x42]⟩),
        .proxy .receive, .proxy .writeBegins, .proxy .writeEnds] = some l ∧
    l.arrived <+: heard (l.proxy.datagramsRead.map (·.payload)) ∧
    ∃ ms t, run (Line.step 0 0) l ms = some t ∧ t.arrived = [[0x42]] := by
  obtain ⟨l, hrun, hwritten, p, hp, ho⟩ :
      ∃ l, run (Line.step (0 : ℕ) 0) ⟨createSocket .dgram, .initial, 0, [], []⟩
        [.browser (.sendmsg false [0x41] (some ([], 0))), .browser (.opens 0), .proxy (.arrives ⟨0, [0x42]⟩),
          .proxy .receive, .proxy .writeBegins, .proxy .writeEnds] = some l ∧
      l.proxy.written = [[0x42]] ∧ ∃ p, l.sock.made[0]? = some p ∧ p.readyState = .opened :=
    ⟨_, rfl, rfl, _, rfl, rfl⟩
  have hreach : Reach (Line.step (0 : ℕ) 0) always Line.Starts l :=
    .of_run (.start ⟨.dgram, rfl⟩) (along_always _ _) hrun
  obtain ⟨hpre, hall⟩ := to_game hreach
  obtain ⟨ms, t, hms, -, harrived⟩ := hall p hp ho
  refine ⟨l, hrun, hpre, ms, t, hms, harrived.trans ?_⟩
  rw [hwritten]
  decide

end Browser
end QuakeKube
