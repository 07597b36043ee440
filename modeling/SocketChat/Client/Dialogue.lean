/-
A client and the server.

The server is the one with a pool of workers, in any run, and `K` is the connection of one of
its clients; all others are represented by what the server receives from them.  This client
makes requests one at a time: it sends a packet and waits for the next packet it receives,
whichever that is.  Between requests it may chat, and then its receiver thread takes packets
too; during `ExitRoom` both take them.  Packets arrive whole and in the order in which they
were sent, in either direction, and the connection is not closed.

Each packet for the client is accompanied by the position of the packet whose handler has
sent it, and `asked` and `applied` record what became of the latest request: the position at
which it was received, and whether its handler has written to the client's record.  They are
read by no step.
-/
import SocketChat.Client.Services
import SocketChat.Server.ThreadPool

namespace SocketChat

open Client

structure Dialogue (N : ℕ) where
  server : ThreadPool N
  /-- Sent by the client, and not received yet. -/
  outgoing : List Packet
  /-- Sent to the client, and not received yet. -/
  incoming : List (ℕ × Packet)
  client : Services
  /-- The call that waits for an answer. -/
  waiting : Option Request
  asked : Option ℕ
  applied : Bool

/-- What a call sends on a connection. -/
def Call.sentOn (K : Connection) (s : Server) : Call → Option Packet
  | .send fd packet => if fd = K.fd ∧ s.Open K then some packet else none
  | _ => none

/-- The call writes to the record of a connection. -/
def Call.writesTo (K : Connection) (s : Server) : Call → Bool
  | .setNickname fd _ => decide (fd = K.fd ∧ s.Open K)
  | .setRoomCode conn _ => decide (conn = K ∧ s.Open K)
  | _ => false

/-- The server has what was asked for in its tables. -/
def Client.Request.InForce (s : Server) (K : Connection) : Request → Prop
  | .registerNickname nickname =>
    ∃ info, s.client? K.fd = some info ∧ info.nickname = nickname
  | .createRoom _ _ => ∃ info room, s.client? K.fd = some info ∧
      s.room? info.roomCode = some room ∧ K.fd ∈ room.clients
  | .joinRoom code => ∃ info room, s.client? K.fd = some info ∧ info.roomCode = code ∧
      s.room? code = some room ∧ K.fd ∈ room.clients
  | .exitRoom => ∃ info, s.client? K.fd = some info ∧ info.roomCode = []

namespace Dialogue

variable {N : ℕ}

def init (N : ℕ) (codes : CodeStream) : Dialogue N where
  server := ThreadPool.init N codes
  outgoing := []
  incoming := []
  client := Services.init
  waiting := none
  asked := none
  applied := false

inductive Event (N : ℕ) where
  | server (e : ThreadPool.Event N)
  /-- `RegisterNickname`, `CreateRoom`, `JoinRoom` or `ExitRoom` is called. -/
  | call (r : Request)
  /-- The packet `Receive` returns in such a call. -/
  | receive
  /-- `ChatService::SendMessage` -/
  | sendMessage (message : Bytes)
  /-- The receiver thread receives a packet. -/
  | receiveLoop

/-- What the server does with the connection: it is not closed, and what is received on it
has been sent by the client. -/
def Carries (K : Connection) (d : Dialogue N) : ThreadPool.Event N → Prop
  | .env (.close fd) => d.server.shared.connection fd ≠ K
  | .push t => t.conn = K → d.outgoing.head? = some t.packet
  | _ => True

instance (K : Connection) (d : Dialogue N) (e : ThreadPool.Event N) :
    Decidable (d.Carries K e) := by
  cases e with
  | env e =>
    cases e with
    | close fd => exact inferInstanceAs (Decidable (_ ≠ _))
    | accept fd ip added => exact inferInstanceAs (Decidable True)
  | push t => exact inferInstanceAs (Decidable (_ → _))
  | _ => exact inferInstanceAs (Decidable True)

/-- What the client, or its connection, gets of a step of the server. -/
def follow (K : Connection) (d : Dialogue N) (e : ThreadPool.Event N) (server : ThreadPool N) :
    Dialogue N :=
  match e with
  | .push t =>
    if t.conn = K then
      { d with
        server := server
        outgoing := d.outgoing.tail
        -- a call that waits has sent the last packet
        asked := if d.waiting.isSome ∧ d.outgoing.tail = [] then some d.server.received.length
          else d.asked }
    else { d with server := server }
  | .act w =>
    match d.server.pending w with
    | some (i, c) =>
      { d with
        server := server
        incoming := d.incoming ++ ((c.sentOn K d.server.shared).map (i, ·)).toList
        applied := d.applied || (d.asked == some i && c.writesTo K d.server.shared) }
    | none => { d with server := server }
  | _ => { d with server := server }

def step (json : Nlohmann) (K : Connection) (d : Dialogue N) : Event N → Option (Dialogue N)
  | .server e =>
    if d.Carries K e then (ThreadPool.step json d.server e).map (d.follow K e) else none
  | .call r =>
    if d.waiting = none ∧ d.server.shared.Open K then
      if r.refused d.client then some { d with asked := none, applied := false }
      else
        match r.packet json with
        -- `dump` throws, or the text does not fit the packet
        | .error _ => none
        | .ok packet =>
          if packet.payload.length ≤ maxPayloadSize then
            some { d with
              outgoing := d.outgoing ++ [packet]
              waiting := some r
              asked := none
              applied := false }
          else none
    else none
  | .receive =>
    match d.waiting, d.incoming with
    | some r, (_, response) :: rest =>
      some { d with
        incoming := rest
        client := ((r.answered json d.client response).toOption.map Prod.snd).getD d.client
        waiting := none }
    | _, _ => none
  | .sendMessage message =>
    if d.waiting = none ∧ d.server.shared.Open K ∧ message ≠ [] then
      match createMessageSendPacket json message with
      | .error _ => none
      | .ok packet =>
        if packet.payload.length ≤ maxPayloadSize then
          some { d with outgoing := d.outgoing ++ [packet] }
        else none
    else none
  | .receiveLoop =>
    if d.waiting = none ∨ d.waiting = some .exitRoom then
      match d.incoming with
      | _ :: rest => some { d with incoming := rest }
      | [] => none
    else none

/-- The call that returns in a step, and what it returns. -/
def returns (json : Nlohmann) (d : Dialogue N) : Event N → Option (Request × Bool)
  | .call r => if r.refused d.client then some (r, false) else none
  | .receive =>
    match d.waiting, d.incoming with
    | some r, (_, response) :: _ =>
      ((r.answered json d.client response).toOption.map Prod.fst).map (r, ·)
    | _, _ => none
  | _ => none

/-! ### Agreement -/

/-- **The two sides agree** on a call for request `r` that has just returned `b`: it returned
true exactly if the server has applied the request, what the server has applied is in its
tables, and a call to enter a room leaves the client with the room code of its record. -/
structure Agrees (K : Connection) (r : Request) (b : Bool) (d : Dialogue N) : Prop where
  outcome : b = true ↔ d.applied = true
  inForce : d.applied = true → r.InForce d.server.shared K
  room : r.EntersRoom → ∃ info, d.server.shared.client? K.fd = some info ∧
    info.roomCode = d.client.m_current_room_code

/-- No request received on the descriptor of the connection is under way, and the client has
sent none. -/
structure Settled (K : Connection) (d : Dialogue N) : Prop where
  outgoing : ∀ p ∈ d.outgoing, ¬ IsRequest p.type
  finished : ∀ i task, d.server.received[i]? = some task → task.conn.fd = K.fd →
    IsRequest task.packet.type → ¬ d.server.Unfinished i

/-- A step in which the client cannot be misled.  It makes a request when no other is under
way, and one to enter a room when it knows the room code of its record; the packet it
receives in a call has been sent by the handler of its request, and not by another in front of
it; the room created for it admits it when the handler enters it there; and no worker writes
to an erased record, whose memory may be the client's by now. -/
def Unmistaken (K : Connection) (d : Dialogue N) : Event N → Prop
  | .call r => r ≠ .exitRoom → r.refused d.client = false → d.Settled K ∧
      (r.EntersRoom → ∃ info, d.server.shared.client? K.fd = some info ∧
        info.roomCode = d.client.m_current_room_code)
  | .receive => d.waiting ≠ some .exitRoom → d.incoming.head?.map Prod.fst = d.asked
  | .server (.act w) =>
    (∀ name max i fd code, d.waiting = some (.createRoom name max) → d.asked = some i →
      d.server.pending w = some (i, .joinRoom fd code) →
      ∃ room, d.server.shared.room? code = some room ∧
        room.clients.length < sizeOfInt room.maxUserCnt ∧ fd ∉ room.clients) ∧
      ¬ d.server.WritesErased (.act w)
  | _ => True

/-! ### What the client does in a step -/

variable {json : Nlohmann} {K : Connection} {d d' : Dialogue N} {r : Request} {b : Bool}

theorem step_server {e : ThreadPool.Event N} (h : step json K d (.server e) = some d') :
    d.Carries K e ∧ ∃ t, ThreadPool.step json d.server e = some t ∧ d' = d.follow K e t := by
  rw [step] at h
  by_cases hcarries : d.Carries K e
  · rw [if_pos hcarries] at h
    obtain ⟨t, ht, rfl⟩ := Option.map_eq_some_iff.mp h
    exact ⟨hcarries, t, ht, rfl⟩
  · rw [if_neg hcarries] at h
    cases h

/-- A call returns false at once, or sends its packet and waits. -/
theorem step_call (h : step json K d (.call r) = some d') :
    d.waiting = none ∧ d.server.shared.Open K ∧
      ((r.refused d.client = true ∧ d' = { d with asked := none, applied := false }) ∨
        (r.refused d.client = false ∧ ∃ packet, r.packet json = .ok packet ∧
          packet.payload.length ≤ maxPayloadSize ∧
          d' = { d with
            outgoing := d.outgoing ++ [packet]
            waiting := some r
            asked := none
            applied := false })) := by
  rw [step] at h
  by_cases hfree : d.waiting = none ∧ d.server.shared.Open K
  · rw [if_pos hfree] at h
    refine ⟨hfree.1, hfree.2, ?_⟩
    by_cases hrefused : r.refused d.client = true
    · rw [if_pos hrefused, Option.some_inj] at h
      exact Or.inl ⟨hrefused, h.symm⟩
    · rw [if_neg hrefused] at h
      refine Or.inr ⟨Bool.eq_false_of_not_eq_true hrefused, ?_⟩
      cases hpacket : r.packet json with
      | error e =>
        simp only [hpacket] at h
        cases h
      | ok packet =>
        simp only [hpacket] at h
        by_cases hfits : packet.payload.length ≤ maxPayloadSize
        · rw [if_pos hfits, Option.some_inj] at h
          exact ⟨packet, rfl, hfits, h.symm⟩
        · rw [if_neg hfits] at h
          cases h
  · rw [if_neg hfree] at h
    cases h

/-- The next packet is taken, and the call is over. -/
theorem step_receive (h : step json K d .receive = some d') :
    ∃ r i response rest, d.waiting = some r ∧ d.incoming = (i, response) :: rest ∧
      d' = { d with
        incoming := rest
        client := ((r.answered json d.client response).toOption.map Prod.snd).getD d.client
        waiting := none } := by
  rw [step] at h
  cases hwaiting : d.waiting with
  | none =>
    rw [hwaiting] at h
    cases h
  | some r =>
    cases hincoming : d.incoming with
    | nil =>
      rw [hwaiting, hincoming] at h
      cases h
    | cons x rest =>
      rw [hwaiting, hincoming] at h
      exact ⟨r, x.1, x.2, rest, rfl, rfl, (Option.some.inj h).symm⟩

theorem step_sendMessage {message : Bytes} (h : step json K d (.sendMessage message) = some d') :
    d.waiting = none ∧ ∃ packet, d' = { d with outgoing := d.outgoing ++ [packet] } := by
  rw [step] at h
  by_cases hfree : d.waiting = none ∧ d.server.shared.Open K ∧ message ≠ []
  · rw [if_pos hfree] at h
    refine ⟨hfree.1, ?_⟩
    cases hpacket : createMessageSendPacket json message with
    | error e =>
      simp only [hpacket] at h
      cases h
    | ok packet =>
      simp only [hpacket] at h
      by_cases hfits : packet.payload.length ≤ maxPayloadSize
      · rw [if_pos hfits, Option.some_inj] at h
        exact ⟨packet, h.symm⟩
      · rw [if_neg hfits] at h
        cases h
  · rw [if_neg hfree] at h
    cases h

theorem step_receiveLoop (h : step json K d .receiveLoop = some d') :
    (d.waiting = none ∨ d.waiting = some .exitRoom) ∧
      ∃ x rest, d.incoming = x :: rest ∧ d' = { d with incoming := rest } := by
  rw [step] at h
  by_cases hrunning : d.waiting = none ∨ d.waiting = some .exitRoom
  · rw [if_pos hrunning] at h
    refine ⟨hrunning, ?_⟩
    cases hincoming : d.incoming with
    | nil =>
      rw [hincoming] at h
      cases h
    | cons x rest =>
      rw [hincoming] at h
      exact ⟨x, rest, rfl, (Option.some.inj h).symm⟩
  · rw [if_neg hrunning] at h
    cases h

end Dialogue

end SocketChat
