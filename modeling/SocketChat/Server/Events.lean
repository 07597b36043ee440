/-
The server as a state machine.

An `Event` is something the outside world does to the server, executed to completion:
a connection is accepted, a packet of a connected client is handled, a connection is
closed.  `step` is the guarded step function of this machine; its runs are the
sequential runs of the server.  The packets sent in a step are found in `sent` of the
state it leads to.
-/
import SocketChat.Lib.Transition
import SocketChat.Server.Handlers

namespace SocketChat

namespace ConnectionManager

/-- `acceptNewConnection`, once `accept` has returned descriptor `fd`; `added` is
whether epoll took the descriptor. -/
def acceptNewConnection (s : Server) (fd : Fd) (ip : Bytes) (added : Bool) : Server :=
  if 0 < fd ∧ added = true then
    { s with
      clientManager := s.clientManager.addClient fd ip
      accepts := fun g => if g = fd then s.accepts fd + 1 else s.accepts g }
  else s

def closeConnection (s : Server) (client_fd : Fd) : Server :=
  { s with clientManager := s.clientManager.removeClient client_fd }

end ConnectionManager

inductive Event where
  | accept (fd : Fd) (ip : Bytes) (added : Bool)
  | packet (fd : Fd) (packet : Packet) (now : LocalTime)
  | close (fd : Fd)

namespace Event

/-- A descriptor is accepted only while it is not open; packets come from, and
connections are closed of, connected clients. -/
def Possible (s : Server) : Event → Prop
  | accept fd _ _ => s.client? fd = none
  | packet fd p _ => (s.client? fd).isSome = true ∧ p.Filled
  | close fd => (s.client? fd).isSome = true

instance (s : Server) (e : Event) : Decidable (e.Possible s) := by
  cases e with
  | accept fd ip added =>
    exact decidable_of_iff ((s.client? fd).isNone = true) Option.isNone_iff_eq_none
  | packet fd p now => exact inferInstanceAs (Decidable (_ ∧ _))
  | close fd => exact inferInstanceAs (Decidable (_ = _))

def perform (json : Nlohmann) (s : Server) : Event → Server
  | accept fd ip added => ConnectionManager.acceptNewConnection s fd ip added
  | packet fd p now => ((PacketHandler.handle json now fd p).exec serve s).2
  | close fd => ConnectionManager.closeConnection s fd

end Event

/-! ### Packets of a client -/

/-- Noon of the first day of 2024. -/
def noon : LocalTime := ⟨2024, 1, 1, 12, 0, 0⟩

/-- A packet of the given type and text, received at noon. -/
def Event.request (fd : Fd) (type : PacketType) (text : Bytes) : Event :=
  .packet fd (Packet.ofText type text) noon

/-- A request for a room of two. -/
def createRoomEvent (fd : Fd) : Event :=
  .request fd PacketType.createRoom (str "\x7b\"roomName\":\"lobby\",\"maxUsers\":2\x7d")

/-- A request to join the room `code`. -/
def joinRoomEvent (fd : Fd) (code : String) : Event :=
  .request fd PacketType.joinRoom
    (str "\x7b\"roomCode\":\"" ++ str code ++ str "\"\x7d")

/-- A request for a nickname made of letters. -/
def nicknameEvent (fd : Fd) (nickname : String) : Event :=
  .request fd PacketType.nicknameRequest
    (str "\x7b\"nickname\":\"" ++ str nickname ++ str "\"\x7d")

def exitRoomEvent (fd : Fd) : Event := .request fd PacketType.exitRoom []

/-- Clients 5, called `ann`, and 6 meet in a room. -/
def twoInRoom : List Event :=
  [.accept 5 (str "10.0.0.1") true, .accept 6 (str "10.0.0.2") true, nicknameEvent 5 "ann",
    createRoomEvent 5, joinRoomEvent 6 "aaaaaaaa"]

/-- A greeting. -/
def greeting : Packet :=
  Packet.ofText PacketType.messageSend (str "\x7b\"message\":\"hello\"\x7d")

namespace Server

/-- One event, executed to completion. -/
def step (json : Nlohmann) (s : Server) (e : Event) : Option Server :=
  if e.Possible s then some (e.perform json { s with sent := [] }) else none

variable {json : Nlohmann} {s s' : Server}

theorem step_eq_some {e : Event} :
    s.step json e = some s' ↔ e.Possible s ∧ e.perform json { s with sent := [] } = s' := by
  rw [step]
  by_cases h : e.Possible s
  · rw [if_pos h, Option.some_inj]
    exact ⟨fun heq => ⟨h, heq⟩, fun heq => heq.2⟩
  · rw [if_neg h]
    exact ⟨fun heq => absurd heq (by simp), fun heq => absurd heq.1 h⟩

end Server

end SocketChat
