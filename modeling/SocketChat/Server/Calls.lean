/-
The server's shared state and the calls by which handlers act on it.

A packet handler runs in a worker thread and shares the client table, the room table
and the sockets with the I/O thread and the other workers.  Each of its accesses is one
critical section of `ClientManager` or `RoomManager`, one write through the pointer
`getClient` returned, or one `PacketSender::send`; `Call` lists them and `serve` says
what each does.  Four things are taken for granted here:

* what a handler reads through the pointer it reads in the step that returned it, though
  `handle` for a message looks at `roomCode`, and `handleJoinRoom` at `nickname`, later on;
* `getRoom(roomCode)->getClientFds()` copies the member list of one moment, though
  `Room::getClientFds` takes no lock;
* `PacketSender::send` returns, though it tries again for as long as the peer's window is
  full;
* the record a handler writes to is still there.  The pointer outlives the record if the
  connection is closed meanwhile, and the source then writes to freed memory, which may be
  another record by now; here such a write changes nothing (`Server.Open` says that a
  record is there).

Two fields of `Server` record what happened and are read by no call: `accepts` counts
the connections accepted on each descriptor, which tells two connections with the same
descriptor apart, and `sent` lists the packets handed to `PacketSender::send`.
-/
import SocketChat.Lib.Prog
import SocketChat.Protocol
import SocketChat.Server.RoomManager

namespace SocketChat

structure Server where
  clientManager : ClientManager
  roomManager : RoomManager
  accepts : Fd → ℕ
  sent : List (Fd × Packet)

/-- One connection: a descriptor, and how many had been accepted on it by then. -/
structure Connection where
  fd : Fd
  number : ℕ
  deriving DecidableEq

namespace Server

/-- The server before the first connection. -/
def init (codes : CodeStream) : Server where
  clientManager := ClientManager.empty
  roomManager := ⟨∅, codes⟩
  accepts _ := 0
  sent := []

/-- The latest connection accepted on `fd`. -/
def connection (s : Server) (fd : Fd) : Connection := ⟨fd, s.accepts fd⟩

/-- The record of client `fd`, if it is connected. -/
def client? (s : Server) (fd : Fd) : Option ClientInfo := s.clientManager.getClient fd

/-- The connection is open: its record is there. -/
def Open (s : Server) (K : Connection) : Prop :=
  (s.client? K.fd).isSome = true ∧ s.connection K.fd = K

instance (s : Server) (K : Connection) : Decidable (s.Open K) :=
  inferInstanceAs (Decidable (_ ∧ _))

/-- The room with code `code`. -/
def room? (s : Server) (code : Bytes) : Option Room := s.roomManager.getRoom code

theorem client?_init (codes : CodeStream) (fd : Fd) : (init codes).client? fd = none :=
  ClientManager.getClient_empty fd

theorem room?_init (codes : CodeStream) (code : Bytes) : (init codes).room? code = none :=
  Table.find_empty code

end Server

/-! ### Calls -/

inductive Call where
  | getClient (client_fd : Fd)
  | isNicknameTaken (nickname : Bytes)
  | setNickname (client_fd : Fd) (nickname : Bytes)
  /-- `client->roomCode = roomCode`. -/
  | setRoomCode (client : Connection) (roomCode : Bytes)
  | addRoom (roomName : Bytes) (maxUserCnt : Int32)
  | joinRoom (clientFd : Fd) (roomCode : Bytes)
  | leaveRoom (clientFd : Fd) (roomCode : Bytes)
  /-- `getRoom(roomCode)` and, where there is a room, `getClientFds()`. -/
  | getClientFds (roomCode : Bytes)
  /-- `PacketSender::send`. -/
  | send (client_fd : Fd) (packet : Packet)
  deriving DecidableEq

/-- What a call returns.  `getClient` returns a pointer to the record of a connection,
and with it the record as it is. -/
abbrev Reply : Call → Type
  | .getClient _ => Option (Connection × ClientInfo)
  | .isNicknameTaken _ => Bool
  | .setNickname _ _ => Unit
  | .setRoomCode _ _ => Unit
  | .addRoom _ _ => Bytes
  | .joinRoom _ _ => Bool
  | .leaveRoom _ _ => Unit
  | .getClientFds _ => Option (List Fd)
  | .send _ _ => Unit

/-- What each call does.  A write through a pointer reaches the record of the connection
it was obtained for; when that has been erased no record changes, where the source would
write to freed memory. -/
def serve : (c : Call) → Server → Reply c × Server
  | .getClient fd, s => ((s.client? fd).map fun client => (s.connection fd, client), s)
  | .isNicknameTaken nickname, s => (s.clientManager.isNicknameTaken nickname, s)
  | .setNickname fd nickname, s =>
    ((), { s with clientManager := s.clientManager.setNickname fd nickname })
  | .setRoomCode conn roomCode, s =>
    match s.client? conn.fd with
    | some client =>
      if s.connection conn.fd = conn then
        ((), { s with
          clientManager := s.clientManager.setClient conn.fd { client with roomCode := roomCode } })
      else ((), s)
    | none => ((), s)
  | .addRoom roomName maxUserCnt, s =>
    let added := s.roomManager.addRoom roomName maxUserCnt
    (added.1, { s with roomManager := added.2 })
  | .joinRoom fd roomCode, s =>
    let joined := s.roomManager.joinRoom fd roomCode
    (joined.1, { s with roomManager := joined.2 })
  | .leaveRoom fd roomCode, s =>
    ((), { s with roomManager := s.roomManager.leaveRoom fd roomCode })
  | .getClientFds roomCode, s => ((s.room? roomCode).map Room.getClientFds, s)
  | .send fd packet, s => ((), { s with sent := s.sent ++ [(fd, packet)] })

/-- A packet handler: a program that makes server calls. -/
abbrev Handler (α : Type) := Prog Reply α

namespace Handler

def getClient (client_fd : Fd) : Handler (Option (Connection × ClientInfo)) :=
  .call (.getClient client_fd) .ret

def isNicknameTaken (nickname : Bytes) : Handler Bool := .call (.isNicknameTaken nickname) .ret

def setNickname (client_fd : Fd) (nickname : Bytes) : Handler Unit :=
  .call (.setNickname client_fd nickname) .ret

def setRoomCode (client : Connection) (roomCode : Bytes) : Handler Unit :=
  .call (.setRoomCode client roomCode) .ret

def addRoom (roomName : Bytes) (maxUserCnt : Int32) : Handler Bytes :=
  .call (.addRoom roomName maxUserCnt) .ret

def joinRoom (clientFd : Fd) (roomCode : Bytes) : Handler Bool :=
  .call (.joinRoom clientFd roomCode) .ret

def leaveRoom (clientFd : Fd) (roomCode : Bytes) : Handler Unit :=
  .call (.leaveRoom clientFd roomCode) .ret

def getClientFds (roomCode : Bytes) : Handler (Option (List Fd)) :=
  .call (.getClientFds roomCode) .ret

/-- `Server::sendPacket`. -/
def sendPacket (client_fd : Fd) (packet : Packet) : Handler Unit :=
  .call (.send client_fd packet) .ret

/-- The loop of `broadcastPacketForRoom`. -/
def sendEach (packet : Packet) (exclude_fd : Fd) : List Fd → Handler Unit
  | [] => pure ()
  | fd :: fds =>
    if fd ≠ exclude_fd then do
      sendPacket fd packet
      sendEach packet exclude_fd fds
    else sendEach packet exclude_fd fds

/-- `Server::broadcastPacketForRoom`. -/
def broadcastPacketForRoom (packet : Packet) (roomCode : Bytes) (exclude_fd : Fd) :
    Handler Unit := do
  match ← getClientFds roomCode with
  | none => pure ()
  | some clientFds => sendEach packet exclude_fd clientFds

/-! ### Running a call alone -/

variable {α : Type} (s : Server)

@[simp] theorem exec_getClient (fd : Fd) (f : Option (Connection × ClientInfo) → Handler α) :
    (getClient fd >>= f).exec serve s =
      (f ((s.client? fd).map fun client => (s.connection fd, client))).exec serve s := rfl

@[simp] theorem exec_isNicknameTaken (nickname : Bytes) (f : Bool → Handler α) :
    (isNicknameTaken nickname >>= f).exec serve s =
      (f (s.clientManager.isNicknameTaken nickname)).exec serve s := rfl

@[simp] theorem exec_setNickname (fd : Fd) (nickname : Bytes) (f : Unit → Handler α) :
    (setNickname fd nickname >>= f).exec serve s = (f ()).exec serve
      { s with clientManager := s.clientManager.setNickname fd nickname } := rfl

@[simp] theorem exec_addRoom (roomName : Bytes) (maxUserCnt : Int32) (f : Bytes → Handler α) :
    (addRoom roomName maxUserCnt >>= f).exec serve s =
      (f (s.roomManager.addRoom roomName maxUserCnt).1).exec serve
        { s with roomManager := (s.roomManager.addRoom roomName maxUserCnt).2 } := rfl

@[simp] theorem exec_joinRoom (fd : Fd) (roomCode : Bytes) (f : Bool → Handler α) :
    (joinRoom fd roomCode >>= f).exec serve s =
      (f (s.roomManager.joinRoom fd roomCode).1).exec serve
        { s with roomManager := (s.roomManager.joinRoom fd roomCode).2 } := rfl

@[simp] theorem exec_leaveRoom (fd : Fd) (roomCode : Bytes) (f : Unit → Handler α) :
    (leaveRoom fd roomCode >>= f).exec serve s = (f ()).exec serve
      { s with roomManager := s.roomManager.leaveRoom fd roomCode } := rfl

@[simp] theorem exec_getClientFds (roomCode : Bytes) (f : Option (List Fd) → Handler α) :
    (getClientFds roomCode >>= f).exec serve s =
      (f ((s.room? roomCode).map Room.getClientFds)).exec serve s := rfl

@[simp] theorem exec_sendPacket (fd : Fd) (packet : Packet) :
    (sendPacket fd packet).exec serve s =
      ((), { s with sent := s.sent ++ [(fd, packet)] }) := rfl

/-- The pointer just obtained from `getClient` is still good. -/
theorem exec_setRoomCode {fd : Fd} {client : ClientInfo} (h : s.client? fd = some client)
    (roomCode : Bytes) (conn : Connection) (hconn : s.connection fd = conn) :
    (setRoomCode conn roomCode).exec serve s =
      ((), { s with
        clientManager := s.clientManager.setClient fd { client with roomCode := roomCode } }) := by
  subst hconn
  show serve (.setRoomCode (s.connection fd) roomCode) s = _
  simp only [serve, Server.connection, h, if_true]

/-- What a broadcast to a room sends: the packet to every member but the excluded one,
in the order of the member list. -/
def recipients (s : Server) (roomCode : Bytes) (exclude_fd : Fd) : List Fd :=
  ((s.room? roomCode).elim [] Room.getClientFds).filter (· ≠ exclude_fd)

theorem exec_sendEach (packet : Packet) (exclude_fd : Fd) (fds : List Fd) :
    (sendEach packet exclude_fd fds).exec serve s =
      ((), { s with sent := s.sent ++ (fds.filter (· ≠ exclude_fd)).map (·, packet) }) := by
  induction fds generalizing s with
  | nil => simp [sendEach]
  | cons fd fds ih =>
    rw [sendEach]
    by_cases h : fd ≠ exclude_fd
    · rw [if_pos h, Prog.exec_bind, exec_sendPacket, ih]
      simp [h]
    · rw [if_neg h, ih]
      simp [h]

theorem exec_broadcastPacketForRoom (packet : Packet) (roomCode : Bytes) (exclude_fd : Fd) :
    (broadcastPacketForRoom packet roomCode exclude_fd).exec serve s =
      ((), { s with
        sent := s.sent ++ (recipients s roomCode exclude_fd).map (·, packet) }) := by
  rw [broadcastPacketForRoom, exec_getClientFds, recipients]
  cases s.room? roomCode with
  | none => simp
  | some room => exact exec_sendEach s packet exclude_fd room.getClientFds

end Handler

/-! ### What the writing calls do -/

/-- A write through a pointer finds the record of the connection it was obtained for, or
changes nothing. -/
theorem serve_setRoomCode_cases (conn : Connection) (roomCode : Bytes) (s : Server) :
    (serve (.setRoomCode conn roomCode) s).2 = s ∨
      ∃ client, s.client? conn.fd = some client ∧ s.connection conn.fd = conn ∧
        (serve (.setRoomCode conn roomCode) s).2 = { s with
          clientManager :=
            s.clientManager.setClient conn.fd { client with roomCode := roomCode } } := by
  rw [serve]
  cases h : s.client? conn.fd with
  | none => exact Or.inl rfl
  | some client =>
    by_cases hconn : s.connection conn.fd = conn
    · simp only [if_pos hconn]
      exact Or.inr ⟨client, rfl, hconn, rfl⟩
    · simp only [if_neg hconn]
      exact Or.inl trivial

theorem roomManager_setRoomCode (conn : Connection) (roomCode : Bytes) (s : Server) :
    (serve (.setRoomCode conn roomCode) s).2.roomManager = s.roomManager := by
  rcases serve_setRoomCode_cases conn roomCode s with h | ⟨client, -, -, h⟩
  · rw [h]
  · rw [h]

theorem nicknames_setRoomCode (conn : Connection) (roomCode : Bytes) (s : Server) :
    (serve (.setRoomCode conn roomCode) s).2.clientManager.nicknames =
      s.clientManager.nicknames := by
  rcases serve_setRoomCode_cases conn roomCode s with h | ⟨client, -, -, h⟩
  · rw [h]
  · rw [h]
    rfl

theorem sent_setRoomCode (conn : Connection) (roomCode : Bytes) (s : Server) :
    (serve (.setRoomCode conn roomCode) s).2.sent = s.sent := by
  rcases serve_setRoomCode_cases conn roomCode s with h | ⟨client, -, -, h⟩
  · rw [h]
  · rw [h]

theorem client?_setRoomCode (conn : Connection) (roomCode : Bytes) (s : Server) (g : Fd) :
    (serve (.setRoomCode conn roomCode) s).2.client? g =
      if g = conn.fd then (s.client? conn.fd).map fun client =>
        if s.connection conn.fd = conn then { client with roomCode := roomCode } else client
      else s.client? g := by
  rw [serve]
  cases h : s.client? conn.fd with
  | none =>
    by_cases hg : g = conn.fd
    · rw [if_pos hg, hg]
      exact h
    · rw [if_neg hg]
  | some client =>
    by_cases hconn : s.connection conn.fd = conn
    · simp only [if_pos hconn, Option.map_some]
      exact ClientManager.getClient_setClient _ _ _ _
    · simp only [if_neg hconn, Option.map_some]
      by_cases hg : g = conn.fd
      · rw [if_pos hg, hg]
        exact h
      · rw [if_neg hg]

theorem client?_setNickname (fd : Fd) (nickname : Bytes) (s : Server) (g : Fd) :
    (serve (.setNickname fd nickname) s).2.client? g =
      if g = fd then (s.client? fd).map fun client =>
        { client with nickname := nickname, isAuthenticated := true }
      else s.client? g := by
  show (s.clientManager.setNickname fd nickname).getClient g = _
  cases h : s.client? fd with
  | none =>
    rw [ClientManager.setNickname_of_not_connected h]
    by_cases hg : g = fd
    · rw [if_pos hg, hg]
      exact h
    · rw [if_neg hg]
      rfl
  | some client => exact ClientManager.getClient_setNickname h nickname g

theorem isNicknameTaken_setNickname (fd : Fd) (nickname : Bytes) (s : Server) (name : Bytes) :
    (serve (.setNickname fd nickname) s).2.clientManager.isNicknameTaken name =
      (((s.client? fd).isSome && decide (name = nickname)) ||
        s.clientManager.isNicknameTaken name) := by
  show (s.clientManager.setNickname fd nickname).isNicknameTaken name = _
  cases h : s.client? fd with
  | none =>
    rw [ClientManager.setNickname_of_not_connected h]
    rfl
  | some client =>
    rw [ClientManager.setNickname, show s.clientManager.getClient fd = some client from h]
    simp [ClientManager.isNicknameTaken]

/-! ### What no call changes -/

theorem accepts_serve (c : Call) (s : Server) : (serve c s).2.accepts = s.accepts := by
  cases c with
  | setRoomCode conn roomCode =>
    rcases serve_setRoomCode_cases conn roomCode s with h | ⟨client, -, -, h⟩
    · rw [h]
    · rw [h]
  | _ => rfl

theorem connection_serve (c : Call) (s : Server) (fd : Fd) :
    (serve c s).2.connection fd = s.connection fd := by
  rw [Server.connection, Server.connection, accepts_serve]

/-- No call connects or disconnects a client. -/
theorem isSome_client?_serve (c : Call) (s : Server) (g : Fd) :
    ((serve c s).2.client? g).isSome = (s.client? g).isSome := by
  cases c with
  | setNickname fd nickname =>
    rw [client?_setNickname]
    by_cases hg : g = fd
    · rw [if_pos hg, hg, Option.isSome_map]
    · rw [if_neg hg]
  | setRoomCode conn roomCode =>
    rw [client?_setRoomCode]
    by_cases hg : g = conn.fd
    · rw [if_pos hg, hg, Option.isSome_map]
    · rw [if_neg hg]
  | _ => rfl

end SocketChat
