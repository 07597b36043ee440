/-
The packet handlers.

`PacketHandler.handle` hands a packet to the handler registered for its type:
`NicknameHandler`, `MessageHandler` or `RoomHandler`.  Each is written here as the
program of server calls the source makes, with every early return and every exception
path.  `parse` and `dump` are the only operations that throw, and their results are
matched where the source's `try` block is left.

The JSON library `json` and the wall clock `now` are parameters.
-/
import SocketChat.Server.Calls
import SocketChat.Json.Value

namespace SocketChat

open Handler

/-! ### Packets the handlers build -/

/-- `header.size = text.length(); memcpy(payload, text, text.length())`. -/
def Packet.ofText (type : PacketType) (text : Bytes) : Packet :=
  ⟨type, UInt16.ofNat text.length, text⟩

theorem Packet.toNat_size_ofText (type : PacketType) {text : Bytes}
    (h : text.length ≤ maxPayloadSize) : (Packet.ofText type text).size.toNat = text.length := by
  rw [maxPayloadSize] at h
  show (UInt16.ofNat text.length).toNat = text.length
  rw [UInt16.toNat_ofNat']
  omega

/-- The same with `std::min(text.length(), MAX_PAYLOAD_SIZE)` as size. -/
def Packet.ofTextCapped (type : PacketType) (text : Bytes) : Packet :=
  Packet.ofText type (text.take maxPayloadSize)

/-- The answer to a request that raised a JSON exception. -/
def jsonErrorResponse (type : PacketType) (e : Json.Error) : Packet :=
  Packet.ofTextCapped type (str "JSON parse error: " ++ e.what)

/-- The answer to a CREATE_ROOM or JOIN_ROOM that succeeded. -/
def roomCodeResponse (json : Nlohmann) (type : PacketType) (roomCode : Bytes) :
    Except Json.Error Packet :=
  (json.dump (Json.ofFields [(str "roomCode", .string roomCode)])).map
    (Packet.ofTextCapped type)

/-- The notice that a user has joined or left the room. -/
def userNotice (json : Nlohmann) (type : PacketType) (client_fd : Fd) (nickname : Bytes) :
    Except Json.Error Packet :=
  (json.dump (Json.ofFields
    [(str "clientFd", .numberInteger client_fd.toInt),
     (str "nickname", .string (if nickname = [] then str "Anonymous" else nickname))])).map
    (Packet.ofTextCapped type)

/-! ### Nicknames -/

namespace NicknameHandler

/-- The nickname a request asks for: the text of the field `nickname`. -/
def nickname? (json_data : Json) : Option Bytes :=
  (json_data.field? (str "nickname")).bind Json.string?

def handle (json : Nlohmann) (client_fd : Fd) (packet : Packet) : Handler Unit :=
  match json.parse packet.text with
  | .error e => sendPacket client_fd (jsonErrorResponse PacketType.nicknameResponseFail e)
  | .ok json_data =>
    match nickname? json_data with
    | none => sendPacket client_fd (Packet.ofText PacketType.nicknameResponseFail
        (str "Invalid JSON format: missing 'nickname' field."))
    | some nickname => do
      let taken ← isNicknameTaken nickname
      if taken then
        sendPacket client_fd (Packet.ofText PacketType.nicknameResponseFail
          (str "Duplicated nickname."))
      else do
        setNickname client_fd nickname
        sendPacket client_fd (Packet.ofText PacketType.nicknameResponseOk [])

end NicknameHandler

/-! ### Chat messages -/

/-- The broken-down local time. -/
structure LocalTime where
  year : ℕ
  month : ℕ
  day : ℕ
  hour : ℕ
  minute : ℕ
  second : ℕ
  deriving DecidableEq

/-- A number in at least two digits. -/
def twoDigits (n : ℕ) : Bytes := if n < 10 then str "0" ++ decimal n else decimal n

/-- `strftime` with the format `%Y-%m-%d %H:%M:%S`. -/
def LocalTime.strftime (t : LocalTime) : Bytes :=
  decimal t.year ++ str "-" ++ twoDigits t.month ++ str "-" ++ twoDigits t.day ++ str " " ++
    twoDigits t.hour ++ str ":" ++ twoDigits t.minute ++ str ":" ++ twoDigits t.second

namespace MessageHandler

/-- The JSON object broadcast for a message. -/
def payload (now : LocalTime) (client_fd : Fd) (sender : ClientInfo) (message : Json) : Json :=
  Json.ofFields
    [(str "sender_fd", .numberInteger client_fd.toInt),
     (str "sender_ip", .string sender.ip),
     (str "sender_nickname", .string sender.nickname),
     (str "message", message),
     (str "timestamp", .string now.strftime)]

/-- The `try` block up to the call of `broadcastPacketForRoom`: the packet it would be
called with, or the exception that leaves the block. -/
def build (json : Nlohmann) (now : LocalTime) (client_fd : Fd) (sender : ClientInfo)
    (packet : Packet) : Except Json.Error (Option Packet) := do
  let client_json ← json.parse packet.text
  let message ← client_json.index (str "message")
  let json_string ← json.dump (payload now client_fd sender message)
  if json_string.length > maxPayloadSize then pure none
  else pure (some (Packet.ofText PacketType.messageChat json_string))

/-- The packet broadcast for a message, if one is: both catch clauses only log. -/
def broadcastPacket (json : Nlohmann) (now : LocalTime) (client_fd : Fd) (sender : ClientInfo)
    (packet : Packet) : Option Packet :=
  match build json now client_fd sender packet with
  | .ok broadcast => broadcast
  | .error _ => none

def handle (json : Nlohmann) (now : LocalTime) (client_fd : Fd) (packet : Packet) :
    Handler Unit := do
  match ← getClient client_fd with
  | none => pure ()
  | some (_, sender) =>
    if sender.isAuthenticated = false then pure ()
    else if sender.roomCode = [] then pure ()
    else match broadcastPacket json now client_fd sender packet with
      | none => pure ()
      | some broadcast => broadcastPacketForRoom broadcast sender.roomCode client_fd

variable {json : Nlohmann} {now : LocalTime} {client_fd : Fd} {sender : ClientInfo}
  {packet broadcast : Packet}

/-- A message is broadcast when its payload parses, can be indexed, and the JSON text
built around its `message` can be written and fits a packet. -/
theorem broadcastPacket_eq_some :
    broadcastPacket json now client_fd sender packet = some broadcast ↔
      ∃ client_json message json_string, json.parse packet.text = .ok client_json ∧
        client_json.index (str "message") = .ok message ∧
        json.dump (payload now client_fd sender message) = .ok json_string ∧
        json_string.length ≤ maxPayloadSize ∧
        broadcast = Packet.ofText PacketType.messageChat json_string := by
  unfold broadcastPacket build
  cases hparse : json.parse packet.text with
  | error e => simp [bind, Except.bind]
  | ok client_json =>
    cases hindex : client_json.index (str "message") with
    | error e => simp [bind, Except.bind, hindex]
    | ok message =>
      cases hdump : json.dump (payload now client_fd sender message) with
      | error e => simp [bind, Except.bind, hindex, hdump]
      | ok json_string =>
        by_cases hlen : json_string.length > maxPayloadSize
        · simp [bind, Except.bind, hindex, hdump, hlen, pure, Except.pure]
        · simp [bind, Except.bind, hindex, hdump, hlen, pure, Except.pure, eq_comm]
          exact fun _ => Nat.le_of_not_lt hlen

theorem type_broadcastPacket
    (h : broadcastPacket json now client_fd sender packet = some broadcast) :
    broadcast.type = PacketType.messageChat := by
  obtain ⟨-, -, json_string, -, -, -, -, rfl⟩ := broadcastPacket_eq_some.mp h
  rfl

end MessageHandler

/-! ### Rooms -/

namespace RoomHandler

/-- What a CREATE_ROOM request asks for: the fields `roomName` and `maxUsers`, the latter
converted to `int`; on the left the reason for which the request is refused. -/
def createRequest (json : Nlohmann) (json_data : Json) : Except Bytes (Bytes × Int32) :=
  match (json_data.field? (str "roomName")).bind Json.string? with
  | none => .error (str "Invalid JSON format: missing 'roomName' field.")
  | some roomName =>
    match (json_data.field? (str "maxUsers")).bind json.numberToInt? with
    | none => .error (str "Invalid JSON format: missing 'maxUsers' field.")
    | some maxUsers => .ok (roomName, maxUsers)

/-- The creator of a room joins it; the answer does not depend on whether that works. -/
def joinCreator (client_fd : Fd) (roomCode : Bytes) : Handler Unit := do
  match ← getClient client_fd with
  | none => pure ()
  | some (client, _) =>
    let joined ← joinRoom client_fd roomCode
    if joined then setRoomCode client roomCode else pure ()

/-- The response once the room has been added: an exception in writing it turns it into
a failure. -/
def createAnswer (json : Nlohmann) (roomCode : Bytes) : Packet :=
  match roomCodeResponse json PacketType.roomCreateOk roomCode with
  | .error e => jsonErrorResponse PacketType.roomCreateFail e
  | .ok response => response

def handleCreateRoom (json : Nlohmann) (client_fd : Fd) (packet : Packet) : Handler Unit :=
  match json.parse packet.text with
  | .error e => sendPacket client_fd (jsonErrorResponse PacketType.roomCreateFail e)
  | .ok json_data =>
    match createRequest json json_data with
    | .error reason => sendPacket client_fd (Packet.ofText PacketType.roomCreateFail reason)
    | .ok (roomName, maxUsers) => do
      let roomCode ← addRoom roomName maxUsers
      if roomCode = [] then
        sendPacket client_fd (Packet.ofText PacketType.roomCreateFail
          (str "Failed to create room. Maximum room count reached."))
      else do
        joinCreator client_fd roomCode
        sendPacket client_fd (createAnswer json roomCode)

/-- The room a JOIN_ROOM request names. -/
def roomCode? (json_data : Json) : Option Bytes :=
  (json_data.field? (str "roomCode")).bind Json.string?

/-- The part of `handleJoinRoom` after the client was appended to the room: answer and
notice are written first, and an exception in either turns the answer into a failure. -/
def finishJoin (json : Nlohmann) (client_fd : Fd) (nickname roomCode : Bytes) : Handler Unit :=
  match roomCodeResponse json PacketType.roomJoinOk roomCode with
  | .error e => sendPacket client_fd (jsonErrorResponse PacketType.roomJoinFail e)
  | .ok response =>
    match userNotice json PacketType.roomUserJoin client_fd nickname with
    | .error e => sendPacket client_fd (jsonErrorResponse PacketType.roomJoinFail e)
    | .ok broadcast => do
      broadcastPacketForRoom broadcast roomCode client_fd
      sendPacket client_fd response

def handleJoinRoom (json : Nlohmann) (client_fd : Fd) (packet : Packet) : Handler Unit :=
  match json.parse packet.text with
  | .error e => sendPacket client_fd (jsonErrorResponse PacketType.roomJoinFail e)
  | .ok json_data =>
    match roomCode? json_data with
    | none => sendPacket client_fd (Packet.ofText PacketType.roomJoinFail
        (str "Invalid JSON format: missing 'roomCode' field."))
    | some roomCode => do
      match ← getClient client_fd with
      | none =>
        sendPacket client_fd (Packet.ofText PacketType.roomJoinFail (str "Client not found."))
      | some (client, info) =>
        if info.roomCode ≠ [] then
          sendPacket client_fd (Packet.ofText PacketType.roomJoinFail
            (str "Already in another room. Please exit first."))
        else do
          let success ← joinRoom client_fd roomCode
          if success then do
            setRoomCode client roomCode
            finishJoin json client_fd info.nickname roomCode
          else
            sendPacket client_fd (Packet.ofText PacketType.roomJoinFail
              (str "Failed to join room. Room not found or full."))

def handleExitRoom (json : Nlohmann) (client_fd : Fd) : Handler Unit := do
  match ← getClient client_fd with
  | none =>
    sendPacket client_fd (Packet.ofText PacketType.roomExitFail (str "Client not found."))
  | some (client, info) =>
    if info.roomCode = [] then
      sendPacket client_fd (Packet.ofText PacketType.roomExitFail (str "Not in any room."))
    else
      match userNotice json PacketType.roomUserExit client_fd info.nickname with
      | .error e => sendPacket client_fd (Packet.ofTextCapped PacketType.roomExitFail
          (str "Error: " ++ e.what))
      | .ok broadcast => do
        broadcastPacketForRoom broadcast info.roomCode client_fd
        leaveRoom client_fd info.roomCode
        setRoomCode client []
        sendPacket client_fd (Packet.ofText PacketType.roomExitOk [])

def handle (json : Nlohmann) (client_fd : Fd) (packet : Packet) : Handler Unit :=
  if packet.type = PacketType.createRoom then handleCreateRoom json client_fd packet
  else if packet.type = PacketType.exitRoom then handleExitRoom json client_fd
  else if packet.type = PacketType.joinRoom then handleJoinRoom json client_fd packet
  else pure ()

end RoomHandler

/-! ### Dispatch -/

/-- `PacketHandler::handle`; a type without a handler is only logged. -/
def PacketHandler.handle (json : Nlohmann) (now : LocalTime) (client_fd : Fd)
    (packet : Packet) : Handler Unit :=
  if packet.type = PacketType.nicknameRequest then NicknameHandler.handle json client_fd packet
  else if packet.type = PacketType.messageSend then
    MessageHandler.handle json now client_fd packet
  else if packet.type = PacketType.createRoom ∨ packet.type = PacketType.joinRoom ∨
      packet.type = PacketType.exitRoom then
    RoomHandler.handle json client_fd packet
  else pure ()

end SocketChat
