/-
`ConnectionService` and `RoomService`.

Each request is one packet, and each function that makes one takes the packet `Receive`
returns next for the answer: it looks at nothing but its type and, where a room code is
expected, its payload.  What such a function does is split at its `Receive`: `Request.packet`
is what it sends, and `Request.answered` what it does with what it receives.
-/
import SocketChat.Client.PacketHandler
import SocketChat.Server.Answers

namespace SocketChat

namespace Client

/-! ### Packets -/

def createNicknameRequestPacket (json : Nlohmann) (nickname : Bytes) : Except Json.Error Packet :=
  requestPacket json PacketType.nicknameRequest [(str "nickname", .string nickname)]

def createRoomCreatePacket (json : Nlohmann) (roomName : Bytes) (maxUsers : Int32) :
    Except Json.Error Packet :=
  requestPacket json PacketType.createRoom
    [(str "roomName", .string roomName), (str "maxUsers", .numberInteger maxUsers.toInt)]

def createRoomJoinPacket (json : Nlohmann) (roomCode : Bytes) : Except Json.Error Packet :=
  requestPacket json PacketType.joinRoom [(str "roomCode", .string roomCode)]

def createRoomExitPacket : Packet := Packet.ofText PacketType.exitRoom []

/-- An exception other than a `parse_error` leaves it. -/
def parseRoomResponsePacket (json : Nlohmann) (packet : Packet) : Except Json.Error Bytes :=
  if packet.size = 0 then .ok []
  else
    match json.parse packet.text >>= fun data => Nlohmann.valueString data (str "roomCode") [] with
    | .ok roomCode => .ok roomCode
    | .error e => if e.kind = .parseError then .ok [] else .error e

/-! ### Services -/

/-- What the services remember: the nickname of the current user and the code of the current
room. -/
structure Services where
  m_current_user : Bytes
  m_current_room_code : Bytes
  deriving DecidableEq

/-- The constructors. -/
def Services.init : Services := ⟨[], []⟩

namespace ConnectionService

def validateNickname (nickname : Bytes) : Bool :=
  decide (¬ (nickname = [] ∨ nickname.length > maxNicknameLen))

/-- `RegisterNickname`, once `Receive` has returned true.  The reason of a refusal is read
only to be printed, as is its default. -/
def nicknameAnswered (json : Nlohmann) (nickname : Bytes) (c : Services) (response : Packet) :
    Except Json.Error (Bool × Services) :=
  if response.type = PacketType.nicknameResponseOk then
    .ok (true, { c with m_current_user := nickname })
  else
    match json.parse response.text >>= fun data => Nlohmann.valueString data (str "reason") [] with
    | .ok _ => .ok (false, c)
    | .error e => if e.kind = .parseError then .ok (false, c) else .error e

end ConnectionService

namespace RoomService

/-- `CreateRoom` and `JoinRoom`, once `Receive` has returned true; `ok` is the type of the
answer to a request that succeeded.  All others are failures. -/
def roomAnswered (json : Nlohmann) (ok : PacketType) (c : Services) (response : Packet) :
    Except Json.Error (Bool × Services) :=
  if response.type = ok then
    match parseRoomResponsePacket json response with
    | .error e => .error e
    | .ok roomCode =>
      if roomCode ≠ [] then .ok (true, { c with m_current_room_code := roomCode })
      else .ok (false, c)
  else .ok (false, c)

/-- `outRoomCode` is the new `m_current_room_code` too. -/
def createRoomAnswered (json : Nlohmann) :
    Services → Packet → Except Json.Error (Bool × Services) :=
  roomAnswered json PacketType.roomCreateOk

def joinRoomAnswered (json : Nlohmann) : Services → Packet → Except Json.Error (Bool × Services) :=
  roomAnswered json PacketType.roomJoinOk

def exitRoomAnswered (c : Services) (response : Packet) : Bool × Services :=
  if response.type = PacketType.roomExitOk then (true, { c with m_current_room_code := [] })
  else (false, c)

end RoomService

/-- A call of `RegisterNickname`, `CreateRoom`, `JoinRoom` or `ExitRoom`. -/
inductive Request where
  | registerNickname (nickname : Bytes)
  | createRoom (roomName : Bytes) (maxUsers : Int32)
  | joinRoom (roomCode : Bytes)
  | exitRoom
  deriving DecidableEq

namespace Request

/-- The call returns false before it sends anything. -/
def refused (c : Services) : Request → Bool
  | registerNickname nickname => !ConnectionService.validateNickname nickname
  | exitRoom => c.m_current_room_code.isEmpty
  | _ => false

/-- What the call sends, or the exception raised by `dump`. -/
def packet (json : Nlohmann) : Request → Except Json.Error Packet
  | registerNickname nickname => createNicknameRequestPacket json nickname
  | createRoom roomName maxUsers => createRoomCreatePacket json roomName maxUsers
  | joinRoom roomCode => createRoomJoinPacket json roomCode
  | exitRoom => .ok createRoomExitPacket

/-- What the call returns once it has received a packet, or the exception that leaves it. -/
def answered (json : Nlohmann) (c : Services) (response : Packet) :
    Request → Except Json.Error (Bool × Services)
  | registerNickname nickname => ConnectionService.nicknameAnswered json nickname c response
  | createRoom _ _ => RoomService.createRoomAnswered json c response
  | joinRoom _ => RoomService.joinRoomAnswered json c response
  | exitRoom => .ok (RoomService.exitRoomAnswered c response)

/-- The type of the packets that grant a request. -/
def okType : Request → PacketType
  | registerNickname _ => PacketType.nicknameResponseOk
  | createRoom _ _ => PacketType.roomCreateOk
  | joinRoom _ => PacketType.roomJoinOk
  | exitRoom => PacketType.roomExitOk

/-- The type of the packet a request is sent in. -/
def type : Request → PacketType
  | registerNickname _ => PacketType.nicknameRequest
  | createRoom _ _ => PacketType.createRoom
  | joinRoom _ => PacketType.joinRoom
  | exitRoom => PacketType.exitRoom

/-- A request to enter a room. -/
def EntersRoom : Request → Prop
  | createRoom _ _ => True
  | joinRoom _ => True
  | _ => False

variable {json : Nlohmann} {c c' : Services} {r : Request} {p response : Packet} {b : Bool}

theorem type_packet (h : r.packet json = .ok p) : p.type = r.type := by
  have hfields : ∀ {type fields}, requestPacket json type fields = .ok p → p.type = type := by
    intro type fields h
    have h : (json.dump (Json.ofFields fields)).map (Packet.ofText type) = .ok p := h
    cases hdump : json.dump (Json.ofFields fields) with
    | error e =>
      rw [hdump] at h
      cases h
    | ok t =>
      rw [hdump] at h
      cases h
      rfl
  cases r with
  | registerNickname n => exact hfields h
  | createRoom name max => exact hfields h
  | joinRoom code => exact hfields h
  | exitRoom =>
    cases h
    rfl

/-- A call that receives a packet of another type than it hopes for, and returns, returns false
and remembers nothing new. -/
theorem answered_other (htype : response.type ≠ r.okType)
    (h : r.answered json c response = .ok (b, c')) : b = false ∧ c' = c := by
  have hfalse : ∀ {x : Except Json.Error (Bool × Services)},
      x = .ok (false, c) → x = .ok (b, c') → b = false ∧ c' = c := by
    intro x hx hx'
    rw [hx] at hx'
    cases hx'
    exact ⟨rfl, rfl⟩
  cases r with
  | registerNickname n =>
    have h : ConnectionService.nicknameAnswered json n c response = .ok (b, c') := h
    have htype : response.type ≠ PacketType.nicknameResponseOk := htype
    rw [ConnectionService.nicknameAnswered, if_neg htype] at h
    cases hread : json.parse response.text >>= fun data =>
        Nlohmann.valueString data (str "reason") [] with
    | ok reason =>
      rw [hread] at h
      exact hfalse rfl h
    | error e =>
      rw [hread] at h
      by_cases hkind : e.kind = .parseError
      · simp only [if_pos hkind] at h
        exact hfalse rfl h
      · simp only [if_neg hkind] at h
        cases h
  | createRoom name max => exact hfalse (if_neg htype) h
  | joinRoom code => exact hfalse (if_neg htype) h
  | exitRoom =>
    have h : Except.ok (RoomService.exitRoomAnswered c response) = Except.ok (b, c') := h
    have htype : response.type ≠ PacketType.roomExitOk := htype
    rw [RoomService.exitRoomAnswered, if_neg htype] at h
    exact hfalse rfl h

end Request

end Client

open Client

/-! ### Room codes in answers -/

/-- The answer that carries a room code can be written, and fits a packet. -/
def readable (json : Nlohmann) (code : Bytes) : Bool :=
  !code.isEmpty && Bytes.utf8 code &&
    (json.dump (roomCodeJson code)).toOption.any fun t =>
      decide (0 < t.length ∧ t.length ≤ maxPayloadSize)

variable {json : Nlohmann} {code : Bytes}

theorem readable_iff : readable json code = true ↔ code ≠ [] ∧ code.utf8 = true ∧
    ∃ t, json.dump (roomCodeJson code) = .ok t ∧ 0 < t.length ∧ t.length ≤ maxPayloadSize := by
  rw [readable, Bool.and_eq_true, Bool.and_eq_true, Bool.not_eq_true', and_assoc]
  refine and_congr ?_ (and_congr_right fun _ => ?_)
  · rw [← Bool.not_eq_true, List.isEmpty_iff]
  · cases json.dump (roomCodeJson code) with
    | error e => simp [Except.toOption]
    | ok t => simp [Except.toOption]

/-- The client reads the room code the server has written. -/
theorem parse_roomCodeResponse (hjson : json.Lawful) (type : PacketType)
    (h : readable json code = true) :
    ∃ response, roomCodeResponse json type code = .ok response ∧ response.type = type ∧
      parseRoomResponsePacket json response = .ok code := by
  obtain ⟨-, hutf8, t, ht, hpos, hlength⟩ := readable_iff.mp h
  have hkey : Bytes.utf8 (str "roomCode") = true := by decide +kernel
  have hvalid : (roomCodeJson code).Valid json.double :=
    Json.Valid.ofFields (List.forall_mem_singleton.mpr hkey)
      (List.forall_mem_singleton.mpr (Json.Valid.string hutf8))
  have hcapped : Packet.ofTextCapped type t = Packet.ofText type t := by
    rw [Packet.ofTextCapped, List.take_of_length_le hlength]
  have hparse : json.parse (Packet.ofText type t).text = .ok (roomCodeJson code) := by
    rw [Packet.text_ofText hlength]
    exact hjson.parse_dump hvalid ht
  refine ⟨Packet.ofText type t, roomCodeResponse_eq_ok.mpr ⟨t, ht, hcapped.symm⟩, rfl, ?_⟩
  have hsize : (Packet.ofText type t).size ≠ 0 := by
    intro h0
    have hnat := Packet.toNat_size_ofText type hlength
    rw [h0] at hnat
    exact absurd hnat (Nat.ne_of_lt hpos)
  have hfield : (roomCodeJson code).field? (str "roomCode") = some (.string code) := by
    rw [roomCodeJson, Json.field?_ofFields]
    rfl
  have hread : (json.parse (Packet.ofText type t).text >>= fun data =>
      Nlohmann.valueString data (str "roomCode") []) = .ok code := by
    rw [hparse]
    show Nlohmann.valueString (roomCodeJson code) (str "roomCode") [] = .ok code
    exact Nlohmann.valueString_of_field hfield
  rw [parseRoomResponsePacket, if_neg hsize, hread]

/-- The codes the server draws are letters and digits. -/
theorem readable_ofIndices (hplain : json.WritesPlain) (dis : ℕ → Fin 62) (k : ℕ) :
    readable json ((CodeStream.ofIndices dis).code k) = true := by
  have hchars : ∀ c ∈ CodeStream.chars, Nlohmann.plain c = true :=
    List.all_eq_true.mp (by decide +kernel)
  have hcode : ∀ b ∈ (CodeStream.ofIndices dis).code k, Nlohmann.plain b = true :=
    fun b hb => hchars b (CodeStream.mem_chars_of_mem_code hb)
  have hkey : ∀ b ∈ str "roomCode", Nlohmann.plain b = true :=
    List.all_eq_true.mp (by decide +kernel)
  refine readable_iff.mpr ⟨CodeStream.code_ne_nil _ k, CodeStream.utf8_ofIndices dis k, _,
    hplain _ _ hkey hcode, ?_⟩
  have hlen := (CodeStream.ofIndices dis).length_code k
  simp only [List.length_append, hlen, str, List.length_map, maxPayloadSize]
  decide

end SocketChat
