/-
The packets the client builds, and what `Send` makes of them.

Each builder copies the whole JSON text into the payload array and keeps its length in
sixteen bits; the only check of that length is in `Send`, behind both.  `sendsWhole_iff`
says when a builder stays within the array and `Send` writes the arguments or nothing.
-/
import SocketChat.Client.Services
import SocketChat.Client.SendMessage

namespace SocketChat

open Socket

namespace Client

/-- A call of one of the builders that take arguments. -/
inductive Build where
  | nicknameRequest (nickname : Bytes)
  | messageSend (message : Bytes)
  | roomCreate (roomName : Bytes) (maxUsers : Int32)
  | roomJoin (roomCode : Bytes)

namespace Build

/-- The packet it returns, or the exception raised by `dump`. -/
def packet (json : Nlohmann) : Build → Except Json.Error Packet
  | nicknameRequest nickname => createNicknameRequestPacket json nickname
  | messageSend message => createMessageSendPacket json message
  | roomCreate roomName maxUsers => createRoomCreatePacket json roomName maxUsers
  | roomJoin roomCode => createRoomJoinPacket json roomCode

def type : Build → PacketType
  | nicknameRequest _ => PacketType.nicknameRequest
  | messageSend _ => PacketType.messageSend
  | roomCreate _ _ => PacketType.createRoom
  | roomJoin _ => PacketType.joinRoom

/-- The object with the arguments. -/
def arguments : Build → Json
  | nicknameRequest nickname => Json.ofFields [(str "nickname", .string nickname)]
  | messageSend message => Json.ofFields [(str "message", .string message)]
  | roomCreate roomName maxUsers => Json.ofFields
      [(str "roomName", .string roomName), (str "maxUsers", .numberInteger maxUsers.toInt)]
  | roomJoin roomCode => Json.ofFields [(str "roomCode", .string roomCode)]

/-- The strings among the arguments are UTF-8. -/
def utf8 : Build → Bool
  | nicknameRequest nickname => nickname.utf8
  | messageSend message => message.utf8
  | roomCreate roomName _ => roomName.utf8
  | roomJoin roomCode => roomCode.utf8

end Build

end Client

open Client

/-- The bytes are one frame of the given type whose payload reads as `data`. -/
def FrameWith (json : Nlohmann) (type : PacketType) (data : Json) (bytes : Bytes) : Prop :=
  ∃ f : Frame, bytes = f.bytes ∧ f.type = type ∧ json.parse f.payload = .ok data

/-- The builder stays within the payload array, and `Send`, when it returns, has written one
frame with the arguments, or nothing. -/
def SendsWhole (json : Nlohmann) (o : ByteOrder) (c : NetworkClient) (script : List SendResult)
    (b : Build) : Prop :=
  ∃ p, b.packet json = .ok p ∧ p.payload.length ≤ maxPayloadSize ∧
    ∀ result, (c.send o script p).result = some result →
      (result = false ∧ (c.send o script p).bytes = []) ∨
        (result = true ∧ FrameWith json b.type b.arguments (c.send o script p).bytes)

variable {json : Nlohmann} {o : ByteOrder} {c : NetworkClient} {script : List SendResult}
  {b : Build} {t : Bytes} {p : Packet}

namespace Client.Build

theorem packet_eq (json : Nlohmann) (b : Build) :
    b.packet json = (json.dump b.arguments).map (Packet.ofText b.type) := by
  cases b with
  | nicknameRequest nickname => rfl
  | messageSend message => rfl
  | roomCreate roomName maxUsers => rfl
  | roomJoin roomCode => rfl

theorem valid_arguments (json : Nlohmann) (h : b.utf8 = true) : b.arguments.Valid json.double := by
  have hkeys : ∀ key ∈ [str "nickname", str "message", str "roomName", str "maxUsers",
      str "roomCode"], Bytes.utf8 key = true := by decide +kernel
  have hstring : ∀ key s, key ∈ [str "nickname", str "message", str "roomCode"] →
      Bytes.utf8 s = true → (Json.ofFields [(key, .string s)]).Valid json.double := by
    intro key s hkey hs
    refine Json.Valid.ofFields (List.forall_mem_singleton.mpr (hkeys key ?_))
      (List.forall_mem_singleton.mpr (Json.Valid.string hs))
    simp only [List.mem_cons, List.not_mem_nil, or_false] at hkey ⊢
    rcases hkey with rfl | rfl | rfl <;> simp
  cases b with
  | nicknameRequest nickname => exact hstring _ _ (by simp) h
  | messageSend message => exact hstring _ _ (by simp) h
  | roomCreate roomName maxUsers =>
    refine Json.Valid.ofFields ?_ ?_
    · intro a ha
      rcases List.mem_pair.mp ha with rfl | rfl
      · exact hkeys (str "roomName") (by simp)
      · exact hkeys (str "maxUsers") (by simp)
    · intro a ha
      rcases List.mem_pair.mp ha with rfl | rfl
      · exact Json.Valid.string h
      · exact valid_descriptor json maxUsers
  | roomJoin roomCode => exact hstring _ _ (by simp) h

end Client.Build

namespace NetworkClient

/-- `Send` returns false without a connection, and otherwise where a call of `send` fails. -/
theorem send_false_iff (hfilled : p.Filled) :
    (c.send o script p).result = some false ∧ (c.send o script p).bytes ≠ [] ↔
      c.connected = true ∧ BreaksOff (sizeofPacketHeader + p.size.toNat) script := by
  rw [send, ← writeAll_failed_iff (Packet.length_encode hfilled o)]
  cases hc : c.connected with
  | false => simp
  | true =>
    rw [if_neg (by simp), if_neg (Nat.not_lt.mpr hfilled.2)]
    cases hwritten : (writeAll false (p.encode o) (sizeofPacketHeader + p.size.toNat) script
      0).outcome with
    | done => simp [hwritten]
    | failed => simp [hwritten]
    | pending => simp [hwritten]

end NetworkClient

/-- The frame of a text. -/
theorem frameWith_ofText (hjson : json.Lawful) (o : ByteOrder) {data : Json}
    (hvalid : data.Valid json.double) (hdump : json.dump data = .ok t)
    (hlength : t.length ≤ maxPayloadSize) (type : PacketType) :
    FrameWith json type data ((Packet.ofText type t).encode o) := by
  have hfits : t.length < 2 ^ 16 := by
    rw [maxPayloadSize] at hlength
    omega
  refine ⟨⟨type, t, hfits⟩, ?_, rfl, hjson.parse_dump hvalid hdump⟩
  rw [Packet.encode_eq, Packet.text_ofText hlength]
  rfl

/-- **A builder and `Send` are lossless and in bounds exactly when the JSON text of the
arguments fits the payload array and the socket does not fail in the middle of the frame.** -/
theorem sendsWhole_iff (json : Nlohmann) (hjson : json.Lawful) (o : ByteOrder) (c : NetworkClient)
    (script : List SendResult) (b : Build) (hutf8 : b.utf8 = true) :
    SendsWhole json o c script b ↔ ∃ t, json.dump b.arguments = .ok t ∧
      t.length ≤ maxPayloadSize ∧
      ¬ (c.connected = true ∧ BreaksOff (sizeofPacketHeader + t.length) script) := by
  have hvalid := Client.Build.valid_arguments json hutf8
  obtain ⟨t, hdump⟩ := hjson.dump_valid hvalid
  have hpacket : b.packet json = .ok (Packet.ofText b.type t) := by
    rw [Client.Build.packet_eq, hdump]
    rfl
  constructor
  · rintro ⟨p, hp, hlength, hsend⟩
    obtain rfl := Except.ok.inj (hpacket.symm.trans hp)
    have hlength : t.length ≤ maxPayloadSize := hlength
    have hfilled : (Packet.ofText b.type t).Filled := Packet.filled_ofText hlength
    refine ⟨t, hdump, hlength, fun hbreaks => ?_⟩
    rw [← Packet.toNat_size_ofText b.type hlength] at hbreaks
    -- part of the frame has left when `send` fails, so `Send` has not written nothing
    obtain ⟨hfalse, hbytes⟩ := (NetworkClient.send_false_iff (o := o) hfilled).mpr hbreaks
    rcases hsend false hfalse with ⟨-, hnone⟩ | ⟨htrue, -⟩
    · exact hbytes hnone
    · cases htrue
  · rintro ⟨t', hdump', hlength, hwhole⟩
    obtain rfl := Except.ok.inj (hdump.symm.trans hdump')
    have hfilled : (Packet.ofText b.type t).Filled := Packet.filled_ofText hlength
    rw [← Packet.toNat_size_ofText b.type hlength, ← NetworkClient.send_false_iff (o := o) hfilled]
      at hwhole
    refine ⟨_, hpacket, hlength, fun result hresult => ?_⟩
    cases result with
    -- a `send` that fails before the first byte is no break
    | false => exact Or.inl ⟨rfl, not_not.mp fun hbytes => hwhole ⟨hresult, hbytes⟩⟩
    | true =>
      rw [NetworkClient.bytes_of_send hfilled hresult]
      exact Or.inr ⟨rfl, frameWith_ofText hjson o hvalid hdump hlength b.type⟩

/-- The request for a short nickname, written at once. -/
theorem sendsWhole_iff_ann : SendsWhole Nlohmann.integral .little ⟨true, []⟩ [.accepted 1023]
    (.nicknameRequest (str "ann")) := by
  refine (sendsWhole_iff Nlohmann.integral Nlohmann.lawful_integral .little ⟨true, []⟩
    [.accepted 1023] (.nicknameRequest (str "ann")) (by decide +kernel)).mpr
      ⟨_, Nlohmann.dump_integral.mpr ⟨by decide +kernel, rfl⟩, by decide +kernel, fun hbreaks => ?_⟩
  exact not_failsWithin_nil _ (failsWithin_accepted.mp hbreaks.2.1)

/-- A message of 1011 letters. -/
def overlongMessage : Build := .messageSend (List.replicate 1011 0x61)

/-- Its text is copied past the end of the payload array. -/
theorem not_sendsWhole : overlongMessage.utf8 = true ∧
    ¬ SendsWhole Nlohmann.integral .little ⟨true, []⟩ [.accepted 2047] overlongMessage := by
  refine ⟨by decide +kernel, ?_⟩
  rintro ⟨p, hp, hlength, -⟩
  -- the braces, the key and the quotes come on top of the 1011 letters
  have hlong : (overlongMessage.packet Nlohmann.integral).toOption.any
      (fun p => decide (maxPayloadSize < p.payload.length)) = true := by
    decide +kernel
  rw [hp] at hlong
  exact absurd (of_decide_eq_true hlong) (Nat.not_lt.mpr hlength)

end SocketChat
