/-
The client's packets: `PacketHandler::ParseMessagePacket` and the requests it builds.

The server forwards whatever JSON value the request holds under `message`, and `null`
where it holds none; the client asks for a string, and `value` raises a `type_error` on
any other type, while only a `parse_error` is caught.  So a broadcast is decoded exactly
when the request's `message` is a string (`decodes_iff_says`).
-/
import SocketChat.Json.RoundTrip
import SocketChat.Server.Texts

namespace SocketChat

/-! ### Messages -/

inductive MessageType where
  | chat
  | system
  | userJoin
  | userExit
  deriving DecidableEq

structure Message where
  senderNickname : Bytes
  senderIp : Bytes
  content : Bytes
  timestamp : Bytes
  senderFd : Int32
  type : MessageType
  deriving DecidableEq

/-- The default constructor. -/
def Message.empty : Message := ⟨[], [], [], [], -1, .chat⟩

namespace Client

/-- The type of the message a packet carries. -/
def messageType (type : PacketType) : MessageType :=
  if type = PacketType.roomUserJoin then .userJoin
  else if type = PacketType.roomUserExit then .userExit
  else if type = PacketType.messageSystem then .system
  else .chat

/-- The `try` block of `ParseMessagePacket`. -/
def readMessage (json : Nlohmann) (packet : Packet) : Except Json.Error Message := do
  let data ← json.parse packet.text
  let msg_type := messageType packet.type
  let timestamp ← Nlohmann.valueString data (str "timestamp") []
  let nickname ← Nlohmann.valueString data (str "sender_nickname") []
  let ip ← Nlohmann.valueString data (str "sender_ip") []
  let content ← Nlohmann.valueString data (str "message") []
  let sender_fd ← json.valueInt data (str "sender_fd") (-1)
  if msg_type = .userJoin ∨ msg_type = .userExit then do
    let nickname ← Nlohmann.valueString data (str "nickname") []
    let client_fd ← json.valueInt data (str "clientFd") (-1)
    pure ⟨nickname, ip, content, timestamp, client_fd, msg_type⟩
  else pure ⟨nickname, ip, content, timestamp, sender_fd, msg_type⟩

/-- `ParseMessagePacket`: an exception other than a `parse_error` leaves it. -/
def parseMessagePacket (json : Nlohmann) (packet : Packet) : Except Json.Error Message :=
  match readMessage json packet with
  | .ok message => .ok message
  | .error e => if e.kind = .parseError then .ok Message.empty else .error e

/-! ### Requests -/

/-- A packet whose payload is a JSON object with the given fields. -/
def requestPacket (json : Nlohmann) (type : PacketType) (fields : List (Bytes × Json)) :
    Except Json.Error Packet :=
  (json.dump (Json.ofFields fields)).map (Packet.ofText type)

def createMessageSendPacket (json : Nlohmann) (message : Bytes) : Except Json.Error Packet :=
  requestPacket json PacketType.messageSend [(str "message", .string message)]

/-! ### The receiver thread -/

namespace ChatService

/-- The packets `ReceiveLoop` passes on as messages. -/
def IsMessage (type : PacketType) : Prop :=
  type = PacketType.messageChat ∨ type = PacketType.roomUserJoin ∨
    type = PacketType.roomUserExit ∨ type = PacketType.messageSystem

instance (type : PacketType) : Decidable (IsMessage type) :=
  inferInstanceAs (Decidable (_ ∨ _ ∨ _ ∨ _))

/-- `ReceiveLoop` on the packets `Receive` returns until the loop is left: the messages
given to the callback, and the exception that leaves the loop, if one does. -/
def receiveLoop (json : Nlohmann) : List Packet → List Message × Option Json.Error
  | [] => ([], none)
  | packet :: packets =>
    if IsMessage packet.type then
      match parseMessagePacket json packet with
      | .error e => ([], some e)
      | .ok message =>
        let rest := receiveLoop json packets
        (message :: rest.1, rest.2)
    else receiveLoop json packets

variable {json : Nlohmann} {packet : Packet} {e : Json.Error}

/-- An exception ends the receiver thread: nothing behind the packet is shown. -/
theorem receiveLoop_raise (before after : List Packet)
    (hbefore : (receiveLoop json before).2 = none) (hmessage : IsMessage packet.type)
    (hparse : parseMessagePacket json packet = .error e) :
    receiveLoop json (before ++ packet :: after) = ((receiveLoop json before).1, some e) := by
  induction before with
  | nil =>
    show receiveLoop json (packet :: after) = ([], some e)
    rw [receiveLoop, if_pos hmessage, hparse]
  | cons first before ih =>
    rw [List.cons_append, receiveLoop]
    rw [receiveLoop] at hbefore ⊢
    by_cases hfirst : IsMessage first.type
    · rw [if_pos hfirst] at hbefore ⊢
      cases hread : parseMessagePacket json first with
      | error e' =>
        rw [hread] at hbefore
        cases hbefore
      | ok message =>
        rw [hread] at hbefore
        rw [if_pos hfirst]
        simp only [ih hbefore]
    · rw [if_neg hfirst] at hbefore ⊢
      rw [if_neg hfirst]
      exact ih hbefore

end ChatService

end Client

/-! ### What the server broadcasts -/

variable {json : Nlohmann} {now : LocalTime} {s s' : Server} {fd : Fd} {sender : ClientInfo}
  {p broadcast : Packet} {message : Json} {content : Bytes}

theorem Packet.text_ofText {type : PacketType} {text : Bytes}
    (h : text.length ≤ maxPayloadSize) : (Packet.ofText type text).text = text := by
  rw [Packet.text, Packet.toNat_size_ofText type h]
  exact List.take_length

/-- The payload is a JSON object whose `message` is the string `content`. -/
def Says (json : Nlohmann) (p : Packet) (content : Bytes) : Prop :=
  ∃ data, json.parse p.text = .ok data ∧
    (data.field? (str "message")).bind Json.string? = some content

/-- The fields of a broadcast. -/
theorem field_payload (now : LocalTime) (fd : Fd) (sender : ClientInfo) (message : Json) :
    (MessageHandler.payload now fd sender message).field? (str "timestamp") =
        some (.string now.strftime) ∧
      (MessageHandler.payload now fd sender message).field? (str "sender_nickname") =
        some (.string sender.nickname) ∧
      (MessageHandler.payload now fd sender message).field? (str "sender_ip") =
        some (.string sender.ip) ∧
      (MessageHandler.payload now fd sender message).field? (str "message") = some message ∧
      (MessageHandler.payload now fd sender message).field? (str "sender_fd") =
        some (.numberInteger fd.toInt) := by
  simp only [MessageHandler.payload, Json.field?_ofFields]
  exact ⟨rfl, rfl, rfl, rfl, rfl⟩

/-- What the server has written it can read back. -/
theorem valid_payload (hjson : json.Lawful) (hmessage : message.Valid json.double) {t : Bytes}
    (hdump : json.dump (MessageHandler.payload now fd sender message) = .ok t) :
    (MessageHandler.payload now fd sender message).Valid json.double := by
  have hutf8 : ∀ key text, (MessageHandler.payload now fd sender message).field? key =
      some (.string text) → text.utf8 = true := by
    intro key text hfield
    obtain ⟨before, after, heq, -⟩ := List.lookup_eq_some_iff.mp hfield
    have hmem : (key, Json.string text) ∈ before ++ (key, Json.string text) :: after := by simp
    exact hjson.dump_utf8 hdump (heq ▸ hmem)
  obtain ⟨htimestamp, hnickname, hip, -, -⟩ := field_payload now fd sender message
  refine Json.Valid.ofFields (fun a ha => ?_) (fun a ha => ?_)
  · -- the keys are ASCII
    have hkeys : ∀ key ∈ [str "sender_fd", str "sender_ip", str "sender_nickname",
        str "message", str "timestamp"], Bytes.utf8 key = true := by decide +kernel
    refine hkeys a.1 ?_
    simp only [List.mem_cons, List.not_mem_nil, or_false] at ha ⊢
    rcases ha with rfl | rfl | rfl | rfl | rfl <;> simp
  · simp only [List.mem_cons, List.not_mem_nil, or_false] at ha
    rcases ha with rfl | rfl | rfl | rfl | rfl
    · exact valid_descriptor json fd
    · exact Json.Valid.string (hutf8 _ _ hip)
    · exact Json.Valid.string (hutf8 _ _ hnickname)
    · exact hmessage
    · exact Json.Valid.string (hutf8 _ _ htimestamp)

open Client in
/-- A broadcast with a string as its message. -/
theorem parseMessagePacket_string
    (hparse : json.parse broadcast.text =
      .ok (MessageHandler.payload now fd sender (.string content)))
    (htype : broadcast.type = PacketType.messageChat) :
    parseMessagePacket json broadcast =
      .ok ⟨sender.nickname, sender.ip, content, now.strftime, fd, .chat⟩ := by
  obtain ⟨htimestamp, hnickname, hip, hmessage, hfd⟩ :=
    field_payload now fd sender (.string content)
  have hread : readMessage json broadcast =
      .ok ⟨sender.nickname, sender.ip, content, now.strftime, fd, .chat⟩ := by
    have hchat : messageType PacketType.messageChat = .chat := rfl
    simp [readMessage, hparse, htype, hchat, bind, Except.bind, pure, Except.pure,
      Nlohmann.valueString_of_field htimestamp, Nlohmann.valueString_of_field hnickname,
      Nlohmann.valueString_of_field hip, Nlohmann.valueString_of_field hmessage,
      json.valueInt_of_field hfd]
  rw [parseMessagePacket, hread]

open Client in
/-- A broadcast with anything else as its message: the exception is not a `parse_error`. -/
theorem parseMessagePacket_other
    (hparse : json.parse broadcast.text = .ok (MessageHandler.payload now fd sender message))
    (hmessage : message.string? = none) :
    ∃ text, parseMessagePacket json broadcast = .error ⟨.typeError, text⟩ := by
  obtain ⟨htimestamp, hnickname, hip, hfield, -⟩ := field_payload now fd sender message
  obtain ⟨text, herror⟩ : ∃ text, Nlohmann.valueString _ (str "message") [] =
    .error ⟨.typeError, text⟩ := Nlohmann.valueString_of_other hfield hmessage
  have hread : readMessage json broadcast = .error ⟨.typeError, text⟩ := by
    simp [readMessage, hparse, bind, Except.bind, herror,
      Nlohmann.valueString_of_field htimestamp, Nlohmann.valueString_of_field hnickname,
      Nlohmann.valueString_of_field hip]
  exact ⟨text, by rw [parseMessagePacket, hread]; rfl⟩

/-- What a MESSAGE_SEND sends out: broadcasts built from its payload. -/
theorem mem_sent_message (hstep : s.step json (.packet fd p now) = some s')
    (hp : p.type = PacketType.messageSend) {g : Fd} (hsent : (g, broadcast) ∈ s'.sent) :
    ∃ sender, s.client? fd = some sender ∧ sender.isAuthenticated = true ∧
      sender.roomCode ≠ [] ∧
      MessageHandler.broadcastPacket json now fd sender p = some broadcast := by
  obtain ⟨sender, hsender, hh⟩ := handled_of_step hstep
  rcases hh.of_messageSend hp with ⟨rfl, -⟩ | ⟨packet, hauth, hroom, hb, rfl⟩
  · cases hsent
  · obtain ⟨g', -, heq⟩ := List.mem_map.mp hsent
    obtain ⟨-, rfl⟩ := Prod.mk.inj heq
    exact ⟨sender, hsender, hauth, hroom, hb⟩

/-- The receiver of a broadcast decodes it: to a chat message of the sender whose content
is what the request says. -/
def Decodes (json : Nlohmann) (fd : Fd) (sender : ClientInfo) (p broadcast : Packet) : Prop :=
  ∃ message, Client.parseMessagePacket json broadcast = .ok message ∧ message.type = .chat ∧
    message.senderFd = fd ∧ message.senderIp = sender.ip ∧
    message.senderNickname = sender.nickname ∧ Says json p message.content

/-- **Which broadcasts are decoded.**  The packet a MESSAGE_SEND sends to a client is
decoded there if and only if the request is an object whose `message` is a string; on any
other the `type_error` ends the receiver thread. -/
theorem decodes_iff_says (hjson : json.Lawful) (hstep : s.step json (.packet fd p now) = some s')
    (hp : p.type = PacketType.messageSend) {g : Fd} (hsent : (g, broadcast) ∈ s'.sent) :
    ∃ sender, s.client? fd = some sender ∧
      (Decodes json fd sender p broadcast ↔ ∃ content, Says json p content) ∧
      ((∀ content, ¬ Says json p content) → ∀ before after,
        (Client.ChatService.receiveLoop json before).2 = none →
        ∃ text, Client.ChatService.receiveLoop json (before ++ broadcast :: after) =
          ((Client.ChatService.receiveLoop json before).1, some ⟨.typeError, text⟩)) := by
  obtain ⟨sender, hsender, -, -, hb⟩ := mem_sent_message hstep hp hsent
  have htype := MessageHandler.type_broadcastPacket hb
  obtain ⟨data, message, t, hdata, hindex, hdump, hlength, rfl⟩ :=
    MessageHandler.broadcastPacket_eq_some.mp hb
  have hvalid := valid_payload hjson ((hjson.parse_valid hdata).index hindex) hdump
  have hparse := hjson.parse_dump hvalid hdump
  have htext : (Packet.ofText PacketType.messageChat t).text = t := Packet.text_ofText hlength
  rw [← htext] at hparse
  -- the request says exactly what the broadcast carries
  have hsaid : ∀ content, Says json p content ↔ message.string? = some content := by
    intro content
    rw [Json.index_eq_ok hindex]
    constructor
    · rintro ⟨data', hdata', hcontent⟩
      obtain rfl := Except.ok.inj (hdata'.symm.trans hdata)
      obtain ⟨v, hv, hstring⟩ := Option.bind_eq_some_iff.mp hcontent
      rw [hv]
      exact hstring
    · intro hstring
      refine ⟨data, hdata, ?_⟩
      cases hfield : data.field? (str "message") with
      | none =>
        rw [hfield] at hstring
        cases hstring
      | some v =>
        rw [hfield] at hstring
        exact hstring
  refine ⟨sender, hsender, ⟨?_, ?_⟩, fun hnone before after hbefore => ?_⟩
  · rintro ⟨m, -, -, -, -, -, hm⟩
    exact ⟨m.content, hm⟩
  · rintro ⟨content, hcontent⟩
    have hstring := (hsaid content).mp hcontent
    cases message with
    | string text =>
      obtain rfl := Option.some.inj hstring
      exact ⟨_, parseMessagePacket_string hparse htype, rfl, rfl, rfl, rfl, hcontent⟩
    | _ => cases hstring
  · have hstring : message.string? = none :=
      Option.eq_none_iff_forall_ne_some.mpr fun content h => hnone content ((hsaid content).mpr h)
    obtain ⟨text, herror⟩ := parseMessagePacket_other hparse hstring
    exact ⟨text, Client.ChatService.receiveLoop_raise before after hbefore (Or.inl htype) herror⟩

theorem decodes_iff_says_greeting :
    ∃ s s' broadcast, Transition.runFrom (Server.step Nlohmann.integral)
        (Server.init CodeStream.inOrder) twoInRoom = some s ∧
      s.step Nlohmann.integral (.packet 5 greeting noon) = some s' ∧ (6, broadcast) ∈ s'.sent ∧
      ∃ sender, s.client? 5 = some sender ∧
        Decodes Nlohmann.integral 5 sender greeting broadcast := by
  have hgreet : (Transition.runFrom (Server.step Nlohmann.integral)
      (Server.init CodeStream.inOrder) twoInRoom).any (fun s =>
        (s.step Nlohmann.integral (.packet 5 greeting noon)).any fun s' =>
          s'.sent.any fun x => x.1 == 6) = true := by
    decide +kernel
  have hcontent : ((Nlohmann.integral.parse greeting.text).toOption.bind fun data =>
      (data.field? (str "message")).bind Json.string?) = some (str "hello") := by
    decide +kernel
  obtain ⟨s, hrun, hs⟩ := (Option.any_eq_true _ _).mp hgreet
  obtain ⟨s', hstep, hs'⟩ := (Option.any_eq_true _ _).mp hs
  obtain ⟨⟨g, broadcast⟩, hsent, hg⟩ := List.any_eq_true.mp hs'
  obtain rfl : g = 6 := eq_of_beq hg
  have hsaid : Says Nlohmann.integral greeting (str "hello") := by
    cases hparse : Nlohmann.integral.parse greeting.text with
    | error e =>
      rw [hparse] at hcontent
      cases hcontent
    | ok data =>
      rw [hparse] at hcontent
      exact ⟨data, hparse, hcontent⟩
  obtain ⟨sender, hsender, hdecodes, -⟩ :=
    decodes_iff_says Nlohmann.lawful_integral hstep rfl hsent
  exact ⟨s, s', broadcast, hrun, hstep, hsent, sender, hsender, hdecodes.mpr ⟨_, hsaid⟩⟩

/-- A message that is empty apart from its braces. -/
def emptyMessage : Packet := Packet.ofText PacketType.messageSend (str "\x7b\x7d")

/-- The empty message is broadcast, and ends the receiver thread of the client it
reaches. -/
theorem not_decodes :
    ∃ s s' sender broadcast, Transition.runFrom (Server.step Nlohmann.integral)
        (Server.init CodeStream.inOrder) twoInRoom = some s ∧
      s.step Nlohmann.integral (.packet 5 emptyMessage noon) = some s' ∧
      s.client? 5 = some sender ∧ sender.isAuthenticated = true ∧ sender.roomCode ≠ [] ∧
      MessageHandler.broadcastPacket Nlohmann.integral noon 5 sender emptyMessage =
        some broadcast ∧
      (6, broadcast) ∈ s'.sent ∧
      (∀ message, Client.parseMessagePacket Nlohmann.integral broadcast ≠ .ok message) ∧
      ∃ e, Client.ChatService.receiveLoop Nlohmann.integral [broadcast] = ([], some e) := by
  have hsent : (Transition.runFrom (Server.step Nlohmann.integral)
      (Server.init CodeStream.inOrder) twoInRoom).any (fun s =>
        (s.step Nlohmann.integral (.packet 5 emptyMessage noon)).any fun s' =>
          s'.sent.any fun x => x.1 == 6 && decide (x.2.type = PacketType.messageChat) &&
            !(Client.parseMessagePacket Nlohmann.integral x.2).isOk) = true := by
    decide +kernel
  obtain ⟨s, hrun, hs⟩ := (Option.any_eq_true _ _).mp hsent
  obtain ⟨s', hstep, hs'⟩ := (Option.any_eq_true _ _).mp hs
  obtain ⟨⟨g, broadcast⟩, hmem, hbroadcast⟩ := List.any_eq_true.mp hs'
  simp only [Bool.and_eq_true, decide_eq_true_iff, Bool.not_eq_true'] at hbroadcast
  obtain ⟨⟨hg, htype⟩, herror⟩ := hbroadcast
  obtain rfl : g = 6 := eq_of_beq hg
  obtain ⟨sender, hsender, hauth, hroom, hb⟩ := mem_sent_message hstep rfl hmem
  refine ⟨s, s', sender, broadcast, hrun, hstep, hsender, hauth, hroom, hb, hmem, ?_⟩
  cases hparse : Client.parseMessagePacket Nlohmann.integral broadcast with
  | ok message =>
    rw [hparse] at herror
    cases herror
  | error e =>
    have hloop := Client.ChatService.receiveLoop_raise [] [] rfl (Or.inl htype) hparse
    exact ⟨by simp, e, hloop⟩

end SocketChat
