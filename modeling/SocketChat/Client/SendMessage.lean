/-
Messages that are sent and not delivered.

`ChatService::SendMessage` answers true once the packet is written.  The client bounds
the JSON text it sends; the server builds a longer one around the same content, with the
sender's descriptor, address, nickname and the time, and bounds that.  There is no answer
to a message, so one that is too long by then is only logged: `sendMessage_broadcast` says
which messages are broadcast.
-/
import SocketChat.Client.NetworkClient
import SocketChat.Client.PacketHandler
import SocketChat.Server.Answers

namespace SocketChat

open Socket

/-- `SendMessage`: what the call of `Send` returns, or the exception raised by `dump`. -/
def Client.ChatService.sendMessage (json : Nlohmann) (o : ByteOrder) (c : NetworkClient)
    (script : List SendResult) (content : Bytes) : Except Json.Error NetworkClient.Sent :=
  if content = [] then .ok ⟨some false, [], script⟩
  else (Client.createMessageSendPacket json content).map (NetworkClient.send o c script)

variable {json : Nlohmann} {now : LocalTime} {s s' : Server} {fd : Fd} {info : ClientInfo}
  {p : Packet} {e : Event} {o : ByteOrder} {c : NetworkClient} {script : List SendResult}
  {content : Bytes}

/-! ### The client -/

/-- When `Send` returns true it has written the packet. -/
theorem NetworkClient.bytes_of_send (hfilled : p.Filled)
    (h : (send o c script p).result = some true) :
    (send o c script p).bytes = p.encode o := by
  rw [send] at h ⊢
  by_cases hc : c.connected = false
  · rw [if_pos hc] at h
    cases h
  · rw [if_neg hc, if_neg (Nat.not_lt.mpr hfilled.2)] at h ⊢
    cases hdone : (writeAll false (p.encode o) (sizeofPacketHeader + p.size.toNat)
        script 0).outcome with
    | done =>
      simp only [hdone]
      exact bytes_of_writeAll_done false (Packet.length_encode hfilled o) script 0 (Nat.zero_le _)
        hdone
    | failed =>
      simp only [hdone] at h
      cases h
    | pending =>
      simp only [hdone] at h
      cases h

/-- The JSON object of a message. -/
def messageJson (content : Bytes) : Json := Json.ofFields [(str "message", .string content)]

theorem valid_messageJson (json : Nlohmann) (h : content.utf8 = true) :
    (messageJson content).Valid json.double := by
  have hkey : Bytes.utf8 (str "message") = true := by decide +kernel
  exact Json.Valid.ofFields (List.forall_mem_singleton.mpr hkey)
    (List.forall_mem_singleton.mpr (Json.Valid.string h))

/-- The content's own JSON text fits the payload array. -/
def ContentFits (json : Nlohmann) (content : Bytes) : Prop :=
  ∀ t, json.dump (messageJson content) = .ok t → t.length ≤ maxPayloadSize

theorem createMessageSendPacket_ok (hjson : json.Lawful) (hcontent : content.utf8 = true)
    (hfits : ContentFits json content) :
    ∃ p, Client.createMessageSendPacket json content = .ok p ∧
      p.type = PacketType.messageSend ∧ p.Filled ∧
      json.parse p.text = .ok (messageJson content) := by
  have hvalid := valid_messageJson json hcontent
  obtain ⟨t, ht⟩ := hjson.dump_valid hvalid
  have hlength : t.length ≤ maxPayloadSize := hfits t ht
  have hpacket : Client.createMessageSendPacket json content =
      .ok (Packet.ofText PacketType.messageSend t) := by
    show (json.dump (messageJson content)).map _ = _
    rw [ht]
    rfl
  refine ⟨_, hpacket, rfl, Packet.filled_ofText hlength, ?_⟩
  rw [Packet.text_ofText hlength]
  exact hjson.parse_dump hvalid ht

/-! ### The server -/

/-- Addresses are text. -/
def Event.Addressed : Event → Prop
  | .accept _ ip _ => ip.utf8 = true
  | _ => True

/-- The addresses of connected clients are text. -/
def Server.Addresses (s : Server) : Prop :=
  ∀ fd client, s.client? fd = some client → client.ip.utf8 = true

theorem Handled.addresses (h : s.client? fd = some info) (hh : Handled json now s fd info p s')
    (hs : s.Addresses) : s'.Addresses := by
  intro g client hclient
  by_cases hg : g = fd
  · subst hg
    obtain ⟨info', h', hrecord⟩ := hh.exists_record h
    rw [h', Option.some_inj] at hclient
    rcases hrecord with ⟨code, rfl⟩ | ⟨nickname, -, rfl⟩
    · exact hclient ▸ hs g info h
    · exact hclient ▸ hs g info h
  · rw [hh.client?_ne h hg] at hclient
    exact hs g client hclient

theorem Server.Addresses.step (hs : s.Addresses) (he : e.Addressed)
    (hstep : s.step json e = some s') : s'.Addresses := by
  cases e with
  | packet fd p now =>
    obtain ⟨info, h, hh⟩ := handled_of_step hstep
    exact hh.addresses (s := { s with sent := [] }) h hs
  | accept fd ip added =>
    obtain ⟨-, rfl⟩ := Server.step_eq_some.mp hstep
    show (ConnectionManager.acceptNewConnection _ fd ip added).Addresses
    rw [ConnectionManager.acceptNewConnection]
    by_cases hadd : 0 < fd ∧ added = true
    · rw [if_pos hadd]
      intro g client hclient
      rcases ClientManager.of_getClient_addClient hclient with rfl | hbefore
      · exact he
      · exact hs g client hbefore
    · rw [if_neg hadd]
      exact hs
  | close fd =>
    obtain ⟨-, rfl⟩ := Server.step_eq_some.mp hstep
    intro g client hclient
    exact hs g client (ClientManager.of_getClient_removeClient hclient)

theorem Server.addresses_init (codes : CodeStream) : (Server.init codes).Addresses := by
  intro fd client h
  rw [Server.client?_init] at h
  cases h

theorem ascii_decimal (n : ℕ) : ∀ b ∈ decimal n, b < 0x80 := by
  intro b hb
  have hdigit := Json.isDigit_of_mem_decimal hb
  simp only [Json.isDigit, Bytes.inRange, Bool.and_eq_true, decide_eq_true_eq,
    UInt8.le_iff_toNat_le] at hdigit
  have hhi : b.toNat ≤ 57 := hdigit.2
  show b.toNat < 128
  omega

theorem ascii_twoDigits (n : ℕ) : ∀ b ∈ twoDigits n, b < 0x80 := by
  rw [twoDigits]
  by_cases h : n < 10
  · rw [if_pos h]
    intro b hb
    rcases List.mem_append.mp hb with hb | hb
    · exact List.mem_singleton.mp hb ▸ by decide
    · exact ascii_decimal n b hb
  · rw [if_neg h]
    exact ascii_decimal n

theorem LocalTime.utf8_strftime (t : LocalTime) : t.strftime.utf8 = true := by
  have hparts : t.strftime = [decimal t.year, str "-", twoDigits t.month, str "-",
      twoDigits t.day, str " ", twoDigits t.hour, str ":", twoDigits t.minute, str ":",
      twoDigits t.second].flatten := by
    simp [strftime]
  have hdash : ∀ b ∈ str "-", b < 0x80 := List.forall_mem_singleton.mpr (by decide)
  have hblank : ∀ b ∈ str " ", b < 0x80 := List.forall_mem_singleton.mpr (by decide)
  have hcolon : ∀ b ∈ str ":", b < 0x80 := List.forall_mem_singleton.mpr (by decide)
  refine Bytes.utf8_of_ascii fun b hb => ?_
  rw [hparts, List.mem_flatten] at hb
  obtain ⟨part, hpart, hb⟩ := hb
  revert part
  simp only [List.forall_mem_cons, List.not_mem_nil, false_implies, implies_true, and_true]
  exact ⟨ascii_decimal _ b, hdash b, ascii_twoDigits _ b, hdash b, ascii_twoDigits _ b, hblank b,
    ascii_twoDigits _ b, hcolon b, ascii_twoDigits _ b, hcolon b, ascii_twoDigits _ b⟩

/-- The object broadcast for a text of a client with a textual address and nickname. -/
theorem valid_payload_string (json : Nlohmann) (now : LocalTime) (fd : Fd)
    (hip : info.ip.utf8 = true) (hname : info.nickname.utf8 = true)
    (hcontent : content.utf8 = true) :
    (MessageHandler.payload now fd info (.string content)).Valid json.double := by
  have hkeys : ∀ key ∈ [str "sender_fd", str "sender_ip", str "sender_nickname",
      str "message", str "timestamp"], Bytes.utf8 key = true := by decide +kernel
  refine Json.Valid.ofFields (fun a ha => hkeys a.1 ?_) ?_
  · simp only [List.mem_cons, List.not_mem_nil, or_false] at ha ⊢
    rcases ha with rfl | rfl | rfl | rfl | rfl <;> simp
  · simp only [List.forall_mem_cons, List.not_mem_nil, false_implies, implies_true, and_true]
    exact ⟨valid_descriptor json fd, Json.Valid.string hip, Json.Valid.string hname,
      Json.Valid.string hcontent, Json.Valid.string now.utf8_strftime⟩

/-! ### From the client to the room -/

/-- What the server makes of a message: with the JSON text `t` around it, a broadcast that
carries the content if `t` fits a packet, and otherwise nothing. -/
structure Forwarded (json : Nlohmann) (s : Server) (now : LocalTime) (fd : Fd)
    (info : ClientInfo) (content : Bytes) (p : Packet) (t : Bytes) : Prop where
  broadcast : t.length ≤ maxPayloadSize →
    (MessageHandler.handle json now fd p).exec serve s =
      (Handler.broadcastPacketForRoom (Packet.ofText PacketType.messageChat t) info.roomCode
        fd).exec serve s
  carries : t.length ≤ maxPayloadSize →
    Client.parseMessagePacket json (Packet.ofText PacketType.messageChat t) =
      .ok ⟨info.nickname, info.ip, content, now.strftime, fd, .chat⟩
  dropped : maxPayloadSize < t.length → (MessageHandler.handle json now fd p).exec serve s = ((), s)

theorem forwarded_of_message (hjson : json.Lawful) (h : s.client? fd = some info)
    (hauth : info.isAuthenticated = true) (hin : info.roomCode ≠ [])
    (hparse : json.parse p.text = .ok (messageJson content)) {t : Bytes}
    (hvalid : (MessageHandler.payload now fd info (.string content)).Valid json.double)
    (hdump : json.dump (MessageHandler.payload now fd info (.string content)) = .ok t) :
    Forwarded json s now fd info content p t := by
  have hindex : (messageJson content).index (str "message") = .ok (.string content) := rfl
  -- the sender is registered and in a room, so the handler comes to the broadcast
  have hexec : (MessageHandler.handle json now fd p).exec serve s =
      ((MessageHandler.broadcastPacket json now fd info p).elim (pure () : Handler Unit)
        fun broadcast =>
          Handler.broadcastPacketForRoom broadcast info.roomCode fd).exec serve s := by
    rw [MessageHandler.handle, Handler.exec_getClient, h]
    simp only [Option.map_some, hauth, if_neg hin]
    cases MessageHandler.broadcastPacket json now fd info p with
    | none => rfl
    | some broadcast => rfl
  constructor
  · intro hlength
    have hbroadcast : MessageHandler.broadcastPacket json now fd info p =
        some (Packet.ofText PacketType.messageChat t) :=
      MessageHandler.broadcastPacket_eq_some.mpr
        ⟨_, _, t, hparse, hindex, hdump, hlength, rfl⟩
    rw [hexec, hbroadcast, Option.elim_some]
  · intro hlength
    refine parseMessagePacket_string ?_ rfl
    rw [Packet.text_ofText hlength]
    exact hjson.parse_dump hvalid hdump
  · intro hlength
    -- the only check that fails is the one of the length
    have hnone : MessageHandler.broadcastPacket json now fd info p = none := by
      refine Option.eq_none_iff_forall_ne_some.mpr fun broadcast hbroadcast => ?_
      obtain ⟨data, message, t', hdata, hmessage, ht', hfits, -⟩ :=
        MessageHandler.broadcastPacket_eq_some.mp hbroadcast
      obtain rfl := Except.ok.inj (hparse.symm.trans hdata)
      obtain rfl := Except.ok.inj (hindex.symm.trans hmessage)
      obtain rfl := Except.ok.inj (hdump.symm.trans ht')
      omega
    rw [hexec, hnone, Option.elim_none]
    rfl

/-- **Which messages reach the room.**  A content whose own JSON text fits a packet, sent
with `SendMessage` by a client that is registered and in a room, is broadcast unchanged to
that room if the JSON text the server builds around it fits a packet as well; if it does
not, nothing is sent to anybody. -/
theorem sendMessage_broadcast (hjson : json.Lawful) (dis : ℕ → Fin 62) (events : List Event)
    (haddressed : ∀ e ∈ events, e.Addressed)
    (hrun : Transition.runFrom (Server.step json) (Server.init (CodeStream.ofIndices dis)) events =
      some s)
    (h : s.client? fd = some info) (hauth : info.isAuthenticated = true)
    (hin : info.roomCode ≠ []) (hcontent : content.utf8 = true) (hfits : ContentFits json content)
    {sent : NetworkClient.Sent}
    (hsend : Client.ChatService.sendMessage json o c script content = .ok sent)
    (htrue : sent.result = some true) (now : LocalTime) :
    ∃ p t, p.type = PacketType.messageSend ∧ sent.bytes = p.encode o ∧ p.Filled ∧
      json.dump (MessageHandler.payload now fd info (.string content)) = .ok t ∧
      Forwarded json s now fd info content p t := by
  obtain ⟨p, hpacket, htype, hfilled, hparse⟩ := createMessageSendPacket_ok hjson hcontent hfits
  -- an empty message is not sent at all
  have hne : content ≠ [] := by
    rintro rfl
    rw [Client.ChatService.sendMessage, if_pos rfl] at hsend
    obtain rfl := Except.ok.inj hsend
    cases htrue
  have hbytes : sent.bytes = p.encode o := by
    rw [Client.ChatService.sendMessage, if_neg hne, hpacket] at hsend
    obtain rfl := Except.ok.inj hsend
    exact NetworkClient.bytes_of_send hfilled htrue
  -- addresses are UTF-8 as accept gave them, nicknames as their JSON texts were read
  have haddresses : s.Addresses := by
    refine Transition.Visits.invariant (G := fun _ e => e.Addressed)
      (fun t e t' ht he hstep => ht.step he hstep) hrun (Server.addresses_init _) ?_ s
      (Transition.Visits.last hrun)
    rintro t e ⟨pre, hpre, -⟩
    exact haddressed e (hpre.subset (List.mem_append_right pre (List.mem_singleton_self e)))
  have hvalid := valid_payload_string json now fd (haddresses fd info h)
    ((visits_texts hjson hrun).names fd info h) hcontent
  obtain ⟨t, hdump⟩ := hjson.dump_valid hvalid
  exact ⟨p, t, htype, hbytes, hfilled, hdump,
    forwarded_of_message hjson h hauth hin hparse hvalid hdump⟩

/-- Client 5, in a room with client 6, says hello. -/
theorem sendMessage_broadcast_hello :
    ∃ s info sent,
      Transition.runFrom (Server.step Nlohmann.integral) (Server.init CodeStream.inOrder)
        twoInRoom = some s ∧ s.client? 5 = some info ∧
      Client.ChatService.sendMessage Nlohmann.integral .little ⟨true, []⟩ [.accepted 1023]
        (str "hello") = .ok sent ∧
      ∃ p t, p.type = PacketType.messageSend ∧ sent.bytes = p.encode .little ∧ p.Filled ∧
        Nlohmann.integral.dump (MessageHandler.payload noon 5 info (.string (str "hello"))) =
          .ok t ∧
        Forwarded Nlohmann.integral s noon 5 info (str "hello") p t := by
  have haddressed : ∀ e ∈ twoInRoom, e.Addressed := by
    have hfirst : Bytes.utf8 (str "10.0.0.1") = true := by decide +kernel
    have hsecond : Bytes.utf8 (str "10.0.0.2") = true := by decide +kernel
    rw [twoInRoom]
    simp only [List.forall_mem_cons, List.not_mem_nil, false_implies, implies_true, and_true]
    exact ⟨hfirst, hsecond, trivial, trivial, trivial⟩
  have hready : (Transition.runFrom (Server.step Nlohmann.integral)
      (Server.init CodeStream.inOrder) twoInRoom).any (fun s =>
        (s.client? 5).any fun info =>
          info.isAuthenticated && decide (info.roomCode ≠ [])) = true := by
    decide +kernel
  have hsent : (Client.ChatService.sendMessage Nlohmann.integral .little ⟨true, []⟩
      [.accepted 1023] (str "hello")).toOption.any (fun sent =>
        sent.result == some true) = true := by
    decide +kernel
  have hfits : ContentFits Nlohmann.integral (str "hello") := by
    intro t ht
    obtain ⟨-, rfl⟩ := Nlohmann.dump_integral.mp ht
    decide +kernel
  obtain ⟨s, hrun, hs⟩ := (Option.any_eq_true _ _).mp hready
  obtain ⟨info, hinfo, hclient⟩ := (Option.any_eq_true _ _).mp hs
  rw [Bool.and_eq_true] at hclient
  cases hsend : Client.ChatService.sendMessage Nlohmann.integral .little ⟨true, []⟩
      [.accepted 1023] (str "hello") with
  | error e =>
    rw [hsend] at hsent
    cases hsent
  | ok sent =>
    rw [hsend] at hsent
    exact ⟨s, info, sent, hrun, hinfo, rfl,
      sendMessage_broadcast Nlohmann.lawful_integral CodeStream.indicesInOrder twoInRoom haddressed
        hrun hinfo hclient.1 (of_decide_eq_true hclient.2) (by decide +kernel) hfits hsend
        (eq_of_beq hsent) noon⟩

/-- A thousand letters. -/
def longContent : Bytes := List.replicate 1000 0x61

/-- Client 5, called `ann` and in a room with client 6, sends a thousand letters: the
client takes them as sent, the server broadcasts nothing. -/
theorem not_sendMessage_broadcast :
    ∃ s s' info sent p, Transition.runFrom (Server.step Nlohmann.integral)
        (Server.init CodeStream.inOrder) twoInRoom = some s ∧ s.client? 5 = some info ∧
      info.isAuthenticated = true ∧ info.nickname = str "ann" ∧ info.roomCode ≠ [] ∧
      longContent.utf8 = true ∧
      Client.createMessageSendPacket Nlohmann.integral longContent = .ok p ∧
      Client.ChatService.sendMessage Nlohmann.integral .little ⟨true, []⟩ [.accepted 1023]
        longContent = .ok sent ∧ sent.result = some true ∧ sent.bytes = p.encode .little ∧
      MessageHandler.broadcastPacket Nlohmann.integral noon 5 info p = none ∧
      s.step Nlohmann.integral (.packet 5 p noon) = some s' ∧ s'.sent = [] := by
  have hdropped : (Client.createMessageSendPacket Nlohmann.integral longContent).toOption.any
      (fun p => (Client.ChatService.sendMessage Nlohmann.integral .little ⟨true, []⟩
          [.accepted 1023] longContent).toOption.any (fun sent =>
        decide (sent.result = some true ∧ sent.bytes = p.encode .little) &&
          (Transition.runFrom (Server.step Nlohmann.integral) (Server.init CodeStream.inOrder)
            twoInRoom).any fun s => (s.client? 5).any fun info =>
              decide (info.isAuthenticated = true ∧ info.nickname = str "ann" ∧
                info.roomCode ≠ []) &&
              (MessageHandler.broadcastPacket Nlohmann.integral noon 5 info p).isNone &&
              (s.step Nlohmann.integral (.packet 5 p noon)).any fun s' => s'.sent.isEmpty)) =
        true := by
    decide +kernel
  obtain ⟨p, hp, hdropped⟩ := (Option.any_eq_true _ _).mp hdropped
  obtain ⟨sent, hsent, hdropped⟩ := (Option.any_eq_true _ _).mp hdropped
  rw [Bool.and_eq_true] at hdropped
  obtain ⟨hwritten, hdropped⟩ := hdropped
  obtain ⟨htrue, hbytes⟩ := of_decide_eq_true hwritten
  obtain ⟨s, hrun, hdropped⟩ := (Option.any_eq_true _ _).mp hdropped
  obtain ⟨info, hinfo, hdropped⟩ := (Option.any_eq_true _ _).mp hdropped
  rw [Bool.and_eq_true, Bool.and_eq_true, Option.isNone_iff_eq_none] at hdropped
  obtain ⟨⟨hclient, hnone⟩, hdropped⟩ := hdropped
  obtain ⟨hauth, hname, hin⟩ := of_decide_eq_true hclient
  obtain ⟨s', hstep, hempty⟩ := (Option.any_eq_true _ _).mp hdropped
  exact ⟨s, s', info, sent, p, hrun, hinfo, hauth, hname, hin, by decide +kernel,
    Json.ok_of_toOption hp, Json.ok_of_toOption hsent, htrue, hbytes, hnone, hstep,
    List.isEmpty_iff.mp hempty⟩

end SocketChat
