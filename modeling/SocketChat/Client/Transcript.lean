/-
What is said is what is shown.

`Server.transcript` tells from the events of a run what the members of a room are told: who
has said what and when, who has come and who has gone.  `screen_eq_transcript` shows that a
client in a chat session prints this and nothing else, whatever the server's sockets do to the
packets on the way and whenever its receiver thread runs.

The events of the run are executed to completion, one after the other, and the client does not
ask for anything but to send messages: once it asks to leave, `ExitRoom` receives too, and a
message it takes for the answer is not printed.
-/
import SocketChat.Client.Watching
import SocketChat.Server.Histories

namespace SocketChat

/-- The text of the value fits a packet. -/
def fits (json : Nlohmann) (data : Json) : Bool :=
  match json.dump data with
  | .ok t => decide (t.length ≤ maxPayloadSize)
  | .error _ => false

/-! ### What is told -/

/-- A client tells the others in a room something. -/
structure Telling where
  speaker : Fd
  room : Bytes
  remark : Remark

/-- What a MESSAGE_SEND says: the value of `message`, `null` when there is none. -/
def said (json : Nlohmann) (p : Packet) : Option Json :=
  (json.parse p.text).toOption.bind fun data => (data.index (str "message")).toOption

/-- A message of a client. -/
def messageRemark (now : LocalTime) (info : ClientInfo) : Json → Remark
  | .string content => .chats now info.nickname info.ip content
  | _ => .unreadable

/-- What a client is called in a notice. -/
def ClientInfo.shownName (info : ClientInfo) : Bytes :=
  if info.nickname = [] then str "Anonymous" else info.nickname

/-- A notice about a client, if it fits. -/
def noticeRemark (json : Nlohmann) (fd : Fd) (info : ClientInfo) (remark : Bytes → Remark) :
    Remark :=
  if fits json (userJson fd info.nickname) = true then remark info.shownName else .garbled

/-- What an event that leads from `s` to `s'` tells whom. -/
def Server.telling (json : Nlohmann) (s s' : Server) : Event → Option Telling
  | .packet fd p now => (s.client? fd).bind fun info =>
    if p.type = PacketType.messageSend then
      if info.isAuthenticated = true ∧ info.roomCode ≠ [] then
        (said json p).bind fun message =>
          if fits json (MessageHandler.payload now fd info message) = true then
            some ⟨fd, info.roomCode, messageRemark now info message⟩
          else none
      else none
    else if p.type = PacketType.joinRoom then
      if info.roomCode = [] then
        (s'.roomOf fd).map fun code => ⟨fd, code, noticeRemark json fd info .enters⟩
      else none
    else if p.type = PacketType.exitRoom then
      if info.roomCode = [] then none
      else some ⟨fd, info.roomCode, noticeRemark json fd info .exits⟩
    else none
  | _ => none

/-- What client `b` is told: it is listed in the room and is not the one who tells it. -/
def Server.hears (json : Nlohmann) (s s' : Server) (b : Fd) (e : Event) : List Remark :=
  match s.telling json s' e with
  | some told => if told.speaker ≠ b ∧ b ∈ s.roster.listed told.room then [told.remark] else []
  | none => []

/-- What client `b` is told in a run. -/
def Server.transcript (json : Nlohmann) (b : Fd) : Server → List Event → List Remark
  | _, [] => []
  | s, e :: es => (s.step json e).elim [] fun s' => s.hears json s' b e ++ s'.transcript json b es

/-- The packets client `b` is sent in a run. -/
def Server.packetsTo (json : Nlohmann) (b : Fd) : Server → List Event → List Packet
  | _, [] => []
  | s, e :: es => (s.step json e).elim [] fun s' => s'.sentTo b ++ s'.packetsTo json b es

variable {json : Nlohmann} {now : LocalTime} {b fd : Fd} {p packet : Packet} {info : ClientInfo}
  {s s' : Server}

/-! ### What a packet shows -/

theorem fits_of_dump {data : Json} {t : Bytes} (h : json.dump data = .ok t) :
    fits json data = decide (t.length ≤ maxPayloadSize) := by
  rw [fits, h]

open Client in
/-- A broadcast is shown as what its sender has said. -/
theorem screen_broadcast (hjson : json.Lawful) {message : Json} {t : Bytes}
    (hvalid : message.Valid json.double) (hlength : t.length ≤ maxPayloadSize)
    (hdump : json.dump (MessageHandler.payload now fd info message) = .ok t) :
    screen json [Packet.ofText PacketType.messageChat t] =
      Remark.shown [messageRemark now info message] := by
  have hparse : json.parse (Packet.ofText PacketType.messageChat t).text =
      .ok (MessageHandler.payload now fd info message) := by
    rw [Packet.text_ofText hlength]
    exact hjson.parse_dump (valid_payload hjson hvalid hdump) hdump
  have hmessage : ChatService.IsMessage (Packet.ofText PacketType.messageChat t).type :=
    Or.inl rfl
  have hother : message.string? = none →
      screen json [Packet.ofText PacketType.messageChat t] = ([], true) := by
    intro hnone
    obtain ⟨text, herror⟩ := parseMessagePacket_other hparse hnone
    exact screen_raise hmessage herror []
  cases message with
  | string content =>
    have hline : Message.formatForDisplay ⟨info.nickname, info.ip, content, now.strftime, fd, .chat⟩
        false = str "[" ++ now.strftime ++ str "][" ++ info.nickname ++ str "(" ++ info.ip ++
          str ")] > " ++ content := by
      have hbrackets : str "][" = str "]" ++ str "[" := rfl
      simp only [Message.formatForDisplay, hbrackets, List.append_assoc, Bool.false_eq_true,
        if_false]
    rw [screen_message hmessage (parseMessagePacket_string hparse rfl), hline]
    rfl
  | _ => exact hother rfl

open Client in
/-- A notice is shown as what it is about, or as an empty message when it was cut off. -/
theorem screen_userNotice (hjson : json.Lawful) (hcut : json.ThrowsOnCut)
    (hname : info.nickname.utf8 = true) {type : PacketType} {remark : Bytes → Remark}
    (htype : type = PacketType.roomUserJoin ∧ remark = .enters ∨
      type = PacketType.roomUserExit ∧ remark = .exits)
    (hnotice : userNotice json type fd info.nickname = .ok packet) :
    screen json [packet] = Remark.shown [noticeRemark json fd info remark] := by
  obtain ⟨t, hdump, rfl⟩ := userNotice_eq_ok.mp hnotice
  have hvalid := valid_userJson json fd hname
  have hkind : (Packet.ofTextCapped type t).type = type := rfl
  have hmessage : ChatService.IsMessage (Packet.ofTextCapped type t).type := by
    rcases htype with ⟨rfl, -⟩ | ⟨rfl, -⟩
    · exact Or.inr (Or.inl rfl)
    · exact Or.inr (Or.inr (Or.inl rfl))
  have htext : (Packet.ofTextCapped type t).text = t.take maxPayloadSize :=
    Packet.text_ofText (List.length_take_le _ _)
  by_cases hlength : t.length ≤ maxPayloadSize
  · have hparse : json.parse (Packet.ofTextCapped type t).text =
        .ok (userJson fd info.nickname) := by
      rw [htext, List.take_of_length_le hlength]
      exact hjson.parse_dump hvalid hdump
    have hnotices : messageType (Packet.ofTextCapped type t).type = .userJoin ∨
        messageType (Packet.ofTextCapped type t).type = .userExit := by
      rcases htype with ⟨rfl, -⟩ | ⟨rfl, -⟩
      · exact Or.inl rfl
      · exact Or.inr rfl
    obtain ⟨message, hread, hreads, -, hnickname⟩ := parseMessagePacket_notice hnotices hparse
    have hremark : noticeRemark json fd info remark = remark info.shownName := by
      rw [noticeRemark, fits_of_dump hdump, if_pos (decide_eq_true hlength)]
    rw [screen_message hmessage hread, hremark, Message.formatForDisplay, hreads, hnickname]
    rcases htype with ⟨rfl, rfl⟩ | ⟨rfl, rfl⟩
    · rfl
    · rfl
  · obtain ⟨e, herror, hparseError⟩ := hcut _ t maxPayloadSize hvalid hdump (by omega)
    have hread : parseMessagePacket json (Packet.ofTextCapped type t) = .ok Message.empty := by
      rw [parseMessagePacket, readMessage, htext, herror]
      exact if_pos hparseError
    have hremark : noticeRemark json fd info remark = .garbled := by
      rw [noticeRemark, fits_of_dump hdump, if_neg (by simpa using hlength)]
    rw [screen_message hmessage hread, hremark]
    rfl

/-! ### What a step shows -/

theorem shown_untold {e : Event} (htelling : s.telling json s' e = none)
    (hsent : s'.sentTo b = []) :
    Client.screen json (s'.sentTo b) = Remark.shown (s.hears json s' b e) := by
  rw [hsent, Server.hears, htelling]
  rfl

theorem shown_told {e : Event} {told : Telling} (htelling : s.telling json s' e = some told)
    (hspeaker : told.speaker ≠ b)
    (hsent : s'.sentTo b = if b ∈ s.roster.listed told.room then [packet] else [])
    (hscreen : Client.screen json [packet] = Remark.shown [told.remark]) :
    Client.screen json (s'.sentTo b) = Remark.shown (s.hears json s' b e) := by
  rw [hsent, Server.hears, htelling]
  by_cases hlisted : b ∈ s.roster.listed told.room
  · simp only [if_pos hlisted, if_pos (And.intro hspeaker hlisted), hscreen]
  · simp only [if_neg hlisted, if_neg fun h : told.speaker ≠ b ∧ _ => hlisted h.2]
    rfl

/-- The one who tells something is the sender of the packet. -/
theorem speaker_of_telling {told : Telling}
    (h : s.telling json s' (.packet fd p now) = some told) : told.speaker = fd := by
  obtain ⟨info, -, h⟩ := Option.bind_eq_some_iff.mp h
  by_cases hsend : p.type = PacketType.messageSend
  · rw [if_pos hsend] at h
    by_cases hin : info.isAuthenticated = true ∧ info.roomCode ≠ []
    · rw [if_pos hin] at h
      obtain ⟨message, -, h⟩ := Option.bind_eq_some_iff.mp h
      obtain ⟨-, h⟩ := Option.ite_none_right_eq_some.mp h
      exact Option.some.inj h ▸ rfl
    · rw [if_neg hin] at h
      cases h
  rw [if_neg hsend] at h
  by_cases hjoin : p.type = PacketType.joinRoom
  · rw [if_pos hjoin] at h
    obtain ⟨-, h⟩ := Option.ite_none_right_eq_some.mp h
    obtain ⟨code, -, rfl⟩ := Option.map_eq_some_iff.mp h
    rfl
  rw [if_neg hjoin] at h
  by_cases hexit : p.type = PacketType.exitRoom
  · rw [if_pos hexit] at h
    obtain ⟨-, h⟩ := Option.ite_none_left_eq_some.mp h
    exact Option.some.inj h ▸ rfl
  · rw [if_neg hexit] at h
    cases h

/-- The client itself is shown nothing of what it does. -/
theorem Handled.screen_self (hsent : s.sent = []) (hh : Handled json now s fd info p s') :
    Client.screen json (s'.sentTo fd) =
      Remark.shown (s.hears json s' fd (.packet fd p now)) := by
  have hhears : s.hears json s' fd (.packet fd p now) = [] := by
    rw [Server.hears]
    cases htelling : s.telling json s' (.packet fd p now) with
    | none => rfl
    | some told => exact if_neg fun h => h.1 (speaker_of_telling htelling)
  obtain ⟨hrequest, hother⟩ := hh.sentTo hsent
  rw [hhears]
  cases htypes : answerTypes p.type with
  | none =>
    rw [hother htypes]
    rfl
  | some types =>
    obtain ⟨ok, fail⟩ := types
    obtain ⟨answer, hanswer, htype⟩ := hrequest ok fail htypes
    rw [hanswer]
    refine Client.screen_quiet (List.forall_mem_singleton.mpr ?_)
    -- no answer is a message
    rw [answerTypes] at htypes
    split_ifs at htypes
    all_goals
      obtain ⟨rfl, rfl⟩ := Prod.mk.inj (Option.some.inj htypes)
      rcases htype with h | h
      · rw [h]
        decide
      · rw [h]
        decide

theorem telling_of_other (h : s.client? fd = some info)
    (hsend : p.type ≠ PacketType.messageSend) (hjoin : p.type ≠ PacketType.joinRoom)
    (hexit : p.type ≠ PacketType.exitRoom) :
    s.telling json s' (.packet fd p now) = none := by
  rw [Server.telling, h, Option.bind_some, if_neg hsend, if_neg hjoin, if_neg hexit]

/-- What is broadcast is what a message says, if the text around it fits. -/
theorem broadcastPacket_iff_said :
    MessageHandler.broadcastPacket json now fd info p = some packet ↔
      ∃ message t, said json p = some message ∧
        json.dump (MessageHandler.payload now fd info message) = .ok t ∧
        t.length ≤ maxPayloadSize ∧ packet = Packet.ofText PacketType.messageChat t := by
  rw [MessageHandler.broadcastPacket_eq_some]
  constructor
  · rintro ⟨data, message, t, hparse, hindex, hrest⟩
    refine ⟨message, t, ?_, hrest⟩
    rw [said, hparse]
    show (data.index (str "message")).toOption = some message
    rw [hindex]
    rfl
  · rintro ⟨message, t, hsaid, hrest⟩
    obtain ⟨data, hparse, hindex⟩ := Option.bind_eq_some_iff.mp hsaid
    exact ⟨data, message, t, Json.ok_of_toOption hparse, Json.ok_of_toOption hindex, hrest⟩

theorem telling_message (h : s.client? fd = some info) (htype : p.type = PacketType.messageSend)
    (hauth : info.isAuthenticated = true) (hin : info.roomCode ≠ []) :
    s.telling json s' (.packet fd p now) = (said json p).bind fun message =>
      if fits json (MessageHandler.payload now fd info message) = true then
        some ⟨fd, info.roomCode, messageRemark now info message⟩
      else none := by
  rw [Server.telling, h, Option.bind_some, if_pos htype, if_pos ⟨hauth, hin⟩]

/-- A packet that does nothing tells nothing. -/
theorem telling_ignored (h : s.client? fd = some info) (htype : ¬ IsRequest p.type)
    (hchat : p.type = PacketType.messageSend → info.isAuthenticated = true →
      info.roomCode ≠ [] → MessageHandler.broadcastPacket json now fd info p = none) :
    s.telling json s' (.packet fd p now) = none := by
  by_cases hsend : p.type = PacketType.messageSend
  · by_cases hin : info.isAuthenticated = true ∧ info.roomCode ≠ []
    · rw [telling_message h hsend hin.1 hin.2]
      cases hsaid : said json p with
      | none => rfl
      | some message =>
        refine if_neg fun hfits => ?_
        rw [fits] at hfits
        cases hdump : json.dump (MessageHandler.payload now fd info message) with
        | error e =>
          rw [hdump] at hfits
          cases hfits
        | ok t =>
          rw [hdump] at hfits
          have hsome := broadcastPacket_iff_said.mpr
            ⟨message, t, hsaid, hdump, of_decide_eq_true hfits, rfl⟩
          rw [hchat hsend hin.1 hin.2] at hsome
          cases hsome
    · rw [Server.telling, h, Option.bind_some, if_pos hsend, if_neg hin]
  · exact telling_of_other h hsend (fun hp => htype (Or.inr (Or.inr (Or.inl hp))))
      fun hp => htype (Or.inr (Or.inr (Or.inr hp)))

/-- Nor does a request that is refused. -/
theorem telling_refused (hjson : json.Lawful) (h : s.client? fd = some info)
    (hname : info.nickname.utf8 = true) (htype : IsRequest p.type)
    (hsame : s'.roomOf fd = s.roomOf fd)
    (hexit : p.type = PacketType.exitRoom → info.roomCode = [] ∨
      ∃ e, userNotice json PacketType.roomUserExit fd info.nickname = .error e) :
    s.telling json s' (.packet fd p now) = none := by
  have hsend : p.type ≠ PacketType.messageSend := fun hp =>
    not_isRequest_messageSend (hp ▸ htype)
  rw [Server.telling, h, Option.bind_some, if_neg hsend]
  by_cases hjoin : p.type = PacketType.joinRoom
  · rw [if_pos hjoin]
    by_cases hnone : info.roomCode = []
    · rw [if_pos hnone, hsame, Server.roomOf_of_client h, ClientInfo.room?_eq_none.mpr hnone]
      rfl
    · rw [if_neg hnone]
  rw [if_neg hjoin]
  by_cases hleave : p.type = PacketType.exitRoom
  · rw [if_pos hleave]
    rcases hexit hleave with hnone | ⟨e, herror⟩
    · rw [if_pos hnone]
    · obtain ⟨notice, hnotice, -⟩ := userNotice_ok hjson PacketType.roomUserExit fd hname
      rw [hnotice] at herror
      cases herror
  · rw [if_neg hleave]

/-- **What a packet shows to another client** is what the packet tells it. -/
theorem Handled.screen_other (hjson : json.Lawful) (hcut : json.ThrowsOnCut) (htexts : s.Texts)
    (hcoherent : s.Coherent) (h : s.client? fd = some info) (hsent : s.sent = [])
    (hb : b ≠ fd) (hh : Handled json now s fd info p s') :
    Client.screen json (s'.sentTo b) = Remark.shown (s.hears json s' b (.packet fd p now)) := by
  have hname : info.nickname.utf8 = true := htexts.names fd info h
  -- a packet that is sent to the other members of a room
  have hothers : ∀ {code : Bytes} {packet : Packet} {rest : List (Fd × Packet)},
      s'.sent = s.sent ++ (Handler.recipients s code fd).map (·, packet) ++ rest →
      (rest = [] ∨ ∃ answer, rest = [(fd, answer)]) →
      s'.sentTo b = if b ∈ s.roster.listed code then [packet] else [] := by
    intro code packet rest hl hrest
    have hnodup : (Handler.recipients s code fd).Nodup := (hcoherent.distinct code).filter _
    have hmem : b ∈ Handler.recipients s code fd ↔ b ∈ s.roster.listed code := by
      show b ∈ (s.roster.listed code).filter _ ↔ _
      simp [hb]
    rw [hsent, List.nil_append] at hl
    rcases hrest with rfl | ⟨answer, rfl⟩
    · rw [Server.sentTo, hl, List.append_nil, sentTo_map hnodup]
      simp only [hmem]
    · rw [sentTo_notice hnodup hl hb]
      simp only [hmem]
  have hanswer : ∀ {answer : Packet}, s'.sent = s.sent ++ [(fd, answer)] → s'.sentTo b = [] := by
    intro answer hl
    rw [hsent, List.nil_append] at hl
    exact sentTo_answer hl hb
  cases hh with
  | ignored htype hchat =>
    exact shown_untold (telling_ignored h htype hchat) (by rw [Server.sentTo, hsent]; rfl)
  | chat broadcast htype hauth hin hbroadcast =>
    obtain ⟨message, t, hsaid, hdump, hlength, rfl⟩ := broadcastPacket_iff_said.mp hbroadcast
    have hvalid : message.Valid json.double := by
      obtain ⟨data, hparse, hindex⟩ := Option.bind_eq_some_iff.mp hsaid
      have hdata := hjson.parse_valid (Json.ok_of_toOption hparse)
      rw [Json.index_eq_ok (Json.ok_of_toOption hindex)]
      cases hfield : data.field? (str "message") with
      | none => exact .null
      | some value => exact hdata.field hfield
    have htold : (⟨fd, info.roomCode, messageRemark now info message⟩ : Telling).speaker ≠ b :=
      fun heq => hb heq.symm
    refine shown_told ?_ htold (hothers (List.append_nil _).symm (Or.inl rfl))
      (screen_broadcast hjson hvalid hlength hdump)
    rw [telling_message h htype hauth hin, hsaid, Option.bind_some, fits_of_dump hdump,
      if_pos (decide_eq_true hlength)]
  | refused response n htype hresponse hcreate hnickname hjoin hexit =>
    exact shown_untold (telling_refused hjson h hname htype rfl hexit) (hanswer rfl)
  | registered nickname htype =>
    exact shown_untold (telling_of_other h (by rw [htype]; decide) (by rw [htype]; decide)
      (by rw [htype]; decide)) (hanswer rfl)
  | created name max code n k htype =>
    exact shown_untold (telling_of_other h (by rw [htype]; decide) (by rw [htype]; decide)
      (by rw [htype]; decide)) (hanswer rfl)
  | createdEmpty name code n k htype =>
    exact shown_untold (telling_of_other h (by rw [htype]; decide) (by rw [htype]; decide)
      (by rw [htype]; decide)) (hanswer rfl)
  | joined code room htype hasks hnone hroom hspace hout =>
    have hne : code ≠ [] := fun h0 => absurd (hcoherent.keyed code room hroom).2 (by simp [h0])
    obtain ⟨response, hresponse, -⟩ :=
      roomCodeResponse_ok hjson PacketType.roomJoinOk (htexts.rooms code room hroom)
    obtain ⟨notice, hnotice, -⟩ := userNotice_ok hjson PacketType.roomUserJoin fd hname
    have htelling : s.telling json ⟨s.clientManager.setClient fd { info with roomCode := code },
        ⟨s.roomManager.rooms.set code { room with clients := room.clients ++ [fd] },
          s.roomManager.codes⟩, s.accepts,
        s.sent ++ joinPackets json fd info.nickname code room.clients⟩ (.packet fd p now) =
        some ⟨fd, code, noticeRemark json fd info .enters⟩ := by
      have hplace : ClientInfo.room? { info with roomCode := code } = some code :=
        ClientInfo.room?_eq_some.mpr ⟨rfl, hne⟩
      rw [Server.telling, h, Option.bind_some, if_neg (by rw [htype]; decide), if_pos htype,
        if_pos hnone, Server.moved_setClient rfl fd, if_pos rfl, hplace]
      rfl
    refine shown_told htelling (fun heq => hb heq.symm) ?_
      (screen_userNotice hjson hcut hname (Or.inl ⟨rfl, rfl⟩) hnotice)
    have hpackets : s.sent ++ joinPackets json fd info.nickname code room.clients =
        room.clients.map (·, notice) ++ [(fd, response)] := by
      rw [hsent, List.nil_append, joinPackets, hresponse]
      simp only [hnotice]
    rw [Server.listed_of_room hroom]
    exact sentTo_notice (Server.listed_of_room hroom ▸ hcoherent.distinct code) hpackets hb
  | exited notice htype hin hnotice =>
    have htold : (⟨fd, info.roomCode, noticeRemark json fd info .exits⟩ : Telling).speaker ≠ b :=
      fun heq => hb heq.symm
    refine shown_told ?_ htold (hothers rfl (Or.inr ⟨_, rfl⟩))
      (screen_userNotice hjson hcut hname (Or.inr ⟨rfl, rfl⟩) hnotice)
    rw [Server.telling, h, Option.bind_some, if_neg (by rw [htype]; decide),
      if_neg (by rw [htype]; decide), if_pos htype, if_neg hin]

/-! ### Runs -/

theorem Server.screen_step (hjson : json.Lawful) (hcut : json.ThrowsOnCut) (htexts : s.Texts)
    (hcoherent : s.Coherent) {e : Event} (hstep : s.step json e = some s') (b : Fd) :
    Client.screen json (s'.sentTo b) = Remark.shown (s.hears json s' b e) := by
  cases e with
  | packet fd p now =>
    obtain ⟨info, h, hh⟩ := handled_of_step hstep
    have hquiet : Server.Texts { s with sent := [] } := ⟨htexts.codes, htexts.rooms, htexts.names⟩
    have hsame : Server.Coherent { s with sent := [] } :=
      ⟨hcoherent.keyed, hcoherent.live, hcoherent.distinct⟩
    by_cases hb : b = fd
    · subst hb
      exact hh.screen_self (s := { s with sent := [] }) rfl
    · exact hh.screen_other (s := { s with sent := [] }) hjson hcut hquiet hsame h rfl hb
  | accept fd ip added =>
    obtain ⟨-, rfl⟩ := Server.step_eq_some.mp hstep
    refine shown_untold rfl ?_
    have hsent : (Event.perform json { s with sent := [] } (.accept fd ip added)).sent = [] :=
      sent_acceptNewConnection _ fd ip added
    rw [Server.sentTo, hsent]
    rfl
  | close fd =>
    obtain ⟨-, rfl⟩ := Server.step_eq_some.mp hstep
    exact shown_untold rfl rfl

/-- What client `b` is sent in a run shows what it is told in the run. -/
theorem Server.screen_packetsTo (hjson : json.Lawful) (hcut : json.ThrowsOnCut) (b : Fd)
    {more : List Event} (htexts : s.Texts) (hcoherent : s.Coherent)
    (hrun : Transition.runFrom (Server.step json) s more = some s') :
    Client.screen json (s.packetsTo json b more) = Remark.shown (s.transcript json b more) := by
  induction more generalizing s with
  | nil => rfl
  | cons e more ih =>
    obtain ⟨u, hu, hrun⟩ := Option.bind_eq_some_iff.mp hrun
    have hpackets : s.packetsTo json b (e :: more) = u.sentTo b ++ u.packetsTo json b more := by
      rw [packetsTo, hu]
      rfl
    have htranscript : s.transcript json b (e :: more) =
        s.hears json u b e ++ u.transcript json b more := by
      rw [transcript, hu]
      rfl
    rw [hpackets, htranscript, Client.screen_append, Remark.shown_append,
      screen_step hjson hcut htexts hcoherent hu b,
      ih (Server.Texts.step hjson htexts hu) (hcoherent.step hu) hrun]

theorem filled_of_step {e : Event} (hstep : s.step json e = some s') :
    ∀ x ∈ s'.sent, x.2.Filled := by
  obtain ⟨-, rfl⟩ := Server.step_eq_some.mp hstep
  cases e with
  | packet fd p now =>
    exact filled_sent_exec (PacketHandler.handle_onlyFilled json now fd p)
      (fun x hx => absurd hx List.not_mem_nil)
  | accept fd ip added =>
    have hsent : (Event.perform json { s with sent := [] } (.accept fd ip added)).sent = [] :=
      sent_acceptNewConnection _ fd ip added
    rw [hsent]
    exact fun x hx => absurd hx List.not_mem_nil
  | close fd => exact fun x hx => absurd hx List.not_mem_nil

theorem Server.filled_packetsTo (b : Fd) {more : List Event}
    (hrun : Transition.runFrom (Server.step json) s more = some s') :
    ∀ p ∈ s.packetsTo json b more, p.Filled := by
  induction more generalizing s with
  | nil => exact fun p hp => absurd hp List.not_mem_nil
  | cons e more ih =>
    obtain ⟨u, hu, hrun⟩ := Option.bind_eq_some_iff.mp hrun
    intro p hp
    rw [packetsTo, hu] at hp
    rcases List.mem_append.mp hp with hp | hp
    · obtain ⟨x, hx, rfl⟩ := List.mem_map.mp hp
      exact filled_of_step hu x (List.mem_filter.mp hx).1
    · exact ih hrun p hp

/-! ### A session -/

/-- Client `b` is in a chat session throughout: it is connected, its connection is not closed,
and it sends nothing but messages. -/
structure Server.InSession (s : Server) (b : Fd) (events : List Event) : Prop where
  connected : (s.client? b).isSome = true
  stays : .close b ∉ events
  chats : ∀ p now, .packet b p now ∈ events → p.type = PacketType.messageSend

/-- What a packet has the server send to others are messages. -/
theorem Handled.isMessage_sent (hsent : s.sent = []) (hh : Handled json now s fd info p s') :
    ∀ x ∈ s'.sent, x.1 = fd ∨ Client.ChatService.IsMessage x.2.type := by
  -- notices for a room, and an answer
  have hall : ∀ (l : List Fd) {notice : Packet} (rest : List (Fd × Packet)),
      Client.ChatService.IsMessage notice.type → (∀ x ∈ rest, x.1 = fd) →
      s'.sent = s.sent ++ (l.map (·, notice) ++ rest) →
      ∀ x ∈ s'.sent, x.1 = fd ∨ Client.ChatService.IsMessage x.2.type := by
    intro l notice rest hnotice hrest hl x hx
    rw [hl, hsent, List.nil_append] at hx
    rcases List.mem_append.mp hx with hx | hx
    · obtain ⟨g, -, rfl⟩ := List.mem_map.mp hx
      exact Or.inr hnotice
    · exact Or.inl (hrest x hx)
  have hself : ∀ {answer : Packet}, ∀ x ∈ [(fd, answer)], x.1 = fd :=
    fun x hx => by rw [List.mem_singleton.mp hx]
  have hanswer : ∀ answer : Packet, s'.sent = s.sent ++ [(fd, answer)] →
      ∀ x ∈ s'.sent, x.1 = fd ∨ Client.ChatService.IsMessage x.2.type := by
    intro answer hl x hx
    rw [hl, hsent, List.nil_append] at hx
    exact Or.inl (hself x hx)
  have hkind : ∀ {type : PacketType} {notice : Packet},
      userNotice json type fd info.nickname = .ok notice → Client.ChatService.IsMessage type →
      Client.ChatService.IsMessage notice.type := by
    intro type notice hnotice htype
    obtain ⟨t, -, rfl⟩ := userNotice_eq_ok.mp hnotice
    exact htype
  cases hh with
  | ignored htype => exact fun x hx => absurd (hsent ▸ hx) List.not_mem_nil
  | chat broadcast htype hauth hin hbroadcast =>
    have hchat : Client.ChatService.IsMessage broadcast.type :=
      Or.inl (MessageHandler.type_broadcastPacket hbroadcast)
    exact hall _ [] hchat (fun x hx => absurd hx List.not_mem_nil) (by rw [List.append_nil])
  | refused response n => exact hanswer _ rfl
  | registered nickname => exact hanswer _ rfl
  | created name max code n k => exact hanswer _ rfl
  | createdEmpty name code n k => exact hanswer _ rfl
  | joined code room htype hasks hnone hroom hspace hout =>
    cases hresponse : roomCodeResponse json PacketType.roomJoinOk code with
    | error e => exact hanswer (jsonErrorResponse PacketType.roomJoinFail e) (by
      simp only [joinPackets, hresponse])
    | ok response =>
      cases hnotice : userNotice json PacketType.roomUserJoin fd info.nickname with
      | error e => exact hanswer (jsonErrorResponse PacketType.roomJoinFail e) (by
      simp only [joinPackets, hresponse, hnotice])
      | ok notice =>
        exact hall room.clients [(fd, response)] (hkind hnotice (Or.inr (Or.inl rfl))) hself
          (by simp only [joinPackets, hresponse, hnotice])
  | exited notice htype hin hnotice =>
    exact hall _ _ (hkind hnotice (Or.inr (Or.inr (Or.inl rfl)))) hself (List.append_assoc _ _ _)

theorem isMessage_of_step {e : Event} (hstep : s.step json e = some s')
    (hchats : ∀ p now, e = .packet b p now → p.type = PacketType.messageSend) :
    ∀ p ∈ s'.sentTo b, Client.ChatService.IsMessage p.type := by
  intro q hq
  obtain ⟨x, hfilter, rfl⟩ := List.mem_map.mp hq
  obtain ⟨hx, hb⟩ := List.mem_filter.mp hfilter
  obtain rfl : x.1 = b := of_decide_eq_true hb
  cases e with
  | packet fd p now =>
    obtain ⟨info, h, hh⟩ := handled_of_step hstep
    by_cases hself : x.1 = fd
    · -- a message of the client's own is not answered
      obtain rfl := hself
      have hnone : answerTypes p.type = none :=
        answerTypes_eq_none.mpr (hchats p now rfl ▸ not_isRequest_messageSend)
      rw [(hh.sentTo (s := { s with sent := [] }) rfl).2 hnone] at hq
      cases hq
    · exact (hh.isMessage_sent (s := { s with sent := [] }) rfl x hx).resolve_left hself
  | accept fd ip added =>
    obtain ⟨-, rfl⟩ := Server.step_eq_some.mp hstep
    have hsent : (Event.perform json { s with sent := [] } (.accept fd ip added)).sent = [] :=
      sent_acceptNewConnection _ fd ip added
    rw [hsent] at hx
    cases hx
  | close fd =>
    obtain ⟨-, rfl⟩ := Server.step_eq_some.mp hstep
    cases hx

/-- In a session the client is sent messages only. -/
theorem Server.isMessage_packetsTo {more : List Event}
    (hchats : ∀ p now, .packet b p now ∈ more → p.type = PacketType.messageSend)
    (hrun : Transition.runFrom (Server.step json) s more = some s') :
    ∀ p ∈ s.packetsTo json b more, Client.ChatService.IsMessage p.type := by
  induction more generalizing s with
  | nil => exact fun p hp => absurd hp List.not_mem_nil
  | cons e more ih =>
    obtain ⟨u, hu, hrun⟩ := Option.bind_eq_some_iff.mp hrun
    intro p hp
    rw [packetsTo, hu] at hp
    rcases List.mem_append.mp hp with hp | hp
    · exact isMessage_of_step hu (fun q now he => hchats q now (he ▸ List.mem_cons_self)) p hp
    · exact ih (fun q now he => hchats q now (List.mem_cons_of_mem e he)) hrun p hp

/-- What client `b` gets of a part of a run: whatever the partial writes and retries with which
the server sends it its packets, the frames are on the stream one after the other; they are
messages; and a chat session that receives them shows `x`. -/
structure Server.Conveys (json : Nlohmann) (s : Server) (b : Fd) (more : List Event)
    (server client : ByteOrder) (x : Shown) : Prop where
  stream : ∀ script : List Socket.SendResult, (∀ r ∈ script, r ≠ .error) →
    ((s.packetsTo json b more).flatMap (Packet.encode server)).length ≤
      script.countP Socket.SendResult.isAccepted →
    (PacketSender.sendEach server script (s.packetsTo json b more)).bytes =
      (s.packetsTo json b more).flatMap (Packet.encode client)
  messages : ∀ p ∈ s.packetsTo json b more, p.Filled ∧ Client.ChatService.IsMessage p.type
  shows : ChatSession.Shows client json (s.packetsTo json b more) x

/-- A session shows the transcript. -/
theorem Server.conveys_transcript (hjson : json.Lawful) (hcut : json.ThrowsOnCut)
    (htexts : s.Texts) (hcoherent : s.Coherent) {more : List Event}
    (hrun : Transition.runFrom (Server.step json) s more = some s')
    (hsession : s.InSession b more) (server client : ByteOrder) :
    s.Conveys json b more server client (Remark.shown (s.transcript json b more)) := by
  have hfilled := filled_packetsTo b hrun
  refine ⟨fun script hscript hcount => ?_, fun p hp => ⟨hfilled p hp, ?_⟩, ?_⟩
  · -- a frame does not depend on the host that writes it
    have hhost : Packet.encode server = Packet.encode client := by
      funext p
      rw [Packet.encode_eq, Packet.encode_eq]
    rw [(PacketSender.sendEach_done server hfilled script hscript hcount).2, hhost]
  · exact isMessage_packetsTo hsession.chats hrun p hp
  · rw [← screen_packetsTo hjson hcut b htexts hcoherent hrun]
    exact ChatSession.shows_screen client json _

/-- Packets arrive while the receiver thread is about to receive the first. -/
def ChatSession.arrive (packets : List Packet) : List ChatSession.Event :=
  .act .startReceiving :: .act .test :: packets.map .frame

theorem ChatSession.exitRoom_not_mem_arrive (packets : List Packet) :
    .act .exitRoom ∉ ChatSession.arrive packets := by
  simp [ChatSession.arrive]

end SocketChat
