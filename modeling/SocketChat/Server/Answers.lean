/-
The answers to requests.

Every handler sends what it sends in packets it has filled: `handle_onlyFilled` shows this
of each `PacketSender::send` a handler can reach.  Whatever `parse` and `dump` throw is
caught where the source's `try` block is left, so a handler comes to its end for every JSON
library.  `answered_once` shows that a request is then answered exactly once and anything
else not at all, and `failed_unchanged` that a request that is answered with a failure has
changed nothing.
-/
import SocketChat.Server.Delivery

namespace SocketChat

open Handler

/-! ### Packets that are filled -/

theorem Packet.filled_ofText {type : PacketType} {text : Bytes}
    (h : text.length ≤ maxPayloadSize) : (Packet.ofText type text).Filled := by
  refine ⟨?_, ?_⟩
  · rw [Packet.toNat_size_ofText type h]
    exact le_refl _
  · rw [Packet.toNat_size_ofText type h]
    exact h

theorem Packet.filled_ofTextCapped (type : PacketType) (text : Bytes) :
    (Packet.ofTextCapped type text).Filled :=
  Packet.filled_ofText (List.length_take_le _ _)

/-- The packet a call sends is filled. -/
def Call.SendsFilled : Call → Prop
  | .send _ packet => packet.Filled
  | _ => True

/-- What is true of every call made for a packet, whatever other threads do: what is sent is
filled, a nickname is a text, and only for a request a client is taken out of a room. -/
def Call.Proper (json : Nlohmann) (request : Prop) : Call → Prop
  | .send _ packet => packet.Filled
  | .setNickname _ nickname => json.Lawful → Bytes.utf8 nickname = true
  | .leaveRoom _ _ => request
  | _ => True

variable {json : Nlohmann} {now : LocalTime} {s s' : Server} {fd : Fd} {info : ClientInfo}
  {p : Packet} {request : Prop}

theorem proper_sendPacket {packet : Packet} (h : packet.Filled) (g : Fd) :
    (sendPacket g packet).Only (Call.Proper json request) :=
  ⟨h, fun _ => trivial⟩

theorem proper_sendEach {packet : Packet} (h : packet.Filled) (fds : List Fd) :
    (sendEach packet fd fds).Only (Call.Proper json request) := by
  induction fds with
  | nil => trivial
  | cons g fds ih =>
    rw [sendEach]
    by_cases hg : g ≠ fd
    · rw [if_pos hg]
      exact (proper_sendPacket h g).bind fun _ => ih
    · rw [if_neg hg]
      exact ih

theorem proper_broadcastPacketForRoom {packet : Packet} (h : packet.Filled) (code : Bytes) :
    (broadcastPacketForRoom packet code fd).Only (Call.Proper json request) := by
  refine ⟨trivial, fun r => ?_⟩
  cases r with
  | none => trivial
  | some fds => exact proper_sendEach h fds

theorem filled_jsonErrorResponse (type : PacketType) (e : Json.Error) :
    (jsonErrorResponse type e).Filled :=
  Packet.filled_ofTextCapped type _

theorem filled_roomCodeResponse {type : PacketType} {code : Bytes} {response : Packet}
    (h : roomCodeResponse json type code = .ok response) : response.Filled := by
  obtain ⟨t, -, rfl⟩ := roomCodeResponse_eq_ok.mp h
  exact Packet.filled_ofTextCapped type t

theorem filled_userNotice {type : PacketType} {nickname : Bytes} {notice : Packet}
    (h : userNotice json type fd nickname = .ok notice) : notice.Filled := by
  obtain ⟨t, -, rfl⟩ := userNotice_eq_ok.mp h
  exact Packet.filled_ofTextCapped type t

theorem filled_createAnswer (json : Nlohmann) (code : Bytes) :
    (RoomHandler.createAnswer json code).Filled := by
  rw [RoomHandler.createAnswer]
  cases hresponse : roomCodeResponse json PacketType.roomCreateOk code with
  | error e => exact filled_jsonErrorResponse _ e
  | ok response => exact filled_roomCodeResponse hresponse

/-- The reasons for which a CREATE_ROOM is refused fit a packet. -/
theorem filled_createRequest {data : Json} {reason : Bytes} (type : PacketType)
    (h : RoomHandler.createRequest json data = .error reason) :
    (Packet.ofText type reason).Filled := by
  refine Packet.filled_ofText ?_
  rw [RoomHandler.createRequest] at h
  cases hname : (data.field? (str "roomName")).bind Json.string? with
  | none =>
    rw [hname] at h
    obtain rfl := Except.error.inj h
    decide
  | some name =>
    rw [hname] at h
    cases hmax : (data.field? (str "maxUsers")).bind json.numberToInt? with
    | none =>
      simp only [hmax] at h
      obtain rfl := Except.error.inj h
      decide
    | some max =>
      simp only [hmax] at h
      cases h

/-! ### What the handlers call -/

theorem NicknameHandler.handle_proper :
    (NicknameHandler.handle json fd p).Only (Call.Proper json request) := by
  unfold NicknameHandler.handle
  cases hparse : json.parse p.text with
  | error e => exact proper_sendPacket (filled_jsonErrorResponse _ e) fd
  | ok data =>
    cases hname : nickname? data with
    | none =>
      simp only [hname]
      exact proper_sendPacket (Packet.filled_ofText (by decide)) fd
    | some nickname =>
      simp only [hname]
      have hasks : AsksForNickname json p nickname := ⟨data, hparse, hname⟩
      refine ⟨trivial, fun taken => ?_⟩
      cases taken with
      | true => exact proper_sendPacket (Packet.filled_ofText (by decide)) fd
      | false =>
        exact ⟨fun hjson => hasks.utf8 hjson,
          fun _ => proper_sendPacket (Packet.filled_ofText (by decide)) fd⟩

theorem MessageHandler.filled_broadcastPacket {sender : ClientInfo} {broadcast : Packet}
    (h : broadcastPacket json now fd sender p = some broadcast) : broadcast.Filled := by
  obtain ⟨data, message, t, -, -, -, hlength, rfl⟩ := broadcastPacket_eq_some.mp h
  exact Packet.filled_ofText hlength

theorem MessageHandler.handle_proper :
    (MessageHandler.handle json now fd p).Only (Call.Proper json request) := by
  refine ⟨trivial, fun r => ?_⟩
  cases r with
  | none => trivial
  | some found =>
    obtain ⟨conn, sender⟩ := found
    show Prog.Only _ (if sender.isAuthenticated = false then _ else _)
    by_cases hauth : sender.isAuthenticated = false
    · rw [if_pos hauth]
      trivial
    · rw [if_neg hauth]
      by_cases hroom : sender.roomCode = []
      · rw [if_pos hroom]
        trivial
      · rw [if_neg hroom]
        cases hb : broadcastPacket json now fd sender p with
        | none => trivial
        | some broadcast =>
          exact proper_broadcastPacketForRoom (filled_broadcastPacket hb) sender.roomCode

namespace RoomHandler

theorem joinCreator_proper (code : Bytes) :
    (joinCreator fd code).Only (Call.Proper json request) := by
  refine ⟨trivial, fun r => ?_⟩
  cases r with
  | none => trivial
  | some found =>
    refine ⟨trivial, fun joined => ?_⟩
    cases joined with
    | false => trivial
    | true => exact ⟨trivial, fun _ => trivial⟩

theorem handleCreateRoom_proper :
    (handleCreateRoom json fd p).Only (Call.Proper json request) := by
  unfold handleCreateRoom
  cases json.parse p.text with
  | error e => exact proper_sendPacket (filled_jsonErrorResponse _ e) fd
  | ok data =>
    cases hasks : createRequest json data with
    | error reason =>
      simp only [hasks]
      exact proper_sendPacket (filled_createRequest _ hasks) fd
    | ok asked =>
      simp only [hasks]
      refine ⟨trivial, fun code => ?_⟩
      show Prog.Only _ (if code = [] then _ else _)
      by_cases hcode : code = []
      · rw [if_pos hcode]
        exact proper_sendPacket (Packet.filled_ofText (by decide)) fd
      · rw [if_neg hcode]
        exact (joinCreator_proper code).bind
          fun _ => proper_sendPacket (filled_createAnswer json code) fd

theorem finishJoin_proper (nickname code : Bytes) :
    (finishJoin json fd nickname code).Only (Call.Proper json request) := by
  unfold finishJoin
  cases hresponse : roomCodeResponse json PacketType.roomJoinOk code with
  | error e => exact proper_sendPacket (filled_jsonErrorResponse _ e) fd
  | ok response =>
    cases hnotice : userNotice json PacketType.roomUserJoin fd nickname with
    | error e => exact proper_sendPacket (filled_jsonErrorResponse _ e) fd
    | ok notice =>
      exact (proper_broadcastPacketForRoom (filled_userNotice hnotice) code).bind
        fun _ => proper_sendPacket (filled_roomCodeResponse hresponse) fd

theorem handleJoinRoom_proper :
    (handleJoinRoom json fd p).Only (Call.Proper json request) := by
  unfold handleJoinRoom
  cases json.parse p.text with
  | error e => exact proper_sendPacket (filled_jsonErrorResponse _ e) fd
  | ok data =>
    cases hcode : roomCode? data with
    | none =>
      simp only [hcode]
      exact proper_sendPacket (Packet.filled_ofText (by decide)) fd
    | some code =>
      simp only [hcode]
      refine ⟨trivial, fun r => ?_⟩
      cases r with
      | none => exact proper_sendPacket (Packet.filled_ofText (by decide)) fd
      | some found =>
        obtain ⟨conn, info⟩ := found
        show Prog.Only _ (if info.roomCode ≠ [] then _ else _)
        by_cases hin : info.roomCode ≠ []
        · rw [if_pos hin]
          exact proper_sendPacket (Packet.filled_ofText (by decide)) fd
        · rw [if_neg hin]
          refine ⟨trivial, fun joined => ?_⟩
          cases joined with
          | false => exact proper_sendPacket (Packet.filled_ofText (by decide)) fd
          | true => exact ⟨trivial, fun _ => finishJoin_proper info.nickname code⟩

theorem handleExitRoom_proper (hrequest : request) :
    (handleExitRoom json fd).Only (Call.Proper json request) := by
  refine ⟨trivial, fun r => ?_⟩
  cases r with
  | none => exact proper_sendPacket (Packet.filled_ofText (by decide)) fd
  | some found =>
    obtain ⟨conn, info⟩ := found
    show Prog.Only _ (if info.roomCode = [] then _ else _)
    by_cases hin : info.roomCode = []
    · rw [if_pos hin]
      exact proper_sendPacket (Packet.filled_ofText (by decide)) fd
    · rw [if_neg hin]
      cases hnotice : userNotice json PacketType.roomUserExit fd info.nickname with
      | error e => exact proper_sendPacket (Packet.filled_ofTextCapped _ _) fd
      | ok notice =>
        refine (proper_broadcastPacketForRoom (filled_userNotice hnotice) info.roomCode).bind
          fun _ => ?_
        exact ⟨hrequest, fun _ => ⟨trivial, fun _ =>
          proper_sendPacket (Packet.filled_ofText (by decide)) fd⟩⟩

end RoomHandler

theorem PacketHandler.handle_proper (json : Nlohmann) (now : LocalTime) (fd : Fd) (p : Packet) :
    (PacketHandler.handle json now fd p).Only (Call.Proper json (IsRequest p.type)) := by
  unfold PacketHandler.handle
  by_cases hnick : p.type = PacketType.nicknameRequest
  · rw [if_pos hnick]
    exact NicknameHandler.handle_proper
  · rw [if_neg hnick]
    by_cases hmsg : p.type = PacketType.messageSend
    · rw [if_pos hmsg]
      exact MessageHandler.handle_proper
    · rw [if_neg hmsg, RoomHandler.handle]
      by_cases hcreate : p.type = PacketType.createRoom
      · rw [if_pos (Or.inl hcreate), if_pos hcreate]
        exact RoomHandler.handleCreateRoom_proper
      · by_cases hexit : p.type = PacketType.exitRoom
        · rw [if_pos (Or.inr (Or.inr hexit)), if_neg hcreate, if_pos hexit]
          exact RoomHandler.handleExitRoom_proper (Or.inr (Or.inr (Or.inr hexit)))
        · by_cases hjoin : p.type = PacketType.joinRoom
          · rw [if_pos (Or.inr (Or.inl hjoin)), if_neg hcreate, if_neg hexit, if_pos hjoin]
            exact RoomHandler.handleJoinRoom_proper
          · rw [if_neg (by simp [hcreate, hexit, hjoin])]
            trivial

/-- Every packet a handler passes to `PacketSender::send` is filled, whatever other threads
do between its calls. -/
theorem PacketHandler.handle_onlyFilled (json : Nlohmann) (now : LocalTime) (fd : Fd)
    (p : Packet) : (PacketHandler.handle json now fd p).Only Call.SendsFilled := by
  refine (PacketHandler.handle_proper json now fd p).mono fun c hc => ?_
  cases c with
  | send g packet => exact hc
  | _ => trivial

theorem filled_sent_exec {program : Handler Unit} (hprogram : program.Only Call.SendsFilled)
    (hs : ∀ x ∈ s.sent, x.2.Filled) : ∀ x ∈ (program.exec serve s).2.sent, x.2.Filled := by
  refine hprogram.exec (J := fun s : Server => ∀ x ∈ s.sent, x.2.Filled) (fun c s hc hs => ?_) hs
  cases c with
  | send g packet =>
    intro x hx
    rcases List.mem_append.mp hx with hx | hx
    · exact hs x hx
    · rw [List.mem_singleton.mp hx]
      exact hc
  | setRoomCode conn code =>
    rw [sent_setRoomCode]
    exact hs
  | _ => exact hs

/-! ### One answer to each request -/

/-- The two answers a request can have: the request succeeded, or it failed. -/
def answerTypes (request : PacketType) : Option (PacketType × PacketType) :=
  if request = PacketType.nicknameRequest then
    some (PacketType.nicknameResponseOk, PacketType.nicknameResponseFail)
  else if request = PacketType.createRoom then
    some (PacketType.roomCreateOk, PacketType.roomCreateFail)
  else if request = PacketType.joinRoom then
    some (PacketType.roomJoinOk, PacketType.roomJoinFail)
  else if request = PacketType.exitRoom then
    some (PacketType.roomExitOk, PacketType.roomExitFail)
  else none

/-- The packets client `fd` is sent in the step that leads to `s'`. -/
def Server.sentTo (s' : Server) (fd : Fd) : List Packet :=
  (s'.sent.filter fun x => x.1 = fd).map Prod.snd

/-- In the step that leads to `s'` packet `p` of client `fd` has been answered as its type
demands, and everything sent has been written by a handler and fits a packet. -/
structure Server.Answers (s' : Server) (fd : Fd) (p : Packet) : Prop where
  request : ∀ ok fail, answerTypes p.type = some (ok, fail) →
    ∃ answer, s'.sentTo fd = [answer] ∧ (answer.type = ok ∨ answer.type = fail)
  other : answerTypes p.type = none → s'.sentTo fd = []
  filled : ∀ x ∈ s'.sent, x.2.Filled

theorem answerTypes_eq_none {type : PacketType} :
    answerTypes type = none ↔ ¬ IsRequest type := by
  rw [answerTypes, IsRequest]
  by_cases hnick : type = PacketType.nicknameRequest
  · rw [if_pos hnick]
    simp [hnick]
  rw [if_neg hnick]
  by_cases hcreate : type = PacketType.createRoom
  · rw [if_pos hcreate]
    simp [hcreate]
  rw [if_neg hcreate]
  by_cases hjoin : type = PacketType.joinRoom
  · rw [if_pos hjoin]
    simp [hjoin]
  rw [if_neg hjoin]
  by_cases hexit : type = PacketType.exitRoom
  · rw [if_pos hexit]
    simp [hexit]
  rw [if_neg hexit]
  simp [hnick, hcreate, hjoin, hexit]

/-- The second of the two answers is the one a refused request is given. -/
theorem fail_of_answerTypes {type ok fail : PacketType} (h : answerTypes type = some (ok, fail)) :
    fail = failType type := by
  rw [answerTypes] at h
  rw [failType]
  by_cases hnick : type = PacketType.nicknameRequest
  · rw [if_pos hnick] at h ⊢
    exact (Prod.mk.inj (Option.some.inj h)).2.symm
  rw [if_neg hnick] at h ⊢
  by_cases hcreate : type = PacketType.createRoom
  · rw [if_pos hcreate] at h ⊢
    exact (Prod.mk.inj (Option.some.inj h)).2.symm
  rw [if_neg hcreate] at h ⊢
  by_cases hjoin : type = PacketType.joinRoom
  · rw [if_pos hjoin] at h ⊢
    exact (Prod.mk.inj (Option.some.inj h)).2.symm
  rw [if_neg hjoin] at h ⊢
  by_cases hexit : type = PacketType.exitRoom
  · rw [if_pos hexit] at h
    exact (Prod.mk.inj (Option.some.inj h)).2.symm
  · rw [if_neg hexit] at h
    cases h

/-- What a broadcast sends does not reach the client it leaves out. -/
theorem sentTo_broadcast {sent : List (Fd × Packet)} {fds : List Fd} (notice : Packet)
    (hfds : fd ∉ fds) :
    ((fds.map (·, notice) ++ sent).filter fun x => x.1 = fd) =
      sent.filter fun x => x.1 = fd := by
  have hnone : (fds.map (·, notice)).filter (fun x => x.1 = fd) = [] := by
    refine List.filter_eq_nil_iff.mpr fun x hx => ?_
    obtain ⟨g, hg, rfl⟩ := List.mem_map.mp hx
    simp only [decide_eq_true_iff]
    rintro rfl
    exact hfds hg
  rw [List.filter_append, hnone, List.nil_append]

theorem not_mem_recipients (s : Server) (code : Bytes) (fd : Fd) : fd ∉ recipients s code fd := by
  intro h
  have hne := (List.mem_filter.mp h).2
  simp at hne

/-- A packet that is the only one sent. -/
theorem filter_sent_singleton (fd : Fd) (answer : Packet) :
    (([(fd, answer)] : List (Fd × Packet)).filter fun x => x.1 = fd) = [(fd, answer)] := by
  simp

theorem type_createAnswer (json : Nlohmann) (code : Bytes) :
    (RoomHandler.createAnswer json code).type = PacketType.roomCreateOk ∨
      (RoomHandler.createAnswer json code).type = PacketType.roomCreateFail := by
  rw [RoomHandler.createAnswer]
  cases hresponse : roomCodeResponse json PacketType.roomCreateOk code with
  | error e => exact Or.inr rfl
  | ok response =>
    obtain ⟨t, -, rfl⟩ := roomCodeResponse_eq_ok.mp hresponse
    exact Or.inl rfl

/-- What a client that has joined is sent: the answer, and nothing its notice sends. -/
theorem sentTo_joinPackets (json : Nlohmann) (nickname code : Bytes) {others : List Fd}
    (hout : fd ∉ others) :
    ∃ answer, ((joinPackets json fd nickname code others).filter fun x => x.1 = fd) =
        [(fd, answer)] ∧
      (answer.type = PacketType.roomJoinOk ∨ answer.type = PacketType.roomJoinFail) := by
  rw [joinPackets]
  cases hresponse : roomCodeResponse json PacketType.roomJoinOk code with
  | error e => exact ⟨_, filter_sent_singleton fd _, Or.inr rfl⟩
  | ok response =>
    have htype : response.type = PacketType.roomJoinOk := by
      obtain ⟨t, -, rfl⟩ := roomCodeResponse_eq_ok.mp hresponse
      rfl
    cases hnotice : userNotice json PacketType.roomUserJoin fd nickname with
    | error e => exact ⟨_, filter_sent_singleton fd _, Or.inr rfl⟩
    | ok notice =>
      refine ⟨response, ?_, Or.inl htype⟩
      rw [sentTo_broadcast notice hout]
      exact filter_sent_singleton fd response

/-- One answer to a request, none to anything else. -/
theorem Handled.sentTo (hsent : s.sent = []) (hh : Handled json now s fd info p s') :
    (∀ ok fail, answerTypes p.type = some (ok, fail) →
        ∃ answer, s'.sentTo fd = [answer] ∧ (answer.type = ok ∨ answer.type = fail)) ∧
      (answerTypes p.type = none → s'.sentTo fd = []) := by
  -- a request is answered with one of its two types
  have hrequest : ∀ (answer : Packet) {type ok fail : PacketType}, p.type = type →
      answerTypes type = some (ok, fail) → (answer.type = ok ∨ answer.type = fail) →
      (s'.sent.filter fun x => x.1 = fd) = [(fd, answer)] →
      (∀ ok fail, answerTypes p.type = some (ok, fail) →
          ∃ answer, s'.sentTo fd = [answer] ∧ (answer.type = ok ∨ answer.type = fail)) ∧
        (answerTypes p.type = none → s'.sentTo fd = []) := by
    intro answer type ok fail hp htypes hanswer hfilter
    refine ⟨fun ok' fail' htypes' => ?_, fun hnone => ?_⟩
    · rw [hp, htypes] at htypes'
      obtain ⟨rfl, rfl⟩ := Prod.mk.inj (Option.some.inj htypes')
      exact ⟨answer, by rw [Server.sentTo, hfilter]; rfl, hanswer⟩
    · rw [hp, htypes] at hnone
      cases hnone
  -- and to anything else nothing is sent
  have hother : ¬ IsRequest p.type → (s'.sent.filter fun x => x.1 = fd) = [] →
      (∀ ok fail, answerTypes p.type = some (ok, fail) →
          ∃ answer, s'.sentTo fd = [answer] ∧ (answer.type = ok ∨ answer.type = fail)) ∧
        (answerTypes p.type = none → s'.sentTo fd = []) := by
    intro hnot hfilter
    refine ⟨fun ok fail htypes => ?_, fun _ => by rw [Server.sentTo, hfilter]; rfl⟩
    rw [answerTypes_eq_none.mpr hnot] at htypes
    cases htypes
  cases hh with
  | ignored htype => exact hother htype (by rw [hsent]; rfl)
  | chat broadcast htype =>
    refine hother (htype ▸ not_isRequest_messageSend) ?_
    show ((s.sent ++ _).filter fun x => x.1 = fd) = []
    have hnil : ((Handler.recipients s info.roomCode fd).map (·, broadcast) ++ []).filter
        (fun x : Fd × Packet => x.1 = fd) = [] :=
      sentTo_broadcast broadcast (not_mem_recipients s _ fd)
    rw [List.append_nil] at hnil
    rw [hsent, List.nil_append, hnil]
  | refused response n htype hresponse =>
    cases htypes : answerTypes p.type with
    | none => exact absurd htype (answerTypes_eq_none.mp htypes)
    | some types =>
      obtain ⟨ok, fail⟩ := types
      rw [← htypes]
      refine hrequest response rfl htypes (Or.inr ?_) ?_
      · rw [hresponse, fail_of_answerTypes htypes]
      · show ((s.sent ++ [(fd, response)]).filter fun x => x.1 = fd) = _
        rw [hsent]
        exact filter_sent_singleton fd response
  | registered nickname htype =>
    refine hrequest (Packet.ofText PacketType.nicknameResponseOk []) htype rfl (Or.inl rfl) ?_
    show ((s.sent ++ [(fd, _)]).filter fun x : Fd × Packet => x.1 = fd) = _
    rw [hsent]
    exact filter_sent_singleton fd _
  | created name max code n k htype =>
    refine hrequest _ htype rfl (type_createAnswer json code) ?_
    show ((s.sent ++ [(fd, _)]).filter fun x : Fd × Packet => x.1 = fd) = _
    rw [hsent]
    exact filter_sent_singleton fd _
  | createdEmpty name code n k htype =>
    refine hrequest _ htype rfl (type_createAnswer json code) ?_
    show ((s.sent ++ [(fd, _)]).filter fun x : Fd × Packet => x.1 = fd) = _
    rw [hsent]
    exact filter_sent_singleton fd _
  | joined code room htype hasks hnone hroom hspace hout =>
    obtain ⟨answer, hfilter, hanswer⟩ := sentTo_joinPackets json info.nickname code hout
    refine hrequest answer htype rfl hanswer ?_
    show ((s.sent ++ _).filter fun x => x.1 = fd) = _
    rw [hsent]
    exact hfilter
  | exited notice htype =>
    refine hrequest (Packet.ofText PacketType.roomExitOk []) htype rfl (Or.inl rfl) ?_
    show ((s.sent ++ _ ++ [(fd, _)]).filter fun x : Fd × Packet => x.1 = fd) = _
    rw [hsent, List.nil_append, sentTo_broadcast notice (not_mem_recipients s _ fd)]
    exact filter_sent_singleton fd _

/-- **Every request is answered exactly once, and nothing else is.**  Whatever the state,
the packet and the JSON library, a packet of a connected client is handled to its end; a
request is answered with one packet of its two types, any other packet with none; and every
packet sent, answer or broadcast, has at most `MAX_PAYLOAD_SIZE` payload bytes, all of them
written by the handler. -/
theorem answered_once (hstep : s.step json (.packet fd p now) = some s') : s'.Answers fd p := by
  obtain ⟨info, h, hh⟩ := handled_of_step hstep
  obtain ⟨hrequest, hother⟩ := hh.sentTo rfl
  refine ⟨hrequest, hother, ?_⟩
  obtain ⟨-, rfl⟩ := Server.step_eq_some.mp hstep
  exact filled_sent_exec (PacketHandler.handle_onlyFilled json now fd p)
    (fun x hx => absurd hx List.not_mem_nil)

/-- Client 6 asks to leave the room it shares with 5, and is told once that it has. -/
theorem answered_once_exitRoom :
    ∃ s s' answer, Transition.runFrom (Server.step Nlohmann.integral)
        (Server.init CodeStream.inOrder) twoInRoom = some s ∧
      s.step Nlohmann.integral (exitRoomEvent 6) = some s' ∧
      s'.sentTo 6 = [answer] ∧ answer.type = PacketType.roomExitOk := by
  have hexit : (Transition.runFrom (Server.step Nlohmann.integral)
      (Server.init CodeStream.inOrder) twoInRoom).any (fun s =>
        (s.step Nlohmann.integral (exitRoomEvent 6)).any fun s' =>
          (s'.sentTo 6).all fun p => p.type == PacketType.roomExitOk) = true := by
    decide +kernel
  obtain ⟨s, hrun, hs⟩ := (Option.any_eq_true _ _).mp hexit
  obtain ⟨s', hstep, hs'⟩ := (Option.any_eq_true _ _).mp hs
  obtain ⟨answer, hsent, -⟩ := (answered_once hstep).request _ _ rfl
  refine ⟨s, s', answer, hrun, hstep, hsent, ?_⟩
  exact eq_of_beq (List.all_eq_true.mp hs' answer (hsent ▸ List.mem_singleton_self answer))

/-! ### A failed request -/

/-- The types of the answers that report a failure. -/
def failTypes : List PacketType :=
  [PacketType.nicknameResponseFail, PacketType.roomCreateFail, PacketType.roomJoinFail,
    PacketType.roomExitFail]

/-- The step from `s` to `s'` has left clients, nicknames and rooms as they were, and has
sent nothing to anybody but client `fd`. -/
structure Server.Unchanged (s s' : Server) (fd : Fd) : Prop where
  clients : s'.clientManager.clients = s.clientManager.clients
  nicknames : s'.clientManager.nicknames = s.clientManager.nicknames
  rooms : s'.roomManager.rooms = s.roomManager.rooms
  sent : ∀ x ∈ s'.sent, x.1 = fd

theorem Handled.unchanged (hjson : json.Lawful) (htexts : s.Texts) (h : s.client? fd = some info)
    (hsent : s.sent = []) (hh : Handled json now s fd info p s') {type : PacketType}
    (hanswered : s'.Answered fd type) (hfail : type ∈ failTypes) : s.Unchanged s' fd := by
  obtain ⟨answer, hmem, rfl⟩ := hanswered
  -- an answer of a type that reports no failure is not one
  have hnot : ∀ {type : PacketType}, answer.type = type → type ∉ failTypes →
      s.Unchanged s' fd :=
    fun htype hno => absurd (htype ▸ hfail) hno
  have hcreated : ∀ {code : Bytes}, code.utf8 = true →
      (RoomHandler.createAnswer json code).type = PacketType.roomCreateOk := by
    intro code hcode
    obtain ⟨response, hresponse, htype⟩ := roomCodeResponse_ok hjson PacketType.roomCreateOk hcode
    rw [RoomHandler.createAnswer, hresponse]
    exact htype
  cases hh with
  | ignored =>
    rw [hsent] at hmem
    cases hmem
  | chat broadcast =>
    rw [hsent, List.nil_append] at hmem
    obtain ⟨g, hg, heq⟩ := List.mem_map.mp hmem
    obtain ⟨rfl, -⟩ := Prod.mk.inj heq
    exact absurd hg (not_mem_recipients s info.roomCode g)
  | refused response n =>
    refine ⟨rfl, rfl, rfl, fun x hx => ?_⟩
    rw [hsent] at hx
    rw [List.mem_singleton.mp hx]
  | registered nickname =>
    rw [hsent] at hmem
    obtain ⟨-, rfl⟩ := Prod.mk.inj (List.mem_singleton.mp hmem)
    exact hnot rfl (by decide)
  | created name max code n k htype hasks hmax hcode =>
    rw [hsent] at hmem
    obtain ⟨-, rfl⟩ := Prod.mk.inj (List.mem_singleton.mp hmem)
    exact hnot (hcreated (hcode ▸ htexts.codes k)) (by decide)
  | createdEmpty name code n k htype hasks hcode =>
    rw [hsent] at hmem
    obtain ⟨-, rfl⟩ := Prod.mk.inj (List.mem_singleton.mp hmem)
    exact hnot (hcreated (hcode ▸ htexts.codes k)) (by decide)
  | joined code room htype hasks hnone hroom hspace hout =>
    -- code and nickname are UTF-8, so answer and notice are written
    obtain ⟨response, hresponse, htype'⟩ :=
      roomCodeResponse_ok hjson PacketType.roomJoinOk (htexts.rooms code room hroom)
    obtain ⟨notice, hnotice, -⟩ :=
      userNotice_ok hjson PacketType.roomUserJoin fd (htexts.names fd info h)
    rw [hsent, List.nil_append, joinPackets, hresponse] at hmem
    simp only [hnotice] at hmem
    rcases List.mem_append.mp hmem with hmem | hmem
    · obtain ⟨g, hg, heq⟩ := List.mem_map.mp hmem
      obtain ⟨rfl, -⟩ := Prod.mk.inj heq
      exact absurd hg hout
    · obtain ⟨-, rfl⟩ := Prod.mk.inj (List.mem_singleton.mp hmem)
      exact hnot htype' (by decide)
  | exited notice =>
    rw [hsent, List.nil_append] at hmem
    rcases List.mem_append.mp hmem with hmem | hmem
    · obtain ⟨g, hg, heq⟩ := List.mem_map.mp hmem
      obtain ⟨rfl, -⟩ := Prod.mk.inj heq
      exact absurd hg (not_mem_recipients s info.roomCode g)
    · obtain ⟨-, rfl⟩ := Prod.mk.inj (List.mem_singleton.mp hmem)
      exact hnot rfl (by decide)

/-- The texts in every state of a run are UTF-8. -/
theorem visits_texts (hjson : json.Lawful) {dis : ℕ → Fin 62} {events : List Event}
    (hrun : Transition.runFrom (Server.step json) (Server.init (CodeStream.ofIndices dis))
      events = some s) : s.Texts :=
  Transition.runFrom_always (fun _ _ _ ht hstep => Server.Texts.step hjson ht hstep) hrun
    (Server.texts_init dis)

/-- **A failed request changes nothing.**  In every reachable state, a packet of a connected
client that is answered with a failure leaves the client table, the nicknames and the room
table as they were, and nothing is sent to any other client. -/
theorem failed_unchanged (hjson : json.Lawful) (dis : ℕ → Fin 62) (events : List Event)
    (hrun : Transition.runFrom (Server.step json) (Server.init (CodeStream.ofIndices dis))
      events = some s)
    (hstep : s.step json (.packet fd p now) = some s') (type : PacketType)
    (hanswered : s'.Answered fd type) (hfail : type ∈ failTypes) : s.Unchanged s' fd := by
  obtain ⟨info, h, hh⟩ := handled_of_step hstep
  have htexts := visits_texts hjson hrun
  have hunchanged := hh.unchanged (s := { s with sent := [] }) hjson
    ⟨htexts.codes, htexts.rooms, htexts.names⟩ h rfl hanswered hfail
  exact ⟨hunchanged.clients, hunchanged.nicknames, hunchanged.rooms, hunchanged.sent⟩

/-- Client 6, who is in a room, asks to join another. -/
theorem failed_unchanged_joinTwice :
    ∃ s s', Transition.runFrom (Server.step Nlohmann.integral) (Server.init CodeStream.inOrder)
        twoInRoom = some s ∧
      s.step Nlohmann.integral (joinRoomEvent 6 "bbbbbbbb") = some s' ∧ s.Unchanged s' 6 := by
  have hrefused : (Transition.runFrom (Server.step Nlohmann.integral)
      (Server.init CodeStream.inOrder) twoInRoom).any (fun s =>
        (s.step Nlohmann.integral (joinRoomEvent 6 "bbbbbbbb")).any fun s' =>
          s'.sent.any fun x => x.1 == 6 && decide (x.2.type = PacketType.roomJoinFail)) = true := by
    decide +kernel
  obtain ⟨s, hrun, hs⟩ := (Option.any_eq_true _ _).mp hrefused
  obtain ⟨s', hstep, hs'⟩ := (Option.any_eq_true _ _).mp hs
  obtain ⟨⟨g, answer⟩, hmem, hanswer⟩ := List.any_eq_true.mp hs'
  rw [Bool.and_eq_true] at hanswer
  obtain rfl : g = 6 := eq_of_beq hanswer.1
  exact ⟨s, s', hrun, hstep, failed_unchanged Nlohmann.lawful_integral CodeStream.indicesInOrder
    twoInRoom hrun hstep PacketType.roomJoinFail ⟨answer, hmem, of_decide_eq_true hanswer.2⟩
    (by decide)⟩

end SocketChat
