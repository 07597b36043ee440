/-
Whom the handlers tell what.

A handler sends packets to the client whose packet it handles and to rooms.  To a room it sends
notices, which answer no request; to the client it sends the answer to its request, and that is
the last thing it does.  `Speaks` says so of a program, and `PacketHandler.speaks_handle` of the
handler of every packet.
-/
import SocketChat.Server.Answers

namespace SocketChat

open Handler

/-- The type of the requests that packets of the type are answers to. -/
def requestType (type : PacketType) : Option PacketType :=
  if type = PacketType.nicknameResponseOk ∨ type = PacketType.nicknameResponseFail then
    some PacketType.nicknameRequest
  else if type = PacketType.roomCreateOk ∨ type = PacketType.roomCreateFail then
    some PacketType.createRoom
  else if type = PacketType.roomJoinOk ∨ type = PacketType.roomJoinFail then
    some PacketType.joinRoom
  else if type = PacketType.roomExitOk ∨ type = PacketType.roomExitFail then
    some PacketType.exitRoom
  else none

/-- The program sends room broadcasts that answer no request, leaving out client `fd`, and if
there is a request to answer it ends in sending `fd` an answer of its kind. -/
inductive Speaks (fd : Fd) : Option PacketType → Handler Unit → Prop
  | silent (a : Unit) : Speaks fd none (.ret a)
  | answer {request : PacketType} {packet : Packet}
      (h : requestType packet.type = some request) :
      Speaks fd (some request) (sendPacket fd packet)
  | call {request : Option PacketType} {c : Call} {k : Reply c → Handler Unit}
      (hc : ∀ g packet, c ≠ .send g packet) (hk : ∀ r, Speaks fd request (k r)) :
      Speaks fd request (.call c k)
  | broadcast {request : Option PacketType} {packet : Packet} {code : Bytes} {p : Handler Unit}
      (h : requestType packet.type = none) (hp : Speaks fd request p) :
      Speaks fd request (broadcastPacketForRoom packet code fd >>= fun _ => p)

variable {json : Nlohmann} {now : LocalTime} {fd : Fd} {request : Option PacketType}
  {p : Packet}

/-! ### The handlers -/

theorem requestType_userNotice {notice : Packet} {nickname : Bytes} {type : PacketType}
    (htype : requestType type = none) (h : userNotice json type fd nickname = .ok notice) :
    requestType notice.type = none := by
  obtain ⟨t, -, rfl⟩ := userNotice_eq_ok.mp h
  exact htype

theorem NicknameHandler.speaks_handle :
    Speaks fd (some PacketType.nicknameRequest) (NicknameHandler.handle json fd p) := by
  unfold NicknameHandler.handle
  cases json.parse p.text with
  | error e => exact Speaks.answer rfl
  | ok data =>
    cases hname : nickname? data with
    | none =>
      simp only [hname]
      exact Speaks.answer rfl
    | some nickname =>
      simp only [hname]
      refine Speaks.call (by simp) fun taken => ?_
      cases taken with
      | true => exact Speaks.answer rfl
      | false => exact Speaks.call (by simp) fun _ => Speaks.answer rfl

/-- A message is answered with nothing. -/
theorem MessageHandler.speaks_handle : Speaks fd none (MessageHandler.handle json now fd p) := by
  refine Speaks.call (by simp) fun found => ?_
  cases found with
  | none => exact Speaks.silent ()
  | some found =>
    obtain ⟨conn, sender⟩ := found
    show Speaks _ _ (if sender.isAuthenticated = false then _ else _)
    by_cases hauth : sender.isAuthenticated = false
    · rw [if_pos hauth]
      exact Speaks.silent ()
    · rw [if_neg hauth]
      by_cases hroom : sender.roomCode = []
      · rw [if_pos hroom]
        exact Speaks.silent ()
      · rw [if_neg hroom]
        cases hbroadcast : broadcastPacket json now fd sender p with
        | none => exact Speaks.silent ()
        | some broadcast =>
          have htype : requestType broadcast.type = none := by
            rw [type_broadcastPacket hbroadcast]
            rfl
          have hspeaks : Speaks fd none
              (broadcastPacketForRoom broadcast sender.roomCode fd >>= fun a => pure a) :=
            Speaks.broadcast htype (Speaks.silent ())
          rwa [Prog.bind_pure] at hspeaks

namespace RoomHandler

theorem speaks_joinCreator {q : Handler Unit} (code : Bytes) (hq : Speaks fd request q) :
    Speaks fd request (joinCreator fd code >>= fun _ => q) := by
  refine Speaks.call (by simp) fun found => ?_
  cases found with
  | none => exact hq
  | some found =>
    refine Speaks.call (by simp) fun joined => ?_
    cases joined with
    | false => exact hq
    | true => exact Speaks.call (by simp) fun _ => hq

theorem requestType_createAnswer (json : Nlohmann) (code : Bytes) :
    requestType (createAnswer json code).type = some PacketType.createRoom := by
  rcases type_createAnswer json code with h | h
  · rw [h]
    rfl
  · rw [h]
    rfl

theorem speaks_handleCreateRoom :
    Speaks fd (some PacketType.createRoom) (handleCreateRoom json fd p) := by
  unfold handleCreateRoom
  cases json.parse p.text with
  | error e => exact Speaks.answer rfl
  | ok data =>
    cases hasks : createRequest json data with
    | error reason =>
      simp only [hasks]
      exact Speaks.answer rfl
    | ok asked =>
      simp only [hasks]
      refine Speaks.call (by simp) fun code => ?_
      show Speaks _ _ (if code = [] then _ else _)
      by_cases hcode : code = []
      · rw [if_pos hcode]
        exact Speaks.answer rfl
      · rw [if_neg hcode]
        exact speaks_joinCreator code (Speaks.answer (requestType_createAnswer json code))

theorem speaks_finishJoin (nickname code : Bytes) :
    Speaks fd (some PacketType.joinRoom) (finishJoin json fd nickname code) := by
  unfold finishJoin
  cases hresponse : roomCodeResponse json PacketType.roomJoinOk code with
  | error e => exact Speaks.answer rfl
  | ok response =>
    cases hnotice : userNotice json PacketType.roomUserJoin fd nickname with
    | error e => exact Speaks.answer rfl
    | ok notice =>
      refine Speaks.broadcast (requestType_userNotice rfl hnotice) ?_
      obtain ⟨t, -, rfl⟩ := roomCodeResponse_eq_ok.mp hresponse
      exact Speaks.answer rfl

theorem speaks_handleJoinRoom :
    Speaks fd (some PacketType.joinRoom) (handleJoinRoom json fd p) := by
  unfold handleJoinRoom
  cases json.parse p.text with
  | error e => exact Speaks.answer rfl
  | ok data =>
    cases hcode : roomCode? data with
    | none =>
      simp only [hcode]
      exact Speaks.answer rfl
    | some code =>
      simp only [hcode]
      refine Speaks.call (by simp) fun found => ?_
      cases found with
      | none => exact Speaks.answer rfl
      | some found =>
        obtain ⟨conn, info⟩ := found
        show Speaks _ _ (if info.roomCode ≠ [] then _ else _)
        by_cases hin : info.roomCode ≠ []
        · rw [if_pos hin]
          exact Speaks.answer rfl
        · rw [if_neg hin]
          refine Speaks.call (by simp) fun joined => ?_
          cases joined with
          | false => exact Speaks.answer rfl
          | true => exact Speaks.call (by simp) fun _ => speaks_finishJoin info.nickname code

theorem speaks_handleExitRoom : Speaks fd (some PacketType.exitRoom) (handleExitRoom json fd) := by
  refine Speaks.call (by simp) fun found => ?_
  cases found with
  | none => exact Speaks.answer rfl
  | some found =>
    obtain ⟨conn, info⟩ := found
    show Speaks _ _ (if info.roomCode = [] then _ else _)
    by_cases hin : info.roomCode = []
    · rw [if_pos hin]
      exact Speaks.answer rfl
    · rw [if_neg hin]
      cases hnotice : userNotice json PacketType.roomUserExit fd info.nickname with
      | error e => exact Speaks.answer rfl
      | ok notice =>
        exact Speaks.broadcast (requestType_userNotice rfl hnotice) <|
          Speaks.call (by simp) fun _ => Speaks.call (by simp) fun _ => Speaks.answer rfl

end RoomHandler

/-- **What the handler of a packet tells**: an answer of its kind to a request, and none to any
other packet. -/
theorem PacketHandler.speaks_handle (json : Nlohmann) (now : LocalTime) (fd : Fd) (p : Packet) :
    ∃ request, Speaks fd request (PacketHandler.handle json now fd p) ∧
      ((IsRequest p.type ∧ request = some p.type) ∨ (¬ IsRequest p.type ∧ request = none)) := by
  unfold PacketHandler.handle
  by_cases hnick : p.type = PacketType.nicknameRequest
  · rw [if_pos hnick]
    exact ⟨_, NicknameHandler.speaks_handle, Or.inl ⟨Or.inl hnick, congrArg some hnick.symm⟩⟩
  · rw [if_neg hnick]
    by_cases hmsg : p.type = PacketType.messageSend
    · rw [if_pos hmsg]
      exact ⟨_, MessageHandler.speaks_handle, Or.inr ⟨hmsg ▸ not_isRequest_messageSend, rfl⟩⟩
    · rw [if_neg hmsg, RoomHandler.handle]
      by_cases hcreate : p.type = PacketType.createRoom
      · rw [if_pos (Or.inl hcreate), if_pos hcreate]
        exact ⟨_, RoomHandler.speaks_handleCreateRoom,
          Or.inl ⟨Or.inr (Or.inl hcreate), congrArg some hcreate.symm⟩⟩
      · by_cases hexit : p.type = PacketType.exitRoom
        · rw [if_pos (Or.inr (Or.inr hexit)), if_neg hcreate, if_pos hexit]
          exact ⟨_, RoomHandler.speaks_handleExitRoom,
            Or.inl ⟨Or.inr (Or.inr (Or.inr hexit)), congrArg some hexit.symm⟩⟩
        · by_cases hjoin : p.type = PacketType.joinRoom
          · rw [if_pos (Or.inr (Or.inl hjoin)), if_neg hcreate, if_neg hexit, if_pos hjoin]
            exact ⟨_, RoomHandler.speaks_handleJoinRoom,
              Or.inl ⟨Or.inr (Or.inr (Or.inl hjoin)), congrArg some hjoin.symm⟩⟩
          · rw [if_neg (by simp [hcreate, hexit, hjoin])]
            -- no handler
            refine ⟨none, Speaks.silent (), Or.inr ⟨?_, rfl⟩⟩
            rintro (h | h | h | h)
            exacts [hnick h, hcreate h, hjoin h, hexit h]

end SocketChat
