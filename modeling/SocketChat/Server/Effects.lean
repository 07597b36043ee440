/-
What handling one packet can do.

`Handled json now s fd info p s'` lists, once, everything a packet `p` of a connected
client can change when it is handled to completion, together with the guards under
which it does and with what is sent.  `exec_handle` shows that the handlers do nothing
else; invariants are proved by cases on `Handled`, without looking at handlers again.
-/
import SocketChat.Server.Events

namespace SocketChat

open Handler

variable {json : Nlohmann} {now : LocalTime} {s : Server} {fd : Fd} {info : ClientInfo}

/-- What is sent when a client with the given nickname has joined a room with the given
other members. -/
def joinPackets (json : Nlohmann) (fd : Fd) (nickname code : Bytes) (others : List Fd) :
    List (Fd × Packet) :=
  match roomCodeResponse json PacketType.roomJoinOk code with
  | .error e => [(fd, jsonErrorResponse PacketType.roomJoinFail e)]
  | .ok response =>
    match userNotice json PacketType.roomUserJoin fd nickname with
    | .error e => [(fd, jsonErrorResponse PacketType.roomJoinFail e)]
    | .ok notice => others.map (·, notice) ++ [(fd, response)]

/-- The type of the answer to a refused request. -/
def failType (request : PacketType) : PacketType :=
  if request = PacketType.nicknameRequest then PacketType.nicknameResponseFail
  else if request = PacketType.createRoom then PacketType.roomCreateFail
  else if request = PacketType.joinRoom then PacketType.roomJoinFail
  else PacketType.roomExitFail

/-- A request: a packet type whose handler always answers. -/
def IsRequest (type : PacketType) : Prop :=
  type = PacketType.nicknameRequest ∨ type = PacketType.createRoom ∨
    type = PacketType.joinRoom ∨ type = PacketType.exitRoom

theorem not_isRequest_messageSend : ¬ IsRequest PacketType.messageSend := by
  rintro (h | h | h | h)
  all_goals exact absurd h (by decide)

/-- The payload is a JSON object asking to create the room `name` with capacity `max`. -/
def AsksToCreate (json : Nlohmann) (p : Packet) (name : Bytes) (max : Int32) : Prop :=
  ∃ data, json.parse p.text = .ok data ∧
    RoomHandler.createRequest json data = .ok (name, max)

/-- The payload is a JSON object naming the room `code`. -/
def AsksToJoin (json : Nlohmann) (p : Packet) (code : Bytes) : Prop :=
  ∃ data, json.parse p.text = .ok data ∧ RoomHandler.roomCode? data = some code

/-- The payload is a JSON object asking for `nickname`. -/
def AsksForNickname (json : Nlohmann) (p : Packet) (nickname : Bytes) : Prop :=
  ∃ data, json.parse p.text = .ok data ∧ NicknameHandler.nickname? data = some nickname

/-- The states handling packet `p` of client `fd`, whose record is `info`, can lead to
from `s`. -/
inductive Handled (json : Nlohmann) (now : LocalTime) (s : Server) (fd : Fd)
    (info : ClientInfo) (p : Packet) : Server → Prop
  /-- Nothing happens: a packet without a handler, or a message that is not broadcast. -/
  | ignored (htype : ¬ IsRequest p.type)
      (hchat : p.type = PacketType.messageSend → info.isAuthenticated = true →
        info.roomCode ≠ [] →
        MessageHandler.broadcastPacket json now fd info p = none) :
      Handled json now s fd info p s
  /-- A message is broadcast. -/
  | chat (broadcast : Packet) (htype : p.type = PacketType.messageSend)
      (hauth : info.isAuthenticated = true) (hroom : info.roomCode ≠ [])
      (hbroadcast : MessageHandler.broadcastPacket json now fd info p = some broadcast) :
      Handled json now s fd info p
        { s with sent := s.sent ++ (recipients s info.roomCode fd).map (·, broadcast) }
  /-- A request is refused; a failed `addRoom` may have drawn codes. -/
  | refused (response : Packet) (n : ℕ) (htype : IsRequest p.type)
      (hresponse : response.type = failType p.type)
      (hcreate : p.type = PacketType.createRoom → ∀ name max, AsksToCreate json p name max →
        ¬ (s.roomManager.rooms.size < maxRoomCnt ∧ s.roomManager.FreeCode 100))
      (hnickname : p.type = PacketType.nicknameRequest → ∀ nickname,
        AsksForNickname json p nickname → nickname ∈ s.clientManager.nicknames)
      (hjoin : p.type = PacketType.joinRoom → ∀ code, AsksToJoin json p code →
        info.roomCode ≠ [] ∨ ∀ room, s.room? code = some room →
          sizeOfInt room.maxUserCnt ≤ room.clients.length ∨ fd ∈ room.clients)
      (hexit : p.type = PacketType.exitRoom → info.roomCode = [] ∨
        ∃ e, userNotice json PacketType.roomUserExit fd info.nickname = .error e) :
      Handled json now s fd info p
        { s with
          roomManager := ⟨s.roomManager.rooms, s.roomManager.codes.drop n⟩
          sent := s.sent ++ [(fd, response)] }
  /-- A nickname is registered. -/
  | registered (nickname : Bytes) (htype : p.type = PacketType.nicknameRequest)
      (hasks : AsksForNickname json p nickname) (hfree : nickname ∉ s.clientManager.nicknames) :
      Handled json now s fd info p
        { s with
          clientManager := s.clientManager.setNickname fd nickname
          sent := s.sent ++ [(fd, Packet.ofText PacketType.nicknameResponseOk [])] }
  /-- A room is created under a code that was drawn, its creator the only member. -/
  | created (name : Bytes) (max : Int32) (code : Bytes) (n k : ℕ)
      (htype : p.type = PacketType.createRoom) (hasks : AsksToCreate json p name max)
      (hmax : max ≠ 0) (hcode : code = s.roomManager.codes.code k) (hfresh : s.room? code = none)
      (hfree : s.roomManager.rooms.size < maxRoomCnt ∧ s.roomManager.FreeCode 100) :
      Handled json now s fd info p
        { s with
          clientManager := s.clientManager.setClient fd { info with roomCode := code }
          roomManager := ⟨s.roomManager.rooms.set code ⟨code, name, max, [fd]⟩,
            s.roomManager.codes.drop n⟩
          sent := s.sent ++ [(fd, RoomHandler.createAnswer json code)] }
  /-- A room of capacity 0 is created: it does not even admit its creator. -/
  | createdEmpty (name : Bytes) (code : Bytes) (n k : ℕ)
      (htype : p.type = PacketType.createRoom) (hasks : AsksToCreate json p name 0)
      (hcode : code = s.roomManager.codes.code k) (hfresh : s.room? code = none)
      (hfree : s.roomManager.rooms.size < maxRoomCnt ∧ s.roomManager.FreeCode 100) :
      Handled json now s fd info p
        { s with
          roomManager := ⟨s.roomManager.rooms.set code ⟨code, name, 0, []⟩,
            s.roomManager.codes.drop n⟩
          sent := s.sent ++ [(fd, RoomHandler.createAnswer json code)] }
  /-- The client joins a room. -/
  | joined (code : Bytes) (room : Room) (htype : p.type = PacketType.joinRoom)
      (hasks : AsksToJoin json p code) (hnone : info.roomCode = [])
      (hroom : s.room? code = some room)
      (hspace : room.clients.length < sizeOfInt room.maxUserCnt) (hout : fd ∉ room.clients) :
      Handled json now s fd info p
        { s with
          clientManager := s.clientManager.setClient fd { info with roomCode := code }
          roomManager :=
            ⟨s.roomManager.rooms.set code { room with clients := room.clients ++ [fd] },
              s.roomManager.codes⟩
          sent := s.sent ++ joinPackets json fd info.nickname code room.clients }
  /-- The client leaves its room. -/
  | exited (notice : Packet) (htype : p.type = PacketType.exitRoom) (hin : info.roomCode ≠ [])
      (hnotice : userNotice json PacketType.roomUserExit fd info.nickname = .ok notice) :
      Handled json now s fd info p
        { s with
          clientManager := s.clientManager.setClient fd { info with roomCode := [] }
          roomManager := s.roomManager.leaveRoom fd info.roomCode
          sent := s.sent ++ (recipients s info.roomCode fd).map (·, notice) ++
            [(fd, Packet.ofText PacketType.roomExitOk [])] }

/-! ### Each handler does one of these -/

/-- The pointer obtained in `s` is still good after calls on the rooms and the sockets. -/
private theorem exec_setRoomCode_same {rooms : RoomManager} {sent : List (Fd × Packet)}
    {code : Bytes} (h : s.client? fd = some info) :
    (setRoomCode (s.connection fd) code).exec serve
        ⟨s.clientManager, rooms, s.accepts, sent⟩ =
      ((), ⟨s.clientManager.setClient fd { info with roomCode := code }, rooms, s.accepts,
        sent⟩) :=
  exec_setRoomCode ⟨s.clientManager, rooms, s.accepts, sent⟩ h code _ rfl

/-- The reasons of a refusal that do not apply to a request of the given type. -/
private theorem refuse {p : Packet} (type : PacketType) (hp : p.type = type)
    (htype : IsRequest type) (response : Packet) (hresponse : response.type = failType type)
    (n : ℕ)
    (hcreate : type = PacketType.createRoom → ∀ name max, AsksToCreate json p name max →
      ¬ (s.roomManager.rooms.size < maxRoomCnt ∧ s.roomManager.FreeCode 100))
    (hnickname : type = PacketType.nicknameRequest → ∀ nickname,
      AsksForNickname json p nickname → nickname ∈ s.clientManager.nicknames)
    (hjoin : type = PacketType.joinRoom → ∀ code, AsksToJoin json p code →
      info.roomCode ≠ [] ∨ ∀ room, s.room? code = some room →
        sizeOfInt room.maxUserCnt ≤ room.clients.length ∨ fd ∈ room.clients)
    (hexit : type = PacketType.exitRoom → info.roomCode = [] ∨
      ∃ e, userNotice json PacketType.roomUserExit fd info.nickname = .error e) :
    Handled json now s fd info p
      { s with
        roomManager := ⟨s.roomManager.rooms, s.roomManager.codes.drop n⟩
        sent := s.sent ++ [(fd, response)] } := by
  subst hp
  exact Handled.refused response n htype hresponse hcreate hnickname hjoin hexit

/-- The same for a refusal before any code is drawn. -/
private theorem refuse_unchanged {p : Packet} (type : PacketType) (hp : p.type = type)
    (htype : IsRequest type) (response : Packet) (hresponse : response.type = failType type)
    (hcreate : type = PacketType.createRoom → ∀ name max, AsksToCreate json p name max →
      ¬ (s.roomManager.rooms.size < maxRoomCnt ∧ s.roomManager.FreeCode 100))
    (hnickname : type = PacketType.nicknameRequest → ∀ nickname,
      AsksForNickname json p nickname → nickname ∈ s.clientManager.nicknames)
    (hjoin : type = PacketType.joinRoom → ∀ code, AsksToJoin json p code →
      info.roomCode ≠ [] ∨ ∀ room, s.room? code = some room →
        sizeOfInt room.maxUserCnt ≤ room.clients.length ∨ fd ∈ room.clients)
    (hexit : type = PacketType.exitRoom → info.roomCode = [] ∨
      ∃ e, userNotice json PacketType.roomUserExit fd info.nickname = .error e) :
    Handled json now s fd info p { s with sent := s.sent ++ [(fd, response)] } := by
  have h : Handled json now s fd info p _ :=
    refuse type hp htype response hresponse 0 hcreate hnickname hjoin hexit
  rwa [CodeStream.drop_zero] at h

theorem exec_nicknameHandler {p : Packet} (hp : p.type = PacketType.nicknameRequest) :
    Handled json now s fd info p ((NicknameHandler.handle json fd p).exec serve s).2 := by
  have hrefuse : ∀ response : Packet, response.type = PacketType.nicknameResponseFail →
      (∀ nickname, AsksForNickname json p nickname → nickname ∈ s.clientManager.nicknames) →
      Handled json now s fd info p { s with sent := s.sent ++ [(fd, response)] } := by
    intro response hresponse htaken
    exact refuse_unchanged _ hp (Or.inl rfl) response hresponse (fun h => by cases h)
      (fun _ => htaken) (fun h => by cases h) (fun h => by cases h)
  unfold NicknameHandler.handle
  cases hparse : json.parse p.text with
  | error e =>
    refine hrefuse _ rfl fun nickname ⟨data, hdata, _⟩ => ?_
    rw [hparse] at hdata
    cases hdata
  | ok data =>
    cases hname : NicknameHandler.nickname? data with
    | none =>
      simp only [hname]
      refine hrefuse _ rfl fun nickname ⟨data', hdata, hnick⟩ => ?_
      rw [hparse] at hdata
      cases hdata
      rw [hname] at hnick
      cases hnick
    | some nickname =>
      simp only [hname, exec_isNicknameTaken]
      by_cases htaken : nickname ∈ s.clientManager.nicknames
      · rw [if_pos ((ClientManager.isNicknameTaken_iff _ _).mpr htaken)]
        refine hrefuse _ rfl fun nickname' ⟨data', hdata, hnick⟩ => ?_
        rw [hparse] at hdata
        cases hdata
        rw [hname, Option.some_inj] at hnick
        exact hnick ▸ htaken
      · rw [if_neg (by rwa [ClientManager.isNicknameTaken_iff])]
        exact Handled.registered nickname hp ⟨data, hparse, hname⟩ htaken

theorem exec_messageHandler {p : Packet} (h : s.client? fd = some info)
    (hp : p.type = PacketType.messageSend) :
    Handled json now s fd info p ((MessageHandler.handle json now fd p).exec serve s).2 := by
  have hnone : ¬ IsRequest p.type := by
    rw [hp]
    rintro (h | h | h | h) <;> cases h
  rw [MessageHandler.handle, exec_getClient, h]
  simp only [Option.map_some]
  by_cases hauth : info.isAuthenticated = false
  · rw [if_pos hauth]
    exact Handled.ignored hnone fun _ h => absurd hauth (by simp [h])
  · rw [if_neg hauth]
    by_cases hroom : info.roomCode = []
    · rw [if_pos hroom]
      exact Handled.ignored hnone fun _ _ h => absurd hroom h
    · rw [if_neg hroom]
      cases hb : MessageHandler.broadcastPacket json now fd info p with
      | none => exact Handled.ignored hnone fun _ _ _ => hb
      | some broadcast =>
        simp only [exec_broadcastPacketForRoom]
        exact Handled.chat broadcast hp (by simpa using hauth) hroom hb

/-- A room just created admits its creator, unless its capacity is 0. -/
theorem joinRoom_new {m : RoomManager} {code name : Bytes} {max : Int32}
    (h : m.rooms.find code = some (Room.new code name max)) :
    m.joinRoom fd code = if max = 0 then (false, m) else
      (true, ⟨m.rooms.set code ⟨code, name, max, [fd]⟩, m.codes⟩) := by
  have hzero : max = 0 ↔ sizeOfInt max ≤ 0 := by
    have hlo : -2 ^ 31 ≤ max.toInt := max.le_toInt
    have hhi : max.toInt < 2 ^ 31 := max.toInt_lt
    rw [sizeOfInt, ← Int32.toInt_inj, show (0 : Int32).toInt = 0 from rfl]
    omega
  rcases m.joinRoom_cases fd code with ⟨hjoin, hfull⟩ | ⟨room, hroom, hspace, -, hjoin⟩
  · have hmax : max = 0 := by
      rcases hfull _ h with hfull | hin
      · exact hzero.mpr hfull
      · exact absurd hin (by simp [Room.new])
    rw [if_pos hmax, hjoin]
  · rw [h, Option.some_inj] at hroom
    subst hroom
    have hmax : max ≠ 0 := fun h0 => absurd (hzero.mp h0) (Nat.not_le.mpr hspace)
    rw [if_neg hmax, hjoin]
    rfl

/-- The creator's joining, right after `addRoom`. -/
theorem exec_joinCreator {code name : Bytes} {max : Int32} (h : s.client? fd = some info)
    (hroom : s.roomManager.rooms.find code = some (Room.new code name max)) :
    (RoomHandler.joinCreator fd code).exec serve s = ((), if max = 0 then s else
      { s with
        clientManager := s.clientManager.setClient fd { info with roomCode := code }
        roomManager :=
          ⟨s.roomManager.rooms.set code ⟨code, name, max, [fd]⟩, s.roomManager.codes⟩ }) := by
  rw [RoomHandler.joinCreator, exec_getClient, h]
  simp only [Option.map_some, exec_joinRoom]
  rw [joinRoom_new hroom]
  by_cases hmax : max = 0
  · simp only [if_pos hmax]
    rfl
  · simp only [if_neg hmax, if_true]
    exact exec_setRoomCode _ (by exact h) code _ rfl

theorem exec_handleCreateRoom {p : Packet} (h : s.client? fd = some info)
    (hp : p.type = PacketType.createRoom) :
    Handled json now s fd info p ((RoomHandler.handleCreateRoom json fd p).exec serve s).2 := by
  have hrefuse : ∀ response : Packet, response.type = PacketType.roomCreateFail →
      (∀ name max, AsksToCreate json p name max →
        ¬ (s.roomManager.rooms.size < maxRoomCnt ∧ s.roomManager.FreeCode 100)) →
      Handled json now s fd info p { s with sent := s.sent ++ [(fd, response)] } := by
    intro response hresponse hcreate
    exact refuse_unchanged _ hp (Or.inr (Or.inl rfl)) response hresponse (fun _ => hcreate)
      (fun h => by cases h) (fun h => by cases h) (fun h => by cases h)
  unfold RoomHandler.handleCreateRoom
  cases hparse : json.parse p.text with
  | error e =>
    refine hrefuse _ rfl fun name max ⟨data, hdata, _⟩ => ?_
    rw [hparse] at hdata
    cases hdata
  | ok data =>
    cases hreq : RoomHandler.createRequest json data with
    | error reason =>
      simp only [hreq]
      refine hrefuse _ rfl fun name max ⟨data', hdata, hreq'⟩ => ?_
      rw [hparse] at hdata
      cases hdata
      rw [hreq] at hreq'
      cases hreq'
    | ok request =>
      obtain ⟨name, max⟩ := request
      have hasks : AsksToCreate json p name max := ⟨data, hparse, hreq⟩
      simp only [hreq, exec_addRoom]
      obtain ⟨n, hcodes⟩ := s.roomManager.codes_addRoom name max
      -- `addRoom` returns no code, or a fresh one
      rcases s.roomManager.addRoom_cases name max with
        ⟨hempty, hrooms, hfail⟩ | ⟨k, hfresh, hcode, hrooms, hfree⟩
      · rw [if_pos hempty]
        have hsame : (s.roomManager.addRoom name max).2 =
            ⟨s.roomManager.rooms, s.roomManager.codes.drop n⟩ := by
          rw [← hrooms, ← hcodes]
        rw [hsame]
        exact refuse _ hp (Or.inr (Or.inl rfl)) _ rfl n (fun _ _ _ _ => hfail)
          (fun h => by cases h) (fun h => by cases h) (fun h => by cases h)
      · obtain ⟨code, hdrawn⟩ : ∃ code, code = s.roomManager.codes.code k := ⟨_, rfl⟩
        rw [← hdrawn] at hfresh hcode hrooms
        have hne : code ≠ [] := hdrawn ▸ s.roomManager.codes.code_ne_nil k
        have hadded : (s.roomManager.addRoom name max).2 =
            ⟨s.roomManager.rooms.set code (Room.new code name max),
              s.roomManager.codes.drop n⟩ := by
          rw [← hrooms, ← hcodes]
        have hfresh : s.room? code = none := (Table.not_mem_iff_find _ _).mp hfresh
        rw [hcode, if_neg hne, Prog.exec_bind, hadded,
          exec_joinCreator (by exact h) (Table.find_set_self _ _ _)]
        have hroomset : (s.roomManager.rooms.set code (Room.new code name max)).set code
            ⟨code, name, max, [fd]⟩ = s.roomManager.rooms.set code ⟨code, name, max, [fd]⟩ :=
          Finmap.insert_insert _
        -- the join that follows fails for capacity 0, unnoticed
        by_cases hmax : max = 0
        · subst hmax
          rw [if_pos rfl]
          exact Handled.createdEmpty name code n k hp hasks hdrawn hfresh hfree
        · rw [if_neg hmax, hroomset]
          exact Handled.created name max code n k hp hasks hmax hdrawn hfresh hfree

/-- The rest of a successful join, in the state where the client is already a member. -/
theorem exec_finishJoin {nickname code : Bytes} {room : Room}
    (hroom : s.room? code = some { room with clients := room.clients ++ [fd] })
    (hout : fd ∉ room.clients) :
    (RoomHandler.finishJoin json fd nickname code).exec serve s =
      ((), { s with sent := s.sent ++ joinPackets json fd nickname code room.clients }) := by
  have hrec : recipients s code fd = room.clients := by
    rw [recipients, hroom]
    simp only [Option.elim_some, Room.getClientFds, List.filter_append, List.filter_cons,
      List.filter_nil]
    have : room.clients.filter (· ≠ fd) = room.clients :=
      List.filter_eq_self.mpr fun g hg => by simpa using fun h : g = fd => hout (h ▸ hg)
    rw [this]
    simp
  unfold RoomHandler.finishJoin joinPackets
  cases roomCodeResponse json PacketType.roomJoinOk code with
  | error e => rfl
  | ok response =>
    cases userNotice json PacketType.roomUserJoin fd nickname with
    | error e => rfl
    | ok notice =>
      simp only [Prog.exec_bind, exec_broadcastPacketForRoom, hrec, exec_sendPacket,
        List.append_assoc]

theorem exec_handleJoinRoom {p : Packet} (h : s.client? fd = some info)
    (hp : p.type = PacketType.joinRoom) :
    Handled json now s fd info p ((RoomHandler.handleJoinRoom json fd p).exec serve s).2 := by
  have hrefuse : ∀ response : Packet, response.type = PacketType.roomJoinFail →
      (∀ code, AsksToJoin json p code →
        info.roomCode ≠ [] ∨ ∀ room, s.room? code = some room →
          sizeOfInt room.maxUserCnt ≤ room.clients.length ∨ fd ∈ room.clients) →
      Handled json now s fd info p { s with sent := s.sent ++ [(fd, response)] } := by
    intro response hresponse hjoin
    exact refuse_unchanged _ hp (Or.inr (Or.inr (Or.inl rfl))) response hresponse
      (fun h => by cases h) (fun h => by cases h) (fun _ => hjoin) (fun h => by cases h)
  unfold RoomHandler.handleJoinRoom
  cases hparse : json.parse p.text with
  | error e =>
    refine hrefuse _ rfl fun code ⟨data, hdata, _⟩ => ?_
    rw [hparse] at hdata
    cases hdata
  | ok data =>
    cases hcode : RoomHandler.roomCode? data with
    | none =>
      simp only [hcode]
      refine hrefuse _ rfl fun code ⟨data', hdata, hcode'⟩ => ?_
      rw [hparse] at hdata
      cases hdata
      rw [hcode] at hcode'
      cases hcode'
    | some code =>
      have hasks : AsksToJoin json p code := ⟨data, hparse, hcode⟩
      -- the payload asks for one room
      have honly : ∀ code', AsksToJoin json p code' → code' = code := by
        rintro code' ⟨data', hdata, hcode'⟩
        rw [hparse] at hdata
        cases hdata
        rw [hcode, Option.some_inj] at hcode'
        exact hcode'.symm
      simp only [hcode, exec_getClient, h, Option.map_some]
      by_cases hin : info.roomCode ≠ []
      · rw [if_pos hin]
        exact hrefuse _ rfl fun _ _ => Or.inl hin
      · rw [if_neg hin, exec_joinRoom]
        -- no such room, a full one and one that lists the client are refused alike
        rcases s.roomManager.joinRoom_cases fd code with
          ⟨hjoin, hfull⟩ | ⟨room, hroom, hspace, hout, hjoin⟩
        · rw [hjoin]
          refine hrefuse _ rfl fun code' hcode' => Or.inr ?_
          rw [honly code' hcode']
          exact hfull
        · rw [hjoin]
          simp only [if_true, Prog.exec_bind]
          rw [exec_setRoomCode_same h,
            exec_finishJoin (by exact Table.find_set_self _ _ _) hout]
          exact Handled.joined code room hp hasks (not_not.mp hin) hroom hspace hout

theorem exec_handleExitRoom {p : Packet} (h : s.client? fd = some info)
    (hp : p.type = PacketType.exitRoom) :
    Handled json now s fd info p ((RoomHandler.handleExitRoom json fd).exec serve s).2 := by
  have hrefuse : ∀ response : Packet, response.type = PacketType.roomExitFail →
      (info.roomCode = [] ∨
        ∃ e, userNotice json PacketType.roomUserExit fd info.nickname = .error e) →
      Handled json now s fd info p { s with sent := s.sent ++ [(fd, response)] } := by
    intro response hresponse hexit
    exact refuse_unchanged _ hp (Or.inr (Or.inr (Or.inr rfl))) response hresponse
      (fun h => by cases h) (fun h => by cases h) (fun h => by cases h) (fun _ => hexit)
  rw [RoomHandler.handleExitRoom, exec_getClient, h]
  simp only [Option.map_some]
  by_cases hin : info.roomCode = []
  · rw [if_pos hin]
    exact hrefuse _ rfl (Or.inl hin)
  · rw [if_neg hin]
    cases hnotice : userNotice json PacketType.roomUserExit fd info.nickname with
    | error e => exact hrefuse _ rfl (Or.inr ⟨e, hnotice⟩)
    | ok notice =>
      rw [Prog.exec_bind, exec_broadcastPacketForRoom, exec_leaveRoom, Prog.exec_bind,
        exec_setRoomCode_same h]
      exact Handled.exited notice hp hin hnotice

/-- **What handling a packet does.**  `PacketHandler::handle` on a packet of a connected
client leads to one of the states of `Handled`. -/
theorem exec_handle (p : Packet) (h : s.client? fd = some info) :
    Handled json now s fd info p ((PacketHandler.handle json now fd p).exec serve s).2 := by
  unfold PacketHandler.handle
  by_cases hnick : p.type = PacketType.nicknameRequest
  · rw [if_pos hnick]
    exact exec_nicknameHandler hnick
  · rw [if_neg hnick]
    by_cases hmsg : p.type = PacketType.messageSend
    · rw [if_pos hmsg]
      exact exec_messageHandler h hmsg
    · rw [if_neg hmsg, RoomHandler.handle]
      by_cases hcreate : p.type = PacketType.createRoom
      · rw [if_pos (Or.inl hcreate), if_pos hcreate]
        exact exec_handleCreateRoom h hcreate
      · by_cases hexit : p.type = PacketType.exitRoom
        · rw [if_pos (Or.inr (Or.inr hexit)), if_neg hcreate, if_pos hexit]
          exact exec_handleExitRoom h hexit
        · by_cases hjoin : p.type = PacketType.joinRoom
          · rw [if_pos (Or.inr (Or.inl hjoin)), if_neg hcreate, if_neg hexit, if_pos hjoin]
            exact exec_handleJoinRoom h hjoin
          · rw [if_neg (by simp [hcreate, hexit, hjoin])]
            refine Handled.ignored ?_ fun h => absurd h hmsg
            rintro (h | h | h | h)
            · exact hnick h
            · exact hcreate h
            · exact hjoin h
            · exact hexit h

/-- A packet that is no request has no effect but the sending of a message's broadcast. -/
theorem Handled.of_not_isRequest {s' : Server} {p : Packet} (hrequest : ¬ IsRequest p.type)
    (hh : Handled json now s fd info p s') :
    s' = s ∧ (p.type = PacketType.messageSend → info.isAuthenticated = true →
        info.roomCode ≠ [] → MessageHandler.broadcastPacket json now fd info p = none) ∨
      ∃ broadcast, info.isAuthenticated = true ∧ info.roomCode ≠ [] ∧
        MessageHandler.broadcastPacket json now fd info p = some broadcast ∧
        s' = { s with sent := s.sent ++ (recipients s info.roomCode fd).map (·, broadcast) } := by
  cases hh with
  | ignored htype hchat => exact Or.inl ⟨rfl, hchat⟩
  | chat broadcast htype hauth hroom hb => exact Or.inr ⟨broadcast, hauth, hroom, hb, rfl⟩
  | refused response n htype => exact absurd htype hrequest
  | registered nickname htype => exact absurd (Or.inl htype) hrequest
  | created name max code n k htype => exact absurd (Or.inr (Or.inl htype)) hrequest
  | createdEmpty name code n k htype => exact absurd (Or.inr (Or.inl htype)) hrequest
  | joined code room htype => exact absurd (Or.inr (Or.inr (Or.inl htype))) hrequest
  | exited notice htype => exact absurd (Or.inr (Or.inr (Or.inr htype))) hrequest

theorem Handled.of_messageSend {s' : Server} {p : Packet} (hp : p.type = PacketType.messageSend)
    (hh : Handled json now s fd info p s') :
    s' = s ∧ (info.isAuthenticated = true → info.roomCode ≠ [] →
        MessageHandler.broadcastPacket json now fd info p = none) ∨
      ∃ broadcast, info.isAuthenticated = true ∧ info.roomCode ≠ [] ∧
        MessageHandler.broadcastPacket json now fd info p = some broadcast ∧
        s' = { s with sent := s.sent ++ (recipients s info.roomCode fd).map (·, broadcast) } := by
  have hrequest : ¬ IsRequest p.type := hp ▸ not_isRequest_messageSend
  rcases hh.of_not_isRequest hrequest with ⟨hsame, hchat⟩ | hsent
  · exact Or.inl ⟨hsame, hchat hp⟩
  · exact Or.inr hsent

/-- A step that is a packet, in the vocabulary of `Handled`. -/
theorem handled_of_step {s' : Server} {p : Packet}
    (hstep : s.step json (.packet fd p now) = some s') :
    ∃ info, s.client? fd = some info ∧ Handled json now { s with sent := [] } fd info p s' := by
  obtain ⟨hpossible, rfl⟩ := Server.step_eq_some.mp hstep
  obtain ⟨info, h⟩ := Option.isSome_iff_exists.mp hpossible.1
  exact ⟨info, h, exec_handle p h⟩

/-! ### The record afterwards -/

/-- Handling a packet leaves a client its record, but for the room it is in or for its
nickname, and that only when it asks for one. -/
theorem Handled.exists_record {s' : Server} {p : Packet} (h : s.client? fd = some info)
    (hh : Handled json now s fd info p s') :
    ∃ info', s'.client? fd = some info' ∧
      ((∃ code, info' = { info with roomCode := code }) ∨
        ∃ nickname, AsksForNickname json p nickname ∧
          info' = { info with nickname := nickname, isAuthenticated := true }) := by
  cases hh with
  | ignored | chat | refused | createdEmpty => exact ⟨info, h, Or.inl ⟨info.roomCode, rfl⟩⟩
  | registered nickname htype hasks =>
    refine ⟨_, ?_, Or.inr ⟨nickname, hasks, rfl⟩⟩
    exact (ClientManager.getClient_setNickname h nickname fd).trans (if_pos rfl)
  | created name max code => exact ⟨_, Table.find_set_self _ _ _, Or.inl ⟨code, rfl⟩⟩
  | joined code => exact ⟨_, Table.find_set_self _ _ _, Or.inl ⟨code, rfl⟩⟩
  | exited => exact ⟨_, Table.find_set_self _ _ _, Or.inl ⟨[], rfl⟩⟩

/-- Handling a packet touches the record of no other client. -/
theorem Handled.client?_ne {s' : Server} {p : Packet} (h : s.client? fd = some info)
    (hh : Handled json now s fd info p s') {g : Fd} (hg : g ≠ fd) :
    s'.client? g = s.client? g := by
  have hrecord : ∀ code, (s.clientManager.setClient fd { info with roomCode := code }).getClient g =
      s.clientManager.getClient g := by
    intro code
    rw [ClientManager.getClient_setClient, if_neg hg]
  cases hh with
  | ignored | chat | refused | createdEmpty => rfl
  | registered nickname =>
    show (s.clientManager.setNickname fd nickname).getClient g = _
    rw [ClientManager.getClient_setNickname h, if_neg hg]
    rfl
  | created name max code => exact hrecord code
  | joined code => exact hrecord code
  | exited => exact hrecord []

/-! ### The rooms afterwards -/

/-- The packet has the room `name` with capacity `max` created. -/
def CreatesFor (json : Nlohmann) (s : Server) (p : Packet) (name : Bytes) (max : Int32) : Prop :=
  p.type = PacketType.createRoom ∧ s.roomManager.rooms.size < maxRoomCnt ∧
    s.roomManager.FreeCode 100 ∧ AsksToCreate json p name max

/-- Where a room with code `code` comes from that there is after handling packet `p` of
client `fd` in state `s`. -/
inductive RoomAfter (json : Nlohmann) (s : Server) (fd : Fd) (info : ClientInfo) (p : Packet)
    (code : Bytes) : Room → Prop
  /-- It was there. -/
  | kept {room : Room} (hroom : s.room? code = some room) : RoomAfter json s fd info p code room
  /-- It is new, under a code that was drawn; its creator is in it unless it admits
  nobody. -/
  | created {name : Bytes} {max : Int32} {clients : List Fd} {k : ℕ}
      (hcreates : CreatesFor json s p name max) (hfresh : s.room? code = none)
      (hcode : code = s.roomManager.codes.code k)
      (hclients : clients = if max = 0 then [] else [fd]) :
      RoomAfter json s fd info p code ⟨code, name, max, clients⟩
  /-- The client has joined it. -/
  | joined {room : Room} (htype : p.type = PacketType.joinRoom) (hasks : AsksToJoin json p code)
      (hroom : s.room? code = some room)
      (hspace : room.clients.length < sizeOfInt room.maxUserCnt) (hout : fd ∉ room.clients) :
      RoomAfter json s fd info p code { room with clients := room.clients ++ [fd] }
  /-- The client has left it, and somebody stays. -/
  | left {room : Room} {notice : Packet} (htype : p.type = PacketType.exitRoom)
      (hcode : code = info.roomCode) (hin : info.roomCode ≠ [])
      (hnotice : userNotice json PacketType.roomUserExit fd info.nickname = .ok notice)
      (hroom : s.room? code = some room) (hrest : room.clients.erase fd ≠ []) :
      RoomAfter json s fd info p code (room.leaveUser fd)

theorem Handled.roomAfter {s' : Server} {p : Packet} (hh : Handled json now s fd info p s')
    {code : Bytes} {room : Room} (hroom : s'.room? code = some room) :
    RoomAfter json s fd info p code room := by
  -- in a table with one room set, the room is that one or was there
  have hset : ∀ {code' : Bytes} {room' : Room},
      (s.roomManager.rooms.set code' room').find code = some room →
      code = code' ∧ room = room' ∨ s.room? code = some room := by
    intro code' room' hfind
    rw [Table.find_set] at hfind
    by_cases hcode : code = code'
    · rw [if_pos hcode, Option.some_inj] at hfind
      exact Or.inl ⟨hcode, hfind.symm⟩
    · rw [if_neg hcode] at hfind
      exact Or.inr hfind
  cases hh with
  | ignored => exact RoomAfter.kept hroom
  | chat => exact RoomAfter.kept hroom
  | refused => exact RoomAfter.kept hroom
  | registered => exact RoomAfter.kept hroom
  | created name max code' n k htype hasks hmax hcode hfresh hfree =>
    rcases hset hroom with ⟨rfl, rfl⟩ | hkept
    · exact RoomAfter.created ⟨htype, hfree.1, hfree.2, hasks⟩ hfresh hcode (by rw [if_neg hmax])
    · exact RoomAfter.kept hkept
  | createdEmpty name code' n k htype hasks hcode hfresh hfree =>
    rcases hset hroom with ⟨rfl, rfl⟩ | hkept
    · exact RoomAfter.created ⟨htype, hfree.1, hfree.2, hasks⟩ hfresh hcode (by rw [if_pos rfl])
    · exact RoomAfter.kept hkept
  | joined code' room' htype hasks hnone hroom' hspace hout =>
    rcases hset hroom with ⟨rfl, rfl⟩ | hkept
    · exact RoomAfter.joined htype hasks hroom' hspace hout
    · exact RoomAfter.kept hkept
  | exited notice htype hin hnotice =>
    have hfind : (s.roomManager.leaveRoom fd info.roomCode).rooms.find code = some room := hroom
    rw [RoomManager.find_leaveRoom] at hfind
    by_cases hcode : code = info.roomCode
    · rw [if_pos hcode, Option.bind_eq_some_iff] at hfind
      obtain ⟨old, hold, hleft⟩ := hfind
      by_cases hempty : old.clients.erase fd = []
      · rw [if_pos hempty] at hleft
        cases hleft
      · rw [if_neg hempty, Option.some_inj] at hleft
        rw [← hleft]
        exact RoomAfter.left htype hcode hin hnotice (by rw [hcode]; exact hold) hempty
    · rw [if_neg hcode] at hfind
      exact RoomAfter.kept hfind

theorem AsksToCreate.unique {p : Packet} {name name' : Bytes} {max max' : Int32}
    (h : AsksToCreate json p name max) (h' : AsksToCreate json p name' max') :
    name = name' ∧ max = max' := by
  obtain ⟨data, hparse, hreq⟩ := h
  obtain ⟨data', hparse', hreq'⟩ := h'
  rw [hparse] at hparse'
  cases hparse'
  rw [hreq] at hreq'
  cases hreq'
  exact ⟨rfl, rfl⟩

/-- A room that is asked for under the limit is created, under a code that was free. -/
theorem Handled.exists_created {s' : Server} {p : Packet} (hh : Handled json now s fd info p s')
    {name : Bytes} {max : Int32} (hcreates : CreatesFor json s p name max) :
    ∃ code, s.room? code = none ∧
      s'.room? code = some ⟨code, name, max, if max = 0 then [] else [fd]⟩ ∧
      s'.roomManager.rooms = s.roomManager.rooms.set code
        ⟨code, name, max, if max = 0 then [] else [fd]⟩ := by
  obtain ⟨hp, hsize, hfree, hasks⟩ := hcreates
  cases hh with
  | ignored htype => exact absurd (Or.inr (Or.inl hp)) htype
  | chat broadcast htype => exact absurd (htype.symm.trans hp) (by decide)
  | refused response n htype hresponse hcreate =>
    exact absurd ⟨hsize, hfree⟩ (hcreate hp name max hasks)
  | registered nickname htype => exact absurd (htype.symm.trans hp) (by decide)
  | created name' max' code n k htype hasks' hmax hcode hfresh =>
    obtain ⟨rfl, rfl⟩ := hasks.unique hasks'
    rw [if_neg hmax]
    exact ⟨code, hfresh, Table.find_set_self _ _ _, rfl⟩
  | createdEmpty name' code n k htype hasks' hcode hfresh =>
    obtain ⟨rfl, rfl⟩ := hasks.unique hasks'
    rw [if_pos rfl]
    exact ⟨code, hfresh, Table.find_set_self _ _ _, rfl⟩
  | joined code room htype => exact absurd (htype.symm.trans hp) (by decide)
  | exited notice htype => exact absurd (htype.symm.trans hp) (by decide)

end SocketChat
