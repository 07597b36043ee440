/-
The receive buffers are the I/O thread's own.

A client's `recvBuffer` is filled and emptied by the I/O thread alone.  The workers are given
pointers to records that contain it, but no handler looks at it: states that are the same
but for the buffers answer the calls of handlers in the same way but for the buffers
(`serve_sameButBuffers`), and every handler goes on in the same way whatever the buffer in
the record it was shown (`PacketHandler.alike_handle`).
-/
import SocketChat.Lib.Alike
import SocketChat.Server.ThreadPool

namespace SocketChat

open Handler

/-! ### States -/

/-- The same record but for the receive buffer. -/
def ClientInfo.SameButBuffer (info info' : ClientInfo) : Prop :=
  ∃ buffer, info' = { info with recvBuffer := buffer }

/-- The same state but for the receive buffers. -/
structure Server.SameButBuffers (s t : Server) : Prop where
  clients : ∀ fd, Option.Rel ClientInfo.SameButBuffer (s.client? fd) (t.client? fd)
  nicknames : s.clientManager.nicknames = t.clientManager.nicknames
  roomManager : s.roomManager = t.roomManager
  accepts : s.accepts = t.accepts
  sent : s.sent = t.sent

/-- The same reply but for the receive buffer of a record that is returned. -/
def Call.SameReply : (c : Call) → Reply c → Reply c → Prop
  | .getClient _, r, r' => Option.Rel (fun x y => x.1 = y.1 ∧ x.2.SameButBuffer y.2) r r'
  | .isNicknameTaken _, r, r' => r = r'
  | .addRoom _ _, r, r' => r = r'
  | .joinRoom _ _, r, r' => r = r'
  | .getClientFds _, r, r' => r = r'
  | _, _, _ => True

/-- A call that returns no record. -/
def Call.ShowsNoClient : Call → Prop
  | .getClient _ => False
  | _ => True

theorem Call.SameReply.eq {c : Call} {r r' : Reply c} (hc : c.ShowsNoClient)
    (h : c.SameReply r r') : r = r' := by
  cases c with
  | getClient fd => exact hc.elim
  | isNicknameTaken => exact h
  | addRoom => exact h
  | joinRoom => exact h
  | getClientFds => exact h
  | _ => rfl

namespace Server.SameButBuffers

variable {s t : Server}

theorem refl (s : Server) : s.SameButBuffers s where
  clients fd := by
    cases s.client? fd with
    | none => exact Option.Rel.none
    | some info => exact Option.Rel.some ⟨info.recvBuffer, rfl⟩
  nicknames := rfl
  roomManager := rfl
  accepts := rfl
  sent := rfl

/-- A client is connected in both states, or in neither. -/
theorem client?_cases (h : s.SameButBuffers t) (fd : Fd) :
    (s.client? fd = none ∧ t.client? fd = none) ∨ ∃ info buffer, s.client? fd = some info ∧
      t.client? fd = some { info with recvBuffer := buffer } := by
  have hfd := h.clients fd
  revert hfd
  generalize s.client? fd = found
  generalize t.client? fd = found'
  intro hfd
  cases hfd with
  | none => exact Or.inl ⟨rfl, rfl⟩
  | @some info info' hinfo =>
    obtain ⟨buffer, rfl⟩ := hinfo
    exact Or.inr ⟨info, buffer, rfl, rfl⟩

theorem isSome_client? (h : s.SameButBuffers t) (fd : Fd) :
    (s.client? fd).isSome = (t.client? fd).isSome := by
  rcases h.client?_cases fd with ⟨hs, ht⟩ | ⟨info, buffer, hs, ht⟩
  · rw [hs, ht]
  · rw [hs, ht]
    rfl

theorem connection (h : s.SameButBuffers t) (fd : Fd) : s.connection fd = t.connection fd := by
  rw [Server.connection, Server.connection, h.accepts]

/-- What is done to the record of one client in both states. -/
theorem rel_update (h : s.SameButBuffers t) {fd : Fd} {f : ClientInfo → ClientInfo}
    (hf : ∀ info info', ClientInfo.SameButBuffer info info' →
      ClientInfo.SameButBuffer (f info) (f info')) (g : Fd) :
    Option.Rel ClientInfo.SameButBuffer
      (if g = fd then (s.client? fd).map f else s.client? g)
      (if g = fd then (t.client? fd).map f else t.client? g) := by
  by_cases hg : g = fd
  · rw [if_pos hg, if_pos hg]
    rcases h.client?_cases fd with ⟨hs, ht⟩ | ⟨info, buffer, hs, ht⟩
    · rw [hs, ht]
      exact Option.Rel.none
    · rw [hs, ht]
      exact Option.Rel.some (hf _ _ ⟨buffer, rfl⟩)
  · rw [if_neg hg, if_neg hg]
    exact h.clients g

theorem setNickname (h : s.SameButBuffers t) (fd : Fd) (nickname : Bytes) :
    (serve (.setNickname fd nickname) s).2.SameButBuffers
      (serve (.setNickname fd nickname) t).2 where
  clients g := by
    rw [client?_setNickname, client?_setNickname]
    refine h.rel_update ?_ g
    rintro info _ ⟨buffer, rfl⟩
    exact ⟨buffer, rfl⟩
  nicknames := by
    ext name
    rw [← ClientManager.isNicknameTaken_iff, ← ClientManager.isNicknameTaken_iff,
      isNicknameTaken_setNickname, isNicknameTaken_setNickname, h.isSome_client? fd,
      ClientManager.isNicknameTaken, ClientManager.isNicknameTaken, h.nicknames]
  roomManager := h.roomManager
  accepts := h.accepts
  sent := h.sent

theorem setRoomCode (h : s.SameButBuffers t) (conn : Connection) (code : Bytes) :
    (serve (.setRoomCode conn code) s).2.SameButBuffers
      (serve (.setRoomCode conn code) t).2 where
  clients g := by
    rw [client?_setRoomCode, client?_setRoomCode, h.connection conn.fd]
    refine h.rel_update ?_ g
    rintro info _ ⟨buffer, rfl⟩
    by_cases hconn : t.connection conn.fd = conn
    · rw [if_pos hconn, if_pos hconn]
      exact ⟨buffer, rfl⟩
    · rw [if_neg hconn, if_neg hconn]
      exact ⟨buffer, rfl⟩
  nicknames := by
    rw [nicknames_setRoomCode, nicknames_setRoomCode]
    exact h.nicknames
  roomManager := by
    rw [roomManager_setRoomCode, roomManager_setRoomCode]
    exact h.roomManager
  accepts := by
    rw [accepts_serve, accepts_serve]
    exact h.accepts
  sent := by
    rw [sent_setRoomCode, sent_setRoomCode]
    exact h.sent

end Server.SameButBuffers

/-- **Calls do not depend on the buffers.** -/
theorem serve_sameButBuffers (c : Call) (s t : Server) (h : s.SameButBuffers t) :
    c.SameReply (serve c s).1 (serve c t).1 ∧ (serve c s).2.SameButBuffers (serve c t).2 := by
  cases c with
  | getClient fd =>
    refine ⟨?_, h⟩
    show Option.Rel _ ((s.client? fd).map _) ((t.client? fd).map _)
    rcases h.client?_cases fd with ⟨hs, ht⟩ | ⟨info, buffer, hs, ht⟩
    · rw [hs, ht]
      exact Option.Rel.none
    · rw [hs, ht]
      exact Option.Rel.some ⟨h.connection fd, buffer, rfl⟩
  | isNicknameTaken nickname =>
    refine ⟨?_, h⟩
    show decide (nickname ∈ _) = decide (nickname ∈ _)
    rw [h.nicknames]
  | setNickname fd nickname => exact ⟨trivial, h.setNickname fd nickname⟩
  | setRoomCode conn code => exact ⟨trivial, h.setRoomCode conn code⟩
  | addRoom name max =>
    refine ⟨?_, h.clients, h.nicknames, ?_, h.accepts, h.sent⟩
    · show (s.roomManager.addRoom name max).1 = (t.roomManager.addRoom name max).1
      rw [h.roomManager]
    · show (s.roomManager.addRoom name max).2 = (t.roomManager.addRoom name max).2
      rw [h.roomManager]
  | joinRoom fd code =>
    refine ⟨?_, h.clients, h.nicknames, ?_, h.accepts, h.sent⟩
    · show (s.roomManager.joinRoom fd code).1 = (t.roomManager.joinRoom fd code).1
      rw [h.roomManager]
    · show (s.roomManager.joinRoom fd code).2 = (t.roomManager.joinRoom fd code).2
      rw [h.roomManager]
  | leaveRoom fd code =>
    refine ⟨trivial, h.clients, h.nicknames, ?_, h.accepts, h.sent⟩
    show s.roomManager.leaveRoom fd code = t.roomManager.leaveRoom fd code
    rw [h.roomManager]
  | getClientFds code =>
    refine ⟨?_, h⟩
    show (s.roomManager.getRoom code).map _ = (t.roomManager.getRoom code).map _
    rw [h.roomManager]
  | send fd packet =>
    refine ⟨trivial, h.clients, h.nicknames, h.roomManager, h.accepts, ?_⟩
    show s.sent ++ _ = t.sent ++ _
    rw [h.sent]

/-- No call changes a buffer. -/
theorem recvBuffer_serve (c : Call) (s : Server) (g : Fd) :
    ((serve c s).2.client? g).map ClientInfo.recvBuffer =
      (s.client? g).map ClientInfo.recvBuffer := by
  cases c with
  | setNickname fd nickname =>
    rw [client?_setNickname]
    by_cases hg : g = fd
    · rw [if_pos hg, hg, Option.map_map]
      rfl
    · rw [if_neg hg]
  | setRoomCode conn roomCode =>
    rw [client?_setRoomCode]
    by_cases hg : g = conn.fd
    · rw [if_pos hg, hg, Option.map_map]
      by_cases hconn : s.connection conn.fd = conn
      · simp only [if_pos hconn]
        rfl
      · simp only [if_neg hconn]
        rfl
    · rw [if_neg hg]
  | _ => rfl

/-! ### Handlers -/

namespace Handler

theorem alike_of_only {α : Type} {p : Handler α} (hp : p.Only Call.ShowsNoClient) :
    p.Alike Call.SameReply p :=
  hp.alike fun _ _ _ hc h => h.eq hc

theorem alike_sendPacket (fd : Fd) (packet : Packet) :
    (sendPacket fd packet).Alike Call.SameReply (sendPacket fd packet) :=
  alike_of_only ⟨trivial, fun _ => trivial⟩

theorem only_sendEach (packet : Packet) (exclude_fd : Fd) (fds : List Fd) :
    (sendEach packet exclude_fd fds).Only Call.ShowsNoClient := by
  induction fds with
  | nil => trivial
  | cons fd fds ih =>
    rw [sendEach]
    by_cases hfd : fd ≠ exclude_fd
    · rw [if_pos hfd]
      exact ⟨trivial, fun _ => ih⟩
    · rw [if_neg hfd]
      exact ih

theorem only_broadcastPacketForRoom (packet : Packet) (code : Bytes) (exclude_fd : Fd) :
    (broadcastPacketForRoom packet code exclude_fd).Only Call.ShowsNoClient := by
  refine ⟨trivial, fun r => ?_⟩
  cases r with
  | none => trivial
  | some fds => exact only_sendEach packet exclude_fd fds

theorem alike_broadcastPacketForRoom (packet : Packet) (code : Bytes) (exclude_fd : Fd) :
    (broadcastPacketForRoom packet code exclude_fd).Alike Call.SameReply
      (broadcastPacketForRoom packet code exclude_fd) :=
  alike_of_only (only_broadcastPacketForRoom packet code exclude_fd)

/-- A call that returns no record, and then programs alike. -/
theorem alike_call {α : Type} {c : Call} {k k' : Reply c → Handler α} (hc : c.ShowsNoClient)
    (h : ∀ r, (k r).Alike Call.SameReply (k' r)) :
    Prog.Alike Call.SameReply (.call c k) (.call c k') := by
  refine Prog.Alike.call c fun r r' hr => ?_
  rw [← hr.eq hc]
  exact h r

/-- What follows `getClient` is alike when it is so for a record with another buffer. -/
theorem alike_getClient {α : Type} {fd : Fd} {f : Option (Connection × ClientInfo) → Handler α}
    (hnone : (f none).Alike Call.SameReply (f none))
    (hsome : ∀ conn info buffer, (f (some (conn, info))).Alike Call.SameReply
      (f (some (conn, { info with recvBuffer := buffer })))) :
    (getClient fd >>= f).Alike Call.SameReply (getClient fd >>= f) := by
  refine Prog.Alike.call (Call.getClient fd) fun r r' hr => ?_
  cases hr with
  | none => exact hnone
  | @some x y hxy =>
    obtain ⟨conn, info⟩ := x
    obtain ⟨conn', info'⟩ := y
    obtain ⟨rfl, buffer, rfl⟩ : conn = conn' ∧ info.SameButBuffer info' := hxy
    exact hsome conn info buffer

end Handler

variable {json : Nlohmann} {now : LocalTime} {fd : Fd} {p : Packet}

theorem NicknameHandler.alike_handle :
    (NicknameHandler.handle json fd p).Alike Call.SameReply (NicknameHandler.handle json fd p) := by
  unfold NicknameHandler.handle
  cases json.parse p.text with
  | error e => exact alike_sendPacket fd _
  | ok data =>
    cases hnickname : nickname? data with
    | none =>
      simp only [hnickname]
      exact alike_sendPacket fd _
    | some nickname =>
      simp only [hnickname]
      refine alike_call (c := .isNicknameTaken nickname) trivial fun taken => ?_
      cases taken with
      | true => exact alike_sendPacket fd _
      | false => exact alike_call (c := .setNickname fd nickname) trivial fun _ =>
          alike_sendPacket fd _

theorem MessageHandler.alike_handle :
    (MessageHandler.handle json now fd p).Alike Call.SameReply
      (MessageHandler.handle json now fd p) := by
  -- neither the checks nor the message broadcast look at the buffer
  refine alike_getClient (Prog.Alike.ret ()) fun conn sender buffer => alike_of_only ?_
  show Prog.Only _ (if sender.isAuthenticated = false then _ else _)
  by_cases hauth : sender.isAuthenticated = false
  · rw [if_pos hauth]
    trivial
  · rw [if_neg hauth]
    by_cases hroom : sender.roomCode = []
    · rw [if_pos hroom]
      trivial
    · rw [if_neg hroom]
      cases broadcastPacket json now fd sender p with
      | none => trivial
      | some broadcast => exact only_broadcastPacketForRoom broadcast sender.roomCode fd

namespace RoomHandler

theorem alike_joinCreator (code : Bytes) :
    (joinCreator fd code).Alike Call.SameReply (joinCreator fd code) := by
  refine alike_getClient (Prog.Alike.ret ()) fun conn info buffer => ?_
  refine alike_call (c := .joinRoom fd code) trivial fun joined => ?_
  cases joined with
  | false => exact Prog.Alike.ret ()
  | true => exact alike_call (c := .setRoomCode conn code) trivial Prog.Alike.ret

theorem alike_handleCreateRoom :
    (handleCreateRoom json fd p).Alike Call.SameReply (handleCreateRoom json fd p) := by
  unfold handleCreateRoom
  cases json.parse p.text with
  | error e => exact alike_sendPacket fd _
  | ok data =>
    cases hasks : createRequest json data with
    | error reason =>
      simp only [hasks]
      exact alike_sendPacket fd _
    | ok asked =>
      simp only [hasks]
      refine alike_call (c := .addRoom asked.1 asked.2) trivial fun code => ?_
      show Prog.Alike _ (if code = [] then _ else _) (if code = [] then _ else _)
      by_cases hcode : code = []
      · rw [if_pos hcode]
        exact alike_sendPacket fd _
      · rw [if_neg hcode]
        exact (alike_joinCreator code).bind fun _ => alike_sendPacket fd _

theorem alike_finishJoin (nickname code : Bytes) :
    (finishJoin json fd nickname code).Alike Call.SameReply
      (finishJoin json fd nickname code) := by
  unfold finishJoin
  cases roomCodeResponse json PacketType.roomJoinOk code with
  | error e => exact alike_sendPacket fd _
  | ok response =>
    cases userNotice json PacketType.roomUserJoin fd nickname with
    | error e => exact alike_sendPacket fd _
    | ok notice =>
      exact (alike_broadcastPacketForRoom notice code fd).bind fun _ => alike_sendPacket fd _

theorem alike_handleJoinRoom :
    (handleJoinRoom json fd p).Alike Call.SameReply (handleJoinRoom json fd p) := by
  unfold handleJoinRoom
  cases json.parse p.text with
  | error e => exact alike_sendPacket fd _
  | ok data =>
    cases hcode : roomCode? data with
    | none =>
      simp only [hcode]
      exact alike_sendPacket fd _
    | some code =>
      simp only [hcode]
      refine alike_getClient (alike_sendPacket fd _) fun conn info buffer => ?_
      show Prog.Alike _ (if info.roomCode ≠ [] then _ else _) (if info.roomCode ≠ [] then _ else _)
      by_cases hin : info.roomCode ≠ []
      · rw [if_pos hin]
        exact alike_sendPacket fd _
      · rw [if_neg hin]
        refine alike_call (c := .joinRoom fd code) trivial fun joined => ?_
        cases joined with
        | false => exact alike_sendPacket fd _
        | true => exact alike_call (c := .setRoomCode conn code) trivial fun _ =>
            alike_finishJoin info.nickname code

theorem alike_handleExitRoom :
    (handleExitRoom json fd).Alike Call.SameReply (handleExitRoom json fd) := by
  refine alike_getClient (alike_sendPacket fd _) fun conn info buffer => ?_
  show Prog.Alike _ (if info.roomCode = [] then _ else _) (if info.roomCode = [] then _ else _)
  by_cases hin : info.roomCode = []
  · rw [if_pos hin]
    exact alike_sendPacket fd _
  · rw [if_neg hin]
    cases userNotice json PacketType.roomUserExit fd info.nickname with
    | error e => exact alike_sendPacket fd _
    | ok notice =>
      refine (alike_broadcastPacketForRoom notice info.roomCode fd).bind fun _ => ?_
      refine alike_call (c := .leaveRoom fd info.roomCode) trivial fun _ => ?_
      exact alike_call (c := .setRoomCode conn []) trivial fun _ => alike_sendPacket fd _

end RoomHandler

/-- **No handler looks at a receive buffer.** -/
theorem PacketHandler.alike_handle (json : Nlohmann) (now : LocalTime) (fd : Fd) (p : Packet) :
    (PacketHandler.handle json now fd p).Alike Call.SameReply
      (PacketHandler.handle json now fd p) := by
  unfold PacketHandler.handle
  by_cases hnick : p.type = PacketType.nicknameRequest
  · rw [if_pos hnick]
    exact NicknameHandler.alike_handle
  · rw [if_neg hnick]
    by_cases hmsg : p.type = PacketType.messageSend
    · rw [if_pos hmsg]
      exact MessageHandler.alike_handle
    · rw [if_neg hmsg]
      by_cases hroom : p.type = PacketType.createRoom ∨ p.type = PacketType.joinRoom ∨
          p.type = PacketType.exitRoom
      · rw [if_pos hroom, RoomHandler.handle]
        by_cases hcreate : p.type = PacketType.createRoom
        · rw [if_pos hcreate]
          exact RoomHandler.alike_handleCreateRoom
        · rw [if_neg hcreate]
          by_cases hexit : p.type = PacketType.exitRoom
          · rw [if_pos hexit]
            exact RoomHandler.alike_handleExitRoom
          · rw [if_neg hexit]
            by_cases hjoin : p.type = PacketType.joinRoom
            · rw [if_pos hjoin]
              exact RoomHandler.alike_handleJoinRoom
            · rw [if_neg hjoin]
              exact Prog.Alike.ret ()
      · rw [if_neg hroom]
        exact Prog.Alike.ret ()

end SocketChat
