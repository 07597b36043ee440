/-
What the packet handlers call, whatever happens between their calls.

A handler running in a worker thread cannot rely on the state it saw in an earlier call.
`discipline` collects what is true of its calls all the same: it looks up and modifies
only the client whose packet it handles, it registers a nickname only when its last call
found that nickname free, it writes through no pointer but the one it obtained, and it
sends something to the client itself exactly once if the packet is a request, as its last
call, and never if it is not.
-/
import SocketChat.Server.Effects

namespace SocketChat

open Handler

namespace Handler

/-- What a handler remembers of its calls: the nickname the last one found free, the
connection whose record it has a pointer to, and whether it has answered. -/
structure Memory where
  free : Option Bytes
  client : Option Connection
  answered : Bool

/-- Before the first call. -/
def Memory.empty : Memory := ⟨none, none, false⟩

/-- The discipline of the handlers for a packet of client `fd`; `request` says whether
the packet is one that is answered. -/
def discipline (fd : Fd) (request : Prop) : Prog.Discipline Reply Memory where
  allows m c := m.answered = false ∧
    match c with
    | .getClient g => g = fd
    | .setNickname g nickname => request ∧ g = fd ∧ m.free = some nickname
    | .setRoomCode conn _ => request ∧ m.client = some conn
    | .joinRoom g _ => g = fd
    | .leaveRoom g _ => g = fd
    | .send g _ => request ∨ g ≠ fd
    | _ => True
  next m
    | .getClient _, r => ⟨none, r.map Prod.fst, m.answered⟩
    | .isNicknameTaken nickname, taken =>
      ⟨if taken then none else some nickname, m.client, m.answered⟩
    | .send g _, _ => ⟨none, m.client, m.answered || g == fd⟩
    | _, _ => ⟨none, m.client, m.answered⟩
  returns m := request → m.answered = true

variable {fd : Fd} {request : Prop} {m : Memory} {α : Type}

/-- The last call for a request: its answer. -/
theorem follows_sendPacket (hrequest : request) (hm : m.answered = false) (packet : Packet) :
    (sendPacket fd packet).Follows (discipline fd request) m := by
  refine ⟨⟨hm, Or.inl hrequest⟩, fun _ _ => ?_⟩
  show (m.answered || fd == fd) = true
  rw [beq_self_eq_true, Bool.or_true]

/-- A broadcast leaves the sender out, and the pointer as it is. -/
theorem follows_sendEach_bind {f : Unit → Handler α} (packet : Packet) (fds : List Fd)
    (hm : m.answered = false)
    (hf : ∀ free, (f ()).Follows (discipline fd request) ⟨free, m.client, false⟩) :
    (sendEach packet fd fds >>= f).Follows (discipline fd request) m := by
  induction fds generalizing m with
  | nil =>
    have hsame : m = ⟨m.free, m.client, false⟩ := by rw [← hm]
    rw [hsame]
    exact hf m.free
  | cons g fds ih =>
    rw [sendEach]
    by_cases hg : g ≠ fd
    · rw [if_pos hg]
      have hstill : (m.answered || g == fd) = false := by
        rw [hm, Bool.false_or, beq_eq_false_iff_ne]
        exact hg
      exact ⟨⟨hm, Or.inr hg⟩, fun _ => ih hstill hf⟩
    · rw [if_neg hg]
      exact ih hm hf

theorem follows_broadcastPacketForRoom_bind {f : Unit → Handler α} (packet : Packet)
    (code : Bytes) (hm : m.answered = false)
    (hf : ∀ free, (f ()).Follows (discipline fd request) ⟨free, m.client, false⟩) :
    (broadcastPacketForRoom packet code fd >>= f).Follows (discipline fd request) m := by
  refine ⟨⟨hm, trivial⟩, fun r => ?_⟩
  cases r with
  | none =>
    have hsame : (discipline fd request).next m (.getClientFds code) none =
        ⟨none, m.client, false⟩ := by rw [← hm]; rfl
    rw [hsame]
    exact hf none
  | some fds => exact follows_sendEach_bind packet fds hm hf

end Handler

variable {json : Nlohmann} {now : LocalTime} {fd : Fd} {request : Prop} {p : Packet}

theorem NicknameHandler.follows_handle (hrequest : request) :
    (NicknameHandler.handle json fd p).Follows (discipline fd request) Memory.empty := by
  unfold NicknameHandler.handle
  cases json.parse p.text with
  | error e => exact follows_sendPacket hrequest rfl _
  | ok data =>
    cases hname : nickname? data with
    | none =>
      simp only [hname]
      exact follows_sendPacket hrequest rfl _
    | some nickname =>
      simp only [hname]
      refine ⟨⟨rfl, trivial⟩, fun taken => ?_⟩
      cases taken with
      | true => exact follows_sendPacket hrequest rfl _
      | false => exact ⟨⟨rfl, hrequest, rfl, rfl⟩, fun _ => follows_sendPacket hrequest rfl _⟩

/-- A message is not answered. -/
theorem MessageHandler.follows_handle (hrequest : ¬ request) :
    (MessageHandler.handle json now fd p).Follows (discipline fd request) Memory.empty := by
  have hreturn : ∀ m, (pure () : Handler Unit).Follows (discipline fd request) m :=
    fun m h => absurd h hrequest
  refine ⟨⟨rfl, rfl⟩, fun r => ?_⟩
  cases r with
  | none => exact hreturn _
  | some found =>
    obtain ⟨conn, sender⟩ := found
    show Prog.Follows _ _ (if sender.isAuthenticated = false then _ else _)
    by_cases hauth : sender.isAuthenticated = false
    · rw [if_pos hauth]
      exact hreturn _
    · rw [if_neg hauth]
      by_cases hroom : sender.roomCode = []
      · rw [if_pos hroom]
        exact hreturn _
      · rw [if_neg hroom]
        cases broadcastPacket json now fd sender p with
        | none => exact hreturn _
        | some broadcast =>
          show Prog.Follows _ _ (broadcastPacketForRoom broadcast sender.roomCode fd)
          rw [← Prog.bind_pure (broadcastPacketForRoom broadcast sender.roomCode fd)]
          exact follows_broadcastPacketForRoom_bind broadcast _ rfl fun _ => hreturn _

namespace RoomHandler

theorem follows_joinCreator_bind {m : Memory} {f : Unit → Handler Unit} (hrequest : request)
    (code : Bytes) (hm : m.answered = false)
    (hf : ∀ client, (f ()).Follows (discipline fd request) ⟨none, client, false⟩) :
    (joinCreator fd code >>= f).Follows (discipline fd request) m := by
  have hf : ∀ client, (f ()).Follows (discipline fd request) ⟨none, client, m.answered⟩ := by
    rw [hm]
    exact hf
  refine ⟨⟨hm, rfl⟩, fun r => ?_⟩
  cases r with
  | none => exact hf none
  | some found =>
    refine ⟨⟨hm, rfl⟩, fun joined => ?_⟩
    cases joined with
    | false => exact hf (some found.1)
    | true => exact ⟨⟨hm, hrequest, rfl⟩, fun _ => hf (some found.1)⟩

theorem follows_handleCreateRoom (hrequest : request) :
    (handleCreateRoom json fd p).Follows (discipline fd request) Memory.empty := by
  unfold handleCreateRoom
  cases json.parse p.text with
  | error e => exact follows_sendPacket hrequest rfl _
  | ok data =>
    cases hasks : createRequest json data with
    | error reason =>
      simp only [hasks]
      exact follows_sendPacket hrequest rfl _
    | ok asked =>
      simp only [hasks]
      refine ⟨⟨rfl, trivial⟩, fun code => ?_⟩
      show Prog.Follows _ _ (if code = [] then _ else _)
      by_cases hcode : code = []
      · rw [if_pos hcode]
        exact follows_sendPacket hrequest rfl _
      · rw [if_neg hcode]
        exact follows_joinCreator_bind hrequest code rfl
          fun _ => follows_sendPacket hrequest rfl _

theorem follows_finishJoin (hrequest : request) (nickname code : Bytes) {m : Memory}
    (hm : m.answered = false) :
    (finishJoin json fd nickname code).Follows (discipline fd request) m := by
  unfold finishJoin
  cases roomCodeResponse json PacketType.roomJoinOk code with
  | error e => exact follows_sendPacket hrequest hm _
  | ok response =>
    cases userNotice json PacketType.roomUserJoin fd nickname with
    | error e => exact follows_sendPacket hrequest hm _
    | ok notice =>
      exact follows_broadcastPacketForRoom_bind notice code hm
        fun _ => follows_sendPacket hrequest rfl _

theorem follows_handleJoinRoom (hrequest : request) :
    (handleJoinRoom json fd p).Follows (discipline fd request) Memory.empty := by
  unfold handleJoinRoom
  cases json.parse p.text with
  | error e => exact follows_sendPacket hrequest rfl _
  | ok data =>
    cases hcode : roomCode? data with
    | none =>
      simp only [hcode]
      exact follows_sendPacket hrequest rfl _
    | some code =>
      simp only [hcode]
      refine ⟨⟨rfl, rfl⟩, fun r => ?_⟩
      cases r with
      | none => exact follows_sendPacket hrequest rfl _
      | some found =>
        obtain ⟨conn, info⟩ := found
        show Prog.Follows _ _ (if info.roomCode ≠ [] then _ else _)
        by_cases hin : info.roomCode ≠ []
        · rw [if_pos hin]
          exact follows_sendPacket hrequest rfl _
        · rw [if_neg hin]
          refine ⟨⟨rfl, rfl⟩, fun joined => ?_⟩
          cases joined with
          | false => exact follows_sendPacket hrequest rfl _
          | true =>
            exact ⟨⟨rfl, hrequest, rfl⟩,
              fun _ => follows_finishJoin hrequest info.nickname code rfl⟩

theorem follows_handleExitRoom (hrequest : request) :
    (handleExitRoom json fd).Follows (discipline fd request) Memory.empty := by
  refine ⟨⟨rfl, rfl⟩, fun r => ?_⟩
  cases r with
  | none => exact follows_sendPacket hrequest rfl _
  | some found =>
    obtain ⟨conn, info⟩ := found
    show Prog.Follows _ _ (if info.roomCode = [] then _ else _)
    by_cases hin : info.roomCode = []
    · rw [if_pos hin]
      exact follows_sendPacket hrequest rfl _
    · rw [if_neg hin]
      cases userNotice json PacketType.roomUserExit fd info.nickname with
      | error e => exact follows_sendPacket hrequest rfl _
      | ok notice =>
        refine follows_broadcastPacketForRoom_bind notice info.roomCode rfl fun _ => ?_
        exact ⟨⟨rfl, rfl⟩, fun _ => ⟨⟨rfl, hrequest, rfl⟩,
          fun _ => follows_sendPacket hrequest rfl _⟩⟩

end RoomHandler

/-- **What the handlers call.**  Every handler follows the discipline, from the start. -/
theorem PacketHandler.follows_handle (json : Nlohmann) (now : LocalTime) (fd : Fd) (p : Packet) :
    (PacketHandler.handle json now fd p).Follows (discipline fd (IsRequest p.type))
      Memory.empty := by
  unfold PacketHandler.handle
  by_cases hnick : p.type = PacketType.nicknameRequest
  · rw [if_pos hnick]
    exact NicknameHandler.follows_handle (Or.inl hnick)
  · rw [if_neg hnick]
    by_cases hmsg : p.type = PacketType.messageSend
    · rw [if_pos hmsg]
      exact MessageHandler.follows_handle (hmsg ▸ not_isRequest_messageSend)
    · rw [if_neg hmsg, RoomHandler.handle]
      by_cases hcreate : p.type = PacketType.createRoom
      · rw [if_pos (Or.inl hcreate), if_pos hcreate]
        exact RoomHandler.follows_handleCreateRoom (Or.inr (Or.inl hcreate))
      · by_cases hexit : p.type = PacketType.exitRoom
        · rw [if_pos (Or.inr (Or.inr hexit)), if_neg hcreate, if_pos hexit]
          exact RoomHandler.follows_handleExitRoom (Or.inr (Or.inr (Or.inr hexit)))
        · by_cases hjoin : p.type = PacketType.joinRoom
          · rw [if_pos (Or.inr (Or.inl hjoin)), if_neg hcreate, if_neg hexit, if_pos hjoin]
            exact RoomHandler.follows_handleJoinRoom (Or.inr (Or.inr (Or.inl hjoin)))
          · rw [if_neg (by simp [hcreate, hexit, hjoin])]
            -- no handler, no answer
            have hrequest : ¬ IsRequest p.type := by
              simp [IsRequest, hnick, hcreate, hexit, hjoin]
            exact fun h => absurd h hrequest

end SocketChat
