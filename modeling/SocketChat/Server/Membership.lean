/-
Who is in which room.

The server stores it twice: `ClientInfo::roomCode` with each client and `Room::clients`
with each room.  `Server.roster` reads both as a `Roster`, and `step_roster` shows that
every event acts on it as one roster operation.  The rooms then list exactly the clients
that are in them for as long as the events are `Orderly`: nobody is disconnected inside
a room (`closeConnection` does not take the client out of it) and nobody creates a room
while in another (`handleCreateRoom` does not look).
-/
import SocketChat.Lib.Roster
import SocketChat.Server.Effects

namespace SocketChat

/-- The room a client is in, if its `roomCode` is not empty. -/
def ClientInfo.room? (client : ClientInfo) : Option Bytes :=
  if client.roomCode = [] then none else some client.roomCode

theorem ClientInfo.room?_eq_none {client : ClientInfo} :
    client.room? = none ↔ client.roomCode = [] := by
  rw [room?]
  by_cases h : client.roomCode = []
  · rw [if_pos h]
    exact ⟨fun _ => h, fun _ => rfl⟩
  · rw [if_neg h]
    exact ⟨fun heq => absurd heq (by simp), fun heq => absurd heq h⟩

theorem ClientInfo.room?_eq_some {client : ClientInfo} {code : Bytes} :
    client.room? = some code ↔ client.roomCode = code ∧ code ≠ [] := by
  rw [room?]
  by_cases h : client.roomCode = []
  · rw [if_pos h]
    exact ⟨fun heq => absurd heq (by simp), fun heq => absurd (heq.1 ▸ h) heq.2⟩
  · rw [if_neg h, Option.some_inj]
    exact ⟨fun heq => ⟨heq, heq ▸ h⟩, fun heq => heq.1⟩

/-! ### Both records of a room's members -/

/-- Where each client is, by the client table. -/
def ClientManager.place (m : ClientManager) (fd : Fd) : Option (Option Bytes) :=
  (m.getClient fd).map ClientInfo.room?

/-- Who is in each room, by the room table. -/
def RoomManager.listed (m : RoomManager) (code : Bytes) : List Fd :=
  (m.getRoom code).elim [] Room.getClientFds

theorem ClientManager.place_setClient (m : ClientManager) (fd : Fd) (client : ClientInfo) :
    (m.setClient fd client).place = Function.update m.place fd (some client.room?) := by
  funext fd'
  rw [place, getClient_setClient]
  by_cases h : fd' = fd
  · rw [if_pos h, h, Function.update_self]
    rfl
  · rw [if_neg h, Function.update_of_ne h]
    rfl

theorem ClientManager.place_setNickname (m : ClientManager) (fd : Fd) (nickname : Bytes) :
    (m.setNickname fd nickname).place = m.place := by
  cases h : m.getClient fd with
  | none => rw [setNickname_of_not_connected h]
  | some client =>
    funext fd'
    rw [place, getClient_setNickname h]
    by_cases hfd : fd' = fd
    · rw [if_pos hfd, hfd, place, h]
      rfl
    · rw [if_neg hfd]
      rfl

theorem ClientManager.place_removeClient (m : ClientManager) (fd : Fd) :
    (m.removeClient fd).place = Function.update m.place fd none := by
  funext fd'
  rw [place, getClient_removeClient]
  by_cases h : fd' = fd
  · rw [if_pos h, h, Function.update_self]
    rfl
  · rw [if_neg h, Function.update_of_ne h]
    rfl

theorem RoomManager.listed_set (rooms : Table Bytes Room) (codes codes' : CodeStream)
    (code : Bytes) (room : Room) :
    RoomManager.listed ⟨rooms.set code room, codes'⟩ =
      Function.update (RoomManager.listed ⟨rooms, codes⟩) code room.clients := by
  funext code'
  rw [listed, getRoom, Table.find_set]
  by_cases h : code' = code
  · rw [if_pos h, h, Function.update_self]
    rfl
  · rw [if_neg h, Function.update_of_ne h]
    rfl

theorem RoomManager.listed_leaveRoom (m : RoomManager) (fd : Fd) (code : Bytes) :
    (m.leaveRoom fd code).listed = Function.update m.listed code ((m.listed code).erase fd) := by
  funext code'
  rw [listed, getRoom, find_leaveRoom]
  by_cases h : code' = code
  · rw [if_pos h, h, Function.update_self, listed, getRoom]
    cases hroom : m.rooms.find code with
    | none => rfl
    | some room =>
      simp only [Option.bind_some, Option.elim_some, Room.getClientFds]
      by_cases hempty : room.clients.erase fd = []
      · rw [if_pos hempty, hempty]
        rfl
      · rw [if_neg hempty]
        rfl
  · rw [if_neg h, Function.update_of_ne h]
    rfl

namespace Server

/-- Who is in which room, as both managers have it. -/
def roster (s : Server) : Roster Fd Bytes := ⟨s.clientManager.place, s.roomManager.listed⟩

/-- Every room is stored under its own code, which has eight characters. -/
def RoomsKeyed (s : Server) : Prop :=
  ∀ code room, s.room? code = some room → room.roomCode = code ∧ code.length = 8

variable {s s' : Server} {fd : Fd} {info : ClientInfo}

theorem place_of_client (h : s.client? fd = some info) : s.roster.place fd = some info.room? := by
  show (s.clientManager.getClient fd).map ClientInfo.room? = _
  rw [show s.clientManager.getClient fd = some info from h]
  rfl

theorem place_eq_some_some {code : Bytes} :
    s.roster.place fd = some (some code) ↔
      ∃ info, s.client? fd = some info ∧ info.roomCode = code ∧ code ≠ [] := by
  show (s.client? fd).map ClientInfo.room? = _ ↔ _
  cases h : s.client? fd with
  | none => simp
  | some client => simp [ClientInfo.room?_eq_some]

theorem listed_of_room {code : Bytes} {room : Room} (h : s.room? code = some room) :
    s.roster.listed code = room.clients := by
  show (s.room? code).elim [] Room.getClientFds = _
  rw [h]
  rfl

theorem mem_listed {code : Bytes} :
    fd ∈ s.roster.listed code ↔ ∃ room, s.room? code = some room ∧ fd ∈ room.clients := by
  show fd ∈ (s.room? code).elim [] Room.getClientFds ↔ _
  cases h : s.room? code with
  | none => simp
  | some room => simp [Room.getClientFds]

end Server

/-! ### Events as roster operations -/

/-- The packet makes its client the creator and member of a new room. -/
def CreatesRoom (json : Nlohmann) (s : Server) (p : Packet) : Prop :=
  p.type = PacketType.createRoom ∧ s.roomManager.rooms.size < maxRoomCnt ∧
    s.roomManager.FreeCode 100 ∧ ∃ name max, AsksToCreate json p name max ∧ max ≠ 0

/-- Nobody is disconnected inside a room, and nobody creates one while in another. -/
def Event.Orderly (json : Nlohmann) (s : Server) : Event → Prop
  | .accept _ _ _ => True
  | .packet fd p _ => ∀ info, s.client? fd = some info → info.roomCode ≠ [] →
      ¬ CreatesRoom json s p
  | .close fd => ∀ info, s.client? fd = some info → info.roomCode = []

variable {json : Nlohmann} {now : LocalTime} {s s' : Server} {fd : Fd} {info : ClientInfo}
  {p : Packet}

theorem Handled.roster (h : s.client? fd = some info) (hkeyed : s.RoomsKeyed)
    (hh : Handled json now s fd info p s') :
    ∃ op : Roster.Op Fd Bytes, op.Allowed s.roster ∧ s'.roster = s.roster.apply op ∧
      (op.Orderly s.roster ↔ (info.roomCode ≠ [] → ¬ CreatesRoom json s p)) := by
  have hplace : s.roster.place fd = some info.room? := Server.place_of_client h
  -- in most cases neither table of memberships changes
  have hstay : s'.roster = s.roster → ¬ CreatesRoom json s p →
      ∃ op : Roster.Op Fd Bytes, op.Allowed s.roster ∧ s'.roster = s.roster.apply op ∧
        (op.Orderly s.roster ↔ (info.roomCode ≠ [] → ¬ CreatesRoom json s p)) :=
    fun hsame hno => ⟨.stay, trivial, hsame, fun _ _ => hno, fun _ => trivial⟩
  cases hh with
  | ignored htype =>
    exact hstay rfl fun hc => htype (Or.inr (Or.inl hc.1))
  | chat broadcast htype =>
    exact hstay rfl fun hc => absurd (htype.symm.trans hc.1) (by decide)
  | refused response n htype hresponse hcreate =>
    refine hstay rfl fun ⟨hp, hsize, hfree, name, max, hasks, _⟩ => ?_
    exact hcreate hp name max hasks ⟨hsize, hfree⟩
  | registered nickname htype =>
    refine hstay ?_ fun hc => absurd (htype.symm.trans hc.1) (by decide)
    exact congrArg (Roster.mk · s.roomManager.listed) (ClientManager.place_setNickname _ _ _)
  | created name max code n k htype hasks hmax hcode hfresh hfree =>
    have hne : code ≠ [] := hcode ▸ s.roomManager.codes.code_ne_nil k
    have hlisted : s.roster.listed code = [] := by
      show (s.room? code).elim [] Room.getClientFds = []
      rw [hfresh]
      rfl
    have hroom : ClientInfo.room? { info with roomCode := code } = some code :=
      ClientInfo.room?_eq_some.mpr ⟨rfl, hne⟩
    refine ⟨.enter fd code, ⟨by rw [hplace]; simp, by rw [hlisted]; simp⟩, ?_, ?_⟩
    · show Roster.mk _ _ = Roster.mk _ _
      rw [ClientManager.place_setClient, hroom,
        RoomManager.listed_set _ s.roomManager.codes, hlisted]
      rfl
    · show s.roster.place fd = some none ↔ _
      rw [hplace, Option.some_inj, ClientInfo.room?_eq_none]
      constructor
      · exact fun hnone hin => absurd hnone hin
      · intro hno
        -- whoever creates a room while in one stays on the list of the old one
        by_contra hin
        exact hno hin ⟨htype, hfree.1, hfree.2, name, max, hasks, hmax⟩
  | createdEmpty name code n k htype hasks hcode hfresh hfree =>
    refine hstay ?_ fun ⟨_, _, _, name', max', hasks', hmax⟩ => hmax (hasks'.unique hasks).2
    show Roster.mk _ _ = Roster.mk _ _
    -- the room is there, but it lists nobody
    have hlisted : [] = s.roomManager.listed code := by
      show [] = (s.room? code).elim [] Room.getClientFds
      rw [hfresh]
      rfl
    rw [RoomManager.listed_set _ s.roomManager.codes,
      Function.update_eq_self_iff.mpr hlisted]
  | joined code room htype hasks hnone hroom hspace hout =>
    have hne : code ≠ [] := fun h0 => absurd (hkeyed code room hroom).2 (by simp [h0])
    have hlisted : s.roster.listed code = room.clients := Server.listed_of_room hroom
    have hcode : ClientInfo.room? { info with roomCode := code } = some code :=
      ClientInfo.room?_eq_some.mpr ⟨rfl, hne⟩
    refine ⟨.enter fd code, ⟨by rw [hplace]; simp, by rwa [hlisted]⟩, ?_, ?_⟩
    · show Roster.mk _ _ = Roster.mk _ _
      rw [ClientManager.place_setClient, hcode,
        RoomManager.listed_set _ s.roomManager.codes, hlisted]
      rfl
    · show s.roster.place fd = some none ↔ _
      rw [hplace, ClientInfo.room?_eq_none.mpr hnone]
      exact ⟨fun _ hin => absurd hnone hin, fun _ => rfl⟩
  | exited notice htype hin hnotice =>
    refine ⟨.leave fd info.roomCode, ?_, ?_, ?_⟩
    · show s.roster.place fd = some (some info.roomCode)
      rw [hplace, ClientInfo.room?_eq_some.mpr ⟨rfl, hin⟩]
    · show Roster.mk _ _ = Roster.mk _ _
      rw [ClientManager.place_setClient, RoomManager.listed_leaveRoom]
      rfl
    · exact ⟨fun _ _ hc => absurd (htype.symm.trans hc.1) (by decide), fun _ => trivial⟩

theorem Handled.roomsKeyed (hkeyed : s.RoomsKeyed) (hh : Handled json now s fd info p s') :
    s'.RoomsKeyed := by
  intro code room hroom
  cases hh.roomAfter hroom with
  | kept hkept => exact hkeyed code room hkept
  | @created name max clients k hcreates hfresh hcode =>
    exact ⟨rfl, hcode ▸ s.roomManager.codes.length_code k⟩
  | @joined old htype hasks hroom' => exact hkeyed code old hroom'
  | @left old notice htype hcode hin hnotice hroom' => exact hkeyed code old hroom'

/-- What every event keeps: rooms are stored under their codes, the room a client is in
lists it, no room lists a client twice. -/
structure Server.Coherent (s : Server) : Prop where
  keyed : s.RoomsKeyed
  live : s.roster.Live
  distinct : s.roster.Distinct

/-- Every event acts on the roster as one operation, orderly exactly when the event is. -/
theorem step_roster {e : Event} (hkeyed : s.RoomsKeyed) (hstep : s.step json e = some s') :
    ∃ op : Roster.Op Fd Bytes, op.Allowed s.roster ∧ s'.roster = s.roster.apply op ∧
      (op.Orderly s.roster ↔ e.Orderly json s) := by
  obtain ⟨hpossible, hs'⟩ := Server.step_eq_some.mp hstep
  subst hs'
  cases e with
  | accept fd ip added =>
    have hfree : s.client? fd = none := hpossible
    show ∃ op : Roster.Op Fd Bytes, _ ∧
      (ConnectionManager.acceptNewConnection _ fd ip added).roster = _ ∧ _
    rw [ConnectionManager.acceptNewConnection]
    -- a connection epoll did not take is closed again
    by_cases hadd : 0 < fd ∧ added = true
    · rw [if_pos hadd]
      refine ⟨.arrive fd, ?_, ?_, fun _ => trivial, fun _ => trivial⟩
      · show (s.client? fd).map ClientInfo.room? = none
        rw [hfree]
        rfl
      · show Roster.mk _ _ = Roster.mk _ _
        rw [ClientManager.addClient, ClientManager.place_setClient]
        rfl
    · rw [if_neg hadd]
      exact ⟨.stay, trivial, rfl, fun _ => trivial, fun _ => trivial⟩
  | packet fd p now =>
    obtain ⟨info, h⟩ := Option.isSome_iff_exists.mp hpossible.1
    have hh : Handled json now { s with sent := [] } fd info p _ := exec_handle p h
    obtain ⟨op, hallowed, hroster, horderly⟩ := hh.roster (s := { s with sent := [] }) h hkeyed
    refine ⟨op, hallowed, hroster, horderly.trans ⟨fun hno info' h' => ?_, fun hno => hno info h⟩⟩
    rw [h, Option.some_inj] at h'
    exact h' ▸ hno
  | close fd =>
    obtain ⟨info, h⟩ := Option.isSome_iff_exists.mp hpossible
    have hplace : s.roster.place fd = some info.room? := Server.place_of_client h
    refine ⟨.depart fd, ?_, ?_, ?_⟩
    · show s.roster.place fd ≠ none
      rw [hplace]
      simp
    · show Roster.mk (s.clientManager.removeClient fd).place _ = Roster.mk _ _
      rw [ClientManager.place_removeClient]
      rfl
    · show s.roster.place fd = some none ↔ _
      rw [hplace, Option.some_inj, ClientInfo.room?_eq_none]
      refine ⟨fun hnone info' h' => ?_, fun hno => hno info h⟩
      rw [h, Option.some_inj] at h'
      exact h' ▸ hnone

theorem step_roomsKeyed {e : Event} (hkeyed : s.RoomsKeyed) (hstep : s.step json e = some s') :
    s'.RoomsKeyed := by
  obtain ⟨hpossible, hs'⟩ := Server.step_eq_some.mp hstep
  subst hs'
  cases e with
  | accept fd ip added =>
    show (ConnectionManager.acceptNewConnection _ fd ip added).RoomsKeyed
    rw [ConnectionManager.acceptNewConnection]
    by_cases hadd : 0 < fd ∧ added = true
    · rw [if_pos hadd]
      exact hkeyed
    · rw [if_neg hadd]
      exact hkeyed
  | packet fd p now =>
    obtain ⟨info, h⟩ := Option.isSome_iff_exists.mp hpossible.1
    have hh : Handled json now { s with sent := [] } fd info p _ := exec_handle p h
    exact hh.roomsKeyed (s := { s with sent := [] }) hkeyed
  | close fd => exact hkeyed

theorem Server.Coherent.step {e : Event} (hs : s.Coherent) (hstep : s.step json e = some s') :
    s'.Coherent := by
  obtain ⟨op, hallowed, hroster, -⟩ := step_roster hs.keyed hstep
  refine ⟨step_roomsKeyed hs.keyed hstep, ?_, ?_⟩
  · rw [hroster]
    exact hs.live.apply hallowed
  · rw [hroster]
    exact hs.distinct.apply hallowed

theorem Server.coherent_init (codes : CodeStream) : (Server.init codes).Coherent := by
  refine ⟨fun code room h => ?_, fun fd code h => ?_, fun code => List.nodup_nil⟩
  · rw [Server.room?_init] at h
    cases h
  · have h : ((Server.init codes).client? fd).map ClientInfo.room? = some (some code) := h
    rw [Server.client?_init] at h
    cases h

end SocketChat
