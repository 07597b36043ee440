/-
Rooms that outlive their members.

Only `leaveRoom` deletes a room, when the client that leaves was the last one listed.  A
room of capacity 0 starts with nobody in it, a connection that is closed stays listed,
and one client can have many rooms created.  `rooms_occupied_iff` gives the exact
condition on the events of a run under which every room has a connected member and there
are never more rooms than clients, so that the 100 rooms last for 100 clients.
-/
import SocketChat.Server.Capacity

namespace SocketChat

namespace Server

/-- Client `fd` is connected. -/
def Connected (s : Server) (fd : Fd) : Prop := (s.client? fd).isSome = true

/-- Every room has a member that is connected, and there are no more rooms than clients. -/
structure Occupied (s : Server) : Prop where
  member : ∀ code room, s.room? code = some room → ∃ g ∈ room.clients, s.Connected g
  bounded : s.roomManager.rooms.size ≤ s.clientManager.clients.size

/-- The room lists another connected client than `fd`. -/
def HasOther (s : Server) (room : Room) (fd : Fd) : Prop :=
  ∃ g ∈ room.clients, g ≠ fd ∧ s.Connected g

end Server

/-- The answer to a CREATE_ROOM that found no place or no code for a room. -/
def roomLimitPacket : Packet :=
  Packet.ofText PacketType.roomCreateFail
    (str "Failed to create room. Maximum room count reached.")

/-- A CREATE_ROOM is not refused for want of a room while fewer than 100 clients are
connected, provided that the generator yields a free code. -/
def Event.NotRefused (json : Nlohmann) (s s' : Server) : Event → Prop
  | .packet fd p _ => p.type = PacketType.createRoom → (∃ name max, AsksToCreate json p name max) →
      s.roomManager.FreeCode 100 → s.clientManager.clients.size < maxRoomCnt →
      (fd, roomLimitPacket) ∉ s'.sent
  | _ => True

/-- The packet takes its client, which is in room `code`, out of it. -/
def ExitsFrom (json : Nlohmann) (s : Server) (fd : Fd) (p : Packet) (code : Bytes) : Prop :=
  p.type = PacketType.exitRoom ∧ ∃ info notice, s.client? fd = some info ∧
    info.roomCode = code ∧ code ≠ [] ∧
    userNotice json PacketType.roomUserExit fd info.nickname = .ok notice

/-- A room that is created admits its creator and is not one more than there are clients;
whoever exits a room or is disconnected leaves no room with disconnected members only
behind, and a connection is closed only while there are fewer rooms than clients. -/
def Event.LeavesNoRoomBehind (json : Nlohmann) (s : Server) : Event → Prop
  | .accept _ _ _ => True
  | .packet fd p _ =>
    (∀ name max, CreatesFor json s p name max →
      max ≠ 0 ∧ s.roomManager.rooms.size < s.clientManager.clients.size) ∧
    ∀ code room, ExitsFrom json s fd p code → s.room? code = some room →
      (∀ g ∈ room.clients, g = fd) ∨ s.HasOther room fd
  | .close fd => s.roomManager.rooms.size < s.clientManager.clients.size ∧
      ∀ code room, s.room? code = some room → fd ∈ room.clients → s.HasOther room fd

variable {json : Nlohmann} {now : LocalTime} {s s' : Server} {fd : Fd} {info : ClientInfo}
  {p : Packet} {e : Event}

/-! ### The sizes of the tables -/

/-- Handling a packet connects and disconnects nobody. -/
theorem Handled.isSome_client? (h : s.client? fd = some info)
    (hh : Handled json now s fd info p s') (g : Fd) :
    (s'.client? g).isSome = (s.client? g).isSome := by
  by_cases hg : g = fd
  · subst hg
    obtain ⟨info', h', -⟩ := hh.exists_record h
    rw [h, h']
    rfl
  · rw [hh.client?_ne h hg]

theorem Handled.size_clients (h : s.client? fd = some info)
    (hh : Handled json now s fd info p s') :
    s'.clientManager.clients.size = s.clientManager.clients.size :=
  Table.size_congr fun g => hh.isSome_client? h g

theorem RoomManager.size_leaveRoom_le (m : RoomManager) (fd : Fd) (code : Bytes) :
    (m.leaveRoom fd code).rooms.size ≤ m.rooms.size := by
  unfold leaveRoom
  cases hroom : m.rooms.find code with
  | none => exact le_refl _
  | some room =>
    have hthere : (m.rooms.find code).isSome = true :=
      Option.isSome_iff_exists.mpr ⟨room, hroom⟩
    by_cases hcount : (room.leaveUser fd).getCurrentUserCount = 0
    · simp only [if_pos hcount]
      have hsize := Table.size_remove hthere
      omega
    · simp only [if_neg hcount]
      rw [Table.size_set_same _ hthere]

/-- Only a packet that has a room created adds to the rooms. -/
theorem Handled.size_rooms_le (hh : Handled json now s fd info p s')
    (hnone : ∀ name max, ¬ CreatesFor json s p name max) :
    s'.roomManager.rooms.size ≤ s.roomManager.rooms.size := by
  cases hh with
  | ignored | chat | refused | registered => exact le_refl _
  | created name max code n k htype hasks hmax hcode hfresh hfree =>
    exact absurd ⟨htype, hfree.1, hfree.2, hasks⟩ (hnone name max)
  | createdEmpty name code n k htype hasks hcode hfresh hfree =>
    exact absurd ⟨htype, hfree.1, hfree.2, hasks⟩ (hnone name 0)
  | joined code room htype hasks hin hroom =>
    have hthere : (s.roomManager.rooms.find code).isSome = true :=
      Option.isSome_iff_exists.mpr ⟨room, hroom⟩
    exact le_of_eq (Table.size_set_same _ hthere)
  | exited => exact RoomManager.size_leaveRoom_le _ _ _

theorem Handled.size_rooms_created (hh : Handled json now s fd info p s') {name : Bytes}
    {max : Int32} (hcreates : CreatesFor json s p name max) :
    s'.roomManager.rooms.size = s.roomManager.rooms.size + 1 := by
  obtain ⟨code, hfresh, -, hrooms⟩ := hh.exists_created hcreates
  rw [hrooms]
  exact Table.size_set_new _ hfresh

/-! ### What the good events keep -/

theorem Handled.occupied (hdistinct : s.roster.Distinct) (hs : s.Occupied)
    (h : s.client? fd = some info) (hh : Handled json now s fd info p s')
    (hcreate : ∀ name max, CreatesFor json s p name max →
      max ≠ 0 ∧ s.roomManager.rooms.size < s.clientManager.clients.size)
    (hexit : ∀ code room, ExitsFrom json s fd p code → s.room? code = some room →
      (∀ g ∈ room.clients, g = fd) ∨ s.HasOther room fd) : s'.Occupied := by
  have hconn : ∀ g, s.Connected g → s'.Connected g := by
    intro g hg
    rw [Server.Connected, hh.isSome_client? h]
    exact hg
  have hself : s.Connected fd := by
    rw [Server.Connected, h]
    rfl
  constructor
  · intro code room hroom
    cases hh.roomAfter hroom with
    | kept hkept =>
      obtain ⟨g, hmem, hg⟩ := hs.member code room hkept
      exact ⟨g, hmem, hconn g hg⟩
    | created hcreates hfresh hcode hclients =>
      refine ⟨fd, ?_, hconn fd hself⟩
      show fd ∈ _
      rw [hclients, if_neg (hcreate _ _ hcreates).1]
      exact List.mem_singleton_self fd
    | joined => exact ⟨fd, List.mem_append_right _ (List.mem_singleton_self fd), hconn fd hself⟩
    | @left room notice htype hcode hin hnotice hroom' hrest =>
      have hexits : ExitsFrom json s fd p code :=
        ⟨htype, info, notice, h, hcode.symm, hcode ▸ hin, hnotice⟩
      rcases hexit code room hexits hroom' with honly | ⟨g, hmem, hne, hg⟩
      · -- the room lists its client once, so nobody else would be left
        have hnodup : room.clients.Nodup := Server.listed_of_room hroom' ▸ hdistinct code
        refine absurd (List.eq_nil_iff_forall_not_mem.mpr fun g hg => ?_) hrest
        obtain ⟨hne, hmem⟩ := hnodup.mem_erase_iff.mp hg
        exact hne (honly g hmem)
      · exact ⟨g, (List.mem_erase_of_ne hne).mpr hmem, hconn g hg⟩
  · rw [hh.size_clients h]
    by_cases hcreates : ∃ name max, CreatesFor json s p name max
    · obtain ⟨name, max, hcreates⟩ := hcreates
      have hroomy := (hcreate name max hcreates).2
      rw [hh.size_rooms_created hcreates]
      omega
    · have hle := hh.size_rooms_le fun name max hc => hcreates ⟨name, max, hc⟩
      have hbounded := hs.bounded
      omega

/-- A connection that is closed leaves the rooms as they are and is one client less. -/
theorem closed_of_step (hstep : s.step json (.close fd) = some s') :
    s'.roomManager = s.roomManager ∧
      s'.clientManager.clients.size + 1 = s.clientManager.clients.size ∧
      ∀ g, s'.Connected g ↔ g ≠ fd ∧ s.Connected g := by
  obtain ⟨hconnected, rfl⟩ := Server.step_eq_some.mp hstep
  have hconnected : (s.client? fd).isSome = true := hconnected
  obtain ⟨client, hclient⟩ := Option.isSome_iff_exists.mp hconnected
  refine ⟨rfl, ?_, fun g => ?_⟩
  · show (s.clientManager.removeClient fd).clients.size + 1 = _
    have hremove : (s.clientManager.removeClient fd).clients =
        s.clientManager.clients.remove fd := by
      rw [ClientManager.removeClient, show s.clientManager.getClient fd = some client from hclient]
    rw [hremove]
    exact Table.size_remove hconnected
  · show ((s.clientManager.removeClient fd).getClient g).isSome = true ↔ _
    rw [ClientManager.getClient_removeClient]
    by_cases hg : g = fd
    · simp [hg]
    · rw [if_neg hg]
      exact ⟨fun h => ⟨hg, h⟩, fun h => h.2⟩

/-- Accepting a connection leaves the rooms as they are and disconnects nobody. -/
theorem accepted_of_step {ip : Bytes} {added : Bool}
    (hstep : s.step json (.accept fd ip added) = some s') :
    s'.roomManager = s.roomManager ∧
      s.clientManager.clients.size ≤ s'.clientManager.clients.size ∧
      ∀ g, s.Connected g → s'.Connected g := by
  obtain ⟨hfree, rfl⟩ := Server.step_eq_some.mp hstep
  have hfree : s.clientManager.clients.find fd = none := hfree
  show (ConnectionManager.acceptNewConnection _ fd ip added).roomManager = _ ∧
    _ ≤ (ConnectionManager.acceptNewConnection _ fd ip added).clientManager.clients.size ∧
    ∀ g, _ → (ConnectionManager.acceptNewConnection _ fd ip added).Connected g
  rw [ConnectionManager.acceptNewConnection]
  by_cases hadd : 0 < fd ∧ added = true
  · rw [if_pos hadd]
    refine ⟨rfl, ?_, fun g hg => ?_⟩
    · have hsize : (s.clientManager.clients.set fd _).size = s.clientManager.clients.size + 1 :=
        Table.size_set_new ⟨fd, ip, [], false, [], []⟩ hfree
      exact le_of_le_of_eq (Nat.le_succ _) hsize.symm
    · show ((s.clientManager.addClient fd ip).getClient g).isSome = true
      rw [ClientManager.getClient_addClient]
      by_cases hg' : g = fd
      · rw [if_pos hg']
        rfl
      · rw [if_neg hg']
        exact hg
  · rw [if_neg hadd]
    exact ⟨rfl, le_refl _, fun g hg => hg⟩

theorem Server.Occupied.step (hcoherent : s.Coherent) (hs : s.Occupied)
    (he : e.LeavesNoRoomBehind json s) (hstep : s.step json e = some s') : s'.Occupied := by
  cases e with
  | packet fd p now =>
    obtain ⟨info, h, hh⟩ := handled_of_step hstep
    exact hh.occupied (s := { s with sent := [] }) hcoherent.distinct ⟨hs.member, hs.bounded⟩ h
      he.1 he.2
  | accept fd ip added =>
    obtain ⟨hrooms, hsize, hconn⟩ := accepted_of_step hstep
    constructor
    · intro code room hroom
      rw [Server.room?, hrooms] at hroom
      obtain ⟨g, hmem, hg⟩ := hs.member code room hroom
      exact ⟨g, hmem, hconn g hg⟩
    · rw [hrooms]
      exact le_trans hs.bounded hsize
  | close fd =>
    obtain ⟨hroomy, hothers⟩ := he
    obtain ⟨hrooms, hsize, hconn⟩ := closed_of_step hstep
    constructor
    · intro code room hroom
      rw [Server.room?, hrooms] at hroom
      by_cases hlisted : fd ∈ room.clients
      · obtain ⟨g, hmem, hne, hg⟩ := hothers code room hroom hlisted
        exact ⟨g, hmem, (hconn g).mpr ⟨hne, hg⟩⟩
      · obtain ⟨g, hmem, hg⟩ := hs.member code room hroom
        exact ⟨g, hmem, (hconn g).mpr ⟨fun heq => hlisted (heq ▸ hmem), hg⟩⟩
    · rw [hrooms]
      omega

/-! ### What the other events break -/

/-- A client that exits a room that lists others leaves it to them. -/
theorem Handled.room?_exited (h : s.client? fd = some info)
    (hh : Handled json now s fd info p s') {code : Bytes} {room : Room}
    (hexits : ExitsFrom json s fd p code) (hroom : s.room? code = some room)
    (hrest : room.clients.erase fd ≠ []) : s'.room? code = some (room.leaveUser fd) := by
  obtain ⟨hp, info', notice, h', hcode, hne, hnotice⟩ := hexits
  rw [h, Option.some_inj] at h'
  subst h'
  cases hh with
  | ignored htype => exact absurd (Or.inr (Or.inr (Or.inr hp))) htype
  | chat broadcast htype => exact absurd (htype.symm.trans hp) (by decide)
  | refused response n htype hresponse hcreate hnickname hjoin hexit =>
    rcases hexit hp with hnone | ⟨e, herror⟩
    · exact absurd (hcode.symm.trans hnone) hne
    · rw [hnotice] at herror
      cases herror
  | registered nickname htype => exact absurd (htype.symm.trans hp) (by decide)
  | created name max code' n k htype => exact absurd (htype.symm.trans hp) (by decide)
  | createdEmpty name code' n k htype => exact absurd (htype.symm.trans hp) (by decide)
  | joined code' room' htype => exact absurd (htype.symm.trans hp) (by decide)
  | exited =>
    show (s.roomManager.leaveRoom fd info.roomCode).rooms.find code = _
    rw [RoomManager.find_leaveRoom, if_pos hcode.symm, hcode,
      show s.roomManager.rooms.find code = some room from hroom, Option.bind_some, if_neg hrest]

/-- A packet that leaves every room occupied has left no room behind. -/
theorem Handled.leavesNoRoomBehind (hdistinct : s.roster.Distinct)
    (h : s.client? fd = some info) (hh : Handled json now s fd info p s') (hs' : s'.Occupied) :
    Event.LeavesNoRoomBehind json s (.packet fd p now) := by
  constructor
  · intro name max hcreates
    obtain ⟨code, -, hroom, -⟩ := hh.exists_created hcreates
    constructor
    · rintro rfl
      obtain ⟨g, hmem, -⟩ := hs'.member code _ hroom
      exact absurd hmem List.not_mem_nil
    · have hbounded := hs'.bounded
      rw [hh.size_clients h, hh.size_rooms_created hcreates] at hbounded
      omega
  · intro code room hexits hroom
    have hnodup : room.clients.Nodup := Server.listed_of_room hroom ▸ hdistinct code
    by_cases honly : ∀ g ∈ room.clients, g = fd
    · exact Or.inl honly
    · have hrest : room.clients.erase fd ≠ [] := by
        intro hempty
        refine honly fun g hmem => ?_
        by_contra hne
        have hstays : g ∈ room.clients.erase fd := (List.mem_erase_of_ne hne).mpr hmem
        rw [hempty] at hstays
        exact absurd hstays List.not_mem_nil
      obtain ⟨g, hmem, hg⟩ := hs'.member code _ (hh.room?_exited h hexits hroom hrest)
      obtain ⟨hne, hmem⟩ := hnodup.mem_erase_iff.mp hmem
      refine Or.inr ⟨g, hmem, hne, ?_⟩
      rw [Server.Connected, ← hh.isSome_client? h]
      exact hg

theorem not_occupied_of_leaves (hcoherent : s.Coherent) (he : ¬ e.LeavesNoRoomBehind json s)
    (hstep : s.step json e = some s') : ¬ s'.Occupied := by
  intro hs'
  refine he ?_
  cases e with
  | accept fd ip added => trivial
  | packet fd p now =>
    obtain ⟨info, h, hh⟩ := handled_of_step hstep
    exact hh.leavesNoRoomBehind (s := { s with sent := [] }) hcoherent.distinct h hs'
  | close fd =>
    obtain ⟨hrooms, hsize, hconn⟩ := closed_of_step hstep
    constructor
    · have hbounded := hs'.bounded
      rw [hrooms] at hbounded
      omega
    · intro code room hroom hlisted
      obtain ⟨g, hmem, hg⟩ := hs'.member code room (by rw [Server.room?, hrooms]; exact hroom)
      obtain ⟨hne, hg⟩ := (hconn g).mp hg
      exact ⟨g, hmem, hne, hg⟩

/-! ### Runs -/

/-- A creation that succeeds is not answered with that refusal, whatever JSON is written. -/
theorem createAnswer_ne_roomLimitPacket (json : Nlohmann) (code : Bytes) :
    RoomHandler.createAnswer json code ≠ roomLimitPacket := by
  intro heq
  rw [RoomHandler.createAnswer] at heq
  cases hresponse : roomCodeResponse json PacketType.roomCreateOk code with
  | error e =>
    simp only [hresponse] at heq
    -- the texts differ in the first letter
    have hhead : ((str "JSON parse error: " ++ e.what).take maxPayloadSize).head? =
        (str "Failed to create room. Maximum room count reached.").head? :=
      congrArg (fun p => p.payload.head?) heq
    rw [List.head?_take, if_neg (by decide), List.head?_append_of_ne_nil _ (by decide)] at hhead
    exact absurd hhead (by decide)
  | ok response =>
    simp only [hresponse] at heq
    obtain ⟨t, -, rfl⟩ := roomCodeResponse_eq_ok.mp hresponse
    have htype : PacketType.roomCreateOk = PacketType.roomCreateFail := congrArg Packet.type heq
    exact absurd htype (by decide)

/-- With no more rooms than clients there is a place for a room of every client. -/
theorem Server.Occupied.notRefused (hs : s.Occupied) (hstep : s.step json e = some s') :
    e.NotRefused json s s' := by
  cases e with
  | accept fd ip added => trivial
  | close fd => trivial
  | packet fd p now =>
    rintro hp ⟨name, max, hasks⟩ hfree hclients hsent
    have hsize : s.roomManager.rooms.size < maxRoomCnt := lt_of_le_of_lt hs.bounded hclients
    have hanswer : ∀ code, (fd, roomLimitPacket) ∉
        ([(fd, RoomHandler.createAnswer json code)] : List (Fd × Packet)) := by
      intro code hmem
      exact createAnswer_ne_roomLimitPacket json code
        (Prod.mk.inj (List.mem_singleton.mp hmem)).2.symm
    obtain ⟨info, h, hh⟩ := handled_of_step hstep
    cases hh with
    | ignored => cases hsent
    | chat broadcast htype => exact absurd (htype.symm.trans hp) (by decide)
    | refused response n htype hresponse hcreate =>
      exact hcreate hp name max hasks ⟨hsize, hfree⟩
    | registered nickname htype => exact absurd (htype.symm.trans hp) (by decide)
    | created name' max' code => exact hanswer code hsent
    | createdEmpty name' code => exact hanswer code hsent
    | joined code room htype => exact absurd (htype.symm.trans hp) (by decide)
    | exited notice htype => exact absurd (htype.symm.trans hp) (by decide)

theorem Server.occupied_init (codes : CodeStream) : (Server.init codes).Occupied := by
  constructor
  · intro code room hroom
    rw [Server.room?_init] at hroom
    cases hroom
  · exact Nat.zero_le _

/-- **No room is left behind in exactly the runs whose events leave none behind.**  Then
every room has a connected member, there are never more rooms than clients, and a
CREATE_ROOM finds a place for its room while fewer than 100 clients are connected. -/
theorem rooms_occupied_iff (json : Nlohmann) (codes : CodeStream) (events : List Event)
    (final : Server)
    (hrun : Transition.runFrom (Server.step json) (Server.init codes) events = some final) :
    ((∀ s, Transition.Visits (Server.step json) (Server.init codes) events s → s.Occupied) ∧
      ∀ s e s', Transition.Takes (Server.step json) (Server.init codes) events s e →
        s.step json e = some s' → e.NotRefused json s s') ↔
      ∀ s e, Transition.Takes (Server.step json) (Server.init codes) events s e →
        e.LeavesNoRoomBehind json s := by
  have hiff := Transition.visits_iff_takes (J := fun s => s.Coherent ∧ s.Occupied)
    (P := Server.Occupied) (G := fun s e => e.LeavesNoRoomBehind json s) (fun s hs => hs.2)
    (fun s e s' hs he hstep => ⟨hs.1.step hstep, hs.2.step hs.1 he hstep⟩)
    (fun s e s' hs he hstep => not_occupied_of_leaves hs.1 he hstep) hrun
    ⟨Server.coherent_init codes, Server.occupied_init codes⟩
  constructor
  · exact fun h => hiff.mp h.1
  · intro hleaves
    have hoccupied := hiff.mpr hleaves
    exact ⟨hoccupied, fun s e s' htakes hstep => (hoccupied s htakes.visits).notRefused hstep⟩

theorem rooms_occupied_iff_createThenExit :
    ((∀ s, Transition.Visits (Server.step Nlohmann.integral) (Server.init CodeStream.inOrder)
        createThenExit s → s.Occupied) ∧
      ∀ s e s', Transition.Takes (Server.step Nlohmann.integral)
          (Server.init CodeStream.inOrder) createThenExit s e →
        s.step Nlohmann.integral e = some s' → e.NotRefused Nlohmann.integral s s') ↔
      ∀ s e, Transition.Takes (Server.step Nlohmann.integral) (Server.init CodeStream.inOrder)
        createThenExit s e → e.LeavesNoRoomBehind Nlohmann.integral s := by
  have hpossible : (Transition.runFrom (Server.step Nlohmann.integral)
      (Server.init CodeStream.inOrder) createThenExit).isSome = true := by
    decide +kernel
  exact rooms_occupied_iff Nlohmann.integral CodeStream.inOrder createThenExit _
    (Option.some_get hpossible).symm

/-- A request for a room of nobody. -/
def createHollowEvent (fd : Fd) : Event :=
  .request fd PacketType.createRoom (str "\x7b\"roomName\":\"lobby\",\"maxUsers\":0\x7d")

/-- A room outlives the disconnection of its only member, one of capacity 0 never has a
member, and a client that has a second room created leaves one more than there are
clients. -/
theorem not_rooms_occupied :
    (∃ s, Transition.Visits (Server.step Nlohmann.integral) (Server.init CodeStream.inOrder)
      (createRoomThen (.close 5)) s ∧
        ∃ code room, s.room? code = some room ∧ ∀ g ∈ room.clients, ¬ s.Connected g) ∧
    (∃ s, Transition.Visits (Server.step Nlohmann.integral) (Server.init CodeStream.inOrder)
      (createRoomThen (createHollowEvent 5)) s ∧
        ∃ code room, s.room? code = some room ∧ room.clients = []) ∧
    ∃ s, Transition.Visits (Server.step Nlohmann.integral) (Server.init CodeStream.inOrder)
      (createRoomThen (createRoomEvent 5)) s ∧
        s.clientManager.clients.size < s.roomManager.rooms.size := by
  refine ⟨?_, ?_, ?_⟩
  · have hrun : (Transition.runFrom (Server.step Nlohmann.integral)
        (Server.init CodeStream.inOrder) (createRoomThen (.close 5))).any (fun s =>
          (s.client? 5).isNone &&
            (s.room? (str "aaaaaaaa")).any fun room => decide (room.clients = [5])) = true := by
      decide +kernel
    obtain ⟨s, hvisits, hs⟩ := Transition.Visits.of_any hrun
    rw [Bool.and_eq_true, Option.isNone_iff_eq_none, Option.any_eq_true] at hs
    obtain ⟨hnone, room, hroom, hclients⟩ := hs
    refine ⟨s, hvisits, _, room, hroom, fun g hg hconnected => ?_⟩
    rw [of_decide_eq_true hclients, List.mem_singleton] at hg
    rw [Server.Connected, hg, hnone] at hconnected
    cases hconnected
  · have hrun : (Transition.runFrom (Server.step Nlohmann.integral)
        (Server.init CodeStream.inOrder) (createRoomThen (createHollowEvent 5))).any (fun s =>
          (s.room? (str "bbbbbbbb")).any fun room => decide (room.clients = [])) = true := by
      decide +kernel
    obtain ⟨s, hvisits, hs⟩ := Transition.Visits.of_any hrun
    obtain ⟨room, hroom, hempty⟩ := (Option.any_eq_true _ _).mp hs
    exact ⟨s, hvisits, _, room, hroom, of_decide_eq_true hempty⟩
  · have hrun : (Transition.runFrom (Server.step Nlohmann.integral)
        (Server.init CodeStream.inOrder) (createRoomThen (createRoomEvent 5))).any (fun s =>
          decide (s.clientManager.clients.size < s.roomManager.rooms.size)) = true := by
      decide +kernel
    obtain ⟨s, hvisits, hs⟩ := Transition.Visits.of_any hrun
    exact ⟨s, hvisits, of_decide_eq_true hs⟩

end SocketChat
