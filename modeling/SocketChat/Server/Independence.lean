/-
Independent packets commute.

`Server.cells` presents the server as cells: a client's record together with the number of
connections its descriptor has had, the reservation of a name, a room, the generator of room
codes.  `serve_actsOn` says which of them each call acts on, and `handle_meets` that a packet
which creates no room acts on its client, the nickname it asks for and the room it touches.
Two packets of different clients that share neither nickname nor room therefore end in the
same state in either order, and the same packets are sent (`packets_commute`).
-/
import SocketChat.Lib.Footprint
import SocketChat.Server.Answers

namespace SocketChat

open Handler

/-! ### The server as cells -/

/-- A part of the server's state. -/
inductive Cell where
  | client (fd : Fd)
  | nickname (nickname : Bytes)
  | room (roomCode : Bytes)
  | codes

/-- What a part consists of: the record of a client with the number of connections accepted
on its descriptor, whether a name is reserved, a room, the generator. -/
abbrev Cell.Content : Cell → Type
  | .client _ => Option ClientInfo × ℕ
  | .nickname _ => Bool
  | .room _ => Option Room
  | .codes => CodeStream

def Server.cells : Cells Server Cell.Content (Fd × Packet) where
  read s
    | .client fd => (s.client? fd, s.accepts fd)
    | .nickname nickname => s.clientManager.isNicknameTaken nickname
    | .room roomCode => s.room? roomCode
    | .codes => s.roomManager.codes
  log s := s.sent

/-- The cells a call reads or writes.  `addRoom` counts the rooms and so looks at all. -/
def Call.footprint : Call → Set Cell
  | .getClient fd => {.client fd}
  | .isNicknameTaken nickname => {.nickname nickname}
  | .setNickname fd nickname => {.client fd, .nickname nickname}
  | .setRoomCode conn _ => {.client conn.fd}
  | .addRoom _ _ => Set.univ
  | .joinRoom _ roomCode => {.room roomCode}
  | .leaveRoom _ roomCode => {.room roomCode}
  | .getClientFds roomCode => {.room roomCode}
  | .send _ _ => ∅

variable {s t : Server} {F : Set Cell}

@[simp] theorem Server.read_client (s : Server) (fd : Fd) :
    Server.cells.read s (.client fd) = (s.client? fd, s.accepts fd) := rfl

@[simp] theorem Server.read_nickname (s : Server) (nickname : Bytes) :
    Server.cells.read s (.nickname nickname) = s.clientManager.isNicknameTaken nickname := rfl

@[simp] theorem Server.read_room (s : Server) (code : Bytes) :
    Server.cells.read s (.room code) = s.room? code := rfl

@[simp] theorem Server.read_codes (s : Server) :
    Server.cells.read s .codes = s.roomManager.codes := rfl

/-- States with the same contents in all cells have the same tables. -/
theorem Server.managers_eq_of_read
    (h : ∀ l, Server.cells.read s l = Server.cells.read t l) :
    s.clientManager = t.clientManager ∧ s.roomManager = t.roomManager := by
  have hclients : s.clientManager.clients = t.clientManager.clients :=
    Table.ext fun fd => (Prod.mk.inj (h (.client fd))).1
  have hnicknames : s.clientManager.nicknames = t.clientManager.nicknames := by
    ext nickname
    rw [← ClientManager.isNicknameTaken_iff, ← ClientManager.isNicknameTaken_iff]
    exact iff_of_eq (congrArg (· = true) (h (.nickname nickname)))
  have hrooms : s.roomManager.rooms = t.roomManager.rooms := Table.ext fun code => h (.room code)
  have hcodes : s.roomManager.codes = t.roomManager.codes := h .codes
  obtain ⟨⟨clients, nicknames⟩, ⟨rooms, codes⟩, accepts, sent⟩ := s
  obtain ⟨⟨clients', nicknames'⟩, ⟨rooms', codes'⟩, accepts', sent'⟩ := t
  simp only at hclients hnicknames hrooms hcodes
  subst hclients hnicknames hrooms hcodes
  exact ⟨rfl, rfl⟩

/-! ### What each call acts on -/

/-- An operation that changes one cell, in a way that depends on that cell alone. -/
theorem actsOn_cell {α : Type} {f : Server → α × Server} {l : Cell} {s : Server}
    (result : ∀ t, Server.cells.read t l = Server.cells.read s l → (f t).1 = (f s).1)
    (inside : ∀ t, Server.cells.read t l = Server.cells.read s l →
      Server.cells.read (f t).2 l = Server.cells.read (f s).2 l)
    (outside : ∀ t l', l' ≠ l → Server.cells.read (f t).2 l' = Server.cells.read t l')
    (log : ∀ t, (f t).2.sent = t.sent) : Server.cells.ActsOn {l} f s [] where
  result t ht := result t (ht l rfl)
  inside t ht := by
    rintro _ rfl
    exact inside t (ht _ rfl)
  outside t _ := fun l' hl' => outside t l' hl'
  log t _ := (log t).trans (List.append_nil _).symm

theorem actsOn_setNickname (fd : Fd) (nickname : Bytes) (s : Server) :
    Server.cells.ActsOn (Call.setNickname fd nickname).footprint
      (serve (.setNickname fd nickname)) s [] where
  result _ _ := rfl
  inside t ht := by
    have hclient := Prod.mk.inj (ht (.client fd) (Or.inl rfl))
    intro l hl
    rcases hl with rfl | rfl
    · simp only [Server.read_client, client?_setNickname, accepts_serve, hclient]
    · have hname : t.clientManager.isNicknameTaken nickname = _ :=
        ht (.nickname nickname) (Or.inr rfl)
      simp only [Server.read_nickname, isNicknameTaken_setNickname, hclient.1, hname]
  outside t _ := by
    intro l hl
    cases l with
    | client g =>
      have hg : g ≠ fd := fun heq => hl (Or.inl (congrArg Cell.client heq))
      simp only [Server.read_client, client?_setNickname, if_neg hg, accepts_serve]
    | nickname name =>
      have hname : name ≠ nickname := fun heq => hl (Or.inr (congrArg Cell.nickname heq))
      simp only [Server.read_nickname, isNicknameTaken_setNickname, hname, decide_false,
        Bool.and_false, Bool.false_or]
    | room code => rfl
    | codes => rfl
  log _ _ := (List.append_nil _).symm

/-- The number of connections tells whether the pointer is still good. -/
theorem actsOn_setRoomCode (conn : Connection) (code : Bytes) (s : Server) :
    Server.cells.ActsOn (Call.setRoomCode conn code).footprint
      (serve (.setRoomCode conn code)) s [] := by
  refine actsOn_cell (fun _ _ => rfl) (fun t ht => ?_) (fun t l hl => ?_)
    fun t => sent_setRoomCode conn code t
  · have hclient := Prod.mk.inj ht
    -- the same connection is on the descriptor in both states
    have hconn : t.connection conn.fd = s.connection conn.fd := by
      rw [Server.connection, Server.connection, hclient.2]
    rw [Server.read_client, Server.read_client, client?_setRoomCode, client?_setRoomCode,
      accepts_serve, accepts_serve, hclient.1, hclient.2, hconn]
  · cases l with
    | client g =>
      have hg : g ≠ conn.fd := fun heq => hl (congrArg Cell.client heq)
      simp only [Server.read_client, client?_setRoomCode, if_neg hg, accepts_serve]
    | nickname name =>
      simp only [Server.read_nickname, ClientManager.isNicknameTaken, nicknames_setRoomCode]
    | room code' => simp only [Server.read_room, Server.room?, roomManager_setRoomCode]
    | codes => simp only [Server.read_codes, roomManager_setRoomCode]

/-- `addRoom` looks at all the rooms. -/
theorem actsOn_addRoom (name : Bytes) (max : Int32) (s : Server) :
    Server.cells.ActsOn (Call.addRoom name max).footprint (serve (.addRoom name max)) s [] := by
  have hrooms : ∀ t, Server.cells.Agree Set.univ t s → t.roomManager = s.roomManager :=
    fun t ht => (Server.managers_eq_of_read fun l => ht l trivial).2
  exact {
    result := by
      intro t ht
      show (t.roomManager.addRoom name max).1 = (s.roomManager.addRoom name max).1
      rw [hrooms t ht]
    inside := by
      intro t ht l _
      cases l with
      | client fd => exact ht (.client fd) trivial
      | nickname nickname => exact ht (.nickname nickname) trivial
      | room code =>
        show (t.roomManager.addRoom name max).2.rooms.find code = _
        rw [hrooms t ht]
        rfl
      | codes =>
        show (t.roomManager.addRoom name max).2.codes = _
        rw [hrooms t ht]
        rfl
    outside := fun t _ l hl => absurd (Set.mem_univ l) hl
    log := fun _ _ => (List.append_nil _).symm }

/-- A call of the room manager that makes of one room what `g` says and leaves the others and
the generator alone. -/
theorem actsOn_room {α : Type} (result : RoomManager → α) (after : RoomManager → RoomManager)
    (code : Bytes) (g : Option Room → Option Room) (s : Server)
    (hresult : ∀ m, m.rooms.find code = s.roomManager.rooms.find code →
      result m = result s.roomManager)
    (hfind : ∀ m code', (after m).rooms.find code' =
      if code' = code then g (m.rooms.find code) else m.rooms.find code')
    (hcodes : ∀ m, (after m).codes = m.codes) :
    Server.cells.ActsOn {.room code}
      (fun t => (result t.roomManager, { t with roomManager := after t.roomManager })) s [] := by
  refine actsOn_cell (fun t ht => ?_) (fun t ht => ?_) (fun t l hl => ?_) fun _ => rfl
  · exact hresult t.roomManager ht
  · have hroom : t.roomManager.rooms.find code = s.roomManager.rooms.find code := ht
    show (after t.roomManager).rooms.find code = (after s.roomManager).rooms.find code
    rw [hfind, hfind, hroom]
  · cases l with
    | client g => rfl
    | nickname name => rfl
    | room code' =>
      have hcode : code' ≠ code := fun heq => hl (congrArg Cell.room heq)
      show (after t.roomManager).rooms.find code' = t.roomManager.rooms.find code'
      rw [hfind, if_neg hcode]
    | codes => exact hcodes t.roomManager

theorem actsOn_joinRoom (fd : Fd) (code : Bytes) (s : Server) :
    Server.cells.ActsOn (Call.joinRoom fd code).footprint (serve (.joinRoom fd code)) s [] := by
  refine actsOn_room (fun m => (m.joinRoom fd code).1) (fun m => (m.joinRoom fd code).2) code
    (Option.map fun room => (room.acceptNewUser fd).2) s ?_ ?_ ?_
  · intro m hroom
    rw [RoomManager.joinRoom_fst, RoomManager.joinRoom_fst, hroom]
  · intro m code'
    exact m.find_joinRoom fd code code'
  · intro m
    exact m.codes_joinRoom fd code

theorem actsOn_leaveRoom (fd : Fd) (code : Bytes) (s : Server) :
    Server.cells.ActsOn (Call.leaveRoom fd code).footprint (serve (.leaveRoom fd code)) s [] := by
  refine actsOn_room (fun _ => ()) (fun m => m.leaveRoom fd code) code
    (fun room? => room?.bind fun room =>
      if room.clients.erase fd = [] then none else some (room.leaveUser fd)) s ?_ ?_ ?_
  · intro m _
    rfl
  · intro m code'
    exact m.find_leaveRoom fd code code'
  · intro m
    exact m.codes_leaveRoom fd code

/-- What a call does depends on its footprint and stays in it. -/
theorem serve_actsOn (c : Call) (s : Server) :
    ∃ entries, Server.cells.ActsOn c.footprint (serve c) s entries := by
  cases c with
  | getClient fd =>
    refine ⟨[], Cells.ActsOn.of_read (fun t => (serve (.getClient fd) t).1) fun t ht => ?_⟩
    have hclient := Prod.mk.inj (ht (.client fd) rfl)
    simp only [serve, Server.connection, hclient]
  | isNicknameTaken name =>
    exact ⟨[], Cells.ActsOn.of_read (fun t => (serve (.isNicknameTaken name) t).1)
      fun t ht => ht (.nickname name) rfl⟩
  | setNickname fd name => exact ⟨[], actsOn_setNickname fd name s⟩
  | setRoomCode conn code => exact ⟨[], actsOn_setRoomCode conn code s⟩
  | addRoom name max => exact ⟨[], actsOn_addRoom name max s⟩
  | joinRoom fd code => exact ⟨[], actsOn_joinRoom fd code s⟩
  | leaveRoom fd code => exact ⟨[], actsOn_leaveRoom fd code s⟩
  | getClientFds code =>
    refine ⟨[], Cells.ActsOn.of_read (fun t => (serve (.getClientFds code) t).1) fun t ht => ?_⟩
    have hroom : t.room? code = s.room? code := ht (.room code) rfl
    simp only [serve, hroom]
  | send fd packet =>
    have hsame : ∀ (t : Server) l, Server.cells.read (serve (.send fd packet) t).2 l =
        Server.cells.read t l := by
      intro t l
      cases l with
      | _ => rfl
    exact ⟨[(fd, packet)], fun _ _ => rfl, fun _ _ l hl => absurd hl (Set.notMem_empty l),
      fun t _ l _ => hsame t l, fun _ _ => rfl⟩

/-! ### What handling a packet acts on -/

/-- The nickname a packet requests. -/
def RequestsNickname (json : Nlohmann) (p : Packet) (nickname : Bytes) : Prop :=
  p.type = PacketType.nicknameRequest ∧ AsksForNickname json p nickname

/-- The room a packet of a client with record `info` touches: the one a JOIN_ROOM names, the
client's own, if it has one, for a MESSAGE_SEND or EXIT_ROOM. -/
def TouchesRoom (json : Nlohmann) (info : ClientInfo) (p : Packet) (code : Bytes) : Prop :=
  (p.type = PacketType.joinRoom ∧ AsksToJoin json p code) ∨
    ((p.type = PacketType.messageSend ∨ p.type = PacketType.exitRoom) ∧
      info.roomCode = code ∧ code ≠ [])

/-- The client, the nickname and the room a packet is about. -/
def packetCells (json : Nlohmann) (fd : Fd) (info : ClientInfo) (p : Packet) : Set Cell
  | .client g => g = fd
  | .nickname nickname => RequestsNickname json p nickname
  | .room code => TouchesRoom json info p code
  | .codes => False

variable {json : Nlohmann} {now : LocalTime} {fd : Fd} {info : ClientInfo} {p : Packet}

/-- The calls that act on cells in `F` only. -/
abbrev Call.Within (F : Set Cell) (c : Call) : Prop := c.footprint ⊆ F

theorem within_sendPacket (g : Fd) (packet : Packet) :
    (sendPacket g packet).Only (Call.Within F) :=
  ⟨Set.empty_subset F, fun _ => trivial⟩

theorem within_sendEach (packet : Packet) (fds : List Fd) :
    (sendEach packet fd fds).Only (Call.Within F) := by
  induction fds with
  | nil => trivial
  | cons g fds ih =>
    rw [sendEach]
    by_cases hg : g ≠ fd
    · rw [if_pos hg]
      exact (within_sendPacket g packet).bind fun _ => ih
    · rw [if_neg hg]
      exact ih

theorem within_broadcastPacketForRoom (packet : Packet) {code : Bytes} (h : Cell.room code ∈ F) :
    (broadcastPacketForRoom packet code fd).Only (Call.Within F) := by
  refine ⟨Set.singleton_subset_iff.mpr h, fun r => ?_⟩
  cases r with
  | none => trivial
  | some fds => exact within_sendEach packet fds

theorem NicknameHandler.handle_within (hclient : Cell.client fd ∈ F)
    (hname : ∀ nickname, AsksForNickname json p nickname → Cell.nickname nickname ∈ F) :
    (NicknameHandler.handle json fd p).Only (Call.Within F) := by
  unfold NicknameHandler.handle
  cases hparse : json.parse p.text with
  | error e => exact within_sendPacket fd _
  | ok data =>
    cases hnickname : nickname? data with
    | none =>
      simp only [hnickname]
      exact within_sendPacket fd _
    | some nickname =>
      simp only [hnickname]
      have hcell := hname nickname ⟨data, hparse, hnickname⟩
      refine ⟨Set.singleton_subset_iff.mpr hcell, fun taken => ?_⟩
      cases taken with
      | true => exact within_sendPacket fd _
      | false => exact ⟨Set.pair_subset hclient hcell, fun _ => within_sendPacket fd _⟩

/-- After `getClient` only the record it has found matters. -/
theorem meets_getClient {f : Option (Connection × ClientInfo) → Handler Unit}
    (h : s.client? fd = some info) (hclient : Cell.client fd ∈ F)
    (hf : (f (some (s.connection fd, info))).Only (Call.Within F)) :
    (getClient fd >>= f).Meets serve (fun c _ => c.Within F) s := by
  refine Prog.meets_call.mpr ⟨Set.singleton_subset_iff.mpr hclient, ?_⟩
  show (f ((s.client? fd).map fun client => (s.connection fd, client))).Meets serve _ s
  rw [h]
  exact hf.meets (fun _ _ hc => hc) s

theorem MessageHandler.handle_meets (h : s.client? fd = some info)
    (hclient : Cell.client fd ∈ F) (hroom : info.roomCode ≠ [] → Cell.room info.roomCode ∈ F) :
    (MessageHandler.handle json now fd p).Meets serve (fun c _ => c.Within F) s := by
  refine meets_getClient h hclient ?_
  show Prog.Only _ (if info.isAuthenticated = false then _ else _)
  by_cases hauth : info.isAuthenticated = false
  · rw [if_pos hauth]
    trivial
  · rw [if_neg hauth]
    by_cases hin : info.roomCode = []
    · rw [if_pos hin]
      trivial
    · rw [if_neg hin]
      cases broadcastPacket json now fd info p with
      | none => trivial
      | some broadcast => exact within_broadcastPacketForRoom broadcast (hroom hin)

namespace RoomHandler

theorem finishJoin_within {nickname code : Bytes} (hroom : Cell.room code ∈ F) :
    (finishJoin json fd nickname code).Only (Call.Within F) := by
  unfold finishJoin
  cases roomCodeResponse json PacketType.roomJoinOk code with
  | error e => exact within_sendPacket fd _
  | ok response =>
    cases userNotice json PacketType.roomUserJoin fd nickname with
    | error e => exact within_sendPacket fd _
    | ok notice =>
      exact (within_broadcastPacketForRoom notice hroom).bind fun _ => within_sendPacket fd _

theorem handleJoinRoom_meets (h : s.client? fd = some info) (hclient : Cell.client fd ∈ F)
    (hroom : ∀ code, AsksToJoin json p code → Cell.room code ∈ F) :
    (handleJoinRoom json fd p).Meets serve (fun c _ => c.Within F) s := by
  unfold handleJoinRoom
  cases hparse : json.parse p.text with
  | error e => exact (within_sendPacket fd _).meets (fun _ _ hc => hc) s
  | ok data =>
    cases hcode : roomCode? data with
    | none =>
      simp only [hcode]
      exact (within_sendPacket fd _).meets (fun _ _ hc => hc) s
    | some code =>
      simp only [hcode]
      have hcell := hroom code ⟨data, hparse, hcode⟩
      refine meets_getClient h hclient ?_
      show Prog.Only _ (if info.roomCode ≠ [] then _ else _)
      by_cases hin : info.roomCode ≠ []
      · rw [if_pos hin]
        exact within_sendPacket fd _
      · rw [if_neg hin]
        refine ⟨Set.singleton_subset_iff.mpr hcell, fun joined => ?_⟩
        -- only a join that succeeds writes through the pointer
        cases joined with
        | false => exact within_sendPacket fd _
        | true =>
          exact ⟨Set.singleton_subset_iff.mpr hclient, fun _ => finishJoin_within hcell⟩

theorem handleExitRoom_meets (h : s.client? fd = some info) (hclient : Cell.client fd ∈ F)
    (hroom : info.roomCode ≠ [] → Cell.room info.roomCode ∈ F) :
    (handleExitRoom json fd).Meets serve (fun c _ => c.Within F) s := by
  refine meets_getClient h hclient ?_
  show Prog.Only _ (if info.roomCode = [] then _ else _)
  by_cases hin : info.roomCode = []
  · rw [if_pos hin]
    exact within_sendPacket fd _
  · rw [if_neg hin]
    have hcell := hroom hin
    cases userNotice json PacketType.roomUserExit fd info.nickname with
    | error e => exact within_sendPacket fd _
    | ok notice =>
      refine (within_broadcastPacketForRoom notice hcell).bind fun _ => ?_
      exact ⟨Set.singleton_subset_iff.mpr hcell, fun _ =>
        ⟨Set.singleton_subset_iff.mpr hclient, fun _ => within_sendPacket fd _⟩⟩

end RoomHandler

/-- Handling a packet of a connected client, unless it creates a room, acts on the cells of
the packet. -/
theorem PacketHandler.handle_meets (now : LocalTime) (h : s.client? fd = some info)
    (htype : p.type ≠ PacketType.createRoom) :
    (PacketHandler.handle json now fd p).Meets serve
      (fun c _ => c.Within (packetCells json fd info p)) s := by
  have hclient : Cell.client fd ∈ packetCells json fd info p := rfl
  unfold PacketHandler.handle
  by_cases hnick : p.type = PacketType.nicknameRequest
  · rw [if_pos hnick]
    exact (NicknameHandler.handle_within hclient fun nickname hasks => ⟨hnick, hasks⟩).meets
      (fun _ _ hc => hc) s
  rw [if_neg hnick]
  by_cases hmessage : p.type = PacketType.messageSend
  · rw [if_pos hmessage]
    exact MessageHandler.handle_meets h hclient fun hin => Or.inr ⟨Or.inl hmessage, rfl, hin⟩
  rw [if_neg hmessage]
  unfold RoomHandler.handle
  by_cases hjoin : p.type = PacketType.joinRoom
  · rw [if_pos (Or.inr (Or.inl hjoin)), if_neg htype, if_neg (by rw [hjoin]; decide),
      if_pos hjoin]
    exact RoomHandler.handleJoinRoom_meets h hclient fun code hasks => Or.inl ⟨hjoin, hasks⟩
  by_cases hexit : p.type = PacketType.exitRoom
  · rw [if_pos (Or.inr (Or.inr hexit)), if_neg htype, if_pos hexit]
    exact RoomHandler.handleExitRoom_meets h hclient
      fun hin => Or.inr ⟨Or.inr hexit, rfl, hin⟩
  -- a packet of another type makes no call
  · rw [if_neg (by rintro (hc | hj | he); exacts [htype hc, hjoin hj, hexit he])]
    trivial

/-! ### Two packets -/

/-- Two events, one after the other and each executed to completion; `sent` then lists what
both have sent. -/
def Server.handleBoth (json : Nlohmann) (s : Server) (e f : Event) : Server :=
  f.perform json (e.perform json { s with sent := [] })

/-- Two states that differ at most in the order in which packets have been sent. -/
structure Server.SameOutcome (s s' : Server) : Prop where
  clients : s.clientManager.clients = s'.clientManager.clients
  nicknames : s.clientManager.nicknames = s'.clientManager.nicknames
  rooms : s.roomManager = s'.roomManager
  sent : ∀ fd, (s.sentTo fd).Perm (s'.sentTo fd)

theorem packetCells_disjoint {a b : Fd} {infoA infoB : ClientInfo} {pa pb : Packet}
    (hne : a ≠ b)
    (hnickname : ∀ nickname, ¬ (RequestsNickname json pa nickname ∧
      RequestsNickname json pb nickname))
    (hroom : ∀ code, ¬ (TouchesRoom json infoA pa code ∧ TouchesRoom json infoB pb code)) :
    Disjoint (packetCells json a infoA pa) (packetCells json b infoB pb) := by
  rw [Set.disjoint_left]
  intro l hla hlb
  cases l with
  | client g => exact hne (Eq.trans (Eq.symm hla) hlb)
  | nickname nickname => exact hnickname nickname ⟨hla, hlb⟩
  | room code => exact hroom code ⟨hla, hlb⟩
  | codes => exact hla

/-- **Independent packets commute.**  Packets of two connected clients that create no room,
do not ask for one nickname and do not touch one room have the same outcome in either
order. -/
theorem packets_commute (json : Nlohmann) (s : Server) (a b : Fd) (infoA infoB : ClientInfo)
    (ha : s.client? a = some infoA) (hb : s.client? b = some infoB) (hne : a ≠ b)
    (pa pb : Packet) (nowA nowB : LocalTime)
    (hpa : pa.type ≠ PacketType.createRoom) (hpb : pb.type ≠ PacketType.createRoom)
    (hnickname : ∀ nickname, ¬ (RequestsNickname json pa nickname ∧
      RequestsNickname json pb nickname))
    (hroom : ∀ code, ¬ (TouchesRoom json infoA pa code ∧ TouchesRoom json infoB pb code)) :
    (s.handleBoth json (.packet a pa nowA) (.packet b pb nowB)).SameOutcome
      (s.handleBoth json (.packet b pb nowB) (.packet a pa nowA)) := by
  have hdisjoint := packetCells_disjoint hne hnickname hroom
  obtain ⟨entriesA, hactsA⟩ :=
    (PacketHandler.handle_meets (s := { s with sent := [] }) nowA ha hpa).actsOn serve_actsOn
  obtain ⟨entriesB, hactsB⟩ :=
    (PacketHandler.handle_meets (s := { s with sent := [] }) nowB hb hpb).actsOn serve_actsOn
  -- each packet finds its cells as if the other had not been handled
  obtain ⟨hclients, hrooms⟩ := Server.managers_eq_of_read
    (hactsA.read_comm hactsB hdisjoint)
  have hsent := hactsA.log_comm hactsB hdisjoint
  exact ⟨congrArg ClientManager.clients hclients, congrArg ClientManager.nicknames hclients,
    hrooms, fun fd => (hsent.filter _).map _⟩

/-- Clients 5 and 6 have created a room each, and client 7 is in none. -/
def twoRooms : List Event :=
  [.accept 5 (str "10.0.0.1") true, .accept 6 (str "10.0.0.2") true,
    .accept 7 (str "10.0.0.3") true, nicknameEvent 5 "ann", createRoomEvent 5,
    createRoomEvent 6]

/-- Client 5 leaves its room, which is then gone, and client 7 joins the other one. -/
theorem packets_commute_exitJoin : ∃ s,
    Transition.runFrom (Server.step Nlohmann.integral) (Server.init CodeStream.inOrder)
      twoRooms = some s ∧
    (s.handleBoth Nlohmann.integral (exitRoomEvent 5) (joinRoomEvent 7 "bbbbbbbb")).SameOutcome
      (s.handleBoth Nlohmann.integral (joinRoomEvent 7 "bbbbbbbb") (exitRoomEvent 5)) := by
  have hpossible : (Transition.runFrom (Server.step Nlohmann.integral)
      (Server.init CodeStream.inOrder) twoRooms).any (fun s : Server =>
        (s.client? 5).any (fun client : ClientInfo => client.roomCode == str "aaaaaaaa") &&
          (s.client? 7).isSome) = true := by
    decide +kernel
  obtain ⟨s, hrun, hs⟩ := (Option.any_eq_true _ _).mp hpossible
  rw [Bool.and_eq_true, Option.any_eq_true] at hs
  obtain ⟨⟨infoA, ha, hcode⟩, hb⟩ := hs
  obtain ⟨infoB, hb⟩ := Option.isSome_iff_exists.mp hb
  have hparses : ((Nlohmann.integral.parse (Packet.ofText PacketType.joinRoom
      (str "\x7b\"roomCode\":\"" ++ str "bbbbbbbb" ++ str "\"\x7d")).text).toOption.bind
        RoomHandler.roomCode?) = some (str "bbbbbbbb") := by
    decide +kernel
  obtain ⟨data, hdata, hnamed⟩ := Option.bind_eq_some_iff.mp hparses
  refine ⟨s, hrun, packets_commute Nlohmann.integral s 5 7 infoA infoB ha hb (by decide) _ _ noon
    noon (by decide) (by decide) ?_ ?_⟩
  · rintro nickname ⟨⟨htype, -⟩, -⟩
    exact absurd htype (by decide)
  · rintro code ⟨⟨htype, -⟩ | ⟨-, hown, -⟩, ⟨-, hjoin⟩ | ⟨htype, -⟩⟩
    · exact absurd htype (by decide)
    · exact absurd htype (by decide)
    · have hother := hjoin.unique ⟨data, Json.ok_of_toOption hdata, hnamed⟩
      rw [eq_of_beq hcode, hother] at hown
      exact absurd hown (by decide)
    · exact absurd htype (by decide)

end SocketChat
