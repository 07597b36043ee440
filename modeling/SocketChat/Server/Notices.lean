/-
What the members of a room are told.

A client that keeps the set of the other members, starting with those it finds when it
enters, has to hear of everybody who comes and goes.  `Watched` runs the server together
with such a set for every client, and `informed_iff_announced` gives the exact condition
on the events of a run under which every set stays right: nobody is disconnected inside a
room or has another one created while somebody is with it, notices fit their packets, and
no room lists a client that is in another.
-/
import SocketChat.Client.PacketHandler
import SocketChat.Json.Cut
import SocketChat.Server.Answers
import SocketChat.Server.RoomLeaks

namespace SocketChat

/-! ### Sets of members -/

namespace Server

/-- The room client `fd` is in, by its record. -/
def roomOf (s : Server) (fd : Fd) : Option Bytes := (s.client? fd).bind ClientInfo.room?

/-- The connected clients that are in room `code`, by their records. -/
def members (s : Server) (code : Bytes) : Finset Fd :=
  s.clientManager.clients.keys.filter fun fd => s.roomOf fd = some code

/-- Nobody else is in the room client `fd` is in. -/
def Alone (s : Server) (fd : Fd) : Prop :=
  ∀ g code, g ≠ fd → s.roomOf g = some code → s.roomOf fd ≠ some code

end Server

/-- What a client makes of a packet, reading it with `ParseMessagePacket`. -/
def applyNotice (json : Nlohmann) (view : Finset Fd) (packet : Packet) : Finset Fd :=
  match Client.parseMessagePacket json packet with
  | .ok message =>
    match message.type with
    | .userJoin => insert message.senderFd view
    | .userExit => view.erase message.senderFd
    | _ => view
  | .error _ => view

/-- The server, and for every client that is in a room the set of others it has been told
of. -/
structure Watched where
  server : Server
  view : Fd → Finset Fd

namespace Watched

def init (codes : CodeStream) : Watched := ⟨Server.init codes, fun _ => ∅⟩

/-- The set of client `m` after a step to `s'`: a client that has entered a room starts
with the other members, one that was there already applies what it is sent. -/
def see (json : Nlohmann) (w : Watched) (s' : Server) (m : Fd) : Finset Fd :=
  match s'.roomOf m with
  | none => ∅
  | some code =>
    if w.server.roomOf m = some code then (s'.sentTo m).foldl (applyNotice json) (w.view m)
    else (s'.members code).erase m

/-- One event, executed to completion. -/
def step (json : Nlohmann) (w : Watched) (e : Event) : Option Watched :=
  (w.server.step json e).map fun s' => ⟨s', w.see json s'⟩

/-- Every client in a room has the set of the other connected clients in that room. -/
def Informed (w : Watched) : Prop :=
  ∀ m code, w.server.roomOf m = some code → w.view m = (w.server.members code).erase m

end Watched

/-- The text of a notice about client `fd` fits a packet. -/
def NoticeFits (json : Nlohmann) (s : Server) (fd : Fd) : Prop :=
  ∀ info t, s.client? fd = some info → json.dump (userJson fd info.nickname) = .ok t →
    t.length ≤ maxPayloadSize

/-- The packet takes its client, which is in no room, into `room`. -/
def JoinsRoom (json : Nlohmann) (s : Server) (fd : Fd) (p : Packet) (code : Bytes)
    (room : Room) : Prop :=
  p.type = PacketType.joinRoom ∧ AsksToJoin json p code ∧ s.client? fd ≠ none ∧
    s.roomOf fd = none ∧ s.room? code = some room ∧
    room.clients.length < sizeOfInt room.maxUserCnt ∧ fd ∉ room.clients

/-- Whoever is disconnected or has a room created is alone in the room it is in; whoever
exits a room is alone there or the notice fits; whoever joins one finds that it lists
nobody who is in another room, or, when the notice does not fit, nobody who is in it. -/
def Event.Announced (json : Nlohmann) (s : Server) : Event → Prop
  | .accept _ _ _ => True
  | .packet fd p _ =>
    (CreatesRoom json s p → s.Alone fd) ∧
    (∀ code, ExitsFrom json s fd p code → NoticeFits json s fd ∨ s.Alone fd) ∧
    ∀ code room, JoinsRoom json s fd p code room → ∀ g ∈ room.clients, ∀ other,
      s.roomOf g = some other → (other = code ↔ NoticeFits json s fd)
  | .close fd => s.Alone fd

variable {json : Nlohmann} {now : LocalTime} {s s' : Server} {fd g : Fd} {info : ClientInfo}
  {p : Packet} {e : Event} {code nickname : Bytes}

/-! ### Reading a notice -/

open Client

theorem type_readMessage {message : Message} (h : readMessage json p = .ok message) :
    message.type = messageType p.type := by
  have hbind : ∀ {α : Type} {x : Except Json.Error α} {f : α → Except Json.Error Message},
      x >>= f = .ok message → ∃ a, f a = .ok message := by
    intro α x f hx
    cases x with
    | error e => cases hx
    | ok a => exact ⟨a, hx⟩
  unfold readMessage at h
  obtain ⟨data, h⟩ := hbind h
  obtain ⟨timestamp, h⟩ := hbind h
  obtain ⟨nickname, h⟩ := hbind h
  obtain ⟨ip, h⟩ := hbind h
  obtain ⟨content, h⟩ := hbind h
  obtain ⟨sender_fd, h⟩ := hbind h
  by_cases hnotice : messageType p.type = .userJoin ∨ messageType p.type = .userExit
  · rw [if_pos hnotice] at h
    obtain ⟨nickname, h⟩ := hbind h
    obtain ⟨client_fd, h⟩ := hbind h
    cases h
    rfl
  · rw [if_neg hnotice] at h
    cases h
    rfl

theorem type_parseMessagePacket {message : Message}
    (h : parseMessagePacket json p = .ok message) :
    message.type = messageType p.type ∨ message.type = .chat := by
  rw [parseMessagePacket] at h
  cases hread : readMessage json p with
  | ok m =>
    rw [hread] at h
    cases h
    exact Or.inl (type_readMessage hread)
  | error e =>
    rw [hread] at h
    by_cases hkind : e.kind = .parseError
    · simp only [if_pos hkind] at h
      cases h
      exact Or.inr rfl
    · simp only [if_neg hkind] at h
      cases h

/-- Only notices change the set. -/
theorem applyNotice_other (view : Finset Fd) (hjoin : p.type ≠ PacketType.roomUserJoin)
    (hexit : p.type ≠ PacketType.roomUserExit) : applyNotice json view p = view := by
  have hmessage : messageType p.type = .system ∨ messageType p.type = .chat := by
    rw [messageType, if_neg hjoin, if_neg hexit]
    by_cases hsystem : p.type = PacketType.messageSystem
    · rw [if_pos hsystem]
      exact Or.inl rfl
    · rw [if_neg hsystem]
      exact Or.inr rfl
  rw [applyNotice]
  cases hparse : parseMessagePacket json p with
  | error e => rfl
  | ok message =>
    have htype : message.type = .system ∨ message.type = .chat := by
      rcases type_parseMessagePacket hparse with h | h
      · rw [h]
        exact hmessage
      · exact Or.inr h
    rcases htype with h | h
    · simp only [h]
    · simp only [h]

theorem foldl_applyNotice_other {packets : List Packet} (view : Finset Fd)
    (h : ∀ p ∈ packets, p.type ≠ PacketType.roomUserJoin ∧ p.type ≠ PacketType.roomUserExit) :
    packets.foldl (applyNotice json) view = view := by
  induction packets with
  | nil => rfl
  | cons p packets ih =>
    obtain ⟨hjoin, hexit⟩ := h p List.mem_cons_self
    rw [List.foldl_cons, applyNotice_other view hjoin hexit]
    exact ih fun q hq => h q (List.mem_cons_of_mem p hq)

/-- A notice that is read. -/
theorem parseMessagePacket_notice
    (htype : messageType p.type = .userJoin ∨ messageType p.type = .userExit)
    (hparse : json.parse p.text = .ok (userJson fd nickname)) :
    ∃ message, parseMessagePacket json p = .ok message ∧
      message.type = messageType p.type ∧ message.senderFd = fd ∧
      message.senderNickname = if nickname = [] then str "Anonymous" else nickname := by
  have hname : (userJson fd nickname).field? (str "nickname") =
      some (.string (if nickname = [] then str "Anonymous" else nickname)) := by
    simp only [userJson, Json.field?_ofFields]
    rfl
  have hfd : (userJson fd nickname).field? (str "clientFd") =
      some (.numberInteger fd.toInt) := by
    simp only [userJson, Json.field?_ofFields]
    rfl
  -- the fields of a chat message are missing, which gives their defaults
  have htimestamp : Nlohmann.valueString (userJson fd nickname) (str "timestamp") [] = .ok [] := rfl
  have hsender : Nlohmann.valueString (userJson fd nickname) (str "sender_nickname") [] =
      .ok [] := rfl
  have hip : Nlohmann.valueString (userJson fd nickname) (str "sender_ip") [] = .ok [] := rfl
  have hcontent : Nlohmann.valueString (userJson fd nickname) (str "message") [] = .ok [] := rfl
  have hsenderFd : json.valueInt (userJson fd nickname) (str "sender_fd") (-1) = .ok (-1) := rfl
  have hread : readMessage json p = .ok ⟨if nickname = [] then str "Anonymous" else nickname, [],
      [], [], fd, messageType p.type⟩ := by
    simp only [readMessage, hparse, bind, Except.bind, htimestamp, hsender, hip, hcontent,
      hsenderFd, if_pos htype, Nlohmann.valueString_of_field hname, json.valueInt_of_field hfd,
      Int32.ofInt_toInt]
    rfl
  rw [parseMessagePacket, hread]
  exact ⟨_, rfl, rfl, rfl, rfl⟩

/-- The text of a notice: whole when it fits, and otherwise cut off. -/
theorem text_userNotice (h : s.client? fd = some info) {type : PacketType} {notice : Packet}
    (hnotice : userNotice json type fd info.nickname = .ok notice) :
    ∃ t, json.dump (userJson fd info.nickname) = .ok t ∧ notice.type = type ∧
      notice.text = t.take maxPayloadSize ∧ (NoticeFits json s fd ↔ t.length ≤ maxPayloadSize) := by
  obtain ⟨t, hdump, rfl⟩ := userNotice_eq_ok.mp hnotice
  refine ⟨t, hdump, rfl, Packet.text_ofText (List.length_take_le _ _), fun hfits => ?_, ?_⟩
  · exact hfits info t h hdump
  · intro hlength info' t' h' hdump'
    rw [h, Option.some_inj] at h'
    rw [← h', hdump, Except.ok.injEq] at hdump'
    exact hdump' ▸ hlength

/-- A notice that fits is read whole. -/
theorem parse_userNotice (hjson : json.Lawful) (h : s.client? fd = some info)
    (hname : info.nickname.utf8 = true) {type : PacketType} {notice : Packet}
    (hnotice : userNotice json type fd info.nickname = .ok notice)
    (hfits : NoticeFits json s fd) :
    json.dump (userJson fd info.nickname) = .ok notice.text ∧
      json.parse notice.text = .ok (userJson fd info.nickname) := by
  obtain ⟨t, hdump, -, htext, hiff⟩ := text_userNotice h hnotice
  rw [htext, List.take_of_length_le (hiff.mp hfits)]
  exact ⟨hdump, hjson.parse_dump (valid_userJson json fd hname) hdump⟩

/-- One that was cut off is not read at all. -/
theorem readMessage_cut (hcut : json.RejectsCut) (h : s.client? fd = some info)
    (hname : info.nickname.utf8 = true) {type : PacketType} {notice : Packet}
    (hnotice : userNotice json type fd info.nickname = .ok notice)
    (hlong : ¬ NoticeFits json s fd) : ∃ e, readMessage json notice = .error e := by
  obtain ⟨t, hdump, -, htext, hiff⟩ := text_userNotice h hnotice
  obtain ⟨e, herror⟩ : ∃ e, json.parse (t.take maxPayloadSize) = .error e :=
    hcut _ t maxPayloadSize (valid_userJson json fd hname) hdump
      (Nat.lt_of_not_le fun hlength => hlong (hiff.mpr hlength))
  refine ⟨e, ?_⟩
  rw [readMessage, htext, herror]
  rfl

/-- What a notice that is read does to the set. -/
def noticeEffect (type : PacketType) (fd : Fd) (view : Finset Fd) : Finset Fd :=
  if type = PacketType.roomUserJoin then insert fd view else view.erase fd

/-- A notice changes the set as it should when its text fits, and not at all when the
text was cut off. -/
theorem applyNotice_userNotice (hjson : json.Lawful) (hcut : json.RejectsCut)
    {type : PacketType} (htype : type = PacketType.roomUserJoin ∨ type = PacketType.roomUserExit)
    (h : s.client? fd = some info) (hname : info.nickname.utf8 = true) {notice : Packet}
    (hnotice : userNotice json type fd info.nickname = .ok notice) (view : Finset Fd) :
    (NoticeFits json s fd → applyNotice json view notice = noticeEffect type fd view) ∧
      (¬ NoticeFits json s fd → applyNotice json view notice = view) := by
  obtain ⟨-, -, hkind, -, -⟩ := text_userNotice h hnotice
  constructor
  · intro hfits
    obtain ⟨-, hparse⟩ := parse_userNotice hjson h hname hnotice hfits
    have hmessage : messageType notice.type = .userJoin ∨ messageType notice.type = .userExit := by
      rw [hkind]
      rcases htype with rfl | rfl
      · exact Or.inl rfl
      · exact Or.inr rfl
    obtain ⟨message, hread, hread', hsender, -⟩ := parseMessagePacket_notice hmessage hparse
    rw [hkind] at hread'
    rw [applyNotice, hread]
    rcases htype with rfl | rfl
    · have hjoin : message.type = .userJoin := hread'
      simp only [hjoin, hsender]
      rfl
    · have hexit : message.type = .userExit := hread'
      simp only [hexit, hsender]
      rfl
  · intro hlong
    obtain ⟨e, hread⟩ := readMessage_cut hcut h hname hnotice hlong
    rw [applyNotice, parseMessagePacket, hread]
    by_cases herror : e.kind = .parseError
    · simp only [if_pos herror, Message.empty]
    · simp only [if_neg herror]

/-! ### What one step tells whom -/

theorem Server.mem_members : g ∈ s.members code ↔ s.roomOf g = some code := by
  rw [members, Finset.mem_filter, Table.mem_keys_iff]
  refine ⟨fun h => h.2, fun h => ⟨?_, h⟩⟩
  obtain ⟨client, hclient, -⟩ := Option.bind_eq_some_iff.mp h
  exact Option.isSome_iff_exists.mpr ⟨client, hclient⟩

theorem Server.roomOf_of_client (h : s.client? fd = some info) : s.roomOf fd = info.room? := by
  rw [roomOf, h, Option.bind_some]

theorem Server.place_iff_roomOf : s.roster.place g = some (some code) ↔ s.roomOf g = some code := by
  show (s.client? g).map ClientInfo.room? = some (some code) ↔ _
  rw [roomOf]
  cases s.client? g with
  | none => simp
  | some client => simp

/-- One packet sent to everybody in a list reaches each once. -/
theorem sentTo_map {l : List Fd} (hnodup : l.Nodup) (packet : Packet) (g : Fd) :
    ((l.map (·, packet)).filter fun x => x.1 = g).map Prod.snd =
      if g ∈ l then [packet] else [] := by
  induction l with
  | nil => rfl
  | cons a l ih =>
    obtain ⟨hout, hnodup⟩ := List.nodup_cons.mp hnodup
    rw [List.map_cons, List.filter_cons]
    by_cases ha : a = g
    · subst ha
      have hrest : ((l.map (·, packet)).filter fun x => x.1 = a).map Prod.snd = [] := by
        rw [ih hnodup, if_neg hout]
      simp only [decide_true, if_true, List.map_cons, hrest, List.mem_cons_self]
    · have hmem : g ∈ a :: l ↔ g ∈ l := by
        rw [List.mem_cons]
        exact ⟨fun h => h.resolve_left fun heq => ha heq.symm, Or.inr⟩
      rw [if_neg (by simpa using ha), ih hnodup]
      simp only [hmem]

/-- Client `fd` is in room `place` afterwards, everybody else where it was. -/
def Server.Moved (s s' : Server) (fd : Fd) (place : Option Bytes) : Prop :=
  ∀ g, s'.roomOf g = if g = fd then place else s.roomOf g

theorem Server.roomOf_eq_join (s : Server) (g : Fd) :
    s.roomOf g = (s.clientManager.place g).join := by
  rw [roomOf, ClientManager.place]
  show (s.clientManager.getClient g).bind _ = _
  cases s.clientManager.getClient g with
  | none => rfl
  | some client => rfl

theorem Server.moved_setClient {client : ClientInfo}
    (h : s'.clientManager = s.clientManager.setClient fd client) :
    s.Moved s' fd client.room? := by
  intro g
  rw [roomOf_eq_join, roomOf_eq_join, h, ClientManager.place_setClient]
  by_cases hg : g = fd
  · rw [if_pos hg, hg, Function.update_self]
    rfl
  · rw [if_neg hg, Function.update_of_ne hg]

theorem Server.moved_removeClient (h : s'.clientManager = s.clientManager.removeClient fd) :
    s.Moved s' fd none := by
  intro g
  rw [roomOf_eq_join, roomOf_eq_join, h, ClientManager.place_removeClient]
  by_cases hg : g = fd
  · rw [if_pos hg, hg, Function.update_self]
    rfl
  · rw [if_neg hg, Function.update_of_ne hg]

variable {view : Fd → Finset Fd} {place : Option Bytes}

theorem Watched.see_stay {m : Fd} (hroom : s.roomOf m = some code)
    (hroom' : s'.roomOf m = some code) :
    Watched.see json ⟨s, view⟩ s' m = (s'.sentTo m).foldl (applyNotice json) (view m) := by
  rw [see, hroom']
  exact if_pos hroom

theorem Watched.see_enter {m : Fd} (hroom : s.roomOf m ≠ some code)
    (hroom' : s'.roomOf m = some code) :
    Watched.see json ⟨s, view⟩ s' m = (s'.members code).erase m := by
  rw [see, hroom']
  exact if_neg hroom

/-- A step in which nobody moves and no notice is sent. -/
theorem Watched.Informed.quiet (hw : Watched.Informed ⟨s, view⟩)
    (hroom : ∀ g, s'.roomOf g = s.roomOf g)
    (hsent : ∀ x ∈ s'.sent, x.2.type ≠ PacketType.roomUserJoin ∧
      x.2.type ≠ PacketType.roomUserExit) :
    Watched.Informed ⟨s', Watched.see json ⟨s, view⟩ s'⟩ := by
  intro m code hm
  have hm : s'.roomOf m = some code := hm
  have hbefore : s.roomOf m = some code := (hroom m).symm.trans hm
  have hmembers : s'.members code = s.members code := by
    ext g
    rw [Server.mem_members, Server.mem_members, hroom]
  show Watched.see json ⟨s, view⟩ s' m = (s'.members code).erase m
  rw [Watched.see_stay hbefore hm, hmembers, foldl_applyNotice_other _ fun packet hpacket => ?_]
  · exact hw m code hbefore
  · obtain ⟨x, hx, rfl⟩ := List.mem_map.mp hpacket
    exact hsent x (List.mem_of_mem_filter hx)

/-- A step in which client `fd` alone moves: it has the right set afterwards, and everybody
else has if it makes the right set of what it is sent. -/
theorem Watched.Informed.moved_iff (hw : Watched.Informed ⟨s, view⟩)
    (hmoved : s.Moved s' fd place) (hplace : ∀ code, place = some code → s.roomOf fd ≠ some code) :
    Watched.Informed ⟨s', Watched.see json ⟨s, view⟩ s'⟩ ↔
      ∀ m code, m ≠ fd → s.roomOf m = some code →
        (s'.sentTo m).foldl (applyNotice json) ((s.members code).erase m) =
          (s'.members code).erase m := by
  constructor
  · intro hinformed m code hm hroom
    have hroom' : s'.roomOf m = some code := by
      rw [hmoved, if_neg hm]
      exact hroom
    have hview : view m = (s.members code).erase m := hw m code hroom
    have hsee : Watched.see json ⟨s, view⟩ s' m = (s'.members code).erase m :=
      hinformed m code hroom'
    rwa [Watched.see_stay hroom hroom', hview] at hsee
  · intro hothers m code hroom'
    have hroom' : s'.roomOf m = some code := hroom'
    show Watched.see json ⟨s, view⟩ s' m = (s'.members code).erase m
    by_cases hm : m = fd
    · have hentered : place = some code := by
        rw [hmoved, if_pos hm] at hroom'
        exact hroom'
      exact Watched.see_enter (hm ▸ hplace code hentered) hroom'
    · have hroom : s.roomOf m = some code := by
        rw [hmoved, if_neg hm] at hroom'
        exact hroom'
      have hview : view m = (s.members code).erase m := hw m code hroom
      rw [Watched.see_stay hroom hroom', hview]
      exact hothers m code hm hroom

theorem Server.Moved.members_leave (hmoved : s.Moved s' fd place) (hplace : place ≠ some code) :
    s'.members code = (s.members code).erase fd := by
  ext g
  rw [Finset.mem_erase, Server.mem_members, Server.mem_members, hmoved]
  by_cases hg : g = fd
  · rw [if_pos hg]
    exact ⟨fun h => absurd h hplace, fun h => absurd hg h.1⟩
  · rw [if_neg hg]
    exact ⟨fun h => ⟨hg, h⟩, fun h => h.2⟩

theorem Server.Moved.members_enter (hmoved : s.Moved s' fd (some code)) :
    s'.members code = insert fd (s.members code) := by
  ext g
  rw [Finset.mem_insert, Server.mem_members, Server.mem_members, hmoved]
  by_cases hg : g = fd
  · rw [if_pos hg]
    exact ⟨fun _ => Or.inl hg, fun _ => rfl⟩
  · rw [if_neg hg]
    exact ⟨Or.inr, fun h => h.resolve_left hg⟩

/-- A client that leaves its room without a word, for another one or none. -/
theorem Watched.Informed.unannounced_iff (hw : Watched.Informed ⟨s, view⟩)
    (hmoved : s.Moved s' fd place) (hnew : ∀ g code, place = some code → s.roomOf g ≠ some code)
    (hsent : ∀ g, g ≠ fd → s'.sentTo g = []) :
    Watched.Informed ⟨s', Watched.see json ⟨s, view⟩ s'⟩ ↔ s.Alone fd := by
  rw [hw.moved_iff hmoved (hnew fd)]
  refine forall_congr' fun m => forall_congr' fun code => forall_congr' fun hm =>
    forall_congr' fun hroom => ?_
  have hplace : place ≠ some code := fun h => hnew m code h hroom
  rw [hsent m hm, List.foldl_nil, hmoved.members_leave hplace]
  constructor
  · intro hsame hfd
    have hmem : fd ∈ (s.members code).erase m :=
      Finset.mem_erase.mpr ⟨fun heq => hm heq.symm, Server.mem_members.mpr hfd⟩
    rw [hsame] at hmem
    exact (Finset.mem_erase.mp (Finset.mem_of_mem_erase hmem)).1 rfl
  · intro hfd
    rw [Finset.erase_eq_of_notMem fun hmem => hfd (Server.mem_members.mp hmem)]

/-- A client that was in no room enters one, and everybody the room lists is sent the
notice, which is read or, if it does not fit, not. -/
theorem Watched.Informed.joined_iff (hw : Watched.Informed ⟨s, view⟩) (hlive : s.roster.Live)
    (hmoved : s.Moved s' fd (some code)) (hnone : s.roomOf fd = none) {room : Room}
    (hroom : s.room? code = some room) (hout : fd ∉ room.clients) {notice : Packet} {fits : Prop}
    (hsent : ∀ m, m ≠ fd → s'.sentTo m = if m ∈ room.clients then [notice] else [])
    (hfits : fits → ∀ view, applyNotice json view notice = insert fd view)
    (hcut : ¬ fits → ∀ view, applyNotice json view notice = view) :
    Watched.Informed ⟨s', Watched.see json ⟨s, view⟩ s'⟩ ↔
      ∀ g ∈ room.clients, ∀ other, s.roomOf g = some other → (other = code ↔ fits) := by
  have habsent : ∀ c, fd ∉ s.members c := by
    intro c hmem
    rw [Server.mem_members, hnone] at hmem
    cases hmem
  have hother : ∀ {c}, c ≠ code → s'.members c = s.members c := by
    intro c hc
    rw [hmoved.members_leave (fun h => hc (Option.some.inj h).symm),
      Finset.erase_eq_of_notMem (habsent c)]
  have hlisted : ∀ m, s.roomOf m = some code → m ∈ room.clients := by
    intro m hm
    rw [← Server.listed_of_room hroom]
    exact hlive m code (Server.place_iff_roomOf.mpr hm)
  rw [hw.moved_iff hmoved fun c hc => by rw [hnone]; simp]
  constructor
  · intro h g hg other hother'
    have hne : g ≠ fd := fun heq => hout (heq ▸ hg)
    have hfold := h g other hne hother'
    rw [hsent g hne, if_pos hg, List.foldl_cons, List.foldl_nil] at hfold
    constructor
    · -- the client is new in the room of `g`, who has to read of it
      rintro rfl
      by_contra hnot
      rw [hcut hnot, hmoved.members_enter] at hfold
      have hmem : fd ∈ (insert fd (s.members other)).erase g :=
        Finset.mem_erase.mpr ⟨fun heq => hne heq.symm, Finset.mem_insert_self fd _⟩
      rw [← hfold] at hmem
      exact habsent other (Finset.mem_of_mem_erase hmem)
    · -- `g` is in another room, and must not read of it
      intro hread
      by_contra hc
      rw [hfits hread, hother hc] at hfold
      have hmem : fd ∈ (s.members other).erase g := hfold ▸ Finset.mem_insert_self fd _
      exact habsent other (Finset.mem_of_mem_erase hmem)
  · intro h m c hne hm
    rw [hsent m hne]
    by_cases hin : m ∈ room.clients
    · rw [if_pos hin, List.foldl_cons, List.foldl_nil]
      by_cases hread : fits
      · obtain rfl := (h m hin c hm).mpr hread
        rw [hfits hread, hmoved.members_enter, Finset.erase_insert_of_ne fun heq => hne heq.symm]
      · have hc : c ≠ code := fun heq => hread ((h m hin c hm).mp heq)
        rw [hcut hread, hother hc]
    · have hc : c ≠ code := fun heq => hin (hlisted m (heq ▸ hm))
      rw [if_neg hin, List.foldl_nil, hother hc]

/-- A client leaves its room, and everybody else the room lists is sent the notice. -/
theorem Watched.Informed.exited_iff (hw : Watched.Informed ⟨s, view⟩) (hlive : s.roster.Live)
    (hmoved : s.Moved s' fd none) (hin : s.roomOf fd = some code) {room : Room}
    (hroom : s.room? code = some room) {notice : Packet} {fits : Prop}
    (hsent : ∀ m, m ≠ fd → s'.sentTo m = if m ∈ room.clients then [notice] else [])
    (hfits : fits → ∀ view, applyNotice json view notice = view.erase fd)
    (hcut : ¬ fits → ∀ view, applyNotice json view notice = view) :
    Watched.Informed ⟨s', Watched.see json ⟨s, view⟩ s'⟩ ↔ fits ∨ s.Alone fd := by
  have hmembers : ∀ c, s'.members c = (s.members c).erase fd :=
    fun c => hmoved.members_leave (by simp)
  have hlisted : ∀ m, s.roomOf m = some code → m ∈ room.clients := by
    intro m hm
    rw [← Server.listed_of_room hroom]
    exact hlive m code (Server.place_iff_roomOf.mpr hm)
  rw [hw.moved_iff hmoved fun c hc => by cases hc]
  constructor
  · intro h
    by_contra hnot
    obtain ⟨hread, halone⟩ := not_or.mp hnot
    refine halone fun g c hne hg hfd => hread ?_
    -- `g` is still in the room, where it has to read of the exit
    by_contra hread
    have hcode : c = code := Option.some.inj (hfd.symm.trans hin)
    have hfold := h g c hne hg
    rw [hsent g hne, if_pos (hlisted g (hcode ▸ hg)), List.foldl_cons, List.foldl_nil,
      hcut hread, hmembers] at hfold
    have hmem : fd ∈ (s.members c).erase g :=
      Finset.mem_erase.mpr ⟨fun heq => hne heq.symm, Server.mem_members.mpr hfd⟩
    rw [hfold] at hmem
    exact (Finset.mem_erase.mp (Finset.mem_of_mem_erase hmem)).1 rfl
  · intro h m c hne hm
    rw [hsent m hne, hmembers]
    have hunread : fd ∉ s.members c →
        (s.members c).erase m = ((s.members c).erase fd).erase m := by
      intro habsent
      rw [Finset.erase_eq_of_notMem habsent]
    by_cases hlist : m ∈ room.clients
    · rw [if_pos hlist, List.foldl_cons, List.foldl_nil]
      by_cases hread : fits
      · rw [hfits hread, Finset.erase_right_comm]
      · rw [hcut hread]
        refine hunread fun hmem => ?_
        exact h.resolve_left hread m c hne hm (Server.mem_members.mp hmem)
    · rw [if_neg hlist, List.foldl_nil]
      refine hunread fun hmem => hlist (hlisted m ?_)
      rw [hm, ← Server.mem_members.mp hmem, hin]

/-! ### What a packet tells whom -/

theorem announced_create (htype : p.type = PacketType.createRoom) :
    Event.Announced json s (.packet fd p now) ↔ (CreatesRoom json s p → s.Alone fd) := by
  refine ⟨fun h => h.1, fun h => ⟨h, fun code hexits => ?_, fun code room hjoins => ?_⟩⟩
  · exact absurd (htype.symm.trans hexits.1) (by decide)
  · exact absurd (htype.symm.trans hjoins.1) (by decide)

theorem announced_exit (htype : p.type = PacketType.exitRoom) :
    Event.Announced json s (.packet fd p now) ↔
      ∀ code, ExitsFrom json s fd p code → NoticeFits json s fd ∨ s.Alone fd := by
  refine ⟨fun h => h.2.1, fun h => ⟨fun hcreates => ?_, h, fun code room hjoins => ?_⟩⟩
  · exact absurd (htype.symm.trans hcreates.1) (by decide)
  · exact absurd (htype.symm.trans hjoins.1) (by decide)

theorem announced_join (htype : p.type = PacketType.joinRoom) :
    Event.Announced json s (.packet fd p now) ↔
      ∀ code room, JoinsRoom json s fd p code room → ∀ g ∈ room.clients, ∀ other,
        s.roomOf g = some other → (other = code ↔ NoticeFits json s fd) := by
  refine ⟨fun h => h.2.2, fun h => ⟨fun hcreates => ?_, fun code hexits => ?_, h⟩⟩
  · exact absurd (htype.symm.trans hcreates.1) (by decide)
  · exact absurd (htype.symm.trans hexits.1) (by decide)

/-- An answer to client `fd` alone. -/
theorem sentTo_answer {answer : Packet} (hsent : s'.sent = [(fd, answer)]) {m : Fd}
    (hm : m ≠ fd) : s'.sentTo m = [] := by
  rw [Server.sentTo, hsent, List.filter_cons_of_neg (by simpa using Ne.symm hm)]
  rfl

/-- A notice to a list of clients, and an answer to client `fd`. -/
theorem sentTo_notice {l : List Fd} (hnodup : l.Nodup) {notice answer : Packet}
    (hsent : s'.sent = l.map (·, notice) ++ [(fd, answer)]) {m : Fd} (hm : m ≠ fd) :
    s'.sentTo m = if m ∈ l then [notice] else [] := by
  rw [Server.sentTo, hsent, List.filter_append,
    List.filter_cons_of_neg (by simpa using Ne.symm hm), List.filter_nil, List.append_nil]
  exact sentTo_map hnodup notice m

/-- The answer to a request is no notice. -/
theorem failType_ne_notice (type : PacketType) :
    failType type ≠ PacketType.roomUserJoin ∧ failType type ≠ PacketType.roomUserExit := by
  rw [failType]
  by_cases hnick : type = PacketType.nicknameRequest
  · rw [if_pos hnick]
    decide
  by_cases hcreate : type = PacketType.createRoom
  · rw [if_neg hnick, if_pos hcreate]
    decide
  by_cases hjoin : type = PacketType.joinRoom
  · rw [if_neg hnick, if_neg hcreate, if_pos hjoin]
    decide
  · rw [if_neg hnick, if_neg hcreate, if_neg hjoin]
    decide

theorem createAnswer_ne_notice (json : Nlohmann) (code : Bytes) :
    (RoomHandler.createAnswer json code).type ≠ PacketType.roomUserJoin ∧
      (RoomHandler.createAnswer json code).type ≠ PacketType.roomUserExit := by
  rcases type_createAnswer json code with h | h
  · rw [h]
    decide
  · rw [h]
    decide

/-- The creator of a room. -/
theorem Watched.Informed.createRoom_iff (hw : Watched.Informed ⟨s, view⟩)
    (hlive : s.roster.Live) (hne : code ≠ []) (hfresh : s.room? code = none)
    (hclients : s'.clientManager = s.clientManager.setClient fd { info with roomCode := code })
    {answer : Packet} (hsent : s'.sent = [(fd, answer)]) :
    Watched.Informed ⟨s', Watched.see json ⟨s, view⟩ s'⟩ ↔ s.Alone fd := by
  have hplace : ClientInfo.room? { info with roomCode := code } = some code :=
    ClientInfo.room?_eq_some.mpr ⟨rfl, hne⟩
  refine hw.unannounced_iff (Server.moved_setClient hclients) ?_ fun g hg => sentTo_answer hsent hg
  -- a room nobody knew has no members
  intro g c hc hg
  obtain rfl : code = c := Option.some.inj (hplace.symm.trans hc)
  obtain ⟨room, hroom, -⟩ := Server.mem_listed.mp
    (hlive g code (Server.place_iff_roomOf.mpr hg))
  rw [hfresh] at hroom
  cases hroom

/-- A client that joins a room. -/
theorem Watched.Informed.joinRoom_iff (hw : Watched.Informed ⟨s, view⟩)
    (hjson : json.Lawful) (hcut : json.RejectsCut) (htexts : s.Texts) (hcoherent : s.Coherent)
    (h : s.client? fd = some info) (hnone : info.roomCode = []) {room : Room}
    (hroom : s.room? code = some room) (hout : fd ∉ room.clients)
    (hclients : s'.clientManager = s.clientManager.setClient fd { info with roomCode := code })
    (hsent : s'.sent = joinPackets json fd info.nickname code room.clients) :
    Watched.Informed ⟨s', Watched.see json ⟨s, view⟩ s'⟩ ↔
      ∀ g ∈ room.clients, ∀ other,
        s.roomOf g = some other → (other = code ↔ NoticeFits json s fd) := by
  have hne : code ≠ [] := fun h0 => absurd (hcoherent.keyed code room hroom).2 (by simp [h0])
  have hnowhere : s.roomOf fd = none :=
    (Server.roomOf_of_client h).trans (ClientInfo.room?_eq_none.mpr hnone)
  have hnodup : room.clients.Nodup := Server.listed_of_room hroom ▸ hcoherent.distinct code
  have hname : info.nickname.utf8 = true := htexts.names fd info h
  have hmoved : s.Moved s' fd (some code) := by
    have hplace : ClientInfo.room? { info with roomCode := code } = some code :=
      ClientInfo.room?_eq_some.mpr ⟨rfl, hne⟩
    exact hplace ▸ Server.moved_setClient hclients
  obtain ⟨response, hresponse, -⟩ :=
    roomCodeResponse_ok hjson PacketType.roomJoinOk (htexts.rooms code room hroom)
  obtain ⟨notice, hnotice, -⟩ := userNotice_ok hjson PacketType.roomUserJoin fd hname
  have hpackets : s'.sent = room.clients.map (·, notice) ++ [(fd, response)] := by
    rw [hsent, joinPackets, hresponse]
    simp only [hnotice]
  have heffect := applyNotice_userNotice hjson hcut (Or.inl rfl) h hname hnotice
  refine hw.joined_iff hcoherent.live hmoved hnowhere hroom hout
    (fun m hm => sentTo_notice hnodup hpackets hm) (fun hfits view => ?_)
    fun hnot view => (heffect view).2 hnot
  rw [(heffect view).1 hfits, noticeEffect, if_pos rfl]

/-- A client that exits its room. -/
theorem Watched.Informed.exitRoom_iff (hw : Watched.Informed ⟨s, view⟩)
    (hjson : json.Lawful) (hcut : json.RejectsCut) (htexts : s.Texts) (hcoherent : s.Coherent)
    (h : s.client? fd = some info) (hin : info.roomCode ≠ []) {notice answer : Packet}
    (hnotice : userNotice json PacketType.roomUserExit fd info.nickname = .ok notice)
    (hclients : s'.clientManager = s.clientManager.setClient fd { info with roomCode := [] })
    (hsent : s'.sent = (Handler.recipients s info.roomCode fd).map (·, notice) ++
      [(fd, answer)]) :
    Watched.Informed ⟨s', Watched.see json ⟨s, view⟩ s'⟩ ↔
      NoticeFits json s fd ∨ s.Alone fd := by
  have hcode : s.roomOf fd = some info.roomCode :=
    (Server.roomOf_of_client h).trans (ClientInfo.room?_eq_some.mpr ⟨rfl, hin⟩)
  have hmoved : s.Moved s' fd none := by
    have hplace : ClientInfo.room? { info with roomCode := [] } = none :=
      ClientInfo.room?_eq_none.mpr rfl
    exact hplace ▸ Server.moved_setClient hclients
  obtain ⟨room, hroom, -⟩ := Server.mem_listed.mp
    (hcoherent.live fd info.roomCode (Server.place_iff_roomOf.mpr hcode))
  have hnodup : room.clients.Nodup :=
    Server.listed_of_room hroom ▸ hcoherent.distinct info.roomCode
  have hrecipients : Handler.recipients s info.roomCode fd =
      room.clients.filter fun g => g ≠ fd := by
    rw [Handler.recipients, hroom]
    rfl
  have heffect := applyNotice_userNotice hjson hcut (Or.inr rfl) h (htexts.names fd info h) hnotice
  refine hw.exited_iff hcoherent.live hmoved hcode hroom (fun m hm => ?_)
    (fun hfits view => ?_) fun hnot view => (heffect view).2 hnot
  · rw [hrecipients] at hsent
    rw [sentTo_notice (hnodup.filter _) hsent hm]
    have hmem : m ∈ room.clients.filter (fun g => g ≠ fd) ↔ m ∈ room.clients := by
      simp [hm]
    simp only [hmem]
  · rw [(heffect view).1 hfits, noticeEffect, if_neg (by decide)]

/-- A packet that asks for no change of rooms has nothing to announce. -/
theorem announced_of_other (hcreate : p.type ≠ PacketType.createRoom)
    (hexit : p.type ≠ PacketType.exitRoom) (hjoin : p.type ≠ PacketType.joinRoom) :
    Event.Announced json s (.packet fd p now) :=
  ⟨fun hc => absurd hc.1 hcreate, fun _ hc => absurd hc.1 hexit,
    fun _ _ hc => absurd hc.1 hjoin⟩

/-- Nor has a request that is refused. -/
theorem announced_of_refused (h : s.client? fd = some info)
    (hcreate : p.type = PacketType.createRoom → ∀ name max, AsksToCreate json p name max →
      ¬ (s.roomManager.rooms.size < maxRoomCnt ∧ s.roomManager.FreeCode 100))
    (hjoin : p.type = PacketType.joinRoom → ∀ code, AsksToJoin json p code →
      info.roomCode ≠ [] ∨ ∀ room, s.room? code = some room →
        sizeOfInt room.maxUserCnt ≤ room.clients.length ∨ fd ∈ room.clients)
    (hexit : p.type = PacketType.exitRoom → info.roomCode = [] ∨
      ∃ e, userNotice json PacketType.roomUserExit fd info.nickname = .error e) :
    Event.Announced json s (.packet fd p now) := by
  refine ⟨?_, ?_, ?_⟩
  · rintro ⟨hp, hsize, hfree, name, max, hasks, -⟩
    exact absurd ⟨hsize, hfree⟩ (hcreate hp name max hasks)
  · rintro code ⟨hp, info', notice, h', hcode, hne, hnotice⟩
    rw [h, Option.some_inj] at h'
    subst h'
    rcases hexit hp with hnone | ⟨e, herror⟩
    · exact absurd (hcode.symm.trans hnone) hne
    · rw [hnotice] at herror
      cases herror
  · rintro code room ⟨hp, hasks, -, hnone, hroom, hspace, hout⟩
    rcases hjoin hp code hasks with hin | hfull
    · rw [Server.roomOf_of_client h, ClientInfo.room?_eq_none] at hnone
      exact absurd hnone hin
    · rcases hfull room hroom with hfull | hin
      · omega
      · exact absurd hin hout

/-- **What one packet does to the sets.**  After it they are right exactly when the packet
was announced to those it concerns. -/
theorem Handled.informed_iff (hjson : json.Lawful) (hcut : json.RejectsCut) (htexts : s.Texts)
    (hcoherent : s.Coherent) (hsent : s.sent = []) (h : s.client? fd = some info)
    (hw : Watched.Informed ⟨s, view⟩) (hh : Handled json now s fd info p s') :
    Watched.Informed ⟨s', Watched.see json ⟨s, view⟩ s'⟩ ↔
      Event.Announced json s (.packet fd p now) := by
  have hname : info.nickname.utf8 = true := htexts.names fd info h
  have hroomOf : s.roomOf fd = info.room? := Server.roomOf_of_client h
  have hquiet : (∀ g, s'.roomOf g = s.roomOf g) →
      (∀ x ∈ s'.sent, x.2.type ≠ PacketType.roomUserJoin ∧
        x.2.type ≠ PacketType.roomUserExit) → Event.Announced json s (.packet fd p now) →
      (Watched.Informed ⟨s', Watched.see json ⟨s, view⟩ s'⟩ ↔
        Event.Announced json s (.packet fd p now)) :=
    fun hroom hpackets hannounced => iff_of_true (hw.quiet hroom hpackets) hannounced
  -- the one packet that is sent, to the client itself
  have hanswer : ∀ {answer : Packet}, answer.type ≠ PacketType.roomUserJoin ∧
      answer.type ≠ PacketType.roomUserExit → ∀ x ∈ s.sent ++ [(fd, answer)],
      x.2.type ≠ PacketType.roomUserJoin ∧ x.2.type ≠ PacketType.roomUserExit := by
    intro answer htype x hx
    rw [hsent, List.nil_append, List.mem_singleton] at hx
    rw [hx]
    exact htype
  cases hh with
  | ignored htype =>
    refine hquiet (fun g => rfl) ?_ (announced_of_other ?_ ?_ ?_)
    · intro x hx
      rw [hsent] at hx
      cases hx
    · exact fun hp => htype (Or.inr (Or.inl hp))
    · exact fun hp => htype (Or.inr (Or.inr (Or.inr hp)))
    · exact fun hp => htype (Or.inr (Or.inr (Or.inl hp)))
  | chat broadcast htype hauth hin hbroadcast =>
    refine hquiet (fun g => rfl) ?_ (announced_of_other ?_ ?_ ?_)
    · intro x hx
      have hx : x ∈ s.sent ++ (Handler.recipients s info.roomCode fd).map (·, broadcast) := hx
      rw [hsent, List.nil_append] at hx
      obtain ⟨g, -, rfl⟩ := List.mem_map.mp hx
      rw [MessageHandler.type_broadcastPacket hbroadcast]
      decide
    · rw [htype]
      decide
    · rw [htype]
      decide
    · rw [htype]
      decide
  | refused response n htype hresponse hcreate hnickname hjoin hexit =>
    exact hquiet (fun g => rfl) (hanswer (hresponse ▸ failType_ne_notice p.type))
      (announced_of_refused h hcreate hjoin hexit)
  | registered nickname htype =>
    refine hquiet (fun g => ?_) (hanswer (by decide)) (announced_of_other ?_ ?_ ?_)
    · rw [Server.roomOf_eq_join, Server.roomOf_eq_join]
      exact congrArg Option.join (congrFun (ClientManager.place_setNickname _ _ _) g)
    · rw [htype]
      decide
    · rw [htype]
      decide
    · rw [htype]
      decide
  | created name max code n k htype hasks hmax hcode hfresh hfree =>
    have hne : code ≠ [] := hcode ▸ s.roomManager.codes.code_ne_nil k
    have hcreates : CreatesRoom json s p := ⟨htype, hfree.1, hfree.2, name, max, hasks, hmax⟩
    rw [announced_create htype, forall_prop_of_true hcreates]
    exact hw.createRoom_iff hcoherent.live hne hfresh rfl
      (congrArg (· ++ [(fd, RoomHandler.createAnswer json code)]) hsent)
  | createdEmpty name code n k htype hasks hcode hfresh hfree =>
    refine hquiet (fun g => rfl) (hanswer (createAnswer_ne_notice json code)) ?_
    rw [announced_create htype]
    rintro ⟨-, -, -, name', max', hasks', hmax⟩
    exact absurd (hasks'.unique hasks).2 hmax
  | joined code room htype hasks hnone hroom hspace hout =>
    have hnowhere : s.roomOf fd = none := hroomOf.trans (ClientInfo.room?_eq_none.mpr hnone)
    have hjoins : JoinsRoom json s fd p code room :=
      ⟨htype, hasks, by simp [h], hnowhere, hroom, hspace, hout⟩
    rw [announced_join htype, hw.joinRoom_iff hjson hcut htexts hcoherent h hnone hroom hout rfl
      (congrArg (· ++ joinPackets json fd info.nickname code room.clients) hsent)]
    refine ⟨fun hlisted code' room' hjoins' => ?_, fun hall => hall code room hjoins⟩
    obtain rfl := hasks.unique hjoins'.2.1
    obtain rfl : room = room' := Option.some.inj (hroom.symm.trans hjoins'.2.2.2.2.1)
    exact hlisted
  | exited notice htype hin hnotice =>
    have hexits : ExitsFrom json s fd p info.roomCode := ⟨htype, info, notice, h, rfl, hin, hnotice⟩
    rw [announced_exit htype, hw.exitRoom_iff hjson hcut htexts hcoherent h hin hnotice rfl
      (congrArg (· ++ (Handler.recipients s info.roomCode fd).map (·, notice) ++
        [(fd, Packet.ofText PacketType.roomExitOk [])]) hsent)]
    exact ⟨fun hfits _ _ => hfits, fun hall => hall _ hexits⟩

/-! ### Runs -/

theorem Watched.step_eq_some {w w' : Watched} :
    w.step json e = some w' ↔ ∃ s', w.server.step json e = some s' ∧ w' = ⟨s', w.see json s'⟩ := by
  rw [step, Option.map_eq_some_iff]
  exact exists_congr fun s' => and_congr_right fun _ => eq_comm

theorem Watched.map_step (w : Watched) (e : Event) :
    (w.step json e).map Watched.server = w.server.step json e := by
  rw [step, Option.map_map]
  exact Option.map_id'

/-- A new connection is in no room, and is told nothing. -/
theorem accepted_quiet {ip : Bytes} {added : Bool}
    (hstep : s.step json (.accept fd ip added) = some s') :
    (∀ g, s'.roomOf g = s.roomOf g) ∧ s'.sent = [] := by
  obtain ⟨hfree, rfl⟩ := Server.step_eq_some.mp hstep
  have hfree : s.client? fd = none := hfree
  show (∀ g, (ConnectionManager.acceptNewConnection _ fd ip added).roomOf g = _) ∧
    (ConnectionManager.acceptNewConnection _ fd ip added).sent = _
  rw [ConnectionManager.acceptNewConnection]
  by_cases hadd : 0 < fd ∧ added = true
  · rw [if_pos hadd]
    refine ⟨fun g => ?_, rfl⟩
    show ((s.clientManager.addClient fd ip).getClient g).bind ClientInfo.room? = _
    rw [ClientManager.getClient_addClient]
    by_cases hg : g = fd
    · rw [if_pos hg, hg, Server.roomOf, hfree]
      rfl
    · rw [if_neg hg]
      rfl
  · rw [if_neg hadd]
    exact ⟨fun g => rfl, rfl⟩

/-- After a step the sets are right exactly when it was announced to those it concerns. -/
theorem Watched.Informed.step_iff (hjson : json.Lawful) (hcut : json.RejectsCut) {w w' : Watched}
    (htexts : w.server.Texts) (hcoherent : w.server.Coherent) (hw : w.Informed)
    (hstep : w.step json e = some w') : w'.Informed ↔ e.Announced json w.server := by
  obtain ⟨s', hserver, rfl⟩ := Watched.step_eq_some.mp hstep
  cases e with
  | packet fd p now =>
    obtain ⟨info, h, hh⟩ := handled_of_step hserver
    exact hh.informed_iff (s := { w.server with sent := [] }) hjson hcut
      ⟨htexts.codes, htexts.rooms, htexts.names⟩
      ⟨hcoherent.keyed, hcoherent.live, hcoherent.distinct⟩ rfl h hw
  | accept fd ip added =>
    obtain ⟨hroom, hsent⟩ := accepted_quiet hserver
    refine iff_of_true (hw.quiet hroom fun x hx => ?_) trivial
    rw [hsent] at hx
    cases hx
  | close fd =>
    obtain ⟨-, rfl⟩ := Server.step_eq_some.mp hserver
    exact hw.unannounced_iff (Server.moved_removeClient rfl) (fun g c hc => by cases hc)
      fun g hg => rfl

theorem Watched.informed_init (codes : CodeStream) : (Watched.init codes).Informed := by
  intro m code hm
  have hm : ((Server.init codes).client? m).bind ClientInfo.room? = some code := hm
  rw [Server.client?_init] at hm
  cases hm

/-- **Every client knows who is in its room in exactly the runs whose events are announced
to those they concern.** -/
theorem informed_iff_announced (json : Nlohmann) (hjson : json.Lawful) (hcut : json.RejectsCut)
    (dis : ℕ → Fin 62) (events : List Event) (final : Server)
    (hrun : Transition.runFrom (Server.step json) (Server.init (CodeStream.ofIndices dis)) events =
      some final) :
    (∀ w, Transition.Visits (Watched.step json) (Watched.init (CodeStream.ofIndices dis)) events w →
        w.Informed) ↔
      ∀ s e, Transition.Takes (Server.step json) (Server.init (CodeStream.ofIndices dis)) events
        s e →
        e.Announced json s := by
  -- what the clients have seen is a ghost: the runs of the server are the same
  have hghost : ∀ w e, (Watched.step json w e).map Watched.server = Server.step json w.server e :=
    fun w e => w.map_step e
  obtain ⟨last, hlast, -⟩ : ∃ w, Transition.runFrom (Watched.step json)
      (Watched.init (CodeStream.ofIndices dis)) events = some w ∧ w.server = final :=
    Option.map_eq_some_iff.mp ((Transition.runFrom_map hghost _ _).trans hrun)
  have hiff := Transition.visits_iff_takes
    (J := fun w : Watched => w.server.Texts ∧ w.server.Coherent ∧ w.Informed)
    (P := Watched.Informed) (G := fun w e => e.Announced json w.server) (fun w hw => hw.2.2)
    (fun w e w' ⟨htexts, hcoherent, hw⟩ he hstep => by
      obtain ⟨s', hserver, hw'⟩ := Watched.step_eq_some.mp hstep
      refine ⟨?_, ?_, (hw.step_iff hjson hcut htexts hcoherent hstep).mpr he⟩
      · rw [hw']
        exact htexts.step hjson hserver
      · rw [hw']
        exact hcoherent.step hserver)
    (fun w e w' ⟨htexts, hcoherent, hw⟩ he hstep hw' =>
      he ((hw.step_iff hjson hcut htexts hcoherent hstep).mp hw')) hlast
    ⟨Server.texts_init dis, Server.coherent_init _, Watched.informed_init _⟩
  -- and so are their steps
  have hsame : ∀ s e, Transition.Takes (Server.step json)
      (Watched.init (CodeStream.ofIndices dis)).server events s e ↔ ∃ w : Watched, w.server = s ∧
        Transition.Takes (Watched.step json) (Watched.init (CodeStream.ofIndices dis)) events w e :=
    fun s e => Transition.takes_map hghost
  rw [hiff]
  constructor
  · intro h s e htakes
    obtain ⟨w, hw, hwatched⟩ := (hsame s e).mp htakes
    exact hw ▸ h w e hwatched
  · intro h w e htakes
    exact h w.server e ((hsame w.server e).mpr ⟨w, rfl, htakes⟩)

theorem informed_iff_announced_twoInRoom :
    (∀ w, Transition.Visits (Watched.step Nlohmann.integral) (Watched.init CodeStream.inOrder)
        twoInRoom w → w.Informed) ↔
      ∀ s e, Transition.Takes (Server.step Nlohmann.integral) (Server.init CodeStream.inOrder)
        twoInRoom s e → e.Announced Nlohmann.integral s := by
  have hpossible : (Transition.runFrom (Server.step Nlohmann.integral)
      (Server.init CodeStream.inOrder) twoInRoom).isSome = true := by
    decide +kernel
  exact informed_iff_announced Nlohmann.integral Nlohmann.lawful_integral
    Nlohmann.rejectsCut_integral CodeStream.indicesInOrder twoInRoom _
    (Option.some_get hpossible).symm

/-- Client 5 still counts on client 6 after that has been disconnected, and after it has
had another room created. -/
theorem not_informed :
    (∃ w, Transition.Visits (Watched.step Nlohmann.integral) (Watched.init CodeStream.inOrder)
      (twoInRoom ++ [.close 6]) w ∧ ¬ w.Informed) ∧
    ∃ w, Transition.Visits (Watched.step Nlohmann.integral) (Watched.init CodeStream.inOrder)
      (twoInRoom ++ [createRoomEvent 6]) w ∧ ¬ w.Informed := by
  -- client 5 is in the room, and has client 6 in its set, who is not
  have hstale : ∀ events : List Event, (Transition.runFrom (Watched.step Nlohmann.integral)
      (Watched.init CodeStream.inOrder) events).any (fun w =>
        decide (w.server.roomOf 5 = some (str "aaaaaaaa") ∧ 6 ∈ w.view 5 ∧
          w.server.roomOf 6 ≠ some (str "aaaaaaaa"))) = true →
      ∃ w, Transition.Visits (Watched.step Nlohmann.integral) (Watched.init CodeStream.inOrder)
        events w ∧ ¬ w.Informed := by
    intro events hrun
    obtain ⟨w, hvisits, hw⟩ := Transition.Visits.of_any hrun
    obtain ⟨hroom, hview, hother⟩ := of_decide_eq_true hw
    refine ⟨w, hvisits, fun hinformed => hother ?_⟩
    rw [hinformed 5 _ hroom] at hview
    exact Server.mem_members.mp (Finset.mem_of_mem_erase hview)
  constructor
  · exact hstale _ (by decide +kernel)
  · exact hstale _ (by decide +kernel)

end SocketChat
