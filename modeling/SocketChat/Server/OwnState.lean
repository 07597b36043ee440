/-
What a packet can touch.

`OnlyOwn` spells out what handling a packet of client `fd` leaves alone: the records of
all others, its own descriptor, address and receive buffer, the reserved names but for the
one it asks for, and every room but the one it creates, names or is in, where only its own
entry comes or goes.
-/
import SocketChat.Server.RoomAgreement

namespace SocketChat

/-- The room a packet of a client with record `info` is about: the one a JOIN_ROOM names,
the client's own for an EXIT_ROOM. -/
def ConcernsRoom (json : Nlohmann) (info : ClientInfo) (p : Packet) (code : Bytes) : Prop :=
  (p.type = PacketType.joinRoom ∧ AsksToJoin json p code) ∨
    (p.type = PacketType.exitRoom ∧ info.roomCode = code ∧ code ≠ [])

/-- What has become of a room a packet of client `fd` is about: it is as before, or the
client's entry is appended or taken out, or it was the last entry and the room is gone. -/
inductive OwnEntry (fd : Fd) (room : Room) : Option Room → Prop
  | kept : OwnEntry fd room (some room)
  | added (hout : fd ∉ room.clients) :
      OwnEntry fd room (some { room with clients := room.clients ++ [fd] })
  | removed {before after : List Fd} (hroom : room.clients = before ++ fd :: after)
      (hrest : before ++ after ≠ []) (hout : fd ∉ before ++ after) :
      OwnEntry fd room (some { room with clients := before ++ after })
  | deleted (hroom : room.clients = [fd]) : OwnEntry fd room none

/-- From `s` to `s'` nothing has changed but what packet `p` of client `fd` may touch. -/
structure OnlyOwn (json : Nlohmann) (s s' : Server) (fd : Fd) (info : ClientInfo) (p : Packet) :
    Prop where
  others : ∀ g, g ≠ fd → s'.client? g = s.client? g
  own : ∃ info', s'.client? fd = some info' ∧ info'.fd = info.fd ∧ info'.ip = info.ip ∧
    info'.recvBuffer = info.recvBuffer
  nicknames : s'.clientManager.nicknames = s.clientManager.nicknames ∨
    ∃ nickname, p.type = PacketType.nicknameRequest ∧ AsksForNickname json p nickname ∧
      s'.clientManager.nicknames = insert nickname s.clientManager.nicknames
  /-- At most one room is new, and only after a CREATE_ROOM. -/
  created : ∀ code room, s.room? code = none → s'.room? code = some room →
    p.type = PacketType.createRoom ∧ ∀ code', s.room? code' = none → code' ≠ code →
      s'.room? code' = none
  rooms : ∀ code room, s.room? code = some room → ¬ ConcernsRoom json info p code →
    s'.room? code = some room
  concerned : ∀ code room, s.room? code = some room → ConcernsRoom json info p code →
    OwnEntry fd room (s'.room? code)
  /-- A message, and a packet of a type the server does not know, changes nothing. -/
  other : ¬ IsRequest p.type →
    s'.clientManager = s.clientManager ∧ s'.roomManager = s.roomManager

variable {json : Nlohmann} {now : LocalTime} {s s' : Server} {fd : Fd} {info : ClientInfo}
  {p : Packet} {code : Bytes} {room : Room}

/-- After `leaveUser` a list without duplicates has lost the client's entry, and keeps the
order of the others. -/
theorem ownEntry_leaveUser (hnodup : room.clients.Nodup) (hin : fd ∈ room.clients) :
    OwnEntry fd room (if room.clients.erase fd = [] then none else some (room.leaveUser fd)) := by
  obtain ⟨before, after, hbefore, hclients, herase⟩ := List.exists_erase_eq hin
  have hout : fd ∉ before ++ after := by
    rw [hclients] at hnodup
    rw [List.mem_append]
    rintro (hfd | hfd)
    · exact hbefore hfd
    · exact (List.nodup_cons.mp hnodup.of_append_right).1 hfd
  by_cases hrest : room.clients.erase fd = []
  · rw [if_pos hrest]
    rw [herase, List.append_eq_nil_iff] at hrest
    rw [hrest.1, hrest.2] at hclients
    exact OwnEntry.deleted hclients
  · rw [if_neg hrest, Room.leaveUser, herase]
    exact OwnEntry.removed hclients (herase ▸ hrest) hout

/-- Where a room comes from, read for the rooms there were. -/
theorem Handled.ownEntry (hs : s.Coherent) (h : s.client? fd = some info)
    (hh : Handled json now s fd info p s') (hroom : s.room? code = some room) :
    s'.room? code = some room ∨
      (ConcernsRoom json info p code ∧ OwnEntry fd room (s'.room? code)) := by
  cases hh with
  | ignored | chat | refused | registered => exact Or.inl hroom
  | created name max code' n k htype hasks hmax hcode hfresh =>
    have hne : code ≠ code' := fun heq => by
      rw [heq, hfresh] at hroom
      cases hroom
    exact Or.inl ((Table.find_set_ne _ _ hne).trans hroom)
  | createdEmpty name code' n k htype hasks hcode hfresh =>
    have hne : code ≠ code' := fun heq => by
      rw [heq, hfresh] at hroom
      cases hroom
    exact Or.inl ((Table.find_set_ne _ _ hne).trans hroom)
  | joined code' room' htype hasks hnone hroom' hspace hout =>
    by_cases hcode : code = code'
    · subst hcode
      rw [hroom, Option.some_inj] at hroom'
      subst hroom'
      refine Or.inr ⟨Or.inl ⟨htype, hasks⟩, ?_⟩
      show OwnEntry fd room ((s.roomManager.rooms.set code _).find code)
      rw [Table.find_set_self]
      exact OwnEntry.added hout
    · exact Or.inl ((Table.find_set_ne _ _ hcode).trans hroom)
  | exited notice htype hin hnotice =>
    have hfind : (s.roomManager.leaveRoom fd info.roomCode).rooms.find code = _ :=
      RoomManager.find_leaveRoom _ _ _ _
    by_cases hcode : code = info.roomCode
    · subst hcode
      -- the client is on the list, once, so one entry is taken out
      have hmember : fd ∈ s.roster.listed info.roomCode :=
        hs.live fd _ (Server.place_eq_some_some.mpr ⟨info, h, rfl, hin⟩)
      have hnodup := hs.distinct info.roomCode
      rw [Server.listed_of_room hroom] at hmember hnodup
      rw [if_pos rfl, show s.roomManager.rooms.find info.roomCode = some room from hroom,
        Option.bind_some] at hfind
      refine Or.inr ⟨Or.inr ⟨htype, rfl, hin⟩, ?_⟩
      show OwnEntry fd room ((s.roomManager.leaveRoom fd info.roomCode).rooms.find info.roomCode)
      rw [hfind]
      exact ownEntry_leaveUser hnodup hmember
    · rw [if_neg hcode] at hfind
      exact Or.inl (hfind.trans hroom)

theorem Handled.nicknames (h : s.client? fd = some info)
    (hh : Handled json now s fd info p s') :
    s'.clientManager.nicknames = s.clientManager.nicknames ∨
      ∃ nickname, p.type = PacketType.nicknameRequest ∧ AsksForNickname json p nickname ∧
        s'.clientManager.nicknames = insert nickname s.clientManager.nicknames := by
  cases hh with
  | registered nickname htype hasks =>
    refine Or.inr ⟨nickname, htype, hasks, ?_⟩
    show (s.clientManager.setNickname fd nickname).nicknames = _
    rw [ClientManager.setNickname, show s.clientManager.getClient fd = some info from h]
  | _ => exact Or.inl rfl

/-- A room that was not there is the one the packet has created. -/
theorem Handled.onlyCreated (hh : Handled json now s fd info p s') (hnone : s.room? code = none)
    (hroom : s'.room? code = some room) :
    p.type = PacketType.createRoom ∧ ∀ code', s.room? code' = none → code' ≠ code →
      s'.room? code' = none := by
  -- joining and leaving are for rooms that were there
  have hcreates : ∃ name max, CreatesFor json s p name max := by
    cases hh.roomAfter hroom with
    | kept hkept =>
      rw [hnone] at hkept
      cases hkept
    | created hcreates => exact ⟨_, _, hcreates⟩
    | joined htype hasks hroom' =>
      rw [hnone] at hroom'
      cases hroom'
    | left htype hcode hin hnotice hroom' =>
      rw [hnone] at hroom'
      cases hroom'
  obtain ⟨name, max, hcreates⟩ := hcreates
  obtain ⟨fresh, hfresh, -, hrooms⟩ := hh.exists_created hcreates
  have hfind : ∀ code', code' ≠ fresh → s'.room? code' = s.room? code' := fun code' hne => by
    rw [Server.room?, RoomManager.getRoom, hrooms]
    exact Table.find_set_ne _ _ hne
  -- no other room is new
  have hcode : code = fresh := by
    by_contra hne
    rw [hfind code hne, hnone] at hroom
    cases hroom
  subst hcode
  exact ⟨hcreates.1, fun code' hnone' hne => (hfind code' hne).trans hnone'⟩

theorem Handled.onlyOwn (hs : s.Coherent) (h : s.client? fd = some info)
    (hh : Handled json now s fd info p s') : OnlyOwn json s s' fd info p where
  others g hg := hh.client?_ne h hg
  own := by
    obtain ⟨info', h', ⟨code, rfl⟩ | ⟨nickname, -, rfl⟩⟩ := hh.exists_record h
    · exact ⟨_, h', rfl, rfl, rfl⟩
    · exact ⟨_, h', rfl, rfl, rfl⟩
  nicknames := hh.nicknames h
  created code room hnone hroom := hh.onlyCreated hnone hroom
  rooms code room hroom hother :=
    (hh.ownEntry hs h hroom).resolve_right fun hentry => hother hentry.1
  concerned code room hroom _ := by
    rcases hh.ownEntry hs h hroom with hkept | hentry
    · exact hkept ▸ OwnEntry.kept
    · exact hentry.2
  other hrequest := by
    rcases hh.of_not_isRequest hrequest with ⟨rfl, -⟩ | ⟨broadcast, -, -, -, rfl⟩
    · exact ⟨rfl, rfl⟩
    · exact ⟨rfl, rfl⟩

/-- **A packet touches only its client's own state**, in every reachable state and whatever
its type and payload. -/
theorem packet_onlyOwn (json : Nlohmann) (codes : CodeStream) (events : List Event)
    (s s' : Server)
    (hrun : Transition.runFrom (Server.step json) (Server.init codes) events = some s)
    (fd : Fd) (p : Packet) (now : LocalTime) (hstep : s.step json (.packet fd p now) = some s') :
    ∃ info, s.client? fd = some info ∧ OnlyOwn json s s' fd info p := by
  have hs : s.Coherent := Transition.runFrom_always (fun _ _ _ ht hstep => ht.step hstep) hrun
    (Server.coherent_init codes)
  obtain ⟨info, h, hh⟩ := handled_of_step hstep
  have honly := hh.onlyOwn (s := { s with sent := [] }) ⟨hs.keyed, hs.live, hs.distinct⟩ h
  exact ⟨info, h, honly.others, honly.own, honly.nicknames, honly.created, honly.rooms,
    honly.concerned, honly.other⟩

/-- Client 6 leaves the room it shares with client 5. -/
theorem packet_onlyOwn_exit : ∃ s s' info,
    Transition.runFrom (Server.step Nlohmann.integral) (Server.init CodeStream.inOrder)
      twoInRoom = some s ∧
    s.step Nlohmann.integral (exitRoomEvent 6) = some s' ∧ s.client? 6 = some info ∧
    OnlyOwn Nlohmann.integral s s' 6 info (Packet.ofText PacketType.exitRoom []) := by
  have hpossible : (Transition.runFrom (Server.step Nlohmann.integral)
      (Server.init CodeStream.inOrder) (twoInRoom ++ [exitRoomEvent 6])).isSome = true := by
    decide +kernel
  obtain ⟨s', hrun⟩ := Option.isSome_iff_exists.mp hpossible
  obtain ⟨s, hrun, hstep⟩ := Transition.runFrom_snoc.mp hrun
  obtain ⟨info, h, honly⟩ := packet_onlyOwn Nlohmann.integral CodeStream.inOrder twoInRoom s s'
    hrun 6 _ noon hstep
  exact ⟨s, s', info, hrun, hstep, h, honly⟩

end SocketChat
