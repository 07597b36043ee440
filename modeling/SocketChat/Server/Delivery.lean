/-
Who receives a chat message.

`LastEntered` tells from the history of a run alone, from requests and the answers to
them, which room a connection entered last and has not left.  A message is broadcast to
the clients its room lists, so delivery follows the history as long as the room table
does.  `delivered_exactly` shows that it does in every run whose events are `Tidy`:
nobody is disconnected inside a room, and nobody creates one while in another.
-/
import SocketChat.Json.RoundTrip
import SocketChat.Server.Membership
import SocketChat.Server.Texts

namespace SocketChat

/-! ### The history of a connection -/

/-- Client `g` is sent an answer of the given type in the step that leads to `s'`. -/
def Server.Answered (s' : Server) (g : Fd) (type : PacketType) : Prop :=
  ∃ packet, (g, packet) ∈ s'.sent ∧ packet.type = type

/-- In the step from `s` to `s'` a request of client `g` to create or join a room
succeeds, and the room is `code`: the one that is new, or the one it named. -/
def Enters (json : Nlohmann) (s : Server) (e : Event) (s' : Server) (g : Fd) (code : Bytes) :
    Prop :=
  match e with
  | .packet fd p _ => fd = g ∧
      (p.type = PacketType.createRoom ∧ s'.Answered g PacketType.roomCreateOk ∧
          s.room? code = none ∧ (s'.room? code).isSome = true ∨
        p.type = PacketType.joinRoom ∧ s'.Answered g PacketType.roomJoinOk ∧
          AsksToJoin json p code)
  | _ => False

/-- In the step to `s'` client `g` leaves its room at its own request, or the connection
is another one from here on. -/
def Leaves (e : Event) (s' : Server) (g : Fd) : Prop :=
  match e with
  | .packet fd p _ => fd = g ∧ p.type = PacketType.exitRoom ∧ s'.Answered g PacketType.roomExitOk
  | .accept fd _ _ => fd = g
  | .close fd => fd = g

/-- The most recent successful CREATE_ROOM or JOIN_ROOM of the connection on `g` was for
room `code`, and it has had no successful EXIT_ROOM since. -/
inductive LastEntered (json : Nlohmann) (init : Server) : List Event → Fd → Bytes → Prop
  | enter {events : List Event} {s s' : Server} {e : Event} {g : Fd} {code : Bytes}
      (hrun : Transition.runFrom (Server.step json) init events = some s)
      (hstep : s.step json e = some s') (henters : Enters json s e s' g code) :
      LastEntered json init (events ++ [e]) g code
  | keep {events : List Event} {s s' : Server} {e : Event} {g : Fd} {code : Bytes}
      (hrun : Transition.runFrom (Server.step json) init events = some s)
      (hstep : s.step json e = some s') (hlast : LastEntered json init events g code)
      (hnone : ∀ code', ¬ Enters json s e s' g code') (hstay : ¬ Leaves e s' g) :
      LastEntered json init (events ++ [e]) g code

variable {json : Nlohmann} {now : LocalTime} {init s s' : Server} {fd : Fd} {info : ClientInfo}
  {p : Packet}

theorem lastEntered_nil {g : Fd} {code : Bytes} : ¬ LastEntered json init [] g code := by
  intro h
  generalize hnil : ([] : List Event) = events at h
  cases h with
  | enter => exact absurd hnil (by simp)
  | keep => exact absurd hnil (by simp)

theorem lastEntered_snoc {events : List Event} {e : Event} {g : Fd} {code : Bytes}
    (hrun : Transition.runFrom (Server.step json) init events = some s)
    (hstep : s.step json e = some s') :
    LastEntered json init (events ++ [e]) g code ↔ Enters json s e s' g code ∨
      LastEntered json init events g code ∧ (∀ code', ¬ Enters json s e s' g code') ∧
        ¬ Leaves e s' g := by
  -- a run is its events but the last, and the last
  have hsame : ∀ {events' : List Event} {t t' : Server} {e' : Event},
      events ++ [e] = events' ++ [e'] →
      Transition.runFrom (Server.step json) init events' = some t → t.step json e' = some t' →
      events = events' ∧ e = e' ∧ s = t ∧ s' = t' := by
    intro events' t t' e' hsnoc hrun' hstep'
    obtain ⟨rfl, hlast⟩ := List.append_inj' hsnoc rfl
    obtain rfl : e = e' := List.singleton_injective hlast
    rw [hrun, Option.some_inj] at hrun'
    subst hrun'
    rw [hstep, Option.some_inj] at hstep'
    exact ⟨rfl, rfl, rfl, hstep'⟩
  constructor
  · intro h
    generalize hsnoc : events ++ [e] = all at h
    cases h with
    | enter hrun' hstep' henters =>
      obtain ⟨rfl, rfl, rfl, rfl⟩ := hsame hsnoc hrun' hstep'
      exact Or.inl henters
    | keep hrun' hstep' hlast hnone hstay =>
      obtain ⟨rfl, rfl, rfl, rfl⟩ := hsame hsnoc hrun' hstep'
      exact Or.inr ⟨hlast, hnone, hstay⟩
  · rintro (henters | ⟨hlast, hnone, hstay⟩)
    · exact LastEntered.enter hrun hstep henters
    · exact LastEntered.keep hrun hstep hlast hnone hstay

/-! ### What one packet changes for its own client -/

/-- A room without capacity: it was created, and admitted nobody. -/
def Server.Hollow (s : Server) (code : Bytes) : Prop :=
  ∃ room, s.room? code = some room ∧ room.maxUserCnt = 0

/-- Nobody is in a room without capacity. -/
def Server.HollowEmpty (s : Server) : Prop :=
  ∀ code room, s.room? code = some room → room.maxUserCnt = 0 → room.clients = []

/-- Joining a room means it has capacity. -/
theorem maxUserCnt_ne_zero {n : ℕ} {max : Int32} (h : n < sizeOfInt max) : max ≠ 0 := by
  rintro rfl
  exact absurd h (Nat.not_lt_zero n)

theorem Handled.hollowEmpty (hs : s.HollowEmpty) (hh : Handled json now s fd info p s') :
    s'.HollowEmpty := by
  intro code room hroom hmax
  cases hh.roomAfter hroom with
  | kept hkept => exact hs code room hkept hmax
  | created hcreates hfresh hcode hclients =>
    exact hclients.trans (if_pos hmax)
  | joined htype hasks hroom' hspace => exact absurd hmax (maxUserCnt_ne_zero hspace)
  | @left old notice htype hcode hin hnotice hroom' hrest =>
    have hnobody : old.clients = [] := hs code old hroom' hmax
    rw [hnobody] at hrest
    exact absurd (List.erase_nil fd) hrest

/-- Rooms without capacity are never deleted: nobody can leave them. -/
theorem Handled.hollow (hlive : s.roster.Live) (hs : s.HollowEmpty) (h : s.client? fd = some info)
    (hh : Handled json now s fd info p s') {code : Bytes} (hcode : s.Hollow code) :
    s'.Hollow code := by
  obtain ⟨room, hroom, hmax⟩ := hcode
  have hset : ∀ {code' : Bytes} {room' : Room}, (code = code' → room'.maxUserCnt = 0) →
      ∃ room'', (s.roomManager.rooms.set code' room').find code = some room'' ∧
        room''.maxUserCnt = 0 := by
    intro code' room' hroom'
    by_cases heq : code = code'
    · exact ⟨room', by rw [heq, Table.find_set_self], hroom' heq⟩
    · exact ⟨room, by rw [Table.find_set_ne _ _ heq]; exact hroom, hmax⟩
  cases hh with
  | ignored | chat | refused | registered => exact ⟨room, hroom, hmax⟩
  | created name max code' n k htype hasks hmax' hcode hfresh =>
    refine hset fun heq => ?_
    rw [← heq, hroom] at hfresh
    cases hfresh
  | createdEmpty => exact hset fun _ => rfl
  | joined code' room' htype hasks hnone hroom' hspace =>
    refine hset fun heq => ?_
    rw [← heq, hroom, Option.some_inj] at hroom'
    exact hroom' ▸ hmax
  | exited notice htype hin =>
    have hne : code ≠ info.roomCode := by
      -- the room of a client has a member, a hollow one has none
      rintro rfl
      have hmem := hlive fd info.roomCode
        (Server.place_eq_some_some.mpr ⟨info, h, rfl, hin⟩)
      rw [Server.listed_of_room hroom, hs _ room hroom hmax] at hmem
      exact absurd hmem List.not_mem_nil
    refine ⟨room, ?_, hmax⟩
    show (s.roomManager.leaveRoom fd info.roomCode).rooms.find code = some room
    rw [RoomManager.find_leaveRoom, if_neg hne]
    exact hroom

/-- The packet has a room created, admitting its creator or not. -/
def CreatesAny (json : Nlohmann) (s : Server) (p : Packet) : Prop :=
  p.type = PacketType.createRoom ∧ s.roomManager.rooms.size < maxRoomCnt ∧
    s.roomManager.FreeCode 100 ∧ ∃ name max, AsksToCreate json p name max

/-- Nobody is disconnected inside a room, and nobody has one created while in another. -/
def Event.Tidy (json : Nlohmann) (s : Server) : Event → Prop
  | .accept _ _ _ => True
  | .packet fd p _ => ∀ info, s.client? fd = some info → info.roomCode ≠ [] →
      ¬ CreatesAny json s p
  | .close fd => ∀ info, s.client? fd = some info → info.roomCode = []

instance (json : Nlohmann) (p : Packet) : Decidable (∃ name max, AsksToCreate json p name max) :=
  match hparse : json.parse p.text with
  | .error e => isFalse fun ⟨name, max, data, hdata, _⟩ => by
    rw [hparse] at hdata
    cases hdata
  | .ok data =>
    match hreq : RoomHandler.createRequest json data with
    | .error reason => isFalse fun ⟨name, max, data', hdata, hreq'⟩ => by
      rw [hparse] at hdata
      cases hdata
      rw [hreq] at hreq'
      cases hreq'
    | .ok (name, max) => isTrue ⟨name, max, data, hparse, hreq⟩

instance (json : Nlohmann) (s : Server) (p : Packet) : Decidable (CreatesAny json s p) :=
  inferInstanceAs (Decidable (_ ∧ _ ∧ _ ∧ _))

instance (json : Nlohmann) (s : Server) : (e : Event) → Decidable (e.Tidy json s)
  | .accept _ _ _ => isTrue trivial
  | .packet fd _ _ => inferInstanceAs (Decidable (∀ info, s.client? fd = some info → _ → _))
  | .close fd => inferInstanceAs (Decidable (∀ info, s.client? fd = some info → _))

theorem Event.Tidy.orderly {e : Event} (h : e.Tidy json s) : e.Orderly json s := by
  cases e with
  | accept fd ip added => trivial
  | packet fd p now =>
    intro info hinfo hin hcreates
    obtain ⟨hp, hsize, hfree, name, max, hasks, -⟩ := hcreates
    exact h info hinfo hin ⟨hp, hsize, hfree, name, max, hasks⟩
  | close fd => exact h

theorem AsksToJoin.unique {code code' : Bytes} (h : AsksToJoin json p code)
    (h' : AsksToJoin json p code') : code = code' := by
  obtain ⟨data, hparse, hcode⟩ := h
  obtain ⟨data', hparse', hcode'⟩ := h'
  rw [hparse] at hparse'
  cases hparse'
  rw [hcode, Option.some_inj] at hcode'
  exact hcode'

/-- A creation that succeeds enters the new room, and no other. -/
private theorem enters_created {code : Bytes} {room : Room} {clients : ClientManager}
    {codes : CodeStream} {sent : List (Fd × Packet)} (hjson : json.Lawful)
    (hp : p.type = PacketType.createRoom) (hcode : code.utf8 = true)
    (hfresh : s.room? code = none) (code' : Bytes) :
    Enters json s (.packet fd p now) ⟨clients, ⟨s.roomManager.rooms.set code room, codes⟩,
      s.accepts, sent ++ [(fd, RoomHandler.createAnswer json code)]⟩ fd code' ↔ code' = code := by
  constructor
  · rintro ⟨-, ⟨-, -, hnone, hsome⟩ | ⟨hjoin, -⟩⟩
    · by_contra hne
      have hsome : ((s.roomManager.rooms.set code room).find code').isSome = true := hsome
      rw [Table.find_set_ne _ _ hne, show s.roomManager.rooms.find code' = none from hnone] at hsome
      cases hsome
    · rw [hp] at hjoin
      exact absurd hjoin (by decide)
  · rintro rfl
    obtain ⟨response, hanswer, hresponse⟩ :=
      roomCodeResponse_ok hjson PacketType.roomCreateOk hcode
    refine ⟨rfl, Or.inl ⟨hp, ⟨response, ?_, hresponse⟩, hfresh, ?_⟩⟩
    · refine List.mem_append_right _ (List.mem_singleton.mpr ?_)
      rw [RoomHandler.createAnswer, hanswer]
    · show ((s.roomManager.rooms.set code' room).find code').isSome = true
      rw [Table.find_set_self]
      rfl

/-- What a tidy packet does to the history of its client and to the client's place: it
leaves both alone, or the client enters a room, or it leaves the one it is in. -/
theorem Handled.history (hjson : json.Lawful) (htexts : s.Texts) (hkeyed : s.RoomsKeyed)
    (h : s.client? fd = some info) (hsent : s.sent = [])
    (htidy : info.roomCode ≠ [] → ¬ CreatesAny json s p)
    (hh : Handled json now s fd info p s') :
    ((∀ code, ¬ Enters json s (.packet fd p now) s' fd code) ∧
        ¬ Leaves (.packet fd p now) s' fd ∧ s'.roster.place fd = s.roster.place fd) ∨
      (∃ code, (∀ code', Enters json s (.packet fd p now) s' fd code' ↔ code' = code) ∧
        (s'.roster.place fd = some (some code) ∨
          s'.roster.place fd = some none ∧ s'.Hollow code)) ∨
      ((∀ code, ¬ Enters json s (.packet fd p now) s' fd code) ∧
        Leaves (.packet fd p now) s' fd ∧ s'.roster.place fd = some none) := by
  -- entering takes CREATE_ROOM or JOIN_ROOM, leaving takes EXIT_ROOM
  have hnoEnter : p.type ≠ PacketType.createRoom → p.type ≠ PacketType.joinRoom →
      ∀ code, ¬ Enters json s (.packet fd p now) s' fd code := by
    rintro hcreate hjoin code ⟨-, ⟨hp, -⟩ | ⟨hp, -⟩⟩
    · exact hcreate hp
    · exact hjoin hp
  have hnoLeave : p.type ≠ PacketType.exitRoom → ¬ Leaves (.packet fd p now) s' fd :=
    fun hexit hleaves => hexit hleaves.2.1
  have hplace : s.roster.place fd = some info.room? := Server.place_of_client h
  cases hh with
  | ignored htype =>
    exact Or.inl ⟨hnoEnter (fun hp => htype (Or.inr (Or.inl hp)))
      (fun hp => htype (Or.inr (Or.inr (Or.inl hp)))),
      hnoLeave fun hp => htype (Or.inr (Or.inr (Or.inr hp))), rfl⟩
  | chat broadcast htype =>
    exact Or.inl ⟨hnoEnter (by rw [htype]; decide) (by rw [htype]; decide),
      hnoLeave (by rw [htype]; decide), rfl⟩
  | registered nickname htype =>
    refine Or.inl ⟨hnoEnter (by rw [htype]; decide) (by rw [htype]; decide),
      hnoLeave (by rw [htype]; decide), ?_⟩
    exact congrFun (ClientManager.place_setNickname _ _ _) fd
  | refused response n htype hresponse =>
    have honly : ∀ {type : PacketType}, Server.Answered ⟨s.clientManager,
        ⟨s.roomManager.rooms, s.roomManager.codes.drop n⟩, s.accepts,
        s.sent ++ [(fd, response)]⟩ fd type → type = failType p.type := by
      rintro type ⟨packet, hmem, htype⟩
      have hmem : (fd, packet) ∈ s.sent ++ [(fd, response)] := hmem
      rw [hsent, List.nil_append, List.mem_singleton, Prod.mk.injEq] at hmem
      rw [← htype, hmem.2, hresponse]
    refine Or.inl ⟨?_, ?_, rfl⟩
    · rintro code ⟨-, ⟨hp, hanswered, -⟩ | ⟨hp, hanswered, -⟩⟩
      · have htypes := honly hanswered
        rw [hp] at htypes
        exact absurd htypes (by decide)
      · have htypes := honly hanswered
        rw [hp] at htypes
        exact absurd htypes (by decide)
    · rintro ⟨-, hp, hanswered⟩
      have htypes := honly hanswered
      rw [hp] at htypes
      exact absurd htypes (by decide)
  | created name max code n k htype hasks hmax hcode hfresh =>
    have hne : code ≠ [] := hcode ▸ s.roomManager.codes.code_ne_nil k
    refine Or.inr (Or.inl ⟨code, enters_created hjson htype (hcode ▸ htexts.codes k) hfresh,
      Or.inl ?_⟩)
    exact Server.place_eq_some_some.mpr ⟨_, Table.find_set_self _ _ _, rfl, hne⟩
  | createdEmpty name code n k htype hasks hcode hfresh hfree =>
    have hnone : info.roomCode = [] := by
      by_contra hin
      exact htidy hin ⟨htype, hfree.1, hfree.2, name, 0, hasks⟩
    refine Or.inr (Or.inl ⟨code, enters_created hjson htype (hcode ▸ htexts.codes k) hfresh,
      Or.inr ⟨?_, _, Table.find_set_self _ _ _, rfl⟩⟩)
    show s.roster.place fd = some none
    rw [hplace, ClientInfo.room?_eq_none.mpr hnone]
  | joined code room htype hasks hnone hroom =>
    have hne : code ≠ [] := fun h0 => absurd (hkeyed code room hroom).2 (by simp [h0])
    refine Or.inr (Or.inl ⟨code, fun code' => ⟨?_, ?_⟩, Or.inl ?_⟩)
    · rintro ⟨-, ⟨hp, -⟩ | ⟨-, -, hasks'⟩⟩
      · rw [htype] at hp
        exact absurd hp (by decide)
      · exact hasks'.unique hasks
    · rintro rfl
      obtain ⟨response, hanswer, hresponse⟩ :=
        roomCodeResponse_ok hjson PacketType.roomJoinOk (htexts.rooms code' room hroom)
      obtain ⟨notice, hnotice, -⟩ :=
        userNotice_ok hjson PacketType.roomUserJoin fd (htexts.names fd info h)
      refine ⟨rfl, Or.inr ⟨htype, ⟨response, ?_, hresponse⟩, hasks⟩⟩
      refine List.mem_append_right _ ?_
      rw [joinPackets, hanswer]
      simp only [hnotice]
      exact List.mem_append_right _ (List.mem_singleton_self _)
    · exact Server.place_eq_some_some.mpr ⟨_, Table.find_set_self _ _ _, rfl, hne⟩
  | exited notice htype hin =>
    refine Or.inr (Or.inr ⟨hnoEnter (by rw [htype]; decide) (by rw [htype]; decide), ?_, ?_⟩)
    · exact ⟨rfl, htype, Packet.ofText PacketType.roomExitOk [],
        List.mem_append_right _ (List.mem_singleton_self _), rfl⟩
    · show (s.clientManager.setClient fd { info with roomCode := [] }).place fd = some none
      rw [ClientManager.place_setClient, Function.update_self, ClientInfo.room?_eq_none.mpr rfl]

/-! ### Runs -/

/-- What holds after a run of tidy events: the tables agree, and a client is in the room
it entered last, unless that room admits nobody. -/
structure Followed (json : Nlohmann) (init : Server) (events : List Event) (s : Server) :
    Prop where
  coherent : s.Coherent
  agree : s.roster.Agree
  texts : s.Texts
  hollowEmpty : s.HollowEmpty
  entered : ∀ g code, s.roster.place g = some (some code) →
    LastEntered json init events g code
  placed : ∀ g code, LastEntered json init events g code →
    s.roster.place g = some (some code) ∨ s.Hollow code

/-- Accepting and closing touch the room table in no way, and only one client. -/
theorem step_other {e : Event} (hstep : s.step json e = some s')
    (he : ∀ fd p now, e ≠ .packet fd p now) :
    s'.roomManager = s.roomManager ∧ (∀ g code, ¬ Enters json s e s' g code) ∧
      ∀ g, (¬ Leaves e s' g → s'.roster.place g = s.roster.place g) ∧
        (Leaves e s' g → ∀ code, s'.roster.place g ≠ some (some code)) := by
  obtain ⟨hpossible, rfl⟩ := Server.step_eq_some.mp hstep
  cases e with
  | accept fd ip added =>
    have hfree : s.client? fd = none := hpossible
    have hnone : s.roster.place fd = none := by
      show (s.client? fd).map ClientInfo.room? = none
      rw [hfree]
      rfl
    show (ConnectionManager.acceptNewConnection _ fd ip added).roomManager = _ ∧ _ ∧
      ∀ g, (_ → (ConnectionManager.acceptNewConnection _ fd ip added).roster.place g = _) ∧
        (_ → ∀ code, (ConnectionManager.acceptNewConnection _ fd ip added).roster.place g ≠ _)
    rw [ConnectionManager.acceptNewConnection]
    -- a connection that is not added leaves everything as it is
    by_cases hadd : 0 < fd ∧ added = true
    · rw [if_pos hadd]
      have hplace : ∀ g, (s.clientManager.addClient fd ip).place g =
          if g = fd then some none else s.roster.place g := by
        intro g
        rw [ClientManager.addClient, ClientManager.place_setClient]
        by_cases hg : g = fd
        · rw [if_pos hg, hg, Function.update_self]
          rfl
        · rw [if_neg hg, Function.update_of_ne hg]
          rfl
      refine ⟨rfl, fun g code h => h, fun g => ⟨fun hg => ?_, fun hg code => ?_⟩⟩
      · show (s.clientManager.addClient fd ip).place g = _
        rw [hplace, if_neg fun heq => hg heq.symm]
      · show (s.clientManager.addClient fd ip).place g ≠ _
        rw [hplace, if_pos (Eq.symm hg)]
        simp
    · rw [if_neg hadd]
      refine ⟨rfl, fun g code h => h, fun g => ⟨fun _ => rfl, fun hg code => ?_⟩⟩
      show s.roster.place g ≠ _
      rw [← show fd = g from hg, hnone]
      simp
  | packet fd p now => exact absurd rfl (he fd p now)
  | close fd =>
    have hplace : ∀ g, (s.clientManager.removeClient fd).place g =
        if g = fd then none else s.roster.place g := by
      intro g
      rw [ClientManager.place_removeClient]
      by_cases hg : g = fd
      · rw [if_pos hg, hg, Function.update_self]
      · rw [if_neg hg, Function.update_of_ne hg]
        rfl
    refine ⟨rfl, fun g code h => h, fun g => ⟨fun hg => ?_, fun hg code => ?_⟩⟩
    · show (s.clientManager.removeClient fd).place g = _
      rw [hplace, if_neg fun heq => hg heq.symm]
    · show (s.clientManager.removeClient fd).place g ≠ _
      rw [hplace, if_pos (Eq.symm hg)]
      simp

/-- A packet of `fd`: the history and the place of every client move together. -/
theorem Followed.packet (hjson : json.Lawful) {events : List Event}
    (hrun : Transition.runFrom (Server.step json) init events = some s)
    (hs : Followed json init events s) (htidy : Event.Tidy json s (.packet fd p now))
    (hstep : s.step json (.packet fd p now) = some s') :
    s'.HollowEmpty ∧
      (∀ g code, s'.roster.place g = some (some code) →
        LastEntered json init (events ++ [.packet fd p now]) g code) ∧
      ∀ g code, LastEntered json init (events ++ [.packet fd p now]) g code →
        s'.roster.place g = some (some code) ∨ s'.Hollow code := by
  obtain ⟨info, h, hh⟩ := handled_of_step hstep
  have hhistory := hh.history (s := { s with sent := [] }) hjson
    ⟨hs.texts.codes, hs.texts.rooms, hs.texts.names⟩
    hs.coherent.keyed h rfl (htidy info h)
  have hhollow : ∀ {code}, s.Hollow code → s'.Hollow code := fun hcode =>
    hh.hollow (s := { s with sent := [] }) hs.coherent.live hs.hollowEmpty h hcode
  -- only the sender enters or leaves
  have hother : ∀ g, g ≠ fd → s'.roster.place g = s.roster.place g ∧
      (∀ code, ¬ Enters json s (.packet fd p now) s' g code) ∧
      ¬ Leaves (.packet fd p now) s' g := by
    intro g hg
    refine ⟨?_, fun code henters => hg henters.1.symm, fun hleaves => hg hleaves.1.symm⟩
    show (s'.client? g).map ClientInfo.room? = (s.client? g).map ClientInfo.room?
    rw [hh.client?_ne (s := { s with sent := [] }) h hg]
    rfl
  refine ⟨hh.hollowEmpty (s := { s with sent := [] }) hs.hollowEmpty, fun g code hplace => ?_,
    fun g code hlast => ?_⟩
  -- from the place to the history
  · rw [lastEntered_snoc hrun hstep]
    by_cases hg : g = fd
    · subst hg
      rcases hhistory with ⟨hnone, hstay, hsame⟩ | ⟨code', henters, hplace' | ⟨hplace', -⟩⟩ |
        ⟨-, -, hplace'⟩
      · exact Or.inr ⟨hs.entered g code (hsame ▸ hplace), hnone, hstay⟩
      · rw [hplace', Option.some_inj, Option.some_inj] at hplace
        exact Or.inl ((henters code).mpr hplace.symm)
      · rw [hplace', Option.some_inj] at hplace
        cases hplace
      · rw [hplace', Option.some_inj] at hplace
        cases hplace
    · obtain ⟨hsame, hnone, hstay⟩ := hother g hg
      exact Or.inr ⟨hs.entered g code (hsame ▸ hplace), hnone, hstay⟩
  -- and back; a room that holds nobody is the one exception
  · rw [lastEntered_snoc hrun hstep] at hlast
    by_cases hg : g = fd
    · subst hg
      rcases hhistory with ⟨hnone, -, hsame⟩ | ⟨code', henters, hplace'⟩ | ⟨hnone, hleaves, -⟩
      · rcases hlast with hnow | ⟨hbefore, -⟩
        · exact absurd hnow (hnone code)
        · rcases hs.placed g code hbefore with hplace | hcode
          · exact Or.inl (hsame.trans hplace)
          · exact Or.inr (hhollow hcode)
      · rcases hlast with hnow | ⟨-, hnone, -⟩
        · rw [(henters code).mp hnow]
          exact hplace'.imp_right And.right
        · exact absurd ((henters code').mpr rfl) (hnone code')
      · rcases hlast with hnow | ⟨-, -, hstay⟩
        · exact absurd hnow (hnone code)
        · exact absurd hleaves hstay
    · obtain ⟨hsame, hnone, -⟩ := hother g hg
      rcases hlast with hnow | ⟨hbefore, -⟩
      · exact absurd hnow (hnone code)
      · rcases hs.placed g code hbefore with hplace | hcode
        · exact Or.inl (hsame.trans hplace)
        · exact Or.inr (hhollow hcode)

/-- Accepting and closing: a history that is kept goes with a place that is kept. -/
theorem Followed.other {events : List Event} {e : Event}
    (hrun : Transition.runFrom (Server.step json) init events = some s)
    (hs : Followed json init events s) (he : ∀ fd p now, e ≠ .packet fd p now)
    (hstep : s.step json e = some s') :
    s'.HollowEmpty ∧
      (∀ g code, s'.roster.place g = some (some code) →
        LastEntered json init (events ++ [e]) g code) ∧
      ∀ g code, LastEntered json init (events ++ [e]) g code →
        s'.roster.place g = some (some code) ∨ s'.Hollow code := by
  obtain ⟨hrooms, hnone, hplaces⟩ := step_other hstep he
  have hroom : ∀ code, s'.room? code = s.room? code := fun code => by
    rw [Server.room?, Server.room?, hrooms]
  refine ⟨fun code room hfind => hs.hollowEmpty code room (hroom code ▸ hfind),
    fun g code hplace => ?_, fun g code hlast => ?_⟩
  · have hstay : ¬ Leaves e s' g := fun hleaves => (hplaces g).2 hleaves code hplace
    rw [lastEntered_snoc hrun hstep]
    exact Or.inr ⟨hs.entered g code ((hplaces g).1 hstay ▸ hplace), hnone g, hstay⟩
  · rw [lastEntered_snoc hrun hstep] at hlast
    rcases hlast with hnow | ⟨hbefore, -, hstay⟩
    · exact absurd hnow (hnone g code)
    · rcases hs.placed g code hbefore with hplace | ⟨room, hfind, hmax⟩
      · exact Or.inl (((hplaces g).1 hstay).trans hplace)
      · exact Or.inr ⟨room, (hroom code).trans hfind, hmax⟩

theorem Followed.step (hjson : json.Lawful) {events : List Event} {e : Event}
    (hrun : Transition.runFrom (Server.step json) init events = some s)
    (hs : Followed json init events s) (htidy : e.Tidy json s)
    (hstep : s.step json e = some s') : Followed json init (events ++ [e]) s' := by
  obtain ⟨op, hallowed, hroster, hop⟩ := step_roster hs.coherent.keyed hstep
  have hagree : s'.roster.Agree := by
    rw [hroster]
    exact hs.agree.apply hallowed (hop.mpr htidy.orderly) hs.coherent.distinct
  have hrest : s'.HollowEmpty ∧
      (∀ g code, s'.roster.place g = some (some code) →
        LastEntered json init (events ++ [e]) g code) ∧
      ∀ g code, LastEntered json init (events ++ [e]) g code →
        s'.roster.place g = some (some code) ∨ s'.Hollow code := by
    cases e with
    | packet fd p now => exact hs.packet hjson hrun htidy hstep
    | accept fd ip added => exact hs.other hrun (fun _ _ _ h => by cases h) hstep
    | close fd => exact hs.other hrun (fun _ _ _ h => by cases h) hstep
  exact ⟨hs.coherent.step hstep, hagree, hs.texts.step hjson hstep, hrest.1, hrest.2.1, hrest.2.2⟩

theorem followed_init (dis : ℕ → Fin 62) :
    Followed json (Server.init (CodeStream.ofIndices dis)) []
      (Server.init (CodeStream.ofIndices dis)) := by
  have hcoherent := Server.coherent_init (CodeStream.ofIndices dis)
  have hplace : ∀ g, (Server.init (CodeStream.ofIndices dis)).roster.place g = none := by
    intro g
    show ((Server.init (CodeStream.ofIndices dis)).client? g).map ClientInfo.room? = none
    rw [Server.client?_init]
    rfl
  have hroom := Server.room?_init (CodeStream.ofIndices dis)
  refine ⟨hcoherent, fun code g h => absurd h List.not_mem_nil, Server.texts_init dis,
    fun code room h => ?_, fun g code h => ?_, fun g code h => absurd h lastEntered_nil⟩
  · rw [hroom] at h
    cases h
  · rw [hplace] at h
    cases h

/-! ### Delivery -/

/-- How many MESSAGE_CHAT packets are sent to `g` in the step that leads to `s'`. -/
def Server.chats (s' : Server) (g : Fd) : ℕ :=
  s'.sent.countP fun x => x.1 = g ∧ x.2.type = PacketType.messageChat

/-- A message of client `fd`, broadcast as `broadcast`, is delivered to those whose
history puts them in the sender's room: to each of them once, to the sender and to
anybody else never, and nothing else is sent. -/
structure DeliveredExactly (json : Nlohmann) (init : Server) (events : List Event)
    (s s' : Server) (fd : Fd) (sender : ClientInfo) (broadcast : Packet) : Prop where
  once : ∀ g, g ≠ fd → (s.client? g).isSome = true →
    LastEntered json init events g sender.roomCode → s'.chats g = 1
  nobodyElse : ∀ g, ¬ (g ≠ fd ∧ (s.client? g).isSome = true ∧
    LastEntered json init events g sender.roomCode) → s'.chats g = 0
  same : ∀ x ∈ s'.sent, x.2 = broadcast

/-- What is sent when a message is broadcast. -/
theorem sent_message {broadcast : Packet} (hp : p.type = PacketType.messageSend)
    (h : s.client? fd = some info) (hauth : info.isAuthenticated = true)
    (hroom : info.roomCode ≠ [])
    (hb : MessageHandler.broadcastPacket json now fd info p = some broadcast)
    (hstep : s.step json (.packet fd p now) = some s') :
    s'.sent = ((s.roster.listed info.roomCode).filter (· ≠ fd)).map (·, broadcast) := by
  obtain ⟨info', h', hh⟩ := handled_of_step hstep
  rw [h, Option.some_inj] at h'
  subst h'
  rcases hh.of_messageSend hp with ⟨-, hnone⟩ | ⟨broadcast', -, -, hb', rfl⟩
  · rw [hnone hauth hroom] at hb
    cases hb
  · rw [hb, Option.some_inj] at hb'
    subst hb'
    rfl

/-- **Messages are delivered exactly.**  After a run of tidy events, a MESSAGE_SEND whose
broadcast is built reaches each connected client other than the sender whose last
successful CREATE_ROOM or JOIN_ROOM was for the sender's room, with no EXIT_ROOM since,
exactly once, and nobody else. -/
theorem delivered_exactly (hjson : json.Lawful) (dis : ℕ → Fin 62) (events : List Event)
    (hrun : Transition.runFrom (Server.step json) (Server.init (CodeStream.ofIndices dis))
      events = some s)
    (htidy : ∀ t e, Transition.Takes (Server.step json)
      (Server.init (CodeStream.ofIndices dis)) events t e → e.Tidy json t)
    (hstep : s.step json (.packet fd p now) = some s') (hp : p.type = PacketType.messageSend)
    (sender : ClientInfo) (hsender : s.client? fd = some sender)
    (hauth : sender.isAuthenticated = true) (hroom : sender.roomCode ≠ []) (broadcast : Packet)
    (hb : MessageHandler.broadcastPacket json now fd sender p = some broadcast) :
    DeliveredExactly json (Server.init (CodeStream.ofIndices dis)) events s s' fd sender
      broadcast := by
  have hs : Followed json (Server.init (CodeStream.ofIndices dis)) events s :=
    Transition.runFrom_induction (G := fun t e => e.Tidy json t) (followed_init dis)
      (fun es t e t' hrun ht htidy hstep => ht.step hjson hrun htidy hstep) hrun htidy
  have hsent := sent_message hp hsender hauth hroom hb hstep
  have hchats : ∀ g, s'.chats g =
      ((s.roster.listed sender.roomCode).filter (· ≠ fd)).count g := by
    intro g
    rw [Server.chats, hsent, List.countP_map, List.count]
    refine List.countP_congr fun x _ => ?_
    simp [MessageHandler.type_broadcastPacket hb]
  have hmem : ∀ g, g ∈ (s.roster.listed sender.roomCode).filter (· ≠ fd) ↔
      g ≠ fd ∧ (s.client? g).isSome = true ∧
        LastEntered json (Server.init (CodeStream.ofIndices dis)) events g sender.roomCode := by
    intro g
    rw [List.mem_filter, decide_eq_true_iff, and_comm]
    refine and_congr_right fun _ => ?_
    rw [Roster.mem_listed_iff hs.coherent.live hs.agree]
    constructor
    · intro hplace
      obtain ⟨client, hclient, -⟩ := Server.place_eq_some_some.mp hplace
      exact ⟨by rw [hclient]; rfl, hs.entered g _ hplace⟩
    · rintro ⟨-, hlast⟩
      refine (hs.placed g _ hlast).resolve_right ?_
      -- the sender is in the room, so it is not hollow
      rintro ⟨room, hfind, hmax⟩
      have hsenderIn : fd ∈ s.roster.listed sender.roomCode :=
        hs.coherent.live fd _ (Server.place_eq_some_some.mpr ⟨sender, hsender, rfl, hroom⟩)
      rw [Server.listed_of_room hfind, hs.hollowEmpty _ room hfind hmax] at hsenderIn
      exact List.not_mem_nil hsenderIn
  have hnodup : ((s.roster.listed sender.roomCode).filter (· ≠ fd)).Nodup :=
    (hs.coherent.distinct _).filter _
  refine ⟨fun g hne hconnected hlast => ?_, fun g hnot => ?_, fun x hx => ?_⟩
  · rw [hchats]
    exact List.count_eq_one_of_mem hnodup ((hmem g).mpr ⟨hne, hconnected, hlast⟩)
  · rw [hchats]
    exact List.count_eq_zero_of_not_mem fun h => hnot ((hmem g).mp h)
  · rw [hsent] at hx
    obtain ⟨g, -, rfl⟩ := List.mem_map.mp hx
    rfl

/-- The greeting of client 5 can be broadcast in this state. -/
def Server.canGreet (s : Server) : Bool :=
  (s.step Nlohmann.integral (.packet 5 greeting noon)).isSome &&
    (s.client? 5).any fun sender => sender.isAuthenticated && decide (sender.roomCode ≠ []) &&
      (MessageHandler.broadcastPacket Nlohmann.integral noon 5 sender greeting).isSome

theorem Server.canGreet_iff : s.canGreet = true ↔ ∃ s' sender broadcast,
    s.step Nlohmann.integral (.packet 5 greeting noon) = some s' ∧ s.client? 5 = some sender ∧
      sender.isAuthenticated = true ∧ sender.roomCode ≠ [] ∧
      MessageHandler.broadcastPacket Nlohmann.integral noon 5 sender greeting =
        some broadcast := by
  simp only [Server.canGreet, Bool.and_eq_true, Option.isSome_iff_exists, Option.any_eq_true,
    decide_eq_true_iff]
  constructor
  · rintro ⟨⟨s', hs'⟩, sender, hsender, ⟨hauth, hroom⟩, broadcast, hb⟩
    exact ⟨s', sender, broadcast, hs', hsender, hauth, hroom, hb⟩
  · rintro ⟨s', sender, broadcast, hs', hsender, hauth, hroom, hb⟩
    exact ⟨⟨s', hs'⟩, sender, hsender, ⟨hauth, hroom⟩, broadcast, hb⟩

theorem delivered_exactly_greeting :
    ∃ s s' sender broadcast, Transition.runFrom (Server.step Nlohmann.integral)
        (Server.init CodeStream.inOrder) twoInRoom = some s ∧
      s.step Nlohmann.integral (.packet 5 greeting noon) = some s' ∧
      DeliveredExactly Nlohmann.integral (Server.init CodeStream.inOrder) twoInRoom s s' 5 sender
        broadcast := by
  have hgreet : (Transition.runFrom (Server.step Nlohmann.integral)
      (Server.init CodeStream.inOrder) twoInRoom).any Server.canGreet = true := by
    decide +kernel
  have htidy : Transition.checkSteps (Server.step Nlohmann.integral)
      (fun s e => decide (e.Tidy Nlohmann.integral s)) (Server.init CodeStream.inOrder)
      twoInRoom = true := by
    decide +kernel
  obtain ⟨s, hrun, hs⟩ := (Option.any_eq_true _ _).mp hgreet
  obtain ⟨s', sender, broadcast, hstep, hsender, hauth, hroom, hb⟩ := Server.canGreet_iff.mp hs
  refine ⟨s, s', sender, broadcast, hrun, hstep, ?_⟩
  have hgood : ∀ t e, Transition.Takes (Server.step Nlohmann.integral)
      (Server.init CodeStream.inOrder) twoInRoom t e → e.Tidy Nlohmann.integral t := by
    intro t e htakes
    have hcheck := htakes.of_checkSteps htidy
    exact of_decide_eq_true hcheck
  have hp : greeting.type = PacketType.messageSend := rfl
  exact delivered_exactly Nlohmann.lawful_integral CodeStream.indicesInOrder twoInRoom hrun
    hgood hstep hp sender hsender hauth hroom broadcast hb

/-- Client 6 is disconnected in the room, and its descriptor is given to another. -/
def descriptorReused : List Event :=
  twoInRoom ++ [.close 6] ++ [.accept 6 (str "10.0.0.3") true]

/-- The new client 6, which has entered no room, receives the greeting. -/
theorem not_delivered_exactly :
    ∃ s s' sender broadcast, Transition.runFrom (Server.step Nlohmann.integral)
        (Server.init CodeStream.inOrder) descriptorReused = some s ∧
      s.step Nlohmann.integral (.packet 5 greeting noon) = some s' ∧
      s.client? 5 = some sender ∧ sender.isAuthenticated = true ∧ sender.roomCode ≠ [] ∧
      MessageHandler.broadcastPacket Nlohmann.integral noon 5 sender greeting = some broadcast ∧
      ¬ DeliveredExactly Nlohmann.integral (Server.init CodeStream.inOrder) descriptorReused s s'
        5 sender broadcast := by
  have hgreet : (Transition.runFrom (Server.step Nlohmann.integral)
      (Server.init CodeStream.inOrder) descriptorReused).any (fun s => s.canGreet &&
        (s.step Nlohmann.integral (.packet 5 greeting noon)).any
          fun s' => s'.chats 6 == 1) = true := by
    decide +kernel
  obtain ⟨s, hrun, hs⟩ := (Option.any_eq_true _ _).mp hgreet
  rw [Bool.and_eq_true, Server.canGreet_iff, Option.any_eq_true] at hs
  obtain ⟨⟨s', sender, broadcast, hstep, hsender, hauth, hroom, hb⟩, s'', hstep', hchats⟩ := hs
  rw [hstep, Option.some_inj] at hstep'
  subst hstep'
  refine ⟨s, s', sender, broadcast, hrun, hstep, hsender, hauth, hroom, hb, fun hdelivered => ?_⟩
  obtain ⟨t, hrun', hlast⟩ := Transition.runFrom_snoc.mp hrun
  have hnever : ¬ LastEntered Nlohmann.integral (Server.init CodeStream.inOrder)
      descriptorReused 6 sender.roomCode := by
    rw [descriptorReused, lastEntered_snoc hrun' hlast]
    rintro (henters | ⟨-, -, hstay⟩)
    · exact henters
    · exact hstay rfl
  have hzero := hdelivered.nobodyElse 6 fun h => hnever h.2.2
  rw [hzero] at hchats
  exact absurd hchats (by decide)

end SocketChat
