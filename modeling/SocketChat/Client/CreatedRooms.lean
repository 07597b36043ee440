/-
What ROOM_CREATE_OK tells the client.

`handleCreateRoom` accepts any JSON number as `maxUsers`, converts it to `int`, and answers
ROOM_CREATE_OK whether or not the creator got into the room.  `createdAsAsked_iff` says for
which numbers the answer can be believed: the whole numbers within `int`, other than zero.
-/
import SocketChat.Client.Services

/-- The value of a number. -/
def Json.number? : Json → Option ℚ
  | .numberInteger n => some n
  | .numberFloat q => some q
  | _ => none

/-- `static_cast<int>` leaves the value of a whole number within `int` as it is. -/
def Nlohmann.CastsWholes (json : Nlohmann) : Prop :=
  ∀ n : Int32, json.double n.toInt → json.doubleToInt n.toInt = n

namespace SocketChat

open Client

/-- The payload is a JSON object asking for a room `name` with the number `value` as its
capacity. -/
def AsksForRoom (json : Nlohmann) (p : Packet) (name : Bytes) (value : ℚ) : Prop :=
  ∃ data, json.parse p.text = .ok data ∧
    (data.field? (str "roomName")).bind Json.string? = some name ∧
    (data.field? (str "maxUsers")).bind Json.number? = some value

/-- From `s` to `s'` the room `r` that packet `p` of client `fd` asks for was created, and its
creator is inside. -/
structure CreatedAsAsked (json : Nlohmann) (s s' : Server) (fd : Fd) (p : Packet) (r : Bytes) :
    Prop where
  fresh : s.room? r = none
  room : ∃ room, s'.room? r = some room ∧
    AsksForRoom json p room.roomName room.getMaxUserCount.toInt ∧ room.getClientFds = [fd]
  record : ∃ info, s'.client? fd = some info ∧ info.roomCode = r

variable {json : Nlohmann} {now : LocalTime} {s s' : Server} {fd : Fd} {info : ClientInfo}
  {p : Packet} {name : Bytes} {max : Int32}

/-! ### The number asked for and the capacity -/

theorem numberToInt?_of_whole (hcast : json.CastsWholes) {v : Json} (hvalid : v.Valid json.double)
    (h : v.number? = some (max.toInt : ℚ)) : json.numberToInt? v = some max := by
  cases v with
  | numberInteger n =>
    have hn : n = max.toInt := by
      have hcoe : ((n : ℤ) : ℚ) = max.toInt := Option.some_inj.mp h
      exact_mod_cast hcoe
    rw [Nlohmann.numberToInt?, hn, Int32.ofInt_toInt]
  -- `maxUsers` may be written as a double, which converts to the same `int`
  | numberFloat q =>
    obtain rfl : q = max.toInt := Option.some_inj.mp h
    cases hvalid with
    | numberFloat hdouble => rw [Nlohmann.numberToInt?, hcast max hdouble]
  | _ => cases h

theorem createRequest_eq_ok {data : Json} :
    RoomHandler.createRequest json data = .ok (name, max) ↔
      (data.field? (str "roomName")).bind Json.string? = some name ∧
        (data.field? (str "maxUsers")).bind json.numberToInt? = some max := by
  rw [RoomHandler.createRequest]
  cases (data.field? (str "roomName")).bind Json.string? with
  | none => simp
  | some roomName =>
    cases (data.field? (str "maxUsers")).bind json.numberToInt? with
    | none => simp
    | some maxUsers => simp

/-- A whole number within `int` becomes the capacity. -/
theorem AsksForRoom.asksToCreate (hjson : json.Lawful) (hcast : json.CastsWholes)
    (h : AsksForRoom json p name max.toInt) : AsksToCreate json p name max := by
  obtain ⟨data, hparse, hname, hmax⟩ := h
  obtain ⟨v, hfield, hv⟩ := Option.bind_eq_some_iff.mp hmax
  have hvalid : v.Valid json.double := (hjson.parse_valid hparse).field hfield
  refine ⟨data, hparse, createRequest_eq_ok.mpr ⟨hname, ?_⟩⟩
  exact Option.bind_eq_some_iff.mpr ⟨v, hfield, numberToInt?_of_whole hcast hvalid hv⟩

/-! ### The answer -/

/-- The code in the answer is that of the room. -/
theorem createAnswer_read (hjson : json.Lawful) {code r : Bytes}
    (hreadable : readable json code = true)
    (hread : parseRoomResponsePacket json (RoomHandler.createAnswer json code) = .ok r) :
    r = code := by
  obtain ⟨response, hresponse, -, hparse⟩ :=
    parse_roomCodeResponse hjson PacketType.roomCreateOk hreadable
  rw [RoomHandler.createAnswer, hresponse] at hread
  exact Except.ok.inj (hread.symm.trans hparse)

/-- What a CREATE_ROOM that is answered with ROOM_CREATE_OK has done. -/
theorem Handled.createOk (hh : Handled json now s fd info p s') (hempty : s.sent = [])
    (hp : p.type = PacketType.createRoom) {response : Packet} (hsent : (fd, response) ∈ s'.sent)
    (hok : response.type = PacketType.roomCreateOk) :
    ∃ name max k, AsksToCreate json p name max ∧
      response = RoomHandler.createAnswer json (s.roomManager.codes.code k) ∧
      s.room? (s.roomManager.codes.code k) = none ∧
      s'.room? (s.roomManager.codes.code k) =
        some ⟨s.roomManager.codes.code k, name, max, if max = 0 then [] else [fd]⟩ ∧
      (max ≠ 0 → s'.client? fd = some { info with roomCode := s.roomManager.codes.code k }) := by
  cases hh with
  | ignored htype => exact absurd (Or.inr (Or.inl hp)) htype
  | chat broadcast htype => exact absurd (htype.symm.trans hp) (by decide)
  | refused response' n htype hresponse =>
    rw [hempty, List.nil_append, List.mem_singleton] at hsent
    obtain ⟨-, rfl⟩ := Prod.mk.inj hsent
    rw [hresponse, hp] at hok
    exact absurd hok (by decide)
  | registered nickname htype => exact absurd (htype.symm.trans hp) (by decide)
  -- the two branches that answer with success: with its creator inside, and without
  | created name max code n k htype hasks hmax hcode hfresh =>
    subst hcode
    rw [hempty, List.nil_append, List.mem_singleton] at hsent
    obtain ⟨-, rfl⟩ := Prod.mk.inj hsent
    refine ⟨name, max, k, hasks, rfl, hfresh, ?_, fun _ => ?_⟩
    · rw [if_neg hmax]
      exact Table.find_set_self _ _ _
    · show (s.clientManager.setClient fd _).getClient fd = _
      rw [ClientManager.getClient_setClient, if_pos rfl]
  | createdEmpty name code n k htype hasks hcode hfresh =>
    subst hcode
    rw [hempty, List.nil_append, List.mem_singleton] at hsent
    obtain ⟨-, rfl⟩ := Prod.mk.inj hsent
    refine ⟨name, 0, k, hasks, rfl, hfresh, ?_, fun h => absurd rfl h⟩
    rw [if_pos rfl]
    exact Table.find_set_self _ _ _
  | joined code room htype => exact absurd (htype.symm.trans hp) (by decide)
  | exited notice htype => exact absurd (htype.symm.trans hp) (by decide)

/-- **ROOM_CREATE_OK means that the room exists as it was asked for, with its creator inside,
exactly when the capacity asked for is a whole number within `int` other than zero.** -/
theorem createdAsAsked_iff (json : Nlohmann) (hjson : json.Lawful) (hplain : json.WritesPlain)
    (hcast : json.CastsWholes) (dis : ℕ → Fin 62) (events : List Event) (s s' : Server)
    (hrun : Transition.runFrom (Server.step json) (Server.init (CodeStream.ofIndices dis))
      events = some s)
    (fd : Fd) (p : Packet) (now : LocalTime) (hp : p.type = PacketType.createRoom)
    (hstep : s.step json (.packet fd p now) = some s') (response : Packet)
    (hsent : (fd, response) ∈ s'.sent) (hok : response.type = PacketType.roomCreateOk) (r : Bytes)
    (hread : parseRoomResponsePacket json response = .ok r) :
    CreatedAsAsked json s s' fd p r ↔
      ∃ name, ∃ max : Int32, max ≠ 0 ∧ AsksForRoom json p name max.toInt := by
  obtain ⟨info, h, hh⟩ := handled_of_step hstep
  obtain ⟨name, max, k, hasks, rfl, hfresh, hroom, hrecord⟩ := hh.createOk rfl hp hsent hok
  have hreadable : readable json (s.roomManager.codes.code k) = true :=
    codes_of_run (P := fun code => readable json code = true) (readable_ofIndices hplain dis)
      hrun k
  obtain rfl := createAnswer_read hjson hreadable hread
  constructor
  · rintro ⟨-, ⟨room, hroom', hasks', hclients⟩, -⟩
    rw [hroom, Option.some_inj] at hroom'
    subst hroom'
    refine ⟨name, max, ?_, hasks'⟩
    -- a room of capacity zero has not admitted its creator
    rintro rfl
    cases hclients
  · rintro ⟨name', max', hmax', hasks'⟩
    -- what the server read is what was asked for, converted
    obtain ⟨rfl, rfl⟩ := hasks.unique (hasks'.asksToCreate hjson hcast)
    rw [if_neg hmax'] at hroom
    exact ⟨hfresh, ⟨_, hroom, hasks', rfl⟩, _, hrecord hmax', rfl⟩

theorem castsWholes_integral : Nlohmann.integral.CastsWholes := fun _ h => h.elim

/-- A request for a room of the given number of users. -/
def createSized (maxUsers : String) : Packet :=
  Packet.ofText PacketType.createRoom
    (str "\x7b\"roomName\":\"lobby\",\"maxUsers\":" ++ str maxUsers ++ str "\x7d")

/-- Client 5 connects. -/
def connected : List Event := [.accept 5 (str "10.0.0.1") true]

/-- Client 5, alone on the server, asks for such a room, is told that it was created, and the
room passes a check. -/
def createdRoomPasses (maxUsers : String) (check : Room → Bool) : Bool :=
  (Transition.runFrom (Server.step Nlohmann.integral) (Server.init CodeStream.inOrder)
    connected).any fun s =>
    (s.step Nlohmann.integral (.packet 5 (createSized maxUsers) noon)).any fun s' =>
      s'.sent.any fun x => x.1 == 5 && decide (x.2.type = PacketType.roomCreateOk) &&
        (parseRoomResponsePacket Nlohmann.integral x.2).toOption.any fun r =>
          (s'.room? r).any check

theorem of_createdRoomPasses {maxUsers : String} {check : Room → Bool}
    (h : createdRoomPasses maxUsers check = true) : ∃ s s' response r room,
      Transition.runFrom (Server.step Nlohmann.integral) (Server.init CodeStream.inOrder)
        connected = some s ∧
      s.step Nlohmann.integral (.packet 5 (createSized maxUsers) noon) = some s' ∧
      (5, response) ∈ s'.sent ∧ response.type = PacketType.roomCreateOk ∧
      parseRoomResponsePacket Nlohmann.integral response = .ok r ∧
      s'.room? r = some room ∧ check room = true := by
  obtain ⟨s, hrun, h⟩ := (Option.any_eq_true _ _).mp h
  obtain ⟨s', hstep, h⟩ := (Option.any_eq_true _ _).mp h
  obtain ⟨⟨g, response⟩, hsent, h⟩ := List.any_eq_true.mp h
  rw [Bool.and_eq_true, Bool.and_eq_true] at h
  obtain ⟨⟨hg, hok⟩, h⟩ := h
  obtain rfl : g = 5 := eq_of_beq hg
  obtain ⟨r, hread, h⟩ := (Option.any_eq_true _ _).mp h
  obtain ⟨room, hroom, hcheck⟩ := (Option.any_eq_true _ _).mp h
  exact ⟨s, s', response, r, room, hrun, hstep, hsent, of_decide_eq_true hok,
    Json.ok_of_toOption hread, hroom, hcheck⟩

/-- A room of three. -/
theorem createdAsAsked_iff_three : ∃ s s' r,
    Transition.runFrom (Server.step Nlohmann.integral) (Server.init CodeStream.inOrder)
      connected = some s ∧
    s.step Nlohmann.integral (.packet 5 (createSized "3") noon) = some s' ∧
    (CreatedAsAsked Nlohmann.integral s s' 5 (createSized "3") r ↔
      ∃ name, ∃ max : Int32, max ≠ 0 ∧
        AsksForRoom Nlohmann.integral (createSized "3") name max.toInt) := by
  have htold : createdRoomPasses "3" (fun _ => true) = true := by decide +kernel
  obtain ⟨s, s', response, r, -, hrun, hstep, hsent, hok, hread, -, -⟩ := of_createdRoomPasses htold
  exact ⟨s, s', r, hrun, hstep,
    createdAsAsked_iff Nlohmann.integral Nlohmann.lawful_integral Nlohmann.writesPlain_integral
      castsWholes_integral CodeStream.indicesInOrder connected s s' hrun 5 _ noon rfl hstep
      response hsent hok r hread⟩

/-- Client 5 is told that the room was created, and it was not as it was asked for. -/
def CreatedOtherwise (maxUsers : String) : Prop := ∃ s s' response r,
  Transition.runFrom (Server.step Nlohmann.integral) (Server.init CodeStream.inOrder)
    connected = some s ∧
  s.step Nlohmann.integral (.packet 5 (createSized maxUsers) noon) = some s' ∧
  (5, response) ∈ s'.sent ∧ response.type = PacketType.roomCreateOk ∧
  parseRoomResponsePacket Nlohmann.integral response = .ok r ∧
  ¬ CreatedAsAsked Nlohmann.integral s s' 5 (createSized maxUsers) r

/-- A client that asks for a room of nobody is not inside, and one that asks for a room of
2^32 + 2 users gets one of two. -/
theorem not_createdAsAsked : CreatedOtherwise "0" ∧ CreatedOtherwise "4294967298" := by
  constructor
  · have htold : createdRoomPasses "0" (fun room => decide (room.clients = [])) = true := by
      decide +kernel
    obtain ⟨s, s', response, r, room, hrun, hstep, hsent, hok, hread, hroom, hempty⟩ :=
      of_createdRoomPasses htold
    refine ⟨s, s', response, r, hrun, hstep, hsent, hok, hread, fun hcreated => ?_⟩
    obtain ⟨room', hroom', -, hclients⟩ := hcreated.room
    rw [hroom, Option.some_inj] at hroom'
    subst hroom'
    exact absurd ((of_decide_eq_true hempty).symm.trans hclients) (by simp)
  · have htold : createdRoomPasses "4294967298" (fun room => decide (room.maxUserCnt = 2)) =
        true := by
      decide +kernel
    obtain ⟨s, s', response, r, room, hrun, hstep, hsent, hok, hread, hroom, htwo⟩ :=
      of_createdRoomPasses htold
    refine ⟨s, s', response, r, hrun, hstep, hsent, hok, hread, fun hcreated => ?_⟩
    obtain ⟨room', hroom', ⟨data, hparse, -, hvalue⟩, -⟩ := hcreated.room
    rw [hroom, Option.some_inj] at hroom'
    subst hroom'
    have hasked : (Nlohmann.integral.parse (createSized "4294967298").text).toOption.any
        (fun data => decide ((data.field? (str "maxUsers")).bind Json.number? =
          some 4294967298)) = true := by
      decide +kernel
    rw [hparse] at hasked
    have hvalue' := (of_decide_eq_true hasked).symm.trans hvalue
    rw [Room.getMaxUserCount, of_decide_eq_true htwo] at hvalue'
    exact absurd (Option.some_inj.mp hvalue') (by decide +kernel)

end SocketChat
