/-
What the handler of a request answers.

`answering` is a discipline for the handler of one request of one connection, which keeps
track of how far the request has been granted: it says that the handler writes to no record
but the connection's, enters no room but the one that is asked for, and sends the connection
one packet, from which the client draws the right conclusion (`Request.Answered`).  Handlers
follow it as long as the calls are replied to as `Request.expects` says; in particular a room
that has just been created must admit its creator, because the answer does not depend on that.
-/
import SocketChat.Client.Services
import SocketChat.Server.Discipline

namespace SocketChat

open Handler

namespace Client

/-- How far a request has been granted: the room the client has been entered in, whether the
record has been written to, and the answer that was sent. -/
structure Progress where
  joined : Option Bytes
  applied : Bool
  answer : Option Packet

namespace Progress

def fresh : Progress := ⟨none, false, none⟩

/-- The room code in the record of a client whose code was `roomCode` at first. -/
def roomCode (m : Progress) (roomCode : Bytes) : Bytes :=
  if m.applied then m.joined.getD roomCode else roomCode

/-- After a call made for a client with descriptor `fd`. -/
def next (m : Progress) (fd : Fd) : (c : Call) → Reply c → Progress
  | .setNickname _ _, _ => { m with applied := true }
  | .setRoomCode _ _, _ => { m with applied := true }
  | .joinRoom _ code, joined => if joined then { m with joined := some code } else m
  | .send g packet, _ => if g = fd then { m with answer := some packet } else m
  | _, _ => m

end Progress

namespace Request

/-- A client that receives `response` draws the right conclusion: it returns true exactly if
its request has been applied, and remembers the room code in its record. -/
def Answered (json : Nlohmann) (r : Request) (m : Progress) (response : Packet) : Prop :=
  ∀ c b c', r.answered json c response = .ok (b, c') →
    b = m.applied ∧ c'.m_current_room_code = m.roomCode c.m_current_room_code

/-- The request asks to enter the room with code `code`, or one that is new. -/
def Enters (code : Bytes) : Request → Prop
  | createRoom _ _ => True
  | joinRoom roomCode => roomCode = code
  | _ => False

def createsRoom : Request → Bool
  | createRoom _ _ => true
  | _ => false

/-- The replies in which the connection is there, nicknames and room codes can be written,
and a new room admits its creator. -/
def expects (json : Nlohmann) (K : Connection) (r : Request) : (c : Call) → Reply c → Bool
  | .getClient _, found => found.any fun x => decide (x.1 = K) && Bytes.utf8 x.2.nickname
  | .addRoom _ _, code => code.isEmpty || readable json code
  | .joinRoom _ code, joined => if joined then readable json code else !r.createsRoom
  | _, _ => true

/-- The calls the handler of a request of connection `K` makes. -/
def allows (json : Nlohmann) (K : Connection) (r : Request) (m : Progress) (c : Call) : Prop :=
  m.answer = none ∧
    match c with
    | .getClient g => g = K.fd
    | .setNickname g nickname => g = K.fd ∧ r = .registerNickname nickname
    | .setRoomCode conn code => conn = K ∧ m.joined = some code
    | .joinRoom g code => g = K.fd ∧ m.joined = none ∧ m.applied = false ∧ r.Enters code
    | .leaveRoom _ _ => False
    | .send g packet => g = K.fd → r.Answered json m packet
    | _ => True

/-- The discipline of the handler of a request; nothing is demanded any more once a reply was
not as expected. -/
def answering (json : Nlohmann) (K : Connection) (r : Request) :
    Prog.Discipline Reply (Option Progress) where
  allows
    | none, _ => True
    | some m, c => r.allows json K m c
  next
    | none, _, _ => none
    | some m, c, reply => if r.expects json K c reply then some (m.next K.fd c reply) else none
  returns _ := True

end Request

open Request

variable {json : Nlohmann} {K : Connection} {r : Request} {m : Progress} {α : Type}

theorem follows_none (p : Handler α) : p.Follows (answering json K r) none := by
  induction p with
  | ret a => trivial
  | call c k ih => exact ⟨trivial, fun reply => ih reply⟩

/-- A call and its reply. -/
theorem follows_call {c : Call} {k : Reply c → Handler α} (hallows : r.allows json K m c)
    (hk : ∀ reply, r.expects json K c reply = true →
      (k reply).Follows (answering json K r) (some (m.next K.fd c reply))) :
    Prog.Follows (answering json K r) (some m) (.call c k) := by
  refine ⟨hallows, fun reply => ?_⟩
  show (k reply).Follows _
    (if r.expects json K c reply then some (m.next K.fd c reply) else none)
  by_cases hreply : r.expects json K c reply = true
  · rw [if_pos hreply]
    exact hk reply hreply
  · rw [if_neg hreply]
    exact follows_none _

/-! ### Answers -/

/-- A packet that does not grant the request, before it has been applied. -/
theorem answered_failure {response : Packet} (htype : response.type ≠ r.okType)
    (hm : m.applied = false) : r.Answered json m response := by
  intro c b c' h
  obtain ⟨rfl, rfl⟩ := answered_other htype h
  refine ⟨hm.symm, ?_⟩
  rw [Progress.roomCode, hm]
  rfl

/-- The answer that carries the code of the room that was entered. -/
theorem answered_roomCode {response : Packet} {code : Bytes} (hr : r.Enters code)
    (htype : response.type = r.okType) (hparse : parseRoomResponsePacket json response = .ok code)
    (hcode : code ≠ []) : r.Answered json ⟨some code, true, none⟩ response := by
  have hroom : ∀ ok c b c', response.type = ok →
      RoomService.roomAnswered json ok c response = .ok (b, c') →
      b = true ∧ c'.m_current_room_code = code := by
    intro ok c b c' hok h
    rw [RoomService.roomAnswered, if_pos hok, hparse] at h
    simp only [if_pos hcode] at h
    cases h
    exact ⟨rfl, rfl⟩
  intro c b c' h
  cases r with
  | registerNickname nickname => exact hr.elim
  | createRoom name max => exact hroom _ c b c' htype h
  | joinRoom roomCode => exact hroom _ c b c' htype h
  | exitRoom => exact hr.elim

/-- The last call: the answer. -/
theorem follows_sendPacket {packet : Packet} (hm : m.answer = none)
    (hpacket : r.Answered json m packet) :
    (sendPacket K.fd packet).Follows (answering json K r) (some m) :=
  follows_call ⟨hm, fun _ => hpacket⟩ fun _ _ => trivial

/-- A refusal. -/
theorem follows_refuse {packet : Packet} (hm : m.answer = none) (happlied : m.applied = false)
    (htype : packet.type ≠ r.okType) :
    (sendPacket K.fd packet).Follows (answering json K r) (some m) :=
  follows_sendPacket hm (answered_failure htype happlied)

theorem follows_sendEach_bind {f : Unit → Handler α} (packet : Packet) (fds : List Fd)
    (hm : m.answer = none) (hf : (f ()).Follows (answering json K r) (some m)) :
    (sendEach packet K.fd fds >>= f).Follows (answering json K r) (some m) := by
  induction fds with
  | nil => exact hf
  | cons g fds ih =>
    rw [sendEach]
    by_cases hg : g ≠ K.fd
    · rw [if_pos hg]
      refine follows_call ⟨hm, fun h => absurd h hg⟩ fun _ _ => ?_
      have hsame : m.next K.fd (.send g packet) () = m := if_neg hg
      rw [hsame]
      exact ih
    · rw [if_neg hg]
      exact ih

theorem follows_broadcastPacketForRoom_bind {f : Unit → Handler α} (packet : Packet)
    (code : Bytes) (hm : m.answer = none) (hf : (f ()).Follows (answering json K r) (some m)) :
    (broadcastPacketForRoom packet code K.fd >>= f).Follows (answering json K r) (some m) := by
  refine follows_call ⟨hm, trivial⟩ fun found _ => ?_
  cases found with
  | none => exact hf
  | some fds => exact follows_sendEach_bind packet fds hm hf

/-! ### Handlers -/

variable {p : Packet}

/-- The handler reads what the client has written. -/
theorem parse_requestPacket (hjson : json.Lawful) {type : PacketType} {key value : Bytes}
    (hkey : key.utf8 = true) (hp : requestPacket json type [(key, .string value)] = .ok p)
    (hfits : p.payload.length ≤ maxPayloadSize) :
    json.parse p.text = .ok (.object [(key, .string value)]) := by
  have hp : (json.dump (.object [(key, .string value)])).map (Packet.ofText type) = .ok p := hp
  cases hdump : json.dump (.object [(key, .string value)]) with
  | error e =>
    rw [hdump] at hp
    cases hp
  | ok t =>
    rw [hdump] at hp
    cases hp
    have hvalue : value.utf8 = true := hjson.dump_utf8 hdump List.mem_cons_self
    have hvalid : (Json.ofFields [(key, .string value)]).Valid json.double :=
      Json.Valid.ofFields (List.forall_mem_singleton.mpr hkey)
        (List.forall_mem_singleton.mpr (Json.Valid.string hvalue))
    have hfits : t.length ≤ maxPayloadSize := hfits
    rw [Packet.text_ofText hfits]
    exact hjson.parse_dump hvalid hdump

theorem field?_single (key : Bytes) (v : Json) : (Json.object [(key, v)]).field? key = some v := by
  show List.lookup key [(key, v)] = some v
  rw [List.lookup_cons, beq_self_eq_true]

theorem eq_of_asksForNickname (hjson : json.Lawful) {nickname asked : Bytes}
    (hp : createNicknameRequestPacket json nickname = .ok p)
    (hfits : p.payload.length ≤ maxPayloadSize) (h : AsksForNickname json p asked) :
    asked = nickname := by
  obtain ⟨data, hdata, hname⟩ := h
  have hparse := parse_requestPacket hjson (by decide +kernel) hp hfits
  obtain rfl := Except.ok.inj (hdata.symm.trans hparse)
  rw [NicknameHandler.nickname?, field?_single] at hname
  exact (Option.some.inj hname).symm

theorem eq_of_asksToJoin (hjson : json.Lawful) {code asked : Bytes}
    (hp : createRoomJoinPacket json code = .ok p) (hfits : p.payload.length ≤ maxPayloadSize)
    (h : AsksToJoin json p asked) : asked = code := by
  obtain ⟨data, hdata, hcode⟩ := h
  have hparse := parse_requestPacket hjson (by decide +kernel) hp hfits
  obtain rfl := Except.ok.inj (hdata.symm.trans hparse)
  rw [RoomHandler.roomCode?, field?_single] at hcode
  exact (Option.some.inj hcode).symm

theorem follows_nicknameHandler {nickname : Bytes} (hr : r = .registerNickname nickname)
    (hasks : ∀ asked, AsksForNickname json p asked → asked = nickname) :
    (NicknameHandler.handle json K.fd p).Follows (answering json K r) (some .fresh) := by
  subst hr
  have hfail : PacketType.nicknameResponseFail ≠ PacketType.nicknameResponseOk := by decide
  unfold NicknameHandler.handle
  cases hparse : json.parse p.text with
  | error e => exact follows_refuse rfl rfl hfail
  | ok data =>
    cases hname : NicknameHandler.nickname? data with
    | none =>
      simp only [hname]
      exact follows_refuse rfl rfl hfail
    | some asked =>
      obtain rfl := hasks asked ⟨data, hparse, hname⟩
      simp only [hname]
      refine follows_call ⟨rfl, trivial⟩ fun taken _ => ?_
      cases taken with
      | true => exact follows_refuse rfl rfl hfail
      | false =>
        refine follows_call ⟨rfl, rfl, rfl⟩ fun _ _ => follows_sendPacket rfl ?_
        -- the nickname is registered, and the answer says so
        intro c b c' h
        cases h
        exact ⟨rfl, rfl⟩

theorem expects_getClient {fd : Fd} {found : Option (Connection × ClientInfo)}
    (h : r.expects json K (.getClient fd) found = true) :
    ∃ info, found = some (K, info) ∧ info.nickname.utf8 = true := by
  cases found with
  | none => cases h
  | some x =>
    obtain ⟨conn, info⟩ := x
    have h : (decide (conn = K) && Bytes.utf8 info.nickname) = true := h
    rw [Bool.and_eq_true, decide_eq_true_iff] at h
    obtain ⟨rfl, hname⟩ := h
    exact ⟨info, rfl, hname⟩

/-- The creator's joining. -/
theorem follows_joinCreator_bind {f : Unit → Handler α} {name code : Bytes} {max : Int32}
    (hr : r = .createRoom name max)
    (hf : readable json code = true →
      (f ()).Follows (answering json K r) (some ⟨some code, true, none⟩)) :
    (RoomHandler.joinCreator K.fd code >>= f).Follows (answering json K r) (some .fresh) := by
  subst hr
  refine follows_call ⟨rfl, rfl⟩ fun found hfound => ?_
  obtain ⟨info, rfl, -⟩ := expects_getClient hfound
  refine follows_call ⟨rfl, rfl, rfl, rfl, trivial⟩ fun joined hjoined => ?_
  cases joined with
  | false => cases hjoined
  | true => exact follows_call ⟨rfl, rfl, rfl⟩ fun _ _ => hf hjoined

theorem follows_handleCreateRoom (hjson : json.Lawful) {name : Bytes} {max : Int32}
    (hr : r = .createRoom name max) :
    (RoomHandler.handleCreateRoom json K.fd p).Follows (answering json K r) (some .fresh) := by
  have hfail : PacketType.roomCreateFail ≠ r.okType := by
    rw [hr]
    show PacketType.roomCreateFail ≠ PacketType.roomCreateOk
    decide
  unfold RoomHandler.handleCreateRoom
  cases json.parse p.text with
  | error e => exact follows_refuse rfl rfl hfail
  | ok data =>
    cases hasks : RoomHandler.createRequest json data with
    | error reason =>
      simp only [hasks]
      exact follows_refuse rfl rfl hfail
    | ok asked =>
      simp only [hasks]
      refine follows_call ⟨rfl, trivial⟩ fun code _ => ?_
      show Prog.Follows _ _ (if code = [] then _ else _)
      by_cases hcode : code = []
      · rw [if_pos hcode]
        exact follows_refuse rfl rfl hfail
      · rw [if_neg hcode]
        refine follows_joinCreator_bind hr fun hreadable => follows_sendPacket rfl ?_
        obtain ⟨response, hresponse, htype, hparse⟩ :=
          parse_roomCodeResponse hjson PacketType.roomCreateOk hreadable
        rw [RoomHandler.createAnswer, hresponse]
        subst hr
        exact answered_roomCode trivial htype hparse hcode

theorem follows_finishJoin (hjson : json.Lawful) {nickname code : Bytes}
    (hr : r = .joinRoom code) (hnickname : nickname.utf8 = true)
    (hreadable : readable json code = true) :
    (RoomHandler.finishJoin json K.fd nickname code).Follows (answering json K r)
      (some ⟨some code, true, none⟩) := by
  obtain ⟨response, hresponse, htype, hparse⟩ :=
    parse_roomCodeResponse hjson PacketType.roomJoinOk hreadable
  obtain ⟨notice, hnotice, -⟩ := userNotice_ok hjson PacketType.roomUserJoin K.fd hnickname
  rw [RoomHandler.finishJoin, hresponse]
  simp only [hnotice]
  subst hr
  exact follows_broadcastPacketForRoom_bind notice code rfl
    (follows_sendPacket rfl (answered_roomCode rfl htype hparse (readable_iff.mp hreadable).1))

theorem follows_handleJoinRoom (hjson : json.Lawful) {code : Bytes} (hr : r = .joinRoom code)
    (hasks : ∀ asked, AsksToJoin json p asked → asked = code) :
    (RoomHandler.handleJoinRoom json K.fd p).Follows (answering json K r) (some .fresh) := by
  have hfail : PacketType.roomJoinFail ≠ r.okType := by
    rw [hr]
    show PacketType.roomJoinFail ≠ PacketType.roomJoinOk
    decide
  unfold RoomHandler.handleJoinRoom
  cases hparse : json.parse p.text with
  | error e => exact follows_refuse rfl rfl hfail
  | ok data =>
    cases hcode : RoomHandler.roomCode? data with
    | none =>
      simp only [hcode]
      exact follows_refuse rfl rfl hfail
    | some asked =>
      obtain rfl := hasks asked ⟨data, hparse, hcode⟩
      simp only [hcode]
      refine follows_call ⟨rfl, rfl⟩ fun found hfound => ?_
      obtain ⟨info, rfl, hnickname⟩ := expects_getClient hfound
      show Prog.Follows _ _ (if info.roomCode ≠ [] then _ else _)
      by_cases hin : info.roomCode ≠ []
      · rw [if_pos hin]
        exact follows_refuse rfl rfl hfail
      · rw [if_neg hin]
        have henters : r.Enters asked := by rw [hr]; rfl
        refine follows_call ⟨rfl, rfl, rfl, rfl, henters⟩ fun joined hjoined => ?_
        cases joined with
        | false => exact follows_refuse rfl rfl hfail
        | true =>
          exact follows_call ⟨rfl, rfl, rfl⟩ fun _ _ =>
            follows_finishJoin hjson hr hnickname hjoined

/-- **What the handler of a request answers.** -/
theorem follows_handle (hjson : json.Lawful) {now : LocalTime} (hr : r ≠ .exitRoom)
    (hp : r.packet json = .ok p) (hfits : p.payload.length ≤ maxPayloadSize) :
    (PacketHandler.handle json now K.fd p).Follows (answering json K r) (some .fresh) := by
  have htype := type_packet hp
  unfold PacketHandler.handle
  cases hcase : r with
  | registerNickname nickname =>
    subst hcase
    have htype : p.type = PacketType.nicknameRequest := htype
    rw [if_pos htype]
    exact follows_nicknameHandler rfl fun asked h => eq_of_asksForNickname hjson hp hfits h
  | createRoom name max =>
    subst hcase
    have htype : p.type = PacketType.createRoom := htype
    rw [if_neg (by rw [htype]; decide), if_neg (by rw [htype]; decide), if_pos (Or.inl htype),
      RoomHandler.handle, if_pos htype]
    exact follows_handleCreateRoom hjson rfl
  | joinRoom code =>
    subst hcase
    have htype : p.type = PacketType.joinRoom := htype
    rw [if_neg (by rw [htype]; decide), if_neg (by rw [htype]; decide),
      if_pos (Or.inr (Or.inl htype)), RoomHandler.handle, if_neg (by rw [htype]; decide),
      if_neg (by rw [htype]; decide), if_pos htype]
    exact follows_handleJoinRoom hjson rfl fun asked h => eq_of_asksToJoin hjson hp hfits h
  | exitRoom => exact absurd hcase hr

end Client

end SocketChat
