/-
What a client reads in a notice.

A notice names a user by descriptor and nickname.  The server writes it with
`std::min(length, MAX_PAYLOAD_SIZE)` as its size, and `NicknameHandler` accepts a nickname
of any length a packet can hold, so the text around it can be cut off.
`readsNotice_iff_fits` shows that nothing else goes wrong.
-/
import SocketChat.Server.Notices

namespace SocketChat

open Client

/-- The packet is the whole notice about client `fd` with record `info`, and reads as a
message that names it. -/
structure ReadsNotice (json : Nlohmann) (notice : Packet) (fd : Fd) (info : ClientInfo) : Prop where
  whole : json.dump (userJson fd info.nickname) = .ok notice.text
  read : ∃ message, parseMessagePacket json notice = .ok message ∧
    message.type = (if notice.type = PacketType.roomUserJoin then .userJoin else .userExit) ∧
    message.senderFd = fd ∧
    message.senderNickname = if info.nickname = [] then str "Anonymous" else info.nickname

/-- The two types of notices. -/
def IsNotice (type : PacketType) : Prop :=
  type = PacketType.roomUserJoin ∨ type = PacketType.roomUserExit

instance (type : PacketType) : Decidable (IsNotice type) := inferInstanceAs (Decidable (_ ∨ _))

variable {json : Nlohmann} {now : LocalTime} {s s' : Server} {fd g : Fd} {info : ClientInfo}
  {p notice : Packet}

theorem messageType_notice {type : PacketType} (h : IsNotice type) :
    messageType type = if type = PacketType.roomUserJoin then .userJoin else .userExit := by
  rcases h with rfl | rfl
  · rfl
  · rfl

theorem not_isNotice_failType (type : PacketType) : ¬ IsNotice (failType type) := by
  rintro (h | h)
  · exact (failType_ne_notice type).1 h
  · exact (failType_ne_notice type).2 h

theorem not_isNotice_createAnswer (json : Nlohmann) (code : Bytes) :
    ¬ IsNotice (RoomHandler.createAnswer json code).type := by
  rintro (h | h)
  · exact (createAnswer_ne_notice json code).1 h
  · exact (createAnswer_ne_notice json code).2 h

/-- The answer to a request is no notice. -/
theorem not_mem_answer {answer : Packet} (hanswer : ¬ IsNotice answer.type)
    (hnotice : IsNotice notice.type) : (g, notice) ∉ [(fd, answer)] := by
  intro hmem
  obtain ⟨-, rfl⟩ := Prod.mk.inj (List.mem_singleton.mp hmem)
  exact hanswer hnotice

/-- The notice among what is sent to others, and an answer. -/
theorem mem_notice {l : List Fd} {packet answer : Packet} (hanswer : ¬ IsNotice answer.type)
    (hnotice : IsNotice notice.type) (h : (g, notice) ∈ l.map (·, packet) ++ [(fd, answer)]) :
    notice = packet := by
  rcases List.mem_append.mp h with hmem | hmem
  · obtain ⟨g', -, heq⟩ := List.mem_map.mp hmem
    exact (Prod.mk.inj heq).2.symm
  · exact absurd hmem (not_mem_answer hanswer hnotice)

theorem mem_joinPackets {nickname code : Bytes} {others : List Fd}
    (h : (g, notice) ∈ joinPackets json fd nickname code others) (hnotice : IsNotice notice.type) :
    userNotice json PacketType.roomUserJoin fd nickname = .ok notice := by
  have hfail : ∀ e : Json.Error, ¬ IsNotice (jsonErrorResponse PacketType.roomJoinFail e).type :=
    fun e => not_isNotice_failType PacketType.joinRoom
  rw [joinPackets] at h
  cases hresponse : roomCodeResponse json PacketType.roomJoinOk code with
  | error e =>
    rw [hresponse] at h
    exact absurd h (not_mem_answer (hfail e) hnotice)
  | ok response =>
    rw [hresponse] at h
    have hanswer : ¬ IsNotice response.type := by
      obtain ⟨t, -, rfl⟩ := roomCodeResponse_eq_ok.mp hresponse
      show ¬ IsNotice PacketType.roomJoinOk
      decide
    cases hwritten : userNotice json PacketType.roomUserJoin fd nickname with
    | error e =>
      simp only [hwritten] at h
      exact absurd h (not_mem_answer (hfail e) hnotice)
    | ok written =>
      simp only [hwritten] at h
      rw [mem_notice hanswer hnotice h]

/-- A notice that is sent is about the client whose packet is handled. -/
theorem Handled.about (hh : Handled json now s fd info p s') (hempty : s.sent = [])
    (hsent : (g, notice) ∈ s'.sent) (hnotice : IsNotice notice.type) :
    userNotice json notice.type fd info.nickname = .ok notice := by
  have htype : ∀ {type}, userNotice json type fd info.nickname = .ok notice →
      userNotice json notice.type fd info.nickname = .ok notice := by
    intro type hwritten
    obtain ⟨t, -, rfl⟩ := userNotice_eq_ok.mp hwritten
    exact hwritten
  cases hh with
  | ignored =>
    rw [hempty] at hsent
    cases hsent
  -- a chat message is sent to the others as well, but is no notice
  | chat broadcast htype' hauth hroom hbroadcast =>
    rw [hempty, List.nil_append] at hsent
    obtain ⟨g', -, heq⟩ := List.mem_map.mp hsent
    obtain ⟨-, rfl⟩ := Prod.mk.inj heq
    rw [MessageHandler.type_broadcastPacket hbroadcast] at hnotice
    exact absurd hnotice (by decide)
  | refused response n htype' hresponse =>
    rw [hempty, List.nil_append] at hsent
    exact absurd hsent (not_mem_answer (hresponse ▸ not_isNotice_failType _) hnotice)
  | registered nickname =>
    rw [hempty, List.nil_append] at hsent
    exact absurd hsent (not_mem_answer (by decide) hnotice)
  | created name max code =>
    rw [hempty, List.nil_append] at hsent
    exact absurd hsent (not_mem_answer (not_isNotice_createAnswer json code) hnotice)
  | createdEmpty name code =>
    rw [hempty, List.nil_append] at hsent
    exact absurd hsent (not_mem_answer (not_isNotice_createAnswer json code) hnotice)
  | joined code room =>
    rw [hempty, List.nil_append] at hsent
    exact htype (mem_joinPackets hsent hnotice)
  | exited packet htype' hin hwritten =>
    rw [hempty, List.nil_append] at hsent
    obtain rfl := mem_notice (by decide) hnotice hsent
    exact htype hwritten

/-- **A notice is read as it was meant exactly when its text fits a packet.** -/
theorem readsNotice_iff_fits (json : Nlohmann) (hjson : json.Lawful) (hcut : json.RejectsCut)
    (dis : ℕ → Fin 62) (events : List Event) (s s' : Server)
    (hrun : Transition.runFrom (Server.step json) (Server.init (CodeStream.ofIndices dis))
      events = some s)
    (fd : Fd) (p : Packet) (now : LocalTime) (hstep : s.step json (.packet fd p now) = some s')
    (g : Fd) (notice : Packet) (hsent : (g, notice) ∈ s'.sent) (hnotice : IsNotice notice.type) :
    ∃ info, s.client? fd = some info ∧
      (ReadsNotice json notice fd info ↔ NoticeFits json s fd) := by
  obtain ⟨info, h, hh⟩ := handled_of_step hstep
  have hwritten := hh.about rfl hsent hnotice
  have hname : info.nickname.utf8 = true := (visits_texts hjson hrun).names fd info h
  refine ⟨info, h, fun hreads => ?_, fun hfits => ?_⟩
  · by_contra hlong
    -- a text that is cut off does not parse: the client throws, or makes an empty chat message
    -- of it
    obtain ⟨e, herror⟩ := readMessage_cut hcut h hname hwritten hlong
    obtain ⟨message, hread, hkind, -⟩ := hreads.read
    rw [parseMessagePacket, herror] at hread
    by_cases hparse : e.kind = .parseError
    · simp only [if_pos hparse] at hread
      cases hread
      by_cases hjoin : notice.type = PacketType.roomUserJoin
      · rw [if_pos hjoin] at hkind
        cases hkind
      · rw [if_neg hjoin] at hkind
        cases hkind
    · simp only [if_neg hparse] at hread
      cases hread
  · obtain ⟨hwhole, hparse⟩ := parse_userNotice hjson h hname hwritten hfits
    have hmessage : messageType notice.type = .userJoin ∨ messageType notice.type = .userExit := by
      rcases hnotice with hjoin | hexit
      · exact Or.inl (congrArg messageType hjoin)
      · exact Or.inr (congrArg messageType hexit)
    obtain ⟨message, hread, hkind, hsender, hnickname⟩ := parseMessagePacket_notice hmessage hparse
    exact ⟨hwhole, message, hread, hkind.trans (messageType_notice hnotice), hsender, hnickname⟩

/-- Client 6 comes to the room client 5 is in, under a nickname of the given letters. -/
def joinUnder (nickname : Bytes) : List Event :=
  [.accept 5 (str "10.0.0.1") true, .accept 6 (str "10.0.0.2") true, createRoomEvent 5,
    .request 6 PacketType.nicknameRequest
      (str "\x7b\"nickname\":\"" ++ nickname ++ str "\"\x7d")]

/-- The notice client 5 is sent then. -/
theorem exists_joinNotice (nickname : Bytes) (check : Server → Packet → Bool)
    (h : (Transition.runFrom (Server.step Nlohmann.integral) (Server.init CodeStream.inOrder)
      (joinUnder nickname)).any (fun s =>
        (s.step Nlohmann.integral (joinRoomEvent 6 "aaaaaaaa")).any fun s' =>
          s'.sent.any fun x => x.1 == 5 && decide (IsNotice x.2.type) && check s x.2) = true) :
    ∃ s s' notice, Transition.runFrom (Server.step Nlohmann.integral)
        (Server.init CodeStream.inOrder) (joinUnder nickname) = some s ∧
      s.step Nlohmann.integral (joinRoomEvent 6 "aaaaaaaa") = some s' ∧ (5, notice) ∈ s'.sent ∧
      IsNotice notice.type ∧ check s notice = true := by
  obtain ⟨s, hrun, h⟩ := (Option.any_eq_true _ _).mp h
  obtain ⟨s', hstep, h⟩ := (Option.any_eq_true _ _).mp h
  obtain ⟨⟨g, notice⟩, hsent, h⟩ := List.any_eq_true.mp h
  rw [Bool.and_eq_true, Bool.and_eq_true] at h
  obtain ⟨⟨hg, hnotice⟩, hcheck⟩ := h
  obtain rfl : g = 5 := eq_of_beq hg
  exact ⟨s, s', notice, hrun, hstep, hsent, of_decide_eq_true hnotice, hcheck⟩

theorem readsNotice_iff_fits_ann : ∃ s s' notice,
    Transition.runFrom (Server.step Nlohmann.integral) (Server.init CodeStream.inOrder)
      (joinUnder (str "ann")) = some s ∧
    s.step Nlohmann.integral (joinRoomEvent 6 "aaaaaaaa") = some s' ∧ (5, notice) ∈ s'.sent ∧
    ∃ info, s.client? 6 = some info ∧
      (ReadsNotice Nlohmann.integral notice 6 info ↔ NoticeFits Nlohmann.integral s 6) := by
  obtain ⟨s, s', notice, hrun, hstep, hsent, hnotice, -⟩ :=
    exists_joinNotice (str "ann") (fun _ _ => true) (by decide +kernel)
  exact ⟨s, s', notice, hrun, hstep, hsent,
    readsNotice_iff_fits Nlohmann.integral Nlohmann.lawful_integral Nlohmann.rejectsCut_integral
      CodeStream.indicesInOrder _ s s' hrun 6 _ noon hstep 5 notice hsent hnotice⟩

/-- A thousand letters, which the server accepts as a nickname. -/
def longNickname : Bytes := List.replicate 1000 0x61

/-- The notice about a client of such a name reads as an empty chat message. -/
theorem not_readsNotice : ∃ s s' notice info,
    Transition.runFrom (Server.step Nlohmann.integral) (Server.init CodeStream.inOrder)
      (joinUnder longNickname) = some s ∧
    s.step Nlohmann.integral (joinRoomEvent 6 "aaaaaaaa") = some s' ∧ (5, notice) ∈ s'.sent ∧
    IsNotice notice.type ∧ s.client? 6 = some info ∧ info.nickname = longNickname ∧
    parseMessagePacket Nlohmann.integral notice = .ok Message.empty ∧
    ¬ ReadsNotice Nlohmann.integral notice 6 info := by
  obtain ⟨s, s', notice, hrun, hstep, hsent, hnotice, hcheck⟩ :=
    exists_joinNotice longNickname (fun (s : Server) (notice : Packet) =>
      (s.client? 6).any (fun info : ClientInfo => decide (info.nickname = longNickname)) &&
        decide ((parseMessagePacket Nlohmann.integral notice).toOption = some Message.empty))
      (by decide +kernel)
  rw [Bool.and_eq_true, Option.any_eq_true] at hcheck
  obtain ⟨⟨info, h, hname⟩, hread⟩ := hcheck
  have hempty := Json.ok_of_toOption (of_decide_eq_true hread)
  refine ⟨s, s', notice, info, hrun, hstep, hsent, hnotice, h, of_decide_eq_true hname, hempty,
    fun hreads => ?_⟩
  obtain ⟨message, hmessage, hkind, -⟩ := hreads.read
  rw [hempty] at hmessage
  cases hmessage
  by_cases hjoin : notice.type = PacketType.roomUserJoin
  · rw [if_pos hjoin] at hkind
    cases hkind
  · rw [if_neg hjoin] at hkind
    cases hkind

end SocketChat
