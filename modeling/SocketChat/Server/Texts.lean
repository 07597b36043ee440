/-
The texts in answers and notices.

Room codes come from the generator and nicknames from parsed JSON, so both are always
UTF-8, and a lawful library writes every answer and every notice that carries one: the
handlers' exception paths after a successful parse are never taken in a sequential run.
-/
import SocketChat.Server.Effects

namespace SocketChat

variable {json : Nlohmann} {now : LocalTime} {s s' : Server} {fd : Fd} {info : ClientInfo}
  {p : Packet}

theorem ascii_chars : ∀ c ∈ CodeStream.chars, c < 0x80 := by decide +kernel

theorem CodeStream.utf8_ofIndices (dis : ℕ → Fin 62) (k : ℕ) :
    Bytes.utf8 ((CodeStream.ofIndices dis).code k) = true :=
  Bytes.utf8_of_ascii fun c hc => ascii_chars c (mem_chars_of_mem_code hc)

/-- The JSON object of an answer that carries a room code. -/
def roomCodeJson (code : Bytes) : Json := Json.ofFields [(str "roomCode", .string code)]

theorem roomCodeResponse_eq_ok {type : PacketType} {code : Bytes} {response : Packet} :
    roomCodeResponse json type code = .ok response ↔
      ∃ t, json.dump (roomCodeJson code) = .ok t ∧ response = Packet.ofTextCapped type t := by
  show (json.dump (roomCodeJson code)).map (Packet.ofTextCapped type) = _ ↔ _
  cases json.dump (roomCodeJson code) with
  | error e => simp [Except.map]
  | ok t => simp [Except.map, eq_comm]

/-- The JSON object of a notice that names a user. -/
def userJson (fd : Fd) (nickname : Bytes) : Json :=
  Json.ofFields [(str "clientFd", .numberInteger fd.toInt),
    (str "nickname", .string (if nickname = [] then str "Anonymous" else nickname))]

theorem userNotice_eq_ok {type : PacketType} {nickname : Bytes} {notice : Packet} :
    userNotice json type fd nickname = .ok notice ↔
      ∃ t, json.dump (userJson fd nickname) = .ok t ∧ notice = Packet.ofTextCapped type t := by
  show (json.dump (userJson fd nickname)).map (Packet.ofTextCapped type) = _ ↔ _
  cases json.dump (userJson fd nickname) with
  | error e => simp [Except.map]
  | ok t => simp [Except.map, eq_comm]

/-- An answer that carries a room code. -/
theorem roomCodeResponse_ok (hjson : json.Lawful) (type : PacketType) {code : Bytes}
    (hcode : code.utf8 = true) :
    ∃ response, roomCodeResponse json type code = .ok response ∧ response.type = type := by
  have hkey : Bytes.utf8 (str "roomCode") = true := by decide +kernel
  have hvalid : (roomCodeJson code).Valid json.double :=
    Json.Valid.ofFields (List.forall_mem_singleton.mpr hkey)
      (List.forall_mem_singleton.mpr (Json.Valid.string hcode))
  obtain ⟨t, ht⟩ := hjson.dump_valid hvalid
  exact ⟨Packet.ofTextCapped type t, roomCodeResponse_eq_ok.mpr ⟨t, ht, rfl⟩, rfl⟩

theorem valid_descriptor (json : Nlohmann) (fd : Fd) :
    (Json.numberInteger fd.toInt).Valid json.double := by
  have hlo : -2 ^ 31 ≤ fd.toInt := fd.le_toInt
  have hhi : fd.toInt < 2 ^ 31 := fd.toInt_lt
  exact Json.Valid.numberInteger (by omega) (by omega)

theorem valid_userJson (json : Nlohmann) (fd : Fd) {nickname : Bytes}
    (hnickname : nickname.utf8 = true) : (userJson fd nickname).Valid json.double := by
  have hname : Bytes.utf8 (if nickname = [] then str "Anonymous" else nickname) = true := by
    by_cases h : nickname = []
    · rw [if_pos h]
      decide +kernel
    · rw [if_neg h]
      exact hnickname
  refine Json.Valid.ofFields ?_ ?_
  · intro a ha
    rcases List.mem_pair.mp ha with rfl | rfl
    · show Bytes.utf8 (str "clientFd") = true
      decide +kernel
    · show Bytes.utf8 (str "nickname") = true
      decide +kernel
  · intro a ha
    rcases List.mem_pair.mp ha with rfl | rfl
    · exact valid_descriptor json fd
    · exact Json.Valid.string hname

/-- A notice that names a user. -/
theorem userNotice_ok (hjson : json.Lawful) (type : PacketType) (fd : Fd) {nickname : Bytes}
    (hnickname : nickname.utf8 = true) :
    ∃ notice, userNotice json type fd nickname = .ok notice ∧ notice.type = type := by
  obtain ⟨t, ht⟩ := hjson.dump_valid (valid_userJson json fd hnickname)
  exact ⟨Packet.ofTextCapped type t, userNotice_eq_ok.mpr ⟨t, ht, rfl⟩, rfl⟩

/-- Codes still to be drawn, codes of rooms and nicknames are UTF-8. -/
structure Server.Texts (s : Server) : Prop where
  codes : ∀ k, Bytes.utf8 (s.roomManager.codes.code k) = true
  rooms : ∀ code room, s.room? code = some room → code.utf8 = true
  names : ∀ fd client, s.client? fd = some client → client.nickname.utf8 = true

/-- A nickname that is asked for is UTF-8, as everything that is parsed. -/
theorem AsksForNickname.utf8 (hjson : json.Lawful) {nickname : Bytes}
    (h : AsksForNickname json p nickname) : nickname.utf8 = true := by
  obtain ⟨data, hparse, hname⟩ := h
  obtain ⟨v, hfield, hstring⟩ := Option.bind_eq_some_iff.mp hname
  have hvalid := (hjson.parse_valid hparse).field hfield
  cases v with
  | string t =>
    cases hstring
    cases hvalid with
    | string ht => exact ht
  | _ => cases hstring

theorem Handled.names (hjson : json.Lawful) (h : s.client? fd = some info)
    (hh : Handled json now s fd info p s')
    (hs : ∀ g client, s.client? g = some client → client.nickname.utf8 = true) :
    ∀ g client, s'.client? g = some client → client.nickname.utf8 = true := by
  intro g client hclient
  by_cases hg : g = fd
  · subst hg
    obtain ⟨info', h', hrecord⟩ := hh.exists_record h
    rw [h', Option.some_inj] at hclient
    rcases hrecord with ⟨code, rfl⟩ | ⟨nickname, hasks, rfl⟩
    · exact hclient ▸ hs g info h
    · exact hclient ▸ hasks.utf8 hjson
  · rw [hh.client?_ne h hg] at hclient
    exact hs g client hclient

/-- What is true of all codes still to be drawn stays true of them. -/
theorem Handled.codes {P : Bytes → Prop} (hh : Handled json now s fd info p s')
    (hs : ∀ k, P (s.roomManager.codes.code k)) : ∀ k, P (s'.roomManager.codes.code k) := by
  cases hh with
  | ignored | chat | registered | joined => exact hs
  | refused response n => exact fun k => hs (n + k)
  | created name max code n => exact fun k => hs (n + k)
  | createdEmpty name code n => exact fun k => hs (n + k)
  | exited =>
    show ∀ k, P ((s.roomManager.leaveRoom fd info.roomCode).codes.code k)
    rw [RoomManager.codes_leaveRoom]
    exact hs

theorem Handled.texts (hjson : json.Lawful) (h : s.client? fd = some info)
    (hh : Handled json now s fd info p s') (hs : s.Texts) : s'.Texts := by
  refine ⟨hh.codes (P := fun code => code.utf8 = true) hs.codes, fun code room hroom => ?_,
    hh.names hjson h hs.names⟩
  cases hh.roomAfter hroom with
  | kept hkept => exact hs.rooms code room hkept
  | created hcreates hfresh hcode => exact hcode ▸ hs.codes _
  | joined htype hasks hroom' => exact hs.rooms code _ hroom'
  | left htype hcode hin hnotice hroom' => exact hs.rooms code _ hroom'

theorem Server.Texts.step (hjson : json.Lawful) {e : Event} (hs : s.Texts)
    (hstep : s.step json e = some s') : s'.Texts := by
  obtain ⟨hpossible, hs'⟩ := Server.step_eq_some.mp hstep
  subst hs'
  cases e with
  | accept fd ip added =>
    show (ConnectionManager.acceptNewConnection _ fd ip added).Texts
    rw [ConnectionManager.acceptNewConnection]
    by_cases hadd : 0 < fd ∧ added = true
    · rw [if_pos hadd]
      refine ⟨hs.codes, hs.rooms, fun g client hclient => ?_⟩
      rcases ClientManager.of_getClient_addClient hclient with rfl | hbefore
      · exact Bytes.utf8_nil
      · exact hs.names g client hbefore
    · rw [if_neg hadd]
      exact ⟨hs.codes, hs.rooms, hs.names⟩
  | packet fd p now =>
    obtain ⟨info, h⟩ := Option.isSome_iff_exists.mp hpossible.1
    have hh : Handled json now { s with sent := [] } fd info p _ := exec_handle p h
    exact hh.texts hjson (s := { s with sent := [] }) h ⟨hs.codes, hs.rooms, hs.names⟩
  | close fd =>
    refine ⟨hs.codes, hs.rooms, fun g client hclient => ?_⟩
    exact hs.names g client (ClientManager.of_getClient_removeClient hclient)

/-- The same in every state of a run. -/
theorem codes_of_run {P : Bytes → Prop} {codes : CodeStream} {events : List Event}
    (hcodes : ∀ k, P (codes.code k))
    (hrun : Transition.runFrom (Server.step json) (Server.init codes) events = some s) :
    ∀ k, P (s.roomManager.codes.code k) := by
  refine Transition.runFrom_always (J := fun t => ∀ k, P (t.roomManager.codes.code k)) ?_ hrun
    hcodes
  intro t e t' ht hstep
  obtain ⟨hpossible, ht'⟩ := Server.step_eq_some.mp hstep
  subst ht'
  cases e with
  | accept fd ip added =>
    show ∀ k, P ((ConnectionManager.acceptNewConnection _ fd ip added).roomManager.codes.code k)
    rw [ConnectionManager.acceptNewConnection]
    by_cases hadd : 0 < fd ∧ added = true
    · rw [if_pos hadd]
      exact ht
    · rw [if_neg hadd]
      exact ht
  | packet fd p now =>
    obtain ⟨info, h⟩ := Option.isSome_iff_exists.mp hpossible.1
    have hh : Handled json now { t with sent := [] } fd info p _ := exec_handle p h
    exact hh.codes ht
  | close fd => exact ht

theorem Server.texts_init (dis : ℕ → Fin 62) : (Server.init (CodeStream.ofIndices dis)).Texts := by
  refine ⟨CodeStream.utf8_ofIndices dis, fun code room h => ?_, fun fd client h => ?_⟩
  · rw [Server.room?_init] at h
    cases h
  · rw [Server.client?_init] at h
    cases h

end SocketChat
