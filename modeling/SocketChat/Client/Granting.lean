/-
How far a request has been granted.

While the handler of a request makes the calls `answering` allows, and all others spare the
client, `Linked` holds: it relates how far the request has been granted to the client's
record, to the rooms that list it, and to the answer, if it was sent.  `Linked.act` is the step
of the handler, `Linked.congr` that of everybody else; a call that receives the answer agrees
with the server (`Linked.agrees`).
-/
import SocketChat.Client.Answering
import SocketChat.Client.Dialogue
import SocketChat.Server.Bystanders

namespace SocketChat

open Client Client.Request

variable {json : Nlohmann} {K : Connection} {s s' : Server} {r : Request} {m : Progress}

/-! ### What the server does with the record -/

/-- The record of the connection and its entries in rooms are kept. -/
structure Steady (K : Connection) (s s' : Server) : Prop where
  client : s'.client? K.fd = s.client? K.fd
  listed : ∀ code, s.Lists code K.fd → s'.Lists code K.fd

theorem Steady.refl (K : Connection) (s : Server) : Steady K s s := ⟨rfl, fun _ h => h⟩

theorem Steady.of_spares {c : Call} (h : c.Spares K.fd) (s : Server) :
    Steady K s (serve c s).2 :=
  ⟨client?_of_spares s h, fun _ hlists => listed_of_spares h hlists⟩

theorem open_serve {c : Call} (h : s.Open K) : (serve c s).2.Open K := by
  rw [Server.Open, isSome_client?_serve, connection_serve]
  exact h

/-- The I/O thread disconnects others only, and connects others only. -/
theorem env_steady {e : IoEvent} (hopen : s.Open K)
    (hcarries : ∀ fd, e = .close fd → s.connection fd ≠ K)
    (h : (Server.system json).env s e = some s') : Steady K s s' ∧ s'.Open K := by
  rcases ThreadPool.env_cases h with ⟨fd, ip, -, -, hnone, rfl⟩ | ⟨fd, rfl, rfl⟩ |
    ⟨-, -, -, -, -, rfl⟩
  -- a descriptor that is connected is not given out by accept
  · have hne : K.fd ≠ fd := by
      intro heq
      have hsome := hopen.1
      rw [heq, hnone] at hsome
      cases hsome
    have hclient : (s.clientManager.addClient fd ip).getClient K.fd = s.client? K.fd := by
      rw [ClientManager.getClient_addClient, if_neg hne]
      rfl
    refine ⟨⟨hclient, fun _ h => h⟩, ?_, ?_⟩
    · show ((s.clientManager.addClient fd ip).getClient K.fd).isSome = true
      rw [hclient]
      exact hopen.1
    · show (⟨K.fd, if K.fd = fd then _ else s.accepts K.fd⟩ : Connection) = K
      rw [if_neg hne]
      exact hopen.2
  · have hne : K.fd ≠ fd := by
      rintro rfl
      exact hcarries K.fd rfl hopen.2
    have hclient : (s.clientManager.removeClient fd).getClient K.fd = s.client? K.fd := by
      rw [ClientManager.getClient_removeClient, if_neg hne]
      rfl
    refine ⟨⟨hclient, fun _ h => h⟩, ?_, hopen.2⟩
    show ((s.clientManager.removeClient fd).getClient K.fd).isSome = true
    rw [hclient]
    exact hopen.1
  · exact ⟨Steady.refl K _, hopen⟩

/-- The replies to the handler of a request are as it expects. -/
theorem expects_serve {c : Call} (hopen : s.Open K)
    (hwritten : s.Written fun code => readable json code = true) (hallows : r.allows json K m c)
    (hadmits : r.createsRoom = true → ∀ fd code, c = .joinRoom fd code →
      (s.roomManager.joinRoom fd code).1 = true) :
    r.expects json K c (serve c s).1 = true := by
  cases c with
  | getClient g =>
    obtain ⟨-, hg⟩ := hallows
    subst hg
    obtain ⟨info, hinfo⟩ := Option.isSome_iff_exists.mp hopen.1
    show ((s.client? K.fd).map fun client => (s.connection K.fd, client)).any _ = true
    rw [hinfo, Option.map_some, Option.any_some, Bool.and_eq_true, decide_eq_true_iff]
    exact ⟨hopen.2, hwritten.names K.fd info hinfo⟩
  | addRoom name max =>
    show ((s.roomManager.addRoom name max).1.isEmpty ||
      readable json (s.roomManager.addRoom name max).1) = true
    rcases s.roomManager.addRoom_cases name max with ⟨hnone, -⟩ | ⟨k, -, hcode, -⟩
    · rw [hnone]
      rfl
    · rw [hcode, hwritten.codes k, Bool.or_true]
  | joinRoom g code =>
    show (if (s.roomManager.joinRoom g code).1 then readable json code else !r.createsRoom) = true
    rcases s.roomManager.joinRoom_cases g code with ⟨hjoin, -⟩ | ⟨room, hroom, -, -, hjoin⟩
    -- the creator of a room gets into it, as `hadmits` has it
    · rw [hjoin, if_neg Bool.false_ne_true, Bool.not_eq_true']
      by_contra hcreates
      have htrue := hadmits (Bool.eq_true_of_not_eq_false hcreates) g code rfl
      rw [hjoin] at htrue
      cases htrue
    · rw [hjoin, if_pos rfl]
      exact hwritten.rooms code room hroom
  | _ => rfl

namespace Dialogue

variable {N : ℕ} {d d' : Dialogue N}

/-! ### The record and the answer -/

/-- How far the request has been granted, as the server and the packets for the client
tell. -/
structure Linked (json : Nlohmann) (K : Connection) (d : Dialogue N) (r : Request)
    (m : Progress) : Prop where
  applied : d.applied = m.applied
  record : ∃ info, d.server.shared.client? K.fd = some info ∧
    (r.EntersRoom → info.roomCode = m.roomCode d.client.m_current_room_code) ∧
    ∀ nickname, r = .registerNickname nickname → m.applied = true → info.nickname = nickname
  listed : ∀ code, m.joined = some code → d.server.shared.Lists code K.fd ∧ r.Enters code
  joined : r.EntersRoom → m.applied = true → m.joined.isSome = true
  answered : ∀ p, m.answer = some p → r.Answered json m p
  incoming : ∀ i p, d.asked = some i → (i, p) ∈ d.incoming → m.answer = some p

/-- What others do changes nothing. -/
theorem Linked.congr (h : Linked json K d r m)
    (hsteady : Steady K d.server.shared d'.server.shared) (hclient : d'.client = d.client)
    (happlied : d'.applied = d.applied)
    (hincoming : ∀ i p, d'.asked = some i → (i, p) ∈ d'.incoming →
      d.asked = some i ∧ (i, p) ∈ d.incoming) : Linked json K d' r m := by
  refine ⟨happlied.trans h.applied, ?_, fun code hcode => ?_, h.joined, h.answered,
    fun i p hasked hp => ?_⟩
  · rw [hsteady.client, hclient]
    exact h.record
  · obtain ⟨hlists, henters⟩ := h.listed code hcode
    exact ⟨hsteady.listed code hlists, henters⟩
  · obtain ⟨hasked', hp'⟩ := hincoming i p hasked hp
    exact h.incoming i p hasked' hp'

theorem lists_joinRoom {fd : Fd} {code : Bytes} (h : (s.roomManager.joinRoom fd code).1 = true) :
    (serve (.joinRoom fd code) s).2.Lists code fd := by
  rcases s.roomManager.joinRoom_cases fd code with ⟨hjoin, -⟩ | ⟨room, hroom, -, -, hjoin⟩
  · rw [hjoin] at h
    cases h
  · have hfind : (s.roomManager.joinRoom fd code).2.rooms.find code =
        some { room with clients := room.clients ++ [fd] } := by
      rw [hjoin]
      exact Table.find_set_self _ _ _
    exact ⟨_, hfind, List.mem_append_right room.clients List.mem_cons_self⟩

/-- The handler of the request, the `i`-th one received, has made the call `c`. -/
structure Acted (K : Connection) (d d' : Dialogue N) (c : Call) (i : ℕ) : Prop where
  shared : d'.server.shared = (serve c d.server.shared).2
  client : d'.client = d.client
  asked : d'.asked = d.asked
  incoming : d'.incoming = d.incoming ++ ((c.sentOn K d.server.shared).map (i, ·)).toList
  applied : d'.applied = (d.applied || c.writesTo K d.server.shared)

/-- A call that spares the client and sends it nothing. -/
theorem Linked.spared {c : Call} {i : ℕ} (h : Linked json K d r m) (hacted : Acted K d d' c i)
    (hspares : c.Spares K.fd) (hsent : c.sentOn K d.server.shared = none)
    (hwrites : c.writesTo K d.server.shared = false) : Linked json K d' r m := by
  have hincoming : d'.incoming = d.incoming := by
    rw [hacted.incoming, hsent, Option.map_none, Option.toList_none, List.append_nil]
  have happlied : d'.applied = d.applied := by
    rw [hacted.applied, hwrites, Bool.or_false]
  refine h.congr (hacted.shared ▸ Steady.of_spares hspares _) hacted.client happlied
    fun j p hj hp => ?_
  exact ⟨hacted.asked ▸ hj, hincoming ▸ hp⟩

/-- A request that has not been answered has sent the client nothing yet. -/
theorem Linked.not_incoming (h : Linked json K d r m) (hanswer : m.answer = none)
    (hasked : d'.asked = d.asked) : ∀ j p, d'.asked = some j → (j, p) ∉ d.incoming := by
  intro j p hj hp
  have hsome := h.incoming j p (hasked ▸ hj) hp
  rw [hanswer] at hsome
  cases hsome

theorem Linked.setNickname {nickname : Bytes} {i : ℕ} (h : Linked json K d r m)
    (hopen : d.server.shared.Open K) (hanswer : m.answer = none)
    (hr : r = .registerNickname nickname)
    (hacted : Acted K d d' (.setNickname K.fd nickname) i) :
    Linked json K d' r (m.next K.fd (.setNickname K.fd nickname) ()) := by
  subst hr
  obtain ⟨info, hinfo, -, -⟩ := h.record
  have hclient' : d'.server.shared.client? K.fd =
      some { info with nickname := nickname, isAuthenticated := true } := by
    rw [hacted.shared]
    show (d.server.shared.clientManager.setNickname K.fd nickname).getClient K.fd = _
    rw [ClientManager.getClient_setNickname hinfo, if_pos rfl]
  refine ⟨?_, ⟨_, hclient', fun hr => hr.elim, fun n hn _ => ?_⟩, fun code hcode => ?_,
    fun hr => hr.elim, fun p hp => ?_, fun j p hj hp => ?_⟩
  · rw [hacted.applied, Call.writesTo, decide_eq_true ⟨rfl, hopen⟩, Bool.or_true]
    rfl
  · cases hn
    rfl
  · exact (h.listed code hcode).2.elim
  · exact absurd (hanswer.symm.trans hp) (by simp)
  · have hsame : d'.incoming = d.incoming ++ [] := hacted.incoming
    rw [hsame, List.append_nil] at hp
    exact absurd hp (h.not_incoming hanswer hacted.asked j p hj)

theorem Linked.setRoomCode {code : Bytes} {i : ℕ} (h : Linked json K d r m)
    (hopen : d.server.shared.Open K) (hanswer : m.answer = none)
    (hjoined : m.joined = some code) (hacted : Acted K d d' (.setRoomCode K code) i) :
    Linked json K d' r (m.next K.fd (.setRoomCode K code) ()) := by
  obtain ⟨info, hinfo, -, -⟩ := h.record
  obtain ⟨hlists, henters⟩ := h.listed code hjoined
  have hserve : (serve (.setRoomCode K code) d.server.shared).2 = { d.server.shared with
      clientManager := d.server.shared.clientManager.setClient K.fd
        { info with roomCode := code } } := by
    simp only [serve, hinfo, hopen.2, if_true]
  have hclient' : d'.server.shared.client? K.fd = some { info with roomCode := code } := by
    rw [hacted.shared, hserve]
    show (d.server.shared.clientManager.setClient K.fd _).getClient K.fd = _
    rw [ClientManager.getClient_setClient, if_pos rfl]
  refine ⟨?_, ⟨_, hclient', fun _ => ?_, fun n hn _ => ?_⟩, fun code' hcode' => ?_,
    fun _ _ => ?_, fun p hp => absurd (hanswer.symm.trans hp) (by simp), fun j p hj hp => ?_⟩
  · rw [hacted.applied, Call.writesTo, decide_eq_true ⟨rfl, hopen⟩, Bool.or_true]
    rfl
  · show code = (if true = true then m.joined.getD _ else _)
    rw [if_pos rfl, hjoined]
    rfl
  · subst hn
    exact henters.elim
  · have hcode' : m.joined = some code' := hcode'
    obtain rfl := Option.some.inj (hjoined.symm.trans hcode')
    rw [hacted.shared, hserve]
    exact ⟨hlists, henters⟩
  · show m.joined.isSome = true
    rw [hjoined]
    rfl
  · have hsame : d'.incoming = d.incoming ++ [] := hacted.incoming
    rw [hsame, List.append_nil] at hp
    exact absurd hp (h.not_incoming hanswer hacted.asked j p hj)

theorem Linked.joinRoom {code : Bytes} {i : ℕ} (h : Linked json K d r m)
    (hanswer : m.answer = none) (hunapplied : m.applied = false) (henters : r.Enters code)
    (hacted : Acted K d d' (.joinRoom K.fd code) i) :
    Linked json K d' r
      (m.next K.fd (.joinRoom K.fd code) (serve (.joinRoom K.fd code) d.server.shared).1) := by
  have hrest : Linked json K d' r m := h.spared hacted trivial rfl rfl
  by_cases hjoins : (d.server.shared.roomManager.joinRoom K.fd code).1 = true
  · rw [show m.next K.fd (.joinRoom K.fd code) (serve (.joinRoom K.fd code) d.server.shared).1 =
      { m with joined := some code } from if_pos hjoins]
    refine ⟨hrest.applied, ?_, fun code' hcode' => ?_, fun _ _ => rfl,
      fun p hp => absurd (hanswer.symm.trans hp) (by simp), hrest.incoming⟩
    · obtain ⟨info, hinfo, hcode, hname⟩ := hrest.record
      refine ⟨info, hinfo, fun hr => ?_, hname⟩
      -- the record is written by a later call
      rw [hcode hr, Progress.roomCode, Progress.roomCode, hunapplied]
      rfl
    · obtain rfl := Option.some.inj hcode'
      rw [hacted.shared]
      exact ⟨lists_joinRoom hjoins, henters⟩
  · rw [show m.next K.fd (.joinRoom K.fd code) (serve (.joinRoom K.fd code) d.server.shared).1 =
      m from if_neg hjoins]
    exact hrest

theorem Linked.send {g : Fd} {packet : Packet} {i : ℕ} (h : Linked json K d r m)
    (hopen : d.server.shared.Open K) (hanswer : m.answer = none)
    (hanswers : g = K.fd → r.Answered json m packet)
    (hacted : Acted K d d' (.send g packet) i) :
    Linked json K d' r (m.next K.fd (.send g packet) ()) := by
  by_cases hg : g = K.fd
  · have hnext : m.next K.fd (.send g packet) () = { m with answer := some packet } := if_pos hg
    have hsent : Call.sentOn K d.server.shared (.send g packet) = some packet :=
      if_pos ⟨hg, hopen⟩
    have hincoming := hacted.incoming
    rw [hsent] at hincoming
    have hrest : Linked json K { d' with incoming := d.incoming } r m :=
      h.congr (hacted.shared ▸ Steady.of_spares (c := .send g packet) trivial _) hacted.client
        (hacted.applied.trans (Bool.or_false _)) fun j p hj hp => ⟨hacted.asked ▸ hj, hp⟩
    rw [hnext]
    refine ⟨hrest.applied, hrest.record, hrest.listed, hrest.joined, fun p hp => ?_,
      fun j p hj hp => ?_⟩
    · obtain rfl := Option.some.inj hp
      exact hanswers hg
    · rw [hincoming] at hp
      rcases List.mem_append.mp hp with hold | hnew
      · exact absurd hold (h.not_incoming hanswer hacted.asked j p hj)
      · obtain ⟨-, rfl⟩ := Prod.mk.inj (List.mem_singleton.mp hnew)
        rfl
  · have hnext : m.next K.fd (.send g packet) () = m := if_neg hg
    rw [hnext]
    exact h.spared hacted trivial (if_neg fun h => hg h.1) rfl

/-- What the handler of the request does: the call `c` it makes is one it is allowed. -/
theorem Linked.act {c : Call} {i : ℕ} (h : Linked json K d r m)
    (hopen : d.server.shared.Open K) (hallows : r.allows json K m c)
    (hacted : Acted K d d' c i) :
    Linked json K d' r (m.next K.fd c (serve c d.server.shared).1) := by
  obtain ⟨hanswer, hallows⟩ := hallows
  cases c with
  | getClient g => exact h.spared hacted trivial rfl rfl
  | isNicknameTaken nickname => exact h.spared hacted trivial rfl rfl
  | addRoom name max => exact h.spared hacted trivial rfl rfl
  | getClientFds code => exact h.spared hacted trivial rfl rfl
  | leaveRoom g code => exact hallows.elim
  | setNickname g nickname =>
    obtain ⟨rfl, rfl⟩ := hallows
    exact h.setNickname hopen hanswer rfl hacted
  | setRoomCode conn code =>
    obtain ⟨rfl, hjoined⟩ := hallows
    exact h.setRoomCode hopen hanswer hjoined hacted
  | joinRoom g code =>
    obtain ⟨rfl, hjoined, hunapplied, henters⟩ := hallows
    exact h.joinRoom hanswer hunapplied henters hacted
  | send g packet => exact h.send hopen hanswer hallows hacted

/-! ### A call that receives its answer -/

/-- What has been applied is in force. -/
theorem Linked.inForce (h : Linked json K d r m) (happlied : m.applied = true)
    (hr : r ≠ .exitRoom) : r.InForce d.server.shared K := by
  obtain ⟨info, hinfo, hcode, hname⟩ := h.record
  -- a request to enter a room leaves the client in the room of its record
  have hroom : r.EntersRoom → ∃ code room, info.roomCode = code ∧ r.Enters code ∧
      d.server.shared.room? code = some room ∧ K.fd ∈ room.clients := by
    intro henters
    obtain ⟨code, hjoined⟩ := Option.isSome_iff_exists.mp (h.joined henters happlied)
    obtain ⟨⟨room, hroom, hfd⟩, hcodes⟩ := h.listed code hjoined
    refine ⟨code, room, ?_, hcodes, hroom, hfd⟩
    rw [hcode henters, Progress.roomCode, if_pos happlied, hjoined]
    rfl
  cases hcase : r with
  | registerNickname nickname => exact ⟨info, hinfo, hname nickname hcase happlied⟩
  | createRoom name max =>
    subst hcase
    obtain ⟨code, room, hin, -, hroom, hfd⟩ := hroom trivial
    exact ⟨info, room, hinfo, hin ▸ hroom, hfd⟩
  | joinRoom roomCode =>
    subst hcase
    obtain ⟨code, room, hin, rfl, hroom, hfd⟩ := hroom trivial
    exact ⟨info, room, hinfo, hin, hroom, hfd⟩
  | exitRoom => exact absurd hcase hr

/-- **A call that receives the answer to its request agrees with the server.** -/
theorem Linked.agrees {response : Packet} {b : Bool} {c : Services} {i : ℕ}
    (h : Linked json K d r m) (hr : r ≠ .exitRoom) (hasked : d.asked = some i)
    (hincoming : (i, response) ∈ d.incoming)
    (hanswered : r.answered json d.client response = .ok (b, c))
    (hserver : d'.server = d.server) (happlied : d'.applied = d.applied)
    (hclient : d'.client = c) : d'.Agrees K r b := by
  have hanswer := h.answered response (h.incoming i response hasked hincoming)
  obtain ⟨hb, hcode⟩ := hanswer d.client b c hanswered
  refine ⟨?_, fun hd' => ?_, fun henters => ?_⟩
  · rw [hb, happlied, h.applied]
  · rw [happlied, h.applied] at hd'
    rw [hserver]
    exact h.inForce hd' hr
  · obtain ⟨info, hinfo, hroom, -⟩ := h.record
    refine ⟨info, hserver ▸ hinfo, ?_⟩
    rw [hclient, hcode]
    exact hroom henters

end Dialogue

end SocketChat
