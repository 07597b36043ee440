/-
The reserved nicknames.

`m_nicknames` is meant to be the set of the nicknames in use.  `ClientManager.reservation`
reads the client table and this set as a `Reservation`: registering takes a name,
disconnecting drops the one held.  `setNickname` does not give back the name a client had
before (`removeNickname` would, and is never called), so the set is exact along exactly
those runs in which no client registers a second name.
-/
import SocketChat.Json.RoundTrip
import SocketChat.Lib.Reservation
import SocketChat.Server.Effects

namespace SocketChat

/-- The nickname a client is registered under. -/
def ClientInfo.name? (client : ClientInfo) : Option Bytes :=
  if client.isAuthenticated then some client.nickname else none

theorem ClientInfo.name?_eq_some {client : ClientInfo} {nickname : Bytes} :
    client.name? = some nickname ↔ client.isAuthenticated = true ∧ client.nickname = nickname := by
  rw [name?]
  by_cases h : client.isAuthenticated = true
  · rw [if_pos h, Option.some_inj]
    exact ⟨fun heq => ⟨h, heq⟩, And.right⟩
  · rw [if_neg h]
    exact ⟨fun heq => absurd heq (by simp), fun heq => absurd heq.1 h⟩

namespace ClientManager

/-- Who holds which nickname, and which are reserved. -/
def reservation (m : ClientManager) : Reservation Fd Bytes where
  holds fd := (m.getClient fd).bind ClientInfo.name?
  reserved := m.nicknames

variable {m : ClientManager} {fd : Fd} {client : ClientInfo}

theorem holds_iff {nickname : Bytes} :
    m.reservation.holds fd = some nickname ↔ m.Holds fd nickname := by
  show (m.getClient fd).bind ClientInfo.name? = some nickname ↔ _
  rw [Option.bind_eq_some_iff]
  exact exists_congr fun client => and_congr_right fun _ => ClientInfo.name?_eq_some

theorem holds_of_client (h : m.getClient fd = some client) :
    m.reservation.holds fd = client.name? := by
  show (m.getClient fd).bind ClientInfo.name? = _
  rw [h]
  rfl

private theorem holds_setClient (m : ClientManager) (fd : Fd) (client : ClientInfo) :
    (fun g => ((m.setClient fd client).getClient g).bind ClientInfo.name?) =
      Function.update m.reservation.holds fd client.name? := by
  funext g
  rw [getClient_setClient]
  by_cases hg : g = fd
  · rw [if_pos hg, hg, Function.update_self]
    rfl
  · rw [if_neg hg, Function.update_of_ne hg]
    rfl

/-- A write to a record that leaves the registration alone. -/
theorem reservation_setClient {client' : ClientInfo}
    (h : m.reservation.holds fd = client'.name?) :
    (m.setClient fd client').reservation = m.reservation := by
  show Reservation.mk (fun g => ((m.setClient fd client').getClient g).bind ClientInfo.name?)
    m.nicknames = _
  rw [holds_setClient, ← h, Function.update_eq_self]
  rfl

theorem reservation_addClient (h : m.getClient fd = none) (ip : Bytes) :
    (m.addClient fd ip).reservation = m.reservation := by
  refine reservation_setClient ?_
  show (m.getClient fd).bind ClientInfo.name? = _
  rw [h]
  rfl

theorem reservation_setNickname (h : m.getClient fd = some client) (nickname : Bytes) :
    (m.setNickname fd nickname).reservation = m.reservation.take fd nickname := by
  have hset : m.setNickname fd nickname =
      { m.setClient fd { client with nickname := nickname, isAuthenticated := true } with
        nicknames := insert nickname m.nicknames } := by
    rw [setNickname, h]
    rfl
  rw [hset]
  show Reservation.mk (fun g => ((m.setClient fd _).getClient g).bind ClientInfo.name?) _ = _
  rw [holds_setClient]
  rfl

theorem reservation_removeClient (m : ClientManager) (fd : Fd) :
    (m.removeClient fd).reservation = m.reservation.drop fd := by
  have hholds : (m.removeClient fd).reservation.holds =
      Function.update m.reservation.holds fd none := by
    funext g
    show ((m.removeClient fd).getClient g).bind ClientInfo.name? = _
    rw [getClient_removeClient]
    by_cases hg : g = fd
    · rw [if_pos hg, hg, Function.update_self]
      rfl
    · rw [if_neg hg, Function.update_of_ne hg]
      rfl
  have hreserved : (m.removeClient fd).nicknames =
      (m.reservation.holds fd).elim m.nicknames m.nicknames.erase := by
    cases h : m.getClient fd with
    | none =>
      rw [removeClient, h, show m.reservation.holds fd = none by
        show (m.getClient fd).bind ClientInfo.name? = none
        rw [h]
        rfl]
      rfl
    | some client =>
      rw [nicknames_removeClient h, holds_of_client h, ClientInfo.name?]
      by_cases hauth : client.isAuthenticated = true
      · rw [if_pos hauth, if_pos hauth]
        rfl
      · rw [if_neg hauth, if_neg hauth]
        rfl
  show Reservation.mk (m.removeClient fd).reservation.holds (m.removeClient fd).nicknames = _
  rw [hholds, hreserved]
  rfl

end ClientManager

/-! ### Events -/

/-- A client that has a nickname asks for another, which is free. -/
def Event.Renames (json : Nlohmann) (s : Server) : Event → Prop
  | .packet fd p _ => p.type = PacketType.nicknameRequest ∧
      (∃ client, s.client? fd = some client ∧ client.isAuthenticated = true) ∧
      ∃ nickname, AsksForNickname json p nickname ∧ nickname ∉ s.clientManager.nicknames
  | _ => False

variable {json : Nlohmann} {now : LocalTime} {s s' : Server} {fd : Fd} {info : ClientInfo}
  {p : Packet}

theorem AsksForNickname.unique {nickname nickname' : Bytes} (h : AsksForNickname json p nickname)
    (h' : AsksForNickname json p nickname') : nickname = nickname' := by
  obtain ⟨data, hparse, hname⟩ := h
  obtain ⟨data', hparse', hname'⟩ := h'
  rw [hparse] at hparse'
  cases hparse'
  rw [hname, Option.some_inj] at hname'
  exact hname'

/-- A packet leaves the reservations alone, unless it registers a nickname. -/
theorem Handled.reservation (h : s.client? fd = some info)
    (hh : Handled json now s fd info p s') :
    s'.clientManager.reservation = s.clientManager.reservation ∧
        (p.type = PacketType.nicknameRequest → ∀ nickname, AsksForNickname json p nickname →
          nickname ∈ s.clientManager.nicknames) ∨
      ∃ nickname, p.type = PacketType.nicknameRequest ∧ AsksForNickname json p nickname ∧
        nickname ∉ s.clientManager.nicknames ∧
        s'.clientManager.reservation = s.clientManager.reservation.take fd nickname := by
  have hroom : ∀ code, (s.clientManager.setClient fd { info with roomCode := code }).reservation =
      s.clientManager.reservation := by
    intro code
    have hholds : s.clientManager.reservation.holds fd = info.name? :=
      ClientManager.holds_of_client h
    exact ClientManager.reservation_setClient hholds
  cases hh with
  | ignored htype => exact Or.inl ⟨rfl, fun hp => absurd (Or.inl hp) htype⟩
  | chat broadcast htype =>
    exact Or.inl ⟨rfl, fun hp => absurd (htype.symm.trans hp) (by decide)⟩
  | refused response n htype hresponse hcreate hnickname => exact Or.inl ⟨rfl, hnickname⟩
  | registered nickname htype hasks hfree =>
    exact Or.inr ⟨nickname, htype, hasks, hfree, ClientManager.reservation_setNickname h nickname⟩
  | created name max code n k htype =>
    exact Or.inl ⟨hroom code, fun hp => absurd (htype.symm.trans hp) (by decide)⟩
  | createdEmpty name code n k htype =>
    exact Or.inl ⟨rfl, fun hp => absurd (htype.symm.trans hp) (by decide)⟩
  | joined code room htype =>
    exact Or.inl ⟨hroom code, fun hp => absurd (htype.symm.trans hp) (by decide)⟩
  | exited notice htype =>
    exact Or.inl ⟨hroom [], fun hp => absurd (htype.symm.trans hp) (by decide)⟩

/-- What an event does to the reservations: nothing, or a client takes a free name, or
the client that is disconnected drops its own. -/
theorem step_reservation {e : Event} (hstep : s.step json e = some s') :
    (s'.clientManager.reservation = s.clientManager.reservation ∧ ¬ e.Renames json s) ∨
      (∃ fd p now nickname, e = .packet fd p now ∧ p.type = PacketType.nicknameRequest ∧
        AsksForNickname json p nickname ∧ nickname ∉ s.clientManager.nicknames ∧
        s'.clientManager.reservation = s.clientManager.reservation.take fd nickname) ∨
      ∃ fd, e = .close fd ∧
        s'.clientManager.reservation = s.clientManager.reservation.drop fd := by
  obtain ⟨hpossible, hs'⟩ := Server.step_eq_some.mp hstep
  subst hs'
  cases e with
  | accept fd ip added =>
    refine Or.inl ⟨?_, id⟩
    show (ConnectionManager.acceptNewConnection _ fd ip added).clientManager.reservation = _
    rw [ConnectionManager.acceptNewConnection]
    by_cases hadd : 0 < fd ∧ added = true
    · rw [if_pos hadd]
      exact ClientManager.reservation_addClient hpossible ip
    · rw [if_neg hadd]
  | packet fd p now =>
    obtain ⟨info, h⟩ := Option.isSome_iff_exists.mp hpossible.1
    have hh : Handled json now { s with sent := [] } fd info p _ := exec_handle p h
    rcases hh.reservation (s := { s with sent := [] }) h with
      ⟨hsame, htaken⟩ | ⟨nickname, hp, hasks, hfree, htake⟩
    · refine Or.inl ⟨hsame, fun hrenames => ?_⟩
      obtain ⟨hp, -, nickname, hasks, hfree⟩ := hrenames
      exact hfree (htaken hp nickname hasks)
    · exact Or.inr (Or.inl ⟨fd, p, now, nickname, rfl, hp, hasks, hfree, htake⟩)
  | close fd =>
    exact Or.inr (Or.inr ⟨fd, rfl, ClientManager.reservation_removeClient _ fd⟩)

/-- What every event keeps: no two clients hold one nickname, and names that are held are
reserved. -/
structure Server.NamesSound (s : Server) : Prop where
  unique : s.clientManager.reservation.Unique
  covered : s.clientManager.reservation.Covered

theorem Server.NamesSound.step {e : Event} (hs : s.NamesSound) (hstep : s.step json e = some s') :
    s'.NamesSound := by
  rcases step_reservation hstep with ⟨hsame, -⟩ | ⟨fd, p, now, nickname, -, -, -, hfree, htake⟩ |
    ⟨fd, -, hdrop⟩
  · exact ⟨hsame ▸ hs.unique, hsame ▸ hs.covered⟩
  · refine ⟨?_, htake ▸ hs.covered.take fd nickname⟩
    rw [htake]
    refine (Reservation.unique_take_iff hs.unique).mpr fun g _ hg => ?_
    exact hfree (hs.covered g nickname hg)
  · exact ⟨hdrop ▸ hs.unique.drop fd, hdrop ▸ hs.covered.drop hs.unique fd⟩

theorem Server.reservation_init (codes : CodeStream) (fd : Fd) :
    (Server.init codes).clientManager.reservation.holds fd = none := by
  show ((Server.init codes).client? fd).bind ClientInfo.name? = none
  rw [Server.client?_init]
  rfl

theorem Server.namesSound_init (codes : CodeStream) : (Server.init codes).NamesSound := by
  constructor
  · intro fd fd' nickname h
    rw [Server.reservation_init] at h
    cases h
  · intro fd nickname h
    rw [Server.reservation_init] at h
    cases h

/-! ### Answers to requests for a nickname -/

/-- The refusal of a nickname that is in use. -/
def duplicatedNickname : Packet :=
  Packet.ofText PacketType.nicknameResponseFail (str "Duplicated nickname.")

/-- A request for `nickname` is refused as duplicated exactly when it is reserved. -/
theorem sent_nickname {nickname : Bytes} (hp : p.type = PacketType.nicknameRequest)
    (hasks : AsksForNickname json p nickname)
    (hstep : s.step json (.packet fd p now) = some s') :
    s'.sent = [(fd, duplicatedNickname)] ↔ nickname ∈ s.clientManager.nicknames := by
  obtain ⟨-, hs'⟩ := Server.step_eq_some.mp hstep
  obtain ⟨data, hparse, hname⟩ := hasks
  have hhandle : PacketHandler.handle json now fd p = NicknameHandler.handle json fd p := by
    rw [PacketHandler.handle, if_pos hp]
  subst hs'
  show ((PacketHandler.handle json now fd p).exec serve { s with sent := [] }).2.sent = _ ↔ _
  rw [hhandle, NicknameHandler.handle, hparse]
  simp only [hname, Handler.exec_isNicknameTaken]
  by_cases htaken : nickname ∈ s.clientManager.nicknames
  · rw [if_pos ((ClientManager.isNicknameTaken_iff _ _).mpr htaken)]
    exact ⟨fun _ => htaken, fun _ => rfl⟩
  · rw [if_neg (by rwa [ClientManager.isNicknameTaken_iff])]
    refine ⟨fun h => ?_, fun h => absurd h htaken⟩
    have hpacket := (List.cons.inj h).1
    have htype : PacketType.nicknameResponseOk = PacketType.nicknameResponseFail :=
      congrArg (fun sent => sent.2.type) hpacket
    exact absurd htype (by decide)

/-- The reserved nicknames along a run are those of the registered clients: a request is
refused as duplicated exactly when somebody holds the name, and a name is free again
once its holder has renamed or disconnected. -/
structure ReservationsExact (json : Nlohmann) (codes : CodeStream) (events : List Event) :
    Prop where
  exact : ∀ s, Transition.Visits (Server.step json) (Server.init codes) events s →
    ∀ nickname, nickname ∈ s.clientManager.nicknames ↔
      ∃ fd, s.clientManager.Holds fd nickname
  refused : ∀ s s' fd p now nickname,
    Transition.Takes (Server.step json) (Server.init codes) events s (.packet fd p now) →
    s.step json (.packet fd p now) = some s' → p.type = PacketType.nicknameRequest →
    AsksForNickname json p nickname →
    (s'.sent = [(fd, duplicatedNickname)] ↔ ∃ g, s.clientManager.Holds g nickname)
  available : ∀ s s' e fd nickname,
    Transition.Takes (Server.step json) (Server.init codes) events s e →
    s.step json e = some s' → s.clientManager.Holds fd nickname →
    ¬ s'.clientManager.Holds fd nickname → nickname ∉ s'.clientManager.nicknames

theorem exact_iff : s.clientManager.reservation.Exact ↔
    ∀ nickname, nickname ∈ s.clientManager.nicknames ↔
      ∃ fd, s.clientManager.Holds fd nickname :=
  forall_congr' fun _ => iff_congr Iff.rfl (exists_congr fun _ => ClientManager.holds_iff)

/-- In a state with exact reservations, the name a client has just given up is free. -/
theorem available_of_exact {e : Event} {nickname : Bytes} (hs : s.NamesSound)
    (hstep : s.step json e = some s') (hexact : s'.clientManager.reservation.Exact)
    (hholds : s.clientManager.Holds fd nickname) (hnot : ¬ s'.clientManager.Holds fd nickname) :
    nickname ∉ s'.clientManager.nicknames := by
  intro hmem
  obtain ⟨g, hg⟩ := (hexact nickname).mp hmem
  have hfd : s.clientManager.reservation.holds fd = some nickname :=
    ClientManager.holds_iff.mpr hholds
  have hne : g ≠ fd := fun heq => hnot (ClientManager.holds_iff.mp (heq ▸ hg))
  rcases step_reservation hstep with ⟨hsame, -⟩ | ⟨fd', p, now, nickname', -, -, -, hfree, htake⟩ |
    ⟨fd', -, hdrop⟩
  · rw [hsame] at hg
    exact hne (hs.unique g fd nickname hg hfd)
  · rw [htake] at hg
    rcases Reservation.holds_take.mp hg with ⟨-, heq⟩ | ⟨-, hg⟩
    · exact hfree (heq ▸ hs.covered fd nickname hfd)
    · exact hne (hs.unique g fd nickname hg hfd)
  · rw [hdrop] at hg
    exact hne (hs.unique g fd nickname (Reservation.holds_drop.mp hg).2 hfd)

/-- Exact reservations stay exact in an event that is no renaming. -/
theorem exact_of_not_renames {e : Event} (hs : s.NamesSound)
    (hexact : s.clientManager.reservation.Exact) (hgood : ¬ e.Renames json s)
    (hstep : s.step json e = some s') : s'.clientManager.reservation.Exact := by
  rcases step_reservation hstep with ⟨hsame, -⟩ |
    ⟨fd, p, now, nickname, he, hp, hasks, hfree, htake⟩ | ⟨fd, -, hdrop⟩
  · rw [hsame]
    exact hexact
  · rw [htake]
    refine hexact.take ?_ nickname
    -- the client had no name, or this would be a renaming
    show (s.client? fd).bind ClientInfo.name? = none
    cases h : s.client? fd with
    | none => rfl
    | some client =>
      rw [Option.bind_some, ClientInfo.name?, if_neg]
      intro hauth
      subst he
      exact hgood ⟨hp, ⟨client, h, hauth⟩, nickname, hasks, hfree⟩
  · rw [hdrop]
    exact hexact.drop hs.unique fd

/-- A renaming breaks them: the old name stays reserved. -/
theorem not_exact_of_renames {e : Event} (hs : s.NamesSound) (hbad : e.Renames json s)
    (hstep : s.step json e = some s') : ¬ s'.clientManager.reservation.Exact := by
  rcases step_reservation hstep with ⟨-, hno⟩ |
    ⟨fd, p, now, nickname, rfl, hp, hasks, hfree, htake⟩ | ⟨fd, rfl, -⟩
  · exact absurd hbad hno
  · obtain ⟨-, ⟨client, h, hauth⟩, -⟩ := hbad
    have hold : s.clientManager.reservation.holds fd = some client.nickname :=
      (ClientManager.holds_of_client h).trans (ClientInfo.name?_eq_some.mpr ⟨hauth, rfl⟩)
    have hne : nickname ≠ client.nickname := fun heq =>
      hfree (heq ▸ hs.covered fd client.nickname hold)
    rw [htake]
    exact Reservation.not_exact_take hs.covered hs.unique hold hne
  · exact hbad.elim

/-- **The reserved nicknames are exact along a run exactly when no client that has a
nickname registers another one, free at that moment.** -/
theorem reservationsExact_iff (json : Nlohmann) (codes : CodeStream) (events : List Event)
    (final : Server)
    (hrun : Transition.runFrom (Server.step json) (Server.init codes) events = some final) :
    ReservationsExact json codes events ↔
      ∀ s e, Transition.Takes (Server.step json) (Server.init codes) events s e →
        ¬ e.Renames json s := by
  have hsound : ∀ s, Transition.Visits (Server.step json) (Server.init codes) events s →
      s.NamesSound :=
    Transition.Visits.always (fun s e s' hs hstep => hs.step hstep) hrun
      (Server.namesSound_init codes)
  have hinit : (Server.init codes).clientManager.reservation.Exact := by
    intro nickname
    refine ⟨fun h => absurd h (Finset.notMem_empty nickname), ?_⟩
    rintro ⟨fd, hfd⟩
    rw [Server.reservation_init] at hfd
    cases hfd
  -- exactness of the set first; what clients are told follows from it
  have hexact : (∀ s, Transition.Visits (Server.step json) (Server.init codes) events s →
      s.clientManager.reservation.Exact) ↔
        ∀ s e, Transition.Takes (Server.step json) (Server.init codes) events s e →
          ¬ e.Renames json s :=
    Transition.visits_iff_takes
      (J := fun s => s.NamesSound ∧ s.clientManager.reservation.Exact)
      (P := fun s => s.clientManager.reservation.Exact) (fun s hs => hs.2)
      (fun s e s' hs hgood hstep =>
        ⟨hs.1.step hstep, exact_of_not_renames hs.1 hs.2 hgood hstep⟩)
      (fun s e s' hs hbad hstep => not_exact_of_renames hs.1 (not_not.mp hbad) hstep)
      hrun ⟨Server.namesSound_init codes, hinit⟩
  constructor
  · exact fun h => hexact.mp fun s hs => exact_iff.mpr (h.exact s hs)
  · intro hgood
    have hall := hexact.mpr hgood
    refine ⟨fun s hs => exact_iff.mp (hall s hs), ?_, ?_⟩
    · intro s s' fd p now nickname htakes hstep hp hasks
      rw [sent_nickname hp hasks hstep]
      exact exact_iff.mp (hall s htakes.visits) nickname
    · intro s s' e fd nickname htakes hstep hholds hnot
      exact available_of_exact (hsound s htakes.visits) hstep
        (hall s' (htakes.visits_next hstep)) hholds hnot

/-- Client 5 registers as `ann`, and client 6, after 5 has left, does so too. -/
def annThenAnn : List Event :=
  [.accept 5 (str "10.0.0.1") true, nicknameEvent 5 "ann", .close 5,
    .accept 6 (str "10.0.0.2") true, nicknameEvent 6 "ann"]

theorem reservationsExact_iff_annThenAnn :
    ReservationsExact Nlohmann.integral CodeStream.inOrder annThenAnn ↔
      ∀ s e, Transition.Takes (Server.step Nlohmann.integral) (Server.init CodeStream.inOrder)
        annThenAnn s e → ¬ e.Renames Nlohmann.integral s := by
  have hpossible : (Transition.runFrom (Server.step Nlohmann.integral)
      (Server.init CodeStream.inOrder) annThenAnn).isSome = true := by
    decide +kernel
  exact reservationsExact_iff Nlohmann.integral CodeStream.inOrder annThenAnn _
    (Option.some_get hpossible).symm

/-- Client 5 registers as `ann` and then as `bob`, and disconnects. -/
def annThenBob : List Event :=
  [.accept 5 (str "10.0.0.1") true, nicknameEvent 5 "ann", nicknameEvent 5 "bob", .close 5]

/-- The name `ann` stays reserved when its only holder has renamed itself, even after it
has gone. -/
theorem not_reservationsExact :
    ¬ ReservationsExact Nlohmann.integral CodeStream.inOrder annThenBob := by
  intro h
  have hrun : (Transition.runFrom (Server.step Nlohmann.integral)
      (Server.init CodeStream.inOrder) annThenBob).any
      (fun s => s.clientManager.isNicknameTaken (str "ann") &&
        decide (s.clientManager.clients.keys = ∅)) = true := by
    decide +kernel
  obtain ⟨s, hvisits, hs⟩ := Transition.Visits.of_any hrun
  rw [Bool.and_eq_true, ClientManager.isNicknameTaken_iff, decide_eq_true_iff] at hs
  obtain ⟨fd, client, hclient, -⟩ := (h.exact s hvisits (str "ann")).mp hs.1
  have hmem : fd ∈ s.clientManager.clients.keys :=
    Finmap.mem_keys.mpr ((Table.mem_iff_find _ _).mpr ⟨client, hclient⟩)
  rw [hs.2] at hmem
  exact absurd hmem (Finset.notMem_empty fd)

end SocketChat
