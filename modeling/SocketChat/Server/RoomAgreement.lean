/-
Room membership agrees with the client table.

`RoomsAgree` says that whoever a room lists is connected and has that room's code in its
record.  `roomsAgree_iff_orderly` gives the exact condition under which every state of a
run has this property: no client is disconnected while in a room, and no client creates
a room while in another.
-/
import SocketChat.Json.RoundTrip
import SocketChat.Server.Membership

namespace SocketChat

/-- The clients listed in rooms are connected, each is in the room that lists it, and no
client is listed in two. -/
structure Server.RoomsAgree (s : Server) : Prop where
  member : ∀ code room fd, s.room? code = some room → fd ∈ room.clients →
    ∃ client, s.client? fd = some client ∧ client.roomCode = room.roomCode
  single : ∀ code code' room room' fd, s.room? code = some room → s.room? code' = some room' →
    fd ∈ room.clients → fd ∈ room'.clients → code = code'
  connected : ∀ code room fd, s.room? code = some room → s.client? fd = none →
    fd ∉ room.clients

theorem Server.roomsAgree_iff {s : Server} (hkeyed : s.RoomsKeyed) :
    s.RoomsAgree ↔ s.roster.Agree := by
  constructor
  · intro hagree code fd hlisted
    obtain ⟨room, hroom, hfd⟩ := Server.mem_listed.mp hlisted
    obtain ⟨client, hclient, hcode⟩ := hagree.member code room fd hroom hfd
    obtain ⟨hkey, hlen⟩ := hkeyed code room hroom
    refine Server.place_eq_some_some.mpr ⟨client, hclient, hcode.trans hkey, ?_⟩
    exact fun h0 => absurd hlen (by simp [h0])
  · intro hagree
    have hplace : ∀ code room fd, s.room? code = some room → fd ∈ room.clients →
        ∃ client, s.client? fd = some client ∧ client.roomCode = code := by
      intro code room fd hroom hfd
      obtain ⟨client, hclient, hcode, -⟩ := Server.place_eq_some_some.mp
        (hagree code fd (Server.mem_listed.mpr ⟨room, hroom, hfd⟩))
      exact ⟨client, hclient, hcode⟩
    refine ⟨fun code room fd hroom hfd => ?_,
      fun code code' room room' fd hroom hroom' hfd hfd' => ?_,
      fun code room fd hroom hnone hfd => ?_⟩
    · obtain ⟨client, hclient, hcode⟩ := hplace code room fd hroom hfd
      exact ⟨client, hclient, hcode.trans (hkeyed code room hroom).1.symm⟩
    · obtain ⟨client, hclient, hcode⟩ := hplace code room fd hroom hfd
      obtain ⟨client', hclient', hcode'⟩ := hplace code' room' fd hroom' hfd'
      rw [hclient, Option.some_inj] at hclient'
      rw [← hcode, ← hcode', hclient']
    · obtain ⟨client, hclient, -⟩ := hplace code room fd hroom hfd
      rw [hnone] at hclient
      cases hclient

/-- **Rooms and clients agree in every state of a run exactly when every event of the run
is orderly**: no connection is closed while its client is in a room, and no client that
is in a room has another one created for it. -/
theorem roomsAgree_iff_orderly (json : Nlohmann) (codes : CodeStream) (events : List Event)
    (final : Server)
    (hrun : Transition.runFrom (Server.step json) (Server.init codes) events = some final) :
    (∀ s, Transition.Visits (Server.step json) (Server.init codes) events s → s.RoomsAgree) ↔
      ∀ s e, Transition.Takes (Server.step json) (Server.init codes) events s e →
        e.Orderly json s := by
  refine Transition.visits_iff_takes (J := fun s => s.Coherent ∧ s.roster.Agree)
    (fun s hs => (Server.roomsAgree_iff hs.1.keyed).mpr hs.2) ?_ ?_ hrun
    ⟨Server.coherent_init codes, fun code fd h => absurd h List.not_mem_nil⟩
  · rintro s e s' ⟨hs, hagree⟩ horderly hstep
    obtain ⟨op, hallowed, hroster, hop⟩ := step_roster hs.keyed hstep
    refine ⟨hs.step hstep, ?_⟩
    rw [hroster]
    exact hagree.apply hallowed (hop.mpr horderly) hs.distinct
  · rintro s e s' ⟨hs, -⟩ hdisorderly hstep hagree
    obtain ⟨op, hallowed, hroster, hop⟩ := step_roster hs.keyed hstep
    have hagree' := (Server.roomsAgree_iff (hs.step hstep).keyed).mp hagree
    rw [hroster] at hagree'
    exact Roster.not_agree_apply hallowed (fun h => hdisorderly (hop.mp h)) hs.live hagree'

/-- Client 5 connects, creates a room, leaves it and disconnects. -/
def createThenExit : List Event :=
  [.accept 5 (str "10.0.0.1") true, createRoomEvent 5, exitRoomEvent 5, .close 5]

theorem roomsAgree_iff_orderly_createThenExit :
    (∀ s, Transition.Visits (Server.step Nlohmann.integral) (Server.init CodeStream.inOrder)
      createThenExit s → s.RoomsAgree) ↔
    ∀ s e, Transition.Takes (Server.step Nlohmann.integral) (Server.init CodeStream.inOrder)
      createThenExit s e → e.Orderly Nlohmann.integral s := by
  have hpossible : (Transition.runFrom (Server.step Nlohmann.integral)
      (Server.init CodeStream.inOrder) createThenExit).isSome = true := by
    decide +kernel
  exact roomsAgree_iff_orderly Nlohmann.integral CodeStream.inOrder createThenExit _
    (Option.some_get hpossible).symm

/-- The room with code `code` lists `fd`. -/
def Server.lists (s : Server) (code : Bytes) (fd : Fd) : Bool :=
  (s.room? code).any fun room => decide (fd ∈ room.clients)

theorem Server.lists_iff {s : Server} {code : Bytes} {fd : Fd} :
    s.lists code fd = true ↔ ∃ room, s.room? code = some room ∧ fd ∈ room.clients := by
  rw [lists, Option.any_eq_true]
  exact exists_congr fun room => and_congr_right fun _ => decide_eq_true_iff

/-- Client 5 connects, creates a room, and then does `last`. -/
def createRoomThen (last : Event) : List Event :=
  [.accept 5 (str "10.0.0.1") true, createRoomEvent 5, last]

/-- A room goes on listing a client that was disconnected in it, and one that has
created another room. -/
theorem not_roomsAgree :
    (∃ s, Transition.Visits (Server.step Nlohmann.integral) (Server.init CodeStream.inOrder)
      (createRoomThen (.close 5)) s ∧ ¬ s.RoomsAgree) ∧
    ∃ s, Transition.Visits (Server.step Nlohmann.integral) (Server.init CodeStream.inOrder)
      (createRoomThen (createRoomEvent 5)) s ∧ ¬ s.RoomsAgree := by
  constructor
  · have hrun : (Transition.runFrom (Server.step Nlohmann.integral)
        (Server.init CodeStream.inOrder) (createRoomThen (.close 5))).any
        (fun s => s.lists (str "aaaaaaaa") 5 && (s.client? 5).isNone) = true := by
      decide +kernel
    obtain ⟨s, hvisits, hs⟩ := Transition.Visits.of_any hrun
    rw [Bool.and_eq_true, Server.lists_iff, Option.isNone_iff_eq_none] at hs
    obtain ⟨⟨room, hroom, hfd⟩, hnone⟩ := hs
    exact ⟨s, hvisits, fun hagree => hagree.connected _ room 5 hroom hnone hfd⟩
  · have hrun : (Transition.runFrom (Server.step Nlohmann.integral)
        (Server.init CodeStream.inOrder) (createRoomThen (createRoomEvent 5))).any
        (fun s => s.lists (str "aaaaaaaa") 5 && s.lists (str "bbbbbbbb") 5) = true := by
      decide +kernel
    obtain ⟨s, hvisits, hs⟩ := Transition.Visits.of_any hrun
    rw [Bool.and_eq_true, Server.lists_iff, Server.lists_iff] at hs
    obtain ⟨⟨room, hroom, hfd⟩, room', hroom', hfd'⟩ := hs
    exact ⟨s, hvisits, fun hagree =>
      absurd (hagree.single _ _ room room' 5 hroom hroom' hfd hfd') (by decide)⟩

end SocketChat
