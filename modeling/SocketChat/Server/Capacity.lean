/-
The capacity of a room.

`acceptNewUser` compares `clients.size()`, a `size_t`, with `maxUserCnt`, an `int`, which is
converted first: a negative capacity becomes a number near 2^64 and admits everybody.  No
handler checks the number a CREATE_ROOM asks for.  `capacity_respected_iff` shows that
rooms keep to their capacity, as a number, in exactly the runs in which nobody has a room
with a negative capacity created.
-/
import SocketChat.Server.Delivery
import SocketChat.Server.RoomAgreement

namespace SocketChat

/-- No room has more members than its `getMaxUserCount()`. -/
def Server.WithinCapacity (s : Server) : Prop :=
  ∀ code room, s.room? code = some room →
    (room.getCurrentUserCount : ℤ) ≤ room.getMaxUserCount.toInt

/-- A JOIN_ROOM that is answered with ROOM_JOIN_OK in the step from `s` to `s'` names a room
that had fewer members than its `getMaxUserCount()`. -/
def Event.FindsSpace (json : Nlohmann) (s s' : Server) : Event → Prop
  | .packet fd p _ => p.type = PacketType.joinRoom → s'.Answered fd PacketType.roomJoinOk →
      ∃ code room, AsksToJoin json p code ∧ s.room? code = some room ∧
        (room.getCurrentUserCount : ℤ) < room.getMaxUserCount.toInt
  | _ => True

/-- No room with a negative capacity is created. -/
def Event.AsksNonnegative (json : Nlohmann) (s : Server) : Event → Prop
  | .packet _ p _ => ∀ name max, CreatesFor json s p name max → 0 ≤ max.toInt
  | _ => True

/-- Every room has a capacity that is not negative, and keeps to it. -/
def Server.Sized (s : Server) : Prop :=
  ∀ code room, s.room? code = some room →
    0 ≤ room.maxUserCnt.toInt ∧ (room.clients.length : ℤ) ≤ room.maxUserCnt.toInt

theorem Server.Sized.withinCapacity {s : Server} (hs : s.Sized) : s.WithinCapacity :=
  fun code room hroom => (hs code room hroom).2

/-- An `int` that is not negative converts to `size_t` as it is. -/
theorem sizeOfInt_of_nonneg {n : Int32} (hn : 0 ≤ n.toInt) : (sizeOfInt n : ℤ) = n.toInt := by
  have hhi : n.toInt < 2 ^ 31 := n.toInt_lt
  have hmod : n.toInt % 2 ^ 64 = n.toInt := Int.emod_eq_of_lt hn (by omega)
  rw [sizeOfInt, hmod]
  exact Int.toNat_of_nonneg hn

variable {json : Nlohmann} {now : LocalTime} {s s' : Server} {fd : Fd} {info : ClientInfo}
  {p : Packet} {e : Event}

theorem Handled.sized (hs : s.Sized)
    (hmax : ∀ name max, CreatesFor json s p name max → 0 ≤ max.toInt)
    (hh : Handled json now s fd info p s') : s'.Sized := by
  intro code room hfind
  cases hh.roomAfter hfind with
  | kept hkept => exact hs code room hkept
  | @created name max clients k hcreates hfresh hcode hclients =>
    have hnonneg := hmax name max hcreates
    refine ⟨hnonneg, ?_⟩
    -- the creator is the only member, and is none of a room of capacity 0
    show (clients.length : ℤ) ≤ max.toInt
    by_cases hzero : max = 0
    · rw [hclients, if_pos hzero]
      exact hnonneg
    · have hne : max.toInt ≠ 0 := fun h => hzero (Int32.toInt_inj.mp h)
      rw [hclients, if_neg hzero]
      simp only [List.length_singleton]
      omega
  | @joined room htype hasks hroom hspace hout =>
    obtain ⟨hnonneg, hle⟩ := hs code room hroom
    have hsize := sizeOfInt_of_nonneg hnonneg
    refine ⟨hnonneg, ?_⟩
    show ((room.clients ++ [fd]).length : ℤ) ≤ room.maxUserCnt.toInt
    rw [List.length_append, List.length_singleton]
    omega
  | @left room notice htype hcode hin hnotice hroom hrest =>
    obtain ⟨hnonneg, hle⟩ := hs code room hroom
    have hshorter : (room.clients.erase fd).length ≤ room.clients.length := List.length_erase_le
    refine ⟨hnonneg, ?_⟩
    show ((room.clients.erase fd).length : ℤ) ≤ room.maxUserCnt.toInt
    omega

theorem Server.Sized.step (hs : s.Sized) (he : e.AsksNonnegative json s)
    (hstep : s.step json e = some s') : s'.Sized := by
  cases e with
  | packet fd p now =>
    obtain ⟨info, h, hh⟩ := handled_of_step hstep
    exact hh.sized (s := { s with sent := [] }) hs he
  | accept fd ip added =>
    obtain ⟨hrooms, -⟩ := step_other hstep (fun _ _ _ h => by cases h)
    intro code room hroom
    rw [Server.room?, hrooms] at hroom
    exact hs code room hroom
  | close fd =>
    obtain ⟨hrooms, -⟩ := step_other hstep (fun _ _ _ h => by cases h)
    intro code room hroom
    rw [Server.room?, hrooms] at hroom
    exact hs code room hroom

theorem Server.sized_init (codes : CodeStream) : (Server.init codes).Sized := by
  intro code room hroom
  rw [Server.room?_init] at hroom
  cases hroom

/-- The creator of a room with a negative capacity is one member too many. -/
theorem not_withinCapacity_of_negative (he : ¬ e.AsksNonnegative json s)
    (hstep : s.step json e = some s') : ¬ s'.WithinCapacity := by
  intro hwithin
  cases e with
  | accept fd ip added => exact he trivial
  | close fd => exact he trivial
  | packet fd p now =>
    have hnegative : ∃ name max, CreatesFor json s p name max ∧ max.toInt < 0 := by
      by_contra hnone
      refine he fun name max hcreates => ?_
      by_contra hneg
      exact hnone ⟨name, max, hcreates, by omega⟩
    obtain ⟨name, max, hcreates, hneg⟩ := hnegative
    obtain ⟨info, h, hh⟩ := handled_of_step hstep
    obtain ⟨code, -, hroom, -⟩ := hh.exists_created (s := { s with sent := [] }) hcreates
    have hzero : max ≠ 0 := by
      rintro rfl
      exact absurd hneg (by decide)
    rw [if_neg hzero] at hroom
    have hone : ((([fd] : List Fd).length : ℕ) : ℤ) ≤ max.toInt := hwithin code _ hroom
    rw [List.length_singleton] at hone
    omega

/-- Where all capacities are numbers that are not negative, joining takes a free place. -/
theorem Server.Sized.findsSpace (hs : s.Sized) (hstep : s.step json e = some s') :
    e.FindsSpace json s s' := by
  cases e with
  | accept fd ip added => trivial
  | close fd => trivial
  | packet fd p now =>
    rintro hp ⟨packet, hsent, htype⟩
    obtain ⟨info, h, hh⟩ := handled_of_step hstep
    cases hh with
    | ignored => cases hsent
    | chat broadcast htype' => exact absurd (htype'.symm.trans hp) (by decide)
    | refused response n htype' hresponse =>
      have hsent : (fd, packet) ∈ [(fd, response)] := hsent
      obtain ⟨-, rfl⟩ := Prod.mk.inj (List.mem_singleton.mp hsent)
      rw [hresponse, hp] at htype
      exact absurd htype (by decide)
    | registered nickname htype' => exact absurd (htype'.symm.trans hp) (by decide)
    | created name max code n k htype' => exact absurd (htype'.symm.trans hp) (by decide)
    | createdEmpty name code n k htype' => exact absurd (htype'.symm.trans hp) (by decide)
    | exited notice htype' => exact absurd (htype'.symm.trans hp) (by decide)
    | joined code room htype' hasks hnone hroom hspace hout =>
      obtain ⟨hnonneg, -⟩ := hs code room hroom
      have hsize := sizeOfInt_of_nonneg hnonneg
      refine ⟨code, room, hasks, hroom, ?_⟩
      show (room.clients.length : ℤ) < room.maxUserCnt.toInt
      omega

/-- **Rooms keep to their capacity in exactly the runs in which no room with a negative
capacity is created.**  Keeping to it means that in every state no room has more members
than its capacity, and that whoever joins finds fewer. -/
theorem capacity_respected_iff (json : Nlohmann) (codes : CodeStream) (events : List Event)
    (final : Server)
    (hrun : Transition.runFrom (Server.step json) (Server.init codes) events = some final) :
    ((∀ s, Transition.Visits (Server.step json) (Server.init codes) events s →
        s.WithinCapacity) ∧
      ∀ s e s', Transition.Takes (Server.step json) (Server.init codes) events s e →
        s.step json e = some s' → e.FindsSpace json s s') ↔
      ∀ s e, Transition.Takes (Server.step json) (Server.init codes) events s e →
        e.AsksNonnegative json s := by
  have hiff := Transition.visits_iff_takes (J := Server.Sized) (P := Server.WithinCapacity)
    (G := fun s e => e.AsksNonnegative json s) (fun s hs => hs.withinCapacity)
    (fun s e s' hs he hstep => hs.step he hstep)
    (fun s e s' _ he hstep => not_withinCapacity_of_negative he hstep) hrun
    (Server.sized_init codes)
  constructor
  · exact fun h => hiff.mp h.1
  · intro hnonneg
    refine ⟨hiff.mpr hnonneg, fun s e s' htakes hstep => ?_⟩
    have hsized : s.Sized := Transition.Visits.invariant
      (fun t f t' ht hf hstep => Server.Sized.step ht hf hstep) hrun (Server.sized_init codes)
      hnonneg s htakes.visits
    exact hsized.findsSpace hstep

theorem capacity_respected_iff_createThenExit :
    ((∀ s, Transition.Visits (Server.step Nlohmann.integral) (Server.init CodeStream.inOrder)
        createThenExit s → s.WithinCapacity) ∧
      ∀ s e s', Transition.Takes (Server.step Nlohmann.integral)
          (Server.init CodeStream.inOrder) createThenExit s e →
        s.step Nlohmann.integral e = some s' → e.FindsSpace Nlohmann.integral s s') ↔
      ∀ s e, Transition.Takes (Server.step Nlohmann.integral) (Server.init CodeStream.inOrder)
        createThenExit s e → e.AsksNonnegative Nlohmann.integral s := by
  have hpossible : (Transition.runFrom (Server.step Nlohmann.integral)
      (Server.init CodeStream.inOrder) createThenExit).isSome = true := by
    decide +kernel
  exact capacity_respected_iff Nlohmann.integral CodeStream.inOrder createThenExit _
    (Option.some_get hpossible).symm

/-- A request for a room of minus one. -/
def createNegativeEvent (fd : Fd) : Event :=
  .request fd PacketType.createRoom (str "\x7b\"roomName\":\"lobby\",\"maxUsers\":-1\x7d")

/-- Client 5 has such a room created, and client 6 joins it. -/
def joinNegative : List Event :=
  [.accept 5 (str "10.0.0.1") true, .accept 6 (str "10.0.0.2") true, createNegativeEvent 5,
    joinRoomEvent 6 "aaaaaaaa"]

/-- The room of capacity minus one has two members, the second of whom was told that it
has joined. -/
theorem not_capacity_respected :
    ∃ s, Transition.Visits (Server.step Nlohmann.integral) (Server.init CodeStream.inOrder)
      joinNegative s ∧ s.Answered 6 PacketType.roomJoinOk ∧ ¬ s.WithinCapacity := by
  have hrun : (Transition.runFrom (Server.step Nlohmann.integral)
      (Server.init CodeStream.inOrder) joinNegative).any (fun s =>
        (s.sent.any fun x => x.1 == 6 && decide (x.2.type = PacketType.roomJoinOk)) &&
        (s.room? (str "aaaaaaaa")).any fun room =>
          decide (room.clients = [5, 6] ∧ room.maxUserCnt = -1)) = true := by
    decide +kernel
  obtain ⟨s, hvisits, hs⟩ := Transition.Visits.of_any hrun
  rw [Bool.and_eq_true, List.any_eq_true, Option.any_eq_true] at hs
  obtain ⟨⟨⟨g, packet⟩, hsent, hpacket⟩, room, hroom, hmembers⟩ := hs
  rw [Bool.and_eq_true] at hpacket
  obtain rfl : g = 6 := eq_of_beq hpacket.1
  obtain ⟨hclients, hmax⟩ := of_decide_eq_true hmembers
  refine ⟨s, hvisits, ⟨packet, hsent, of_decide_eq_true hpacket.2⟩, fun hwithin => ?_⟩
  have hle := hwithin _ room hroom
  rw [Room.getCurrentUserCount, Room.getMaxUserCount, hclients, hmax] at hle
  exact absurd hle (by decide)

end SocketChat
