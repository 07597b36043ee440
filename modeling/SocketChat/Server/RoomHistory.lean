/-
The room table told from the calls that were made.

Every call of `addRoom`, `removeRoom`, `joinRoom` and `leaveRoom` is recorded with what it
returned.  `Since` says, of such a history alone, what room there is under a code: the one
that was last made under it, if no call since has ended it, with those present whose last
successful `joinRoom` since was not followed by their `leaveRoom`.

`RoomEvent.onRoom` is what one event makes of the room under one code.  The table changes
accordingly (`find_call`), and so does what the history tells (`tells_concat`), so that the
two agree after any calls with any codes drawn: `refines_history`.
-/
import SocketChat.Lib.Attendance
import SocketChat.Server.RoomManager
import Mathlib.Data.Fintype.Card

namespace SocketChat

open Attendance

/-! ### Histories -/

/-- A call of the room manager. -/
inductive RoomCall where
  | addRoom (roomName : Bytes) (maxUserCnt : Int32)
  | removeRoom (roomCode : Bytes)
  | joinRoom (clientFd : Fd) (roomCode : Bytes)
  | leaveRoom (clientFd : Fd) (roomCode : Bytes)
  deriving DecidableEq

/-- A call with what it returned. -/
inductive RoomEvent where
  | addRoom (roomName : Bytes) (maxUserCnt : Int32) (returned : Bytes)
  | removeRoom (roomCode : Bytes)
  | joinRoom (clientFd : Fd) (roomCode : Bytes) (returned : Bool)
  | leaveRoom (clientFd : Fd) (roomCode : Bytes)
  deriving DecidableEq

def RoomManager.call (m : RoomManager) : RoomCall → RoomEvent × RoomManager
  | .addRoom roomName maxUserCnt =>
    let result := m.addRoom roomName maxUserCnt
    (.addRoom roomName maxUserCnt result.1, result.2)
  | .removeRoom roomCode => (.removeRoom roomCode, m.removeRoom roomCode)
  | .joinRoom clientFd roomCode =>
    let result := m.joinRoom clientFd roomCode
    (.joinRoom clientFd roomCode result.1, result.2)
  | .leaveRoom clientFd roomCode => (.leaveRoom clientFd roomCode, m.leaveRoom clientFd roomCode)

/-- A room manager and what it has been called for. -/
structure RoomRecord where
  manager : RoomManager
  history : List RoomEvent

namespace RoomRecord

def init (codes : CodeStream) : RoomRecord := ⟨⟨∅, codes⟩, []⟩

def call (r : RoomRecord) (c : RoomCall) : RoomRecord :=
  ⟨(r.manager.call c).2, r.history ++ [(r.manager.call c).1]⟩

/-- One call after another, from the start of the server. -/
def run (codes : CodeStream) (calls : List RoomCall) : RoomRecord := calls.foldl call (init codes)

end RoomRecord

namespace RoomEvent

/-- What is heard of the members of the room with this code. -/
def attendance? (code : Bytes) : RoomEvent → Option (Entry Fd)
  | joinRoom clientFd roomCode true => if roomCode = code then some (.enter clientFd) else none
  | leaveRoom clientFd roomCode => if roomCode = code then some (.leave clientFd) else none
  | _ => none

end RoomEvent

/-- The successful calls of `joinRoom` and the calls of `leaveRoom` for one room. -/
def attendance (code : Bytes) (events : List RoomEvent) : List (Entry Fd) :=
  events.filterMap (RoomEvent.attendance? code)

/-- The last room made under the code is this one, it has not ceased to exist in the calls
`after`, which are all that followed, and its members are those these calls leave in it. -/
structure Since (history : List RoomEvent) (code : Bytes) (room : Room)
    (after : List RoomEvent) : Prop where
  code_ne : code ≠ []
  key : room.roomCode = code
  made : .addRoom room.roomName room.maxUserCnt code :: after <:+ history
  last : ∀ roomName maxUserCnt, .addRoom roomName maxUserCnt code ∉ after
  kept : .removeRoom code ∉ after
  attended : Attended (attendance code after)
  members : room.clients = present (attendance code after)

/-- The history tells of this room under the code. -/
def Tells (history : List RoomEvent) (code : Bytes) (room : Room) : Prop :=
  ∃ after, Since history code room after

variable {history after after' : List RoomEvent} {code : Bytes} {room : Room} {e : RoomEvent}
  {m : RoomManager}

theorem Tells.code_ne (h : Tells history code room) : code ≠ [] := by
  obtain ⟨after, h⟩ := h
  exact Since.code_ne h

/-! ### One more event -/

theorem attendance_concat (code : Bytes) (after : List RoomEvent) (e : RoomEvent) :
    attendance code (after ++ [e]) = attendance code after ++ (e.attendance? code).toList := by
  rw [attendance, List.filterMap_append]
  cases h : e.attendance? code with
  | none => rw [List.filterMap_cons_none h]; rfl
  | some a => rw [List.filterMap_cons_some h]; rfl

/-- A room that has just been made. -/
theorem tells_addRoom (hcode : code ≠ []) (roomName : Bytes) (maxUserCnt : Int32) :
    Tells (history ++ [.addRoom roomName maxUserCnt code]) code room ↔
      room = Room.new code roomName maxUserCnt := by
  constructor
  · rintro ⟨after, h⟩
    rcases List.suffix_concat_iff.mp h.made with hnil | ⟨rest, hrest, -⟩
    · exact absurd hnil (List.cons_ne_nil _ _)
    · cases rest with
      | nil =>
        obtain ⟨hevent, rfl⟩ := List.cons_eq_cons.mp hrest
        obtain ⟨hname, hmax, -⟩ := RoomEvent.addRoom.inj hevent
        have hclients : room.clients = [] := h.members
        rw [Room.new, ← hname, ← hmax, ← h.key, ← hclients]
      | cons f rest =>
        obtain ⟨-, rfl⟩ := List.cons_eq_cons.mp hrest
        exact absurd (List.mem_append_right _ List.mem_cons_self) (h.last roomName maxUserCnt)
  · rintro rfl
    exact ⟨[], hcode, rfl, List.suffix_append history _, fun _ _ => List.not_mem_nil,
      List.not_mem_nil, attended_nil, rfl⟩

/-- An event that makes no room under the code comes after the one that made the room. -/
theorem since_concat (he : ∀ roomName maxUserCnt, e ≠ .addRoom roomName maxUserCnt code) :
    Since (history ++ [e]) code room after' ↔
      ∃ after, after' = after ++ [e] ∧ e ≠ .removeRoom code ∧
        Since history code { room with clients := present (attendance code after) } after ∧
        Attended (attendance code (after ++ [e])) ∧
        room.clients = present (attendance code (after ++ [e])) := by
  constructor
  · intro h
    rcases List.suffix_concat_iff.mp h.made with hnil | ⟨rest, hrest, hmade⟩
    · exact absurd hnil (List.cons_ne_nil _ _)
    -- the event that made the room is not the last one, and was there before
    cases rest with
    | nil => exact absurd (List.cons_eq_cons.mp hrest).1.symm (he _ _)
    | cons f after =>
      rw [List.cons_append] at hrest
      obtain ⟨rfl, rfl⟩ := List.cons_eq_cons.mp hrest
      have hattended : Attended (attendance code after) := by
        have hall := h.attended
        rw [attendance_concat] at hall
        exact hall.left
      refine ⟨after, rfl, ?_, ?_, h.attended, h.members⟩
      · intro heq
        exact h.kept (heq ▸ List.mem_append_right _ List.mem_cons_self)
      · refine ⟨h.code_ne, h.key, hmade, ?_, ?_, hattended, rfl⟩
        · intro name max hin
          exact h.last name max (List.mem_append_left _ hin)
        · intro hin
          exact h.kept (List.mem_append_left _ hin)
  · rintro ⟨after, rfl, hremove, h, hattended, hmembers⟩
    refine ⟨h.code_ne, h.key, ?_, ?_, ?_, hattended, hmembers⟩
    · exact List.suffix_concat_iff.mpr (Or.inr ⟨_, rfl, h.made⟩)
    · intro name max hin
      rcases List.mem_append.mp hin with hin | hin
      · exact h.last name max hin
      · exact he name max (List.mem_singleton.mp hin).symm
    · intro hin
      rcases List.mem_append.mp hin with hin | hin
      · exact h.kept hin
      · exact hremove (List.mem_singleton.mp hin).symm

/-- What an event makes of the room under a code. -/
def RoomEvent.onRoom (code : Bytes) : RoomEvent → Option Room → Option Room
  | addRoom roomName maxUserCnt returned, room? =>
    if returned = code ∧ code ≠ [] then some (Room.new code roomName maxUserCnt) else room?
  | removeRoom roomCode, room? => if roomCode = code then none else room?
  | joinRoom clientFd roomCode true, room? =>
    if roomCode = code then
      room?.map fun room => { room with clients := room.clients.erase clientFd ++ [clientFd] }
    else room?
  | joinRoom _ _ false, room? => room?
  | leaveRoom clientFd roomCode, room? =>
    if roomCode = code then
      room?.bind fun room =>
        if room.clients.erase clientFd = [] then none else some (room.leaveUser clientFd)
    else room?

theorem not_tells_removeRoom : ¬ Tells (history ++ [.removeRoom code]) code room := by
  rintro ⟨after', h⟩
  obtain ⟨after, -, hremove, -⟩ := (since_concat (fun _ _ => RoomEvent.noConfusion)).mp h
  exact hremove rfl

/-- An event that is about other rooms. -/
theorem tells_other (he : ∀ roomName maxUserCnt, e ≠ .addRoom roomName maxUserCnt code)
    (hremove : e ≠ .removeRoom code) (hnone : e.attendance? code = none) :
    Tells (history ++ [e]) code room ↔ Tells history code room := by
  have hsame : ∀ after, attendance code (after ++ [e]) = attendance code after := by
    intro after
    rw [attendance_concat, hnone]
    exact List.append_nil _
  constructor
  · rintro ⟨after', h⟩
    obtain ⟨after, -, -, h, -, hmembers⟩ := (since_concat he).mp h
    rw [hsame] at hmembers
    rw [← hmembers] at h
    exact ⟨after, h⟩
  · rintro ⟨after, h⟩
    refine ⟨after ++ [e], (since_concat he).mpr ⟨after, rfl, hremove, ?_, ?_, ?_⟩⟩
    · rw [← h.members]
      exact h
    · exact (hsame after).symm ▸ h.attended
    · exact (hsame after).symm ▸ h.members

/-- An event that is about a member of the room. -/
theorem tells_attendance {a : Entry Fd} (ha : e.attendance? code = some a) :
    Tells (history ++ [e]) code room ↔
      ∃ before, Tells history code before ∧
        (∀ fd, a = .leave fd → before.clients.erase fd ≠ []) ∧
        room = { before with clients := a.act before.clients } := by
  have he : ∀ roomName maxUserCnt, e ≠ .addRoom roomName maxUserCnt code := by
    rintro _ _ rfl
    cases ha
  have hremove : e ≠ .removeRoom code := by
    rintro rfl
    cases ha
  have hconcat : ∀ after, attendance code (after ++ [e]) = attendance code after ++ [a] := by
    intro after
    rw [attendance_concat, ha]
    rfl
  constructor
  · rintro ⟨after', h⟩
    obtain ⟨after, -, -, h, hattended, hmembers⟩ := (since_concat he).mp h
    rw [hconcat] at hattended hmembers
    refine ⟨_, ⟨after, h⟩, ?_, ?_⟩
    · rintro fd rfl
      have := ((attended_concat _ _).mp hattended).2 fd rfl
      rwa [present_concat] at this
    · rw [← present_concat, ← hmembers]
  · rintro ⟨before, ⟨after, h⟩, hleave, rfl⟩
    refine ⟨after ++ [e], (since_concat he).mpr ⟨after, rfl, hremove, ?_, ?_, ?_⟩⟩
    · rw [← h.members]
      exact h
    · rw [hconcat, attended_concat]
      refine ⟨h.attended, ?_⟩
      intro fd hfd
      rw [present_concat, ← h.members]
      exact hleave fd hfd
    · rw [hconcat, present_concat, ← h.members]

/-- One more event makes of the room the history tells of what `onRoom` says. -/
theorem tells_concat {room? : Option Room}
    (h : ∀ room, room? = some room ↔ Tells history code room) (e : RoomEvent) (room : Room) :
    e.onRoom code room? = some room ↔ Tells (history ++ [e]) code room := by
  have hother : (∀ roomName maxUserCnt, e ≠ .addRoom roomName maxUserCnt code) →
      e ≠ .removeRoom code → e.attendance? code = none → e.onRoom code room? = room? →
      (e.onRoom code room? = some room ↔ Tells (history ++ [e]) code room) := by
    intro he hremove hnone hsame
    rw [hsame, h, tells_other he hremove hnone]
  cases e with
  | addRoom roomName maxUserCnt returned =>
    by_cases hreturned : returned = code
    · rw [RoomEvent.onRoom, hreturned]
      by_cases hcode : code = []
      · -- the empty string is no code
        rw [if_neg fun hne => hne.2 hcode, h]
        exact iff_of_false (fun ht => ht.code_ne hcode) fun ht => ht.code_ne hcode
      · rw [if_pos ⟨rfl, hcode⟩, tells_addRoom hcode, Option.some_inj, eq_comm]
    · refine hother (fun name max heq => ?_) RoomEvent.noConfusion rfl
        (if_neg fun hne => hreturned hne.1)
      exact hreturned (RoomEvent.addRoom.inj heq).2.2
  | removeRoom roomCode =>
    by_cases hcode : roomCode = code
    · rw [RoomEvent.onRoom, if_pos hcode, hcode]
      exact iff_of_false (Option.some_ne_none room).symm not_tells_removeRoom
    · refine hother (fun _ _ => RoomEvent.noConfusion) (fun heq => ?_) rfl (if_neg hcode)
      exact hcode (RoomEvent.removeRoom.inj heq)
  | joinRoom clientFd roomCode returned =>
    cases returned with
    | false => exact hother (fun _ _ => RoomEvent.noConfusion) RoomEvent.noConfusion rfl rfl
    | true =>
      by_cases hcode : roomCode = code
      · have henter : (RoomEvent.joinRoom clientFd roomCode true).attendance? code =
            some (.enter clientFd) := if_pos hcode
        rw [RoomEvent.onRoom, if_pos hcode, Option.map_eq_some_iff, tells_attendance henter]
        refine exists_congr fun before => ?_
        rw [h, eq_comm]
        refine and_congr_right fun _ => (and_iff_right ?_).symm
        intro fd hfd
        cases hfd
      · exact hother (fun _ _ => RoomEvent.noConfusion) RoomEvent.noConfusion (if_neg hcode)
          (if_neg hcode)
  | leaveRoom clientFd roomCode =>
    by_cases hcode : roomCode = code
    · have hleave : (RoomEvent.leaveRoom clientFd roomCode).attendance? code =
          some (.leave clientFd) := if_pos hcode
      rw [RoomEvent.onRoom, if_pos hcode, Option.bind_eq_some_iff, tells_attendance hleave]
      refine exists_congr fun before => ?_
      rw [h]
      refine and_congr_right fun _ => ?_
      -- the room ends with the last of its members
      by_cases hlast : before.clients.erase clientFd = []
      · rw [if_pos hlast]
        exact iff_of_false (Option.some_ne_none room).symm
          fun hstays => hstays.1 clientFd rfl hlast
      · rw [if_neg hlast, Option.some_inj, eq_comm]
        refine (and_iff_right ?_).symm
        intro fd hfd
        rwa [← Entry.leave.inj hfd]
    · exact hother (fun _ _ => RoomEvent.noConfusion) RoomEvent.noConfusion (if_neg hcode)
        (if_neg hcode)

/-! ### One more call -/

/-- A call does to each room what the event it is recorded as says. -/
theorem find_call (m : RoomManager) (c : RoomCall) (code : Bytes) :
    (m.call c).2.rooms.find code = (m.call c).1.onRoom code (m.rooms.find code) := by
  cases c with
  | addRoom roomName maxUserCnt =>
    rw [RoomManager.call, RoomEvent.onRoom]
    rcases m.addRoom_cases roomName maxUserCnt with
      ⟨hcode, hrooms, -⟩ | ⟨k, -, hcode, hrooms, -⟩
    · -- a failed call is recorded with the empty string, which is no code
      rw [hcode, hrooms, if_neg fun h => h.2 h.1.symm]
    · rw [hcode, hrooms, Table.find_set]
      by_cases hk : code = m.codes.code k
      · rw [if_pos hk, hk, if_pos ⟨rfl, m.codes.code_ne_nil k⟩]
      · rw [if_neg hk, if_neg fun h => hk h.1.symm]
  | removeRoom roomCode =>
    show (m.rooms.remove roomCode).find code = _
    rw [Table.find_remove, RoomManager.call, RoomEvent.onRoom]
    exact if_congr eq_comm rfl rfl
  | joinRoom clientFd roomCode =>
    rw [RoomManager.call]
    rcases m.joinRoom_cases clientFd roomCode with ⟨hjoin, -⟩ | ⟨room, hroom, -, hout, hjoin⟩
    · rw [hjoin]
      rfl
    · rw [hjoin, RoomEvent.onRoom, Table.find_set]
      by_cases hcode : code = roomCode
      · rw [if_pos hcode, if_pos hcode.symm, hcode, hroom, Option.map_some,
          List.erase_of_not_mem hout]
      · rw [if_neg hcode, if_neg (Ne.symm hcode)]
  | leaveRoom clientFd roomCode =>
    rw [RoomManager.call, RoomEvent.onRoom, RoomManager.find_leaveRoom]
    by_cases hcode : code = roomCode
    · rw [if_pos hcode, if_pos hcode.symm, hcode]
    · rw [if_neg hcode, if_neg (Ne.symm hcode)]

/-- Only `addRoom` makes a room. -/
theorem RoomEvent.isSome_of_onRoom {room? : Option Room}
    (he : ∀ roomName maxUserCnt returned, e ≠ .addRoom roomName maxUserCnt returned)
    (h : (e.onRoom code room?).isSome = true) : room?.isSome = true := by
  cases room? with
  | some room => rfl
  | none =>
    cases e with
    | addRoom roomName maxUserCnt returned => exact absurd rfl (he _ _ _)
    | removeRoom roomCode =>
      rw [onRoom, ite_self] at h
      exact h
    | joinRoom clientFd roomCode returned =>
      cases returned with
      | false => exact h
      | true =>
        rw [onRoom, Option.map_none, ite_self] at h
        exact h
    | leaveRoom clientFd roomCode =>
      rw [onRoom, Option.bind_none, ite_self] at h
      exact h

theorem size_call (c : RoomCall) (hsize : m.rooms.size ≤ maxRoomCnt) :
    (m.call c).2.rooms.size ≤ maxRoomCnt := by
  have hother : (∀ roomName maxUserCnt returned,
        (m.call c).1 ≠ .addRoom roomName maxUserCnt returned) →
      (m.call c).2.rooms.size ≤ maxRoomCnt := by
    intro he
    refine (Table.size_mono ?_).trans hsize
    intro code h
    rw [find_call] at h
    exact RoomEvent.isSome_of_onRoom he h
  cases c with
  | addRoom roomName maxUserCnt =>
    rw [RoomManager.call]
    rcases m.addRoom_cases roomName maxUserCnt with
      ⟨-, hrooms, -⟩ | ⟨k, hfresh, -, hrooms, hroom, -⟩
    · rw [hrooms]
      exact hsize
    · rw [hrooms, Table.size_set_new _ ((Table.not_mem_iff_find _ _).mp hfresh)]
      exact hroom
  | removeRoom roomCode => exact hother fun _ _ _ => RoomEvent.noConfusion
  | joinRoom clientFd roomCode => exact hother fun _ _ _ => RoomEvent.noConfusion
  | leaveRoom clientFd roomCode => exact hother fun _ _ _ => RoomEvent.noConfusion

/-! ### Joining -/

/-- A table with one more client in a room is another table. -/
theorem set_append_ne (clientFd : Fd) (hroom : m.rooms.find code = some room) :
    m.rooms.set code { room with clients := room.clients ++ [clientFd] } ≠ m.rooms := by
  intro hsame
  have hfind := congrArg (fun t => Table.find t code) hsame
  simp only [hroom, Table.find_set_self, Option.some_inj] at hfind
  have hclients : room.clients ++ [clientFd] = room.clients := congrArg Room.clients hfind
  exact absurd (List.append_right_eq_self.mp hclients) (List.cons_ne_nil _ _)

/-- `joinRoom` returns true exactly when it adds the client to a room it was not in. -/
theorem joinRoom_eq_true_iff (m : RoomManager) (clientFd : Fd) (code : Bytes) :
    (m.joinRoom clientFd code).1 = true ↔
      ∃ room, m.rooms.find code = some room ∧ clientFd ∉ room.clients ∧
        (m.joinRoom clientFd code).2.rooms =
          m.rooms.set code { room with clients := room.clients ++ [clientFd] } := by
  rcases m.joinRoom_cases clientFd code with ⟨hjoin, -⟩ | ⟨room, hroom, -, hout, hjoin⟩
  · rw [hjoin]
    refine iff_of_false Bool.false_ne_true ?_
    rintro ⟨room, hroom, -, hsame⟩
    exact set_append_ne clientFd hroom hsame.symm
  · rw [hjoin]
    exact iff_of_true rfl ⟨room, hroom, hout, rfl⟩

theorem joinRoom_eq_false_iff (m : RoomManager) (clientFd : Fd) (code : Bytes) :
    (m.joinRoom clientFd code).1 = false ↔ (m.joinRoom clientFd code).2.rooms = m.rooms := by
  constructor
  · intro hfalse
    rcases m.joinRoom_cases clientFd code with ⟨hjoin, -⟩ | ⟨room, -, -, -, hjoin⟩
    · rw [hjoin]
    · rw [hjoin] at hfalse
      exact absurd hfalse.symm Bool.false_ne_true
  · intro hsame
    refine Bool.eq_false_iff.mpr fun htrue => ?_
    obtain ⟨room, hroom, -, hset⟩ := (joinRoom_eq_true_iff m clientFd code).mp htrue
    exact set_append_ne clientFd hroom (hset.symm.trans hsame)

/-! ### Whole histories -/

namespace RoomRecord

/-- The table holds the rooms the history tells of, and there are not too many. -/
structure Refines (r : RoomRecord) : Prop where
  size_le : r.manager.rooms.size ≤ maxRoomCnt
  find_iff : ∀ code room, r.manager.rooms.find code = some room ↔ Tells r.history code room

theorem refines_init (codes : CodeStream) : Refines (init codes) := by
  refine ⟨Nat.zero_le _, ?_⟩
  intro code room
  refine iff_of_false (by simp [init]) ?_
  rintro ⟨after, h⟩
  exact absurd (List.suffix_nil.mp h.made) (List.cons_ne_nil _ _)

theorem Refines.call {r : RoomRecord} (h : Refines r) (c : RoomCall) : Refines (r.call c) := by
  refine ⟨size_call c h.size_le, ?_⟩
  intro code room
  show (r.manager.call c).2.rooms.find code = some room ↔ _
  rw [find_call]
  exact tells_concat (h.find_iff code) (r.manager.call c).1 room

theorem refines_run (codes : CodeStream) (calls : List RoomCall) :
    Refines (run codes calls) := by
  have hfrom : ∀ r, Refines r → Refines (calls.foldl call r) := by
    induction calls with
    | nil =>
      intro r h
      exact h
    | cons c calls ih =>
      intro r h
      exact ih (r.call c) (h.call c)
  exact hfrom _ (refines_init codes)

theorem Refines.nodup {r : RoomRecord} (h : Refines r)
    (hroom : r.manager.rooms.find code = some room) : room.clients.Nodup := by
  obtain ⟨after, hsince⟩ := (h.find_iff code room).mp hroom
  rw [hsince.members]
  exact nodup_present _

/-- `getCurrentUserCount` returns an `int`.  That the conversion from `size_t` wraps around
makes no difference when a room is checked for being empty: whoever has left it is one of
2^32 descriptors and not in it. -/
theorem Refines.count_leaveUser {r : RoomRecord} (h : Refines r)
    (hroom : r.manager.rooms.find code = some room) (clientFd : Fd) :
    Int32.ofNat (room.leaveUser clientFd).getCurrentUserCount = 0 ↔
      (room.leaveUser clientFd).getCurrentUserCount = 0 := by
  have hnodup : (clientFd :: room.clients.erase clientFd).Nodup :=
    List.nodup_cons.mpr ⟨(h.nodup hroom).not_mem_erase, (h.nodup hroom).erase clientFd⟩
  have hinj : Function.Injective fun fd : Fd => fd.toBitVec.toFin := by
    intro a b hab
    exact Int32.toBitVec_inj.mp (BitVec.toFin_inj.mp hab)
  have hlen := List.Nodup.length_le_card (hnodup.map hinj)
  rw [List.length_map, List.length_cons, Fintype.card_fin] at hlen
  have hlt : (room.leaveUser clientFd).getCurrentUserCount < 2 ^ 32 := Nat.lt_of_succ_le hlen
  rw [← Int32.toBitVec_inj]
  show BitVec.ofNat 32 (room.leaveUser clientFd).getCurrentUserCount = 0#32 ↔ _
  rw [← BitVec.toNat_inj, BitVec.toNat_ofNat, Nat.mod_eq_of_lt hlt]
  rfl

/-- **The room manager refines its history.**  After any calls, with any codes drawn, there
are at most 100 rooms, each under its own code and with nobody in it twice; the rooms are
those the history tells of; and `joinRoom` says whether it adds the client. -/
theorem refines_history (codes : CodeStream) (calls : List RoomCall) :
    (run codes calls).manager.rooms.size ≤ maxRoomCnt ∧
      (∀ code room, (run codes calls).manager.rooms.find code = some room →
        room.getRoomCode = code ∧ room.getClientFds.Nodup) ∧
      (∀ code room, (run codes calls).manager.rooms.find code = some room ↔
        ∃ after, Since (run codes calls).history code room after) ∧
      ∀ clientFd code,
        (((run codes calls).manager.joinRoom clientFd code).1 = true ↔
          ∃ room, (run codes calls).manager.rooms.find code = some room ∧
            clientFd ∉ room.clients ∧
            ((run codes calls).manager.joinRoom clientFd code).2.rooms =
              (run codes calls).manager.rooms.set code
                { room with clients := room.clients ++ [clientFd] }) ∧
        (((run codes calls).manager.joinRoom clientFd code).1 = false ↔
          ((run codes calls).manager.joinRoom clientFd code).2.rooms =
            (run codes calls).manager.rooms) := by
  have h := refines_run codes calls
  refine ⟨h.size_le, ?_, h.find_iff, ?_⟩
  · intro code room hroom
    obtain ⟨after, hsince⟩ := (h.find_iff code room).mp hroom
    exact ⟨hsince.key, h.nodup hroom⟩
  · intro clientFd code
    exact ⟨joinRoom_eq_true_iff _ clientFd code, joinRoom_eq_false_iff _ clientFd code⟩

end RoomRecord

end SocketChat
