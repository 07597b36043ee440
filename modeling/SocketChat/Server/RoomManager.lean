/-
Rooms: `Room` and `RoomManager`.

A room keeps the descriptors of its members in joining order and admits one while
`clients.size() >= maxUserCnt` is false; the comparison is between a `size_t` and an
`int`, so the `int` is converted first and a negative capacity admits everybody.

Room codes come from a random generator.  What its successive calls return is the
stream `CodeStream`, an input of the model; `CodeStream.ofIndices` is the stream the
code draws from an index source.
-/
import SocketChat.Server.ClientManager
import Mathlib.Data.Nat.Find

namespace SocketChat

/-! ### Rooms -/

inductive JoinResult where
  | success
  | roomFull
  | alreadyIn
  deriving DecidableEq

structure Room where
  roomCode : Bytes
  roomName : Bytes
  maxUserCnt : Int32
  clients : List Fd
  deriving DecidableEq

/-- Conversion of an `int` to `size_t`: a negative number wraps around 2^64. -/
def sizeOfInt (n : Int32) : ℕ := (n.toInt % 2 ^ 64).toNat

namespace Room

/-- The constructor: a room nobody is in. -/
def new (code name : Bytes) (maxUsers : Int32) : Room := ⟨code, name, maxUsers, []⟩

def acceptNewUser (room : Room) (clientFd : Fd) : JoinResult × Room :=
  if sizeOfInt room.maxUserCnt ≤ room.clients.length then (.roomFull, room)
  else if clientFd ∈ room.clients then (.alreadyIn, room)
  else (.success, { room with clients := room.clients ++ [clientFd] })

/-- Erases the first entry of the client, if there is one. -/
def leaveUser (room : Room) (clientFd : Fd) : Room :=
  { room with clients := room.clients.erase clientFd }

def getRoomCode (room : Room) : Bytes := room.roomCode

def getMaxUserCount (room : Room) : Int32 := room.maxUserCnt

def getCurrentUserCount (room : Room) : ℕ := room.clients.length

def getClientFds (room : Room) : List Fd := room.clients

end Room

/-! ### Room codes -/

/-- What the successive calls of `generateRoomCode` return. -/
structure CodeStream where
  code : ℕ → Bytes
  length_code : ∀ k, (code k).length = 8

namespace CodeStream

/-- The stream after `n` more calls. -/
def drop (codes : CodeStream) (n : ℕ) : CodeStream :=
  ⟨fun k => codes.code (n + k), fun k => codes.length_code (n + k)⟩

theorem drop_zero (codes : CodeStream) : codes.drop 0 = codes := by
  simp only [drop, Nat.zero_add]

/-- The characters a room code is made of. -/
def chars : List UInt8 := str
  "abcdefghijklmnopqrstuvwxyzABCDEFGHIJKLMNOPQRSTUVWXYZ0123456789"

/-- `generateRoomCode` on the indices `dis`: each call takes the next eight. -/
def ofIndices (dis : ℕ → Fin 62) : CodeStream where
  code k := (List.range 8).map fun i => chars.getD (dis (8 * k + i)) 0
  length_code k := by simp

theorem length_chars : chars.length = 62 := by decide +kernel

theorem mem_chars_of_mem_code {dis : ℕ → Fin 62} {k : ℕ} {c : UInt8}
    (h : c ∈ (ofIndices dis).code k) : c ∈ chars := by
  obtain ⟨i, -, rfl⟩ := List.mem_map.mp h
  have hlen : (dis (8 * k + i)).val < chars.length := by
    rw [length_chars]
    exact (dis (8 * k + i)).isLt
  rw [List.getD_eq_getElem?_getD, List.getElem?_eq_getElem hlen, Option.getD_some]
  exact List.getElem_mem hlen

/-- Eight times the first index, eight times the second and so on. -/
def indicesInOrder (k : ℕ) : Fin 62 := ⟨k / 8 % 62, Nat.mod_lt _ (by decide)⟩

/-- The codes `aaaaaaaa`, `bbbbbbbb` and so on. -/
abbrev inOrder : CodeStream := ofIndices indicesInOrder

theorem code_ne_nil (codes : CodeStream) (k : ℕ) : codes.code k ≠ [] := by
  intro h
  have := codes.length_code k
  rw [h] at this
  exact absurd this (by simp)

end CodeStream

/-! ### The room table -/

structure RoomManager where
  rooms : Table Bytes Room
  /-- The state of the generator. -/
  codes : CodeStream

/-- `MAX_ROOM_CNT`. -/
def maxRoomCnt : ℕ := 100

namespace RoomManager

/-- The `do … while` of `addRoom`: draw a code, give up (empty string) when it is the
101st one, stop when it is free.  `left` is 100 minus the source's `attempts` at the
start of a pass, `k` the number of codes drawn so far; the second component is the
number drawn in all. -/
def drawCode (rooms : Table Bytes Room) (codes : CodeStream) : (left k : ℕ) → Bytes × ℕ
  | 0, k => ([], k + 1)
  | left + 1, k =>
    if codes.code k ∈ rooms then drawCode rooms codes left (k + 1) else (codes.code k, k + 1)

/-- Returns the code of the new room, or the empty string. -/
def addRoom (m : RoomManager) (roomName : Bytes) (maxUserCnt : Int32) : Bytes × RoomManager :=
  if maxRoomCnt ≤ m.rooms.size then ([], m)
  else
    let drawn := drawCode m.rooms m.codes 100 0
    let codes := m.codes.drop drawn.2
    if drawn.1 = [] then ([], { m with codes := codes })
    else (drawn.1,
      { rooms := m.rooms.set drawn.1 (Room.new drawn.1 roomName maxUserCnt), codes := codes })

def removeRoom (m : RoomManager) (roomCode : Bytes) : RoomManager :=
  { m with rooms := m.rooms.remove roomCode }

def joinRoom (m : RoomManager) (clientFd : Fd) (roomCode : Bytes) : Bool × RoomManager :=
  match m.rooms.find roomCode with
  | none => (false, m)
  | some room =>
    let result := room.acceptNewUser clientFd
    (result.1 == .success, { m with rooms := m.rooms.set roomCode result.2 })

/-- A room nobody is left in is deleted. -/
def leaveRoom (m : RoomManager) (clientFd : Fd) (roomCode : Bytes) : RoomManager :=
  match m.rooms.find roomCode with
  | none => m
  | some room =>
    let room := room.leaveUser clientFd
    if room.getCurrentUserCount = 0 then { m with rooms := m.rooms.remove roomCode }
    else { m with rooms := m.rooms.set roomCode room }

def getRoom (m : RoomManager) (roomCode : Bytes) : Option Room := m.rooms.find roomCode

/-! ### What `addRoom` returns -/

/-- One of the first `n` codes is free. -/
def FreeCode (m : RoomManager) (n : ℕ) : Prop := ∃ k < n, m.codes.code k ∉ m.rooms

instance (m : RoomManager) (n : ℕ) : Decidable (m.FreeCode n) :=
  inferInstanceAs (Decidable (∃ k, k < n ∧ _))

/-- The loop fails when the codes it may check are all taken, and otherwise returns the
first free one among them. -/
theorem drawCode_cases (rooms : Table Bytes Room) (codes : CodeStream) :
    ∀ left k, (drawCode rooms codes left k = ([], k + left + 1) ∧
        ∀ j, k ≤ j → j < k + left → codes.code j ∈ rooms) ∨
      ∃ j, k ≤ j ∧ j < k + left ∧ codes.code j ∉ rooms ∧
        (∀ i, k ≤ i → i < j → codes.code i ∈ rooms) ∧
        drawCode rooms codes left k = (codes.code j, j + 1) := by
  intro left
  induction left with
  | zero => exact fun k => Or.inl ⟨rfl, fun j hk hj => absurd hj (by omega)⟩
  | succ left ih =>
    intro k
    rw [drawCode]
    by_cases hk : codes.code k ∈ rooms
    · have hfrom : ∀ {i n}, k ≤ i → i < n → (∀ j, k + 1 ≤ j → j < n → codes.code j ∈ rooms) →
          codes.code i ∈ rooms := by
        intro i n hki hin hall
        rcases Nat.eq_or_lt_of_le hki with rfl | hlt
        · exact hk
        · exact hall i hlt hin
      rw [if_pos hk]
      rcases ih (k + 1) with ⟨hfail, hall⟩ | ⟨j, hkj, hj, hfree, hall, hcode⟩
      · refine Or.inl ⟨?_, fun j hkj hj => hfrom hkj (by omega) hall⟩
        rw [hfail, Nat.add_right_comm k 1 left, Nat.add_assoc k left 1]
      · exact Or.inr ⟨j, by omega, by omega, hfree, fun i hki hij => hfrom hki hij hall, hcode⟩
    · rw [if_neg hk]
      exact Or.inr ⟨k, le_refl k, by omega, hk, fun i hki hik => absurd hik (by omega), rfl⟩

/-- `addRoom` fails when there are 100 rooms or the codes it may check are all taken, and
otherwise adds a room under the first free one. -/
theorem addRoom_first (m : RoomManager) (roomName : Bytes) (maxUserCnt : Int32) :
    ((maxRoomCnt ≤ m.rooms.size ∨ ∀ k < 100, m.codes.code k ∈ m.rooms) ∧
        (m.addRoom roomName maxUserCnt).1 = [] ∧
        (m.addRoom roomName maxUserCnt).2.rooms = m.rooms) ∨
      (m.rooms.size < maxRoomCnt ∧ ∃ k < 100, m.codes.code k ∉ m.rooms ∧
        (∀ j < k, m.codes.code j ∈ m.rooms) ∧
        (m.addRoom roomName maxUserCnt).1 = m.codes.code k ∧
        (m.addRoom roomName maxUserCnt).2.rooms =
          m.rooms.set (m.codes.code k) (Room.new (m.codes.code k) roomName maxUserCnt)) := by
  unfold addRoom
  by_cases hfull : maxRoomCnt ≤ m.rooms.size
  · rw [if_pos hfull]
    exact Or.inl ⟨Or.inl hfull, rfl, rfl⟩
  · rw [if_neg hfull]
    rcases drawCode_cases m.rooms m.codes 100 0 with
      ⟨hfail, hall⟩ | ⟨k, -, hk, hfree, hall, hcode⟩
    · rw [if_pos (congrArg Prod.fst hfail)]
      exact Or.inl ⟨Or.inr fun k hk => hall k (Nat.zero_le k) (by omega), rfl, rfl⟩
    · rw [hcode, if_neg (m.codes.code_ne_nil k)]
      exact Or.inr ⟨Nat.lt_of_not_le hfull, k, by omega, hfree,
        fun j hj => hall j (Nat.zero_le j) hj, rfl, rfl⟩

/-- `addRoom` does one of two things: it returns the empty string and leaves the rooms
as they are, because there are 100 or no free code was drawn; or it adds an empty room
under a fresh code that was drawn and returns that. -/
theorem addRoom_cases (m : RoomManager) (roomName : Bytes) (maxUserCnt : Int32) :
    ((m.addRoom roomName maxUserCnt).1 = [] ∧
        (m.addRoom roomName maxUserCnt).2.rooms = m.rooms ∧
        ¬ (m.rooms.size < maxRoomCnt ∧ m.FreeCode 100)) ∨
      ∃ k, m.codes.code k ∉ m.rooms ∧
        (m.addRoom roomName maxUserCnt).1 = m.codes.code k ∧
        (m.addRoom roomName maxUserCnt).2.rooms =
          m.rooms.set (m.codes.code k) (Room.new (m.codes.code k) roomName maxUserCnt) ∧
        m.rooms.size < maxRoomCnt ∧ m.FreeCode 100 := by
  rcases m.addRoom_first roomName maxUserCnt with
    ⟨hwhy, hcode, hrooms⟩ | ⟨hsize, k, hk, hfree, -, hcode, hrooms⟩
  · refine Or.inl ⟨hcode, hrooms, ?_⟩
    rintro ⟨hsize, k, hk, hfree⟩
    rcases hwhy with hfull | hall
    · exact absurd hsize (Nat.not_lt.mpr hfull)
    · exact hfree (hall k hk)
  · exact Or.inr ⟨k, hfree, hcode, hrooms, hsize, k, hk, hfree⟩

/-- `addRoom` only advances the generator. -/
theorem codes_addRoom (m : RoomManager) (roomName : Bytes) (maxUserCnt : Int32) :
    ∃ n, (m.addRoom roomName maxUserCnt).2.codes = m.codes.drop n := by
  unfold addRoom
  by_cases hfull : maxRoomCnt ≤ m.rooms.size
  · rw [if_pos hfull]
    exact ⟨0, m.codes.drop_zero.symm⟩
  · rw [if_neg hfull]
    refine ⟨(drawCode m.rooms m.codes 100 0).2, ?_⟩
    by_cases hfail : (drawCode m.rooms m.codes 100 0).1 = []
    · simp only [if_pos hfail]
    · simp only [if_neg hfail]

/-! ### The room table after joining and leaving -/

/-- `joinRoom` does one of two things: it fails and changes nothing, or it appends the
client, who was not there, to a room that was not full. -/
theorem joinRoom_cases (m : RoomManager) (clientFd : Fd) (roomCode : Bytes) :
    (m.joinRoom clientFd roomCode = (false, m) ∧
        ∀ room, m.rooms.find roomCode = some room →
          sizeOfInt room.maxUserCnt ≤ room.clients.length ∨ clientFd ∈ room.clients) ∨
      ∃ room, m.rooms.find roomCode = some room ∧
        room.clients.length < sizeOfInt room.maxUserCnt ∧ clientFd ∉ room.clients ∧
        m.joinRoom clientFd roomCode =
          (true, ⟨m.rooms.set roomCode { room with clients := room.clients ++ [clientFd] },
            m.codes⟩) := by
  unfold joinRoom
  cases hroom : m.rooms.find roomCode with
  | none => exact Or.inl ⟨rfl, fun room h => absurd h (by simp)⟩
  | some room =>
    have hsame : m.rooms.set roomCode room = m.rooms := by
      ext1 code
      rw [Table.find_set]
      by_cases h : code = roomCode
      · rw [if_pos h, h, hroom]
      · rw [if_neg h]
    by_cases hfull : sizeOfInt room.maxUserCnt ≤ room.clients.length
    · refine Or.inl ⟨?_, fun room' h => ?_⟩
      · simp only [Room.acceptNewUser, if_pos hfull, hsame]
        rfl
      · rw [Option.some_inj] at h
        exact Or.inl (h ▸ hfull)
    · by_cases hin : clientFd ∈ room.clients
      · refine Or.inl ⟨?_, fun room' h => ?_⟩
        · simp only [Room.acceptNewUser, if_neg hfull, if_pos hin, hsame]
          rfl
        · rw [Option.some_inj] at h
          exact Or.inr (h ▸ hin)
      · refine Or.inr ⟨room, rfl, Nat.lt_of_not_le hfull, hin, ?_⟩
        simp only [Room.acceptNewUser, if_neg hfull, if_neg hin]
        rfl

/-- After `joinRoom` the room is as `acceptNewUser` leaves it, and every other room as
before. -/
theorem find_joinRoom (m : RoomManager) (clientFd : Fd) (roomCode code : Bytes) :
    (m.joinRoom clientFd roomCode).2.rooms.find code =
      if code = roomCode then
        (m.rooms.find roomCode).map fun room => (room.acceptNewUser clientFd).2
      else m.rooms.find code := by
  unfold joinRoom
  cases h : m.rooms.find roomCode with
  | none =>
    by_cases hcode : code = roomCode
    · rw [if_pos hcode, hcode]
      exact h
    · rw [if_neg hcode]
  | some room => exact Table.find_set _ _ _ _

theorem joinRoom_fst (m : RoomManager) (clientFd : Fd) (roomCode : Bytes) :
    (m.joinRoom clientFd roomCode).1 = (m.rooms.find roomCode).elim false fun room =>
      (room.acceptNewUser clientFd).1 == .success := by
  unfold joinRoom
  cases m.rooms.find roomCode with
  | none => rfl
  | some room => rfl

@[simp] theorem codes_joinRoom (m : RoomManager) (clientFd : Fd) (roomCode : Bytes) :
    (m.joinRoom clientFd roomCode).2.codes = m.codes := by
  unfold joinRoom
  cases m.rooms.find roomCode with
  | none => rfl
  | some room => rfl

/-- After `leaveRoom` the room has lost one entry of the client, and is gone when that
leaves it empty; every other room is as before. -/
theorem find_leaveRoom (m : RoomManager) (clientFd : Fd) (roomCode code : Bytes) :
    (m.leaveRoom clientFd roomCode).rooms.find code =
      if code = roomCode then
        (m.rooms.find roomCode).bind fun room =>
          if room.clients.erase clientFd = [] then none else some (room.leaveUser clientFd)
      else m.rooms.find code := by
  unfold leaveRoom
  cases hroom : m.rooms.find roomCode with
  | none =>
    by_cases h : code = roomCode
    · rw [if_pos h, h]
      exact hroom
    · rw [if_neg h]
  | some room =>
    by_cases hempty : room.clients.erase clientFd = []
    · have hcount : (room.leaveUser clientFd).getCurrentUserCount = 0 := by
        rw [Room.getCurrentUserCount, Room.leaveUser, hempty]
        rfl
      simp only [if_pos hcount, Table.find_remove, Option.bind_some, if_pos hempty]
    · have hcount : (room.leaveUser clientFd).getCurrentUserCount ≠ 0 := by
        rw [Room.getCurrentUserCount, Room.leaveUser]
        exact fun h => hempty (List.length_eq_zero_iff.mp h)
      simp only [if_neg hcount, Table.find_set, Option.bind_some, if_neg hempty]

@[simp] theorem codes_leaveRoom (m : RoomManager) (clientFd : Fd) (roomCode : Bytes) :
    (m.leaveRoom clientFd roomCode).codes = m.codes := by
  unfold leaveRoom
  cases m.rooms.find roomCode with
  | none => rfl
  | some room =>
    by_cases h : (room.leaveUser clientFd).getCurrentUserCount = 0
    · simp only [if_pos h]
    · simp only [if_neg h]

end RoomManager

end SocketChat
