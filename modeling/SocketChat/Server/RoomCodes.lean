/-
Room codes as `addRoom` draws them.

`RoomManager.addRoom` takes its codes from a stream and counts its attempts down.  Here is
the function as it stands in the source, on what the random number generator yields:
`generateRoomCode` appends eight characters, the `do … while` counts its attempts up and has
no other bound, and `try_emplace` leaves an entry that is there alone.  `addRoomWithin_eq`
says that the two agree, whatever the indices are, and that a hundred and one passes are
enough.
-/
import SocketChat.Server.RoomManager

namespace SocketChat

open CodeStream

/-- What the calls of `dis(gen)` will return. -/
abbrev Indices := ℕ → Fin 62

namespace RoomManager

/-! ### The source's loops -/

/-- The `for` loop of `generateRoomCode`, `n` passes before its end. -/
def appendChars : (n : ℕ) → Bytes → Indices → Bytes × Indices
  | 0, code, gen => (code, gen)
  | n + 1, code, gen => appendChars n (code ++ [chars.getD (gen 0) 0]) fun i => gen (i + 1)

def generateRoomCode (gen : Indices) : Bytes × Indices := appendChars 8 [] gen

/-- `try_emplace`: an entry that is there stays. -/
def tryEmplace (rooms : Table Bytes Room) (roomCode : Bytes) (room : Room) : Table Bytes Room :=
  if roomCode ∈ rooms then rooms else rooms.set roomCode room

/-- `addRoom` from its `do … while` on, or `none` when the loop takes more than `passes`
passes. -/
def addRoomLoop (rooms : Table Bytes Room) (roomName : Bytes) (maxUserCnt : Int32) :
    (passes attempts : ℕ) → Indices → Option (Bytes × Table Bytes Room × Indices)
  | 0, _, _ => none
  | passes + 1, attempts, gen =>
    let drawn := generateRoomCode gen
    -- the attempt is counted, and may be one too many, before its code is looked up
    if 100 < attempts + 1 then some ([], rooms, drawn.2)
    else if drawn.1 ∈ rooms then
      addRoomLoop rooms roomName maxUserCnt passes (attempts + 1) drawn.2
    else some (drawn.1,
      tryEmplace rooms drawn.1 (Room.new drawn.1 roomName maxUserCnt), drawn.2)

def addRoomWithin (passes : ℕ) (rooms : Table Bytes Room) (roomName : Bytes)
    (maxUserCnt : Int32) (gen : Indices) : Option (Bytes × Table Bytes Room × Indices) :=
  if maxRoomCnt ≤ rooms.size then some ([], rooms, gen)
  else addRoomLoop rooms roomName maxUserCnt passes 0 gen

/-! ### One code -/

theorem appendChars_eq (n : ℕ) (code : Bytes) (gen : Indices) :
    appendChars n code gen =
      (code ++ (List.range n).map (fun i => chars.getD (gen i) 0), fun i => gen (i + n)) := by
  induction n generalizing code gen with
  | zero => rw [appendChars, List.range_zero, List.map_nil, List.append_nil]; rfl
  | succ n ih =>
    rw [appendChars, ih, List.range_succ_eq_map, List.map_cons, List.map_map,
      List.append_assoc, List.singleton_append]
    refine Prod.ext_iff.mpr ⟨rfl, ?_⟩
    funext i
    exact congrArg gen (by omega)

/-- The generator after `k` codes. -/
def afterCodes (gen : Indices) (k : ℕ) : Indices := fun i => gen (8 * k + i)

theorem afterCodes_zero (gen : Indices) : afterCodes gen 0 = gen :=
  funext fun i => congrArg gen (Nat.zero_add i)

theorem generateRoomCode_afterCodes (gen : Indices) (k : ℕ) :
    generateRoomCode (afterCodes gen k) = ((ofIndices gen).code k, afterCodes gen (k + 1)) := by
  rw [generateRoomCode, appendChars_eq, List.nil_append]
  refine Prod.ext_iff.mpr ⟨rfl, ?_⟩
  funext i
  exact congrArg gen (by omega)

/-- What `generateRoomCode` returns when it is called for the `k`th time, from 0. -/
def nthCode : Indices → ℕ → Bytes
  | gen, 0 => (generateRoomCode gen).1
  | gen, k + 1 => nthCode (generateRoomCode gen).2 k

/-- The codes of `CodeStream.ofIndices` are those that `generateRoomCode` returns, called
again and again. -/
theorem nthCode_eq (gen : Indices) (k : ℕ) : nthCode gen k = (ofIndices gen).code k := by
  have hfrom : ∀ j, nthCode (afterCodes gen j) k = (ofIndices gen).code (j + k) := by
    induction k with
    | zero =>
      intro j
      rw [nthCode, generateRoomCode_afterCodes]
      rfl
    | succ k ih =>
      intro j
      rw [nthCode, generateRoomCode_afterCodes, ih, Nat.add_right_comm, Nat.add_assoc]
  have h := hfrom 0
  rwa [afterCodes_zero, Nat.zero_add] at h

theorem ofIndices_afterCodes (gen : Indices) (k : ℕ) :
    ofIndices (afterCodes gen k) = (ofIndices gen).drop k := by
  rw [drop, CodeStream.mk.injEq]
  funext j
  simp only [ofIndices]
  refine List.map_congr_left fun i _ => ?_
  rw [afterCodes, show 8 * k + (8 * j + i) = 8 * (k + j) + i by omega]

/-! ### The retry loop -/

theorem tryEmplace_new {rooms : Table Bytes Room} {roomCode : Bytes} (room : Room)
    (h : roomCode ∉ rooms) :
    tryEmplace rooms roomCode room = rooms.set roomCode room := if_neg h

/-- What `addRoom` makes of the outcome of `drawCode`. -/
def emplaceDrawn (rooms : Table Bytes Room) (roomName : Bytes) (maxUserCnt : Int32)
    (roomCode : Bytes) : Table Bytes Room :=
  if roomCode = [] then rooms else rooms.set roomCode (Room.new roomCode roomName maxUserCnt)

/-- The loop gives up at its 101st attempt, so that it never runs out of passes, and until
then does what `drawCode` does. -/
theorem addRoomLoop_eq (rooms : Table Bytes Room) (roomName : Bytes) (maxUserCnt : Int32)
    (gen : Indices) {left : ℕ} :
    ∀ {passes attempts : ℕ} (k : ℕ), attempts + left = 100 → left < passes →
      addRoomLoop rooms roomName maxUserCnt passes attempts (afterCodes gen k) =
        some ((drawCode rooms (ofIndices gen) left k).1,
          emplaceDrawn rooms roomName maxUserCnt (drawCode rooms (ofIndices gen) left k).1,
          afterCodes gen (drawCode rooms (ofIndices gen) left k).2) := by
  induction left with
  | zero =>
    intro passes attempts k hattempts hpasses
    obtain ⟨passes, rfl⟩ := Nat.exists_eq_add_one_of_ne_zero (Nat.ne_of_gt hpasses)
    rw [addRoomLoop]
    simp only [generateRoomCode_afterCodes, if_pos (show 100 < attempts + 1 by omega)]
    rfl
  | succ left ih =>
    intro passes attempts k hattempts hpasses
    obtain ⟨passes, rfl⟩ := Nat.exists_eq_add_one_of_ne_zero (Nat.ne_zero_of_lt hpasses)
    rw [addRoomLoop]
    simp only [generateRoomCode_afterCodes, if_neg (show ¬ 100 < attempts + 1 by omega), drawCode]
    by_cases htaken : (ofIndices gen).code k ∈ rooms
    · -- one attempt more, and one pass less
      simp only [if_pos htaken]
      exact ih (k + 1) (by omega) (by omega)
    · simp only [if_neg htaken, emplaceDrawn, if_neg (code_ne_nil _ k), tryEmplace_new _ htaken]

/-- The source's `addRoom` needs at most a hundred and one passes, and returns what
`RoomManager.addRoom` returns. -/
theorem addRoomWithin_eq (rooms : Table Bytes Room) (gen : Indices) (roomName : Bytes)
    (maxUserCnt : Int32) :
    ∃ gen', ((⟨rooms, ofIndices gen⟩ : RoomManager).addRoom roomName maxUserCnt).2.codes =
        ofIndices gen' ∧
      ∀ passes, 100 < passes → addRoomWithin passes rooms roomName maxUserCnt gen =
        some (((⟨rooms, ofIndices gen⟩ : RoomManager).addRoom roomName maxUserCnt).1,
          ((⟨rooms, ofIndices gen⟩ : RoomManager).addRoom roomName maxUserCnt).2.rooms, gen') := by
  unfold addRoomWithin addRoom
  by_cases hfull : maxRoomCnt ≤ rooms.size
  · simp only [if_pos hfull]
    exact ⟨gen, rfl, fun passes _ => rfl⟩
  · simp only [if_neg hfull]
    refine ⟨afterCodes gen (drawCode rooms (ofIndices gen) 100 0).2, ?_, fun passes hpasses => ?_⟩
    · rw [ofIndices_afterCodes]
      by_cases hfail : (drawCode rooms (ofIndices gen) 100 0).1 = []
      · rw [if_pos hfail]
      · rw [if_neg hfail]
    · have hloop := addRoomLoop_eq rooms roomName maxUserCnt gen 0 (Nat.zero_add 100) hpasses
      rw [afterCodes_zero] at hloop
      rw [hloop, emplaceDrawn]
      by_cases hfail : (drawCode rooms (ofIndices gen) 100 0).1 = []
      · simp only [hfail, if_true]
      · simp only [if_neg hfail]

/-! ### Fresh codes -/

/-- A character in `[a-zA-Z0-9]`. -/
def alphanumeric (c : UInt8) : Bool :=
  ('a'.toUInt8 ≤ c && c ≤ 'z'.toUInt8) || ('A'.toUInt8 ≤ c && c ≤ 'Z'.toUInt8) ||
    ('0'.toUInt8 ≤ c && c ≤ '9'.toUInt8)

theorem alphanumeric_chars : ∀ c ∈ chars, alphanumeric c = true :=
  List.all_eq_true.mp (by decide +kernel)

/-- **Room codes are fresh.**  Whatever the table and the generator, the retry loop ends
within 101 passes.  `addRoom` fails exactly when there are 100 rooms or the first hundred
codes drawn are all taken, and then leaves the table alone; otherwise it returns the first
of them that is free, eight letters and digits, and adds an empty room under that key. -/
theorem addRoom_allocates (rooms : Table Bytes Room) (gen : Indices) (roomName : Bytes)
    (maxUserCnt : Int32) :
    ∃ roomCode rooms' gen',
      (∀ passes, 100 < passes → addRoomWithin passes rooms roomName maxUserCnt gen =
        some (roomCode, rooms', gen')) ∧
      (⟨rooms, ofIndices gen⟩ : RoomManager).addRoom roomName maxUserCnt =
        (roomCode, ⟨rooms', ofIndices gen'⟩) ∧
      (roomCode = [] ↔ maxRoomCnt ≤ rooms.size ∨ ∀ k < 100, nthCode gen k ∈ rooms) ∧
      (roomCode = [] → rooms' = rooms) ∧
      (roomCode ≠ [] → ∃ k < 100, roomCode = nthCode gen k ∧ roomCode ∉ rooms ∧
        (∀ j < k, nthCode gen j ∈ rooms) ∧
        roomCode.length = 8 ∧ (∀ c ∈ roomCode, alphanumeric c = true) ∧
        rooms' = rooms.set roomCode (Room.new roomCode roomName maxUserCnt)) := by
  obtain ⟨gen', hcodes, hwithin⟩ := addRoomWithin_eq rooms gen roomName maxUserCnt
  refine ⟨_, _, gen', hwithin, ?_, ?_⟩
  · rw [← hcodes]
  simp only [nthCode_eq]
  rcases addRoom_first ⟨rooms, ofIndices gen⟩ roomName maxUserCnt with
    ⟨hwhy, hcode, hrooms⟩ | ⟨hsize, k, hk, hfree, htaken, hcode, hrooms⟩
  · refine ⟨iff_of_true hcode hwhy, fun _ => hrooms, ?_⟩
    intro hne
    exact absurd hcode hne
  · have hne : (ofIndices gen).code k ≠ [] := code_ne_nil _ k
    have hnot : ¬ (maxRoomCnt ≤ rooms.size ∨ ∀ k < 100, (ofIndices gen).code k ∈ rooms) := by
      rintro (hfull | hall)
      · exact absurd hsize (Nat.not_lt.mpr hfull)
      · exact hfree (hall k hk)
    have hchars : ∀ c ∈ (ofIndices gen).code k, alphanumeric c = true := by
      intro c hc
      exact alphanumeric_chars c (mem_chars_of_mem_code hc)
    rw [hcode, hrooms]
    refine ⟨iff_of_false hne hnot, fun h => absurd h hne, ?_⟩
    intro _
    exact ⟨k, hk, rfl, hfree, htaken, length_code _ k, hchars, rfl⟩

end RoomManager

end SocketChat
