/-
The console loops: `Lobby::RegisterUser` and `Lobby::ShowLobbyMenu`.

Each iteration reads from standard input and makes at most one request, which the server
answers one way or the other; the chat session that follows a request granted reads lines
up to "/exit" or to the end of the input and returns to the menu.  Nothing in these loops
looks at the error state of `std::cin` or clears it, so a read that fails is never got
over: `loops_end_iff`.

That the functions, as they call each other, do what these iterations do is shown in
`Terminal`.
-/
import SocketChat.Client.Services
import SocketChat.Lib.IStream

namespace SocketChat

namespace Client

/-! ### One iteration -/

def ConsoleUI.getConnectionInfo (cin : IStream) : (Bytes × Int32) × IStream :=
  let host := cin.readWord
  let port := host.2.readInt
  ((host.1, port.1), port.2.ignoreLine)

def ConsoleUI.getNickname (cin : IStream) : Bytes × IStream :=
  (cin.readWord.1, cin.readWord.2.ignoreLine)

def ConsoleUI.getMessageInput (cin : IStream) : Bytes × IStream := cin.getline

namespace Lobby

/-- An iteration of the loop in `RegisterUser`: whether it returns true, when the server would
answer a request as given. -/
def registerUser (answer : Bool) (cin : IStream) : Bool × IStream :=
  let nickname := ConsoleUI.getNickname cin
  (ConnectionService.validateNickname nickname.1 && answer, nickname.2)

/-- The lines `InputLoop` reads, `fuel` at most: it is left behind "/exit" and when the end of
the input has been reached. -/
def inputLoop : (fuel : ℕ) → IStream → IStream
  | 0, cin => cin
  | fuel + 1, cin =>
    let input := ConsoleUI.getMessageInput cin
    if input.2.eofbit = true ∨ input.1 = str "/exit" then input.2 else inputLoop fuel input.2

/-- A chat session on a connection that stays open. -/
def startChatSession (cin : IStream) : IStream := inputLoop (cin.rest.length + 1) cin

def handleCreateRoom (answer : Bool) (cin : IStream) : IStream :=
  let roomName := cin.getline
  if roomName.1 = [] then roomName.2
  else
    let maxUsers := roomName.2.readInt
    let cin := maxUsers.2.ignoreLine
    if maxUsers.1 < 2 ∨ 10 < maxUsers.1 then cin
    else if answer then startChatSession cin
    else cin

def handleJoinRoom (answer : Bool) (cin : IStream) : IStream :=
  let roomCode := cin.getline
  if roomCode.1 = [] then roomCode.2
  else if answer then startChatSession roomCode.2
  else roomCode.2

/-- An iteration of the loop in `ShowLobbyMenu`: whether it returns, and what is left of the
input. -/
def showLobbyMenu (answer : Bool) (cin : IStream) : Bool × IStream :=
  let choice := cin.readInt
  let cin := choice.2.ignoreLine
  if choice.1 = 1 then (false, handleCreateRoom answer cin)
  else if choice.1 = 2 then (false, handleJoinRoom answer cin)
  else if choice.1 = 3 then (true, cin)
  else (false, cin)

end Lobby

/-- Which of the loops is executed. -/
inductive Loop where
  | registerUser
  | showLobbyMenu
  | left
  deriving DecidableEq

structure Console where
  loop : Loop
  cin : IStream

namespace Console

/-- One iteration, with what the server answers if a request is made. -/
def iterate (answer : Bool) (c : Console) : Console :=
  match c.loop with
  | .registerUser =>
    let returned := Lobby.registerUser answer c.cin
    ⟨if returned.1 then .showLobbyMenu else .registerUser, returned.2⟩
  | .showLobbyMenu =>
    let returned := Lobby.showLobbyMenu answer c.cin
    ⟨if returned.1 then .left else .showLobbyMenu, returned.2⟩
  | .left => c

/-- After `n` iterations. -/
def after (answers : ℕ → Bool) (c : Console) : ℕ → Console
  | 0 => c
  | n + 1 => (after answers c n).iterate (answers n)

end Console

/-! ### The chat session -/

namespace Lobby

variable {cin : IStream}

theorem inputLoop_succ (fuel : ℕ) (cin : IStream) : inputLoop (fuel + 1) cin =
    if cin.getline.2.eofbit = true ∨ cin.getline.1 = str "/exit" then cin.getline.2
    else inputLoop fuel cin.getline.2 := rfl

theorem follows_inputLoop (fuel : ℕ) (cin : IStream) : cin.Follows (inputLoop fuel cin) := by
  induction fuel generalizing cin with
  | zero => exact IStream.Follows.refl cin
  | succ fuel ih =>
    rw [inputLoop_succ]
    by_cases hend : cin.getline.2.eofbit = true ∨ cin.getline.1 = str "/exit"
    · rw [if_pos hend]
      exact cin.follows_getline
    · rw [if_neg hend]
      exact cin.follows_getline.trans (ih _)

/-- Where the session goes on, a whole line has been read. -/
theorem getline_of_goes_on (hcin : cin.good = true ∨ cin.eofbit = true)
    (hon : ¬ (cin.getline.2.eofbit = true ∨ cin.getline.1 = str "/exit")) :
    cin.getline.2.good = true ∧ cin.getline.2.rest.length < cin.rest.length := by
  rw [not_or] at hon
  -- with `eofbit` set the session would have ended at once
  have hgood : cin.good = true := by
    refine hcin.resolve_right fun heof => hon.1 ?_
    have hnot : ¬ cin.good = true := by
      rw [IStream.good_iff, heof]
      simp
    rw [IStream.getline, if_neg hnot]
    exact heof
  exact (IStream.getline_cases hgood).resolve_left hon.1

/-- As many lines as there are bytes left, and one more, are enough: a session comes to its
end, unless `failbit` alone is set. -/
theorem inputLoop_eq {fuel : ℕ} (hcin : cin.good = true ∨ cin.eofbit = true)
    (hfuel : cin.rest.length < fuel) (more : ℕ) :
    inputLoop (fuel + more) cin = inputLoop fuel cin := by
  induction fuel generalizing cin with
  | zero => exact absurd hfuel (Nat.not_lt_zero _)
  | succ fuel ih =>
    rw [Nat.succ_add, inputLoop_succ, inputLoop_succ]
    by_cases hend : cin.getline.2.eofbit = true ∨ cin.getline.1 = str "/exit"
    · rw [if_pos hend, if_pos hend]
    · rw [if_neg hend, if_neg hend]
      obtain ⟨hgood, hlt⟩ := getline_of_goes_on hcin hend
      exact ih (Or.inl hgood) (Nat.lt_of_lt_of_le hlt (Nat.le_of_lt_succ hfuel))

theorem follows_startChatSession (cin : IStream) : cin.Follows (startChatSession cin) :=
  follows_inputLoop _ cin

/-! ### What an iteration reads -/

theorem follows_handleCreateRoom (answer : Bool) (cin : IStream) :
    cin.Follows (handleCreateRoom answer cin) := by
  rw [handleCreateRoom]
  by_cases hname : cin.getline.1 = []
  · rw [if_pos hname]
    exact cin.follows_getline
  · rw [if_neg hname]
    have hread : cin.Follows cin.getline.2.readInt.2.ignoreLine :=
      (cin.follows_getline.trans (IStream.follows_readInt _)).trans (IStream.follows_ignoreLine _)
    by_cases hrange : cin.getline.2.readInt.1 < 2 ∨ 10 < cin.getline.2.readInt.1
    · simp only [if_pos hrange]
      exact hread
    · simp only [if_neg hrange]
      cases answer with
      | true => exact hread.trans (follows_startChatSession _)
      | false => exact hread

theorem follows_handleJoinRoom (answer : Bool) (cin : IStream) :
    cin.Follows (handleJoinRoom answer cin) := by
  rw [handleJoinRoom]
  by_cases hcode : cin.getline.1 = []
  · rw [if_pos hcode]
    exact cin.follows_getline
  · rw [if_neg hcode]
    cases answer with
    | true => exact cin.follows_getline.trans (follows_startChatSession _)
    | false => exact cin.follows_getline

theorem follows_showLobbyMenu (answer : Bool) (cin : IStream) :
    cin.readInt.2.Follows (showLobbyMenu answer cin).2 := by
  have hline := IStream.follows_ignoreLine cin.readInt.2
  rw [showLobbyMenu]
  by_cases hcreate : cin.readInt.1 = 1
  · simp only [if_pos hcreate]
    exact hline.trans (follows_handleCreateRoom answer _)
  · by_cases hjoin : cin.readInt.1 = 2
    · simp only [if_neg hcreate, if_pos hjoin]
      exact hline.trans (follows_handleJoinRoom answer _)
    · by_cases hleave : cin.readInt.1 = 3
      · simp only [if_neg hcreate, if_neg hjoin, if_pos hleave]
        exact hline
      · simp only [if_neg hcreate, if_neg hjoin, if_neg hleave]
        exact hline

end Lobby

/-! ### Iteration by iteration -/

namespace Console

variable {c : Console} {answer : Bool} {answers : ℕ → Bool}

/-- With `failbit` set an iteration reads nothing and changes nothing. -/
theorem iterate_of_failbit (h : c.cin.failbit = true) (answer : Bool) : c.iterate answer = c := by
  obtain ⟨loop, cin⟩ := c
  have h : cin.failbit = true := h
  cases loop with
  | registerUser =>
    have hread : ConsoleUI.getNickname cin = ([], cin) := by
      rw [ConsoleUI.getNickname, IStream.readWord_of_failbit h, IStream.ignoreLine_of_failbit h]
    simp only [iterate, Lobby.registerUser, hread]
    rfl
  | showLobbyMenu =>
    have hread : Lobby.showLobbyMenu answer cin = (false, cin) := by
      rw [Lobby.showLobbyMenu, IStream.readInt_of_failbit h]
      simp only [IStream.ignoreLine_of_failbit h]
      rfl
    simp only [iterate, hread]
    rfl
  | left => rfl

/-- Any other iteration reads something, or fails to. -/
theorem iterate_progress (hloop : c.loop ≠ .left) (answer : Bool) :
    (c.iterate answer).cin.failbit = true ∨
      (c.iterate answer).cin.rest.length < c.cin.rest.length := by
  obtain ⟨loop, cin⟩ := c
  cases loop with
  | registerUser =>
    -- the first read decides: the line that is skipped behind it cannot repair it
    have hfollows : cin.readWord.2.Follows ((iterate answer ⟨.registerUser, cin⟩).cin) :=
      IStream.follows_ignoreLine _
    cases hread : cin.readWord.2.failbit with
    | true => exact Or.inl (hfollows.failbit hread)
    | false => exact Or.inr (Nat.lt_of_le_of_lt hfollows.length_le (IStream.readWord_lt hread))
  | showLobbyMenu =>
    have hfollows : cin.readInt.2.Follows ((iterate answer ⟨.showLobbyMenu, cin⟩).cin) :=
      Lobby.follows_showLobbyMenu answer cin
    cases hread : cin.readInt.2.failbit with
    | true => exact Or.inl (hfollows.failbit hread)
    | false => exact Or.inr (Nat.lt_of_le_of_lt hfollows.length_le (IStream.readInt_lt hread))
  | left => exact absurd rfl hloop

/-- Nothing happens any more. -/
theorem after_eq {n : ℕ}
    (h : (c.after answers n).cin.failbit = true ∨ (c.after answers n).loop = .left)
    (k : ℕ) : c.after answers (n + k) = c.after answers n := by
  induction k with
  | zero => rfl
  | succ k ih =>
    rw [← Nat.add_assoc, after, ih]
    rcases h with h | h
    · exact iterate_of_failbit h _
    · rw [iterate, h]

/-- **The console loops end exactly when no iteration is begun with `failbit` set.** -/
theorem loops_end_iff (answers : ℕ → Bool) (c : Console) :
    (∃ n, (c.after answers n).loop = .left) ↔
      ∀ n, (c.after answers n).loop ≠ .left → (c.after answers n).cin.failbit = false := by
  constructor
  · rintro ⟨m, hm⟩ n hn
    by_contra hfail
    have hfail : (c.after answers n).cin.failbit = true := by simpa using hfail
    -- nothing changes any more after `n`, nor after `m`
    rcases Nat.le_total n m with hle | hle
    · obtain ⟨k, rfl⟩ := Nat.exists_eq_add_of_le hle
      rw [after_eq (Or.inl hfail)] at hm
      exact hn hm
    · obtain ⟨k, rfl⟩ := Nat.exists_eq_add_of_le hle
      rw [after_eq (Or.inr hm)] at hn
      exact hn hm
  · intro hclear
    by_contra hnever
    have hnever : ∀ n, (c.after answers n).loop ≠ .left := fun n hn => hnever ⟨n, hn⟩
    -- what is left of the input gets shorter for ever
    have hlength : ∀ n, (c.after answers n).cin.rest.length + n ≤ c.cin.rest.length := by
      intro n
      induction n with
      | zero => exact Nat.le_refl _
      | succ n ih =>
        have hnext := hclear (n + 1) (hnever (n + 1))
        rw [after] at hnext ⊢
        rcases iterate_progress (hnever n) (answers n) with hfail | hlt
        · exact absurd (hfail.symm.trans hnext) (by simp)
        · omega
    have hlast := hlength (c.cin.rest.length + 1)
    omega

example : ((⟨.registerUser, IStream.ofBytes (str "bob\n2\nroom\nhi\n/exit\n3\n")⟩ : Console).after
    (fun _ => true) 3).loop = .left := by decide +kernel

/-- A nickname, and a choice that is no number. -/
def wrongChoice : Console := ⟨.registerUser, IStream.ofBytes (str "bob\nlobby\n3\n")⟩

/-- The menu is shown again and again; the "3" behind is never read. -/
theorem not_loops_end : ¬ ∃ n, (wrongChoice.after (fun _ => true) n).loop = .left := by
  have hfail : (wrongChoice.after (fun _ => true) 2).loop = .showLobbyMenu ∧
      (wrongChoice.after (fun _ => true) 2).cin.failbit = true := by
    decide +kernel
  rintro ⟨n, hn⟩
  rcases Nat.le_total 2 n with hle | hle
  · obtain ⟨k, rfl⟩ := Nat.exists_eq_add_of_le hle
    rw [after_eq (Or.inl hfail.2), hfail.1] at hn
    cases hn
  · obtain ⟨k, hk⟩ := Nat.exists_eq_add_of_le hle
    have hlast : (wrongChoice.after (fun _ => true) (n + k)).loop = .left := by
      rw [after_eq (Or.inr hn)]
      exact hn
    rw [← hk, hfail.1] at hlast
    cases hlast

end Console

end Client

end SocketChat
