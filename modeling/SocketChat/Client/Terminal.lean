/-
The client at a terminal.

`Console` has the loops of the client iteration by iteration, as functions of the standard
input; `Lobby` has the functions as they call each other.  Here their calls are replied to by
a terminal: reads read the standard input, the connection stays open, and the server grants
or refuses each request.  The two then read the same, a chat session (`comes_inputLoop`), a
choice of the menu (`exists_handleCreateRoom`, `exists_handleJoinRoom`) and an iteration of
a loop (`run_registerUser_succ`, `exists_showLobbyMenu`); and `Lobby::Run` returns exactly
when the console loops end (`run_ends_iff`).
-/
import SocketChat.Client.Console
import SocketChat.Client.Lobby

namespace SocketChat

namespace Client

/-- The standard input, and whether the server grants the requests to come. -/
structure Terminal where
  cin : IStream
  grants : ℕ → Bool

namespace Terminal

open LobbyThread

/-- The same terminal with something read. -/
def read (t : Terminal) (cin : IStream) : Terminal := { t with cin := cin }

/-- The first of the requests has been answered. -/
def answered (t : Terminal) : Terminal := { t with grants := fun n => t.grants (n + 1) }

/-- A terminal whose connection stays open. -/
def serve : (c : LobbyCall) → Terminal → Option (LobbyReply c × Terminal)
  | .getConnectionInfo, t =>
    some ((ConsoleUI.getConnectionInfo t.cin).1, t.read (ConsoleUI.getConnectionInfo t.cin).2)
  | .connectToServer _ _, t => some (true, t)
  | .isConnected, t => some (true, t)
  | .getNickname, t =>
    some ((ConsoleUI.getNickname t.cin).1, t.read (ConsoleUI.getNickname t.cin).2)
  | .registerNickname nickname, t =>
    some (some (ConnectionService.validateNickname nickname && t.grants 0), t.answered)
  | .readInt, t => some (t.cin.readInt.1, t.read t.cin.readInt.2.ignoreLine)
  | .getline, t => some (t.cin.getline.1, t.read t.cin.getline.2)
  | .eof, t => some (t.cin.eofbit, t)
  | .createRoom _ _, t => some (some (t.grants 0), t.answered)
  | .joinRoom _, t => some (some (t.grants 0), t.answered)
  | .startReceiver, t => some (some (), t)
  | .isInRoom, t => some (true, t)
  | .exitRoom, t => some (some true, t)
  | .sendMessage _, t => some (some true, t)
  | .stopReceiving, t => some ((), t)
  | .join, t => some ((), t)
  | .disconnect, t => some ((), t)
  | .cut, _ => none

variable {b : Bool} {t : Terminal} {fuel : ℕ}

/-! ### A chat session -/

theorem run_leaveInputLoop (b : Bool) (t : Terminal) :
    (leaveInputLoop backToLobby ⟨b, true⟩).run serve t = some ((some (), ⟨b, false⟩), t) := by
  cases b with
  | false => rfl
  | true => rfl

theorem run_inputLoop_succ (b : Bool) (fuel : ℕ) (t : Terminal) :
    (inputLoop backToLobby ⟨b, true⟩ (fuel + 1)).run serve t =
      if t.cin.getline.2.eofbit = true ∨ t.cin.getline.1 = str "/exit" then
        some ((some (), ⟨b, false⟩), t.read t.cin.getline.2)
      else (inputLoop backToLobby ⟨b, true⟩ fuel).run serve (t.read t.cin.getline.2) := by
  show Prog.run serve (if t.cin.getline.2.eofbit = true then _ else _) _ = _
  by_cases heof : t.cin.getline.2.eofbit = true
  · rw [if_pos heof, if_pos (Or.inl heof)]
    exact run_leaveInputLoop b _
  · rw [if_neg heof]
    show Prog.run serve (if t.cin.getline.1 = str "/exit" then _ else _) _ = _
    by_cases hexit : t.cin.getline.1 = str "/exit"
    · rw [if_pos hexit, if_pos (Or.inr hexit)]
      exact run_leaveInputLoop b _
    · rw [if_neg hexit, if_neg (not_or.mpr ⟨heof, hexit⟩)]
      by_cases hinput : t.cin.getline.1 ≠ []
      · rw [if_pos hinput]
        rfl
      · rw [if_neg hinput]

/-- As many lines as the session may have to read, and it comes to its end. -/
theorem comes_inputLoop (b : Bool) (hcin : t.cin.good = true ∨ t.cin.eofbit = true)
    (hfuel : t.cin.rest.length < fuel) :
    Prog.Comes serve (inputLoop backToLobby ⟨b, true⟩) fuel t
      fun _ => some ((some (), ⟨b, false⟩), t.read (Lobby.inputLoop fuel t.cin)) := by
  induction fuel generalizing t with
  | zero => exact absurd hfuel (Nat.not_lt_zero _)
  | succ fuel ih =>
    intro given
    cases given with
    | zero => exact Or.inr ⟨Nat.zero_le _, run_cut t⟩
    | succ given =>
      rw [run_inputLoop_succ, Lobby.inputLoop_succ]
      by_cases hend : t.cin.getline.2.eofbit = true ∨ t.cin.getline.1 = str "/exit"
      · rw [if_pos hend, if_pos hend]
        exact Or.inl rfl
      · rw [if_neg hend, if_neg hend]
        obtain ⟨hgood, hlt⟩ := Lobby.getline_of_goes_on hcin hend
        have hshorter : (t.read t.cin.getline.2).cin.rest.length < fuel :=
          Nat.lt_of_lt_of_le hlt (Nat.le_of_lt_succ hfuel)
        rcases ih (Or.inl hgood) hshorter given with heq | ⟨hle, hcut⟩
        · exact Or.inl heq
        · exact Or.inr ⟨Nat.succ_le_succ hle, hcut⟩

theorem comes_startChatSession (b : Bool) (hcin : t.cin.good = true ∨ t.cin.eofbit = true) :
    Prog.Comes serve (fun fuel => startChatSession backToLobby fuel ⟨b, false⟩)
      (t.cin.rest.length + 1) t
      fun _ => some ((some (), ⟨b, false⟩), t.read (Lobby.startChatSession t.cin)) :=
  (comes_inputLoop b hcin (Nat.lt_succ_self _)).congr fun _ => rfl

/-! ### The functions of the menu -/

theorem run_handleCreateRoom (b : Bool) (t : Terminal) (fuel : ℕ) :
    (handleCreateRoom backToLobby fuel ⟨b, false⟩).run serve t =
      if t.cin.getline.1 = [] then some ((some (), ⟨b, false⟩), t.read t.cin.getline.2)
      else if t.cin.getline.2.readInt.1 < 2 ∨ 10 < t.cin.getline.2.readInt.1 then
        some ((some (), ⟨b, false⟩), t.read t.cin.getline.2.readInt.2.ignoreLine)
      else if t.grants 0 = true then
        (startChatSession backToLobby fuel ⟨b, false⟩).run serve
          (t.answered.read t.cin.getline.2.readInt.2.ignoreLine)
      else some ((some (), ⟨b, false⟩),
        t.answered.read t.cin.getline.2.readInt.2.ignoreLine) := by
  show Prog.run serve (if t.cin.getline.1 = [] then _ else _) _ = _
  by_cases hname : t.cin.getline.1 = []
  · rw [if_pos hname, if_pos hname]
    rfl
  · rw [if_neg hname, if_neg hname]
    show Prog.run serve (if t.cin.getline.2.readInt.1 < 2 ∨ 10 < t.cin.getline.2.readInt.1
      then _ else _) _ = _
    by_cases hrange : t.cin.getline.2.readInt.1 < 2 ∨ 10 < t.cin.getline.2.readInt.1
    · rw [if_pos hrange, if_pos hrange]
      rfl
    · rw [if_neg hrange, if_neg hrange]
      show Option.bind (some (some (t.grants 0), _)) _ = _
      cases t.grants 0 with
      | false => rfl
      | true => rfl

theorem run_handleJoinRoom (b : Bool) (t : Terminal) (fuel : ℕ) :
    (handleJoinRoom backToLobby fuel ⟨b, false⟩).run serve t =
      if t.cin.getline.1 = [] then some ((some (), ⟨b, false⟩), t.read t.cin.getline.2)
      else if t.grants 0 = true then
        (startChatSession backToLobby fuel ⟨b, false⟩).run serve
          (t.answered.read t.cin.getline.2)
      else some ((some (), ⟨b, false⟩), t.answered.read t.cin.getline.2) := by
  show Prog.run serve (if t.cin.getline.1 = [] then _ else _) _ = _
  by_cases hcode : t.cin.getline.1 = []
  · rw [if_pos hcode, if_pos hcode]
    rfl
  · rw [if_neg hcode, if_neg hcode]
    show Option.bind (some (some (t.grants 0), _)) _ = _
    cases t.grants 0 with
    | false => rfl
    | true => rfl

/-- `HandleCreateRoom` comes to an end, having read what the console has it read. -/
theorem exists_handleCreateRoom (b : Bool) (t : Terminal) : ∃ t' n,
    t'.cin = Lobby.handleCreateRoom (t.grants 0) t.cin ∧
    Prog.Comes serve (fun fuel => handleCreateRoom backToLobby fuel ⟨b, false⟩) n t
      fun _ => some ((some (), ⟨b, false⟩), t') := by
  have hrun := run_handleCreateRoom b t
  rw [Lobby.handleCreateRoom]
  by_cases hname : t.cin.getline.1 = []
  · simp only [if_pos hname] at hrun ⊢
    exact ⟨_, 0, rfl, Prog.Comes.of_run hrun 0⟩
  simp only [if_neg hname] at hrun ⊢
  by_cases hrange : t.cin.getline.2.readInt.1 < 2 ∨ 10 < t.cin.getline.2.readInt.1
  · simp only [if_pos hrange] at hrun ⊢
    exact ⟨_, 0, rfl, Prog.Comes.of_run hrun 0⟩
  simp only [if_neg hrange] at hrun ⊢
  cases hgrant : t.grants 0 with
  | false =>
    simp only [hgrant] at hrun
    exact ⟨_, 0, rfl, Prog.Comes.of_run hrun 0⟩
  | true =>
    simp only [hgrant] at hrun
    -- a number within the range has been read, so the read has not failed
    have hclear : t.cin.getline.2.readInt.2.failbit = false := by
      by_contra hfail
      rcases IStream.readInt_failed (by simpa using hfail) with heq | heq | heq
      · exact hrange (Or.inl (heq ▸ by decide))
      · exact hrange (Or.inl (heq ▸ by decide))
      · exact hrange (Or.inr (heq ▸ by decide))
    exact ⟨_, _, rfl, (comes_startChatSession (t := t.answered.read _) b
      (IStream.good_or_eof_ignoreLine hclear)).congr hrun⟩

theorem exists_handleJoinRoom (b : Bool) (t : Terminal) : ∃ t' n,
    t'.cin = Lobby.handleJoinRoom (t.grants 0) t.cin ∧
    Prog.Comes serve (fun fuel => handleJoinRoom backToLobby fuel ⟨b, false⟩) n t
      fun _ => some ((some (), ⟨b, false⟩), t') := by
  have hrun := run_handleJoinRoom b t
  rw [Lobby.handleJoinRoom]
  by_cases hcode : t.cin.getline.1 = []
  · simp only [if_pos hcode] at hrun ⊢
    exact ⟨_, 0, rfl, Prog.Comes.of_run hrun 0⟩
  simp only [if_neg hcode] at hrun ⊢
  cases hgrant : t.grants 0 with
  | false =>
    simp only [hgrant] at hrun
    exact ⟨_, 0, rfl, Prog.Comes.of_run hrun 0⟩
  | true =>
    simp only [hgrant] at hrun
    exact ⟨_, _, rfl, (comes_startChatSession (t := t.answered.read _) b
      (IStream.good_or_eof_getline hcode)).congr hrun⟩

/-! ### Iterations -/

theorem staysLost_serve : StaysLost serve := by
  intro t t' h
  cases h

/-- `RegisterUser`, an iteration at a time. -/
theorem run_registerUser_succ (fuel : ℕ) (t : Terminal) :
    (registerUser (fuel + 1)).run serve t =
      if (Lobby.registerUser (t.grants 0) t.cin).1 = true then
        some (some true, t.answered.read (Lobby.registerUser (t.grants 0) t.cin).2)
      else (registerUser fuel).run serve
        (t.answered.read (Lobby.registerUser (t.grants 0) t.cin).2) := by
  show Prog.run serve (registerNickname _ >>= _) (t.read (ConsoleUI.getNickname t.cin).2) = _
  show Option.bind (some (some (Lobby.registerUser (t.grants 0) t.cin).1, _)) _ = _
  cases (Lobby.registerUser (t.grants 0) t.cin).1 with
  | false => rfl
  | true => rfl

/-- `ShowLobbyMenu`, an iteration at a time. -/
theorem exists_showLobbyMenu (t : Terminal) : ∃ t' n,
    t'.cin = (Lobby.showLobbyMenu (t.grants 0) t.cin).2 ∧
    Prog.Comes serve (fun fuel => showLobbyMenu (fuel + 1) ⟨true, false⟩) n t fun fuel =>
      if (Lobby.showLobbyMenu (t.grants 0) t.cin).1 = true then
        some ((some (), ⟨false, false⟩), t')
      else (showLobbyMenu fuel ⟨true, false⟩).run serve t' := by
  have hrun : ∀ fuel, (showLobbyMenu (fuel + 1) ⟨true, false⟩).run serve t =
      (if t.cin.readInt.1 = 1 then
        handleCreateRoom backToLobby fuel ⟨true, false⟩ >>= andThen (showLobbyMenu fuel)
      else if t.cin.readInt.1 = 2 then
        handleJoinRoom backToLobby fuel ⟨true, false⟩ >>= andThen (showLobbyMenu fuel)
      else if t.cin.readInt.1 = 3 then pure (some (), ⟨false, false⟩)
      else showLobbyMenu fuel ⟨true, false⟩).run serve (t.read t.cin.readInt.2.ignoreLine) :=
    fun fuel => same_showLobbyMenu_succ staysLost_serve fuel ⟨true, false⟩ t
  rw [Lobby.showLobbyMenu]
  by_cases hcreate : t.cin.readInt.1 = 1
  · simp only [if_pos hcreate] at hrun ⊢
    obtain ⟨t', n, hcin, hcomes⟩ :=
      exists_handleCreateRoom true (t.read t.cin.readInt.2.ignoreLine)
    exact ⟨t', n, hcin,
      (hcomes.bind fun fuel => andThen (showLobbyMenu fuel)).congr hrun⟩
  simp only [if_neg hcreate] at hrun ⊢
  by_cases hjoin : t.cin.readInt.1 = 2
  · simp only [if_pos hjoin] at hrun ⊢
    obtain ⟨t', n, hcin, hcomes⟩ :=
      exists_handleJoinRoom true (t.read t.cin.readInt.2.ignoreLine)
    exact ⟨t', n, hcin,
      (hcomes.bind fun fuel => andThen (showLobbyMenu fuel)).congr hrun⟩
  simp only [if_neg hjoin] at hrun ⊢
  by_cases hleave : t.cin.readInt.1 = 3
  · simp only [if_pos hleave] at hrun ⊢
    exact ⟨_, 0, rfl, Prog.Comes.of_run hrun 0⟩
  · simp only [if_neg hleave] at hrun ⊢
    exact ⟨_, 0, rfl, Prog.Comes.of_run hrun 0⟩

/-! ### `Lobby::Run` -/

/-- What is left of `Run` in a loop that has the given fuel. -/
def remaining (fuel : ℕ) : Loop → ℕ → Main Ended
  | .registerUser, given => do
    match ← registerUser given with
    | none => pure (none, new)
    | some false => pure (some (), new)
    | some true => showLobbyMenu fuel ⟨true, false⟩
  | .showLobbyMenu, given => showLobbyMenu given ⟨true, false⟩
  | .left, _ => pure (some (), ⟨false, false⟩)

theorem run_remaining_zero (fuel : ℕ) {loop : Loop} (hloop : loop ≠ .left) (t : Terminal) :
    (remaining fuel loop 0).run serve t = none := by
  cases loop with
  | registerUser => rfl
  | showLobbyMenu => exact run_cut t
  | left => exact absurd rfl hloop

/-- The loops that may still be executed. -/
def ahead : Loop → ℕ
  | .registerUser => 2
  | .showLobbyMenu => 1
  | .left => 0

/-- A loop is only left for one that is executed after it. -/
theorem ahead_iterate (answer : Bool) (c : Console) :
    (c.iterate answer).loop = c.loop ∨ ahead (c.iterate answer).loop < ahead c.loop := by
  obtain ⟨loop, cin⟩ := c
  cases loop with
  | registerUser =>
    show (if (Lobby.registerUser answer cin).1 = true then Loop.showLobbyMenu else _) = _ ∨ _
    by_cases hreturned : (Lobby.registerUser answer cin).1 = true
    · refine Or.inr ?_
      show ahead (if (Lobby.registerUser answer cin).1 = true then _ else _) < 2
      rw [if_pos hreturned]
      decide
    · exact Or.inl (if_neg hreturned)
  | showLobbyMenu =>
    by_cases hreturned : (Lobby.showLobbyMenu answer cin).1 = true
    · refine Or.inr ?_
      show ahead (if (Lobby.showLobbyMenu answer cin).1 = true then _ else _) < 1
      rw [if_pos hreturned]
      decide
    · exact Or.inl (if_neg hreturned)
  | left => exact Or.inl rfl

/-- The console in a loop. -/
def console (x : Loop × Terminal) : Console := ⟨x.1, x.2.cin⟩

/-- `Run`, an iteration at a time. -/
theorem exists_iterate (x : Loop × Terminal) : ∃ y n,
    console y = (console x).iterate (x.2.grants 0) ∧
    ∀ fuel, Prog.Comes serve (fun given => remaining fuel x.1 (given + 1)) n x.2 fun given =>
      (remaining fuel y.1 (if y.1 = x.1 then given else fuel)).run serve y.2 := by
  obtain ⟨loop, t⟩ := x
  cases loop with
  | registerUser =>
    by_cases hreturned : (Lobby.registerUser (t.grants 0) t.cin).1 = true
    · refine ⟨(.showLobbyMenu, t.answered.read (Lobby.registerUser (t.grants 0) t.cin).2), 0,
        ?_, fun fuel => Prog.Comes.of_run (fun given => ?_) 0⟩
      · show _ = Console.mk (if (Lobby.registerUser (t.grants 0) t.cin).1 = true then _ else _) _
        rw [if_pos hreturned]
        rfl
      · show Prog.run serve (registerUser (given + 1) >>= _) t = _
        rw [Prog.run_bind, run_registerUser_succ, if_pos hreturned]
        rfl
    · refine ⟨(.registerUser, t.answered.read (Lobby.registerUser (t.grants 0) t.cin).2), 0,
        ?_, fun fuel => Prog.Comes.of_run (fun given => ?_) 0⟩
      · show _ = Console.mk (if (Lobby.registerUser (t.grants 0) t.cin).1 = true then _ else _) _
        rw [if_neg hreturned]
        rfl
      · show Prog.run serve (registerUser (given + 1) >>= _) t =
          Prog.run serve (registerUser given >>= _) _
        rw [Prog.run_bind, run_registerUser_succ, if_neg hreturned, Prog.run_bind]
  | showLobbyMenu =>
    obtain ⟨t', n, hcin, hcomes⟩ := exists_showLobbyMenu t
    by_cases hreturned : (Lobby.showLobbyMenu (t.grants 0) t.cin).1 = true
    · simp only [if_pos hreturned] at hcomes
      refine ⟨(.left, t'), n, ?_, fun fuel => hcomes⟩
      show Console.mk .left t'.cin =
        ⟨if (Lobby.showLobbyMenu (t.grants 0) t.cin).1 = true then _ else _, _⟩
      rw [if_pos hreturned, hcin]
      rfl
    · simp only [if_neg hreturned] at hcomes
      refine ⟨(.showLobbyMenu, t'), n, ?_, fun fuel => hcomes⟩
      show Console.mk .showLobbyMenu t'.cin =
        ⟨if (Lobby.showLobbyMenu (t.grants 0) t.cin).1 = true then _ else _, _⟩
      rw [if_neg hreturned, hcin]
      rfl
  | left => exact ⟨(.left, t), 0, rfl, fun fuel => Prog.Comes.of_run (fun _ => rfl) 0⟩

section Iterations

variable {next : Loop × Terminal → Loop × Terminal} {bound : Loop × Terminal → ℕ}
  {x : Loop × Terminal} {r : Ended × Terminal}

/-- What is left of `Run`, before and after an iteration. -/
def Iterates (next : Loop × Terminal → Loop × Terminal) (bound : Loop × Terminal → ℕ) : Prop :=
  ∀ x, console (next x) = (console x).iterate (x.2.grants 0) ∧
    ∀ fuel, Prog.Comes serve (fun given => remaining fuel x.1 (given + 1)) (bound x) x.2
      fun given => (remaining fuel (next x).1
        (if (next x).1 = x.1 then given else fuel)).run serve (next x).2

theorem Iterates.after (h : Iterates next bound) (x : Loop × Terminal) (n : ℕ) :
    (console x).after (fun n => (next^[n] x).2.grants 0) n = console (next^[n] x) := by
  induction n with
  | zero => rfl
  | succ n ih => rw [Console.after, ih, Function.iterate_succ_apply', (h _).1]

/-- Where the loops are left, enough fuel lets `Run` return. -/
theorem Iterates.run_of_left (h : Iterates next bound) {n : ℕ} (hleft : (next^[n] x).1 = .left) :
    ∃ enough, ∀ fuel given, enough < fuel → enough < given →
      (remaining fuel x.1 given).run serve x.2 =
        some ((some (), ⟨false, false⟩), (next^[n] x).2) := by
  induction n generalizing x with
  | zero =>
    refine ⟨0, fun fuel given _ _ => ?_⟩
    rw [show x.1 = .left from hleft]
    rfl
  | succ n ih =>
    rw [Function.iterate_succ_apply] at hleft ⊢
    obtain ⟨enough, henough⟩ := ih hleft
    refine ⟨enough + bound x + 1, fun fuel given hfuel hgiven => ?_⟩
    obtain ⟨given, rfl⟩ : ∃ k, given = k + 1 := ⟨given - 1, by omega⟩
    have hnext := ((h x).2 fuel given).resolve_right fun hcut => by omega
    rw [hnext]
    refine henough fuel _ (by omega) ?_
    by_cases hsame : (next x).1 = x.1
    · rw [if_pos hsame]
      omega
    · rw [if_neg hsame]
      omega

/-- Where `Run` returns, the loops have been left. -/
theorem Iterates.left_of_run (h : Iterates next bound) {fuel : ℕ} (m given : ℕ)
    (hm : ahead x.1 ≤ m) (hrun : (remaining fuel x.1 given).run serve x.2 = some r) :
    ∃ n, next^[n] x = (.left, r.2) ∧ r.1 = (some (), ⟨false, false⟩) := by
  -- by the loops ahead, and within a loop by its fuel
  induction m generalizing x given with
  | zero =>
    obtain ⟨loop, t⟩ := x
    cases loop with
    | left =>
      obtain rfl := Option.some.inj hrun
      exact ⟨0, rfl, rfl⟩
    | registerUser => exact absurd hm (Nat.not_succ_le_zero 1)
    | showLobbyMenu => exact absurd hm (Nat.not_succ_le_zero 0)
  | succ m ihm =>
    induction given generalizing x with
    | zero =>
      obtain ⟨loop, t⟩ := x
      by_cases hloop : loop = .left
      · subst hloop
        obtain rfl := Option.some.inj hrun
        exact ⟨0, rfl, rfl⟩
      · rw [run_remaining_zero fuel hloop] at hrun
        cases hrun
    | succ given ih =>
      have hnext : (remaining fuel x.1 (given + 1)).run serve x.2 =
          (remaining fuel (next x).1 (if (next x).1 = x.1 then given else fuel)).run serve
            (next x).2 := by
        refine ((h x).2 fuel given).resolve_right fun hcut => ?_
        rw [hcut.2] at hrun
        cases hrun
      rw [hnext] at hrun
      suffices hrest : ∃ n, next^[n] (next x) = (.left, r.2) ∧ r.1 = (some (), ⟨false, false⟩) by
        obtain ⟨n, hn⟩ := hrest
        exact ⟨n + 1, hn⟩
      by_cases hsame : (next x).1 = x.1
      · rw [if_pos hsame] at hrun
        exact ih (hsame ▸ hm) hrun
      · rw [if_neg hsame] at hrun
        have hahead := (ahead_iterate (x.2.grants 0) (console x)).resolve_left fun heq =>
          hsame ((congrArg Console.loop (h x).1).trans heq)
        rw [← (h x).1] at hahead
        exact ihm fuel (Nat.le_of_lt_succ (Nat.lt_of_lt_of_le hahead hm)) hrun

/-- `Run` returns exactly where the loops are left. -/
theorem Iterates.ends_iff (h : Iterates next bound) (x : Loop × Terminal) (cin : IStream) :
    (∃ fuel r, (remaining fuel x.1 fuel).run serve x.2 = some r ∧ r.2.cin = cin) ↔
      ∃ n, (console x).after (fun n => (next^[n] x).2.grants 0) n = ⟨.left, cin⟩ := by
  constructor
  · rintro ⟨fuel, r, hrun, rfl⟩
    obtain ⟨n, hn, -⟩ := h.left_of_run (ahead x.1) fuel (Nat.le_refl _) hrun
    exact ⟨n, (h.after x n).trans (congrArg console hn)⟩
  · rintro ⟨n, hn⟩
    have hconsole := (h.after x n).symm.trans hn
    obtain ⟨enough, henough⟩ := h.run_of_left (congrArg Console.loop hconsole)
    exact ⟨enough + 1, _, henough _ _ (Nat.lt_succ_self _) (Nat.lt_succ_self _),
      congrArg Console.cin hconsole⟩

end Iterations

/-- **`Lobby::Run` ends when the console loops do.**  Whatever is typed and whatever the server
grants, on a connection that stays open: with some fuel `Run` returns, and with the same left
of the input, exactly when some number of iterations leaves the menu. -/
theorem run_ends_iff (t : Terminal) : ∃ answers : ℕ → Bool, ∀ cin : IStream,
    (∃ fuel r, (run fuel new).run serve t = some r ∧ r.2.cin = cin) ↔
      ∃ n, (Console.mk .registerUser (ConsoleUI.getConnectionInfo t.cin).2).after answers n =
        ⟨.left, cin⟩ := by
  choose next bound hnext using exists_iterate
  have h : Iterates next bound := hnext
  exact ⟨_, h.ends_iff (.registerUser, t.read (ConsoleUI.getConnectionInfo t.cin).2)⟩

end Terminal

end Client

end SocketChat
