/-
The main thread of the client, from `Lobby::Run` to `~Lobby`.

`Lobby::ShowLobbyMenu` does not return to its loop when a chat session is over: `InputLoop`
calls it again, so every session leaves four more functions on the stack.  The functions are
modelled as they call each other, as programs whose calls are what they ask of the console,
of the services and of the receiver thread; a call of a service may raise an exception.

Whatever the console and the services reply, the calls of the main thread keep to a
discipline (`main_follows`): a receiver thread is only started where the one before has been
joined, a request whose answer the main thread waits for is made while no receiver thread is
there to take it (leaving a room apart), and none is there any more when the client ends.  And
the recursion comes to what a plain loop would come to (`showLobbyMenu_same_menuLoop`).
-/
import SocketChat.Lib.Contract
import SocketChat.Lib.Bytes

namespace SocketChat

namespace Client

/-! ### Calls -/

inductive LobbyCall where
  | getConnectionInfo
  | connectToServer (host : Bytes) (port : Int32)
  | isConnected
  | getNickname
  | registerNickname (nickname : Bytes)
  /-- `std::cin >> n`, and the rest of the line is ignored. -/
  | readInt
  | getline
  /-- `std::cin.eof()`. -/
  | eof
  | createRoom (roomName : Bytes) (maxUsers : Int32)
  | joinRoom (roomCode : Bytes)
  /-- A new thread is assigned to `m_receiver_thread`. -/
  | startReceiver
  | isInRoom
  | exitRoom
  | sendMessage (content : Bytes)
  | stopReceiving
  /-- `m_receiver_thread.join()`. -/
  | join
  | disconnect
  /-- The fuel is spent. -/
  | cut

/-- `none` is an exception. -/
def LobbyReply : LobbyCall → Type
  | .getConnectionInfo => Bytes × Int32
  | .connectToServer _ _ => Bool
  | .isConnected => Bool
  | .getNickname => Bytes
  | .registerNickname _ => Option Bool
  | .readInt => Int32
  | .getline => Bytes
  | .eof => Bool
  | .createRoom _ _ => Option Bool
  | .joinRoom _ => Option Bool
  | .startReceiver => Option Unit
  | .isInRoom => Bool
  | .exitRoom => Option Bool
  | .sendMessage _ => Option Bool
  | .stopReceiving => Unit
  | .join => Unit
  | .disconnect => Unit
  | .cut => Empty

/-- The members of `Lobby` that its functions change. -/
structure LobbyThread where
  m_is_running : Bool
  /-- `m_receiver_thread.joinable()`. -/
  joinable : Bool

namespace LobbyThread

abbrev Main := Prog LobbyReply

/-- A function that returns, or is left by an exception. -/
abbrev Ended := Option Unit × LobbyThread

def getConnectionInfo : Main (Bytes × Int32) := .call .getConnectionInfo .ret

def connectToServer (host : Bytes) (port : Int32) : Main Bool :=
  .call (.connectToServer host port) .ret

def isConnected : Main Bool := .call .isConnected .ret

def getNickname : Main Bytes := .call .getNickname .ret

def registerNickname (nickname : Bytes) : Main (Option Bool) :=
  .call (.registerNickname nickname) .ret

def readInt : Main Int32 := .call .readInt .ret

def getline : Main Bytes := .call .getline .ret

def eof : Main Bool := .call .eof .ret

def createRoom (roomName : Bytes) (maxUsers : Int32) : Main (Option Bool) :=
  .call (.createRoom roomName maxUsers) .ret

def joinRoom (roomCode : Bytes) : Main (Option Bool) := .call (.joinRoom roomCode) .ret

def startReceiver : Main (Option Unit) := .call .startReceiver .ret

def isInRoom : Main Bool := .call .isInRoom .ret

def exitRoom : Main (Option Bool) := .call .exitRoom .ret

def sendMessage (content : Bytes) : Main (Option Bool) := .call (.sendMessage content) .ret

def stopReceiving : Main Unit := .call .stopReceiving .ret

def join : Main Unit := .call .join .ret

def disconnect : Main Unit := .call .disconnect .ret

def cut {α : Type} : Main α := .call .cut Empty.elim

/-- The members a `Lobby` is constructed with. -/
def new : LobbyThread := ⟨false, false⟩

/-! ### The functions of `Lobby` -/

def registerUser : ℕ → Main (Option Bool)
  | 0 => cut
  | fuel + 1 => do
    let connected ← isConnected
    if connected = true then
      let nickname ← getNickname
      match ← registerNickname nickname with
      | none => pure none
      | some true => pure (some true)
      | some false => registerUser fuel
    else pure (some false)

def joinReceiver (self : LobbyThread) : Main LobbyThread :=
  if self.joinable = true then do
    join
    pure { self with joinable := false }
  else pure self

/-- `InputLoop` behind its loop. -/
def leaveInputLoop (showLobbyMenu : LobbyThread → Main Ended) (self : LobbyThread) :
    Main Ended := do
  stopReceiving
  let self ← joinReceiver self
  let connected ← isConnected
  if connected = true ∧ self.m_is_running = true then showLobbyMenu self
  else pure (some (), self)

def inputLoop (showLobbyMenu : LobbyThread → Main Ended) (self : LobbyThread) : ℕ → Main Ended
  | 0 => cut
  | fuel + 1 => do
    let connected ← isConnected
    if connected = true then
      let input ← getline
      let ended ← eof
      if ended = true then leaveInputLoop showLobbyMenu self
      else
        let connected ← isConnected
        if connected = false then leaveInputLoop showLobbyMenu self
        else if input = str "/exit" then
          let inRoom ← isInRoom
          if inRoom = true then
            match ← exitRoom with
            | none => pure (none, self)
            | some _ => leaveInputLoop showLobbyMenu self
          else leaveInputLoop showLobbyMenu self
        else if input ≠ [] then
          match ← sendMessage input with
          | none => pure (none, self)
          | some _ => inputLoop showLobbyMenu self fuel
        else inputLoop showLobbyMenu self fuel
    else leaveInputLoop showLobbyMenu self

def startChatSession (showLobbyMenu : LobbyThread → Main Ended) (fuel : ℕ)
    (self : LobbyThread) : Main Ended := do
  match ← startReceiver with
  | none => pure (none, self)
  | some () => inputLoop showLobbyMenu { self with joinable := true } fuel

def handleCreateRoom (showLobbyMenu : LobbyThread → Main Ended) (fuel : ℕ)
    (self : LobbyThread) : Main Ended := do
  let roomName ← getline
  if roomName = [] then pure (some (), self)
  else
    let maxUsers ← readInt
    if maxUsers < 2 ∨ 10 < maxUsers then pure (some (), self)
    else
      match ← createRoom roomName maxUsers with
      | none => pure (none, self)
      | some true => startChatSession showLobbyMenu fuel self
      | some false => pure (some (), self)

def handleJoinRoom (showLobbyMenu : LobbyThread → Main Ended) (fuel : ℕ)
    (self : LobbyThread) : Main Ended := do
  let roomCode ← getline
  if roomCode = [] then pure (some (), self)
  else
    match ← joinRoom roomCode with
    | none => pure (none, self)
    | some true => startChatSession showLobbyMenu fuel self
    | some false => pure (some (), self)

/-- What the menu does behind a function it has called. -/
def andThen (f : LobbyThread → Main Ended) (ended : Ended) : Main Ended :=
  match ended with
  | (none, self) => pure (none, self)
  | (some (), self) => f self

/-- The loop in `ShowLobbyMenu`; `again` is the loop from its next iteration on. -/
def menuIteration (handleCreateRoom handleJoinRoom again : LobbyThread → Main Ended)
    (self : LobbyThread) : Main Ended :=
  if self.m_is_running = true then do
    let connected ← isConnected
    if connected = true then
      let choice ← readInt
      if choice = 1 then handleCreateRoom self >>= andThen again
      else if choice = 2 then handleJoinRoom self >>= andThen again
      else if choice = 3 then pure (some (), { self with m_is_running := false })
      else again self
    else pure (some (), self)
  else pure (some (), self)

def showLobbyMenu : ℕ → LobbyThread → Main Ended
  | 0 => fun _ => cut
  | fuel + 1 => menuIteration (handleCreateRoom (showLobbyMenu fuel) fuel)
      (handleJoinRoom (showLobbyMenu fuel) fuel) (showLobbyMenu fuel)

def setupConnection : Main Bool := do
  let info ← getConnectionInfo
  connectToServer info.1 info.2

def run (fuel : ℕ) (self : LobbyThread) : Main Ended := do
  let connected ← setupConnection
  if connected = false then pure (some (), self)
  else
    match ← registerUser fuel with
    | none => pure (none, self)
    | some false => pure (some (), self)
    | some true => showLobbyMenu fuel { self with m_is_running := true }

/-- `~Lobby`. -/
def destroy (self : LobbyThread) : Main Unit := do
  if self.joinable = true then
    stopReceiving
    join
  let connected ← isConnected
  if connected = true then disconnect

/-- `main`: the destructor is executed when an exception leaves `Run`, too.  Whether one has
is the value returned. -/
def main (fuel : ℕ) : Main Bool := do
  let ended ← run fuel new
  destroy ended.2
  pure ended.1.isNone

/-! ### The discipline -/

/-- Whether a receiver thread is there, whether it has been told to stop, and whether a room
has been granted for which none has been started yet. -/
structure Memory where
  receiver : Bool
  stopped : Bool
  granted : Bool

/-- What the main thread keeps to. -/
def discipline : Prog.Discipline LobbyReply Memory where
  allows m
    -- requests of which the main thread reads the answer itself
    | .registerNickname _ => m.receiver = false ∧ m.granted = false
    | .createRoom roomName maxUsers =>
      m.receiver = false ∧ m.granted = false ∧ roomName ≠ [] ∧ 2 ≤ maxUsers ∧ maxUsers ≤ 10
    | .joinRoom roomCode => m.receiver = false ∧ m.granted = false ∧ roomCode ≠ []
    -- assigning to a thread that is joinable is the end of the program
    | .startReceiver => m.receiver = false ∧ m.granted = true
    | .exitRoom => m.receiver = true ∧ m.stopped = false
    | .sendMessage content =>
      m.receiver = true ∧ m.stopped = false ∧ content ≠ [] ∧ content ≠ str "/exit"
    | .stopReceiving => m.receiver = true ∧ m.stopped = false
    | .join => m.receiver = true ∧ m.stopped = true
    | .disconnect => m.receiver = false ∧ m.granted = false
    | _ => m.granted = false
  next m
    | .createRoom _ _, granted => { m with granted := granted.getD false }
    | .joinRoom _, granted => { m with granted := granted.getD false }
    | .startReceiver, started => ⟨started.isSome, false, false⟩
    | .stopReceiving, _ => { m with stopped := true }
    | .join, _ => ⟨false, false, m.granted⟩
    | _, _ => m
  returns m := m.receiver = false ∧ m.granted = false

/-- No room is granted and no receiver is there. -/
def Memory.idle : Memory := ⟨false, false, false⟩

def Memory.chatting : Memory := ⟨true, false, false⟩

/-- Where a function of `Lobby` is left: a receiver thread is there if the member is joinable,
which is so at most when an exception has left the function. -/
def Left (ended : Ended) (m : Memory) : Prop :=
  m = ⟨ended.2.joinable, false, false⟩ ∧ (ended.1 = some () → ended.2.joinable = false)

/-- The menu, wherever it is called from. -/
def Menu (showLobbyMenu : LobbyThread → Main Ended) : Prop :=
  ∀ self, self.joinable = false → (showLobbyMenu self).Within discipline Left Memory.idle

variable {menu : LobbyThread → Main Ended} {self : LobbyThread}

theorem left_idle {ended : Option Unit} (hself : self.joinable = false) :
    Left (ended, self) Memory.idle := by
  refine ⟨?_, fun _ => hself⟩
  show Memory.idle = ⟨self.joinable, false, false⟩
  rw [hself]
  rfl

/-- An exception in a chat session. -/
theorem left_chatting (hself : self.joinable = true) : Left (none, self) Memory.chatting := by
  refine ⟨?_, fun h => ?_⟩
  · show Memory.chatting = ⟨self.joinable, false, false⟩
    rw [hself]
    rfl
  · cases h

theorem within_leaveInputLoop (hmenu : Menu menu) (hself : self.joinable = true) :
    (leaveInputLoop menu self).Within discipline Left Memory.chatting := by
  unfold leaveInputLoop joinReceiver
  refine ⟨⟨rfl, rfl⟩, fun _ => ?_⟩
  rw [if_pos hself]
  refine ⟨⟨rfl, rfl⟩, fun _ => ⟨rfl, fun (connected : Bool) => ?_⟩⟩
  show Prog.Within _ _ _ (if connected = true ∧ self.m_is_running = true then _ else _)
  by_cases hagain : connected = true ∧ self.m_is_running = true
  · rw [if_pos hagain]
    exact hmenu _ rfl
  · rw [if_neg hagain]
    exact left_idle rfl

theorem within_inputLoop (hmenu : Menu menu) (hself : self.joinable = true) (fuel : ℕ) :
    (inputLoop menu self fuel).Within discipline Left Memory.chatting := by
  have hleave := within_leaveInputLoop hmenu hself
  induction fuel with
  | zero => exact ⟨rfl, Empty.rec⟩
  | succ fuel ih =>
    refine ⟨rfl, fun connected => ?_⟩
    cases connected with
    | false => exact hleave
    | true =>
      refine ⟨rfl, fun (input : Bytes) => ⟨rfl, fun ended => ?_⟩⟩
      cases ended with
      | true => exact hleave
      | false =>
        refine ⟨rfl, fun connected => ?_⟩
        cases connected with
        | false => exact hleave
        | true =>
          show Prog.Within _ _ _ (if input = str "/exit" then _ else _)
          by_cases hexit : input = str "/exit"
          · rw [if_pos hexit]
            refine ⟨rfl, fun inRoom => ?_⟩
            cases inRoom with
            | false => exact hleave
            | true =>
              refine ⟨⟨rfl, rfl⟩, fun left => ?_⟩
              cases left with
              | none => exact left_chatting hself
              | some left => exact hleave
          · rw [if_neg hexit]
            by_cases hinput : input ≠ []
            · rw [if_pos hinput]
              refine ⟨⟨rfl, rfl, hinput, hexit⟩, fun sent => ?_⟩
              cases sent with
              | none => exact left_chatting hself
              | some sent => exact ih
            · rw [if_neg hinput]
              exact ih

theorem within_startChatSession (hmenu : Menu menu) (hself : self.joinable = false)
    (fuel : ℕ) : (startChatSession menu fuel self).Within discipline Left
      { Memory.idle with granted := true } := by
  refine ⟨⟨rfl, rfl⟩, fun started => ?_⟩
  cases started with
  | none => exact left_idle hself
  | some _ => exact within_inputLoop hmenu rfl fuel

theorem within_handleCreateRoom (hmenu : Menu menu) (hself : self.joinable = false)
    (fuel : ℕ) : (handleCreateRoom menu fuel self).Within discipline Left Memory.idle := by
  refine ⟨rfl, fun (roomName : Bytes) => ?_⟩
  show Prog.Within _ _ _ (if roomName = [] then _ else _)
  by_cases hname : roomName = []
  · rw [if_pos hname]
    exact left_idle hself
  · rw [if_neg hname]
    refine ⟨rfl, fun (maxUsers : Int32) => ?_⟩
    show Prog.Within _ _ _ (if maxUsers < 2 ∨ 10 < maxUsers then _ else _)
    by_cases hrange : maxUsers < 2 ∨ 10 < maxUsers
    · rw [if_pos hrange]
      exact left_idle hself
    · rw [if_neg hrange]
      rw [not_or] at hrange
      refine ⟨⟨rfl, rfl, hname, Int32.not_lt.mp hrange.1, Int32.not_lt.mp hrange.2⟩,
        fun granted => ?_⟩
      cases granted with
      | none => exact left_idle hself
      | some granted =>
        cases granted with
        | true => exact within_startChatSession hmenu hself fuel
        | false => exact left_idle hself

theorem within_handleJoinRoom (hmenu : Menu menu) (hself : self.joinable = false)
    (fuel : ℕ) : (handleJoinRoom menu fuel self).Within discipline Left Memory.idle := by
  refine ⟨rfl, fun (roomCode : Bytes) => ?_⟩
  show Prog.Within _ _ _ (if roomCode = [] then _ else _)
  by_cases hcode : roomCode = []
  · rw [if_pos hcode]
    exact left_idle hself
  · rw [if_neg hcode]
    refine ⟨⟨rfl, rfl, hcode⟩, fun granted => ?_⟩
    cases granted with
    | none => exact left_idle hself
    | some granted =>
      cases granted with
      | true => exact within_startChatSession hmenu hself fuel
      | false => exact left_idle hself

/-- Behind a function the menu has called. -/
theorem within_andThen {p : Main Ended} (hmenu : Menu menu)
    (hp : p.Within discipline Left Memory.idle) :
    (p >>= andThen menu).Within discipline Left Memory.idle := by
  refine hp.bind fun ended m hm => ?_
  obtain ⟨ended, self⟩ := ended
  cases ended with
  | none => exact hm
  | some _ =>
    obtain ⟨hm, hjoined⟩ := hm
    have hself : self.joinable = false := hjoined rfl
    have hidle : m = Memory.idle := by
      rw [hm]
      show Memory.mk self.joinable false false = _
      rw [hself]
      rfl
    rw [hidle]
    exact hmenu self hself

theorem menu_menuIteration {create join again : LobbyThread → Main Ended}
    (hcreate : Menu create) (hjoin : Menu join) (hagain : Menu again) :
    Menu (menuIteration create join again) := by
  intro self hself
  rw [menuIteration]
  by_cases hrunning : self.m_is_running = true
  · rw [if_pos hrunning]
    refine ⟨rfl, fun connected => ?_⟩
    cases connected with
    | false => exact left_idle hself
    | true =>
      refine ⟨rfl, fun (choice : Int32) => ?_⟩
      show Prog.Within _ _ _ (if choice = 1 then _ else _)
      by_cases hone : choice = 1
      · rw [if_pos hone]
        exact within_andThen hagain (hcreate self hself)
      · rw [if_neg hone]
        by_cases htwo : choice = 2
        · rw [if_pos htwo]
          exact within_andThen hagain (hjoin self hself)
        · rw [if_neg htwo]
          by_cases hthree : choice = 3
          · rw [if_pos hthree]
            exact left_idle hself
          · rw [if_neg hthree]
            exact hagain self hself
  · rw [if_neg hrunning]
    exact left_idle hself

theorem menu_showLobbyMenu (fuel : ℕ) : Menu (showLobbyMenu fuel) := by
  induction fuel with
  | zero => exact fun self _ => ⟨rfl, Empty.rec⟩
  | succ fuel ih =>
    exact menu_menuIteration (fun self hself => within_handleCreateRoom ih hself fuel)
      (fun self hself => within_handleJoinRoom ih hself fuel) ih

theorem within_registerUser (fuel : ℕ) :
    (registerUser fuel).Within discipline (fun _ m => m = Memory.idle) Memory.idle := by
  induction fuel with
  | zero => exact ⟨rfl, Empty.rec⟩
  | succ fuel ih =>
    refine ⟨rfl, fun connected => ?_⟩
    cases connected with
    | false => rfl
    | true =>
      refine ⟨rfl, fun nickname => ⟨⟨rfl, rfl⟩, fun registered => ?_⟩⟩
      cases registered with
      | none => rfl
      | some registered =>
        cases registered with
        | true => rfl
        | false => exact ih

theorem within_run (fuel : ℕ) : (run fuel new).Within discipline Left Memory.idle := by
  refine ⟨rfl, fun info => ⟨rfl, fun connected => ?_⟩⟩
  cases connected with
  | false => exact left_idle rfl
  | true =>
    refine (within_registerUser fuel).bind fun registered m hm => ?_
    subst hm
    cases registered with
    | none => exact left_idle rfl
    | some registered =>
      cases registered with
      | false => exact left_idle rfl
      | true => exact menu_showLobbyMenu fuel _ rfl

theorem within_destroy {ended : Ended} {m : Memory} (h : Left ended m) :
    (destroy ended.2).Within discipline (fun _ m => m = Memory.idle) m := by
  have hconnected : Prog.Within discipline (fun _ m => m = Memory.idle) Memory.idle
      (isConnected >>= fun connected => if connected = true then disconnect else pure ()) := by
    refine ⟨rfl, fun connected => ?_⟩
    cases connected with
    | false => rfl
    | true => exact ⟨⟨rfl, rfl⟩, fun _ => rfl⟩
  rw [h.1, destroy]
  cases ended.2.joinable with
  | false => exact hconnected
  | true => exact ⟨⟨rfl, rfl⟩, fun _ => ⟨⟨rfl, rfl⟩, fun _ => hconnected⟩⟩

/-- **The main thread and its receiver threads.**  Whatever is typed, whatever the services
reply and whichever of them raises an exception: a receiver thread is started as soon as a room
is granted, and never where another is joinable; it is told to stop before it is joined; while
one is there the main thread makes no request of which it reads the answer itself but for
leaving the room; and when the program ends none is there. -/
theorem main_follows (fuel : ℕ) : (main fuel).Follows discipline Memory.idle := by
  refine Prog.Within.follows ((within_run fuel).bind fun ended m hm => ?_)
  refine (within_destroy hm).bind fun _ m hm => ?_
  subst hm
  exact ⟨rfl, rfl⟩

/-! ### The recursion is a loop -/

/-- A chat session that returns to the loop of the menu it was started from. -/
def backToLobby (self : LobbyThread) : Main Ended := pure (some (), self)

/-- The menu as a loop: `showLobbyMenu` as it would be if `InputLoop` just returned. -/
def menuLoop : ℕ → LobbyThread → Main Ended
  | 0 => fun _ => cut
  | fuel + 1 => menuIteration (handleCreateRoom backToLobby fuel)
      (handleJoinRoom backToLobby fuel) (menuLoop fuel)

section Loop

variable {σ : Type*} {serve : (c : LobbyCall) → σ → Option (LobbyReply c × σ)} {s s' : σ}
  {menu' : LobbyThread → Main Ended} {self' : LobbyThread} {f : Ended → Main Ended}

theorem run_cut {α : Type} (s : σ) : (cut : Main α).run serve s = none := by
  show (serve .cut s).bind _ = none
  cases serve .cut s with
  | none => rfl
  | some x => exact x.1.elim

/-- A connection that is lost stays lost, and looking again changes nothing. -/
def StaysLost (serve : (c : LobbyCall) → σ → Option (LobbyReply c × σ)) : Prop :=
  ∀ s s', serve .isConnected s = some (false, s') → serve .isConnected s' = some (false, s')

/-- The menu returns at once, because it has been left or because the connection is lost. -/
def Over (serve : (c : LobbyCall) → σ → Option (LobbyReply c × σ)) (self : LobbyThread)
    (s : σ) : Prop :=
  self.m_is_running = false ∨ serve .isConnected s = some (false, s)

theorem run_of_over {create join again : LobbyThread → Main Ended} (h : Over serve self s) :
    (menuIteration create join again self).run serve s = some ((some (), self), s) := by
  rw [menuIteration]
  by_cases hrunning : self.m_is_running = true
  · rw [if_pos hrunning]
    have hlost := h.resolve_left (by rw [hrunning]; simp)
    show (serve .isConnected s).bind _ = _
    rw [hlost]
    rfl
  · rw [if_neg hrunning]
    rfl

theorem run_andThen {p : Main Ended}
    (h : (p >>= andThen menu).run serve s = some ((some (), self'), s')) :
    ∃ self₁ s₁, (menu self₁).run serve s₁ = some ((some (), self'), s') := by
  obtain ⟨⟨ended, self₁⟩, s₁, -, h⟩ := Prog.run_bind_eq_some.mp h
  cases ended with
  | none => cases h
  | some _ => exact ⟨self₁, s₁, h⟩

/-- Where an iteration returns the menu is over, or it is the next one that returns. -/
theorem over_or_again {create join again : LobbyThread → Main Ended} (hlost : StaysLost serve)
    (h : (menuIteration create join again self).run serve s = some ((some (), self'), s')) :
    Over serve self' s' ∨
      ∃ self₁ s₁, (again self₁).run serve s₁ = some ((some (), self'), s') := by
  rw [menuIteration] at h
  by_cases hrunning : self.m_is_running = true
  · rw [if_pos hrunning] at h
    obtain ⟨⟨connected, s₁⟩, hconnected, h⟩ := Option.bind_eq_some_iff.mp h
    cases connected with
    | false =>
      obtain ⟨-, rfl⟩ := Prod.mk.inj (Option.some.inj h)
      exact Or.inl (Or.inr (hlost s s₁ hconnected))
    | true =>
      obtain ⟨⟨(choice : Int32), s₂⟩, -, h⟩ := Option.bind_eq_some_iff.mp h
      have h : Prog.run serve (if choice = 1 then _ else _) s₂ = _ := h
      by_cases hone : choice = 1
      · rw [if_pos hone] at h
        exact Or.inr (run_andThen h)
      · rw [if_neg hone] at h
        by_cases htwo : choice = 2
        · rw [if_pos htwo] at h
          exact Or.inr (run_andThen h)
        · rw [if_neg htwo] at h
          by_cases hthree : choice = 3
          · rw [if_pos hthree] at h
            obtain ⟨hended, -⟩ := Prod.mk.inj (Option.some.inj h)
            obtain ⟨-, rfl⟩ := Prod.mk.inj hended
            exact Or.inl (Or.inl rfl)
          · rw [if_neg hthree] at h
            exact Or.inr ⟨self, s₂, h⟩
  · rw [if_neg hrunning] at h
    obtain ⟨hended, rfl⟩ := Prod.mk.inj (Option.some.inj h)
    obtain ⟨-, rfl⟩ := Prod.mk.inj hended
    exact Or.inl (Or.inl (Bool.not_eq_true _ ▸ hrunning))

/-- The menu only returns when it is over. -/
theorem over_of_run (hlost : StaysLost serve) {fuel : ℕ}
    (h : (showLobbyMenu fuel self).run serve s = some ((some (), self'), s')) :
    Over serve self' s' := by
  induction fuel generalizing self s with
  | zero =>
    rw [showLobbyMenu, run_cut] at h
    cases h
  | succ fuel ih =>
    rcases over_or_again hlost h with hover | ⟨self₁, s₁, h⟩
    · exact hover
    · exact ih h

/-- Returning from a menu to a menu changes nothing: the outer one returns at once. -/
theorem same_backToLobby (hlost : StaysLost serve) (fuel : ℕ) (self : LobbyThread) :
    (showLobbyMenu fuel self >>= andThen (showLobbyMenu fuel)).Same serve
      (backToLobby self >>= andThen (showLobbyMenu fuel)) := by
  intro s
  show _ = (showLobbyMenu fuel self).run serve s
  rw [Prog.run_bind]
  cases hrun : (showLobbyMenu fuel self).run serve s with
  | none => rfl
  | some r =>
    obtain ⟨⟨ended, self'⟩, s'⟩ := r
    cases ended with
    | none => rfl
    | some _ =>
      cases fuel with
      | zero =>
        rw [showLobbyMenu, run_cut] at hrun
        cases hrun
      | succ fuel => exact run_of_over (over_of_run hlost hrun)

/-! What a menu is called with matters only where it is called. -/

theorem same_leaveInputLoop (h : ∀ self, (menu self >>= f).Same serve (menu' self >>= f))
    (self : LobbyThread) :
    (leaveInputLoop menu self >>= f).Same serve (leaveInputLoop menu' self >>= f) := by
  have hagain : ∀ (self : LobbyThread) (connected : Bool), Prog.Same serve
      ((if connected = true ∧ self.m_is_running = true then menu self
        else pure (some (), self)) >>= f)
      ((if connected = true ∧ self.m_is_running = true then menu' self
        else pure (some (), self)) >>= f) := by
    intro self connected
    by_cases hagain : connected = true ∧ self.m_is_running = true
    · rw [if_pos hagain, if_pos hagain]
      exact h self
    · rw [if_neg hagain, if_neg hagain]
      exact Prog.Same.refl _
  unfold leaveInputLoop joinReceiver
  refine Prog.Same.call fun _ => ?_
  by_cases hjoinable : self.joinable = true
  · rw [if_pos hjoinable]
    refine Prog.Same.call fun _ => ?_
    refine Prog.Same.call fun connected => ?_
    exact hagain _ connected
  · rw [if_neg hjoinable]
    refine Prog.Same.call fun connected => ?_
    exact hagain self connected

theorem same_inputLoop (h : ∀ self, (menu self >>= f).Same serve (menu' self >>= f))
    (self : LobbyThread) (fuel : ℕ) :
    (inputLoop menu self fuel >>= f).Same serve (inputLoop menu' self fuel >>= f) := by
  have hleave := same_leaveInputLoop h self
  induction fuel with
  | zero => exact Prog.Same.refl _
  | succ fuel ih =>
    refine Prog.Same.call fun connected => ?_
    cases connected with
    | false => exact hleave
    | true =>
      refine Prog.Same.call fun (input : Bytes) => ?_
      refine Prog.Same.call fun ended => ?_
      cases ended with
      | true => exact hleave
      | false =>
        refine Prog.Same.call fun connected => ?_
        cases connected with
        | false => exact hleave
        | true =>
          show Prog.Same serve ((if input = str "/exit" then _ else _) >>= f)
            ((if input = str "/exit" then _ else _) >>= f)
          by_cases hexit : input = str "/exit"
          · rw [if_pos hexit, if_pos hexit]
            refine Prog.Same.call fun inRoom => ?_
            cases inRoom with
            | false => exact hleave
            | true =>
              refine Prog.Same.call fun left => ?_
              cases left with
              | none => exact Prog.Same.refl _
              | some left => exact hleave
          · rw [if_neg hexit, if_neg hexit]
            by_cases hinput : input ≠ []
            · rw [if_pos hinput, if_pos hinput]
              refine Prog.Same.call fun sent => ?_
              cases sent with
              | none => exact Prog.Same.refl _
              | some sent => exact ih
            · rw [if_neg hinput, if_neg hinput]
              exact ih

theorem same_startChatSession (h : ∀ self, (menu self >>= f).Same serve (menu' self >>= f))
    (fuel : ℕ) (self : LobbyThread) : (startChatSession menu fuel self >>= f).Same serve
      (startChatSession menu' fuel self >>= f) := by
  refine Prog.Same.call fun started => ?_
  cases started with
  | none => exact Prog.Same.refl _
  | some _ => exact same_inputLoop h _ fuel

theorem same_handleCreateRoom (h : ∀ self, (menu self >>= f).Same serve (menu' self >>= f))
    (fuel : ℕ) (self : LobbyThread) : (handleCreateRoom menu fuel self >>= f).Same serve
      (handleCreateRoom menu' fuel self >>= f) := by
  refine Prog.Same.call fun (roomName : Bytes) => ?_
  show Prog.Same serve ((if roomName = [] then _ else _) >>= f)
    ((if roomName = [] then _ else _) >>= f)
  by_cases hname : roomName = []
  · rw [if_pos hname, if_pos hname]
    exact Prog.Same.refl _
  · rw [if_neg hname, if_neg hname]
    refine Prog.Same.call fun (maxUsers : Int32) => ?_
    show Prog.Same serve ((if maxUsers < 2 ∨ 10 < maxUsers then _ else _) >>= f)
      ((if maxUsers < 2 ∨ 10 < maxUsers then _ else _) >>= f)
    by_cases hrange : maxUsers < 2 ∨ 10 < maxUsers
    · rw [if_pos hrange, if_pos hrange]
      exact Prog.Same.refl _
    · rw [if_neg hrange, if_neg hrange]
      refine Prog.Same.call fun granted => ?_
      cases granted with
      | none => exact Prog.Same.refl _
      | some granted =>
        cases granted with
        | true => exact same_startChatSession h fuel self
        | false => exact Prog.Same.refl _

theorem same_handleJoinRoom (h : ∀ self, (menu self >>= f).Same serve (menu' self >>= f))
    (fuel : ℕ) (self : LobbyThread) : (handleJoinRoom menu fuel self >>= f).Same serve
      (handleJoinRoom menu' fuel self >>= f) := by
  refine Prog.Same.call fun (roomCode : Bytes) => ?_
  show Prog.Same serve ((if roomCode = [] then _ else _) >>= f)
    ((if roomCode = [] then _ else _) >>= f)
  by_cases hcode : roomCode = []
  · rw [if_pos hcode, if_pos hcode]
    exact Prog.Same.refl _
  · rw [if_neg hcode, if_neg hcode]
    refine Prog.Same.call fun granted => ?_
    cases granted with
    | none => exact Prog.Same.refl _
    | some granted =>
      cases granted with
      | true => exact same_startChatSession h fuel self
      | false => exact Prog.Same.refl _

theorem same_menuIteration {create join again create' join' again' : LobbyThread → Main Ended}
    (hcreate : ∀ self,
      (create self >>= andThen again).Same serve (create' self >>= andThen again'))
    (hjoin : ∀ self, (join self >>= andThen again).Same serve (join' self >>= andThen again'))
    (hagain : ∀ self, (again self).Same serve (again' self)) (self : LobbyThread) :
    (menuIteration create join again self).Same serve
      (menuIteration create' join' again' self) := by
  unfold menuIteration
  by_cases hrunning : self.m_is_running = true
  · rw [if_pos hrunning, if_pos hrunning]
    refine Prog.Same.call fun connected => ?_
    cases connected with
    | false => exact Prog.Same.refl _
    | true =>
      refine Prog.Same.call fun (choice : Int32) => ?_
      show Prog.Same serve (if choice = 1 then _ else _) (if choice = 1 then _ else _)
      by_cases hone : choice = 1
      · rw [if_pos hone, if_pos hone]
        exact hcreate self
      · rw [if_neg hone, if_neg hone]
        by_cases htwo : choice = 2
        · rw [if_pos htwo, if_pos htwo]
          exact hjoin self
        · rw [if_neg htwo, if_neg htwo]
          by_cases hthree : choice = 3
          · rw [if_pos hthree, if_pos hthree]
            exact Prog.Same.refl _
          · rw [if_neg hthree, if_neg hthree]
            exact hagain self
  · rw [if_neg hrunning, if_neg hrunning]
    exact Prog.Same.refl _

theorem same_andThen {again again' : LobbyThread → Main Ended}
    (hagain : ∀ self, (again self).Same serve (again' self)) (ended : Ended) :
    (andThen again ended).Same serve (andThen again' ended) := by
  obtain ⟨ended, self⟩ := ended
  cases ended with
  | none => exact Prog.Same.refl _
  | some _ => exact hagain self

/-- A session that calls the menu might as well return to the menu that started it. -/
theorem same_showLobbyMenu_succ (hlost : StaysLost serve) (fuel : ℕ) (self : LobbyThread) :
    (showLobbyMenu (fuel + 1) self).Same serve (menuIteration (handleCreateRoom backToLobby fuel)
      (handleJoinRoom backToLobby fuel) (showLobbyMenu fuel) self) := by
  have hback := same_backToLobby hlost fuel
  exact same_menuIteration (same_handleCreateRoom hback fuel) (same_handleJoinRoom hback fuel)
    (fun _ => Prog.Same.refl _) self

/-- **The recursion between menu and chat session is a loop.**  Whatever the console and the
services reply, as long as a connection that is lost stays lost: that `InputLoop` calls the
menu again instead of returning to it makes no difference to what the client does, to the
members it ends with, nor to whether it ends. -/
theorem showLobbyMenu_same_menuLoop (hlost : StaysLost serve) (fuel : ℕ) (self : LobbyThread) :
    (showLobbyMenu fuel self).Same serve (menuLoop fuel self) := by
  induction fuel generalizing self with
  | zero => exact Prog.Same.refl _
  | succ fuel ih =>
    intro s
    rw [same_showLobbyMenu_succ hlost fuel self s]
    exact same_menuIteration (fun self => Prog.Same.bind _ (same_andThen ih))
      (fun self => Prog.Same.bind _ (same_andThen ih)) ih self s

end Loop

/-- Two rooms are joined, and the connection is lost when the second is left; the state counts
the numbers typed, and is 3 without the connection. -/
def twoSessions : (c : LobbyCall) → ℕ → Option (LobbyReply c × ℕ)
  | .isConnected, n => some (decide (n < 3), n)
  | .readInt, n => some ((2 : Int32), n + 1)
  | .getline, n => some (str "/exit", n)
  | .eof, n => some (false, n)
  | .joinRoom _, n => some (some true, n)
  | .startReceiver, n => some (some (), n)
  | .isInRoom, n => some (true, n)
  | .exitRoom, n => some (some (decide (n < 2)), if n = 2 then 3 else n)
  | .stopReceiving, n => some ((), n)
  | .join, n => some ((), n)
  | _, _ => none

theorem staysLost_twoSessions : StaysLost twoSessions := by
  intro n n' h
  obtain ⟨-, rfl⟩ := Prod.mk.inj (Option.some.inj h)
  exact h

/-- The second session is left by a menu called in the first, and both menus are over. -/
theorem showLobbyMenu_same_menuLoop_twoSessions :
    (showLobbyMenu 5 ⟨true, false⟩).run twoSessions 0 =
      some ((some (), ⟨true, false⟩), 3) := by
  rw [showLobbyMenu_same_menuLoop staysLost_twoSessions]
  rfl

end LobbyThread

end Client

end SocketChat
