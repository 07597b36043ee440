/-
Handlers that keep out of each other's way might as well run one at a time.

`footprints` says what each call of a handler, and each event of the I/O thread, touches and
changes of the server: the record of a client, the reservation of a nickname, a room, the
generator of room codes.  In a run of the thread pool in which nobody changes what a handler
that is still running has touched, nor touches what it has changed, the handlers have the
effect they would have had if each had run at once when it came to its end
(`serializable`).  Messages in one room, for example, only look at the room and so may be
handled at the same time; two requests for one nickname may not.
-/
import SocketChat.Lib.Serial
import SocketChat.Server.Independence
import SocketChat.Server.ThreadPool

namespace SocketChat

/-! ### What is touched and changed -/

/-- The cells a call looks at or changes in a state.  `addRoom` counts the rooms. -/
def Call.touched : Call → Server → Set Cell
  | .addRoom _ _, _ => {l | l = .codes ∨ ∃ code, l = .room code}
  | c, _ => c.footprint

/-- The cells a call may change in a state. -/
def Call.changed : Call → Server → Set Cell
  | .getClient _, _ => ∅
  | .isNicknameTaken _, _ => ∅
  | .getClientFds _, _ => ∅
  | .addRoom name max, s => {.codes, .room (s.roomManager.addRoom name max).1}
  | c, _ => c.footprint

/-- The cells an event of the I/O thread looks at or changes: a client's record, and when
it is removed the reservation of its name. -/
def IoEvent.touched : IoEvent → Server → Set Cell
  | .accept fd _ _, _ => {.client fd}
  | .close fd, s =>
    {l | l = .client fd ∨ ∃ info, s.client? fd = some info ∧ l = .nickname info.nickname}

section Changes

variable {α : Type} {F : Set Cell} {f : Server → α × Server} {s : Server}
  {entries : List (Fd × Packet)}

/-- An operation that may change all it acts on. -/
theorem changes_of_actsOn (h : Server.cells.ActsOn F f s entries) :
    Server.cells.Changes F F f s entries :=
  ⟨h, le_refl F, h.outside⟩

/-- An operation that changes no cell. -/
theorem changes_nothing (h : Server.cells.ActsOn F f s entries)
    (hread : ∀ t l, Server.cells.read (f t).2 l = Server.cells.read t l) :
    Server.cells.Changes F ∅ f s entries :=
  ⟨h, Set.empty_subset F, fun t _ l _ => hread t l⟩

end Changes

/-- `addRoom` depends on the rooms and the generator, and adds a room at most. -/
theorem changes_addRoom (name : Bytes) (max : Int32) (s : Server) :
    Server.cells.Changes ((Call.addRoom name max).touched s) ((Call.addRoom name max).changed s)
      (serve (.addRoom name max)) s [] := by
  have hsame : ∀ t, Server.cells.Agree ((Call.addRoom name max).touched s) t s →
      t.roomManager = s.roomManager := by
    intro t ht
    have hrooms : t.roomManager.rooms = s.roomManager.rooms :=
      Table.ext fun code => ht (.room code) (Or.inr ⟨code, rfl⟩)
    have hcodes : t.roomManager.codes = s.roomManager.codes := ht .codes (Or.inl rfl)
    calc t.roomManager = ⟨t.roomManager.rooms, t.roomManager.codes⟩ := rfl
      _ = s.roomManager := by rw [hrooms, hcodes]
  -- the clients have nothing to do with it
  have hclients : ∀ t l, l ∉ (Call.addRoom name max).touched s →
      Server.cells.read (serve (.addRoom name max) t).2 l = Server.cells.read t l := by
    intro t l hl
    cases l with
    | client fd => rfl
    | nickname nickname => rfl
    | room code => exact absurd (Or.inr ⟨code, rfl⟩) hl
    | codes => exact absurd (Or.inl rfl) hl
  refine ⟨⟨fun t ht => ?_, fun t ht l hl => ?_, fun t _ l hl => hclients t l hl,
    fun _ _ => (List.append_nil _).symm⟩, ?_, fun t ht l hl => ?_⟩
  · show (t.roomManager.addRoom name max).1 = (s.roomManager.addRoom name max).1
    rw [hsame t ht]
  · rcases hl with rfl | ⟨code, rfl⟩
    · show (t.roomManager.addRoom name max).2.codes = _
      rw [hsame t ht]
      rfl
    · show (t.roomManager.addRoom name max).2.rooms.find code = _
      rw [hsame t ht]
      rfl
  · rintro l (rfl | rfl)
    · exact Or.inl rfl
    · exact Or.inr ⟨_, rfl⟩
  · by_cases htouched : l ∈ (Call.addRoom name max).touched s
    · rcases htouched with rfl | ⟨code, rfl⟩
      · exact absurd (Or.inl rfl) hl
      · have hcode : code ≠ (t.roomManager.addRoom name max).1 := by
          rintro rfl
          exact hl (Or.inr (by rw [hsame t ht]; rfl))
        show (t.roomManager.addRoom name max).2.rooms.find code = t.roomManager.rooms.find code
        rcases t.roomManager.addRoom_cases name max with ⟨-, hrooms, -⟩ | ⟨k, -, hk, hrooms, -⟩
        · rw [hrooms]
        · rw [hrooms, Table.find_set, if_neg (hk ▸ hcode)]
    · exact hclients t l htouched

theorem serve_changes (c : Call) (s : Server) :
    ∃ entries, Server.cells.Changes (c.touched s) (c.changed s) (serve c) s entries := by
  obtain ⟨entries, h⟩ := serve_actsOn c s
  cases c with
  | getClient fd => exact ⟨entries, changes_nothing h fun _ _ => rfl⟩
  | isNicknameTaken name => exact ⟨entries, changes_nothing h fun _ _ => rfl⟩
  | getClientFds code => exact ⟨entries, changes_nothing h fun _ _ => rfl⟩
  | addRoom name max => exact ⟨[], changes_addRoom name max s⟩
  | _ => exact ⟨entries, changes_of_actsOn h⟩

/-! ### The I/O thread -/

variable {json : Nlohmann}

/-- An event of the I/O thread, with whether it is possible. -/
def IoEvent.run (json : Nlohmann) (e : IoEvent) (s : Server) : Bool × Server :=
  (((Server.system json).env s e).isSome, ((Server.system json).env s e).getD s)

theorem IoEvent.run_eq (e : IoEvent) (s : Server) : e.run json s =
    if e.toEvent.Possible s then (true, e.toEvent.perform json s) else (false, s) := by
  have henv : (Server.system json).env s e =
      if e.toEvent.Possible s then some (e.toEvent.perform json s) else none := rfl
  rw [IoEvent.run, henv]
  by_cases h : e.toEvent.Possible s
  · rw [if_pos h, if_pos h]
    rfl
  · rw [if_neg h, if_neg h]
    rfl

theorem actsOn_accept (fd : Fd) (ip : Bytes) (added : Bool) (s : Server) :
    Server.cells.ActsOn {.client fd} ((IoEvent.accept fd ip added).run json) s [] := by
  have hperform : ∀ t, ((IoEvent.accept fd ip added).run json t) =
      if t.client? fd = none then (true, ConnectionManager.acceptNewConnection t fd ip added)
      else (false, t) := by
    intro t
    rw [IoEvent.run_eq]
    by_cases hnone : t.client? fd = none
    · rw [if_pos hnone]
      exact if_pos hnone
    · rw [if_neg hnone]
      exact if_neg hnone
  refine actsOn_cell (fun t ht => ?_) (fun t ht => ?_) (fun t l hl => ?_) fun t => ?_
  · have hclient := (Prod.mk.inj ht).1
    rw [hperform, hperform, hclient]
    by_cases hnone : s.client? fd = none
    · rw [if_pos hnone, if_pos hnone]
    · rw [if_neg hnone, if_neg hnone]
  · obtain ⟨hclient, haccepts⟩ := Prod.mk.inj ht
    rw [hperform, hperform, hclient]
    by_cases hnone : s.client? fd = none
    · rw [if_pos hnone, if_pos hnone, ConnectionManager.acceptNewConnection,
        ConnectionManager.acceptNewConnection]
      by_cases hadd : 0 < fd ∧ added = true
      · rw [if_pos hadd, if_pos hadd, Server.read_client, Server.read_client]
        show ((t.clientManager.addClient fd ip).getClient fd, _) =
          ((s.clientManager.addClient fd ip).getClient fd, _)
        rw [ClientManager.getClient_addClient, ClientManager.getClient_addClient, if_pos rfl,
          if_pos rfl]
        simp only [if_true, haccepts]
      · rw [if_neg hadd, if_neg hadd]
        exact ht
    · rw [if_neg hnone, if_neg hnone]
      exact ht
  · rw [hperform]
    by_cases hnone : t.client? fd = none
    · rw [if_pos hnone, ConnectionManager.acceptNewConnection]
      by_cases hadd : 0 < fd ∧ added = true
      · rw [if_pos hadd]
        cases l with
        | client g =>
          have hg : g ≠ fd := fun heq => hl (congrArg Cell.client heq)
          show ((t.clientManager.addClient fd ip).getClient g, if g = fd then _ else _) = _
          rw [ClientManager.getClient_addClient, if_neg hg, if_neg hg]
          rfl
        | nickname nickname => rfl
        | room code => rfl
        | codes => rfl
      · rw [if_neg hadd]
    · rw [if_neg hnone]
  · rw [hperform]
    by_cases hnone : t.client? fd = none
    · rw [if_pos hnone, ConnectionManager.acceptNewConnection]
      by_cases hadd : 0 < fd ∧ added = true
      · rw [if_pos hadd]
      · rw [if_neg hadd]
    · rw [if_neg hnone]

/-- What `removeClient` does to the reservation of a name. -/
theorem isNicknameTaken_removeClient (m : ClientManager) (fd : Fd) (name : Bytes) :
    (m.removeClient fd).isNicknameTaken name =
      (m.isNicknameTaken name && !((m.getClient fd).any fun client =>
        client.isAuthenticated && decide (name = client.nickname))) := by
  cases h : m.getClient fd with
  | none =>
    rw [ClientManager.removeClient, h]
    simp
  | some client =>
    rw [ClientManager.isNicknameTaken, ClientManager.nicknames_removeClient h]
    cases hauth : client.isAuthenticated with
    | false => simp [ClientManager.isNicknameTaken, hauth]
    | true =>
      simp only [if_true, Finset.mem_erase, Option.any_some, hauth, Bool.true_and,
        ClientManager.isNicknameTaken]
      by_cases hname : name = client.nickname
      · simp [hname]
      · simp [hname]

theorem actsOn_close (fd : Fd) (s : Server) :
    Server.cells.ActsOn ((IoEvent.close fd).touched s) ((IoEvent.close fd).run json) s [] := by
  have hperform : ∀ t, ((IoEvent.close fd).run json t) =
      if (t.client? fd).isSome = true then (true, ConnectionManager.closeConnection t fd)
      else (false, t) := by
    intro t
    rw [IoEvent.run_eq]
    rfl
  have hclient : ∀ t, Server.cells.Agree ((IoEvent.close fd).touched s) t s →
      t.client? fd = s.client? fd := fun t ht =>
    (Prod.mk.inj (ht (.client fd) (Or.inl rfl))).1
  -- a state in which the client is not connected is left as it is
  have hread : ∀ t l, Server.cells.read ((IoEvent.close fd).run json t).2 l =
      Server.cells.read (ConnectionManager.closeConnection t fd) l := by
    intro t l
    rw [hperform]
    by_cases hsome : (t.client? fd).isSome = true
    · rw [if_pos hsome]
    · rw [if_neg hsome]
      have hnone : t.clientManager.getClient fd = none := Option.not_isSome_iff_eq_none.mp hsome
      rw [ConnectionManager.closeConnection, ClientManager.removeClient, hnone]
  have hafter : ∀ t g, (ConnectionManager.closeConnection t fd).client? g =
      if g = fd then none else t.client? g :=
    fun t g => t.clientManager.getClient_removeClient fd g
  have htaken : ∀ t name, (ConnectionManager.closeConnection t fd).clientManager.isNicknameTaken
      name = (t.clientManager.isNicknameTaken name && !((t.client? fd).any fun client =>
        client.isAuthenticated && decide (name = client.nickname))) :=
    fun t name => isNicknameTaken_removeClient t.clientManager fd name
  refine ⟨fun t ht => ?_, fun t ht l hl => ?_, fun t ht l hl => ?_, fun t ht => ?_⟩
  · rw [hperform, hperform, hclient t ht]
    by_cases hsome : (s.client? fd).isSome = true
    · rw [if_pos hsome, if_pos hsome]
    · rw [if_neg hsome, if_neg hsome]
  · rw [hread, hread]
    have hcell := ht l hl
    rcases hl with rfl | ⟨info, -, rfl⟩
    · obtain ⟨-, haccepts⟩ := Prod.mk.inj hcell
      rw [Server.read_client, Server.read_client, hafter, hafter, if_pos rfl, if_pos rfl]
      exact congrArg (Prod.mk none) haccepts
    · have hcell : t.clientManager.isNicknameTaken info.nickname = _ := hcell
      rw [Server.read_nickname, Server.read_nickname, htaken, htaken, hclient t ht, hcell]
      rfl
  · rw [hread]
    have hnotin : ¬ (l = .client fd ∨ ∃ info, s.client? fd = some info ∧
      l = .nickname info.nickname) := hl
    cases l with
    | client g =>
      have hg : g ≠ fd := fun heq => hnotin (Or.inl (congrArg Cell.client heq))
      rw [Server.read_client, hafter, if_neg hg]
      rfl
    | nickname name =>
      rw [Server.read_nickname, htaken, hclient t ht]
      have hnot : ((s.client? fd).any fun client =>
          client.isAuthenticated && decide (name = client.nickname)) = false := by
        cases hinfo : s.client? fd with
        | none => rfl
        | some info =>
          have hname : name ≠ info.nickname := by
            rintro rfl
            exact hnotin (Or.inr ⟨info, hinfo, rfl⟩)
          simp [hname]
      rw [hnot, Bool.not_false, Bool.and_true]
      rfl
    | room code => rfl
    | codes => rfl
  · rw [hperform]
    by_cases hsome : (t.client? fd).isSome = true
    · rw [if_pos hsome]
      exact (List.append_nil _).symm
    · rw [if_neg hsome]
      exact (List.append_nil _).symm

/-- What the calls of handlers and the events of the I/O thread touch and change. -/
def Server.footprints (json : Nlohmann) : Pool.Footprints Server.cells (Server.system json) where
  touched := Call.touched
  changed := Call.changed
  envTouched := IoEvent.touched
  envChanged := IoEvent.touched
  serve := serve_changes
  env e s := by
    cases e with
    | accept fd ip added => exact changes_of_actsOn (actsOn_accept fd ip added s)
    | close fd => exact changes_of_actsOn (actsOn_close fd s)

namespace ThreadPool

variable {N : ℕ} {codes : CodeStream} {t : ThreadPool N} {events : List (Event N)}

/-- No handler, and no event of the I/O thread, touches what a handler that is still
running has changed, or changes what it has touched. -/
abbrev Undisturbed (json : Nlohmann) (codes : CodeStream) (events : List (Event N)) : Prop :=
  Pool.Undisturbed (Server.footprints json) (init N codes) (Pool.Access.none Cell N) events

/-- One handler after the other, each when it comes to its end, with the events of the I/O
thread in between. -/
abbrev serialRun (json : Nlohmann) (codes : CodeStream) (events : List (Event N)) :
    List (Pool.SerialEvent Task IoEvent) :=
  Pool.commits (Server.system json) (init N codes) events

/-- **Handlers that keep out of each other's way are serializable.**  Whatever the number of
workers and the order of their calls: if nobody gets in the way of a handler that is still
running, then as soon as no handler is running the clients, the nicknames, the rooms and the
generator are as if the handlers had run one at a time, in the order in which they came to
their ends, and the same packets have been sent to the same clients. -/
theorem serializable (hrun : Transition.runFrom (step json) (init N codes) events = some t)
    (hundisturbed : Undisturbed json codes events) (hidle : ∀ w, t.worker w = none) :
    ∃ s, Transition.runFrom (Pool.serialStep (Server.system json)) (Server.init codes)
        (serialRun json codes events) = some s ∧
      t.shared.clientManager = s.clientManager ∧ t.shared.roomManager = s.roomManager ∧
      t.shared.accepts = s.accepts ∧ t.shared.sent.Perm s.sent := by
  obtain ⟨s, hserial, hread, hlog⟩ := Pool.serial_of_undisturbed (P := Server.footprints json) hrun
    hundisturbed hidle
  obtain ⟨hclients, hrooms⟩ := Server.managers_eq_of_read hread
  refine ⟨s, hserial, hclients, hrooms, ?_, hlog⟩
  funext fd
  exact (Prod.mk.inj (hread (.client fd))).2

/-! ### Two handlers at the same time -/

/-- An EXIT_ROOM received on the first connection with descriptor 6. -/
def exitTaskOfSix : Task := ⟨⟨6, 1⟩, Packet.ofText PacketType.exitRoom [], noon⟩

/-- Client 5 asks for a nickname while client 6 asks to leave the room it is not in. -/
def atOnce : List (Event 3) :=
  [.env (.accept 5 (str "10.0.0.1") true), .env (.accept 6 (str "10.0.0.2") true),
    .push (annTask 5), .push exitTaskOfSix, .pop 0, .pop 1, .act 0, .act 1, .act 0, .act 1,
    .finish 1, .act 0, .finish 0]

/-- The task that has a cell for its own: the first the client 5 and its nickname, the second
the client 6. -/
def ownerAtOnce : Cell → Option ℕ
  | .client fd => if fd = 5 then some 0 else if fd = 6 then some 1 else none
  | .nickname nickname => if nickname = str "ann" then some 0 else none
  | _ => none

/-- The calls for a task's own cells. -/
def callAtOnce (i : ℕ) : Call → Bool
  | .getClient fd => ownerAtOnce (.client fd) = some i
  | .isNicknameTaken nickname => ownerAtOnce (.nickname nickname) = some i
  | .setNickname fd nickname =>
    ownerAtOnce (.client fd) = some i && ownerAtOnce (.nickname nickname) = some i
  | .send _ _ => true
  | _ => false

theorem touched_callAtOnce {i : ℕ} {c : Call} (h : callAtOnce i c = true) (s : Server) :
    c.touched s ⊆ {l | ownerAtOnce l = some i} := by
  intro l hl
  cases c with
  | getClient fd =>
    obtain rfl : l = .client fd := hl
    exact of_decide_eq_true h
  | isNicknameTaken nickname =>
    obtain rfl : l = .nickname nickname := hl
    exact of_decide_eq_true h
  | setNickname fd nickname =>
    obtain ⟨hclient, hname⟩ := Bool.and_eq_true_iff.mp h
    rcases hl with rfl | hl
    · exact of_decide_eq_true hclient
    · obtain rfl : l = .nickname nickname := hl
      exact of_decide_eq_true hname
  | send fd packet => exact absurd hl (Set.notMem_empty l)
  | _ => cases h

/-- No worker is in a handler. -/
def idle (t : ThreadPool N) : Bool := (List.finRange N).all fun w => (t.worker w).isNone

theorem worker_of_idle (h : t.idle = true) (w : Fin N) : t.worker w = none :=
  Option.isNone_iff_eq_none.mp (List.all_eq_true.mp h w (List.mem_finRange w))

/-- No worker is in a handler at an event of the I/O thread, and each calls for cells of its
task. -/
def separateAtOnce (t : ThreadPool 3) : Event 3 → Bool
  | .env _ => t.idle
  | .act w => (t.pending w).all fun p => callAtOnce p.1 p.2
  | _ => true

theorem undisturbed_atOnce : Undisturbed Nlohmann.integral CodeStream.inOrder atOnce := by
  have hrun : (Transition.runFrom (step Nlohmann.integral) (init 3 CodeStream.inOrder)
      atOnce).isSome = true := by
    decide +kernel
  have hcheck : Transition.checkSteps (step Nlohmann.integral) separateAtOnce
      (init 3 CodeStream.inOrder) atOnce = true := by
    decide +kernel
  obtain ⟨t, hrun⟩ := Option.isSome_iff_exists.mp hrun
  refine Pool.undisturbed_of_separate (F := fun i => {l | ownerAtOnce l = some i}) hrun
    ⟨fun w l hl => absurd hl (Set.notMem_empty l), fun _ => le_refl _⟩ ?_ ?_ ?_
  · intro t e htakes v w i j hne hi hj
    -- no task is run twice
    have hsingle : t.Single ∧ ∃ k, t.InOrder k := by
      obtain ⟨pre, -, hpre⟩ := htakes
      refine Transition.runFrom_always (J := fun t : ThreadPool 3 => t.Single ∧ ∃ k, t.InOrder k)
        (fun t e t' ht hstep => ?_) hpre ⟨fun v w i hv => ?_, 0, Pool.inOrder_init _⟩
      · obtain ⟨hsingle, k, hk⟩ := ht
        exact ⟨hsingle.step hk hstep, hk.step hstep⟩
      · obtain ⟨p, hp⟩ := hv
        cases hp
    have hij : i ≠ j := fun heq => hne (hsingle.1 v w i hi (heq ▸ hj))
    rw [Set.disjoint_left]
    intro l hl hl'
    exact hij (Option.some.inj (hl.symm.trans hl'))
  · intro t w i c htakes hpending
    have hall := htakes.of_checkSteps hcheck
    rw [separateAtOnce, hpending] at hall
    exact touched_callAtOnce hall t.shared
  · intro t e htakes w i hi
    have hidle := htakes.of_checkSteps hcheck
    rw [separateAtOnce] at hidle
    obtain ⟨p, hp⟩ := hi
    rw [worker_of_idle hidle w] at hp
    cases hp

theorem serializable_atOnce : ∃ (t : ThreadPool 3) (s : Server),
    Transition.runFrom (step Nlohmann.integral) (init 3 CodeStream.inOrder) atOnce = some t ∧
    Transition.runFrom (Pool.serialStep (Server.system Nlohmann.integral))
      (Server.init CodeStream.inOrder)
      (serialRun Nlohmann.integral CodeStream.inOrder atOnce) = some s ∧
    t.shared.clientManager = s.clientManager ∧ t.shared.sent.Perm s.sent := by
  have hrun : (Transition.runFrom (step Nlohmann.integral) (init 3 CodeStream.inOrder)
      atOnce).any idle = true := by
    decide +kernel
  obtain ⟨t, hrun, hidle⟩ := (Option.any_eq_true _ _).mp hrun
  obtain ⟨s, hserial, hclients, -, -, hsent⟩ :=
    serializable hrun undisturbed_atOnce (worker_of_idle hidle)
  exact ⟨t, s, hrun, hserial, hclients, hsent⟩

end ThreadPool

end SocketChat
