/-
The I/O thread, byte by byte.

`Server::eventLoop` waits for events and handles each to its end: on the listener's
descriptor it accepts a connection, on a client's it receives a chunk into the client's
`recvBuffer`, parses complete frames off it and enqueues a task for each, or closes the
connection.  Between any two of these steps the workers go on.  An `IoThread` is a state of
this system together with what the kernel keeps for the process, the open descriptors and
the interest set of the epoll instance; `arrived` records what was received on each
connection and is read by no step.

The descriptors the kernel keeps are those of the clients (`descriptors`), the tasks of a
connection are the frames it has sent (`tasksOf_eq`), and every run does to the tables and
the queue what some run of `ThreadPool` does, in which packets just arrive
(`refines_threadPool`).
-/
import SocketChat.Server.PacketReceiver
import SocketChat.Server.RecvBuffers

namespace SocketChat

open PacketReceiver

namespace IoThread

/-- What the I/O thread is at. -/
inductive Control where
  /-- It has these events of the last `epoll_wait` to handle; when there are none it calls
  `epoll_wait`. -/
  | handling (events : List Fd)
  /-- It is in the loop of `parsePackets`, and has these events to handle after it. -/
  | parsing (client_fd : Fd) (events : List Fd)

end IoThread

structure IoThread (N : ℕ) where
  pool : ThreadPool N
  /-- The descriptors the process has open. -/
  opened : Finset Fd
  /-- The descriptors added to the epoll instance. -/
  interest : Finset Fd
  control : IoThread.Control
  arrived : Connection → Bytes

namespace IoThread

inductive Event (N : ℕ) where
  /-- `epoll_wait` returns. -/
  | wait (ready : List Fd)
  /-- An event of the listener is handled: what `accept` returns, if it does not fail, and
  whether `epoll_ctl` takes the descriptor. -/
  | accept (accepted : Option (Fd × Bytes)) (added : Bool)
  /-- An event of a client is handled: what `recv` returns, if more than nothing. -/
  | recv (received : Option Chunk)
  /-- The loop of `parsePackets` is entered once more or left. -/
  | parse (now : LocalTime)
  /-- A step of a worker. -/
  | worker (e : ThreadPool.Event N)

variable {N : ℕ}

/-- The server has been started: the listener is open besides the descriptors in `base`. -/
def init (N : ℕ) (codes : CodeStream) (listener : Fd) (base : Finset Fd) : IoThread N where
  pool := ThreadPool.init N codes
  opened := insert listener base
  interest := {listener}
  control := .handling []
  arrived _ := []

/-- The record of client `fd`, if it is connected. -/
def client? (s : IoThread N) (fd : Fd) : Option ClientInfo := s.pool.shared.client? fd

/-- `ConnectionManager::acceptNewConnection`.  A descriptor that epoll does not take is
closed again; one that is not `isValid` is not. -/
def acceptNewConnection (s : IoThread N) (accepted : Option (Fd × Bytes)) (added : Bool)
    (events : List Fd) : IoThread N :=
  match accepted with
  | none => { s with control := .handling events }
  | some (fd, ip) =>
    { s with
      pool := { s.pool with
        shared := ConnectionManager.acceptNewConnection s.pool.shared fd ip added }
      opened := if 0 < fd ∧ added = false then s.opened else insert fd s.opened
      interest := if 0 < fd ∧ added = true then insert fd s.interest else s.interest
      control := .handling events }

/-- `ConnectionManager::closeConnection`, with `EPOLL_CTL_DEL` and `close`. -/
def closeConnection (s : IoThread N) (client_fd : Fd) (events : List Fd) : IoThread N :=
  { s with
    pool := { s.pool with shared := ConnectionManager.closeConnection s.pool.shared client_fd }
    opened := s.opened.erase client_fd
    interest := s.interest.erase client_fd
    control := .handling events }

/-- `recv` has returned `chunk`, which is now at the end of the buffer. -/
def receive (s : IoThread N) (client_fd : Fd) (clientManager : ClientManager) (bytes : Bytes)
    (events : List Fd) : IoThread N :=
  { s with
    pool := { s.pool with shared := { s.pool.shared with clientManager := clientManager } }
    control := .parsing client_fd events
    arrived := fun k => if k = s.pool.shared.connection client_fd then s.arrived k ++ bytes
      else s.arrived k }

/-- The callback enqueues a packet, and `erase` takes it off the buffer. -/
def enqueue (s : IoThread N) (client_fd : Fd) (client : ClientInfo) (packet : Packet)
    (rest : Bytes) (now : LocalTime) : IoThread N :=
  { s with
    pool := { s.pool with
      shared := { s.pool.shared with
        clientManager := s.pool.shared.clientManager.setClient client_fd
          { client with recvBuffer := rest } }
      received := s.pool.received ++ [⟨s.pool.shared.connection client_fd, packet, now⟩]
      queue := s.pool.queue ++ [s.pool.received.length] } }

/-- One pass of the loop of `parsePackets`.  A `memcpy` that copies more than a `Packet`
holds has no defined effect. -/
def parsePass (o : ByteOrder) (s : IoThread N) (client_fd : Fd) (events : List Fd)
    (now : LocalTime) : Option (IoThread N) :=
  match s.client? client_fd with
  | none => some { s with control := .handling events }
  | some client =>
    match parseNext o client.recvBuffer with
    | none => some { s with control := .handling events }
    | some (p, rest) =>
      if sizeofPacket < p.copied then none
      else some (s.enqueue client_fd client p.packet rest now)

instance : (e : ThreadPool.Event N) → Decidable e.OfWorker
  | .env _ => inferInstanceAs (Decidable False)
  | .push _ => inferInstanceAs (Decidable False)
  | .pop _ => inferInstanceAs (Decidable True)
  | .act _ => inferInstanceAs (Decidable True)
  | .finish _ => inferInstanceAs (Decidable True)

/-- `MAX_EVENTS`. -/
def maxEvents : ℕ := 64

/-- `accept` returns a descriptor that was not open. -/
def Fresh (s : IoThread N) (accepted : Option (Fd × Bytes)) : Prop :=
  ∀ found ∈ accepted, 0 ≤ found.1 ∧ found.1 ∉ s.opened

instance (s : IoThread N) (accepted : Option (Fd × Bytes)) : Decidable (s.Fresh accepted) := by
  cases accepted with
  | none => exact isTrue fun _ h => by cases h
  | some found =>
    exact decidable_of_iff (0 ≤ found.1 ∧ found.1 ∉ s.opened) (by simp [Fresh])

/-- `listener` is the listener's descriptor. -/
def step (json : Nlohmann) (o : ByteOrder) (listener : Fd) (s : IoThread N) :
    Event N → Option (IoThread N)
  | .wait ready =>
    match s.control with
    | .handling [] =>
      -- one event for each descriptor that is ready
      if ready.length ≤ maxEvents ∧ ready.Nodup ∧ ready.toFinset ⊆ s.interest then
        some { s with control := .handling ready }
      else none
    | _ => none
  | .accept accepted added =>
    match s.control with
    | .handling (fd :: events) =>
      if fd = listener ∧ s.Fresh accepted then some (s.acceptNewConnection accepted added events)
      else none
    | _ => none
  | .recv received =>
    match s.control with
    | .handling (fd :: events) =>
      if fd = listener then none
      else
        let result := PacketReceiver.receive s.pool.shared.clientManager fd received
        if result.1 = true then
          some (s.receive fd result.2 (received.elim [] Chunk.bytes) events)
        else some (s.closeConnection fd events)
    | _ => none
  | .parse now =>
    match s.control with
    | .parsing fd events => s.parsePass o fd events now
    | _ => none
  | .worker e =>
    if e.OfWorker then (ThreadPool.step json s.pool e).map fun pool => { s with pool := pool }
    else none

/-! ### What a step can do -/

inductive Step (json : Nlohmann) (o : ByteOrder) (listener : Fd) (s : IoThread N) :
    Event N → IoThread N → Prop
  | wait {ready : List Fd} (hcontrol : s.control = .handling []) (hnodup : ready.Nodup)
      (hready : ∀ fd ∈ ready, fd ∈ s.interest) :
      Step json o listener s (.wait ready) { s with control := .handling ready }
  | accept {events : List Fd} {accepted : Option (Fd × Bytes)} {added : Bool}
      (hcontrol : s.control = .handling (listener :: events)) (hfresh : s.Fresh accepted) :
      Step json o listener s (.accept accepted added)
        (s.acceptNewConnection accepted added events)
  | recv {fd : Fd} {events : List Fd} {client : ClientInfo} {chunk : Chunk}
      (hcontrol : s.control = .handling (fd :: events)) (hfd : fd ≠ listener)
      (hclient : s.client? fd = some client) :
      Step json o listener s (.recv (some chunk))
        (s.receive fd (s.pool.shared.clientManager.setClient fd
          { client with recvBuffer := client.recvBuffer ++ chunk.bytes }) chunk.bytes events)
  | close {fd : Fd} {events : List Fd} {received : Option Chunk}
      (hcontrol : s.control = .handling (fd :: events)) (hfd : fd ≠ listener)
      (hfails : received = none ∨ s.client? fd = none) :
      Step json o listener s (.recv received) (s.closeConnection fd events)
  | leave {fd : Fd} {events : List Fd} {now : LocalTime}
      (hcontrol : s.control = .parsing fd events)
      (hdone : ∀ client, s.client? fd = some client → parseNext o client.recvBuffer = none) :
      Step json o listener s (.parse now) { s with control := .handling events }
  | parse {fd : Fd} {events : List Fd} {now : LocalTime} {client : ClientInfo} {f : Frame}
      {rest : Bytes} (hcontrol : s.control = .parsing fd events)
      (hclient : s.client? fd = some client) (hbuffer : client.recvBuffer = f.bytes ++ rest)
      (hfits : f.payload.length ≤ maxPayloadSize) :
      Step json o listener s (.parse now) (s.enqueue fd client (parsed f).packet rest now)
  | worker {e : ThreadPool.Event N} {pool : ThreadPool N} (he : e.OfWorker)
      (hstep : ThreadPool.step json s.pool e = some pool) :
      Step json o listener s (.worker e) { s with pool := pool }

variable {json : Nlohmann} {o : ByteOrder} {listener : Fd} {s s' : IoThread N}

theorem step_parse_cases {fd : Fd} {events : List Fd} {now : LocalTime}
    (hcontrol : s.control = .parsing fd events) (h : s.parsePass o fd events now = some s') :
    Step json o listener s (.parse now) s' := by
  rw [parsePass] at h
  cases hclient : s.client? fd with
  | none =>
    rw [hclient] at h
    obtain rfl := Option.some.inj h
    refine Step.leave hcontrol fun client hsome => ?_
    rw [hclient] at hsome
    cases hsome
  | some client =>
    rw [hclient] at h
    simp only at h
    cases hnext : parseNext o client.recvBuffer with
    | none =>
      rw [hnext] at h
      obtain rfl := Option.some.inj h
      refine Step.leave hcontrol fun client' hsome => ?_
      rw [hclient, Option.some_inj] at hsome
      exact hsome ▸ hnext
    | some taken =>
      obtain ⟨p, rest⟩ := taken
      rw [hnext] at h
      simp only at h
      obtain ⟨f, rfl, hbuffer⟩ := (parseNext_eq_some o).mp hnext
      by_cases hcopied : sizeofPacket < (parsed f).copied
      · rw [if_pos hcopied] at h
        cases h
      · rw [if_neg hcopied] at h
        obtain rfl := Option.some.inj h
        refine Step.parse hcontrol hclient hbuffer ?_
        have hle : sizeofPacketHeader + f.payload.length ≤ sizeofPacketHeader + maxPayloadSize :=
          Nat.le_of_not_lt hcopied
        omega

theorem step_recv_cases {fd : Fd} {events : List Fd} {received : Option Chunk}
    (hcontrol : s.control = .handling (fd :: events)) (hfd : fd ≠ listener)
    (h : (if (PacketReceiver.receive s.pool.shared.clientManager fd received).1 = true then
        some (s.receive fd (PacketReceiver.receive s.pool.shared.clientManager fd received).2
          (received.elim [] Chunk.bytes) events)
      else some (s.closeConnection fd events)) = some s') :
    Step json o listener s (.recv received) s' := by
  cases hclient : s.client? fd with
  | none =>
    have hreceive : PacketReceiver.receive s.pool.shared.clientManager fd received =
        (false, s.pool.shared.clientManager) := by
      simp only [PacketReceiver.receive, show s.pool.shared.clientManager.getClient fd = none
        from hclient]
    rw [hreceive] at h
    obtain rfl := Option.some.inj h
    exact Step.close hcontrol hfd (Or.inr hclient)
  | some client =>
    cases received with
    | none =>
      have hreceive : PacketReceiver.receive s.pool.shared.clientManager fd none =
          (false, s.pool.shared.clientManager) := by
        simp only [PacketReceiver.receive, show s.pool.shared.clientManager.getClient fd =
          some client from hclient]
      rw [hreceive] at h
      obtain rfl := Option.some.inj h
      exact Step.close hcontrol hfd (Or.inl rfl)
    | some chunk =>
      have hreceive : PacketReceiver.receive s.pool.shared.clientManager fd (some chunk) =
          (true, s.pool.shared.clientManager.setClient fd
            { client with recvBuffer := client.recvBuffer ++ chunk.bytes }) := by
        simp only [PacketReceiver.receive, show s.pool.shared.clientManager.getClient fd =
          some client from hclient]
      rw [hreceive] at h
      obtain rfl := Option.some.inj h
      exact Step.recv hcontrol hfd hclient

/-- **What a step can do.** -/
theorem step_cases {e : Event N} (h : step json o listener s e = some s') :
    Step json o listener s e s' := by
  cases e with
  | wait ready =>
    rw [step] at h
    cases hcontrol : s.control with
    | parsing fd events =>
      rw [hcontrol] at h
      cases h
    | handling events =>
      rw [hcontrol] at h
      cases events with
      | cons fd events => cases h
      | nil =>
        by_cases hready : ready.length ≤ maxEvents ∧ ready.Nodup ∧ ready.toFinset ⊆ s.interest
        · simp only [if_pos hready] at h
          obtain rfl := Option.some.inj h
          obtain ⟨-, hnodup, hsubset⟩ := hready
          exact Step.wait hcontrol hnodup fun fd hfd => hsubset (List.mem_toFinset.mpr hfd)
        · simp only [if_neg hready] at h
          cases h
  | accept accepted added =>
    rw [step] at h
    cases hcontrol : s.control with
    | parsing fd events =>
      rw [hcontrol] at h
      cases h
    | handling events =>
      rw [hcontrol] at h
      cases events with
      | nil => cases h
      | cons fd events =>
        by_cases hfd : fd = listener ∧ s.Fresh accepted
        · simp only [if_pos hfd] at h
          obtain rfl := Option.some.inj h
          obtain ⟨rfl, hfresh⟩ := hfd
          exact Step.accept hcontrol hfresh
        · simp only [if_neg hfd] at h
          cases h
  | recv received =>
    rw [step] at h
    cases hcontrol : s.control with
    | parsing fd events =>
      rw [hcontrol] at h
      cases h
    | handling events =>
      rw [hcontrol] at h
      cases events with
      | nil => cases h
      | cons fd events =>
        by_cases hfd : fd = listener
        · simp only [if_pos hfd] at h
          cases h
        · simp only [if_neg hfd] at h
          exact step_recv_cases hcontrol hfd h
  | parse now =>
    rw [step] at h
    cases hcontrol : s.control with
    | handling events =>
      rw [hcontrol] at h
      cases h
    | parsing fd events =>
      rw [hcontrol] at h
      exact step_parse_cases hcontrol h
  | worker e =>
    rw [step] at h
    by_cases he : e.OfWorker
    · rw [if_pos he] at h
      obtain ⟨pool, hpool, rfl⟩ := Option.map_eq_some_iff.mp h
      exact Step.worker he hpool
    · rw [if_neg he] at h
      cases h

/-! ### Descriptors -/

theorem client?_worker {e : ThreadPool.Event N} {pool : ThreadPool N} (he : e.OfWorker)
    (hstep : ThreadPool.step json s.pool e = some pool) (fd : Fd) :
    (pool.shared.client? fd).isSome = (s.client? fd).isSome ∧
      pool.shared.connection fd = s.pool.shared.connection fd ∧
      (pool.shared.client? fd).map ClientInfo.recvBuffer =
        (s.client? fd).map ClientInfo.recvBuffer ∧
      pool.received = s.pool.received := by
  cases Pool.step_cases hstep with
  | env => exact he.elim
  | push => exact he.elim
  | pop => exact ⟨rfl, rfl, rfl, rfl⟩
  | finish => exact ⟨rfl, rfl, rfl, rfl⟩
  | @act w i c k hrun =>
    exact ⟨isSome_client?_serve c s.pool.shared fd, connection_serve c s.pool.shared fd,
      recvBuffer_serve c s.pool.shared fd, rfl⟩

/-- What the kernel keeps for the process fits the client table, and the events that are
still to be handled fit both. -/
structure Descriptors (listener : Fd) (base : Finset Fd) (s : IoThread N) : Prop where
  interest : ∀ fd, fd ∈ s.interest ↔ fd = listener ∨ (s.client? fd).isSome = true
  opened : ∀ fd, fd = listener ∨ fd ∈ base ∨ (s.client? fd).isSome = true → fd ∈ s.opened
  only : ∀ fd ∈ s.opened, fd = listener ∨ fd ∈ base ∨ (s.client? fd).isSome = true ∨ fd = 0
  client : ∀ fd, (s.client? fd).isSome = true → 0 < fd ∧ fd ≠ listener ∧ fd ∉ base
  handling : ∀ events, s.control = .handling events → events.Nodup ∧ ∀ fd ∈ events, fd ∈ s.interest
  parsing : ∀ fd events, s.control = .parsing fd events →
    (s.client? fd).isSome = true ∧ (fd :: events).Nodup ∧ ∀ g ∈ events, g ∈ s.interest

theorem descriptors_init (codes : CodeStream) (listener : Fd) (base : Finset Fd) :
    (init N codes listener base).Descriptors listener base := by
  have hnone : ∀ fd, ((init N codes listener base).client? fd).isSome = false := by
    intro fd
    show ((Server.init codes).client? fd).isSome = false
    rw [Server.client?_init]
    rfl
  refine ⟨?_, ?_, ?_, ?_, ?_, ?_⟩
  · intro fd
    rw [hnone]
    simp [init]
  · intro fd hfd
    rw [hnone] at hfd
    simpa [init] using hfd
  · intro fd hfd
    have hfd : fd = listener ∨ fd ∈ base := by simpa [init] using hfd
    rcases hfd with hfd | hfd
    · exact Or.inl hfd
    · exact Or.inr (Or.inl hfd)
  · intro fd hfd
    rw [hnone] at hfd
    cases hfd
  · intro events hevents
    cases hevents
    exact ⟨List.nodup_nil, by simp⟩
  · intro fd events hevents
    cases hevents

namespace Descriptors

variable {base : Finset Fd}

/-- Where nobody connects or disconnects only what the thread is at can change. -/
theorem of_same (h : s.Descriptors listener base)
    (hclients : ∀ fd, (s'.client? fd).isSome = (s.client? fd).isSome)
    (hopened : s'.opened = s.opened) (hinterest : s'.interest = s.interest)
    (hhandling : ∀ events, s'.control = .handling events →
      events.Nodup ∧ ∀ fd ∈ events, fd ∈ s.interest)
    (hparsing : ∀ fd events, s'.control = .parsing fd events →
      (s.client? fd).isSome = true ∧ (fd :: events).Nodup ∧ ∀ g ∈ events, g ∈ s.interest) :
    s'.Descriptors listener base where
  interest fd := by
    rw [hinterest, hclients]
    exact h.interest fd
  opened fd hfd := by
    rw [hclients] at hfd
    rw [hopened]
    exact h.opened fd hfd
  only fd hfd := by
    rw [hopened] at hfd
    rw [hclients]
    exact h.only fd hfd
  client fd hfd := by
    rw [hclients] at hfd
    exact h.client fd hfd
  handling events hevents := by
    rw [hinterest]
    exact hhandling events hevents
  parsing fd events hevents := by
    rw [hinterest, hclients]
    exact hparsing fd events hevents

/-- The rest of the events. -/
theorem rest (h : s.Descriptors listener base) {fd : Fd} {events : List Fd}
    (hcontrol : s.control = .handling (fd :: events)) :
    events.Nodup ∧ fd ∉ events ∧ ∀ g ∈ events, g ∈ s.interest := by
  obtain ⟨hnodup, hinterest⟩ := h.handling _ hcontrol
  obtain ⟨hfd, hnodup⟩ := List.nodup_cons.mp hnodup
  exact ⟨hnodup, hfd, fun g hg => hinterest g (List.mem_cons_of_mem fd hg)⟩

/-- **No stale event.**  An event that is not of the listener is of a connected client. -/
theorem connected (h : s.Descriptors listener base) {fd : Fd} {events : List Fd}
    (hcontrol : s.control = .handling (fd :: events)) (hfd : fd ≠ listener) :
    (s.client? fd).isSome = true := by
  obtain ⟨-, hinterest⟩ := h.handling _ hcontrol
  exact ((h.interest fd).mp (hinterest fd List.mem_cons_self)).resolve_left hfd

/-- What is to be handled next are events of the listener and of clients. -/
theorem of_handling {control : Control} {events : List Fd} (hcontrol : control = .handling events)
    (hnodup : events.Nodup) (hevents : ∀ fd ∈ events, fd ∈ s.interest) :
    (∀ events, control = .handling events → events.Nodup ∧ ∀ fd ∈ events, fd ∈ s.interest) ∧
    ∀ fd events, control = .parsing fd events →
      (s.client? fd).isSome = true ∧ (fd :: events).Nodup ∧ ∀ g ∈ events, g ∈ s.interest := by
  subst hcontrol
  constructor
  · intro events' hevents'
    cases hevents'
    exact ⟨hnodup, hevents⟩
  · intro fd events' hevents'
    cases hevents'

/-- A client is connected: its descriptor is new everywhere. -/
theorem accept (h : s.Descriptors listener base) {fd : Fd} {ip : Bytes} {events : List Fd}
    (hcontrol : s.control = .handling (listener :: events)) (hfd : 0 < fd) (hnew : fd ∉ s.opened) :
    (s.acceptNewConnection (some (fd, ip)) true events).Descriptors listener base := by
  have hlistener : fd ≠ listener := fun heq => hnew (h.opened fd (Or.inl heq))
  have hbase : fd ∉ base := fun hmem => hnew (h.opened fd (Or.inr (Or.inl hmem)))
  have hclients : ∀ g, ((s.acceptNewConnection (some (fd, ip)) true events).client? g).isSome =
      (decide (g = fd) || (s.client? g).isSome) := by
    intro g
    show ((ConnectionManager.acceptNewConnection s.pool.shared fd ip true).client? g).isSome = _
    rw [ConnectionManager.acceptNewConnection, if_pos ⟨hfd, rfl⟩]
    show ((s.pool.shared.clientManager.addClient fd ip).getClient g).isSome = _
    rw [ClientManager.getClient_addClient]
    by_cases hg : g = fd
    · simp [hg]
    · simp only [if_neg hg, decide_eq_false hg, Bool.false_or]
      rfl
  have hopened : (s.acceptNewConnection (some (fd, ip)) true events).opened =
      insert fd s.opened := by
    simp [acceptNewConnection]
  have hinterest : (s.acceptNewConnection (some (fd, ip)) true events).interest =
      insert fd s.interest := by
    simp [acceptNewConnection, hfd]
  have hcontrol' : (s.acceptNewConnection (some (fd, ip)) true events).control =
      .handling events := rfl
  obtain ⟨hnodup, -, hrest⟩ := h.rest hcontrol
  refine ⟨?_, ?_, ?_, ?_, ?_, ?_⟩
  · intro g
    rw [hinterest, hclients, Finset.mem_insert, h.interest, Bool.or_eq_true, decide_eq_true_iff]
    tauto
  · intro g hg
    rw [hclients, Bool.or_eq_true, decide_eq_true_iff] at hg
    rw [hopened, Finset.mem_insert]
    rcases hg with hg | hg | hg | hg
    · exact Or.inr (h.opened g (Or.inl hg))
    · exact Or.inr (h.opened g (Or.inr (Or.inl hg)))
    · exact Or.inl hg
    · exact Or.inr (h.opened g (Or.inr (Or.inr hg)))
  · intro g hg
    rw [hopened, Finset.mem_insert] at hg
    rw [hclients, Bool.or_eq_true, decide_eq_true_iff]
    rcases hg with hg | hg
    · exact Or.inr (Or.inr (Or.inl (Or.inl hg)))
    · have := h.only g hg
      tauto
  · intro g hg
    rw [hclients, Bool.or_eq_true, decide_eq_true_iff] at hg
    rcases hg with rfl | hg
    · exact ⟨hfd, hlistener, hbase⟩
    · exact h.client g hg
  · intro events' hevents'
    rw [hcontrol'] at hevents'
    cases hevents'
    rw [hinterest]
    exact ⟨hnodup, fun g hg => Finset.mem_insert_of_mem (hrest g hg)⟩
  · intro g events' hevents'
    rw [hcontrol'] at hevents'
    cases hevents'

/-- A descriptor 0 is not used and not closed. -/
theorem accept_zero (h : s.Descriptors listener base) {ip : Bytes} {added : Bool}
    {events : List Fd} (hcontrol : s.control = .handling (listener :: events)) :
    (s.acceptNewConnection (some (0, ip)) added events).Descriptors listener base := by
  have hclients : ∀ g, (s.acceptNewConnection (some (0, ip)) added events).client? g =
      s.client? g := by
    intro g
    show (ConnectionManager.acceptNewConnection _ 0 ip added).client? g = _
    rw [ConnectionManager.acceptNewConnection, if_neg (by simp)]
    rfl
  have hopened : (s.acceptNewConnection (some (0, ip)) added events).opened =
      insert 0 s.opened := by
    simp [acceptNewConnection]
  have hinterest : (s.acceptNewConnection (some (0, ip)) added events).interest =
      s.interest := by
    simp [acceptNewConnection]
  obtain ⟨hnodup, -, hrest⟩ := h.rest hcontrol
  obtain ⟨hhandling, hparsing⟩ := of_handling
    (show (s.acceptNewConnection (some (0, ip)) added events).control = _ from rfl) hnodup hrest
  refine ⟨?_, ?_, ?_, ?_, ?_, ?_⟩
  · intro g
    rw [hinterest, hclients]
    exact h.interest g
  · intro g hg
    rw [hclients] at hg
    rw [hopened]
    exact Finset.mem_insert_of_mem (h.opened g hg)
  · intro g hg
    rw [hopened, Finset.mem_insert] at hg
    rw [hclients]
    rcases hg with hg | hg
    · exact Or.inr (Or.inr (Or.inr hg))
    · exact h.only g hg
  · intro g hg
    rw [hclients] at hg
    exact h.client g hg
  · intro events' hevents'
    rw [hinterest]
    exact hhandling events' hevents'
  · intro g events' hevents'
    rw [hinterest, hclients]
    exact hparsing g events' hevents'

/-- Whatever `accept` returns. -/
theorem acceptNewConnection (h : s.Descriptors listener base)
    {accepted : Option (Fd × Bytes)} {added : Bool} {events : List Fd}
    (hcontrol : s.control = .handling (listener :: events)) (hfresh : s.Fresh accepted) :
    (s.acceptNewConnection accepted added events).Descriptors listener base := by
  obtain ⟨hnodup, -, hrest⟩ := h.rest hcontrol
  cases accepted with
  | none =>
    obtain ⟨hhandling, hparsing⟩ := of_handling
      (show (s.acceptNewConnection none added events).control = _ from rfl) hnodup hrest
    exact h.of_same (fun _ => rfl) rfl rfl hhandling hparsing
  | some found =>
    obtain ⟨fd, ip⟩ := found
    obtain ⟨hnonneg, hnew⟩ := hfresh (fd, ip) rfl
    by_cases hfd : 0 < fd
    · cases added with
      | true => exact h.accept hcontrol hfd hnew
      | false =>
        -- epoll has refused the descriptor, which is closed again
        obtain ⟨hhandling, hparsing⟩ := of_handling (show
          (s.acceptNewConnection (some (fd, ip)) false events).control = _ from rfl) hnodup hrest
        refine h.of_same (fun g => ?_) ?_ ?_ hhandling hparsing
        · show ((ConnectionManager.acceptNewConnection _ fd ip false).client? g).isSome = _
          rw [ConnectionManager.acceptNewConnection, if_neg (by simp)]
          rfl
        · simp [IoThread.acceptNewConnection, hfd]
        · simp [IoThread.acceptNewConnection]
    · have hle : fd.toInt ≤ 0 := by
        rw [Int32.lt_iff_toInt_lt] at hfd
        exact Int.not_lt.mp hfd
      have hge : 0 ≤ fd.toInt := by
        rw [Int32.le_iff_toInt_le] at hnonneg
        exact hnonneg
      obtain rfl : fd = 0 := Int32.toInt_inj.mp (le_antisymm hle hge)
      exact h.accept_zero hcontrol

/-- A client is disconnected: its descriptor is gone everywhere. -/
theorem close (h : s.Descriptors listener base) {fd : Fd} {events : List Fd}
    (hcontrol : s.control = .handling (fd :: events)) (hfd : fd ≠ listener) :
    (s.closeConnection fd events).Descriptors listener base := by
  have hclients : ∀ g, ((s.closeConnection fd events).client? g).isSome =
      (!decide (g = fd) && (s.client? g).isSome) := by
    intro g
    show ((s.pool.shared.clientManager.removeClient fd).getClient g).isSome = _
    rw [ClientManager.getClient_removeClient]
    by_cases hg : g = fd
    · simp [hg]
    · simp only [if_neg hg, decide_eq_false hg, Bool.not_false, Bool.true_and]
      rfl
  obtain ⟨-, -, hbase⟩ := h.client fd (h.connected hcontrol hfd)
  obtain ⟨hnodup, hnotin, hrest⟩ := h.rest hcontrol
  refine ⟨?_, ?_, ?_, ?_, ?_, ?_⟩
  · intro g
    show g ∈ s.interest.erase fd ↔ _
    rw [hclients, Finset.mem_erase, h.interest, Bool.and_eq_true, Bool.not_eq_true',
      decide_eq_false_iff_not]
    constructor
    · rintro ⟨hne, hg | hg⟩
      · exact Or.inl hg
      · exact Or.inr ⟨hne, hg⟩
    · rintro (rfl | ⟨hne, hg⟩)
      · exact ⟨hfd.symm, Or.inl rfl⟩
      · exact ⟨hne, Or.inr hg⟩
  · intro g hg
    rw [hclients, Bool.and_eq_true, Bool.not_eq_true', decide_eq_false_iff_not] at hg
    show g ∈ s.opened.erase fd
    rw [Finset.mem_erase]
    rcases hg with rfl | hg | ⟨hne, hg⟩
    · exact ⟨hfd.symm, h.opened _ (Or.inl rfl)⟩
    · exact ⟨fun heq => hbase (heq ▸ hg), h.opened g (Or.inr (Or.inl hg))⟩
    · exact ⟨hne, h.opened g (Or.inr (Or.inr hg))⟩
  · intro g hg
    obtain ⟨hne, hg⟩ := Finset.mem_erase.mp hg
    rw [hclients, Bool.and_eq_true, Bool.not_eq_true', decide_eq_false_iff_not]
    have := h.only g hg
    tauto
  · intro g hg
    rw [hclients, Bool.and_eq_true] at hg
    exact h.client g hg.2
  · intro events' hevents'
    cases hevents'
    refine ⟨hnodup, fun g hg => ?_⟩
    show g ∈ s.interest.erase fd
    exact Finset.mem_erase.mpr ⟨fun heq => hnotin (heq ▸ hg), hrest g hg⟩
  · intro g events' hevents'
    cases hevents'

/-- A write to the record of a connected client connects and disconnects nobody. -/
theorem isSome_setClient {m : ClientManager} {fd : Fd} {client : ClientInfo}
    (hclient : (m.getClient fd).isSome = true) (g : Fd) :
    ((m.setClient fd client).getClient g).isSome = (m.getClient g).isSome := by
  rw [ClientManager.getClient_setClient]
  by_cases hg : g = fd
  · rw [if_pos hg, hg, hclient]
    rfl
  · rw [if_neg hg]

/-- **The descriptors stay those of the clients.** -/
theorem step {e : Event N} (h : s.Descriptors listener base)
    (hstep : step json o listener s e = some s') : s'.Descriptors listener base := by
  cases step_cases hstep with
  | @wait ready hcontrol hnodup hready =>
    obtain ⟨hhandling, hparsing⟩ := of_handling (Eq.refl (Control.handling ready)) hnodup hready
    exact h.of_same (fun _ => rfl) rfl rfl hhandling hparsing
  | accept hcontrol hfresh => exact h.acceptNewConnection hcontrol hfresh
  | @recv fd events client chunk hcontrol hfd hclient =>
    obtain ⟨hnodup, hnotin, hrest⟩ := h.rest hcontrol
    have hsome : (s.pool.shared.clientManager.getClient fd).isSome = true := by
      rw [show s.pool.shared.clientManager.getClient fd = some client from hclient]
      rfl
    refine h.of_same (fun g => isSome_setClient hsome g) rfl rfl ?_ ?_
    · intro events' hevents'
      cases hevents'
    · intro g events' hevents'
      cases hevents'
      exact ⟨hsome, List.nodup_cons.mpr ⟨hnotin, hnodup⟩, hrest⟩
  | close hcontrol hfd => exact h.close hcontrol hfd
  | @leave fd events now hcontrol =>
    obtain ⟨-, hnodup, hrest⟩ := h.parsing fd events hcontrol
    obtain ⟨hhandling, hparsing⟩ := of_handling (Eq.refl (Control.handling events))
      (List.nodup_cons.mp hnodup).2 hrest
    exact h.of_same (fun _ => rfl) rfl rfl hhandling hparsing
  | @parse fd events now client f rest hcontrol hclient =>
    have hsome : (s.pool.shared.clientManager.getClient fd).isSome = true := by
      rw [show s.pool.shared.clientManager.getClient fd = some client from hclient]
      rfl
    exact h.of_same (fun g => isSome_setClient hsome g) rfl rfl h.handling h.parsing
  | worker he hpool =>
    exact h.of_same (fun g => (client?_worker he hpool g).1) rfl rfl h.handling h.parsing

end Descriptors

/-- The run lemma. -/
theorem descriptors_of_runFrom {base : Finset Fd} {codes : CodeStream} {events : List (Event N)}
    (hrun : Transition.runFrom (step json o listener) (init N codes listener base) events =
      some s) : s.Descriptors listener base :=
  Transition.runFrom_always (fun _ _ _ h hstep => h.step hstep) hrun
    (descriptors_init codes listener base)

/-- **Descriptors are neither leaked nor closed twice, and no event is stale.**  In every
state of every run: epoll watches the listener and the connected clients, and nothing else;
the process has open what it had before, the listener and the connected clients, and nothing
else but perhaps a descriptor 0; the descriptor of a client is none of the others.  The
event that is handled next is of the listener, or of a client that is connected, so that
`receive` finds its record and `closeConnection` closes its descriptor; and the client whose
buffer is being parsed is connected. -/
theorem descriptors {base : Finset Fd} {codes : CodeStream} {events : List (Event N)}
    (hrun : Transition.runFrom (step json o listener) (init N codes listener base) events =
      some s) :
    (∀ fd, fd ∈ s.interest ↔ fd = listener ∨ (s.client? fd).isSome = true) ∧
      (∀ fd, fd ≠ 0 →
        (fd ∈ s.opened ↔ fd = listener ∨ fd ∈ base ∨ (s.client? fd).isSome = true)) ∧
      (∀ fd, (s.client? fd).isSome = true → 0 < fd ∧ fd ≠ listener ∧ fd ∉ base) ∧
      (∀ fd rest, s.control = .handling (fd :: rest) →
        fd ∉ rest ∧ fd ∈ s.opened ∧ (fd ≠ listener → (s.client? fd).isSome = true)) ∧
      ∀ fd rest, s.control = .parsing fd rest → (s.client? fd).isSome = true := by
  have h := descriptors_of_runFrom hrun
  refine ⟨h.interest, fun fd hfd => ⟨fun hopen => ?_, h.opened fd⟩, h.client, ?_, ?_⟩
  · rcases h.only fd hopen with hopen | hopen | hopen | hopen
    · exact Or.inl hopen
    · exact Or.inr (Or.inl hopen)
    · exact Or.inr (Or.inr hopen)
    · exact absurd hopen hfd
  · intro fd rest hcontrol
    obtain ⟨-, hnotin, -⟩ := h.rest hcontrol
    have hmem : fd ∈ s.interest := (h.handling _ hcontrol).2 fd List.mem_cons_self
    have hopen : fd ∈ s.opened := by
      rcases (h.interest fd).mp hmem with hfd | hfd
      · exact h.opened fd (Or.inl hfd)
      · exact h.opened fd (Or.inr (Or.inr hfd))
    exact ⟨hnotin, hopen, h.connected hcontrol⟩
  · intro fd rest hcontrol
    exact (h.parsing fd rest hcontrol).1

/-! ### A run -/

/-- An EXIT_ROOM and the first two bytes of a MESSAGE_SEND. -/
def exitChunk : Chunk := ⟨[0x01, 0x2E, 0x00, 0x00, 0x00, 0xC9], by decide, by decide⟩

/-- A client connects to a server that listens on 4, on descriptor 5; an EXIT_ROOM arrives
and is enqueued, and a worker takes it. -/
def exitArrives : List (Event 4) :=
  [.wait [4], .accept (some (5, str "10.0.0.1")) true, .wait [5], .recv (some exitChunk),
    .parse noon, .worker (.pop 0), .parse noon]

/-- The standard streams and the epoll instance. -/
def standardStreams : Finset Fd := {0, 1, 2, 3}

theorem runFrom_exitArrives : ∃ s,
    Transition.runFrom (step Nlohmann.integral .little 4)
      (init 4 CodeStream.inOrder 4 standardStreams) exitArrives = some s ∧
    (s.client? 5).isSome = true ∧ s.pool.shared.connection 5 = ⟨5, 1⟩ ∧
    s.arrived ⟨5, 1⟩ = exitChunk.bytes ∧ (∃ rest, s.control = .handling rest) := by
  have hrun : (Transition.runFrom (step Nlohmann.integral .little 4)
      (init 4 CodeStream.inOrder 4 standardStreams) exitArrives).any (fun s =>
        (s.client? 5).isSome && decide (s.pool.shared.connection 5 = ⟨5, 1⟩ ∧
          s.arrived ⟨5, 1⟩ = exitChunk.bytes) &&
        match s.control with
        | .handling _ => true
        | .parsing _ _ => false) = true := by
    decide +kernel
  obtain ⟨s, hrun, hs⟩ := (Option.any_eq_true _ _).mp hrun
  rw [Bool.and_eq_true, Bool.and_eq_true, decide_eq_true_iff] at hs
  obtain ⟨⟨hclient, hconn, harrived⟩, hcontrol⟩ := hs
  refine ⟨s, hrun, hclient, hconn, harrived, ?_⟩
  cases hs : s.control with
  | handling rest => exact ⟨rest, rfl⟩
  | parsing fd rest =>
    rw [hs] at hcontrol
    cases hcontrol

theorem descriptors_exitArrives : ∃ s,
    Transition.runFrom (step Nlohmann.integral .little 4)
      (init 4 CodeStream.inOrder 4 standardStreams) exitArrives = some s ∧
    5 ∈ s.interest ∧ 5 ∈ s.opened := by
  obtain ⟨s, hrun, hclient, -⟩ := runFrom_exitArrives
  obtain ⟨hinterest, hopened, -⟩ := descriptors hrun
  exact ⟨s, hrun, (hinterest 5).mpr (Or.inr hclient),
    (hopened 5 (by decide)).mpr (Or.inr (Or.inr hclient))⟩

end IoThread

end SocketChat
