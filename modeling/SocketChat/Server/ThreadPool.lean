/-
The server with its thread pool.

The I/O thread accepts and closes connections and queues each packet it has received as
a task; the workers of the pool take tasks off the queue and run their handlers, call by
call.  `ThreadPool.step` is the step function of this system, whose runs are all
interleavings.  A task records the connection its packet was received on, of which the
handler is only told the descriptor.

Sequential runs are among these (`runFrom_sequential`).  Tasks are started in the order
in which their packets were received, and with a single worker they are completed in that
order; with two, a packet can take effect before an earlier one of the same connection.
-/
import SocketChat.Lib.Pool
import SocketChat.Json.RoundTrip
import SocketChat.Server.Events

namespace SocketChat

/-- What `handleEvent` enqueues for a packet; `now` is the time at which the handler will
look at the clock. -/
structure Task where
  conn : Connection
  packet : Packet
  now : LocalTime
  deriving DecidableEq

/-- What the I/O thread does to the clients, besides enqueueing. -/
inductive IoEvent where
  | accept (fd : Fd) (ip : Bytes) (added : Bool)
  | close (fd : Fd)

/-- The same as an event of the sequential server. -/
def IoEvent.toEvent : IoEvent → Event
  | accept fd ip added => .accept fd ip added
  | close fd => .close fd

/-- The packet of a task is received from a connected client, on its latest
connection. -/
def Task.Received (s : Server) (t : Task) : Prop :=
  (s.client? t.conn.fd).isSome = true ∧ s.connection t.conn.fd = t.conn ∧ t.packet.Filled

instance (s : Server) (t : Task) : Decidable (t.Received s) :=
  inferInstanceAs (Decidable (_ ∧ _ ∧ _))

def Server.system (json : Nlohmann) : Pool.System Reply Server Task IoEvent where
  serve := serve
  program t := PacketHandler.handle json t.now t.conn.fd t.packet
  admits s t := decide (t.Received s)
  env s e := if e.toEvent.Possible s then some (e.toEvent.perform json s) else none

/-- The server with a pool of `N` workers. -/
abbrev ThreadPool (N : ℕ) := Pool Reply Server Task N

namespace ThreadPool

abbrev Event (N : ℕ) := Pool.Event Task IoEvent N

def init (N : ℕ) (codes : CodeStream) : ThreadPool N := Pool.init Reply Task N (Server.init codes)

def step {N : ℕ} (json : Nlohmann) (t : ThreadPool N) (e : Event N) : Option (ThreadPool N) :=
  Pool.step (Server.system json) t e

variable {json : Nlohmann} {N : ℕ} {t t' : ThreadPool N} {codes : CodeStream}
  {events : List (Event N)}

/-- What an event of the I/O thread can do. -/
theorem env_cases {s s' : Server} {e : IoEvent} (h : (Server.system json).env s e = some s') :
    (∃ fd ip, e = .accept fd ip true ∧ 0 < fd ∧ s.client? fd = none ∧
        s' = { s with
          clientManager := s.clientManager.addClient fd ip
          accepts := fun g => if g = fd then s.accepts fd + 1 else s.accepts g }) ∨
      (∃ fd, e = .close fd ∧ s' = ConnectionManager.closeConnection s fd) ∨
      ∃ fd ip added, e = .accept fd ip added ∧ ¬ (0 < fd ∧ added = true) ∧ s' = s := by
  have h : (if e.toEvent.Possible s then some (e.toEvent.perform json s) else none) = some s' := h
  by_cases hpossible : e.toEvent.Possible s
  · rw [if_pos hpossible, Option.some_inj] at h
    subst h
    cases e with
    | close fd => exact Or.inr (Or.inl ⟨fd, rfl, rfl⟩)
    | accept fd ip added =>
      by_cases hadd : 0 < fd ∧ added = true
      · obtain ⟨hfd, rfl⟩ := hadd
        exact Or.inl ⟨fd, ip, rfl, hfd, hpossible, if_pos ⟨hfd, rfl⟩⟩
      · exact Or.inr (Or.inr ⟨fd, ip, added, rfl, hadd, if_neg hadd⟩)
  · rw [if_neg hpossible] at h
    cases h

/-- A connection that is accepted. -/
theorem step_accept {fd : Fd} {ip : Bytes} (hfd : 0 < fd)
    (hstep : step json t (.env (.accept fd ip true)) = some t') :
    t.shared.client? fd = none ∧
      t' = { t with shared := { t.shared with
        clientManager := t.shared.clientManager.addClient fd ip
        accepts := fun g => if g = fd then t.shared.accepts fd + 1 else t.shared.accepts g } } := by
  obtain ⟨shared, henv, rfl⟩ := Option.map_eq_some_iff.mp hstep
  rcases env_cases henv with ⟨fd', ip', heq, -, hnone, rfl⟩ | ⟨fd', heq, -⟩ |
    ⟨fd', ip', added, heq, hnot, -⟩
  · cases heq
    exact ⟨hnone, rfl⟩
  · cases heq
  · cases heq
    exact absurd ⟨hfd, rfl⟩ hnot

/-- A worker writes to the record of a connection that has been closed since its handler
looked it up. -/
def WritesErased (t : ThreadPool N) : Event N → Prop
  | .act w => ∃ i conn code, t.pending w = some (i, .setRoomCode conn code) ∧
      ¬ t.shared.Open conn
  | _ => False

/-! ### Sequential runs -/

/-- What was sent before is of no account to a call. -/
theorem serve_sent (c : Call) (s : Server) (before : List (Fd × Packet)) :
    serve c { s with sent := before ++ s.sent } =
      ((serve c s).1, { (serve c s).2 with sent := before ++ (serve c s).2.sent }) := by
  cases c with
  | setRoomCode conn code =>
    simp only [serve, Server.client?, Server.connection]
    cases s.clientManager.getClient conn.fd with
    | none => rfl
    | some client =>
      by_cases hconn : (⟨conn.fd, s.accepts conn.fd⟩ : Connection) = conn
      · simp only [hconn, if_true]
      · simp only [hconn, if_false]
  | send fd packet => simp [serve]
  | _ => rfl

theorem exec_sent {α : Type} (p : Handler α) (s : Server) (before : List (Fd × Packet)) :
    (p.exec serve { s with sent := before ++ s.sent }).2 =
      { (p.exec serve s).2 with sent := before ++ (p.exec serve s).2.sent } := by
  induction p generalizing s with
  | ret a => rfl
  | call c k ih =>
    rw [Prog.exec_call, Prog.exec_call, serve_sent]
    exact ih (serve c s).1 (serve c s).2

/-- All workers are free and nothing waits. -/
structure Idle (t : ThreadPool N) : Prop where
  queue : t.queue = []
  worker : ∀ w, t.worker w = none

/-- A step of the sequential server, made by the pool: an event of the I/O thread, or a
packet that is received and handled before anything else happens. -/
theorem runFrom_step {s s' : Server} {e : SocketChat.Event} (w : Fin N) (hidle : t.Idle)
    (hshared : t.shared = { s with sent := t.shared.sent }) (hstep : s.step json e = some s') :
    ∃ events t', Transition.runFrom (step json) t events = some t' ∧ t'.Idle ∧
      t'.shared = { s' with sent := t'.shared.sent } := by
  obtain ⟨hpossible, hs'⟩ := Server.step_eq_some.mp hstep
  -- neither the guard nor the effect depends on what was sent before
  have hpossible' : e.Possible t.shared := by
    rw [hshared]
    cases e with
    | accept => exact hpossible
    | packet => exact hpossible
    | close => exact hpossible
  have hio : ∀ io : IoEvent, io.toEvent = e → step json t (.env io) =
      some { t with shared := e.perform json t.shared } := by
    intro io hio
    subst hio
    show Option.map _ (if _ then _ else _) = _
    rw [if_pos hpossible']
    rfl
  cases e with
  | accept fd ip added =>
    refine ⟨[.env (.accept fd ip added)], _, Transition.runFrom_single (hio _ rfl),
      ⟨hidle.queue, hidle.worker⟩, ?_⟩
    show ConnectionManager.acceptNewConnection t.shared fd ip added = _
    rw [← hs', hshared]
    simp only [Event.perform, ConnectionManager.acceptNewConnection]
    by_cases hadd : 0 < fd ∧ added = true
    · simp only [if_pos hadd]
    · simp only [if_neg hadd]
  | close fd =>
    refine ⟨[.env (.close fd)], _, Transition.runFrom_single (hio _ rfl),
      ⟨hidle.queue, hidle.worker⟩, ?_⟩
    show ConnectionManager.closeConnection t.shared fd = _
    rw [← hs', hshared]
    rfl
  | packet fd p now =>
    have hadmits : (Server.system json).admits t.shared ⟨t.shared.connection fd, p, now⟩ = true :=
      decide_eq_true ⟨hpossible'.1, rfl, hpossible'.2⟩
    obtain ⟨events, hrun⟩ := Pool.runFrom_alone w hadmits hidle.queue hidle.worker
    refine ⟨events, _, hrun, ⟨hidle.queue, hidle.worker⟩, ?_⟩
    have hexec : ((PacketHandler.handle json now fd p).exec serve t.shared).2 =
        { s' with sent := t.shared.sent ++ s'.sent } := by
      have hsent := exec_sent (PacketHandler.handle json now fd p) { s with sent := [] }
        t.shared.sent
      rw [List.append_nil] at hsent
      rw [hshared, ← hs']
      exact hsent
    show ((PacketHandler.handle json now fd p).exec serve t.shared).2 =
      { s' with sent := ((PacketHandler.handle json now fd p).exec serve t.shared).2.sent }
    rw [hexec]

/-- **Sequential runs are interleavings.**  Whatever state, up to the packets sent, events
executed one after the other can lead to, the pool can lead to, whatever its number of
workers. -/
theorem runFrom_sequential (w : Fin N) {s : Server} {events : List SocketChat.Event}
    (hrun : Transition.runFrom (Server.step json) (Server.init codes) events = some s) :
    ∃ events' t, Transition.runFrom (step json) (init N codes) events' = some t ∧ t.Idle ∧
      t.shared = { s with sent := t.shared.sent } := by
  refine Transition.runFrom_simulated (R := fun (s : Server) (t : ThreadPool N) =>
    t.Idle ∧ t.shared = { s with sent := t.shared.sent }) ?_ hrun
    ⟨⟨rfl, fun _ => rfl⟩, rfl⟩
  rintro s t e s' ⟨hidle, hshared⟩ hstep
  exact runFrom_step w hidle hshared hstep

/-! ### The order of packets -/

/-- **Packets are handled in the order received, one worker apart.**  While a worker runs
the handler of a packet, the handler of every packet received earlier, be it on the same
connection or another, has come to its end or is run by another worker; where there is
only one worker it has come to its end. -/
theorem started_in_order (hvisits : Transition.Visits (step json) (init N codes) events t)
    {w : Fin N} {i j : ℕ} (hw : t.Runs w j) (hij : i < j) :
    (t.Completed i ∨ ∃ v, v ≠ w ∧ t.Runs v i) ∧ (N = 1 → t.Completed i) := by
  obtain ⟨pre, -, hrun⟩ := hvisits
  obtain ⟨k, hk⟩ : ∃ k, t.InOrder k := by
    refine Transition.runFrom_always (J := fun t => ∃ k, t.InOrder k)
      (fun t e t' ht hstep => ?_) hrun ⟨0, Pool.inOrder_init _⟩
    obtain ⟨k, hk⟩ := ht
    exact hk.step hstep
  rcases hk.earlier hw hij with hdone | ⟨v, hne, hv⟩
  · exact ⟨Or.inl (Or.inl hdone), fun _ => Or.inl hdone⟩
  · refine ⟨Or.inr ⟨v, hne, hv⟩, fun hN => ?_⟩
    subst hN
    exact absurd (Subsingleton.elim v w) hne

/-- A request for the nickname `ann`, received on the first connection with descriptor
`fd`. -/
def annTask (fd : Fd) : Task :=
  ⟨⟨fd, 1⟩, Packet.ofText PacketType.nicknameRequest (str "\x7b\"nickname\":\"ann\"\x7d"), noon⟩

/-- An EXIT_ROOM received on the first connection with descriptor 5. -/
def exitTask : Task := ⟨⟨5, 1⟩, Packet.ofText PacketType.exitRoom [], noon⟩

/-- Client 5 sends EXIT_ROOM twice; the first of two workers takes the first packet and
pauses, the second handles the second up to its answer. -/
def overtaken : List (Event 2) :=
  [.env (.accept 5 (str "10.0.0.1") true), .push exitTask, .push exitTask, .pop 0, .pop 1, .act 1]

/-- The answer to an EXIT_ROOM of a client that is in no room. -/
def notInAnyRoom : Packet := Packet.ofText PacketType.roomExitFail (str "Not in any room.")

/-- The state in which the second packet is about to be answered. -/
theorem runFrom_overtaken : ∃ t,
    Transition.runFrom (step Nlohmann.integral) (init 2 CodeStream.inOrder) overtaken = some t ∧
    t.pending 1 = some (1, .send 5 notInAnyRoom) ∧ ¬ t.Completed 0 ∧
    t.received.map Task.conn = [⟨5, 1⟩, ⟨5, 1⟩] := by
  have hrun : (Transition.runFrom (step Nlohmann.integral) (init 2 CodeStream.inOrder)
      overtaken).any (fun t => decide (t.pending 1 = some (1, .send 5 notInAnyRoom) ∧
        ¬ t.Completed 0 ∧ t.received.map Task.conn = [⟨5, 1⟩, ⟨5, 1⟩])) = true := by
    decide +kernel
  obtain ⟨t, hrun, ht⟩ := (Option.any_eq_true _ _).mp hrun
  exact ⟨t, hrun, of_decide_eq_true ht⟩

theorem started_in_order_overtaken : ∃ t : ThreadPool 2,
    Transition.Visits (step Nlohmann.integral) (init 2 CodeStream.inOrder) overtaken t ∧
      t.Runs 1 1 ∧ (t.Completed 0 ∨ ∃ v, v ≠ 1 ∧ t.Runs v 0) := by
  obtain ⟨t, hrun, hpending, -, -⟩ := runFrom_overtaken
  obtain ⟨k, hk⟩ := Pool.pending_eq_some.mp hpending
  have hvisits := Transition.Visits.last hrun
  have hruns : t.Runs 1 1 := ⟨_, hk⟩
  exact ⟨t, hvisits, hruns, (started_in_order hvisits hruns (by omega)).1⟩

/-- The second packet is answered before the first, which was received on the same
connection, is handled. -/
theorem not_completed_in_order : ∃ t,
    Transition.Takes (step Nlohmann.integral) (init 2 CodeStream.inOrder)
      (overtaken ++ [.act 1]) t (.act 1) ∧
    t.received.map Task.conn = [⟨5, 1⟩, ⟨5, 1⟩] ∧
    t.pending 1 = some (1, .send 5 notInAnyRoom) ∧ ¬ t.Completed 0 := by
  obtain ⟨t, hrun, hpending, hopen, hconn⟩ := runFrom_overtaken
  exact ⟨t, ⟨overtaken, List.prefix_refl _, hrun⟩, hconn, hpending, hopen⟩

/-- Clients 5 and 6 ask for the nickname `ann`; two workers find it free. -/
def bothFree : List (Event 2) :=
  [.env (.accept 5 (str "10.0.0.1") true), .env (.accept 6 (str "10.0.0.2") true),
    .push (annTask 5), .push (annTask 6), .pop 0, .pop 1, .act 0, .act 1]

end ThreadPool

end SocketChat
