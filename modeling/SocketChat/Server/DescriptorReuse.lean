/-
Packets of connections that are gone.

A task carries the descriptor its packet was received on, and the handler looks the client
up by it when it runs.  By then the connection may have been closed and the descriptor
given to another one.  As long as no descriptor is accepted again while a request received
on it is queued or being handled, and no worker writes to a record erased since its handler
looked it up, handlers act only on the connection their packet was received on.  A reuse
before that lets the handler act on the new one; and a record that has been erased is no
longer that of the connection, but freed memory or another record.
-/
import SocketChat.Server.Discipline
import SocketChat.Server.ThreadPool

namespace SocketChat

/-- A call made for a packet of connection `K` acts on no other connection: the record it
modifies, if any, is that of `K`, what it writes through a pointer goes to the record of `K`,
which is still there, and what it sends to the descriptor of `K` reaches, if anybody, `K`. -/
structure Call.ActsOn (c : Call) (s : Server) (K : Connection) : Prop where
  modifies : ∀ g, (serve c s).2.client? g ≠ s.client? g → s.connection g = K
  writes : ∀ conn code, c = .setRoomCode conn code → conn = K ∧ s.Open K
  answers : ∀ packet, c = .send K.fd packet → (s.client? K.fd).isSome = true →
    s.connection K.fd = K

/-- Only two calls modify a record. -/
theorem client?_serve {c : Call} {s : Server} {g : Fd}
    (h : (serve c s).2.client? g ≠ s.client? g) :
    (∃ nickname, c = .setNickname g nickname) ∨
      ∃ conn code, c = .setRoomCode conn code ∧ conn.fd = g := by
  cases c with
  | setNickname fd nickname =>
    by_cases hg : g = fd
    · exact Or.inl ⟨nickname, by rw [hg]⟩
    · exact absurd (by rw [client?_setNickname, if_neg hg]) h
  | setRoomCode conn code =>
    by_cases hg : conn.fd = g
    · exact Or.inr ⟨conn, code, rfl, hg⟩
    · exact absurd (by rw [client?_setRoomCode, if_neg (Ne.symm hg)]) h
  | _ => exact absurd rfl h

namespace ThreadPool

variable {json : Nlohmann} {N : ℕ} {t t' : ThreadPool N} {codes : CodeStream}
  {events : List (Event N)}

/-- A descriptor is accepted while a request received on it before is queued, or its
handler has calls to make. -/
def Reuses (t : ThreadPool N) : Event N → Prop
  | .env (.accept fd _ added) => 0 < fd ∧ added = true ∧
      ∃ i task, t.received[i]? = some task ∧ task.conn.fd = fd ∧
        IsRequest task.packet.type ∧ t.Unfinished i
  | _ => False

/-- What is left of the handler of a request acts on the connection its packet was
received on, and has a pointer to no other. -/
def OnOwn (s : Server) (task : Task) (p : Handler Unit) : Prop :=
  ∃ m, p.Follows (Handler.discipline task.conn.fd (IsRequest task.packet.type)) m ∧
    (IsRequest task.packet.type →
      (∀ c k, p = .call c k → s.connection task.conn.fd = task.conn) ∧
        ∀ conn, m.client = some conn → conn = task.conn)

/-- What holds in every state of a run without reuses. -/
structure Current (t : ThreadPool N) : Prop where
  queued : ∀ i ∈ t.queue, ∀ task, t.received[i]? = some task → IsRequest task.packet.type →
    t.shared.connection task.conn.fd = task.conn
  programs : t.Each OnOwn

/-- The latest connection on a descriptor changes only where one is accepted. -/
theorem connection_step {e : Event N} (hstep : step json t e = some t') (g : Fd) :
    t'.shared.connection g = t.shared.connection g ∨
      ∃ ip, e = .env (.accept g ip true) ∧ 0 < g := by
  cases Pool.step_cases hstep with
  | push => exact Or.inl rfl
  | pop => exact Or.inl rfl
  | finish => exact Or.inl rfl
  | @act w i c k hrun => exact Or.inl (connection_serve c t.shared g)
  | env henv =>
    rcases env_cases henv with ⟨fd, ip, rfl, hfd, -, rfl⟩ |
      ⟨fd, -, rfl⟩ | ⟨-, -, -, -, -, rfl⟩
    · by_cases hg : g = fd
      · subst hg
        exact Or.inr ⟨ip, rfl, hfd⟩
      · refine Or.inl ?_
        simp only [Server.connection, if_neg hg]
    · exact Or.inl rfl
    · exact Or.inl rfl

/-- In a step that is no reuse, an unfinished request keeps its connection. -/
theorem connection_of_not_reuses {e : Event N} {i : ℕ} {task : Task} (hgood : ¬ t.Reuses e)
    (hstep : step json t e = some t') (htask : t.received[i]? = some task)
    (hrequest : IsRequest task.packet.type) (hopen : t.Unfinished i) :
    t'.shared.connection task.conn.fd = t.shared.connection task.conn.fd := by
  rcases connection_step hstep task.conn.fd with hsame | ⟨ip, rfl, hpos⟩
  · exact hsame
  · exact absurd ⟨hpos, rfl, i, task, htask, rfl, hrequest, hopen⟩ hgood

/-- The pointer a handler has after a call. -/
theorem client_next {fd : Fd} {request : Prop} {m : Handler.Memory} {c : Call} {s : Server}
    {conn : Connection} (hallowed : (Handler.discipline fd request).allows m c)
    (h : ((Handler.discipline fd request).next m c (serve c s).1).client = some conn) :
    m.client = some conn ∨ s.connection fd = conn := by
  cases c with
  | getClient g =>
    have hg : g = fd := hallowed.2
    subst hg
    have h : (((s.client? g).map fun client => (s.connection g, client)).map Prod.fst) =
      some conn := h
    rw [Option.map_map, Option.map_eq_some_iff] at h
    obtain ⟨client, -, hconn⟩ := h
    exact Or.inr hconn
  | _ => exact Or.inl h

theorem Current.step {e : Event N} (ht : t.Current) (hgood : ¬ t.Reuses e)
    (hstep : step json t e = some t') : t'.Current := by
  refine ⟨fun i hi task htask hrequest => ?_, ht.programs.step hstep ?_ ?_ ?_⟩
  · -- a request that waits after the step either waited before or has just been received
    have hwaited : ∀ i, i ∈ t.queue → t.received[i]? = some task →
        t'.shared.connection task.conn.fd = task.conn := by
      intro i hi htask
      rw [connection_of_not_reuses hgood hstep htask hrequest (Or.inl hi)]
      exact ht.queued i hi task htask hrequest
    cases Pool.step_cases hstep with
    | @push new hadmits =>
      by_cases hlt : i < t.received.length
      · rw [List.getElem?_append_left hlt] at htask
        refine hwaited i ?_ htask
        rcases List.mem_append.mp hi with hold | hnew
        · exact hold
        · have hlast := List.mem_singleton.mp hnew
          omega
      · have hnew : task = new := by
          rw [List.getElem?_append_right (by omega)] at htask
          exact List.mem_singleton.mp (List.mem_of_getElem? htask)
        subst hnew
        exact (of_decide_eq_true hadmits).2.1
    | @pop w j queue new hfree hqueue hnew =>
      exact hwaited i (hqueue ▸ List.mem_cons_of_mem j hi) htask
    | env => exact hwaited i hi htask
    | act => exact hwaited i hi htask
    | finish => exact hwaited i hi htask
  · intro i task hi htask
    refine ⟨Handler.Memory.empty, PacketHandler.follows_handle json task.now task.conn.fd
      task.packet, fun hrequest => ⟨fun _ _ _ => ht.queued i hi task htask hrequest, ?_⟩⟩
    intro conn hconn
    cases hconn
  · rintro w i task c k rfl hrun htask ⟨m, hfollows, hown⟩
    refine ⟨_, hfollows.2 _, fun hrequest => ?_⟩
    obtain ⟨hcurrent, hclient⟩ := hown hrequest
    have hconnection := hcurrent c k rfl
    refine ⟨fun c' k' _ => ?_, fun conn hconn => ?_⟩
    · have hopen : t.Unfinished i := Or.inr ⟨w, c, Pool.pending_eq_some.mpr ⟨k, hrun⟩⟩
      rw [connection_of_not_reuses hgood hstep htask hrequest hopen, hconnection]
    · rcases client_next hfollows.1 hconn with hold | hnew
      · exact hclient conn hold
      · exact hnew.symm.trans hconnection
  · rintro v i task p hother hrun htask ⟨m, hfollows, hown⟩
    refine ⟨m, hfollows, fun hrequest => ⟨fun c k hp => ?_, (hown hrequest).2⟩⟩
    subst hp
    have hopen : t.Unfinished i := Or.inr ⟨v, c, Pool.pending_eq_some.mpr ⟨k, hrun⟩⟩
    rw [connection_of_not_reuses hgood hstep htask hrequest hopen]
    exact (hown hrequest).1 c k rfl

theorem current_init (N : ℕ) (codes : CodeStream) : (init N codes).Current := by
  refine ⟨fun i hi => ?_, Pool.each_init _ _⟩
  cases hi

/-- A handler that acts on its own connection. -/
theorem OnOwn.actsOn {s : Server} {task : Task} {c : Call} {k : Reply c → Handler Unit}
    (h : OnOwn s task (.call c k)) (hopen : ∀ conn code, c = .setRoomCode conn code → s.Open conn) :
    c.ActsOn s task.conn := by
  obtain ⟨m, ⟨hallowed, -⟩, hown⟩ := h
  -- a handler has a pointer to no record but that of its own connection
  have hpointer : ∀ conn code, c = .setRoomCode conn code → conn = task.conn := by
    rintro conn code rfl
    obtain ⟨-, hrequest, hclient⟩ := hallowed
    exact (hown hrequest).2 conn hclient
  refine ⟨fun g hg => ?_, fun conn code hc => ?_, ?_⟩
  · rcases client?_serve hg with ⟨nickname, rfl⟩ | ⟨conn, code, rfl, rfl⟩
    · obtain ⟨-, hrequest, rfl, -⟩ := hallowed
      exact (hown hrequest).1 _ k rfl
    · rw [hpointer conn code rfl]
      exact (hown hallowed.2.1).1 _ k rfl
  · obtain rfl := hpointer conn code hc
    exact ⟨rfl, hopen _ code hc⟩
  · rintro packet rfl -
    rcases hallowed.2 with hrequest | hne
    · exact (hown hrequest).1 _ k rfl
    · exact absurd rfl hne

/-- Along a run without reuses every call acts on its own connection. -/
theorem visits_current (hrun : Transition.runFrom (step json) (init N codes) events = some t)
    (hgood : ∀ u e, Transition.Takes (step json) (init N codes) events u e → ¬ u.Reuses e)
    {u : ThreadPool N} (hu : Transition.Visits (step json) (init N codes) events u) :
    u.Current :=
  Transition.Visits.invariant (G := fun u e => ¬ u.Reuses e)
    (fun _ _ _ hu hgood hstep => hu.step hgood hstep) hrun (current_init N codes) hgood u hu

/-! ### Runs with a reuse -/

/-- Tasks are of connections that have been accepted, and handlers keep to the
discipline. -/
structure Accepted (t : ThreadPool N) : Prop where
  received : ∀ task ∈ t.received, task.conn.number ≤ t.shared.accepts task.conn.fd
  inOrder : ∃ k, t.InOrder k
  programs : t.Each fun _ task p =>
    ∃ m, p.Follows (Handler.discipline task.conn.fd (IsRequest task.packet.type)) m

theorem accepts_step {e : Event N} (hstep : step json t e = some t') (g : Fd) :
    t.shared.accepts g ≤ t'.shared.accepts g := by
  cases Pool.step_cases hstep with
  | push => exact Nat.le_refl _
  | pop => exact Nat.le_refl _
  | finish => exact Nat.le_refl _
  | @act w i c k hrun =>
    show t.shared.accepts g ≤ (serve c t.shared).2.accepts g
    rw [accepts_serve]
  | env henv =>
    rcases env_cases henv with ⟨fd, ip, -, -, -, rfl⟩ |
      ⟨fd, -, rfl⟩ | ⟨-, -, -, -, -, rfl⟩
    · show t.shared.accepts g ≤ if g = fd then t.shared.accepts fd + 1 else t.shared.accepts g
      by_cases hg : g = fd
      · rw [if_pos hg, hg]
        omega
      · rw [if_neg hg]
    · exact Nat.le_refl _
    · exact Nat.le_refl _

theorem Accepted.step {e : Event N} (ht : t.Accepted) (hstep : step json t e = some t') :
    t'.Accepted := by
  refine ⟨fun task htask => ?_, ?_, ht.programs.step hstep ?_ ?_ fun _ _ _ _ _ _ _ h => h⟩
  · have hold : task ∈ t.received → task.conn.number ≤ t'.shared.accepts task.conn.fd :=
      fun h => (ht.received task h).trans (accepts_step hstep task.conn.fd)
    cases Pool.step_cases hstep with
    | @push new hadmits =>
      rcases List.mem_append.mp htask with h | hnew
      · exact hold h
      · obtain rfl := List.mem_singleton.mp hnew
        have hconn : t.shared.connection task.conn.fd = task.conn :=
          (of_decide_eq_true hadmits).2.1
        exact Nat.le_of_eq (congrArg Connection.number hconn).symm
    | _ => exact hold htask
  · obtain ⟨k, hk⟩ := ht.inOrder
    exact hk.step hstep
  · intro i task _ _
    exact ⟨_, PacketHandler.follows_handle json task.now task.conn.fd task.packet⟩
  · rintro w i task c k - - - ⟨m, hfollows⟩
    exact ⟨_, hfollows.2 _⟩

theorem accepted_init (N : ℕ) (codes : CodeStream) : (init N codes).Accepted := by
  refine ⟨fun task htask => ?_, ⟨0, Pool.inOrder_init _⟩, Pool.each_init _ _⟩
  cases htask

/-- The descriptor of `K` is that of another connection now. -/
def Replaced (K : Connection) (s : Server) : Prop :=
  (s.client? K.fd).isSome = true ∧ s.connection K.fd ≠ K

theorem Replaced.serve {K : Connection} (c : Call) (s : Server) (h : Replaced K s) :
    Replaced K (serve c s).2 := by
  rw [Replaced, isSome_client?_serve, connection_serve]
  exact h

/-- The handler of a request comes to its answer, if the other workers wait. -/
theorem exists_answer {w : Fin N} {i : ℕ} {fd : Fd} {request : Prop} (hrequest : request)
    (p : Handler Unit) (t : ThreadPool N) (hrun : t.worker w = some (i, p)) {m : Handler.Memory}
    (hfollows : p.Follows (Handler.discipline fd request) m) (hm : m.answered = false) :
    ∃ events u packet, (∀ e ∈ events, Pool.Event.OfWorker e) ∧
      Transition.runFrom (step json) t events = some u ∧
      u.pending w = some (i, .send fd packet) := by
  induction p generalizing t m with
  | ret a =>
    -- a handler does not return before it has answered
    rw [hfollows hrequest] at hm
    cases hm
  | call c k ih =>
    by_cases hc : ∃ packet, c = .send fd packet
    · obtain ⟨packet, rfl⟩ := hc
      exact ⟨[], t, packet, by simp, rfl, Pool.pending_eq_some.mpr ⟨k, hrun⟩⟩
    · have hstill : ∀ r, ((Handler.discipline fd request).next m c r).answered = false := by
        intro r
        cases c with
        | send g packet =>
          have hne : g ≠ fd := fun heq => hc ⟨packet, by rw [heq]⟩
          show (m.answered || g == fd) = false
          rw [hm, Bool.false_or, beq_eq_false_iff_ne]
          exact hne
        | _ => exact hm
      have hact : step json t (.act w) = _ := Pool.step_act hrun
      obtain ⟨events, u, packet, hworkers, hrest, hpending⟩ := ih (serve c t.shared).1 { t with
        shared := (serve c t.shared).2
        worker := Function.update t.worker w (some (i, k (serve c t.shared).1)) }
        (Function.update_self _ _ _) (hfollows.2 _) (hstill _)
      refine ⟨.act w :: events, u, packet, fun e he => ?_, ?_, hpending⟩
      · rcases List.mem_cons.mp he with rfl | he
        · trivial
        · exact hworkers e he
      · rw [Transition.runFrom_cons, hact]
        exact hrest

/-- After a reuse the workers can come to a call that acts on the new connection. -/
theorem not_actsOn_of_reuses {e : Event N} (hN : 0 < N) (ht : t.Accepted) (hreuses : t.Reuses e)
    (hstep : step json t e = some t') :
    ∃ events u v i c task, Transition.runFrom (step json) t' events = some u ∧
      u.pending v = some (i, c) ∧ u.received[i]? = some task ∧ ¬ c.ActsOn u.shared task.conn := by
  have ht' : t'.Accepted := ht.step hstep
  match e with
  | .push _ => exact hreuses.elim
  | .pop _ => exact hreuses.elim
  | .act _ => exact hreuses.elim
  | .finish _ => exact hreuses.elim
  | .env (.close _) => exact hreuses.elim
  | .env (.accept fd ip added) =>
  obtain ⟨hpos, rfl, i, task, htask, rfl, hrequest, hopen⟩ := hreuses
  -- the new connection is there, and it is not the one of the request
  obtain ⟨-, heq⟩ := step_accept hpos hstep
  have hreplaced : Replaced task.conn t'.shared := by
    subst heq
    constructor
    · show ((t.shared.clientManager.addClient task.conn.fd ip).getClient task.conn.fd).isSome = true
      rw [ClientManager.getClient_addClient, if_pos rfl]
      rfl
    · intro hsame
      have hnumber := ht.received task (List.mem_of_getElem? htask)
      have hnext : (if task.conn.fd = task.conn.fd then t.shared.accepts task.conn.fd + 1
          else t.shared.accepts task.conn.fd) = task.conn.number :=
        congrArg Connection.number hsame
      rw [if_pos rfl] at hnext
      omega
  have hqueue : t'.queue = t.queue := by rw [heq]
  have hworker : t'.worker = t.worker := by rw [heq]
  have htask' : t'.received[i]? = some task := by rw [heq]; exact htask
  -- it is enough that a worker comes to run the handler, not having answered yet
  have hanswer : ∀ (events : List (Event N)) (u : ThreadPool N) (w : Fin N) (p : Handler Unit)
      (m : Handler.Memory), (∀ e ∈ events, Pool.Event.OfWorker e) →
      Transition.runFrom (step json) t' events = some u → u.worker w = some (i, p) →
      p.Follows (Handler.discipline task.conn.fd (IsRequest task.packet.type)) m →
      m.answered = false →
      ∃ events u v i c task, Transition.runFrom (step json) t' events = some u ∧
        u.pending v = some (i, c) ∧ u.received[i]? = some task ∧
        ¬ c.ActsOn u.shared task.conn := by
    intro events u w p m hworkers hrun hp hfollows hm
    obtain ⟨events', u', packet, hworkers', hrun', hpending⟩ :=
      exists_answer hrequest p u hp hfollows hm
    have hall : ∀ e ∈ events ++ events', Pool.Event.OfWorker e := by
      intro e he
      exact (List.mem_append.mp he).elim (hworkers e) (hworkers' e)
    have hrunAll : Transition.runFrom (step json) t' (events ++ events') = some u' := by
      rw [Transition.runFrom_append, hrun, Option.bind_some, hrun']
    obtain ⟨hstill, hsame⟩ := Pool.runFrom_workers Replaced.serve hall hrunAll hreplaced
    refine ⟨events ++ events', u', w, i, _, task, hrunAll, hpending, hsame ▸ htask',
      fun hacts => ?_⟩
    exact hstill.2 (hacts.answers packet rfl hstill.1)
  rcases hopen with hwaits | ⟨w, c, hpending⟩
  · obtain ⟨k, hk⟩ := ht'.inOrder
    have hbound : ∀ j ∈ t'.queue, j < t'.received.length := by
      intro j hj
      rw [hk.queue, List.mem_range'_1] at hj
      have hle := hk.bound
      omega
    obtain ⟨events, u, started, hworkers, hrun, hstarted, hp⟩ :=
      Pool.exists_started (S := Server.system json) ⟨0, hN⟩ hbound (hqueue ▸ hwaits)
    rw [htask', Option.some_inj] at hstarted
    subst hstarted
    exact hanswer events u ⟨0, hN⟩ _ Handler.Memory.empty hworkers hrun hp
      (PacketHandler.follows_handle json task.now task.conn.fd task.packet) rfl
  · obtain ⟨k, hp⟩ := Pool.pending_eq_some.mp hpending
    obtain ⟨task₀, htask₀, m, hfollows⟩ := ht.programs w i _ hp
    rw [htask, Option.some_inj] at htask₀
    subst htask₀
    exact hanswer [] t' w _ m (by simp) rfl (hworker ▸ hp) hfollows hfollows.1.1

/-- The call that writes to an erased record. -/
theorem not_actsOn_of_writesErased {e : Event N} (ht : t.Accepted) (herased : t.WritesErased e) :
    ∃ w i c task, e = .act w ∧ t.pending w = some (i, c) ∧ t.received[i]? = some task ∧
      ¬ c.ActsOn t.shared task.conn := by
  match e with
  | .push _ => exact herased.elim
  | .pop _ => exact herased.elim
  | .finish _ => exact herased.elim
  | .env _ => exact herased.elim
  | .act w =>
  obtain ⟨i, conn, code, hpending, hclosed⟩ := herased
  obtain ⟨k, hworker⟩ := Pool.pending_eq_some.mp hpending
  obtain ⟨task, htask, -⟩ := ht.programs w i _ hworker
  refine ⟨w, i, _, task, rfl, hpending, htask, fun hacts => ?_⟩
  obtain ⟨rfl, hopen⟩ := hacts.writes conn code rfl
  exact hclosed hopen

theorem accepted_of_visits {u : ThreadPool N}
    (hu : Transition.Visits (step json) (init N codes) events u) : u.Accepted := by
  obtain ⟨pre, -, hrun⟩ := hu
  exact Transition.runFrom_always (J := Accepted) (fun _ _ _ hu hstep => hu.step hstep) hrun
    (accepted_init N codes)

/-- **Packets act on their own connection exactly as long as no descriptor is reused too
early and no erased record is written to.**  In a run in which no descriptor is accepted
again while a request received on it is queued or being handled, and no worker writes to the
record of a connection closed since its handler looked it up, every call made for a packet
acts on the connection the packet was received on.  Where a step of a run is such a reuse,
the run can be continued from it to a call that does not; and a step that writes to an erased
record is itself such a call. -/
theorem actsOn_own (json : Nlohmann) (N : ℕ) (codes : CodeStream) (events : List (Event N))
    (final : ThreadPool N)
    (hrun : Transition.runFrom (step json) (init N codes) events = some final) :
    ((∀ t e, Transition.Takes (step json) (init N codes) events t e →
        ¬ t.Reuses e ∧ ¬ t.WritesErased e) →
      ∀ t w, Transition.Takes (step json) (init N codes) events t (.act w) →
        ∀ i c task, t.pending w = some (i, c) → t.received[i]? = some task →
          c.ActsOn t.shared task.conn) ∧
    (∀ e next, 0 < N → final.Reuses e → step json final e = some next →
      ∃ events' t w i c task,
        Transition.runFrom (step json) (init N codes) (events ++ e :: events') = some t ∧
        t.pending w = some (i, c) ∧ t.received[i]? = some task ∧
        ¬ c.ActsOn t.shared task.conn) ∧
    ∀ t e, Transition.Takes (step json) (init N codes) events t e → t.WritesErased e →
      ∃ w i c task, e = .act w ∧ t.pending w = some (i, c) ∧ t.received[i]? = some task ∧
        ¬ c.ActsOn t.shared task.conn := by
  refine ⟨fun hgood t w htakes i c task hpending htask => ?_, fun e next hN hreuses hstep => ?_,
    fun t e htakes herased => ?_⟩
  · obtain ⟨k, hworker⟩ := Pool.pending_eq_some.mp hpending
    obtain ⟨task', htask', hown⟩ := (visits_current hrun
      (fun u e hu => (hgood u e hu).1) htakes.visits).programs w i _ hworker
    rw [htask, Option.some_inj] at htask'
    subst htask'
    refine hown.actsOn fun conn code hc => ?_
    subst hc
    by_contra hclosed
    exact (hgood t _ htakes).2 ⟨i, conn, code, hpending, hclosed⟩
  · obtain ⟨events', t, w, i, c, task, hrun', hpending, htask, hnot⟩ :=
      not_actsOn_of_reuses hN (accepted_of_visits (Transition.Visits.last hrun)) hreuses hstep
    refine ⟨events', t, w, i, c, task, ?_, hpending, htask, hnot⟩
    rw [Transition.runFrom_append, hrun, Option.bind_some, Transition.runFrom_cons, hstep,
      Option.bind_some, hrun']
  · exact not_actsOn_of_writesErased (accepted_of_visits htakes.visits) herased

/-- Before the first packet no accepted connection is a reuse. -/
theorem not_reuses {e : Event N}
    (h : t.received = [] ∨ ∀ fd ip added, e ≠ .env (.accept fd ip added)) : ¬ t.Reuses e := by
  intro hreuses
  match e with
  | .env (.accept fd ip added) =>
    obtain ⟨-, -, i, task, htask, -⟩ := hreuses
    rcases h with hnone | hother
    · rw [hnone] at htask
      cases htask
    · exact hother fd ip added rfl
  | .env (.close fd) => exact hreuses
  | .push _ => exact hreuses
  | .pop _ => exact hreuses
  | .act _ => exact hreuses
  | .finish _ => exact hreuses

/-- A request for a room of two, received on the first connection with descriptor `fd`. -/
def lobbyTask (fd : Fd) : Task :=
  ⟨⟨fd, 1⟩, Packet.ofText PacketType.createRoom
    (str "\x7b\"roomName\":\"lobby\",\"maxUsers\":2\x7d"), noon⟩

/-- Client 5 asks for a room; client 6 disconnects while a worker creates the room and enters
client 5 in it. -/
def lobbyEntered : List (Event 1) :=
  [.env (.accept 5 (str "10.0.0.1") true), .env (.accept 6 (str "10.0.0.2") true),
    .push (lobbyTask 5), .pop 0, .act 0, .act 0, .env (.close 6), .act 0]

/-- No connection is accepted once a packet has been received, and what is written to is
there. -/
def keepsRecords (t : ThreadPool N) : Event N → Bool
  | .env (.accept _ _ _) => t.received.isEmpty
  | .act w =>
    match t.pending w with
    | some (_, .setRoomCode conn _) => decide (t.shared.Open conn)
    | _ => true
  | _ => true

theorem good_of_keepsRecords {e : Event N} (h : keepsRecords t e = true) :
    ¬ t.Reuses e ∧ ¬ t.WritesErased e := by
  constructor
  · refine not_reuses ?_
    by_cases hreceived : t.received = []
    · exact Or.inl hreceived
    · refine Or.inr fun fd ip added he => ?_
      subst he
      exact hreceived (List.isEmpty_iff.mp h)
  · intro herased
    match e with
    | .push _ => exact herased
    | .pop _ => exact herased
    | .finish _ => exact herased
    | .env _ => exact herased
    | .act w =>
      obtain ⟨i, conn, code, hpending, hclosed⟩ := herased
      rw [keepsRecords, hpending] at h
      exact hclosed (of_decide_eq_true h)

theorem actsOn_own_lobbyEntered : ∃ t,
    Transition.Takes (step Nlohmann.integral) (init 1 CodeStream.inOrder)
      (lobbyEntered ++ [.act 0]) t (.act 0) ∧
    t.pending 0 = some (0, .setRoomCode ⟨5, 1⟩ (str "aaaaaaaa")) ∧
    (Call.setRoomCode ⟨5, 1⟩ (str "aaaaaaaa")).ActsOn t.shared ⟨5, 1⟩ := by
  have hrun : (Transition.runFrom (step Nlohmann.integral) (init 1 CodeStream.inOrder)
      lobbyEntered).any (fun t => decide (t.pending 0 =
        some (0, .setRoomCode ⟨5, 1⟩ (str "aaaaaaaa")) ∧ t.received = [lobbyTask 5])) = true := by
    decide +kernel
  have hfinal : (Transition.runFrom (step Nlohmann.integral) (init 1 CodeStream.inOrder)
      (lobbyEntered ++ [.act 0])).isSome = true := by
    decide +kernel
  have hkeeps : Transition.checkSteps (step Nlohmann.integral) keepsRecords
      (init 1 CodeStream.inOrder) (lobbyEntered ++ [.act 0]) = true := by
    decide +kernel
  obtain ⟨t, hrun, ht⟩ := (Option.any_eq_true _ _).mp hrun
  obtain ⟨hpending, hreceived⟩ := of_decide_eq_true ht
  have htakes : Transition.Takes (step Nlohmann.integral) (init 1 CodeStream.inOrder)
      (lobbyEntered ++ [.act 0]) t (.act 0) := ⟨lobbyEntered, List.prefix_refl _, hrun⟩
  have htask : t.received[0]? = some (lobbyTask 5) := by rw [hreceived]; rfl
  exact ⟨t, htakes, hpending, (actsOn_own Nlohmann.integral 1 CodeStream.inOrder _ _
    (Option.some_get hfinal).symm).1 (fun u e hu => good_of_keepsRecords (hu.of_checkSteps hkeeps))
      t 0 htakes 0 _ (lobbyTask 5) hpending htask⟩

/-- Client 5 asks for the nickname `ann` and disconnects; its descriptor is given to another
client before a worker handles the request. -/
def reusedInQueue : List (Event 1) :=
  [.env (.accept 5 (str "10.0.0.1") true), .push (annTask 5), .env (.close 5),
    .env (.accept 5 (str "10.0.0.2") true), .pop 0, .act 0]

/-- The answer to a request for a nickname that is granted. -/
def nicknameGranted : Packet := Packet.ofText PacketType.nicknameResponseOk []

/-- The new client is called `ann`, and gets the answer. -/
theorem not_actsOn_own : ∃ t t',
    Transition.Takes (step Nlohmann.integral) (init 1 CodeStream.inOrder)
      (reusedInQueue ++ [.act 0]) t (.act 0) ∧
    step Nlohmann.integral t (.act 0) = some t' ∧ t.received = [annTask 5] ∧
    t.shared.connection 5 = ⟨5, 2⟩ ∧ t.pending 0 = some (0, .setNickname 5 (str "ann")) ∧
    ¬ (Call.setNickname 5 (str "ann")).ActsOn t.shared (annTask 5).conn ∧
    t'.pending 0 = some (0, .send 5 nicknameGranted) ∧
    ¬ (Call.send 5 nicknameGranted).ActsOn t'.shared (annTask 5).conn := by
  have hrun : (Transition.runFrom (step Nlohmann.integral) (init 1 CodeStream.inOrder)
      reusedInQueue).any (fun t => decide (t.received = [annTask 5] ∧
        t.shared.connection 5 = ⟨5, 2⟩ ∧ t.pending 0 = some (0, .setNickname 5 (str "ann")) ∧
        (t.shared.client? 5).map ClientInfo.nickname = some [] ∧
        ((serve (.setNickname 5 (str "ann")) t.shared).2.client? 5).map ClientInfo.nickname =
          some (str "ann")) && (step Nlohmann.integral t (.act 0)).any fun t' => decide (
        t'.shared.connection 5 = ⟨5, 2⟩ ∧ t'.pending 0 = some (0, .send 5 nicknameGranted) ∧
        (t'.shared.client? 5).isSome = true)) = true := by
    decide +kernel
  obtain ⟨t, hrun, ht⟩ := (Option.any_eq_true _ _).mp hrun
  obtain ⟨ht, ht'⟩ := Bool.and_eq_true_iff.mp ht
  obtain ⟨t', hstep, ht'⟩ := (Option.any_eq_true _ _).mp ht'
  obtain ⟨hreceived, hconn, hpending, hbefore, hafter⟩ := of_decide_eq_true ht
  obtain ⟨hconn', hpending', hconnected⟩ := of_decide_eq_true ht'
  refine ⟨t, t', ⟨reusedInQueue, List.prefix_refl _, hrun⟩, hstep, hreceived, hconn, hpending,
    fun hacts => ?_, hpending', fun hacts => ?_⟩
  · have hmodified : (serve (.setNickname 5 (str "ann")) t.shared).2.client? 5 ≠
        t.shared.client? 5 := by
      intro heq
      rw [heq, hbefore] at hafter
      exact absurd hafter (by decide)
    have hown := hacts.modifies 5 hmodified
    rw [hconn] at hown
    exact absurd hown (by decide)
  · have hown := hacts.answers nicknameGranted rfl hconnected
    exact absurd (hconn'.symm.trans hown) (by decide)

end ThreadPool

end SocketChat
