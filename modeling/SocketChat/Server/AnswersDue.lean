/-
Every request is answered once, whatever the interleaving.

On each of its paths the handler of a request sends one answer of the request's own kind, to
the descriptor it was told, and that is the last thing it does (`paysLast_handle`).  Counted
over a run of the thread pool, the answers sent to a descriptor and the requests received on
it that are not answered yet therefore add up to the requests received on it (`answers_balance`).

When nothing more is received, every schedule of the workers comes to a point where each
request has been answered (`answers_inevitable`), provided that each `PacketSender::send`
returns: it tries again for as long as the peer's window is full, so a client that stays
connected and does not read can hold up a worker, and all of them, for ever.
-/
import SocketChat.Lib.Retries
import SocketChat.Server.Speaking
import SocketChat.Server.ThreadPool
import Mathlib.Algebra.BigOperators.Fin

namespace SocketChat

open Handler

/-- How many answers to requests of a type a call sends to a descriptor. -/
def answersPaid (fd : Fd) (type : PacketType) : Call → ℕ
  | .send g packet => if g = fd ∧ requestType packet.type = some type then 1 else 0
  | _ => 0

/-- How many such answers are owed for a packet received on a descriptor. -/
def answersOwed (fd : Fd) (type : PacketType) (g : Fd) (received : PacketType) : ℕ :=
  if g = fd ∧ received = type then 1 else 0

variable {json : Nlohmann} {now : LocalTime} {fd g : Fd} {type request : PacketType}
  {p packet : Packet}

/-! ### The handlers -/

theorem answersPaid_answer (h : requestType packet.type = some request) :
    answersPaid fd type (.send g packet) = answersOwed fd type g request := by
  rw [answersPaid, answersOwed, h]
  simp only [Option.some_inj]

theorem answersPaid_notice (h : requestType packet.type = none) :
    answersPaid fd type (.send g packet) = 0 := by
  rw [answersPaid, h]
  simp

/-- The answer to a request. -/
theorem paysLast_sendPacket (h : requestType packet.type = some request) :
    (sendPacket g packet).PaysLast (answersPaid fd type) (answersOwed fd type g request) :=
  Prog.PaysLast.last (f := id) (answersPaid_answer h)

theorem paysNothing_sendEach (h : requestType packet.type = none) (fds : List Fd) :
    (sendEach packet g fds).Only fun c => answersPaid fd type c = 0 := by
  induction fds with
  | nil => trivial
  | cons fd' fds ih =>
    rw [sendEach]
    by_cases hfd : fd' ≠ g
    · rw [if_pos hfd]
      exact ⟨answersPaid_notice h, fun _ => ih⟩
    · rw [if_neg hfd]
      exact ih

/-- A broadcast answers no request. -/
theorem paysNothing_broadcastPacketForRoom (h : requestType packet.type = none) (code : Bytes) :
    (broadcastPacketForRoom packet code g).Only fun c => answersPaid fd type c = 0 := by
  refine ⟨rfl, fun found => ?_⟩
  cases found with
  | none => trivial
  | some fds => exact paysNothing_sendEach h fds

/-- A handler pays what it owes with its last call. -/
theorem Speaks.paysLast {told : Option PacketType} {p : Handler Unit} (h : Speaks g told p) :
    p.PaysLast (answersPaid fd type) (told.elim 0 (answersOwed fd type g)) := by
  induction h with
  | silent a => rfl
  | answer hanswer => exact paysLast_sendPacket hanswer
  | @call told c k hc hk ih =>
    refine Prog.PaysLast.call ?_ ih
    cases c with
    | send g' packet => exact absurd rfl (hc g' packet)
    | _ => rfl
  | @broadcast told packet code p hnotice hp ih =>
    exact Prog.PaysLast.bind (paysNothing_broadcastPacketForRoom hnotice code) fun _ => ih

/-- **What the handler of a packet owes**: an answer to a request, of its kind and to its
descriptor, and it sends it last. -/
theorem PacketHandler.paysLast_handle (htype : IsRequest type) :
    (PacketHandler.handle json now g p).PaysLast (answersPaid fd type)
      (answersOwed fd type g p.type) := by
  obtain ⟨told, hspeaks, ⟨-, rfl⟩ | ⟨hnot, rfl⟩⟩ := PacketHandler.speaks_handle json now g p
  · exact hspeaks.paysLast
  · have hnothing : answersOwed fd type g p.type = 0 := by
      rw [answersOwed, if_neg]
      rintro ⟨-, rfl⟩
      exact hnot htype
    rw [hnothing]
    exact hspeaks.paysLast

/-! ### The pool -/

namespace ThreadPool

variable {N : ℕ} {t t' : ThreadPool N} {codes : CodeStream} {events : List (Event N)}

/-- The answers to requests of a type that have been sent to a descriptor. -/
def answersSent (t : ThreadPool N) (fd : Fd) (type : PacketType) : ℕ :=
  t.shared.sent.countP fun x => decide (x.1 = fd ∧ requestType x.2.type = some type)

/-- The requests of a type that have been received on a descriptor. -/
def requestsReceived (t : ThreadPool N) (fd : Fd) (type : PacketType) : ℕ :=
  t.received.countP fun task => decide (task.conn.fd = fd ∧ task.packet.type = type)

/-- The task at a position is such a request. -/
def requestAt (t : ThreadPool N) (fd : Fd) (type : PacketType) (i : ℕ) : Bool :=
  (t.received[i]?).any fun task => decide (task.conn.fd = fd ∧ task.packet.type = type)

/-- Those that wait in the queue. -/
def requestsWaiting (t : ThreadPool N) (fd : Fd) (type : PacketType) : ℕ :=
  t.queue.countP (t.requestAt fd type)

/-- Those in the hands of a worker that has not sent the answer yet. -/
def requestsInHand (t : ThreadPool N) (fd : Fd) (type : PacketType) : ℕ :=
  (List.finRange N).countP fun w => (t.pending w).any fun run => t.requestAt fd type run.1

/-- What the tasks owe. -/
def owed (fd : Fd) (type : PacketType) (task : Task) : ℕ :=
  answersOwed fd type task.conn.fd task.packet.type

/-- The answers in what has been sent. -/
def account (fd : Fd) (type : PacketType) (s : Server) : ℕ :=
  s.sent.countP fun x => decide (x.1 = fd ∧ requestType x.2.type = some type)

theorem sent_env {s s' : Server} {e : IoEvent} (h : (Server.system json).env s e = some s') :
    s'.sent = s.sent := by
  rcases env_cases h with ⟨fd, ip, -, -, -, rfl⟩ | ⟨fd, -, rfl⟩ | ⟨fd, ip, added, -, -, rfl⟩
  · rfl
  · rfl
  · rfl

theorem sent_serve {c : Call} (h : ∀ fd packet, c ≠ .send fd packet) (s : Server) :
    (serve c s).2.sent = s.sent := by
  cases c with
  | send fd packet => exact absurd rfl (h fd packet)
  | setRoomCode conn code => exact sent_setRoomCode conn code s
  | _ => rfl

theorem dues (json : Nlohmann) (fd : Fd) {type : PacketType} (htype : IsRequest type) :
    Pool.Dues (Server.system json) (answersPaid fd type) (owed fd type) (account fd type) where
  serve c s := by
    show account fd type (serve c s).2 = _
    cases c with
    | send g packet =>
      show (s.sent ++ [(g, packet)]).countP _ = _
      rw [List.countP_append, List.countP_singleton]
      simp only [decide_eq_true_eq]
      rfl
    | _ =>
      rw [account, sent_serve (by rintro _ _ ⟨⟩)]
      rfl
  env e s s' h := congrArg (List.countP _) (sent_env h)
  program task := PacketHandler.paysLast_handle htype

theorem sum_ite {α : Type*} (l : List α) (P : α → Bool) :
    (l.map fun x => if P x then 1 else 0).sum = l.countP P := by
  induction l with
  | nil => rfl
  | cons x l ih => rw [List.map_cons, List.sum_cons, List.countP_cons, ih, add_comm]

theorem owedAt_eq (fd : Fd) (type : PacketType) (i : ℕ) :
    Pool.owedAt (owed fd type) t.received i = if t.requestAt fd type i then 1 else 0 := by
  rw [Pool.owedAt, requestAt]
  cases t.received[i]? with
  | none => rfl
  | some task => simp [owed, answersOwed]

theorem waiting_eq (fd : Fd) (type : PacketType) :
    t.waiting (owed fd type) = t.requestsWaiting fd type := by
  rw [Pool.waiting, requestsWaiting, ← sum_ite]
  exact congrArg List.sum (List.map_congr_left fun i _ => owedAt_eq fd type i)

theorem running_eq (fd : Fd) (type : PacketType) :
    t.running (owed fd type) = t.requestsInHand fd type := by
  have hdue : ∀ w, Pool.due (owed fd type) t.received (t.worker w) =
      if (t.pending w).any fun run => t.requestAt fd type run.1 then 1 else 0 := by
    intro w
    rw [Pool.pending]
    cases t.worker w with
    | none => rfl
    | some run =>
      obtain ⟨i, p⟩ := run
      cases p with
      | ret a => rfl
      | call c k => exact owedAt_eq fd type i
  rw [Pool.running, requestsInHand, ← sum_ite, ← List.ofFn_eq_map, List.sum_ofFn]
  exact Finset.sum_congr rfl fun w _ => hdue w

theorem received_eq (fd : Fd) (type : PacketType) :
    (t.received.map (owed fd type)).sum = t.requestsReceived fd type := by
  rw [requestsReceived, ← sum_ite]
  refine congrArg List.sum (List.map_congr_left fun task _ => ?_)
  simp [owed, answersOwed]

/-- In a state in which the books balance. -/
theorem sent_of_balanced {fd : Fd} {type : PacketType}
    (h : t.Balanced (answersPaid fd type) (owed fd type) (account fd type) 0) :
    t.answersSent fd type + t.requestsInHand fd type + t.requestsWaiting fd type =
      t.requestsReceived fd type := by
  have htotal := h.total
  rwa [running_eq, waiting_eq, received_eq, zero_add] at htotal

/-- **Every request is answered exactly once.**  In every state of every run, with any number
of workers and whatever the interleaving: the answers that have been sent to a descriptor for
requests of a type, those in the hands of workers and those that wait are together as many as
the requests of the type received on the descriptor.  So no answer is lost, none is sent
twice, and none is sent that nobody has asked for. -/
theorem answers_balance (hrun : Transition.runFrom (step json) (init N codes) events = some t)
    (fd : Fd) (htype : IsRequest type) :
    t.answersSent fd type + t.requestsInHand fd type + t.requestsWaiting fd type =
      t.requestsReceived fd type :=
  sent_of_balanced ((dues json fd htype).balanced hrun)

theorem isRequest_exitRoom : IsRequest PacketType.exitRoom := Or.inr (Or.inr (Or.inr rfl))

theorem requestsReceived_overtaken : ∃ t,
    Transition.runFrom (step Nlohmann.integral) (init 2 CodeStream.inOrder) overtaken = some t ∧
    t.requestsReceived 5 PacketType.exitRoom = 2 := by
  have hrun : (Transition.runFrom (step Nlohmann.integral) (init 2 CodeStream.inOrder)
      overtaken).any (fun t => decide (t.requestsReceived 5 PacketType.exitRoom = 2)) = true := by
    decide +kernel
  obtain ⟨t, hrun, ht⟩ := (Option.any_eq_true _ _).mp hrun
  exact ⟨t, hrun, of_decide_eq_true ht⟩

theorem answers_balance_overtaken : ∃ t,
    Transition.runFrom (step Nlohmann.integral) (init 2 CodeStream.inOrder) overtaken = some t ∧
    t.answersSent 5 PacketType.exitRoom + t.requestsInHand 5 PacketType.exitRoom +
      t.requestsWaiting 5 PacketType.exitRoom = 2 := by
  obtain ⟨t, hrun, hreceived⟩ := requestsReceived_overtaken
  exact ⟨t, hrun, (answers_balance hrun 5 isRequest_exitRoom).trans hreceived⟩

/-- Nobody has a request in hand where all is quiet. -/
theorem sent_of_quiet {fd : Fd} (hquiet : t.Quiet)
    (h : t.Balanced (answersPaid fd type) (owed fd type) (account fd type) 0) :
    t.answersSent fd type = t.requestsReceived fd type := by
  have hinHand : t.requestsInHand fd type = 0 := by
    refine List.countP_eq_zero.mpr fun w _ => ?_
    rw [Pool.pending, hquiet.2 w]
    simp
  have hwaiting : t.requestsWaiting fd type = 0 := by
    rw [requestsWaiting, hquiet.1]
    rfl
  have hsent := sent_of_balanced h
  omega

/-- Every request comes to be answered, where a `send` is one step. -/
theorem inevitable_answers (hN : 0 < N)
    (hrun : Transition.runFrom (step json) (init N codes) events = some t) :
    Transition.Inevitable (step json) Pool.Event.OfWorker (fun t' =>
      t'.received = t.received ∧ (∀ i < t.received.length, i ∈ t'.done) ∧
      ∀ fd type, IsRequest type → t'.answersSent fd type = t.requestsReceived fd type) t := by
  obtain ⟨k, hk⟩ := Pool.exists_inOrder hrun
  have hend := Pool.quiescent (S := Server.system json) hk ⟨0, hN⟩
    (J := fun t' => ∀ fd type, IsRequest type →
      t'.Balanced (answersPaid fd type) (owed fd type) (account fd type) 0)
    (fun t e t' h hstep fd type htype => (h fd type htype).step (dues json fd htype) hstep)
    fun fd type htype => (dues json fd htype).balanced hrun
  refine hend.mono ?_
  rintro t' ⟨hquiet, hreceived, hdone, hbalanced⟩
  refine ⟨hreceived, hdone, fun fd type htype => ?_⟩
  rw [sent_of_quiet hquiet (hbalanced fd type htype), requestsReceived, hreceived]
  rfl

/-! ### Sends that are tried again -/

/-- The worker that is in `PacketSender::send`, where an event is the end of that. -/
def sends (t : ThreadPool N) : Event N → Option (Fin N)
  | .act w =>
    match t.pending w with
    | some (_, .send _ _) => some w
    | _ => none
  | _ => none

/-- The pool where `::send` says `EAGAIN` to a worker any finite number of times before a
`PacketSender::send` returns. -/
def stepRetrying (json : Nlohmann) :
    Transition.Retrying (ThreadPool N) (Fin N) → Transition.Retrying.Event (Event N) →
      Option (Transition.Retrying (ThreadPool N) (Fin N)) :=
  Transition.Retrying.step (step json) sends

/-- **Every request comes to be answered, if every send returns.**  From every state the server
can reach, once nothing more is received, no connection is accepted and none closed, whichever
worker goes on at each moment and however often each `send` is tried again before it returns:
after finitely many steps every packet has been handled to its end, and as many answers have
been sent for requests of each type to each descriptor as requests of that type were received
on it. -/
theorem answers_inevitable (hN : 0 < N) {again : Fin N → ℕ}
    {events : List (Transition.Retrying.Event (Event N))}
    {r : Transition.Retrying (ThreadPool N) (Fin N)}
    (hrun : Transition.runFrom (stepRetrying json) ⟨init N codes, again⟩ events = some r) :
    Transition.Inevitable (stepRetrying json) (fun e => Pool.Event.OfWorker e.tried) (fun r' =>
      r'.state.received = r.state.received ∧
      (∀ i < r.state.received.length, i ∈ r'.state.done) ∧
      ∀ fd type, IsRequest type →
        r'.state.answersSent fd type = r.state.requestsReceived fd type) r := by
  obtain ⟨events', hrun'⟩ := Transition.Retrying.exists_runFrom hrun
  exact (inevitable_answers hN hrun').retrying r.again

/-- Both answers to client 5 come to be sent, after the second worker has been told `EAGAIN`. -/
theorem answers_inevitable_overtaken : ∃ r,
    Transition.runFrom (stepRetrying Nlohmann.integral) ⟨init 2 CodeStream.inOrder, fun _ => 3⟩
      (overtaken.map (.done · 0) ++ [.retry (.act 1)]) = some r ∧
    Transition.Inevitable (stepRetrying Nlohmann.integral)
      (fun e => Pool.Event.OfWorker e.tried)
      (fun r' => r'.state.answersSent 5 PacketType.exitRoom = 2) r := by
  have hrun : (Transition.runFrom (stepRetrying Nlohmann.integral)
      ⟨init 2 CodeStream.inOrder, fun _ => 3⟩
      (overtaken.map (.done · 0) ++ [.retry (.act 1)])).any (fun r =>
        decide (r.again 1 = 2 ∧ r.state.requestsReceived 5 PacketType.exitRoom = 2)) = true := by
    decide +kernel
  obtain ⟨r, hrun, hr⟩ := (Option.any_eq_true _ _).mp hrun
  refine ⟨r, hrun, (answers_inevitable (by decide) hrun).mono ?_⟩
  rintro r' ⟨-, -, hsent⟩
  exact (hsent 5 _ isRequest_exitRoom).trans (of_decide_eq_true hr).2

end ThreadPool

end SocketChat
