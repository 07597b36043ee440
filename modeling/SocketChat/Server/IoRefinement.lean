/-
The server with its I/O thread does what the server with packets does.

`ThreadPool` is the server in which the packets of connected clients arrive by themselves.
The server that receives and parses bytes refines it: each of its steps is answered by one
of `ThreadPool` or by none, and the states are the same but for the receive buffers, which
no handler looks at.  What holds in every state `ThreadPool` can reach, and does not
mention the buffers, so holds in every state of the server that reads its sockets.
-/
import SocketChat.Server.IoThread

namespace SocketChat

namespace IoThread

open PacketReceiver

variable {N : ℕ} {json : Nlohmann} {o : ByteOrder} {listener : Fd} {base : Finset Fd}
  {codes : CodeStream} {s s' : IoThread N} {t : ThreadPool N}

/-- The same tables, packets sent, queue and workers, but for the receive buffers. -/
abbrev Refines (s : IoThread N) (t : ThreadPool N) : Prop :=
  s.pool.Alike Server.SameButBuffers Call.SameReply t

/-- The tables after an event of the I/O thread, where they were the same before. -/
theorem sameButBuffers_close {x y : Server} (h : x.SameButBuffers y) (fd : Fd) :
    (ConnectionManager.closeConnection x fd).SameButBuffers
      (ConnectionManager.closeConnection y fd) := by
  have hget := fun (m : ClientManager) (g : Fd) => m.getClient_removeClient fd g
  refine ⟨fun g => ?_, ?_, h.roomManager, h.accepts, h.sent⟩
  · show Option.Rel _ ((x.clientManager.removeClient fd).getClient g)
      ((y.clientManager.removeClient fd).getClient g)
    rw [hget, hget]
    by_cases hg : g = fd
    · rw [if_pos hg, if_pos hg]
      exact Option.Rel.none
    · rw [if_neg hg, if_neg hg]
      exact h.clients g
  · show (x.clientManager.removeClient fd).nicknames = (y.clientManager.removeClient fd).nicknames
    rcases h.client?_cases fd with ⟨hx, hy⟩ | ⟨info, buffer, hx, hy⟩
    · rw [ClientManager.removeClient, ClientManager.removeClient,
        show x.clientManager.getClient fd = none from hx,
        show y.clientManager.getClient fd = none from hy]
      exact h.nicknames
    · rw [ClientManager.nicknames_removeClient hx, ClientManager.nicknames_removeClient hy,
        h.nicknames]

theorem sameButBuffers_accept {x y : Server} (h : x.SameButBuffers y) (fd : Fd) (ip : Bytes)
    (added : Bool) :
    (ConnectionManager.acceptNewConnection x fd ip added).SameButBuffers
      (ConnectionManager.acceptNewConnection y fd ip added) := by
  rw [ConnectionManager.acceptNewConnection, ConnectionManager.acceptNewConnection]
  by_cases hadd : 0 < fd ∧ added = true
  · rw [if_pos hadd, if_pos hadd]
    refine ⟨fun g => ?_, h.nicknames, h.roomManager, ?_, h.sent⟩
    · show Option.Rel _ ((x.clientManager.addClient fd ip).getClient g)
        ((y.clientManager.addClient fd ip).getClient g)
      rw [ClientManager.getClient_addClient, ClientManager.getClient_addClient]
      by_cases hg : g = fd
      · rw [if_pos hg, if_pos hg]
        exact Option.Rel.some ⟨[], rfl⟩
      · rw [if_neg hg, if_neg hg]
        exact h.clients g
    · simp only [h.accepts]
  · rw [if_neg hadd, if_neg hadd]
    exact h

/-- A write to the buffer of one client on the left. -/
theorem sameButBuffers_setBuffer {x y : Server} (h : x.SameButBuffers y) {fd : Fd}
    {client : ClientInfo} (hclient : x.client? fd = some client) (buffer : Bytes) :
    Server.SameButBuffers { x with
      clientManager := x.clientManager.setClient fd { client with recvBuffer := buffer } } y := by
  refine ⟨fun g => ?_, h.nicknames, h.roomManager, h.accepts, h.sent⟩
  show Option.Rel _ ((x.clientManager.setClient fd _).getClient g) (y.client? g)
  rw [ClientManager.getClient_setClient]
  by_cases hg : g = fd
  · rw [if_pos hg, hg]
    rcases h.client?_cases fd with ⟨hx, -⟩ | ⟨info, buffer', hx, hy⟩
    · rw [hclient] at hx
      cases hx
    · obtain rfl : client = info := Option.some.inj (hclient.symm.trans hx)
      rw [hy]
      exact Option.Rel.some ⟨buffer', rfl⟩
  · rw [if_neg hg]
    exact h.clients g

/-- What is parsed from a frame that fits is received, as `ThreadPool` has it. -/
theorem received_of_frame (h : s.Refines t) {fd : Fd} {client : ClientInfo} {f : Frame}
    (now : LocalTime) (hclient : s.client? fd = some client)
    (hfits : f.payload.length ≤ maxPayloadSize) :
    Task.Received t.shared ⟨s.pool.shared.connection fd, (parsed f).packet, now⟩ := by
  have hsome : (s.pool.shared.client? fd).isSome = true := by
    rw [show s.pool.shared.client? fd = some client from hclient]
    rfl
  refine ⟨?_, (h.shared.connection fd).symm, Nat.le_of_eq f.toNat_size, ?_⟩
  · show (t.shared.client? fd).isSome = true
    rw [← h.shared.isSome_client? fd]
    exact hsome
  · show f.size.toNat ≤ maxPayloadSize
    rw [f.toNat_size]
    exact hfits

/-- **Every step is answered**, by a step of `ThreadPool` or by none. -/
theorem refines_step {e : Event N} (hdescriptors : s.Descriptors listener base)
    (h : s.Refines t) (hstep : step json o listener s e = some s') :
    ∃ events t', Transition.runFrom (ThreadPool.step json) t events = some t' ∧
      s'.Refines t' := by
  have hnothing : ∀ {u : IoThread N}, u.pool = s.pool →
      ∃ events t', Transition.runFrom (ThreadPool.step json) t events = some t' ∧
        u.Refines t' := by
    intro u hpool
    exact ⟨[], t, rfl, by rw [Refines, hpool]; exact h⟩
  have hio : ∀ {x : Server} (io : IoEvent), io.toEvent.Possible t.shared →
      x.SameButBuffers (io.toEvent.perform json t.shared) →
      ∃ events t', Transition.runFrom (ThreadPool.step json) t events = some t' ∧
        Pool.Alike Server.SameButBuffers Call.SameReply { s.pool with shared := x } t' := by
    intro x io hpossible hx
    refine ⟨[.env io], { t with shared := io.toEvent.perform json t.shared },
      Transition.runFrom_single ?_, hx, h.received, h.queue, h.done, h.worker⟩
    show Option.map _ (if io.toEvent.Possible t.shared then _ else _) = _
    rw [if_pos hpossible]
    rfl
  cases step_cases hstep with
  | wait => exact hnothing rfl
  | @accept events accepted added hcontrol hfresh =>
    cases accepted with
    | none => exact hnothing rfl
    | some found =>
      obtain ⟨fd, ip⟩ := found
      have hnone : s.client? fd = none := by
        rw [← Option.not_isSome_iff_eq_none]
        intro hsome
        exact (hfresh (fd, ip) rfl).2 (hdescriptors.opened fd (Or.inr (Or.inr hsome)))
      have hpossible : t.shared.client? fd = none := by
        rcases h.shared.client?_cases fd with ⟨-, ht⟩ | ⟨info, buffer, hs, -⟩
        · exact ht
        · rw [show s.pool.shared.client? fd = none from hnone] at hs
          cases hs
      exact hio (.accept fd ip added) hpossible (sameButBuffers_accept h.shared fd ip added)
  | recv hcontrol hfd hclient =>
    exact ⟨[], t, rfl, sameButBuffers_setBuffer h.shared hclient _, h.received, h.queue, h.done,
      h.worker⟩
  | @close fd events received hcontrol hfd =>
    have hpossible : (t.shared.client? fd).isSome = true := by
      rw [← h.shared.isSome_client? fd]
      exact hdescriptors.connected hcontrol hfd
    exact hio (.close fd) hpossible (sameButBuffers_close h.shared fd)
  | leave => exact hnothing rfl
  | @parse fd events now client f rest hcontrol hclient hbuffer hfits =>
    have hadmits := received_of_frame h now hclient hfits
    refine ⟨[.push ⟨s.pool.shared.connection fd, (parsed f).packet, now⟩], _,
      Transition.runFrom_single (if_pos (decide_eq_true hadmits)),
      sameButBuffers_setBuffer h.shared hclient rest, ?_, ?_, h.done, h.worker⟩
    · show s.pool.received ++ _ = t.received ++ _
      rw [h.received]
    · show s.pool.queue ++ _ = t.queue ++ _
      rw [h.queue, h.received]
  | worker he hpool =>
    obtain ⟨t', ht', halike⟩ := Pool.Alike.step (S := Server.system json) serve_sameButBuffers
      (fun task => PacketHandler.alike_handle json task.now task.conn.fd task.packet) h he hpool
    exact ⟨[_], t', Transition.runFrom_single ht', halike⟩

/-- **The server that reads bytes refines the server that is given packets.**  Every state
it can reach is, but for the receive buffers, one that `ThreadPool` can reach: with the same
clients, nicknames and rooms, the same packets sent, the same tasks received, waiting and
done, and every worker at the same point of the same handler. -/
theorem refines_threadPool {events : List (Event N)}
    (hrun : Transition.runFrom (step json o listener) (init N codes listener base) events =
      some s) :
    ∃ events' t, Transition.runFrom (ThreadPool.step json) (ThreadPool.init N codes) events' =
      some t ∧ s.Refines t := by
  obtain ⟨events', t, hrun', -, h⟩ := Transition.runFrom_simulated
    (R := fun (s : IoThread N) (t : ThreadPool N) => s.Descriptors listener base ∧ s.Refines t)
    (fun s t e s' h hstep => by
      obtain ⟨events, t', hrun, h'⟩ := refines_step h.1 h.2 hstep
      exact ⟨events, t', hrun, h.1.step hstep, h'⟩) hrun
    ⟨descriptors_init codes listener base, Server.SameButBuffers.refl _, rfl, rfl, rfl,
      fun _ => Option.Rel.none⟩
  exact ⟨events', t, hrun', h⟩

theorem refines_threadPool_exitArrives : ∃ (s : IoThread 4) (events' : List (ThreadPool.Event 4))
    (t : ThreadPool 4),
    Transition.runFrom (step Nlohmann.integral .little 4)
      (init 4 CodeStream.inOrder 4 standardStreams) exitArrives = some s ∧
    Transition.runFrom (ThreadPool.step Nlohmann.integral)
      (ThreadPool.init 4 CodeStream.inOrder) events' = some t ∧
    (t.shared.client? 5).isSome = true := by
  obtain ⟨s, hrun, hclient, -⟩ := runFrom_exitArrives
  obtain ⟨events', t, hrun', h⟩ := refines_threadPool hrun
  refine ⟨s, events', t, hrun, hrun', ?_⟩
  rw [← h.shared.isSome_client? 5]
  exact hclient

end IoThread

end SocketChat
