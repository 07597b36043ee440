/-
What is enqueued is what was sent.

Between a client's `Send` and a task in the server's queue lie the socket, which hands the
client's bytes over in pieces of its own choosing, the client's `recvBuffer`, and an I/O
thread that serves many connections in turn, on descriptors that are used again and again.
`Stream` is the invariant that carries a connection through all this: the bytes that have
arrived are the frames that were enqueued, in order, and then what the buffer holds.
-/
import SocketChat.Client.NetworkClient
import SocketChat.Server.IoThread

namespace SocketChat

open PacketReceiver Socket

namespace IoThread

variable {N : ℕ} {json : Nlohmann} {o : ByteOrder} {listener : Fd} {base : Finset Fd}
  {codes : CodeStream} {s s' : IoThread N} {K : Connection}

/-- The packets enqueued for a connection. -/
def tasksOf (s : IoThread N) (K : Connection) : List Packet :=
  (s.pool.received.filter fun t => t.conn = K).map Task.packet

/-- The connection is the latest on its descriptor, and has not been closed. -/
def Live (s : IoThread N) (K : Connection) : Prop :=
  (s.client? K.fd).isSome = true ∧ s.pool.shared.connection K.fd = K

/-- The I/O thread is in the loop of `parsePackets` for the connection. -/
def Parsing (s : IoThread N) (K : Connection) : Prop :=
  s.Live K ∧ ∃ events, s.control = .parsing K.fd events

/-- What has arrived on a connection: the frames enqueued, and the bytes behind them, which
its `recvBuffer` holds as long as it lives and which hold no complete frame once they have
been looked at. -/
structure Stream (o : ByteOrder) (s : IoThread N) (K : Connection) (frames : List Frame)
    (rest : Bytes) : Prop where
  arrived : s.arrived K = (framing o).stream frames ++ rest
  tasks : s.tasksOf K = frames.map fun f => (parsed f).packet
  buffer : s.Live K → recvBuffer s.pool.shared.clientManager K.fd = rest
  complete : ¬ s.Parsing K → parseNext o rest = none
  unborn : s.pool.shared.accepts K.fd < K.number → s.arrived K = []

theorem recvBuffer_eq {fd : Fd} {client : ClientInfo} (h : s.client? fd = some client) :
    recvBuffer s.pool.shared.clientManager fd = client.recvBuffer := by
  rw [recvBuffer, show s.pool.shared.clientManager.getClient fd = some client from h]
  rfl

theorem not_parsing_of_handling {events : List Fd} (h : s.control = .handling events)
    (K : Connection) : ¬ s.Parsing K := by
  rintro ⟨-, events', hcontrol⟩
  rw [h] at hcontrol
  cases hcontrol

/-- The connection on a descriptor that is in use. -/
theorem live_connection {fd : Fd} {client : ClientInfo} (h : s.client? fd = some client) :
    s.Live (s.pool.shared.connection fd) := by
  refine ⟨?_, rfl⟩
  show (s.client? fd).isSome = true
  rw [h]
  rfl

namespace Stream

variable {frames : List Frame} {rest : Bytes}

/-- A step that neither receives nor enqueues anything for the connection. -/
theorem of_same (h : Stream o s K frames rest) (harrived : s'.arrived K = s.arrived K)
    (htasks : s'.tasksOf K = s.tasksOf K)
    (hbuffer : s'.Live K → s.Live K ∧ recvBuffer s'.pool.shared.clientManager K.fd =
      recvBuffer s.pool.shared.clientManager K.fd)
    (hcomplete : ¬ s'.Parsing K → s.Parsing K → parseNext o rest = none)
    (haccepts : s.pool.shared.accepts K.fd ≤ s'.pool.shared.accepts K.fd) :
    Stream o s' K frames rest where
  arrived := harrived.trans h.arrived
  tasks := htasks.trans h.tasks
  buffer hlive := by
    obtain ⟨hlive, hsame⟩ := hbuffer hlive
    rw [hsame]
    exact h.buffer hlive
  complete hparsing := by
    by_cases hbefore : s.Parsing K
    · exact hcomplete hparsing hbefore
    · exact h.complete hbefore
  unborn hnumber := by
    rw [harrived]
    exact h.unborn (Nat.lt_of_le_of_lt haccepts hnumber)

/-- Nothing has happened on the connection yet. -/
theorem unborn_nil (h : Stream o s K frames rest)
    (hnumber : s.pool.shared.accepts K.fd < K.number) : frames = [] ∧ rest = [] := by
  have hnil := h.unborn hnumber
  rw [h.arrived, List.append_eq_nil_iff] at hnil
  refine ⟨?_, hnil.2⟩
  cases frames with
  | nil => rfl
  | cons f frames =>
    rw [Framing.stream, List.flatMap_cons, List.append_eq_nil_iff] at hnil
    exact absurd hnil.1.1 ((framing o).bytes_ne_nil f)

/-- A connection is accepted. -/
theorem accept (h : Stream o s K frames rest) {fd : Fd} {ip : Bytes} {events : List Fd}
    (hcontrol : s.control = .handling (listener :: events)) (hfd : 0 < fd) :
    Stream o (s.acceptNewConnection (some (fd, ip)) true events) K frames rest := by
  have hshared : (s.acceptNewConnection (some (fd, ip)) true events).pool.shared =
      { s.pool.shared with
        clientManager := s.pool.shared.clientManager.addClient fd ip
        accepts := fun g =>
          if g = fd then s.pool.shared.accepts fd + 1 else s.pool.shared.accepts g } :=
    if_pos ⟨hfd, rfl⟩
  have hnot := not_parsing_of_handling hcontrol K
  have hrest := h.complete hnot
  by_cases hK : K.fd = fd
  · -- whatever connection was on the descriptor before, it is not the new one
    refine ⟨h.arrived, h.tasks, ?_, fun _ => hrest, ?_⟩
    · intro hlive
      have hnumber : s.pool.shared.accepts K.fd + 1 = K.number := by
        have hconn := congrArg Connection.number hlive.2
        rw [hshared] at hconn
        simpa [Server.connection, hK] using hconn
      obtain ⟨-, rfl⟩ := h.unborn_nil (by omega)
      rw [hshared]
      show recvBuffer (s.pool.shared.clientManager.addClient fd ip) K.fd = []
      rw [recvBuffer, ClientManager.getClient_addClient, if_pos hK]
      rfl
    · intro hnumber
      rw [hshared] at hnumber
      simp only [hK, if_true] at hnumber
      exact h.unborn (by rw [hK]; omega)
  · refine h.of_same rfl rfl (fun hlive => ?_) (fun _ hparsing => absurd hparsing hnot) ?_
    · have hget : (s.pool.shared.clientManager.addClient fd ip).getClient K.fd =
          s.pool.shared.clientManager.getClient K.fd := by
        rw [ClientManager.getClient_addClient, if_neg hK]
      obtain ⟨hsome, hconn⟩ := hlive
      have hsome : ((s.acceptNewConnection (some (fd, ip)) true events).pool.shared.client?
        K.fd).isSome = true := hsome
      rw [hshared] at hsome hconn ⊢
      refine ⟨⟨?_, ?_⟩, ?_⟩
      · show (s.pool.shared.clientManager.getClient K.fd).isSome = true
        rw [← hget]
        exact hsome
      · simpa [Server.connection, hK] using hconn
      · rw [recvBuffer, recvBuffer, hget]
    · rw [hshared]
      simp only [if_neg hK, le_refl]

/-- A chunk is received. -/
theorem recv (h : Stream o s K frames rest) {fd : Fd} {events : List Fd} {client : ClientInfo}
    {chunk : Chunk} (hcontrol : s.control = .handling (fd :: events))
    (hclient : s.client? fd = some client) :
    ∃ rest', Stream o (s.receive fd (s.pool.shared.clientManager.setClient fd
      { client with recvBuffer := client.recvBuffer ++ chunk.bytes }) chunk.bytes events) K
      frames rest' := by
  have hnot := not_parsing_of_handling hcontrol K
  by_cases hK : K = s.pool.shared.connection fd
  · have hfd : K.fd = fd := congrArg Connection.fd hK
    have hlive : s.Live K := hK ▸ live_connection hclient
    have hbuffer : client.recvBuffer = rest := by
      rw [← recvBuffer_eq hclient, ← hfd]
      exact h.buffer hlive
    refine ⟨rest ++ chunk.bytes, ?_, h.tasks, fun _ => ?_, fun hparsing => ?_, fun hnumber => ?_⟩
    · show (if K = s.pool.shared.connection fd then s.arrived K ++ chunk.bytes else _) = _
      rw [if_pos hK, h.arrived, List.append_assoc]
    · show recvBuffer (s.pool.shared.clientManager.setClient fd _) K.fd = _
      rw [recvBuffer, ClientManager.getClient_setClient, if_pos hfd, ← hbuffer]
      rfl
    · -- the loop of `parsePackets` comes next
      refine absurd ⟨⟨?_, hlive.2⟩, events, ?_⟩ hparsing
      · show ((s.pool.shared.clientManager.setClient fd _).getClient K.fd).isSome = true
        rw [ClientManager.getClient_setClient, if_pos hfd]
        rfl
      · rw [hfd]
        rfl
    · have hnumber : s.pool.shared.accepts K.fd < K.number := hnumber
      rw [hK] at hnumber
      exact absurd hnumber (Nat.lt_irrefl _)
  · refine ⟨rest, h.of_same ?_ rfl ?_ (fun _ hparsing => absurd hparsing hnot) (le_refl _)⟩
    · exact if_neg hK
    · rintro ⟨hsome, hconn⟩
      have hfd : K.fd ≠ fd := fun heq => hK (heq ▸ hconn.symm)
      have hget : (s.pool.shared.clientManager.setClient fd { client with
          recvBuffer := client.recvBuffer ++ chunk.bytes }).getClient K.fd =
          s.pool.shared.clientManager.getClient K.fd := by
        rw [ClientManager.getClient_setClient, if_neg hfd]
      refine ⟨⟨?_, hconn⟩, ?_⟩
      · show (s.pool.shared.clientManager.getClient K.fd).isSome = true
        rw [← hget]
        exact hsome
      · show recvBuffer (s.pool.shared.clientManager.setClient fd _) K.fd = _
        rw [recvBuffer, recvBuffer, hget]

/-- A connection is closed. -/
theorem close (h : Stream o s K frames rest) {fd : Fd} {events : List Fd}
    (hcontrol : s.control = .handling (fd :: events)) :
    Stream o (s.closeConnection fd events) K frames rest := by
  have hnot := not_parsing_of_handling hcontrol K
  refine h.of_same rfl rfl ?_ (fun _ hparsing => absurd hparsing hnot) (le_refl _)
  rintro ⟨hsome, hconn⟩
  have hsome : ((s.pool.shared.clientManager.removeClient fd).getClient K.fd).isSome = true :=
    hsome
  have hget := s.pool.shared.clientManager.getClient_removeClient fd K.fd
  by_cases hfd : K.fd = fd
  · rw [hget, if_pos hfd] at hsome
    cases hsome
  · rw [if_neg hfd] at hget
    refine ⟨⟨?_, hconn⟩, ?_⟩
    · show (s.pool.shared.clientManager.getClient K.fd).isSome = true
      rw [← hget]
      exact hsome
    · show recvBuffer (s.pool.shared.clientManager.removeClient fd) K.fd = _
      rw [recvBuffer, recvBuffer, hget]

/-- The loop of `parsePackets` is left. -/
theorem leave (h : Stream o s K frames rest) {fd : Fd} {events : List Fd}
    (hcontrol : s.control = .parsing fd events)
    (hdone : ∀ client, s.client? fd = some client → parseNext o client.recvBuffer = none) :
    Stream o { s with control := .handling events } K frames rest := by
  refine h.of_same rfl rfl (fun hlive => ⟨hlive, rfl⟩) ?_ (le_refl _)
  rintro - ⟨hlive, events', hparsing⟩
  rw [hcontrol] at hparsing
  obtain ⟨hfd, -⟩ : fd = K.fd ∧ events = events' := by
    cases hparsing
    exact ⟨rfl, rfl⟩
  obtain ⟨client, hclient⟩ := Option.isSome_iff_exists.mp hlive.1
  rw [← h.buffer hlive, recvBuffer_eq hclient]
  exact hdone client (hfd ▸ hclient)

/-- A frame is enqueued. -/
theorem parse (h : Stream o s K frames rest) {fd : Fd} {events : List Fd} {now : LocalTime}
    {client : ClientInfo} {f : Frame} {rest' : Bytes} (hcontrol : s.control = .parsing fd events)
    (hclient : s.client? fd = some client) (hbuffer : client.recvBuffer = f.bytes ++ rest') :
    ∃ frames rest, Stream o (s.enqueue fd client (parsed f).packet rest' now) K frames rest := by
  have htasks : (s.enqueue fd client (parsed f).packet rest' now).tasksOf K = s.tasksOf K ++
      if s.pool.shared.connection fd = K then [(parsed f).packet] else [] := by
    show ((s.pool.received ++ [_]).filter _).map _ = _
    rw [List.filter_append, List.map_append]
    by_cases hK : s.pool.shared.connection fd = K
    · simp [tasksOf, hK]
    · simp [tasksOf, hK]
  have hget := s.pool.shared.clientManager.getClient_setClient fd K.fd
    { client with recvBuffer := rest' }
  by_cases hK : K = s.pool.shared.connection fd
  · have hfd : K.fd = fd := congrArg Connection.fd hK
    have hlive : s.Live K := hK ▸ live_connection hclient
    have hrest : rest = f.bytes ++ rest' := by
      rw [← hbuffer, ← recvBuffer_eq hclient, ← hfd]
      exact (h.buffer hlive).symm
    rw [if_pos hfd] at hget
    refine ⟨frames ++ [f], rest', ?_, ?_, fun _ => ?_, fun hparsing => ?_, h.unborn⟩
    · show s.arrived K = _
      rw [h.arrived, hrest, Framing.stream_append, List.append_assoc]
      simp only [Framing.stream, List.flatMap_singleton]
      rfl
    · rw [htasks, if_pos hK.symm, h.tasks, List.map_append]
      rfl
    · show recvBuffer (s.pool.shared.clientManager.setClient fd _) K.fd = _
      rw [recvBuffer, hget]
      rfl
    · refine absurd ⟨⟨?_, hlive.2⟩, events, ?_⟩ hparsing
      · show ((s.pool.shared.clientManager.setClient fd _).getClient K.fd).isSome = true
        rw [hget]
        rfl
      · rw [hfd]
        exact hcontrol
  · have hnot : ∀ {t : IoThread N}, t.pool.shared.connection K.fd = K →
        t.pool.shared.accepts = s.pool.shared.accepts → K.fd ≠ fd := by
      intro t hconn haccepts heq
      rw [Server.connection, haccepts, heq] at hconn
      exact hK hconn.symm
    refine ⟨frames, rest, h.of_same rfl ?_ ?_ ?_ (le_refl _)⟩
    · rw [htasks, if_neg fun heq => hK heq.symm, List.append_nil]
    · rintro ⟨hsome, hconn⟩
      rw [if_neg (hnot hconn rfl)] at hget
      refine ⟨⟨?_, hconn⟩, ?_⟩
      · show (s.pool.shared.clientManager.getClient K.fd).isSome = true
        rw [← hget]
        exact hsome
      · show recvBuffer (s.pool.shared.clientManager.setClient fd _) K.fd = _
        rw [recvBuffer, recvBuffer, hget]
    · rintro - ⟨hlive, events', hparsing⟩
      rw [hcontrol] at hparsing
      cases hparsing
      exact absurd rfl (hnot (t := s) hlive.2 rfl)

/-- **The step lemma.** -/
theorem step {e : Event N} (h : Stream o s K frames rest)
    (hstep : IoThread.step json o listener s e = some s') :
    ∃ frames rest, Stream o s' K frames rest := by
  have hkeep : ∀ {t : IoThread N}, t.pool.shared = s.pool.shared →
      t.pool.received = s.pool.received → t.arrived = s.arrived → ¬ s.Parsing K →
      ∃ frames rest, Stream o t K frames rest := by
    intro t hshared hreceived harrived hnot
    refine ⟨frames, rest, h.of_same (by rw [harrived]) (by rw [tasksOf, tasksOf, hreceived])
      (fun hlive => ?_) (fun _ hparsing => absurd hparsing hnot) (by rw [hshared])⟩
    rw [Live, client?, hshared] at hlive
    exact ⟨hlive, by rw [hshared]⟩
  cases step_cases hstep with
  | wait hcontrol => exact hkeep rfl rfl rfl (not_parsing_of_handling hcontrol K)
  | @accept events accepted added hcontrol hfresh =>
    have hnot := not_parsing_of_handling hcontrol K
    cases accepted with
    | none => exact hkeep rfl rfl rfl hnot
    | some found =>
      obtain ⟨fd, ip⟩ := found
      by_cases hadd : 0 < fd ∧ added = true
      · obtain ⟨hfd, rfl⟩ := hadd
        exact ⟨frames, rest, h.accept hcontrol hfd⟩
      · exact hkeep (if_neg hadd) rfl rfl hnot
  | recv hcontrol hfd hclient =>
    obtain ⟨rest', h'⟩ := h.recv hcontrol hclient
    exact ⟨frames, rest', h'⟩
  | close hcontrol => exact ⟨frames, rest, h.close hcontrol⟩
  | leave hcontrol hdone => exact ⟨frames, rest, h.leave hcontrol hdone⟩
  | parse hcontrol hclient hbuffer => exact h.parse hcontrol hclient hbuffer
  | @worker e pool he hpool =>
    obtain ⟨hsome, hconn, hbuffer, hreceived⟩ := client?_worker he hpool K.fd
    have hlive : Live { s with pool := pool } K ↔ s.Live K := by
      rw [Live, Live, client?, hsome, hconn]
    refine ⟨frames, rest, h.of_same rfl ?_ (fun hK => ⟨hlive.mp hK, ?_⟩) ?_ ?_⟩
    · show (pool.received.filter _).map _ = _
      rw [hreceived]
      rfl
    · show ((pool.shared.client? K.fd).map _).getD [] = _
      rw [hbuffer]
      rfl
    · rintro hnot ⟨hK, events, hcontrol⟩
      exact absurd ⟨hlive.mpr hK, events, hcontrol⟩ hnot
    · exact Nat.le_of_eq (congrArg Connection.number hconn).symm

end Stream

/-- **The run lemma.** -/
theorem exists_stream {events : List (Event N)} (K : Connection)
    (hrun : Transition.runFrom (step json o listener) (init N codes listener base) events =
      some s) : ∃ frames rest, Stream o s K frames rest := by
  refine Transition.runFrom_always (J := fun s => ∃ frames rest, Stream o s K frames rest)
    (fun t e t' ht hstep => ?_) hrun ⟨[], [], ?_⟩
  · obtain ⟨frames, rest, ht⟩ := ht
    exact ht.step hstep
  · refine ⟨rfl, rfl, fun hlive => ?_, fun _ => rfl, fun _ => rfl⟩
    have hsome : ((Server.init codes).client? K.fd).isSome = true := hlive.1
    rw [Server.client?_init] at hsome
    cases hsome

/-- **The tasks of a connection are the frames of its bytes.**  Whatever the number of
workers, the way the bytes arrive, and what happens on other connections and on this
descriptor before and after: the packets enqueued for a connection are, in order and each
once, the first complete frames of the bytes received on it; they are all of them unless
the I/O thread is just about to enqueue another, and then the buffer of a connection that
lives holds exactly the bytes behind them. -/
theorem tasksOf_eq {events : List (Event N)} (K : Connection)
    (hrun : Transition.runFrom (step json o listener) (init N codes listener base) events =
      some s) :
    s.tasksOf K <+: ((framing o).drain (s.arrived K)).1.map Parsed.packet ∧
      (¬ s.Parsing K →
        s.tasksOf K = ((framing o).drain (s.arrived K)).1.map Parsed.packet ∧
        (s.Live K → recvBuffer s.pool.shared.clientManager K.fd =
          ((framing o).drain (s.arrived K)).2)) := by
  obtain ⟨frames, rest, h⟩ := exists_stream K hrun
  have hpackets : s.tasksOf K = (frames.map parsed).map Parsed.packet := by
    rw [h.tasks, List.map_map]
    rfl
  constructor
  · -- what the buffer holds begins with the frames that are still to be enqueued
    obtain ⟨more, rest', hrest, hnone, -⟩ := (framing o).exists_frames rest
    rw [h.arrived, hrest, ← List.append_assoc, ← Framing.stream_append,
      (framing o).drain_frames hnone, hpackets]
    exact (List.prefix_append frames more).map parsed |>.map Parsed.packet
  · intro hnot
    rw [h.arrived, (framing o).drain_frames (h.complete hnot) frames]
    exact ⟨hpackets, h.buffer⟩

theorem tasksOf_eq_exitArrives : ∃ s,
    Transition.runFrom (step Nlohmann.integral .little 4)
      (init 4 CodeStream.inOrder 4 standardStreams) exitArrives = some s ∧
    s.tasksOf ⟨5, 1⟩ = ((framing .little).drain exitChunk.bytes).1.map Parsed.packet := by
  obtain ⟨s, hrun, -, -, harrived, rest, hcontrol⟩ := runFrom_exitArrives
  obtain ⟨-, hall⟩ := tasksOf_eq ⟨5, 1⟩ hrun
  rw [← harrived]
  exact ⟨s, hrun, (hall (not_parsing_of_handling hcontrol _)).1⟩

/-! ### From a client to the queue -/

/-- The leading packets of a stream, however much of it has arrived. -/
theorem isPrefix_drain {packets : List Packet} (hfilled : ∀ p ∈ packets, p.Filled)
    {o' : ByteOrder} {arrived : Bytes} (harrived : arrived <+: packets.flatMap (Packet.encode o')) :
    ((framing o).drain arrived).1.map Parsed.packet <+: packets.map Packet.trim := by
  obtain ⟨more, hmore⟩ := harrived
  obtain ⟨frames, hbytes, hpackets⟩ := exists_frames_of_packets o' hfilled
  have hdrain : (framing o).drain (arrived ++ more) = (frames.map parsed, []) := by
    rw [hmore, hbytes, ← List.append_nil (frames.flatMap Frame.bytes)]
    exact (framing o).drain_frames rfl frames
  rw [(framing o).drain_append] at hdrain
  have hall : (frames.map parsed).map Parsed.packet = packets.map Packet.trim := by
    rw [List.map_map]
    exact hpackets
  rw [← hall, ← (Prod.mk.inj hdrain).1, List.map_append]
  exact List.prefix_append _ _

/-- The packets that have arrived in full. -/
theorem drain_isPrefix {packets : List Packet} (hfilled : ∀ p ∈ packets, p.Filled)
    {o' : ByteOrder} {arrived : Bytes} (harrived : packets.flatMap (Packet.encode o') <+: arrived) :
    packets.map Packet.trim <+: ((framing o).drain arrived).1.map Parsed.packet := by
  obtain ⟨more, rfl⟩ := harrived
  obtain ⟨frames, hbytes, hpackets⟩ := exists_frames_of_packets o' hfilled
  have hdrain : (framing o).drain (frames.flatMap Frame.bytes) = (frames.map parsed, []) := by
    rw [← List.append_nil (frames.flatMap Frame.bytes)]
    exact (framing o).drain_frames rfl frames
  have hall : (frames.map parsed).map Parsed.packet = packets.map Packet.trim := by
    rw [List.map_map]
    exact hpackets
  rw [hbytes, (framing o).drain_append, hdrain, List.map_append, hall]
  exact List.prefix_append _ _

/-- **What a client sends is what is enqueued for it.**  A client calls `Send` for packet
after packet, and none before the last fails; some of the bytes it has written have arrived
on a connection.  Then the packets enqueued for the connection are the first of those sent,
and among them are all whose bytes have arrived, unless the I/O thread is just about to
enqueue another. -/
theorem tasksOf_sent {events : List (Event N)} {K : Connection} (o' : ByteOrder)
    (c : NetworkClient) (script : List SendResult) {packets : List Packet}
    (hrun : Transition.runFrom (step json o listener) (init N codes listener base) events =
      some s) (hfilled : ∀ p ∈ packets, p.Filled)
    (hsent : ∀ result ∈ (c.sendEach o' script packets).1.dropLast, result = some true)
    (harrived : s.arrived K <+: (c.sendEach o' script packets).2) :
    s.tasksOf K <+: packets.map Packet.trim ∧
      (¬ s.Parsing K → ∀ n, (packets.take n).flatMap (Packet.encode o') <+: s.arrived K →
        (packets.take n).map Packet.trim <+: s.tasksOf K) := by
  obtain ⟨hpre, hall⟩ := tasksOf_eq K hrun
  have hstream := harrived.trans (NetworkClient.isPrefix_sendEach o' hfilled script hsent)
  refine ⟨hpre.trans (isPrefix_drain hfilled hstream), fun hnot n hn => ?_⟩
  rw [(hall hnot).1]
  exact drain_isPrefix (fun p hp => hfilled p (List.mem_of_mem_take hp)) hn

/-- An EXIT_ROOM, and the first half of a message. -/
theorem tasksOf_sent_exitArrives : ∃ s,
    Transition.runFrom (step Nlohmann.integral .little 4)
      (init 4 CodeStream.inOrder 4 standardStreams) exitArrives = some s ∧
    s.tasksOf ⟨5, 1⟩ <+:
      [Packet.ofText PacketType.exitRoom [], Packet.ofText PacketType.messageSend []] ∧
    [Packet.ofText PacketType.exitRoom []] <+: s.tasksOf ⟨5, 1⟩ := by
  obtain ⟨s, hrun, -, -, harrived, rest, hcontrol⟩ := runFrom_exitArrives
  have hpackets : ∀ p ∈ [Packet.ofText PacketType.exitRoom [],
      Packet.ofText PacketType.messageSend []], p.Filled := by
    decide
  obtain ⟨hpre, hall⟩ := tasksOf_sent .big ⟨true, []⟩
    [.accepted 3, .accepted 1, .accepted 2, .error] hrun hpackets (by decide)
    (by rw [harrived]; decide)
  refine ⟨s, hrun, hpre, hall (not_parsing_of_handling hcontrol _) 1 ?_⟩
  rw [harrived]
  decide

end IoThread

end SocketChat
