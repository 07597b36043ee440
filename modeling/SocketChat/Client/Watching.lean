/-
A chat session that nobody leaves.

As long as "/exit" has not been typed the receiver thread is the only one that receives, and
the server has nothing for the client but messages and notices.  `Watched` says how far such a
session has come: which frames have been printed, and what of the next one is read.  Whatever
frames arrive and whenever the threads run, what is printed at each moment is an initial part
of what `screen` makes of the packets, and the receiver thread comes to print all of it
(`shows_screen`).
-/
import SocketChat.Client.ChatSession
import SocketChat.Client.Screen
import SocketChat.Lib.Quiescence

namespace SocketChat

open Socket Client

namespace ChatSession

/-- The lines the callback has printed. -/
def printed (s : ChatSession) : List Bytes :=
  s.callback.map fun x => x.2.formatForDisplay false

/-- The packets the server has sent in the session. -/
def packets (s : ChatSession) : List Packet := s.sent.map Prod.snd

/-- A step of the receiver thread. -/
def Event.OfReceiver : Event → Prop
  | .act .startReceiving => True
  | .act .test => True
  | .act .recv => True
  | .act .handle => True
  | _ => False

/-- The receiver thread waits in `Receive`, and nothing is left to be received. -/
def Waiting (s : ChatSession) : Prop := s.receiver = .recvHeader ∧ s.incoming = []

variable {o : ByteOrder} {json : Nlohmann} {s s' : ChatSession}
  {done rest : List (ℕ × Packet)} {f : ℕ × Packet}

/-! ### How far a session has come -/

/-- What the receiver thread has of the frames that are not printed yet. -/
inductive Ahead (o : ByteOrder) (json : Nlohmann) (s : ChatSession) : List (ℕ × Packet) → Prop
  | untouched {rest : List (ℕ × Packet)}
      (hreceiver : s.receiver = .startReceiving ∨ s.receiver = .loop ∨ s.receiver = .recvHeader)
      (hincoming : s.incoming = Writers.frames (Packet.encode o) rest) : Ahead o json s rest
  | half {f : ℕ × Packet} {rest : List (ℕ × Packet)}
      (hreceiver : s.receiver = .recvPayload (header o f))
      (hincoming : s.incoming = Writers.tag f.1 f.2.text ++ Writers.frames (Packet.encode o) rest) :
      Ahead o json s (f :: rest)
  | whole {f : ℕ × Packet} {rest : List (ℕ × Packet)}
      (hreceiver : s.receiver = .received (frame o f))
      (hincoming : s.incoming = Writers.frames (Packet.encode o) rest) : Ahead o json s (f :: rest)
  /-- It could not be parsed. -/
  | raised {f : ℕ × Packet} {rest : List (ℕ × Packet)} (hreceiver : s.receiver = .terminated)
      (hends : screen json [f.2] = ([], true)) : Ahead o json s (f :: rest)

/-- "/exit" has not been typed, the messages `done` are printed and the messages `rest` are
not. -/
structure Watched (o : ByteOrder) (json : Nlohmann) (s : ChatSession)
    (done rest : List (ℕ × Packet)) : Prop where
  sent : s.sent = done ++ rest
  kind : ∀ f ∈ s.sent, f.2.Filled ∧ ChatService.IsMessage f.2.type
  main : s.main = .exitRoom
  request : s.request = .unsent
  connected : s.connected = true
  flag : s.receiver ≠ .startReceiving → s.m_is_receiving = true
  shown : screen json (done.map Prod.snd) = (s.printed, false)
  ahead : Ahead o json s rest

theorem watched_init (o : ByteOrder) (json : Nlohmann) (code : Bytes) :
    (init code).Watched o json [] [] where
  sent := rfl
  kind _ hf := absurd hf List.not_mem_nil
  main := rfl
  request := rfl
  connected := rfl
  flag hne := absurd rfl hne
  shown := rfl
  ahead := .untouched (Or.inl rfl) rfl

/-- What is printed is an initial part of what is to be printed. -/
theorem Watched.printed_prefix (h : Watched o json s done rest) :
    s.printed <+: (screen json s.packets).1 := by
  rw [packets, h.sent, List.map_append, screen_append, h.shown]
  exact List.prefix_append _ _

/-- Where the receiver thread has nothing of the next frame, all of it is still to be read. -/
theorem Ahead.unread (h : Ahead o json s rest)
    (hreceiver : s.receiver = .startReceiving ∨ s.receiver = .loop ∨ s.receiver = .recvHeader) :
    s.incoming = Writers.frames (Packet.encode o) rest := by
  cases h with
  | untouched _ hincoming => exact hincoming
  | half heq => rw [heq] at hreceiver; simp at hreceiver
  | whole heq => rw [heq] at hreceiver; simp at hreceiver
  | raised heq => rw [heq] at hreceiver; simp at hreceiver

/-- Where it has a header, it is that of the next frame. -/
theorem Ahead.of_header (h : Ahead o json s rest) {head : Labelled}
    (hreceiver : s.receiver = .recvPayload head) :
    ∃ f behind, rest = f :: behind ∧ head = header o f ∧
      s.incoming = Writers.tag f.1 f.2.text ++ Writers.frames (Packet.encode o) behind := by
  cases h with
  | untouched heq => rw [hreceiver] at heq; simp at heq
  | half heq hincoming =>
    exact ⟨_, _, rfl, ReceiverThread.recvPayload.inj (hreceiver.symm.trans heq), hincoming⟩
  | whole heq => cases hreceiver.symm.trans heq
  | raised heq => cases hreceiver.symm.trans heq

/-- And where it has a packet, that is the next. -/
theorem Ahead.of_packet (h : Ahead o json s rest) {r : Received}
    (hreceiver : s.receiver = .received r) :
    ∃ f behind, rest = f :: behind ∧ r = frame o f ∧
      s.incoming = Writers.frames (Packet.encode o) behind := by
  cases h with
  | untouched heq => rw [hreceiver] at heq; simp at heq
  | half heq => cases hreceiver.symm.trans heq
  | whole heq hincoming =>
    exact ⟨_, _, rfl, ReceiverThread.received.inj (hreceiver.symm.trans heq), hincoming⟩
  | raised heq => cases hreceiver.symm.trans heq

theorem Ahead.of_exception (h : Ahead o json s rest) (hreceiver : s.receiver = .terminated) :
    ∃ f behind, rest = f :: behind ∧ screen json [f.2] = ([], true) := by
  cases h with
  | untouched heq => rw [hreceiver] at heq; simp at heq
  | half heq => cases hreceiver.symm.trans heq
  | whole heq => cases hreceiver.symm.trans heq
  | raised _ hends => exact ⟨_, _, rfl, hends⟩

theorem Ahead.ne_ended (h : Ahead o json s rest) : s.receiver ≠ .ended := by
  intro hreceiver
  cases h with
  | untouched heq => rw [hreceiver] at heq; simp at heq
  | half heq => cases hreceiver.symm.trans heq
  | whole heq => cases hreceiver.symm.trans heq
  | raised heq => cases hreceiver.symm.trans heq

/-- Where the receiver thread waits, all is printed. -/
theorem Watched.of_waiting (h : Watched o json s done rest) (hwaiting : s.Waiting) :
    screen json s.packets = (s.printed, false) := by
  have hincoming := h.ahead.unread (Or.inr (Or.inr hwaiting.1))
  rw [hwaiting.2] at hincoming
  cases rest with
  | nil => rw [packets, h.sent, List.append_nil, h.shown]
  | cons f rest =>
    rw [Writers.frames, List.flatMap_cons, Packet.encode_eq] at hincoming
    cases hincoming

/-- Where an exception has ended the program, all is printed up to the message that raised it. -/
theorem Watched.of_terminated (h : Watched o json s done rest)
    (hterminated : s.receiver = .terminated) :
    screen json s.packets = (s.printed, true) := by
  obtain ⟨f, behind, rfl, hends⟩ := h.ahead.of_exception hterminated
  have hrest : screen json ((f :: behind).map Prod.snd) = ([], true) := by
    rw [List.map_cons, ← List.singleton_append, screen_append, hends]
    rfl
  rw [packets, h.sent, List.map_append, screen_append, h.shown, hrest]
  show (s.printed ++ [], true) = _
  rw [List.append_nil]

/-! ### Steps -/

theorem Watched.mem_rest (h : Watched o json s done rest) (hf : f ∈ rest) :
    f.2.Filled ∧ ChatService.IsMessage f.2.type :=
  h.kind f (h.sent ▸ List.mem_append_right _ hf)

/-- The server sends a message. -/
theorem Watched.put (h : Watched o json s done rest) {p : Packet} (hfilled : p.Filled)
    (hkind : ChatService.IsMessage p.type) :
    (s.put o p).Watched o json done (rest ++ [(s.sent.length, p)]) := by
  -- the new frame goes behind all that is there
  have hincoming : ∀ (part : Labelled) (behind : List (ℕ × Packet)),
      s.incoming = part ++ Writers.frames (Packet.encode o) behind →
      (s.put o p).incoming =
        part ++ Writers.frames (Packet.encode o) (behind ++ [(s.sent.length, p)]) := by
    intro part behind heq
    simp [ChatSession.put, heq, Writers.frames]
  refine ⟨?_, fun f hf => ?_, h.main, h.request, h.connected, h.flag, h.shown, ?_⟩
  · show s.sent ++ [_] = _
    rw [h.sent, List.append_assoc]
  · rcases List.mem_append.mp hf with hf | hf
    · exact h.kind f hf
    · rw [List.mem_singleton.mp hf]
      exact ⟨hfilled, hkind⟩
  · cases h.ahead with
    | untouched hreceiver heq => exact .untouched hreceiver (hincoming [] _ heq)
    | half hreceiver heq => exact .half hreceiver (hincoming _ _ heq)
    | whole hreceiver heq => exact .whole hreceiver (hincoming [] _ heq)
    | raised hreceiver hends => exact .raised hreceiver hends

/-- The receiver thread goes on without printing. -/
theorem Watched.turn (h : Watched o json s done rest) {receiver : ReceiverThread}
    {incoming : Labelled} {returned : List (Reader × Received)} {flag : Bool}
    (hflag : receiver ≠ .startReceiving → flag = true)
    (hahead : Ahead o json { s with
      incoming := incoming
      m_is_receiving := flag
      receiver := receiver
      returned := returned } rest) :
    Watched o json { s with
      incoming := incoming
      m_is_receiving := flag
      receiver := receiver
      returned := returned } done rest :=
  ⟨h.sent, h.kind, h.main, h.request, h.connected, hflag, h.shown, hahead⟩

theorem Watched.flag_of_eq (h : Watched o json s done rest) {receiver : ReceiverThread}
    (hreceiver : s.receiver = receiver) (hne : receiver ≠ .startReceiving) :
    s.m_is_receiving = true :=
  h.flag (hreceiver ▸ hne)

/-- The receiver thread reads a header. -/
theorem Watched.readHeader (h : Watched o json s done rest) (hreceiver : s.receiver = .recvHeader)
    {x : Receiving × ChatSession} (hx : recvHeader o s = some x) :
    Watched o json (x.2.receiverAfter x.1) done rest := by
  have hflag := h.flag_of_eq hreceiver ReceiverThread.noConfusion
  have hincoming := h.ahead.unread (Or.inr (Or.inr hreceiver))
  cases rest with
  | nil =>
    have hlen := (of_recvHeader hx).1
    rw [hincoming, sizeofPacketHeader] at hlen
    cases hlen
  | cons f rest =>
    have hfilled := (h.mem_rest List.mem_cons_self).1
    have hincoming : s.incoming = Writers.tag f.1 (f.2.encode o) ++
        Writers.frames (Packet.encode o) rest := hincoming
    rw [recvHeader_frame hfilled h.connected hincoming, Option.some_inj] at hx
    subst hx
    by_cases hsize : 0 < f.2.size
    · rw [if_pos hsize]
      exact h.turn (fun _ => hflag) (.half rfl rfl)
    · rw [if_neg hsize, text_of_size hsize]
      exact h.turn (fun _ => hflag) (.whole rfl rfl)

/-- The receiver thread reads a payload. -/
theorem Watched.readPayload (h : Watched o json s done rest) {head : Labelled}
    (hreceiver : s.receiver = .recvPayload head) {x : Receiving × ChatSession}
    (hx : recvPayload o head s = some x) :
    Watched o json (x.2.receiverAfter x.1) done rest := by
  have hflag := h.flag_of_eq hreceiver ReceiverThread.noConfusion
  obtain ⟨f, behind, rfl, rfl, hincoming⟩ := h.ahead.of_header hreceiver
  have hfilled := (h.mem_rest List.mem_cons_self).1
  rw [recvPayload_frame hfilled hincoming, Option.some_inj] at hx
  subst hx
  exact h.turn (fun _ => hflag) (.whole rfl rfl)

/-- The message received is printed. -/
theorem Watched.print (h : Watched o json s done rest) {r : Received} {m : Message}
    (hreceiver : s.receiver = .received r) (hparse : parseMessagePacket json (r.packet o) = .ok m) :
    ∃ done rest, Watched o json
      { s with receiver := .loop, callback := s.callback ++ [(r, m)] } done rest := by
  obtain ⟨f, behind, rfl, rfl, hincoming⟩ := h.ahead.of_packet hreceiver
  rw [packet_frame, parseMessagePacket_trim] at hparse
  refine ⟨done ++ [f], behind, ?_, h.kind, h.main, h.request, h.connected, fun _ => ?_, ?_,
    .untouched (Or.inr (Or.inl rfl)) hincoming⟩
  · show s.sent = _
    rw [h.sent, List.append_assoc, List.singleton_append]
  · exact h.flag_of_eq hreceiver ReceiverThread.noConfusion
  · have hlast : screen json [f.2] = ([m.formatForDisplay false], false) :=
      screen_message (h.mem_rest List.mem_cons_self).2 hparse []
    rw [List.map_append, screen_append, h.shown, List.map_singleton, hlast, printed, printed,
      List.map_append]
    rfl

theorem Watched.step {e : Event} (h : Watched o json s done rest) (he : e ≠ .act .exitRoom)
    (hstep : step o json s e = some s') : ∃ done rest, Watched o json s' done rest := by
  have hmain : ∀ {main : MainThread}, s.main = main → main ≠ .exitRoom → False := by
    rintro main rfl hne
    exact hne h.main
  cases (stepped_of_step hstep).1 with
  | frame hfilled hkind => exact ⟨_, _, h.put hfilled hkind⟩
  | answer _ _ hrequest =>
    rw [h.request] at hrequest
    cases hrequest
  | exitRoom => exact absurd rfl he
  | notConnected => exact absurd rfl he
  | mainHeader heq => exact (hmain heq MainThread.noConfusion).elim
  | mainPayload heq => exact (hmain heq MainThread.noConfusion).elim
  | stopReceiving heq => exact (hmain heq MainThread.noConfusion).elim
  | join heq => exact (hmain heq MainThread.noConfusion).elim
  | startReceiving hreceiver =>
    have hincoming := h.ahead.unread (Or.inl hreceiver)
    exact ⟨_, _, h.turn (fun _ => rfl) (.untouched (Or.inr (Or.inl rfl)) hincoming)⟩
  | goOn hreceiver hflag =>
    have hincoming := h.ahead.unread (Or.inr (Or.inl hreceiver))
    exact ⟨_, _, h.turn (fun _ => hflag) (.untouched (Or.inr (Or.inr rfl)) hincoming)⟩
  | leaveLoop hreceiver hnot =>
    -- the flag is set, and the connection is not lost
    have hflag := h.flag_of_eq hreceiver ReceiverThread.noConfusion
    exact absurd ⟨hflag, h.connected⟩ hnot
  | header hreceiver hx => exact ⟨_, _, h.readHeader hreceiver hx⟩
  | payload hreceiver hx => exact ⟨_, _, h.readPayload hreceiver hx⟩
  | message hreceiver _ hparse => exact h.print hreceiver hparse
  | raise hreceiver hkind hparse =>
    obtain ⟨f, behind, rfl, rfl, -⟩ := h.ahead.of_packet hreceiver
    rw [packet_frame, parseMessagePacket_trim] at hparse
    have hflag := h.flag_of_eq hreceiver ReceiverThread.noConfusion
    have hends := screen_raise (h.mem_rest List.mem_cons_self).2 hparse []
    exact ⟨_, _, h.turn (fun _ => hflag) (.raised rfl hends)⟩
  | ignore hreceiver hkind =>
    obtain ⟨f, behind, rfl, rfl, -⟩ := h.ahead.of_packet hreceiver
    rw [packet_frame] at hkind
    exact absurd (h.mem_rest List.mem_cons_self).2 hkind

/-! ### What comes to be printed -/

/-- How much the receiver thread has to do: four for every byte, and its place in the loop. -/
def toDo (s : ChatSession) : ℕ :=
  4 * s.incoming.length + match s.receiver with
    | .startReceiving => 3
    | .loop => 2
    | .recvHeader => 1
    | .recvPayload _ => 4
    | .received _ => 3
    | .ended => 0
    | .terminated => 0

theorem toDo_le (s : ChatSession) : s.toDo ≤ 4 * s.incoming.length + 4 := by
  rw [toDo]
  cases s.receiver with
  | _ => simp

theorem toDo_eq {receiver : ReceiverThread} (h : s.receiver = receiver) :
    s.toDo = toDo { s with receiver := receiver } := by
  subst h
  rfl

/-- A step of the receiver thread leaves less to do, and sends nothing. -/
theorem toDo_lt {e : Event} (he : e.OfReceiver) (hstep : step o json s e = some s') :
    s'.toDo < s.toDo ∧ s'.packets = s.packets := by
  cases (stepped_of_step hstep).1 with
  | frame => exact he.elim
  | answer => exact he.elim
  | exitRoom => exact he.elim
  | notConnected => exact he.elim
  | mainHeader => exact he.elim
  | mainPayload => exact he.elim
  | stopReceiving => exact he.elim
  | join => exact he.elim
  | startReceiving hreceiver => exact ⟨by rw [toDo_eq hreceiver]; simp [toDo], rfl⟩
  | goOn hreceiver => exact ⟨by rw [toDo_eq hreceiver]; simp [toDo], rfl⟩
  | leaveLoop hreceiver => exact ⟨by rw [toDo_eq hreceiver]; simp [toDo], rfl⟩
  | @header x hreceiver hx =>
    obtain ⟨hlen, connected, hx'⟩ := of_recvHeader hx
    refine ⟨?_, by rw [packets, sent_receiverAfter, hx']; rfl⟩
    have hlength : (x.2.receiverAfter x.1).incoming.length = s.incoming.length - 4 := by
      rw [incoming_receiverAfter, hx']
      exact List.length_drop
    have hle := toDo_le (x.2.receiverAfter x.1)
    have hbefore : s.toDo = 4 * s.incoming.length + 1 := toDo_eq hreceiver
    rw [sizeofPacketHeader] at hlen
    omega
  | @payload head x hreceiver hx =>
    obtain ⟨hlen, hreturned, hx'⟩ := of_recvPayload hx
    refine ⟨?_, by rw [packets, sent_receiverAfter, hx']; rfl⟩
    rw [toDo_eq hreceiver, hreturned, hx']
    simp only [toDo, receiverAfter, List.length_drop]
    omega
  | message hreceiver => exact ⟨by rw [toDo_eq hreceiver]; simp [toDo], rfl⟩
  | raise hreceiver => exact ⟨by rw [toDo_eq hreceiver]; simp [toDo], rfl⟩
  | ignore hreceiver => exact ⟨by rw [toDo_eq hreceiver]; simp [toDo], rfl⟩

/-- Unless it waits or has been ended by an exception, the receiver thread can go on. -/
theorem Watched.moves (h : Watched o json s done rest) :
    (s.Waiting ∨ s.receiver = .terminated) ∨
      ∃ e s', Event.OfReceiver e ∧ ChatSession.step o json s e = some s' := by
  have hact : ∀ {a : Action}, Event.OfReceiver (.act a) → s.receiver ≠ .terminated →
      (s.act o json a).isSome = true →
      ∃ e s', Event.OfReceiver e ∧ ChatSession.step o json s e = some s' := by
    intro a ha hrunning hsome
    obtain ⟨s', hs'⟩ := Option.isSome_iff_exists.mp hsome
    exact ⟨.act a, s', ha, by rw [ChatSession.step, if_neg hrunning, hs']⟩
  cases hreceiver : s.receiver with
  | startReceiving =>
    exact Or.inr (hact (a := .startReceiving) trivial (by simp [hreceiver])
      (by rw [act, if_pos hreceiver]; rfl))
  | loop =>
    exact Or.inr (hact (a := .test) trivial (by simp [hreceiver])
      (by rw [act, if_pos hreceiver]; rfl))
  | recvHeader =>
    have hincoming := h.ahead.unread (Or.inr (Or.inr hreceiver))
    cases rest with
    | nil => exact Or.inl (Or.inl ⟨hreceiver, hincoming⟩)
    | cons f rest =>
      have hread := recvHeader_frame (h.mem_rest List.mem_cons_self).1 h.connected hincoming
      exact Or.inr (hact (a := .recv) trivial (by simp [hreceiver])
        (by rw [act, hreceiver]; simp only [hread]; rfl))
  | recvPayload head =>
    obtain ⟨f, behind, rfl, rfl, hincoming⟩ := h.ahead.of_header hreceiver
    have hread := recvPayload_frame (o := o) (h.mem_rest List.mem_cons_self).1 hincoming
    exact Or.inr (hact (a := .recv) trivial (by simp [hreceiver])
      (by rw [act, hreceiver]; simp only [hread]; rfl))
  | received r =>
    exact Or.inr (hact (a := .handle) trivial (by simp [hreceiver])
      (by rw [act, hreceiver]; rfl))
  | ended => exact absurd hreceiver h.ahead.ne_ended
  | terminated => exact Or.inl (Or.inr rfl)

/-- What a client is shown of packets it receives in a session, as long as "/exit" has not been
typed: at each moment an initial part of `x` is printed, and once all the packets have been sent
the receiver thread comes to print the whole of it; it is ended by an exception if `x` says so. -/
def Shows (o : ByteOrder) (json : Nlohmann) (packets : List Packet) (x : Shown) : Prop :=
  ∀ code events s, Transition.runFrom (ChatSession.step o json) (init code) events = some s →
    .act .exitRoom ∉ events →
    (s.packets <+: packets → s.printed <+: x.1) ∧
    (s.packets = packets → Transition.Inevitable (ChatSession.step o json) Event.OfReceiver
      (fun s' => (s'.printed, decide (s'.receiver = .terminated)) = x) s)

theorem watched_of_run {code : Bytes} {events : List Event}
    (hrun : Transition.runFrom (ChatSession.step o json) (init code) events = some s)
    (hexit : .act .exitRoom ∉ events) : ∃ done rest, Watched o json s done rest := by
  refine Transition.Visits.invariant (J := fun s => ∃ done rest, Watched o json s done rest)
    (G := fun _ e => e ≠ .act .exitRoom) ?_ hrun ⟨[], [], watched_init o json code⟩ ?_ s
    (Transition.Visits.last hrun)
  · rintro s e s' ⟨done, rest, h⟩ he hstep
    exact h.step he hstep
  · rintro s e htakes rfl
    exact hexit htakes.mem

/-- The receiver thread comes to print all that has been sent. -/
theorem Watched.inevitable (h : Watched o json s done rest) :
    Transition.Inevitable (ChatSession.step o json) Event.OfReceiver
      (fun s' => (s'.printed, decide (s'.receiver = .terminated)) = screen json s.packets) s := by
  have hwf : WellFounded fun s' s : ChatSession =>
      ∃ e, Event.OfReceiver e ∧ ChatSession.step o json s e = some s' := by
    refine Subrelation.wf ?_ (measure toDo).wf
    rintro s' s ⟨e, he, hstep⟩
    exact (toDo_lt he hstep).1
  have hend := Transition.Inevitable.of_wellFounded (A := Event.OfReceiver)
    (J := fun s' => s'.packets = s.packets ∧ ∃ done rest, Watched o json s' done rest)
    (P := fun s' => (s'.Waiting ∨ s'.receiver = .terminated) ∧ s'.packets = s.packets ∧
      ∃ done rest, Watched o json s' done rest) hwf ?_ ?_ ⟨rfl, done, rest, h⟩
  · refine hend.mono ?_
    rintro s' ⟨hwaiting | hterminated, hpackets, done', rest', h'⟩
    · rw [← hpackets, h'.of_waiting hwaiting, hwaiting.1]
      rfl
    · rw [← hpackets, h'.of_terminated hterminated, hterminated]
      rfl
  · rintro s' e s'' ⟨hpackets, done', rest', h'⟩ he hstep
    refine ⟨(toDo_lt he hstep).2.trans hpackets, h'.step ?_ hstep⟩
    rintro rfl
    exact he
  · rintro s' ⟨hpackets, done', rest', h'⟩
    exact h'.moves.imp_left fun hend => ⟨hend, hpackets, done', rest', h'⟩

/-- **A client is shown what `screen` makes of the packets it is sent.** -/
theorem shows_screen (o : ByteOrder) (json : Nlohmann) (packets : List Packet) :
    Shows o json packets (screen json packets) := by
  intro code events s hrun hexit
  obtain ⟨done, rest, h⟩ := watched_of_run hrun hexit
  refine ⟨fun hprefix => h.printed_prefix.trans ?_, fun heq => heq ▸ h.inevitable⟩
  obtain ⟨later, rfl⟩ := hprefix
  rw [screen_append, Shown.andThen]
  by_cases hends : (screen json s.packets).2 = true
  · rw [if_pos hends]
  · rw [if_neg hends]
    exact List.prefix_append _ _

end ChatSession

end SocketChat
