/-
A chat session of the client.

Two threads receive from one socket: the main thread in `RoomService::ExitRoom`, which takes
what `Receive` returns for the answer to EXIT_ROOM, and the receiver thread in
`ChatService::ReceiveLoop`.  A `Receive` calls `recv` twice, for the header and for the
payload, and the other thread can run in between.  `m_is_receiving` is set by the receiver
thread when it starts, and cleared by the main thread before it joins the receiver thread.

The server sends room traffic and, once it is asked to, the answer.  Every byte carries the
number of the frame it was sent in, which no step reads.
-/
import SocketChat.Client.NetworkClient
import SocketChat.Client.PacketHandler
import SocketChat.Lib.Writers

namespace SocketChat

open Socket

namespace Client

/-- Bytes, each with the number of its frame. -/
abbrev Labelled := List (ℕ × UInt8)

/-- The bytes of which `Receive` makes a packet. -/
structure Received where
  header : Labelled
  payload : Labelled
  deriving DecidableEq

def Received.packet (o : ByteOrder) (r : Received) : Packet :=
  match r.header.map Prod.snd with
  | [t₀, t₁, s₀, s₁] => ⟨o.ntohs (o.load t₀ t₁), o.ntohs (o.load s₀ s₁), r.payload.map Prod.snd⟩
  | _ => ⟨0, 0, []⟩

/-- `header.size`. -/
def payloadSize (o : ByteOrder) (header : Labelled) : UInt16 :=
  (Received.packet o ⟨header, []⟩).size

/-- The answers to EXIT_ROOM. -/
def IsExitAnswer (type : PacketType) : Prop :=
  type = PacketType.roomExitOk ∨ type = PacketType.roomExitFail

instance (type : PacketType) : Decidable (IsExitAnswer type) :=
  inferInstanceAs (Decidable (_ ∨ _))

/-- The main thread in `InputLoop`, when "/exit" has been typed. -/
inductive MainThread where
  /-- About to call `ExitRoom`. -/
  | exitRoom
  | recvHeader
  | recvPayload (header : Labelled)
  | stopReceiving
  | join
  | left
  deriving DecidableEq

/-- The receiver thread. -/
inductive ReceiverThread where
  | startReceiving
  /-- About to test the condition of `ReceiveLoop`. -/
  | loop
  | recvHeader
  | recvPayload (header : Labelled)
  /-- `Receive` has returned true. -/
  | received (r : Received)
  | ended
  /-- An exception has left the thread and terminated the process. -/
  | terminated
  deriving DecidableEq

inductive Reader where
  | main
  | receiver
  deriving DecidableEq

inductive ExitRequest where
  | unsent
  | unanswered
  | answered
  deriving DecidableEq

end Client

open Client

/-- The state of a session.  `sent` lists the frames the server has sent, `incoming` holds the
bytes not received yet; `returned` lists what calls of `Receive` have returned, and
`callback` the messages passed to the callback, each with the frame it was read from. -/
structure ChatSession where
  sent : List (ℕ × Packet)
  incoming : Labelled
  request : ExitRequest
  connected : Bool
  m_is_receiving : Bool
  m_current_room_code : Bytes
  main : MainThread
  receiver : ReceiverThread
  returned : List (Reader × Received)
  callback : List (Received × Message)
  deriving DecidableEq

namespace ChatSession

/-- `StartChatSession` has created the receiver thread, which has not run yet. -/
def init (code : Bytes) : ChatSession where
  sent := []
  incoming := []
  request := .unsent
  connected := true
  m_is_receiving := false
  m_current_room_code := code
  main := .exitRoom
  receiver := .startReceiving
  returned := []
  callback := []

/-! ### Receive -/

/-- How far a call of `Receive` has come. -/
inductive Receiving where
  | failed
  | payload (header : Labelled)
  | returned (r : Received)

/-- `Receive` up to its second call of `recv`, which fails on a descriptor that is closed. -/
def recvHeader (o : ByteOrder) (s : ChatSession) : Option (Receiving × ChatSession) :=
  if s.incoming.length < sizeofPacketHeader then none
  else
    let header := s.incoming.take sizeofPacketHeader
    let rest := { s with incoming := s.incoming.drop sizeofPacketHeader }
    let size := payloadSize o header
    if 0 < size then
      if size.toNat > maxPayloadSize then some (.failed, { rest with connected := false })
      else if s.connected then some (.payload header, rest)
      else some (.failed, rest)
    else some (.returned ⟨header, []⟩, rest)

/-- `Receive` from its second call of `recv` on. -/
def recvPayload (o : ByteOrder) (header : Labelled) (s : ChatSession) :
    Option (Receiving × ChatSession) :=
  let count := (payloadSize o header).toNat
  if s.incoming.length < count then none
  else some (.returned ⟨header, s.incoming.take count⟩,
    { s with incoming := s.incoming.drop count })

/-- The main thread goes on in, or behind, the `Receive` of `ExitRoom`. -/
def mainAfter (o : ByteOrder) (s : ChatSession) : Receiving → ChatSession
  | .failed => { s with main := .stopReceiving }
  | .payload header => { s with main := .recvPayload header }
  | .returned r =>
    { s with
      main := .stopReceiving
      m_current_room_code :=
        if (r.packet o).type = PacketType.roomExitOk then [] else s.m_current_room_code
      returned := s.returned ++ [(.main, r)] }

/-- The receiver thread goes on in, or behind, the `Receive` of `ReceiveLoop`. -/
def receiverAfter (s : ChatSession) : Receiving → ChatSession
  | .failed => { s with m_is_receiving := false, receiver := .ended }
  | .payload header => { s with receiver := .recvPayload header }
  | .returned r => { s with receiver := .received r, returned := s.returned ++ [(.receiver, r)] }

/-- The receiver thread receives no more. -/
def Over (s : ChatSession) : Prop := s.receiver = .ended ∨ s.receiver = .terminated

/-! ### Steps -/

/-- What the client's threads do. -/
inductive Action where
  | exitRoom
  | mainRecv
  | stopReceiving
  | join
  | startReceiving
  | test
  | recv
  | handle
  deriving DecidableEq

def act (o : ByteOrder) (json : Nlohmann) (s : ChatSession) : Action → Option ChatSession
  | .exitRoom =>
    if s.main = .exitRoom ∧ s.m_current_room_code ≠ [] then
      some (if s.connected then { s with request := .unanswered, main := .recvHeader }
        else { s with main := .stopReceiving })
    else none
  | .mainRecv =>
    match s.main with
    | .recvHeader => (recvHeader o s).map fun x => x.2.mainAfter o x.1
    | .recvPayload header => (recvPayload o header s).map fun x => x.2.mainAfter o x.1
    | _ => none
  | .stopReceiving =>
    if s.main = .stopReceiving then some { s with m_is_receiving := false, main := .join }
    else none
  | .join =>
    if s.main = .join ∧ s.receiver = .ended then some { s with main := .left } else none
  | .startReceiving =>
    if s.receiver = .startReceiving then some { s with m_is_receiving := true, receiver := .loop }
    else none
  | .test =>
    if s.receiver = .loop then
      some (if s.m_is_receiving ∧ s.connected then { s with receiver := .recvHeader }
        else { s with m_is_receiving := false, receiver := .ended })
    else none
  | .recv =>
    match s.receiver with
    | .recvHeader => (recvHeader o s).map fun x => x.2.receiverAfter x.1
    | .recvPayload header => (recvPayload o header s).map fun x => x.2.receiverAfter x.1
    | _ => none
  | .handle =>
    match s.receiver with
    | .received r =>
      some (if ChatService.IsMessage (r.packet o).type then
        match parseMessagePacket json (r.packet o) with
        | .ok message => { s with receiver := .loop, callback := s.callback ++ [(r, message)] }
        | .error _ => { s with receiver := .terminated }
      else { s with receiver := .loop })
    | _ => none

inductive Event where
  /-- The server sends a chat message or a notice. -/
  | frame (p : Packet)
  /-- The server answers EXIT_ROOM. -/
  | answer (p : Packet)
  | act (a : Action)
  deriving DecidableEq

/-- The server sends a frame. -/
def put (o : ByteOrder) (s : ChatSession) (p : Packet) : ChatSession :=
  { s with
    sent := s.sent ++ [(s.sent.length, p)]
    incoming := s.incoming ++ Writers.tag s.sent.length (p.encode o) }

def step (o : ByteOrder) (json : Nlohmann) (s : ChatSession) : Event → Option ChatSession
  | .frame p => if p.Filled ∧ ChatService.IsMessage p.type then some (s.put o p) else none
  | .answer p =>
    if p.Filled ∧ IsExitAnswer p.type ∧ s.request = .unanswered then
      some { s.put o p with request := .answered }
    else none
  | .act a => if s.receiver = .terminated then none else s.act o json a

variable {o : ByteOrder} {json : Nlohmann} {s t u : ChatSession}

/-! ### What a step leaves alone -/

@[simp] theorem sent_mainAfter (x : Receiving) : (s.mainAfter o x).sent = s.sent := by
  cases x <;> rfl

@[simp] theorem incoming_mainAfter (x : Receiving) :
    (s.mainAfter o x).incoming = s.incoming := by
  cases x <;> rfl

@[simp] theorem request_mainAfter (x : Receiving) : (s.mainAfter o x).request = s.request := by
  cases x <;> rfl

@[simp] theorem receiver_mainAfter (x : Receiving) :
    (s.mainAfter o x).receiver = s.receiver := by
  cases x <;> rfl

@[simp] theorem callback_mainAfter (x : Receiving) :
    (s.mainAfter o x).callback = s.callback := by
  cases x <;> rfl

@[simp] theorem sent_receiverAfter (x : Receiving) : (s.receiverAfter x).sent = s.sent := by
  cases x <;> rfl

@[simp] theorem incoming_receiverAfter (x : Receiving) :
    (s.receiverAfter x).incoming = s.incoming := by
  cases x <;> rfl

@[simp] theorem request_receiverAfter (x : Receiving) :
    (s.receiverAfter x).request = s.request := by
  cases x <;> rfl

@[simp] theorem main_receiverAfter (x : Receiving) : (s.receiverAfter x).main = s.main := by
  cases x <;> rfl

/-- The size the next header declares. -/
def nextSize (o : ByteOrder) (s : ChatSession) : UInt16 :=
  payloadSize o (s.incoming.take sizeofPacketHeader)

/-- The stream without the next header. -/
def behindHeader (s : ChatSession) : ChatSession :=
  { s with incoming := s.incoming.drop sizeofPacketHeader }

/-- How the first `recv` of a `Receive` can end. -/
inductive HeaderRead (o : ByteOrder) (s : ChatSession) : Receiving × ChatSession → Prop
  | whole (hsize : s.nextSize o = 0) :
      HeaderRead o s (.returned ⟨s.incoming.take sizeofPacketHeader, []⟩, s.behindHeader)
  | payload (hsize : (s.nextSize o).toNat ≤ maxPayloadSize) (hconnected : s.connected = true) :
      HeaderRead o s (.payload (s.incoming.take sizeofPacketHeader), s.behindHeader)
  | oversized (hsize : maxPayloadSize < (s.nextSize o).toNat) :
      HeaderRead o s (.failed, { s.behindHeader with connected := false })
  | closed (hconnected : s.connected = false) : HeaderRead o s (.failed, s.behindHeader)

theorem headerRead_of_recvHeader {x : Receiving × ChatSession} (h : recvHeader o s = some x) :
    sizeofPacketHeader ≤ s.incoming.length ∧ HeaderRead o s x := by
  rw [recvHeader, Option.ite_none_left_eq_some] at h
  obtain ⟨hlen, h⟩ := h
  refine ⟨Nat.not_lt.mp hlen, ?_⟩
  have h : (if 0 < s.nextSize o then
      if (s.nextSize o).toNat > maxPayloadSize then
        some (Receiving.failed, { s.behindHeader with connected := false })
      else if s.connected then
        some (Receiving.payload (s.incoming.take sizeofPacketHeader), s.behindHeader)
      else some (Receiving.failed, s.behindHeader)
    else some (Receiving.returned ⟨s.incoming.take sizeofPacketHeader, []⟩, s.behindHeader)) =
      some x := h
  by_cases hsize : 0 < s.nextSize o
  · rw [if_pos hsize] at h
    by_cases hlarge : (s.nextSize o).toNat > maxPayloadSize
    · rw [if_pos hlarge, Option.some_inj] at h
      exact h ▸ .oversized hlarge
    · rw [if_neg hlarge] at h
      by_cases hconnected : s.connected = true
      · rw [if_pos hconnected, Option.some_inj] at h
        exact h ▸ .payload (Nat.not_lt.mp hlarge) hconnected
      · rw [if_neg hconnected, Option.some_inj] at h
        exact h ▸ .closed (by simpa using hconnected)
  · rw [if_neg hsize, Option.some_inj] at h
    exact h ▸ .whole (UInt16.toNat_inj.mp (Nat.eq_zero_of_not_pos hsize))

/-- A header is read: four bytes are taken from the stream. -/
theorem of_recvHeader {x : Receiving × ChatSession} (h : recvHeader o s = some x) :
    sizeofPacketHeader ≤ s.incoming.length ∧ ∃ connected, x.2 =
      { s with incoming := s.incoming.drop sizeofPacketHeader, connected := connected } := by
  obtain ⟨hlen, hread⟩ := headerRead_of_recvHeader h
  refine ⟨hlen, ?_⟩
  cases hread with
  | oversized => exact ⟨false, rfl⟩
  | _ => exact ⟨s.connected, rfl⟩

theorem exists_recvHeader (h : sizeofPacketHeader ≤ s.incoming.length) :
    ∃ x, recvHeader o s = some x := by
  rw [recvHeader, if_neg (Nat.not_lt.mpr h)]
  simp only
  split_ifs <;> exact ⟨_, rfl⟩

/-- A payload is read. -/
theorem of_recvPayload {h : Labelled} {x : Receiving × ChatSession}
    (hx : recvPayload o h s = some x) :
    (payloadSize o h).toNat ≤ s.incoming.length ∧
      x.1 = .returned ⟨h, s.incoming.take (payloadSize o h).toNat⟩ ∧
      x.2 = { s with incoming := s.incoming.drop (payloadSize o h).toNat } := by
  rw [recvPayload] at hx
  by_cases hshort : s.incoming.length < (payloadSize o h).toNat
  · rw [if_pos hshort] at hx
    cases hx
  · rw [if_neg hshort, Option.some_inj] at hx
    exact ⟨Nat.not_lt.mp hshort, hx ▸ rfl, hx ▸ rfl⟩

/-! ### What a step does -/

/-- The steps, each with what it needs and what it leads to. -/
inductive Stepped (o : ByteOrder) (json : Nlohmann) (s : ChatSession) : Event → ChatSession → Prop
  | frame {p : Packet} (hfilled : p.Filled) (hkind : ChatService.IsMessage p.type) :
      Stepped o json s (.frame p) (s.put o p)
  | answer {p : Packet} (hfilled : p.Filled) (hkind : IsExitAnswer p.type)
      (hrequest : s.request = .unanswered) :
      Stepped o json s (.answer p) { s.put o p with request := .answered }
  | exitRoom (hmain : s.main = .exitRoom) (hconnected : s.connected = true) :
      Stepped o json s (.act .exitRoom) { s with request := .unanswered, main := .recvHeader }
  | notConnected (hmain : s.main = .exitRoom) (hconnected : s.connected = false) :
      Stepped o json s (.act .exitRoom) { s with main := .stopReceiving }
  | mainHeader {x : Receiving × ChatSession} (hmain : s.main = .recvHeader)
      (hx : s.recvHeader o = some x) : Stepped o json s (.act .mainRecv) (x.2.mainAfter o x.1)
  | mainPayload {h : Labelled} {x : Receiving × ChatSession} (hmain : s.main = .recvPayload h)
      (hx : s.recvPayload o h = some x) : Stepped o json s (.act .mainRecv) (x.2.mainAfter o x.1)
  | stopReceiving (hmain : s.main = .stopReceiving) :
      Stepped o json s (.act .stopReceiving) { s with m_is_receiving := false, main := .join }
  | join (hmain : s.main = .join) (hended : s.receiver = .ended) :
      Stepped o json s (.act .join) { s with main := .left }
  | startReceiving (hreceiver : s.receiver = .startReceiving) :
      Stepped o json s (.act .startReceiving) { s with m_is_receiving := true, receiver := .loop }
  | goOn (hreceiver : s.receiver = .loop) (hflag : s.m_is_receiving = true)
      (hconnected : s.connected = true) :
      Stepped o json s (.act .test) { s with receiver := .recvHeader }
  | leaveLoop (hreceiver : s.receiver = .loop)
      (hnot : ¬ (s.m_is_receiving = true ∧ s.connected = true)) :
      Stepped o json s (.act .test) { s with m_is_receiving := false, receiver := .ended }
  | header {x : Receiving × ChatSession} (hreceiver : s.receiver = .recvHeader)
      (hx : s.recvHeader o = some x) : Stepped o json s (.act .recv) (x.2.receiverAfter x.1)
  | payload {h : Labelled} {x : Receiving × ChatSession} (hreceiver : s.receiver = .recvPayload h)
      (hx : s.recvPayload o h = some x) : Stepped o json s (.act .recv) (x.2.receiverAfter x.1)
  | message {r : Received} {m : Message} (hreceiver : s.receiver = .received r)
      (hkind : ChatService.IsMessage (r.packet o).type)
      (hparse : parseMessagePacket json (r.packet o) = .ok m) :
      Stepped o json s (.act .handle)
        { s with receiver := .loop, callback := s.callback ++ [(r, m)] }
  | raise {r : Received} {e : Json.Error} (hreceiver : s.receiver = .received r)
      (hkind : ChatService.IsMessage (r.packet o).type)
      (hparse : parseMessagePacket json (r.packet o) = .error e) :
      Stepped o json s (.act .handle) { s with receiver := .terminated }
  | ignore {r : Received} (hreceiver : s.receiver = .received r)
      (hkind : ¬ ChatService.IsMessage (r.packet o).type) :
      Stepped o json s (.act .handle) { s with receiver := .loop }

theorem stepped_of_act {a : Action} (h : s.act o json a = some t) :
    Stepped o json s (.act a) t := by
  cases a with
  | exitRoom =>
    rw [act] at h
    by_cases hmain : s.main = .exitRoom ∧ s.m_current_room_code ≠ []
    · rw [if_pos hmain, Option.some_inj] at h
      subst h
      by_cases hconnected : s.connected = true
      · rw [if_pos hconnected]
        exact .exitRoom hmain.1 hconnected
      · rw [if_neg hconnected]
        exact .notConnected hmain.1 (by simpa using hconnected)
    · rw [if_neg hmain] at h
      cases h
  | mainRecv =>
    rw [act] at h
    cases hmain : s.main with
    | recvHeader =>
      rw [hmain] at h
      obtain ⟨x, hx, rfl⟩ := Option.map_eq_some_iff.mp h
      exact .mainHeader hmain hx
    | recvPayload header =>
      rw [hmain] at h
      obtain ⟨x, hx, rfl⟩ := Option.map_eq_some_iff.mp h
      exact .mainPayload hmain hx
    | _ => rw [hmain] at h; cases h
  | stopReceiving =>
    rw [act, Option.ite_none_right_eq_some, Option.some_inj] at h
    exact h.2 ▸ .stopReceiving h.1
  | join =>
    rw [act, Option.ite_none_right_eq_some, Option.some_inj] at h
    exact h.2 ▸ .join h.1.1 h.1.2
  | startReceiving =>
    rw [act, Option.ite_none_right_eq_some, Option.some_inj] at h
    exact h.2 ▸ .startReceiving h.1
  | test =>
    rw [act, Option.ite_none_right_eq_some, Option.some_inj] at h
    obtain ⟨hreceiver, rfl⟩ := h
    by_cases hgo : s.m_is_receiving = true ∧ s.connected = true
    · rw [if_pos hgo]
      exact .goOn hreceiver hgo.1 hgo.2
    · rw [if_neg hgo]
      exact .leaveLoop hreceiver hgo
  | recv =>
    rw [act] at h
    cases hreceiver : s.receiver with
    | recvHeader =>
      rw [hreceiver] at h
      obtain ⟨x, hx, rfl⟩ := Option.map_eq_some_iff.mp h
      exact .header hreceiver hx
    | recvPayload header =>
      rw [hreceiver] at h
      obtain ⟨x, hx, rfl⟩ := Option.map_eq_some_iff.mp h
      exact .payload hreceiver hx
    | _ => rw [hreceiver] at h; cases h
  | handle =>
    rw [act] at h
    cases hreceiver : s.receiver with
    | received r =>
      rw [hreceiver] at h
      simp only [Option.some_inj] at h
      subst h
      by_cases hkind : ChatService.IsMessage (r.packet o).type
      · rw [if_pos hkind]
        cases hparse : parseMessagePacket json (r.packet o) with
        | ok m => exact .message hreceiver hkind hparse
        | error e => exact .raise hreceiver hkind hparse
      · rw [if_neg hkind]
        exact .ignore hreceiver hkind
    | _ => rw [hreceiver] at h; cases h

/-- **What a step does.** -/
theorem stepped_of_step {e : Event} (h : step o json s e = some t) :
    Stepped o json s e t ∧ ∀ a, e = .act a → s.receiver ≠ .terminated := by
  cases e with
  | frame p =>
    rw [step, Option.ite_none_right_eq_some, Option.some_inj] at h
    exact ⟨h.2 ▸ .frame h.1.1 h.1.2, fun a => Event.noConfusion⟩
  | answer p =>
    rw [step, Option.ite_none_right_eq_some, Option.some_inj] at h
    exact ⟨h.2 ▸ .answer h.1.1 h.1.2.1 h.1.2.2, fun a => Event.noConfusion⟩
  | act a =>
    rw [step, Option.ite_none_left_eq_some] at h
    exact ⟨stepped_of_act h.2, fun _ _ => h.1⟩

/-! ### Whole frames -/

/-- The header of a frame that was sent. -/
def header (o : ByteOrder) (f : ℕ × Packet) : Labelled :=
  Writers.tag f.1 ((f.2.encode o).take sizeofPacketHeader)

/-- What `Receive` reads of a frame that was sent, if it reads that frame and no other. -/
def frame (o : ByteOrder) (f : ℕ × Packet) : Received := ⟨header o f, Writers.tag f.1 f.2.text⟩

theorem drop_encode (o : ByteOrder) (p : Packet) :
    (p.encode o).drop sizeofPacketHeader = p.text := by
  rw [Packet.encode_eq]
  rfl

theorem tag_encode (o : ByteOrder) (f : ℕ × Packet) :
    Writers.tag f.1 (f.2.encode o) = header o f ++ Writers.tag f.1 f.2.text := by
  rw [header, ← drop_encode o, ← Writers.tag_append, List.take_append_drop]

theorem length_header (o : ByteOrder) (f : ℕ × Packet) :
    (header o f).length = sizeofPacketHeader := by
  rw [header, Packet.encode_eq]
  rfl

theorem packet_frame (o : ByteOrder) (f : ℕ × Packet) : (frame o f).packet o = f.2.trim := by
  have hheader : (header o f).map Prod.snd = [ByteOrder.hi f.2.type, ByteOrder.lo f.2.type,
      ByteOrder.hi f.2.size, ByteOrder.lo f.2.size] := by
    rw [header, Writers.map_snd_tag, Packet.encode_eq]
    rfl
  rw [Received.packet, frame, hheader, Writers.map_snd_tag]
  simp only [ByteOrder.ntohs_load, ByteOrder.word_hi_lo]
  rfl

theorem payloadSize_header (o : ByteOrder) (f : ℕ × Packet) :
    payloadSize o (header o f) = f.2.size := by
  have hsize : payloadSize o (header o f) = ((frame o f).packet o).size := by
    rw [payloadSize, Received.packet, Received.packet, frame]
    cases (header o f).map Prod.snd with
    | nil => rfl
    | cons a l => rcases l with _ | ⟨b, _ | ⟨c, _ | ⟨d, _ | ⟨e, l⟩⟩⟩⟩ <;> rfl
  rw [hsize, packet_frame]
  rfl

theorem text_of_size {p : Packet} (h : ¬ 0 < p.size) : p.text = [] := by
  have hzero : p.size.toNat = 0 := Nat.eq_zero_of_not_pos h
  rw [Packet.text, hzero, List.take_zero]

/-- A header is read where a frame starts. -/
theorem recvHeader_frame {f : ℕ × Packet} {rest : Labelled} (hfilled : f.2.Filled)
    (hconnected : s.connected = true)
    (hincoming : s.incoming = Writers.tag f.1 (f.2.encode o) ++ rest) :
    recvHeader o s = some (if 0 < f.2.size then .payload (header o f) else .returned (frame o f),
      { s with incoming := Writers.tag f.1 f.2.text ++ rest }) := by
  have hlen := length_header o f
  rw [tag_encode, List.append_assoc] at hincoming
  have htake : s.incoming.take sizeofPacketHeader = header o f := by
    rw [hincoming, List.take_left' hlen]
  have hdrop : s.incoming.drop sizeofPacketHeader = Writers.tag f.1 f.2.text ++ rest := by
    rw [hincoming, List.drop_left' hlen]
  have henough : ¬ s.incoming.length < sizeofPacketHeader := by
    rw [hincoming, List.length_append, hlen]
    omega
  rw [recvHeader, if_neg henough]
  simp only [htake, hdrop, payloadSize_header]
  by_cases hsize : 0 < f.2.size
  · rw [if_pos hsize, if_pos hsize, if_neg (Nat.not_lt.mpr hfilled.2), if_pos hconnected]
  · rw [if_neg hsize, if_neg hsize, frame, text_of_size hsize]
    rfl

/-- The payload of a frame is read. -/
theorem recvPayload_frame {f : ℕ × Packet} {rest : Labelled} (hfilled : f.2.Filled)
    (hincoming : s.incoming = Writers.tag f.1 f.2.text ++ rest) :
    recvPayload o (header o f) s = some (.returned (frame o f), { s with incoming := rest }) := by
  have hlen : (Writers.tag f.1 f.2.text).length = f.2.size.toNat := by
    rw [Writers.tag, List.length_map, Packet.length_text hfilled]
  have henough : ¬ s.incoming.length < f.2.size.toNat := by
    rw [hincoming, List.length_append, hlen]
    omega
  have htake : s.incoming.take f.2.size.toNat = Writers.tag f.1 f.2.text := by
    rw [hincoming, List.take_left' hlen]
  have hdrop : s.incoming.drop f.2.size.toNat = rest := by
    rw [hincoming, List.drop_left' hlen]
  rw [recvPayload, payloadSize_header]
  simp only [if_neg henough, htake, hdrop]
  rfl

/-- The packet `Receive` gives, if it returns true. -/
def Receiving.packet? (o : ByteOrder) : Receiving → Option Packet
  | .returned r => some (r.packet o)
  | _ => none

/-- A `Receive` during which the other thread takes no step. -/
def receive (o : ByteOrder) (s : ChatSession) : Option (Receiving × ChatSession) :=
  (recvHeader o s).bind fun x =>
    match x.1 with
    | .payload header => recvPayload o header x.2
    | _ => some x

/-- It does what `NetworkClient::Receive` does. -/
theorem receive_eq (hconnected : s.connected = true) {x : Receiving}
    (hreceive : receive o s = some (x, t)) :
    NetworkClient.receive o ⟨true, s.incoming.map Prod.snd⟩ .full .full =
      (x.packet? o, ⟨t.connected, t.incoming.map Prod.snd⟩) := by
  -- either part of a header is there, or the header can be taken apart
  rcases hincoming : s.incoming with _ | ⟨b₀, _ | ⟨b₁, _ | ⟨b₂, _ | ⟨b₃, rest⟩⟩⟩⟩
  iterate 4
    · have hshort : s.incoming.length < sizeofPacketHeader := by
        rw [hincoming, sizeofPacketHeader]
        simp
      rw [receive, recvHeader, if_pos hshort] at hreceive
      cases hreceive
  have henough : ¬ s.incoming.length < sizeofPacketHeader := by
    rw [hincoming, sizeofPacketHeader]
    simp
  have hsize : payloadSize o [b₀, b₁, b₂, b₃] = o.ntohs (o.load b₂.2 b₃.2) := rfl
  rw [receive, recvHeader, if_neg henough] at hreceive
  simp only [hincoming, sizeofPacketHeader, List.take_succ_cons, List.take_zero,
    List.drop_succ_cons, List.drop_zero, hsize] at hreceive
  simp only [NetworkClient.receive, recvWaitAll, sizeofPacketHeader, List.map_cons,
    List.take_succ_cons, List.take_zero, List.drop_succ_cons, List.drop_zero]
  -- one case for each branch of `Receive`
  by_cases hpos : 0 < o.ntohs (o.load b₂.2 b₃.2)
  · rw [if_pos hpos] at hreceive ⊢
    by_cases hlarge : (o.ntohs (o.load b₂.2 b₃.2)).toNat > maxPayloadSize
    · rw [if_pos hlarge] at hreceive ⊢
      obtain ⟨rfl, rfl⟩ := Prod.mk.inj (Option.some.inj hreceive)
      rfl
    · rw [if_neg hlarge, if_pos hconnected, Option.bind_some] at hreceive
      rw [if_neg hlarge]
      simp only [recvPayload, hsize] at hreceive
      by_cases hmissing : rest.length < (o.ntohs (o.load b₂.2 b₃.2)).toNat
      · rw [if_pos hmissing] at hreceive
        cases hreceive
      · rw [if_neg hmissing] at hreceive
        obtain ⟨rfl, rfl⟩ := Prod.mk.inj (Option.some.inj hreceive)
        have hlen : ((rest.map Prod.snd).take (o.ntohs (o.load b₂.2 b₃.2)).toNat).length =
            (o.ntohs (o.load b₂.2 b₃.2)).toNat := by
          rw [List.length_take, List.length_map]
          omega
        simp only [hlen, ne_eq, not_true_eq_false, if_false, hconnected]
        rw [← List.map_take, ← List.map_drop]
        rfl
  · rw [if_neg hpos] at hreceive ⊢
    obtain ⟨rfl, rfl⟩ := Prod.mk.inj (Option.some.inj hreceive)
    rw [hconnected]
    rfl

/-! ### A session -/

/-- MESSAGE_CHAT. -/
def chatPacket : Packet :=
  Packet.ofText PacketType.messageChat
    (str "\x7b\"message\":\"hi\",\"sender_nickname\":\"bob\"\x7d")

/-- ROOM_EXIT_OK. -/
def exitOkPacket : Packet := Packet.ofText PacketType.roomExitOk []

/-- Two messages arrive, one before "/exit" and one behind it, and then the answer; the
receiver thread is still busy with the second when the main thread stops it. -/
def politeExit : List Event :=
  [.act .startReceiving, .act .test, .frame chatPacket, .act .recv, .act .recv, .act .handle,
    .act .test, .act .exitRoom, .frame chatPacket, .act .recv, .act .recv, .answer exitOkPacket,
    .act .mainRecv, .act .stopReceiving, .act .handle, .act .test, .act .join]

end ChatSession

end SocketChat
