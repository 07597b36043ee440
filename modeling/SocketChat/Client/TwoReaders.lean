/-
Two readers on one stream.

`ExitRoom` and `ReceiveLoop` both call `Receive`, and take whichever frame, or part of one,
comes next.  `separate_iff_keepsApart` shows in exactly which runs each gets its own: those
in which `ExitRoom` reads a header when the answer is next and `ReceiveLoop` when it is not,
neither reads between the other's header and payload, every message can be parsed, and
`ReceiveLoop` does not end before all the messages are read.
-/
import SocketChat.Client.ChatSession

namespace SocketChat

open Socket Client

namespace ChatSession

/-- How many bytes of frame `i` are not received yet. -/
def unread (s : ChatSession) (i : ℕ) : ℕ := s.incoming.countP fun x => x.1 = i

/-- **Each reader gets its own frames.**  Whatever `Receive` returns is one whole frame.  An
answer to EXIT_ROOM is unread, or being read by `ExitRoom`, or was returned there.  A message
is unread, and the receiver thread still reads; or it is being read there, or has been
and is about to be handled; or it has reached the callback. -/
structure Separate (o : ByteOrder) (s : ChatSession) : Prop where
  whole : ∀ x ∈ s.returned, ∃ f ∈ s.sent, x.2 = frame o f
  answer : ∀ f ∈ s.sent, IsExitAnswer f.2.type →
    s.unread f.1 = (f.2.encode o).length ∨
    s.main = .recvPayload (header o f) ∧ s.unread f.1 = f.2.text.length ∨
    (.main, frame o f) ∈ s.returned
  message : ∀ f ∈ s.sent, ChatService.IsMessage f.2.type →
    s.unread f.1 = (f.2.encode o).length ∧ ¬ s.Over ∨
    s.receiver = .recvPayload (header o f) ∧ s.unread f.1 = f.2.text.length ∨
    s.receiver = .received (frame o f) ∨
    ∃ message, (frame o f, message) ∈ s.callback

/-- The next byte to be received is one of frame `f`. -/
def Next (s : ChatSession) (f : ℕ × Packet) : Prop :=
  f ∈ s.sent ∧ s.incoming.head?.map Prod.fst = some f.1

/-- The condition on a step. -/
def Event.KeepsApart (o : ByteOrder) (json : Nlohmann) (s : ChatSession) : Event → Prop
  | .frame _ => ¬ s.Over
  | .act .mainRecv => s.main = .recvHeader →
      (∀ h, s.receiver ≠ .recvPayload h) ∧ ∀ f, s.Next f → IsExitAnswer f.2.type
  | .act .recv => s.receiver = .recvHeader →
      (∀ h, s.main ≠ .recvPayload h) ∧ ∀ f, s.Next f → ¬ IsExitAnswer f.2.type
  | .act .test => s.m_is_receiving = true ∧ s.connected = true ∨
      ∀ f ∈ s.sent, ChatService.IsMessage f.2.type → s.unread f.1 = 0
  | .act .handle => ∀ r, s.receiver = .received r → ChatService.IsMessage (r.packet o).type →
      ∃ message, parseMessagePacket json (r.packet o) = .ok message
  | _ => True

variable {o : ByteOrder} {json : Nlohmann} {s s' : ChatSession} {taken rest : List (ℕ × Packet)}
  {f : ℕ × Packet}

theorem not_isMessage_of_isExitAnswer {type : PacketType} (h : IsExitAnswer type) :
    ¬ ChatService.IsMessage type := by
  rcases h with rfl | rfl <;> decide

/-! ### What is read and what is not -/

/-- What is left on the stream: the frames `rest`, of the first of which a reader may have
the header. -/
inductive Reading (o : ByteOrder) (s : ChatSession) : List (ℕ × Packet) → Prop
  | nobody {rest : List (ℕ × Packet)} (hmain : ∀ h, s.main ≠ .recvPayload h)
      (hreceiver : ∀ h, s.receiver ≠ .recvPayload h)
      (hincoming : s.incoming = Writers.frames (Packet.encode o) rest) : Reading o s rest
  | main {f : ℕ × Packet} {rest : List (ℕ × Packet)} (hf : IsExitAnswer f.2.type)
      (htext : f.2.text ≠ []) (hmain : s.main = .recvPayload (header o f))
      (hreceiver : ∀ h, s.receiver ≠ .recvPayload h)
      (hincoming : s.incoming = Writers.tag f.1 f.2.text ++ Writers.frames (Packet.encode o) rest) :
      Reading o s (f :: rest)
  | receiver {f : ℕ × Packet} {rest : List (ℕ × Packet)} (hf : ChatService.IsMessage f.2.type)
      (htext : f.2.text ≠ []) (hmain : ∀ h, s.main ≠ .recvPayload h)
      (hreceiver : s.receiver = .recvPayload (header o f))
      (hincoming : s.incoming = Writers.tag f.1 f.2.text ++ Writers.frames (Packet.encode o) rest) :
      Reading o s (f :: rest)

/-- The frames `taken` are received, each by its reader, and the frames `rest` are not. -/
structure Framed (o : ByteOrder) (s : ChatSession) (taken rest : List (ℕ × Packet)) : Prop where
  sent : s.sent = taken ++ rest
  numbers : (s.sent.map Prod.fst).Nodup
  below : ∀ f ∈ s.sent, f.1 < s.sent.length
  kind : ∀ f ∈ s.sent, f.2.Filled ∧
    (ChatService.IsMessage f.2.type ∨ IsExitAnswer f.2.type)
  connected : s.connected = true
  reading : Reading o s rest
  returned : ∀ x ∈ s.returned, ∃ f ∈ taken, x.2 = frame o f
  answer : ∀ f ∈ taken, IsExitAnswer f.2.type → (.main, frame o f) ∈ s.returned
  message : ∀ f ∈ taken, ChatService.IsMessage f.2.type →
    s.receiver = .received (frame o f) ∨ ∃ message, (frame o f, message) ∈ s.callback
  callback : ∀ x ∈ s.callback, ∃ f ∈ taken, x.1 = frame o f
  received : ∀ r, s.receiver = .received r →
    (∃ f ∈ taken, ChatService.IsMessage f.2.type ∧ r = frame o f) ∧ ∀ m, (r, m) ∉ s.callback
  running : s.receiver ≠ .terminated
  ended : s.receiver = .ended → ∀ f ∈ rest, ¬ ChatService.IsMessage f.2.type

theorem fst_eq_of_header_eq {g : ℕ × Packet} (h : header o f = header o g) : f.1 = g.1 := by
  simp only [header, Packet.encode_eq, sizeofPacketHeader, List.take_succ_cons, Writers.tag,
    List.map_cons, List.cons.injEq, Prod.mk.injEq] at h
  exact h.1.1

theorem Framed.mem_rest (h : Framed o s taken rest) (hf : f ∈ rest) : f ∈ s.sent := by
  rw [h.sent]
  exact List.mem_append_right _ hf

theorem Framed.mem_taken (h : Framed o s taken rest) (hf : f ∈ taken) : f ∈ s.sent := by
  rw [h.sent]
  exact List.mem_append_left _ hf

theorem Framed.nodup_rest (h : Framed o s taken rest) : (rest.map Prod.fst).Nodup := by
  have hnumbers := h.numbers
  rw [h.sent, List.map_append] at hnumbers
  exact hnumbers.of_append_right

/-- An unread frame is none of those that were received. -/
theorem Framed.frame_ne (h : Framed o s taken rest) (hf : f ∈ rest) {g : ℕ × Packet}
    (hg : g ∈ taken) : frame o f ≠ frame o g := by
  intro heq
  have hnumbers := h.numbers
  rw [h.sent, List.map_append, List.nodup_append] at hnumbers
  exact hnumbers.2.2 g.1 (List.mem_map_of_mem hg) f.1 (List.mem_map_of_mem hf)
    (fst_eq_of_header_eq (congrArg Received.header heq)).symm

theorem Framed.not_callback (h : Framed o s taken rest) (hf : f ∈ rest) (m : Message) :
    (frame o f, m) ∉ s.callback := by
  intro hmem
  obtain ⟨g, hg, heq⟩ := h.callback _ hmem
  exact h.frame_ne hf hg heq

theorem Framed.not_received (h : Framed o s taken rest) (hf : f ∈ rest) :
    s.receiver ≠ .received (frame o f) := by
  intro hreceived
  obtain ⟨⟨g, hg, -, heq⟩, -⟩ := h.received _ hreceived
  exact h.frame_ne hf hg heq

theorem Framed.not_returned (h : Framed o s taken rest) (hf : f ∈ rest) (reader : Reader) :
    (reader, frame o f) ∉ s.returned := by
  intro hmem
  obtain ⟨g, hg, heq⟩ := h.returned _ hmem
  exact h.frame_ne hf hg heq

/-- A frame is unread as long as it is on the stream, apart from the header that a reader
may have. -/
theorem Framed.unread_rest (h : Framed o s taken rest) (hf : f ∈ rest) :
    s.unread f.1 = (f.2.encode o).length ∨
      s.unread f.1 = f.2.text.length ∧
        (IsExitAnswer f.2.type ∧ s.main = .recvPayload (header o f) ∨
          ChatService.IsMessage f.2.type ∧ s.receiver = .recvPayload (header o f)) := by
  -- where a payload is next, only its own frame is short of a header
  have hpart : ∀ {g : ℕ × Packet} {behind : List (ℕ × Packet)}, rest = g :: behind →
      s.incoming = Writers.tag g.1 g.2.text ++ Writers.frames (Packet.encode o) behind →
      s.unread f.1 = (f.2.encode o).length ∨ f = g ∧ s.unread f.1 = f.2.text.length := by
    intro g behind hrest hincoming
    have hnodup := h.nodup_rest
    rw [hrest, List.map_cons, List.nodup_cons] at hnodup
    rw [unread, hincoming, List.countP_append]
    rcases List.mem_cons.mp (hrest ▸ hf) with rfl | hmem
    · refine Or.inr ⟨rfl, ?_⟩
      rw [Writers.countP_tag, Writers.countP_frames _ hnodup.1]
      omega
    · have hne : g.1 ≠ f.1 := fun heq => hnodup.1 (heq ▸ List.mem_map_of_mem hmem)
      refine Or.inl ?_
      rw [Writers.countP_tag_ne hne, Writers.countP_frames_of_mem hnodup.2 hmem]
      omega
  cases h.reading with
  | nobody hmain hreceiver hincoming =>
    refine Or.inl ?_
    rw [unread, hincoming]
    exact Writers.countP_frames_of_mem h.nodup_rest hf
  | main hg _ hmain hreceiver hincoming =>
    rcases hpart rfl hincoming with hall | ⟨rfl, htext⟩
    · exact Or.inl hall
    · exact Or.inr ⟨htext, Or.inl ⟨hg, hmain⟩⟩
  | receiver hg _ hmain hreceiver hincoming =>
    rcases hpart rfl hincoming with hall | ⟨rfl, htext⟩
    · exact Or.inl hall
    · exact Or.inr ⟨htext, Or.inr ⟨hg, hreceiver⟩⟩

theorem Framed.unread_taken (h : Framed o s taken rest) (hf : f ∈ taken) : s.unread f.1 = 0 := by
  have hout : f.1 ∉ rest.map Prod.fst := by
    have hnumbers := h.numbers
    rw [h.sent, List.map_append, List.nodup_append] at hnumbers
    exact fun hmem => hnumbers.2.2 f.1 (List.mem_map_of_mem hf) f.1 hmem rfl
  have hpart : ∀ {g : ℕ × Packet} {behind : List (ℕ × Packet)}, f.1 ∉ (g :: behind).map Prod.fst →
      s.incoming = Writers.tag g.1 g.2.text ++ Writers.frames (Packet.encode o) behind →
      s.unread f.1 = 0 := by
    intro g behind hout hincoming
    rw [List.map_cons, List.mem_cons, not_or] at hout
    rw [unread, hincoming, List.countP_append, Writers.countP_tag_ne (Ne.symm hout.1),
      Writers.countP_frames _ hout.2]
  cases h.reading with
  | nobody _ _ hincoming =>
    rw [unread, hincoming]
    exact Writers.countP_frames _ hout
  | main _ _ _ _ hincoming => exact hpart hout hincoming
  | receiver _ _ _ _ hincoming => exact hpart hout hincoming

theorem Framed.separate (h : Framed o s taken rest) : s.Separate o := by
  constructor
  · intro x hx
    obtain ⟨f, hf, heq⟩ := h.returned x hx
    exact ⟨f, h.mem_taken hf, heq⟩
  · intro f hf hanswer
    rw [h.sent] at hf
    rcases List.mem_append.mp hf with hf | hf
    · exact Or.inr (Or.inr (h.answer f hf hanswer))
    · rcases h.unread_rest hf with hall | ⟨htext, ⟨-, hmain⟩ | ⟨hmessage, -⟩⟩
      · exact Or.inl hall
      · exact Or.inr (Or.inl ⟨hmain, htext⟩)
      · exact absurd hmessage (not_isMessage_of_isExitAnswer hanswer)
  · intro f hf hmessage
    rw [h.sent] at hf
    rcases List.mem_append.mp hf with hf | hf
    · exact Or.inr (Or.inr (h.message f hf hmessage))
    · rcases h.unread_rest hf with hall | ⟨htext, ⟨hanswer, -⟩ | ⟨-, hreceiver⟩⟩
      · refine Or.inl ⟨hall, ?_⟩
        rintro (hended | hterminated)
        · exact h.ended hended f hf hmessage
        · exact h.running hterminated
      · exact absurd hmessage (not_isMessage_of_isExitAnswer hanswer)
      · exact Or.inr (Or.inl ⟨hreceiver, htext⟩)

/-! ### Steps that keep the readers apart -/

theorem framed_init (o : ByteOrder) (code : Bytes) : (init code).Framed o [] [] where
  sent := rfl
  numbers := List.nodup_nil
  below _ hf := absurd hf List.not_mem_nil
  kind _ hf := absurd hf List.not_mem_nil
  connected := rfl
  reading := .nobody (fun _ => MainThread.noConfusion) (fun _ => ReceiverThread.noConfusion) rfl
  returned _ hx := absurd hx List.not_mem_nil
  answer _ hf := absurd hf List.not_mem_nil
  message _ hf := absurd hf List.not_mem_nil
  callback _ hx := absurd hx List.not_mem_nil
  received _ hr := ReceiverThread.noConfusion hr
  running := ReceiverThread.noConfusion
  ended hended := ReceiverThread.noConfusion hended

/-- The server sends a frame. -/
theorem Framed.put (h : Framed o s taken rest) {p : Packet} (hfilled : p.Filled)
    (hkind : ChatService.IsMessage p.type ∨ IsExitAnswer p.type)
    (hended : s.receiver = .ended → ¬ ChatService.IsMessage p.type) :
    Framed o (s.put o p) taken (rest ++ [(s.sent.length, p)]) := by
  -- the new frame goes behind all that is there, whoever is reading
  have hincoming : ∀ (part : Labelled) (behind : List (ℕ × Packet)),
      s.incoming = part ++ Writers.frames (Packet.encode o) behind →
      (s.put o p).incoming =
        part ++ Writers.frames (Packet.encode o) (behind ++ [(s.sent.length, p)]) := by
    intro part behind heq
    simp [ChatSession.put, heq, Writers.frames]
  have hsent : ∀ f, f ∈ (s.put o p).sent ↔ f ∈ s.sent ∨ f = (s.sent.length, p) := fun f => by
    simp [ChatSession.put]
  exact
    { sent := by
        show s.sent ++ [_] = _
        rw [h.sent, List.append_assoc]
      numbers := by
        show ((s.sent ++ [(s.sent.length, p)]).map Prod.fst).Nodup
        rw [List.map_append, List.nodup_append]
        refine ⟨h.numbers, List.nodup_singleton _, fun a ha b hb => ?_⟩
        obtain ⟨f, hf, rfl⟩ := List.mem_map.mp ha
        -- the number of a frame is how many were sent before it
        have hbelow := h.below f hf
        rw [List.mem_singleton.mp hb]
        exact Nat.ne_of_lt hbelow
      below := fun f hf => by
        show f.1 < (s.sent ++ [(s.sent.length, p)]).length
        rw [List.length_append, List.length_singleton]
        rcases (hsent f).mp hf with hf | rfl
        · have hbelow := h.below f hf
          omega
        · exact Nat.lt_succ_self _
      kind := fun f hf => by
        rcases (hsent f).mp hf with hf | rfl
        · exact h.kind f hf
        · exact ⟨hfilled, hkind⟩
      connected := h.connected
      reading := by
        cases h.reading with
        | nobody hmain hreceiver heq => exact .nobody hmain hreceiver (hincoming [] _ heq)
        | main hf ht hmain hreceiver heq =>
          exact .main hf ht hmain hreceiver (hincoming _ _ heq)
        | receiver hf ht hmain hreceiver heq =>
          exact .receiver hf ht hmain hreceiver (hincoming _ _ heq)
      returned := h.returned
      answer := h.answer
      message := h.message
      callback := h.callback
      received := h.received
      running := h.running
      ended := fun hreceiver f hf => by
        rcases List.mem_append.mp hf with hf | hf
        · exact h.ended hreceiver f hf
        · rw [List.mem_singleton.mp hf]
          exact hended hreceiver }

theorem Reading.turn (h : Reading o s rest) (hincoming : s'.incoming = s.incoming)
    (hmain : ∀ h, s'.main = .recvPayload h ↔ s.main = .recvPayload h)
    (hreceiver : ∀ h, s'.receiver = .recvPayload h ↔ s.receiver = .recvPayload h) :
    Reading o s' rest := by
  cases h with
  | nobody hm hr heq =>
    exact .nobody (fun h => (hmain h).not.mpr (hm h)) (fun h => (hreceiver h).not.mpr (hr h))
      (hincoming.trans heq)
  | main hf ht hm hr heq =>
    exact .main hf ht ((hmain _).mpr hm) (fun h => (hreceiver h).not.mpr (hr h))
      (hincoming.trans heq)
  | receiver hf ht hm hr heq =>
    exact .receiver hf ht (fun h => (hmain h).not.mpr (hm h)) ((hreceiver _).mpr hr)
      (hincoming.trans heq)

/-- A step in which no `Receive` returns and no message is handled. -/
theorem Framed.turn (h : Framed o s taken rest) (hsent : s'.sent = s.sent)
    (hconnected : s'.connected = s.connected) (hreturned : s'.returned = s.returned)
    (hcallback : s'.callback = s.callback) (hreading : Reading o s' rest)
    (hreceived : ∀ r, s'.receiver = .received r ↔ s.receiver = .received r)
    (hrunning : s'.receiver ≠ .terminated)
    (hended : s'.receiver = .ended → ∀ f ∈ rest, ¬ ChatService.IsMessage f.2.type) :
    Framed o s' taken rest where
  sent := hsent.trans h.sent
  numbers := hsent ▸ h.numbers
  below := hsent ▸ h.below
  kind := hsent ▸ h.kind
  connected := hconnected.trans h.connected
  reading := hreading
  returned := hreturned ▸ h.returned
  answer := hreturned ▸ h.answer
  message := fun f hf hm => by
    rw [hreceived, hcallback]
    exact h.message f hf hm
  callback := hcallback ▸ h.callback
  received := fun r hr => by
    rw [hcallback]
    exact h.received r ((hreceived r).mp hr)
  running := hrunning
  ended := hended

/-- A frame that is taken moves from the rest to those taken. -/
theorem Framed.sent_concat (h : Framed o s taken (f :: rest)) : s.sent = taken ++ [f] ++ rest := by
  rw [h.sent, List.append_assoc, List.singleton_append]

/-- Every `Receive` that returned has returned a frame taken, the last one that of the frame
taken last. -/
theorem Framed.returned_concat (h : Framed o s taken rest) {reader : Reader}
    {x : Reader × Received} (hx : x ∈ s.returned ++ [(reader, frame o f)]) :
    ∃ g ∈ taken ++ [f], x.2 = frame o g := by
  rcases List.mem_append.mp hx with hx | hx
  · obtain ⟨g, hg, heq⟩ := h.returned x hx
    exact ⟨g, List.mem_append_left _ hg, heq⟩
  · exact ⟨f, by simp, by rw [List.mem_singleton.mp hx]⟩

theorem Framed.callback_concat (h : Framed o s taken rest) (f : ℕ × Packet) :
    ∀ x ∈ s.callback, ∃ g ∈ taken ++ [f], x.1 = frame o g := by
  intro x hx
  obtain ⟨g, hg, heq⟩ := h.callback x hx
  exact ⟨g, List.mem_append_left _ hg, heq⟩

/-- `ExitRoom` has received the answer. -/
theorem Framed.exitRoom_returns (h : Framed o s taken (f :: rest)) (hf : IsExitAnswer f.2.type)
    (hreceiver : ∀ h, s.receiver ≠ .recvPayload h) :
    Framed o (mainAfter o { s with incoming := Writers.frames (Packet.encode o) rest }
      (.returned (frame o f))) (taken ++ [f]) rest where
  sent := h.sent_concat
  numbers := h.numbers
  below := h.below
  kind := h.kind
  connected := h.connected
  reading := .nobody (fun _ => MainThread.noConfusion) hreceiver rfl
  returned := fun _ hx => h.returned_concat hx
  answer := fun g hg hanswer => by
    rcases List.mem_append.mp hg with hg | hg
    · exact List.mem_append_left _ (h.answer g hg hanswer)
    · rw [List.mem_singleton.mp hg]
      exact List.mem_append_right _ (List.mem_singleton_self _)
  message := fun g hg hmessage => by
    rcases List.mem_append.mp hg with hg | hg
    · exact h.message g hg hmessage
    · rw [List.mem_singleton.mp hg] at hmessage
      -- the frame taken is no message
      exact absurd hmessage (not_isMessage_of_isExitAnswer hf)
  callback := h.callback_concat f
  received := fun r hr => by
    obtain ⟨⟨g, hg, hmessage, heq⟩, hnot⟩ := h.received r hr
    exact ⟨⟨g, List.mem_append_left _ hg, hmessage, heq⟩, hnot⟩
  running := h.running
  ended := fun hended g hg => h.ended hended g (List.mem_cons_of_mem f hg)

/-- `ReceiveLoop` has received a message. -/
theorem Framed.receiveLoop_returns (h : Framed o s taken (f :: rest))
    (hf : ChatService.IsMessage f.2.type) (hmain : ∀ h, s.main ≠ .recvPayload h)
    (hfree : ∀ r, s.receiver ≠ .received r) :
    Framed o (receiverAfter { s with incoming := Writers.frames (Packet.encode o) rest }
      (.returned (frame o f))) (taken ++ [f]) rest where
  sent := h.sent_concat
  numbers := h.numbers
  below := h.below
  kind := h.kind
  connected := h.connected
  reading := .nobody hmain (fun _ => ReceiverThread.noConfusion) rfl
  returned := fun _ hx => h.returned_concat hx
  answer := fun g hg hanswer => by
    rcases List.mem_append.mp hg with hg | hg
    · exact List.mem_append_left _ (h.answer g hg hanswer)
    · rw [List.mem_singleton.mp hg] at hanswer
      exact absurd hf (not_isMessage_of_isExitAnswer hanswer)
  message := fun g hg hmessage => by
    rcases List.mem_append.mp hg with hg | hg
    · exact Or.inr ((h.message g hg hmessage).resolve_left (hfree _))
    · rw [List.mem_singleton.mp hg]
      exact Or.inl rfl
  callback := h.callback_concat f
  received := fun r hr => by
    obtain rfl : frame o f = r := ReceiverThread.received.inj hr
    exact ⟨⟨f, by simp, hf, rfl⟩, h.not_callback List.mem_cons_self⟩
  running := ReceiverThread.noConfusion
  ended := ReceiverThread.noConfusion

/-- The main thread takes a step that is none of a `Receive`. -/
theorem Framed.main_turn (h : Framed o s taken rest) {main : MainThread}
    (hbefore : ∀ h, s.main ≠ .recvPayload h) (hafter : ∀ h, main ≠ .recvPayload h)
    (request : ExitRequest) (flag : Bool) :
    Framed o { s with request := request, m_is_receiving := flag, main := main } taken rest :=
  h.turn rfl rfl rfl rfl
    (h.reading.turn rfl (fun _ => iff_of_false (hafter _) (hbefore _)) fun _ => Iff.rfl)
    (fun _ => Iff.rfl) h.running h.ended

/-- The receiver thread takes one. -/
theorem Framed.receiver_turn (h : Framed o s taken rest) {receiver : ReceiverThread}
    (hbefore : ∀ h, s.receiver ≠ .recvPayload h) (hafter : ∀ h, receiver ≠ .recvPayload h)
    (hbefore' : ∀ r, s.receiver ≠ .received r) (hafter' : ∀ r, receiver ≠ .received r)
    (hrunning : receiver ≠ .terminated) (flag : Bool)
    (hended : receiver = .ended → ∀ f ∈ rest, ¬ ChatService.IsMessage f.2.type) :
    Framed o { s with m_is_receiving := flag, receiver := receiver } taken rest :=
  h.turn rfl rfl rfl rfl
    (h.reading.turn rfl (fun _ => Iff.rfl) fun _ => iff_of_false (hafter _) (hbefore _))
    (fun _ => iff_of_false (hafter' _) (hbefore' _)) hrunning hended

/-- Where nobody has the header of the next frame, it is the first of `rest`. -/
theorem Framed.next (h : Framed o s taken rest) (hmain : ∀ h, s.main ≠ .recvPayload h)
    (hreceiver : ∀ h, s.receiver ≠ .recvPayload h) (henough : s.incoming ≠ []) :
    ∃ f behind, rest = f :: behind ∧ s.Next f ∧ f.2.Filled ∧
      s.incoming = Writers.tag f.1 (f.2.encode o) ++ Writers.frames (Packet.encode o) behind := by
  cases h.reading with
  | nobody _ _ hincoming =>
    cases rest with
    | nil => exact absurd hincoming henough
    | cons f behind =>
      have hmem := h.mem_rest (List.mem_cons_self (a := f) (l := behind))
      refine ⟨f, behind, rfl, ⟨hmem, ?_⟩, (h.kind f hmem).1, hincoming⟩
      have hfirst : s.incoming = Writers.tag f.1 (f.2.encode o) ++
        Writers.frames (Packet.encode o) behind := hincoming
      rw [hfirst, Packet.encode_eq]
      rfl
  | main _ _ hm _ _ => exact absurd hm (hmain _)
  | receiver _ _ _ hr _ => exact absurd hr (hreceiver _)

theorem text_ne_nil {p : Packet} (hfilled : p.Filled) (hsize : 0 < p.size) : p.text ≠ [] := by
  intro hnil
  have hlen := Packet.length_text hfilled
  rw [hnil, List.length_nil] at hlen
  have hpos : 0 < p.size.toNat := hsize
  omega

theorem ne_nil_of_recvHeader {x : Receiving × ChatSession} (h : recvHeader o s = some x) :
    s.incoming ≠ [] := by
  intro hnil
  have hlen := (of_recvHeader h).1
  rw [hnil, sizeofPacketHeader, List.length_nil] at hlen
  omega

/-- `ExitRoom` reads the header of an answer. -/
theorem Framed.mainHeader (h : Framed o s taken rest) (hmain : s.main = .recvHeader)
    (hreceiver : ∀ h, s.receiver ≠ .recvPayload h)
    (hnext : ∀ f, s.Next f → IsExitAnswer f.2.type) {x : Receiving × ChatSession}
    (hx : recvHeader o s = some x) : ∃ taken rest, Framed o (x.2.mainAfter o x.1) taken rest := by
  have hnot : ∀ h, s.main ≠ .recvPayload h := fun h heq => by
    rw [hmain] at heq
    cases heq
  obtain ⟨f, behind, rfl, hf, hfilled, hincoming⟩ :=
    h.next hnot hreceiver (ne_nil_of_recvHeader hx)
  rw [recvHeader_frame hfilled h.connected hincoming, Option.some_inj] at hx
  subst hx
  by_cases hsize : 0 < f.2.size
  · rw [if_pos hsize]
    refine ⟨taken, f :: behind, h.turn rfl rfl rfl rfl ?_ (fun _ => Iff.rfl) h.running h.ended⟩
    exact .main (hnext f hf) (text_ne_nil hfilled hsize) rfl hreceiver rfl
  · rw [if_neg hsize, text_of_size hsize]
    exact ⟨_, _, h.exitRoom_returns (hnext f hf) hreceiver⟩

/-- `ExitRoom` reads the payload of an answer. -/
theorem Framed.mainPayload (h : Framed o s taken rest) {head : Labelled}
    (hmain : s.main = .recvPayload head) {x : Receiving × ChatSession}
    (hx : recvPayload o head s = some x) :
    ∃ taken rest, Framed o (x.2.mainAfter o x.1) taken rest := by
  cases h.reading with
  | nobody hnot => exact absurd hmain (hnot _)
  | main hf _ hm hreceiver hincoming =>
    obtain rfl := MainThread.recvPayload.inj (hm.symm.trans hmain)
    have hfilled := (h.kind _ (h.mem_rest List.mem_cons_self)).1
    rw [recvPayload_frame hfilled hincoming, Option.some_inj] at hx
    subst hx
    exact ⟨_, _, h.exitRoom_returns hf hreceiver⟩
  | receiver _ _ hnot => exact absurd hmain (hnot _)

/-- `ReceiveLoop` reads the header of a message. -/
theorem Framed.loopHeader (h : Framed o s taken rest) (hreceiver : s.receiver = .recvHeader)
    (hmain : ∀ h, s.main ≠ .recvPayload h) (hnext : ∀ f, s.Next f → ¬ IsExitAnswer f.2.type)
    {x : Receiving × ChatSession} (hx : recvHeader o s = some x) :
    ∃ taken rest, Framed o (x.2.receiverAfter x.1) taken rest := by
  have hnot : ∀ h, s.receiver ≠ .recvPayload h := fun h heq => by
    rw [hreceiver] at heq
    cases heq
  have hfree : ∀ r, s.receiver ≠ .received r := fun r heq => by
    rw [hreceiver] at heq
    cases heq
  obtain ⟨f, behind, rfl, hf, hfilled, hincoming⟩ :=
    h.next hmain hnot (ne_nil_of_recvHeader hx)
  have hmessage := (h.kind f hf.1).2.resolve_right (hnext f hf)
  rw [recvHeader_frame hfilled h.connected hincoming, Option.some_inj] at hx
  subst hx
  by_cases hsize : 0 < f.2.size
  · rw [if_pos hsize]
    refine ⟨taken, f :: behind, h.turn rfl rfl rfl rfl ?_
      (fun r => iff_of_false ReceiverThread.noConfusion (hfree r))
      ReceiverThread.noConfusion ReceiverThread.noConfusion⟩
    exact .receiver hmessage (text_ne_nil hfilled hsize) hmain rfl rfl
  · rw [if_neg hsize, text_of_size hsize]
    exact ⟨_, _, h.receiveLoop_returns hmessage hmain hfree⟩

/-- `ReceiveLoop` reads the payload of a message. -/
theorem Framed.loopPayload (h : Framed o s taken rest) {head : Labelled}
    (hreceiver : s.receiver = .recvPayload head) {x : Receiving × ChatSession}
    (hx : recvPayload o head s = some x) :
    ∃ taken rest, Framed o (x.2.receiverAfter x.1) taken rest := by
  cases h.reading with
  | nobody _ hnot => exact absurd hreceiver (hnot _)
  | main _ _ _ hnot => exact absurd hreceiver (hnot _)
  | receiver hf _ hmain hr hincoming =>
    obtain rfl := ReceiverThread.recvPayload.inj (hr.symm.trans hreceiver)
    have hfilled := (h.kind _ (h.mem_rest List.mem_cons_self)).1
    rw [recvPayload_frame hfilled hincoming, Option.some_inj] at hx
    subst hx
    refine ⟨_, _, h.receiveLoop_returns hf hmain fun r heq => ?_⟩
    rw [hreceiver] at heq
    cases heq

/-- `ReceiveLoop` has passed a message to the callback. -/
theorem Framed.handled (h : Framed o s taken rest) {r : Received}
    (hreceiver : s.receiver = .received r) (m : Message) :
    Framed o { s with receiver := .loop, callback := s.callback ++ [(r, m)] } taken rest where
  sent := h.sent
  numbers := h.numbers
  below := h.below
  kind := h.kind
  connected := h.connected
  reading := h.reading.turn rfl (fun _ => Iff.rfl) fun _ =>
    iff_of_false ReceiverThread.noConfusion (by rw [hreceiver]; exact ReceiverThread.noConfusion)
  returned := h.returned
  answer := h.answer
  message := fun g hg hm => by
    refine Or.inr ?_
    rcases h.message g hg hm with heq | ⟨m', hm'⟩
    · rw [hreceiver] at heq
      exact ⟨m, List.mem_append_right _ (by rw [ReceiverThread.received.inj heq]; simp)⟩
    · exact ⟨m', List.mem_append_left _ hm'⟩
  callback := fun x hx => by
    rcases List.mem_append.mp hx with hx | hx
    · exact h.callback x hx
    · obtain ⟨⟨f, hf, -, heq⟩, -⟩ := h.received r hreceiver
      exact ⟨f, hf, by rw [List.mem_singleton.mp hx, heq]⟩
  received := fun _ => ReceiverThread.noConfusion
  running := ReceiverThread.noConfusion
  ended := ReceiverThread.noConfusion

/-- A loop that ends has left no message, if none is unread. -/
theorem Framed.no_message (h : Framed o s taken rest) (hreceiver : s.receiver = .loop)
    (hread : ∀ f ∈ s.sent, ChatService.IsMessage f.2.type → s.unread f.1 = 0) :
    ∀ f ∈ rest, ¬ ChatService.IsMessage f.2.type := by
  intro f hf hmessage
  have hzero := hread f (h.mem_rest hf) hmessage
  rcases h.unread_rest hf with hall | ⟨-, ⟨hanswer, -⟩ | ⟨-, hr⟩⟩
  · rw [Packet.length_encode (h.kind f (h.mem_rest hf)).1, sizeofPacketHeader] at hall
    omega
  · exact not_isMessage_of_isExitAnswer hanswer hmessage
  · rw [hreceiver] at hr
    cases hr

theorem Framed.isMessage (h : Framed o s taken rest) {r : Received}
    (hreceiver : s.receiver = .received r) : ChatService.IsMessage (r.packet o).type := by
  obtain ⟨⟨f, -, hmessage, rfl⟩, -⟩ := h.received r hreceiver
  rw [packet_frame]
  exact hmessage

theorem Framed.step {e : Event} (h : Framed o s taken rest) (hgood : e.KeepsApart o json s)
    (hstep : step o json s e = some s') : ∃ taken rest, Framed o s' taken rest := by
  have hphase : ∀ {main : MainThread}, s.main = main → (∀ h, main ≠ .recvPayload h) →
      ∀ h, s.main ≠ .recvPayload h := fun heq hnot h => heq ▸ hnot h
  have hphase' : ∀ {receiver : ReceiverThread}, s.receiver = receiver →
      (∀ h, receiver ≠ .recvPayload h) ∧ (∀ r, receiver ≠ .received r) →
      (∀ h, s.receiver ≠ .recvPayload h) ∧ ∀ r, s.receiver ≠ .received r :=
    fun heq hnot => heq ▸ hnot
  -- a step that keeps the readers apart leaves frames, some taken and some not
  cases (stepped_of_step hstep).1 with
  | frame hfilled hkind =>
    exact ⟨_, _, h.put hfilled (Or.inl hkind) fun hended => absurd (Or.inl hended) hgood⟩
  | answer hfilled hkind _ =>
    have hput := h.put hfilled (Or.inr hkind) fun _ => not_isMessage_of_isExitAnswer hkind
    exact ⟨_, _, hput.turn rfl rfl rfl rfl
      (hput.reading.turn rfl (fun _ => Iff.rfl) fun _ => Iff.rfl) (fun _ => Iff.rfl)
      hput.running hput.ended⟩
  | exitRoom hmain _ =>
    exact ⟨_, _, h.main_turn (hphase hmain fun _ => MainThread.noConfusion)
      (fun _ => MainThread.noConfusion) _ _⟩
  | notConnected _ hconnected =>
    rw [h.connected] at hconnected
    cases hconnected
  | mainHeader hmain hx =>
    obtain ⟨hreceiver, hnext⟩ := hgood hmain
    exact h.mainHeader hmain hreceiver hnext hx
  | mainPayload hmain hx => exact h.mainPayload hmain hx
  | stopReceiving hmain =>
    exact ⟨_, _, h.main_turn (hphase hmain fun _ => MainThread.noConfusion)
      (fun _ => MainThread.noConfusion) _ _⟩
  | join hmain _ =>
    exact ⟨_, _, h.main_turn (hphase hmain fun _ => MainThread.noConfusion)
      (fun _ => MainThread.noConfusion) _ _⟩
  | startReceiving hreceiver =>
    obtain ⟨hpayload, hreceived⟩ := hphase' hreceiver
      ⟨fun _ => ReceiverThread.noConfusion, fun _ => ReceiverThread.noConfusion⟩
    exact ⟨_, _, h.receiver_turn hpayload (fun _ => ReceiverThread.noConfusion) hreceived
      (fun _ => ReceiverThread.noConfusion) ReceiverThread.noConfusion _
      ReceiverThread.noConfusion⟩
  | goOn hreceiver _ _ =>
    obtain ⟨hpayload, hreceived⟩ := hphase' hreceiver
      ⟨fun _ => ReceiverThread.noConfusion, fun _ => ReceiverThread.noConfusion⟩
    exact ⟨_, _, h.receiver_turn hpayload (fun _ => ReceiverThread.noConfusion) hreceived
      (fun _ => ReceiverThread.noConfusion) ReceiverThread.noConfusion _
      ReceiverThread.noConfusion⟩
  | leaveLoop hreceiver hnot =>
    obtain ⟨hpayload, hreceived⟩ := hphase' hreceiver
      ⟨fun _ => ReceiverThread.noConfusion, fun _ => ReceiverThread.noConfusion⟩
    exact ⟨_, _, h.receiver_turn hpayload (fun _ => ReceiverThread.noConfusion) hreceived
      (fun _ => ReceiverThread.noConfusion) ReceiverThread.noConfusion _
      fun _ => h.no_message hreceiver (hgood.resolve_left hnot)⟩
  | header hreceiver hx =>
    obtain ⟨hmain, hnext⟩ := hgood hreceiver
    exact h.loopHeader hreceiver hmain hnext hx
  | payload hreceiver hx => exact h.loopPayload hreceiver hx
  | message hreceiver _ _ => exact ⟨_, _, h.handled hreceiver _⟩
  | raise hreceiver hkind hparse =>
    obtain ⟨m, hm⟩ := hgood _ hreceiver hkind
    rw [hparse] at hm
    cases hm
  | ignore hreceiver hkind => exact absurd (h.isMessage hreceiver) hkind

/-! ### Steps that do not -/

/-- A byte of frame `f` is received. -/
theorem unread_drop_lt {n : ℕ} (hf : s.Next f) (hn : 0 < n)
    (hincoming : s'.incoming = s.incoming.drop n) : s'.unread f.1 < s.unread f.1 := by
  have hhead := hf.2
  cases hlist : s.incoming with
  | nil =>
    rw [hlist] at hhead
    cases hhead
  | cons b behind =>
    rw [hlist, List.head?_cons, Option.map_some, Option.some_inj] at hhead
    obtain ⟨k, rfl⟩ := Nat.exists_eq_succ_of_ne_zero (Nat.ne_of_gt hn)
    have hle := (List.drop_sublist k behind).countP_le (p := fun x => decide (x.1 = f.1))
    have hcons : s.unread f.1 = behind.countP (fun x => x.1 = f.1) + 1 := by
      rw [unread, hlist]
      exact List.countP_cons_of_pos (by simpa using hhead)
    rw [hcons, unread, hincoming, hlist, Nat.succ_eq_add_one, List.drop_succ_cons]
    omega

theorem Framed.unread_le (h : Framed o s taken rest) (hf : f ∈ rest) :
    s.unread f.1 ≤ (f.2.encode o).length := by
  have htext : f.2.text.length ≤ (f.2.encode o).length := by
    rw [Packet.encode_eq]
    simp only [List.length_cons]
    omega
  rcases h.unread_rest hf with hall | ⟨hpart, -⟩
  · exact Nat.le_of_eq hall
  · exact hpart ▸ htext

theorem Framed.fst_inj (h : Framed o s taken rest) {f g : ℕ × Packet} (hf : f ∈ s.sent)
    (hg : g ∈ s.sent) (heq : f.1 = g.1) : f = g :=
  List.inj_on_of_nodup_map h.numbers hf hg heq

/-- Where a reader has a header, the payload is unread. -/
theorem Framed.unread_part (h : Framed o s taken rest) (hf : f ∈ s.sent)
    (hhead : s.main = .recvPayload (header o f) ∨ s.receiver = .recvPayload (header o f)) :
    s.unread f.1 = f.2.text.length := by
  -- frames with the same header bytes are one frame: their numbers differ otherwise
  have hhere : ∀ {g : ℕ × Packet} {behind : List (ℕ × Packet)}, rest = g :: behind →
      header o f = header o g →
      s.incoming = Writers.tag g.1 g.2.text ++ Writers.frames (Packet.encode o) behind →
      s.unread f.1 = f.2.text.length := by
    intro g behind hrest heq hincoming
    have hnodup := h.nodup_rest
    rw [hrest, List.map_cons, List.nodup_cons] at hnodup
    obtain rfl : f = g :=
      h.fst_inj hf (h.mem_rest (hrest ▸ List.mem_cons_self)) (fst_eq_of_header_eq heq)
    rw [unread, hincoming, List.countP_append, Writers.countP_tag,
      Writers.countP_frames _ hnodup.1]
    omega
  cases h.reading with
  | nobody hmain hreceiver =>
    rcases hhead with heq | heq
    · exact absurd heq (hmain _)
    · exact absurd heq (hreceiver _)
  | main _ _ hmain hreceiver hincoming =>
    have heq := hhead.resolve_right (hreceiver _)
    exact hhere rfl (MainThread.recvPayload.inj (heq.symm.trans hmain)) hincoming
  | receiver _ _ hmain hreceiver hincoming =>
    have heq := hhead.resolve_left (hmain _)
    exact hhere rfl (ReceiverThread.recvPayload.inj (heq.symm.trans hreceiver)) hincoming

/-- Bytes of a message are received, and not by `ReceiveLoop`. -/
theorem Framed.message_taken (h : Framed o s taken rest) (hf : f ∈ rest)
    (hmessage : ChatService.IsMessage f.2.type) (hsent : s'.sent = s.sent)
    (hreceiver : s'.receiver = s.receiver) (hcallback : s'.callback = s.callback)
    (hlt : s'.unread f.1 < s.unread f.1) : ¬ s'.Separate o := by
  intro hseparate
  have hle := h.unread_le hf
  -- wherever the message may be, as many of its bytes as before are unread there
  rcases hseparate.message f (hsent ▸ h.mem_rest hf) hmessage with
    ⟨hall, -⟩ | ⟨hhead, hpart⟩ | hreceived | ⟨m, hm⟩
  · omega
  · have hbefore := h.unread_part (h.mem_rest hf) (Or.inr (hreceiver ▸ hhead))
    omega
  · exact h.not_received hf (hreceiver ▸ hreceived)
  · exact h.not_callback hf m (hcallback ▸ hm)

/-- Bytes of an answer are received, and not by `ExitRoom`. -/
theorem Framed.answer_taken (h : Framed o s taken rest) (hf : f ∈ rest)
    (hanswer : IsExitAnswer f.2.type) (hsent : s'.sent = s.sent) (hmain : s'.main = s.main)
    (hreturned : ∀ r, (Reader.main, r) ∈ s'.returned → (Reader.main, r) ∈ s.returned)
    (hlt : s'.unread f.1 < s.unread f.1) : ¬ s'.Separate o := by
  intro hseparate
  have hle := h.unread_le hf
  rcases hseparate.answer f (hsent ▸ h.mem_rest hf) hanswer with hall | ⟨hhead, hpart⟩ | hreturn
  · omega
  · have hbefore := h.unread_part (h.mem_rest hf) (Or.inl (hmain ▸ hhead))
    omega
  · exact h.not_returned hf .main (hreturned _ hreturn)

/-- Bytes of the frame a reader has the header of are next. -/
theorem next_of_part {behind : List (ℕ × Packet)} (hmem : f ∈ s.sent) (htext : f.2.text ≠ [])
    (hincoming : s.incoming = Writers.tag f.1 f.2.text ++
      Writers.frames (Packet.encode o) behind) : s.Next f := by
  refine ⟨hmem, ?_⟩
  obtain ⟨b, text, heq⟩ := List.exists_cons_of_ne_nil htext
  rw [hincoming, heq]
  rfl

theorem Framed.mainHeader_break (h : Framed o s taken rest) (hmain : s.main = .recvHeader)
    (hbad : ¬ ((∀ h, s.receiver ≠ .recvPayload h) ∧ ∀ f, s.Next f → IsExitAnswer f.2.type))
    {x : Receiving × ChatSession} (hx : recvHeader o s = some x) :
    ¬ (x.2.mainAfter o x.1).Separate o := by
  obtain ⟨hlen, connected, hx'⟩ := of_recvHeader hx
  -- a message whose first bytes the main thread takes is lost to its reader
  have htaken : ∀ f ∈ rest, ChatService.IsMessage f.2.type → s.Next f →
      ¬ (x.2.mainAfter o x.1).Separate o := by
    intro f hf hmessage hnext
    refine h.message_taken hf hmessage ?_ ?_ ?_
      (unread_drop_lt hnext (n := sizeofPacketHeader) (by decide) ?_) <;> simp [hx']
  have hnot : ∀ h, s.main ≠ .recvPayload h := fun h heq => by
    rw [hmain] at heq
    cases heq
  -- either a message is next, or its header has been taken already
  by_cases hreceiver : ∀ h, s.receiver ≠ .recvPayload h
  · obtain ⟨f, behind, rfl, hnext, -, -⟩ := h.next hnot hreceiver (ne_nil_of_recvHeader hx)
    refine htaken f List.mem_cons_self ?_ hnext
    refine (h.kind f hnext.1).2.resolve_right fun hanswer => hbad ⟨hreceiver, fun g hg => ?_⟩
    have heq : f.1 = g.1 := Option.some_inj.mp (hnext.2.symm.trans hg.2)
    exact h.fst_inj hnext.1 hg.1 heq ▸ hanswer
  · cases h.reading with
    | nobody _ hnobody => exact absurd hnobody hreceiver
    | main _ _ hm => exact absurd hm (hnot _)
    | receiver hf htext _ _ hincoming =>
      exact htaken _ List.mem_cons_self hf
        (next_of_part (h.mem_rest List.mem_cons_self) htext hincoming)

theorem Framed.loopHeader_break (h : Framed o s taken rest) (hreceiver : s.receiver = .recvHeader)
    (hbad : ¬ ((∀ h, s.main ≠ .recvPayload h) ∧ ∀ f, s.Next f → ¬ IsExitAnswer f.2.type))
    {x : Receiving × ChatSession} (hx : recvHeader o s = some x) :
    ¬ (x.2.receiverAfter x.1).Separate o := by
  obtain ⟨hlen, connected, hx'⟩ := of_recvHeader hx
  have hreturned : ∀ r, (Reader.main, r) ∈ (x.2.receiverAfter x.1).returned →
      (Reader.main, r) ∈ s.returned := by
    intro r hr
    rw [hx'] at hr
    cases hx₁ : x.1 with
    | failed => rw [hx₁] at hr; exact hr
    | payload head => rw [hx₁] at hr; exact hr
    | returned r' =>
      rw [hx₁] at hr
      rcases List.mem_append.mp hr with hr | hr
      · exact hr
      · cases List.mem_singleton.mp hr
  -- an answer whose first bytes the receiver takes is lost to its reader
  have htaken : ∀ f ∈ rest, IsExitAnswer f.2.type → s.Next f →
      ¬ (x.2.receiverAfter x.1).Separate o := by
    intro f hf hanswer hnext
    refine h.answer_taken hf hanswer ?_ ?_ hreturned
      (unread_drop_lt hnext (n := sizeofPacketHeader) (by decide) ?_) <;> simp [hx']
  have hnot : ∀ h, s.receiver ≠ .recvPayload h := fun h heq => by
    rw [hreceiver] at heq
    cases heq
  -- either an answer is next, or its header has been taken already
  by_cases hmain : ∀ h, s.main ≠ .recvPayload h
  · obtain ⟨f, hf⟩ : ∃ f, s.Next f ∧ IsExitAnswer f.2.type := by
      by_contra hnone
      exact hbad ⟨hmain, fun f hf hanswer => hnone ⟨f, hf, hanswer⟩⟩
    obtain ⟨g, behind, rfl, hnext, -, -⟩ := h.next hmain hnot (ne_nil_of_recvHeader hx)
    have heq : g.1 = f.1 := Option.some_inj.mp (hnext.2.symm.trans hf.1.2)
    obtain rfl := h.fst_inj hnext.1 hf.1.1 heq
    exact htaken g List.mem_cons_self hf.2 hnext
  · cases h.reading with
    | nobody hnobody => exact absurd hnobody hmain
    | receiver _ _ _ hr => exact absurd hr (hnot _)
    | main hf htext _ _ hincoming =>
      exact htaken _ List.mem_cons_self hf
        (next_of_part (h.mem_rest List.mem_cons_self) htext hincoming)

/-- A message for which there is no receiver thread any more. -/
theorem not_separate_of_over (hf : f ∈ s'.sent) (hmessage : ChatService.IsMessage f.2.type)
    (hended : s'.Over) (hcallback : ∀ m, (frame o f, m) ∉ s'.callback) : ¬ s'.Separate o := by
  intro hseparate
  rcases hseparate.message f hf hmessage with ⟨-, hnot⟩ | ⟨hhead, -⟩ | hreceived | ⟨m, hm⟩
  · exact hnot hended
  · rcases hended with heq | heq <;> rw [heq] at hhead <;> cases hhead
  · rcases hended with heq | heq <;> rw [heq] at hreceived <;> cases hreceived
  · exact hcallback m hm

theorem Framed.not_separate {e : Event} (h : Framed o s taken rest)
    (hbad : ¬ e.KeepsApart o json s) (hstep : ChatSession.step o json s e = some s') :
    ¬ s'.Separate o := by
  cases (stepped_of_step hstep).1 with
  | frame hfilled hkind =>
    have hended : s.Over := not_not.mp hbad
    refine not_separate_of_over (f := (s.sent.length, _)) (by simp [ChatSession.put]) hkind
      hended ?_
    intro m hm
    obtain ⟨g, hg, heq⟩ := h.callback _ hm
    -- no message handled so far has the number of the new one
    have hlt := h.below g (h.mem_taken hg)
    have hfst := fst_eq_of_header_eq (congrArg Received.header heq)
    exact absurd hfst (Nat.ne_of_gt hlt)
  | answer hfilled hkind _ => exact absurd trivial hbad
  | exitRoom => exact absurd trivial hbad
  | notConnected => exact absurd trivial hbad
  | mainHeader hmain hx => exact h.mainHeader_break hmain (fun hgood => hbad fun _ => hgood) hx
  | mainPayload hmain hx =>
    refine absurd (fun heq => ?_) hbad
    rw [hmain] at heq
    cases heq
  | stopReceiving => exact absurd trivial hbad
  | join => exact absurd trivial hbad
  | startReceiving => exact absurd trivial hbad
  | goOn hreceiver hflag hconnected => exact absurd (Or.inl ⟨hflag, hconnected⟩) hbad
  | leaveLoop hreceiver hnot =>
    -- the loop is left although a message is still to be read
    obtain ⟨f, hf, hmessage, hunread⟩ : ∃ f ∈ s.sent, ChatService.IsMessage f.2.type ∧
        s.unread f.1 ≠ 0 := by
      by_contra hnone
      refine hbad (Or.inr fun f hf hmessage => ?_)
      by_contra hne
      exact hnone ⟨f, hf, hmessage, hne⟩
    have hf' : f ∈ rest := by
      rw [h.sent] at hf
      exact (List.mem_append.mp hf).resolve_left fun htaken => hunread (h.unread_taken htaken)
    exact not_separate_of_over hf hmessage (Or.inl rfl) (h.not_callback hf')
  | header hreceiver hx => exact h.loopHeader_break hreceiver (fun hgood => hbad fun _ => hgood) hx
  | payload hreceiver hx =>
    refine absurd (fun heq => ?_) hbad
    rw [hreceiver] at heq
    cases heq
  | message hreceiver hkind hparse =>
    refine absurd (fun r hr _ => ?_) hbad
    rw [hreceiver] at hr
    obtain rfl := ReceiverThread.received.inj hr
    exact ⟨_, hparse⟩
  | raise hreceiver hkind hparse =>
    obtain ⟨⟨f, hf, hmessage, rfl⟩, hnew⟩ := h.received _ hreceiver
    exact not_separate_of_over (h.mem_taken hf) hmessage (Or.inr rfl) hnew
  | ignore hreceiver hkind => exact absurd (h.isMessage hreceiver) hkind

/-- **Each reader gets its own frames in exactly the runs whose steps keep them apart.** -/
theorem separate_iff_keepsApart (o : ByteOrder) (json : Nlohmann) (code : Bytes)
    (events : List Event) (final : ChatSession)
    (hrun : Transition.runFrom (ChatSession.step o json) (init code) events = some final) :
    (∀ s, Transition.Visits (ChatSession.step o json) (init code) events s → s.Separate o) ↔
      ∀ s e, Transition.Takes (ChatSession.step o json) (init code) events s e →
        e.KeepsApart o json s := by
  refine Transition.visits_iff_takes (J := fun s => ∃ taken rest, Framed o s taken rest) ?_ ?_ ?_
    hrun ⟨[], [], framed_init o code⟩
  · rintro s ⟨taken, rest, h⟩
    exact h.separate
  · rintro s e s' ⟨taken, rest, h⟩ hgood hstep
    exact h.step hgood hstep
  · rintro s e s' ⟨taken, rest, h⟩ hbad hstep
    exact h.not_separate hbad hstep

theorem separate_iff_keepsApart_politeExit :
    (∀ s, Transition.Visits (ChatSession.step .little Nlohmann.integral)
        (init (str "aaaaaaaa")) politeExit s → s.Separate .little) ↔
      ∀ s e, Transition.Takes (ChatSession.step .little Nlohmann.integral)
        (init (str "aaaaaaaa")) politeExit s e → e.KeepsApart .little Nlohmann.integral s := by
  have hpossible : (Transition.runFrom (ChatSession.step .little Nlohmann.integral)
      (init (str "aaaaaaaa")) politeExit).isSome = true := by
    decide +kernel
  exact separate_iff_keepsApart .little Nlohmann.integral (str "aaaaaaaa") politeExit _
    (Option.some_get hpossible).symm

/-- A chat message comes before the answer, and `ExitRoom` takes it. -/
def stolenMessage : List Event :=
  [.act .startReceiving, .act .test, .act .exitRoom, .frame chatPacket, .act .mainRecv,
    .act .mainRecv, .answer exitOkPacket, .act .recv]

/-- The message does not reach the callback, and the answer is not returned in `ExitRoom`. -/
theorem not_separate_stolenMessage :
    ∃ s, Transition.Visits (ChatSession.step .little Nlohmann.integral) (init (str "aaaaaaaa"))
      stolenMessage s ∧ ¬ s.Separate .little := by
  have hrun : (Transition.runFrom (ChatSession.step .little Nlohmann.integral)
      (init (str "aaaaaaaa")) stolenMessage).any (fun s =>
        decide ((1, exitOkPacket) ∈ s.sent ∧ s.unread 1 = 0 ∧ s.main = .stopReceiving ∧
          (Reader.main, frame .little (1, exitOkPacket)) ∉ s.returned)) = true := by
    decide +kernel
  obtain ⟨s, hvisits, hs⟩ := Transition.Visits.of_any hrun
  obtain ⟨hsent, hunread, hmain, hreturned⟩ := of_decide_eq_true hs
  refine ⟨s, hvisits, fun hseparate => ?_⟩
  rcases hseparate.answer _ hsent (Or.inl rfl) with hall | ⟨hhead, -⟩ | hreturn
  · rw [hunread] at hall
    exact absurd hall (by decide)
  · rw [hmain] at hhead
    cases hhead
  · exact hreturned hreturn

end ChatSession

end SocketChat
