/-
What a client puts on its screen.

`StartChatSession` has `ReceiveLoop` print every message it parses with
`Message::FormatForDisplay`; an exception that leaves `ParseMessagePacket` ends the thread,
and the program with it.  `Remark` says what can be told to the members of a room and
`Remark.line` how it looks; the lemmas here show it of each packet the server tells it with.
-/
import SocketChat.Client.NoticeReading

namespace SocketChat

/-- A literal of a source file in UTF-8. -/
def utf8Str (s : String) : Bytes := s.toList.flatMap String.utf8EncodeChar

/-- `Message::FormatForDisplay`. -/
def Message.formatForDisplay (m : Message) (is_mine : Bool) : Bytes :=
  match m.type with
  | .userJoin => utf8Str "[시스템] " ++ m.senderNickname ++ utf8Str "님이 입장하셨습니다."
  | .userExit => utf8Str "[시스템] " ++ m.senderNickname ++ utf8Str "님이 퇴장하셨습니다."
  | .system => utf8Str "[시스템] " ++ m.content
  | .chat => str "[" ++ m.timestamp ++ str "]" ++
    if is_mine then utf8Str "[나] > " ++ m.content
    else str "[" ++ m.senderNickname ++ str "(" ++ m.senderIp ++ str ")] > " ++ m.content

/-- The lines that are printed, and whether an exception has ended the printing. -/
abbrev Shown := List Bytes × Bool

/-- What is printed first, and then, if it is still going on, the rest. -/
def Shown.andThen (first rest : Shown) : Shown :=
  if first.2 = true then first else (first.1 ++ rest.1, rest.2)

/-- `StartReceiving` with the callback of `StartChatSession`, on the packets `Receive`
returns to the receiver thread. -/
def Client.screen (json : Nlohmann) (packets : List Packet) : Shown :=
  let received := ChatService.receiveLoop json packets
  (received.1.map fun message => message.formatForDisplay false, received.2.isSome)

/-! ### Remarks -/

/-- What can be told to the members of a room. -/
inductive Remark where
  | chats (now : LocalTime) (nickname ip content : Bytes)
  | enters (nickname : Bytes)
  | exits (nickname : Bytes)
  /-- A notice that was cut off to fit its packet: the client makes an empty message of it. -/
  | garbled
  /-- A message that is no text. -/
  | unreadable
  deriving DecidableEq

namespace Remark

/-- The line a remark is shown as. -/
def line : Remark → Option Bytes
  | chats now nickname ip content =>
    some (str "[" ++ now.strftime ++ str "][" ++ nickname ++ str "(" ++ ip ++ str ")] > " ++
      content)
  | enters nickname => some (utf8Str "[시스템] " ++ nickname ++ utf8Str "님이 입장하셨습니다.")
  | exits nickname => some (utf8Str "[시스템] " ++ nickname ++ utf8Str "님이 퇴장하셨습니다.")
  | garbled => some (str "[][()] > ")
  | unreadable => none

/-- The lines of the remarks, up to the first that has none. -/
def shown : List Remark → Shown
  | [] => ([], false)
  | r :: rest =>
    match r.line with
    | some line => (line :: (shown rest).1, (shown rest).2)
    | none => ([], true)

theorem shown_append (first rest : List Remark) :
    shown (first ++ rest) = (shown first).andThen (shown rest) := by
  induction first with
  | nil => rfl
  | cons r first ih =>
    rw [List.cons_append, shown, shown]
    cases hline : r.line with
    | none => rfl
    | some line =>
      simp only [ih]
      by_cases hends : (shown first).2 = true
      · rw [Shown.andThen, Shown.andThen, if_pos hends, if_pos hends]
      · rw [Shown.andThen, Shown.andThen, if_neg hends, if_neg hends]
        rfl

end Remark

/-! ### The receiver thread -/

namespace Client

variable {json : Nlohmann} {p : Packet} {packets : List Packet}

theorem screen_other (h : ¬ ChatService.IsMessage p.type) (packets : List Packet) :
    screen json (p :: packets) = screen json packets := by
  rw [screen, screen, ChatService.receiveLoop, if_neg h]

theorem screen_message {message : Message} (h : ChatService.IsMessage p.type)
    (hparse : parseMessagePacket json p = .ok message) (packets : List Packet) :
    screen json (p :: packets) =
      (message.formatForDisplay false :: (screen json packets).1, (screen json packets).2) := by
  simp only [screen, ChatService.receiveLoop, if_pos h, hparse, List.map_cons]

theorem screen_raise {e : Json.Error} (h : ChatService.IsMessage p.type)
    (hparse : parseMessagePacket json p = .error e) (packets : List Packet) :
    screen json (p :: packets) = ([], true) := by
  simp only [screen, ChatService.receiveLoop, if_pos h, hparse, List.map_nil, Option.isSome_some]

theorem screen_append (first rest : List Packet) :
    screen json (first ++ rest) = (screen json first).andThen (screen json rest) := by
  induction first with
  | nil => rfl
  | cons p first ih =>
    rw [List.cons_append]
    by_cases h : ChatService.IsMessage p.type
    · cases hparse : parseMessagePacket json p with
      | error e =>
        rw [screen_raise h hparse, screen_raise h hparse]
        rfl
      | ok message =>
        rw [screen_message h hparse, screen_message h hparse, ih]
        by_cases hends : (screen json first).2 = true
        · rw [Shown.andThen, Shown.andThen, if_pos hends, if_pos hends]
        · rw [Shown.andThen, Shown.andThen, if_neg hends, if_neg hends]
          rfl
    · rw [screen_other h, screen_other h, ih]

theorem screen_quiet (h : ∀ p ∈ packets, ¬ ChatService.IsMessage p.type) :
    screen json packets = ([], false) := by
  induction packets with
  | nil => rfl
  | cons p packets ih =>
    rw [screen_other (h p List.mem_cons_self)]
    exact ih fun q hq => h q (List.mem_cons_of_mem p hq)

/-- Nobody looks at the payload behind `header.size`. -/
theorem parseMessagePacket_trim (json : Nlohmann) (p : Packet) :
    parseMessagePacket json p.trim = parseMessagePacket json p := by
  have htext : p.trim.text = p.text := by
    show (p.payload.take p.size.toNat).take p.size.toNat = p.payload.take p.size.toNat
    rw [List.take_take, Nat.min_self]
  rw [parseMessagePacket, parseMessagePacket, readMessage, readMessage, htext]
  rfl

end Client

end SocketChat
