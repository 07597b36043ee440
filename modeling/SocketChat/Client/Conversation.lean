/-
What is typed is what the others see.

The lines a user types in a room go through `SendMessage`, the two hosts' sockets, the
server's `recvBuffer`, `MessageHandler` and `PacketSender`, and through another user's
`ReceiveLoop`.  `typed_is_shown` follows them all the way: the other user sees those whose
broadcast fits a packet, one by one and in their order, and nothing else.

The server handles them one at a time, each to its end and in the order received, and nothing
else in between.  With more than one worker this need not be so, and the lines may come out of
order (`not_completed_in_order`).
-/
import SocketChat.Client.SendMessage
import SocketChat.Client.Transcript

namespace SocketChat

open Socket

/-- `SendMessage` called for line after line: what the calls return, and the stream. -/
def Client.ChatService.sendMessages (json : Nlohmann) (o : ByteOrder) (c : NetworkClient) :
    List SendResult → List Bytes → Except Json.Error (List (Option Bool) × Bytes)
  | _, [] => .ok ([], [])
  | script, content :: lines => do
    let sent ← sendMessage json o c script content
    let rest ← sendMessages json o c sent.script lines
    pure (sent.result :: rest.1, sent.bytes ++ rest.2)

variable {json : Nlohmann} {o : ByteOrder} {c : NetworkClient} {script : List SendResult}
  {content : Bytes} {a b : Fd} {info : ClientInfo} {p : Packet} {s s' : Server}

/-! ### Sending -/

/-- The packet carries the line. -/
structure Carries (json : Nlohmann) (p : Packet) (content : Bytes) : Prop where
  type : p.type = PacketType.messageSend
  filled : p.Filled
  text : json.parse p.text = .ok (messageJson content)

/-- A line that is sent fills a packet, unless its text is too long for one. -/
theorem carries_of_sendMessage (hjson : json.Lawful) (hfits : ContentFits json content)
    {sent : NetworkClient.Sent}
    (hsend : Client.ChatService.sendMessage json o c script content = .ok sent)
    (htrue : sent.result = some true) :
    ∃ p, Carries json p content ∧ sent.bytes = p.encode o := by
  have hne : content ≠ [] := by
    rintro rfl
    rw [Client.ChatService.sendMessage, if_pos rfl] at hsend
    obtain rfl := Except.ok.inj hsend
    cases htrue
  rw [Client.ChatService.sendMessage, if_neg hne] at hsend
  -- what has been dumped is UTF-8
  have hutf8 : content.utf8 = true := by
    cases hdump : json.dump (messageJson content) with
    | error e =>
      have herror : Client.createMessageSendPacket json content = .error e := by
        show (json.dump (messageJson content)).map _ = _
        rw [hdump]
        rfl
      rw [herror] at hsend
      cases hsend
    | ok t => exact hjson.dump_utf8 hdump (List.mem_singleton_self (str "message", _))
  obtain ⟨p, hpacket, htype, hfilled, hparse⟩ := createMessageSendPacket_ok hjson hutf8 hfits
  rw [hpacket] at hsend
  obtain rfl := Except.ok.inj hsend
  exact ⟨p, ⟨htype, hfilled, hparse⟩, NetworkClient.bytes_of_send hfilled htrue⟩

theorem carries_of_sendMessages (hjson : json.Lawful) {lines : List Bytes}
    (hfits : ∀ content ∈ lines, ContentFits json content) {results : List (Option Bool)}
    {bytes : Bytes}
    (hsend : Client.ChatService.sendMessages json o c script lines = .ok (results, bytes))
    (htrue : ∀ r ∈ results, r = some true) :
    ∃ packets, List.Forall₂ (Carries json) packets lines ∧
      bytes = packets.flatMap (Packet.encode o) := by
  induction lines generalizing script results bytes with
  | nil =>
    obtain ⟨-, rfl⟩ := Prod.mk.inj (Except.ok.inj hsend)
    exact ⟨[], .nil, rfl⟩
  | cons content lines ih =>
    rw [Client.ChatService.sendMessages] at hsend
    cases hfirst : Client.ChatService.sendMessage json o c script content with
    | error e =>
      rw [hfirst] at hsend
      cases hsend
    | ok sent =>
      cases hrest : Client.ChatService.sendMessages json o c sent.script lines with
      | error e =>
        rw [hfirst] at hsend
        simp only [bind, Except.bind, hrest] at hsend
        cases hsend
      | ok rest =>
        obtain ⟨more, stream⟩ := rest
        rw [hfirst] at hsend
        simp only [bind, Except.bind, hrest] at hsend
        obtain ⟨rfl, rfl⟩ := Prod.mk.inj (Except.ok.inj hsend)
        obtain ⟨p, hcarries, hbytes⟩ := carries_of_sendMessage hjson
          (hfits content List.mem_cons_self) hfirst (htrue _ List.mem_cons_self)
        obtain ⟨packets, hpackets, hstream⟩ :=
          ih (fun l hl => hfits l (List.mem_cons_of_mem content hl)) hrest
            fun r hr => htrue r (List.mem_cons_of_mem _ hr)
        refine ⟨p :: packets, .cons hcarries hpackets, ?_⟩
        rw [List.flatMap_cons, hbytes, hstream]

/-! ### Receiving -/

/-- The server takes the packets off the stream, however it is cut into chunks. -/
theorem receiveAll_packets (server client : ByteOrder) {packets : List Packet}
    (hfilled : ∀ p ∈ packets, p.Filled) {m : ClientManager} (h : m.getClient a = some info)
    (hempty : info.recvBuffer = []) {chunks : List Chunk}
    (hchunks : PacketReceiver.streamOf chunks = packets.flatMap (Packet.encode client)) :
    (PacketReceiver.receiveAll server m a chunks).1.map Parsed.packet =
      packets.map Packet.trim := by
  obtain ⟨frames, hbytes, hpackets⟩ := exists_frames_of_packets client hfilled
  have hframes : PacketReceiver.streamOf chunks = frames.flatMap Frame.bytes ++ [] := by
    rw [hchunks, hbytes, List.append_nil]
  have hdrain : (PacketReceiver.framing server).drain (frames.flatMap Frame.bytes ++ []) =
      (frames.map PacketReceiver.parsed, []) :=
    (PacketReceiver.framing server).drain_frames rfl frames
  have hfeed : (PacketReceiver.framing server).feedAll [] (chunks.map Chunk.bytes) =
      (PacketReceiver.framing server).drain (PacketReceiver.streamOf chunks) :=
    (PacketReceiver.framing server).feedAll_eq rfl _
  rw [(PacketReceiver.receiveAll_eq h chunks).1, hempty, hfeed, hframes, hdrain, List.map_map]
  exact hpackets

theorem Carries.trim (h : Carries json p content) : Carries json p.trim content := by
  have htext : p.trim.text = p.text := by
    show (p.payload.take p.size.toNat).take p.size.toNat = p.payload.take p.size.toNat
    rw [List.take_take, Nat.min_self]
  refine ⟨h.type, ⟨?_, h.filled.2⟩, htext ▸ h.text⟩
  show p.size.toNat ≤ p.text.length
  rw [Packet.length_text h.filled]

/-! ### Handling -/

/-- The packets of one client, each with the time at which it is handled. -/
def packetEvents (a : Fd) (packets : List Packet) (nows : List LocalTime) : List Event :=
  List.zipWith (fun p now => .packet a p now) packets nows

/-- The lines of a client, each with the time at which it is handled, whose broadcasts fit. -/
def fitting (json : Nlohmann) (a : Fd) (info : ClientInfo) (lines : List Bytes)
    (nows : List LocalTime) : List (Bytes × LocalTime) :=
  (lines.zip nows).filter fun x =>
    fits json (MessageHandler.payload x.2 a info (.string x.1))

/-- A line a client in a room has sent changes nothing, and the others in the room are told it
if its broadcast fits. -/
theorem hears_of_carries (now : LocalTime) (h : s.client? a = some info)
    (hauth : info.isAuthenticated = true) (hin : info.roomCode ≠ []) (hab : a ≠ b)
    (hb : b ∈ s.roster.listed info.roomCode) (hp : Carries json p content) :
    ∃ s', s.step json (.packet a p now) = some s' ∧ s'.clientManager = s.clientManager ∧
      s'.roomManager = s.roomManager ∧ s.hears json s' b (.packet a p now) =
        if fits json (MessageHandler.payload now a info (.string content)) = true then
          [.chats now info.nickname info.ip content]
        else [] := by
  have hpossible : Event.Possible s (.packet a p now) :=
    ⟨Option.isSome_iff_exists.mpr ⟨info, h⟩, hp.filled⟩
  obtain ⟨s', hstep⟩ : ∃ s', s.step json (.packet a p now) = some s' :=
    ⟨_, Server.step_eq_some.mpr ⟨hpossible, rfl⟩⟩
  obtain ⟨info', h', hh⟩ := handled_of_step hstep
  have hsame : s'.clientManager = s.clientManager ∧ s'.roomManager = s.roomManager := by
    rcases hh.of_messageSend hp.type with ⟨rfl, -⟩ | ⟨broadcast, -, -, -, rfl⟩
    · exact ⟨rfl, rfl⟩
    · exact ⟨rfl, rfl⟩
  refine ⟨s', hstep, hsame.1, hsame.2, ?_⟩
  have hsaid : said json p = some (.string content) := by
    rw [said, hp.text]
    rfl
  rw [Server.hears, telling_message h hp.type hauth hin, hsaid, Option.bind_some]
  by_cases hfits : fits json (MessageHandler.payload now a info (.string content)) = true
  · rw [if_pos hfits, if_pos hfits]
    exact if_pos ⟨hab, hb⟩
  · rw [if_neg hfits, if_neg hfits]

theorem transcript_of_carries (h : s.client? a = some info) (hauth : info.isAuthenticated = true)
    (hin : info.roomCode ≠ []) (hab : a ≠ b) (hb : b ∈ s.roster.listed info.roomCode)
    {packets : List Packet} {lines : List Bytes}
    (hpackets : List.Forall₂ (Carries json) packets lines) (nows : List LocalTime) :
    ∃ s', Transition.runFrom (Server.step json) s (packetEvents a packets nows) = some s' ∧
      s.transcript json b (packetEvents a packets nows) =
        (fitting json a info lines nows).map fun x =>
          .chats x.2 info.nickname info.ip x.1 := by
  induction hpackets generalizing s nows with
  | nil => exact ⟨s, rfl, rfl⟩
  | @cons p content packets lines hp hpackets ih =>
    cases nows with
    | nil => exact ⟨s, rfl, rfl⟩
    | cons now nows =>
      obtain ⟨u, hstep, hclients, hrooms, hhears⟩ :=
        hears_of_carries now h hauth hin hab hb hp
      have hu : u.client? a = some info := by
        rw [Server.client?, hclients]
        exact h
      have hlisted : b ∈ u.roster.listed info.roomCode := by
        show b ∈ u.roomManager.listed info.roomCode
        rw [hrooms]
        exact hb
      obtain ⟨s', hrun, htranscript⟩ := ih hu hlisted nows
      refine ⟨s', Option.bind_eq_some_iff.mpr ⟨u, hstep, hrun⟩, ?_⟩
      rw [packetEvents, List.zipWith_cons_cons, Server.transcript, hstep, Option.elim_some, hhears]
      show _ ++ u.transcript json b (packetEvents a packets nows) = _
      rw [htranscript, fitting, fitting, List.zip_cons_cons, List.filter_cons]
      by_cases hfits : fits json (MessageHandler.payload now a info (.string content)) = true
      · rw [if_pos hfits, if_pos hfits]
        rfl
      · rw [if_neg hfits, if_neg hfits]
        rfl

/-! ### From keyboard to screen -/

/-- **What is typed is what the others see.**  Client `a` is registered and in a room of a
reachable server, client `b` another member of it, connected and in a chat session.  `a` sends
some lines, whose own texts fit, and every `SendMessage` returns true.  Then however the stream
is cut into chunks on its way to the server, if the packets are handled one at a time, each to
its end, in the order received and with nothing in between, at whatever times `nows`: whatever
partial writes and retries the server needs to send on what it makes of them and whenever the
receiver thread of `b` runs, it prints, in order, each line whose broadcast fits, with its time
and with `a`'s nickname and address, and nothing else. -/
theorem typed_is_shown (hjson : json.Lawful) (hcut : json.ThrowsOnCut) {dis : ℕ → Fin 62}
    {events : List Event}
    (hinit : Transition.runFrom (Server.step json) (Server.init (CodeStream.ofIndices dis))
      events = some s)
    (h : s.client? a = some info) (hauth : info.isAuthenticated = true) (hin : info.roomCode ≠ [])
    (hempty : info.recvBuffer = []) (hab : a ≠ b) (hb : b ∈ s.roster.listed info.roomCode)
    (hconnected : (s.client? b).isSome = true)
    {lines : List Bytes} (hfits : ∀ content ∈ lines, ContentFits json content)
    {results : List (Option Bool)} {bytes : Bytes}
    (hsend : Client.ChatService.sendMessages json o c script lines = .ok (results, bytes))
    (htrue : ∀ r ∈ results, r = some true) {chunks : List Chunk}
    (hchunks : PacketReceiver.streamOf chunks = bytes) (server client : ByteOrder)
    (nows : List LocalTime) {handled : List Event}
    (hhandled : handled = packetEvents a
      ((PacketReceiver.receiveAll server s.clientManager a chunks).1.map Parsed.packet) nows) :
    ∃ s', Transition.runFrom (Server.step json) s handled = some s' ∧
      s.Conveys json b handled server client ((fitting json a info lines nows).map fun x =>
        str "[" ++ x.2.strftime ++ str "][" ++ info.nickname ++ str "(" ++ info.ip ++
          str ")] > " ++ x.1, false) := by
  obtain ⟨packets, hpackets, rfl⟩ := carries_of_sendMessages hjson hfits hsend htrue
  have hfilled : ∀ p ∈ packets, p.Filled :=
    ((List.forall₂_and_left _ _).mp (hpackets.imp fun _ _ hp => ⟨hp.filled, hp⟩)).1
  rw [receiveAll_packets server o hfilled h hempty hchunks] at hhandled
  have htrimmed : List.Forall₂ (Carries json) (packets.map Packet.trim) lines :=
    List.forall₂_map_left_iff.mpr (hpackets.imp fun _ _ hp => hp.trim)
  obtain ⟨s', hrun, htranscript⟩ :=
    transcript_of_carries h hauth hin hab hb htrimmed nows
  rw [← hhandled] at hrun htranscript
  have hcoherent : s.Coherent :=
    Transition.runFrom_always (fun _ _ _ h hstep => h.step hstep) hinit
      (Server.coherent_init (CodeStream.ofIndices dis))
  -- nothing but packets of `a` is handled
  have hsession : s.InSession b handled := by
    have hpacket : ∀ e ∈ handled, ∃ p now, e = .packet a p now := by
      intro e he
      rw [hhandled, packetEvents, ← List.map_uncurry_zip_eq_zipWith] at he
      obtain ⟨x, -, rfl⟩ := List.mem_map.mp he
      exact ⟨x.1, x.2, rfl⟩
    refine ⟨hconnected, fun hclose => ?_, fun p now hp => ?_⟩
    · obtain ⟨p, now, heq⟩ := hpacket _ hclose
      cases heq
    · obtain ⟨p', now', heq⟩ := hpacket _ hp
      injection heq with hfd
      exact absurd hfd.symm hab
  -- every line that is told has a line on the screen
  have hshown : ∀ told : List (Bytes × LocalTime),
      Remark.shown (told.map fun x => .chats x.2 info.nickname info.ip x.1) =
        (told.map fun x => str "[" ++ x.2.strftime ++ str "][" ++ info.nickname ++ str "(" ++
          info.ip ++ str ")] > " ++ x.1, false) := by
    intro told
    induction told with
    | nil => rfl
    | cons x told ih =>
      rw [List.map_cons, Remark.shown, ih]
      rfl
  refine ⟨s', hrun, ?_⟩
  rw [← hshown, ← htranscript]
  exact Server.conveys_transcript hjson hcut (visits_texts hjson hinit) hcoherent hrun hsession
    server client

def farewell : Packet :=
  Packet.ofText PacketType.messageSend (str "\x7b\"message\":\"bye\"\x7d")

/-- The stream of a greeting and a farewell, cut inside the first header. -/
def greetingChunks : List Chunk :=
  [⟨(greeting.encode .little).take 3, by decide +kernel, by decide +kernel⟩,
    ⟨(greeting.encode .little).drop 3 ++ farewell.encode .little, by decide +kernel,
      by decide +kernel⟩]

/-- Client 5, called `ann`, says hello and bye to client 6. -/
theorem typed_is_shown_ann : ∃ s handled s' c,
    Transition.runFrom (Server.step Nlohmann.integral) (Server.init CodeStream.inOrder)
      twoInRoom = some s ∧
    Transition.runFrom (Server.step Nlohmann.integral) s handled = some s' ∧
    Transition.runFrom (ChatSession.step .little Nlohmann.integral)
      (ChatSession.init (str "aaaaaaaa"))
      (ChatSession.arrive (s.packetsTo Nlohmann.integral 6 handled)) = some c ∧
    Transition.Inevitable (ChatSession.step .little Nlohmann.integral)
      ChatSession.Event.OfReceiver (fun c' => (c'.printed, decide (c'.receiver = .terminated)) =
        ([str "[2024-01-01 12:00:00][ann(10.0.0.1)] > hello",
          str "[2024-01-01 12:00:00][ann(10.0.0.1)] > bye"], false)) c := by
  have hready : (Transition.runFrom (Server.step Nlohmann.integral)
      (Server.init CodeStream.inOrder) twoInRoom).any (fun s =>
        (s.client? 5).any (fun info =>
          info.isAuthenticated && decide (info.roomCode ≠ [] ∧ info.recvBuffer = [] ∧
            6 ∈ s.roster.listed info.roomCode ∧ info.nickname = str "ann" ∧
            info.ip = str "10.0.0.1" ∧
            fitting Nlohmann.integral 5 info [str "hello", str "bye"] [noon, noon] =
              [(str "hello", noon), (str "bye", noon)])) &&
        (s.client? 6).isSome &&
        (Transition.runFrom (ChatSession.step .little Nlohmann.integral)
          (ChatSession.init (str "aaaaaaaa")) (ChatSession.arrive (s.packetsTo Nlohmann.integral 6
            (packetEvents 5 [greeting, farewell] [noon, noon])))).any (fun c =>
              decide (c.packets = s.packetsTo Nlohmann.integral 6
                (packetEvents 5 [greeting, farewell] [noon, noon])))) = true := by
    decide +kernel
  have hsend : Client.ChatService.sendMessages Nlohmann.integral .little ⟨true, []⟩
      [.accepted 5, .accepted 99, .accepted 99] [str "hello", str "bye"] =
        .ok ([some true, some true], greeting.encode .little ++ farewell.encode .little) :=
    Json.ok_of_toOption (by decide +kernel)
  have hfits : ∀ content ∈ [str "hello", str "bye"], ContentFits Nlohmann.integral content := by
    intro content hcontent t ht
    obtain ⟨-, rfl⟩ := Nlohmann.dump_integral.mp ht
    clear ht
    revert content
    decide +kernel
  have hfilled : ∀ p ∈ [greeting, farewell], p.Filled := by decide +kernel
  have htrim : [greeting, farewell].map Packet.trim = [greeting, farewell] := by decide +kernel
  have hchunks : PacketReceiver.streamOf greetingChunks =
      [greeting, farewell].flatMap (Packet.encode .little) := by
    decide +kernel
  obtain ⟨s, hrun, hs⟩ := (Option.any_eq_true _ _).mp hready
  rw [Bool.and_eq_true, Bool.and_eq_true] at hs
  obtain ⟨⟨hs, hconnected⟩, harrive⟩ := hs
  obtain ⟨c, hc, hpackets⟩ := (Option.any_eq_true _ _).mp harrive
  obtain ⟨info, hinfo, hclient⟩ := (Option.any_eq_true _ _).mp hs
  rw [Bool.and_eq_true, decide_eq_true_iff] at hclient
  obtain ⟨hauth, hin, hempty, hlisted, hname, hip, hfitting⟩ := hclient
  have hreceived := receiveAll_packets .big .little hfilled hinfo hempty hchunks
  obtain ⟨s', hhandled, hconveys⟩ := typed_is_shown Nlohmann.lawful_integral
    Nlohmann.throwsOnCut_integral hrun hinfo hauth hin hempty (by decide) hlisted hconnected hfits
    hsend (by decide) hchunks .big .little [noon, noon]
    (congrArg (packetEvents 5 · [noon, noon]) (htrim.symm.trans hreceived.symm))
  refine ⟨s, _, s', c, hrun, hhandled, hc, ?_⟩
  have hshows := (hconveys.shows _ _ c hc (ChatSession.exitRoom_not_mem_arrive _)).2
    (of_decide_eq_true hpackets)
  rw [hfitting, hname, hip] at hshows
  refine hshows.mono fun c' hc' => hc'.trans ?_
  decide +kernel

end SocketChat
