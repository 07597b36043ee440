/-
The client's side of the wire: `NetworkClient::Send` and `NetworkClient::Receive`.

`Receive` reads a header and then as many bytes as that declares, refusing more than
`MAX_PAYLOAD_SIZE`.  What one side writes packet by packet the other side reads back
packet by packet (`decode_encode`), in both directions and on hosts of either byte
order.
-/
import SocketChat.Server.PacketReceiver
import SocketChat.Server.PacketSender

namespace SocketChat

open Socket

/-- The client's end of a connection.  `incoming` holds the bytes sent to it and not yet
received. -/
structure NetworkClient where
  connected : Bool
  incoming : Bytes

namespace NetworkClient

/-- The two calls of `recv` do `headerRecv` and `payloadRecv`; the packet is `none` when
`false` is returned. -/
def receive (o : ByteOrder) (c : NetworkClient) (headerRecv payloadRecv : RecvResult) :
    Option Packet × NetworkClient :=
  let header := recvWaitAll sizeofPacketHeader headerRecv c.incoming
  match header.1 with
  | some [t₀, t₁, s₀, s₁] =>
    let type := o.ntohs (o.load t₀ t₁)
    let size := o.ntohs (o.load s₀ s₁)
    if 0 < size then
      if size.toNat > maxPayloadSize then (none, ⟨false, header.2⟩)
      else
        let payload := recvWaitAll size.toNat payloadRecv header.2
        match payload.1 with
        | some received =>
          if received.length ≠ size.toNat then (none, ⟨false, payload.2⟩)
          else (some ⟨type, size, received⟩, { c with incoming := payload.2 })
        | none => (none, ⟨false, payload.2⟩)
    else (some ⟨type, size, []⟩, { c with incoming := header.2 })
  | _ => (none, ⟨false, header.2⟩)

/-- `Receive` repeated, every `recv` returning the full count. -/
def receiveEach (o : ByteOrder) : ℕ → NetworkClient → List (Option Packet) × NetworkClient
  | 0, c => ([], c)
  | n + 1, c =>
    let first := receive o c .full .full
    let rest := receiveEach o n first.2
    (first.1 :: rest.1, rest.2)

/-- A call of `Send`: what it returns, `none` while it does not, with the bytes accepted
and the part of the script that is left. -/
structure Sent where
  result : Option Bool
  bytes : Bytes
  script : List SendResult

def send (o : ByteOrder) (c : NetworkClient) (script : List SendResult) (packet : Packet) : Sent :=
  if c.connected = false then ⟨some false, [], script⟩
  else if packet.size.toNat > maxPayloadSize then ⟨some false, [], script⟩
  else
    let written :=
      writeAll false (packet.encode o) (sizeofPacketHeader + packet.size.toNat) script 0
    match written.outcome with
    | .done => ⟨some true, written.bytes, written.script⟩
    | .failed => ⟨some false, written.bytes, written.script⟩
    | .pending => ⟨none, written.bytes, written.script⟩

/-- `Send` called for packet after packet: the results and the stream. -/
def sendEach (o : ByteOrder) (c : NetworkClient) :
    List SendResult → List Packet → List (Option Bool) × Bytes
  | _, [] => ([], [])
  | script, packet :: packets =>
    let sent := send o c script packet
    let rest := sendEach o c sent.script packets
    (sent.result :: rest.1, sent.bytes ++ rest.2)

/-- Partial writes do not show in the stream. -/
theorem sendEach_done (o : ByteOrder) {c : NetworkClient} (hc : c.connected = true)
    {packets : List Packet} (hfilled : ∀ p ∈ packets, p.Filled) :
    ∀ script : List SendResult, (∀ r ∈ script, r.isAccepted = true) →
      (packets.flatMap (Packet.encode o)).length ≤ script.length →
      sendEach o c script packets =
        (packets.map fun _ => some true, packets.flatMap (Packet.encode o)) := by
  induction packets with
  | nil => exact fun script _ _ => rfl
  | cons packet packets ih =>
    intro script haccepted hcount
    have hpacket : packet.Filled := hfilled packet List.mem_cons_self
    have hlen : (packet.encode o).length = sizeofPacketHeader + packet.size.toNat :=
      Packet.length_encode hpacket o
    have hall : script.countP SendResult.isAccepted = script.length :=
      List.countP_eq_length.mpr haccepted
    rw [List.flatMap_cons, List.length_append, hlen] at hcount
    have hproceeds : ∀ r ∈ script, r.proceeds false = true := by
      intro r hr
      cases r with
      | accepted n => rfl
      | again => exact haccepted _ hr
      | error => exact haccepted _ hr
    obtain ⟨rest, hwrite, hsuffix, hleft⟩ := writeAll_done false hlen script 0 (Nat.zero_le _)
      hproceeds (by omega)
    have hrest : rest.countP SendResult.isAccepted = rest.length :=
      List.countP_eq_length.mpr fun r hr => haccepted r (hsuffix.subset hr)
    have hsend : send o c script packet = ⟨some true, packet.encode o, rest⟩ := by
      rw [send, if_neg (by simp [hc]), if_neg (Nat.not_lt.mpr hpacket.2), hwrite]
      rfl
    rw [sendEach, hsend]
    simp only
    rw [ih (fun p hp => hfilled p (List.mem_cons_of_mem packet hp)) rest
      (fun r hr => haccepted r (hsuffix.subset hr)) (by omega)]
    rfl

/-- A call of `Send` that returns true has written the packet, any other has written the
beginning of it. -/
theorem bytes_send (o : ByteOrder) (c : NetworkClient) (script : List SendResult)
    {packet : Packet} (hfilled : packet.Filled) :
    (send o c script packet).bytes <+: packet.encode o ∧
      ((send o c script packet).result = some true →
        (send o c script packet).bytes = packet.encode o) := by
  have hlen := Packet.length_encode hfilled o
  rw [send]
  by_cases hc : c.connected = false
  · rw [if_pos hc]
    exact ⟨List.nil_prefix, fun h => by cases h⟩
  · rw [if_neg hc, if_neg (Nat.not_lt.mpr hfilled.2)]
    have hpre := isPrefix_writeAll false (packet.encode o)
      (sizeofPacketHeader + packet.size.toNat) script 0
    rw [List.drop_zero] at hpre
    cases hout : (writeAll false (packet.encode o) (sizeofPacketHeader + packet.size.toNat)
      script 0).outcome with
    | done =>
      have hbytes := bytes_of_writeAll_done false hlen script 0 (Nat.zero_le _) hout
      rw [List.drop_zero] at hbytes
      simp only [hout]
      exact ⟨hpre, fun _ => hbytes⟩
    | failed =>
      simp only [hout]
      exact ⟨hpre, fun h => by cases h⟩
    | pending =>
      simp only [hout]
      exact ⟨hpre, fun h => by cases h⟩

/-- While no `Send` before the last fails, the stream is a prefix of the packets' frames. -/
theorem isPrefix_sendEach (o : ByteOrder) {c : NetworkClient} {packets : List Packet}
    (hfilled : ∀ p ∈ packets, p.Filled) :
    ∀ script : List SendResult,
      (∀ result ∈ (sendEach o c script packets).1.dropLast, result = some true) →
      (sendEach o c script packets).2 <+: packets.flatMap (Packet.encode o) := by
  induction packets with
  | nil => exact fun _ _ => List.nil_prefix
  | cons packet packets ih =>
    intro script hsent
    obtain ⟨hpre, hdone⟩ := bytes_send o c script (hfilled packet List.mem_cons_self)
    rw [sendEach, List.flatMap_cons]
    cases packets with
    | nil =>
      rw [sendEach, List.flatMap_nil, List.append_nil, List.append_nil]
      exact hpre
    | cons next packets =>
      rw [sendEach] at hsent
      have hmore : (sendEach o c (send o c script packet).script (next :: packets)).1 ≠ [] :=
        List.cons_ne_nil _ _
      simp only [List.dropLast_cons_of_ne_nil hmore] at hsent
      have hfirst := hdone (hsent _ List.mem_cons_self)
      have hrest := ih (fun p hp => hfilled p (List.mem_cons_of_mem packet hp)) _
        fun result hresult => hsent result (List.mem_cons_of_mem _ hresult)
      simp only [hfirst]
      exact (List.prefix_append_right_inj _).mpr hrest

/-- `Receive` on a stream that starts with a packet. -/
theorem receive_encode (o o' : ByteOrder) {packet : Packet} (hfilled : packet.Filled)
    (connected : Bool) (rest : Bytes) :
    receive o ⟨connected, packet.encode o' ++ rest⟩ .full .full =
      (some packet.trim, ⟨connected, rest⟩) := by
  have hlen := Packet.length_text hfilled
  have hnot : ¬ packet.size.toNat > maxPayloadSize := Nat.not_lt.mpr hfilled.2
  rw [Packet.encode_eq]
  simp only [receive, recvWaitAll, sizeofPacketHeader, List.cons_append, List.take_succ_cons,
    List.take_zero, List.drop_succ_cons, List.drop_zero, ByteOrder.ntohs_load,
    ByteOrder.word_hi_lo, if_neg hnot]
  by_cases hsize : 0 < packet.size
  · have htake : (packet.text ++ rest).take packet.size.toNat = packet.text := List.take_left' hlen
    have hdrop : (packet.text ++ rest).drop packet.size.toNat = rest := List.drop_left' hlen
    rw [if_pos hsize]
    simp only [htake, hdrop, hlen, ne_eq, not_true_eq_false, if_false]
    rfl
  · have hzero : packet.size.toNat = 0 := Nat.eq_zero_of_not_pos hsize
    have htext : packet.text = [] := List.eq_nil_of_length_eq_zero (hlen.trans hzero)
    rw [if_neg hsize, htext]
    simp only [Packet.trim, htext, List.nil_append]

theorem receiveEach_encode (o o' : ByteOrder) {packets : List Packet}
    (hfilled : ∀ p ∈ packets, p.Filled) (connected : Bool) :
    receiveEach o packets.length ⟨connected, packets.flatMap (Packet.encode o')⟩ =
      (packets.map fun p => some p.trim, ⟨connected, []⟩) := by
  induction packets with
  | nil => rfl
  | cons packet packets ih =>
    rw [List.length_cons, receiveEach, List.flatMap_cons,
      receive_encode o o' (hfilled packet List.mem_cons_self)]
    simp only
    rw [ih fun p hp => hfilled p (List.mem_cons_of_mem packet hp)]
    rfl

end NetworkClient

/-- Packets that fit are written as frames, which are parsed as the packets. -/
theorem exists_frames_of_packets (o : ByteOrder) {packets : List Packet}
    (hfilled : ∀ p ∈ packets, p.Filled) :
    ∃ frames : List Frame, packets.flatMap (Packet.encode o) = frames.flatMap Frame.bytes ∧
      frames.map (fun f => (PacketReceiver.parsed f).packet) = packets.map Packet.trim := by
  induction packets with
  | nil => exact ⟨[], rfl, rfl⟩
  | cons packet packets ih =>
    obtain ⟨frames, hbytes, hpackets⟩ := ih fun p hp => hfilled p (List.mem_cons_of_mem packet hp)
    have hlen := Packet.length_text (hfilled packet List.mem_cons_self)
    let f : Frame := ⟨packet.type, packet.text, by rw [hlen]; exact packet.size.toNat_lt⟩
    have hsize : f.size = packet.size := by
      show UInt16.ofNat packet.text.length = packet.size
      rw [hlen, UInt16.ofNat_toNat]
    have hencode : packet.encode o = f.bytes := by
      rw [Packet.encode_eq, Frame.bytes, hsize]
    refine ⟨f :: frames, ?_, ?_⟩
    · rw [List.flatMap_cons, List.flatMap_cons, hbytes, hencode]
    · rw [List.map_cons, List.map_cons, hpackets]
      show Packet.mk packet.type f.size packet.text :: _ = _
      rw [hsize]
      rfl

/-- **Decoding undoes encoding, in both directions.**  Packets that fit are written by
the client with arbitrary partial writes, and reach the server in arbitrary chunks: every
`Send` returns true, the callback sees the packets in order and `recvBuffer` ends empty.
They are written by the server with arbitrary partial writes and retries: `send` returns,
and `Receive` returns the packets in order.  The hosts' byte orders do not matter. -/
theorem decode_encode (client server : ByteOrder) (packets : List Packet)
    (hfilled : ∀ p ∈ packets, p.Filled) :
    (∀ (c : NetworkClient) (script : List SendResult), c.connected = true →
      (∀ r ∈ script, r.isAccepted = true) →
      (packets.flatMap (Packet.encode client)).length ≤ script.length →
      (∀ result ∈ (c.sendEach client script packets).1, result = some true) ∧
      ∀ (m : ClientManager) (fd : Fd) (ip : Bytes) (chunks : List Chunk),
        PacketReceiver.streamOf chunks = (c.sendEach client script packets).2 →
        (PacketReceiver.receiveAll server (m.addClient fd ip) fd chunks).1.map Parsed.packet =
            packets.map Packet.trim ∧
          PacketReceiver.recvBuffer
            (PacketReceiver.receiveAll server (m.addClient fd ip) fd chunks).2 fd = []) ∧
    (∀ script : List SendResult, (∀ r ∈ script, r ≠ .error) →
      (packets.flatMap (Packet.encode server)).length ≤
        script.countP SendResult.isAccepted →
      (PacketSender.sendEach server script packets).outcome = .done ∧
      NetworkClient.receiveEach client packets.length
          ⟨true, (PacketSender.sendEach server script packets).bytes⟩ =
        (packets.map fun p => some p.trim, ⟨true, []⟩)) := by
  constructor
  · intro c script hc haccepted hcount
    rw [NetworkClient.sendEach_done client hc hfilled script haccepted hcount]
    refine ⟨fun result hresult => ?_, fun m fd ip chunks hstream => ?_⟩
    · obtain ⟨-, -, rfl⟩ := List.mem_map.mp hresult
      rfl
    · obtain ⟨frames, hbytes, hpackets⟩ := exists_frames_of_packets client hfilled
      have hframes : PacketReceiver.streamOf chunks = frames.flatMap Frame.bytes ++ [] := by
        rw [hstream, hbytes, List.append_nil]
      have hdrain : (PacketReceiver.framing server).drain (frames.flatMap Frame.bytes ++ []) =
          (frames.map PacketReceiver.parsed, []) :=
        (PacketReceiver.framing server).drain_frames rfl frames
      obtain ⟨hparsed, hbuffer⟩ := PacketReceiver.receiveAll_accepted server m fd ip chunks
      rw [hparsed, hbuffer, hframes, hdrain]
      refine ⟨?_, rfl⟩
      rw [List.map_map]
      exact hpackets
  · intro script herror hcount
    obtain ⟨hdone, hbytes⟩ := PacketSender.sendEach_done server hfilled script herror hcount
    rw [hbytes]
    exact ⟨hdone, NetworkClient.receiveEach_encode client server hfilled true⟩

/-- A request to leave the room and a message of two bytes. -/
def twoPackets : List Packet :=
  [⟨PacketType.exitRoom, 0, []⟩, ⟨PacketType.messageSend, 2, str "hi"⟩]

/-- The two packets in three chunks, cut inside the headers. -/
def twoPacketsChunks : List Chunk :=
  [⟨[0x01], by decide, by decide⟩, ⟨[0x2E, 0x00, 0x00, 0x00, 0xC9, 0x00], by decide, by decide⟩,
    ⟨[0x02, 0x68, 0x69], by decide, by decide⟩]

/-- A client on a big-endian host writes two bytes at a time; a server on a little-endian
one writes one byte at a time, and every time the socket would block at first. -/
theorem decode_encode_twoPackets :
    (PacketReceiver.receiveAll .little (ClientManager.empty.addClient 5 []) 5
      twoPacketsChunks).1.map Parsed.packet = twoPackets.map Packet.trim ∧
    NetworkClient.receiveEach .big 2 ⟨true, (PacketSender.sendEach .little
        (List.replicate 10 [SendResult.again, .accepted 0]).flatten twoPackets).bytes⟩ =
      (twoPackets.map fun p => some p.trim, ⟨true, []⟩) := by
  obtain ⟨hclient, hserver⟩ := decode_encode .big .little twoPackets (by decide)
  have hscript : ∀ r ∈ List.replicate 10 (SendResult.accepted 1), r.isAccepted = true := by decide
  have hsend := hclient ⟨true, []⟩ (List.replicate 10 (.accepted 1)) rfl hscript (by decide)
  have hreceive := hserver (List.replicate 10 [SendResult.again, .accepted 0]).flatten
    (by decide) (by decide)
  exact ⟨(hsend.2 ClientManager.empty 5 [] twoPacketsChunks (by decide)).1, hreceive.2⟩

end SocketChat
