/-
The bytes a connection is sent.

Every worker thread calls `PacketSender::send`, for the answers to its own client and for
what it broadcasts to a room, and no lock is taken for a descriptor.  `send` accepts part
of a packet at a time and gives up at an error.  `packets_whole_iff` shows that a stream
consists of whole packets in exactly the runs in which nobody is in the middle of a
packet, or has given one up there, when another's bytes are accepted.
-/
import SocketChat.Lib.Writers
import SocketChat.Server.Answers
import SocketChat.Server.PacketSender

namespace SocketChat

open Socket

/-- A packet whose payload has been filled, as it has in all that the handlers send
(`PacketHandler.handle_onlyFilled`). -/
abbrev Outgoing := {packet : Packet // packet.Filled}

/-- What `send` writes of a packet. -/
def Outgoing.encode (o : ByteOrder) (packet : Outgoing) : Bytes := packet.val.encode o

theorem Outgoing.length_encode (o : ByteOrder) (packet : Outgoing) :
    (packet.encode o).length = sizeofPacketHeader + packet.val.size.toNat :=
  Packet.length_encode packet.property o

theorem Outgoing.encode_ne_nil (o : ByteOrder) (packet : Outgoing) : packet.encode o ≠ [] := by
  intro hnil
  have hlen := packet.length_encode o
  rw [hnil, List.length_nil, sizeofPacketHeader] at hlen
  omega

/-- The worker threads `W` in their calls of `send`. -/
abbrev OutgoingStreams (W : Type*) := Writers W Fd Outgoing

/-- What every descriptor has been sent is a prefix of whole packets. -/
def OutgoingStreams.WholePackets {W : Type*} (o : ByteOrder) (s : OutgoingStreams W) : Prop :=
  ∀ fd, ∃ packets : List Outgoing, s.bytes fd <+: packets.flatMap (Outgoing.encode o)

variable {W : Type*} [DecidableEq W]

/-- A worker that begins a packet and is left alone sends what `send` sends. -/
theorem runFrom_send (o : ByteOrder) (script : List SendResult) {s : OutgoingStreams W} {w : W}
    (hfree : s.worker w = none) (fd : Fd) (packet : Outgoing) :
    ∃ used s', used ++ (PacketSender.send o script packet.val).script = script ∧
      Transition.runFrom (Writers.step (Outgoing.encode o)) s
        (.call w fd packet :: used.map (Writers.Event.send w)) = some s' ∧
      s'.bytes fd = s.bytes fd ++ (PacketSender.send o script packet.val).bytes ∧
      (s'.worker w = none ↔ (PacketSender.send o script packet.val).outcome ≠ .pending) := by
  have hsend : PacketSender.send o script packet.val =
      writeAll true (packet.encode o) (packet.encode o).length script 0 := by
    rw [PacketSender.send, packet.length_encode o]
    rfl
  have hcalled : (Function.update s.worker w (some ⟨s.calls.length, fd, packet, 0⟩)) w =
      some ⟨s.calls.length, fd, packet, 0⟩ := Function.update_self ..
  obtain ⟨used, s', hused, hrun, haccepted, hfree'⟩ :=
    Writers.runFrom_writeAll (Outgoing.encode o) w script
      (s := { s with
        calls := s.calls ++ [(fd, packet)]
        worker := Function.update s.worker w (some ⟨s.calls.length, fd, packet, 0⟩) })
      hcalled (List.length_pos_of_ne_nil (packet.encode_ne_nil o))
  rw [hsend]
  refine ⟨used, s', hused, ?_, ?_, hfree'⟩
  · rw [Transition.runFrom_cons, Writers.step, hfree]
    exact hrun
  · rw [Writers.bytes, haccepted, List.map_append]
    refine congrArg (s.bytes fd ++ ·) ?_
    rw [Writers.tag, List.map_map]
    exact List.map_id _

/-- **Streams consist of whole packets in exactly the undisturbed runs.**  Packets are whole
where each call's bytes stay together, and what is not complete comes last. -/
theorem packets_whole_iff (o : ByteOrder) {events : List (Writers.Event W Fd Outgoing)}
    {final : OutgoingStreams W}
    (hrun : Transition.runFrom (Writers.step (Outgoing.encode o)) (Writers.init W Fd Outgoing)
      events = some final) :
    (∀ s : OutgoingStreams W, Transition.Visits (Writers.step (Outgoing.encode o))
        (Writers.init W Fd Outgoing) events s →
      s.Aligned (Outgoing.encode o) ∧ s.WholePackets o) ↔
      ∀ s e, Transition.Takes (Writers.step (Outgoing.encode o)) (Writers.init W Fd Outgoing)
        events s e → e.Undisturbed s := by
  refine Iff.trans (forall_congr' fun s => imp_congr_right fun _ => ?_)
    (Writers.aligned_iff_undisturbed (Outgoing.encode_ne_nil o) hrun)
  refine and_iff_left_of_imp fun haligned fd => ?_
  obtain ⟨packets, -, hprefix⟩ := haligned.bytes fd
  exact ⟨packets, hprefix⟩

/-- NICKNAME_RESPONSE_OK. -/
def Outgoing.nicknameOk : Outgoing :=
  ⟨Packet.ofText PacketType.nicknameResponseOk [], Packet.filled_ofText (by decide)⟩

def exitNoticeText : Bytes := str "\x7b\"clientFd\":6,\"nickname\":\"bob\"\x7d"

/-- ROOM_USER_EXIT. -/
def Outgoing.exitNotice : Outgoing :=
  ⟨Packet.ofTextCapped PacketType.roomUserExit exitNoticeText, Packet.filled_ofTextCapped _ _⟩

/-- A worker answers client 5, and another then tells it that client 6 has left. -/
def answerThenNotice (v w : W) : List (Writers.Event W Fd Outgoing) :=
  [.call v 5 .nicknameOk, .send v (.accepted 0), .send v .again, .send v (.accepted 2),
    .call w 5 .exitNotice, .send w (.accepted sizeofPacket)]

theorem packets_whole_iff_inTurn :
    (∀ s : OutgoingStreams (Fin 2), Transition.Visits (Writers.step (Outgoing.encode .little))
        (Writers.init (Fin 2) Fd Outgoing) (answerThenNotice 0 1) s →
      s.Aligned (Outgoing.encode .little) ∧ s.WholePackets .little) ↔
      ∀ s e, Transition.Takes (Writers.step (Outgoing.encode .little))
        (Writers.init (Fin 2) Fd Outgoing) (answerThenNotice 0 1) s e → e.Undisturbed s := by
  have hpossible : (Transition.runFrom (Writers.step (Outgoing.encode .little))
      (Writers.init (Fin 2) Fd Outgoing) (answerThenNotice 0 1)).isSome = true := by
    decide +kernel
  exact packets_whole_iff .little (Option.some_get hpossible).symm

/-- The first byte of the answer, and the notice behind it. -/
def tornAnswer : Bytes := 0x03 :: Outgoing.exitNotice.encode .little

/-- It is no part of whole packets: the size in its first four bytes is above
`MAX_PAYLOAD_SIZE`. -/
theorem tornAnswer_not_prefix (packets : List Outgoing) :
    ¬ tornAnswer <+: packets.flatMap (Outgoing.encode .little) := by
  have hstart : tornAnswer = [0x03, 0x0B, 0xE2, 0x00] ++ (0x1F :: exitNoticeText) := by
    decide +kernel
  intro hprefix
  rw [hstart] at hprefix
  cases packets with
  | nil =>
    have hnil := List.prefix_nil.mp hprefix
    cases hnil
  | cons packet packets =>
    rw [List.flatMap_cons, Outgoing.encode, Packet.encode_eq] at hprefix
    simp only [List.cons_append, List.cons_prefix_cons] at hprefix
    obtain ⟨-, -, hsize, -⟩ := hprefix
    have hle := packet.property.2
    have hword := ByteOrder.word_hi_lo packet.val.size
    rw [← hsize] at hword
    have hlarge : maxPayloadSize < packet.val.size.toNat := by
      rw [← hword, ByteOrder.word, UInt16.toNat_ofNat', maxPayloadSize]
      have hlo := (ByteOrder.lo packet.val.size).toNat_lt
      have hhi : (0xE2 : UInt8).toNat = 226 := rfl
      omega
    omega

/-- The notice's packet is begun while the answer is being written. -/
def interleaved (v w : W) : List (Writers.Event W Fd Outgoing) :=
  [.call v 5 .nicknameOk, .send v (.accepted 0), .call w 5 .exitNotice,
    .send w (.accepted sizeofPacket)]

/-- The answer is given up after its first byte, and the notice is sent next. -/
def abandoned (v : W) : List (Writers.Event W Fd Outgoing) :=
  [.call v 5 .nicknameOk, .send v (.accepted 0), .send v .error, .call v 5 .exitNotice,
    .send v (.accepted sizeofPacket)]

/-- Both leave the same bytes, which are no whole packets. -/
theorem not_packets_whole :
    (∃ s : OutgoingStreams (Fin 2), Transition.Visits (Writers.step (Outgoing.encode .little))
        (Writers.init (Fin 2) Fd Outgoing) (interleaved 0 1) s ∧ ¬ s.WholePackets .little) ∧
      ∃ s : OutgoingStreams (Fin 2), Transition.Visits (Writers.step (Outgoing.encode .little))
        (Writers.init (Fin 2) Fd Outgoing) (abandoned 0) s ∧ ¬ s.WholePackets .little := by
  have htorn : ∀ s : OutgoingStreams (Fin 2), decide (s.bytes 5 = tornAnswer) = true →
      ¬ s.WholePackets .little := by
    intro s hbytes hwhole
    obtain ⟨packets, hprefix⟩ := hwhole 5
    rw [of_decide_eq_true hbytes] at hprefix
    exact tornAnswer_not_prefix packets hprefix
  have hinterleaved : (Transition.runFrom (Writers.step (Outgoing.encode .little))
      (Writers.init (Fin 2) Fd Outgoing) (interleaved 0 1)).any
        (fun s => decide (s.bytes 5 = tornAnswer)) = true := by
    decide +kernel
  have habandoned : (Transition.runFrom (Writers.step (Outgoing.encode .little))
      (Writers.init (Fin 2) Fd Outgoing) (abandoned 0)).any
        (fun s => decide (s.bytes 5 = tornAnswer)) = true := by
    decide +kernel
  obtain ⟨s, hs, hbytes⟩ := Transition.Visits.of_any hinterleaved
  obtain ⟨t, ht, hbytes'⟩ := Transition.Visits.of_any habandoned
  exact ⟨⟨s, hs, htorn s hbytes⟩, t, ht, htorn t hbytes'⟩

end SocketChat
