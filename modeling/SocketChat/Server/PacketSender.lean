/-
The server's frame encoder.

`PacketSender::send` writes one packet, calling `send` again when the socket would
block.  `sendEach` is one caller sending packet after packet.
-/
import SocketChat.Lib.Socket
import SocketChat.Protocol

namespace SocketChat

open Socket

namespace PacketSender

def send (o : ByteOrder) (script : List SendResult) (packet : Packet) : Written :=
  writeAll true (packet.encode o) (sizeofPacketHeader + packet.size.toNat) script 0

/-- One caller sending packets in turn, up to the first that does not return; a failure
is only logged. -/
def sendEach (o : ByteOrder) : List SendResult → List Packet → Written
  | script, [] => ⟨.done, [], script⟩
  | script, packet :: packets =>
    let written := send o script packet
    if written.outcome = .pending then written
    else
      let rest := sendEach o written.script packets
      { rest with bytes := written.bytes ++ rest.bytes }

/-- Partial writes and `EAGAIN` do not show in the stream. -/
theorem sendEach_done (o : ByteOrder) {packets : List Packet} (hfilled : ∀ p ∈ packets, p.Filled) :
    ∀ script : List SendResult, (∀ r ∈ script, r ≠ .error) →
      (packets.flatMap (Packet.encode o)).length ≤ script.countP SendResult.isAccepted →
      (sendEach o script packets).outcome = .done ∧
        (sendEach o script packets).bytes = packets.flatMap (Packet.encode o) := by
  induction packets with
  | nil => exact fun script _ _ => ⟨rfl, rfl⟩
  | cons packet packets ih =>
    intro script herror hcount
    have hlen : (packet.encode o).length = sizeofPacketHeader + packet.size.toNat :=
      Packet.length_encode (hfilled packet List.mem_cons_self) o
    rw [List.flatMap_cons, List.length_append, hlen] at hcount
    have hproceeds : ∀ r ∈ script, r.proceeds true = true := by
      intro r hr
      cases r with
      | accepted n => rfl
      | again => rfl
      | error => exact absurd rfl (herror _ hr)
    obtain ⟨rest, hwrite, hsuffix, hleft⟩ := writeAll_done true hlen script 0 (Nat.zero_le _)
      hproceeds (by omega)
    obtain ⟨hdone, hbytes⟩ := ih (fun p hp => hfilled p (List.mem_cons_of_mem packet hp)) rest
      (fun r hr => herror r (hsuffix.subset hr)) (by omega)
    have hsend : send o script packet = ⟨.done, packet.encode o, rest⟩ := hwrite
    rw [sendEach, hsend]
    exact ⟨hdone, congrArg (packet.encode o ++ ·) hbytes⟩

end PacketSender

end SocketChat
