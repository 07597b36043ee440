/-
The wire protocol.

A packet on the wire is a packed header (16-bit type, 16-bit payload size, both in
network byte order) followed by the payload.  Both programs carry a copy of the same
`Protocol.h`, and each converts with its own host's byte order; `encode_eq` shows that
what is written does not depend on the writer's.
-/
import SocketChat.Lib.Bytes
import Mathlib.Tactic.Basic

namespace SocketChat

/-! ### Byte order -/

/-- The byte order of a host. -/
inductive ByteOrder where
  | little
  | big

namespace ByteOrder

/-- The high byte of a 16-bit number. -/
def hi (x : UInt16) : UInt8 := UInt8.ofNat (x.toNat / 256)

/-- The low byte of a 16-bit number. -/
def lo (x : UInt16) : UInt8 := UInt8.ofNat (x.toNat % 256)

/-- The number with the given high and low byte. -/
def word (h l : UInt8) : UInt16 := UInt16.ofNat (256 * h.toNat + l.toNat)

/-- The two bytes of a `uint16_t` in memory. -/
def store : ByteOrder → UInt16 → UInt8 × UInt8
  | little, x => (lo x, hi x)
  | big, x => (hi x, lo x)

/-- The `uint16_t` held by two bytes of memory. -/
def load : ByteOrder → UInt8 → UInt8 → UInt16
  | little, a, b => word b a
  | big, a, b => word a b

/-- `htons`. -/
def htons : ByteOrder → UInt16 → UInt16
  | little, x => word (lo x) (hi x)
  | big, x => x

/-- `ntohs`. -/
def ntohs : ByteOrder → UInt16 → UInt16
  | little, x => word (lo x) (hi x)
  | big, x => x

@[simp] theorem hi_word (h l : UInt8) : hi (word h l) = h := by
  have hh := h.toNat_lt
  have hl := l.toNat_lt
  have hw : (word h l).toNat = 256 * h.toNat + l.toNat := by
    rw [word, UInt16.toNat_ofNat']
    omega
  rw [hi, hw, show (256 * h.toNat + l.toNat) / 256 = h.toNat by omega, UInt8.ofNat_toNat]

@[simp] theorem lo_word (h l : UInt8) : lo (word h l) = l := by
  have hh := h.toNat_lt
  have hl := l.toNat_lt
  have hw : (word h l).toNat = 256 * h.toNat + l.toNat := by
    rw [word, UInt16.toNat_ofNat']
    omega
  rw [lo, hw, show (256 * h.toNat + l.toNat) % 256 = l.toNat by omega, UInt8.ofNat_toNat]

@[simp] theorem word_hi_lo (x : UInt16) : word (hi x) (lo x) = x := by
  have hx := x.toNat_lt
  have hh : (hi x).toNat = x.toNat / 256 := by
    rw [hi, UInt8.toNat_ofNat']
    omega
  have hl : (lo x).toNat = x.toNat % 256 := by
    rw [lo, UInt8.toNat_ofNat']
    omega
  rw [word, hh, hl, Nat.div_add_mod, UInt16.ofNat_toNat]

/-- Whatever the host, `htons` puts the high byte first in memory. -/
@[simp] theorem store_htons (o : ByteOrder) (x : UInt16) : o.store (o.htons x) = (hi x, lo x) := by
  cases o with
  | little => simp [store, htons]
  | big => rfl

/-- Whatever the host, `ntohs` reads the first byte in memory as the high one. -/
@[simp] theorem ntohs_load (o : ByteOrder) (a b : UInt8) : o.ntohs (o.load a b) = word a b := by
  cases o with
  | little => simp [ntohs, load]
  | big => rfl

end ByteOrder

/-! ### Packets -/

/-- `RECV_BUFFER_SIZE`. -/
def recvBufferSize : ℕ := 4096

/-- `MAX_NICKNAME_LEN`. -/
def maxNicknameLen : ℕ := 32

/-- `MAX_PAYLOAD_SIZE`. -/
def maxPayloadSize : ℕ := 1024

/-- `sizeof(PacketHeader)`: two packed 16-bit fields. -/
def sizeofPacketHeader : ℕ := 4

/-- `sizeof(Packet)`. -/
def sizeofPacket : ℕ := sizeofPacketHeader + maxPayloadSize

/-- An `enum class PacketType : uint16_t`: any 16-bit value can arrive in a header,
the enumerators name some of them. -/
abbrev PacketType := UInt16

namespace PacketType

def nicknameRequest : PacketType := 101
def messageSend : PacketType := 201
def createRoom : PacketType := 301
def exitRoom : PacketType := 302
def joinRoom : PacketType := 303

def nicknameResponseOk : PacketType := 1001
def nicknameResponseFail : PacketType := 1002
def roomCreateOk : PacketType := 3011
def roomCreateFail : PacketType := 3012
def roomExitOk : PacketType := 3021
def roomExitFail : PacketType := 3022
def roomJoinOk : PacketType := 3031
def roomJoinFail : PacketType := 3032
def roomUserJoin : PacketType := 3041
def roomUserExit : PacketType := 3042

def messageChat : PacketType := 1101
def messageSystem : PacketType := 1102

end PacketType

/-- A `Packet` in memory, its header in host order.  `payload` holds the bytes written
to the payload array so far, from its start; what lies behind them is uninitialised. -/
structure Packet where
  type : PacketType
  size : UInt16
  payload : Bytes
  deriving DecidableEq

namespace Packet

/-- `std::string(packet.payload, packet.header.size)`. -/
def text (p : Packet) : Bytes := p.payload.take p.size.toNat

/-- The first `header.size` bytes of the payload have been written, and fit the
payload array. -/
def Filled (p : Packet) : Prop :=
  p.size.toNat ≤ p.payload.length ∧ p.size.toNat ≤ maxPayloadSize

instance (p : Packet) : Decidable p.Filled := inferInstanceAs (Decidable (_ ∧ _))

/-- The packet without the payload bytes behind `header.size`. -/
def trim (p : Packet) : Packet := { p with payload := p.text }

/-- The bytes `send` is given: the packed header with both fields through `htons`, then
`header.size` payload bytes. -/
def encode (o : ByteOrder) (p : Packet) : Bytes :=
  let type := o.store (o.htons p.type)
  let size := o.store (o.htons p.size)
  [type.1, type.2, size.1, size.2] ++ p.text

/-- The frame of a packet, without reference to a host. -/
theorem encode_eq (o : ByteOrder) (p : Packet) :
    p.encode o = ByteOrder.hi p.type :: ByteOrder.lo p.type ::
      ByteOrder.hi p.size :: ByteOrder.lo p.size :: p.text := by
  simp [encode]

theorem length_text {p : Packet} (h : p.Filled) : p.text.length = p.size.toNat := by
  rw [text, List.length_take]
  exact Nat.min_eq_left h.1

theorem length_encode {p : Packet} (h : p.Filled) (o : ByteOrder) :
    (p.encode o).length = sizeofPacketHeader + p.size.toNat := by
  rw [encode_eq]
  simp only [List.length_cons, length_text h, sizeofPacketHeader]
  omega

end Packet

end SocketChat
