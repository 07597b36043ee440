/-
The server's frame decoder.

`PacketReceiver::parsePackets` takes complete frames off a client's `recvBuffer`;
`Parsed` records for each what `memcpy` copies and what the callback is given.  The loop
is the draining of a `Framing`, and the library's rules give its two properties: it does
not depend on how the stream arrives (`receiveAll_segmentation`), and it stays within a
`Packet` exactly on streams whose complete frames do (`copies_within_iff`): the declared
size is not checked.
-/
import SocketChat.Lib.Framing
import SocketChat.Protocol
import SocketChat.Server.ClientManager

namespace SocketChat

/-! ### Frames -/

/-- A frame as it travels: a type and a payload whose length fits the size field. -/
structure Frame where
  type : PacketType
  payload : Bytes
  fits : payload.length < 2 ^ 16

namespace Frame

def size (f : Frame) : UInt16 := UInt16.ofNat f.payload.length

theorem toNat_size (f : Frame) : f.size.toNat = f.payload.length := by
  rw [size, UInt16.toNat_ofNat']
  exact Nat.mod_eq_of_lt f.fits

def bytes (f : Frame) : Bytes :=
  ByteOrder.hi f.type :: ByteOrder.lo f.type :: ByteOrder.hi f.size :: ByteOrder.lo f.size ::
    f.payload

theorem length_bytes (f : Frame) : f.bytes.length = sizeofPacketHeader + f.payload.length := by
  simp only [bytes, List.length_cons, sizeofPacketHeader]
  omega

end Frame

/-! ### The loop -/

/-- One pass of the loop: the number of bytes `memcpy` copies into the `Packet`, and the
packet the callback is called with. -/
structure Parsed where
  copied : ℕ
  packet : Packet

namespace PacketReceiver

variable (o : ByteOrder)

/-- One pass of the loop on a `recvBuffer`: nothing while the header or the payload is not
all there, else what is parsed and the buffer after `erase`. -/
def parseNext (recvBuffer : Bytes) : Option (Parsed × Bytes) :=
  match recvBuffer with
  | t₀ :: t₁ :: s₀ :: s₁ :: payload =>
    let payload_size := o.ntohs (o.load s₀ s₁)
    let packet_size := sizeofPacketHeader + payload_size.toNat
    if recvBuffer.length < packet_size then none
    else some (⟨packet_size,
      ⟨o.ntohs (o.load t₀ t₁), payload_size, payload.take payload_size.toNat⟩⟩,
      recvBuffer.drop packet_size)
  | _ => none

/-- What the loop makes of a frame. -/
def parsed (f : Frame) : Parsed :=
  ⟨sizeofPacketHeader + f.payload.length, ⟨f.type, f.size, f.payload⟩⟩

theorem parseNext_header (t₀ t₁ s₀ s₁ : UInt8) (payload : Bytes) :
    parseNext o (t₀ :: t₁ :: s₀ :: s₁ :: payload) =
      if payload.length < (ByteOrder.word s₀ s₁).toNat then none
      else some (⟨sizeofPacketHeader + (ByteOrder.word s₀ s₁).toNat,
        ⟨ByteOrder.word t₀ t₁, ByteOrder.word s₀ s₁,
          payload.take (ByteOrder.word s₀ s₁).toNat⟩⟩,
        payload.drop (ByteOrder.word s₀ s₁).toNat) := by
  have hlen : (t₀ :: t₁ :: s₀ :: s₁ :: payload).length <
      sizeofPacketHeader + (ByteOrder.word s₀ s₁).toNat ↔
        payload.length < (ByteOrder.word s₀ s₁).toNat := by
    simp only [List.length_cons, sizeofPacketHeader]
    omega
  have hdrop : (t₀ :: t₁ :: s₀ :: s₁ :: payload).drop
      (sizeofPacketHeader + (ByteOrder.word s₀ s₁).toNat) =
        payload.drop (ByteOrder.word s₀ s₁).toNat := by
    rw [sizeofPacketHeader, Nat.add_comm]
    rfl
  simp only [parseNext, ByteOrder.ntohs_load, hlen, hdrop]

theorem parseNext_short {recvBuffer : Bytes} (h : recvBuffer.length < 4) :
    parseNext o recvBuffer = none := by
  match recvBuffer with
  | [] => rfl
  | [_] => rfl
  | [_, _] => rfl
  | [_, _, _] => rfl
  | _ :: _ :: _ :: _ :: _ =>
    simp only [List.length_cons] at h
    omega

/-- One pass of the loop finds exactly the frames. -/
theorem parseNext_eq_some {recvBuffer rest : Bytes} {p : Parsed} :
    parseNext o recvBuffer = some (p, rest) ↔
      ∃ f : Frame, p = parsed f ∧ recvBuffer = f.bytes ++ rest := by
  constructor
  · intro h
    by_cases hshort : recvBuffer.length < 4
    · rw [parseNext_short o hshort] at h
      cases h
    · obtain ⟨t₀, t₁, s₀, s₁, payload, rfl⟩ : ∃ t₀ t₁ s₀ s₁ payload,
          recvBuffer = t₀ :: t₁ :: s₀ :: s₁ :: payload := by
        match recvBuffer with
        | [] | [_] | [_, _] | [_, _, _] => simp at hshort
        | t₀ :: t₁ :: s₀ :: s₁ :: payload => exact ⟨t₀, t₁, s₀, s₁, payload, rfl⟩
      rw [parseNext_header] at h
      by_cases hlen : payload.length < (ByteOrder.word s₀ s₁).toNat
      · rw [if_pos hlen] at h
        cases h
      · rw [if_neg hlen, Option.some_inj] at h
        cases h
        have htake : (payload.take (ByteOrder.word s₀ s₁).toNat).length =
            (ByteOrder.word s₀ s₁).toNat := by
          rw [List.length_take]
          omega
        let f : Frame := ⟨ByteOrder.word t₀ t₁, payload.take (ByteOrder.word s₀ s₁).toNat,
          by rw [htake]; exact (ByteOrder.word s₀ s₁).toNat_lt⟩
        have hsize : f.size = ByteOrder.word s₀ s₁ := by
          show UInt16.ofNat (payload.take (ByteOrder.word s₀ s₁).toNat).length = _
          rw [htake, UInt16.ofNat_toNat]
        refine ⟨f, ?_, ?_⟩
        · show _ = Parsed.mk (sizeofPacketHeader + (payload.take _).length) ⟨_, f.size, _⟩
          rw [hsize, htake]
        · show _ = ByteOrder.hi (ByteOrder.word t₀ t₁) :: ByteOrder.lo (ByteOrder.word t₀ t₁) ::
            ByteOrder.hi f.size :: ByteOrder.lo f.size :: payload.take _ ++ _
          rw [hsize, ByteOrder.hi_word, ByteOrder.lo_word, ByteOrder.hi_word, ByteOrder.lo_word]
          simp only [List.cons_append, List.take_append_drop]
  · rintro ⟨f, rfl, rfl⟩
    rw [Frame.bytes]
    simp only [List.cons_append]
    rw [parseNext_header, ByteOrder.word_hi_lo, ByteOrder.word_hi_lo, f.toNat_size,
      if_neg (by rw [List.length_append]; omega), List.take_left', List.drop_left']
    · rfl
    · rfl
    · rfl

/-- The frames in a client's `recvBuffer`. -/
def framing : Framing UInt8 Frame Parsed where
  bytes := Frame.bytes
  out := parsed
  next := parseNext o
  next_eq_some := parseNext_eq_some o
  bytes_ne_nil _ := List.cons_ne_nil _ _

end PacketReceiver

/-! ### Receiving -/

/-- The bytes one successful `recv` returns. -/
structure Chunk where
  bytes : Bytes
  ne_nil : bytes ≠ []
  fits : bytes.length ≤ recvBufferSize

namespace PacketReceiver

/-- `received` is what `recv` returns, `none` when that is 0 or an error. -/
def receive (m : ClientManager) (client_fd : Fd) (received : Option Chunk) :
    Bool × ClientManager :=
  match m.getClient client_fd, received with
  | some client, some chunk =>
    (true, m.setClient client_fd { client with recvBuffer := client.recvBuffer ++ chunk.bytes })
  | _, _ => (false, m)

def parsePackets (o : ByteOrder) (m : ClientManager) (client_fd : Fd) :
    List Parsed × ClientManager :=
  match m.getClient client_fd with
  | none => ([], m)
  | some client =>
    let drained := (framing o).drain client.recvBuffer
    (drained.1, m.setClient client_fd { client with recvBuffer := drained.2 })

def receiveAndParse (o : ByteOrder) (m : ClientManager) (client_fd : Fd)
    (received : Option Chunk) : Bool × List Parsed × ClientManager :=
  let result := receive m client_fd received
  if result.1 = false then (false, [], result.2)
  else (true, parsePackets o result.2 client_fd)

/-- `receiveAndParse` on chunk after chunk: all that is parsed, in order. -/
def receiveAll (o : ByteOrder) (m : ClientManager) (client_fd : Fd) :
    List Chunk → List Parsed × ClientManager
  | [] => ([], m)
  | chunk :: chunks =>
    let first := (receiveAndParse o m client_fd (some chunk)).2
    let rest := receiveAll o first.2 client_fd chunks
    (first.1 ++ rest.1, rest.2)

/-- The `recvBuffer` of a client. -/
def recvBuffer (m : ClientManager) (client_fd : Fd) : Bytes :=
  ((m.getClient client_fd).map ClientInfo.recvBuffer).getD []

/-- The stream that arrives in the given chunks. -/
def streamOf (chunks : List Chunk) : Bytes := (chunks.map Chunk.bytes).flatten

variable {o : ByteOrder} {m : ClientManager} {fd : Fd} {client : ClientInfo}

theorem receiveAndParse_chunk (h : m.getClient fd = some client) (chunk : Chunk) :
    (receiveAndParse o m fd (some chunk)).2.1 =
        ((framing o).drain (client.recvBuffer ++ chunk.bytes)).1 ∧
      (receiveAndParse o m fd (some chunk)).2.2.getClient fd = some { client with
        recvBuffer := ((framing o).drain (client.recvBuffer ++ chunk.bytes)).2 } := by
  have hreceive : receive m fd (some chunk) = (true, m.setClient fd
      { client with recvBuffer := client.recvBuffer ++ chunk.bytes }) := by
    simp only [receive, h]
  have hget := m.getClient_setClient fd fd
    { client with recvBuffer := client.recvBuffer ++ chunk.bytes }
  rw [if_pos rfl] at hget
  simp only [receiveAndParse, hreceive, parsePackets, hget]
  refine ⟨rfl, ?_⟩
  show ((m.setClient fd _).setClient fd _).getClient fd = _
  rw [ClientManager.getClient_setClient, if_pos rfl]

/-- Receiving chunk after chunk feeds the framing. -/
theorem receiveAll_eq (h : m.getClient fd = some client) (chunks : List Chunk) :
    (receiveAll o m fd chunks).1 =
        ((framing o).feedAll client.recvBuffer (chunks.map Chunk.bytes)).1 ∧
      (receiveAll o m fd chunks).2.getClient fd = some { client with
        recvBuffer := ((framing o).feedAll client.recvBuffer (chunks.map Chunk.bytes)).2 } := by
  induction chunks generalizing m client with
  | nil => exact ⟨rfl, h⟩
  | cons chunk chunks ih =>
    obtain ⟨hparsed, hclient⟩ := receiveAndParse_chunk (o := o) h chunk
    obtain ⟨ihparsed, ihclient⟩ := ih hclient
    rw [receiveAll, List.map_cons, Framing.feedAll]
    refine ⟨?_, ?_⟩
    · rw [ihparsed, hparsed]
    · rw [ihclient]

/-- On a connection just accepted, receiving a stream parses what it holds. -/
theorem receiveAll_accepted (o : ByteOrder) (m : ClientManager) (fd : Fd) (ip : Bytes)
    (chunks : List Chunk) :
    (receiveAll o (m.addClient fd ip) fd chunks).1 = ((framing o).drain (streamOf chunks)).1 ∧
      recvBuffer (receiveAll o (m.addClient fd ip) fd chunks).2 fd =
        ((framing o).drain (streamOf chunks)).2 := by
  have hclient := m.getClient_addClient fd fd ip
  rw [if_pos rfl] at hclient
  have hfeed : (framing o).feedAll [] (chunks.map Chunk.bytes) =
      (framing o).drain (streamOf chunks) := (framing o).feedAll_eq rfl _
  obtain ⟨hparsed, hbuffer⟩ := receiveAll_eq (o := o) hclient chunks
  rw [hparsed, recvBuffer, hbuffer]
  exact ⟨congrArg Prod.fst hfeed, congrArg Prod.snd hfeed⟩

/-! ### The declared size is not checked -/

/-- **`parsePackets` stays within a `Packet` exactly on streams whose complete frames
do.**  On a connection just accepted and for every way its stream arrives: no `memcpy`
copies more than `sizeof(Packet)` bytes and no callback sees a size above
`MAX_PAYLOAD_SIZE`, if and only if no complete frame of the stream declares more. -/
theorem copies_within_iff (o : ByteOrder) (m : ClientManager) (fd : Fd) (ip : Bytes)
    (chunks : List Chunk) :
    (∀ p ∈ (receiveAll o (m.addClient fd ip) fd chunks).1,
        p.copied ≤ sizeofPacket ∧ p.packet.size.toNat ≤ maxPayloadSize) ↔
      ∀ (frames : List Frame) (f : Frame) (rest : Bytes),
        streamOf chunks = (frames ++ [f]).flatMap Frame.bytes ++ rest →
        f.payload.length ≤ maxPayloadSize := by
  rw [(receiveAll_accepted o m fd ip chunks).1]
  constructor
  · intro h frames f rest hstream
    have hmem : parsed f ∈ ((framing o).drain (streamOf chunks)).1 :=
      (framing o).mem_drain.mpr ⟨frames, f, rest, hstream, rfl⟩
    have hsize : f.size.toNat ≤ maxPayloadSize := (h _ hmem).2
    rwa [f.toNat_size] at hsize
  · intro h p hp
    obtain ⟨frames, f, rest, hstream, rfl⟩ := (framing o).mem_drain.mp hp
    have hlen := h frames f rest hstream
    have hsize : (parsed f).packet.size.toNat = f.payload.length := f.toNat_size
    refine ⟨Nat.add_le_add_left hlen sizeofPacketHeader, ?_⟩
    show (parsed f).packet.size.toNat ≤ maxPayloadSize
    rwa [hsize]

/-- A MESSAGE_SEND frame whose payload is one byte too long. -/
def oversizedFrame : Frame :=
  ⟨PacketType.messageSend, List.replicate 1025 0x41, by rw [List.length_replicate]; decide⟩

theorem length_oversizedFrame : oversizedFrame.payload.length = 1025 := List.length_replicate

/-- The frame in one chunk. -/
def oversizedChunk : Chunk where
  bytes := oversizedFrame.bytes
  ne_nil := List.cons_ne_nil _ _
  fits := by
    rw [Frame.length_bytes, length_oversizedFrame]
    decide

/-- A peer can make the server copy 1029 bytes into a `Packet` of 1028. -/
theorem not_copies_within : ∃ p ∈ (receiveAll .little
    (ClientManager.empty.addClient 5 (str "10.0.0.1")) 5 [oversizedChunk]).1,
      sizeofPacket < p.copied ∧ maxPayloadSize < p.packet.size.toNat := by
  refine ⟨parsed oversizedFrame, ?_, ?_, ?_⟩
  · rw [(receiveAll_accepted .little ClientManager.empty 5 (str "10.0.0.1") [oversizedChunk]).1]
    refine (framing .little).mem_drain.mpr ⟨[], oversizedFrame, [], ?_, rfl⟩
    show [oversizedFrame.bytes].flatten = [oversizedFrame].flatMap Frame.bytes ++ []
    rw [List.append_nil]
    rfl
  · rw [parsed, length_oversizedFrame]
    decide
  · show maxPayloadSize < oversizedFrame.size.toNat
    rw [oversizedFrame.toNat_size, length_oversizedFrame]
    decide

/-! ### Segmentation -/

/-- No header that stands at the start of a frame of the stream, be the frame complete
or not, declares a size above `MAX_PAYLOAD_SIZE`. -/
def HeadersWithin (stream : Bytes) : Prop :=
  ∀ (frames : List Frame) (t₀ t₁ s₀ s₁ : UInt8) (rest : Bytes),
    stream = frames.flatMap Frame.bytes ++ t₀ :: t₁ :: s₀ :: s₁ :: rest →
    (ByteOrder.word s₀ s₁).toNat ≤ maxPayloadSize

/-- Fewer than 4 bytes, or fewer than 4 plus the declared size. -/
def Incomplete (recvBuffer : Bytes) : Prop :=
  recvBuffer.length < sizeofPacketHeader ∨ ∃ t₀ t₁ s₀ s₁ payload,
    recvBuffer = t₀ :: t₁ :: s₀ :: s₁ :: payload ∧
      recvBuffer.length < sizeofPacketHeader + (ByteOrder.word s₀ s₁).toNat

theorem incomplete_of_parseNext {recvBuffer : Bytes} (h : parseNext o recvBuffer = none) :
    Incomplete recvBuffer := by
  match recvBuffer with
  | [] | [_] | [_, _] | [_, _, _] => exact Or.inl (by simp [sizeofPacketHeader])
  | t₀ :: t₁ :: s₀ :: s₁ :: payload =>
    refine Or.inr ⟨t₀, t₁, s₀, s₁, payload, rfl, ?_⟩
    rw [parseNext_header] at h
    by_contra hlen
    rw [if_neg] at h
    · cases h
    · simp only [List.length_cons, sizeofPacketHeader] at hlen
      omega

/-- What starts with a header is the beginning of a frame if its payload is not longer
than declared. -/
private theorem exists_frame (t₀ t₁ s₀ s₁ : UInt8) (payload : Bytes)
    (hlen : payload.length ≤ (ByteOrder.word s₀ s₁).toNat) :
    ∃ f : Frame, f.bytes = t₀ :: t₁ :: s₀ :: s₁ :: payload ++
      List.replicate ((ByteOrder.word s₀ s₁).toNat - payload.length) 0 := by
  have hfull : (payload ++ List.replicate ((ByteOrder.word s₀ s₁).toNat - payload.length)
      (0 : UInt8)).length = (ByteOrder.word s₀ s₁).toNat := by
    rw [List.length_append, List.length_replicate]
    omega
  let f : Frame := ⟨ByteOrder.word t₀ t₁,
    payload ++ List.replicate ((ByteOrder.word s₀ s₁).toNat - payload.length) 0,
    by rw [hfull]; exact (ByteOrder.word s₀ s₁).toNat_lt⟩
  have hsize : f.size = ByteOrder.word s₀ s₁ := by
    show UInt16.ofNat (payload ++ List.replicate _ (0 : UInt8)).length = _
    rw [hfull, UInt16.ofNat_toNat]
  refine ⟨f, ?_⟩
  show ByteOrder.hi (ByteOrder.word t₀ t₁) :: ByteOrder.lo (ByteOrder.word t₀ t₁) ::
    ByteOrder.hi f.size :: ByteOrder.lo f.size :: (payload ++ List.replicate _ 0) = _
  rw [hsize, ByteOrder.hi_word, ByteOrder.lo_word, ByteOrder.hi_word, ByteOrder.lo_word]
  rfl

/-- An incomplete buffer is a strict prefix of a frame. -/
theorem Incomplete.exists_frame {recvBuffer : Bytes} (h : Incomplete recvBuffer) :
    ∃ (f : Frame) (more : Bytes), more ≠ [] ∧ f.bytes = recvBuffer ++ more := by
  -- any four bytes are the header of some frame
  have hheader : ∀ t₀ t₁ s₀ s₁ : UInt8, ∃ (f : Frame) (payload : Bytes),
      f.bytes = t₀ :: t₁ :: s₀ :: s₁ :: payload := by
    intro t₀ t₁ s₀ s₁
    obtain ⟨f, hf⟩ := PacketReceiver.exists_frame t₀ t₁ s₀ s₁ [] (Nat.zero_le _)
    exact ⟨f, _, hf⟩
  rcases h with hshort | ⟨t₀, t₁, s₀, s₁, payload, rfl, hlen⟩
  · match recvBuffer with
    | [] =>
      obtain ⟨f, payload, hf⟩ := hheader 0 0 0 0
      exact ⟨f, _, List.cons_ne_nil _ _, hf⟩
    | [t₀] =>
      obtain ⟨f, payload, hf⟩ := hheader t₀ 0 0 0
      exact ⟨f, 0 :: 0 :: 0 :: payload, List.cons_ne_nil _ _, hf⟩
    | [t₀, t₁] =>
      obtain ⟨f, payload, hf⟩ := hheader t₀ t₁ 0 0
      exact ⟨f, 0 :: 0 :: payload, List.cons_ne_nil _ _, hf⟩
    | [t₀, t₁, s₀] =>
      obtain ⟨f, payload, hf⟩ := hheader t₀ t₁ s₀ 0
      exact ⟨f, 0 :: payload, List.cons_ne_nil _ _, hf⟩
    | _ :: _ :: _ :: _ :: _ =>
      simp only [List.length_cons, sizeofPacketHeader] at hshort
      omega
  -- the payload is filled up to the size declared
  · simp only [List.length_cons, sizeofPacketHeader] at hlen
    obtain ⟨f, hf⟩ := PacketReceiver.exists_frame t₀ t₁ s₀ s₁ payload (by omega)
    refine ⟨f, _, ?_, hf⟩
    rw [Ne, List.replicate_eq_nil_iff]
    omega

/-- **Decoding does not depend on segmentation.**  Whichever way a stream with headers
within the limit is cut into chunks, a connection just accepted yields the same packets
and ends with the same `recvBuffer`; no copy exceeds a `Packet`; after every call the
buffer is a strict prefix of a frame; and every pass of the loop shortens the buffer, so
that the loop ends. -/
theorem receiveAll_segmentation (o : ByteOrder) (m : ClientManager) (fd : Fd) (ip : Bytes)
    (chunks chunks' : List Chunk) (hsame : streamOf chunks = streamOf chunks')
    (hwithin : HeadersWithin (streamOf chunks)) :
    (receiveAll o (m.addClient fd ip) fd chunks).1 =
        (receiveAll o (m.addClient fd ip) fd chunks').1 ∧
      recvBuffer (receiveAll o (m.addClient fd ip) fd chunks).2 fd =
        recvBuffer (receiveAll o (m.addClient fd ip) fd chunks').2 fd ∧
      (∀ p ∈ (receiveAll o (m.addClient fd ip) fd chunks).1, p.copied ≤ sizeofPacket) ∧
      (∀ pre, pre <+: chunks →
        Incomplete (recvBuffer (receiveAll o (m.addClient fd ip) fd pre).2 fd) ∧
          ∃ (f : Frame) (more : Bytes), more ≠ [] ∧
            f.bytes = recvBuffer (receiveAll o (m.addClient fd ip) fd pre).2 fd ++ more) ∧
      ∀ buffer p rest, parseNext o buffer = some (p, rest) → rest.length < buffer.length := by
  obtain ⟨hparsed, hbuffer⟩ := receiveAll_accepted o m fd ip chunks
  obtain ⟨hparsed', hbuffer'⟩ := receiveAll_accepted o m fd ip chunks'
  refine ⟨by rw [hparsed, hparsed', hsame], by rw [hbuffer, hbuffer', hsame], ?_, ?_, ?_⟩
  -- a complete frame has a header within the limit
  · have hframes : ∀ (frames : List Frame) (f : Frame) (rest : Bytes),
        streamOf chunks = (frames ++ [f]).flatMap Frame.bytes ++ rest →
        f.payload.length ≤ maxPayloadSize := by
      intro frames f rest hstream
      have hheader := hwithin frames _ _ _ _ (f.payload ++ rest) (by
        rw [hstream, List.flatMap_append, List.append_assoc, List.flatMap_singleton]
        rfl)
      rwa [ByteOrder.word_hi_lo, f.toNat_size] at hheader
    rw [hparsed]
    intro p hp
    obtain ⟨frames, f, rest, hstream, rfl⟩ := (framing o).mem_drain.mp hp
    exact Nat.add_le_add_left (hframes frames f rest hstream) sizeofPacketHeader
  · intro pre _
    have hincomplete : Incomplete (recvBuffer (receiveAll o (m.addClient fd ip) fd pre).2 fd) := by
      rw [(receiveAll_accepted o m fd ip pre).2]
      exact incomplete_of_parseNext ((framing o).next_drain (streamOf pre))
    exact ⟨hincomplete, hincomplete.exists_frame⟩
  · exact fun buffer p rest h => (framing o).shrink h

/-- Frames within the limit, and at most the beginning of another header. -/
theorem headersWithin_of_frames (o : ByteOrder) (frames : List Frame) (rest : Bytes)
    (hframes : ∀ f ∈ frames, f.payload.length ≤ maxPayloadSize) (hrest : rest.length < 4) :
    HeadersWithin (frames.flatMap Frame.bytes ++ rest) := by
  intro before t₀ t₁ s₀ s₁ after hstream
  have hdrain : (framing o).drain (frames.flatMap Frame.bytes ++ rest) =
      (frames.map parsed, rest) :=
    (framing o).drain_frames (parseNext_short o hrest) frames
  cases hnext : parseNext o (t₀ :: t₁ :: s₀ :: s₁ :: after) with
  | none =>
    -- an incomplete frame would be what is left, which is too short for its header
    have hnext : (framing o).next (t₀ :: t₁ :: s₀ :: s₁ :: after) = none := hnext
    have hleft : (framing o).drain (before.flatMap Frame.bytes ++ t₀ :: t₁ :: s₀ :: s₁ :: after) =
        (before.map parsed, t₀ :: t₁ :: s₀ :: s₁ :: after) :=
      (framing o).drain_frames hnext before
    rw [← hstream, hdrain] at hleft
    rw [(Prod.mk.inj hleft).2] at hrest
    simp only [List.length_cons] at hrest
    omega
  | some taken =>
    obtain ⟨p, rest'⟩ := taken
    obtain ⟨f, -, hf⟩ := (parseNext_eq_some o).mp hnext
    have hmem : parsed f ∈ ((framing o).drain (frames.flatMap Frame.bytes ++ rest)).1 := by
      refine (framing o).mem_drain.mpr ⟨before, f, rest', ?_, rfl⟩
      rw [hstream, hf, Framing.stream_append, List.append_assoc]
      simp only [Framing.stream, List.flatMap_singleton]
      rfl
    rw [hdrain] at hmem
    obtain ⟨g, hg, hparsed⟩ := List.mem_map.mp hmem
    have hpayload : g.payload = f.payload := congrArg (fun p => p.packet.payload) hparsed
    have hsize : ByteOrder.word s₀ s₁ = f.size := by
      rw [Frame.bytes] at hf
      simp only [List.cons_append, List.cons.injEq] at hf
      rw [hf.2.2.1, hf.2.2.2.1, ByteOrder.word_hi_lo]
    rw [hsize, f.toNat_size, ← hpayload]
    exact hframes g hg

/-- An EXIT_ROOM frame, and the first byte of another, in one chunk or in two. -/
def exitInOne : List Chunk :=
  [⟨[0x01, 0x2E, 0x00, 0x00, 0x00], by decide, by decide⟩]

def exitInTwo : List Chunk :=
  [⟨[0x01, 0x2E, 0x00], by decide, by decide⟩, ⟨[0x00, 0x00], by decide, by decide⟩]

theorem receiveAll_segmentation_exit :
    (receiveAll .little (ClientManager.empty.addClient 5 []) 5 exitInOne).1 =
        (receiveAll .little (ClientManager.empty.addClient 5 []) 5 exitInTwo).1 ∧
      recvBuffer (receiveAll .little (ClientManager.empty.addClient 5 []) 5 exitInOne).2 5 =
        recvBuffer (receiveAll .little (ClientManager.empty.addClient 5 []) 5 exitInTwo).2 5 := by
  have hwithin : HeadersWithin (streamOf exitInOne) := by
    have hstream : streamOf exitInOne =
        [(⟨PacketType.exitRoom, [], by decide⟩ : Frame)].flatMap Frame.bytes ++ [0x00] := by
      decide
    rw [hstream]
    exact headersWithin_of_frames .little _ [0x00] (by decide) (by decide)
  have h := receiveAll_segmentation .little ClientManager.empty 5 [] exitInOne exitInTwo rfl hwithin
  exact ⟨h.1, h.2.1⟩

end PacketReceiver

end SocketChat
