/-
The client's decoder: `NetworkClient::Receive` called again and again.

Every call reads one frame, and the first that cannot closes the connection; `Receive`
itself does not look at `m_connected`, but `recv` on a closed descriptor fails.
`receipts_eq` says what the calls return on any stream, however each `recv` goes: its
leading frames, and then nothing for good.
-/
import SocketChat.Client.NetworkClient

namespace SocketChat

open Socket

namespace NetworkClient

/-- What the second `recv` of a call of `Receive` writes to `packet.payload`. -/
def written (o : ByteOrder) (c : NetworkClient) (headerRecv payloadRecv : RecvResult) : Bytes :=
  let header := recvWaitAll sizeofPacketHeader headerRecv c.incoming
  match header.1 with
  | some [_, _, s₀, s₁] =>
    let size := o.ntohs (o.load s₀ s₁)
    if 0 < size then
      if size.toNat > maxPayloadSize then []
      else (recvWaitAll size.toNat payloadRecv header.2).1.getD []
    else []
  | _ => []

/-- `recv` on the client's descriptor, which fails once that is closed. -/
def recvOn (c : NetworkClient) (r : RecvResult) : RecvResult := if c.connected then r else .error

/-- A call of `Receive`: the packet if it returns true, what it has written to
`packet.payload`, and what `IsConnected` returns afterwards. -/
structure Receipt where
  packet : Option Packet
  written : Bytes
  connected : Bool

/-- One call after another, each given what its two calls of `recv` do. -/
def receipts (o : ByteOrder) : NetworkClient → List (RecvResult × RecvResult) → List Receipt
  | _, [] => []
  | c, call :: calls =>
    let received := receive o c (c.recvOn call.1) call.2
    ⟨received.1, written o c (c.recvOn call.1) call.2, received.2.connected⟩ ::
      receipts o received.2 calls

variable {o : ByteOrder} {c c' : NetworkClient} {stream : Bytes} {r₁ r₂ : RecvResult}
  {call : RecvResult × RecvResult} {p : Packet} {f : Frame}

/-! ### One call -/

/-- Neither `recv` is cut short on the frame. -/
def Delivers (call : RecvResult × RecvResult) (f : Frame) : Prop :=
  call.1.gives sizeofPacketHeader ∧ (f.payload ≠ [] → call.2.gives f.payload.length)

/-- The stream starts with a frame that fits a packet and that the call gets whole. -/
def Readable (call : RecvResult × RecvResult) (f : Frame) (stream rest : Bytes) : Prop :=
  stream = f.bytes ++ rest ∧ f.payload.length ≤ maxPayloadSize ∧ Delivers call f

theorem receive_frame {rest : Bytes} (h : Readable call f stream rest) (connected : Bool) :
    receive o ⟨connected, stream⟩ call.1 call.2 =
      (some ⟨f.type, f.size, f.payload⟩, ⟨connected, rest⟩) := by
  obtain ⟨rfl, hfits, hheader, hpayload⟩ := h
  have hnot : ¬ f.size.toNat > maxPayloadSize := by
    rw [f.toNat_size]
    exact Nat.not_lt.mpr hfits
  rw [receive]
  simp only [recvWaitAll_whole hheader]
  simp only [Frame.bytes, sizeofPacketHeader, List.cons_append, List.take_succ_cons,
    List.take_zero, List.drop_succ_cons, List.drop_zero, ByteOrder.ntohs_load,
    ByteOrder.word_hi_lo, if_neg hnot]
  -- without a payload there is no second `recv`
  by_cases hsize : 0 < f.size
  · have hne : f.payload ≠ [] := by
      intro hnil
      have hzero : f.size.toNat = 0 := by rw [f.toNat_size, hnil, List.length_nil]
      exact absurd (UInt16.lt_iff_toNat_lt.mp hsize) (by rw [hzero]; exact Nat.lt_irrefl 0)
    rw [if_pos hsize, recvWaitAll_whole (f.toNat_size ▸ hpayload hne)]
    simp only [f.toNat_size, List.take_left', List.drop_left', ne_eq, not_true_eq_false, if_false]
  · have hnil : f.payload = [] := by
      refine List.eq_nil_of_length_eq_zero ?_
      rw [← f.toNat_size]
      exact Nat.eq_zero_of_not_pos hsize
    rw [if_neg hsize, hnil, List.nil_append]

/-- What a call does: it closes the connection, or it has received a header that declares no
payload, or it has received the payload it declares, too. -/
theorem receive_cases (o : ByteOrder) (c : NetworkClient) (r₁ r₂ : RecvResult) :
    (∃ incoming, receive o c r₁ r₂ = (none, ⟨false, incoming⟩)) ∨
    ∃ t₀ t₁ s₀ s₁, (recvWaitAll sizeofPacketHeader r₁ c.incoming).1 = some [t₀, t₁, s₀, s₁] ∧
      ((ByteOrder.word s₀ s₁ = 0 ∧ receive o c r₁ r₂ = (some ⟨ByteOrder.word t₀ t₁, 0, []⟩,
          ⟨c.connected, (recvWaitAll sizeofPacketHeader r₁ c.incoming).2⟩)) ∨
        ∃ payload, (recvWaitAll (ByteOrder.word s₀ s₁).toNat r₂
            (recvWaitAll sizeofPacketHeader r₁ c.incoming).2).1 = some payload ∧
          payload.length = (ByteOrder.word s₀ s₁).toNat ∧ payload.length ≤ maxPayloadSize ∧
          receive o c r₁ r₂ = (some ⟨ByteOrder.word t₀ t₁, ByteOrder.word s₀ s₁, payload⟩,
            ⟨c.connected, (recvWaitAll (ByteOrder.word s₀ s₁).toNat r₂
              (recvWaitAll sizeofPacketHeader r₁ c.incoming).2).2⟩)) := by
  rcases hheader : (recvWaitAll sizeofPacketHeader r₁ c.incoming).1 with
    _ | ⟨_ | ⟨t₀, _ | ⟨t₁, _ | ⟨s₀, _ | ⟨s₁, _ | ⟨x, rest⟩⟩⟩⟩⟩⟩
  -- `MSG_WAITALL` has given the four bytes of a header
  case some.cons.cons.cons.cons.nil =>
    by_cases hsize : 0 < ByteOrder.word s₀ s₁
    · by_cases hlarge : (ByteOrder.word s₀ s₁).toNat > maxPayloadSize
      · refine Or.inl ⟨(recvWaitAll sizeofPacketHeader r₁ c.incoming).2, ?_⟩
        simp only [receive, hheader, ByteOrder.ntohs_load, if_pos hsize, if_pos hlarge]
      · cases hpayload : (recvWaitAll (ByteOrder.word s₀ s₁).toNat r₂
            (recvWaitAll sizeofPacketHeader r₁ c.incoming).2).1 with
        | none =>
          refine Or.inl ⟨(recvWaitAll (ByteOrder.word s₀ s₁).toNat r₂
            (recvWaitAll sizeofPacketHeader r₁ c.incoming).2).2, ?_⟩
          simp only [receive, hheader, ByteOrder.ntohs_load, if_pos hsize, if_neg hlarge, hpayload]
        | some payload =>
          by_cases hlength : payload.length = (ByteOrder.word s₀ s₁).toNat
          · refine Or.inr ⟨t₀, t₁, s₀, s₁, rfl, Or.inr ⟨payload, hpayload, hlength, by omega, ?_⟩⟩
            simp only [receive, hheader, ByteOrder.ntohs_load, if_pos hsize, if_neg hlarge,
              hpayload, hlength, ne_eq, not_true_eq_false, if_false]
          · refine Or.inl ⟨(recvWaitAll (ByteOrder.word s₀ s₁).toNat r₂
              (recvWaitAll sizeofPacketHeader r₁ c.incoming).2).2, ?_⟩
            simp only [receive, hheader, ByteOrder.ntohs_load, if_pos hsize, if_neg hlarge,
              hpayload, if_pos hlength, ne_eq]
    · have hzero : ByteOrder.word s₀ s₁ = 0 := by
        rw [UInt16.not_lt] at hsize
        exact UInt16.le_zero_iff.mp hsize
      refine Or.inr ⟨t₀, t₁, s₀, s₁, rfl, Or.inl ⟨hzero, ?_⟩⟩
      simp only [receive, hheader, ByteOrder.ntohs_load, hzero, UInt16.lt_irrefl, if_false]
  -- fewer bytes, or an error: the call gives up
  all_goals
    refine Or.inl ⟨(recvWaitAll sizeofPacketHeader r₁ c.incoming).2, ?_⟩
    simp only [receive, hheader]

/-- A header and the payload it declares are a frame. -/
theorem exists_frame (t₀ t₁ : UInt8) {s₀ s₁ : UInt8} {payload : Bytes}
    (hlength : payload.length = (ByteOrder.word s₀ s₁).toNat) (rest : Bytes) :
    ∃ f : Frame, [t₀, t₁, s₀, s₁] ++ (payload ++ rest) = f.bytes ++ rest ∧ f.payload = payload ∧
      (⟨f.type, f.size, f.payload⟩ : Packet) =
        ⟨ByteOrder.word t₀ t₁, ByteOrder.word s₀ s₁, payload⟩ := by
  let f : Frame := ⟨ByteOrder.word t₀ t₁, payload, by rw [hlength]; exact UInt16.toNat_lt _⟩
  have hsize : f.size = ByteOrder.word s₀ s₁ := by
    show UInt16.ofNat payload.length = _
    rw [hlength, UInt16.ofNat_toNat]
  refine ⟨f, ?_, rfl, by rw [hsize]⟩
  rw [Frame.bytes, hsize]
  simp only [ByteOrder.hi_word, ByteOrder.lo_word, List.cons_append, List.nil_append, f]

/-- A call that returns true has read a frame. -/
theorem readable_of_receive {connected : Bool}
    (h : receive o ⟨connected, stream⟩ call.1 call.2 = (some p, c')) :
    ∃ f, Readable call f stream c'.incoming ∧ p = ⟨f.type, f.size, f.payload⟩ ∧
      c'.connected = connected := by
  rcases receive_cases o ⟨connected, stream⟩ call.1 call.2 with
    ⟨incoming, heq⟩ | ⟨t₀, t₁, s₀, s₁, hheader, hbody⟩
  · rw [heq] at h
    cases h
  obtain ⟨hgives, hlong⟩ := gives_of_recvWaitAll hheader rfl
  rw [recvWaitAll_whole hgives] at hheader hbody
  have hhead : stream.take sizeofPacketHeader = [t₀, t₁, s₀, s₁] := Option.some_inj.mp hheader
  -- either there is no payload to read, or all of it has been read
  rcases hbody with ⟨hzero, heq⟩ | ⟨payload, hpayload, hlength, hfits, heq⟩
  · rw [heq] at h
    obtain ⟨hp, rfl⟩ := Prod.mk.inj h
    have hnone : ([] : Bytes).length = (ByteOrder.word s₀ s₁).toNat := by
      rw [hzero]
      rfl
    obtain ⟨f, hbytes, hnil, hpacket⟩ := exists_frame t₀ t₁ hnone (stream.drop sizeofPacketHeader)
    refine ⟨f, ⟨?_, ?_, hgives, fun hne => absurd hnil hne⟩, ?_, rfl⟩
    · rw [← hbytes, ← hhead, List.nil_append, List.take_append_drop]
    · rw [hnil]
      exact Nat.zero_le _
    · rw [hpacket, hzero]
      exact (Option.some_inj.mp hp).symm
  · rw [heq] at h
    obtain ⟨hp, rfl⟩ := Prod.mk.inj h
    obtain ⟨hgives', hlong'⟩ := gives_of_recvWaitAll hpayload hlength
    rw [recvWaitAll_whole hgives'] at hpayload ⊢
    obtain rfl := Option.some_inj.mp hpayload
    obtain ⟨f, hbytes, hf, hpacket⟩ := exists_frame t₀ t₁ hlength
      ((stream.drop sizeofPacketHeader).drop (ByteOrder.word s₀ s₁).toNat)
    refine ⟨f, ⟨?_, ?_, hgives, fun _ => ?_⟩, ?_, rfl⟩
    · rw [← hbytes, ← hhead, List.take_append_drop, List.take_append_drop]
    · rw [hf]
      exact hfits
    · rw [hf, hlength]
      exact hgives'
    · rw [hpacket]
      exact (Option.some_inj.mp hp).symm

/-- One that returns false has closed the connection. -/
theorem closed_of_receive (h : receive o c r₁ r₂ = (none, c')) : c'.connected = false := by
  rcases receive_cases o c r₁ r₂ with
    ⟨incoming, heq⟩ | ⟨t₀, t₁, s₀, s₁, -, ⟨-, heq⟩ | ⟨payload, -, -, -, heq⟩⟩
  · rw [heq] at h
    obtain ⟨-, rfl⟩ := Prod.mk.inj h
    rfl
  · rw [heq] at h
    cases h
  · rw [heq] at h
    cases h

theorem length_written_le (o : ByteOrder) (c : NetworkClient) (r₁ r₂ : RecvResult) :
    (written o c r₁ r₂).length ≤ maxPayloadSize := by
  have hnil : ([] : Bytes).length ≤ maxPayloadSize := Nat.zero_le _
  rcases hheader : (recvWaitAll sizeofPacketHeader r₁ c.incoming).1 with
    _ | ⟨_ | ⟨t₀, _ | ⟨t₁, _ | ⟨s₀, _ | ⟨s₁, _ | ⟨x, rest⟩⟩⟩⟩⟩⟩
  case some.cons.cons.cons.cons.nil =>
    simp only [written, hheader, ByteOrder.ntohs_load]
    by_cases hsize : 0 < ByteOrder.word s₀ s₁
    · rw [if_pos hsize]
      by_cases hlarge : (ByteOrder.word s₀ s₁).toNat > maxPayloadSize
      · rwa [if_pos hlarge]
      · rw [if_neg hlarge]
        cases hpayload : (recvWaitAll (ByteOrder.word s₀ s₁).toNat r₂
            (recvWaitAll sizeofPacketHeader r₁ c.incoming).2).1 with
        | none => exact hnil
        | some payload => exact (length_recvWaitAll_le hpayload).trans (Nat.le_of_not_lt hlarge)
    · rwa [if_neg hsize]
  all_goals
    simp only [written, hheader]
    exact hnil

/-! ### One call after another -/

theorem length_written_of_mem {calls : List (RecvResult × RecvResult)} {x : Receipt}
    (h : x ∈ receipts o c calls) : x.written.length ≤ maxPayloadSize := by
  induction calls generalizing c with
  | nil => cases h
  | cons call calls ih =>
    rcases List.mem_cons.mp h with rfl | h
    · exact length_written_le o c _ _
    · exact ih h

/-- Nothing is received on a closed connection. -/
theorem receipts_closed (calls : List (RecvResult × RecvResult)) (incoming : Bytes) :
    (receipts o ⟨false, incoming⟩ calls).map (fun x => (x.packet, x.connected)) =
      List.replicate calls.length (none, false) := by
  induction calls with
  | nil => rfl
  | cons call calls ih => exact congrArg _ ih

/-- **The decoder is exact and fails closed.**  The calls of `Receive` on a connection return
the leading frames of the stream, each of them complete, within the payload array and not cut
short by `recv`; the first call that returns none of these returns false, with nothing of the
kind in front of it, and so do all calls after it, on a closed connection.  No call writes
past the payload array. -/
theorem receipts_eq (o : ByteOrder) (stream : Bytes) (calls : List (RecvResult × RecvResult)) :
    ∃ (frames : List Frame) (rest : Bytes), stream = frames.flatMap Frame.bytes ++ rest ∧
      (receipts o ⟨true, stream⟩ calls).map (fun x => (x.packet, x.connected)) =
        frames.map (fun f => (some ⟨f.type, f.size, f.payload⟩, true)) ++
          List.replicate (calls.length - frames.length) (none, false) ∧
      (∀ f ∈ frames, f.payload.length ≤ maxPayloadSize) ∧
      (∀ x ∈ frames.zip calls, Delivers x.2 x.1) ∧
      (∀ call, calls[frames.length]? = some call → ∀ f rest', ¬ Readable call f rest rest') ∧
      ∀ x ∈ receipts o ⟨true, stream⟩ calls, x.written.length ≤ maxPayloadSize := by
  induction calls generalizing stream with
  | nil => exact ⟨[], stream, rfl, rfl, by simp, by simp, by simp, by simp [receipts]⟩
  | cons call calls ih =>
    have hopen : recvOn ⟨true, stream⟩ call.1 = call.1 := rfl
    rcases hreceive : receive o ⟨true, stream⟩ call.1 call.2 with ⟨_ | p, c'⟩
    · -- the connection is closed
      have hclosed : c'.connected = false := closed_of_receive hreceive
      obtain ⟨connected, incoming⟩ := c'
      obtain rfl : connected = false := hclosed
      refine ⟨[], stream, rfl, ?_, by simp, by simp, ?_, fun x => length_written_of_mem⟩
      · rw [receipts, hopen, hreceive, List.map_cons, receipts_closed]
        rfl
      · rintro call' hcall f rest' hreadable
        rw [List.length_nil, List.getElem?_cons_zero, Option.some_inj] at hcall
        subst hcall
        rw [receive_frame hreadable] at hreceive
        cases hreceive
    · -- one more frame
      obtain ⟨f, hreadable, rfl, hconnected⟩ := readable_of_receive hreceive
      obtain ⟨connected, rest⟩ := c'
      obtain rfl : connected = true := hconnected
      obtain ⟨frames, rest', hstream, hreceipts, hfits, hdelivers, hend, -⟩ := ih rest
      refine ⟨f :: frames, rest', ?_, ?_, List.forall_mem_cons.mpr ⟨hreadable.2.1, hfits⟩, ?_, hend,
        fun x => length_written_of_mem⟩
      · rw [hreadable.1, List.flatMap_cons, List.append_assoc]
        exact congrArg (f.bytes ++ ·) hstream
      · rw [receipts, hopen, hreceive, List.map_cons, hreceipts, List.length_cons, List.length_cons,
          Nat.succ_sub_succ, List.map_cons, List.cons_append]
      · rw [List.zip_cons_cons]
        exact List.forall_mem_cons.mpr ⟨hreadable.2.2, hdelivers⟩

end NetworkClient

end SocketChat
