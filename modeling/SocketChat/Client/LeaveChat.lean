/-
Leaving a chat.

After "/exit" the main thread calls `ExitRoom`, clears `m_is_receiving` and joins the
receiver thread.  Clearing the flag does not interrupt a `recv`, so a receiver thread that
waits for bytes when the server has nothing more to send is waited for forever.
`never_deadlocked` shows that a run in which no step leaves it waiting so never deadlocks, and
that after one that does there is no way out.
-/
import SocketChat.Client.ChatSession

namespace SocketChat

open Socket Client

namespace ChatSession

/-- A server that sends room traffic to members only: the client is none once it has its
answer. -/
def memberStep (o : ByteOrder) (json : Nlohmann) (s : ChatSession) (e : Event) :
    Option ChatSession :=
  match e with
  | .frame p => if s.request = .answered then none else step o json s (.frame p)
  | e => step o json s e

/-- How many bytes the main thread waits for in `recv`; none where it is not there. -/
def mainNeeds (o : ByteOrder) (s : ChatSession) : ℕ :=
  match s.main with
  | .recvHeader => sizeofPacketHeader
  | .recvPayload header => (payloadSize o header).toNat
  | _ => 0

/-- How many bytes the receiver thread waits for in `recv`. -/
def receiverNeeds (o : ByteOrder) (s : ChatSession) : ℕ :=
  match s.receiver with
  | .recvHeader => sizeofPacketHeader
  | .recvPayload header => (payloadSize o header).toNat
  | _ => 0

/-- The server owes no packet.  The main thread is in `join`, or in a `recv` for which the
bytes are not there, and so is the receiver thread. -/
structure Deadlocked (o : ByteOrder) (s : ChatSession) : Prop where
  owed : s.request ≠ .unanswered
  main : s.main = .join ∨ s.incoming.length < s.mainNeeds o
  receiver : s.incoming.length < s.receiverNeeds o

/-- The condition on a step: once the server has answered, the receiver thread is not left in
a `recv` for which the bytes are not there. -/
def Event.LeavesEnough (o : ByteOrder) (s : ChatSession) : Event → Prop
  | .answer p => s.receiverNeeds o ≤ s.incoming.length + (p.encode o).length
  | .act .mainRecv => s.request = .answered →
      s.mainNeeds o + s.receiverNeeds o ≤ s.incoming.length
  | .act .test => s.request = .answered → s.m_is_receiving = true → s.connected = true →
      sizeofPacketHeader ≤ s.incoming.length
  | .act .recv => s.request = .answered → s.receiver = .recvHeader → s.connected = true →
      (s.nextSize o).toNat ≤ maxPayloadSize →
      sizeofPacketHeader + (s.nextSize o).toNat ≤ s.incoming.length
  | _ => True

instance (o : ByteOrder) (s : ChatSession) : (e : Event) → Decidable (e.LeavesEnough o s)
  | .frame _ => isTrue trivial
  | .answer _ => inferInstanceAs (Decidable (_ ≤ _))
  | .act .mainRecv => inferInstanceAs (Decidable (_ → _))
  | .act .test => inferInstanceAs (Decidable (_ → _))
  | .act .recv => inferInstanceAs (Decidable (_ → _))
  | .act .exitRoom => isTrue trivial
  | .act .stopReceiving => isTrue trivial
  | .act .join => isTrue trivial
  | .act .startReceiving => isTrue trivial
  | .act .handle => isTrue trivial

variable {o : ByteOrder} {json : Nlohmann} {s s' : ChatSession} {e : Event}

/-- The server sends no more, and the receiver thread waits for bytes that are not there. -/
def Doomed (o : ByteOrder) (s : ChatSession) : Prop :=
  s.request = .answered ∧ s.incoming.length < s.receiverNeeds o

/-- Without a request the main thread has not left `InputLoop`'s loop, unless the receiver
thread has seen the connection closed. -/
structure Consistent (s : ChatSession) : Prop where
  unsent : s.main = .exitRoom → s.request = .unsent
  closed : s.request = .unsent → s.main ≠ .exitRoom ∨ s.connected = false → s.Over
  left : s.main = .left → s.receiver = .ended

theorem memberStep_eq (h : memberStep o json s e = some s') :
    step o json s e = some s' ∧ ∀ p, e = .frame p → s.request ≠ .answered := by
  cases e with
  | frame p =>
    rw [memberStep, Option.ite_none_left_eq_some] at h
    exact ⟨h.2, fun _ _ => h.1⟩
  | answer p => exact ⟨h, fun _ => Event.noConfusion⟩
  | act a => exact ⟨h, fun _ => Event.noConfusion⟩

/-- A thread that waits is not over. -/
theorem receiverNeeds_of_over (h : s.Over) : s.receiverNeeds o = 0 := by
  rcases h with h | h <;> rw [receiverNeeds, h]

theorem consistent_init (code : Bytes) : (init code).Consistent where
  unsent _ := rfl
  closed _ h := by
    rcases h with h | h
    · exact absurd rfl h
    · cases h
  left := MainThread.noConfusion

theorem Doomed.deadlocked (h : s.Doomed o) (hmain : s.main = .join ∨
    s.incoming.length < s.mainNeeds o) : s.Deadlocked o where
  owed := by
    rw [h.1]
    exact ExitRequest.noConfusion
  main := hmain
  receiver := h.2

theorem not_deadlocked (hs : s.Consistent) (hdoomed : ¬ s.Doomed o) : ¬ s.Deadlocked o := by
  intro h
  cases hrequest : s.request with
  | unanswered => exact h.owed hrequest
  | answered => exact hdoomed ⟨hrequest, h.receiver⟩
  | unsent =>
    have hmain : s.main ≠ .exitRoom := by
      intro heq
      rcases h.main with hjoin | hneeds
      · rw [hjoin] at heq
        cases heq
      · rw [mainNeeds, heq] at hneeds
        exact Nat.not_lt_zero _ hneeds
    have hreceiver := h.receiver
    rw [receiverNeeds_of_over (hs.closed hrequest (Or.inl hmain))] at hreceiver
    exact Nat.not_lt_zero _ hreceiver

/-! ### Steps -/

theorem receiverNeeds_congr (h : s'.receiver = s.receiver) :
    s'.receiverNeeds o = s.receiverNeeds o := by
  rw [receiverNeeds, h, receiverNeeds]

/-- The receiver thread is not over where it takes a step. -/
theorem not_over {receiver : ReceiverThread} (heq : s.receiver = receiver)
    (hended : receiver ≠ .ended) (hterminated : receiver ≠ .terminated) : ¬ s.Over := by
  rintro (h | h)
  · exact hended (heq.symm.trans h)
  · exact hterminated (heq.symm.trans h)

/-- What the main thread receives: as many bytes as it waits for, and nothing else changes
for the receiver thread. -/
theorem main_receives (hstep : Stepped o json s (.act .mainRecv) s') :
    s.mainNeeds o ≤ s.incoming.length ∧ s'.incoming = s.incoming.drop (s.mainNeeds o) ∧
      s'.request = s.request ∧ s'.receiver = s.receiver ∧
      (s.main ≠ .exitRoom ∧ s'.main ≠ .exitRoom) ∧ s.main ≠ .left ∧ s'.main ≠ .left := by
  have hmain : ∀ (t : ChatSession) (x : Receiving), (t.mainAfter o x).main ≠ .exitRoom ∧
      (t.mainAfter o x).main ≠ .left := by
    intro t x
    cases x <;> exact ⟨MainThread.noConfusion, MainThread.noConfusion⟩
  cases hstep with
  | mainHeader heq hx =>
    obtain ⟨hlen, connected, hx'⟩ := of_recvHeader hx
    rw [mainNeeds, heq]
    refine ⟨hlen, by simp [hx'], by simp [hx'], by simp [hx'], ⟨?_, (hmain _ _).1⟩, ?_,
      (hmain _ _).2⟩ <;> exact MainThread.noConfusion
  | mainPayload heq hx =>
    obtain ⟨hlen, -, hx'⟩ := of_recvPayload hx
    rw [mainNeeds, heq]
    refine ⟨hlen, by simp [hx'], by simp [hx'], by simp [hx'], ⟨?_, (hmain _ _).1⟩, ?_,
      (hmain _ _).2⟩ <;> exact MainThread.noConfusion

/-- What the receiver thread receives. -/
theorem receiver_receives (hstep : Stepped o json s (.act .recv) s') :
    s.receiverNeeds o ≤ s.incoming.length ∧ s'.incoming = s.incoming.drop (s.receiverNeeds o) ∧
      s'.request = s.request ∧ s'.main = s.main ∧ ¬ s.Over ∧
      (s'.connected = s.connected ∨ s'.Over) := by
  cases hstep with
  | header heq hx =>
    obtain ⟨hlen, connected, hx'⟩ := of_recvHeader hx
    rw [receiverNeeds, heq]
    refine ⟨hlen, by simp [hx'], by simp [hx'], by simp [hx'],
      not_over heq ReceiverThread.noConfusion ReceiverThread.noConfusion, ?_⟩
    cases (headerRead_of_recvHeader hx).2 with
    | oversized => exact Or.inr (Or.inl rfl)
    | closed => exact Or.inr (Or.inl rfl)
    | whole => exact Or.inl rfl
    | payload => exact Or.inl rfl
  | payload heq hx =>
    obtain ⟨hlen, hx₁, hx'⟩ := of_recvPayload hx
    rw [receiverNeeds, heq]
    refine ⟨hlen, by simp [hx'], by simp [hx'], by simp [hx'],
      not_over heq ReceiverThread.noConfusion ReceiverThread.noConfusion, Or.inl ?_⟩
    rw [hx₁, hx']
    rfl

/-- A step of the receiver thread after which the connection is as it was, or the thread is
over. -/
theorem Consistent.receiver_step (hs : s.Consistent) (hnot : ¬ s.Over)
    (hmain : s'.main = s.main) (hrequest : s'.request = s.request)
    (hconnected : s'.connected = s.connected ∨ s'.Over) : s'.Consistent where
  unsent h := by
    rw [hrequest]
    exact hs.unsent (hmain ▸ h)
  closed hunsent h := by
    rcases hconnected with hconnected | hover
    · rw [hrequest] at hunsent
      rw [hmain, hconnected] at h
      exact absurd (hs.closed hunsent h) hnot
    · exact hover
  left h := absurd (Or.inl (hs.left (hmain ▸ h))) hnot

theorem Consistent.step (hs : s.Consistent) (hstep : Stepped o json s e s') : s'.Consistent := by
  cases e with
  | frame p =>
    cases hstep
    exact ⟨hs.unsent, hs.closed, hs.left⟩
  | answer p =>
    cases hstep with
    | answer _ _ hrequest =>
      refine ⟨fun h => ?_, ExitRequest.noConfusion, hs.left⟩
      have hunsent := hs.unsent h
      rw [hrequest] at hunsent
      cases hunsent
  | act a =>
    cases a with
    | exitRoom =>
      cases hstep with
      | exitRoom =>
        exact ⟨MainThread.noConfusion, ExitRequest.noConfusion, MainThread.noConfusion⟩
      | notConnected _ hconnected =>
        exact ⟨MainThread.noConfusion, fun hunsent _ => hs.closed hunsent (Or.inr hconnected),
          MainThread.noConfusion⟩
    -- the main thread: what it has passed, and when
    | mainRecv =>
      obtain ⟨-, -, hrequest, hreceiver, ⟨hmain, hmain'⟩, -, hleft⟩ := main_receives hstep
      refine ⟨fun h => absurd h hmain', fun hunsent _ => ?_, fun h => absurd h hleft⟩
      rw [hrequest] at hunsent
      rw [Over, hreceiver]
      exact hs.closed hunsent (Or.inl hmain)
    | stopReceiving =>
      cases hstep with
      | stopReceiving hmain =>
        refine ⟨MainThread.noConfusion, fun hunsent _ => ?_, MainThread.noConfusion⟩
        refine hs.closed hunsent (Or.inl ?_)
        rw [hmain]
        exact MainThread.noConfusion
    | join =>
      cases hstep with
      | join _ hended =>
        exact ⟨MainThread.noConfusion, fun _ _ => Or.inl hended, fun _ => hended⟩
    -- the receiver thread: the main thread's place and request are as before
    | startReceiving =>
      cases hstep with
      | startReceiving hreceiver =>
        exact hs.receiver_step (not_over hreceiver ReceiverThread.noConfusion
          ReceiverThread.noConfusion) rfl rfl (Or.inl rfl)
    | test =>
      have hnot : s.receiver = .loop → ¬ s.Over := fun hreceiver =>
        not_over hreceiver ReceiverThread.noConfusion ReceiverThread.noConfusion
      cases hstep with
      | goOn hreceiver => exact hs.receiver_step (hnot hreceiver) rfl rfl (Or.inl rfl)
      | leaveLoop hreceiver => exact hs.receiver_step (hnot hreceiver) rfl rfl (Or.inl rfl)
    | recv =>
      obtain ⟨-, -, hrequest, hmain, hnot, hconnected⟩ := receiver_receives hstep
      exact hs.receiver_step hnot hmain hrequest hconnected
    | handle =>
      have hnot : ∀ {r}, s.receiver = .received r → ¬ s.Over := fun hreceiver =>
        not_over hreceiver ReceiverThread.noConfusion ReceiverThread.noConfusion
      cases hstep with
      | message hreceiver => exact hs.receiver_step (hnot hreceiver) rfl rfl (Or.inl rfl)
      | raise hreceiver => exact hs.receiver_step (hnot hreceiver) rfl rfl (Or.inl rfl)
      | ignore hreceiver => exact hs.receiver_step (hnot hreceiver) rfl rfl (Or.inl rfl)

/-- What the receiver thread waits for behind a header. -/
theorem short_iff_of_header (heq : s.receiver = .recvHeader)
    (hstep : Stepped o json s (.act .recv) s') :
    s'.incoming.length < s'.receiverNeeds o ↔ s.connected = true ∧
      (s.nextSize o).toNat ≤ maxPayloadSize ∧
      s.incoming.length < sizeofPacketHeader + (s.nextSize o).toNat := by
  cases hstep with
  | payload hreceiver =>
    rw [heq] at hreceiver
    cases hreceiver
  | header _ hx =>
    obtain ⟨hlen, hread⟩ := headerRead_of_recvHeader hx
    cases hread with
    | whole hsize =>
      refine iff_of_false (Nat.not_lt_zero _) fun h => ?_
      rw [hsize] at h
      exact Nat.not_lt.mpr hlen h.2.2
    -- the one branch after which the thread waits for more
    | payload hsize hconnected =>
      show (s.incoming.drop sizeofPacketHeader).length < (s.nextSize o).toNat ↔ _
      rw [List.length_drop]
      constructor
      · intro hshort
        exact ⟨hconnected, hsize, by omega⟩
      · rintro ⟨-, -, hshort⟩
        omega
    | oversized hsize => exact iff_of_false (Nat.not_lt_zero _) fun h => Nat.not_le.mpr hsize h.2.1
    | closed hconnected =>
      refine iff_of_false (Nat.not_lt_zero _) fun h => ?_
      rw [hconnected] at h
      cases h.1

/-- **A step leaves enough if and only if it does not doom the session.** -/
theorem doomed_step_iff (hdoomed : ¬ s.Doomed o)
    (hmembers : ∀ p, e = .frame p → s.request ≠ .answered) (hstep : Stepped o json s e s') :
    s'.Doomed o ↔ ¬ e.LeavesEnough o s := by
  -- what the receiver thread waits for is nothing, or what it was
  have hkeep : e.LeavesEnough o s → (s'.Doomed o → s.Doomed o) →
      (s'.Doomed o ↔ ¬ e.LeavesEnough o s) := fun hgood himp =>
    iff_of_false (fun h => hdoomed (himp h)) (not_not.mpr hgood)
  have hnone : e.LeavesEnough o s → s'.receiverNeeds o = 0 →
      (s'.Doomed o ↔ ¬ e.LeavesEnough o s) := fun hgood hneeds =>
    iff_of_false (fun h => Nat.not_lt_zero _ (hneeds ▸ h.2)) (not_not.mpr hgood)
  cases e with
  | frame p =>
    cases hstep
    exact hkeep trivial fun h => absurd h.1 (hmembers p rfl)
  | answer p =>
    cases hstep with
    | answer =>
      have hlen : (s.put o p).incoming.length = s.incoming.length + (p.encode o).length := by
        show (s.incoming ++ Writers.tag s.sent.length (p.encode o)).length = _
        rw [List.length_append, Writers.tag, List.length_map]
      refine Iff.trans (and_iff_right rfl) ?_
      show (s.put o p).incoming.length < s.receiverNeeds o ↔ ¬ s.receiverNeeds o ≤ _
      rw [hlen, Nat.not_le]
  | act a =>
    cases a with
    | exitRoom =>
      cases hstep with
      | exitRoom => exact hkeep trivial fun h => ExitRequest.noConfusion h.1
      | notConnected => exact hkeep trivial fun h => h
    | mainRecv =>
      obtain ⟨hlen, hincoming, hrequest, hreceiver, -⟩ := main_receives hstep
      rw [Doomed, hrequest, hincoming, List.length_drop, receiverNeeds_congr hreceiver,
        Event.LeavesEnough, Classical.not_imp]
      refine and_congr_right fun _ => ?_
      omega
    | stopReceiving =>
      cases hstep
      exact hkeep trivial fun h => h
    | join =>
      cases hstep
      exact hkeep trivial fun h => h
    | startReceiving =>
      cases hstep
      exact hnone trivial rfl
    | test =>
      cases hstep with
      | goOn _ hflag hconnected =>
        rw [Doomed, Event.LeavesEnough, Classical.not_imp]
        refine and_congr_right fun _ => ?_
        show s.incoming.length < sizeofPacketHeader ↔ _
        rw [← Nat.not_le]
        exact not_congr ⟨fun h _ _ => h, fun h => h hflag hconnected⟩
      | leaveLoop _ hnot =>
        exact hnone (fun _ hflag hconnected => absurd ⟨hflag, hconnected⟩ hnot) rfl
    | recv =>
      obtain ⟨-, -, hrequest, -⟩ := receiver_receives hstep
      by_cases heq : s.receiver = .recvHeader
      · rw [Doomed, hrequest, short_iff_of_header heq hstep, Event.LeavesEnough]
        simp only [heq, Classical.not_imp, Nat.not_le, true_and]
      · refine hnone (fun _ h => absurd h heq) ?_
        cases hstep with
        | header h => exact absurd h heq
        | payload _ hx =>
          rw [(of_recvPayload hx).2.1]
          rfl
    | handle => cases hstep <;> exact hnone trivial rfl

/-! ### No way out -/

/-- A doomed session stays doomed. -/
theorem Doomed.step (hs : s.Consistent) (hdoomed : s.Doomed o)
    (hmembers : ∀ p, e = .frame p → s.request ≠ .answered) (hstep : Stepped o json s e s') :
    s'.Doomed o := by
  obtain ⟨hanswered, hshort⟩ := hdoomed
  -- a place where nothing is awaited is not where the receiver is
  have hwaits : ∀ {receiver : ReceiverThread}, s.receiver = receiver →
      ({ s with receiver := receiver } : ChatSession).receiverNeeds o ≠ 0 := by
    rintro _ rfl hzero
    have hzero : s.receiverNeeds o = 0 := hzero
    omega
  cases e with
  | frame p => exact absurd hanswered (hmembers p rfl)
  | answer p =>
    cases hstep with
    | answer _ _ hrequest =>
      rw [hanswered] at hrequest
      cases hrequest
  | act a =>
    cases a with
    | exitRoom =>
      have hunsent : s.main ≠ .exitRoom := fun heq => by
        have hrequest := hs.unsent heq
        rw [hanswered] at hrequest
        cases hrequest
      cases hstep with
      | exitRoom hmain => exact absurd hmain hunsent
      | notConnected hmain => exact absurd hmain hunsent
    -- the main thread can only make it worse
    | mainRecv =>
      obtain ⟨-, hincoming, hrequest, hreceiver, -⟩ := main_receives hstep
      refine ⟨hrequest.trans hanswered, ?_⟩
      rw [hincoming, List.length_drop, receiverNeeds_congr hreceiver]
      omega
    | stopReceiving =>
      cases hstep
      exact ⟨hanswered, hshort⟩
    | join =>
      cases hstep with
      | join _ hended => exact absurd rfl (hwaits hended)
    | startReceiving =>
      cases hstep with
      | startReceiving hreceiver => exact absurd rfl (hwaits hreceiver)
    | test =>
      cases hstep with
      | goOn hreceiver => exact absurd rfl (hwaits hreceiver)
      | leaveLoop hreceiver => exact absurd rfl (hwaits hreceiver)
    | recv => exact absurd (receiver_receives hstep).1 (Nat.not_le.mpr hshort)
    | handle =>
      cases hstep with
      | message hreceiver => exact absurd rfl (hwaits hreceiver)
      | raise hreceiver => exact absurd rfl (hwaits hreceiver)
      | ignore hreceiver => exact absurd rfl (hwaits hreceiver)

theorem Doomed.main_ne_left (hs : s.Consistent) (hdoomed : s.Doomed o) : s.main ≠ .left := by
  intro hleft
  have hshort := hdoomed.2
  rw [receiverNeeds_of_over (Or.inl (hs.left hleft))] at hshort
  exact Nat.not_lt_zero _ hshort

/-- The session can go on to a deadlock. -/
def CanDeadlock (o : ByteOrder) (json : Nlohmann) (s : ChatSession) : Prop :=
  ∃ events t, Transition.runFrom (memberStep o json) s events = some t ∧ t.Deadlocked o

theorem CanDeadlock.of_act {a : Action} (hs : s.Consistent) (hdoomed : s.Doomed o)
    (hact : s.act o json a = some s')
    (h : s'.Consistent → s'.Doomed o → s'.CanDeadlock o json) : s.CanDeadlock o json := by
  have hstepped := stepped_of_act hact
  obtain ⟨events, t, hrun, ht⟩ :=
    h (hs.step hstepped) (hdoomed.step hs (fun p => Event.noConfusion) hstepped)
  have hrunning : s.receiver ≠ .terminated := fun heq => by
    have hshort := hdoomed.2
    rw [receiverNeeds_of_over (Or.inr heq)] at hshort
    exact Nat.not_lt_zero _ hshort
  have hstep : memberStep o json s (.act a) = some s' := by
    show (if s.receiver = .terminated then none else s.act o json a) = some s'
    rw [if_neg hrunning, hact]
  exact ⟨.act a :: events, t, by rw [Transition.runFrom_cons, hstep, Option.bind_some, hrun], ht⟩

theorem Doomed.waits (hdoomed : s.Doomed o) (hmain : s.main = .join ∨
    s.incoming.length < s.mainNeeds o) : s.CanDeadlock o json :=
  ⟨[], s, rfl, hdoomed.deadlocked hmain⟩

theorem Doomed.of_stopReceiving (hs : s.Consistent) (hdoomed : s.Doomed o)
    (hmain : s.main = .stopReceiving) : s.CanDeadlock o json := by
  have hact : s.act o json .stopReceiving =
      some { s with m_is_receiving := false, main := .join } := by
    rw [act, if_pos hmain]
  exact CanDeadlock.of_act hs hdoomed hact fun _ hdoomed' => hdoomed'.waits (Or.inl rfl)

theorem Doomed.of_recvPayload {h : Labelled} (hs : s.Consistent) (hdoomed : s.Doomed o)
    (hmain : s.main = .recvPayload h) : s.CanDeadlock o json := by
  by_cases hshort : s.incoming.length < s.mainNeeds o
  · exact hdoomed.waits (Or.inr hshort)
  · have hneeds : s.mainNeeds o = (payloadSize o h).toNat := by rw [mainNeeds, hmain]
    have hx : s.recvPayload o h = some (.returned ⟨h, s.incoming.take (payloadSize o h).toNat⟩,
        { s with incoming := s.incoming.drop (payloadSize o h).toNat }) := by
      rw [ChatSession.recvPayload, if_neg (hneeds ▸ hshort)]
    have hact : s.act o json .mainRecv =
        some (mainAfter o { s with incoming := s.incoming.drop (payloadSize o h).toNat }
          (.returned ⟨h, s.incoming.take (payloadSize o h).toNat⟩)) := by
      simp only [act, hmain, hx, Option.map_some]
    exact CanDeadlock.of_act hs hdoomed hact fun hs' hdoomed' => hdoomed'.of_stopReceiving hs' rfl

theorem Doomed.of_recvHeader (hs : s.Consistent) (hdoomed : s.Doomed o)
    (hmain : s.main = .recvHeader) : s.CanDeadlock o json := by
  by_cases hshort : s.incoming.length < s.mainNeeds o
  · exact hdoomed.waits (Or.inr hshort)
  · have hneeds : s.mainNeeds o = sizeofPacketHeader := by rw [mainNeeds, hmain]
    obtain ⟨x, hx⟩ := exists_recvHeader (o := o) (Nat.not_lt.mp (hneeds ▸ hshort))
    have hact : s.act o json .mainRecv = some (x.2.mainAfter o x.1) := by
      simp only [act, hmain, hx, Option.map_some]
    refine CanDeadlock.of_act hs hdoomed hact fun hs' hdoomed' => ?_
    cases hx₁ : x.1 with
    | failed =>
      rw [hx₁] at hs' hdoomed'
      exact hdoomed'.of_stopReceiving hs' rfl
    | payload h =>
      rw [hx₁] at hs' hdoomed'
      exact hdoomed'.of_recvPayload hs' rfl
    | returned r =>
      rw [hx₁] at hs' hdoomed'
      exact hdoomed'.of_stopReceiving hs' rfl

/-- **A doomed session deadlocks**: the main thread goes on until it waits. -/
theorem Doomed.canDeadlock (hs : s.Consistent) (hdoomed : s.Doomed o) :
    s.CanDeadlock o json := by
  cases hmain : s.main with
  | exitRoom =>
    have hrequest := hs.unsent hmain
    rw [hdoomed.1] at hrequest
    cases hrequest
  | recvHeader => exact hdoomed.of_recvHeader hs hmain
  | recvPayload h => exact hdoomed.of_recvPayload hs hmain
  | stopReceiving => exact hdoomed.of_stopReceiving hs hmain
  | join => exact hdoomed.waits (Or.inl hmain)
  | left => exact absurd hmain (hdoomed.main_ne_left hs)

/-! ### Runs -/

theorem consistent_of_visits {code : Bytes} {events : List Event} {final : ChatSession}
    (hrun : Transition.runFrom (memberStep o json) (init code) events = some final)
    (hvisits : Transition.Visits (memberStep o json) (init code) events s) : s.Consistent :=
  Transition.Visits.always (J := Consistent)
    (fun _ _ _ hs hstep => hs.step (stepped_of_step (memberStep_eq hstep).1).1) hrun
    (consistent_init code) s hvisits

/-- **Leaving a chat does not deadlock, if no step leaves the receiver thread without the
bytes it waits for; and if one does, the main thread never comes out.**  Then every
continuation of the run can go on to a deadlock. -/
theorem never_deadlocked (o : ByteOrder) (json : Nlohmann) (code : Bytes) (events : List Event)
    (final : ChatSession)
    (hrun : Transition.runFrom (memberStep o json) (init code) events = some final) :
    ((∀ s e, Transition.Takes (memberStep o json) (init code) events s e → e.LeavesEnough o s) →
      ∀ s, Transition.Visits (memberStep o json) (init code) events s → ¬ s.Deadlocked o) ∧
    ((∃ s e, Transition.Takes (memberStep o json) (init code) events s e ∧
        ¬ e.LeavesEnough o s) →
      ∀ more t, Transition.runFrom (memberStep o json) final more = some t →
        t.main ≠ .left ∧ t.CanDeadlock o json) := by
  -- along a run, no state is doomed exactly when every step leaves enough
  have hiff := Transition.visits_iff_takes (J := fun s => ¬ s.Doomed o) (P := fun s => ¬ s.Doomed o)
    (G := fun s e => e.LeavesEnough o s) (fun s hs => hs)
    (fun s e s' hs hgood hstep hdoomed => by
      obtain ⟨hstep, hmembers⟩ := memberStep_eq hstep
      exact (doomed_step_iff hs hmembers (stepped_of_step hstep).1).mp hdoomed hgood)
    (fun s e s' hs hbad hstep hnot => by
      obtain ⟨hstep, hmembers⟩ := memberStep_eq hstep
      exact hnot ((doomed_step_iff hs hmembers (stepped_of_step hstep).1).mpr hbad))
    hrun fun h => ExitRequest.noConfusion h.1
  constructor
  · intro hgood s hvisits
    exact not_deadlocked (consistent_of_visits hrun hvisits) (hiff.mpr hgood s hvisits)
  · rintro ⟨s, e, htakes, hbad⟩ more t hmore
    obtain ⟨u, ⟨before, ⟨after, rfl⟩, hu⟩, hdoomed⟩ : ∃ u, Transition.Visits (memberStep o json)
        (init code) events u ∧ u.Doomed o := by
      by_contra hnone
      exact hbad (hiff.mp (fun u hu hdoomed => hnone ⟨u, hu, hdoomed⟩) s e htakes)
    have hconsistent : u.Consistent := consistent_of_visits hrun ⟨before, ⟨after, rfl⟩, hu⟩
    rw [Transition.runFrom_append, hu, Option.bind_some] at hrun
    have hmore' : Transition.runFrom (memberStep o json) u (after ++ more) = some t := by
      rw [Transition.runFrom_append, hrun, Option.bind_some, hmore]
    -- from there on the session stays doomed
    have hend : t.Consistent ∧ t.Doomed o :=
      Transition.runFrom_always (J := fun t => t.Consistent ∧ t.Doomed o)
        (fun v e v' hv hstep => by
          obtain ⟨hstep, hmembers⟩ := memberStep_eq hstep
          have hstepped := (stepped_of_step hstep).1
          exact ⟨hv.1.step hstepped, hv.2.step hv.1 hmembers hstepped⟩)
        hmore' ⟨hconsistent, hdoomed⟩
    exact ⟨hend.2.main_ne_left hend.1, hend.2.canDeadlock hend.1⟩

/-- The receiver thread is still busy with a message when the main thread stops it. -/
theorem never_deadlocked_politeExit :
    ∃ final, Transition.runFrom (memberStep .little Nlohmann.integral) (init (str "aaaaaaaa"))
        politeExit = some final ∧ final.main = .left ∧
      ∀ s, Transition.Visits (memberStep .little Nlohmann.integral) (init (str "aaaaaaaa"))
        politeExit s → ¬ s.Deadlocked .little := by
  have hpossible : (Transition.runFrom (memberStep .little Nlohmann.integral)
      (init (str "aaaaaaaa")) politeExit).any (fun s => decide (s.main = .left)) = true := by
    decide +kernel
  have hcheck : Transition.checkSteps (memberStep .little Nlohmann.integral)
      (fun s e => decide (e.LeavesEnough .little s)) (init (str "aaaaaaaa")) politeExit = true := by
    decide +kernel
  obtain ⟨final, hrun, hleft⟩ := (Option.any_eq_true _ _).mp hpossible
  refine ⟨final, hrun, of_decide_eq_true hleft, ?_⟩
  refine (never_deadlocked .little Nlohmann.integral (str "aaaaaaaa") politeExit final hrun).1 ?_
  intro s e htakes
  have hgood := htakes.of_checkSteps hcheck
  exact of_decide_eq_true hgood

/-- The answer comes while the receiver thread waits for the next message. -/
def exitWhileReceiving : List Event :=
  [.act .startReceiving, .act .test, .act .exitRoom, .answer exitOkPacket, .act .mainRecv,
    .act .stopReceiving]

/-- "/exit" is typed before the receiver thread starts, which then sets the flag again. -/
def exitBeforeReceiving : List Event :=
  [.act .exitRoom, .answer exitOkPacket, .act .mainRecv, .act .stopReceiving,
    .act .startReceiving, .act .test]

/-- Both end in a deadlock, with nothing on the stream. -/
theorem not_never_deadlocked :
    (∃ s, Transition.Visits (memberStep .little Nlohmann.integral) (init (str "aaaaaaaa"))
      exitWhileReceiving s ∧ s.incoming = [] ∧ s.Deadlocked .little) ∧
    ∃ s, Transition.Visits (memberStep .little Nlohmann.integral) (init (str "aaaaaaaa"))
      exitBeforeReceiving s ∧ s.incoming = [] ∧ s.Deadlocked .little := by
  have hstuck : ∀ events : List Event,
      (Transition.runFrom (memberStep .little Nlohmann.integral) (init (str "aaaaaaaa"))
        events).any (fun s => decide (s.request = .answered ∧ s.main = .join ∧
          s.incoming = [] ∧ s.receiver = .recvHeader)) = true →
      ∃ s, Transition.Visits (memberStep .little Nlohmann.integral) (init (str "aaaaaaaa"))
        events s ∧ s.incoming = [] ∧ s.Deadlocked .little := by
    intro events hrun
    obtain ⟨s, hvisits, hs⟩ := Transition.Visits.of_any hrun
    obtain ⟨hrequest, hmain, hincoming, hreceiver⟩ := of_decide_eq_true hs
    have hwaits : s.incoming.length < s.receiverNeeds .little := by
      rw [hincoming, receiverNeeds, hreceiver]
      decide
    refine ⟨s, hvisits, hincoming, ?_, Or.inl hmain, hwaits⟩
    rw [hrequest]
    exact ExitRequest.noConfusion
  exact ⟨hstuck exitWhileReceiving (by decide +kernel),
    hstuck exitBeforeReceiving (by decide +kernel)⟩

end ChatSession

end SocketChat
