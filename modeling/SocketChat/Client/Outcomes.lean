/-
The outcome of a request.

In a run in which the client is not misled, the only request of its connection that is under
way is the one it waits for (`Awaits`): it is still with the client, or waits in the queue, or
is run by one worker, whose handler answers (`Stage`).  So every call that returns agrees with
the server (`outcomes_agree`).  Without the condition it need not: a call takes the next packet
for the answer, which may have been sent by another handler in between.
-/
import SocketChat.Client.Granting

namespace SocketChat

open Client Client.Request

variable {json : Nlohmann} {K : Connection} {r : Request} {m : Progress}

namespace Dialogue

variable {N : ℕ} {d d' : Dialogue N}

/-! ### The request on its way -/

/-- Where the packet of the request is, and how far the request has been granted. -/
inductive Stage (json : Nlohmann) (K : Connection) (d : Dialogue N) (r : Request) :
    Progress → Prop
  /-- It is the last packet the client has sent. -/
  | sent {chat : List Packet} {packet : Packet} (hasked : d.asked = none)
      (houtgoing : d.outgoing = chat ++ [packet]) (hchat : ∀ p ∈ chat, ¬ IsRequest p.type)
      (hpacket : r.packet json = .ok packet)
      (hfits : packet.payload.length ≤ maxPayloadSize) : Stage json K d r .fresh
  /-- It has been received; what is left of its handler answers. -/
  | received {m : Progress} {i : ℕ} {task : Task} (hasked : d.asked = some i)
      (houtgoing : d.outgoing = []) (htask : d.server.received[i]? = some task)
      (hconn : task.conn = K) (hpacket : r.packet json = .ok task.packet)
      (hfits : task.packet.payload.length ≤ maxPayloadSize)
      (hqueue : i ∈ d.server.queue → m = .fresh)
      (hprogram : ∀ w p, d.server.worker w = some (i, p) →
        p.Follows (answering json K r) (some m)) : Stage json K d r m

/-- The only request on the descriptor of the connection that is under way is the latest. -/
def Quiet (K : Connection) (d : Dialogue N) : Prop :=
  ∀ i task, d.server.received[i]? = some task → task.conn.fd = K.fd →
    IsRequest task.packet.type → d.server.Unfinished i → d.asked = some i

/-- What holds while the call for request `r` waits. -/
structure Awaits (json : Nlohmann) (K : Connection) (d : Dialogue N) (r : Request) : Prop where
  quiet : d.Quiet K
  progress : ∃ m, Linked json K d r m ∧ Stage json K d r m

/-- What holds in every state of a run in which the client is not misled. -/
structure Sound (json : Nlohmann) (K : Connection) (d : Dialogue N) : Prop where
  working : d.server.Working json fun code => readable json code = true
  incoming : ∀ x ∈ d.incoming, x.1 < d.server.received.length
  isOpen : ∀ r, d.waiting = some r → d.server.shared.Open K
  awaits : ∀ r, d.waiting = some r → r ≠ .exitRoom → d.Awaits json K r

variable {t : ThreadPool N} {e : ThreadPool.Event N}

theorem Quiet.step (h : d.Quiet K) (hstep : ThreadPool.step json d.server e = some t)
    (he : ∀ task, e ≠ .push task) (hserver : d'.server = t) (hasked : d'.asked = d.asked) :
    d'.Quiet K := by
  have hreceived : t.received = d.server.received := by
    cases Pool.step_cases hstep with
    | push => exact absurd rfl (he _)
    | _ => rfl
  subst hserver
  intro i task htask hfd hrequest hopen
  rw [hasked]
  rw [hreceived] at htask
  rcases Pool.unfinished_step hstep hopen with hold | ⟨⟨task', hpush⟩, -⟩
  · exact h i task htask hfd hrequest hold
  · exact absurd hpush (he task')

/-- A step of the server in which the packet of the request stays where it is. -/
theorem Stage.congr (h : Stage json K d r m) (hasked : d'.asked = d.asked)
    (houtgoing : d'.outgoing = d.outgoing)
    (hreceived : d'.server.received = d.server.received)
    (hqueue : ∀ i, i ∈ d'.server.queue → i ∈ d.server.queue)
    (hworker : ∀ i, d.asked = some i → ∀ w p, d'.server.worker w = some (i, p) →
      d.server.worker w = some (i, p)) : Stage json K d' r m := by
  cases h with
  | sent hasked₀ houtgoing₀ hchat hpacket hfits =>
    exact Stage.sent (hasked.trans hasked₀) (houtgoing.trans houtgoing₀) hchat hpacket hfits
  | received hasked₀ houtgoing₀ htask hconn hpacket hfits hqueue₀ hprogram =>
    exact Stage.received (hasked.trans hasked₀) (houtgoing.trans houtgoing₀) (hreceived ▸ htask)
      hconn hpacket hfits (fun hi => hqueue₀ (hqueue _ hi))
      fun w p hp => hprogram w p (hworker _ hasked₀ w p hp)

/-- The I/O thread connects or disconnects another client. -/
theorem Awaits.env {io : IoEvent} {shared : Server} (h : d.Awaits json K r)
    (hopen : d.server.shared.Open K) (hcarries : d.Carries K (.env io))
    (henv : (Server.system json).env d.server.shared io = some shared)
    (hstep : ThreadPool.step json d.server (.env io) = some { d.server with shared := shared }) :
    Awaits json K { d with server := { d.server with shared := shared } } r := by
  have hkeeps : ∀ fd, io = .close fd → d.server.shared.connection fd ≠ K := by
    rintro fd rfl
    exact hcarries
  obtain ⟨m, hlinked, hstage⟩ := h.progress
  refine ⟨h.quiet.step hstep (fun _ h => by cases h) rfl rfl, m, ?_, ?_⟩
  · exact hlinked.congr (env_steady hopen hkeeps henv).1 rfl rfl fun i p hi hp => ⟨hi, hp⟩
  · exact hstage.congr rfl rfl rfl (fun _ h => h) fun _ _ _ _ h => h

theorem Awaits.finish {w : Fin N} {i : ℕ} (h : d.Awaits json K r)
    (hstep : ThreadPool.step json d.server (.finish w) = some { d.server with
      worker := Function.update d.server.worker w none, done := d.server.done ++ [i] }) :
    Awaits json K { d with server := { d.server with
      worker := Function.update d.server.worker w none, done := d.server.done ++ [i] } } r := by
  obtain ⟨m, hlinked, hstage⟩ := h.progress
  refine ⟨h.quiet.step hstep (fun _ h => by cases h) rfl rfl, m, ?_, ?_⟩
  · exact hlinked.congr (Steady.refl K _) rfl rfl fun i p hi hp => ⟨hi, hp⟩
  · refine hstage.congr rfl rfl rfl (fun _ h => h) fun j _ v p hv => ?_
    rcases Pool.runs_update.mp ⟨p, hv⟩ with ⟨-, q, hq⟩ | ⟨hne, -⟩
    · cases hq
    · have hv : Function.update d.server.worker w none v = some (j, p) := hv
      rwa [Function.update_of_ne hne] at hv

/-- A worker takes the request, or another packet. -/
theorem Awaits.pop (hjson : json.Lawful) {w : Fin N} {i : ℕ} {queue : List ℕ} {task : Task}
    (h : d.Awaits json K r) (hr : r ≠ .exitRoom) (hqueue : d.server.queue = i :: queue)
    (htask : d.server.received[i]? = some task)
    (hstep : ThreadPool.step json d.server (.pop w) = some { d.server with
      queue := queue
      worker := Function.update d.server.worker w
        (some (i, (Server.system json).program task)) }) :
    Awaits json K { d with server := { d.server with
      queue := queue
      worker := Function.update d.server.worker w
        (some (i, (Server.system json).program task)) } } r := by
  obtain ⟨m, hlinked, hstage⟩ := h.progress
  refine ⟨h.quiet.step hstep (fun _ h => by cases h) rfl rfl, m, ?_, ?_⟩
  · exact hlinked.congr (Steady.refl K _) rfl rfl fun i p hi hp => ⟨hi, hp⟩
  · cases hstage with
    | sent hasked houtgoing hchat hpacket hfits =>
      exact Stage.sent hasked houtgoing hchat hpacket hfits
    | @received _ j own hasked houtgoing hown hconn hpacket hfits hwaits hprogram =>
      refine Stage.received hasked houtgoing hown hconn hpacket hfits (fun hj => ?_)
        fun v p hv => ?_
      · exact hwaits (hqueue ▸ List.mem_cons_of_mem i hj)
      · rcases Pool.runs_update.mp ⟨p, hv⟩ with ⟨hvw, -⟩ | ⟨hne, -⟩
        · -- the handler is about to start
          subst hvw
          have hv : Function.update d.server.worker v _ v = some (j, p) := hv
          rw [Function.update_self] at hv
          obtain ⟨rfl, rfl⟩ := Prod.mk.inj (Option.some.inj hv)
          obtain rfl := Option.some.inj (htask.symm.trans hown)
          rw [hwaits (hqueue ▸ List.mem_cons_self)]
          show (PacketHandler.handle json task.now task.conn.fd task.packet).Follows _ _
          rw [hconn]
          exact follows_handle hjson hr hpacket hfits
        · have hv : Function.update d.server.worker w _ v = some (j, p) := hv
          rw [Function.update_of_ne hne] at hv
          exact hprogram v p hv

theorem getElem?_received {received : List Task} {new task : Task} {i : ℕ}
    (h : (received ++ [new])[i]? = some task) :
    received[i]? = some task ∨ i = received.length ∧ task = new := by
  by_cases hlt : i < received.length
  · rw [List.getElem?_append_left hlt] at h
    exact Or.inl h
  · rw [List.getElem?_append_right (by omega)] at h
    obtain ⟨hzero, heq⟩ := List.getElem?_eq_some_iff.mp h
    simp only [List.length_singleton] at hzero
    simp only [List.getElem_singleton] at heq
    exact Or.inr ⟨by omega, heq.symm⟩

/-- After a packet has been received, the latest request is still the only one. -/
theorem Quiet.push {task : Task} (h : d.Quiet K)
    (hstep : ThreadPool.step json d.server (.push task) = some t)
    (hreceived : t.received = d.server.received ++ [task]) (hserver : d'.server = t)
    (hasked : ∀ i, d.asked = some i → d'.asked = some i)
    (hnew : task.conn.fd = K.fd → IsRequest task.packet.type →
      d'.asked = some d.server.received.length) : d'.Quiet K := by
  subst hserver
  intro i own hown hfd hrequest hunfinished
  rw [hreceived] at hown
  rcases getElem?_received hown with hold | ⟨rfl, rfl⟩
  · rcases Pool.unfinished_step hstep hunfinished with hbefore | ⟨-, rfl⟩
    · exact hasked i (h i own hold hfd hrequest hbefore)
    · have hlt := (List.getElem?_eq_some_iff.mp hold).1
      omega
  · exact hnew hfd hrequest

/-- A packet is received that the client has not sent. -/
theorem Awaits.push_other {task : Task} (h : d.Awaits json K r)
    (hopen : d.server.shared.Open K) (hadmits : task.Received d.server.shared)
    (hother : task.conn ≠ K)
    (hstep : ThreadPool.step json d.server (.push task) = some { d.server with
      received := d.server.received ++ [task]
      queue := d.server.queue ++ [d.server.received.length] }) :
    Awaits json K { d with server := { d.server with
      received := d.server.received ++ [task]
      queue := d.server.queue ++ [d.server.received.length] } } r := by
  obtain ⟨m, hlinked, hstage⟩ := h.progress
  refine ⟨h.quiet.push hstep rfl rfl (fun _ hi => hi) fun hfd _ => ?_, m, ?_, ?_⟩
  · -- while the connection is open nothing else is received on its descriptor
    have hconn := hadmits.2.1
    rw [hfd, hopen.2] at hconn
    exact absurd hconn.symm hother
  · exact hlinked.congr (Steady.refl K _) rfl rfl fun i p hi hp => ⟨hi, hp⟩
  · cases hstage with
    | sent hasked houtgoing hchat hpacket hfits =>
      exact Stage.sent hasked houtgoing hchat hpacket hfits
    | @received _ j own hasked houtgoing hown hconn hpacket hfits hwaits hprogram =>
      have hlt := (List.getElem?_eq_some_iff.mp hown).1
      have hown' : (d.server.received ++ [task])[j]? = some own := by
        rw [List.getElem?_append_left hlt, hown]
      refine Stage.received hasked houtgoing hown' hconn hpacket hfits (fun hj => ?_) hprogram
      rcases List.mem_append.mp hj with hj | hj
      · exact hwaits hj
      · have heq := List.mem_singleton.mp hj
        omega

/-- The next packet of the client is received: the request, if it is the last. -/
theorem Awaits.push_own {task : Task} (hsound : d.Sound json K) (hwaiting : d.waiting = some r)
    (h : d.Awaits json K r) (hconn : task.conn = K)
    (hhead : d.outgoing.head? = some task.packet)
    (hstep : ThreadPool.step json d.server (.push task) = some { d.server with
      received := d.server.received ++ [task]
      queue := d.server.queue ++ [d.server.received.length] }) :
    Awaits json K { d with
      server := { d.server with
        received := d.server.received ++ [task]
        queue := d.server.queue ++ [d.server.received.length] }
      outgoing := d.outgoing.tail
      asked := if d.waiting.isSome ∧ d.outgoing.tail = [] then some d.server.received.length
        else d.asked } r := by
  obtain ⟨m, hlinked, hstage⟩ := h.progress
  cases hstage with
  | received hasked houtgoing =>
    rw [houtgoing] at hhead
    cases hhead
  | @sent chat packet hasked houtgoing hchat hpacket hfits =>
    have hsome : d.waiting.isSome = true := by rw [hwaiting]; rfl
    cases chat with
    | nil =>
      have hout : d.outgoing = [packet] := houtgoing
      have hlast : d.outgoing.tail = [] := by rw [hout]; rfl
      rw [hout] at hhead
      obtain rfl : packet = task.packet := Option.some.inj hhead
      rw [if_pos ⟨hsome, hlast⟩]
      refine ⟨h.quiet.push hstep rfl rfl (fun i hi => ?_) fun _ _ => rfl, .fresh, ?_, ?_⟩
      · rw [hasked] at hi
        cases hi
      · refine hlinked.congr (Steady.refl K _) rfl rfl fun i p hi hp => ?_
        -- no packet has been sent by a handler that has not been started
        obtain rfl := Option.some.inj hi
        have hlt := hsound.incoming _ hp
        omega
      · have hlatest : (d.server.received ++ [task])[d.server.received.length]? = some task := by
          simp
        refine Stage.received rfl hlast hlatest hconn hpacket hfits (fun _ => rfl) fun w p hp => ?_
        obtain ⟨own, hown, -⟩ := hsound.working.programs w _ p hp
        have hlt := (List.getElem?_eq_some_iff.mp hown).1
        omega
    | cons first chat =>
      rw [houtgoing] at hhead
      obtain rfl : first = task.packet := Option.some.inj hhead
      have htail : d.outgoing.tail = chat ++ [packet] := by rw [houtgoing]; rfl
      have hmore : ¬ (d.waiting.isSome = true ∧ d.outgoing.tail = []) := by
        rintro ⟨-, hnil⟩
        rw [htail] at hnil
        exact absurd hnil (by simp)
      rw [if_neg hmore]
      refine ⟨h.quiet.push hstep rfl rfl (fun _ hi => hi) fun _ hrequest => ?_, .fresh, ?_, ?_⟩
      · exact absurd hrequest (hchat _ List.mem_cons_self)
      · exact hlinked.congr (Steady.refl K _) rfl rfl fun i p hi hp => ⟨hi, hp⟩
      · exact Stage.sent hasked htail (fun p hp => hchat p (List.mem_cons_of_mem _ hp))
          hpacket hfits

/-- What a call of a handler does to the dialogue. -/
def acted (K : Connection) (d : Dialogue N) (w : Fin N) (i : ℕ) (c : Call)
    (k : Reply c → Handler Unit) : Dialogue N :=
  { d with
    server := { d.server with
      shared := (serve c d.server.shared).2
      worker := Function.update d.server.worker w (some (i, k (serve c d.server.shared).1)) }
    incoming := d.incoming ++ ((c.sentOn K d.server.shared).map (i, ·)).toList
    applied := d.applied || (d.asked == some i && c.writesTo K d.server.shared) }

variable {w : Fin N} {i : ℕ} {c : Call} {k : Reply c → Handler Unit}

/-- The handler of another packet makes a call. -/
theorem Awaits.act_other (hsound : d.Sound json K) (h : d.Awaits json K r)
    (hrun : d.server.worker w = some (i, .call c k)) (hother : d.asked ≠ some i)
    (hstep : ThreadPool.step json d.server (.act w) = some (d.acted K w i c k).server) :
    (d.acted K w i c k).Awaits json K r := by
  obtain ⟨m, hlinked, hstage⟩ := h.progress
  obtain ⟨task, htask, hhandling⟩ := hsound.working.programs w i _ hrun
  have hspares : c.Spares K.fd := by
    refine hhandling.spares fun ⟨hfd, hrequest⟩ => hother ?_
    exact h.quiet i task htask hfd hrequest (Or.inr ⟨w, c, Pool.pending_eq_some.mpr ⟨k, hrun⟩⟩)
  have hasked : (d.asked == some i) = false := beq_eq_false_iff_ne.mpr hother
  refine ⟨h.quiet.step hstep (fun _ h => by cases h) rfl rfl, m, ?_, ?_⟩
  · refine hlinked.congr (Steady.of_spares hspares _) rfl ?_ fun j p hj hp => ⟨hj, ?_⟩
    · show (d.applied || (d.asked == some i && _)) = d.applied
      rw [hasked, Bool.false_and, Bool.or_false]
    · -- what the call sends comes from another handler
      rcases List.mem_append.mp hp with hold | hnew
      · exact hold
      · obtain ⟨packet, -, heq⟩ := Option.map_eq_some_iff.mp (Option.mem_toList.mp hnew)
        obtain ⟨rfl, -⟩ := Prod.mk.inj heq
        exact absurd hj hother
  · refine hstage.congr rfl rfl rfl (fun _ h => h) fun j hj v p hv => ?_
    by_cases hvw : v = w
    · subst hvw
      have hv : Function.update d.server.worker v _ v = some (j, p) := hv
      rw [Function.update_self] at hv
      obtain ⟨rfl, -⟩ := Prod.mk.inj (Option.some.inj hv)
      exact absurd hj hother
    · have hv : Function.update d.server.worker w _ v = some (j, p) := hv
      rwa [Function.update_of_ne hvw] at hv

/-- The handler of the request makes a call. -/
theorem Awaits.act_own (hsound : d.Sound json K) (hopen : d.server.shared.Open K)
    (h : d.Awaits json K r) (hrun : d.server.worker w = some (i, .call c k))
    (hasked : d.asked = some i)
    (hadmits : r.createsRoom = true → ∀ fd code, c = .joinRoom fd code →
      (d.server.shared.roomManager.joinRoom fd code).1 = true)
    (hstep : ThreadPool.step json d.server (.act w) = some (d.acted K w i c k).server) :
    (d.acted K w i c k).Awaits json K r := by
  obtain ⟨m, hlinked, hstage⟩ := h.progress
  cases hstage with
  | sent hnone =>
    rw [hasked] at hnone
    cases hnone
  | @received _ j task hasked' houtgoing htask hconn hpacket hfits hqueue hprogram =>
    obtain rfl := Option.some.inj (hasked.symm.trans hasked')
    obtain ⟨hallows, hgoes⟩ := hprogram w _ hrun
    have hexpects := expects_serve hopen hsound.working.written hallows hadmits
    have hgoes := hgoes (serve c d.server.shared).1
    rw [show (answering json K r).next (some m) c (serve c d.server.shared).1 =
      some (m.next K.fd c (serve c d.server.shared).1) from if_pos hexpects] at hgoes
    refine ⟨h.quiet.step hstep (fun _ h => by cases h) rfl rfl,
      m.next K.fd c (serve c d.server.shared).1, ?_, ?_⟩
    · refine hlinked.act hopen hallows ⟨rfl, rfl, rfl, rfl, ?_⟩
      show (d.applied || (d.asked == some i && _)) = _
      rw [hasked, beq_self_eq_true, Bool.true_and]
    · obtain ⟨n, hn⟩ := hsound.working.inOrder
      refine Stage.received hasked houtgoing htask hconn hpacket hfits (fun hi => ?_)
        fun v p hv => ?_
      · exact absurd hi (hn.not_queued ⟨_, hrun⟩)
      · rcases Pool.runs_update.mp ⟨p, hv⟩ with ⟨hvw, -⟩ | ⟨hne, hruns⟩
        · subst hvw
          have hv : Function.update d.server.worker v _ v = some (i, p) := hv
          rw [Function.update_self] at hv
          obtain ⟨-, rfl⟩ := Prod.mk.inj (Option.some.inj hv)
          exact hgoes
        · -- no other worker runs the same handler
          exact absurd (hsound.working.single v w i hruns ⟨_, hrun⟩) hne

/-! ### Runs -/

theorem Sound.server (hjson : json.Lawful) (h : d.Sound json K)
    (hstep : ThreadPool.step json d.server e = some d'.server) (hwaiting : d'.waiting = d.waiting)
    (hincoming : ∀ x ∈ d'.incoming, x ∈ d.incoming ∨ x.1 < d.server.received.length)
    (hopen : d.server.shared.Open K → d'.server.shared.Open K)
    (hawaits : ∀ r, d.waiting = some r → r ≠ .exitRoom → d.server.shared.Open K →
      d.Awaits json K r → d'.Awaits json K r) : d'.Sound json K := by
  have hgrows : d.server.received.length ≤ d'.server.received.length := by
    generalize d'.server = t at hstep
    cases Pool.step_cases hstep with
    | @push task =>
      show d.server.received.length ≤ (d.server.received ++ [task]).length
      rw [List.length_append]
      omega
    | _ => exact Nat.le_refl _
  refine ⟨h.working.step hjson hstep, fun x hx => ?_, fun r hr => ?_, fun r hr hexit => ?_⟩
  · rcases hincoming x hx with hold | hlt
    · have hlt := h.incoming x hold
      omega
    · omega
  · exact hopen (h.isOpen r (hwaiting ▸ hr))
  · have hr : d.waiting = some r := hwaiting ▸ hr
    exact hawaits r hr hexit (h.isOpen r hr) (h.awaits r hr hexit)

theorem follow_push_own {task : Task} (hconn : task.conn = K) :
    d.follow K (.push task) t = { d with
      server := t
      outgoing := d.outgoing.tail
      asked := if d.waiting.isSome ∧ d.outgoing.tail = [] then some d.server.received.length
        else d.asked } := if_pos hconn

theorem follow_push_other {task : Task} (hconn : task.conn ≠ K) :
    d.follow K (.push task) t = { d with server := t } := if_neg hconn

theorem follow_act (hrun : d.server.worker w = some (i, .call c k)) :
    d.follow K (.act w) (d.acted K w i c k).server = d.acted K w i c k := by
  rw [follow, Pool.pending_eq_some.mpr ⟨k, hrun⟩]
  rfl

/-- A step of the server. -/
theorem Sound.server_step (hjson : json.Lawful) (h : d.Sound json K)
    (hgood : d.Unmistaken K (.server e)) (hcarries : d.Carries K e)
    (hstep : ThreadPool.step json d.server e = some t) : (d.follow K e t).Sound json K := by
  cases Pool.step_cases hstep with
  | @env io shared henv =>
    refine h.server hjson hstep rfl (fun x hx => Or.inl hx) (fun hopen => ?_)
      fun r _ _ hopen hawaits => hawaits.env hopen hcarries henv hstep
    refine (env_steady hopen ?_ henv).2
    rintro fd rfl
    exact hcarries
  | @push task hadmits =>
    have hadmits : task.Received d.server.shared := of_decide_eq_true hadmits
    by_cases hconn : task.conn = K
    · rw [follow_push_own hconn]
      exact h.server hjson hstep rfl (fun x hx => Or.inl hx) (fun hopen => hopen)
        fun r hr _ _ hawaits => hawaits.push_own h hr hconn (hcarries hconn) hstep
    · rw [follow_push_other hconn]
      exact h.server hjson hstep rfl (fun x hx => Or.inl hx) (fun hopen => hopen)
        fun r _ _ hopen hawaits => hawaits.push_other hopen hadmits hconn hstep
  | @pop w i queue task hfree hqueue htask =>
    exact h.server hjson hstep rfl (fun x hx => Or.inl hx) (fun hopen => hopen)
      fun r _ hexit _ hawaits => hawaits.pop hjson hexit hqueue htask hstep
  | @finish w i a hrun =>
    exact h.server hjson hstep rfl (fun x hx => Or.inl hx) (fun hopen => hopen)
      fun r _ _ _ hawaits => hawaits.finish hstep
  | @act w i c k hrun =>
    have hfollow := follow_act (K := K) hrun
    have hstep : ThreadPool.step json d.server (.act w) = some (d.acted K w i c k).server := hstep
    show Sound json K (d.follow K (.act w) (d.acted K w i c k).server)
    rw [hfollow]
    refine h.server hjson hstep rfl (fun x hx => ?_) (fun hopen => open_serve hopen)
      fun r hr hexit hopen hawaits => ?_
    · rcases List.mem_append.mp hx with hold | hnew
      · exact Or.inl hold
      · obtain ⟨packet, -, rfl⟩ := Option.map_eq_some_iff.mp (Option.mem_toList.mp hnew)
        obtain ⟨task, htask, -⟩ := h.working.programs w i _ hrun
        exact Or.inr (List.getElem?_eq_some_iff.mp htask).1
    · by_cases hasked : d.asked = some i
      · refine hawaits.act_own h hopen hrun hasked (fun hcreates fd code hc => ?_) hstep
        -- the room that was created for the request admits its creator
        cases r with
        | createRoom name max =>
          subst hc
          obtain ⟨room, hroom, hspace, hout⟩ := hgood.1 name max i fd code hr hasked
            (Pool.pending_eq_some.mpr ⟨k, hrun⟩)
          rcases d.server.shared.roomManager.joinRoom_cases fd code with ⟨-, hfull⟩ |
            ⟨_, -, -, -, hjoin⟩
          · rcases hfull room hroom with hfull | hin
            · omega
            · exact absurd hin hout
          · rw [hjoin]
        | _ => cases hcreates
      · exact hawaits.act_other h hrun hasked hstep

theorem Sound.step (hjson : json.Lawful) {e : Event N} (h : d.Sound json K)
    (hgood : d.Unmistaken K e) (hstep : step json K d e = some d') : d'.Sound json K := by
  cases e with
  | server e =>
    obtain ⟨hcarries, t, ht, rfl⟩ := step_server hstep
    exact h.server_step hjson hgood hcarries ht
  | call r =>
    obtain ⟨hfree, hopen, ⟨-, rfl⟩ | ⟨hrefused, packet, hpacket, hfits, rfl⟩⟩ := step_call hstep
    -- a request refused by the client itself is over at once
    · refine ⟨h.working, h.incoming, fun r' hr => ?_, fun r' hr => ?_⟩
      · exact absurd (hfree.symm.trans hr) (by simp)
      · exact absurd (hfree.symm.trans hr) (by simp)
    · refine ⟨h.working, h.incoming, fun _ _ => hopen, fun r' hr hexit => ?_⟩
      obtain rfl := Option.some.inj hr
      -- nothing of an earlier request is under way, so this one is fresh
      obtain ⟨hsettled, hroom⟩ := hgood hexit hrefused
      refine ⟨fun i task htask hfd hrequest hunfinished => ?_, .fresh, ?_,
        Stage.sent rfl rfl hsettled.outgoing hpacket hfits⟩
      · exact absurd hunfinished (hsettled.finished i task htask hfd hrequest)
      · obtain ⟨info, hinfo⟩ := Option.isSome_iff_exists.mp hopen.1
        refine ⟨rfl, ⟨info, hinfo, fun henters => ?_, fun _ _ h => (by cases h)⟩,
          fun _ h => (by cases h), fun _ h => (by cases h), fun _ h => (by cases h),
          fun _ _ h => (by cases h)⟩
        obtain ⟨info', hinfo', hcode⟩ := hroom henters
        obtain rfl := Option.some.inj (hinfo.symm.trans hinfo')
        exact hcode
  | receive =>
    obtain ⟨r, i, response, rest, -, hincoming, rfl⟩ := step_receive hstep
    refine ⟨h.working, fun x hx => ?_, fun _ hr => (by cases hr), fun _ hr => (by cases hr)⟩
    exact h.incoming x (hincoming ▸ List.mem_cons_of_mem _ hx)
  | sendMessage message =>
    obtain ⟨hfree, packet, rfl⟩ := step_sendMessage hstep
    refine ⟨h.working, h.incoming, h.isOpen, fun r hr => ?_⟩
    exact absurd (hfree.symm.trans hr) (by simp)
  | receiveLoop =>
    obtain ⟨hrunning, y, rest, hincoming, rfl⟩ := step_receiveLoop hstep
    refine ⟨h.working, fun x hx => ?_, h.isOpen, fun r hr hexit => ?_⟩
    · exact h.incoming x (hincoming ▸ List.mem_cons_of_mem _ hx)
    · rcases hrunning with hnone | hexits
      · exact absurd (hnone.symm.trans hr) (by simp)
      · exact absurd (Option.some.inj (hr.symm.trans hexits)) hexit

theorem sound_init (N : ℕ) {codes : CodeStream}
    (hcodes : ∀ k, readable json (codes.code k) = true) : (init N codes).Sound json K := by
  refine ⟨ThreadPool.working_init N hcodes, fun x hx => ?_, fun r hr => ?_, fun r hr => ?_⟩
  · cases hx
  · cases hr
  · cases hr

/-! ### Returns -/

theorem Sound.agrees {e : Event N} {b : Bool} (h : d.Sound json K) (hgood : d.Unmistaken K e)
    (hstep : Dialogue.step json K d e = some d') (hreturns : d.returns json e = some (r, b))
    (hr : r ≠ .exitRoom) : d'.Agrees K r b := by
  cases e with
  | server e => cases hreturns
  | sendMessage message => cases hreturns
  | receiveLoop => cases hreturns
  | call r' =>
    -- a call that sends nothing
    obtain ⟨-, -, ⟨hrefused, rfl⟩ | ⟨hsent, -⟩⟩ := step_call hstep
    · have hreturns : (if r'.refused d.client then some (r', false) else none) = some (r, b) :=
        hreturns
      rw [if_pos hrefused] at hreturns
      obtain ⟨rfl, rfl⟩ := Prod.mk.inj (Option.some.inj hreturns)
      refine ⟨by simp, fun h => (by cases h), fun henters => ?_⟩
      cases r' with
      | registerNickname nickname => exact henters.elim
      | exitRoom => exact henters.elim
      | _ => cases hrefused
    · have hreturns : (if r'.refused d.client then some (r', false) else none) = some (r, b) :=
        hreturns
      rw [hsent, if_neg Bool.false_ne_true] at hreturns
      cases hreturns
  | receive =>
    obtain ⟨r', i, response, rest, hwaiting, hincoming, rfl⟩ := step_receive hstep
    rw [returns, hwaiting, hincoming] at hreturns
    obtain ⟨b', hb', heq⟩ := Option.map_eq_some_iff.mp hreturns
    obtain ⟨rfl, rfl⟩ := Prod.mk.inj heq
    obtain ⟨m, hlinked, -⟩ := (h.awaits r' hwaiting hr).progress
    -- the packet has been sent by the handler of the request
    have hasked : d.asked = some i := by
      have hhead := hgood (by rw [hwaiting]; exact fun h => hr (Option.some.inj h))
      rw [hincoming] at hhead
      exact hhead.symm
    cases hanswered : r'.answered json d.client response with
    | error e =>
      rw [hanswered] at hb'
      cases hb'
    | ok x =>
      obtain ⟨b, c⟩ := x
      rw [hanswered] at hb'
      obtain rfl := Option.some.inj hb'
      exact hlinked.agrees hr hasked (hincoming ▸ List.mem_cons_self) hanswered rfl rfl
        rfl

/-- **Client and server agree on requests as long as the client is not misled.**  In a run in
which the client makes each request when nothing of an earlier one is under way, receives the
answer to it in front of any other packet, and enters the rooms that are created for it, and in
which no worker writes to the erased record of another connection, every call of
`RegisterNickname`, `CreateRoom` or `JoinRoom` that returns agrees with the server. -/
theorem outcomes_agree (json : Nlohmann) (hjson : json.Lawful) (hplain : json.WritesPlain)
    (N : ℕ) (dis : ℕ → Fin 62) (K : Connection) (events : List (Event N)) (final : Dialogue N)
    (hrun : Transition.runFrom (step json K) (init N (CodeStream.ofIndices dis)) events =
      some final)
    (hgood : ∀ d e, Transition.Takes (step json K) (init N (CodeStream.ofIndices dis)) events
      d e → d.Unmistaken K e) :
    ∀ d e d' r b, Transition.Takes (step json K) (init N (CodeStream.ofIndices dis)) events
      d e → step json K d e = some d' → d.returns json e = some (r, b) → r ≠ .exitRoom →
      d'.Agrees K r b := by
  intro d e d' r b htakes hstep hreturns hr
  have hsound : d.Sound json K :=
    Transition.Visits.invariant (G := fun d e => d.Unmistaken K e)
      (fun _ _ _ hd hgood hstep => hd.step hjson hgood hstep) hrun
      (sound_init N (readable_ofIndices hplain dis)) hgood d htakes.visits
  exact hsound.agrees (hgood d e htakes) hstep hreturns hr

/-! ### Three runs -/

/-- The task for a request that is received on connection `K`. -/
def requestTask (K : Connection) (r : Request) : Task :=
  ⟨K, (r.packet Nlohmann.integral).toOption.getD createRoomExitPacket, noon⟩

/-- A packet is received, and worker `w` runs its handler, which makes the given number of
calls. -/
def serves (w : Fin N) (task : Task) (calls : ℕ) : List (Event N) :=
  .server (.push task) :: .server (.pop w) ::
    (List.replicate calls (.server (.act w)) ++ [.server (.finish w)])

def callAnn : Request := .registerNickname (str "ann")

def createLobby : Request := .createRoom (str "lobby") 2

/-- A request for a room that admits nobody. -/
def createHall : Request := .createRoom (str "hall") 0

def enterLobby : Request := .joinRoom (str "aaaaaaaa")

/-- The packet received at position `i` is another client's. -/
def isOthers (K : Connection) (d : Dialogue N) (i : ℕ) : Bool :=
  (d.server.received[i]?).all fun task => decide (task.conn.fd ≠ K.fd)

/-- A check that a step cannot mislead the client: all that is under way when it makes a
request is others', and so on. -/
def unmistaken (K : Connection) (d : Dialogue N) : Event N → Bool
  | .call _ => d.outgoing.isEmpty && d.server.queue.all (isOthers K d) &&
      decide (∀ w, (d.server.worker w).all (fun x => isOthers K d x.1) = true) &&
      (d.server.shared.client? K.fd).any fun info =>
        decide (info.roomCode = d.client.m_current_room_code)
  | .receive => decide (d.incoming.head?.map Prod.fst = d.asked)
  | .server (.act w) =>
    match d.server.pending w with
    | some (_, .joinRoom fd code) => (d.server.shared.room? code).any fun room =>
        decide (room.clients.length < sizeOfInt room.maxUserCnt ∧ fd ∉ room.clients)
    | some (_, .setRoomCode conn _) => decide (d.server.shared.Open conn)
    | _ => true
  | _ => true

theorem ne_of_isOthers {i : ℕ} {task : Task} (h : isOthers K d i = true)
    (htask : d.server.received[i]? = some task) : task.conn.fd ≠ K.fd := by
  rw [isOthers, htask] at h
  exact of_decide_eq_true h

theorem unmistaken_of_check {e : Event N} (h : unmistaken K d e = true) :
    d.Unmistaken K e := by
  cases e with
  | server e =>
    cases e with
    | act w =>
      constructor
      · intro name max i fd code _ _ hpending
        rw [unmistaken, hpending, Option.any_eq_true] at h
        obtain ⟨room, hroom, hadmits⟩ := h
        exact ⟨room, hroom, of_decide_eq_true hadmits⟩
      · rintro ⟨i, conn, code, hpending, hclosed⟩
        rw [unmistaken, hpending] at h
        exact hclosed (of_decide_eq_true h)
    | _ => trivial
  | call r =>
    rw [unmistaken, Bool.and_eq_true, Bool.and_eq_true, Bool.and_eq_true] at h
    obtain ⟨⟨⟨houtgoing, hqueue⟩, hworkers⟩, hcode⟩ := h
    obtain ⟨info, hinfo, hcode⟩ := (Option.any_eq_true _ _).mp hcode
    refine fun _ _ => ⟨⟨fun p hp => ?_, fun i task htask hfd _ hunfinished => ?_⟩,
      fun _ => ⟨info, hinfo, of_decide_eq_true hcode⟩⟩
    · rw [List.isEmpty_iff.mp houtgoing] at hp
      cases hp
    · rcases hunfinished with hqueued | ⟨w, c, hpending⟩
      · exact ne_of_isOthers (List.all_eq_true.mp hqueue i hqueued) htask hfd
      · obtain ⟨k, hw⟩ := Pool.pending_eq_some.mp hpending
        have hother := of_decide_eq_true hworkers w
        rw [hw] at hother
        exact ne_of_isOthers hother htask hfd
  | receive => exact fun _ => of_decide_eq_true h
  | _ => trivial

/-- Client 5 registers a nickname and creates a room, while worker `v` creates one for
client 6 and enters it there. -/
def createsLobby (v w : Fin N) : List (Event N) :=
  .server (.env (.accept 5 (str "10.0.0.1") true)) ::
    .server (.env (.accept 6 (str "10.0.0.2") true)) ::
    .server (.push (requestTask ⟨6, 1⟩ createLobby)) :: .server (.pop v) :: .server (.act v) ::
    .call callAnn :: (serves w (requestTask ⟨5, 1⟩ callAnn) 3 ++ .receive ::
    .server (.act v) :: .call createLobby :: .server (.act v) :: .server (.act v) ::
    serves w (requestTask ⟨5, 1⟩ createLobby) 5)

theorem outcomes_agree_createsLobby : ∃ d d',
    Transition.Takes (step Nlohmann.integral ⟨5, 1⟩) (init 2 CodeStream.inOrder)
      (createsLobby 0 1 ++ [.receive]) d .receive ∧
    step Nlohmann.integral ⟨5, 1⟩ d .receive = some d' ∧
    d.returns Nlohmann.integral .receive = some (createLobby, true) ∧
    d'.Agrees ⟨5, 1⟩ createLobby true := by
  have hrun : (Transition.runFrom (step Nlohmann.integral ⟨5, 1⟩) (init 2 CodeStream.inOrder)
      (createsLobby 0 1)).any (fun d => decide (d.returns Nlohmann.integral .receive =
        some (createLobby, true))) = true := by
    decide +kernel
  have hcheck : Transition.checkSteps (step Nlohmann.integral ⟨5, 1⟩) (unmistaken ⟨5, 1⟩)
      (init 2 CodeStream.inOrder) (createsLobby 0 1 ++ [.receive]) = true := by
    decide +kernel
  have hfinal : (Transition.runFrom (step Nlohmann.integral ⟨5, 1⟩) (init 2 CodeStream.inOrder)
      (createsLobby 0 1 ++ [.receive])).isSome = true := by
    decide +kernel
  obtain ⟨d, hrun, hreturns⟩ := (Option.any_eq_true _ _).mp hrun
  obtain ⟨d', hfinal⟩ := Option.isSome_iff_exists.mp hfinal
  have hreturns := of_decide_eq_true hreturns
  have htakes : Transition.Takes (step Nlohmann.integral ⟨5, 1⟩) (init 2 CodeStream.inOrder)
      (createsLobby 0 1 ++ [.receive]) d .receive :=
    ⟨createsLobby 0 1, List.prefix_refl _, hrun⟩
  obtain ⟨d₀, hrun₀, hstep⟩ := Transition.runFrom_snoc.mp hfinal
  obtain rfl := Option.some.inj (hrun.symm.trans hrun₀)
  refine ⟨d, d', htakes, hstep, hreturns, ?_⟩
  refine outcomes_agree Nlohmann.integral Nlohmann.lawful_integral Nlohmann.writesPlain_integral 2
    CodeStream.indicesInOrder ⟨5, 1⟩ _ d' hfinal (fun u e hu => ?_) d .receive d' _ _ htakes hstep
    hreturns (by decide)
  have hgood := hu.of_checkSteps hcheck
  exact unmistaken_of_check hgood

/-- Client 6 enters a room, and a message of client 5 is broadcast to it before it gets its
answer. -/
def overtakenAnswer (v w : Fin N) : List (Event N) :=
  .server (.env (.accept 5 (str "10.0.0.1") true)) ::
    .server (.env (.accept 6 (str "10.0.0.2") true)) ::
    (serves v (requestTask ⟨5, 1⟩ callAnn) 3 ++ serves v (requestTask ⟨5, 1⟩ createLobby) 5 ++
      .call enterLobby :: .server (.push (requestTask ⟨6, 1⟩ enterLobby)) :: .server (.pop v) ::
      .server (.act v) :: .server (.act v) :: (serves w ⟨⟨5, 1⟩, greeting, noon⟩ 3 ++
      List.replicate 4 (.server (.act v))))

/-- Client 5 creates a room that admits nobody. -/
def createsHall (w : Fin N) : List (Event N) :=
  .server (.env (.accept 5 (str "10.0.0.1") true)) :: .call createHall ::
    serves w (requestTask ⟨5, 1⟩ createHall) 4

/-- A client that has been entered in a room takes a message for the answer and returns
false; one whose room admits nobody returns true, though it is in no room. -/
theorem not_outcomes_agree :
    (∃ d d', Transition.Takes (step Nlohmann.integral ⟨6, 1⟩) (init 2 CodeStream.inOrder)
        (overtakenAnswer 0 1 ++ [.receive]) d .receive ∧
      step Nlohmann.integral ⟨6, 1⟩ d .receive = some d' ∧
      d.returns Nlohmann.integral .receive = some (enterLobby, false) ∧
      ¬ d'.Agrees ⟨6, 1⟩ enterLobby false) ∧
    ∃ d d', Transition.Takes (step Nlohmann.integral ⟨5, 1⟩) (init 1 CodeStream.inOrder)
        (createsHall 0 ++ [.receive]) d .receive ∧
      step Nlohmann.integral ⟨5, 1⟩ d .receive = some d' ∧
      d.returns Nlohmann.integral .receive = some (createHall, true) ∧
      ¬ d'.Agrees ⟨5, 1⟩ createHall true := by
  constructor
  · have hrun : (Transition.runFrom (step Nlohmann.integral ⟨6, 1⟩) (init 2 CodeStream.inOrder)
        (overtakenAnswer 0 1)).any (fun d => decide (d.returns Nlohmann.integral .receive =
          some (enterLobby, false)) && (step Nlohmann.integral ⟨6, 1⟩ d .receive).any
            Dialogue.applied) = true := by
      decide +kernel
    obtain ⟨d, hrun, hd⟩ := (Option.any_eq_true _ _).mp hrun
    obtain ⟨hreturns, hd'⟩ := Bool.and_eq_true_iff.mp hd
    obtain ⟨d', hstep, happlied⟩ := (Option.any_eq_true _ _).mp hd'
    exact ⟨d, d', ⟨overtakenAnswer 0 1, List.prefix_refl _, hrun⟩, hstep,
      of_decide_eq_true hreturns,
      fun hagrees => absurd (hagrees.outcome.mpr happlied) (by decide)⟩
  · have hrun : (Transition.runFrom (step Nlohmann.integral ⟨5, 1⟩) (init 1 CodeStream.inOrder)
        (createsHall 0)).any (fun d => decide (d.returns Nlohmann.integral .receive =
          some (createHall, true)) && (step Nlohmann.integral ⟨5, 1⟩ d .receive).any
            fun d' => !d'.applied) = true := by
      decide +kernel
    obtain ⟨d, hrun, hd⟩ := (Option.any_eq_true _ _).mp hrun
    obtain ⟨hreturns, hd'⟩ := Bool.and_eq_true_iff.mp hd
    obtain ⟨d', hstep, happlied⟩ := (Option.any_eq_true _ _).mp hd'
    refine ⟨d, d', ⟨createsHall 0, List.prefix_refl _, hrun⟩, hstep, of_decide_eq_true hreturns,
      fun hagrees => ?_⟩
    rw [Bool.not_eq_true', ← Bool.not_eq_true] at happlied
    exact happlied (hagrees.outcome.mp rfl)

end Dialogue

end SocketChat
