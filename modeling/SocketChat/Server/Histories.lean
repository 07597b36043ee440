/-
Members of a room hear the same.

Two clients that are listed in the same rooms are sent the same by the handlers of everybody
else's packets.  Where events are executed to completion they are sent it in the same order
(`heard_eq`).  Where workers run handlers side by side the packets of two broadcasts may come
in either order, but whenever no handler is running each of the two clients has been sent every
packet as often as the other (`heard_perm`): nobody misses what another member hears.

The latter takes the calls of a handler for single steps.  `broadcastPacketForRoom` copies the
member list without a lock, so this is the case as long as no list is changed while it is
copied: a `leaveUser` in the middle of it can leave a copy with one member twice and another
not at all.
-/
import SocketChat.Lib.Settled
import SocketChat.Server.Speaking
import SocketChat.Server.ThreadPool
import Mathlib.Tactic.Ring

namespace SocketChat

open Handler

variable {json : Nlohmann} {now : LocalTime} {a b fd : Fd} {p q packet : Packet}
  {s s' : Server}

/-! ### Rooms -/

/-- Every room lists a client once. -/
def Server.Distinct (s : Server) : Prop := ∀ code room, s.room? code = some room →
  room.clients.Nodup

/-- The clients are listed in the same rooms. -/
def Server.Together (s : Server) (a b : Fd) : Prop := ∀ code room, s.room? code = some room →
  (a ∈ room.clients ↔ b ∈ room.clients)

instance (s : Server) (a b : Fd) : Decidable (s.Together a b) :=
  decidable_of_iff (∀ code ∈ s.roomManager.rooms.keys,
      ((s.room? code).all fun room => decide (a ∈ room.clients ↔ b ∈ room.clients)) = true) <| by
    constructor
    · intro h code room hroom
      have hmem : code ∈ s.roomManager.rooms.keys :=
        (Table.mem_keys_iff _ _).mpr (Option.isSome_iff_exists.mpr ⟨room, hroom⟩)
      have hcode := h code hmem
      rw [hroom] at hcode
      exact of_decide_eq_true hcode
    · intro h code _
      cases hroom : s.room? code with
      | none => rfl
      | some room => exact decide_eq_true (h code room hroom)

theorem Server.Distinct.of_rooms (hs : s.Distinct) (h : ∀ code, s'.room? code = s.room? code) :
    s'.Distinct := fun code room hroom => hs code room (h code ▸ hroom)

theorem Server.Distinct.serve (hs : s.Distinct) (c : Call) : (serve c s).2.Distinct := by
  cases c with
  | setRoomCode conn code =>
    refine hs.of_rooms fun code' => ?_
    rw [Server.room?, roomManager_setRoomCode]
    rfl
  | addRoom name max =>
    intro code room hroom
    have hroom : (s.roomManager.addRoom name max).2.rooms.find code = some room := hroom
    rcases s.roomManager.addRoom_cases name max with ⟨-, hrooms, -⟩ | ⟨k, -, -, hrooms, -⟩
    · rw [hrooms] at hroom
      exact hs code room hroom
    · rw [hrooms, Table.find_set] at hroom
      by_cases hcode : code = s.roomManager.codes.code k
      · rw [if_pos hcode, Option.some_inj] at hroom
        rw [← hroom]
        exact List.nodup_nil
      · rw [if_neg hcode] at hroom
        exact hs code room hroom
  | joinRoom g roomCode =>
    intro code room hroom
    have hroom : (s.roomManager.joinRoom g roomCode).2.rooms.find code = some room := hroom
    rcases s.roomManager.joinRoom_cases g roomCode with
      ⟨hjoin, -⟩ | ⟨room', hroom', -, hout, hjoin⟩
    · rw [hjoin] at hroom
      exact hs code room hroom
    · rw [hjoin, Table.find_set] at hroom
      by_cases hcode : code = roomCode
      · rw [if_pos hcode, Option.some_inj] at hroom
        rw [← hroom]
        exact List.nodup_append.mpr ⟨hs roomCode room' hroom', List.nodup_singleton g,
          fun x hx y hy => by
            rw [List.mem_singleton.mp hy]
            rintro rfl
            exact hout hx⟩
      · rw [if_neg hcode] at hroom
        exact hs code room hroom
  | leaveRoom g roomCode =>
    intro code room hroom
    have hroom : (s.roomManager.leaveRoom g roomCode).rooms.find code = some room := hroom
    rw [RoomManager.find_leaveRoom] at hroom
    by_cases hcode : code = roomCode
    · rw [if_pos hcode, Option.bind_eq_some_iff] at hroom
      obtain ⟨room', hroom', hleft⟩ := hroom
      by_cases hempty : room'.clients.erase g = []
      · rw [if_pos hempty] at hleft
        cases hleft
      · rw [if_neg hempty, Option.some_inj] at hleft
        rw [← hleft]
        exact (hs roomCode room' hroom').erase g
    · rw [if_neg hcode] at hroom
      exact hs code room hroom
  | _ => exact hs

theorem Server.Distinct.env {e : IoEvent} (hs : s.Distinct)
    (h : (Server.system json).env s e = some s') : s'.Distinct := by
  rcases ThreadPool.env_cases h with ⟨fd, ip, -, -, -, rfl⟩ | ⟨fd, -, rfl⟩ | ⟨-, -, -, -, -, rfl⟩
  · exact hs
  · exact hs
  · exact hs

theorem Server.distinct_init (codes : CodeStream) : (Server.init codes).Distinct := by
  intro code room hroom
  rw [Server.room?_init] at hroom
  cases hroom

theorem Server.Together.count_eq (hs : s.Together a b) (hdistinct : s.Distinct) {code : Bytes}
    {room : Room} (hroom : s.room? code = some room) :
    room.clients.count a = room.clients.count b := by
  rw [(hdistinct code room hroom).count, (hdistinct code room hroom).count]
  simp only [hs code room hroom]

/-! ### One event after the other -/

/-- Whose packet it is. -/
def Event.sender : Event → Option Fd
  | .packet fd _ _ => some fd
  | _ => none

/-- What client `g` is sent in a run, but for the packets of `a` and of `b`. -/
def Server.heard (json : Nlohmann) (a b g : Fd) : Server → List Event → List Packet
  | _, [] => []
  | s, e :: es => (s.step json e).elim [] fun s' =>
    (if e.sender ≠ some a ∧ e.sender ≠ some b then s'.sentTo g else []) ++ s'.heard json a b g es

/-- A broadcast, and what is sent to the client that it leaves out. -/
theorem sentTo_of_sent {l : List Fd} {notice : Packet} {rest : List (Fd × Packet)}
    (hsent : s'.sent = l.map (·, notice) ++ rest) (hrest : ∀ x ∈ rest, x.1 = fd) (hne : a ≠ fd) :
    s'.sentTo a = List.replicate (l.count a) notice := by
  have hnone : rest.filter (fun x => x.1 = a) = [] := by
    refine List.filter_eq_nil_iff.mpr fun x hx => ?_
    simp only [decide_eq_true_iff]
    exact fun h => hne (h.symm.trans (hrest x hx))
  rw [Server.sentTo, hsent, List.filter_append, hnone, List.append_nil]
  clear hsent
  induction l with
  | nil => rfl
  | cons g l ih =>
    rw [List.map_cons, List.filter_cons]
    by_cases hg : g = a
    · rw [if_pos (by simpa using hg), List.map_cons, ih, hg, List.count_cons_self,
        List.replicate_succ]
    · rw [if_neg (by simpa using hg), ih, List.count_cons_of_ne hg]

/-- What a packet has the server send to two other clients that are in the same rooms. -/
theorem Handled.sentTo_eq {info : ClientInfo} (hh : Handled json now s fd info p s')
    (hsent : s.sent = []) (hdistinct : s.Distinct) (htogether : s.Together a b) (ha : a ≠ fd)
    (hb : b ≠ fd) : s'.sentTo a = s'.sentTo b := by
  -- one broadcast at most, to members of a room, and one packet to the client itself
  have hsame : ∀ (l : List Fd) (notice : Packet) (rest : List (Fd × Packet)),
      s'.sent = s.sent ++ (l.map (·, notice) ++ rest) → (∀ x ∈ rest, x.1 = fd) →
      l.count a = l.count b → s'.sentTo a = s'.sentTo b := by
    intro l notice rest hl hrest hcount
    rw [hsent, List.nil_append] at hl
    rw [sentTo_of_sent hl hrest ha, sentTo_of_sent hl hrest hb, hcount]
  have hself : ∀ {answer : Packet}, ∀ x ∈ [(fd, answer)], x.1 = fd :=
    fun x hx => by rw [List.mem_singleton.mp hx]
  have hanswer : ∀ answer : Packet, s'.sent = s.sent ++ [(fd, answer)] →
      s'.sentTo a = s'.sentTo b := fun answer hl => hsame [] answer _ hl hself rfl
  have hrecipients : ∀ code, (recipients s code fd).count a = (recipients s code fd).count b := by
    intro code
    rw [recipients, List.count_filter (by simpa using ha), List.count_filter (by simpa using hb)]
    cases hroom : s.room? code with
    | none => rfl
    | some room => exact htogether.count_eq hdistinct hroom
  cases hh with
  | ignored htype =>
    rw [Server.sentTo, Server.sentTo, hsent]
    rfl
  | chat broadcast htype hauth hin hbroadcast =>
    exact hsame (recipients s info.roomCode fd) broadcast [] (by rw [List.append_nil])
      (fun x hx => by cases hx) (hrecipients _)
  | refused response n => exact hanswer response rfl
  | registered nickname => exact hanswer _ rfl
  | created name max code n k => exact hanswer _ rfl
  | createdEmpty name code n k => exact hanswer _ rfl
  | joined code room htype hasks hnone hroom hspace hout =>
    have hpackets : ∃ (l : List Fd) (notice : Packet) (rest : List (Fd × Packet)),
        joinPackets json fd info.nickname code room.clients = l.map (·, notice) ++ rest ∧
          (∀ x ∈ rest, x.1 = fd) ∧ l.count a = l.count b := by
      rw [joinPackets]
      cases roomCodeResponse json PacketType.roomJoinOk code with
      | error e =>
        exact ⟨[], jsonErrorResponse PacketType.roomJoinFail e, _, rfl, hself, rfl⟩
      | ok response =>
        cases userNotice json PacketType.roomUserJoin fd info.nickname with
        | error e =>
          exact ⟨[], jsonErrorResponse PacketType.roomJoinFail e, _, rfl, hself, rfl⟩
        | ok notice =>
          exact ⟨room.clients, notice, _, rfl, hself, htogether.count_eq hdistinct hroom⟩
    obtain ⟨l, notice, rest, hl, hrest, hcount⟩ := hpackets
    exact hsame l notice rest (congrArg (s.sent ++ ·) hl) hrest hcount
  | exited notice htype hin hnotice =>
    exact hsame (recipients s info.roomCode fd) notice _ (List.append_assoc _ _ _) hself
      (hrecipients _)

theorem sent_acceptNewConnection (s : Server) (fd : Fd) (ip : Bytes) (added : Bool) :
    (ConnectionManager.acceptNewConnection s fd ip added).sent = s.sent := by
  rw [ConnectionManager.acceptNewConnection]
  by_cases hadd : 0 < fd ∧ added = true
  · rw [if_pos hadd]
  · rw [if_neg hadd]

/-- **Members of a room hear the same in the same order**, each event being executed to
completion: in any part of any run in which two clients are always listed in the same rooms,
they are sent the same packets but for what each of the two has sent packets for itself. -/
theorem heard_eq {codes : CodeStream} {events more : List Event}
    (hinit : Transition.runFrom (Server.step json) (Server.init codes) events = some s)
    (hrun : Transition.runFrom (Server.step json) s more = some s')
    (htogether : ∀ u, Transition.Visits (Server.step json) s more u → u.Together a b) :
    s.heard json a b a more = s.heard json a b b more := by
  have hcoherent : s.Coherent :=
    Transition.runFrom_always (fun _ _ _ h hstep => h.step hstep) hinit
      (Server.coherent_init codes)
  clear hinit
  induction more generalizing s with
  | nil => rfl
  | cons e more ih =>
    obtain ⟨u, hu, hrun⟩ := Option.bind_eq_some_iff.mp hrun
    have hrest := ih hrun
      (fun v hv => htogether v ((Transition.visits_cons hu).mpr (Or.inr hv))) (hcoherent.step hu)
    rw [Server.heard, Server.heard, hu]
    show _ ++ u.heard json a b a more = _ ++ u.heard json a b b more
    rw [hrest]
    by_cases hother : e.sender ≠ some a ∧ e.sender ≠ some b
    · rw [if_pos hother, if_pos hother]
      congr 1
      cases e with
      | packet fd p now =>
        obtain ⟨info, h, hh⟩ := handled_of_step hu
        refine hh.sentTo_eq rfl (fun code room hroom => ?_) (htogether s (.start s _))
          (fun heq => hother.1 (congrArg some heq.symm))
          fun heq => hother.2 (congrArg some heq.symm)
        exact Server.listed_of_room hroom ▸ hcoherent.distinct code
      | accept fd ip added =>
        obtain ⟨-, rfl⟩ := Server.step_eq_some.mp hu
        have hsent : (Event.perform json { s with sent := [] } (.accept fd ip added)).sent = [] :=
          sent_acceptNewConnection _ fd ip added
        rw [Server.sentTo, Server.sentTo, hsent]
        rfl
      | close fd =>
        obtain ⟨-, rfl⟩ := Server.step_eq_some.mp hu
        rfl
    · rw [if_neg hother, if_neg hother]

/-- Clients 5 and 6 meet in a room for three. -/
def meet : List Event :=
  [.accept 5 (str "10.0.0.1") true, .accept 6 (str "10.0.0.2") true,
    .request 5 PacketType.createRoom (str "\x7b\"roomName\":\"lobby\",\"maxUsers\":3\x7d"),
    joinRoomEvent 6 "aaaaaaaa"]

/-- Client 7, called `ann`, joins them, says hello and leaves. -/
def visit : List Event :=
  [.accept 7 (str "10.0.0.3") true, nicknameEvent 7 "ann", joinRoomEvent 7 "aaaaaaaa",
    .packet 7 greeting noon, exitRoomEvent 7]

theorem heard_eq_visit : ∃ s, Transition.runFrom (Server.step Nlohmann.integral)
      (Server.init CodeStream.inOrder) meet = some s ∧
    s.heard Nlohmann.integral 5 6 5 visit = s.heard Nlohmann.integral 5 6 6 visit ∧
    (s.heard Nlohmann.integral 5 6 6 visit).length = 3 := by
  have hcheck : (Transition.runFrom (Server.step Nlohmann.integral)
      (Server.init CodeStream.inOrder) meet).any (fun s =>
        (Transition.runFrom (Server.step Nlohmann.integral) s visit).isSome &&
        visit.inits.all (fun pre =>
          (Transition.runFrom (Server.step Nlohmann.integral) s pre).all fun u =>
            decide (u.Together 5 6)) &&
        decide ((s.heard Nlohmann.integral 5 6 6 visit).length = 3)) = true := by
    decide +kernel
  obtain ⟨s, hs, hcheck⟩ := (Option.any_eq_true _ _).mp hcheck
  rw [Bool.and_eq_true, Bool.and_eq_true, decide_eq_true_iff] at hcheck
  obtain ⟨⟨hrun, htogether⟩, hlength⟩ := hcheck
  obtain ⟨s', hrun⟩ := Option.isSome_iff_exists.mp hrun
  refine ⟨s, hs, heard_eq hs hrun fun u hu => ?_, hlength⟩
  have hcheck := Transition.Visits.of_all htogether hu
  exact of_decide_eq_true hcheck

/-! ### Handlers -/

/-- How much more often a call sends packet `q` to `a` than to `b`. -/
def lead (a b : Fd) (q : Packet) : Call → ℤ
  | .send g packet =>
    if packet = q then (if g = a then 1 else 0) - (if g = b then 1 else 0) else 0
  | _ => 0

/-- A list of members has both clients as often. -/
def FairReply (a b : Fd) : (c : Call) → Reply c → Prop
  | .getClientFds _, found => ∀ fds, found = some fds → fds.count a = fds.count b
  | _, _ => True

theorem lead_send_other (ha : a ≠ fd) (hb : b ≠ fd) : lead a b q (.send fd packet) = 0 := by
  rw [lead, if_neg ha.symm, if_neg hb.symm, sub_zero, ite_self]

theorem totals_sendEach (packet q : Packet) (ha : a ≠ fd) (hb : b ≠ fd) (fds : List Fd) :
    (sendEach packet fd fds).Totals (lead a b q) (FairReply a b)
      (if packet = q then (fds.count a : ℤ) - fds.count b else 0) := by
  induction fds with
  | nil =>
    show (if packet = q then (0 : ℤ) - 0 else 0) = 0
    rw [sub_zero, ite_self]
  | cons g fds ih =>
    rw [sendEach]
    by_cases hg : g ≠ fd
    · rw [if_pos hg]
      refine ⟨_, ?_, fun _ _ => ih⟩
      rw [lead, List.count_cons, List.count_cons]
      by_cases hq : packet = q
      · simp only [if_pos hq, beq_iff_eq]
        push_cast
        ring
      · simp only [if_neg hq, add_zero]
    · rw [if_neg hg]
      obtain rfl : g = fd := not_not.mp hg
      rwa [List.count_cons_of_ne ha.symm, List.count_cons_of_ne hb.symm]

/-- A room broadcast sends to both clients or to neither. -/
theorem totals_broadcastPacketForRoom (packet q : Packet) (ha : a ≠ fd) (hb : b ≠ fd)
    (code : Bytes) :
    (broadcastPacketForRoom packet code fd).Totals (lead a b q) (FairReply a b) 0 := by
  refine Prog.Totals.call rfl fun found hfair => ?_
  cases found with
  | none => rfl
  | some fds =>
    have htotals := totals_sendEach packet q ha hb fds
    rwa [hfair fds rfl, sub_self, ite_self] at htotals

theorem Speaks.totals {told : Option PacketType} {p : Handler Unit} (h : Speaks fd told p)
    (ha : a ≠ fd) (hb : b ≠ fd) : p.Totals (lead a b q) (FairReply a b) 0 := by
  induction h with
  | silent a => rfl
  | answer hanswer => exact Prog.Totals.call (lead_send_other ha hb) fun _ _ => rfl
  | @call told c k hc hk ih =>
    refine Prog.Totals.call ?_ fun r _ => ih r
    cases c with
    | send g packet => exact absurd rfl (hc g packet)
    | _ => rfl
  | @broadcast told packet code p hnotice hp ih =>
    have htotals := (totals_broadcastPacketForRoom packet q ha hb code).bind fun _ => ih
    rwa [zero_add] at htotals

/-! ### Workers side by side -/

namespace ThreadPool

variable {N : ℕ} {t t' : ThreadPool N} {codes : CodeStream} {events more : List (Event N)}

/-- The packet that a call made for a task of neither client sends to `g`. -/
def heardFrom (a b g : Fd) : Task × Call → Option Packet
  | (task, .send fd packet) =>
    if fd = g ∧ task.conn.fd ≠ a ∧ task.conn.fd ≠ b then some packet else none
  | _ => none

/-- What client `g` is sent in a run by the handlers of packets of others than `a` and `b`. -/
def heard (json : Nlohmann) (t : ThreadPool N) (events : List (Event N)) (a b g : Fd) :
    List Packet :=
  (Pool.callsMade (Server.system json) t events).filterMap (heardFrom a b g)

/-- The lead that calls for tasks of others give. -/
def leadOfOthers (a b : Fd) (q : Packet) (task : Task) (c : Call) : ℤ :=
  if task.conn.fd ≠ a ∧ task.conn.fd ≠ b then lead a b q c else 0

theorem totals_program (json : Nlohmann) (a b : Fd) (q : Packet) (task : Task) :
    ((Server.system json).program task).Totals (leadOfOthers a b q task) (FairReply a b) 0 := by
  by_cases hother : task.conn.fd ≠ a ∧ task.conn.fd ≠ b
  · obtain ⟨told, hspeaks, -⟩ :=
      PacketHandler.speaks_handle json task.now task.conn.fd task.packet
    have hlead : leadOfOthers a b q task = lead a b q := by
      funext c
      exact if_pos hother
    rw [hlead]
    exact hspeaks.totals hother.1.symm hother.2.symm
  · exact Prog.Totals.of_zero (fun c => if_neg hother) _

theorem fairReply_serve (hdistinct : s.Distinct) (htogether : s.Together a b) (c : Call) :
    FairReply a b c (serve c s).1 := by
  cases c with
  | getClientFds code =>
    intro fds hfds
    obtain ⟨room, hroom, rfl⟩ := Option.map_eq_some_iff.mp hfds
    exact htogether.count_eq hdistinct hroom
  | _ => trivial

/-- The lead is the difference of what the two have heard. -/
theorem sum_leadOfOthers (calls : List (Task × Call)) :
    (calls.map fun x => leadOfOthers a b q x.1 x.2).sum =
      ((calls.filterMap (heardFrom a b a)).count q : ℤ) -
        (calls.filterMap (heardFrom a b b)).count q := by
  induction calls with
  | nil => rfl
  | cons x calls ih =>
    obtain ⟨task, c⟩ := x
    have hstep : ∀ g, (((task, c) :: calls).filterMap (heardFrom a b g)).count q =
        (calls.filterMap (heardFrom a b g)).count q +
          if heardFrom a b g (task, c) = some q then 1 else 0 := by
      intro g
      rw [List.filterMap_cons]
      cases hheard : heardFrom a b g (task, c) with
      | none => simp
      | some packet => simp [List.count_cons]
    rw [List.map_cons, List.sum_cons, ih, hstep, hstep]
    have hlead : leadOfOthers a b q task c =
        (if heardFrom a b a (task, c) = some q then 1 else 0) -
          if heardFrom a b b (task, c) = some q then 1 else 0 := by
      cases c with
      | send g packet =>
        by_cases hother : task.conn.fd ≠ a ∧ task.conn.fd ≠ b
        · by_cases hq : packet = q
          · simp [leadOfOthers, lead, heardFrom, hother, hq]
          · simp [leadOfOthers, lead, heardFrom, hother, hq]
        · simp [leadOfOthers, heardFrom, hother]
      | _ => simp [leadOfOthers, lead, heardFrom]
    rw [hlead]
    push_cast
    ring

theorem distinct_of_run (hrun : Transition.runFrom (step json) (init N codes) events = some t) :
    t.shared.Distinct := by
  refine Transition.runFrom_always (J := fun t => t.shared.Distinct) (fun t e t' h hstep => ?_)
    hrun (Server.distinct_init codes)
  cases Pool.step_cases hstep with
  | env henv => exact h.env henv
  | @act w i c k hrun => exact h.serve c
  | _ => exact h

/-- **Nobody misses what another member hears.**  Take any part of any run, with any number of
workers, in which two clients are always listed in the same rooms and every member list is
copied in one step, no client coming or going meanwhile.  Between two states in which no handler
is running, the handlers of everybody else's packets have sent every packet to one of the two as
often as to the other, in whichever order. -/
theorem heard_perm (hinit : Transition.runFrom (step json) (init N codes) events = some t)
    (hstart : ∀ w, t.worker w = none) (hrun : Transition.runFrom (step json) t more = some t')
    (htogether : ∀ u, Transition.Visits (step json) t more u → u.shared.Together a b)
    (hend : ∀ w, t'.worker w = none) :
    (heard json t more a b a).Perm (heard json t more a b b) := by
  have hdistinct : ∀ u, Transition.Visits (step json) t more u → u.shared.Distinct := by
    rintro u ⟨pre, hpre, hu⟩
    have hall : Transition.runFrom (step json) (init N codes) (events ++ pre) = some u := by
      rw [Transition.runFrom_append, hinit]
      exact hu
    exact distinct_of_run hall
  refine List.perm_iff_count.mpr fun q => ?_
  have hsettled := Pool.settled (S := Server.system json) (leadOfOthers a b q) (FairReply a b)
    (K := fun s => s.Distinct ∧ s.Together a b)
    (fun c s hs => fairReply_serve hs.1 hs.2 c) (totals_program json a b q) hstart hrun
    (fun u hu => ⟨hdistinct u hu, htogether u hu⟩) hend
  rw [sum_leadOfOthers, sub_eq_zero] at hsettled
  exact_mod_cast hsettled

/-- A packet received on the first connection with descriptor `fd`. -/
def requestTask (fd : Fd) (type : PacketType) (text : Bytes) : Task :=
  ⟨⟨fd, 1⟩, Packet.ofText type text, noon⟩

/-- A worker handles a packet, with `n` calls, and nothing else happens. -/
def handleAlone (w : Fin N) (task : Task) (n : ℕ) : List (Event N) :=
  .push task :: .pop w :: List.replicate n (.act w) ++ [.finish w]

/-- Clients 5, 6 and 7, called `ann`, meet in a room for three. -/
def gather (w : Fin N) : List (Event N) :=
  [.env (.accept 5 (str "10.0.0.1") true), .env (.accept 6 (str "10.0.0.2") true),
    .env (.accept 7 (str "10.0.0.3") true)] ++
  handleAlone w (annTask 7) 3 ++
  handleAlone w (requestTask 5 PacketType.createRoom
    (str "\x7b\"roomName\":\"lobby\",\"maxUsers\":3\x7d")) 5 ++
  handleAlone w (requestTask 6 PacketType.joinRoom
    (str "\x7b\"roomCode\":\"aaaaaaaa\"\x7d")) 6 ++
  handleAlone w (requestTask 7 PacketType.joinRoom
    (str "\x7b\"roomCode\":\"aaaaaaaa\"\x7d")) 7

/-- Client 7 says hello and leaves.  The first worker pauses when it has sent the message to
client 5; the second tells 5 and 6 that 7 has left. -/
def sayAndLeave (v w : Fin N) : List (Event N) :=
  [.push ⟨⟨7, 1⟩, greeting, noon⟩, .push (requestTask 7 PacketType.exitRoom []), .pop v, .act v,
    .act v, .act v, .pop w] ++ List.replicate 7 (.act w) ++ [.finish w, .act v, .finish v]

theorem heard_perm_sayAndLeave : ∃ t, Transition.runFrom (step Nlohmann.integral)
      (init 2 CodeStream.inOrder) (gather 0) = some t ∧
    (heard Nlohmann.integral t (sayAndLeave 0 1) 5 6 5).Perm
      (heard Nlohmann.integral t (sayAndLeave 0 1) 5 6 6) ∧
    heard Nlohmann.integral t (sayAndLeave 0 1) 5 6 5 ≠
      heard Nlohmann.integral t (sayAndLeave 0 1) 5 6 6 := by
  have hcheck : (Transition.runFrom (step Nlohmann.integral)
      (init 2 CodeStream.inOrder) (gather 0)).any (fun t =>
        (List.finRange 2).all (fun w => (t.worker w).isNone) &&
        (Transition.runFrom (step Nlohmann.integral) t (sayAndLeave 0 1)).any (fun t' =>
          (List.finRange 2).all fun w => (t'.worker w).isNone) &&
        (sayAndLeave 0 1).inits.all (fun pre =>
          (Transition.runFrom (step Nlohmann.integral) t pre).all fun u =>
            decide (u.shared.Together 5 6)) &&
        decide (heard Nlohmann.integral t (sayAndLeave 0 1) 5 6 5 ≠
          heard Nlohmann.integral t (sayAndLeave 0 1) 5 6 6)) = true := by
    decide +kernel
  obtain ⟨t, ht, hcheck⟩ := (Option.any_eq_true _ _).mp hcheck
  rw [Bool.and_eq_true, Bool.and_eq_true, Bool.and_eq_true, decide_eq_true_iff] at hcheck
  obtain ⟨⟨⟨hstart, hrun⟩, htogether⟩, hne⟩ := hcheck
  obtain ⟨t', hrun, hend⟩ := (Option.any_eq_true _ _).mp hrun
  refine ⟨t, ht, heard_perm ht (fun w => ?_) hrun (fun u hu => ?_) (fun w => ?_), hne⟩
  · exact Option.isNone_iff_eq_none.mp (List.all_eq_true.mp hstart w (List.mem_finRange w))
  · have hcheck := Transition.Visits.of_all htogether hu
    exact of_decide_eq_true hcheck
  · exact Option.isNone_iff_eq_none.mp (List.all_eq_true.mp hend w (List.mem_finRange w))

end ThreadPool

end SocketChat
