/-
What the handlers of other packets leave alone.

However handlers are interleaved, only a request received on the descriptor of a client
writes to the client's record or takes the client out of a room: the handlers of all other
packets are bystanders (`Handled.spares`), and what they call keeps the record and the
entries in rooms (`client?_of_spares`, `listed_of_spares`).  Room codes are codes that were
drawn, and nicknames are texts from parsed JSON, in every state the workers can reach.
-/
import SocketChat.Server.Answers
import SocketChat.Server.DescriptorReuse

namespace SocketChat

open Handler

/-! ### Calls that spare a client -/

/-- The call neither writes to the record of client `fd` nor takes it out of a room. -/
def Call.Spares (fd : Fd) : Call → Prop
  | .setNickname g _ => g ≠ fd
  | .setRoomCode conn _ => conn.fd ≠ fd
  | .leaveRoom g _ => g ≠ fd
  | _ => True

theorem client?_of_spares {c : Call} {fd : Fd} (s : Server) (h : c.Spares fd) :
    (serve c s).2.client? fd = s.client? fd := by
  by_contra hne
  rcases client?_serve hne with ⟨nickname, rfl⟩ | ⟨conn, code, rfl, rfl⟩
  · exact h rfl
  · exact h rfl

/-- A room lists a client. -/
def Server.Lists (s : Server) (code : Bytes) (fd : Fd) : Prop :=
  ∃ room, s.room? code = some room ∧ fd ∈ room.clients

theorem listed_of_spares {c : Call} {fd : Fd} {s : Server} {code : Bytes} (h : c.Spares fd)
    (hlists : s.Lists code fd) : (serve c s).2.Lists code fd := by
  obtain ⟨room, hroom, hfd⟩ := hlists
  have hkept : ∀ s' : Server, s'.room? code = s.room? code → s'.Lists code fd :=
    fun s' hsame => ⟨room, hsame.trans hroom, hfd⟩
  cases c with
  | setRoomCode conn roomCode =>
    refine hkept _ ?_
    rw [Server.room?, roomManager_setRoomCode]
    rfl
  | addRoom name max =>
    rcases s.roomManager.addRoom_cases name max with ⟨-, hrooms, -⟩ | ⟨k, hfresh, -, hrooms, -⟩
    · exact hkept _ (congrArg (Table.find · code) hrooms)
    · -- the code of the new room was not in use
      refine hkept _ ((congrArg (Table.find · code) hrooms).trans ?_)
      rw [Table.find_set, if_neg]
      · rfl
      · rintro rfl
        exact hfresh ((Table.mem_iff_find _ _).mpr ⟨room, hroom⟩)
  | joinRoom g roomCode =>
    rcases s.roomManager.joinRoom_cases g roomCode with ⟨hjoin, -⟩ | ⟨room', hroom', -, -, hjoin⟩
    · exact hkept _ (congrArg (fun x : Bool × RoomManager => x.2.rooms.find code) hjoin)
    · have hfind : (serve (.joinRoom g roomCode) s).2.room? code =
          (s.roomManager.rooms.set roomCode { room' with clients := room'.clients ++ [g] }).find
            code := congrArg (fun x : Bool × RoomManager => x.2.rooms.find code) hjoin
      rw [Table.find_set] at hfind
      by_cases hcode : code = roomCode
      · rw [if_pos hcode] at hfind
        subst hcode
        obtain rfl := Option.some.inj (hroom.symm.trans hroom')
        exact ⟨_, hfind, List.mem_append_left _ hfd⟩
      · rw [if_neg hcode] at hfind
        exact hkept _ hfind
  | leaveRoom g roomCode =>
    have hfind : (serve (.leaveRoom g roomCode) s).2.room? code = _ :=
      s.roomManager.find_leaveRoom g roomCode code
    by_cases hcode : code = roomCode
    · subst hcode
      have hstays : fd ∈ room.clients.erase g := (List.mem_erase_of_ne (Ne.symm h)).mpr hfd
      rw [if_pos rfl, show s.roomManager.rooms.find code = some room from hroom, Option.bind_some,
        if_neg (List.ne_nil_of_mem hstays)] at hfind
      exact ⟨_, hfind, hstays⟩
    · rw [if_neg hcode] at hfind
      exact hkept _ hfind
  | _ => exact ⟨room, hroom, hfd⟩

/-! ### Codes and nicknames -/

/-- Codes to be drawn and codes of rooms satisfy `P`, and nicknames are UTF-8. -/
structure Server.Written (P : Bytes → Prop) (s : Server) : Prop where
  codes : ∀ k, P (s.roomManager.codes.code k)
  rooms : ∀ code room, s.room? code = some room → P code
  names : ∀ fd client, s.client? fd = some client → Bytes.utf8 client.nickname = true

variable {P : Bytes → Prop} {s s' : Server}

theorem Server.Written.of_rooms (hs : s.Written P)
    (hcodes : ∃ n, s'.roomManager.codes = s.roomManager.codes.drop n)
    (hrooms : ∀ code room, s'.room? code = some room → P code)
    (hclients : s'.clientManager = s.clientManager) : s'.Written P := by
  refine ⟨fun k => ?_, hrooms, fun fd client hclient => hs.names fd client ?_⟩
  · obtain ⟨n, hn⟩ := hcodes
    rw [hn]
    exact hs.codes (n + k)
  · rw [← hclient, Server.client?, Server.client?, hclients]

theorem Server.Written.of_clients (hs : s.Written P) (hrooms : s'.roomManager = s.roomManager)
    (hnames : ∀ fd client, s'.client? fd = some client → Bytes.utf8 client.nickname = true) :
    s'.Written P := by
  refine ⟨fun k => ?_, fun code room hroom => hs.rooms code room ?_, hnames⟩
  · rw [hrooms]
    exact hs.codes k
  · rw [← hroom, Server.room?, Server.room?, hrooms]

/-- What calls keep. -/
theorem Server.Written.serve {json : Nlohmann} {request : Prop} {c : Call}
    (hjson : json.Lawful) (hs : s.Written P) (hc : c.Proper json request) :
    (serve c s).2.Written P := by
  have hsame : ∃ n, s.roomManager.codes = s.roomManager.codes.drop n :=
    ⟨0, s.roomManager.codes.drop_zero.symm⟩
  cases c with
  | setNickname fd nickname =>
    refine hs.of_clients rfl fun g client hclient => ?_
    rw [client?_setNickname] at hclient
    by_cases hg : g = fd
    · rw [if_pos hg, Option.map_eq_some_iff] at hclient
      obtain ⟨info, -, rfl⟩ := hclient
      exact hc hjson
    · rw [if_neg hg] at hclient
      exact hs.names g client hclient
  | setRoomCode conn code =>
    rcases serve_setRoomCode_cases conn code s with heq | ⟨info, hinfo, -, heq⟩
    · rw [heq]
      exact hs
    · -- the nickname in the record is as before
      rw [heq]
      refine hs.of_clients rfl fun g client hclient => ?_
      have hclient : (s.clientManager.setClient conn.fd _).getClient g = some client := hclient
      rw [ClientManager.getClient_setClient] at hclient
      by_cases hg : g = conn.fd
      · rw [if_pos hg, Option.some_inj] at hclient
        exact hclient ▸ hs.names conn.fd info hinfo
      · rw [if_neg hg] at hclient
        exact hs.names g client hclient
  | addRoom name max =>
    refine hs.of_rooms (s.roomManager.codes_addRoom name max) (fun code room hroom => ?_) rfl
    have hroom : (s.roomManager.addRoom name max).2.rooms.find code = some room := hroom
    rcases s.roomManager.addRoom_cases name max with ⟨-, hrooms, -⟩ | ⟨k, -, -, hrooms, -⟩
    · rw [hrooms] at hroom
      exact hs.rooms code room hroom
    · rw [hrooms, Table.find_set] at hroom
      by_cases hcode : code = s.roomManager.codes.code k
      · rw [hcode]
        exact hs.codes k
      · rw [if_neg hcode] at hroom
        exact hs.rooms code room hroom
  | joinRoom fd roomCode =>
    refine hs.of_rooms ?_ (fun code room hroom => ?_) rfl
    · show ∃ n, (s.roomManager.joinRoom fd roomCode).2.codes = _
      rw [RoomManager.codes_joinRoom]
      exact hsame
    · have hroom : (s.roomManager.joinRoom fd roomCode).2.rooms.find code = some room := hroom
      rw [RoomManager.find_joinRoom] at hroom
      by_cases hcode : code = roomCode
      · rw [if_pos hcode, Option.map_eq_some_iff] at hroom
        obtain ⟨room', hroom', -⟩ := hroom
        rw [hcode]
        exact hs.rooms roomCode room' hroom'
      · rw [if_neg hcode] at hroom
        exact hs.rooms code room hroom
  | leaveRoom fd roomCode =>
    refine hs.of_rooms ?_ (fun code room hroom => ?_) rfl
    · show ∃ n, (s.roomManager.leaveRoom fd roomCode).codes = _
      rw [RoomManager.codes_leaveRoom]
      exact hsame
    · have hroom : (s.roomManager.leaveRoom fd roomCode).rooms.find code = some room := hroom
      rw [RoomManager.find_leaveRoom] at hroom
      by_cases hcode : code = roomCode
      · rw [if_pos hcode, Option.bind_eq_some_iff] at hroom
        obtain ⟨room', hroom', -⟩ := hroom
        rw [hcode]
        exact hs.rooms roomCode room' hroom'
      · rw [if_neg hcode] at hroom
        exact hs.rooms code room hroom
  | _ => exact hs.of_clients rfl hs.names

/-- The I/O thread connects clients without a nickname. -/
theorem Server.Written.env {json : Nlohmann} {e : IoEvent} (hs : s.Written P)
    (h : (Server.system json).env s e = some s') : s'.Written P := by
  rcases ThreadPool.env_cases h with ⟨fd, ip, -, -, -, rfl⟩ | ⟨fd, -, rfl⟩ | ⟨-, -, -, -, -, rfl⟩
  · refine hs.of_clients rfl fun g client hclient => ?_
    rcases ClientManager.of_getClient_addClient hclient with rfl | hbefore
    · exact Bytes.utf8_nil
    · exact hs.names g client hbefore
  · refine hs.of_clients rfl fun g client hclient => ?_
    exact hs.names g client (ClientManager.of_getClient_removeClient hclient)
  · exact hs

theorem Server.written_init {codes : CodeStream} (hcodes : ∀ k, P (codes.code k)) :
    (Server.init codes).Written P := by
  refine ⟨hcodes, fun code room h => ?_, fun fd client h => ?_⟩
  · rw [Server.room?_init] at h
    cases h
  · rw [Server.client?_init] at h
    cases h

/-! ### Handlers of other packets -/

variable {json : Nlohmann} {fd : Fd}

/-- What is left of the handler of a task: its calls are proper, and it has a pointer to no
record but one found under its own descriptor. -/
def Handling (json : Nlohmann) (_ : Server) (task : Task) (p : Handler Unit) : Prop :=
  p.Only (Call.Proper json (IsRequest task.packet.type)) ∧
    ∃ m, p.Follows (discipline task.conn.fd (IsRequest task.packet.type)) m ∧
      ∀ conn, m.client = some conn → conn.fd = task.conn.fd

theorem handling_start (json : Nlohmann) (s : Server) (task : Task) :
    Handling json s task ((Server.system json).program task) := by
  refine ⟨PacketHandler.handle_proper json task.now task.conn.fd task.packet, Memory.empty,
    PacketHandler.follows_handle json
    task.now task.conn.fd task.packet, ?_⟩
  intro conn hconn
  cases hconn

theorem Handling.act {task : Task} {c : Call} {k : Reply c → Handler Unit}
    (h : Handling json s task (.call c k)) (s' : Server) :
    Handling json s' task (k (serve c s).1) := by
  obtain ⟨honly, m, hfollows, hclient⟩ := h
  refine ⟨honly.2 _, _, hfollows.2 _, fun conn hconn => ?_⟩
  rcases ThreadPool.client_next hfollows.1 hconn with hold | hnew
  · exact hclient conn hold
  · rw [← hnew]
    rfl

/-- **Bystanders.**  Only a request received on the descriptor of a client acts on its record
or takes it out of a room. -/
theorem Handling.spares {task : Task} {c : Call} {k : Reply c → Handler Unit}
    (h : Handling json s task (.call c k))
    (hother : ¬ (task.conn.fd = fd ∧ IsRequest task.packet.type)) : c.Spares fd := by
  obtain ⟨honly, m, ⟨hallowed, -⟩, hclient⟩ := h
  cases c with
  | setNickname g nickname =>
    obtain ⟨-, hrequest, hg, -⟩ := hallowed
    exact fun heq => hother ⟨hg.symm.trans heq, hrequest⟩
  | setRoomCode conn code =>
    obtain ⟨-, hrequest, hconn⟩ := hallowed
    exact fun heq => hother ⟨(hclient conn hconn).symm.trans heq, hrequest⟩
  | leaveRoom g code =>
    obtain ⟨-, hg⟩ := hallowed
    exact fun heq => hother ⟨hg.symm.trans heq, honly.1⟩
  | _ => trivial

namespace ThreadPool

variable {N : ℕ} {t t' : ThreadPool N}

/-- What holds in every state the workers can reach: tasks are started in order, each by one
worker, and what is left of each handler is as `Handling` says. -/
structure Working (json : Nlohmann) (P : Bytes → Prop) (t : ThreadPool N) : Prop where
  inOrder : ∃ k, t.InOrder k
  single : t.Single
  programs : t.Each (Handling json)
  written : t.shared.Written P

theorem Working.step (hjson : json.Lawful) {e : Event N} (ht : t.Working json P)
    (hstep : step json t e = some t') : t'.Working json P := by
  obtain ⟨k, hk⟩ := ht.inOrder
  refine ⟨hk.step hstep, ht.single.step hk hstep, ht.programs.step hstep ?_ ?_ ?_, ?_⟩
  · intro i task _ _
    exact handling_start json t.shared task
  · rintro w i task c k - - - h
    exact h.act _
  · rintro v i task p - - - h
    exact h
  · cases Pool.step_cases hstep with
    | env henv => exact ht.written.env henv
    | @act w i c k hrun =>
      obtain ⟨task, -, honly, -⟩ := ht.programs w i _ hrun
      exact ht.written.serve hjson honly.1
    | push => exact ht.written
    | pop => exact ht.written
    | finish => exact ht.written

theorem working_init (N : ℕ) {codes : CodeStream} (hcodes : ∀ k, P (codes.code k)) :
    (init N codes).Working json P := by
  refine ⟨⟨0, Pool.inOrder_init _⟩, ?_, Pool.each_init _ _, Server.written_init hcodes⟩
  rintro v w i ⟨p, hp⟩
  cases hp

end ThreadPool

end SocketChat
