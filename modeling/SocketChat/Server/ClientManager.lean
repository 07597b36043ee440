/-
The client table: `ClientInfo` and `ClientManager`.

`clients` maps the file descriptor of every connected client to its record;
`nicknames` is the set of reserved names that `isNicknameTaken` consults.
-/
import SocketChat.Lib.Table
import SocketChat.Lib.Bytes
import Mathlib.Data.Finset.Insert

namespace SocketChat

/-- A file descriptor: an `int`. -/
abbrev Fd := Int32

/-- The server's record of one connection. -/
structure ClientInfo where
  fd : Fd
  ip : Bytes
  nickname : Bytes
  isAuthenticated : Bool
  recvBuffer : Bytes
  /-- The room the client is in, empty when it is in none. -/
  roomCode : Bytes

structure ClientManager where
  clients : Table Fd ClientInfo
  nicknames : Finset Bytes

namespace ClientManager

/-- No client is connected, no name is reserved. -/
def empty : ClientManager := ⟨∅, ∅⟩

def getClient (m : ClientManager) (client_fd : Fd) : Option ClientInfo := m.clients.find client_fd

/-- A write to the record of `client_fd` through the pointer `getClient` returned. -/
def setClient (m : ClientManager) (client_fd : Fd) (client : ClientInfo) : ClientManager :=
  { m with clients := m.clients.set client_fd client }

def addClient (m : ClientManager) (client_fd : Fd) (ip : Bytes) : ClientManager :=
  m.setClient client_fd
    { fd := client_fd, ip := ip, nickname := [], isAuthenticated := false, recvBuffer := [],
      roomCode := [] }

def removeClient (m : ClientManager) (client_fd : Fd) : ClientManager :=
  match m.getClient client_fd with
  | none => m
  | some client =>
    { clients := m.clients.remove client_fd
      nicknames :=
        if client.isAuthenticated then m.nicknames.erase client.nickname else m.nicknames }

def isNicknameTaken (m : ClientManager) (nickname : Bytes) : Bool := nickname ∈ m.nicknames

/-- The name is added to the reserved ones; a name the client held before stays
reserved. -/
def setNickname (m : ClientManager) (client_fd : Fd) (nickname : Bytes) : ClientManager :=
  match m.getClient client_fd with
  | none => m
  | some client =>
    { clients := m.clients.set client_fd
        { client with nickname := nickname, isAuthenticated := true }
      nicknames := insert nickname m.nicknames }

/-- Client `client_fd` is connected and registered under `nickname`. -/
def Holds (m : ClientManager) (client_fd : Fd) (nickname : Bytes) : Prop :=
  ∃ client, m.getClient client_fd = some client ∧ client.isAuthenticated = true ∧
    client.nickname = nickname

/-! ### The table after each operation -/

@[simp] theorem getClient_empty (fd : Fd) : empty.getClient fd = none := Table.find_empty fd

theorem getClient_setClient (m : ClientManager) (fd fd' : Fd) (client : ClientInfo) :
    (m.setClient fd client).getClient fd' = if fd' = fd then some client else m.getClient fd' :=
  Table.find_set m.clients fd fd' client

theorem getClient_addClient (m : ClientManager) (fd fd' : Fd) (ip : Bytes) :
    (m.addClient fd ip).getClient fd' =
      if fd' = fd then some ⟨fd, ip, [], false, [], []⟩ else m.getClient fd' :=
  getClient_setClient m fd fd' _

theorem getClient_removeClient (m : ClientManager) (fd fd' : Fd) :
    (m.removeClient fd).getClient fd' = if fd' = fd then none else m.getClient fd' := by
  unfold removeClient
  cases h : m.getClient fd with
  | none =>
    by_cases hfd : fd' = fd
    · rw [if_pos hfd, hfd]
      exact h
    · rw [if_neg hfd]
  | some client => exact Table.find_remove m.clients fd fd'

/-- A record after `addClient` is the new one, or was there. -/
theorem of_getClient_addClient {m : ClientManager} {fd fd' : Fd} {ip : Bytes}
    {client : ClientInfo} (h : (m.addClient fd ip).getClient fd' = some client) :
    client = ⟨fd, ip, [], false, [], []⟩ ∨ m.getClient fd' = some client := by
  rw [getClient_addClient] at h
  by_cases hfd : fd' = fd
  · rw [if_pos hfd, Option.some_inj] at h
    exact Or.inl h.symm
  · rw [if_neg hfd] at h
    exact Or.inr h

/-- A record after `removeClient` was there. -/
theorem of_getClient_removeClient {m : ClientManager} {fd fd' : Fd} {client : ClientInfo}
    (h : (m.removeClient fd).getClient fd' = some client) : m.getClient fd' = some client := by
  rw [getClient_removeClient] at h
  by_cases hfd : fd' = fd
  · rw [if_pos hfd] at h
    cases h
  · rwa [if_neg hfd] at h

theorem nicknames_removeClient {m : ClientManager} {fd : Fd} {client : ClientInfo}
    (h : m.getClient fd = some client) :
    (m.removeClient fd).nicknames =
      if client.isAuthenticated then m.nicknames.erase client.nickname else m.nicknames := by
  rw [removeClient, h]

theorem getClient_setNickname {m : ClientManager} {fd : Fd} {client : ClientInfo}
    (h : m.getClient fd = some client) (nickname : Bytes) (fd' : Fd) :
    (m.setNickname fd nickname).getClient fd' =
      if fd' = fd then some { client with nickname := nickname, isAuthenticated := true }
      else m.getClient fd' := by
  rw [setNickname, h]
  exact Table.find_set m.clients fd fd' _

theorem setNickname_of_not_connected {m : ClientManager} {fd : Fd} (h : m.getClient fd = none)
    (nickname : Bytes) : m.setNickname fd nickname = m := by
  rw [setNickname, h]

@[simp] theorem isNicknameTaken_iff (m : ClientManager) (nickname : Bytes) :
    m.isNicknameTaken nickname = true ↔ nickname ∈ m.nicknames := decide_eq_true_iff

end ClientManager

end SocketChat
