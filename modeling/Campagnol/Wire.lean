import Campagnol.Lib.SearchTree

/-!
# Addresses and messages

The IPv4 endpoints and the `message_t` datagrams exchanged between the clients and the
rendezvous (RDV) server. Client and server define them with the same constants
(`communication.h`, `server.h`).
-/

namespace Campagnol

/-- `struct in_addr`: an IPv4 address, in the byte order it has on the wire. -/
abbrev InAddr := UInt32

/-- `IN_ADDR_EMPTY`. -/
def InAddr.empty : InAddr := 0

/-- The fields of `struct sockaddr_in` the program reads: address and UDP port. -/
structure SockaddrIn where
  sinAddr : InAddr
  sinPort : UInt16
deriving Repr, DecidableEq, Inhabited

/-- Message types (1 byte). Any byte without a meaning of its own is `unknown`. -/
inductive MsgType where
  | hello | ping | askConnection | pong | ok | nok | fwdConnection | ansConnection
  | rejConnection | punch | punchKeepAlive | bye | reconnect | closeConnection
  | unknown (code : UInt8)
deriving Repr, DecidableEq, Inhabited

/-- `message_t`: the UDP messages between a client and the RDV server. -/
structure Message where
  type : MsgType
  port : UInt16
  ip1 : InAddr
  ip2 : InAddr
deriving Repr, DecidableEq, Inhabited

/-- A message handed to `sendto` with its destination. -/
structure Datagram where
  msg : Message
  dst : SockaddrIn
deriving Repr, DecidableEq, Inhabited

/-! ## Comparison routines

`compare_clients_addr` is the same function in both programs; `compare_clients_vpn`
compares the VPN addresses numerically in the server and byte by byte in the client. -/

/-- `compare_clients_addr`: by address, then by port. -/
def compareClientsAddr (a b : SockaddrIn) : Ordering :=
  if a.sinAddr < b.sinAddr then .lt
  else if a.sinAddr = b.sinAddr then
    if a.sinPort < b.sinPort then .lt
    else if a.sinPort = b.sinPort then .eq
    else .gt
  else .gt

/-- `compare_clients_vpn` of the server. -/
def compareClientsVpn (a b : InAddr) : Ordering :=
  if a < b then .lt
  else if a = b then .eq
  else .gt

theorem compareClientsVpn_eq : compareClientsVpn = compare := by
  funext a b
  rfl

theorem compareClientsAddr_eq : compareClientsAddr =
    compareLex (compareOn SockaddrIn.sinAddr) (compareOn SockaddrIn.sinPort) := by
  funext a b
  have haddr : compare a.sinAddr b.sinAddr = if a.sinAddr < b.sinAddr then .lt
      else if a.sinAddr = b.sinAddr then .eq else .gt := rfl
  have hport : compare a.sinPort b.sinPort = if a.sinPort < b.sinPort then .lt
      else if a.sinPort = b.sinPort then .eq else .gt := rfl
  simp only [compareClientsAddr, compareLex, compareOn, haddr, hport]
  split
  · rfl
  · split <;> rfl

instance : Std.TransCmp compareClientsVpn := by
  rw [compareClientsVpn_eq]; infer_instance

instance : Std.LawfulEqCmp compareClientsVpn := by
  rw [compareClientsVpn_eq]; infer_instance

instance : Std.TransCmp compareClientsAddr := by
  rw [compareClientsAddr_eq]; infer_instance

instance : Std.LawfulEqCmp compareClientsAddr where
  eq_of_compare {a b} h := by
    rw [compareClientsAddr_eq, compareLex_eq_eq] at h
    obtain ⟨haddr, hport⟩ := h
    have h₁ : a.sinAddr = b.sinAddr := Std.LawfulEqCmp.eq_of_compare haddr
    have h₂ : a.sinPort = b.sinPort := Std.LawfulEqCmp.eq_of_compare hport
    cases a; cases b
    simp_all

end Campagnol
