import Campagnol.Lib.Heap
import Campagnol.Lib.LinkedList
import Campagnol.Wire

/-!
# The peers of a client

The known peers of a VPN client and their reference counters (`client/peer.c`). A peer is
named by the number of its creation, and the contents of its structure stay readable after
`free`, so a use after free shows as a use of a removed peer.
-/

namespace Campagnol
namespace Client

open SearchTree

/-! ## Data -/

/-- The options of the client that these functions read. `parseConfFile` refuses a
`max_clients` below 1. -/
structure Configuration where
  maxClients : Int
  maxClients_pos : 1 ≤ maxClients
  vpnIP : InAddr
  vpnBroadcastIP : InAddr
  serverAddr : SockaddrIn
  keepalive : Int
  timeout : Int

/-- `enum client_type`. -/
inductive ClientType where
  | new | punching | linked | established | closed
deriving Repr, DecidableEq, Inhabited

/-- `struct client`, less the descriptors, the OpenSSL objects and the links of the list.
`mutex` says whether the mutex of the peer is locked. -/
structure Peer where
  time : Int
  lastKeepalive : Int
  clientaddr : SockaddrIn
  vpnIP : InAddr
  state : ClientType
  isDtlsClient : Bool
  rdvAnswer : MsgType
  mutex : Bool
  refCount : Int
deriving Repr, DecidableEq, Inhabited

/-- The variables of `peer.c`, the number of peers created so far, and for every peer how
often `peers_remove` has been run on it. -/
structure Registry where
  peer : Ptr → Peer
  created : ℕ
  removals : Ptr → ℕ
  peersList : Links Ptr
  peersNClients : Int
  clientsVpnRoot : SearchTree.Tree Ptr
  clientsAddressRoot : SearchTree.Tree Ptr

/-- No peer is known. -/
def Registry.init : Registry where
  peer := fun _ => default
  created := 0
  removals := fun _ => 0
  peersList := .empty
  peersNClients := 0
  clientsVpnRoot := .leaf
  clientsAddressRoot := .leaf

/-- Which allocations of one call of `peers_add` succeed, and what the field `rdv_answer`,
which is not initialised, holds. -/
structure AddEnv where
  malloc : Bool
  createClientSSL : Bool
  tsearchVpn : Bool
  tsearchAddress : Bool
  rdvAnswer : MsgType
deriving Repr, DecidableEq

/-! ## Comparison routines -/

/-- The byte with the weight `w` of an address. The machine is little-endian: the weights go
up with the offsets. -/
def addrByte (w : ℕ) (a : InAddr) : ℕ := a.toNat / w % 256

/-- `compare_clients_vpn`: `memcmp` of the two addresses. -/
def compareClientsVpn : InAddr → InAddr → Ordering :=
  compareLex (compareOn (addrByte 1)) (compareLex (compareOn (addrByte 0x100))
    (compareLex (compareOn (addrByte 0x10000)) (compareOn (addrByte 0x1000000))))

instance : Std.TransCmp compareClientsVpn := by
  unfold compareClientsVpn
  infer_instance

instance : Std.LawfulEqCmp compareClientsVpn where
  eq_of_compare {a b} h := by
    simp only [compareClientsVpn, compareLex_eq_eq, compareOn, Nat.compare_eq_eq, addrByte] at h
    have ha := a.toNat_lt
    have hb := b.toNat_lt
    exact UInt32.toNat_inj.mp (by omega)

/-- What `compare_clients_vpn` reads of an item. -/
def vpnKey (peer : Ptr → Peer) (p : Ptr) : InAddr := (peer p).vpnIP

/-- What `compare_clients_addr` reads of an item. -/
def addrKey (peer : Ptr → Peer) (p : Ptr) : SockaddrIn := (peer p).clientaddr

namespace Registry

/-! ## Operations -/

/-- Change the structure of the peer `p`. -/
def modify (r : Registry) (p : Ptr) (f : Peer → Peer) : Registry :=
  { r with peer := Function.update r.peer p (f (r.peer p)) }

/-- `peers_incr_ref`. -/
def peersIncrRef (r : Registry) (p : Ptr) : Registry :=
  r.modify p fun x => { x with refCount := x.refCount + 1 }

/-- `peers_remove`. The nodes are deleted from the trees by key. -/
def peersRemove (r : Registry) (p : Ptr) : Registry :=
  { r with
    peersList := r.peersList.unlink p
    clientsVpnRoot :=
      tdelete compareClientsVpn (vpnKey r.peer) (r.peer p).vpnIP r.clientsVpnRoot
    clientsAddressRoot :=
      tdelete compareClientsAddr (addrKey r.peer) (r.peer p).clientaddr r.clientsAddressRoot
    removals := Function.update r.removals p (r.removals p + 1)
    peersNClients := r.peersNClients - 1 }

/-- `peers_decr_ref`. -/
def peersDecrRef (r : Registry) (p : Ptr) (n : ℕ) : Registry :=
  let r := r.modify p fun x => { x with refCount := x.refCount - n }
  if (r.peer p).refCount = 0 then r.peersRemove p else r

/-- `peers_add`. Without a port the endpoint is not known yet and only the tree of the VPN
addresses gets a node. When the node in `clients_address_root` cannot be allocated, the
peer is freed but stays in `clients_vpn_root`. -/
def peersAdd (config : Configuration) (env : AddEnv) (r : Registry) (state : ClientType) (t : Int)
    (clientaddr : SockaddrIn) (vpnIP : InAddr) (isDtlsClient : Bool) : Option Ptr × Registry :=
  if r.peersNClients ≥ config.maxClients then (none, r)
  else if ¬ env.malloc ∨ ¬ env.createClientSSL then (none, r)
  else
    let p := r.created
    let peer := Function.update r.peer p
      ⟨t, t, clientaddr, vpnIP, state, isDtlsClient, env.rdvAnswer, false, 2⟩
    match tsearch compareClientsVpn (vpnKey peer) env.tsearchVpn p r.clientsVpnRoot with
    | none => (none, r)
    | some vpnRoot =>
      let addressRoot :=
        if clientaddr.sinPort ≠ 0 then
          tsearch compareClientsAddr (addrKey peer) env.tsearchAddress p r.clientsAddressRoot
        else some r.clientsAddressRoot
      match addressRoot with
      | none =>
        (none, { r with
          peer := peer
          created := p + 1
          clientsVpnRoot := vpnRoot
          clientsAddressRoot :=
            tdelete compareClientsAddr (addrKey peer) clientaddr r.clientsAddressRoot })
      | some addressRoot =>
        (some p, { r with
          peer := peer
          created := p + 1
          clientsVpnRoot := vpnRoot
          clientsAddressRoot := addressRoot
          peersList := r.peersList.pushFront p
          peersNClients := r.peersNClients + 1 })

/-- `peers_add_requested`: we are the DTLS client. -/
def peersAddRequested (config : Configuration) (env : AddEnv) (r : Registry) (state : ClientType)
    (t : Int) (vpnIP : InAddr) : Option Ptr × Registry :=
  r.peersAdd config env state t ⟨0, 0⟩ vpnIP true

/-- `peers_add_caller`: we are the DTLS server. -/
def peersAddCaller (config : Configuration) (env : AddEnv) (r : Registry) (state : ClientType)
    (t : Int) (clientaddr : SockaddrIn) (vpnIP : InAddr) : Option Ptr × Registry :=
  r.peersAdd config env state t clientaddr vpnIP false

/-- `peers_register_endpoint`: `none` when it fails. -/
def peersRegisterEndpoint (r : Registry) (tsearchAddress : Bool) (p : Ptr) : Option Registry :=
  (tsearch compareClientsAddr (addrKey r.peer) tsearchAddress p r.clientsAddressRoot).map
    fun addressRoot => { r with clientsAddressRoot := addressRoot }

/-- The `tfind` of `peers_get_by_VPN`. -/
def findByVPN (r : Registry) (address : InAddr) : Option Ptr :=
  tfind compareClientsVpn (vpnKey r.peer) address r.clientsVpnRoot

/-- The `tfind` of `peers_get_by_endpoint`. -/
def findByEndpoint (r : Registry) (clAddress : SockaddrIn) : Option Ptr :=
  tfind compareClientsAddr (addrKey r.peer) clAddress r.clientsAddressRoot

/-- What both lookups do with the peer they find: a new reference, and the lock. -/
def grab (r : Registry) (p : Ptr) : Registry :=
  (r.peersIncrRef p).modify p fun x => { x with mutex := true }

end Registry
end Client
end Campagnol
