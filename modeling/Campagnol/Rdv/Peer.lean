import Campagnol.Lib.Heap
import Campagnol.Lib.LinkedList
import Campagnol.Wire

/-!
# The client registry of the RDV server

`rdvserver/peer.c`: the list of known clients, the two search trees over it and the
counter `n_clients`.

The strings kept for log messages and the socket descriptor of a client are left out.
-/

namespace Campagnol
namespace Rdv

open SearchTree

/-- `PEER_TIMEOUT`, in seconds. -/
def peerTimeout : Int := 5

/-- `struct configuration`: what the registry reads of it. `parse_args` refuses a negative
number of clients; 0 means no limit. -/
structure Configuration where
  maxClients : Int
  maxClients_nonneg : 0 ≤ maxClients

/-- `struct client`. -/
structure Client where
  time : Int
  clientaddr : SockaddrIn
  localaddr : SockaddrIn
  vpnIP : InAddr
deriving Repr, DecidableEq, Inhabited

/-- The variables of `peer.c`: the allocated clients, the list `clients` with its length
`n_clients`, and the trees `clients_address_root` and `clients_vpn_root`. -/
structure Registry where
  client : Heap Client
  clients : Links Ptr
  nClients : Int
  clientsAddressRoot : SearchTree.Tree Ptr
  clientsVpnRoot : SearchTree.Tree Ptr

/-- No client is known. -/
def Registry.init : Registry where
  client := .empty
  clients := .empty
  nClients := 0
  clientsAddressRoot := .leaf
  clientsVpnRoot := .leaf

/-- Outcomes of the allocations of one call of `add_client`. -/
structure ClientAlloc where
  malloc : Malloc
  tsearchAddress : Bool
  tsearchVpn : Bool

/-- `*peer`. -/
def clientOf (h : Heap Client) (peer : Ptr) : Client := (h.get peer).getD default

/-- What `compare_clients_addr` reads of an item. -/
def addrKey (h : Heap Client) (peer : Ptr) : SockaddrIn := (clientOf h peer).clientaddr

/-- What `compare_clients_vpn` reads of an item. -/
def vpnKey (h : Heap Client) (peer : Ptr) : InAddr := (clientOf h peer).vpnIP

namespace Registry

/-- `*peer`. -/
def clientAt (r : Registry) (peer : Ptr) : Client := clientOf r.client peer

/-- `peer->clientaddr`. -/
def addrOf (r : Registry) (peer : Ptr) : SockaddrIn := addrKey r.client peer

/-- `peer->vpnIP`. -/
def vpnOf (r : Registry) (peer : Ptr) : InAddr := vpnKey r.client peer

/-- `client_is_timeout`, at the clock value `now`. -/
def clientIsTimeout (now : Int) (r : Registry) (peer : Ptr) : Bool :=
  now - (r.clientAt peer).time > peerTimeout

/-- `client_is_dead`, at the clock value `now`. -/
def clientIsDead (now : Int) (r : Registry) (peer : Ptr) : Bool :=
  now - (r.clientAt peer).time > 2 * peerTimeout

/-- `client_update_time`, at the clock value `now`. -/
def clientUpdateTime (now : Int) (r : Registry) (peer : Ptr) : Registry :=
  { r with client := r.client.modify peer fun c => { c with time := now } }

/-- `get_client_VPN`. -/
def getClientVPN (r : Registry) (address : InAddr) : Option Ptr :=
  tfind compareClientsVpn (vpnKey r.client) address r.clientsVpnRoot

/-- `get_client_real`. -/
def getClientReal (r : Registry) (clAddress : SockaddrIn) : Option Ptr :=
  tfind compareClientsAddr (addrKey r.client) clAddress r.clientsAddressRoot

/-- `add_client`. The two trees are updated one after the other, and the second failure
takes back the first update. -/
def addClient (config : Configuration) (env : ClientAlloc) (r : Registry) (t : Int)
    (clientaddr : SockaddrIn) (vpnIP : InAddr) (localaddr : SockaddrIn) :
    Option Ptr × Registry :=
  if config.maxClients ≠ 0 ∧ r.nClients ≥ config.maxClients then (none, r)
  else
    match env.malloc.malloc r.client.inUse with
    | none => (none, r)
    | some peer =>
      let client := r.client.alloc peer ⟨t, clientaddr, localaddr, vpnIP⟩
      match tsearch compareClientsAddr (addrKey client) env.tsearchAddress peer
          r.clientsAddressRoot with
      | none => (none, { r with client := client.free peer })
      | some addressRoot =>
        match tsearch compareClientsVpn (vpnKey client) env.tsearchVpn peer
            r.clientsVpnRoot with
        | none =>
          (none, { r with
            clientsAddressRoot :=
              tdelete compareClientsAddr (addrKey client) (addrKey client peer) addressRoot
            client := client.free peer })
        | some vpnRoot =>
          (some peer, { r with
            client := client
            clientsAddressRoot := addressRoot
            clientsVpnRoot := vpnRoot
            clients := r.clients.pushFront peer
            nClients := r.nClients + 1 })

/-- `remove_client`. The nodes are deleted from the trees by key. -/
def removeClient (r : Registry) (peer : Ptr) : Registry :=
  { r with
    clients := r.clients.unlink peer
    clientsAddressRoot :=
      tdelete compareClientsAddr (addrKey r.client) (r.addrOf peer) r.clientsAddressRoot
    clientsVpnRoot :=
      tdelete compareClientsVpn (vpnKey r.client) (r.vpnOf peer) r.clientsVpnRoot
    client := r.client.free peer
    nClients := r.nClients - 1 }

end Registry
end Rdv
end Campagnol
