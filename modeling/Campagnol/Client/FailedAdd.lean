import Campagnol.Client.Invariants

/-!
# A failed `peers_add`

`peers_add` builds a peer, puts it in `clients_vpn_root`, in `clients_address_root` and in
`peers_list`, and undoes by hand what it has done when one of the steps fails. The last of these
exits deletes the node of the wrong tree. `peersAdd_unchanged_iff` says which calls that spoils:
those that have inserted a node in `clients_vpn_root` and get none in `clients_address_root`.
-/

namespace Campagnol
namespace Client

open SearchTree

namespace Registry
variable {config : Configuration} {env : AddEnv} {r r' : Registry} {state : ClientType} {t : Int}
  {e : SockaddrIn} {v : InAddr} {dtls : Bool} {p : Ptr} {res : Option Ptr}

/-! ## The nodes of the trees -/

/-- The nodes of both trees are of peers that have been created. -/
structure NodesCreated (r : Registry) : Prop where
  vpn : ∀ p ∈ r.clientsVpnRoot, p < r.created
  addr : ∀ p ∈ r.clientsAddressRoot, p < r.created

theorem nodesCreated_init : NodesCreated .init := ⟨nofun, nofun⟩

theorem NodesCreated.modify (h : NodesCreated r) (p : Ptr) (f : Peer → Peer) :
    NodesCreated (r.modify p f) := ⟨h.vpn, h.addr⟩

theorem NodesCreated.peersDecrRef (h : NodesCreated r) (p : Ptr) (n : ℕ) :
    NodesCreated (r.peersDecrRef p n) := by
  unfold Registry.peersDecrRef
  dsimp only
  split
  · exact ⟨fun q hq => h.vpn q (mem_of_mem_tdelete hq),
      fun q hq => h.addr q (mem_of_mem_tdelete hq)⟩
  · exact h.modify p _

theorem NodesCreated.peersRegisterEndpoint (h : NodesCreated r) (hp : p < r.created) {alloc : Bool}
    (hr : r.peersRegisterEndpoint alloc p = some r') : NodesCreated r' := by
  obtain ⟨root, hroot, rfl⟩ := Option.map_eq_some_iff.mp hr
  refine ⟨h.vpn, fun q hq => ?_⟩
  rcases mem_tsearch_subset hroot hq with rfl | hq
  · exact hp
  · exact h.addr q hq

/-- Every call of `peers_add` keeps the invariant, also one that fails. -/
theorem NodesCreated.peersAdd (h : NodesCreated r)
    (hadd : r.peersAdd config env state t e v dtls = (res, r')) : NodesCreated r' := by
  have hold : ∀ {q : Ptr} {root : SearchTree.Tree Ptr}, (∀ q ∈ root, q < r.created) →
      q = r.created ∨ q ∈ root → q < r.created + 1 := by
    rintro q root hroot (rfl | hq)
    · exact Nat.lt_succ_self _
    · exact Nat.lt_succ_of_lt (hroot q hq)
  cases addExit_of_peersAdd hadd with
  | full | noMemory | noVpnNode => exact h
  | noAddressNode vpnRoot hmax henv hvpn hport haddr =>
    refine ⟨fun q hq => hold h.vpn (mem_tsearch_subset hvpn hq), fun q hq => ?_⟩
    exact hold h.addr (.inr (mem_of_mem_tdelete hq))
  | added vpnRoot addressRoot hmax hvpn haddr =>
    refine ⟨fun q hq => hold h.vpn (mem_tsearch_subset hvpn hq), fun q hq => ?_⟩
    split at haddr
    · exact hold h.addr (mem_tsearch_subset haddr hq)
    · cases haddr
      exact hold h.addr (.inr hq)

/-- What the threads do with the registry: the functions of `peer.c`, and changes of the fields of
a peer. -/
inductive Op where
  | add (env : AddEnv) (state : ClientType) (t : Int) (e : SockaddrIn) (v : InAddr) (dtls : Bool)
  | decrRef (p : Ptr) (n : ℕ)
  | registerEndpoint (p : Ptr) (tsearchAddress : Bool)
  | change (p : Ptr) (f : Peer → Peer)

/-- The registry after an operation. -/
def step (config : Configuration) (r : Registry) : Op → Option Registry
  | .add env state t e v dtls => some (r.peersAdd config env state t e v dtls).2
  | .decrRef p n => some (r.peersDecrRef p n)
  | .registerEndpoint p tsearchAddress =>
    if p < r.created then r.peersRegisterEndpoint tsearchAddress p else none
  | .change p f => some (r.modify p f)

/-- In every registry that can be reached, the nodes are of peers that have been created. -/
theorem nodesCreated_of_steps (h : Steps (step config) (fun _ _ => True) .init r) :
    NodesCreated r := by
  refine h.invariant nodesCreated_init ?_
  intro r op r' hr _ hstep
  cases op with
  | add env state t e v dtls =>
    cases hstep
    exact hr.peersAdd rfl
  | decrRef p n =>
    cases hstep
    exact hr.peersDecrRef p n
  | registerEndpoint p alloc =>
    simp only [step] at hstep
    split at hstep
    · rename_i hp
      exact hr.peersRegisterEndpoint hp hstep
    · cases hstep
  | change p f =>
    cases hstep
    exact hr.modify p f

/-! ## What a failed call leaves -/

/-- The list, the counter and the trees are as they were, and no node is of the peer `p`, which
has been freed. -/
structure Unchanged (r r' : Registry) (p : Ptr) : Prop where
  peersList : r'.peersList = r.peersList
  peersNClients : r'.peersNClients = r.peersNClients
  clientsVpnRoot : r'.clientsVpnRoot = r.clientsVpnRoot
  clientsAddressRoot : r'.clientsAddressRoot = r.clientsAddressRoot
  vpn_freed : p ∉ r'.clientsVpnRoot
  addr_freed : p ∉ r'.clientsAddressRoot

theorem NodesCreated.unchanged (h : NodesCreated r) : Unchanged r r r.created :=
  ⟨rfl, rfl, rfl, rfl, fun hp => Nat.lt_irrefl _ (h.vpn _ hp),
    fun hp => Nat.lt_irrefl _ (h.addr _ hp)⟩

/-- The call gets a new node in `clients_vpn_root`, needs one in `clients_address_root` and gets
none. -/
structure LosesNode (config : Configuration) (env : AddEnv) (r : Registry) (e : SockaddrIn)
    (v : InAddr) : Prop where
  room : r.peersNClients < config.maxClients
  memory : env.malloc = true ∧ env.createClientSSL = true
  newVpnIP : r.findByVPN v = none
  vpnNode : env.tsearchVpn = true
  port : e.sinPort ≠ 0
  newEndpoint : r.findByEndpoint e = none
  addressNode : env.tsearchAddress = false

/-- The new peer is in no tree, so the lookups of the call are those of the registry. -/
theorem NodesCreated.tfind_vpn (h : NodesCreated r) :
    tfind compareClientsVpn (vpnKey (r.withPeer env state t e v dtls))
      (vpnKey (r.withPeer env state t e v dtls) r.created) r.clientsVpnRoot = r.findByVPN v := by
  have hkey : vpnKey (r.withPeer env state t e v dtls) r.created = v := by simp [vpnKey, withPeer]
  rw [hkey]
  refine tfind_congr v fun q hq => ?_
  rw [vpnKey, withPeer, Function.update_of_ne (Nat.ne_of_lt (h.vpn q hq))]
  rfl

theorem NodesCreated.tfind_addr (h : NodesCreated r) :
    tfind compareClientsAddr (addrKey (r.withPeer env state t e v dtls))
      (addrKey (r.withPeer env state t e v dtls) r.created) r.clientsAddressRoot =
        r.findByEndpoint e := by
  have hkey : addrKey (r.withPeer env state t e v dtls) r.created = e := by
    simp [addrKey, withPeer]
  rw [hkey]
  refine tfind_congr e fun q hq => ?_
  rw [addrKey, withPeer, Function.update_of_ne (Nat.ne_of_lt (h.addr q hq))]
  rfl

/-- A call that loses its node fails and leaves the freed peer in `clients_vpn_root`. -/
theorem LosesNode.mem_vpnRoot (hl : LosesNode config env r e v) (h : NodesCreated r)
    (hadd : r.peersAdd config env state t e v dtls = (res, r')) :
    res = none ∧ r.created ∈ r'.clientsVpnRoot := by
  cases addExit_of_peersAdd hadd with
  | full hmax =>
    have hroom := hl.room
    omega
  | noMemory henv => exact absurd hl.memory henv
  | noVpnNode hvpn =>
    have halloc := (tsearch_eq_none_iff.mp hvpn).2
    rw [hl.vpnNode] at halloc
    cases halloc
  | noAddressNode vpnRoot hmax henv hvpn hport haddr =>
    refine ⟨rfl, (mem_tsearch_of_none ?_ hvpn _).mpr (.inl rfl)⟩
    exact h.tfind_vpn.trans hl.newVpnIP
  | added vpnRoot addressRoot hmax hvpn haddr =>
    rw [if_pos hl.port,
      tsearch_eq_none_iff.mpr ⟨h.tfind_addr.trans hl.newEndpoint, hl.addressNode⟩] at haddr
    cases haddr

/-- A call of `peers_add` that fails has changed nothing, whichever of its steps has failed, if and
only if it does not lose its node. -/
theorem peersAdd_unchanged_iff (config : Configuration) (env : AddEnv) (r : Registry)
    (state : ClientType) (t : Int) (e : SockaddrIn) (v : InAddr) (dtls : Bool)
    (h : NodesCreated r) :
    (∀ r', r.peersAdd config env state t e v dtls = (none, r') → Unchanged r r' r.created) ↔
      ¬ LosesNode config env r e v := by
  constructor
  · intro hkeep hl
    obtain ⟨res, r', hadd⟩ : ∃ res r', r.peersAdd config env state t e v dtls = (res, r') :=
      ⟨_, _, rfl⟩
    obtain ⟨rfl, hmem⟩ := hl.mem_vpnRoot h hadd
    exact (hkeep r' hadd).vpn_freed hmem
  · intro hl r' hadd
    cases addExit_of_peersAdd hadd with
    | full | noMemory | noVpnNode => exact h.unchanged
    | noAddressNode vpnRoot hmax henv hvpn hport haddr =>
      obtain ⟨haddr, halloc⟩ := tsearch_eq_none_iff.mp haddr
      -- `tdelete` finds nothing, and the first `tsearch` had found a node of the same VPN IP
      have hdelete := tdelete_of_tfind_none haddr
      have hroot : vpnRoot = r.clientsVpnRoot := by
        rcases tsearch_cases hvpn with ⟨_, _, hroot⟩ | ⟨hnone, hroot⟩
        · exact hroot
        · refine absurd ⟨hmax, henv, h.tfind_vpn.symm.trans hnone, ?_, hport,
            h.tfind_addr.symm.trans haddr, halloc⟩ hl
          by_contra halloc
          rw [Bool.not_eq_true] at halloc
          rw [tsearch_eq_none_iff.mpr ⟨hnone, halloc⟩] at hvpn
          cases hvpn
      have hkey : addrKey (r.withPeer env state t e v dtls) r.created = e := by
        simp [addrKey, withPeer]
      rw [hkey] at hdelete
      rw [hroot, hdelete]
      exact ⟨rfl, rfl, rfl, rfl, h.unchanged.vpn_freed, h.unchanged.addr_freed⟩

/-- All allocations succeed, except perhaps that of the node in `clients_address_root`. -/
def addEnv (tsearchAddress : Bool) : AddEnv := { allocOk with tsearchAddress := tsearchAddress }

/-- The client knows the VPN IP 101 at the endpoint 10. -/
def registry101 : Registry :=
  (Registry.init.peersAdd client100 (addEnv true) .punching 0 ⟨10, 7⟩ 101 false).2

theorem nodesCreated_registry101 : NodesCreated registry101 := by
  have hstep : Registry.init.step client100
      (.add (addEnv true) .punching 0 ⟨10, 7⟩ 101 false) = some registry101 := rfl
  exact nodesCreated_of_steps (.tail .refl trivial hstep)

/-- A second call for the VPN IP 101 gets no node in `clients_vpn_root`, so it has none to lose. -/
theorem peersAdd_unchanged_iff_known_vpnIP :
    ∃ r', registry101.peersAdd client100 (addEnv false) .punching 5 ⟨20, 7⟩ 101 false =
      (none, r') ∧ Unchanged registry101 r' 1 := by
  have hkeep := (peersAdd_unchanged_iff client100 (addEnv false) registry101 .punching 5
    ⟨20, 7⟩ 101 false nodesCreated_registry101).mpr fun hl => absurd hl.newVpnIP (by decide)
  exact ⟨_, rfl, hkeep _ rfl⟩

/-- `peers_add_caller` for the VPN IP 101 at the endpoint 10 fails, and a lookup of 101 finds the
freed peer. -/
theorem peersAdd_leaves_freed_peer :
    ∃ r', Registry.init.peersAdd client100 (addEnv false) .punching 0 ⟨10, 7⟩ 101 false =
      (none, r') ∧ r'.findByVPN 101 = some 0 ∧ ¬ Unchanged .init r' 0 := by
  refine ⟨_, rfl, by decide, fun hkeep => hkeep.vpn_freed (by decide)⟩

end Registry
end Client
end Campagnol
