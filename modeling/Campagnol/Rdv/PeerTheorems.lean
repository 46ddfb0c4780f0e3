import Campagnol.Rdv.Peer

/-!
# The client registry stays consistent

`Registry.Inv` ties the list, the counter and the two trees of `peer.c` together.
`addClient_cases` and `Inv.removeClient` say what the two updates do to a consistent
registry; nothing else unfolds them.

The VPN tree is only required to be *contained* in the list: two listed clients may
carry the same VPN IP, and then at most one of them is in that tree.
-/

namespace Campagnol
namespace Rdv
namespace Registry

open SearchTree

/-- The registry holds exactly the clients `cl`, in this order. -/
structure Inv (config : Configuration) (r : Registry) (cl : List Ptr) : Prop where
  clients_list : r.clients.IsList cl
  heap_iff : ∀ p, r.client.inUse p = true ↔ p ∈ cl
  heap_size : r.client.size = cl.length
  n_clients : r.nClients = cl.length
  max_clients : config.maxClients ≠ 0 → r.nClients ≤ config.maxClients
  addr_ordered : Ordered compareClientsAddr (addrKey r.client) r.clientsAddressRoot
  addr_mem : ∀ p, p ∈ r.clientsAddressRoot ↔ p ∈ cl
  vpn_ordered : Ordered compareClientsVpn (vpnKey r.client) r.clientsVpnRoot
  vpn_mem : ∀ p ∈ r.clientsVpnRoot, p ∈ cl

theorem inv_init (config : Configuration) : Inv config .init [] where
  clients_list := Links.isList_empty
  heap_iff := by simp [init, Heap.inUse]
  heap_size := rfl
  n_clients := rfl
  max_clients := fun _ => config.maxClients_nonneg
  addr_ordered := trivial
  addr_mem := by simp [init]
  vpn_ordered := trivial
  vpn_mem := by simp [init]

variable {config : Configuration} {r : Registry} {cl : List Ptr}

/-! ## Lookups -/

theorem Inv.getClientReal_eq_some (h : Inv config r cl) {e : SockaddrIn} {p : Ptr} :
    r.getClientReal e = some p ↔ p ∈ cl ∧ r.addrOf p = e := by
  rw [getClientReal, tfind_eq_some_iff h.addr_ordered, h.addr_mem, addrOf]

theorem Inv.getClientReal_eq_none (h : Inv config r cl) {e : SockaddrIn} :
    r.getClientReal e = none ↔ ∀ p ∈ cl, r.addrOf p ≠ e := by
  simp only [getClientReal, tfind_eq_none_iff h.addr_ordered, h.addr_mem, addrOf]

theorem Inv.addrOf_inj (h : Inv config r cl) {p q : Ptr} (hp : p ∈ cl) (hq : q ∈ cl)
    (he : r.addrOf p = r.addrOf q) : p = q :=
  h.addr_ordered.key_inj ((h.addr_mem p).mpr hp) ((h.addr_mem q).mpr hq) he

theorem Inv.getClientVPN_mem (h : Inv config r cl) {v : InAddr} {p : Ptr}
    (hp : r.getClientVPN v = some p) : p ∈ cl ∧ r.vpnOf p = v := by
  obtain ⟨hm, hv⟩ := mem_of_tfind hp
  exact ⟨h.vpn_mem p hm, hv⟩

theorem Inv.get_of_mem (h : Inv config r cl) {p : Ptr} (hp : p ∈ cl) :
    r.client.get p = some (r.clientAt p) := by
  have hin := (h.heap_iff p).mpr hp
  rw [Heap.inUse, Option.isSome_iff_exists] at hin
  obtain ⟨c, hc⟩ := hin
  rw [clientAt, clientOf, hc]
  rfl

/-! ## Updates of the memory -/

theorem clientAt_congr {r r' : Registry} {p : Ptr} (h : r'.client.get p = r.client.get p) :
    r'.clientAt p = r.clientAt p := by
  rw [clientAt, clientAt, clientOf, clientOf, h]

theorem clientUpdateTime_clientAt_of_ne (now : Int) {p q : Ptr} (hq : q ≠ p) :
    (r.clientUpdateTime now p).clientAt q = r.clientAt q :=
  clientAt_congr (Heap.modify_get_of_ne _ _ hq)

theorem Inv.clientUpdateTime_clientAt_self (h : Inv config r cl) (now : Int) {p : Ptr}
    (hp : p ∈ cl) :
    (r.clientUpdateTime now p).clientAt p = { r.clientAt p with time := now } := by
  have hget := h.get_of_mem hp
  simp only [clientAt, clientOf, Registry.clientUpdateTime, Heap.modify_get_self] at hget ⊢
  rw [hget]
  rfl

/-- The two keys do not depend on the time stamp. -/
theorem clientUpdateTime_keys (now : Int) (p q : Ptr) :
    (r.clientUpdateTime now p).addrOf q = r.addrOf q ∧
      (r.clientUpdateTime now p).vpnOf q = r.vpnOf q := by
  by_cases hq : q = p
  · subst hq
    simp only [addrOf, vpnOf, addrKey, vpnKey, clientOf, clientUpdateTime, Heap.modify_get_self]
    cases r.client.get q <;> exact ⟨rfl, rfl⟩
  · have hq := clientUpdateTime_clientAt_of_ne (r := r) now hq
    exact ⟨congrArg Client.clientaddr hq, congrArg Client.vpnIP hq⟩

theorem Inv.clientUpdateTime (h : Inv config r cl) (now : Int) (p : Ptr) :
    Inv config (r.clientUpdateTime now p) cl where
  clients_list := h.clients_list
  heap_iff := fun q => by
    simp only [Registry.clientUpdateTime, Heap.modify_inUse]
    exact h.heap_iff q
  heap_size := h.heap_size
  n_clients := h.n_clients
  max_clients := h.max_clients
  addr_ordered := h.addr_ordered.congr fun q _ => (clientUpdateTime_keys now p q).1
  addr_mem := h.addr_mem
  vpn_ordered := h.vpn_ordered.congr fun q _ => (clientUpdateTime_keys now p q).2
  vpn_mem := h.vpn_mem

/-! ## `remove_client` -/

theorem removeClient_clientAt_of_ne {p q : Ptr} (hq : q ≠ p) :
    (r.removeClient p).clientAt q = r.clientAt q :=
  clientAt_congr (Heap.free_get_of_ne _ hq)

theorem Inv.mem_erase (h : Inv config r cl) {p q : Ptr} : q ∈ cl.erase p ↔ q ≠ p ∧ q ∈ cl :=
  h.clients_list.nodup.mem_erase_iff

/-- Which clients stay in the VPN tree: the node deleted is the one with the VPN IP of
the removed client, whoever it belongs to. -/
theorem Inv.mem_vpnRoot_removeClient (h : Inv config r cl) {p q : Ptr} :
    q ∈ (r.removeClient p).clientsVpnRoot ↔ q ∈ r.clientsVpnRoot ∧ r.vpnOf q ≠ r.vpnOf p :=
  mem_tdelete h.vpn_ordered q

/-- Removing a listed client leaves a consistent registry of the others. -/
theorem Inv.removeClient (h : Inv config r cl) {p : Ptr} (hp : p ∈ cl) :
    Inv config (r.removeClient p) (cl.erase p) := by
  have hlen : (cl.erase p).length + 1 = cl.length := by
    have := List.length_erase_of_mem hp
    have := List.length_pos_of_mem hp
    omega
  -- neither tree keeps a node of `p`, so the keys of its items are still in memory
  have haddr : ∀ q, q ∈ (r.removeClient p).clientsAddressRoot ↔ q ∈ cl.erase p := by
    intro q
    have hm : q ∈ (r.removeClient p).clientsAddressRoot ↔
        q ∈ r.clientsAddressRoot ∧ r.addrOf q ≠ r.addrOf p := mem_tdelete h.addr_ordered q
    rw [hm, h.addr_mem, h.mem_erase]
    constructor
    · rintro ⟨hq, hne⟩
      exact ⟨fun e => hne (by rw [e]), hq⟩
    · rintro ⟨hne, hq⟩
      exact ⟨hq, fun e => hne (h.addrOf_inj hq hp e)⟩
  have hvpn : ∀ q ∈ (r.removeClient p).clientsVpnRoot, q ∈ cl.erase p := by
    intro q hq
    obtain ⟨hq, hne⟩ := h.mem_vpnRoot_removeClient.mp hq
    exact h.mem_erase.mpr ⟨fun e => hne (by rw [e]), h.vpn_mem q hq⟩
  have hkey : ∀ q ∈ cl.erase p, (r.removeClient p).clientAt q = r.clientAt q := fun q hq =>
    removeClient_clientAt_of_ne (h.mem_erase.mp hq).1
  refine ⟨h.clients_list.unlink hp, ?_, ?_, ?_, ?_, ?_, haddr, ?_, hvpn⟩
  · intro q
    rw [h.mem_erase, ← h.heap_iff]
    exact Heap.inUse_free
  · simp only [Registry.removeClient, Heap.free_size, h.heap_size]
    omega
  · simp only [Registry.removeClient, h.n_clients]
    omega
  · intro hmax
    have := h.max_clients hmax
    simp only [Registry.removeClient]
    omega
  · refine (ordered_tdelete _ h.addr_ordered).congr fun q hq => ?_
    exact congrArg Client.clientaddr (hkey q ((haddr q).mp hq))
  · refine (ordered_tdelete _ h.vpn_ordered).congr fun q hq => ?_
    exact congrArg Client.vpnIP (hkey q (hvpn q hq))

/-! ## `add_client` -/

/-- What a successful `add_client` leaves behind: `peer` is new, in front of the list,
with the given data; the other clients are as they were. In the VPN tree it is found
unless another client with the same VPN IP is there already. -/
structure Added (config : Configuration) (r : Registry) (cl : List Ptr) (c : Client) (peer : Ptr)
    (r' : Registry) : Prop where
  fresh : peer ∉ cl
  inv : Inv config r' (peer :: cl)
  get_self : r'.clientAt peer = c
  get_other : ∀ q ∈ cl, r'.clientAt q = r.clientAt q
  vpn_other : ∀ q ∈ r.clientsVpnRoot, q ∈ r'.clientsVpnRoot
  vpn_self : r.getClientVPN c.vpnIP = none → peer ∈ r'.clientsVpnRoot

section Alloc
variable {peer : Ptr} {c : Client}

theorem clientOf_alloc_self (h : Heap Client) : clientOf (h.alloc peer c) peer = c := by
  simp [clientOf]

/-- Writing the new client changes no other one, for its address is not in use. -/
theorem clientOf_alloc (hfresh : peer ∉ cl) :
    ∀ q ∈ cl, clientOf (r.client.alloc peer c) q = r.clientAt q := by
  intro q hq
  rw [clientAt, clientOf, clientOf, Heap.alloc_get_of_ne]
  exact fun e => hfresh (e ▸ hq)

theorem Inv.addrKey_alloc (h : Inv config r cl) (hfresh : peer ∉ cl) :
    ∀ q ∈ r.clientsAddressRoot, addrKey (r.client.alloc peer c) q = addrKey r.client q :=
  fun q hq => congrArg Client.clientaddr (clientOf_alloc hfresh q ((h.addr_mem q).mp hq))

theorem Inv.vpnKey_alloc (h : Inv config r cl) (hfresh : peer ∉ cl) :
    ∀ q ∈ r.clientsVpnRoot, vpnKey (r.client.alloc peer c) q = vpnKey r.client q :=
  fun q hq => congrArg Client.vpnIP (clientOf_alloc hfresh q (h.vpn_mem q hq))

theorem Inv.tfind_addr_alloc (h : Inv config r cl) (hfresh : peer ∉ cl)
    (hnew : r.getClientReal c.clientaddr = none) :
    tfind compareClientsAddr (addrKey (r.client.alloc peer c))
      (addrKey (r.client.alloc peer c) peer) r.clientsAddressRoot = none := by
  rw [tfind_congr _ (h.addrKey_alloc hfresh), addrKey, clientOf_alloc_self]
  exact hnew

theorem Inv.tfind_vpn_alloc (h : Inv config r cl) (hfresh : peer ∉ cl)
    (hnew : r.getClientVPN c.vpnIP = none) :
    tfind compareClientsVpn (vpnKey (r.client.alloc peer c))
      (vpnKey (r.client.alloc peer c) peer) r.clientsVpnRoot = none := by
  rw [tfind_congr _ (h.vpnKey_alloc hfresh), vpnKey, clientOf_alloc_self]
  exact hnew

/-- The registry with a new client in front of the list and in both trees. -/
theorem Inv.push (h : Inv config r cl) {tsearchAddress tsearchVpn : Bool}
    {addressRoot vpnRoot : SearchTree.Tree Ptr} (hfresh : peer ∉ cl)
    (hmax : ¬(config.maxClients ≠ 0 ∧ r.nClients ≥ config.maxClients))
    (hnew : r.getClientReal c.clientaddr = none)
    (ha : tsearch compareClientsAddr (addrKey (r.client.alloc peer c)) tsearchAddress peer
      r.clientsAddressRoot = some addressRoot)
    (hv : tsearch compareClientsVpn (vpnKey (r.client.alloc peer c)) tsearchVpn peer
      r.clientsVpnRoot = some vpnRoot) :
    Inv config { r with
      client := r.client.alloc peer c
      clientsAddressRoot := addressRoot
      clientsVpnRoot := vpnRoot
      clients := r.clients.pushFront peer
      nClients := r.nClients + 1 } (peer :: cl) where
  clients_list := h.clients_list.pushFront hfresh
  heap_iff := fun q => by
    rw [List.mem_cons, ← h.heap_iff]
    exact Heap.inUse_alloc
  heap_size := by simp [h.heap_size]
  n_clients := by simp [h.n_clients]
  max_clients := fun hne => by
    have : ¬r.nClients ≥ config.maxClients := fun hge => hmax ⟨hne, hge⟩
    simp only
    omega
  addr_ordered := ordered_tsearch (h.addr_ordered.congr (h.addrKey_alloc hfresh)) ha
  addr_mem := fun q => by
    rw [mem_tsearch_of_none (h.tfind_addr_alloc hfresh hnew) ha q, h.addr_mem, List.mem_cons]
  vpn_ordered := ordered_tsearch (h.vpn_ordered.congr (h.vpnKey_alloc hfresh)) hv
  vpn_mem := fun q hq => by
    rcases mem_tsearch_subset hv hq with rfl | hq
    · exact List.mem_cons_self ..
    · exact List.mem_cons_of_mem _ (h.vpn_mem q hq)

end Alloc

/-- `add_client` on an endpoint that is not registered: either it fails and changes
nothing, or it adds the client. -/
theorem Inv.addClient_cases (h : Inv config r cl) (env : ClientAlloc) (t : Int)
    {clientaddr : SockaddrIn} (vpnIP : InAddr) (localaddr : SockaddrIn)
    (hnew : r.getClientReal clientaddr = none) :
    r.addClient config env t clientaddr vpnIP localaddr = (none, r) ∨
      ∃ peer r', r.addClient config env t clientaddr vpnIP localaddr = (some peer, r') ∧
        Added config r cl ⟨t, clientaddr, localaddr, vpnIP⟩ peer r' := by
  unfold addClient
  split
  · exact .inl rfl
  rename_i hmax
  cases hm : env.malloc.malloc r.client.inUse with
  | none => exact .inl rfl
  | some peer =>
    have hfresh : peer ∉ cl := Heap.notMem_of_malloc h.heap_iff hm
    simp only
    set c : Client := ⟨t, clientaddr, localaddr, vpnIP⟩
    have hback : (r.client.alloc peer c).free peer = r.client :=
      Heap.free_alloc r.client c (Heap.get_of_malloc hm)
    have hfind := h.tfind_addr_alloc (c := c) hfresh hnew
    cases ha : tsearch compareClientsAddr (addrKey (r.client.alloc peer c)) env.tsearchAddress peer
        r.clientsAddressRoot with
    | none => exact .inl (by simp only [hback])
    | some addressRoot =>
      simp only
      cases hv : tsearch compareClientsVpn (vpnKey (r.client.alloc peer c)) env.tsearchVpn peer
          r.clientsVpnRoot with
      | none =>
        -- the node just added to the first tree is deleted again
        have hins : addressRoot = insert compareClientsAddr (addrKey (r.client.alloc peer c)) peer
            r.clientsAddressRoot := by
          rcases tsearch_cases ha with ⟨y, hy, _⟩ | ⟨_, rfl⟩
          · rw [hfind] at hy; cases hy
          · rfl
        exact .inl (by simp only [hins, tdelete_insert hfind, hback])
      | some vpnRoot =>
        refine .inr ⟨peer, _, rfl, hfresh, h.push hfresh hmax hnew ha hv,
          clientOf_alloc_self r.client, clientOf_alloc hfresh, fun q hq => ?_, fun hno => ?_⟩
        · exact subset_mem_tsearch hv hq
        · exact (mem_tsearch_of_none (h.tfind_vpn_alloc hfresh hno) hv peer).mpr (.inl rfl)

end Registry
end Rdv
end Campagnol
