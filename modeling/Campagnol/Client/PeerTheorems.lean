import Campagnol.Client.Peer

/-!
# Lemmas about the peers of a client

`Registry.Inv config r l` says that the peers in `peers_list` are `l`, that both trees are
ordered and hold peers of `l` only, and that the others have been removed once. Every
operation keeps it, as long as the endpoint of a peer in `clients_address_root` is not
overwritten.

`AddExit` lists the exits of `peers_add`. Only `addExit_of_peersAdd` goes through its branches.
-/

namespace Campagnol
namespace Client

open SearchTree

/-- The function leaves alone what the trees and the reference counter depend on. -/
structure KeepsKeys (f : Peer → Peer) : Prop where
  vpnIP : ∀ x, (f x).vpnIP = x.vpnIP
  clientaddr : ∀ x, (f x).clientaddr = x.clientaddr

namespace Registry
variable {config : Configuration} {r r' : Registry} {l : List Ptr} {p q : Ptr} {f g : Peer → Peer}

/-! ## Memory -/

@[simp]
theorem modify_peer_self : (r.modify p f).peer p = f (r.peer p) :=
  Function.update_self ..

theorem modify_peer_of_ne (h : q ≠ p) : (r.modify p f).peer q = r.peer q :=
  Function.update_of_ne h _ _

theorem modify_modify : (r.modify p f).modify p g = r.modify p (g ∘ f) := by
  simp [modify]

theorem modify_id : r.modify p id = r := by
  simp [modify]

/-- A change that keeps a field of `p` keeps it for all peers. -/
theorem modify_field {β : Type} (field : Peer → β) (hf : field (f (r.peer p)) = field (r.peer p))
    (q : Ptr) : field ((r.modify p f).peer q) = field (r.peer q) := by
  by_cases hq : q = p
  · subst hq
    rw [modify_peer_self, hf]
  · rw [modify_peer_of_ne hq]

/-! ## The invariant -/

/-- The registry with the peers `l`. -/
structure Inv (config : Configuration) (r : Registry) (l : List Ptr) : Prop where
  list : r.peersList.IsList l
  lt_created : ∀ p ∈ l, p < r.created
  removals : ∀ p, r.removals p = if p < r.created ∧ p ∉ l then 1 else 0
  n_clients : r.peersNClients = l.length
  max_clients : r.peersNClients ≤ config.maxClients
  vpn_ordered : Ordered compareClientsVpn (vpnKey r.peer) r.clientsVpnRoot
  vpn_mem : ∀ p ∈ r.clientsVpnRoot, p ∈ l
  addr_ordered : Ordered compareClientsAddr (addrKey r.peer) r.clientsAddressRoot
  addr_mem : ∀ p ∈ r.clientsAddressRoot, p ∈ l

theorem inv_init : Inv config .init [] where
  list := Links.isList_empty
  lt_created := nofun
  removals := fun p => by simp [init]
  n_clients := rfl
  max_clients := Int.le_trans (by decide) config.maxClients_pos
  vpn_ordered := trivial
  vpn_mem := nofun
  addr_ordered := trivial
  addr_mem := nofun

/-- A lookup by VPN IP finds a listed peer. -/
theorem Inv.mem_of_findByVPN (h : Inv config r l) {v : InAddr} (hp : r.findByVPN v = some p) :
    p ∈ l ∧ (r.peer p).vpnIP = v := by
  obtain ⟨hmem, hkey⟩ := mem_of_tfind hp
  exact ⟨h.vpn_mem p hmem, hkey⟩

/-- A lookup by endpoint finds a listed peer. -/
theorem Inv.mem_of_findByEndpoint (h : Inv config r l) {e : SockaddrIn}
    (hp : r.findByEndpoint e = some p) : p ∈ l ∧ (r.peer p).clientaddr = e := by
  obtain ⟨hmem, hkey⟩ := mem_of_tfind hp
  exact ⟨h.addr_mem p hmem, hkey⟩

theorem Inv.notMem_created (h : Inv config r l) : r.created ∉ l :=
  fun hmem => Nat.lt_irrefl _ (h.lt_created _ hmem)

/-- The number of removals of a peer tells whether it is listed. -/
theorem Inv.mem_iff (h : Inv config r l) (hp : p < r.created) : p ∈ l ↔ r.removals p = 0 := by
  rw [h.removals p]
  by_cases hmem : p ∈ l <;> simp [hmem, hp]

/-! ## Changes of a peer -/

/-- The endpoint of a peer may change while the peer is not in the tree of the endpoints. -/
theorem Inv.modify (h : Inv config r l) (hvpn : ∀ x, (f x).vpnIP = x.vpnIP)
    (haddr : p ∈ r.clientsAddressRoot → (f (r.peer p)).clientaddr = (r.peer p).clientaddr) :
    Inv config (r.modify p f) l where
  list := h.list
  lt_created := h.lt_created
  removals := h.removals
  n_clients := h.n_clients
  max_clients := h.max_clients
  vpn_ordered := h.vpn_ordered.congr fun q _ => modify_field Peer.vpnIP (hvpn _) q
  vpn_mem := h.vpn_mem
  addr_ordered := h.addr_ordered.congr fun q hq => by
    by_cases hqp : q = p
    · subst hqp
      exact modify_field Peer.clientaddr (haddr hq) q
    · rw [addrKey, modify_peer_of_ne hqp]
      rfl
  addr_mem := h.addr_mem

theorem Inv.modify_keeps (h : Inv config r l) (hf : KeepsKeys f) : Inv config (r.modify p f) l :=
  h.modify hf.vpnIP fun _ => hf.clientaddr _

theorem keepsKeys_refCount (g : Int → Int) :
    KeepsKeys fun x => { x with refCount := g x.refCount } :=
  ⟨fun _ => rfl, fun _ => rfl⟩

theorem Inv.peersIncrRef (h : Inv config r l) : Inv config (r.peersIncrRef p) l :=
  h.modify_keeps (keepsKeys_refCount (· + 1))

theorem Inv.grab (h : Inv config r l) : Inv config (r.grab p) l :=
  h.peersIncrRef.modify_keeps ⟨fun _ => rfl, fun _ => rfl⟩

/-- `peers_register_endpoint` on a listed peer. -/
theorem Inv.peersRegisterEndpoint (h : Inv config r l) (hp : p ∈ l) {alloc : Bool}
    (hr : r.peersRegisterEndpoint alloc p = some r') : Inv config r' l := by
  obtain ⟨root, hroot, rfl⟩ := Option.map_eq_some_iff.mp hr
  exact { h with
    addr_ordered := ordered_tsearch h.addr_ordered hroot
    addr_mem := fun q hq => by
      rcases mem_tsearch_subset hroot hq with rfl | hq
      · exact hp
      · exact h.addr_mem q hq }

/-! ## `peers_remove` -/

/-- Removing a listed peer leaves a consistent registry of the others. -/
theorem Inv.peersRemove (h : Inv config r l) (hp : p ∈ l) :
    Inv config (r.peersRemove p) (l.erase p) := by
  have hnodup := h.list.nodup
  have hlen : ((l.erase p).length : Int) = l.length - 1 := by
    have hpos := List.length_pos_of_mem hp
    rw [List.length_erase_of_mem hp]
    omega
  exact {
    list := h.list.unlink hp
    lt_created := fun q hq => h.lt_created q (List.mem_of_mem_erase hq)
    removals := by
      intro q
      by_cases hq : q = p
      · subst hq
        simp [Registry.peersRemove, h.removals, h.lt_created q hp, hp, hnodup.mem_erase_iff]
      · simp [Registry.peersRemove, h.removals, hq, hnodup.mem_erase_iff]
    n_clients := by
      rw [hlen, ← h.n_clients]
      rfl
    max_clients := by
      have hmax := h.max_clients
      show r.peersNClients - 1 ≤ config.maxClients
      omega
    vpn_ordered := ordered_tdelete _ h.vpn_ordered
    -- `tdelete` removes what has the key of `p`, so `p` itself is gone from both trees
    vpn_mem := by
      intro q hq
      obtain ⟨hmem, hne⟩ := (mem_tdelete h.vpn_ordered q).mp hq
      refine hnodup.mem_erase_iff.mpr ⟨?_, h.vpn_mem q hmem⟩
      rintro rfl
      exact hne rfl
    addr_ordered := ordered_tdelete _ h.addr_ordered
    addr_mem := by
      intro q hq
      obtain ⟨hmem, hne⟩ := (mem_tdelete h.addr_ordered q).mp hq
      refine hnodup.mem_erase_iff.mpr ⟨?_, h.addr_mem q hmem⟩
      rintro rfl
      exact hne rfl }

/-! ## `peers_add` -/

/-- The contents of a new peer. -/
structure Fresh (state : ClientType) (clientaddr : SockaddrIn) (vpnIP : InAddr)
    (isDtlsClient : Bool) (x : Peer) : Prop where
  state : x.state = state
  clientaddr : x.clientaddr = clientaddr
  vpnIP : x.vpnIP = vpnIP
  isDtlsClient : x.isDtlsClient = isDtlsClient
  refCount : x.refCount = 2

/-- What a successful `peers_add` has done. -/
structure Added (r r' : Registry) (p : Ptr) (state : ClientType) (clientaddr : SockaddrIn)
    (vpnIP : InAddr) (isDtlsClient : Bool) : Prop where
  ptr : p = r.created
  created : r'.created = r.created + 1
  removals : r'.removals = r.removals
  fresh : Fresh state clientaddr vpnIP isDtlsClient (r'.peer p)
  frame : ∀ q, q ≠ p → r'.peer q = r.peer q
  list : r'.peersList = r.peersList.pushFront p
  n_clients : r'.peersNClients = r.peersNClients + 1
  vpnRoot : ∃ alloc,
    tsearch compareClientsVpn (vpnKey r'.peer) alloc p r.clientsVpnRoot = some r'.clientsVpnRoot
  addressRoot : r'.clientsAddressRoot = r.clientsAddressRoot ∨ ∃ alloc,
    tsearch compareClientsAddr (addrKey r'.peer) alloc p r.clientsAddressRoot =
      some r'.clientsAddressRoot

section Add
variable {env : AddEnv} {state : ClientType} {t : Int} {e : SockaddrIn} {v : InAddr} {dtls : Bool}

/-- The other peers have been created before. -/
theorem Added.lt_created (ha : Added r r' p state e v dtls) (hq : q < r'.created) (hqp : q ≠ p) :
    q < r.created := by
  have hne : q ≠ r.created := ha.ptr ▸ hqp
  rw [ha.created, Nat.lt_succ_iff_lt_or_eq, or_iff_left hne] at hq
  exact hq

/-- The memory with the new peer of a call in it. -/
def withPeer (r : Registry) (env : AddEnv) (state : ClientType) (t : Int) (e : SockaddrIn)
    (v : InAddr) (dtls : Bool) : Ptr → Peer :=
  Function.update r.peer r.created ⟨t, t, e, v, state, dtls, env.rdvAnswer, false, 2⟩

/-- The exits of `peers_add`. A call that gets as far as the trees succeeds, or leaves at the
second `tsearch`. -/
inductive AddExit (config : Configuration) (env : AddEnv) (r : Registry) (state : ClientType)
    (t : Int) (e : SockaddrIn) (v : InAddr) (dtls : Bool) : Option Ptr → Registry → Prop where
  | full (hmax : config.maxClients ≤ r.peersNClients) :
      AddExit config env r state t e v dtls none r
  | noMemory (henv : ¬ (env.malloc = true ∧ env.createClientSSL = true)) :
      AddExit config env r state t e v dtls none r
  | noVpnNode
      (hvpn : tsearch compareClientsVpn (vpnKey (r.withPeer env state t e v dtls)) env.tsearchVpn
        r.created r.clientsVpnRoot = none) :
      AddExit config env r state t e v dtls none r
  | noAddressNode (vpnRoot : SearchTree.Tree Ptr) (hmax : r.peersNClients < config.maxClients)
      (henv : env.malloc = true ∧ env.createClientSSL = true)
      (hvpn : tsearch compareClientsVpn (vpnKey (r.withPeer env state t e v dtls)) env.tsearchVpn
        r.created r.clientsVpnRoot = some vpnRoot)
      (hport : e.sinPort ≠ 0)
      (haddr : tsearch compareClientsAddr (addrKey (r.withPeer env state t e v dtls))
        env.tsearchAddress r.created r.clientsAddressRoot = none) :
      AddExit config env r state t e v dtls none { r with
        peer := r.withPeer env state t e v dtls
        created := r.created + 1
        clientsVpnRoot := vpnRoot
        clientsAddressRoot := tdelete compareClientsAddr
          (addrKey (r.withPeer env state t e v dtls)) e r.clientsAddressRoot }
  | added (vpnRoot addressRoot : SearchTree.Tree Ptr)
      (hmax : r.peersNClients < config.maxClients)
      (hvpn : tsearch compareClientsVpn (vpnKey (r.withPeer env state t e v dtls)) env.tsearchVpn
        r.created r.clientsVpnRoot = some vpnRoot)
      (haddr : (if e.sinPort ≠ 0 then
          tsearch compareClientsAddr (addrKey (r.withPeer env state t e v dtls)) env.tsearchAddress
            r.created r.clientsAddressRoot
        else some r.clientsAddressRoot) = some addressRoot) :
      AddExit config env r state t e v dtls (some r.created) { r with
        peer := r.withPeer env state t e v dtls
        created := r.created + 1
        clientsVpnRoot := vpnRoot
        clientsAddressRoot := addressRoot
        peersList := r.peersList.pushFront r.created
        peersNClients := r.peersNClients + 1 }

theorem addExit_of_peersAdd {res : Option Ptr}
    (hadd : r.peersAdd config env state t e v dtls = (res, r')) :
    AddExit config env r state t e v dtls res r' := by
  -- one `split` for each of the tests on the way to success
  unfold Registry.peersAdd at hadd
  split at hadd
  · rename_i hmax
    cases hadd
    exact .full hmax
  · rename_i hmax
    split at hadd
    · rename_i henv
      cases hadd
      refine .noMemory fun hok => ?_
      simp [hok] at henv
    · rename_i henv
      dsimp only at hadd
      split at hadd
      · rename_i hvpn
        cases hadd
        exact .noVpnNode hvpn
      · rename_i vpnRoot hvpn
        split at hadd
        · rename_i haddr
          cases hadd
          -- without a port the second `tsearch` is not called
          split at haddr
          · rename_i hport
            refine .noAddressNode vpnRoot (by omega) ?_ hvpn hport haddr
            simpa using henv
          · cases haddr
        · rename_i addressRoot haddr
          cases hadd
          exact .added vpnRoot addressRoot (by omega) hvpn haddr

theorem fresh_withPeer : Fresh state e v dtls (r.withPeer env state t e v dtls r.created) := by
  rw [withPeer, Function.update_self]
  exact ⟨rfl, rfl, rfl, rfl, rfl⟩

theorem withPeer_of_ne (hq : q ≠ r.created) :
    r.withPeer env state t e v dtls q = r.peer q :=
  Function.update_of_ne hq _ _

theorem added_of_peersAdd (hadd : r.peersAdd config env state t e v dtls = (some p, r')) :
    Added r r' p state e v dtls ∧ r.peersNClients < config.maxClients := by
  cases addExit_of_peersAdd hadd with
  | added vpnRoot addressRoot hmax hvpn haddr =>
    refine ⟨⟨rfl, rfl, rfl, fresh_withPeer, fun q hq => withPeer_of_ne hq, rfl, rfl, ⟨_, hvpn⟩, ?_⟩,
      hmax⟩
    split at haddr
    · exact .inr ⟨_, haddr⟩
    · exact .inl (Option.some.inj haddr).symm

/-- A failed `peers_add` has done nothing, unless it needed a node in `clients_address_root`
and got none: then the freed peer is left in the other tree. -/
structure Leaked (r r' : Registry) (p : Ptr) (state : ClientType) (clientaddr : SockaddrIn)
    (vpnIP : InAddr) (isDtlsClient : Bool) : Prop where
  created : r'.created = r.created + 1
  fresh : Fresh state clientaddr vpnIP isDtlsClient (r'.peer p)
  frame : ∀ q, q ≠ p → r'.peer q = r.peer q

theorem leaked_of_peersAdd (hadd : r.peersAdd config env state t e v dtls = (none, r')) :
    r' = r ∨ (env.tsearchAddress = false ∧ e.sinPort ≠ 0 ∧
      Leaked r r' r.created state e v dtls) := by
  cases addExit_of_peersAdd hadd with
  | full | noMemory | noVpnNode => exact .inl rfl
  | noAddressNode vpnRoot hmax henv hvpn hport haddr =>
    -- the only failure that leaves a trace is that of the second `tsearch`
    exact .inr ⟨(tsearch_eq_none_iff.mp haddr).2, hport, rfl, fresh_withPeer,
      fun q hq => withPeer_of_ne hq⟩

/-- A successful `peers_add` puts the new peer in front of the list. -/
theorem Inv.added (h : Inv config r l) (ha : Added r r' p state e v dtls)
    (hmax : r.peersNClients < config.maxClients) : Inv config r' (p :: l) := by
  have hnot : p ∉ l := ha.ptr ▸ h.notMem_created
  -- the old items keep their keys, so the trees stay ordered before the new one is inserted
  have hkeep : ∀ q ∈ l, r'.peer q = r.peer q := fun q hq => ha.frame q fun hqp => hnot (hqp ▸ hq)
  have hvpn : Ordered compareClientsVpn (vpnKey r'.peer) r.clientsVpnRoot :=
    h.vpn_ordered.congr fun q hq => congrArg Peer.vpnIP (hkeep q (h.vpn_mem q hq))
  have haddr : Ordered compareClientsAddr (addrKey r'.peer) r.clientsAddressRoot :=
    h.addr_ordered.congr fun q hq => congrArg Peer.clientaddr (hkeep q (h.addr_mem q hq))
  obtain ⟨_, hvpnRoot⟩ := ha.vpnRoot
  exact {
    list := by
      rw [ha.list]
      exact h.list.pushFront hnot
    lt_created := by
      intro q hq
      rw [ha.created]
      rcases List.mem_cons.mp hq with rfl | hq
      · rw [ha.ptr]
        exact Nat.lt_succ_self _
      · exact Nat.lt_succ_of_lt (h.lt_created q hq)
    removals := by
      intro q
      rw [ha.removals, h.removals, ha.created]
      by_cases hq : q = p
      · subst hq
        simp [ha.ptr]
      · have hlt : q < r.created + 1 ↔ q < r.created :=
          ⟨fun h => ha.lt_created (ha.created ▸ h) hq, Nat.lt_succ_of_lt⟩
        simp [hq, hlt]
    n_clients := by
      rw [ha.n_clients, h.n_clients, List.length_cons]
      rfl
    max_clients := by
      rw [ha.n_clients]
      exact hmax
    vpn_ordered := ordered_tsearch hvpn hvpnRoot
    vpn_mem := by
      intro q hq
      rcases mem_tsearch_subset hvpnRoot hq with rfl | hq
      · exact List.mem_cons_self
      · exact List.mem_cons_of_mem _ (h.vpn_mem q hq)
    addr_ordered := by
      rcases ha.addressRoot with hroot | ⟨_, hroot⟩
      · rw [hroot]
        exact haddr
      · exact ordered_tsearch haddr hroot
    addr_mem := by
      intro q hq
      rcases ha.addressRoot with hroot | ⟨_, hroot⟩
      · rw [hroot] at hq
        exact List.mem_cons_of_mem _ (h.addr_mem q hq)
      · rcases mem_tsearch_subset hroot hq with rfl | hq
        · exact List.mem_cons_self
        · exact List.mem_cons_of_mem _ (h.addr_mem q hq) }

end Add

end Registry
end Client
end Campagnol
