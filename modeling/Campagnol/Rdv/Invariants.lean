import Campagnol.Rdv.ServerTheorems

/-!
# Invariants of the RDV server

What holds in every state the server can reach, whatever datagrams arrive, whatever the
clock says and whichever allocations fail:

* `registry_consistent`: list, counter and endpoint index of the clients agree;
* `sessions_consistent`: the session table holds together and never refers to a removed
  client;
* `vpn_index_of_no_hijack`: VPN IPs are unique and resolve to their clients, as long as
  no client takes over the VPN IP of another one (`Hijack`).
-/

namespace Campagnol
namespace Rdv

open SearchTree

/-- Any run. -/
abbrev AnyStep : Server → Event → Prop := fun _ _ => True

variable {config : Configuration} {clock : ℕ → Int} {s s' : Server} {e : Event}

/-! ## The endpoint registry -/

/-- In every reachable state the endpoints of the listed clients are distinct, the
endpoint lookup finds exactly the listed clients, the trees hold listed clients only,
and `n_clients` is the length of the list and within the configured maximum. -/
theorem registry_consistent (h : Steps (step config clock) AnyStep .init s) :
    ∃ cl, s.reg.clients.IsList cl ∧
      (∀ p ∈ cl, ∀ q ∈ cl, s.reg.addrOf p = s.reg.addrOf q → p = q) ∧
      (∀ a p, s.reg.getClientReal a = some p ↔ p ∈ cl ∧ s.reg.addrOf p = a) ∧
      (∀ a, s.reg.getClientReal a = none ↔ ∀ p ∈ cl, s.reg.addrOf p ≠ a) ∧
      (∀ p, p ∈ s.reg.clientsAddressRoot ∨ p ∈ s.reg.clientsVpnRoot → p ∈ cl) ∧
      (∀ v p, s.reg.getClientVPN v = some p → p ∈ cl) ∧
      s.reg.nClients = cl.length ∧
      (config.maxClients ≠ 0 → s.reg.nClients ≤ config.maxClients) := by
  obtain ⟨cl, _, hr, _⟩ := ok_of_steps h
  refine ⟨cl, hr.clients_list, fun p hp q hq => hr.addrOf_inj hp hq,
    fun _ _ => hr.getClientReal_eq_some, fun _ => hr.getClientReal_eq_none, ?_,
    fun v p hv => (hr.getClientVPN_mem hv).1, hr.n_clients, hr.max_clients⟩
  rintro p (hp | hp)
  · exact (hr.addr_mem p).mp hp
  · exact hr.vpn_mem p hp

/-! ### A run with two clients -/

/-- A server for at most two clients. -/
def twoClients : Configuration := ⟨2, by decide⟩

/-- Clients get the addresses 0, 1, 2, … as they come. -/
def allocAt (p : Ptr) : Env := ⟨⟨.at p, true, true⟩, ⟨.at p, true⟩⟩

/-- The HELLO of a client with the VPN IP `v`, without a local address. -/
def hello (v : InAddr) : Message := ⟨.hello, 0, v, 0⟩

/-- The endpoint of client number `n` in the runs below. -/
def endpoint (n : UInt32) : SockaddrIn := ⟨n, 4000⟩

/-- Two clients register. -/
def registerTwo : List Event :=
  [.packet (hello 101) (endpoint 1) (allocAt 0), .packet (hello 102) (endpoint 2) (allocAt 1)]

theorem registry_consistent_registerTwo :
    ∃ s, Steps (step twoClients (fun _ => 0)) AnyStep .init s ∧ s.reg.nClients = 2 ∧
      ∃ cl, s.reg.clients.IsList cl ∧ s.reg.nClients = cl.length := by
  have hrun : (run (step twoClients (fun _ => 0)) registerTwo .init).map (·.reg.nClients)
      = some 2 := by decide +kernel
  obtain ⟨s, hs, hn⟩ := Option.map_eq_some_iff.mp hrun
  have hsteps := Steps.of_run .refl hs
  obtain ⟨cl, hl, _, _, _, _, _, hlen, _⟩ := registry_consistent hsteps
  exact ⟨s, hsteps, hn, cl, hl, hlen⟩

/-! ## The session table -/

/-- Two sessions between the same two clients, in the same direction or not. -/
def SamePair (x y : Session) : Prop :=
  (x.peer1 = y.peer1 ∧ x.peer2 = y.peer2) ∨ (x.peer1 = y.peer2 ∧ x.peer2 = y.peer1)

/-- The sessions are between listed clients, the list of sessions is a doubly linked list
of what the tree holds, a lookup finds the session of two clients if there is one, and
two clients have at most one session. -/
def SessionsOk (s : Server) : Prop :=
  ∃ cl sl, s.reg.clients.IsList cl ∧ s.tab.sessions.IsList sl ∧
    (∀ x ∈ sl, (s.tab.sessionAt x).peer1 ∈ cl ∧ (s.tab.sessionAt x).peer2 ∈ cl) ∧
    (∀ x, x ∈ s.tab.sessionsRoot ↔ x ∈ sl) ∧
    (∀ p q x, s.tab.getSession p q = some x ↔
      x ∈ sl ∧ (s.tab.sessionAt x).peer1 = p ∧ (s.tab.sessionAt x).peer2 = q) ∧
    (∀ p q, s.tab.getSession p q = none ↔
      ∀ x ∈ sl, ¬((s.tab.sessionAt x).peer1 = p ∧ (s.tab.sessionAt x).peer2 = q)) ∧
    (∀ x ∈ sl, ∀ y ∈ sl, SamePair (s.tab.sessionAt x) (s.tab.sessionAt y) → x = y)

theorem Server.Ok.sessionsOk (h : s.Ok config) : SessionsOk s := by
  obtain ⟨cl, sl, hr, hw⟩ := h
  have hpeers : ∀ x p q, s.tab.peersOf x = (p, q) ↔
      (s.tab.sessionAt x).peer1 = p ∧ (s.tab.sessionAt x).peer2 = q := fun _ _ _ =>
    Prod.mk.injEq ..  ▸ Iff.rfl
  refine ⟨cl, sl, hr.clients_list, hw.sessions_list, hw.peers_mem, hw.root_mem,
    fun p q x => ?_, fun p q => ?_, fun x hx y hy hxy => ?_⟩
  · rw [hw.getSession_eq_some, hpeers]
  · simp only [hw.getSession_eq_none, ne_eq, hpeers]
  · rcases hxy with ⟨h₁, h₂⟩ | ⟨h₁, h₂⟩
    · exact hw.peersOf_inj hx hy (Prod.ext h₁ h₂)
    · exact hw.one_way x hx y hy (Prod.ext h₂.symm h₁.symm)

/-- The loop that ends the server removes every client, and with it every session. -/
theorem Server.Ok.removeAllClients (h : s.Ok config) :
    (s.removeAllClients).Ok config ∧ s.removeAllClients.reg.clients.IsList [] := by
  obtain ⟨cl, sl, hr, hw⟩ := h
  have hwalk : s.removeAllClients = cl.foldl (fun s p => s.dropClient p) s := by
    rw [Server.removeAllClients, hr.clients_list.head_eq]
    refine Links.walk_eq_foldl _ _ (fun s r => ∃ sl, s.reg.Inv config r ∧ s.tab.Inv r sl) ?_
      cl _ s ⟨sl, hr, hw⟩ (Nat.le_of_eq hr.heap_size.symm)
    rintro s p r ⟨sl, hr, hw⟩
    have hr' := hr.removeClient (p := p) (by simp)
    have hw' := (hw.removeSessionsWithClient p).1
    rw [List.erase_cons_head] at hr' hw'
    exact ⟨(hr.clients_list.links [] p r rfl).2, _, hr', hw'⟩
  -- each round removes the first client of what is left
  have key : ∀ (r : List Ptr) (t : Server), (∃ sl, t.reg.Inv config r ∧ t.tab.Inv r sl) →
      ∃ sl, (r.foldl (fun s p => s.dropClient p) t).reg.Inv config [] ∧
        (r.foldl (fun s p => s.dropClient p) t).tab.Inv [] sl := by
    intro r
    induction r with
    | nil => exact fun _ h => h
    | cons p r ih =>
      rintro t ⟨sl, hr, hw⟩
      have hr' := hr.removeClient (p := p) (by simp)
      have hw' := (hw.removeSessionsWithClient p).1
      rw [List.erase_cons_head] at hr' hw'
      exact ih (t.dropClient p) ⟨_, hr', hw'⟩
  obtain ⟨sl', hr', hw'⟩ := key cl s ⟨sl, hr, hw⟩
  rw [hwalk]
  exact ⟨⟨[], sl', hr', hw'⟩, hr'.clients_list⟩

/-- In every reachable state, and after the loop that removes all clients at the end, the
session table is in order. -/
theorem sessions_consistent (h : Steps (step config clock) AnyStep .init s) :
    SessionsOk s ∧ SessionsOk s.removeAllClients :=
  ⟨(ok_of_steps h).sessionsOk, (ok_of_steps h).removeAllClients.1.sessionsOk⟩

/-- Two clients register, and each asks for a session with the other. -/
def crossingAsks : List Event :=
  registerTwo ++ [.packet ⟨.askConnection, 0, 102, 0⟩ (endpoint 1) (allocAt 0),
    .packet ⟨.askConnection, 0, 101, 0⟩ (endpoint 2) (allocAt 1)]

theorem sessions_consistent_crossingAsks :
    ∃ s, Steps (step twoClients (fun _ => 0)) AnyStep .init s ∧ s.tab.session.size = 1 ∧
      SessionsOk s := by
  have hrun : (run (step twoClients (fun _ => 0)) crossingAsks .init).map (·.tab.session.size)
      = some 1 := by decide +kernel
  obtain ⟨s, hs, hn⟩ := Option.map_eq_some_iff.mp hrun
  have hsteps := Steps.of_run .refl hs
  exact ⟨s, hsteps, hn, (sessions_consistent hsteps).1⟩

/-! ## The VPN index -/

/-- The VPN IPs of the listed clients are distinct, and each resolves to its client. -/
def VpnIndexed (s : Server) : Prop :=
  ∃ cl, s.reg.clients.IsList cl ∧
    (∀ p ∈ cl, ∀ q ∈ cl, s.reg.vpnOf p = s.reg.vpnOf q → p = q) ∧
    ∀ p ∈ cl, s.reg.getClientVPN (s.reg.vpnOf p) = some p

/-- All allocated clients are in the VPN tree. -/
def VpnFull (s : Server) : Prop := ∀ p, s.Live p → p ∈ s.reg.clientsVpnRoot

theorem Server.Ok.vpnIndexed (h : s.Ok config) (hfull : VpnFull s) : VpnIndexed s := by
  obtain ⟨cl, _, hr, _⟩ := h
  have hmem : ∀ p ∈ cl, p ∈ s.reg.clientsVpnRoot := fun p hp => hfull p ((hr.heap_iff p).mpr hp)
  refine ⟨cl, hr.clients_list, fun p hp q hq he => ?_, fun p hp => ?_⟩
  · exact hr.vpn_ordered.key_inj (hmem p hp) (hmem q hq) he
  · exact tfind_of_mem hr.vpn_ordered (hmem p hp)

/-- No elementary change of a step other than a hijack takes a client out of the VPN
tree or leaves a new one outside. -/
theorem VpnFull.change {s₀ : Server} (hfull : VpnFull s) (hok : s.Ok config)
    (hno : ¬Hijack clock s₀ e) (hc : Change config clock s₀ e s s') : VpnFull s' := by
  obtain ⟨cl, sl, hr, hw⟩ := hok
  have hsame : s'.reg = s.reg → VpnFull s' := fun hreg p hp => by
    rw [Server.Live, hreg] at hp
    rw [hreg]
    exact hfull p hp
  cases hc with
  | quiet hreg _ _ => exact hsame hreg
  | updateTime q t _ hreg _ _ =>
    intro p hp
    rw [Server.Live, hreg, Registry.clientUpdateTime, Heap.modify_inUse] at hp
    rw [hreg]
    exact hfull p hp
  | drop q hlive _ hreg _ _ =>
    intro p hp
    rw [Server.Live, hreg] at hp
    obtain ⟨hne, hp⟩ := Server.dropClient_live (s := s) hp
    have hne' : s.reg.vpnOf p ≠ s.reg.vpnOf q := fun e =>
      hne (hr.vpn_ordered.key_inj (hfull p hp) (hfull q hlive) e)
    rw [hreg]
    exact hr.mem_vpnRoot_removeClient.mpr ⟨hfull p hp, hne'⟩
  | add rmsg _ env t localaddr _ _ hnew hvpn hreg _ _ =>
    rcases hr.addClient_cases env.client t rmsg.ip1 localaddr hnew with
      hfail | ⟨q, r', hadd, hadded⟩
    · rw [hfail] at hreg
      exact hsame hreg
    · rw [hadd] at hreg
      intro p hp
      rw [Server.Live, hreg] at hp
      rw [hreg]
      rcases List.mem_cons.mp ((hadded.inv.heap_iff p).mp hp) with rfl | hp
      · exact hadded.vpn_self (hvpn.resolve_right hno)
      · exact hadded.vpn_other p (hfull p ((hr.heap_iff p).mpr hp))
  | close _ _ _ _ _ _ _ _ hreg _ _ => exact hsame hreg
  | openSession _ _ _ _ _ _ _ _ _ _ _ hreg _ _ => exact hsame hreg
  | touchSession _ _ hreg _ _ => exact hsame hreg

theorem VpnFull.changes {s₀ : Server} (hfull : VpnFull s) (hok : s.Ok config)
    (hno : ¬Hijack clock s₀ e) (hc : Changes config clock s₀ e s s') :
    s'.Ok config ∧ VpnFull s' := by
  induction hc with
  | refl => exact ⟨hok, hfull⟩
  | tail _ hc ih => exact ⟨ih.1.change hc, ih.2.change ih.1 hno hc⟩

/-- In every run without a hijack, VPN IPs are unique and resolve to their clients. -/
theorem vpn_index_of_no_hijack
    (h : Steps (step config clock) (fun s e => ¬Hijack clock s e) .init s) : VpnIndexed s := by
  have key : s.Ok config ∧ VpnFull s := by
    refine h.invariant (P := fun s => s.Ok config ∧ VpnFull s)
      ⟨Server.ok_init config, fun p hp => ?_⟩ ?_
    · simp [Server.Live, Server.init, Registry.init, Heap.inUse] at hp
    · rintro t e u ⟨hok, hfull⟩ hno hs
      exact hfull.changes hok hno (step_changes hok hs)
  exact key.1.vpnIndexed key.2

/-- A clock that shows 0 for the first `n` readings and 6 from then on. -/
def jumpAfter (n : ℕ) (k : ℕ) : Int := if k < n then 0 else 6

theorem vpn_index_of_no_hijack_registerTwo :
    ∃ s, Steps (step twoClients (fun _ => 0)) (fun s e => ¬Hijack (fun _ => 0) s e) .init s ∧
      s.reg.nClients = 2 ∧ VpnIndexed s := by
  have hrun : (runOk (step twoClients (fun _ => 0)) (fun s e => ¬Hijack (fun _ => 0) s e)
      registerTwo .init).map (·.reg.nClients) = some 2 := by decide +kernel
  obtain ⟨s, hs, hn⟩ := Option.map_eq_some_iff.mp hrun
  have hsteps := Steps.of_runOk .refl hs
  exact ⟨s, hsteps, hn, vpn_index_of_no_hijack hsteps⟩

/-- Two clients register; later the second one, still alive, sends a PING, and the first
one, silent for more than `PEER_TIMEOUT`, comes back with the VPN IP of the second. -/
def hijackRun : List Event :=
  registerTwo ++ [.packet ⟨.ping, 0, 0, 0⟩ (endpoint 2) (allocAt 2),
    .packet (hello 102) (endpoint 1) (allocAt 0)]

/-- The VPN IP of a live client can be taken over by another endpoint: after `hijackRun`
two clients have it, and the lookup finds only one of them. -/
theorem vpn_index_broken_by_hijack :
    ∃ s, Steps (step twoClients (jumpAfter 2)) AnyStep .init s ∧ ¬VpnIndexed s := by
  have hrun : (run (step twoClients (jumpAfter 2)) hijackRun .init).map
      (fun s => (s.reg.client.inUse 0, s.reg.client.inUse 1, s.reg.vpnOf 0, s.reg.vpnOf 1))
      = some (true, true, 102, 102) := by decide +kernel
  obtain ⟨s, hs, hobs⟩ := Option.map_eq_some_iff.mp hrun
  have hsteps := Steps.of_run .refl hs
  refine ⟨s, hsteps, ?_⟩
  rintro ⟨cl, hl, huniq, _⟩
  obtain ⟨cl', _, hr, _⟩ := ok_of_steps hsteps
  obtain rfl := hl.unique hr.clients_list
  simp only [Prod.mk.injEq] at hobs
  obtain ⟨h₀, h₁, hv₀, hv₁⟩ := hobs
  have := huniq 0 ((hr.heap_iff 0).mp h₀) 1 ((hr.heap_iff 1).mp h₁) (hv₀.trans hv₁.symm)
  cases this

end Rdv
end Campagnol
