import Campagnol.Client.Invariants
import Campagnol.Client.Roles
import Campagnol.Network.Model
import Campagnol.Rdv.Messages

/-!
# The DTLS roles of two clients

The role of a client in a session is fixed when the client creates its peer: it is the DTLS
client if it asks for the other one, and the DTLS server if it is asked for. When two clients
ask for each other at the same time, both are the DTLS client (`roles_clash_by_crossing`). In
every run without such a crossing the two roles differ (`roles_differ_of_no_crossing`).

`View` is what matters of the network for the roles. Every step of the network is a step of
the abstract protocol `View.Step`, and that protocol keeps `View.Exclusive`.
-/

namespace Campagnol
namespace Network

/-! ## The abstract protocol -/

/-- The sides that are the DTLS client of an open session with the other one, those that are
the DTLS server of one, and those whose request is still on its way. -/
structure View where
  client : Side → Prop
  server : Side → Prop
  asked : Side → Prop

namespace View

/-- The side `i` can request a session: it serves no session, and the other side neither has
requested one nor is about to be introduced. -/
def Free (v : View) (i : Side) : Prop :=
  ¬ v.server i ∧ ¬ v.client i.other ∧ ¬ v.asked i.other

/-- A step in which at most the side `i` requests a session. Only a DTLS client asks, and a
session is served for a request only. -/
structure Step (i : Side) (v v' : View) : Prop where
  client : ∀ k, v'.client k → v.client k ∨ (k = i ∧ v.Free i)
  server : ∀ k, v'.server k → v.server k ∨ v.asked k.other
  asked : ∀ k, v'.asked k → v.asked k ∨ v.client k

/-- The roles of the two sides exclude each other. -/
structure Exclusive (v : View) : Prop where
  client_client : ∀ i, v.client i → ¬ v.client i.other
  client_asked : ∀ i, v.client i → ¬ v.asked i.other
  client_server : ∀ i, v.client i → ¬ v.server i
  asked_asked : ∀ i, v.asked i → ¬ v.asked i.other
  asked_server : ∀ i, v.asked i → ¬ v.server i
  server_server : ∀ i, v.server i → ¬ v.server i.other

variable {v v' : View} {i : Side}

/-- What a session can come from after a step. -/
theorem Exclusive.server_of_step (h : v.Exclusive) (hs : Step i v v') {k : Side}
    (hk : v'.server k) : ¬ v.client k ∧ ¬ v.asked k := by
  rcases hs.server k hk with hserver | hasked
  · exact ⟨fun hc => h.client_server k hc hserver, fun ha => h.asked_server k ha hserver⟩
  · exact ⟨fun hc => h.client_asked k hc hasked, fun ha => h.asked_asked k ha hasked⟩

/-- A side that has asked after a step leaves the other one no other role than that of the
server. -/
theorem Exclusive.asked_of_step (h : v.Exclusive) (hs : Step i v v') {k : Side}
    (hk : v'.asked k) : ¬ v.client k.other ∧ ¬ v.asked k.other := by
  rcases hs.asked k hk with hasked | hclient
  · refine ⟨fun hc => h.client_asked k.other hc ?_, h.asked_asked k hasked⟩
    rwa [Side.other_other]
  · exact ⟨h.client_client k hclient, h.client_asked k hclient⟩

theorem Exclusive.step (h : v.Exclusive) (hs : Step i v v') : v'.Exclusive where
  client_client k hk hk' := by
    rcases hs.client k hk with hc | ⟨rfl, hfree⟩
    · rcases hs.client k.other hk' with hc' | ⟨rfl, hfree⟩
      · exact h.client_client k hc hc'
      · exact hfree.2.1 (by rwa [Side.other_other])
    · rcases hs.client k.other hk' with hc' | ⟨heq, -⟩
      · exact hfree.2.1 hc'
      · exact Side.other_ne k heq
  client_asked k hk hk' := by
    obtain ⟨hc, -⟩ := h.asked_of_step hs hk'
    rw [Side.other_other] at hc
    rcases hs.client k hk with hclient | ⟨rfl, -, hfree, hfree'⟩
    · exact hc hclient
    · rcases hs.asked k.other hk' with ha | hc'
      · exact hfree' ha
      · exact hfree hc'
  client_server k hk hk' := by
    rcases hs.client k hk with hclient | ⟨rfl, hfree⟩
    · exact (h.server_of_step hs hk').1 hclient
    · rcases hs.server k hk' with hserver | hasked
      · exact hfree.1 hserver
      · exact hfree.2.2 hasked
  asked_asked k hk hk' := by
    obtain ⟨hc, ha⟩ := h.asked_of_step hs hk
    rcases hs.asked k.other hk' with hasked | hclient
    · exact ha hasked
    · exact hc hclient
  asked_server k hk hk' := by
    obtain ⟨hc, ha⟩ := h.server_of_step hs hk'
    rcases hs.asked k hk with hasked | hclient
    · exact ha hasked
    · exact hc hclient
  server_server k hk hk' := by
    rcases hs.server k.other hk' with hserver | hasked
    · rcases hs.server k hk with hserver' | hasked
      · exact h.server_server k hserver' hserver
      · exact h.asked_server k.other hasked hserver
    · rw [Side.other_other] at hasked
      exact (h.server_of_step hs hk).2 hasked

end View

/-! ## The network as a view -/

section
variable (setup : Setup)

/-- An ASK_CONNECTION of the client `i` for the other one, on its way to the server. -/
def IsAsk (i : Side) (pkt : Packet) : Prop :=
  pkt.msg.type = .askConnection ∧ pkt.dst = setup.serverAddr ∧ pkt.src = setup.endpoint i ∧
    pkt.msg.ip1 = setup.vpnIP i.other

/-- The FWD_CONNECTION that introduces the client `i` to the other one. -/
def IsFwd (i : Side) (pkt : Packet) : Prop :=
  pkt.msg.type = .fwdConnection ∧ setup.route pkt.dst = some i.other ∧
    pkt.msg.ip2 = setup.vpnIP i

/-- A request of the client `i` for the other one is on its way: from it to the server, from
the server to the other one, or to its creation there. -/
def Asked (n : Net) (i : Side) : Prop :=
  (∃ pkt ∈ n.flight, IsAsk setup i pkt ∨ IsFwd setup i pkt) ∨
    (n.client i.other).rdv.accepts = some (setup.vpnIP i)

/-- What matters of the network for the roles. -/
def view (n : Net) : View where
  client i := (n.client i).HasRole (setup.vpnIP i.other) true
  server i := (n.client i).HasRole (setup.vpnIP i.other) false
  asked i := Asked setup n i

/-- The VPN IPs that the endpoints of the clients can be registered with. -/
def Owns (e : SockaddrIn) (ip : InAddr) : Prop :=
  ∃ i, e = setup.endpoint i ∧ ip = setup.vpnIP i

/-- The clients and the server are consistent, and nobody uses a foreign VPN IP. -/
structure Inv (n : Net) : Prop where
  client : ∀ i, Client.Phased (n.client i)
  server : n.server.Ok setup.server
  registered : Rdv.Registered (Owns setup) n.server
  hello : ∀ pkt ∈ n.flight, pkt.msg.type = .hello → Owns setup pkt.src pkt.msg.ip1

theorem inv_init : Inv setup .init where
  client _ := Client.phased_init
  server := Rdv.Server.ok_init _
  registered p hp := by
    cases hp
  hello := nofun

end

variable {setup : Setup} {n n' : Net} {i : Side}

theorem Setup.vpnIP_inj {i j : Side} (h : setup.vpnIP i = setup.vpnIP j) : i = j := by
  by_contra hne
  rw [Side.eq_other_of_ne (Ne.symm hne)] at h
  exact setup.vpnIP_ne i h

theorem Setup.endpoint_inj {i j : Side} (h : setup.endpoint i = setup.endpoint j) : i = j := by
  have hroute := setup.route_endpoint i
  rw [h, setup.route_endpoint j] at hroute
  exact (Option.some.inj hroute).symm

/-- A request that is on its way in a network with fewer datagrams is on its way. -/
theorem Asked.mono {k : Side} (h : Asked setup n' k) (hflight : ∀ pkt ∈ n'.flight, pkt ∈ n.flight)
    (hclient : n'.client = n.client) : Asked setup n k := by
  rcases h with ⟨pkt, hmem, hpkt⟩ | hacc
  · exact .inl ⟨pkt, hflight pkt hmem, hpkt⟩
  · exact .inr (hclient ▸ hacc)

/-- New datagrams that carry no request. -/
theorem Asked.of_append {k : Side} {l : List Packet} (h : Asked setup n' k)
    (hflight : n'.flight = n.flight ++ l) (hclient : n'.client = n.client) :
    Asked setup n k ∨ ∃ pkt ∈ l, IsAsk setup k pkt ∨ IsFwd setup k pkt := by
  rcases h with ⟨pkt, hmem, hpkt⟩ | hacc
  · rw [hflight] at hmem
    rcases List.mem_append.mp hmem with hmem | hmem
    · exact .inl (.inl ⟨pkt, hmem, hpkt⟩)
    · exact .inr ⟨pkt, hmem, hpkt⟩
  · exact .inl (.inr (hclient ▸ hacc))

/-! ## A step of a client -/

/-- What a step of the client `i` does to the network. -/
theorem clientStep_cases {a : Client.Act} (hinv : Inv setup n)
    (hs : n.clientStep setup i a = some n') :
    ∃ (s : Client.State) (msgs : List Datagram),
      Client.Transition (setup.client i) (n.client i) a s ∧
      (∀ d ∈ msgs, Client.SentBy (n.client i) d.msg) ∧
      n' = { n with
        client := Function.update n.client i s
        flight := n.flight ++ msgs.map fun d => ⟨d, setup.sourceOf i d.dst⟩ } := by
  obtain ⟨s, hstep, rfl⟩ := Option.map_eq_some_iff.mp hs
  have ht := Client.transition_of_step hstep
  obtain ⟨msgs, hsent, hmsgs⟩ := ht.sent (hinv.client i)
  refine ⟨s, msgs, ht, hmsgs, ?_⟩
  rw [hsent, List.drop_left]
  rfl

theorem Inv.clientStep {a : Client.Act} (hinv : Inv setup n)
    (hs : n.clientStep setup i a = some n') : Inv setup n' := by
  obtain ⟨s, msgs, ht, hmsgs, rfl⟩ := clientStep_cases hinv hs
  refine ⟨fun k => ?_, hinv.server, hinv.registered, fun pkt hmem htype => ?_⟩
  · by_cases hk : k = i
    · subst hk
      simp only [Function.update_self]
      exact (hinv.client k).roleChange ht.roleChange
    · simp only [Function.update_of_ne hk]
      exact hinv.client k
  · rcases List.mem_append.mp hmem with hmem | hmem
    · exact hinv.hello pkt hmem htype
    · -- a client thread sends no HELLO
      obtain ⟨d, hd, rfl⟩ := List.mem_map.mp hmem
      have htype : d.msg.type = .hello := htype
      rcases hmsgs d hd with ⟨h, -⟩ | h | h | h <;> rw [h] at htype <;> cases htype

/-- Where the roles come from in a step of the client `i`. -/
theorem hasRole_clientStep {a : Client.Act} (hinv : Inv setup n)
    (hs : n.clientStep setup i a = some n') {k : Side} {dtls : Bool}
    (hrole : (n'.client k).HasRole (setup.vpnIP k.other) dtls) :
    (n.client k).HasRole (setup.vpnIP k.other) dtls ∨
      k = i ∧ Client.Origin (n.client i) a (setup.vpnIP i.other) dtls := by
  obtain ⟨s, msgs, ht, -, rfl⟩ := clientStep_cases hinv hs
  by_cases hk : k = i
  · subst hk
    simp only [Function.update_self] at hrole
    exact (ht.roleChange.hasRole (hinv.client k) hrole).imp_right fun h => ⟨rfl, h⟩
  · simp only [Function.update_of_ne hk] at hrole
    exact .inl hrole

/-- Where the requests come from in a step of the client `i`: it asks, or it takes the
introduction of the other one. -/
theorem asked_clientStep {a : Client.Act} (hinv : Inv setup n)
    (hs : n.clientStep setup i a = some n') {k : Side} (hasked : Asked setup n' k) :
    Asked setup n k ∨ (n.client k).HasRole (setup.vpnIP k.other) true ∨
      k.other = i ∧ ∃ msg, a = .rdvMessage msg ∧ msg.type = .fwdConnection ∧
        msg.ip2 = setup.vpnIP k := by
  obtain ⟨s, msgs, ht, hmsgs, rfl⟩ := clientStep_cases hinv hs
  rcases hasked with ⟨pkt, hmem, hpkt⟩ | hacc
  · rcases List.mem_append.mp hmem with hmem | hmem
    · exact .inl (.inl ⟨pkt, hmem, hpkt⟩)
    · obtain ⟨d, hd, rfl⟩ := List.mem_map.mp hmem
      have hsent := hmsgs d hd
      rcases hpkt with ⟨htype, hdst, hsrc, hip⟩ | ⟨htype, -⟩
      · -- the source address shows who asks
        have hsrc : setup.sourceOf i d.dst = setup.endpoint k := hsrc
        rw [show d.dst = setup.serverAddr from hdst, setup.sourceOf_server] at hsrc
        obtain rfl := setup.endpoint_inj hsrc
        rcases hsent with ⟨-, hrole⟩ | h | h | h
        · rw [show d.msg.ip1 = setup.vpnIP i.other from hip] at hrole
          exact .inr (.inl hrole)
        all_goals
          rw [show d.msg.type = .askConnection from htype] at h
          cases h
      · rcases hsent with ⟨h, -⟩ | h | h | h <;>
          rw [show d.msg.type = .fwdConnection from htype] at h <;> cases h
  · by_cases hk : k.other = i
    · subst hk
      simp only [Function.update_self] at hacc
      rcases ht.accepts hacc with hacc | hmsg
      · exact .inl (.inr hacc)
      · exact .inr (.inr ⟨rfl, hmsg⟩)
    · simp only [Function.update_of_ne hk] at hacc
      exact .inl (.inr hacc)

/-! ## A step of the server -/

/-- What a step of the server does to the network. -/
theorem serverStep_cases {e : Rdv.Event} (hinv : Inv setup n)
    (hs : n.serverStep setup e = some n') :
    ∃ (s : Rdv.Server) (msgs : List Datagram),
      Rdv.step setup.server setup.clock n.server e = some s ∧
      (∀ d ∈ msgs, Rdv.SentBy n.server e d) ∧
      n' = { n with
        server := s
        flight := n.flight ++ msgs.map fun d => ⟨d, setup.serverAddr⟩ } := by
  obtain ⟨s, hstep, rfl⟩ := Option.map_eq_some_iff.mp hs
  obtain ⟨msgs, hsent, hmsgs⟩ := Rdv.step_sent hinv.server hstep
  refine ⟨s, msgs, hstep, hmsgs, ?_⟩
  rw [hsent, List.drop_left]

theorem Inv.serverStep {e : Rdv.Event} (hinv : Inv setup n)
    (hhello : ∀ rmsg src env, e = .packet rmsg src env → rmsg.type = .hello →
      Owns setup src rmsg.ip1)
    (hs : n.serverStep setup e = some n') : Inv setup n' := by
  obtain ⟨s, msgs, hstep, hmsgs, rfl⟩ := serverStep_cases hinv hs
  refine ⟨hinv.client, hinv.server.changes (Rdv.step_changes hinv.server hstep),
    hinv.registered.step hinv.server hhello hstep, fun pkt hmem htype => ?_⟩
  rcases List.mem_append.mp hmem with hmem | hmem
  · exact hinv.hello pkt hmem htype
  · -- the server sends no HELLO
    obtain ⟨d, hd, rfl⟩ := List.mem_map.mp hmem
    have htype : d.msg.type = .hello := htype
    rcases hmsgs d hd with hreply | ⟨_, _, _, _, _, -, -, -, -, -, -, rfl⟩
    · rcases hreply with h | h | h | h | h | h <;> rw [h] at htype <;> cases htype
    · cases htype

/-- Where the requests come from in a step of the server: it takes an ASK_CONNECTION of the
client that it introduces. -/
theorem asked_serverStep {e : Rdv.Event} (hinv : Inv setup n)
    (hs : n.serverStep setup e = some n') {k : Side} (hasked : Asked setup n' k) :
    Asked setup n k ∨ ∃ rmsg env, e = .packet rmsg (setup.endpoint k) env ∧
      rmsg.type = .askConnection ∧ rmsg.ip1 = setup.vpnIP k.other := by
  obtain ⟨s, msgs, hstep, hmsgs, rfl⟩ := serverStep_cases hinv hs
  rcases hasked.of_append (n := n) rfl rfl with hold | ⟨pkt, hmem, hpkt⟩
  · exact .inl hold
  right
  obtain ⟨d, hd, rfl⟩ := List.mem_map.mp hmem
  rcases hmsgs d hd with hreply | ⟨rmsg, src, env, p, q, rfl, htype, hp, rfl, hq, hvpn, rfl⟩
  · have htype : d.msg.type = .askConnection ∨ d.msg.type = .fwdConnection :=
      hpkt.imp (fun h => h.1) (fun h => h.1)
    rcases hreply with h | h | h | h | h | h <;> rw [h] at htype <;>
      exact absurd htype (by simp)
  · rcases hpkt with ⟨hask, -⟩ | ⟨-, hroute, hip⟩
    · cases hask
    · -- `p` is the client `k`, and `q` the other one
      obtain ⟨i, hpaddr, hpvpn⟩ := hinv.registered p hp
      obtain ⟨j, hqaddr, hqvpn⟩ := hinv.registered q hq
      obtain rfl : i = k := setup.vpnIP_inj (hpvpn.symm.trans hip)
      have hroute : setup.route (n.server.reg.addrOf q) = some i.other := hroute
      rw [hqaddr, setup.route_endpoint] at hroute
      obtain rfl := Option.some.inj hroute
      rw [hpaddr]
      exact ⟨rmsg, env, rfl, htype, hvpn.symm.trans hqvpn⟩

/-! ## A step of the network -/

/-- A step in which a client requests a session with the other one only if it can. A packet
crosses the requests of the other side otherwise. -/
def NoCrossing (setup : Setup) (n : Net) : Act → Prop
  | .client i a =>
    Client.requested (n.client i) a = some (setup.vpnIP i.other) → (view setup n).Free i
  | _ => True

theorem Inv.of_flight (hinv : Inv setup n) (hclient : n'.client = n.client)
    (hserver : n'.server = n.server)
    (hflight : ∀ pkt ∈ n'.flight, pkt ∈ n.flight ∨ (pkt.msg.type = .hello →
      Owns setup pkt.src pkt.msg.ip1)) : Inv setup n' where
  client k := hclient ▸ hinv.client k
  server := hserver ▸ hinv.server
  registered := hserver ▸ hinv.registered
  hello pkt hmem htype := by
    rcases hflight pkt hmem with hold | hnew
    · exact hinv.hello pkt hold htype
    · exact hnew htype

theorem Inv.take (hinv : Inv setup n) (k : ℕ) : Inv setup (n.take k) :=
  hinv.of_flight rfl rfl fun _ hmem => .inl (List.mem_of_mem_eraseIdx hmem)

/-- The clients are as before, and no request is new. -/
theorem step_of_same (hclient : n'.client = n.client)
    (hasked : ∀ k, Asked setup n' k → Asked setup n k) :
    View.Step i (view setup n) (view setup n') where
  client k hk := .inl (by rwa [view, hclient] at hk)
  server k hk := .inl (by rwa [view, hclient] at hk)
  asked k hk := .inl (hasked k hk)

section
variable {n₀ : Net} (hinv : Inv setup n₀) (hclient : n₀.client = n.client)
  (hflight : ∀ pkt ∈ n₀.flight, pkt ∈ n.flight)
include hinv hclient hflight

/-- A step of the client `i` that begins once a datagram has been taken from the network
`n`. -/
theorem view_clientStep {a : Client.Act} (hs : n₀.clientStep setup i a = some n')
    (hreq : Client.requested (n.client i) a = some (setup.vpnIP i.other) → (view setup n).Free i)
    (hfwd : ∀ msg, a = .rdvMessage msg → msg.type = .fwdConnection →
      msg.ip2 = setup.vpnIP i.other → Asked setup n i.other) :
    View.Step i (view setup n) (view setup n') where
  client k hk := by
    rcases hasRole_clientStep hinv hs hk with hold | ⟨rfl, horigin⟩
    · exact .inl (by rwa [hclient] at hold)
    · exact .inr ⟨rfl, hreq (by rwa [hclient] at horigin)⟩
  server k hk := by
    rcases hasRole_clientStep hinv hs hk with hold | ⟨rfl, horigin⟩
    · exact .inl (by rwa [hclient] at hold)
    · refine .inr (.inr ?_)
      rw [Side.other_other, ← hclient]
      exact horigin
  asked k hk := by
    rcases asked_clientStep hinv hs hk with hold | hrole | ⟨rfl, msg, ha, htype, hip⟩
    · exact .inl (hold.mono hflight hclient)
    · exact .inr (by rwa [hclient] at hrole)
    · left
      rw [← Side.other_other k] at hip ⊢
      exact hfwd msg ha htype hip

/-- A step of the server that begins once a datagram has been taken from the network `n`. -/
theorem view_serverStep {e : Rdv.Event} (hs : n₀.serverStep setup e = some n')
    (hask : ∀ k rmsg env, e = .packet rmsg (setup.endpoint k) env →
      rmsg.type = .askConnection → rmsg.ip1 = setup.vpnIP k.other → Asked setup n k) :
    View.Step i (view setup n) (view setup n') := by
  refine step_of_same ?_ fun k hk => ?_
  · obtain ⟨s, msgs, -, -, rfl⟩ := serverStep_cases hinv hs
    exact hclient
  · rcases asked_serverStep hinv hs hk with hold | ⟨rmsg, env, he, htype, hip⟩
    · exact hold.mono hflight hclient
    · exact hask k rmsg env he htype hip

end

/-- HELLO, PING and BYE of a client. -/
theorem step_of_post (hinv : Inv setup n) {d : Datagram}
    (htype : d.msg.type = .hello ∨ d.msg.type = .ping ∨ d.msg.type = .bye)
    (hhello : d.msg.type = .hello → d.msg.ip1 = setup.vpnIP i ∧ d.dst = setup.serverAddr) :
    Inv setup (n.post setup i [d]) ∧
      ∃ j, View.Step j (view setup n) (view setup (n.post setup i [d])) := by
  refine ⟨hinv.of_flight rfl rfl fun pkt hmem => ?_, i, step_of_same rfl fun k hk => ?_⟩
  · refine (List.mem_append.mp hmem).imp_right fun hmem htype => ?_
    obtain rfl := List.mem_singleton.mp hmem
    obtain ⟨hip, hdst⟩ := hhello htype
    refine ⟨i, ?_, hip⟩
    show setup.sourceOf i d.dst = setup.endpoint i
    rw [hdst, setup.sourceOf_server]
  · rcases hk.of_append (n := n) rfl rfl with hold | ⟨pkt, hmem, hpkt⟩
    · exact hold
    · obtain rfl := List.mem_singleton.mp hmem
      have hreq : d.msg.type = .askConnection ∨ d.msg.type = .fwdConnection :=
        hpkt.imp (fun h => h.1) (fun h => h.1)
      rcases htype with h | h | h <;> rw [h] at hreq <;> exact absurd hreq (by simp)

/-- The arrival of the packet `pkt`. -/
theorem step_of_arrive (hinv : Inv setup n) {k : ℕ} {pkt : Packet} {env : Rdv.Env}
    (hpkt : n.flight[k]? = some pkt) (hs : (n.take k).arrive setup pkt env = some n') :
    Inv setup n' ∧ ∃ i, View.Step i (view setup n) (view setup n') := by
  have hmem : pkt ∈ n.flight := List.mem_of_getElem? hpkt
  have hflight : ∀ p ∈ (n.take k).flight, p ∈ n.flight := fun _ h => List.mem_of_mem_eraseIdx h
  have htake := hinv.take k
  unfold Net.arrive at hs
  split at hs
  · rename_i hdst
    refine ⟨htake.serverStep ?_ hs, .left, view_serverStep htake rfl hflight hs ?_⟩
    · rintro rmsg src env' he htype
      cases he
      exact hinv.hello pkt hmem htype
    · rintro j rmsg env' he htype hip
      obtain ⟨hmsg, hsrc, -⟩ := Rdv.Event.packet.inj he
      subst hmsg
      exact .inl ⟨pkt, hmem, .inl ⟨htype, hdst, hsrc, hip⟩⟩
  · split at hs
    · cases hs
    · rename_i i hroute
      refine ⟨htake.clientStep hs, i, view_clientStep htake rfl hflight hs (fun h => ?_) ?_⟩
      · -- an arrival is no request
        unfold reception at h
        split at h <;> cases h
      · intro msg ha htype hip
        unfold reception at ha
        split at ha
        · obtain rfl := Client.Act.rdvMessage.inj ha
          refine .inl ⟨pkt, hmem, .inr ⟨htype, ?_, hip⟩⟩
          rw [Side.other_other]
          exact hroute
        · cases ha

/-- Every step of the network is a step of the abstract protocol. -/
theorem step_view {a : Act} (hinv : Inv setup n) (hno : NoCrossing setup n a)
    (hs : step setup n a = some n') :
    Inv setup n' ∧ ∃ i, View.Step i (view setup n) (view setup n') := by
  cases a with
  | client i a =>
    simp only [step] at hs
    split at hs
    · cases hs
    · rename_i hrec
      refine ⟨hinv.clientStep hs, i, view_clientStep hinv rfl (fun _ => id) hs hno ?_⟩
      rintro msg rfl
      exact absurd rfl hrec
  | hello i =>
    obtain rfl := Option.some.inj hs
    exact step_of_post (i := i) hinv (.inl rfl) fun _ => ⟨rfl, rfl⟩
  | ping i =>
    obtain rfl := Option.some.inj hs
    exact step_of_post (i := i) hinv (.inr (.inl rfl)) nofun
  | bye i =>
    obtain rfl := Option.some.inj hs
    exact step_of_post (i := i) hinv (.inr (.inr rfl)) nofun
  | deliver k env =>
    simp only [step] at hs
    split at hs
    · cases hs
    · rename_i pkt hpkt
      exact step_of_arrive hinv hpkt hs
  | lose k =>
    simp only [step] at hs
    split at hs
    · obtain rfl := Option.some.inj hs
      refine ⟨hinv.take k, .left, step_of_same rfl fun _ hk => hk.mono ?_ rfl⟩
      exact fun _ h => List.mem_of_mem_eraseIdx h
    · cases hs
  | clean | time =>
    refine ⟨hinv.serverStep ?_ hs, .left, view_serverStep hinv rfl (fun _ => id) hs ?_⟩
    · intro _ _ _ he
      cases he
    · intro _ _ _ he
      cases he

/-! ## Runs -/

/-- A peer in the states LINKED and ESTABLISHED. -/
def IsLinked (x : Client.Peer) : Prop := x.state = .linked ∨ x.state = .established

/-- When the two clients have each other as a peer that is linked, exactly one of them is the
DTLS client. -/
def RolesDiffer (setup : Setup) (n : Net) : Prop :=
  ∀ p < (n.client .left).reg.created, ∀ q < (n.client .right).reg.created,
    let x := (n.client .left).reg.peer p
    let y := (n.client .right).reg.peer q
    x.vpnIP = setup.vpnIP .right → y.vpnIP = setup.vpnIP .left → IsLinked x → IsLinked y →
      x.isDtlsClient ≠ y.isDtlsClient

/-- A linked peer is an open session. -/
theorem hasRole_of_isLinked {s : Client.State} (h : Client.Phased s) {p : Ptr}
    (hp : p < s.reg.created) (hlinked : IsLinked (s.reg.peer p)) :
    s.HasRole (s.reg.peer p).vpnIP (s.reg.peer p).isDtlsClient := by
  refine ⟨p, hp, .inl fun hnot => ?_, rfl, rfl, fun hclosed => ?_⟩
  · have hagrees := h.agrees p
    rw [hnot] at hagrees
    rcases hagrees with hst | hst <;> rcases hlinked with h | h <;> rw [hst] at h <;> cases h
  · rcases hlinked with h | h <;> rw [hclosed] at h <;> cases h

theorem rolesDiffer_of_exclusive (hinv : Inv setup n) (hex : (view setup n).Exclusive) :
    RolesDiffer setup n := by
  intro p hp q hq x y hx hy hlx hly heq
  have hleft := hasRole_of_isLinked (hinv.client .left) hp hlx
  have hright := hasRole_of_isLinked (hinv.client .right) hq hly
  rw [hx] at hleft
  rw [hy, ← heq] at hright
  cases hdtls : x.isDtlsClient with
  | true =>
    rw [hdtls] at hleft hright
    exact hex.client_client .left hleft hright
  | false =>
    rw [hdtls] at hleft hright
    exact hex.server_server .left hleft hright

theorem exclusive_init : (view setup .init).Exclusive := by
  have hrole : ∀ k dtls, ¬ (Net.init.client k).HasRole (setup.vpnIP k.other) dtls := by
    rintro k dtls ⟨p, hp, -⟩
    exact Nat.not_lt_zero p hp
  have hasked : ∀ k, ¬ Asked setup .init k := by
    rintro k (⟨pkt, hmem, -⟩ | hacc)
    · cases hmem
    · cases hacc
  exact ⟨fun k h => absurd h (hrole k _), fun k h => absurd h (hrole k _),
    fun k h => absurd h (hrole k _), fun k h => absurd h (hasked k),
    fun k h => absurd h (hasked k), fun k h => absurd h (hrole k _)⟩

/-- The two roles differ in every run in which a client only requests a session while it
serves none with the other one, and no request of the other one is open or on its way. -/
theorem roles_differ_of_no_crossing (h : Steps (step setup) (NoCrossing setup) .init n) :
    RolesDiffer setup n := by
  have key : Inv setup n ∧ (view setup n).Exclusive := by
    refine Steps.invariant (P := fun n => Inv setup n ∧ (view setup n).Exclusive) h
      ⟨inv_init setup, exclusive_init⟩ ?_
    rintro n a n' ⟨hinv, hex⟩ hno hs
    obtain ⟨hinv', i, hstep⟩ := step_view hinv hno hs
    exact ⟨hinv', hex.step hstep⟩
  exact rolesDiffer_of_exclusive key.1 key.2

/-! ### Runs of two clients -/

instance (s : Client.State) (p : Ptr) : Decidable (s.InUse p) :=
  inferInstanceAs (Decidable (_ ∨ _ ∨ _))

instance (s : Client.State) (v : InAddr) (dtls : Bool) : Decidable (s.HasRole v dtls) :=
  inferInstanceAs (Decidable (∃ p < _, _ ∧ _ ∧ _ ∧ _))

instance (setup : Setup) (i : Side) (pkt : Packet) :
    Decidable (IsAsk setup i pkt ∨ IsFwd setup i pkt) :=
  inferInstanceAs (Decidable ((_ ∧ _ ∧ _ ∧ _) ∨ (_ ∧ _ ∧ _)))

instance (setup : Setup) (n : Net) (i : Side) : Decidable (Asked setup n i) :=
  inferInstanceAs (Decidable ((∃ pkt ∈ n.flight, _) ∨ _))

instance (setup : Setup) (n : Net) (i : Side) : Decidable ((view setup n).Free i) :=
  inferInstanceAs (Decidable (¬ (n.client i).HasRole _ false ∧
    ¬ (n.client i.other).HasRole _ true ∧ ¬ Asked setup n i.other))

instance (setup : Setup) (n : Net) : (a : Act) → Decidable (NoCrossing setup n a)
  | .client _ _ => inferInstanceAs (Decidable (_ → _))
  | .hello _ | .ping _ | .bye _ | .deliver _ _ | .lose _ | .clean | .time =>
    inferInstanceAs (Decidable True)

/-- The endpoints of the two clients in the runs below. -/
def endpointOf : Side → SockaddrIn
  | .left => Rdv.endpoint 1
  | .right => Rdv.endpoint 2

/-- Their options: the VPN IPs are 101 and 102. -/
def clientOf : Side → Client.Configuration
  | .left => { Client.client100 with vpnIP := 101 }
  | .right => { Client.client100 with vpnIP := 102 }

/-- The two clients, without a NAT. -/
def twoClients : Setup where
  server := Rdv.twoClients
  clock := fun _ => 0
  serverAddr := ⟨9, 9⟩
  client := clientOf
  localaddr := fun _ => ⟨0, 0⟩
  endpoint := endpointOf
  sourceOf := fun i _ => endpointOf i
  route := fun e =>
    if e = endpointOf .left then some .left
    else if e = endpointOf .right then some .right
    else none
  serverAddr_eq := fun i => by cases i <;> rfl
  vpnIP_ne := fun i => by cases i <;> decide
  sourceOf_server := fun _ => rfl
  route_endpoint := fun i => by cases i <;> decide

/-- The first datagram arrives. -/
def arrival : Act := .deliver 0 (Rdv.allocAt 0)

/-- Both clients register. -/
def registerBoth : List Act :=
  [.hello .left, arrival, arrival, .hello .right, .deliver 0 (Rdv.allocAt 1), arrival]

/-- The client `i` asks for the other one. -/
def requestOther (i : Side) : List Act :=
  (Client.request (twoClients.vpnIP i.other) 0).map (.client i)

/-- The client `i` takes a message of the server, and deals with it in `k` steps. -/
def takeMessage (i : Side) (k : ℕ) : List Act :=
  arrival :: List.replicate k (.client i (.rdvStep 0 Client.allocOk))

/-- The peer of the client `i` moves on by `k` steps. -/
def handle (i : Side) (k : ℕ) : List Act :=
  List.replicate k (.client i (.handlerStep 0 0 true .again))

/-- The client `i` takes a PUNCH of the other one and is linked. -/
def takePunch (i : Side) : List Act :=
  [arrival, .client i .socketStep, .client i .socketStep] ++ handle i 1

/-- The left client asks for the right one, which accepts. -/
def oneRequest : List Act :=
  registerBoth ++ requestOther .left ++ [arrival] ++ takeMessage .left 3 ++ takeMessage .right 3 ++
    handle .left 3 ++ handle .right 2 ++
    [.client .left (.punchStep 0 0), .client .right (.punchStep 0 0)] ++
    takePunch .right ++ takePunch .left

theorem roles_differ_of_no_crossing_oneRequest :
    ∃ n, Steps (step twoClients) (NoCrossing twoClients) .init n ∧
      ((n.client .left).reg.peer 0).state = .linked ∧
      ((n.client .right).reg.peer 0).state = .linked ∧ RolesDiffer twoClients n := by
  have hrun : (runOk (step twoClients) (NoCrossing twoClients) oneRequest .init).map (fun n =>
      (((n.client .left).reg.peer 0).state, ((n.client .right).reg.peer 0).state)) =
        some (.linked, .linked) := by decide +kernel
  obtain ⟨n, hn, heq⟩ := Option.map_eq_some_iff.mp hrun
  simp only [Prod.mk.injEq] at heq
  have hsteps := Steps.of_runOk .refl hn
  exact ⟨n, hsteps, heq.1, heq.2, roles_differ_of_no_crossing hsteps⟩

/-- Both clients ask for the other one before the server has seen a request. The server answers
both, and both ignore the introduction since they have a peer already. -/
def crossingRequests : List Act :=
  registerBoth ++ requestOther .left ++ requestOther .right ++
    [.deliver 0 (Rdv.allocAt 0), .deliver 0 (Rdv.allocAt 1)] ++
    takeMessage .left 3 ++ takeMessage .right 2 ++ takeMessage .right 3 ++ takeMessage .left 2 ++
    handle .left 3 ++ handle .right 3 ++
    [.client .left (.punchStep 0 0), .client .right (.punchStep 0 0)] ++
    takePunch .right ++ takePunch .left

/-- The client `i` has one peer, the other client, and is linked to it as the DTLS client. -/
def LinkedAsClient (n : Net) (i : Side) : Prop :=
  (n.client i).reg.created = 1 ∧ ((n.client i).reg.peer 0).vpnIP = twoClients.vpnIP i.other ∧
    ((n.client i).reg.peer 0).state = .linked ∧ ((n.client i).reg.peer 0).isDtlsClient = true

instance (n : Net) (i : Side) : Decidable (LinkedAsClient n i) :=
  inferInstanceAs (Decidable (_ ∧ _ ∧ _ ∧ _))

/-- After two requests that cross, both clients are linked as the DTLS client. -/
theorem roles_clash_by_crossing :
    ∃ n, Steps (step twoClients) (fun _ _ => True) .init n ∧ LinkedAsClient n .left ∧
      LinkedAsClient n .right ∧ ¬ RolesDiffer twoClients n := by
  have hrun : (run (step twoClients) crossingRequests .init).any (fun n =>
      LinkedAsClient n .left ∧ LinkedAsClient n .right) = true := by decide +kernel
  obtain ⟨n, hn, hobs⟩ := (Option.any_eq_true ..).mp hrun
  obtain ⟨hleft, hright⟩ := of_decide_eq_true hobs
  refine ⟨n, Steps.of_run .refl hn, hleft, hright, fun hdiffer => ?_⟩
  obtain ⟨hp, hx, hls, hld⟩ := hleft
  obtain ⟨hq, hy, hrs, hrd⟩ := hright
  exact hdiffer 0 (by rw [hp]; decide) 0 (by rw [hq]; decide) hx hy (.inl hls) (.inl hrs)
    (hld.trans hrd.symm)

end Network
end Campagnol
