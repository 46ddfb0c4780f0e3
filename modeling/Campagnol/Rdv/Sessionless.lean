import Campagnol.Rdv.Frame
import Campagnol.Rdv.Messages

/-!
# The session table cannot be observed

`Sessionless` is the RDV server without its session table: it introduces two clients to each
other without looking for a session, ignores CLOSE_CONNECTION, and removes a client from the
registry only. Both servers send the same messages and have the same clients after every run.

A step comes with its own readings of the clock, since the two servers do not call `time(NULL)`
equally often.
-/

namespace Campagnol
namespace Rdv

open Server

/-! ## Steps with their own clock -/

/-- A step in which the `j`-th call of `time(NULL)` returns `now j`. -/
structure TimedEvent where
  event : Event
  now : ℕ → Int

/-- A step of the server at its own time. -/
def stepAt (config : Configuration) (s : Server) (x : TimedEvent) : Option Server :=
  step config x.now { s with ticks := 0 } x.event

/-! ## The server without sessions -/

/-- A server whose session table is never used. -/
def Server.erase (s : Server) : Server := { s with tab := .init }

namespace Sessionless

/-- `remove_client`. -/
def dropClient (s : Server) (peer : Ptr) : Server := { s with reg := s.reg.removeClient peer }

/-- `clean_dead_clients`. -/
def cleanDeadClients (clock : ℕ → Int) (s : Server) : Server :=
  Links.walk (fun s peer => s.reg.clients.next peer)
    (fun peer s => if s.clientIsDead clock peer then dropClient s.tick peer else s.tick)
    s.reg.client.size s.reg.clients.head s

/-- HELLO from an endpoint that is not registered, once the VPN IP is free. -/
def helloFree (config : Configuration) (clock : ℕ → Int) (env : Env) (s : Server)
    (rmsg : Message) (src : SockaddrIn) : Server :=
  if config.maxClients ≠ 0 ∧ s.reg.nClients = config.maxClients then
    let s := cleanDeadClients clock s
    if s.reg.nClients = config.maxClients then s.sendNOK src
    else register config clock env s rmsg src
  else register config clock env s rmsg src

/-- HELLO from an endpoint that is not registered. -/
def helloUnknown (config : Configuration) (clock : ℕ → Int) (env : Env) (s : Server)
    (rmsg : Message) (src : SockaddrIn) : Server :=
  match s.reg.getClientVPN rmsg.ip1 with
  | some peerTmp =>
    if s.clientIsTimeout clock peerTmp then
      helloFree config clock env (dropClient s.tick peerTmp) rmsg src
    else s.tick.sendNOK src
  | none => helloFree config clock env s rmsg src

/-- HELLO from the endpoint of the client `peer`. -/
def helloKnown (config : Configuration) (clock : ℕ → Int) (env : Env) (s : Server)
    (rmsg : Message) (src : SockaddrIn) (peer : Ptr) : Server :=
  if s.clientIsTimeout clock peer then
    let s := s.tick
    if s.reg.vpnOf peer = rmsg.ip1 then (s.clientUpdateTime clock peer).sendOK src
    else register config clock env (dropClient s peer) rmsg src
  else s.tick.sendNOK src

/-- ASK_CONNECTION: the two clients are introduced to each other. -/
def handleAsk (clock : ℕ → Int) (s : Server) (rmsg : Message) (src : SockaddrIn) (peer : Ptr) :
    Server :=
  match s.reg.getClientVPN rmsg.ip1 with
  | none => s.sendREJECT rmsg.ip1 src
  | some peerTmp =>
    if s.clientIsTimeout clock peerTmp then
      dropClient (s.tick.sendREJECT rmsg.ip1 src) peerTmp
    else
      let sendLocal := s.sendLocalIp peer peerTmp
      (s.tick.sendANS peer peerTmp sendLocal).sendFWD peerTmp peer sendLocal

/-- `handle_packet`. -/
def handlePacket (config : Configuration) (clock : ℕ → Int) (env : Env) (s : Server)
    (rmsg : Message) (src : SockaddrIn) : Server :=
  match s.reg.getClientReal src with
  | none =>
    match rmsg.type with
    | .hello => helloUnknown config clock env s rmsg src
    | _ => s.sendRECONNECT src
  | some peer =>
    match rmsg.type with
    | .hello => helloKnown config clock env s rmsg src peer
    | .bye => dropClient s peer
    | .ping => s.handlePing clock src peer
    | .askConnection => handleAsk clock s rmsg src peer
    | _ => s

/-- One step of the server without sessions. -/
def step (config : Configuration) (clock : ℕ → Int) (s : Server) : Event → Option Server
  | .packet rmsg src env => some (handlePacket config clock env s rmsg src)
  | .clean => some (cleanDeadClients clock s)
  | .time => some s.tick

/-- A step at its own time. -/
def stepAt (config : Configuration) (s : Server) (x : TimedEvent) : Option Server :=
  step config x.now { s with ticks := 0 } x.event

end Sessionless

/-- Both servers take the same step. -/
def stepBoth (config : Configuration) (p : Server × Server) (x : TimedEvent) :
    Option (Server × Server) :=
  match stepAt config p.1 x, Sessionless.stepAt config p.2 x with
  | some s, some s₀ => some (s, s₀)
  | _, _ => none

/-- The same clients and the same messages, without the sessions. -/
def SameClients (s s₀ : Server) : Prop := s₀.reg = s.reg ∧ s₀.sent = s.sent ∧ s₀.tab = .init

variable {config : Configuration} {clock : ℕ → Int} {s s' s₀ : Server} {rmsg : Message}
  {src : SockaddrIn} {env : Env} {p : Ptr}

/-! ## One step -/

theorem SameClients.of_erase (h : s'.erase = s₀) : SameClients s' s₀ := by
  subst h
  exact ⟨rfl, rfl, rfl⟩

theorem erase_cleanDeadClients (clock : ℕ → Int) (s : Server) :
    (s.cleanDeadClients clock).erase = Sessionless.cleanDeadClients clock s.erase := by
  have hbody : ∀ (t : Server) (x : Ptr),
      Server.erase (if t.clientIsDead clock x then t.tick.dropClient x else t.tick) =
        if t.erase.clientIsDead clock x then Sessionless.dropClient t.erase.tick x
        else t.erase.tick := by
    intro t x
    have hdead : t.erase.clientIsDead clock x = t.clientIsDead clock x := rfl
    rw [hdead]
    split <;> rfl
  have hnext : ∀ (t : Server) (x : Ptr), t.erase.reg.clients.next x = t.reg.clients.next x :=
    fun _ _ => rfl
  exact Links.walk_map Server.erase (fun s peer => s.reg.clients.next peer)
    (fun peer s => if s.clientIsDead clock peer then Sessionless.dropClient s.tick peer
      else s.tick) hnext hbody _ _ s

theorem erase_register :
    (s.register config clock env rmsg src).erase = s.erase.register config clock env rmsg src := by
  unfold Server.register
  have hadd : s.erase.reg.addClient config env.client (s.erase.now clock) src rmsg.ip1
      (localaddrOf rmsg) = s.reg.addClient config env.client (s.now clock) src rmsg.ip1
        (localaddrOf rmsg) := rfl
  rw [hadd]
  cases s.reg.addClient config env.client (s.now clock) src rmsg.ip1 (localaddrOf rmsg) with
  | mk res reg => cases res <;> rfl

theorem erase_helloFree :
    (s.helloFree config clock env rmsg src).erase =
      Sessionless.helloFree config clock env s.erase rmsg src := by
  unfold Server.helloFree Sessionless.helloFree
  rw [← erase_cleanDeadClients]
  simp only
  split
  · rename_i hfull
    rw [if_pos (show config.maxClients ≠ 0 ∧ s.erase.reg.nClients = config.maxClients from hfull)]
    split
    · rename_i hfull
      exact (if_pos hfull).symm
    · rename_i hroom
      rw [if_neg (by exact hroom)]
      exact erase_register
  · rename_i hroom
    rw [if_neg (by exact hroom)]
    exact erase_register

theorem erase_helloUnknown :
    (s.helloUnknown config clock env rmsg src).erase =
      Sessionless.helloUnknown config clock env s.erase rmsg src := by
  unfold Server.helloUnknown Sessionless.helloUnknown
  have hvpn : s.erase.reg.getClientVPN rmsg.ip1 = s.reg.getClientVPN rmsg.ip1 := rfl
  rw [hvpn]
  cases s.reg.getClientVPN rmsg.ip1 with
  | none => exact erase_helloFree
  | some q =>
    have hto : s.erase.clientIsTimeout clock q = s.clientIsTimeout clock q := rfl
    simp only [hto]
    split
    · exact erase_helloFree
    · rfl

theorem erase_helloKnown :
    (s.helloKnown config clock env rmsg src p).erase =
      Sessionless.helloKnown config clock env s.erase rmsg src p := by
  unfold Server.helloKnown Sessionless.helloKnown
  have hto : s.erase.clientIsTimeout clock p = s.clientIsTimeout clock p := rfl
  have hvpn : s.erase.tick.reg.vpnOf p = s.tick.reg.vpnOf p := rfl
  simp only [hto, hvpn]
  split
  · split
    · rfl
    · exact erase_register
  · rfl

/-- ASK_CONNECTION: the stored session, and the new one, is that of the two clients. -/
theorem sameClients_handleAsk {cl sl : List Ptr} (hw : s.tab.Inv cl sl)
    (halloc : AllocOk s (.packet rmsg src env)) :
    SameClients (s.handleAsk clock env rmsg src p)
      (Sessionless.handleAsk clock s.erase rmsg src p) := by
  cases hq : s.reg.getClientVPN rmsg.ip1 with
  | none =>
    have hq₀ : s.erase.reg.getClientVPN rmsg.ip1 = none := hq
    simp only [Server.handleAsk, Sessionless.handleAsk, hq, hq₀]
    exact ⟨rfl, rfl, rfl⟩
  | some q =>
    have hq₀ : s.erase.reg.getClientVPN rmsg.ip1 = some q := hq
    cases hto : s.clientIsTimeout clock q with
    | true =>
      have hto₀ : s.erase.clientIsTimeout clock q = true := hto
      simp only [Server.handleAsk, Sessionless.handleAsk, hq, hq₀, hto, hto₀, if_true]
      exact ⟨rfl, rfl, rfl⟩
    | false =>
      have hto₀ : s.erase.clientIsTimeout clock q = false := hto
      have hok : ¬AddSessionFails clock env s p q := by
        rintro ⟨_, hfail⟩
        have hsome := halloc.addSession_isSome hw rfl p q (clock (s.ticks + 1))
        rw [hfail] at hsome
        cases hsome
      have hreg : (s.handleAsk clock env rmsg src p).reg = s.reg := by
        simp only [Server.handleAsk, hq, hto, Bool.false_eq_true, if_false]
        split
        · exact (Server.askNewSession_fields clock env s.tick rmsg src p q _).1
        · exact (Server.askOldSession_fields clock s.tick _ _).1
      have hask : Sessionless.handleAsk clock s.erase rmsg src p =
          (s.erase.tick.sendANS p q (s.sendLocalIp p q)).sendFWD q p (s.sendLocalIp p q) := by
        simp only [Sessionless.handleAsk, hq₀, hto₀, Bool.false_eq_true, if_false]
        rfl
      rw [hask]
      refine ⟨?_, ?_, ?_⟩
      · rw [hreg, Server.sendFWD, Server.sendANS, Server.sendEndpoint_reg, Server.sendEndpoint_reg]
        rfl
      · rw [handleAsk_introduces hw hq hto hok]
        exact sendANS_sendFWD_sent (s := s) rfl rfl
      · rw [Server.sendFWD, Server.sendANS, Server.sendEndpoint_tab, Server.sendEndpoint_tab]
        rfl

theorem sameClients_handlePacket (hok : s.Ok config) (halloc : AllocOk s (.packet rmsg src env)) :
    SameClients (s.handlePacket config clock env rmsg src)
      (Sessionless.handlePacket config clock env s.erase rmsg src) := by
  unfold Server.handlePacket Sessionless.handlePacket
  have hreal : s.erase.reg.getClientReal src = s.reg.getClientReal src := rfl
  rw [hreal]
  cases s.reg.getClientReal src with
  | none =>
    cases rmsg.type with
    | hello => exact .of_erase erase_helloUnknown
    | _ => exact ⟨rfl, rfl, rfl⟩
  | some p =>
    cases rmsg.type with
    | hello => exact .of_erase erase_helloKnown
    | askConnection =>
      obtain ⟨cl, sl, _, hw⟩ := hok
      exact sameClients_handleAsk hw halloc
    | closeConnection =>
      simp only [Server.handleClose]
      split <;> exact ⟨rfl, rfl, rfl⟩
    | _ => exact ⟨rfl, rfl, rfl⟩

theorem sameClients_step {e : Event} (hok : s.Ok config) (halloc : AllocOk s e)
    (hs : step config clock s e = some s')
    (hs₀ : Sessionless.step config clock s.erase e = some s₀) : SameClients s' s₀ := by
  cases e with
  | packet rmsg src env =>
    cases hs
    cases hs₀
    exact sameClients_handlePacket hok halloc
  | clean =>
    cases hs
    cases hs₀
    exact .of_erase (erase_cleanDeadClients clock s)
  | time =>
    cases hs
    cases hs₀
    exact ⟨rfl, rfl, rfl⟩

theorem stepBoth_sameClients {t t₀ u u₀ : Server} {x : TimedEvent} (hok : t.Ok config)
    (hsame : SameClients t t₀) (halloc : AllocOk t x.event)
    (hs : stepBoth config (t, t₀) x = some (u, u₀)) : u.Ok config ∧ SameClients u u₀ := by
  obtain ⟨hreg, hsent, htab⟩ := hsame
  -- both start with the same clock, and then `t₀` is `t` without its sessions
  have herase : ({ t₀ with ticks := 0 } : Server) = Server.erase { t with ticks := 0 } := by
    rw [Server.erase, ← hreg, ← hsent, ← htab]
  have hok' : Server.Ok config { t with ticks := 0 } := hok.of_eq rfl rfl
  simp only [stepBoth] at hs
  split at hs
  · rename_i v v₀ hv hv₀
    obtain ⟨rfl, rfl⟩ := Prod.mk.inj (Option.some.inj hs)
    rw [Sessionless.stepAt, herase] at hv₀
    exact ⟨hok'.changes (step_changes hok' hv), sameClients_step hok' halloc hv hv₀⟩
  · cases hs

/-! ## Whole runs -/

/-- After every run in which the allocations succeed, the server without sessions has sent the
same messages to the same destinations in the same order, and has the same clients: the list,
the trees, the data and `n_clients`. -/
theorem sessions_unobservable
    (h : Steps (stepBoth config) (fun p x => AllocOk p.1 x.event) (.init, .init) (s, s₀)) :
    s₀.sent = s.sent ∧ s₀.reg = s.reg := by
  have key : (s, s₀).1.Ok config ∧ SameClients (s, s₀).1 (s, s₀).2 := by
    refine h.invariant (P := fun p => p.1.Ok config ∧ SameClients p.1 p.2)
      ⟨Server.ok_init config, rfl, rfl, rfl⟩ ?_
    rintro ⟨t, t₀⟩ x ⟨u, u₀⟩ ⟨hok, hsame⟩ halloc hs
    exact stepBoth_sameClients hok hsame halloc hs
  exact ⟨key.2.2.1, key.2.1⟩

/-! ### A run with a session -/

/-- A packet, its source, and the address of what is allocated for it, at the time 0. -/
def packetAt (x : Message × SockaddrIn × Ptr) : TimedEvent :=
  ⟨.packet x.1 x.2.1 (allocAt x.2.2), fun _ => 0⟩

/-- Two clients register, ask for each other, and the second one closes the session. -/
def askAndClose : List (Message × SockaddrIn × Ptr) :=
  [(hello 101, endpoint 1, 0), (hello 102, endpoint 2, 1),
    (⟨.askConnection, 0, 102, 0⟩, endpoint 1, 2), (⟨.askConnection, 0, 102, 0⟩, endpoint 1, 3),
    (⟨.askConnection, 0, 101, 0⟩, endpoint 2, 4), (⟨.closeConnection, 0, 101, 0⟩, endpoint 2, 5)]

theorem sessions_unobservable_askAndClose :
    ∃ s s₀, Steps (stepBoth twoClients) (fun p x => AllocOk p.1 x.event) (.init, .init) (s, s₀) ∧
      s.sent.length = 8 ∧ s₀.sent = s.sent ∧ s₀.reg = s.reg := by
  have hrun : (runOk (fun p x => stepBoth twoClients p (packetAt x))
      (fun p x => p.1.reg.client.inUse x.2.2 = false ∧ p.1.tab.session.inUse x.2.2 = false)
      askAndClose (.init, .init)).any (fun p => p.1.sent.length = 8) = true := by decide +kernel
  obtain ⟨⟨s, s₀⟩, hs, hlen⟩ := (Option.any_eq_true ..).mp hrun
  have hsteps : Steps (stepBoth twoClients) (fun p x => AllocOk p.1 x.event) (.init, .init)
      (s, s₀) :=
    (Steps.of_runOk .refl hs).of_events packetAt fun _ _ hfree =>
      allocOk_allocAt hfree.1 hfree.2
  exact ⟨s, s₀, hsteps, of_decide_eq_true hlen, sessions_unobservable hsteps⟩

end Rdv
end Campagnol
