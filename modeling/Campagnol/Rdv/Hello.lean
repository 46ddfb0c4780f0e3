import Campagnol.Rdv.Frame
import Campagnol.Rdv.Messages

/-!
# Answers to HELLO

A HELLO ends in one of five ways (`HelloResult`). From these follow what a client that gets an
OK is registered with, and when a client that gets a NOK is registered all the same.
-/

namespace Campagnol
namespace Rdv

open Server

/-- The answer of type `type` to the endpoint `src`. -/
def answer (type : MsgType) (src : SockaddrIn) : Datagram := ⟨⟨type, 0, .empty, .empty⟩, src⟩

/-- From `s` to `s'` exactly one message has been sent, the answer of type `type` to `src`. -/
def Answers (type : MsgType) (src : SockaddrIn) (s s' : Server) : Prop :=
  s'.sent = s.sent ++ [answer type src]

/-- The last reading of the clock before the state `s`. -/
def lastReading (clock : ℕ → Int) (s : Server) : Int := clock (s.ticks - 1)

/-- How a HELLO from `src` ends. -/
inductive HelloResult (clock : ℕ → Int) (rmsg : Message) (src : SockaddrIn) (s s' : Server) :
    Prop
  /-- The endpoint belongs to a client that is not timed out. -/
  | known (p : Ptr) (hp : s.reg.getClientReal src = some p)
      (hto : s.clientIsTimeout clock p = false) (hreg : s'.reg = s.reg)
      (hsent : Answers .nok src s s')
  /-- The VPN IP is in use, or the server is full. -/
  | refused (hnew : s.reg.getClientReal src = none) (hnew' : s'.reg.getClientReal src = none)
      (hsent : Answers .nok src s s')
  /-- The endpoint belongs to a timed-out client with the same VPN IP. -/
  | refreshed (p : Ptr) (hp : s.reg.getClientReal src = some p)
      (hvpn : s.reg.vpnOf p = rmsg.ip1)
      (hreg : s'.reg = s.reg.clientUpdateTime (lastReading clock s') p)
      (hsent : Answers .ok src s s')
  /-- `add_client` has been called for the endpoint. -/
  | registered (q : Ptr) (hold : ∀ p, s.reg.getClientReal src = some p → s.reg.vpnOf p ≠ rmsg.ip1)
      (hq : s'.reg.getClientReal src = some q)
      (hdata : s'.reg.clientAt q = ⟨lastReading clock s', src, localaddrOf rmsg, rmsg.ip1⟩)
      (hsent : Answers .ok src s s')
  /-- `add_client` has failed. -/
  | failed (hsent : s'.sent = s.sent)

variable {config : Configuration} {clock : ℕ → Int} {s₀ s s' : Server} {rmsg : Message}
  {src : SockaddrIn} {env : Env} {p : Ptr}

/-! ## The branches -/

/-- The end of the registering branches. -/
theorem register_result (hok : s.Ok config) (hnew : s.reg.getClientReal src = none)
    (hsent₀ : s.sent = s₀.sent)
    (hold : ∀ p, s₀.reg.getClientReal src = some p → s₀.reg.vpnOf p ≠ rmsg.ip1) :
    HelloResult clock rmsg src s₀ (s.register config clock env rmsg src) := by
  obtain ⟨cl, _, hr, _⟩ := hok
  unfold Server.register
  rcases hr.addClient_cases env.client (s.now clock) rmsg.ip1 (localaddrOf rmsg) hnew with
    hfail | ⟨q, r', hadd, hadded⟩
  · rw [hfail]
    exact .failed hsent₀
  · rw [hadd]
    have hself : r'.clientAt q = ⟨s.now clock, src, localaddrOf rmsg, rmsg.ip1⟩ := hadded.get_self
    have haddr : r'.addrOf q = src := congrArg Client.clientaddr hself
    refine .registered q hold ?_ hself (congrArg (· ++ [answer .ok src]) hsent₀)
    exact hadded.inv.getClientReal_eq_some.mpr ⟨List.mem_cons_self .., haddr⟩

theorem helloFree_result (hok : s.Ok config) (hnew : s.reg.getClientReal src = none)
    (hsent₀ : s.sent = s₀.sent) (hnew₀ : s₀.reg.getClientReal src = none) :
    HelloResult clock rmsg src s₀ (s.helloFree config clock env rmsg src) := by
  have hold : ∀ p, s₀.reg.getClientReal src = some p → s₀.reg.vpnOf p ≠ rmsg.ip1 := by
    intro p hp
    rw [hnew₀] at hp
    cases hp
  unfold Server.helloFree
  split
  · -- the cleaning may make room
    have hclean : (s.cleanDeadClients clock).sent = s₀.sent :=
      (cleanDeadClients_sent hok).trans hsent₀
    have hnew' : (s.cleanDeadClients clock).reg.getClientReal src = none :=
      ((Shrunk.refl s).cleanDeadClients hok).real_none src hnew
    have hok' : (s.cleanDeadClients clock).Ok config :=
      hok.changes (hok.clean_changes (e := .clean) (.refl s))
    simp only
    split
    · exact .refused hnew₀ hnew' (congrArg (· ++ [answer .nok src]) hclean)
    · exact register_result hok' hnew' hclean hold
  · exact register_result hok hnew hsent₀ hold

theorem helloUnknown_result (hok : s.Ok config) (hnew : s.reg.getClientReal src = none) :
    HelloResult clock rmsg src s (s.helloUnknown config clock env rmsg src) := by
  unfold Server.helloUnknown
  split
  · rename_i q hq
    have hlive := (hok.live_of_getClientVPN hq).1
    split
    · have hdrop : (s.tick.dropClient q).reg.getClientReal src = none :=
        ((Shrunk.refl s).tick.dropClient hok.tick hlive).real_none src hnew
      exact helloFree_result (hok.tick.dropClient hlive) hdrop rfl hnew
    · exact .refused hnew hnew rfl
  · exact helloFree_result hok hnew rfl hnew

theorem helloKnown_result (hok : s.Ok config) (hp : s.reg.getClientReal src = some p) :
    HelloResult clock rmsg src s (s.helloKnown config clock env rmsg src p) := by
  have hlive := (hok.live_of_getClientReal hp).1
  unfold Server.helloKnown
  split
  · simp only
    split
    · rename_i hvpn
      exact .refreshed p hp hvpn rfl rfl
    · rename_i hvpn
      have hnew : (s.tick.dropClient p).reg.getClientReal src = none :=
        hok.tick.getClientReal_dropClient hp
      refine register_result (hok.tick.dropClient hlive) hnew rfl fun q hq => ?_
      rw [hp] at hq
      cases hq
      exact hvpn
  · rename_i hto
    exact .known p hp (Bool.not_eq_true _ ▸ hto) rfl rfl

theorem hello_result (hok : s.Ok config) (ht : rmsg.type = .hello) :
    HelloResult clock rmsg src s (s.handlePacket config clock env rmsg src) := by
  cases hp : s.reg.getClientReal src with
  | none =>
    simp only [Server.handlePacket, hp, ht]
    exact helloUnknown_result hok hp
  | some p =>
    simp only [Server.handlePacket, hp, ht]
    exact helloKnown_result hok hp

theorem Answers.type_eq {type type' : MsgType} (h : Answers type src s s')
    (h' : Answers type' src s s') : type = type' := by
  have hmsg : [answer type src] = [answer type' src] := List.append_cancel_left (h.symm.trans h')
  simpa [answer] using hmsg

theorem Answers.sent_ne {type : MsgType} (h : Answers type src s s') : s'.sent ≠ s.sent := by
  rw [h]
  simp

/-! ## Accepted registrations -/

/-- The client found under `src` has the VPN IP and the local address of the HELLO `rmsg`, and
the time of the last reading of the clock. -/
def RecordedAs (clock : ℕ → Int) (rmsg : Message) (src : SockaddrIn) (s : Server) : Prop :=
  ∃ p, s.reg.getClientReal src = some p ∧ s.reg.vpnOf p = rmsg.ip1 ∧
    (s.reg.clientAt p).time = lastReading clock s ∧
    (s.reg.clientAt p).localaddr =
      if rmsg.port ≠ 0 then ⟨rmsg.ip2, rmsg.port⟩ else ⟨.empty, 0⟩

/-- The endpoint `src` is registered with the VPN IP of the HELLO `rmsg`, but with another
local address. -/
def Relocated (rmsg : Message) (src : SockaddrIn) (s : Server) : Prop :=
  ∃ p, s.reg.getClientReal src = some p ∧ s.reg.vpnOf p = rmsg.ip1 ∧
    (s.reg.clientAt p).localaddr ≠ localaddrOf rmsg

/-- `client_update_time` leaves the endpoint, the VPN IP and the local address alone. -/
theorem recordedAs_refreshed (hok : s.Ok config) (hp : s.reg.getClientReal src = some p)
    (hvpn : s.reg.vpnOf p = rmsg.ip1)
    (hreg : s'.reg = s.reg.clientUpdateTime (lastReading clock s') p) :
    RecordedAs clock rmsg src s' ↔ (s.reg.clientAt p).localaddr = localaddrOf rmsg := by
  obtain ⟨cl, _, hr, _⟩ := hok
  obtain ⟨hpcl, haddr⟩ := hr.getClientReal_eq_some.mp hp
  have hkeys := Registry.clientUpdateTime_keys (r := s.reg) (lastReading clock s') p p
  have hp' : s'.reg.getClientReal src = some p := by
    rw [hreg]
    exact (hr.clientUpdateTime _ p).getClientReal_eq_some.mpr ⟨hpcl, hkeys.1.trans haddr⟩
  have hself : s'.reg.clientAt p = { s.reg.clientAt p with time := lastReading clock s' } := by
    rw [hreg]
    exact hr.clientUpdateTime_clientAt_self _ hpcl
  constructor
  · rintro ⟨q, hq, _, _, hlocal⟩
    rw [hp'] at hq
    cases hq
    rw [hself] at hlocal
    exact hlocal
  · intro hlocal
    refine ⟨p, hp', ?_, by rw [hself], by rw [hself]; exact hlocal⟩
    rw [hreg, hkeys.2]
    exact hvpn

/-- In every reachable state, a HELLO that is answered with OK is recorded as it was sent if
and only if its endpoint is not registered already with the same VPN IP and another local
address. -/
theorem hello_recorded_iff (hreach : Steps (step config clock) AnyStep .init s)
    (ht : rmsg.type = .hello)
    (hans : Answers .ok src s (s.handlePacket config clock env rmsg src)) :
    RecordedAs clock rmsg src (s.handlePacket config clock env rmsg src) ↔
      ¬Relocated rmsg src s := by
  have hok := ok_of_steps hreach
  generalize hs' : s.handlePacket config clock env rmsg src = s' at hans ⊢
  have hresult : HelloResult clock rmsg src s s' := hs' ▸ hello_result hok ht
  cases hresult with
  | known p hp hto hreg hsent => cases hans.type_eq hsent
  | refused hnew hnew' hsent => cases hans.type_eq hsent
  | failed hsent => exact absurd hsent hans.sent_ne
  | refreshed p hp hvpn hreg hsent =>
    rw [recordedAs_refreshed hok hp hvpn hreg]
    constructor
    · rintro hlocal ⟨q, hq, _, hne⟩
      rw [hp] at hq
      cases hq
      exact hne hlocal
    · intro hnot
      by_contra hne
      exact hnot ⟨p, hp, hvpn, hne⟩
  | registered q hold hq hdata hsent =>
    have hrec : RecordedAs clock rmsg src s' :=
      ⟨q, hq, congrArg Client.vpnIP hdata, by rw [hdata], by rw [hdata]; rfl⟩
    refine iff_of_true hrec ?_
    rintro ⟨p, hp, hvpn, _⟩
    exact hold p hp hvpn

/-! ### A client that has moved -/

/-- A clock that stands at 0 for one reading, and at 6 from then on. -/
def sixSeconds (k : ℕ) : Int := if k < 1 then 0 else 6

/-- A client registers without a local address. -/
def registerOne : List Event := [.packet (hello 101) (endpoint 1) (allocAt 0)]

/-- The HELLO of the client with the VPN IP 101 and the local address 10:5000. -/
def movedHello : Message := ⟨.hello, 5000, 101, 10⟩

/-- After 6 seconds of silence the client sends the same HELLO again. -/
theorem hello_recorded_iff_refreshed :
    ∃ s, Steps (step twoClients sixSeconds) AnyStep .init s ∧
      RecordedAs sixSeconds (hello 101) (endpoint 1)
        (s.handlePacket twoClients sixSeconds (allocAt 1) (hello 101) (endpoint 1)) := by
  have hrun : (run (step twoClients sixSeconds) registerOne .init).any (fun s =>
      let s' := s.handlePacket twoClients sixSeconds (allocAt 1) (hello 101) (endpoint 1)
      s'.sent = s.sent ++ [answer .ok (endpoint 1)] ∧ s.reg.getClientReal (endpoint 1) = some 0 ∧
        (s.reg.clientAt 0).localaddr = ⟨0, 0⟩) = true := by decide +kernel
  obtain ⟨s, hs, hobs⟩ := (Option.any_eq_true ..).mp hrun
  obtain ⟨hans, hreal, hlocal⟩ := of_decide_eq_true hobs
  have hreach := Steps.of_run .refl hs
  refine ⟨s, hreach, (hello_recorded_iff hreach rfl hans).mpr ?_⟩
  rintro ⟨p, hp, _, hne⟩
  rw [hreal] at hp
  cases hp
  exact hne hlocal

/-- After 6 seconds of silence the client sends a HELLO with its local address. It gets an OK,
but the local address is not recorded. -/
theorem hello_not_recorded_moved :
    ∃ s, Steps (step twoClients sixSeconds) AnyStep .init s ∧
      Answers .ok (endpoint 1) s
        (s.handlePacket twoClients sixSeconds (allocAt 1) movedHello (endpoint 1)) ∧
      ¬RecordedAs sixSeconds movedHello (endpoint 1)
        (s.handlePacket twoClients sixSeconds (allocAt 1) movedHello (endpoint 1)) := by
  have hrun : (run (step twoClients sixSeconds) registerOne .init).any (fun s =>
      let s' := s.handlePacket twoClients sixSeconds (allocAt 1) movedHello (endpoint 1)
      s'.sent = s.sent ++ [answer .ok (endpoint 1)] ∧ s'.reg.getClientReal (endpoint 1) = some 0 ∧
        (s'.reg.clientAt 0).localaddr = ⟨0, 0⟩) = true := by decide +kernel
  obtain ⟨s, hs, hobs⟩ := (Option.any_eq_true ..).mp hrun
  obtain ⟨hans, hreal, hlocal⟩ := of_decide_eq_true hobs
  refine ⟨s, Steps.of_run .refl hs, hans, ?_⟩
  rintro ⟨p, hp, _, _, hrec⟩
  rw [hreal] at hp
  cases hp
  rw [hlocal] at hrec
  revert hrec
  decide

/-! ## Refused registrations -/

/-- At the time `now` the server regards the endpoint `e` as registered with the VPN IP `v`. -/
def Regards (now : Int) (e : SockaddrIn) (v : InAddr) (s : Server) : Prop :=
  ∃ c, Listed s c ∧ s.reg.addrOf c = e ∧ s.reg.vpnOf c = v ∧
    s.reg.clientIsTimeout now c = false

/-- The client found under the endpoint `e` has the VPN IP `v`, and is not timed out. -/
def AlreadyRegistered (clock : ℕ → Int) (e : SockaddrIn) (v : InAddr) (s : Server) : Prop :=
  ∃ p, s.reg.getClientReal e = some p ∧ s.reg.vpnOf p = v ∧ s.clientIsTimeout clock p = false

theorem regards_iff {now : Int} {v : InAddr} (hok : s.Ok config) :
    Regards now src v s ↔ ∃ p, s.reg.getClientReal src = some p ∧ s.reg.vpnOf p = v ∧
      s.reg.clientIsTimeout now p = false := by
  constructor
  · rintro ⟨c, hc, haddr, hvpn, hto⟩
    have hlive := hok.listed_iff.mp hc
    obtain ⟨cl, _, hr, _⟩ := hok
    exact ⟨c, hr.getClientReal_eq_some.mpr ⟨(hr.heap_iff c).mp hlive, haddr⟩, hvpn, hto⟩
  · rintro ⟨p, hp, hvpn, hto⟩
    obtain ⟨hlive, haddr⟩ := hok.live_of_getClientReal hp
    exact ⟨p, hok.listed_iff.mpr hlive, haddr, hvpn, hto⟩

/-- A refused HELLO leaves a registered client behind if there was one before. -/
theorem regards_of_refused (hok : s.Ok config) (ht : rmsg.type = .hello)
    (hans : Answers .nok src s (s.handlePacket config clock env rmsg src)) :
    Regards (s.now clock) src rmsg.ip1 (s.handlePacket config clock env rmsg src) ↔
      AlreadyRegistered clock src rmsg.ip1 s := by
  have hok' : (s.handlePacket config clock env rmsg src).Ok config :=
    hok.changes (step_changes hok (e := .packet rmsg src env) rfl)
  have hresult : HelloResult clock rmsg src s (s.handlePacket config clock env rmsg src) :=
    hello_result hok ht
  rw [regards_iff hok']
  generalize s.handlePacket config clock env rmsg src = s' at hans hresult ⊢
  cases hresult with
  | known p hp hto hreg hsent =>
    rw [hreg]
    exact Iff.rfl
  | refused hnew hnew' hsent =>
    constructor
    · rintro ⟨p, hp, _⟩
      rw [hnew'] at hp
      cases hp
    · rintro ⟨p, hp, _⟩
      rw [hnew] at hp
      cases hp
  | refreshed p hp hvpn hreg hsent => cases hans.type_eq hsent
  | registered q hold hq hdata hsent => cases hans.type_eq hsent
  | failed hsent => exact absurd hsent hans.sent_ne

end Rdv
end Campagnol
