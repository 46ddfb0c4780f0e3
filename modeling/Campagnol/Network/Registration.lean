import Campagnol.Rdv.Hello

/-!
# A client that registers

One client in `register_rdv`, the RDV server, and the datagrams between the two, any of which can
be lost, delayed or duplicated. All other clients are packets from other endpoints. A NOK for the
client leaves it unregistered, unless it was registered already when its HELLO arrived.
-/

namespace Campagnol
namespace Network

open Rdv

/-! ## `register_rdv` -/

/-- `MAX_REGISTERING_TRIES`. -/
def maxRegisteringTries : ℕ := 4

/-- The options of the client that decide its HELLO. -/
structure HelloOptions where
  vpnIP : InAddr
  sendLocalAddr : Int
  localIP : InAddr
  localport : UInt16
  overrideLocalAddr : SockaddrIn

/-- `htons`, on a little-endian machine. -/
def htons (port : UInt16) : UInt16 := port <<< 8 ||| port >>> 8

/-- The HELLO of `register_rdv`. -/
def HelloOptions.hello (o : HelloOptions) : Message :=
  if o.sendLocalAddr = 1 then ⟨.hello, htons o.localport, o.vpnIP, o.localIP⟩
  else if o.sendLocalAddr = 2 then
    ⟨.hello, o.overrideLocalAddr.sinPort, o.vpnIP, o.overrideLocalAddr.sinAddr⟩
  else ⟨.hello, 0, o.vpnIP, 0⟩

/-- Where `register_rdv` stands: before the test of its loop, in `BIO_read`, or at its end. -/
inductive RegisterPc where
  | loop | reading | returned
deriving Repr, DecidableEq

/-- The variables of `register_rdv`. -/
structure RegisterRdv where
  pc : RegisterPc
  registered : Bool
  registeringTries : ℕ
deriving Repr, DecidableEq

/-- `register_rdv` after `BIO_read`: `none` when it has timed out. -/
def RegisterRdv.read (r : RegisterRdv) (rmsg : Option Message) : RegisterRdv :=
  match rmsg with
  | some ⟨.ok, _, _, _⟩ => { r with pc := .loop, registered := true }
  | _ => { r with pc := .loop }

/-! ## The system -/

/-- What does not change in a run. The client shows as `endpoint`. -/
structure Registration where
  config : Configuration
  clock : ℕ → Int
  options : HelloOptions
  endpoint : SockaddrIn

/-- The client, the server, and the datagrams between them. -/
structure RegNet where
  client : RegisterRdv
  server : Server
  toServer : List Message
  toClient : List Message

/-- Before the call of `register_rdv`. -/
def RegNet.init : RegNet := ⟨⟨.loop, false, 0⟩, .init, [], []⟩

/-- The steps of the system. -/
inductive RegAct where
  /-- `register_rdv` tests its condition, with the value of `end_campagnol`. -/
  | loop (endCampagnol : Bool)
  /-- `BIO_read` times out. -/
  | timeout
  /-- The `k`-th message for the client arrives. -/
  | receive (k : ℕ)
  /-- The `k`-th message for the server arrives. -/
  | deliver (k : ℕ) (env : Env)
  /-- Messages are lost or duplicated. -/
  | loseToServer (k : ℕ)
  | loseToClient (k : ℕ)
  | copyToServer (k : ℕ)
  | copyToClient (k : ℕ)
  /-- A packet of another client. -/
  | other (rmsg : Message) (src : SockaddrIn) (env : Env)
  | clean
  | time

namespace RegNet

/-- A step of the server. What it sends to the client is in flight afterwards. -/
def serverStep (reg : Registration) (n : RegNet) (e : Event) : Option RegNet :=
  (Rdv.step reg.config reg.clock n.server e).map fun s =>
    { n with
      server := s
      toClient := n.toClient ++ ((s.sent.drop n.server.sent.length).filter
        fun d => d.dst = reg.endpoint).map Datagram.msg }

/-- The test of the loop of `register_rdv`, and the sending of a HELLO. -/
def loopStep (reg : Registration) (n : RegNet) (endCampagnol : Bool) : RegNet :=
  if ¬n.client.registered ∧ n.client.registeringTries < maxRegisteringTries ∧ ¬endCampagnol then
    { n with
      client := { n.client with
        pc := .reading
        registeringTries := n.client.registeringTries + 1 }
      toServer := n.toServer ++ [reg.options.hello] }
  else { n with client := { n.client with pc := .returned } }

/-- The client leaves `BIO_read`. -/
def readStep (n : RegNet) (rmsg : Option Message) : Option RegNet :=
  if n.client.pc = .reading then some { n with client := n.client.read rmsg } else none

end RegNet

/-- One step of the system, `none` when it cannot be taken. -/
def regStep (reg : Registration) (n : RegNet) : RegAct → Option RegNet
  | .loop endCampagnol =>
    if n.client.pc = .loop then some (n.loopStep reg endCampagnol) else none
  | .timeout => n.readStep none
  | .receive k =>
    match n.toClient[k]? with
    | none => none
    | some rmsg => { n with toClient := n.toClient.eraseIdx k }.readStep (some rmsg)
  | .deliver k env =>
    match n.toServer[k]? with
    | none => none
    | some rmsg =>
      { n with toServer := n.toServer.eraseIdx k }.serverStep reg
        (.packet rmsg reg.endpoint env)
  | .loseToServer k => some { n with toServer := n.toServer.eraseIdx k }
  | .loseToClient k => some { n with toClient := n.toClient.eraseIdx k }
  | .copyToServer k => some { n with toServer := n.toServer ++ (n.toServer[k]?).toList }
  | .copyToClient k => some { n with toClient := n.toClient ++ (n.toClient[k]?).toList }
  | .other rmsg src env =>
    if src = reg.endpoint then none else n.serverStep reg (.packet rmsg src env)
  | .clean => n.serverStep reg .clean
  | .time => n.serverStep reg .time

/-! ## Runs -/

/-- The server is consistent, and only HELLOs of the client are on their way to it. -/
structure RegInv (reg : Registration) (n : RegNet) : Prop where
  server : n.server.Ok reg.config
  hellos : ∀ rmsg ∈ n.toServer, rmsg = reg.options.hello

section Runs
variable {reg : Registration} {n n' : RegNet} {a : RegAct} {e : Event} {rmsg : Option Message}

theorem regInv_init (reg : Registration) : RegInv reg .init :=
  ⟨Server.ok_init reg.config, List.forall_mem_nil _⟩

theorem RegInv.of_toServer (h : RegInv reg n) {ms : List Message} (hsub : ms ⊆ n.toServer) :
    RegInv reg { n with toServer := ms } :=
  ⟨h.server, fun m hm => h.hellos m (hsub hm)⟩

theorem RegInv.serverStep (h : RegInv reg n) (hs : n.serverStep reg e = some n') :
    RegInv reg n' := by
  obtain ⟨s, hstep, rfl⟩ := Option.map_eq_some_iff.mp hs
  exact ⟨h.server.changes (step_changes h.server hstep), h.hellos⟩

theorem RegInv.of_toClient (h : RegInv reg n) (ms : List Message) :
    RegInv reg { n with toClient := ms } :=
  ⟨h.server, h.hellos⟩

theorem RegInv.readStep (h : RegInv reg n) (hs : n.readStep rmsg = some n') : RegInv reg n' := by
  unfold RegNet.readStep at hs
  split at hs
  · cases hs
    exact ⟨h.server, h.hellos⟩
  · cases hs

theorem RegInv.loopStep (h : RegInv reg n) (endCampagnol : Bool) :
    RegInv reg (n.loopStep reg endCampagnol) := by
  unfold RegNet.loopStep
  split
  · refine ⟨h.server, fun m hm => ?_⟩
    rcases List.mem_append.mp hm with hm | hm
    · exact h.hellos m hm
    · exact List.mem_singleton.mp hm
  · exact ⟨h.server, h.hellos⟩

theorem RegInv.step (h : RegInv reg n) (hs : regStep reg n a = some n') : RegInv reg n' := by
  cases a with
  | loop endCampagnol =>
    simp only [regStep] at hs
    split at hs
    · cases hs
      exact h.loopStep endCampagnol
    · cases hs
  | timeout => exact h.readStep hs
  | receive k =>
    simp only [regStep] at hs
    split at hs
    · cases hs
    · exact (h.of_toClient _).readStep hs
  | deliver k env =>
    simp only [regStep] at hs
    split at hs
    · cases hs
    · exact (h.of_toServer (List.eraseIdx_sublist _ _).subset).serverStep hs
  | loseToServer k =>
    cases hs
    exact h.of_toServer (List.eraseIdx_sublist _ _).subset
  | loseToClient k | copyToClient k =>
    cases hs
    exact h.of_toClient _
  | copyToServer k =>
    cases hs
    refine h.of_toServer fun m hm => ?_
    rcases List.mem_append.mp hm with hm | hm
    · exact hm
    · exact List.mem_of_getElem? (Option.mem_toList.mp hm)
  | other rmsg src env =>
    simp only [regStep] at hs
    split at hs
    · cases hs
    · exact h.serverStep hs
  | clean | time => exact h.serverStep hs

theorem regInv_of_steps (h : Steps (regStep reg) (fun _ _ => True) .init n) : RegInv reg n :=
  h.invariant (regInv_init reg) fun _ _ _ hinv _ hs => hinv.step hs

theorem HelloOptions.hello_fields (o : HelloOptions) :
    o.hello.type = .hello ∧ o.hello.ip1 = o.vpnIP := by
  unfold HelloOptions.hello
  split
  · exact ⟨rfl, rfl⟩
  · split <;> exact ⟨rfl, rfl⟩

/-- In every run of the system, a HELLO of the client that the server answers with NOK leaves
no client with its endpoint and VPN IP that is not timed out, if and only if there was none when
the HELLO arrived. -/
theorem refused_absent_iff {k : ℕ} {env : Env}
    (h : Steps (regStep reg) (fun _ _ => True) .init n)
    (hs : regStep reg n (.deliver k env) = some n')
    (hans : Answers .nok reg.endpoint n.server n'.server) :
    ¬Regards (n.server.now reg.clock) reg.endpoint reg.options.vpnIP n'.server ↔
      ¬AlreadyRegistered reg.clock reg.endpoint reg.options.vpnIP n.server := by
  have hinv := regInv_of_steps h
  obtain ⟨htype, hvpn⟩ := reg.options.hello_fields
  simp only [regStep] at hs
  split at hs
  · cases hs
  · rename_i rmsg hk
    obtain rfl := hinv.hellos rmsg (List.mem_of_getElem? hk)
    obtain ⟨s, hstep, rfl⟩ := Option.map_eq_some_iff.mp hs
    obtain rfl : n.server.handlePacket reg.config reg.clock env reg.options.hello
        reg.endpoint = s := Option.some.inj hstep
    rw [← hvpn]
    exact not_congr (regards_of_refused hinv.server htype hans)

end Runs

/-! ### A retry -/

/-- A client without a local address, at a clock that goes on by 2 seconds a reading. -/
def retrying : Registration where
  config := Rdv.twoClients
  clock := fun k => 2 * k
  options := ⟨101, 0, 0, 0, ⟨0, 0⟩⟩
  endpoint := endpoint 1

/-- Another client has registered the VPN IP before. -/
def takenBefore : List RegAct := [.other (hello 101) (endpoint 2) (allocAt 0), .loop false]

theorem refused_absent_iff_takenBefore :
    ∃ n n', Steps (regStep retrying) (fun _ _ => True) .init n ∧
      regStep retrying n (.deliver 0 (allocAt 1)) = some n' ∧
      ¬Regards (n.server.now retrying.clock) (endpoint 1) 101 n'.server := by
  have hrun : (run (regStep retrying) takenBefore .init).any (fun n =>
      (regStep retrying n (.deliver 0 (allocAt 1))).any (fun n' =>
        n'.server.sent = n.server.sent ++ [answer .nok (endpoint 1)] ∧
          n.server.reg.getClientReal (endpoint 1) = none)) = true := by decide +kernel
  obtain ⟨n, hn, hobs⟩ := (Option.any_eq_true ..).mp hrun
  obtain ⟨n', hn', hobs⟩ := (Option.any_eq_true ..).mp hobs
  obtain ⟨hans, hnone⟩ := of_decide_eq_true hobs
  have hreach := Steps.of_run .refl hn
  refine ⟨n, n', hreach, hn', (refused_absent_iff hreach hn' hans).mpr ?_⟩
  rintro ⟨p, hp, _⟩
  rw [show n.server.reg.getClientReal retrying.endpoint = none from hnone] at hp
  cases hp

/-- The HELLO is accepted, the OK is lost, and the HELLO is sent again. -/
def lostOk : List RegAct :=
  [.loop false, .deliver 0 (allocAt 0), .loseToClient 0, .timeout, .loop false]

/-- The second HELLO is answered with NOK although the client is registered. -/
theorem refused_registered_lostOk :
    ∃ n n', Steps (regStep retrying) (fun _ _ => True) .init n ∧
      regStep retrying n (.deliver 0 (allocAt 1)) = some n' ∧
      Answers .nok (endpoint 1) n.server n'.server ∧
      Regards (n.server.now retrying.clock) (endpoint 1) 101 n'.server := by
  have hrun : (run (regStep retrying) lostOk .init).any (fun n =>
      (regStep retrying n (.deliver 0 (allocAt 1))).any (fun n' =>
        n'.server.sent = n.server.sent ++ [answer .nok (endpoint 1)] ∧
          n'.server.reg.getClientReal (endpoint 1) = some 0 ∧ n'.server.reg.vpnOf 0 = 101 ∧
          n'.server.reg.clientIsTimeout (n.server.now retrying.clock) 0 = false)) = true := by
    decide +kernel
  obtain ⟨n, hn, hobs⟩ := (Option.any_eq_true ..).mp hrun
  obtain ⟨n', hn', hobs⟩ := (Option.any_eq_true ..).mp hobs
  obtain ⟨hans, hreal, hvpn, hto⟩ := of_decide_eq_true hobs
  have hreach := Steps.of_run .refl hn
  have hok := ((regInv_of_steps hreach).step hn').server
  exact ⟨n, n', hreach, hn', hans, (regards_iff hok).mpr ⟨0, hreal, hvpn, hto⟩⟩

end Network
end Campagnol
