import Campagnol.Client.Peer
import Campagnol.Lib.Run

/-!
# The threads of a client

`client/communication.c` as a state machine: the threads `comm_tun`, `comm_socket` and
`rdv_handling`, and for every peer its threads `peer_handling`, `punch` and `SSL_writing`.
Every call of a `peers_*` function and every section under the mutex of a peer is one atomic
step. A lookup leaves the mutex of the peer locked until the section that follows it; no
other thread can enter a section of that peer in between.

The results of OpenSSL, the expiry of timeouts and the received packets are inputs. The
contents of the VPN packets and the queues they wait in are left out.
-/

namespace Campagnol
namespace Client

/-- `PUNCH_NUMBER`. -/
def punchNumber : ℕ := 10

/-! ## Threads -/

/-- Where `comm_tun` stands. -/
inductive TunPc where
  | idle
  | missed (dst : InAddr)
  | created (p : Ptr)
  | found (p : Ptr)
  | release (p : Ptr)
deriving Repr, DecidableEq

/-- Where `comm_socket` stands. -/
inductive SocketPc where
  | idle
  | foundDtls (p : Ptr)
  | foundPunch (p : Ptr)
  | release (p : Ptr)
deriving Repr, DecidableEq

/-- Where `rdv_handling` stands. -/
inductive RdvPc where
  | idle
  | rej (p : Ptr)
  | ans (p : Ptr) (endpoint : SockaddrIn)
  | signal (p : Ptr)
  | fwdMissed (endpoint : SockaddrIn) (vpnIP : InAddr)
  | created (p : Ptr)
  | fwdFound (p : Ptr)
  | release (p : Ptr)
deriving Repr, DecidableEq

/-- A wait on `cond_connected`. -/
inductive Wait where
  | asleep | signalled | timedOut
deriving Repr, DecidableEq

/-- Where the `peer_handling` thread of a peer stands. -/
inductive HandlerPc where
  | notStarted
  | top
  | waitAnswer (w : Wait)
  | startPunch
  | waitPunch (w : Wait)
  | handshake
  | startWriting
  | reading (lastTime : Int)
  | closing
  | done
deriving Repr, DecidableEq

/-- The client. `punch p` holds the number of messages left to each `punch` thread of `p`,
`writing p` is the number of its `SSL_writing` threads. -/
structure State where
  reg : Registry
  tun : TunPc
  socket : SocketPc
  rdv : RdvPc
  handler : Ptr → HandlerPc
  punch : Ptr → List ℕ
  writing : Ptr → ℕ
  endCampagnol : Bool
  sent : List Datagram

/-- The client before its first packet. -/
def State.init : State where
  reg := .init
  tun := .idle
  socket := .idle
  rdv := .idle
  handler := fun _ => .notStarted
  punch := fun _ => []
  writing := fun _ => 0
  endCampagnol := false
  sent := []

/-- A packet of another peer, as `comm_socket` tells them apart. -/
inductive SocketPacket where
  | dtls | punch | other
deriving Repr, DecidableEq

/-- The result of `SSL_read`. -/
inductive ReadResult where
  | timeout | again | failed | packet
deriving Repr, DecidableEq

/-- The steps of the client. -/
inductive Act where
  /-- `comm_tun` reads a packet for `dst`. -/
  | tunPacket (dst : InAddr)
  | tunStep (now : Int) (env : AddEnv)
  /-- `comm_socket` receives a packet from another endpoint than the RDV server. -/
  | socketPacket (src : SockaddrIn) (packet : SocketPacket)
  | socketStep
  /-- `rdv_handling` takes a message of the RDV server. -/
  | rdvMessage (msg : Message)
  | rdvStep (now : Int) (env : AddEnv)
  /-- The next step of a `peer_handling` thread: the clock, whether a `tsearch` or a DTLS
  handshake succeeds, and the result of a `SSL_read`. -/
  | handlerStep (p : Ptr) (now : Int) (ok : Bool) (read : ReadResult)
  /-- The wait of a `peer_handling` thread ends with its timeout. -/
  | handlerTimeout (p : Ptr)
  /-- The wait of a `peer_handling` thread ends for no reason. -/
  | handlerSpurious (p : Ptr)
  | punchStep (p : Ptr) (k : ℕ)
  /-- An `SSL_writing` thread leaves its loop. -/
  | writingEnd (p : Ptr)
  /-- A signal handler sets `end_campagnol`. -/
  | endCampagnol
deriving Repr, DecidableEq

namespace State

/-! ## Helpers -/

/-- `init_smsg`. -/
def initSmsg (type : MsgType) (ip1 ip2 : InAddr) : Message := ⟨type, 0, ip1, ip2⟩

/-- `xsendto`. -/
def send (s : State) (msg : Message) (dst : SockaddrIn) : State :=
  { s with sent := s.sent ++ [⟨msg, dst⟩] }

/-- Change the structure of the peer `p`. -/
def modify (s : State) (p : Ptr) (f : Peer → Peer) : State :=
  { s with reg := s.reg.modify p f }

/-- The `peer_handling` thread of `p` moves to `pc`. -/
def goto (s : State) (p : Ptr) (pc : HandlerPc) : State :=
  { s with handler := Function.update s.handler p pc }

/-- `CLIENT_MUTEXUNLOCK`. -/
def unlock (s : State) (p : Ptr) : State :=
  s.modify p fun x => { x with mutex := false }

/-- `CHANGE_STATE`. -/
def changeState (s : State) (p : Ptr) (state : ClientType) : State :=
  s.modify p fun x => { x with state := state }

/-- `peers_update_peer_time`. -/
def updatePeerTime (s : State) (p : Ptr) (timestamp : Int) : State :=
  s.modify p fun x => { x with time := timestamp, lastKeepalive := timestamp }

/-- `conditionSignal` on `cond_connected` of `p`: it wakes the `peer_handling` thread up
if that is waiting. -/
def conditionSignal (s : State) (p : Ptr) : State :=
  match s.handler p with
  | .waitAnswer .asleep => s.goto p (.waitAnswer .signalled)
  | .waitPunch .asleep => s.goto p (.waitPunch .signalled)
  | _ => s

/-- `start_peer_handling`. -/
def startPeerHandling (s : State) (p : Ptr) : State :=
  { s with reg := s.reg.peersIncrRef p }.goto p .top

/-- `start_punch`. -/
def startPunch (s : State) (p : Ptr) : State :=
  { s with
    reg := s.reg.peersIncrRef p
    punch := Function.update s.punch p (s.punch p ++ [punchNumber]) }

/-- `start_SSL_writing`. -/
def startSSLWriting (s : State) (p : Ptr) : State :=
  { s with
    reg := s.reg.peersIncrRef p
    writing := Function.update s.writing p (s.writing p + 1) }

/-- `peers_decr_ref`. -/
def decrRef (s : State) (p : Ptr) (n : ℕ) : State :=
  { s with reg := s.reg.peersDecrRef p n }

/-- `peers_get_by_VPN` and `peers_get_by_endpoint`, when they find `p`: the call has to wait
for the mutex of the peer. -/
def grab (s : State) (p : Ptr) : Option State :=
  if (s.reg.peer p).mutex then none else some { s with reg := s.reg.grab p }

/-! ## `comm_tun` -/

/-- A packet from the TUN device. Broadcast and local packets need no peer. -/
def tunPacket (config : Configuration) (s : State) (dst : InAddr) : Option State :=
  if s.tun ≠ .idle ∨ s.endCampagnol then none
  else if dst = config.vpnBroadcastIP ∨ dst = config.vpnIP then some s
  else
    match s.reg.findByVPN dst with
    | none => some { s with tun := .missed dst }
    | some p => (s.grab p).map fun s => { s with tun := .found p }

/-- The steps of `comm_tun` after the lookup. -/
def tunStep (config : Configuration) (s : State) (now : Int) (env : AddEnv) : Option State :=
  match s.tun with
  | .idle => none
  | .missed dst =>
    match s.reg.peersAddRequested config env .new now dst with
    | (none, reg) => some { s with reg := reg, tun := .idle }
    | (some p, reg) => some { s with reg := reg, tun := .created p }
  | .created p => some { s.startPeerHandling p with tun := .release p }
  | .found p =>
    let s := if (s.reg.peer p).state ≠ .closed then s.updatePeerTime p now else s
    some { s.unlock p with tun := .release p }
  | .release p => some { s.decrRef p 1 with tun := .idle }

/-! ## `comm_socket` -/

/-- A packet from another peer. -/
def socketPacket (s : State) (src : SockaddrIn) (packet : SocketPacket) : Option State :=
  if s.socket ≠ .idle ∨ s.endCampagnol then none
  else
    match packet with
    | .other => some s
    | .dtls =>
      match s.reg.findByEndpoint src with
      | none => some s
      | some p => (s.grab p).map fun s => { s with socket := .foundDtls p }
    | .punch =>
      match s.reg.findByEndpoint src with
      | none => some s
      | some p => (s.grab p).map fun s => { s with socket := .foundPunch p }

/-- The steps of `comm_socket` after the lookup. -/
def socketStep (s : State) : Option State :=
  match s.socket with
  | .idle => none
  | .foundDtls p => some { s.unlock p with socket := .release p }
  | .foundPunch p => some { (s.conditionSignal p).unlock p with socket := .release p }
  | .release p => some { s.decrRef p 1 with socket := .idle }

/-! ## `rdv_handling` -/

/-- A message of the RDV server. -/
def rdvMessage (s : State) (msg : Message) : Option State :=
  if s.rdv ≠ .idle ∨ s.endCampagnol then none
  else
    match msg.type with
    | .rejConnection =>
      match s.reg.findByVPN msg.ip1 with
      | none => some s
      | some p => (s.grab p).map fun s => { s with rdv := .rej p }
    | .ansConnection =>
      match s.reg.findByVPN msg.ip2 with
      | none => some s
      | some p => (s.grab p).map fun s => { s with rdv := .ans p ⟨msg.ip1, msg.port⟩ }
    | .fwdConnection =>
      match s.reg.findByVPN msg.ip2 with
      | none => some { s with rdv := .fwdMissed ⟨msg.ip1, msg.port⟩ msg.ip2 }
      | some p => (s.grab p).map fun s => { s with rdv := .fwdFound p }
    | _ => some s

/-- The steps of `rdv_handling` after the lookup. -/
def rdvStep (config : Configuration) (s : State) (now : Int) (env : AddEnv) : Option State :=
  match s.rdv with
  | .idle => none
  | .rej p =>
    let s := s.modify p fun x => { x with rdvAnswer := .rejConnection }
    some { s.unlock p with rdv := .signal p }
  | .ans p endpoint =>
    let s := s.modify p fun x => { x with rdvAnswer := .ansConnection, clientaddr := endpoint }
    some { s.unlock p with rdv := .signal p }
  | .signal p => some { s.conditionSignal p with rdv := .release p }
  | .fwdMissed endpoint vpnIP =>
    match s.reg.peersAddCaller config env .punching now endpoint vpnIP with
    | (none, reg) => some { s with reg := reg, rdv := .idle }
    | (some p, reg) => some { s with reg := reg, rdv := .created p }
  | .created p => some { s.startPeerHandling p with rdv := .release p }
  | .fwdFound p => some { s.unlock p with rdv := .release p }
  | .release p => some { s.decrRef p 1 with rdv := .idle }

/-! ## `peer_handling` -/

/-- The loop of `peer_handling`, up to the end of its first section under the mutex. -/
def handlerTop (config : Configuration) (s : State) (p : Ptr) : State :=
  match (s.reg.peer p).state with
  | .new =>
    if s.endCampagnol then s.changeState p .closed
    else
      (s.send (initSmsg .askConnection (s.reg.peer p).vpnIP 0) config.serverAddr).goto p
        (.waitAnswer .asleep)
  | .punching =>
    if s.endCampagnol then s.changeState p .closed
    else (s.modify p fun x => { x with mutex := true }).goto p .startPunch
  | .linked =>
    if s.endCampagnol then s.changeState p .closed
    else s.goto p .handshake
  | .established => s.goto p .startWriting
  | .closed => s.goto p .closing

/-- The state NEW, after the wait: the answer of the RDV server has come, or not. -/
def handlerAnswer (s : State) (p : Ptr) (timedOut ok : Bool) : State :=
  if timedOut ∨ (s.reg.peer p).rdvAnswer = .rejConnection ∨ s.endCampagnol then
    (s.changeState p .closed).goto p .top
  else
    match s.reg.peersRegisterEndpoint ok p with
    | none => (s.changeState p .closed).goto p .top
    | some reg => ({ s with reg := reg }.changeState p .punching).goto p .top

/-- The state PUNCHING, after the wait. -/
def handlerPunched (config : Configuration) (s : State) (p : Ptr) (timedOut : Bool) : State :=
  if timedOut then
    ((s.changeState p .closed).send (initSmsg .closeConnection (s.reg.peer p).vpnIP 0)
      config.serverAddr).goto p .top
  else if s.endCampagnol then (s.changeState p .closed).goto p .top
  else (s.changeState p .linked).goto p .top

/-- The state LINKED, after the DTLS handshake. -/
def handlerHandshake (config : Configuration) (s : State) (p : Ptr) (now : Int) (ok : Bool) :
    State :=
  if ok then ((s.changeState p .established).updatePeerTime p now).goto p .top
  else
    ((s.send (initSmsg .closeConnection (s.reg.peer p).vpnIP 0) config.serverAddr).changeState p
      .closed).goto p .top

/-- The inactivity test of an open session, in `int` arithmetic. -/
def sessionTimeout (config : Configuration) (x : Peer) (now : Int) : Bool :=
  (!x.isDtlsClient && now - x.time > Int.bmod (config.timeout + 10) 0x100000000) ||
    (x.isDtlsClient && now - x.time > config.timeout)

/-- The state ESTABLISHED, after a timeout of `SSL_read`. -/
def handlerIdle (config : Configuration) (s : State) (p : Ptr) (now lastTime : Int) : State :=
  if now = lastTime then s
  else
    let s₁ :=
      if now - (s.reg.peer p).lastKeepalive > config.keepalive then
        (s.send (initSmsg .punchKeepAlive 0 0) (s.reg.peer p).clientaddr).modify p
          fun x => { x with lastKeepalive := now }
      else s
    if sessionTimeout config (s.reg.peer p) now then
      ((s₁.send (initSmsg .closeConnection (s.reg.peer p).vpnIP 0) config.serverAddr).changeState p
        .closed).goto p .top
    else s₁.goto p (.reading now)

/-- The state ESTABLISHED, after `SSL_read`. -/
def handlerRead (config : Configuration) (s : State) (p : Ptr) (now lastTime : Int)
    (read : ReadResult) : State :=
  match read with
  | .timeout => s.handlerIdle config p now lastTime
  | .again => s
  | .failed => (s.changeState p .closed).goto p .top
  | .packet => s.updatePeerTime p now

/-- One step of the `peer_handling` thread of `p`. Its sections need the mutex of the peer,
which it holds already when it starts the `punch` thread. -/
def handlerStep (config : Configuration) (s : State) (p : Ptr) (now : Int) (ok : Bool)
    (read : ReadResult) : Option State :=
  match s.handler p with
  | .startPunch => some (((s.startPunch p).unlock p).goto p (.waitPunch .asleep))
  | .startWriting => some ((s.startSSLWriting p).goto p (.reading 0))
  | .closing => some ((s.decrRef p 2).goto p .done)
  | pc =>
    if (s.reg.peer p).mutex then none
    else
      match pc with
      | .top => some (s.handlerTop config p)
      | .waitAnswer .signalled => some (s.handlerAnswer p false ok)
      | .waitAnswer .timedOut => some (s.handlerAnswer p true ok)
      | .waitPunch .signalled => some (s.handlerPunched config p false)
      | .waitPunch .timedOut => some (s.handlerPunched config p true)
      | .handshake => some (s.handlerHandshake config p now ok)
      | .reading lastTime => some (s.handlerRead config p now lastTime read)
      | _ => none

/-- The wait of the `peer_handling` thread of `p` ends without a signal. -/
def handlerWakes (s : State) (p : Ptr) (w : Wait) : Option State :=
  match s.handler p with
  | .waitAnswer .asleep => some (s.goto p (.waitAnswer w))
  | .waitPunch .asleep => some (s.goto p (.waitPunch w))
  | _ => none

/-! ## `punch` and `SSL_writing` -/

/-- One step of the `k`-th `punch` thread of `p`. -/
def punchStep (config : Configuration) (s : State) (p : Ptr) (k : ℕ) : Option State :=
  match (s.punch p)[k]? with
  | none => none
  | some 0 =>
    some { s.decrRef p 1 with punch := Function.update s.punch p ((s.punch p).eraseIdx k) }
  | some (n + 1) =>
    if (s.reg.peer p).mutex then none
    else if (s.reg.peer p).state = .closed then
      some { s with punch := Function.update s.punch p ((s.punch p).set k 0) }
    else
      some { s.send (initSmsg .punch config.vpnIP 0) (s.reg.peer p).clientaddr with
        punch := Function.update s.punch p ((s.punch p).set k n) }

/-- An `SSL_writing` thread of `p` ends. -/
def writingEnd (s : State) (p : Ptr) : Option State :=
  match s.writing p with
  | 0 => none
  | n + 1 => some { s.decrRef p 1 with writing := Function.update s.writing p n }

end State

/-- One step of the client, `none` when it cannot be taken. -/
def step (config : Configuration) (s : State) : Act → Option State
  | .tunPacket dst => s.tunPacket config dst
  | .tunStep now env => s.tunStep config now env
  | .socketPacket src packet => s.socketPacket src packet
  | .socketStep => s.socketStep
  | .rdvMessage msg => s.rdvMessage msg
  | .rdvStep now env => s.rdvStep config now env
  | .handlerStep p now ok read => s.handlerStep config p now ok read
  | .handlerTimeout p => s.handlerWakes p .timedOut
  | .handlerSpurious p => s.handlerWakes p .signalled
  | .punchStep p k => s.punchStep config p k
  | .writingEnd p => s.writingEnd p
  | .endCampagnol => some { s with endCampagnol := true }

end Client
end Campagnol
