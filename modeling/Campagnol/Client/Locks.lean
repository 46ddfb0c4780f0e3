import Campagnol.Client.Communication
import Campagnol.Lib.Threads

/-!
# The mutexes of a client

The threads of `client/communication.c` again, this time with every lock and unlock of the
recursive mutex `peers_mutex`, of the mutexes of the peers and of the mutexes of their reference
counters (`client/peer.c`). The code of a thread is a program whose steps are these calls.

The data are those of the client; the place of a `peer_handling` thread in its loop is one of them.
The mutexes are those of the system and not the field `mutex` of a peer. `BIO_write` and the calls
of OpenSSL lock none of these mutexes and are left out.
-/

namespace Campagnol
namespace Client
namespace Locks

open Threads (Prog System)

/-! ## Threads and mutexes -/

/-- The mutexes: `peers_mutex`, and `mutex` and `mutex_ref` of each peer. -/
inductive Mutex where
  | peers
  | peer (p : Ptr)
  | ref (p : Ptr)
deriving Repr, DecidableEq

/-- `peers_mutex_init`: only `peers_mutex` is recursive. -/
def recursive : Mutex → Bool
  | .peers => true
  | _ => false

/-- The threads. A peer has at most one thread of each kind. -/
inductive Thread where
  | commTun
  | commSocket
  | rdvHandling
  | peerHandling (p : Ptr)
  | punch (p : Ptr)
  | sslWriting (p : Ptr)
deriving Repr, DecidableEq

/-- The code of a thread. -/
abbrev Code := Prog State Mutex

/-- A client and its threads. -/
abbrev ClientThreads := System Thread State Mutex

/-- The steps of the client. -/
inductive Act where
  /-- `comm_tun` reads a packet for `dst`. -/
  | tunPacket (dst : InAddr) (now : Int) (env : AddEnv)
  /-- The loop of `start_vpn` over the peers, after `comm_tun`. -/
  | endPeers
  /-- `comm_socket` receives a packet from another endpoint than the RDV server. -/
  | socketPacket (src : SockaddrIn) (packet : SocketPacket)
  /-- `rdv_handling` takes a message of the RDV server. -/
  | rdvMessage (msg : Message) (now : Int) (env : AddEnv)
  /-- A `peer_handling` thread goes on: the clock, whether a `tsearch` or a DTLS handshake
  succeeds, and the result of a `SSL_read`. -/
  | handle (p : Ptr) (now : Int) (ok : Bool) (read : ReadResult)
  | punch (p : Ptr)
  /-- An `SSL_writing` thread leaves its loop. -/
  | writingEnd (p : Ptr)
  /-- The next lock or unlock of a thread. -/
  | call (t : Thread)
  | timeout (p : Ptr)
  | spurious (p : Ptr)
  | endCampagnol
deriving Repr, DecidableEq

/-! ## `peer.c` -/

/-- A change of the registry. -/
def registry (f : Registry → Registry) (k : Code) : Code :=
  .effect (fun s => { s with reg := f s.reg }) k

/-- `peers_incr_ref`. -/
def peersIncrRef (p : Ptr) (k : Code) : Code :=
  .lock (.ref p) <| registry (·.peersIncrRef p) <| .unlock (.ref p) k

/-- `peers_remove`. -/
def peersRemove (p : Ptr) (k : Code) : Code :=
  .lock .peers <| registry (·.peersRemove p) <| .unlock .peers k

/-- `peers_decr_ref`. -/
def peersDecrRef (p : Ptr) (n : ℕ) (k : Code) : Code :=
  .lock .peers <| .lock (.ref p) <|
    registry (·.modify p fun x => { x with refCount := x.refCount - n }) <| .read fun s =>
      if (s.reg.peer p).refCount = 0 then .unlock (.ref p) <| peersRemove p <| .unlock .peers k
      else .unlock (.ref p) <| .unlock .peers k

/-- `peers_add`, with the result and the registry of the call. -/
def peersAdd (add : Registry → Option Ptr × Registry) (k : Option Ptr → Code) : Code :=
  .lock .peers <| .read fun s =>
    registry (fun _ => (add s.reg).2) <| .unlock .peers <| k (add s.reg).1

/-- `peers_register_endpoint`. -/
def peersRegisterEndpoint (tsearchAddress : Bool) (p : Ptr) (k : Bool → Code) : Code :=
  .lock .peers <| .read fun s =>
    match s.reg.peersRegisterEndpoint tsearchAddress p with
    | none => .unlock .peers (k false)
    | some reg => registry (fun _ => reg) <| .unlock .peers (k true)

/-- `peers_get_by_VPN` and `peers_get_by_endpoint`: the peer that `find` returns gets a reference,
and its mutex is locked under `peers_mutex`. -/
def peersGet (find : Registry → Option Ptr) (k : Option Ptr → Code) : Code :=
  .lock .peers <| .read fun s =>
    match find s.reg with
    | none => .unlock .peers (k none)
    | some p => peersIncrRef p <| .lock (.peer p) <| .unlock .peers (k (some p))

/-- `peers_get_by_VPN`. -/
def peersGetByVPN (address : InAddr) : (Option Ptr → Code) → Code :=
  peersGet (·.findByVPN address)

/-- `peers_get_by_endpoint`. -/
def peersGetByEndpoint (clAddress : SockaddrIn) : (Option Ptr → Code) → Code :=
  peersGet (·.findByEndpoint clAddress)

/-! ## `comm_tun` -/

/-- `start_peer_handling`. -/
def startPeerHandling (p : Ptr) (k : Code) : Code :=
  peersIncrRef p <| .effect (·.goto p .top) k

/-- `while (peer != NULL) { next = peer->next; ...; peer = next; }` over `peers_list`. The body
locks the peer and unlocks it again. -/
def eachPeer : ℕ → Option Ptr → Code → Code
  | 0, _, k => k
  | _ + 1, none, k => k
  | n + 1, some p, k => .read fun s =>
    .lock (.peer p) <| .unlock (.peer p) <| eachPeer n (s.reg.peersList.next p) k

/-- The loops over all peers, in `comm_tun` for a broadcast packet and at the end of `start_vpn`.
There are no more nodes than peers have been created. -/
def allPeers : Code :=
  .lock .peers <| .read fun s =>
    eachPeer s.reg.created s.reg.peersList.head <| .unlock .peers .done

/-- `comm_tun`, for a packet to `dst`. -/
def commTun (config : Configuration) (dst : InAddr) (now : Int) (env : AddEnv) : Code :=
  if dst = config.vpnBroadcastIP then allPeers
  else if dst = config.vpnIP then .done
  else
    peersGetByVPN dst fun
      | none =>
        peersAdd (·.peersAddRequested config env .new now dst) fun
          | none => .done
          | some p => startPeerHandling p <| peersDecrRef p 1 .done
      | some p => .read fun s =>
        if (s.reg.peer p).state ≠ .closed then
          .effect (·.updatePeerTime p now) <| .unlock (.peer p) <| peersDecrRef p 1 .done
        else .unlock (.peer p) <| peersDecrRef p 1 .done

/-! ## `comm_socket` and `rdv_handling` -/

/-- `comm_socket`, for a packet from `src`. -/
def commSocket (src : SockaddrIn) : SocketPacket → Code
  | .other => .done
  | .dtls => peersGetByEndpoint src fun
    | none => .done
    | some p => .unlock (.peer p) <| peersDecrRef p 1 .done
  | .punch => peersGetByEndpoint src fun
    | none => .done
    | some p => .effect (·.conditionSignal p) <| .unlock (.peer p) <| peersDecrRef p 1 .done

/-- An answer of the RDV server: it is stored under the mutex of the peer, and the signal follows
after the unlock. -/
def storeAnswer (f : Peer → Peer) : Option Ptr → Code
  | none => .done
  | some p =>
    .effect (·.modify p f) <| .unlock (.peer p) <| .pause <|
      .effect (·.conditionSignal p) <| peersDecrRef p 1 .done

/-- `rdv_handling`, for a message. -/
def rdvHandling (config : Configuration) (msg : Message) (now : Int) (env : AddEnv) : Code :=
  match msg.type with
  | .rejConnection =>
    peersGetByVPN msg.ip1 <| storeAnswer fun x => { x with rdvAnswer := .rejConnection }
  | .ansConnection =>
    peersGetByVPN msg.ip2 <| storeAnswer fun x =>
      { x with rdvAnswer := .ansConnection, clientaddr := ⟨msg.ip1, msg.port⟩ }
  | .fwdConnection =>
    peersGetByVPN msg.ip2 fun
      | none =>
        peersAdd (·.peersAddCaller config env .punching now ⟨msg.ip1, msg.port⟩ msg.ip2) fun
          | none => .done
          | some p => startPeerHandling p <| peersDecrRef p 1 .done
      | some p => .unlock (.peer p) <| peersDecrRef p 1 .done
  | _ => .done

/-! ## `peer_handling` -/

/-- A section under the mutex of the peer. -/
def underMutex (p : Ptr) (f : State → State) (k : Code) : Code :=
  .lock (.peer p) <| .effect f <| .unlock (.peer p) k

/-- `peer_handling` goes to `pc`. -/
def goto (p : Ptr) (pc : HandlerPc) : Code := .effect (·.goto p pc) .done

/-- `conditionTimedwait` releases the mutex and waits at `pc`. -/
def conditionTimedwait (p : Ptr) (pc : HandlerPc) : Code := .unlock (.peer p) (goto p pc)

/-- The peer is closed under its mutex, which is then unlocked. -/
def close (p : Ptr) (k : Code) : Code :=
  .effect (·.changeState p .closed) <| .unlock (.peer p) k

/-- The loop of `peer_handling`, up to a wait or to the end of its first section. -/
def handlerTop (config : Configuration) (p : Ptr) : Code :=
  .lock (.peer p) <| .read fun s =>
    match (s.reg.peer p).state with
    | .new =>
      if s.endCampagnol then close p .done
      else
        .effect (·.send (State.initSmsg .askConnection (s.reg.peer p).vpnIP 0) config.serverAddr) <|
          conditionTimedwait p (.waitAnswer .asleep)
    | .punching =>
      if s.endCampagnol then close p .done
      else
        -- `start_punch`
        peersIncrRef p <|
          .effect (fun s => { s with
            punch := Function.update s.punch p (s.punch p ++ [punchNumber]) }) <|
          conditionTimedwait p (.waitPunch .asleep)
    | .linked => if s.endCampagnol then close p .done else .unlock (.peer p) (goto p .handshake)
    | .established => .unlock (.peer p) (goto p .startWriting)
    | .closed => .unlock (.peer p) (goto p .closing)

/-- The state NEW, after the wait. `peers_register_endpoint` is called under the mutex of the
peer. -/
def handlerAnswer (p : Ptr) (timedOut ok : Bool) : Code :=
  .lock (.peer p) <| .read fun s =>
    if timedOut ∨ (s.reg.peer p).rdvAnswer = .rejConnection ∨ s.endCampagnol then
      close p (goto p .top)
    else
      peersRegisterEndpoint ok p fun
        | false => close p (goto p .top)
        | true => .effect (·.changeState p .punching) <| .unlock (.peer p) (goto p .top)

/-- The state PUNCHING, after the wait. -/
def handlerPunched (config : Configuration) (p : Ptr) (timedOut : Bool) : Code :=
  .lock (.peer p) <| .read fun s =>
    if timedOut then
      close p <|
        .effect (·.send (State.initSmsg .closeConnection (s.reg.peer p).vpnIP 0) config.serverAddr)
          (goto p .top)
    else if s.endCampagnol then close p (goto p .top)
    else .effect (·.changeState p .linked) <| .unlock (.peer p) (goto p .top)

/-- The state LINKED, after the DTLS handshake. -/
def handlerHandshake (config : Configuration) (p : Ptr) (now : Int) (ok : Bool) : Code :=
  if ok then
    underMutex p (fun s => (s.changeState p .established).updatePeerTime p now) (goto p .top)
  else .read fun s =>
    .effect (·.send (State.initSmsg .closeConnection (s.reg.peer p).vpnIP 0) config.serverAddr) <|
      underMutex p (·.changeState p .closed) (goto p .top)

/-- `start_SSL_writing`. -/
def startSSLWriting (p : Ptr) : Code :=
  peersIncrRef p <|
    .effect (fun s => { s with writing := Function.update s.writing p (s.writing p + 1) }) <|
    goto p (.reading 0)

/-- The state ESTABLISHED, after `SSL_read`. -/
def handlerRead (config : Configuration) (p : Ptr) (now lastTime : Int) (read : ReadResult) :
    Code :=
  if read = .again ∨ read = .timeout ∧ now = lastTime then .done
  else underMutex p (·.handlerRead config p now lastTime read) .done

/-- The code of `peer_handling` from the place `pc`. -/
def peerHandling (config : Configuration) (p : Ptr) (now : Int) (ok : Bool) (read : ReadResult) :
    HandlerPc → Option Code
  | .top => some (handlerTop config p)
  | .waitAnswer .signalled => some (handlerAnswer p false ok)
  | .waitAnswer .timedOut => some (handlerAnswer p true ok)
  | .waitPunch .signalled => some (handlerPunched config p false)
  | .waitPunch .timedOut => some (handlerPunched config p true)
  | .handshake => some (handlerHandshake config p now ok)
  | .startWriting => some (startSSLWriting p)
  | .reading lastTime => some (handlerRead config p now lastTime read)
  | .closing => some (peersDecrRef p 2 (goto p .done))
  | _ => none

/-! ## `punch` -/

/-- `punch`, with `n` messages left. -/
def punch (config : Configuration) (p : Ptr) : ℕ → Code
  | 0 => peersDecrRef p 1 .done
  | n + 1 => .lock (.peer p) <| .read fun s =>
    if (s.reg.peer p).state = .closed then .unlock (.peer p) <| peersDecrRef p 1 .done
    else
      .unlock (.peer p) <|
        .effect (·.send (State.initSmsg .punch config.vpnIP 0) (s.reg.peer p).clientaddr) <|
        .pause (punch config p n)

/-! ## The client -/

/-- The data after a wait of `peer_handling` has ended. -/
def wake (sys : ClientThreads) (p : Ptr) (w : Wait) : Option ClientThreads :=
  (sys.data.handlerWakes p w).map fun s => { sys with data := s }

/-- One step of the client, `none` when it cannot be taken. -/
def step (config : Configuration) (sys : ClientThreads) : Act → Option ClientThreads
  | .tunPacket dst now env =>
    if sys.data.endCampagnol then none else sys.start .commTun (commTun config dst now env)
  | .endPeers => if sys.data.endCampagnol then sys.start .commTun allPeers else none
  | .socketPacket src packet =>
    if sys.data.endCampagnol then none else sys.start .commSocket (commSocket src packet)
  | .rdvMessage msg now env =>
    if sys.data.endCampagnol then none else sys.start .rdvHandling (rdvHandling config msg now env)
  | .handle p now ok read =>
    (peerHandling config p now ok read (sys.data.handler p)).bind (sys.start (.peerHandling p))
  | .punch p =>
    match sys.data.punch p with
    | [] => none
    | n :: rest =>
      sys.start (.punch p) <|
        .effect (fun s => { s with punch := Function.update s.punch p rest }) (punch config p n)
  | .writingEnd p =>
    match sys.data.writing p with
    | 0 => none
    | n + 1 =>
      sys.start (.sslWriting p) <|
        .effect (fun s => { s with writing := Function.update s.writing p n }) <|
        peersDecrRef p 1 .done
  | .call t => sys.run recursive t
  | .timeout p => wake sys p .timedOut
  | .spurious p => wake sys p .signalled
  | .endCampagnol => some { sys with data := { sys.data with endCampagnol := true } }

/-- The client before its first packet. -/
def init : ClientThreads := .init .init

end Locks
end Client
end Campagnol
