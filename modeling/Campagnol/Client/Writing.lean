import Campagnol.Client.Peer
import Campagnol.Fifo.Bio

/-!
# The outgoing packets of a peer

The threads that use the queue `out_fifo` of one peer: `comm_tun` puts packets into it, the
`SSL_writing` thread of the peer takes them out, and `peer_handling` ends this thread with a packet
of length 0 (`client/communication.c`). A step is a section under the mutex of the peer, or one step
of a call of the FIFO BIO.

The packets of the TUN device and the results of OpenSSL, of the waits and of the inactivity test
are inputs.
-/

namespace Campagnol
namespace Client
namespace Writing

open Fifo (Bytes Bio FifoItem Env Obs Thread)

/-! ## Data -/

/-- `comm_tun`, as a thread of the BIO. -/
def commTun : Thread := 0

/-- `peer_handling`, as a thread of the BIO. -/
def peerHandling : Thread := 1

/-- `SSL_writing`, as a thread of the BIO. -/
def sslWriting : Thread := 2

/-- `MESSAGE_MAX_LENGTH`. -/
def messageMaxLength (tunMtu : ℕ) : ℕ := tunMtu + 200

/-- What `read_tun` returns: an IP packet that fits into the buffer of `comm_tun`. -/
structure TunPacket (tunMtu : ℕ) where
  bytes : Bytes
  ne_nil : bytes ≠ []
  length_le : bytes.length ≤ messageMaxLength tunMtu

/-- Where `comm_tun` stands, as far as the peer is concerned. It holds the mutex of the peer in a
broadcast. -/
inductive TunPc (tunMtu : ℕ) where
  | idle
  /-- The first packet, after `peers_add_requested`. -/
  | first (packet : TunPacket tunMtu)
  | starting
  | forward (packet : TunPacket tunMtu)
  | broadcast (packet : TunPacket tunMtu)

/-- Where `peer_handling` stands. -/
inductive HandlerPc where
  | notStarted
  | top
  | waitAnswer
  | waitPunch
  | handshake
  | startWriting
  | reading
  /-- In `end_SSL_writing`. -/
  | ending
  | done
deriving Repr, DecidableEq

/-- Where `SSL_writing` stands. -/
inductive WritingPc where
  | notStarted
  /-- The thread has been created, and has not run yet. -/
  | created
  | top
  | got (packet : Bytes)
  | done
deriving Repr, DecidableEq

/-- The results of `SSL_write`, as `SSL_writing` tells them apart. -/
inductive SslWrite where
  | written
  /-- `BIO_should_write`. -/
  | retry
  /-- `SSL_ERROR_ZERO_RETURN`. -/
  | zeroReturn
  /-- `SSL_ERROR_SSL`, after `SSL_shutdown` or not. -/
  | sslError (shutdown : Bool)
  /-- Another error. -/
  | other
deriving Repr, DecidableEq

/-- The results of `SSL_read`, as `peer_handling` tells them apart. -/
inductive SslRead where
  /-- A timeout; the session may have been inactive for too long. -/
  | timeout (expired : Bool)
  | again
  /-- An error, a shutdown of the other side, or `end_peer_handling`. -/
  | failed
  | packet
deriving Repr, DecidableEq

/-- One peer, its queue and its threads. -/
structure State (tunMtu : ℕ) where
  state : ClientType
  out : Bio
  tun : TunPc tunMtu
  handler : HandlerPc
  writing : WritingPc

/-- The steps of the threads. -/
inductive Act (tunMtu : ℕ) where
  /-- `comm_tun` finds the peer for a packet. -/
  | tunPacket (packet : TunPacket tunMtu)
  /-- `comm_tun` comes to the peer with a broadcast packet. -/
  | tunBroadcast (packet : TunPacket tunMtu)
  | tunStep (env : Env)
  /-- The next step of `peer_handling`: whether the wait or the handshake succeeds, the flag
  `end_campagnol`, and the result of `SSL_read`. -/
  | handlerStep (env : Env) (ok endCampagnol : Bool) (read : SslRead)
  | writingStep (env : Env) (result : SslWrite)

/-- `out_fifo`, as `createClientSSL` sets it up. -/
def outFifo (tunMtu fifoSize : ℕ) (hsize : 0 < fifoSize ∧ fifoSize < 0x80000000)
    (mallocs : ℕ → Bool) (junk : ℕ → FifoItem) : Option Bio :=
  (Fifo.fifoAllocate fifoSize (messageMaxLength tunMtu) hsize mallocs junk).map
    fun b => (b.fifoCtrl (.fifoSetDroptail 1)).1

namespace State
variable {tunMtu : ℕ}

/-- `comm_tun` has created the peer for a packet. -/
def requested (out : Bio) (packet : TunPacket tunMtu) : State tunMtu :=
  ⟨.new, out, .first packet, .notStarted, .notStarted⟩

/-- `rdv_handling` has created the peer and starts its thread. -/
def called (out : Bio) : State tunMtu :=
  ⟨.punching, out, .idle, .top, .notStarted⟩

/-! ## Calls of the BIO -/

/-- A step of a `BIO_write` by the thread `t`, from its start or after a wait. The second
component says whether the call returns. -/
def bioWrite (out : Bio) (t : Thread) (buf : Bytes) (env : Env) : Option (Bio × Bool) :=
  let r :=
    match out.pc t with
    | .idle => Fifo.step out (.write t (some buf) env)
    | _ => Fifo.step out (.resume t env)
  r.map fun r =>
    match r.2 with
    | .accepted _ _ | .discarded _ _ => (r.1, true)
    | _ => (r.1, false)

/-- A step of a `BIO_read` by the thread `t`, and the packet if the call returns. No timeout is
set on this BIO. -/
def bioRead (out : Bio) (t : Thread) (outl : ℕ) (env : Env) : Option (Bio × Option Bytes) :=
  let r :=
    match out.pc t with
    | .idle => Fifo.step out (.read t (some outl) env)
    | _ => Fifo.step out (.resume t env)
  r.map fun r =>
    match r.2 with
    | .delivered _ _ packet => (r.1, some packet)
    | _ => (r.1, none)

/-! ## `comm_tun` -/

/-- The mutex of the peer is locked. The other threads do not hold it from one step to the
next. -/
def mutex (s : State tunMtu) : Bool :=
  match s.tun with
  | .broadcast _ => true
  | _ => false

/-- A packet for the peer. -/
def tunPacket (s : State tunMtu) (packet : TunPacket tunMtu) : Option (State tunMtu) :=
  match s.tun with
  | .idle => some (if s.state ≠ .closed then { s with tun := .forward packet } else s)
  | _ => none

/-- A packet for all peers. -/
def tunBroadcast (s : State tunMtu) (packet : TunPacket tunMtu) : Option (State tunMtu) :=
  match s.tun with
  | .idle => some (if s.state = .established then { s with tun := .broadcast packet } else s)
  | _ => none

/-- `comm_tun` writes its packet. After the first one it starts `peer_handling`. -/
def tunStep (s : State tunMtu) (env : Env) : Option (State tunMtu) :=
  match s.tun with
  | .idle => none
  | .first packet =>
    (bioWrite s.out commTun packet.bytes env).map fun (out, returned) =>
      { s with out := out, tun := if returned then .starting else .first packet }
  | .starting => some { s with handler := .top, tun := .idle }
  | .forward packet =>
    (bioWrite s.out commTun packet.bytes env).map fun (out, returned) =>
      { s with out := out, tun := if returned then .idle else .forward packet }
  | .broadcast packet =>
    (bioWrite s.out commTun packet.bytes env).map fun (out, returned) =>
      { s with out := out, tun := if returned then .idle else .broadcast packet }

/-! ## `peer_handling` -/

/-- The loop of `peer_handling`, up to the end of its first section. -/
def handlerTop (s : State tunMtu) (endCampagnol : Bool) : State tunMtu :=
  match s.state with
  | .new =>
    if endCampagnol then { s with state := .closed } else { s with handler := .waitAnswer }
  | .punching =>
    if endCampagnol then { s with state := .closed } else { s with handler := .waitPunch }
  | .linked =>
    if endCampagnol then { s with state := .closed } else { s with handler := .handshake }
  | .established => { s with handler := .startWriting }
  | .closed => { s with handler := .done }

/-- The thread changes the state of the peer and goes back to the top of its loop. -/
def changeState (s : State tunMtu) (state : ClientType) : State tunMtu :=
  { s with state := state, handler := .top }

/-- The state ESTABLISHED, after `SSL_read`. -/
def handlerRead (s : State tunMtu) (read : SslRead) : State tunMtu :=
  match read with
  | .timeout false | .again | .packet => s
  | .timeout true | .failed => { s with state := .closed, handler := .ending }

/-- One step of `peer_handling`. -/
def handlerStep (s : State tunMtu) (env : Env) (ok endCampagnol : Bool) (read : SslRead) :
    Option (State tunMtu) :=
  match s.handler with
  | .notStarted | .done => none
  | .startWriting => some { s with writing := .created, handler := .reading }
  | .ending =>
    (bioWrite s.out peerHandling [] env).map fun (out, returned) =>
      { s with out := out, handler := if returned then .top else .ending }
  | pc =>
    if s.mutex then none
    else
      match pc with
      | .top => some (s.handlerTop endCampagnol)
      | .waitAnswer => some (s.changeState (if ok && !endCampagnol then .punching else .closed))
      | .waitPunch => some (s.changeState (if ok && !endCampagnol then .linked else .closed))
      | .handshake => some (s.changeState (if ok then .established else .closed))
      | .reading => some (s.handlerRead read)
      | _ => none

/-! ## `SSL_writing` -/

/-- One step of `SSL_writing`. It stops dropping packets before its first `BIO_read`. -/
def writingStep (s : State tunMtu) (env : Env) (result : SslWrite) : Option (State tunMtu) :=
  match s.writing with
  | .notStarted | .done => none
  | .created =>
    some { s with out := (s.out.fifoCtrl (.fifoSetDroptail 0)).1, writing := .top }
  | .top =>
    (bioRead s.out sslWriting (messageMaxLength tunMtu) env).map fun (out, packet) =>
      { s with
        out := out
        writing :=
          match packet with
          | none => .top
          | some packet => if packet.length = 0 then .done else .got packet }
  | .got packet =>
    some { s with
      writing :=
        match result with
        | .written | .other | .sslError true => .top
        | .retry => .got packet
        | .zeroReturn | .sslError false => .done }

end State

/-- One step of the three threads, `none` when it cannot be taken. -/
def step {tunMtu : ℕ} (s : State tunMtu) : Act tunMtu → Option (State tunMtu)
  | .tunPacket packet => s.tunPacket packet
  | .tunBroadcast packet => s.tunBroadcast packet
  | .tunStep env => s.tunStep env
  | .handlerStep env ok endCampagnol read => s.handlerStep env ok endCampagnol read
  | .writingStep env result => s.writingStep env result

end Writing
end Client
end Campagnol
