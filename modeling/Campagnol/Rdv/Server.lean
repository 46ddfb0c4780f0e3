import Campagnol.Rdv.Session

/-!
# The RDV server

`rdvserver/server.c`: what the server does with one datagram (`handle_packet`), the
cleaning of dead clients, and the loop over both.
-/

namespace Campagnol
namespace Rdv

/-- The server process: the client registry, the session table, the number of calls of
`time(NULL)` so far, and the datagrams handed to `sendto`, oldest first. -/
structure Server where
  reg : Registry
  tab : SessionTable
  ticks : ℕ
  sent : List Datagram

/-- The server before the first packet. -/
def Server.init : Server := ⟨.init, .init, 0, []⟩

/-- Outcomes of the allocations made while one packet is handled. At most one client and
one session are allocated for a packet. -/
structure Env where
  client : ClientAlloc
  session : SessionAlloc

namespace Server

/-! ## Clock -/

/-- The result of the next call of `time(NULL)`, when `clock k` is the result of call `k`. -/
def now (clock : ℕ → Int) (s : Server) : Int := clock s.ticks

/-- `time(NULL)` has been called once more. -/
def tick (s : Server) : Server := { s with ticks := s.ticks + 1 }

@[simp] theorem tick_reg (s : Server) : s.tick.reg = s.reg := rfl
@[simp] theorem tick_tab (s : Server) : s.tick.tab = s.tab := rfl
@[simp] theorem tick_ticks (s : Server) : s.tick.ticks = s.ticks + 1 := rfl
@[simp] theorem tick_sent (s : Server) : s.tick.sent = s.sent := rfl

/-- `client_is_timeout`, with the next reading of the clock. -/
def clientIsTimeout (clock : ℕ → Int) (s : Server) (peer : Ptr) : Bool :=
  s.reg.clientIsTimeout (s.now clock) peer

/-- `client_is_dead`, with the next reading of the clock. -/
def clientIsDead (clock : ℕ → Int) (s : Server) (peer : Ptr) : Bool :=
  s.reg.clientIsDead (s.now clock) peer

/-- `client_update_time`: `peer->time = time(NULL)`. -/
def clientUpdateTime (clock : ℕ → Int) (s : Server) (peer : Ptr) : Server :=
  { s with reg := s.reg.clientUpdateTime (s.now clock) peer }.tick

/-- `session_update_time`: `sess->time = time(NULL)`. -/
def sessionUpdateTime (clock : ℕ → Int) (s : Server) (sess : Ptr) : Server :=
  { s with tab := s.tab.sessionUpdateTime (s.now clock) sess }.tick

/-! ## Sending -/

/-- `send_message`. -/
def sendMessage (s : Server) (type : MsgType) (port : UInt16) (ip1 ip2 : InAddr)
    (dst : SockaddrIn) : Server :=
  { s with sent := s.sent ++ [⟨⟨type, port, ip1, ip2⟩, dst⟩] }

/-- `send_OK`. -/
def sendOK (s : Server) (dst : SockaddrIn) : Server :=
  s.sendMessage .ok 0 .empty .empty dst

/-- `send_NOK`. -/
def sendNOK (s : Server) (dst : SockaddrIn) : Server :=
  s.sendMessage .nok 0 .empty .empty dst

/-- `send_REJECT`. -/
def sendREJECT (s : Server) (ip : InAddr) (dst : SockaddrIn) : Server :=
  s.sendMessage .rejConnection 0 ip .empty dst

/-- `send_PONG`. -/
def sendPONG (s : Server) (dst : SockaddrIn) : Server :=
  s.sendMessage .pong 0 .empty .empty dst

/-- `send_RECONNECT`. -/
def sendRECONNECT (s : Server) (dst : SockaddrIn) : Server :=
  s.sendMessage .reconnect 0 .empty .empty dst

/-- `send_ANS` and `send_FWD` differ in the type of the message only: `client` is told
the local or the public address of `requestedClient`. -/
def sendEndpoint (s : Server) (type : MsgType) (client requestedClient : Ptr)
    (sendLocal : Bool) : Server :=
  let c := s.reg.clientAt requestedClient
  if sendLocal then
    s.sendMessage type c.localaddr.sinPort c.localaddr.sinAddr c.vpnIP (s.reg.addrOf client)
  else
    s.sendMessage type c.clientaddr.sinPort c.clientaddr.sinAddr c.vpnIP (s.reg.addrOf client)

@[simp] theorem sendEndpoint_reg (s : Server) (type : MsgType) (p q : Ptr) (b : Bool) :
    (s.sendEndpoint type p q b).reg = s.reg := by
  cases b <;> rfl

@[simp] theorem sendEndpoint_tab (s : Server) (type : MsgType) (p q : Ptr) (b : Bool) :
    (s.sendEndpoint type p q b).tab = s.tab := by
  cases b <;> rfl

@[simp] theorem sendEndpoint_ticks (s : Server) (type : MsgType) (p q : Ptr) (b : Bool) :
    (s.sendEndpoint type p q b).ticks = s.ticks := by
  cases b <;> rfl

/-- `send_ANS`. -/
def sendANS (s : Server) (client requestedClient : Ptr) (sendLocal : Bool) : Server :=
  s.sendEndpoint .ansConnection client requestedClient sendLocal

/-- `send_FWD`. -/
def sendFWD (s : Server) (client requestedClient : Ptr) (sendLocal : Bool) : Server :=
  s.sendEndpoint .fwdConnection client requestedClient sendLocal

/-! ## Removing clients -/

/-- The two calls every removal of a client is made of:
`remove_sessions_with_client(peer); remove_client(peer);`. -/
def dropClient (s : Server) (peer : Ptr) : Server :=
  { s with tab := s.tab.removeSessionsWithClient peer, reg := s.reg.removeClient peer }

/-- `clean_dead_clients`. The clock is read once per visited client, and the number of
live clients bounds the walk. -/
def cleanDeadClients (clock : ℕ → Int) (s : Server) : Server :=
  Links.walk (fun s peer => s.reg.clients.next peer)
    (fun peer s => if s.clientIsDead clock peer then s.tick.dropClient peer else s.tick)
    s.reg.client.size s.reg.clients.head s

/-- The loop at the end of `rdv_server`, which removes every client. -/
def removeAllClients (s : Server) : Server :=
  Links.walk (fun s peer => s.reg.clients.next peer) (fun peer s => s.dropClient peer)
    s.reg.client.size s.reg.clients.head s

/-! ## `handle_packet` -/

/-- The local address given in a HELLO, or none when its port is 0. -/
def localaddrOf (rmsg : Message) : SockaddrIn :=
  if rmsg.port ≠ 0 then ⟨rmsg.ip2, rmsg.port⟩ else ⟨.empty, 0⟩

/-- The end of the two registering branches: `add_client`, then `send_OK` if that
succeeded. -/
def register (config : Configuration) (clock : ℕ → Int) (env : Env) (s : Server)
    (rmsg : Message) (src : SockaddrIn) : Server :=
  match s.reg.addClient config env.client (s.now clock) src rmsg.ip1 (localaddrOf rmsg) with
  | (some _, reg) => { s.tick with reg := reg }.sendOK src
  | (none, reg) => { s.tick with reg := reg }

/-- HELLO from an endpoint that is not registered: the rest of the branch, once the VPN
IP is free. -/
def helloFree (config : Configuration) (clock : ℕ → Int) (env : Env) (s : Server)
    (rmsg : Message) (src : SockaddrIn) : Server :=
  if config.maxClients ≠ 0 ∧ s.reg.nClients = config.maxClients then
    let s := s.cleanDeadClients clock
    if s.reg.nClients = config.maxClients then s.sendNOK src
    else register config clock env s rmsg src
  else register config clock env s rmsg src

/-- HELLO from an endpoint that is not registered. -/
def helloUnknown (config : Configuration) (clock : ℕ → Int) (env : Env) (s : Server)
    (rmsg : Message) (src : SockaddrIn) : Server :=
  match s.reg.getClientVPN rmsg.ip1 with
  | some peerTmp =>
    if s.clientIsTimeout clock peerTmp then
      helloFree config clock env (s.tick.dropClient peerTmp) rmsg src
    else s.tick.sendNOK src
  | none => helloFree config clock env s rmsg src

/-- HELLO from the endpoint of the client `peer`. A new VPN IP is not looked up. -/
def helloKnown (config : Configuration) (clock : ℕ → Int) (env : Env) (s : Server)
    (rmsg : Message) (src : SockaddrIn) (peer : Ptr) : Server :=
  if s.clientIsTimeout clock peer then
    let s := s.tick
    if s.reg.vpnOf peer = rmsg.ip1 then (s.clientUpdateTime clock peer).sendOK src
    else register config clock env (s.dropClient peer) rmsg src
  else s.tick.sendNOK src

/-- BYE. -/
def handleBye (s : Server) (peer : Ptr) : Server := s.dropClient peer

/-- PING. -/
def handlePing (clock : ℕ → Int) (s : Server) (src : SockaddrIn) (peer : Ptr) : Server :=
  (s.sendPONG src).clientUpdateTime clock peer

/-- `send_local_ip`: both clients gave a local address, and share a public one. -/
def sendLocalIp (s : Server) (peer peerTmp : Ptr) : Bool :=
  (s.reg.clientAt peer).localaddr.sinPort ≠ 0 ∧ (s.reg.clientAt peerTmp).localaddr.sinPort ≠ 0 ∧
    (s.reg.addrOf peer).sinAddr = (s.reg.addrOf peerTmp).sinAddr

/-- ASK_CONNECTION without a session from `peer` to `peerTmp`: a session the other way
round is removed first. -/
def askNewSession (clock : ℕ → Int) (env : Env) (s : Server) (rmsg : Message)
    (src : SockaddrIn) (peer peerTmp : Ptr) (sendLocal : Bool) : Server :=
  match (s.tab.removeSessionBetween peerTmp peer).addSession env.session peer peerTmp
      (s.now clock) with
  | (some _, tab) =>
    ({ s.tick with tab := tab }.sendANS peer peerTmp sendLocal).sendFWD peerTmp peer sendLocal
  | (none, tab) => { s.tick with tab := tab }.sendREJECT rmsg.ip1 src

/-- ASK_CONNECTION for a session that exists: it is announced again. -/
def askOldSession (clock : ℕ → Int) (s : Server) (sess : Ptr) (sendLocal : Bool) : Server :=
  let x := s.tab.sessionAt sess
  ((s.sendANS x.peer1 x.peer2 sendLocal).sendFWD x.peer2 x.peer1 sendLocal).sessionUpdateTime
    clock sess

/-- ASK_CONNECTION. -/
def handleAsk (clock : ℕ → Int) (env : Env) (s : Server) (rmsg : Message)
    (src : SockaddrIn) (peer : Ptr) : Server :=
  match s.reg.getClientVPN rmsg.ip1 with
  | none => s.sendREJECT rmsg.ip1 src
  | some peerTmp =>
    if s.clientIsTimeout clock peerTmp then
      (s.tick.sendREJECT rmsg.ip1 src).dropClient peerTmp
    else
      let sendLocal := s.sendLocalIp peer peerTmp
      match s.tab.getSession peer peerTmp with
      | none => askNewSession clock env s.tick rmsg src peer peerTmp sendLocal
      | some sess => askOldSession clock s.tick sess sendLocal

/-- CLOSE_CONNECTION. -/
def handleClose (s : Server) (rmsg : Message) (peer : Ptr) : Server :=
  match s.reg.getClientVPN rmsg.ip1 with
  | some peerTmp =>
    { s with tab := (s.tab.removeSessionBetween peer peerTmp).removeSessionBetween peerTmp peer }
  | none => s

/-- `handle_packet`. -/
def handlePacket (config : Configuration) (clock : ℕ → Int) (env : Env) (s : Server)
    (rmsg : Message) (src : SockaddrIn) : Server :=
  match s.reg.getClientReal src with
  | none =>
    match rmsg.type with
    | .hello => helloUnknown config clock env s rmsg src
    | _ => s.sendRECONNECT src
  | some peer =>
    match rmsg.type with
    | .hello => helloKnown config clock env s rmsg src peer
    | .bye => s.handleBye peer
    | .ping => s.handlePing clock src peer
    | .askConnection => s.handleAsk clock env rmsg src peer
    | .closeConnection => s.handleClose rmsg peer
    | _ => s

end Server

/-! ## Runs -/

/-- One step of the server process. `time` is a reading of the clock by the main loop. -/
inductive Event where
  | packet (rmsg : Message) (src : SockaddrIn) (env : Env)
  | clean
  | time

/-- The main loop of `rdv_server`, one step at a time: datagrams, cleanings and clock
readings come in any order. -/
def step (config : Configuration) (clock : ℕ → Int) (s : Server) : Event → Option Server
  | .packet rmsg src env => some (s.handlePacket config clock env rmsg src)
  | .clean => some (s.cleanDeadClients clock)
  | .time => some s.tick

end Rdv
end Campagnol
