import Campagnol.Client.Communication
import Campagnol.Rdv.Server

/-!
# Two clients and their RDV server

Two clients of one RDV server, and the datagrams between the three. A datagram in flight can
be delivered at any time, before or after any other, or be lost.
-/

namespace Campagnol
namespace Network

/-- The two clients. -/
inductive Side where
  | left | right
deriving Repr, DecidableEq

/-- The other client. -/
def Side.other : Side → Side
  | .left => .right
  | .right => .left

@[simp]
theorem Side.other_other (i : Side) : i.other.other = i := by
  cases i <;> rfl

theorem Side.other_ne (i : Side) : i.other ≠ i := by
  cases i <;> nofun

theorem Side.eq_other_of_ne {i j : Side} (h : i ≠ j) : i = j.other := by
  cases i <;> cases j <;> first | rfl | exact absurd rfl h

/-- The two clients, the server and the network between them. What the client `i` sends to
`dst` arrives from the address `sourceOf i dst`, and what is sent to `dst` reaches the client
`route dst`. At the server the client `i` shows as `endpoint i`, and that address reaches it. -/
structure Setup where
  server : Rdv.Configuration
  clock : ℕ → Int
  serverAddr : SockaddrIn
  client : Side → Client.Configuration
  localaddr : Side → SockaddrIn
  endpoint : Side → SockaddrIn
  sourceOf : Side → SockaddrIn → SockaddrIn
  route : SockaddrIn → Option Side
  serverAddr_eq : ∀ i, (client i).serverAddr = serverAddr
  vpnIP_ne : ∀ i, (client i).vpnIP ≠ (client i.other).vpnIP
  sourceOf_server : ∀ i, sourceOf i serverAddr = endpoint i
  route_endpoint : ∀ i, route (endpoint i) = some i

/-- The VPN IP of a client. -/
abbrev Setup.vpnIP (setup : Setup) (i : Side) : InAddr := (setup.client i).vpnIP

/-- A datagram on its way, with its source address. -/
structure Packet extends Datagram where
  src : SockaddrIn
deriving Repr, DecidableEq

/-- The clients, the server and the datagrams in flight. -/
structure Net where
  client : Side → Client.State
  server : Rdv.Server
  flight : List Packet

/-- Nobody is registered. -/
def Net.init : Net := ⟨fun _ => .init, .init, []⟩

/-- The steps of the network. -/
inductive Act where
  /-- A step of a thread of the client `i`. -/
  | client (i : Side) (a : Client.Act)
  /-- The client `i` sends a HELLO, a PING or a BYE. -/
  | hello (i : Side)
  | ping (i : Side)
  | bye (i : Side)
  /-- The `k`-th datagram in flight arrives. -/
  | deliver (k : ℕ) (env : Rdv.Env)
  /-- The `k`-th datagram in flight is lost. -/
  | lose (k : ℕ)
  /-- The other steps of the main loop of the server. -/
  | clean
  | time

/-- The arrival of a message. Messages reach a client through the network only. -/
def Receives : Client.Act → Bool
  | .rdvMessage _ => true
  | .socketPacket _ packet => packet ≠ .dtls
  | _ => false

/-- How a client takes a datagram. -/
def reception (setup : Setup) (pkt : Packet) : Client.Act :=
  if pkt.src = setup.serverAddr then .rdvMessage pkt.msg
  else .socketPacket pkt.src (if pkt.msg.type = .punch then .punch else .other)

namespace Net

/-- The client `i` has sent `msgs`. -/
def post (setup : Setup) (n : Net) (i : Side) (msgs : List Datagram) : Net :=
  { n with flight := n.flight ++ msgs.map fun d => ⟨d, setup.sourceOf i d.dst⟩ }

/-- A step of the client `i`. -/
def clientStep (setup : Setup) (n : Net) (i : Side) (a : Client.Act) : Option Net :=
  (Client.step (setup.client i) (n.client i) a).map fun s =>
    { n with client := Function.update n.client i s }.post setup i
      (s.sent.drop (n.client i).sent.length)

/-- A step of the server. -/
def serverStep (setup : Setup) (n : Net) (e : Rdv.Event) : Option Net :=
  (Rdv.step setup.server setup.clock n.server e).map fun s =>
    { n with
      server := s
      flight := n.flight ++
        (s.sent.drop n.server.sent.length).map fun d => ⟨d, setup.serverAddr⟩ }

/-- The `k`-th datagram is no longer in flight. -/
def take (n : Net) (k : ℕ) : Net := { n with flight := n.flight.eraseIdx k }

/-- The HELLO of `register_rdv`. -/
def sendHello (setup : Setup) (n : Net) (i : Side) : Net :=
  n.post setup i [⟨⟨.hello, (setup.localaddr i).sinPort, setup.vpnIP i,
    (setup.localaddr i).sinAddr⟩, setup.serverAddr⟩]

/-- The arrival of a datagram that has been taken from the network. -/
def arrive (setup : Setup) (n : Net) (pkt : Packet) (env : Rdv.Env) : Option Net :=
  if pkt.dst = setup.serverAddr then n.serverStep setup (.packet pkt.msg pkt.src env)
  else
    match setup.route pkt.dst with
    | none => none
    | some i => n.clientStep setup i (reception setup pkt)

end Net

/-- One step of the network, `none` when it cannot be taken. -/
def step (setup : Setup) (n : Net) : Act → Option Net
  | .client i a => if Receives a then none else n.clientStep setup i a
  | .hello i => some (n.sendHello setup i)
  | .ping i => some (n.post setup i [⟨Client.State.initSmsg .ping 0 0, setup.serverAddr⟩])
  | .bye i =>
    some (n.post setup i [⟨Client.State.initSmsg .bye (setup.vpnIP i) 0, setup.serverAddr⟩])
  | .deliver k env =>
    match n.flight[k]? with
    | none => none
    | some pkt => (n.take k).arrive setup pkt env
  | .lose k => if k < n.flight.length then some (n.take k) else none
  | .clean => n.serverStep setup .clean
  | .time => n.serverStep setup .time

end Network
end Campagnol
