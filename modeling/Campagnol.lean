import Campagnol.Lib.SearchTree
import Campagnol.Lib.Table
import Campagnol.Lib.Heap
import Campagnol.Lib.LinkedList
import Campagnol.Lib.Run
import Campagnol.Lib.Loop
import Campagnol.Lib.Unfold
import Campagnol.Lib.Threads
import Campagnol.Lib.OnesComplement
import Campagnol.Lib.Window
import Campagnol.Lib.Block
import Campagnol.Wire
import Campagnol.Rdv.Server
import Campagnol.Rdv.PeerTheorems
import Campagnol.Rdv.SessionTheorems
import Campagnol.Rdv.ServerTheorems
import Campagnol.Rdv.Invariants
import Campagnol.Rdv.Frame
import Campagnol.Rdv.Ask
import Campagnol.Rdv.Messages
import Campagnol.Rdv.Hello
import Campagnol.Rdv.Clean
import Campagnol.Rdv.Sessionless
import Campagnol.Lib.Ring
import Campagnol.Fifo.Bio
import Campagnol.Fifo.Queue
import Campagnol.Fifo.BioTheorems
import Campagnol.Fifo.Calls
import Campagnol.Fifo.Refinement
import Campagnol.Fifo.Wakeups
import Campagnol.Fifo.Timeouts
import Campagnol.Fifo.Occupancy
import Campagnol.Client.Peer
import Campagnol.Client.Communication
import Campagnol.Client.PeerTheorems
import Campagnol.Client.Transitions
import Campagnol.Client.References
import Campagnol.Client.Invariants
import Campagnol.Client.VpnIndex
import Campagnol.Client.Roles
import Campagnol.Client.Sections
import Campagnol.Client.Mutex
import Campagnol.Client.Consent
import Campagnol.Client.Punching
import Campagnol.Client.Writing
import Campagnol.Client.WritingTheorems
import Campagnol.Client.Marker
import Campagnol.Client.Locks
import Campagnol.Client.LocksTheorems
import Campagnol.Client.FailedAdd
import Campagnol.Client.Checksum
import Campagnol.Client.RateLimiter
import Campagnol.Network.Model
import Campagnol.Network.Roles
import Campagnol.Network.Registration
import Campagnol.Config.Strlib
import Campagnol.Config.Parser
import Campagnol.Config.Contents
import Campagnol.Config.Store
import Campagnol.Config.Expand
import Campagnol.Config.References
import Campagnol.Config.ExpandTheorems
import Campagnol.Config.Expansion
import Campagnol.Config.Io
import Campagnol.Config.Reader
import Campagnol.Config.Escapes
import Campagnol.Config.Names
import Campagnol.Config.Values
import Campagnol.Config.Simulation
import Campagnol.Config.Termination
import Campagnol.Config.LineEndings
import Campagnol.Config.Locality
import Campagnol.Config.RoundTrip
import Campagnol.Config.Numbers
import Campagnol.Config.Getters
import Campagnol.Config.StrlibMemory
import Campagnol.Client.Mtu
import Campagnol.Client.Inactivity
import Campagnol.Client.TunDevice
