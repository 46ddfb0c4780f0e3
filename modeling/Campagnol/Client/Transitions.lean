import Campagnol.Client.Communication
import Campagnol.Client.PeerTheorems

/-!
# The transitions of a client

What one step of a client can do, thread by thread (`Transition`). All later results about
runs go through `transition_of_step`, so they do not depend on how the steps are written
down.
-/

namespace Campagnol
namespace Client

open SearchTree

/-- A section under the mutex of a peer leaves its addresses, its role and its reference
counter alone. -/
structure Keeps (f : Peer → Peer) : Prop where
  vpnIP : ∀ x, (f x).vpnIP = x.vpnIP
  clientaddr : ∀ x, (f x).clientaddr = x.clientaddr
  isDtlsClient : ∀ x, (f x).isDtlsClient = x.isDtlsClient
  refCount : ∀ x, (f x).refCount = x.refCount

/-- A section outside of `peer_handling`: the state of the peer stays, too. -/
structure KeepsState (f : Peer → Peer) : Prop extends Keeps f where
  state : ∀ x, (f x).state = x.state

theorem keepsState_id : KeepsState id :=
  ⟨⟨fun _ => rfl, fun _ => rfl, fun _ => rfl, fun _ => rfl⟩, fun _ => rfl⟩

theorem keepsState_unlock : KeepsState fun x => { x with mutex := false } :=
  ⟨⟨fun _ => rfl, fun _ => rfl, fun _ => rfl, fun _ => rfl⟩, fun _ => rfl⟩

theorem keeps_state (state : ClientType) : Keeps fun x => { x with state := state } :=
  ⟨fun _ => rfl, fun _ => rfl, fun _ => rfl, fun _ => rfl⟩

/-- The peer that a thread holds a reference of. -/
def TunPc.ref : TunPc → Option Ptr
  | .created p | .found p | .release p => some p
  | .idle | .missed _ => none

@[inherit_doc TunPc.ref]
def SocketPc.ref : SocketPc → Option Ptr
  | .foundDtls p | .foundPunch p | .release p => some p
  | .idle => none

@[inherit_doc TunPc.ref]
def RdvPc.ref : RdvPc → Option Ptr
  | .rej p | .ans p _ | .signal p | .created p | .fwdFound p | .release p => some p
  | .idle | .fwdMissed _ _ => none

/-- The life of a `peer_handling` thread. -/
inductive Life where
  | notStarted | running | done
deriving Repr, DecidableEq

/-- The part of its life that a `peer_handling` thread is in. -/
def HandlerPc.life : HandlerPc → Life
  | .notStarted => .notStarted
  | .done => .done
  | _ => .running

theorem HandlerPc.life_eq_done {pc : HandlerPc} : pc.life = .done ↔ pc = .done := by
  cases pc <;> simp [life]

theorem HandlerPc.life_eq_notStarted {pc : HandlerPc} :
    pc.life = .notStarted ↔ pc = .notStarted := by
  cases pc <;> simp [life]

/-- The states of a peer while its `peer_handling` thread stands at `pc`. -/
def HandlerPc.Agrees : HandlerPc → ClientType → Prop
  | .notStarted, st => st = .new ∨ st = .punching
  | .top, _ => True
  | .waitAnswer _, st => st = .new
  | .startPunch, st | .waitPunch _, st => st = .punching
  | .handshake, st => st = .linked
  | .startWriting, st | .reading _, st => st = .established
  | .closing, st | .done, st => st = .closed

/-- A signal at most wakes a `peer_handling` thread up. -/
structure Signalled (p : Ptr) (h h' : Ptr → HandlerPc) : Prop where
  frame : ∀ q, q ≠ p → h' q = h q
  waits : h' p = h p ∨ (∃ w w', h p = .waitAnswer w ∧ h' p = .waitAnswer w') ∨
    ∃ w w', h p = .waitPunch w ∧ h' p = .waitPunch w'

theorem Signalled.at {p : Ptr} {h h' : Ptr → HandlerPc} (hs : Signalled p h h') (q : Ptr) :
    h' q = h q ∨ (∃ w w', h q = .waitAnswer w ∧ h' q = .waitAnswer w') ∨
      ∃ w w', h q = .waitPunch w ∧ h' q = .waitPunch w' := by
  by_cases hq : q = p
  · subst hq
    exact hs.waits
  · exact .inl (hs.frame q hq)

/-- A peer after the section of `rdv_handling` for ANS_CONNECTION. -/
def answered (e : SockaddrIn) (x : Peer) : Peer :=
  { x with rdvAnswer := .ansConnection, clientaddr := e, mutex := false }

/-- The messages of `peer_handling` about the peer `x`. Only the state NEW asks for it. -/
def OfHandler (x : Peer) (msg : Message) : Prop :=
  (msg.type = .askConnection ∧ x.state = .new ∧ msg.ip1 = x.vpnIP) ∨
    msg.type = .closeConnection ∨ msg.type = .punchKeepAlive

/-- What one step can do. -/
inductive Transition (config : Configuration) (s : State) (a : Act) (s' : State) : Prop where
  /-- Nothing. -/
  | stutter (hs' : s' = s)
  | tunMissed (dst : InAddr) (hpc : s.tun = .idle) (hmiss : s.reg.findByVPN dst = none)
      (hs' : s' = { s with tun := .missed dst })
  | tunFound (p : Ptr) (hpc : s.tun = .idle) (hfound : p ∈ s.reg.clientsVpnRoot)
      (hs' : s' = { s with reg := s.reg.grab p, tun := .found p })
  | tunFull (dst : InAddr) (hpc : s.tun = .missed dst) (hs' : s' = { s with tun := .idle })
  | tunAdded (dst : InAddr) (now : Int) (env : AddEnv) (p : Ptr) (reg : Registry)
      (hact : a = .tunStep now env) (hpc : s.tun = .missed dst)
      (hadd : s.reg.peersAddRequested config env .new now dst = (some p, reg))
      (hs' : s' = { s with reg := reg, tun := .created p })
  | tunStart (p : Ptr) (hpc : s.tun = .created p)
      (hs' : s' = { s with
        reg := s.reg.peersIncrRef p
        handler := Function.update s.handler p .top
        tun := .release p })
  | tunUse (p : Ptr) (f : Peer → Peer) (hpc : s.tun = .found p) (hf : KeepsState f)
      (hs' : s' = { s with reg := s.reg.modify p f, tun := .release p })
  | tunRelease (p : Ptr) (hpc : s.tun = .release p)
      (hs' : s' = { s with reg := s.reg.peersDecrRef p 1, tun := .idle })
  | socketFound (p : Ptr) (pc : SocketPc) (hpc : s.socket = .idle) (hpc' : pc.ref = some p)
      (hfound : p ∈ s.reg.clientsAddressRoot)
      (hs' : s' = { s with reg := s.reg.grab p, socket := pc })
  | socketUse (p : Ptr) (f : Peer → Peer) (h : Ptr → HandlerPc) (hpc : s.socket.ref = some p)
      (hf : KeepsState f) (hh : Signalled p s.handler h)
      (hs' : s' = { s with reg := s.reg.modify p f, handler := h, socket := .release p })
  | socketRelease (p : Ptr) (hpc : s.socket = .release p)
      (hs' : s' = { s with reg := s.reg.peersDecrRef p 1, socket := .idle })
  | rdvMissed (e : SockaddrIn) (msg : Message) (hact : a = .rdvMessage msg)
      (htype : msg.type = .fwdConnection) (hpc : s.rdv = .idle)
      (hmiss : s.reg.findByVPN msg.ip2 = none)
      (hs' : s' = { s with rdv := .fwdMissed e msg.ip2 })
  | rdvFound (p : Ptr) (pc : RdvPc) (msg : Message) (hact : a = .rdvMessage msg)
      (hpc : s.rdv = .idle) (hpc' : pc.ref = some p) (hnot : pc ≠ .created p)
      (hans : ∀ e, pc = .ans p e → msg.type = .ansConnection)
      (hfound : p ∈ s.reg.clientsVpnRoot)
      (hs' : s' = { s with reg := s.reg.grab p, rdv := pc })
  | rdvUse (p : Ptr) (f : Peer → Peer) (h : Ptr → HandlerPc) (pc : RdvPc)
      (hpc : s.rdv.ref = some p) (hpc' : pc = .signal p ∨ pc = .release p)
      (hf : KeepsState f) (hh : Signalled p s.handler h)
      (hs' : s' = { s with reg := s.reg.modify p f, handler := h, rdv := pc })
  | rdvAnswer (p : Ptr) (e : SockaddrIn) (now : Int) (env : AddEnv) (hact : a = .rdvStep now env)
      (hpc : s.rdv = .ans p e)
      (hs' : s' = { s with
        reg := s.reg.modify p (answered e)
        rdv := .signal p })
  | rdvFull (e : SockaddrIn) (v : InAddr) (hpc : s.rdv = .fwdMissed e v)
      (hs' : s' = { s with rdv := .idle })
  | rdvAdded (e : SockaddrIn) (v : InAddr) (now : Int) (env : AddEnv) (p : Ptr) (reg : Registry)
      (hact : a = .rdvStep now env) (hpc : s.rdv = .fwdMissed e v)
      (hadd : s.reg.peersAddCaller config env .punching now e v = (some p, reg))
      (hs' : s' = { s with reg := reg, rdv := .created p })
  /-- The last allocation of `peers_add_caller` fails. -/
  | rdvLeak (e : SockaddrIn) (v : InAddr) (now : Int) (env : AddEnv) (reg : Registry)
      (hact : a = .rdvStep now env) (hpc : s.rdv = .fwdMissed e v)
      (henv : env.tsearchAddress = false)
      (hleak : Registry.Leaked s.reg reg s.reg.created .punching e v false)
      (hs' : s' = { s with reg := reg, rdv := .idle })
  | rdvStart (p : Ptr) (hpc : s.rdv = .created p)
      (hs' : s' = { s with
        reg := s.reg.peersIncrRef p
        handler := Function.update s.handler p .top
        rdv := .release p })
  | rdvRelease (p : Ptr) (hpc : s.rdv = .release p)
      (hs' : s' = { s with reg := s.reg.peersDecrRef p 1, rdv := .idle })
  | handlerSection (p : Ptr) (f : Peer → Peer) (pc : HandlerPc) (msgs : List Datagram)
      (hf : Keeps f) (hrun : (s.handler p).life = .running) (hrun' : pc.life = .running)
      (hnew : (f (s.reg.peer p)).state = .new → (s.reg.peer p).state = .new)
      (hstage : (s.handler p).Agrees (s.reg.peer p).state → pc.Agrees (f (s.reg.peer p)).state ∧
        ((s.reg.peer p).state = .closed → (f (s.reg.peer p)).state = .closed))
      (hmsgs : ∀ d ∈ msgs, OfHandler (s.reg.peer p) d.msg)
      (hs' : s' = { s with
        reg := s.reg.modify p f
        handler := Function.update s.handler p pc
        sent := s.sent ++ msgs })
  | handlerRegister (p : Ptr) (f : Peer → Peer) (alloc : Bool) (reg : Registry)
      (hpc : s.handler p = .waitAnswer .signalled)
      (hreg : s.reg.peersRegisterEndpoint alloc p = some reg) (hf : Keeps f)
      (hstate : ∀ x, (f x).state = .punching)
      (hs' : s' = { s with
        reg := reg.modify p f
        handler := Function.update s.handler p .top })
  | handlerPunch (p : Ptr) (f : Peer → Peer) (hpc : s.handler p = .startPunch) (hf : KeepsState f)
      (hs' : s' = { s with
        reg := (s.reg.peersIncrRef p).modify p f
        punch := Function.update s.punch p (s.punch p ++ [punchNumber])
        handler := Function.update s.handler p (.waitPunch .asleep) })
  | handlerWriting (p : Ptr) (hpc : s.handler p = .startWriting)
      (hs' : s' = { s with
        reg := s.reg.peersIncrRef p
        writing := Function.update s.writing p (s.writing p + 1)
        handler := Function.update s.handler p (.reading 0) })
  | handlerClose (p : Ptr) (hpc : s.handler p = .closing)
      (hs' : s' = { s with
        reg := s.reg.peersDecrRef p 2
        handler := Function.update s.handler p .done })
  | punchSection (p : Ptr) (k n : ℕ) (msgs : List Datagram) (hk : k < (s.punch p).length)
      (hmsgs : ∀ d ∈ msgs, d.msg.type = .punch)
      (hs' : s' = { s with
        punch := Function.update s.punch p ((s.punch p).set k n)
        sent := s.sent ++ msgs })
  | punchEnd (p : Ptr) (k : ℕ) (hk : k < (s.punch p).length)
      (hs' : s' = { s with
        reg := s.reg.peersDecrRef p 1
        punch := Function.update s.punch p ((s.punch p).eraseIdx k) })
  | writingEnd (p : Ptr) (n : ℕ) (hn : s.writing p = n + 1)
      (hs' : s' = { s with
        reg := s.reg.peersDecrRef p 1
        writing := Function.update s.writing p n })
  | ended (hs' : s' = { s with endCampagnol := true })

section
variable {config : Configuration} {s s' : State} {a : Act} {p : Ptr} {now : Int} {env : AddEnv}

theorem grab_eq (h : s.grab p = some s') : s' = { s with reg := s.reg.grab p } := by
  unfold State.grab at h
  split at h
  · cases h
  · exact (Option.some.inj h).symm

theorem signalled_conditionSignal (s : State) (p : Ptr) :
    Signalled p s.handler (s.conditionSignal p).handler := by
  unfold State.conditionSignal
  split
  · rename_i hpc
    exact ⟨fun q hq => Function.update_of_ne hq _ _,
      .inr (.inl ⟨_, _, hpc, Function.update_self ..⟩)⟩
  · rename_i hpc
    exact ⟨fun q hq => Function.update_of_ne hq _ _,
      .inr (.inr ⟨_, _, hpc, Function.update_self ..⟩)⟩
  · exact ⟨fun _ _ => rfl, .inl rfl⟩

/-- A signal changes nothing but the `peer_handling` threads. -/
theorem conditionSignal_eq (s : State) (p : Ptr) :
    s.conditionSignal p = { s with handler := (s.conditionSignal p).handler } := by
  unfold State.conditionSignal
  split <;> rfl

theorem transition_tunPacket {dst : InAddr} (h : s.tunPacket config dst = some s') :
    Transition config s (.tunPacket dst) s' := by
  unfold State.tunPacket at h
  split at h
  · cases h
  · rename_i hpc
    have hidle : s.tun = .idle := by
      by_contra hne
      exact hpc (.inl hne)
    split at h
    · exact .stutter (Option.some.inj h).symm
    · split at h
      · rename_i hmiss
        exact .tunMissed dst hidle hmiss (Option.some.inj h).symm
      · rename_i p hp
        obtain ⟨t, ht, rfl⟩ := Option.map_eq_some_iff.mp h
        obtain rfl := grab_eq ht
        exact .tunFound p hidle (mem_of_tfind hp).1 rfl

theorem transition_tunStep
    (h : s.tunStep config now env = some s') : Transition config s (.tunStep now env) s' := by
  unfold State.tunStep at h
  split at h
  · cases h
  · rename_i dst hpc
    split at h
    · rename_i reg hadd
      -- without an endpoint there is no second `tsearch` that could fail
      rcases Registry.leaked_of_peersAdd hadd with rfl | ⟨-, hport, -⟩
      · exact .tunFull dst hpc (Option.some.inj h).symm
      · exact absurd rfl hport
    · rename_i p reg hadd
      exact .tunAdded dst now env p reg rfl hpc hadd (Option.some.inj h).symm
  · rename_i p hpc
    exact .tunStart p hpc (Option.some.inj h).symm
  · rename_i p hpc
    dsimp only at h
    split at h
    · refine .tunUse p (fun x => { x with time := now, lastKeepalive := now, mutex := false }) hpc
        ⟨⟨fun _ => rfl, fun _ => rfl, fun _ => rfl, fun _ => rfl⟩, fun _ => rfl⟩ ?_
      rw [← Option.some.inj h]
      simp only [State.unlock, State.updatePeerTime, State.modify, Registry.modify_modify]
      rfl
    · exact .tunUse p _ hpc keepsState_unlock (Option.some.inj h).symm
  · rename_i p hpc
    exact .tunRelease p hpc (Option.some.inj h).symm

theorem transition_socketPacket {src : SockaddrIn} {packet : SocketPacket}
    (h : s.socketPacket src packet = some s') : Transition config s a s' := by
  unfold State.socketPacket at h
  split at h
  · cases h
  · rename_i hpc
    have hidle : s.socket = .idle := by
      by_contra hne
      exact hpc (.inl hne)
    split at h
    · exact .stutter (Option.some.inj h).symm
    · split at h
      · exact .stutter (Option.some.inj h).symm
      · rename_i p hp
        obtain ⟨t, ht, rfl⟩ := Option.map_eq_some_iff.mp h
        obtain rfl := grab_eq ht
        exact .socketFound p _ hidle rfl (mem_of_tfind hp).1 rfl
    · split at h
      · exact .stutter (Option.some.inj h).symm
      · rename_i p hp
        obtain ⟨t, ht, rfl⟩ := Option.map_eq_some_iff.mp h
        obtain rfl := grab_eq ht
        exact .socketFound p _ hidle rfl (mem_of_tfind hp).1 rfl

theorem transition_socketStep (h : s.socketStep = some s') : Transition config s a s' := by
  unfold State.socketStep at h
  split at h
  · cases h
  · rename_i p hpc
    exact .socketUse p _ s.handler (by rw [hpc]; rfl) keepsState_unlock ⟨fun _ _ => rfl, .inl rfl⟩
      (Option.some.inj h).symm
  · rename_i p hpc
    refine .socketUse p _ _ (by rw [hpc]; rfl) keepsState_unlock (signalled_conditionSignal s p) ?_
    rw [← Option.some.inj h, conditionSignal_eq]
    rfl
  · rename_i p hpc
    exact .socketRelease p hpc (Option.some.inj h).symm

theorem transition_rdvMessage {msg : Message} (h : s.rdvMessage msg = some s') :
    Transition config s (.rdvMessage msg) s' := by
  unfold State.rdvMessage at h
  split at h
  · cases h
  · rename_i hpc
    have hidle : s.rdv = .idle := by
      by_contra hne
      exact hpc (.inl hne)
    split at h
    · split at h
      · exact .stutter (Option.some.inj h).symm
      · rename_i p hp
        obtain ⟨t, ht, rfl⟩ := Option.map_eq_some_iff.mp h
        obtain rfl := grab_eq ht
        exact .rdvFound p _ msg rfl hidle rfl (by simp) (by simp) (mem_of_tfind hp).1 rfl
    · rename_i htype
      split at h
      · exact .stutter (Option.some.inj h).symm
      · rename_i p hp
        obtain ⟨t, ht, rfl⟩ := Option.map_eq_some_iff.mp h
        obtain rfl := grab_eq ht
        exact .rdvFound p _ msg rfl hidle rfl (by simp) (fun _ _ => htype) (mem_of_tfind hp).1 rfl
    · rename_i htype
      split at h
      · rename_i hmiss
        exact .rdvMissed _ msg rfl htype hidle hmiss (Option.some.inj h).symm
      · rename_i p hp
        obtain ⟨t, ht, rfl⟩ := Option.map_eq_some_iff.mp h
        obtain rfl := grab_eq ht
        exact .rdvFound p _ msg rfl hidle rfl (by simp) (by simp) (mem_of_tfind hp).1 rfl
    · exact .stutter (Option.some.inj h).symm

theorem transition_rdvStep
    (h : s.rdvStep config now env = some s') : Transition config s (.rdvStep now env) s' := by
  unfold State.rdvStep at h
  split at h
  · cases h
  · rename_i p hpc
    refine .rdvUse p (fun x => { x with rdvAnswer := .rejConnection, mutex := false }) s.handler
      (.signal p) (by rw [hpc]; rfl) (.inl rfl)
      ⟨⟨fun _ => rfl, fun _ => rfl, fun _ => rfl, fun _ => rfl⟩, fun _ => rfl⟩
      ⟨fun _ _ => rfl, .inl rfl⟩ ?_
    rw [← Option.some.inj h]
    simp only [State.unlock, State.modify, Registry.modify_modify]
    rfl
  · rename_i p e hpc
    refine .rdvAnswer p e now env rfl hpc ?_
    rw [← Option.some.inj h]
    simp only [State.unlock, State.modify, Registry.modify_modify]
    rfl
  · rename_i p hpc
    refine .rdvUse p id _ (.release p) (by rw [hpc]; rfl) (.inr rfl) keepsState_id
      (signalled_conditionSignal s p) ?_
    rw [← Option.some.inj h, conditionSignal_eq, Registry.modify_id]
  · rename_i e v hpc
    split at h
    · rename_i reg hadd
      rcases Registry.leaked_of_peersAdd hadd with rfl | ⟨henv, -, hleak⟩
      · exact .rdvFull e v hpc (Option.some.inj h).symm
      · exact .rdvLeak e v now env reg rfl hpc henv hleak (Option.some.inj h).symm
    · rename_i p reg hadd
      exact .rdvAdded e v now env p reg rfl hpc hadd (Option.some.inj h).symm
  · rename_i p hpc
    exact .rdvStart p hpc (Option.some.inj h).symm
  · rename_i p hpc
    exact .rdvUse p _ s.handler (.release p) (by rw [hpc]; rfl) (.inr rfl) keepsState_unlock
      ⟨fun _ _ => rfl, .inl rfl⟩ (Option.some.inj h).symm
  · rename_i p hpc
    exact .rdvRelease p hpc (Option.some.inj h).symm

/-! ### `peer_handling` -/

/-- The thread moves on without a change of the peer. -/
theorem transition_goto (p : Ptr) (pc : HandlerPc) (msgs : List Datagram)
    (hrun : (s.handler p).life = .running) (hrun' : pc.life = .running)
    (hstage : (s.handler p).Agrees (s.reg.peer p).state → pc.Agrees (s.reg.peer p).state)
    (hmsgs : ∀ d ∈ msgs, OfHandler (s.reg.peer p) d.msg)
    (hs' : s' = { s with
      handler := Function.update s.handler p pc
      sent := s.sent ++ msgs }) : Transition config s a s' := by
  refine .handlerSection p id pc msgs keepsState_id.toKeeps hrun hrun' id
    (fun h => ⟨hstage h, id⟩) hmsgs ?_
  rw [hs', Registry.modify_id]

/-- As `transition_goto`, without a message. -/
theorem transition_move (p : Ptr) (pc : HandlerPc) (hrun : (s.handler p).life = .running)
    (hrun' : pc.life = .running)
    (hstage : (s.handler p).Agrees (s.reg.peer p).state → pc.Agrees (s.reg.peer p).state)
    (hs' : s' = { s with handler := Function.update s.handler p pc }) :
    Transition config s a s' := by
  refine transition_goto p pc [] hrun hrun' hstage (List.forall_mem_nil _) ?_
  rw [hs', List.append_nil]

/-- The thread changes the state of its peer and goes back to the top of its loop. -/
theorem transition_changeState (state : ClientType) (msgs : List Datagram)
    (hrun : (s.handler p).life = .running) (hnew : state ≠ .new)
    (hclosed : (s.handler p).Agrees .closed → state = .closed)
    (hmsgs : ∀ d ∈ msgs, OfHandler (s.reg.peer p) d.msg)
    (hs' : s' = { s with
      reg := s.reg.modify p fun x => { x with state := state }
      handler := Function.update s.handler p .top
      sent := s.sent ++ msgs }) : Transition config s a s' :=
  .handlerSection p _ .top msgs (keeps_state state) hrun rfl (fun h => absurd h hnew)
    (fun h => ⟨trivial, fun hc => hclosed (hc ▸ h)⟩) hmsgs hs'

/-- As `transition_changeState`, without a message. -/
theorem transition_newState (state : ClientType) (hrun : (s.handler p).life = .running)
    (hnew : state ≠ .new) (hclosed : (s.handler p).Agrees .closed → state = .closed)
    (hs' : s' = { s with
      reg := s.reg.modify p fun x => { x with state := state }
      handler := Function.update s.handler p .top }) : Transition config s a s' := by
  refine transition_changeState state [] hrun hnew hclosed (List.forall_mem_nil _) ?_
  rw [hs', List.append_nil]

theorem transition_handlerTop (hpc : s.handler p = .top) :
    Transition config s a (s.handlerTop config p) := by
  have hrun : (s.handler p).life = .running := by rw [hpc]; rfl
  have hstay : Function.update s.handler p .top = s.handler := by
    rw [← hpc, Function.update_eq_self]
  have hclose : Transition config s a (s.changeState p .closed) := by
    refine transition_newState .closed hrun (by simp) (fun _ => rfl) ?_
    rw [hstay]
    rfl
  unfold State.handlerTop
  -- the states in the order of the `switch`; CLOSED leaves the loop
  split
  · rename_i hnew
    split
    · exact hclose
    · refine transition_goto p (.waitAnswer .asleep) _ hrun rfl (fun _ => hnew) ?_ rfl
      intro d hd
      obtain rfl := List.mem_singleton.mp hd
      exact .inl ⟨rfl, hnew, rfl⟩
  · rename_i hpunching
    split
    · exact hclose
    · refine .handlerSection p (fun x => { x with mutex := true }) .startPunch []
        ⟨fun _ => rfl, fun _ => rfl, fun _ => rfl, fun _ => rfl⟩ hrun rfl id
        (fun _ => ⟨hpunching, id⟩) (List.forall_mem_nil _) ?_
      rw [List.append_nil]
      rfl
  · rename_i hlinked
    split
    · exact hclose
    · exact transition_move p .handshake hrun rfl (fun _ => hlinked) rfl
  · rename_i hestablished
    exact transition_move p .startWriting hrun rfl (fun _ => hestablished) rfl
  · rename_i hclosed
    exact transition_move p .closing hrun rfl (fun _ => hclosed) rfl

theorem transition_handlerAnswer {timedOut ok : Bool} {w : Wait}
    (hpc : s.handler p = .waitAnswer w) (hw : timedOut = false → w = .signalled) :
    Transition config s a (s.handlerAnswer p timedOut ok) := by
  have hrun : (s.handler p).life = .running := by rw [hpc]; rfl
  have hclose : Transition config s a ((s.changeState p .closed).goto p .top) :=
    transition_newState .closed hrun (by simp) (fun _ => rfl) rfl
  unfold State.handlerAnswer
  split
  · exact hclose
  · rename_i haccept
    split
    · exact hclose
    · rename_i reg hreg
      -- a wait that timed out has taken the branch above
      have hsignalled : w = .signalled := by
        apply hw
        by_contra ht
        exact haccept (.inl (by simpa using ht))
      exact .handlerRegister p _ ok reg (hpc.trans (by rw [hsignalled])) hreg
        (keeps_state .punching) (fun _ => rfl) rfl

theorem transition_handlerPunched {timedOut : Bool} {w : Wait} (hpc : s.handler p = .waitPunch w) :
    Transition config s a (s.handlerPunched config p timedOut) := by
  have hrun : (s.handler p).life = .running := by rw [hpc]; rfl
  unfold State.handlerPunched
  split
  · exact transition_changeState .closed _ hrun (by simp) (fun _ => rfl)
      (by simp [OfHandler, State.initSmsg]) rfl
  · split
    · exact transition_newState .closed hrun (by simp) (fun _ => rfl) rfl
    · exact transition_newState .linked hrun (by simp) (by rw [hpc]; nofun) rfl

theorem transition_handlerHandshake {ok : Bool} (hpc : s.handler p = .handshake) :
    Transition config s a (s.handlerHandshake config p now ok) := by
  have hrun : (s.handler p).life = .running := by rw [hpc]; rfl
  unfold State.handlerHandshake
  split
  · refine .handlerSection p
      (fun x => { x with state := .established, time := now, lastKeepalive := now }) .top []
      ⟨fun _ => rfl, fun _ => rfl, fun _ => rfl, fun _ => rfl⟩ hrun rfl (fun h => by cases h) ?_
      (List.forall_mem_nil _) ?_
    · rw [hpc]
      exact fun hagrees => ⟨trivial, fun hclosed => nomatch hagrees.symm.trans hclosed⟩
    simp only [State.changeState, State.updatePeerTime, State.modify, State.goto,
      Registry.modify_modify, List.append_nil]
    rfl
  · exact transition_changeState .closed _ hrun (by simp) (fun _ => rfl)
      (by simp [OfHandler, State.initSmsg]) rfl

/-- A section in the state ESTABLISHED, which it may leave for CLOSED only. -/
theorem transition_reading (f : Peer → Peer) (pc : HandlerPc) (msgs : List Datagram)
    {lastTime : Int} (hpc : s.handler p = .reading lastTime) (hf : Keeps f)
    (hpc' : (pc = .top ∧ ∀ x, (f x).state = .closed) ∨
      (∃ t, pc = .reading t) ∧ ∀ x, (f x).state = x.state)
    (hmsgs : ∀ d ∈ msgs, OfHandler (s.reg.peer p) d.msg)
    (hs' : s' = { s with
      reg := s.reg.modify p f
      handler := Function.update s.handler p pc
      sent := s.sent ++ msgs }) : Transition config s a s' := by
  have hrun : (s.handler p).life = .running := by rw [hpc]; rfl
  rcases hpc' with ⟨rfl, hclosed⟩ | ⟨⟨t, rfl⟩, hsame⟩
  · refine .handlerSection p f .top msgs hf hrun rfl (fun hnew => ?_)
      (fun _ => ⟨trivial, fun _ => hclosed _⟩) hmsgs hs'
    rw [hclosed] at hnew
    cases hnew
  · refine .handlerSection p f (.reading t) msgs hf hrun rfl (by rw [hsame]; exact id) ?_ hmsgs hs'
    rw [hsame, hpc]
    exact fun hagrees => ⟨hagrees, id⟩

theorem transition_handlerIdle {lastTime : Int} (hpc : s.handler p = .reading lastTime) :
    Transition config s a (s.handlerIdle config p now lastTime) := by
  unfold State.handlerIdle
  split
  · exact .stutter rfl
  · dsimp only
    -- first the keepalive, then the inactivity test
    split <;> split
    · refine transition_reading
        (fun x => { x with lastKeepalive := now, state := .closed }) .top
        [⟨State.initSmsg .punchKeepAlive 0 0, (s.reg.peer p).clientaddr⟩,
          ⟨State.initSmsg .closeConnection (s.reg.peer p).vpnIP 0, config.serverAddr⟩] hpc
        ⟨fun _ => rfl, fun _ => rfl, fun _ => rfl, fun _ => rfl⟩ (.inl ⟨rfl, fun _ => rfl⟩)
        (by simp [OfHandler, State.initSmsg]) ?_
      simp [State.changeState, State.modify, State.goto, State.send, Registry.modify_modify,
        Function.comp_def]
    · exact transition_reading (fun x => { x with state := .closed }) .top _ hpc
        (keeps_state .closed) (.inl ⟨rfl, fun _ => rfl⟩) (by simp [OfHandler, State.initSmsg]) rfl
    · exact transition_reading (fun x => { x with lastKeepalive := now }) (.reading now) _ hpc
        ⟨fun _ => rfl, fun _ => rfl, fun _ => rfl, fun _ => rfl⟩
        (.inr ⟨⟨now, rfl⟩, fun _ => rfl⟩) (by simp [OfHandler, State.initSmsg]) rfl
    · refine transition_reading id (.reading now) [] hpc keepsState_id.toKeeps
        (.inr ⟨⟨now, rfl⟩, fun _ => rfl⟩) (List.forall_mem_nil _) ?_
      rw [Registry.modify_id, List.append_nil]
      rfl

theorem transition_handlerRead {lastTime : Int} {read : ReadResult}
    (hpc : s.handler p = .reading lastTime) :
    Transition config s a (s.handlerRead config p now lastTime read) := by
  have hstay : Function.update s.handler p (.reading lastTime) = s.handler := by
    rw [← hpc, Function.update_eq_self]
  unfold State.handlerRead
  split
  · exact transition_handlerIdle hpc
  · exact .stutter rfl
  · refine transition_reading _ .top [] hpc (keeps_state .closed) (.inl ⟨rfl, fun _ => rfl⟩)
      (List.forall_mem_nil _) ?_
    rw [List.append_nil]
    rfl
  · refine transition_reading (fun x => { x with time := now, lastKeepalive := now })
      (.reading lastTime) [] hpc ⟨fun _ => rfl, fun _ => rfl, fun _ => rfl, fun _ => rfl⟩
      (.inr ⟨⟨lastTime, rfl⟩, fun _ => rfl⟩) (List.forall_mem_nil _) ?_
    rw [hstay, List.append_nil]
    rfl

theorem transition_handlerStep {ok : Bool} {read : ReadResult}
    (h : s.handlerStep config p now ok read = some s') : Transition config s a s' := by
  unfold State.handlerStep at h
  split at h
  -- the three places where the thread does not wait for the mutex
  · rename_i hpc
    refine .handlerPunch p _ hpc keepsState_unlock ?_
    rw [← Option.some.inj h]
    rfl
  · rename_i hpc
    exact .handlerWriting p hpc (Option.some.inj h).symm
  · rename_i hpc
    exact .handlerClose p hpc (Option.some.inj h).symm
  · split at h
    · cases h
    · split at h
      · rename_i hpc
        rw [← Option.some.inj h]
        exact transition_handlerTop hpc
      · rename_i hpc
        rw [← Option.some.inj h]
        exact transition_handlerAnswer hpc fun _ => rfl
      · rename_i hpc
        rw [← Option.some.inj h]
        exact transition_handlerAnswer hpc nofun
      · rename_i hpc
        rw [← Option.some.inj h]
        exact transition_handlerPunched hpc
      · rename_i hpc
        rw [← Option.some.inj h]
        exact transition_handlerPunched hpc
      · rename_i hpc
        rw [← Option.some.inj h]
        exact transition_handlerHandshake hpc
      · rename_i hpc
        rw [← Option.some.inj h]
        exact transition_handlerRead hpc
      · cases h

theorem transition_handlerWakes {w : Wait} (h : s.handlerWakes p w = some s') :
    Transition config s a s' := by
  unfold State.handlerWakes at h
  split at h
  · rename_i hpc
    exact transition_move p (.waitAnswer w) (by rw [hpc]; rfl) rfl (by rw [hpc]; exact id)
      (Option.some.inj h).symm
  · rename_i hpc
    exact transition_move p (.waitPunch w) (by rw [hpc]; rfl) rfl (by rw [hpc]; exact id)
      (Option.some.inj h).symm
  · cases h

theorem transition_punchStep {k : ℕ} (h : s.punchStep config p k = some s') :
    Transition config s a s' := by
  unfold State.punchStep at h
  split at h
  · cases h
  · rename_i hk
    exact .punchEnd p k (List.getElem?_eq_some_iff.mp hk).1 (Option.some.inj h).symm
  · rename_i n hk
    have hlt := (List.getElem?_eq_some_iff.mp hk).1
    split at h
    · cases h
    · split at h
      · refine .punchSection p k 0 [] hlt (List.forall_mem_nil _) ?_
        rw [← Option.some.inj h, List.append_nil]
      · exact .punchSection p k n _ hlt (by simp [State.initSmsg]) (Option.some.inj h).symm

theorem transition_writingEnd (h : s.writingEnd p = some s') : Transition config s a s' := by
  unfold State.writingEnd at h
  split at h
  · cases h
  · rename_i n hn
    exact .writingEnd p n hn (Option.some.inj h).symm

/-- Every step is a transition. -/
theorem transition_of_step (h : step config s a = some s') :
    Transition config s a s' := by
  cases a with
  | tunPacket dst => exact transition_tunPacket h
  | tunStep now env => exact transition_tunStep h
  | socketPacket src packet => exact transition_socketPacket h
  | socketStep => exact transition_socketStep h
  | rdvMessage msg => exact transition_rdvMessage h
  | rdvStep now env => exact transition_rdvStep h
  | handlerStep p now ok read => exact transition_handlerStep h
  | handlerTimeout p => exact transition_handlerWakes h
  | handlerSpurious p => exact transition_handlerWakes h
  | punchStep p k => exact transition_punchStep h
  | writingEnd p => exact transition_writingEnd h
  | endCampagnol => exact .ended (Option.some.inj h).symm

end

end Client
end Campagnol
