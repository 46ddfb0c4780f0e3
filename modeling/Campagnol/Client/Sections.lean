import Campagnol.Client.Roles
import Campagnol.Client.References

/-!
# Sections under the mutexes of the peers

What a step of a client does to the fields of the peers that are protected by their mutexes, and
to the waits of their threads (`Effect`).
-/

namespace Campagnol
namespace Client

open SearchTree

/-! ## What the mutex protects -/

/-- The fields of a peer that its threads read under its mutex, and the mutex. -/
structure View where
  state : ClientType
  mutex : Bool
  rdvAnswer : MsgType
  clientaddr : SockaddrIn
  vpnIP : InAddr

/-- The protected fields of a peer. -/
def Peer.view (x : Peer) : View := ⟨x.state, x.mutex, x.rdvAnswer, x.clientaddr, x.vpnIP⟩

/-- The protected fields of all peers. -/
def Registry.view (r : Registry) : Ptr → View := fun p => (r.peer p).view

/-- The peer that a thread holds the mutex of. -/
def TunPc.locked : TunPc → Option Ptr
  | .found p => some p
  | _ => none

@[inherit_doc TunPc.locked]
def SocketPc.locked : SocketPc → Option Ptr
  | .foundDtls p | .foundPunch p => some p
  | _ => none

@[inherit_doc TunPc.locked]
def RdvPc.locked : RdvPc → Option Ptr
  | .rej p | .ans p _ | .fwdFound p => some p
  | _ => none

/-- How many threads hold the mutex of `q`. -/
def State.lockers (s : State) (q : Ptr) : ℕ :=
  refCell s.tun.locked q + refCell s.socket.locked q + refCell s.rdv.locked q +
    if s.handler q = .startPunch then 1 else 0

/-- What `comm_socket` is about to tell a `peer_handling` thread, if anything. -/
def SocketPc.tells : SocketPc → SocketPc
  | .foundPunch p => .foundPunch p
  | _ => .idle

/-- What `rdv_handling` is about to tell a `peer_handling` thread, if anything. -/
def RdvPc.tells : RdvPc → RdvPc
  | .rej p => .rej p
  | .ans p e => .ans p e
  | .signal p => .signal p
  | _ => .idle

/-- The wait of a `peer_handling` thread has ended with a signal. -/
def HandlerPc.Woken : HandlerPc → Prop
  | .waitAnswer .signalled | .waitPunch .signalled => True
  | _ => False

/-- A call of `peers_add` has got as far as the new peer `r.created`. It is in
`clients_address_root` at most if its endpoint is known. -/
structure Registry.Opens (r r' : Registry) (state : ClientType) (e : SockaddrIn) (v : InAddr) :
    Prop where
  created : r'.created = r.created + 1
  view : ∃ answer, r'.view = Function.update r.view r.created ⟨state, false, answer, e, v⟩
  addr : ∀ q ∈ r'.clientsAddressRoot, q ∈ r.clientsAddressRoot ∨ q = r.created ∧ e.sinPort ≠ 0
  vpn : ∀ q ∈ r'.clientsVpnRoot, q ∈ r.clientsVpnRoot ∨ q = r.created

/-- The registry changes in nothing that is protected by the mutexes, and loses peers at most. -/
structure Registry.Shrinks (r r' : Registry) : Prop where
  created : r'.created = r.created
  view : r'.view = r.view
  addr : ∀ q ∈ r'.clientsAddressRoot, q ∈ r.clientsAddressRoot
  vpn : ∀ q ∈ r'.clientsVpnRoot, q ∈ r.clientsVpnRoot

section Registry
variable {config : Configuration} {env : AddEnv} {r r' r'' : Registry} {p : Ptr}

theorem view_modify (r : Registry) (p : Ptr) (f : Peer → Peer) :
    (r.modify p f).view = Function.update r.view p (f (r.peer p)).view := by
  funext q
  by_cases hq : q = p
  · subst hq
    simp [Registry.view, Registry.modify]
  · rw [Function.update_of_ne hq, Registry.view, Registry.modify_peer_of_ne hq]
    rfl

/-- A change of the other fields. -/
theorem view_modify_same {f : Peer → Peer} (hf : (f (r.peer p)).view = (r.peer p).view) :
    (r.modify p f).view = r.view := by
  rw [view_modify, hf]
  exact Function.update_eq_self p r.view

theorem view_peersIncrRef : (r.peersIncrRef p).view = r.view := view_modify_same rfl

theorem view_grab :
    (r.grab p).view = Function.update r.view p { r.view p with mutex := true } := by
  unfold Registry.grab
  rw [view_modify, view_peersIncrRef]
  congr 1
  simp [Registry.peersIncrRef, Registry.view, Peer.view]

theorem shrinks_refl (r : Registry) : r.Shrinks r := ⟨rfl, rfl, fun _ => id, fun _ => id⟩

theorem shrinks_modify (f : Peer → Peer) (hf : (f (r.peer p)).view = (r.peer p).view) :
    r.Shrinks (r.modify p f) :=
  ⟨rfl, view_modify_same hf, fun _ => id, fun _ => id⟩

theorem shrinks_peersDecrRef (r : Registry) (p : Ptr) (n : ℕ) :
    r.Shrinks (r.peersDecrRef p n) := by
  have hview : (r.modify p fun x => { x with refCount := x.refCount - n }).view = r.view :=
    view_modify_same rfl
  unfold Registry.peersDecrRef
  dsimp only
  split
  · exact ⟨rfl, hview, fun q hq => mem_of_mem_tdelete hq, fun q hq => mem_of_mem_tdelete hq⟩
  · exact ⟨rfl, hview, fun _ => id, fun _ => id⟩

theorem view_withPeer {state : ClientType} {t : Int} {e : SockaddrIn} {v : InAddr} {dtls : Bool}
    (hpeer : r'.peer = r.withPeer env state t e v dtls) :
    r'.view = Function.update r.view r.created ⟨state, false, env.rdvAnswer, e, v⟩ := by
  funext q
  by_cases hq : q = r.created
  · subst hq
    simp [Registry.view, hpeer, Registry.withPeer, Peer.view]
  · simp [Registry.view, hpeer, Registry.withPeer, Function.update_of_ne hq]

theorem opens_of_peersAdd {state : ClientType} {t : Int} {e : SockaddrIn} {v : InAddr} {dtls : Bool}
    {o : Option Ptr} (h : r.peersAdd config env state t e v dtls = (o, r')) :
    (o = none ∧ r' = r) ∨ r.Opens r' state e v ∧ ∀ p, o = some p → p = r.created := by
  cases Registry.addExit_of_peersAdd h with
  | full | noMemory | noVpnNode => exact .inl ⟨rfl, rfl⟩
  | noAddressNode vpnRoot hmax henv hvpn hport haddr =>
    refine .inr ⟨⟨rfl, ⟨_, view_withPeer rfl⟩, fun q hq => .inl (mem_of_mem_tdelete hq), ?_⟩, nofun⟩
    exact fun q hq => (mem_tsearch_subset hvpn hq).symm
  | added vpnRoot addressRoot hmax hvpn haddr =>
    refine .inr ⟨⟨rfl, ⟨_, view_withPeer rfl⟩, fun q hq => ?_, ?_⟩, fun p hp => by cases hp; rfl⟩
    · split at haddr
      · rename_i hport
        exact (mem_tsearch_subset haddr hq).symm.imp id fun hqp => ⟨hqp, hport⟩
      · cases haddr
        exact .inl hq
    · exact fun q hq => (mem_tsearch_subset hvpn hq).symm

end Registry

/-! ## What is heard of the other side -/

/-- What a step hears for a known peer: an answer of the RDV server or a punch, or the signal of
`rdv_handling` that follows an answer. -/
inductive Heard where
  | nothing
  | answer (p : Ptr) (msg : Message)
  | punch (p : Ptr) (src : SockaddrIn)
  | signal (p : Ptr)
deriving DecidableEq

/-- What the next step of `rdv_handling` passes on. -/
def RdvPc.passes : RdvPc → Heard
  | .signal p => .signal p
  | _ => .nothing

/-- What a client in the state `s` hears with the step `a`. -/
def heard (s : State) : Act → Heard
  | .rdvMessage msg =>
    match msg.type with
    | .rejConnection => (s.reg.findByVPN msg.ip1).elim .nothing (.answer · msg)
    | .ansConnection => (s.reg.findByVPN msg.ip2).elim .nothing (.answer · msg)
    | _ => .nothing
  | .socketPacket src .punch => (s.reg.findByEndpoint src).elim .nothing (.punch · src)
  | .rdvStep _ _ => s.rdv.passes
  | _ => .nothing

/-! ## What a step does -/

/-- The registry changes in the protected fields of `p`, which become `v`. A peer gets into
`clients_address_root` only when it starts punching. -/
structure Registry.Writes (r r' : Registry) (p : Ptr) (v : View) : Prop where
  created : r'.created = r.created
  view : r'.view = Function.update r.view p v
  addr : ∀ q ∈ r'.clientsAddressRoot, q ∈ r.clientsAddressRoot ∨ q = p ∧ v.state = .punching
  vpn : r'.clientsVpnRoot = r.clientsVpnRoot

/-- A part of the fields that `v` has as before stays as it is. -/
theorem Registry.Writes.view_field {r r' : Registry} {p : Ptr} {v : View} {α : Type}
    (h : r.Writes r' p v) (field : View → α) (hv : field v = field (r.view p)) (q : Ptr) :
    field (r'.view q) = field (r.view q) := by
  rw [h.view]
  by_cases hqp : q = p
  · subst hqp
    rw [Function.update_self, hv]
  · rw [Function.update_of_ne hqp]

/-- A thread takes the mutex of the peer `p`, which it has found in one of the trees. -/
structure Takes (s s' : State) (p : Ptr) : Prop where
  known : p ∈ s.reg.clientsVpnRoot ∨ p ∈ s.reg.clientsAddressRoot
  free : (s.reg.view p).mutex = false
  reg : s.reg.Writes s'.reg p { s.reg.view p with mutex := true }
  handler : s'.handler = s.handler
  lockers : ∀ q, s'.lockers q ≤ s.lockers q + if q = p then 1 else 0

/-- A thread leaves the mutex of the peer `p`, with the fields `v` in it. -/
structure Leaves (s s' : State) (p : Ptr) (v : View) : Prop where
  free : v.mutex = false
  state : v.state = (s.reg.view p).state
  vpnIP : v.vpnIP = (s.reg.view p).vpnIP
  reg : s.reg.Writes s'.reg p v
  lockers : ∀ q, s'.lockers q + (if q = p then 1 else 0) ≤ s.lockers q

/-- A section of the `peer_handling` thread of `p` under the mutex, with the fields `v` at its
end. -/
structure Section (s s' : State) (p : Ptr) (v : View) : Prop where
  running : (s.handler p).life = .running
  free : (s.reg.view p).mutex = false
  reg : s.reg.Writes s'.reg p v
  rdvAnswer : v.rdvAnswer = (s.reg.view p).rdvAnswer
  clientaddr : v.clientaddr = (s.reg.view p).clientaddr
  vpnIP : v.vpnIP = (s.reg.view p).vpnIP
  lockers : ∀ q, s'.lockers q ≤ s.lockers q + if q = p ∧ v.mutex = true then 1 else 0
  handler : ∀ q, (s'.handler q).Woken → s'.handler q = s.handler q
  new : v.state = .new → (s.reg.view p).state = .new
  punching : v.state = .punching → (s.reg.view p).state = .punching ∨
    s.handler p = .waitAnswer .signalled ∧ (s.reg.view p).rdvAnswer ≠ .rejConnection
  linked : v.state = .linked → (s.reg.view p).state = .linked ∨ s.handler p = .waitPunch .signalled

/-- What a step does to the protected fields, to the mutexes and to the waits. -/
inductive Effect (s : State) : Heard → State → Prop where
  /-- Nothing, or a thread of the peer moves on. -/
  | quiet {s' : State} (hreg : s.reg.Shrinks s'.reg) (hlockers : ∀ q, s'.lockers q ≤ s.lockers q)
      (hsocket : s'.socket.tells = s.socket.tells) (hrdv : s'.rdv.tells = s.rdv.tells)
      (hhandler : ∀ q, (s'.handler q).Woken → s'.handler q = s.handler q) :
      Effect s .nothing s'
  | opened {s' : State} (state : ClientType) (e : SockaddrIn) (v : InAddr)
      (hreg : s.reg.Opens s'.reg state e v) (hnew : state = .new → e.sinPort = 0)
      (hlockers : ∀ q, s'.lockers q ≤ s.lockers q) (hsocket : s'.socket.tells = s.socket.tells)
      (hrdv : s'.rdv.tells = s.rdv.tells) (hhandler : s'.handler = s.handler) :
      Effect s .nothing s'
  | takes {s' : State} (p : Ptr) (h : Takes s s' p) (hsocket : s'.socket.tells = s.socket.tells)
      (hrdv : s'.rdv.tells = s.rdv.tells) : Effect s .nothing s'
  | leaves {s' : State} (p : Ptr) (h : Leaves s s' p { s.reg.view p with mutex := false })
      (hsocket : s'.socket.tells = s.socket.tells) (hrdv : s'.rdv.tells = s.rdv.tells)
      (hhandler : ∀ q, (s'.handler q).Woken → s'.handler q = s.handler q) : Effect s .nothing s'
  | handles {s' : State} (p : Ptr) (v : View) (h : Section s s' p v)
      (hsocket : s'.socket.tells = s.socket.tells) (hrdv : s'.rdv.tells = s.rdv.tells) :
      Effect s .nothing s'
  /-- `comm_socket` receives a punch from the endpoint of `p`. -/
  | hearsPunch {s' : State} (p : Ptr) (src : SockaddrIn) (h : Takes s s' p)
      (hfound : s.reg.findByEndpoint src = some p) (hsocket : s'.socket = .foundPunch p)
      (hrdv : s'.rdv = s.rdv) : Effect s (.punch p src) s'
  /-- It wakes up the thread of `p`. -/
  | passesPunch {s' : State} (p : Ptr) (hpc : s.socket = .foundPunch p)
      (h : Leaves s s' p { s.reg.view p with mutex := false }) (hsocket : s'.socket.tells = .idle)
      (hrdv : s'.rdv = s.rdv) (hhandler : s'.handler = (s.conditionSignal p).handler) :
      Effect s .nothing s'
  /-- `rdv_handling` takes an answer for `p`. -/
  | hearsAnswer {s' : State} (p : Ptr) (msg : Message) (h : Takes s s' p) (hpc : s.rdv = .idle)
      (hsocket : s'.socket = s.socket)
      (hrdv : (msg.type = .rejConnection ∧ s.reg.findByVPN msg.ip1 = some p ∧ s'.rdv = .rej p) ∨
        msg.type = .ansConnection ∧ s.reg.findByVPN msg.ip2 = some p ∧
          s'.rdv = .ans p ⟨msg.ip1, msg.port⟩) : Effect s (.answer p msg) s'
  /-- It stores the answer in the structure of `p`. -/
  | storesAnswer {s' : State} (p : Ptr) (v : View) (h : Leaves s s' p v)
      (hrdv : (s.rdv = .rej p ∧ v.rdvAnswer = .rejConnection ∧
          v.clientaddr = (s.reg.view p).clientaddr) ∨
        ∃ e, s.rdv = .ans p e ∧ v.rdvAnswer = .ansConnection ∧ v.clientaddr = e)
      (hrdv' : s'.rdv = .signal p) (hsocket : s'.socket = s.socket)
      (hhandler : s'.handler = s.handler) : Effect s .nothing s'
  /-- It wakes up the thread of `p`. -/
  | passesAnswer {s' : State} (p : Ptr) (hpc : s.rdv = .signal p) (hreg : s'.reg = s.reg)
      (hlockers : ∀ q, s'.lockers q ≤ s.lockers q) (hsocket : s'.socket = s.socket)
      (hrdv : s'.rdv.tells = .idle) (hhandler : s'.handler = (s.conditionSignal p).handler) :
      Effect s (.signal p) s'

section Steps
variable {config : Configuration} {s s' : State} {a : Act} {p : Ptr} {now : Int} {env : AddEnv}

/-! ### Threads outside of `peer_handling` -/

theorem grab_free (h : s.grab p = some s') :
    (s.reg.view p).mutex = false ∧ s' = { s with reg := s.reg.grab p } := by
  unfold State.grab at h
  split at h
  · cases h
  · rename_i hfree
    exact ⟨Bool.not_eq_true _ ▸ hfree, (Option.some.inj h).symm⟩

theorem writes_grab : s.reg.Writes (s.reg.grab p) p { s.reg.view p with mutex := true } :=
  ⟨rfl, view_grab, fun _ => .inl, rfl⟩

theorem writes_modify {r : Registry} {f : Peer → Peer} :
    r.Writes (r.modify p f) p (f (r.peer p)).view :=
  ⟨rfl, view_modify r p f, fun _ => .inl, rfl⟩

/-- The threads that hold the mutex of `q`, when the `peer_handling` thread does not take it. -/
theorem lockers_le {q : Ptr} (n m : ℕ)
    (hcells : refCell s'.tun.locked q + refCell s'.socket.locked q + refCell s'.rdv.locked q + n ≤
      refCell s.tun.locked q + refCell s.socket.locked q + refCell s.rdv.locked q + m)
    (hhandler : s'.handler q = .startPunch → s.handler q = .startPunch) :
    s'.lockers q + n ≤ s.lockers q + m := by
  have hle : (if s'.handler q = .startPunch then 1 else 0) ≤
      if s.handler q = .startPunch then 1 else 0 := by
    split
    · rename_i hstart
      exact Nat.le_of_eq (if_pos (hhandler hstart)).symm
    · exact Nat.zero_le _
  simp only [State.lockers]
  omega

theorem takes_of_grab (hreg : s'.reg = s.reg.grab p) (hhandler : s'.handler = s.handler)
    (hknown : p ∈ s.reg.clientsVpnRoot ∨ p ∈ s.reg.clientsAddressRoot)
    (hfree : (s.reg.view p).mutex = false)
    (hcells : ∀ q,
      refCell s'.tun.locked q + refCell s'.socket.locked q + refCell s'.rdv.locked q ≤
        refCell s.tun.locked q + refCell s.socket.locked q + refCell s.rdv.locked q +
          if q = p then 1 else 0) : Takes s s' p where
  known := hknown
  free := hfree
  reg := hreg ▸ writes_grab
  handler := hhandler
  lockers := fun q => lockers_le 0 _ (hcells q) (by rw [hhandler]; exact id)

/-- Nothing happens to the peers and to their threads. -/
theorem quiet_of_thread (hreg : s.reg.Shrinks s'.reg) (hhandler : s'.handler = s.handler)
    (hcells : ∀ q,
      refCell s'.tun.locked q + refCell s'.socket.locked q + refCell s'.rdv.locked q ≤
        refCell s.tun.locked q + refCell s.socket.locked q + refCell s.rdv.locked q)
    (hsocket : s'.socket.tells = s.socket.tells) (hrdv : s'.rdv.tells = s.rdv.tells) :
    Effect s .nothing s' :=
  .quiet hreg (fun q => lockers_le 0 0 (hcells q) (by rw [hhandler]; exact id)) hsocket hrdv
    fun q _ => by rw [hhandler]

theorem startPunch_of_move {pc : HandlerPc} {q : Ptr}
    (hhandler : s'.handler = Function.update s.handler p pc) (hpc : pc ≠ .startPunch)
    (hq : s'.handler q = .startPunch) : s.handler q = .startPunch := by
  by_cases hqp : q = p
  · subst hqp
    rw [hhandler, Function.update_self] at hq
    exact absurd hq hpc
  · rwa [hhandler, Function.update_of_ne hqp] at hq

theorem woken_of_move {pc : HandlerPc} {q : Ptr}
    (hhandler : s'.handler = Function.update s.handler p pc) (hpc : ¬ pc.Woken)
    (hq : (s'.handler q).Woken) : s'.handler q = s.handler q := by
  by_cases hqp : q = p
  · subst hqp
    rw [hhandler, Function.update_self] at hq
    exact absurd hq hpc
  · rw [hhandler, Function.update_of_ne hqp]

/-- The thread of `p` goes to a place where it neither holds the mutex nor has been woken up. -/
theorem quiet_of_move (pc : HandlerPc) (hhandler : s'.handler = Function.update s.handler p pc)
    (hpc : pc ≠ .startPunch) (hwoken : ¬ pc.Woken) (hreg : s.reg.Shrinks s'.reg)
    (hcells : ∀ q,
      refCell s'.tun.locked q + refCell s'.socket.locked q + refCell s'.rdv.locked q ≤
        refCell s.tun.locked q + refCell s.socket.locked q + refCell s.rdv.locked q)
    (hsocket : s'.socket.tells = s.socket.tells) (hrdv : s'.rdv.tells = s.rdv.tells) :
    Effect s .nothing s' :=
  .quiet hreg (fun q => lockers_le 0 0 (hcells q) (startPunch_of_move hhandler hpc)) hsocket hrdv
    fun _ => woken_of_move hhandler hwoken

/-- A thread unlocks the peer `p`, with the fields `f` has put in it. -/
theorem leaves_of_modify (f : Peer → Peer) (hreg : s'.reg = s.reg.modify p f)
    (hfree : (f (s.reg.peer p)).mutex = false)
    (hstate : (f (s.reg.peer p)).state = (s.reg.peer p).state)
    (hvpn : (f (s.reg.peer p)).vpnIP = (s.reg.peer p).vpnIP)
    (hhandler : ∀ q, s'.handler q = .startPunch → s.handler q = .startPunch)
    (hcells : ∀ q,
      refCell s'.tun.locked q + refCell s'.socket.locked q + refCell s'.rdv.locked q +
        (if q = p then 1 else 0) ≤
          refCell s.tun.locked q + refCell s.socket.locked q + refCell s.rdv.locked q) :
    Leaves s s' p (f (s.reg.peer p)).view where
  free := hfree
  state := hstate
  vpnIP := hvpn
  reg := hreg ▸ writes_modify
  lockers := fun q => lockers_le _ 0 (hcells q) (hhandler q)

theorem startPunch_of_conditionSignal {q : Ptr}
    (h : (s.conditionSignal p).handler q = .startPunch) : s.handler q = .startPunch := by
  rcases (signalled_conditionSignal s p).at q with hw | ⟨w, w', -, hw⟩ | ⟨w, w', -, hw⟩
  · rwa [← hw]
  · rw [hw] at h
    cases h
  · rw [hw] at h
    cases h

theorem effect_tunPacket {dst : InAddr} (h : s.tunPacket config dst = some s') :
    Effect s .nothing s' := by
  unfold State.tunPacket at h
  split at h
  · cases h
  · rename_i hpc
    have hidle : s.tun = .idle := by
      by_contra hne
      exact hpc (.inl hne)
    split at h
    · cases h
      exact quiet_of_thread (shrinks_refl _) rfl (fun _ => Nat.le_refl _) rfl rfl
    · split at h
      · cases h
        exact quiet_of_thread (shrinks_refl _) rfl (fun q => by simp [hidle, TunPc.locked]) rfl rfl
      · rename_i p hp
        obtain ⟨t, ht, rfl⟩ := Option.map_eq_some_iff.mp h
        obtain ⟨hfree, rfl⟩ := grab_free ht
        refine .takes p (takes_of_grab rfl rfl (.inl (mem_of_tfind hp).1) hfree fun q => ?_) rfl rfl
        simp only [hidle, TunPc.locked, refCell_some, refCell_none]
        omega

theorem effect_tunStep (h : s.tunStep config now env = some s') : Effect s .nothing s' := by
  unfold State.tunStep at h
  split at h
  · cases h
  · rename_i dst hpc
    split at h
    · rename_i reg hadd
      cases h
      rcases opens_of_peersAdd hadd with ⟨-, rfl⟩ | ⟨hopens, -⟩
      · exact quiet_of_thread (shrinks_refl _) rfl (fun q => by simp [hpc, TunPc.locked]) rfl rfl
      · refine .opened _ _ _ hopens (fun _ => rfl) (fun q => lockers_le 0 0 ?_ id) rfl rfl rfl
        simp [hpc, TunPc.locked]
    · rename_i p reg hadd
      cases h
      rcases opens_of_peersAdd hadd with ⟨hnone, -⟩ | ⟨hopens, -⟩
      · cases hnone
      · refine .opened _ _ _ hopens (fun _ => rfl) (fun q => lockers_le 0 0 ?_ id) rfl rfl rfl
        simp [hpc, TunPc.locked]
  · rename_i p hpc
    cases h
    exact quiet_of_move .top rfl (by simp) id ⟨rfl, view_peersIncrRef, fun _ => id, fun _ => id⟩
      (fun q => by simp [hpc, TunPc.locked, State.startPeerHandling, State.goto]) rfl rfl
  · rename_i p hpc
    have hcells : ∀ q, refCell (TunPc.release p).locked q + refCell s.socket.locked q +
        refCell s.rdv.locked q + (if q = p then 1 else 0) ≤
          refCell s.tun.locked q + refCell s.socket.locked q + refCell s.rdv.locked q := by
      intro q
      simp only [hpc, TunPc.locked, refCell_some, refCell_none]
      omega
    dsimp only at h
    split at h
    · cases h
      refine .leaves p (leaves_of_modify
        (fun x => { x with time := now, lastKeepalive := now, mutex := false }) ?_ rfl rfl rfl
        (fun _ => id) hcells) rfl rfl fun _ _ => rfl
      simp only [State.unlock, State.updatePeerTime, State.modify, Registry.modify_modify]
      rfl
    · cases h
      exact .leaves p (leaves_of_modify (fun x => { x with mutex := false }) rfl rfl rfl rfl
        (fun _ => id) hcells) rfl rfl fun _ _ => rfl
  · rename_i p hpc
    cases h
    exact quiet_of_thread (shrinks_peersDecrRef _ p 1) rfl
      (fun q => by simp [hpc, TunPc.locked, State.decrRef]) rfl rfl

theorem effect_socketPacket {src : SockaddrIn} {packet : SocketPacket}
    (h : s.socketPacket src packet = some s') :
    Effect s (heard s (.socketPacket src packet)) s' := by
  unfold State.socketPacket at h
  split at h
  · cases h
  · rename_i hpc
    have hidle : s.socket = .idle := by
      by_contra hne
      exact hpc (.inl hne)
    have hstutter : Effect s .nothing s :=
      quiet_of_thread (shrinks_refl _) rfl (fun _ => Nat.le_refl _) rfl rfl
    have hcells : ∀ p (pc : SocketPc) q, pc.locked = some p →
        refCell s.tun.locked q + refCell pc.locked q + refCell s.rdv.locked q ≤
          refCell s.tun.locked q + refCell s.socket.locked q + refCell s.rdv.locked q +
            if q = p then 1 else 0 := by
      intro p pc q hlocked
      rw [hlocked, hidle]
      simp only [SocketPc.locked, refCell_some, refCell_none]
      omega
    split at h
    · cases h
      exact hstutter
    · split at h
      · cases h
        exact hstutter
      · rename_i p hp
        obtain ⟨t, ht, rfl⟩ := Option.map_eq_some_iff.mp h
        obtain ⟨hfree, rfl⟩ := grab_free ht
        exact .takes p (takes_of_grab rfl rfl (.inr (mem_of_tfind hp).1) hfree
          fun q => hcells p (.foundDtls p) q rfl) (by rw [hidle]; rfl) rfl
    · split at h
      · rename_i hp
        cases h
        simp only [heard, hp]
        exact hstutter
      · rename_i p hp
        obtain ⟨t, ht, rfl⟩ := Option.map_eq_some_iff.mp h
        obtain ⟨hfree, rfl⟩ := grab_free ht
        simp only [heard, hp]
        exact .hearsPunch p src (takes_of_grab rfl rfl (.inr (mem_of_tfind hp).1) hfree
          fun q => hcells p (.foundPunch p) q rfl) hp rfl rfl

theorem effect_socketStep (h : s.socketStep = some s') : Effect s .nothing s' := by
  have hcells : ∀ p q, s.socket.locked = some p →
      refCell s.tun.locked q + refCell (SocketPc.release p).locked q + refCell s.rdv.locked q +
        (if q = p then 1 else 0) ≤
          refCell s.tun.locked q + refCell s.socket.locked q + refCell s.rdv.locked q := by
    intro p q hlocked
    rw [hlocked]
    simp only [SocketPc.locked, refCell_some, refCell_none]
    omega
  unfold State.socketStep at h
  split at h
  · cases h
  · rename_i p hpc
    cases h
    exact .leaves p (leaves_of_modify (fun x => { x with mutex := false }) rfl rfl rfl rfl
      (fun _ => id) fun q => hcells p q (by rw [hpc]; rfl)) (by rw [hpc]; rfl) rfl fun _ _ => rfl
  · rename_i p hpc
    cases h
    have heq := conditionSignal_eq s p
    refine .passesPunch p hpc (leaves_of_modify (fun x => { x with mutex := false }) ?_ rfl rfl rfl
      (fun _ => startPunch_of_conditionSignal) fun q => ?_) rfl ?_ rfl
    · rw [heq]
      rfl
    · rw [heq]
      exact hcells p q (by rw [hpc]; rfl)
    · rw [heq]
      rfl
  · rename_i p hpc
    cases h
    exact quiet_of_thread (shrinks_peersDecrRef _ p 1) rfl
      (fun q => by simp [hpc, SocketPc.locked, State.decrRef]) (by rw [hpc]; rfl) rfl

theorem effect_rdvMessage {msg : Message} (h : s.rdvMessage msg = some s') :
    Effect s (heard s (.rdvMessage msg)) s' := by
  unfold State.rdvMessage at h
  split at h
  · cases h
  · rename_i hpc
    have hidle : s.rdv = .idle := by
      by_contra hne
      exact hpc (.inl hne)
    have hstutter : Effect s .nothing s :=
      quiet_of_thread (shrinks_refl _) rfl (fun _ => Nat.le_refl _) rfl rfl
    have hcells : ∀ p (pc : RdvPc) q, pc.locked = some p →
        refCell s.tun.locked q + refCell s.socket.locked q + refCell pc.locked q ≤
          refCell s.tun.locked q + refCell s.socket.locked q + refCell s.rdv.locked q +
            if q = p then 1 else 0 := by
      intro p pc q hlocked
      rw [hlocked, hidle]
      simp only [RdvPc.locked, refCell_some, refCell_none]
      omega
    split at h
    · rename_i htype
      simp only [heard, htype]
      split at h
      · rename_i hp
        cases h
        rw [hp]
        exact hstutter
      · rename_i p hp
        obtain ⟨t, ht, rfl⟩ := Option.map_eq_some_iff.mp h
        obtain ⟨hfree, rfl⟩ := grab_free ht
        rw [hp]
        exact .hearsAnswer p msg (takes_of_grab rfl rfl (.inl (mem_of_tfind hp).1) hfree
          fun q => hcells p (.rej p) q rfl) hidle rfl (.inl ⟨htype, hp, rfl⟩)
    · rename_i htype
      simp only [heard, htype]
      split at h
      · rename_i hp
        cases h
        rw [hp]
        exact hstutter
      · rename_i p hp
        obtain ⟨t, ht, rfl⟩ := Option.map_eq_some_iff.mp h
        obtain ⟨hfree, rfl⟩ := grab_free ht
        rw [hp]
        exact .hearsAnswer p msg (takes_of_grab rfl rfl (.inl (mem_of_tfind hp).1) hfree
          fun q => hcells p (.ans p ⟨msg.ip1, msg.port⟩) q rfl) hidle rfl (.inr ⟨htype, hp, rfl⟩)
    · rename_i htype
      simp only [heard, htype]
      split at h
      · cases h
        exact quiet_of_thread (shrinks_refl _) rfl (fun q => by simp [hidle, RdvPc.locked]) rfl
          (by rw [hidle]; rfl)
      · rename_i p hp
        obtain ⟨t, ht, rfl⟩ := Option.map_eq_some_iff.mp h
        obtain ⟨hfree, rfl⟩ := grab_free ht
        exact .takes p (takes_of_grab rfl rfl (.inl (mem_of_tfind hp).1) hfree
          fun q => hcells p (.fwdFound p) q rfl) rfl (by rw [hidle]; rfl)
    · rename_i hrej hans _
      cases h
      have hnothing : heard s (.rdvMessage msg) = .nothing := by
        simp only [heard]
      rw [hnothing]
      exact hstutter

theorem effect_rdvStep (h : s.rdvStep config now env = some s') :
    Effect s s.rdv.passes s' := by
  have hcells : ∀ p (pc : RdvPc) q, s.rdv.locked = some p → pc.locked = none →
      refCell s.tun.locked q + refCell s.socket.locked q + refCell pc.locked q +
        (if q = p then 1 else 0) ≤
          refCell s.tun.locked q + refCell s.socket.locked q + refCell s.rdv.locked q := by
    intro p pc q hlocked hfree
    rw [hlocked, hfree]
    simp only [refCell_some, refCell_none]
    omega
  unfold State.rdvStep at h
  split at h
  · cases h
  · rename_i p hpc
    cases h
    rw [congrArg RdvPc.passes hpc]
    refine .storesAnswer p _ (leaves_of_modify
      (fun x => { x with rdvAnswer := .rejConnection, mutex := false }) ?_ rfl rfl rfl
      (fun _ => id) fun q => hcells p (.signal p) q (by rw [hpc]; rfl) rfl)
      (.inl ⟨hpc, rfl, rfl⟩) rfl rfl rfl
    simp only [State.unlock, State.modify, Registry.modify_modify]
    rfl
  · rename_i p e hpc
    cases h
    rw [congrArg RdvPc.passes hpc]
    refine .storesAnswer p _ (leaves_of_modify (answered e) ?_ rfl rfl rfl (fun _ => id)
      fun q => hcells p (.signal p) q (by rw [hpc]; rfl) rfl) (.inr ⟨e, hpc, rfl, rfl⟩) rfl rfl rfl
    simp only [State.unlock, State.modify, Registry.modify_modify]
    rfl
  · rename_i p hpc
    cases h
    rw [congrArg RdvPc.passes hpc]
    have heq := conditionSignal_eq s p
    refine .passesAnswer p hpc ?_ (fun q => lockers_le 0 0 ?_ startPunch_of_conditionSignal) ?_
      rfl rfl
    · rw [heq]
    · rw [heq, hpc]
      exact Nat.le_refl _
    · rw [heq]
  · rename_i e v hpc
    rw [congrArg RdvPc.passes hpc]
    split at h
    · rename_i reg hadd
      cases h
      rcases opens_of_peersAdd hadd with ⟨-, rfl⟩ | ⟨hopens, -⟩
      · exact quiet_of_thread (shrinks_refl _) rfl (fun q => by simp [hpc, RdvPc.locked]) rfl
          (by rw [hpc]; rfl)
      · refine .opened _ _ _ hopens (fun hnew => by cases hnew) (fun q => lockers_le 0 0 ?_ id) rfl
          (by rw [hpc]; rfl) rfl
        simp [hpc, RdvPc.locked]
    · rename_i p reg hadd
      cases h
      rcases opens_of_peersAdd hadd with ⟨hnone, -⟩ | ⟨hopens, -⟩
      · cases hnone
      · refine .opened _ _ _ hopens (fun hnew => by cases hnew) (fun q => lockers_le 0 0 ?_ id) rfl
          (by rw [hpc]; rfl) rfl
        simp [hpc, RdvPc.locked]
  · rename_i p hpc
    cases h
    rw [congrArg RdvPc.passes hpc]
    exact quiet_of_move .top rfl (by simp) id ⟨rfl, view_peersIncrRef, fun _ => id, fun _ => id⟩
      (fun q => by simp [hpc, RdvPc.locked, State.startPeerHandling, State.goto]) rfl
      (by rw [hpc]; rfl)
  · rename_i p hpc
    cases h
    rw [congrArg RdvPc.passes hpc]
    exact .leaves p (leaves_of_modify (fun x => { x with mutex := false }) rfl rfl rfl rfl
      (fun _ => id) fun q => hcells p (.release p) q (by rw [hpc]; rfl) rfl) rfl (by rw [hpc]; rfl)
      fun _ _ => rfl
  · rename_i p hpc
    cases h
    rw [congrArg RdvPc.passes hpc]
    exact quiet_of_thread (shrinks_peersDecrRef _ p 1) rfl
      (fun q => by simp [hpc, RdvPc.locked, State.decrRef]) rfl (by rw [hpc]; rfl)

/-! ### `peer_handling` -/

/-- The thread of `p` runs a section that ends at `pc`. -/
theorem section_of_modify (f : Peer → Peer) (pc : HandlerPc) (msgs : List Datagram)
    (hrun : (s.handler p).life = .running) (hfree : (s.reg.view p).mutex = false)
    (hf : Keeps f) (hanswer : (f (s.reg.peer p)).rdvAnswer = (s.reg.peer p).rdvAnswer)
    (hlock : pc = .startPunch → (f (s.reg.peer p)).mutex = true) (hwoken : ¬ pc.Woken)
    (hnew : (f (s.reg.peer p)).state = .new → (s.reg.peer p).state = .new)
    (hpunching : (f (s.reg.peer p)).state = .punching → (s.reg.peer p).state = .punching)
    (hlinked : (f (s.reg.peer p)).state = .linked →
      (s.reg.peer p).state = .linked ∨ s.handler p = .waitPunch .signalled)
    (hs' : s' = { s with
      reg := s.reg.modify p f
      handler := Function.update s.handler p pc
      sent := s.sent ++ msgs }) : Effect s .nothing s' := by
  subst hs'
  refine .handles p _ ⟨hrun, hfree, writes_modify, hanswer, hf.clientaddr _, hf.vpnIP _,
    fun q => ?_, fun q hq => ?_, hnew, fun h => .inl (hpunching h), hlinked⟩ rfl rfl
  · by_cases hqp : q = p
    · subst hqp
      have hle : (if pc = .startPunch then 1 else 0) ≤
          if (f (s.reg.peer q)).mutex = true then 1 else 0 := by
        split
        · rename_i hpc
          exact Nat.le_of_eq (if_pos (hlock hpc)).symm
        · exact Nat.zero_le _
      simp only [State.lockers, Function.update_self, true_and]
      have hmutex : (f (s.reg.peer q)).view.mutex = (f (s.reg.peer q)).mutex := rfl
      rw [hmutex]
      omega
    · refine lockers_le 0 _ (Nat.le_add_right _ _) fun hq => ?_
      have hsame : Function.update s.handler p pc q = s.handler q := Function.update_of_ne hqp _ _
      exact hsame ▸ hq
  · exact woken_of_move rfl hwoken hq

/-- A section that closes the connection. -/
theorem section_of_close (f : Peer → Peer) (msgs : List Datagram)
    (hrun : (s.handler p).life = .running) (hfree : (s.reg.view p).mutex = false)
    (hf : Keeps f) (hanswer : (f (s.reg.peer p)).rdvAnswer = (s.reg.peer p).rdvAnswer)
    (hstate : (f (s.reg.peer p)).state = .closed)
    (hs' : s' = { s with
      reg := s.reg.modify p f
      handler := Function.update s.handler p .top
      sent := s.sent ++ msgs }) : Effect s .nothing s' := by
  refine section_of_modify f .top msgs hrun hfree hf hanswer (fun h => by cases h) id ?_ ?_ ?_ hs'
  all_goals
    rw [hstate]
    intro h
    cases h

theorem effect_handlerTop (hpc : s.handler p = .top) (hfree : (s.reg.view p).mutex = false) :
    Effect s .nothing (s.handlerTop config p) := by
  have hrun : (s.handler p).life = .running := by rw [hpc]; rfl
  have hstay : Function.update s.handler p .top = s.handler := by
    rw [← hpc, Function.update_eq_self]
  have hclose : Effect s .nothing (s.changeState p .closed) := by
    refine section_of_close _ [] hrun hfree (keeps_state .closed) rfl rfl ?_
    rw [hstay, List.append_nil]
    rfl
  have hmove : ∀ pc, pc ≠ .startPunch → ¬ pc.Woken → Effect s .nothing (s.goto p pc) :=
    fun pc hne hwoken => quiet_of_move pc rfl hne hwoken (shrinks_refl _) (fun _ => Nat.le_refl _)
      rfl rfl
  unfold State.handlerTop
  split
  · split
    · exact hclose
    · exact quiet_of_move (.waitAnswer .asleep) rfl (by simp) id (shrinks_refl _)
        (fun _ => Nat.le_refl _) rfl rfl
  · rename_i hpunching
    split
    · exact hclose
    · refine section_of_modify (fun x => { x with mutex := true }) .startPunch [] hrun hfree
        ⟨fun _ => rfl, fun _ => rfl, fun _ => rfl, fun _ => rfl⟩ rfl (fun _ => rfl) id id id
        .inl ?_
      rw [List.append_nil]
      rfl
  · split
    · exact hclose
    · exact hmove .handshake (by simp) id
  · exact hmove .startWriting (by simp) id
  · exact hmove .closing (by simp) id

theorem effect_handlerAnswer {timedOut ok : Bool} {w : Wait} (hpc : s.handler p = .waitAnswer w)
    (hw : timedOut = false → w = .signalled) (hfree : (s.reg.view p).mutex = false) :
    Effect s .nothing (s.handlerAnswer p timedOut ok) := by
  have hrun : (s.handler p).life = .running := by rw [hpc]; rfl
  have hclose : Effect s .nothing ((s.changeState p .closed).goto p .top) := by
    refine section_of_close _ [] hrun hfree (keeps_state .closed) rfl rfl ?_
    rw [List.append_nil]
    rfl
  unfold State.handlerAnswer
  split
  · exact hclose
  · rename_i haccept
    split
    · exact hclose
    · rename_i reg hreg
      obtain ⟨root, hroot, rfl⟩ := Option.map_eq_some_iff.mp hreg
      have hsignalled : w = .signalled := by
        apply hw
        by_contra ht
        exact haccept (.inl (by simpa using ht))
      refine .handles p { s.reg.view p with state := .punching }
        ⟨hrun, hfree, ⟨rfl, view_modify _ p fun x => { x with state := .punching },
            fun q hq => ?_, rfl⟩, rfl, rfl, rfl,
          fun q => lockers_le 0 _ (Nat.le_add_right _ _) (startPunch_of_move rfl (by simp)),
          fun _ => woken_of_move rfl id, (fun hnew => by cases hnew), fun _ => .inr ⟨?_, ?_⟩,
          (fun hlinked => by cases hlinked)⟩ rfl rfl
      · exact (mem_tsearch_subset hroot hq).symm.imp id fun hqp => ⟨hqp, rfl⟩
      · rw [hpc, hsignalled]
      · exact fun hrej => haccept (.inr (.inl hrej))

theorem effect_handlerPunched {timedOut : Bool} {w : Wait} (hpc : s.handler p = .waitPunch w)
    (hw : timedOut = false → w = .signalled) (hfree : (s.reg.view p).mutex = false) :
    Effect s .nothing (s.handlerPunched config p timedOut) := by
  have hrun : (s.handler p).life = .running := by rw [hpc]; rfl
  unfold State.handlerPunched
  split
  · exact section_of_close _ _ hrun hfree (keeps_state .closed) rfl rfl rfl
  · rename_i htimedOut
    split
    · refine section_of_close _ [] hrun hfree (keeps_state .closed) rfl rfl ?_
      rw [List.append_nil]
      rfl
    · have hsignalled : s.handler p = .waitPunch .signalled := by
        rw [hpc, hw (Bool.not_eq_true _ ▸ htimedOut)]
      refine section_of_modify (fun x => { x with state := .linked }) .top [] hrun hfree
        (keeps_state .linked) rfl (fun h => by cases h) id (fun h => by cases h)
        (fun h => by cases h) (fun _ => .inr hsignalled) ?_
      rw [List.append_nil]
      rfl

theorem effect_handlerHandshake {ok : Bool} (hpc : s.handler p = .handshake)
    (hfree : (s.reg.view p).mutex = false) :
    Effect s .nothing (s.handlerHandshake config p now ok) := by
  have hrun : (s.handler p).life = .running := by rw [hpc]; rfl
  unfold State.handlerHandshake
  split
  · refine section_of_modify
      (fun x => { x with state := .established, time := now, lastKeepalive := now }) .top []
      hrun hfree ⟨fun _ => rfl, fun _ => rfl, fun _ => rfl, fun _ => rfl⟩ rfl
      (fun h => by cases h) id (fun h => by cases h) (fun h => by cases h) (fun h => by cases h) ?_
    simp only [State.changeState, State.updatePeerTime, State.modify, State.goto,
      Registry.modify_modify, List.append_nil]
    rfl
  · exact section_of_close _ _ hrun hfree (keeps_state .closed) rfl rfl rfl

theorem effect_handlerIdle {lastTime : Int} (hpc : s.handler p = .reading lastTime)
    (hfree : (s.reg.view p).mutex = false) :
    Effect s .nothing (s.handlerIdle config p now lastTime) := by
  have hrun : (s.handler p).life = .running := by rw [hpc]; rfl
  unfold State.handlerIdle
  split
  · exact quiet_of_thread (shrinks_refl _) rfl (fun _ => Nat.le_refl _) rfl rfl
  · dsimp only
    split <;> split
    · refine section_of_close (fun x => { x with lastKeepalive := now, state := .closed })
        [⟨State.initSmsg .punchKeepAlive 0 0, (s.reg.peer p).clientaddr⟩,
          ⟨State.initSmsg .closeConnection (s.reg.peer p).vpnIP 0, config.serverAddr⟩] hrun hfree
        ⟨fun _ => rfl, fun _ => rfl, fun _ => rfl, fun _ => rfl⟩ rfl rfl ?_
      simp [State.changeState, State.modify, State.goto, State.send, Registry.modify_modify,
        Function.comp_def]
    · exact section_of_close _ _ hrun hfree (keeps_state .closed) rfl rfl rfl
    · exact quiet_of_move (.reading now) rfl (by simp) id
        (shrinks_modify (fun x => { x with lastKeepalive := now }) rfl) (fun _ => Nat.le_refl _)
        rfl rfl
    · exact quiet_of_move (.reading now) rfl (by simp) id (shrinks_refl _) (fun _ => Nat.le_refl _)
        rfl rfl

theorem effect_handlerRead {lastTime : Int} {read : ReadResult}
    (hpc : s.handler p = .reading lastTime) (hfree : (s.reg.view p).mutex = false) :
    Effect s .nothing (s.handlerRead config p now lastTime read) := by
  have hrun : (s.handler p).life = .running := by rw [hpc]; rfl
  unfold State.handlerRead
  split
  · exact effect_handlerIdle hpc hfree
  · exact quiet_of_thread (shrinks_refl _) rfl (fun _ => Nat.le_refl _) rfl rfl
  · refine section_of_close _ [] hrun hfree (keeps_state .closed) rfl rfl ?_
    rw [List.append_nil]
    rfl
  · exact quiet_of_thread
      (shrinks_modify (fun x => { x with time := now, lastKeepalive := now }) rfl) rfl
      (fun _ => Nat.le_refl _) rfl rfl

/-- The thread has started `punch`, and waits without the mutex. -/
theorem effect_startPunch (hpc : s.handler p = .startPunch) :
    Effect s .nothing (((s.startPunch p).unlock p).goto p (.waitPunch .asleep)) := by
  have hhandler : (((s.startPunch p).unlock p).goto p (.waitPunch .asleep)).handler =
      Function.update s.handler p (.waitPunch .asleep) := rfl
  have hreg : (((s.startPunch p).unlock p).goto p (.waitPunch .asleep)).reg =
      s.reg.modify p fun x => { x with refCount := x.refCount + 1, mutex := false } := by
    simp only [State.startPunch, State.unlock, State.modify, State.goto, Registry.peersIncrRef,
      Registry.modify_modify]
    rfl
  refine .leaves p ⟨rfl, rfl, rfl, hreg ▸ writes_modify, fun q => ?_⟩ rfl rfl
    fun _ => woken_of_move hhandler id
  by_cases hqp : q = p
  · subst hqp
    simp [State.lockers, hpc, State.startPunch, State.unlock, State.modify, State.goto]
  · simp [State.lockers, hqp, State.startPunch, State.unlock, State.modify, State.goto]

theorem effect_handlerStep {ok : Bool} {read : ReadResult}
    (h : s.handlerStep config p now ok read = some s') : Effect s .nothing s' := by
  unfold State.handlerStep at h
  split at h
  · rename_i hpc
    cases h
    exact effect_startPunch hpc
  · cases h
    exact quiet_of_move (.reading 0) rfl (by simp) id
      ⟨rfl, view_peersIncrRef, fun _ => id, fun _ => id⟩ (fun _ => Nat.le_refl _) rfl rfl
  · cases h
    exact quiet_of_move .done rfl (by simp) id (shrinks_peersDecrRef _ p 2)
      (fun _ => Nat.le_refl _) rfl rfl
  · split at h
    · cases h
    · rename_i hlocked
      have hfree : (s.reg.view p).mutex = false := Bool.not_eq_true _ ▸ hlocked
      split at h <;> cases h
      · rename_i hpc
        exact effect_handlerTop hpc hfree
      · rename_i hpc
        exact effect_handlerAnswer hpc (fun _ => rfl) hfree
      · rename_i hpc
        exact effect_handlerAnswer hpc (fun ht => by cases ht) hfree
      · rename_i hpc
        exact effect_handlerPunched hpc (fun _ => rfl) hfree
      · rename_i hpc
        exact effect_handlerPunched hpc (fun ht => by cases ht) hfree
      · rename_i hpc
        exact effect_handlerHandshake hpc hfree
      · rename_i hpc
        exact effect_handlerRead hpc hfree

theorem effect_handlerTimeout (h : s.handlerWakes p .timedOut = some s') :
    Effect s .nothing s' := by
  unfold State.handlerWakes at h
  split at h <;> cases h
  · exact quiet_of_move (.waitAnswer .timedOut) rfl (by simp) id (shrinks_refl _)
      (fun _ => Nat.le_refl _) rfl rfl
  · exact quiet_of_move (.waitPunch .timedOut) rfl (by simp) id (shrinks_refl _)
      (fun _ => Nat.le_refl _) rfl rfl

/-! ### All threads -/

theorem effect_punchStep {k : ℕ} (h : s.punchStep config p k = some s') : Effect s .nothing s' := by
  unfold State.punchStep at h
  split at h
  · cases h
  · cases h
    exact quiet_of_thread (shrinks_peersDecrRef _ p 1) rfl (fun _ => Nat.le_refl _) rfl rfl
  · split at h
    · cases h
    · split at h <;> cases h <;>
        exact quiet_of_thread (shrinks_refl _) rfl (fun _ => Nat.le_refl _) rfl rfl

theorem effect_writingEnd (h : s.writingEnd p = some s') : Effect s .nothing s' := by
  unfold State.writingEnd at h
  split at h
  · cases h
  · cases h
    exact quiet_of_thread (shrinks_peersDecrRef _ p 1) rfl (fun _ => Nat.le_refl _) rfl rfl

/-- The wait of a `peer_handling` thread ends with a signal or its timeout. -/
def NotSpurious : Act → Prop
  | .handlerSpurious _ => False
  | _ => True

instance : DecidablePred NotSpurious
  | .handlerSpurious _ => inferInstanceAs (Decidable False)
  | .tunPacket _ | .tunStep _ _ | .socketPacket _ _ | .socketStep | .rdvMessage _ | .rdvStep _ _
  | .handlerStep _ _ _ _ | .handlerTimeout _ | .punchStep _ _ | .writingEnd _ | .endCampagnol =>
    inferInstanceAs (Decidable True)

/-- What a step does to the peers. -/
theorem effect_of_step (ha : NotSpurious a) (h : step config s a = some s') :
    Effect s (heard s a) s' := by
  cases a with
  | tunPacket dst => exact effect_tunPacket h
  | tunStep now env => exact effect_tunStep h
  | socketPacket src packet => exact effect_socketPacket h
  | socketStep => exact effect_socketStep h
  | rdvMessage msg => exact effect_rdvMessage h
  | rdvStep now env => exact effect_rdvStep h
  | handlerStep p now ok read => exact effect_handlerStep h
  | handlerTimeout p => exact effect_handlerTimeout h
  | handlerSpurious p => exact ha.elim
  | punchStep p k => exact effect_punchStep h
  | writingEnd p => exact effect_writingEnd h
  | endCampagnol =>
    cases h
    exact quiet_of_thread (shrinks_refl _) rfl (fun _ => Nat.le_refl _) rfl rfl

end Steps

end Client
end Campagnol
