import Campagnol.Client.Transitions

/-!
# The roles of a client

A client is the DTLS client of the sessions that `comm_tun` requests and the DTLS server of
those that `rdv_handling` accepts. `RoleChange` says what a transition does to the sessions of
a client and their roles.
-/

namespace Campagnol
namespace Client

/-- The `peer_handling` thread of `p` has been started, or is about to be. -/
def State.InUse (s : State) (p : Ptr) : Prop :=
  s.handler p ≠ .notStarted ∨ s.tun = .created p ∨ s.rdv = .created p

/-- There is a session with `v` that is not closed, in which this side is the DTLS client or
not. -/
def State.HasRole (s : State) (v : InAddr) (dtls : Bool) : Prop :=
  ∃ p < s.reg.created, s.InUse p ∧ (s.reg.peer p).vpnIP = v ∧
    (s.reg.peer p).isDtlsClient = dtls ∧ (s.reg.peer p).state ≠ .closed

/-- The VPN IP that a step is about to call `peers_add_requested` for. -/
def requested (s : State) : Act → Option InAddr
  | .tunStep _ _ =>
    match s.tun with
    | .missed dst => some dst
    | _ => none
  | _ => none

/-- The VPN IP that `rdv_handling` is about to call `peers_add_caller` for. -/
def RdvPc.accepts : RdvPc → Option InAddr
  | .fwdMissed _ v => some v
  | _ => none

/-- The thread that creates a peer decides on the role. -/
def Origin (s : State) (a : Act) (v : InAddr) : Bool → Prop
  | true => requested s a = some v
  | false => s.rdv.accepts = some v

/-- The threads of the peers agree with their states, and only the DTLS client of a session
is in the state NEW. -/
structure Phased (s : State) : Prop where
  agrees : ∀ p, (s.handler p).Agrees (s.reg.peer p).state
  born : ∀ p, s.InUse p → p < s.reg.created
  asks : ∀ p, s.InUse p → (s.reg.peer p).state = .new → (s.reg.peer p).isDtlsClient = true

theorem phased_init : Phased .init := by
  have hunused : ∀ p, ¬ State.init.InUse p := fun p => by simp [State.init, State.InUse]
  exact ⟨fun _ => .inl rfl, fun p hp => absurd hp (hunused p), fun p hp => absurd hp (hunused p)⟩

/-! ## What a transition does to the sessions -/

/-- No session is opened, none changes its role, and the closed ones stay closed. -/
structure Kept (s s' : State) : Prop where
  created : s'.reg.created = s.reg.created
  vpnIP : ∀ p, (s'.reg.peer p).vpnIP = (s.reg.peer p).vpnIP
  isDtlsClient : ∀ p, (s'.reg.peer p).isDtlsClient = (s.reg.peer p).isDtlsClient
  inUse : ∀ p, s'.InUse p → s.InUse p
  new : ∀ p, (s'.reg.peer p).state = .new → (s.reg.peer p).state = .new
  agrees : ∀ p, (s.handler p).Agrees (s.reg.peer p).state →
    (s'.handler p).Agrees (s'.reg.peer p).state ∧
      ((s.reg.peer p).state = .closed → (s'.reg.peer p).state = .closed)

/-- A peer is created for `v`. -/
structure Opened (s s' : State) (v : InAddr) (dtls : Bool) : Prop where
  created : s'.reg.created = s.reg.created + 1
  fresh : (s'.reg.peer s.reg.created).vpnIP = v ∧
    (s'.reg.peer s.reg.created).isDtlsClient = dtls ∧
    (s'.reg.peer s.reg.created).state = if dtls then .new else .punching
  frame : ∀ p, p ≠ s.reg.created → s'.reg.peer p = s.reg.peer p
  handler : s'.handler = s.handler
  inUse : ∀ p, s'.InUse p → s.InUse p ∨ p = s.reg.created

/-- What a transition does to the sessions. -/
inductive RoleChange (s : State) (a : Act) (s' : State) : Prop where
  | keep (h : Kept s s')
  | add (v : InAddr) (dtls : Bool) (horigin : Origin s a v dtls) (h : Opened s s' v dtls)

/-- The registries hold the same sessions. -/
structure SameRoles (r r' : Registry) : Prop where
  created : r'.created = r.created
  vpnIP : ∀ p, (r'.peer p).vpnIP = (r.peer p).vpnIP
  isDtlsClient : ∀ p, (r'.peer p).isDtlsClient = (r.peer p).isDtlsClient
  state : ∀ p, (r'.peer p).state = (r.peer p).state

section
variable {config : Configuration} {s s' : State} {a : Act} {r r' r'' : Registry} {p : Ptr}

theorem sameRoles_refl (r : Registry) : SameRoles r r :=
  ⟨rfl, fun _ => rfl, fun _ => rfl, fun _ => rfl⟩

theorem sameRoles_modify {f : Peer → Peer} (hvpn : ∀ x, (f x).vpnIP = x.vpnIP)
    (hdtls : ∀ x, (f x).isDtlsClient = x.isDtlsClient) (hstate : ∀ x, (f x).state = x.state)
    (r : Registry) (p : Ptr) : SameRoles r (r.modify p f) :=
  ⟨rfl, Registry.modify_field Peer.vpnIP (hvpn _),
    Registry.modify_field Peer.isDtlsClient (hdtls _), Registry.modify_field Peer.state (hstate _)⟩

theorem KeepsState.sameRoles {f : Peer → Peer} (hf : KeepsState f) (r : Registry) (p : Ptr) :
    SameRoles r (r.modify p f) :=
  sameRoles_modify hf.vpnIP hf.isDtlsClient hf.state r p

theorem SameRoles.trans (h : SameRoles r r') (h' : SameRoles r' r'') : SameRoles r r'' :=
  ⟨h'.created.trans h.created, fun p => (h'.vpnIP p).trans (h.vpnIP p),
    fun p => (h'.isDtlsClient p).trans (h.isDtlsClient p),
    fun p => (h'.state p).trans (h.state p)⟩

theorem sameRoles_peersIncrRef (r : Registry) (p : Ptr) : SameRoles r (r.peersIncrRef p) := by
  refine sameRoles_modify ?_ ?_ ?_ r p <;> exact fun _ => rfl

theorem sameRoles_grab (r : Registry) (p : Ptr) : SameRoles r (r.grab p) := by
  refine (sameRoles_peersIncrRef r p).trans (sameRoles_modify ?_ ?_ ?_ _ p) <;> exact fun _ => rfl

theorem sameRoles_peersDecrRef (r : Registry) (p : Ptr) (n : ℕ) :
    SameRoles r (r.peersDecrRef p n) := by
  have hmodify : SameRoles r (r.modify p fun x => { x with refCount := x.refCount - n }) := by
    refine sameRoles_modify ?_ ?_ ?_ r p <;> exact fun _ => rfl
  unfold Registry.peersDecrRef
  dsimp only
  split
  · exact hmodify.trans ⟨rfl, fun _ => rfl, fun _ => rfl, fun _ => rfl⟩
  · exact hmodify

/-- A peer is in use after a step if something said so before. -/
theorem inUse_of (hhandler : ∀ p, s'.handler p ≠ .notStarted → s.InUse p)
    (htun : ∀ p, s'.tun = .created p → s.InUse p) (hrdv : ∀ p, s'.rdv = .created p → s.InUse p)
    (p : Ptr) (h : s'.InUse p) : s.InUse p := by
  rcases h with h | h | h
  · exact hhandler p h
  · exact htun p h
  · exact hrdv p h

/-- A step that leaves the states of the peers and the places of their threads alone. -/
theorem kept_of_same (hreg : SameRoles s.reg s'.reg) (huse : ∀ p, s'.InUse p → s.InUse p)
    (hagrees : ∀ p st, (s.handler p).Agrees st → (s'.handler p).Agrees st) : Kept s s' where
  created := hreg.created
  vpnIP := hreg.vpnIP
  isDtlsClient := hreg.isDtlsClient
  inUse := huse
  new := fun p hp => by rwa [← hreg.state p]
  agrees := fun p hp => by
    rw [hreg.state p]
    exact ⟨hagrees p _ hp, id⟩

theorem inUse_of_running (h : (s.handler p).life = .running) : s.InUse p := by
  left
  intro hnot
  rw [hnot] at h
  cases h

theorem Signalled.agrees {h h' : Ptr → HandlerPc} (hs : Signalled p h h') (q : Ptr)
    (st : ClientType) (hst : (h q).Agrees st) : (h' q).Agrees st := by
  rcases hs.at q with heq | ⟨w, w', hw, hw'⟩ | ⟨w, w', hw, hw'⟩
  · rwa [heq]
  · rw [hw] at hst
    rw [hw']
    exact hst
  · rw [hw] at hst
    rw [hw']
    exact hst

theorem Signalled.started {h h' : Ptr → HandlerPc} (hs : Signalled p h h') (q : Ptr)
    (hst : h' q ≠ .notStarted) : h q ≠ .notStarted := by
  rcases hs.at q with heq | ⟨w, w', hw, hw'⟩ | ⟨w, w', hw, hw'⟩
  · rwa [← heq]
  · rw [hw]
    nofun
  · rw [hw]
    nofun

theorem Registry.Added.opened {st : ClientType} {e : SockaddrIn} {v : InAddr} {dtls : Bool}
    (ha : Registry.Added s.reg s'.reg p st e v dtls) (hst : st = if dtls then .new else .punching)
    (hhandler : s'.handler = s.handler) (huse : ∀ q, s'.InUse q → s.InUse q ∨ q = p) :
    Opened s s' v dtls where
  created := ha.created
  fresh := ha.ptr ▸ ⟨ha.fresh.vpnIP, ha.fresh.isDtlsClient, ha.fresh.state.trans hst⟩
  frame := fun q hq => ha.frame q (ha.ptr ▸ hq)
  handler := hhandler
  inUse := ha.ptr ▸ huse

/-- The thread of `p` changes its state and moves to `pc`. -/
theorem kept_of_section {f : Peer → Peer} {pc : HandlerPc} (hcreated : r.created = s.reg.created)
    (hpeer : r.peer = s.reg.peer) (hf : Keeps f) (hrun : (s.handler p).life = .running)
    (hnew : (f (s.reg.peer p)).state = .new → (s.reg.peer p).state = .new)
    (hstage : (s.handler p).Agrees (s.reg.peer p).state → pc.Agrees (f (s.reg.peer p)).state ∧
      ((s.reg.peer p).state = .closed → (f (s.reg.peer p)).state = .closed))
    (hreg : s'.reg = r.modify p f) (hhandler : s'.handler = Function.update s.handler p pc)
    (htun : s'.tun = s.tun) (hrdv : s'.rdv = s.rdv) : Kept s s' where
  created := by
    rw [hreg]
    exact hcreated
  vpnIP := fun q => by
    rw [hreg, Registry.modify_field Peer.vpnIP (hf.vpnIP _), hpeer]
  isDtlsClient := fun q => by
    rw [hreg, Registry.modify_field Peer.isDtlsClient (hf.isDtlsClient _), hpeer]
  inUse := by
    refine inUse_of (fun q hq => ?_) (fun q hq => .inr (.inl (htun ▸ hq)))
      fun q hq => .inr (.inr (hrdv ▸ hq))
    by_cases hqp : q = p
    · subst hqp
      exact inUse_of_running hrun
    · rw [hhandler, Function.update_of_ne hqp] at hq
      exact .inl hq
  new := fun q hq => by
    by_cases hqp : q = p
    · subst hqp
      rw [hreg, Registry.modify_peer_self, hpeer] at hq
      exact hnew hq
    · rwa [hreg, Registry.modify_peer_of_ne hqp, hpeer] at hq
  agrees := fun q hq => by
    by_cases hqp : q = p
    · subst hqp
      rw [hreg, hhandler, Registry.modify_peer_self, hpeer, Function.update_self]
      exact hstage hq
    · rw [hreg, hhandler, Registry.modify_peer_of_ne hqp, hpeer, Function.update_of_ne hqp]
      exact ⟨hq, id⟩

/-- The thread of `p` moves from one place to another with the same states. -/
theorem kept_of_move {pc : HandlerPc} (pc' : HandlerPc) (hpc : s.handler p = pc)
    (hlife : pc ≠ .notStarted)
    (hmove : ∀ st, pc.Agrees st → pc'.Agrees st) (hreg : SameRoles s.reg s'.reg)
    (hhandler : s'.handler = Function.update s.handler p pc')
    (htun : s'.tun = s.tun) (hrdv : s'.rdv = s.rdv) : Kept s s' := by
  refine kept_of_same hreg (inUse_of (fun q hq => ?_) (fun q hq => .inr (.inl (htun ▸ hq)))
    fun q hq => .inr (.inr (hrdv ▸ hq))) fun q st hst => ?_
  · by_cases hqp : q = p
    · subst hqp
      exact .inl (hpc ▸ hlife)
    · rw [hhandler, Function.update_of_ne hqp] at hq
      exact .inl hq
  · by_cases hqp : q = p
    · subst hqp
      rw [hhandler, Function.update_self]
      exact hmove st (hpc ▸ hst)
    · rwa [hhandler, Function.update_of_ne hqp]

/-- The thread of a new peer is started. -/
theorem kept_of_start (hp : s.tun = .created p ∨ s.rdv = .created p)
    (hreg : s'.reg = s.reg.peersIncrRef p)
    (hhandler : s'.handler = Function.update s.handler p .top)
    (htun : ∀ q, s'.tun = .created q → s.tun = .created q)
    (hrdv : ∀ q, s'.rdv = .created q → s.rdv = .created q) : Kept s s' := by
  refine kept_of_same (hreg ▸ sameRoles_peersIncrRef _ _) (inUse_of (fun q hq => ?_)
    (fun q hq => .inr (.inl (htun q hq))) fun q hq => .inr (.inr (hrdv q hq))) fun q st hst => ?_
  · by_cases hqp : q = p
    · subst hqp
      exact .inr hp
    · rw [hhandler, Function.update_of_ne hqp] at hq
      exact .inl hq
  · by_cases hqp : q = p
    · subst hqp
      rw [hhandler, Function.update_self]
      trivial
    · rwa [hhandler, Function.update_of_ne hqp]

/-- A step of one of the other threads. -/
theorem kept_of_thread (hreg : SameRoles s.reg s'.reg) (hhandler : s'.handler = s.handler)
    (htun : ∀ q, s'.tun = .created q → s.tun = .created q)
    (hrdv : ∀ q, s'.rdv = .created q → s.rdv = .created q) : Kept s s' := by
  refine kept_of_same hreg (inUse_of (fun q hq => .inl (hhandler ▸ hq))
    (fun q hq => .inr (.inl (htun q hq))) fun q hq => .inr (.inr (hrdv q hq))) fun q st hst => ?_
  rwa [hhandler]

/-- As `kept_of_thread`, with a signal for the thread of `p`. -/
theorem kept_of_signal (hreg : SameRoles s.reg s'.reg) (hh : Signalled p s.handler s'.handler)
    (htun : s'.tun = s.tun) (hrdv : ∀ q, s'.rdv = .created q → s.rdv = .created q) :
    Kept s s' :=
  kept_of_same hreg (inUse_of (fun q hq => .inl (hh.started q hq))
    (fun _ hq => .inr (.inl (htun ▸ hq))) fun q hq => .inr (.inr (hrdv q hq))) hh.agrees

/-- Only `comm_tun` and `rdv_handling` open a session, each in its own role. -/
theorem Transition.roleChange (ht : Transition config s a s') : RoleChange s a s' := by
  cases ht with
  | stutter hs' | punchSection _ _ _ _ _ _ hs' | ended hs' =>
    subst hs'
    exact .keep (kept_of_thread (sameRoles_refl _) rfl (fun _ => id) fun _ => id)
  -- the other steps of the three threads
  | tunFull _ _ hs' | tunMissed _ _ _ hs' =>
    subst hs'
    exact .keep (kept_of_thread (sameRoles_refl _) rfl nofun fun _ => id)
  | rdvMissed _ _ _ _ _ _ hs' | rdvFull _ _ _ hs' =>
    subst hs'
    exact .keep (kept_of_thread (sameRoles_refl _) rfl (fun _ => id) nofun)
  | tunFound p _ _ hs' =>
    subst hs'
    exact .keep (kept_of_thread (sameRoles_grab _ p) rfl nofun fun _ => id)
  | socketFound p _ _ _ _ hs' =>
    subst hs'
    exact .keep (kept_of_thread (sameRoles_grab _ p) rfl (fun _ => id) fun _ => id)
  | tunRelease p _ hs' =>
    subst hs'
    exact .keep (kept_of_thread (sameRoles_peersDecrRef _ p 1) rfl nofun fun _ => id)
  | rdvRelease p _ hs' =>
    subst hs'
    exact .keep (kept_of_thread (sameRoles_peersDecrRef _ p 1) rfl (fun _ => id) nofun)
  | socketRelease p _ hs' | punchEnd p _ _ hs' | writingEnd p _ _ hs' =>
    subst hs'
    exact .keep (kept_of_thread (sameRoles_peersDecrRef _ p 1) rfl (fun _ => id) fun _ => id)
  | tunUse p f _ hf hs' =>
    subst hs'
    exact .keep (kept_of_thread (hf.sameRoles _ p) rfl nofun fun _ => id)
  | rdvFound p pc _ _ _ hpc' hnot _ _ hs' =>
    subst hs'
    refine .keep (kept_of_thread (sameRoles_grab _ p) rfl (fun _ => id) fun q hq => ?_)
    have hq' : pc = .created q := hq
    obtain rfl : p = q := Option.some.inj (by rw [← hpc', hq']; rfl)
    exact absurd hq' hnot
  | rdvAnswer p e _ _ _ _ hs' =>
    subst hs'
    refine .keep (kept_of_thread (sameRoles_modify (f := answered e) ?_ ?_ ?_ _ p) rfl
      (fun _ => id) nofun) <;> exact fun _ => rfl
  | socketUse p f h _ hf hh hs' =>
    subst hs'
    exact .keep (kept_of_signal (hf.sameRoles _ p) hh rfl fun _ => id)
  | rdvUse p f h pc _ hpc' hf hh hs' =>
    subst hs'
    refine .keep (kept_of_signal (hf.sameRoles _ p) hh rfl fun q hq => ?_)
    rcases hpc' with rfl | rfl <;> cases hq
  | tunStart p hpc hs' =>
    subst hs'
    exact .keep (kept_of_start (.inl hpc) rfl rfl nofun fun _ => id)
  | rdvStart p hpc hs' =>
    subst hs'
    exact .keep (kept_of_start (.inr hpc) rfl rfl (fun _ => id) nofun)
  -- `peer_handling`
  | handlerSection p f pc msgs hf hrun _ hnew hstage _ hs' =>
    subst hs'
    exact .keep (kept_of_section rfl rfl hf hrun hnew hstage rfl rfl rfl rfl)
  | handlerRegister p f alloc reg hpc hreg hf hstate hs' =>
    subst hs'
    -- `peers_register_endpoint` changes a tree only
    obtain ⟨root, -, rfl⟩ := Option.map_eq_some_iff.mp hreg
    refine .keep (kept_of_section (r := { s.reg with clientsAddressRoot := root }) rfl rfl hf
      (by rw [hpc]; rfl) (fun hnew => ?_) ?_ rfl rfl rfl rfl)
    · rw [hstate] at hnew
      cases hnew
    · rw [hpc]
      exact fun hagrees => ⟨trivial, fun hclosed => nomatch hagrees.symm.trans hclosed⟩
  | handlerPunch p f hpc hf hs' =>
    subst hs'
    exact .keep (kept_of_move (.waitPunch .asleep) hpc nofun (fun _ => id)
      ((sameRoles_peersIncrRef _ p).trans (hf.sameRoles _ p)) rfl rfl rfl)
  | handlerWriting p hpc hs' =>
    subst hs'
    exact .keep (kept_of_move (.reading 0) hpc nofun (fun _ => id) (sameRoles_peersIncrRef _ p)
      rfl rfl rfl)
  | handlerClose p hpc hs' =>
    subst hs'
    exact .keep (kept_of_move .done hpc nofun (fun _ => id) (sameRoles_peersDecrRef _ p 2)
      rfl rfl rfl)
  -- the creations
  | tunAdded dst now env p reg hact hpc hadd hs' =>
    subst hs' hact
    refine .add dst true (by simp only [Origin, requested, hpc])
      ((Registry.added_of_peersAdd hadd).1.opened rfl rfl ?_)
    rintro q (hq | hq | hq)
    · exact .inl (.inl hq)
    · exact .inr (TunPc.created.inj hq).symm
    · exact .inl (.inr (.inr hq))
  | rdvAdded e v now env p reg hact hpc hadd hs' =>
    subst hs'
    refine .add v false (by rw [Origin, hpc]; rfl)
      ((Registry.added_of_peersAdd hadd).1.opened rfl rfl ?_)
    rintro q (hq | hq | hq)
    · exact .inl (.inl hq)
    · exact .inl (.inr (.inl hq))
    · exact .inr (RdvPc.created.inj hq).symm
  | rdvLeak e v now env reg _ hpc _ hleak hs' =>
    subst hs'
    -- the freed peer counts as created, but nobody uses it
    refine .add v false (by rw [Origin, hpc]; rfl) ⟨hleak.created, ⟨hleak.fresh.vpnIP,
      hleak.fresh.isDtlsClient, hleak.fresh.state⟩, hleak.frame, rfl, ?_⟩
    rintro q (hq | hq | hq)
    · exact .inl (.inl hq)
    · exact .inl (.inr (.inl hq))
    · cases hq

/-! ## Every transition keeps the phases -/

theorem Phased.kept (h : Phased s) (hk : Kept s s') : Phased s' where
  agrees := fun p => (hk.agrees p (h.agrees p)).1
  born := fun p hp => hk.created ▸ h.born p (hk.inUse p hp)
  asks := fun p hp hnew => by
    rw [hk.isDtlsClient p]
    exact h.asks p (hk.inUse p hp) (hk.new p hnew)

theorem Phased.not_started (h : Phased s) : s.handler s.reg.created = .notStarted := by
  by_contra hne
  exact Nat.lt_irrefl _ (h.born _ (.inl hne))

theorem Phased.opened {v : InAddr} {dtls : Bool} (h : Phased s) (ho : Opened s s' v dtls) :
    Phased s' where
  agrees := fun p => by
    rw [ho.handler]
    by_cases hp : p = s.reg.created
    · subst hp
      rw [h.not_started, ho.fresh.2.2]
      cases dtls
      · exact .inr rfl
      · exact .inl rfl
    · rw [ho.frame p hp]
      exact h.agrees p
  born := fun p hp => by
    rw [ho.created]
    rcases ho.inUse p hp with hold | rfl
    · exact Nat.lt_succ_of_lt (h.born p hold)
    · exact Nat.lt_succ_self _
  asks := fun p hp hnew => by
    by_cases hpc : p = s.reg.created
    · subst hpc
      obtain ⟨-, hdtls, hstate⟩ := ho.fresh
      rw [hstate] at hnew
      cases dtls
      · cases hnew
      · exact hdtls
    · rw [ho.frame p hpc] at hnew ⊢
      exact h.asks p ((ho.inUse p hp).resolve_right hpc) hnew

theorem Phased.roleChange (h : Phased s) (hc : RoleChange s a s') : Phased s' := by
  cases hc with
  | keep hk => exact h.kept hk
  | add v dtls _ ho => exact h.opened ho

/-! ## Where the roles come from -/

/-- A session in the role `dtls` was there before, or is opened by the thread that takes this
role. -/
theorem RoleChange.hasRole {v : InAddr} {dtls : Bool} (h : Phased s) (hc : RoleChange s a s')
    (hrole : s'.HasRole v dtls) : s.HasRole v dtls ∨ Origin s a v dtls := by
  obtain ⟨p, hlt, huse, hvpn, hdtls, hstate⟩ := hrole
  cases hc with
  | keep hk =>
    refine .inl ⟨p, hk.created ▸ hlt, hk.inUse p huse, (hk.vpnIP p).symm.trans hvpn,
      (hk.isDtlsClient p).symm.trans hdtls, fun hclosed => hstate ?_⟩
    exact (hk.agrees p (h.agrees p)).2 hclosed
  | add v' dtls' horigin ho =>
    by_cases hp : p = s.reg.created
    -- it is the new one
    · subst hp
      right
      rw [← hvpn, ← hdtls, ho.fresh.1, ho.fresh.2.1]
      exact horigin
    · have hold := (ho.inUse p huse).resolve_right hp
      rw [ho.frame p hp] at hvpn hdtls hstate
      exact .inl ⟨p, h.born p hold, hold, hvpn, hdtls, hstate⟩

/-! ## Messages -/

/-- The messages that the threads of a client send. It asks for the peers of which it is the
DTLS client only. -/
def SentBy (s : State) (msg : Message) : Prop :=
  (msg.type = .askConnection ∧ s.HasRole msg.ip1 true) ∨ msg.type = .closeConnection ∨
    msg.type = .punchKeepAlive ∨ msg.type = .punch

theorem Phased.sentBy (h : Phased s) (hrun : (s.handler p).life = .running) {msg : Message}
    (hmsg : OfHandler (s.reg.peer p) msg) : SentBy s msg := by
  rcases hmsg with ⟨htype, hnew, hip⟩ | htype | htype
  · have huse := inUse_of_running hrun
    refine .inl ⟨htype, p, h.born p huse, huse, hip.symm, h.asks p huse hnew, ?_⟩
    rw [hnew]
    nofun
  · exact .inr (.inl htype)
  · exact .inr (.inr (.inl htype))

/-- Nothing is sent. -/
theorem sentBy_of_same (h : s'.sent = s.sent) :
    ∃ msgs, s'.sent = s.sent ++ msgs ∧ ∀ d ∈ msgs, SentBy s d.msg :=
  ⟨[], h.trans (List.append_nil _).symm, List.forall_mem_nil _⟩

theorem Transition.sent (h : Phased s) (ht : Transition config s a s') :
    ∃ msgs, s'.sent = s.sent ++ msgs ∧ ∀ d ∈ msgs, SentBy s d.msg := by
  cases ht with
  | handlerSection p f pc msgs _ hrun _ _ _ hmsgs hs' =>
    subst hs'
    exact ⟨msgs, rfl, fun d hd => h.sentBy hrun (hmsgs d hd)⟩
  | punchSection p k n msgs _ hmsgs hs' =>
    subst hs'
    exact ⟨msgs, rfl, fun d hd => .inr (.inr (.inr (hmsgs d hd)))⟩
  | stutter hs' | tunMissed _ _ _ hs' | tunFound _ _ _ hs' | tunFull _ _ hs'
  | tunAdded _ _ _ _ _ _ _ _ hs' | tunStart _ _ hs' | tunUse _ _ _ _ hs' | tunRelease _ _ hs'
  | socketFound _ _ _ _ _ hs' | socketUse _ _ _ _ _ _ hs' | socketRelease _ _ hs'
  | rdvMissed _ _ _ _ _ _ hs' | rdvFound _ _ _ _ _ _ _ _ _ hs' | rdvUse _ _ _ _ _ _ _ _ hs'
  | rdvAnswer _ _ _ _ _ _ hs' | rdvFull _ _ _ hs' | rdvAdded _ _ _ _ _ _ _ _ _ hs'
  | rdvLeak _ _ _ _ _ _ _ _ _ hs' | rdvStart _ _ hs' | rdvRelease _ _ hs'
  | handlerRegister _ _ _ _ _ _ _ _ hs' | handlerPunch _ _ _ _ hs' | handlerWriting _ _ hs'
  | handlerClose _ _ hs' | punchEnd _ _ _ hs' | writingEnd _ _ _ hs' | ended hs' =>
    subst hs'
    exact sentBy_of_same rfl

/-- `rdv_handling` is about to accept a request of `v`: it was before, or the step takes it
from a FWD_CONNECTION. -/
theorem Transition.accepts {v : InAddr} (ht : Transition config s a s')
    (hpc : s'.rdv.accepts = some v) : s.rdv.accepts = some v ∨
      ∃ msg, a = .rdvMessage msg ∧ msg.type = .fwdConnection ∧ msg.ip2 = v := by
  cases ht with
  | rdvMissed e msg hact htype _ _ hs' =>
    subst hs'
    exact .inr ⟨msg, hact, htype, Option.some.inj hpc⟩
  | rdvFound p pc msg _ _ hpc' _ _ _ hs' =>
    subst hs'
    have hpc : pc.accepts = some v := hpc
    cases pc <;> simp [RdvPc.accepts, RdvPc.ref] at hpc hpc'
  | rdvUse p f hh pc _ hpc' _ _ hs' =>
    subst hs'
    rcases hpc' with rfl | rfl <;> cases hpc
  | rdvAnswer _ _ _ _ _ _ hs' | rdvFull _ _ _ hs' | rdvAdded _ _ _ _ _ _ _ _ _ hs'
  | rdvLeak _ _ _ _ _ _ _ _ _ hs' | rdvStart _ _ hs' | rdvRelease _ _ hs' =>
    subst hs'
    cases hpc
  | stutter hs' | tunMissed _ _ _ hs' | tunFound _ _ _ hs' | tunFull _ _ hs'
  | tunAdded _ _ _ _ _ _ _ _ hs' | tunStart _ _ hs' | tunUse _ _ _ _ hs' | tunRelease _ _ hs'
  | socketFound _ _ _ _ _ hs' | socketUse _ _ _ _ _ _ hs' | socketRelease _ _ hs'
  | handlerSection _ _ _ _ _ _ _ _ _ _ hs' | handlerRegister _ _ _ _ _ _ _ _ hs'
  | handlerPunch _ _ _ _ hs' | handlerWriting _ _ hs' | handlerClose _ _ hs'
  | punchSection _ _ _ _ _ _ hs' | punchEnd _ _ _ hs' | writingEnd _ _ _ hs' | ended hs' =>
    subst hs'
    exact .inl hpc

end

end Client
end Campagnol
