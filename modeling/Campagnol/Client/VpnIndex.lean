import Campagnol.Client.Invariants

/-!
# The VPN index of the client

`comm_tun` and `rdv_handling` look a peer up by its VPN IP and create it when it is missing,
in two steps. When both do so for the same VPN IP, the second peer gets no node in
`clients_vpn_root` (`vpn_index_broken_by_race`). The index is right in every run without such
a race in which `rdv_handling` takes FWD_CONNECTION messages only, and no ANS_CONNECTION or
REJ_CONNECTION (`vpn_index_of_no_race`).
-/

namespace Campagnol
namespace Client

open SearchTree

/-- The registry as `clients_vpn_root` sees it. -/
structure SameIndex (r r' : Registry) : Prop where
  created : r'.created = r.created
  removals : r'.removals = r.removals
  vpnRoot : r'.clientsVpnRoot = r.clientsVpnRoot
  vpnIP : ∀ p, (r'.peer p).vpnIP = (r.peer p).vpnIP

section Changes
variable {config : Configuration} {s s' : State} {a : Act} {l : List Ptr} {r r' : Registry}
  {p : Ptr}

theorem sameIndex_refl (r : Registry) : SameIndex r r := ⟨rfl, rfl, rfl, fun _ => rfl⟩

theorem sameIndex_modify {f : Peer → Peer} (hf : ∀ x, (f x).vpnIP = x.vpnIP) (r : Registry)
    (p : Ptr) : SameIndex r (r.modify p f) :=
  ⟨rfl, rfl, rfl, Registry.modify_field Peer.vpnIP (hf _)⟩

theorem SameIndex.trans {r'' : Registry} (h : SameIndex r r') (h' : SameIndex r' r'') :
    SameIndex r r'' :=
  ⟨h'.created.trans h.created, h'.removals.trans h.removals, h'.vpnRoot.trans h.vpnRoot,
    fun p => (h'.vpnIP p).trans (h.vpnIP p)⟩

theorem sameIndex_peersIncrRef (r : Registry) (p : Ptr) : SameIndex r (r.peersIncrRef p) := by
  refine sameIndex_modify ?_ r p
  exact fun _ => rfl

theorem sameIndex_grab (r : Registry) (p : Ptr) : SameIndex r (r.grab p) := by
  refine (sameIndex_peersIncrRef r p).trans (sameIndex_modify ?_ _ p)
  exact fun _ => rfl

/-- The VPN IP of the peer that a step is about to create. -/
def creates (s : State) : Act → Option InAddr
  | .tunStep _ _ =>
    match s.tun with
    | .missed dst => some dst
    | _ => none
  | .rdvStep _ _ =>
    match s.rdv with
    | .fwdMissed _ v => some v
    | _ => none
  | _ => none

/-- What a transition does to the index. -/
inductive IndexChange (config : Configuration) (s : State) (a : Act) (l : List Ptr)
    (r' : Registry) : Prop where
  | same (h : SameIndex s.reg r')
  | drop (p : Ptr) (n : ℕ) (hp : p ∈ l) (h : r' = s.reg.peersDecrRef p n)
  | add (p : Ptr) (state : ClientType) (e : SockaddrIn) (v : InAddr) (dtls : Bool)
      (hv : creates s a = some v) (h : Registry.Added s.reg r' p state e v dtls)

theorem Transition.indexChange (h : RefInv config s l) (halloc : AllocOk a)
    (ht : Transition config s a s') :
    IndexChange config s a l s'.reg := by
  cases ht with
  | stutter hs' | tunMissed _ _ _ hs' | tunFull _ _ hs' | rdvMissed _ _ _ _ _ _ hs'
  | rdvFull _ _ _ hs' | punchSection _ _ _ _ _ _ hs' | ended hs' =>
    subst hs'
    exact .same (sameIndex_refl _)
  | tunFound p _ _ hs' | socketFound p _ _ _ _ hs' | rdvFound p _ _ _ _ _ _ _ _ hs' =>
    subst hs'
    exact .same (sameIndex_grab _ p)
  | tunStart p _ hs' | rdvStart p _ hs' | handlerWriting p _ hs' =>
    subst hs'
    exact .same (sameIndex_peersIncrRef _ p)
  | tunUse p f _ hf hs' | socketUse p f _ _ hf _ hs' | rdvUse p f _ _ _ _ hf _ hs' =>
    subst hs'
    exact .same (sameIndex_modify hf.vpnIP _ p)
  | rdvAnswer p e _ _ _ _ hs' =>
    subst hs'
    exact .same (sameIndex_modify (f := answered e) (fun _ => rfl) _ p)
  | handlerSection p f _ _ hf _ _ _ _ _ hs' =>
    subst hs'
    exact .same (sameIndex_modify hf.vpnIP _ p)
  | handlerRegister p f alloc reg _ hreg hf _ hs' =>
    subst hs'
    obtain ⟨root, -, rfl⟩ := Option.map_eq_some_iff.mp hreg
    exact .same ⟨rfl, rfl, rfl, Registry.modify_field Peer.vpnIP (hf.vpnIP _)⟩
  | handlerPunch p f _ hf hs' =>
    subst hs'
    exact .same ((sameIndex_peersIncrRef _ p).trans (sameIndex_modify hf.vpnIP _ p))
  | tunAdded dst now env p reg hact hpc hadd hs' =>
    subst hs' hact
    exact .add p _ _ dst _ (by simp only [creates, hpc]) (Registry.added_of_peersAdd hadd).1
  | rdvAdded e v now env p reg hact hpc hadd hs' =>
    subst hs' hact
    exact .add p _ _ v _ (by simp only [creates, hpc]) (Registry.added_of_peersAdd hadd).1
  | rdvLeak e v now env reg hact hpc henv hleak hs' =>
    subst hact
    rw [AllocOk, henv] at halloc
    cases halloc
  | tunRelease p hpc hs' =>
    subst hs'
    exact .drop p 1 (h.mem_of_holds (.tun (by rw [hpc]; rfl))) rfl
  | socketRelease p hpc hs' =>
    subst hs'
    exact .drop p 1 (h.mem_of_holds (.socket (by rw [hpc]; rfl))) rfl
  | rdvRelease p hpc hs' =>
    subst hs'
    exact .drop p 1 (h.mem_of_holds (.rdv (by rw [hpc]; rfl))) rfl
  | handlerClose p hpc hs' =>
    subst hs'
    exact .drop p 2 (h.mem_of_holds (.handler (by rw [hpc]; rfl))) rfl
  | punchEnd p k hk hs' =>
    subst hs'
    exact .drop p 1 (h.mem_of_holds (.punch (Nat.zero_lt_of_lt hk))) rfl
  | writingEnd p n hn hs' =>
    subst hs'
    exact .drop p 1 (h.mem_of_holds (.writing (hn ▸ Nat.succ_pos n))) rfl

/-! ## The index -/

/-- Every peer that has not been removed has a node in `clients_vpn_root`. -/
def Indexed (r : Registry) : Prop :=
  ∀ p, p < r.created → r.removals p = 0 → p ∈ r.clientsVpnRoot

theorem Indexed.same (h : Indexed r) (hs : SameIndex r r') : Indexed r' := by
  intro p hp hlive
  rw [hs.vpnRoot]
  exact h p (hs.created ▸ hp) (hs.removals ▸ hlive)

/-- The node that a removal deletes belongs to the removed peer. -/
theorem Indexed.peersRemove (h : Indexed r) (hi : r.Inv config l) (hp : p ∈ l) :
    Indexed (r.peersRemove p) := by
  have hpr : p ∈ r.clientsVpnRoot :=
    h p (hi.lt_created p hp) ((hi.mem_iff (hi.lt_created p hp)).mp hp)
  intro q hq hlive
  have hqp : q ≠ p := by
    rintro rfl
    simp [Registry.peersRemove] at hlive
  have hqr : q ∈ r.clientsVpnRoot := by
    refine h q hq ?_
    simpa [Registry.peersRemove, hqp] using hlive
  refine (mem_tdelete hi.vpn_ordered q).mpr ⟨hqr, fun hkey => hqp ?_⟩
  exact hi.vpn_ordered.key_inj hqr hpr hkey

theorem Indexed.peersDecrRef (h : Indexed r) (hi : r.Inv config l) (hp : p ∈ l) (n : ℕ) :
    Indexed (r.peersDecrRef p n) := by
  have hf : KeepsKeys fun x => { x with refCount := x.refCount - n } :=
    Registry.keepsKeys_refCount (· - n)
  have hsame := h.same (sameIndex_modify hf.vpnIP r p)
  unfold Registry.peersDecrRef
  dsimp only
  split
  · exact hsame.peersRemove (hi.modify_keeps hf) hp
  · exact hsame

/-- A new peer gets a node, if there is none with its VPN IP. -/
theorem Indexed.added {state : ClientType} {e : SockaddrIn} {v : InAddr} {dtls : Bool}
    (h : Indexed r) (hi : r.Inv config l) (ha : Registry.Added r r' p state e v dtls)
    (hnone : r.findByVPN v = none) : Indexed r' := by
  obtain ⟨alloc, hroot⟩ := ha.vpnRoot
  have hkeep : ∀ q ∈ r.clientsVpnRoot, vpnKey r'.peer q = vpnKey r.peer q := by
    intro q hq
    have hqp : q ≠ p := by
      rintro rfl
      exact hi.notMem_created (ha.ptr ▸ hi.vpn_mem q hq)
    rw [vpnKey, ha.frame q hqp]
    rfl
  have hnone' : tfind compareClientsVpn (vpnKey r'.peer) (vpnKey r'.peer p) r.clientsVpnRoot =
      none := by
    rw [tfind_congr _ hkeep]
    show r.findByVPN (r'.peer p).vpnIP = none
    rw [ha.fresh.vpnIP]
    exact hnone
  intro q hq hlive
  refine (mem_tsearch_of_none hnone' hroot q).mpr ?_
  by_cases hqp : q = p
  · exact .inl hqp
  · right
    rw [ha.removals] at hlive
    exact h q (ha.lt_created hq hqp) hlive

end Changes

/-- The step does not create a second peer with the same VPN IP. -/
def NoRace (s : State) (a : Act) : Prop :=
  ∀ v ∈ creates s a, s.reg.findByVPN v = none

/-- The messages of the RDV server are FWD_CONNECTION messages. -/
def ForwardsOnly : Act → Prop
  | .rdvMessage msg => msg.type = .fwdConnection
  | _ => True

/-- `rdv_handling` is not about to store an answer. -/
def NoAnswer (s : State) : Prop := ∀ p e, s.rdv ≠ .ans p e

section Runs
variable {config : Configuration} {s s' : State} {a : Act} {l : List Ptr}

theorem NoAnswer.answerOk (h : NoAnswer s) (a : Act) : AnswerOk s a := by
  cases a with
  | rdvStep now env =>
    show s.rdv.AnswerOk s.reg
    cases hpc : s.rdv with
    | ans p e => exact absurd hpc (h p e)
    | _ => trivial
  | _ => trivial

/-- Without ANS_CONNECTION messages there are no answers. -/
theorem NoAnswer.transition (h : NoAnswer s) (ha : ForwardsOnly a)
    (ht : Transition config s a s') : NoAnswer s' := by
  cases ht with
  | rdvFound p pc msg hact hpc hpc' hnot hans hfound hs' =>
    subst hs' hact
    intro q e hq
    have hq' : pc = .ans q e := hq
    obtain rfl : q = p := Option.some.inj (by rwa [hq'] at hpc')
    have htype : msg.type = .fwdConnection := ha
    rw [hans e hq'] at htype
    cases htype
  | rdvUse p f hh pc hpc hpc' hf hsig hs' =>
    subst hs'
    intro q e hq
    have hq' : pc = .ans q e := hq
    rcases hpc' with rfl | rfl <;> cases hq'
  | rdvMissed _ _ _ _ _ _ hs' | rdvAnswer _ _ _ _ _ _ hs' | rdvFull _ _ _ hs'
  | rdvAdded _ _ _ _ _ _ _ _ _ hs' | rdvLeak _ _ _ _ _ _ _ _ _ hs' | rdvStart _ _ hs'
  | rdvRelease _ _ hs' =>
    subst hs'
    nofun
  | stutter hs' | tunMissed _ _ _ hs' | tunFound _ _ _ hs' | tunFull _ _ hs'
  | tunAdded _ _ _ _ _ _ _ _ hs' | tunStart _ _ hs' | tunUse _ _ _ _ hs' | tunRelease _ _ hs'
  | socketFound _ _ _ _ _ hs' | socketUse _ _ _ _ _ _ hs' | socketRelease _ _ hs'
  | handlerSection _ _ _ _ _ _ _ _ _ _ hs' | handlerRegister _ _ _ _ _ _ _ _ hs'
  | handlerPunch _ _ _ _ hs' | handlerWriting _ _ hs' | handlerClose _ _ hs'
  | punchSection _ _ _ _ _ _ hs' | punchEnd _ _ _ hs' | writingEnd _ _ _ hs' | ended hs' =>
    subst hs'
    exact h

/-- A transition that creates no second peer keeps the index. -/
theorem Indexed.transition (h : Indexed s.reg) (hi : RefInv config s l) (halloc : AllocOk a)
    (hrace : NoRace s a) (ht : Transition config s a s') : Indexed s'.reg := by
  cases ht.indexChange hi halloc with
  | same hsame => exact h.same hsame
  | drop p n hp hdrop =>
    rw [hdrop]
    exact h.peersDecrRef hi.reg hp n
  | add p state e v dtls hv ha => exact h.added hi.reg ha (hrace v hv)

/-- The listed peers have distinct VPN IPs, and a lookup of the VPN IP of a peer finds it. -/
def VpnIndex (s : State) : Prop :=
  ∃ l, s.reg.peersList.IsList l ∧
    (∀ p ∈ l, ∀ q ∈ l, (s.reg.peer p).vpnIP = (s.reg.peer q).vpnIP → p = q) ∧
    ∀ p ∈ l, s.reg.findByVPN (s.reg.peer p).vpnIP = some p

theorem RefInv.vpnIndex (h : RefInv config s l) (hi : Indexed s.reg) : VpnIndex s := by
  have hmem : ∀ p ∈ l, p ∈ s.reg.clientsVpnRoot := by
    intro p hp
    have hlt := h.reg.lt_created p hp
    exact hi p hlt ((h.reg.mem_iff hlt).mp hp)
  refine ⟨l, h.reg.list, fun p hp q hq hkey => ?_, fun p hp => ?_⟩
  · exact h.reg.vpn_ordered.key_inj (hmem p hp) (hmem q hq) hkey
  · exact tfind_of_mem h.reg.vpn_ordered (hmem p hp)

/-- The steps of `comm_tun`, of `rdv_handling` with FWD_CONNECTION messages and of the
threads of the peers, in which no second peer with the same VPN IP is created. -/
def RaceFree (s : State) (a : Act) : Prop := ForwardsOnly a ∧ AllocOk a ∧ NoRace s a

/-- The VPN index is right in every run in which `rdv_handling` takes no other messages than
FWD_CONNECTION (`ForwardsOnly`), the allocations of `tsearch` succeed (`AllocOk`), and a peer is
only created while `clients_vpn_root` holds none with its VPN IP (`NoRace`). -/
theorem vpn_index_of_no_race (h : Steps (step config) RaceFree .init s) : VpnIndex s := by
  have hinv : (∃ l, RefInv config s l) ∧ NoAnswer s ∧ Indexed s.reg := by
    refine Steps.invariant
      (P := fun s => (∃ l, RefInv config s l) ∧ NoAnswer s ∧ Indexed s.reg) h ?_ ?_
    · exact ⟨⟨[], refInv_init config⟩, nofun, fun p hp => absurd hp (Nat.not_lt_zero p)⟩
    · intro t a u ht ha hu
      obtain ⟨⟨l, hl⟩, hans, hidx⟩ := ht
      have htr := transition_of_step hu
      exact ⟨hl.transition ha.2.1 (hans.answerOk a) htr, hans.transition ha.1 htr,
        hidx.transition hl ha.2.1 ha.2.2 htr⟩
  obtain ⟨⟨l, hl⟩, -, hidx⟩ := hinv
  exact hl.vpnIndex hidx

end Runs

/-! ### Runs -/

instance : DecidablePred ForwardsOnly
  | .rdvMessage msg => inferInstanceAs (Decidable (msg.type = .fwdConnection))
  | .tunPacket _ | .tunStep _ _ | .socketPacket _ _ | .socketStep | .rdvStep _ _
  | .handlerStep _ _ _ _ | .handlerTimeout _ | .handlerSpurious _ | .punchStep _ _
  | .writingEnd _ | .endCampagnol => inferInstanceAs (Decidable True)

instance (s : State) (a : Act) : Decidable (NoRace s a) :=
  match h : creates s a with
  | none => isTrue fun v hv => by simp [h] at hv
  | some v => decidable_of_iff (s.reg.findByVPN v = none) (by simp [NoRace, h])

instance (s : State) (a : Act) : Decidable (RaceFree s a) :=
  inferInstanceAs (Decidable (_ ∧ _ ∧ _))

/-- A connection to 101 and one from 102. -/
def twoConnections : List Act := request 101 0 ++ forward 102 ⟨20, 7⟩

theorem vpn_index_of_no_race_twoConnections :
    ∃ s, Steps (step client100) RaceFree .init s ∧ s.reg.findByVPN 101 = some 0 ∧
      s.reg.findByVPN 102 = some 1 ∧ VpnIndex s := by
  have hrun : (runOk (step client100) RaceFree twoConnections .init).map
      (fun s => (s.reg.findByVPN 101, s.reg.findByVPN 102)) = some (some 0, some 1) := by
    decide +kernel
  obtain ⟨s, hs, heq⟩ := Option.map_eq_some_iff.mp hrun
  simp only [Prod.mk.injEq] at heq
  have hsteps := Steps.of_runOk .refl hs
  exact ⟨s, hsteps, heq.1, heq.2, vpn_index_of_no_race hsteps⟩

/-- `comm_tun` has a packet for 101 while `rdv_handling` has a request of 101. Both miss it,
and then both create it. -/
def crossing : List Act :=
  [.tunPacket 101, .rdvMessage ⟨.fwdConnection, 7, 20, 101⟩, .tunStep 0 allocOk,
    .rdvStep 0 allocOk]

/-- An incoming and an outgoing connection to the same peer at the same moment give two
peers with the same VPN IP. -/
theorem vpn_index_broken_by_race :
    ∃ s, Steps (step client100) (fun _ a => ForwardsOnly a ∧ AllocOk a) .init s ∧
      ¬ VpnIndex s := by
  have hrun : (runOk (step client100) (fun _ a => ForwardsOnly a ∧ AllocOk a) crossing .init).map
      (fun s => (s.reg.peersList.head, s.reg.peersList.next 1,
        (s.reg.peer 0).vpnIP, (s.reg.peer 1).vpnIP)) = some (some 1, some 0, 101, 101) := by
    decide +kernel
  obtain ⟨s, hs, heq⟩ := Option.map_eq_some_iff.mp hrun
  simp only [Prod.mk.injEq] at heq
  obtain ⟨hhead, hnext, hv₀, hv₁⟩ := heq
  refine ⟨s, Steps.of_runOk .refl hs, ?_⟩
  rintro ⟨l, hlist, huniq, -⟩
  -- the list starts with the peers 1 and 0
  obtain ⟨l₁, rfl⟩ := List.head?_eq_some_iff.mp (hlist.head_eq.symm.trans hhead)
  obtain ⟨l₂, rfl⟩ := List.head?_eq_some_iff.mp ((hlist.links [] 1 l₁ rfl).2.symm.trans hnext)
  have heq := huniq 0 (by simp) 1 (by simp) (hv₀.trans hv₁.symm)
  cases heq

end Client
end Campagnol
