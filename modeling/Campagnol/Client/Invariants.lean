import Campagnol.Client.References

/-!
# Invariants of the client

What holds in every state of a client, for every interleaving of its threads and every
sequence of packets and messages, as long as no answer of the RDV server overwrites the
endpoint of a peer that is in `clients_address_root` (`AnswerOk`):

* `endpoint_index_of_answerOk`: the tree of the endpoints is ordered and holds no removed peer;
* `references_balanced`: the reference counters are right, and a peer is removed once, when
  its last reference is dropped.

`endpoint_index_broken_by_answer` is a run in which an answer comes late.
-/

namespace Campagnol
namespace Client

open SearchTree

/-- A step in which the last allocation of `peers_add` does not fail and no registered endpoint
is overwritten. -/
def SafeStep (s : State) (a : Act) : Prop := AllocOk a ∧ AnswerOk s a

instance : DecidablePred AllocOk
  | .rdvStep _ env => inferInstanceAs (Decidable (env.tsearchAddress = true))
  | .tunPacket _ | .tunStep _ _ | .socketPacket _ _ | .socketStep | .rdvMessage _
  | .handlerStep _ _ _ _ | .handlerTimeout _ | .handlerSpurious _ | .punchStep _ _
  | .writingEnd _ | .endCampagnol =>
    inferInstanceAs (Decidable True)

instance (r : Registry) : DecidablePred (RdvPc.AnswerOk r)
  | .ans p e =>
    inferInstanceAs (Decidable (p ∈ r.clientsAddressRoot → (r.peer p).clientaddr = e))
  | .idle | .rej _ | .signal _ | .fwdMissed _ _ | .created _ | .fwdFound _ | .release _ =>
    inferInstanceAs (Decidable True)

instance (s : State) : DecidablePred (AnswerOk s)
  | .rdvStep _ _ => inferInstanceAs (Decidable (s.rdv.AnswerOk s.reg))
  | .tunPacket _ | .tunStep _ _ | .socketPacket _ _ | .socketStep | .rdvMessage _
  | .handlerStep _ _ _ _ | .handlerTimeout _ | .handlerSpurious _ | .punchStep _ _
  | .writingEnd _ | .endCampagnol => inferInstanceAs (Decidable True)

instance (s : State) (a : Act) : Decidable (SafeStep s a) :=
  inferInstanceAs (Decidable (_ ∧ _))

variable {config : Configuration} {s : State}

/-- The invariant holds in every state of a run. -/
theorem refInv_of_steps (h : Steps (step config) SafeStep .init s) : ∃ l, RefInv config s l := by
  refine Steps.invariant (P := fun s => ∃ l, RefInv config s l) h ⟨[], refInv_init config⟩ ?_
  intro t a u ht ha hu
  obtain ⟨l, hl⟩ := ht
  exact hl.transition ha.1 ha.2 (transition_of_step hu)

/-! ## The tree of the endpoints -/

/-- The entries of `clients_address_root` are peers that have not been removed, the tree is
ordered by their current endpoints, and a lookup finds no removed peer. -/
def EndpointIndex (s : State) : Prop :=
  (∀ p ∈ s.reg.clientsAddressRoot, p < s.reg.created ∧ s.reg.removals p = 0) ∧
    Ordered compareClientsAddr (addrKey s.reg.peer) s.reg.clientsAddressRoot ∧
    ∀ e p, s.reg.findByEndpoint e = some p → s.reg.removals p = 0

theorem RefInv.endpointIndex {l : List Ptr} (h : RefInv config s l) : EndpointIndex s := by
  have hlive : ∀ p ∈ s.reg.clientsAddressRoot, p < s.reg.created ∧ s.reg.removals p = 0 := by
    intro p hp
    have hmem := h.reg.addr_mem p hp
    have hlt := h.reg.lt_created p hmem
    exact ⟨hlt, (h.reg.mem_iff hlt).mp hmem⟩
  exact ⟨hlive, h.reg.addr_ordered, fun e p hp => (hlive p (mem_of_tfind hp).1).2⟩

/-- The index of the endpoints is right in every run in which no answer of the RDV server
overwrites a registered endpoint with another one. -/
theorem endpoint_index_of_answerOk (h : Steps (step config) SafeStep .init s) :
    EndpointIndex s := by
  obtain ⟨l, hl⟩ := refInv_of_steps h
  exact hl.endpointIndex

/-! ### Runs -/

/-- A client with the VPN IP 100. -/
def client100 : Configuration := ⟨5, by decide, 100, 255, ⟨9, 9⟩, 10, 60⟩

/-- All allocations succeed. -/
def allocOk : AddEnv := ⟨true, true, true, true, .unknown 0⟩

/-- A packet for `v` creates a peer, and its thread asks the RDV server. -/
def request (v : InAddr) (p : Ptr) : List Act :=
  [.tunPacket v, .tunStep 0 allocOk, .tunStep 0 allocOk, .tunStep 0 allocOk,
    .handlerStep p 0 true .again]

/-- The RDV server answers that `v` is at the endpoint `e`. -/
def answer (v : InAddr) (e : SockaddrIn) : List Act :=
  [.rdvMessage ⟨.ansConnection, e.sinPort, e.sinAddr, v⟩, .rdvStep 0 allocOk, .rdvStep 0 allocOk,
    .rdvStep 0 allocOk]

/-- The RDV server forwards a request of `v` at the endpoint `e`. -/
def forward (v : InAddr) (e : SockaddrIn) : List Act :=
  [.rdvMessage ⟨.fwdConnection, e.sinPort, e.sinAddr, v⟩, .rdvStep 0 allocOk, .rdvStep 0 allocOk,
    .rdvStep 0 allocOk]

/-- The peer `p` is punching, gets no answer and is closed. -/
def giveUp (p : Ptr) : List Act :=
  [.handlerStep p 0 true .again, .handlerStep p 0 true .again, .handlerTimeout p,
    .handlerStep p 0 true .again, .handlerStep p 0 true .again, .handlerStep p 0 true .again,
    .punchStep p 0, .punchStep p 0]

/-- The peer 0 is registered at 10 and the peer 1 at 20, and the peer 1 gives up. -/
def twoPeers : List Act :=
  request 101 0 ++ answer 101 ⟨10, 7⟩ ++ [.handlerStep 0 0 true .again] ++ forward 102 ⟨20, 7⟩ ++
    giveUp 1

theorem endpoint_index_of_answerOk_twoPeers :
    ∃ s, Steps (step client100) SafeStep .init s ∧ s.reg.created = 2 ∧
      s.reg.findByEndpoint ⟨10, 7⟩ = some 0 ∧ s.reg.findByEndpoint ⟨20, 7⟩ = none ∧
      EndpointIndex s := by
  have hrun : (runOk (step client100) SafeStep twoPeers .init).map
      (fun s => (s.reg.created, s.reg.findByEndpoint ⟨10, 7⟩, s.reg.findByEndpoint ⟨20, 7⟩)) =
        some (2, some 0, none) := by decide +kernel
  obtain ⟨s, hs, heq⟩ := Option.map_eq_some_iff.mp hrun
  simp only [Prod.mk.injEq] at heq
  obtain ⟨hcreated, h10, h20⟩ := heq
  have hsteps := Steps.of_runOk .refl hs
  exact ⟨s, hsteps, hcreated, h10, h20, endpoint_index_of_answerOk hsteps⟩

/-- As `twoPeers`, but while the peer 1 is punching a second answer moves the peer 0 to the
endpoint 30. The node of the peer 1 is not found when that is removed. A third answer moves
the peer 0 to 5, and a lookup of 20 finds the removed peer. -/
def lateAnswer : List Act :=
  request 101 0 ++ answer 101 ⟨10, 7⟩ ++ [.handlerStep 0 0 true .again] ++ forward 102 ⟨20, 7⟩ ++
    answer 101 ⟨30, 7⟩ ++ giveUp 1 ++ answer 101 ⟨5, 7⟩

/-- With all allocations succeeding, an answer that comes late breaks the index: a lookup
returns a peer that `peers_remove` has freed. -/
theorem endpoint_index_broken_by_answer :
    ∃ s, Steps (step client100) (fun _ a => AllocOk a) .init s ∧
      s.reg.findByEndpoint ⟨20, 7⟩ = some 1 ∧ s.reg.removals 1 = 1 ∧ ¬ EndpointIndex s := by
  have hrun : (runOk (step client100) (fun _ a => AllocOk a) lateAnswer .init).map
      (fun s => (s.reg.findByEndpoint ⟨20, 7⟩, s.reg.removals 1)) = some (some 1, 1) := by
    decide +kernel
  obtain ⟨s, hs, heq⟩ := Option.map_eq_some_iff.mp hrun
  simp only [Prod.mk.injEq] at heq
  refine ⟨s, Steps.of_runOk .refl hs, heq.1, heq.2, fun hindex => ?_⟩
  have hzero := hindex.2.2 _ _ heq.1
  rw [heq.2] at hzero
  cases hzero

/-! ## Reference counting -/

/-- In every state of such a run, with `l` the peers in `peers_list`: the counter of a listed
peer is the number of references held by threads and lookups, and one more until its
`peer_handling` thread has dropped two; no counter is negative; a peer has been removed,
once, if and only if all its references have been dropped; nobody holds and no lookup finds
a removed peer; and `peers_n_clients` is the length of the list and within the maximum. -/
theorem references_balanced (h : Steps (step config) SafeStep .init s) :
    ∃ l, s.reg.peersList.IsList l ∧
      (∀ p ∈ l, (s.reg.peer p).refCount =
        s.holders p + if s.handler p = .done then (0 : Int) else 1) ∧
      (∀ p, p < s.reg.created → 0 ≤ (s.reg.peer p).refCount) ∧
      (∀ p, p < s.reg.created → s.reg.removals p = if p ∈ l then 0 else 1) ∧
      (∀ p, p < s.reg.created → (p ∉ l ↔ s.holders p = 0 ∧ s.handler p = .done)) ∧
      (∀ p, p ∉ l → s.holders p = 0 ∧ (∀ v, s.reg.findByVPN v ≠ some p) ∧
        ∀ e, s.reg.findByEndpoint e ≠ some p) ∧
      s.reg.peersNClients = l.length ∧ s.reg.peersNClients ≤ config.maxClients := by
  obtain ⟨l, hl⟩ := refInv_of_steps h
  refine ⟨l, hl.reg.list, fun p hp => ?_, fun p hp => ?_, fun p hp => ?_, fun p hp => ?_,
    fun p hp => ⟨?_, fun v hv => ?_, fun e he => ?_⟩, hl.reg.n_clients, hl.reg.max_clients⟩
  · rw [hl.counted.count p (hl.reg.lt_created p hp), State.refs]
    split <;> simp
  · rw [hl.counted.count p hp]
    exact Int.natCast_nonneg _
  · rw [hl.reg.removals p]
    by_cases hmem : p ∈ l <;> simp [hmem, hp]
  · rw [hl.counted.live p hp, State.refs]
    split <;> rename_i hdone <;> simp [hdone]
  · by_contra hne
    exact hp (hl.mem_of_holders (Nat.pos_of_ne_zero hne))
  · exact hp (hl.reg.mem_of_findByVPN hv).1
  · exact hp (hl.reg.mem_of_findByEndpoint he).1

/-- In `twoPeers` the counter of the peer 0 is 2, for its thread and for the list, and the
peer 1 is gone. -/
theorem references_balanced_twoPeers :
    ∃ s, Steps (step client100) SafeStep .init s ∧ (s.reg.peer 0).refCount = 2 ∧
      s.holders 0 = 1 ∧ s.reg.removals 1 = 1 ∧
      ∃ l, s.reg.peersList.IsList l ∧ s.reg.peersNClients = l.length := by
  have hrun : (runOk (step client100) SafeStep twoPeers .init).map
      (fun s => ((s.reg.peer 0).refCount, s.holders 0, s.reg.removals 1)) = some (2, 1, 1) := by
    decide +kernel
  obtain ⟨s, hs, heq⟩ := Option.map_eq_some_iff.mp hrun
  simp only [Prod.mk.injEq] at heq
  obtain ⟨hcount, hhold, hremoved⟩ := heq
  have hsteps := Steps.of_runOk .refl hs
  obtain ⟨l, hlist, -, -, -, -, -, hn, -⟩ := references_balanced hsteps
  exact ⟨s, hsteps, hcount, hhold, hremoved, l, hlist, hn⟩

end Client
end Campagnol
