import Campagnol.Client.Invariants
import Campagnol.Client.Locks

/-!
# The order of the mutexes of a client

Almost everywhere `peers_mutex` is locked before the mutex of a peer, and this before the mutex of
a reference counter. Only `peer_handling` calls `peers_register_endpoint`, which locks
`peers_mutex`, while it holds the mutex of its peer.

* `no_lock_cycle`: as long as these calls do not have to wait, no threads wait for each other in a
  circle.
-/

namespace Campagnol
namespace Client
namespace Locks

open Threads (Prog System Ordered)

/-! ## The order -/

/-- The order in which the mutexes are locked. -/
def rank : Mutex → ℕ
  | .peers => 0
  | .peer _ => 1
  | .ref _ => 2

/-- What a thread locks: the mutexes in their order, or `peers_mutex` in
`peers_register_endpoint`. -/
def Allowed (t : Thread) (held : List Mutex) (l : Mutex) : Prop :=
  Ordered rank recursive held l ∨ ∃ p, t = .peerHandling p ∧ held = [.peer p] ∧ l = .peers

section Programs
variable {t : Thread} {p : Ptr} {k : Code}

theorem allowed_nil (l : Mutex) : Allowed t [] l := .inl fun _ h => by cases h

theorem allowed_peers : Allowed t [.peers] .peers := by
  refine .inl fun l hl => .inr ?_
  rw [List.mem_singleton.mp hl]
  exact ⟨rfl, rfl⟩

theorem allowed_peer : Allowed t [.peers] (.peer p) := by
  refine .inl fun l hl => .inl ?_
  rw [List.mem_singleton.mp hl]
  exact Nat.zero_lt_one

theorem allowed_ref {l : Mutex} (hl : rank l < 2) : Allowed t [l] (.ref p) := by
  refine .inl fun l' hl' => .inl ?_
  rw [List.mem_singleton.mp hl']
  exact hl

theorem respects_done : (Prog.done : Code).Respects (Allowed t) [] := rfl

theorem respects_effect {held : List Mutex} {f : State → State} (hk : k.Respects (Allowed t) held) :
    (Prog.effect f k).Respects (Allowed t) held := hk

theorem respects_goto (pc : HandlerPc) : (goto p pc).Respects (Allowed t) [] := rfl

/-- The thread holds one mutex, and unlocks it. -/
theorem respects_unlock {l : Mutex} (hk : k.Respects (Allowed t) []) :
    (Prog.unlock l k).Respects (Allowed t) [l] := by
  refine ⟨List.mem_singleton_self l, ?_⟩
  rw [List.erase_cons_head]
  exact hk

theorem respects_peersIncrRef {held : List Mutex} (hk : k.Respects (Allowed t) held)
    (hl : Allowed t held (.ref p)) : (peersIncrRef p k).Respects (Allowed t) held := by
  refine ⟨hl, List.mem_cons_self, ?_⟩
  rw [List.erase_cons_head]
  exact hk

theorem respects_peersRemove (hk : k.Respects (Allowed t) [.peers]) :
    (peersRemove p k).Respects (Allowed t) [.peers] := by
  refine ⟨allowed_peers, List.mem_cons_self, ?_⟩
  rw [List.erase_cons_head]
  exact hk

theorem respects_peersDecrRef {n : ℕ} (hk : k.Respects (Allowed t) []) :
    (peersDecrRef p n k).Respects (Allowed t) [] := by
  refine ⟨allowed_nil _, allowed_ref Nat.zero_lt_two, fun s => ?_⟩
  dsimp only
  split
  · refine ⟨List.mem_cons_self, ?_⟩
    rw [List.erase_cons_head]
    exact respects_peersRemove (respects_unlock hk)
  · refine ⟨List.mem_cons_self, ?_⟩
    rw [List.erase_cons_head]
    exact respects_unlock hk

theorem respects_peersAdd {add : Registry → Option Ptr × Registry} {k : Option Ptr → Code}
    (hk : ∀ r, (k r).Respects (Allowed t) []) : (peersAdd add k).Respects (Allowed t) [] :=
  ⟨allowed_nil _, fun _ => respects_unlock (hk _)⟩

theorem respects_peersRegisterEndpoint {ok : Bool} {k : Bool → Code}
    (hk : ∀ r, (k r).Respects (Allowed (.peerHandling p)) [.peer p]) :
    (peersRegisterEndpoint ok p k).Respects (Allowed (.peerHandling p)) [.peer p] := by
  refine ⟨.inr ⟨p, rfl, rfl, rfl⟩, fun s => ?_⟩
  dsimp only
  split
  · refine ⟨List.mem_cons_self, ?_⟩
    rw [List.erase_cons_head]
    exact hk false
  · refine ⟨List.mem_cons_self, ?_⟩
    rw [List.erase_cons_head]
    exact hk true

theorem respects_peersGet {find : Registry → Option Ptr} {k : Option Ptr → Code}
    (hnone : (k none).Respects (Allowed t) [])
    (hsome : ∀ p, (k (some p)).Respects (Allowed t) [.peer p]) :
    (peersGet find k).Respects (Allowed t) [] := by
  refine ⟨allowed_nil _, fun s => ?_⟩
  dsimp only
  split
  · exact respects_unlock hnone
  · rename_i p _
    refine respects_peersIncrRef ⟨allowed_peer, ?_, ?_⟩ (allowed_ref Nat.zero_lt_two)
    · exact List.mem_cons_of_mem _ List.mem_cons_self
    · -- `peers_mutex` is unlocked before the mutex of the peer
      rw [show [Mutex.peer p, .peers].erase .peers = [.peer p] by simp]
      exact hsome p

theorem respects_startPeerHandling (hk : k.Respects (Allowed t) []) :
    (startPeerHandling p k).Respects (Allowed t) [] :=
  respects_peersIncrRef hk (allowed_nil _)

theorem respects_eachPeer (hk : k.Respects (Allowed t) [.peers]) (n : ℕ) (p : Option Ptr) :
    (eachPeer n p k).Respects (Allowed t) [.peers] := by
  induction n generalizing p with
  | zero => exact hk
  | succ n ih =>
    cases p with
    | none => exact hk
    | some p =>
      refine fun s => ⟨allowed_peer, List.mem_cons_self, ?_⟩
      rw [List.erase_cons_head]
      exact ih _

theorem respects_allPeers : allPeers.Respects (Allowed t) [] :=
  ⟨allowed_nil _, fun _ => respects_eachPeer (respects_unlock respects_done) _ _⟩

/-- The end of a section of a thread that looked the peer up. -/
theorem respects_unlock_decrRef {n : ℕ} :
    (Prog.unlock (.peer p) (peersDecrRef p n .done)).Respects (Allowed t) [.peer p] :=
  respects_unlock (respects_peersDecrRef respects_done)

theorem respects_commTun (config : Configuration) (dst : InAddr) (now : Int) (env : AddEnv) :
    (commTun config dst now env).Respects (Allowed t) [] := by
  unfold commTun
  split
  · exact respects_allPeers
  · split
    · rfl
    · refine respects_peersGet (respects_peersAdd fun r => ?_) fun p s => ?_
      · cases r with
        | none => rfl
        | some p => exact respects_startPeerHandling (respects_peersDecrRef respects_done)
      · dsimp only
        split
        · exact respects_unlock_decrRef
        · exact respects_unlock_decrRef

theorem respects_commSocket (src : SockaddrIn) (packet : SocketPacket) :
    (commSocket src packet).Respects (Allowed t) [] := by
  cases packet with
  | other => rfl
  | dtls =>
    rw [commSocket, peersGetByEndpoint]
    refine respects_peersGet ?_ fun p => ?_
    · exact respects_done
    · exact respects_unlock_decrRef
  | punch =>
    rw [commSocket, peersGetByEndpoint]
    refine respects_peersGet ?_ fun p => ?_
    · exact respects_done
    · exact respects_effect respects_unlock_decrRef

theorem respects_storeAnswer (find : Registry → Option Ptr) (f : Peer → Peer) :
    (peersGet find (storeAnswer f)).Respects (Allowed t) [] := by
  refine respects_peersGet respects_done fun p => ?_
  have hend : (Prog.pause (.effect (·.conditionSignal p) (peersDecrRef p 1 .done))).Respects
      (Allowed t) [] := respects_peersDecrRef respects_done
  exact respects_unlock hend

theorem respects_rdvHandling (config : Configuration) (msg : Message) (now : Int) (env : AddEnv) :
    (rdvHandling config msg now env).Respects (Allowed t) [] := by
  unfold rdvHandling
  split
  · exact respects_storeAnswer _ _
  · exact respects_storeAnswer _ _
  · refine respects_peersGet (respects_peersAdd fun r => ?_) fun p => respects_unlock_decrRef
    cases r with
    | none => rfl
    | some p => exact respects_startPeerHandling (respects_peersDecrRef respects_done)
  · rfl

theorem respects_close (hk : k.Respects (Allowed t) []) :
    (close p k).Respects (Allowed t) [.peer p] :=
  respects_unlock hk

theorem respects_underMutex {f : State → State} (hk : k.Respects (Allowed t) []) :
    (underMutex p f k).Respects (Allowed t) [] :=
  ⟨allowed_nil _, respects_unlock hk⟩

theorem respects_handlerTop (config : Configuration) (p : Ptr) :
    (handlerTop config p).Respects (Allowed t) [] := by
  have hgoto : ∀ pc, (Prog.unlock (.peer p) (goto p pc)).Respects (Allowed t) [.peer p] :=
    fun pc => respects_unlock (respects_goto pc)
  refine ⟨allowed_nil _, fun s => ?_⟩
  dsimp only
  split
  · split
    · exact respects_close respects_done
    · exact hgoto _
  · split
    · exact respects_close respects_done
    · exact respects_peersIncrRef (hgoto _) (allowed_ref Nat.one_lt_two)
  · split
    · exact respects_close respects_done
    · exact hgoto _
  · exact hgoto _
  · exact hgoto _

theorem respects_handlerAnswer (p : Ptr) (timedOut ok : Bool) :
    (handlerAnswer p timedOut ok).Respects (Allowed (.peerHandling p)) [] := by
  refine ⟨allowed_nil _, fun s => ?_⟩
  dsimp only
  split
  · exact respects_close (respects_goto _)
  · refine respects_peersRegisterEndpoint fun r => ?_
    cases r with
    | false => exact respects_close (respects_goto _)
    | true => exact respects_unlock (respects_goto _)

theorem respects_handlerPunched (config : Configuration) (p : Ptr) (timedOut : Bool) :
    (handlerPunched config p timedOut).Respects (Allowed t) [] := by
  refine ⟨allowed_nil _, fun s => ?_⟩
  dsimp only
  split
  · exact respects_close (respects_effect (respects_goto _))
  · split
    · exact respects_close (respects_goto _)
    · exact respects_unlock (respects_goto _)

theorem respects_handlerHandshake (config : Configuration) (p : Ptr) (now : Int) (ok : Bool) :
    (handlerHandshake config p now ok).Respects (Allowed t) [] := by
  unfold handlerHandshake
  split
  · exact respects_underMutex (respects_goto _)
  · exact fun s => respects_underMutex (respects_goto _)

theorem respects_handlerRead (config : Configuration) (p : Ptr) (now lastTime : Int)
    (read : ReadResult) : (handlerRead config p now lastTime read).Respects (Allowed t) [] := by
  unfold handlerRead
  split
  · rfl
  · exact respects_underMutex respects_done

theorem respects_peerHandling {config : Configuration} {now : Int} {ok : Bool} {read : ReadResult}
    {pc : HandlerPc} {code : Code} (h : peerHandling config p now ok read pc = some code) :
    code.Respects (Allowed (.peerHandling p)) [] := by
  unfold peerHandling at h
  split at h <;> cases h
  · exact respects_handlerTop config p
  · exact respects_handlerAnswer p false ok
  · exact respects_handlerAnswer p true ok
  · exact respects_handlerPunched config p false
  · exact respects_handlerPunched config p true
  · exact respects_handlerHandshake config p now ok
  · exact respects_peersIncrRef (respects_effect (respects_goto _)) (allowed_nil _)
  · exact respects_handlerRead config p now _ read
  · exact respects_peersDecrRef (respects_goto _)

theorem respects_punch (config : Configuration) (p : Ptr) (n : ℕ) :
    (punch config p n).Respects (Allowed t) [] := by
  induction n with
  | zero => exact respects_peersDecrRef respects_done
  | succ n ih =>
    refine ⟨allowed_nil _, fun s => ?_⟩
    dsimp only
    split
    · exact respects_unlock_decrRef
    · exact respects_unlock ih

end Programs

/-! ## Runs -/

section Runs
variable {config : Configuration} {sys sys' : ClientThreads} {a : Act}

/-- What a step does to the threads: it changes the data, begins a program, or makes a call. -/
inductive Moves (sys : ClientThreads) : Act → ClientThreads → Prop where
  | data {a : Act} (s : State) : Moves sys a { sys with data := s }
  | start {a : Act} {t : Thread} {code : Code} {sys' : ClientThreads}
      (hcode : code.Respects (Allowed t) []) (hs : sys.start t code = some sys') : Moves sys a sys'
  | call (t : Thread) {sys' : ClientThreads} (hs : sys.run recursive t = some sys') :
      Moves sys (.call t) sys'

theorem moves_of_wake {p : Ptr} {w : Wait} (hs : wake sys p w = some sys') :
    Moves sys a sys' := by
  obtain ⟨s, -, rfl⟩ := Option.map_eq_some_iff.mp hs
  exact .data s

theorem moves_of_step (hs : step config sys a = some sys') : Moves sys a sys' := by
  cases a with
  | tunPacket dst now env =>
    simp only [step] at hs
    split at hs
    · cases hs
    · exact .start (respects_commTun config dst now env) hs
  | endPeers =>
    simp only [step] at hs
    split at hs
    · exact .start respects_allPeers hs
    · cases hs
  | socketPacket src packet =>
    simp only [step] at hs
    split at hs
    · cases hs
    · exact .start (respects_commSocket src packet) hs
  | rdvMessage msg now env =>
    simp only [step] at hs
    split at hs
    · cases hs
    · exact .start (respects_rdvHandling config msg now env) hs
  | handle p now ok read =>
    obtain ⟨code, hcode, hs⟩ := Option.bind_eq_some_iff.mp hs
    exact .start (respects_peerHandling hcode) hs
  | punch p =>
    simp only [step] at hs
    split at hs
    · cases hs
    · exact .start (respects_effect (respects_punch config p _)) hs
  | writingEnd p =>
    simp only [step] at hs
    split at hs
    · cases hs
    · exact .start (respects_effect (respects_peersDecrRef respects_done)) hs
  | call t => exact .call t hs
  | timeout p => exact moves_of_wake hs
  | spurious p => exact moves_of_wake hs
  | endCampagnol =>
    cases hs
    exact .data _

/-- When `peer_handling` calls `peers_register_endpoint`, which locks `peers_mutex` under the mutex
of the peer, no other thread holds `peers_mutex`. -/
def RegistersFreely (sys : ClientThreads) : Act → Prop
  | .call (.peerHandling p) => (sys.prog (.peerHandling p)).wants = some .peers →
      .peer p ∈ sys.held (.peerHandling p) → sys.owner .peers = none
  | _ => True

instance (sys : ClientThreads) : DecidablePred (RegistersFreely sys)
  | .call (.peerHandling _) => inferInstanceAs (Decidable (_ → _ → _))
  | .call .commTun | .call .commSocket | .call .rdvHandling | .call (.punch _)
  | .call (.sslWriting _) | .tunPacket _ _ _ | .endPeers | .socketPacket _ _ | .rdvMessage _ _ _
  | .handle _ _ _ _ | .punch _ | .writingEnd _ | .timeout _ | .spurious _ | .endCampagnol =>
    inferInstanceAs (Decidable True)

theorem sound_of_moves (h : sys.Sound Allowed) (hm : Moves sys a sys') : sys'.Sound Allowed := by
  cases hm with
  | data s => exact h.data _
  | start hcode hs => exact h.start hcode hs
  | call t hs => exact h.run hs

theorem ranked_of_moves (h : sys.Ranked rank) (hsound : sys.Sound Allowed)
    (ha : RegistersFreely sys a) (hm : Moves sys a sys') : sys'.Ranked rank := by
  cases hm with
  | data s => exact h
  | start hcode hs => exact h.start hs
  | call t hs =>
    refine h.run hsound ?_ hs
    intro l k hpc
    have hr := hsound.respects t
    rw [hpc] at hr
    rcases hr.1 with hordered | ⟨p, rfl, hheld, rfl⟩
    · exact .inl hordered
    · -- `peers_register_endpoint` gets the mutex at once
      have hfree : sys.owner .peers = none := by
        refine ha (by rw [hpc]; rfl) ?_
        rw [hheld]
        exact List.mem_cons_self
      refine .inr ?_
      simp only [System.available, hfree]

/-- In every run in which `peers_register_endpoint` does not have to wait for `peers_mutex`, there
is no circle of threads each waiting for a mutex held by the next. -/
theorem no_lock_cycle (h : Steps (step config) RegistersFreely init sys) (t : Thread) :
    ¬ Relation.TransGen (sys.WaitsFor recursive) t t := by
  have hinv : sys.Sound Allowed ∧ sys.Ranked rank := by
    refine Steps.invariant (P := fun sys => sys.Sound Allowed ∧ sys.Ranked rank) h
      ⟨Threads.sound_init _, Threads.ranked_init _⟩ ?_
    intro sys a sys' hsys ha hs
    have hm := moves_of_step hs
    exact ⟨sound_of_moves hsys.1 hm, ranked_of_moves hsys.2 hsys.1 ha hm⟩
  exact hinv.2.no_cycle hinv.1 t

/-- A thread sleeps in a call of `lock`. -/
theorem waitsFor_of_wants {t u : Thread} {l : Mutex} (hwants : (sys.prog t).wants = some l)
    (hblocked : sys.blocked t = true) (howner : sys.owner l = some u) (hne : u ≠ t) :
    sys.WaitsFor recursive t u := by
  cases hpc : sys.prog t with
  | lock l' k =>
    rw [hpc] at hwants
    cases hwants
    exact ⟨l, k, hpc, hblocked, by simp [System.available, howner, hne], howner⟩
  | _ =>
    rw [hpc] at hwants
    cases hwants

end Runs

/-- The next `n` calls of the thread `t`. -/
def calls (t : Thread) (n : ℕ) : List Act := List.replicate n (.call t)

/-- A packet creates the peer 0, its thread asks for a connection, and the answer comes. The thread
has then locked the peer again. -/
def answered : List Act :=
  [.tunPacket 101 0 allocOk] ++ calls .commTun 10 ++
    [.handle 0 0 true .again] ++ calls (.peerHandling 0) 2 ++
    [.rdvMessage ⟨.ansConnection, 7, 10, 101⟩ 0 allocOk] ++ calls .rdvHandling 11 ++
    [.handle 0 0 true .again] ++ calls (.peerHandling 0) 1

/-- `comm_tun` takes `peers_mutex` for another packet to the peer 0, and waits for its mutex. -/
def secondPacket : List Act := [.tunPacket 101 0 allocOk] ++ calls .commTun 4

/-- The endpoint is registered before `comm_tun` looks the peer up. -/
theorem no_lock_cycle_registered :
    ∃ sys, Steps (step client100) RegistersFreely init sys ∧
      sys.WaitsFor recursive .commTun (.peerHandling 0) ∧
      ∀ t, ¬ Relation.TransGen (sys.WaitsFor recursive) t t := by
  have hrun : (runOk (step client100) RegistersFreely
      (answered ++ calls (.peerHandling 0) 2 ++ secondPacket) init).map (fun sys =>
        ((sys.prog .commTun).wants, sys.blocked .commTun, sys.owner (.peer 0))) =
          some (some (.peer 0), true, some (.peerHandling 0)) := by decide +kernel
  obtain ⟨sys, hsys, heq⟩ := Option.map_eq_some_iff.mp hrun
  simp only [Prod.mk.injEq] at heq
  obtain ⟨hwants, hblocked, howner⟩ := heq
  have hsteps := Steps.of_runOk .refl hsys
  exact ⟨sys, hsteps, waitsFor_of_wants hwants hblocked howner (by simp), no_lock_cycle hsteps⟩

/-- `comm_tun` looks the peer up before its thread calls `peers_register_endpoint`: `comm_tun` holds
`peers_mutex` and waits for the mutex of the peer, and the thread holds that and waits for
`peers_mutex`. -/
theorem lock_cycle_at_registration :
    ∃ sys, Steps (step client100) (fun _ _ => True) init sys ∧
      sys.WaitsFor recursive .commTun (.peerHandling 0) ∧
      sys.WaitsFor recursive (.peerHandling 0) .commTun ∧
      Relation.TransGen (sys.WaitsFor recursive) .commTun .commTun := by
  have hrun : (run (step client100) (answered ++ secondPacket ++ calls (.peerHandling 0) 1)
      init).map (fun sys =>
        ([.commTun, .peerHandling 0].map fun t => ((sys.prog t).wants, sys.blocked t),
          [.peer 0, .peers].map sys.owner)) =
        some ([(some (.peer 0), true), (some .peers, true)],
          [some (.peerHandling 0), some .commTun]) := by decide +kernel
  obtain ⟨sys, hsys, heq⟩ := Option.map_eq_some_iff.mp hrun
  simp only [List.map_cons, List.map_nil, Prod.mk.injEq, List.cons.injEq, and_true] at heq
  obtain ⟨⟨⟨htun, htunBlocked⟩, hhandler, hhandlerBlocked⟩, hpeer, hpeers⟩ := heq
  have h₁ : sys.WaitsFor recursive .commTun (.peerHandling 0) :=
    waitsFor_of_wants htun htunBlocked hpeer (by simp)
  have h₂ : sys.WaitsFor recursive (.peerHandling 0) .commTun :=
    waitsFor_of_wants hhandler hhandlerBlocked hpeers (by simp)
  exact ⟨sys, Steps.of_run .refl hsys, h₁, h₂, .tail (.single h₁) h₂⟩

end Locks
end Client
end Campagnol
