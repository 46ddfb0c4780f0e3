import Campagnol.Client.Invariants
import Campagnol.Client.Mutex

/-!
# The punch of the other peer

The waits for the answer of the RDV server and for a punch are on one condition, and they do not
test what has woken them up. A peer in the state PUNCHING gets to LINKED with a punch, or with an
answer of the RDV server that comes late.
-/

namespace Campagnol
namespace Client

open SearchTree

/-- The recorded step receives a punch from the registered endpoint of the peer `p` in the state
`st`. -/
def PunchFor (p : Ptr) (st : ClientType) (e : State × Act) : Prop :=
  ∃ src, e.2 = .socketPacket src .punch ∧ e.1.reg.findByEndpoint src = some p ∧
    (e.1.reg.peer p).clientaddr = src ∧ (e.1.reg.peer p).state = st

/-- The steps in which something is heard. -/
inductive HeardBy (s : State) : Act → Heard → Prop where
  | nothing (a : Act) : HeardBy s a .nothing
  | answer (msg : Message) (p : Ptr) : HeardBy s (.rdvMessage msg) (.answer p msg)
  | punch (src : SockaddrIn) (p : Ptr) : HeardBy s (.socketPacket src .punch) (.punch p src)
  | signal (now : Int) (env : AddEnv) (p : Ptr) (hpc : s.rdv = .signal p) :
      HeardBy s (.rdvStep now env) (.signal p)

theorem heardBy (s : State) (a : Act) : HeardBy s a (heard s a) := by
  cases a with
  | rdvMessage msg =>
    simp only [heard]
    split
    · cases s.reg.findByVPN msg.ip1 with
      | none => exact .nothing _
      | some p => exact .answer msg p
    · cases s.reg.findByVPN msg.ip2 with
      | none => exact .nothing _
      | some p => exact .answer msg p
    · exact .nothing _
  | socketPacket src packet =>
    cases packet with
    | punch =>
      simp only [heard]
      cases s.reg.findByEndpoint src with
      | none => exact .nothing _
      | some p => exact .punch src p
    | _ => exact .nothing _
  | rdvStep now env =>
    simp only [heard]
    cases hpc : s.rdv with
    | signal p => exact .signal now env p hpc
    | _ => exact .nothing _
  | _ => exact .nothing _

/-- The signal of `rdv_handling` does not reach a `peer_handling` thread that waits for a punch. -/
def RdvPc.OnTime (handler : Ptr → HandlerPc) : RdvPc → Prop
  | .signal p => handler p ≠ .waitPunch .asleep
  | _ => True

/-- A step that is no spurious wake-up, and does not pass on an answer to a thread that waits for
a punch. -/
def OnTime (s : State) : Act → Prop
  | .rdvStep _ _ => s.rdv.OnTime s.handler
  | a => NotSpurious a

instance (handler : Ptr → HandlerPc) : DecidablePred (RdvPc.OnTime handler)
  | .signal p => inferInstanceAs (Decidable (handler p ≠ .waitPunch .asleep))
  | .idle | .rej _ | .ans _ _ | .fwdMissed _ _ | .created _ | .fwdFound _ | .release _ =>
    inferInstanceAs (Decidable True)

instance (s : State) : DecidablePred (OnTime s)
  | .rdvStep _ _ => inferInstanceAs (Decidable (s.rdv.OnTime s.handler))
  | .handlerSpurious _ => inferInstanceAs (Decidable False)
  | .tunPacket _ | .tunStep _ _ | .socketPacket _ _ | .socketStep | .rdvMessage _
  | .handlerStep _ _ _ _ | .handlerTimeout _ | .punchStep _ _ | .writingEnd _ | .endCampagnol =>
    inferInstanceAs (Decidable True)

/-- A thread that `comm_socket` is about to wake up, or has woken up, has its punch. -/
structure Punched (tr : List (State × Act)) (s : State) : Prop where
  found : ∀ p, s.socket.tells = .foundPunch p → ∃ e ∈ tr, PunchFor p (s.reg.view p).state e
  woken : ∀ p, s.handler p = .waitPunch .signalled → ∃ e ∈ tr, PunchFor p .punching e

section Punched
variable {config : Configuration} {s s' : State} {tr : List (State × Act)} {a : Act} {p : Ptr}
  {o : Heard}

theorem OnTime.notSpurious (h : OnTime s a) : NotSpurious a := by
  cases a with
  | rdvStep now env => trivial
  | _ => exact h

/-- A step that wakes up nobody who waits for a punch. -/
theorem Punched.keep (h : Punched tr s) (hl : Locked s) (he : Effect s o s')
    (hsocket : s'.socket.tells = s.socket.tells ∨ s'.socket.tells = .idle)
    (hwoken : ∀ q, s'.handler q = .waitPunch .signalled → s.handler q = .waitPunch .signalled ∨
      ∃ e ∈ tr, PunchFor q .punching e) :
    Punched tr s' where
  found := fun q hq => by
    rcases hsocket with hsame | hidle
    · rw [hsame] at hq
      rw [hl.state_eq he (lockers_of_punch hq)]
      exact h.found q hq
    · rw [hidle] at hq
      cases hq
  woken := fun q hq => (hwoken q hq).elim (h.woken q) id

theorem Punched.mono (h : Punched tr s) (e : State × Act) : Punched (tr ++ [e]) s where
  found := fun q hq => (h.found q hq).imp fun _ he => ⟨List.mem_append_left _ he.1, he.2⟩
  woken := fun q hq => (h.woken q hq).imp fun _ he => ⟨List.mem_append_left _ he.1, he.2⟩

/-- The signal of `rdv_handling` comes too early or too late for a wait for a punch. -/
theorem OnTime.not_asleep (h : OnTime s a) (ho : heard s a = .signal p) :
    s.handler p ≠ .waitPunch .asleep := by
  have hby := heardBy s a
  rw [ho] at hby
  cases hby with
  | signal now env p hpc =>
    simp only [OnTime, hpc] at h
    exact h

theorem Punched.effect (h : Punched tr s) (hl : Locked s) (hp : Phased s) (hok : OnTime s a)
    (he : Effect s (heard s a) s') : Punched (tr ++ [(s, a)]) s' := by
  generalize ho : heard s a = o at he
  have hkeep := fun hsocket hwoken => (h.keep hl he hsocket hwoken).mono (s, a)
  cases he with
  | quiet hreg _ hsocket hrdv hhandler =>
    refine hkeep (.inl hsocket) fun q hq => .inl ?_
    rw [← hhandler q (hq ▸ trivial)]
    exact hq
  | opened state e v hreg hnew _ hsocket hrdv hhandler =>
    exact hkeep (.inl hsocket) fun q hq => .inl (hhandler ▸ hq)
  | takes p ht hsocket hrdv => exact hkeep (.inl hsocket) fun q hq => .inl (ht.handler ▸ hq)
  | leaves p hv hsocket hrdv hhandler =>
    refine hkeep (.inl hsocket) fun q hq => .inl ?_
    rw [← hhandler q (hq ▸ trivial)]
    exact hq
  | handles p v hs hsocket hrdv =>
    refine hkeep (.inl hsocket) fun q hq => .inl ?_
    rw [← hs.handler q (hq ▸ trivial)]
    exact hq
  | hearsPunch p src ht hfound hsocket hrdv =>
    refine ⟨fun q hq => ⟨(s, a), List.mem_append_right _ (List.mem_singleton_self _), ?_⟩,
      fun q hq => (h.mono (s, a)).woken q (ht.handler ▸ hq)⟩
    rw [hsocket] at hq
    cases hq
    have hstate : (s'.reg.view p).state = (s.reg.view p).state :=
      ht.reg.view_field View.state rfl p
    have hby := heardBy s a
    rw [ho] at hby
    cases hby
    exact ⟨src, rfl, hfound, (mem_of_tfind hfound).2, hstate.symm⟩
  | passesPunch p hpc hv hsocket hrdv hhandler =>
    refine hkeep (.inr hsocket) fun q hq => ?_
    rw [hhandler] at hq
    rcases handler_conditionSignal s p q with hsame | ⟨rfl, ⟨-, hwoken⟩ | ⟨hasleep, -⟩⟩
    · exact .inl (hsame ▸ hq)
    · cases hwoken.symm.trans hq
    -- the thread waits in the state PUNCHING, and its mutex has been held since the lookup
    · have hagrees := hp.agrees q
      rw [hasleep] at hagrees
      have hpunch := h.found q (by rw [hpc]; rfl)
      rw [show (s.reg.view q).state = .punching from hagrees] at hpunch
      exact .inr hpunch
  | hearsAnswer p msg ht hpc hsocket hrdv =>
    exact hkeep (.inl (by rw [hsocket])) fun q hq => .inl (ht.handler ▸ hq)
  | storesAnswer p v hv hrdv hrdv' hsocket hhandler =>
    exact hkeep (.inl (by rw [hsocket])) fun q hq => .inl (hhandler ▸ hq)
  | passesAnswer p hpc hreg _ hsocket hrdv hhandler =>
    refine hkeep (.inl (by rw [hsocket])) fun q hq => .inl ?_
    rw [hhandler] at hq
    rcases handler_conditionSignal s p q with hsame | ⟨rfl, ⟨-, hwoken⟩ | ⟨hasleep, -⟩⟩
    · rwa [hsame] at hq
    · cases hwoken.symm.trans hq
    · exact absurd hasleep (hok.not_asleep ho)

theorem punched_of_steps
    (h : Steps (recorded (step config)) (fun s => OnTime s.1) (.init, []) (s, tr)) :
    Sound s ∧ Punched tr s := by
  refine Steps.recorded_invariant (P := fun s tr => Sound s ∧ Punched tr s) h
    ⟨sound_init, ⟨(fun _ hp => by cases hp), (fun _ hp => by cases hp)⟩⟩ ?_
  intro t tr a u ht hok hu
  obtain ⟨hsound, hpunched⟩ := ht
  have heffect := effect_of_step (OnTime.notSpurious hok) hu
  exact ⟨hsound.step (OnTime.notSpurious hok) hu,
    hpunched.effect hsound.locked hsound.phased hok heffect⟩

/-- As long as no answer of the RDV server is passed on to a thread that waits for a punch, a peer
moves from PUNCHING to LINKED only after a punch from its registered endpoint, received while it
was in PUNCHING. -/
theorem linked_after_punch
    (h : Steps (recorded (step config)) (fun s => OnTime s.1) (.init, []) (s, tr))
    (ha : NotSpurious a) (hs : step config s a = some s') (hp : p < s.reg.created)
    (hpunching : (s.reg.peer p).state = .punching) (hlinked : (s'.reg.peer p).state = .linked) :
    ∃ e ∈ tr, PunchFor p .punching e := by
  obtain ⟨hsound, hpunched⟩ := punched_of_steps h
  have hpunching' : (s.reg.view p).state = .punching := hpunching
  have hlinked' : (s'.reg.view p).state = .linked := hlinked
  rcases (effect_of_step ha hs).state_cases hp with hsame | hsection
  · rw [hsame, hpunching'] at hlinked'
    cases hlinked'
  · rcases hsection.linked hlinked' with hold | hwoken
    · rw [hpunching'] at hold
      cases hold
    · exact hpunched.woken p hwoken

/-- The peer 0 is registered at 10 and waits for a punch. -/
def punchingAt10 : List Act :=
  request 101 0 ++ answer 101 ⟨10, 7⟩ ++ [.handlerStep 0 0 true .again,
    .handlerStep 0 0 true .again, .handlerStep 0 0 true .again]

theorem linked_after_punch_received :
    ∃ s tr s', Steps (recorded (step client100)) (fun s => OnTime s.1) (.init, []) (s, tr) ∧
      step client100 s (.handlerStep 0 0 true .again) = some s' ∧
      (s.reg.peer 0).state = .punching ∧ (s'.reg.peer 0).state = .linked ∧
      ∃ e ∈ tr, PunchFor 0 .punching e := by
  have hrun : ((runOk (recorded (step client100)) (fun s => OnTime s.1)
      (punchingAt10 ++ [.socketPacket ⟨10, 7⟩ .punch, .socketStep]) (.init, [])).bind
      fun s => (step client100 s.1 (.handlerStep 0 0 true .again)).map fun s' =>
        (s.1.reg.created, (s.1.reg.peer 0).state, (s'.reg.peer 0).state)) =
          some (1, .punching, .linked) := by decide +kernel
  obtain ⟨⟨s, tr⟩, hs, hrun⟩ := Option.bind_eq_some_iff.mp hrun
  obtain ⟨s', hs', heq⟩ := Option.map_eq_some_iff.mp hrun
  simp only [Prod.mk.injEq] at heq
  obtain ⟨hcreated, hpunching, hlinked⟩ := heq
  have hsteps := Steps.of_runOk .refl hs
  exact ⟨s, tr, s', hsteps, hs', hpunching, hlinked, linked_after_punch
    (a := .handlerStep 0 0 true .again) hsteps trivial hs' (hcreated ▸ Nat.zero_lt_one) hpunching
    hlinked⟩

/-- The step receives a packet from another endpoint than the RDV server. -/
def receives : Act → Bool
  | .socketPacket _ _ => true
  | _ => false

/-- The RDV server sends its answer twice, and the second one arrives while the thread waits for a
punch: the peer gets to LINKED without a packet from anybody. -/
theorem linked_without_punch :
    ∃ s tr s', Steps (recorded (step client100)) (fun _ => NotSpurious) (.init, []) (s, tr) ∧
      step client100 s (.handlerStep 0 0 true .again) = some s' ∧
      (s.reg.peer 0).state = .punching ∧ (s'.reg.peer 0).state = .linked ∧
      ¬ ∃ e ∈ tr, PunchFor 0 .punching e := by
  have hrun : ((runOk (recorded (step client100)) (fun _ => NotSpurious)
      (punchingAt10 ++ answer 101 ⟨10, 7⟩) (.init, [])).bind
      fun s => (step client100 s.1 (.handlerStep 0 0 true .again)).map fun s' =>
        (s.2.any fun e => receives e.2, (s.1.reg.peer 0).state, (s'.reg.peer 0).state)) =
          some (false, .punching, .linked) := by decide +kernel
  obtain ⟨⟨s, tr⟩, hs, hrun⟩ := Option.bind_eq_some_iff.mp hrun
  obtain ⟨s', hs', heq⟩ := Option.map_eq_some_iff.mp hrun
  simp only [Prod.mk.injEq] at heq
  obtain ⟨hnone, hpunching, hlinked⟩ := heq
  refine ⟨s, tr, s', Steps.of_runOk .refl hs, hs', hpunching, hlinked, ?_⟩
  rintro ⟨e, he, src, hact, -⟩
  have hreceives := List.any_eq_false.mp hnone e he
  rw [hact] at hreceives
  exact hreceives rfl

end Punched

end Client
end Campagnol
