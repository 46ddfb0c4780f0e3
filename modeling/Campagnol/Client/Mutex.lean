import Campagnol.Client.Sections

/-!
# The mutexes of the peers

At most one thread holds the mutex of a peer (`Locked`), and the state of a peer changes only in
the sections of its `peer_handling` thread (`Effect.state_cases`).
-/

namespace Campagnol
namespace Client

section Mutex
variable {s s' : State} {p : Ptr}

/-! ## At most one thread holds a mutex -/

/-- At most one thread holds the mutex of a peer, and then it is locked. The trees hold created
peers only, and no other peer is locked. -/
structure Locked (s : State) : Prop where
  lockers : ∀ p, s.lockers p ≤ if (s.reg.view p).mutex = true then 1 else 0
  unborn : ∀ p, s.reg.created ≤ p → (s.reg.view p).mutex = false
  addr_lt : ∀ p ∈ s.reg.clientsAddressRoot, p < s.reg.created
  vpn_lt : ∀ p ∈ s.reg.clientsVpnRoot, p < s.reg.created

theorem locked_init : Locked .init where
  lockers := fun _ => Nat.le_refl _
  unborn := fun _ _ => rfl
  addr_lt := fun _ hp => hp.elim
  vpn_lt := fun _ hp => hp.elim

/-- `comm_socket` holds the mutex of a peer that it is about to signal. -/
theorem lockers_of_punch (h : s.socket.tells = .foundPunch p) : 0 < s.lockers p := by
  have hlocked : s.socket.locked = some p := by
    cases hpc : s.socket with
    | foundPunch q =>
      rw [hpc] at h
      cases h
      rfl
    | _ => rw [hpc] at h; cases h
  simp only [State.lockers, hlocked, refCell_some, if_true]
  omega

/-- The mutex of a peer that is held is locked. -/
theorem Locked.mutex (h : Locked s) (hp : 0 < s.lockers p) : (s.reg.view p).mutex = true := by
  by_contra hfree
  have hle := h.lockers p
  rw [if_neg hfree] at hle
  omega

theorem Locked.known (h : Locked s)
    (hp : p ∈ s.reg.clientsVpnRoot ∨ p ∈ s.reg.clientsAddressRoot) : p < s.reg.created := by
  rcases hp with hp | hp
  · exact h.vpn_lt p hp
  · exact h.addr_lt p hp

/-- The protected fields of a created peer `p` change. -/
theorem Locked.writes (h : Locked s) {v : View} (hreg : s.reg.Writes s'.reg p v)
    (hp : p < s.reg.created)
    (hother : ∀ q, q ≠ p → s'.lockers q ≤ s.lockers q)
    (hself : s'.lockers p ≤ if v.mutex = true then 1 else 0) : Locked s' where
  lockers := fun q => by
    rw [hreg.view]
    by_cases hqp : q = p
    · subst hqp
      rw [Function.update_self]
      exact hself
    · rw [Function.update_of_ne hqp]
      exact Nat.le_trans (hother q hqp) (h.lockers q)
  unborn := fun q hq => by
    rw [hreg.created] at hq
    have hqp : q ≠ p := Nat.ne_of_gt (Nat.lt_of_lt_of_le hp hq)
    rw [hreg.view, Function.update_of_ne hqp]
    exact h.unborn q hq
  addr_lt := fun q hq => by
    rw [hreg.created]
    rcases hreg.addr q hq with hq | ⟨rfl, -⟩
    · exact h.addr_lt q hq
    · exact hp
  vpn_lt := fun q hq => by
    rw [hreg.created]
    exact h.vpn_lt q (hreg.vpn ▸ hq)

theorem Locked.takes (h : Locked s) (ht : Takes s s' p) : Locked s' := by
  refine h.writes ht.reg (h.known ht.known) (fun q hqp => ?_) ?_
  · simpa [hqp] using ht.lockers q
  · have hzero := h.lockers p
    rw [ht.free, if_neg (by simp)] at hzero
    have hle := ht.lockers p
    rw [if_pos rfl] at hle ⊢
    omega

theorem Locked.leaves (h : Locked s) {v : View} (hl : Leaves s s' p v) : Locked s' := by
  have hpos := hl.lockers p
  rw [if_pos rfl] at hpos
  have hp : p < s.reg.created := by
    by_contra hge
    have hmutex := h.mutex (p := p) (by omega)
    rw [h.unborn p (Nat.le_of_not_lt hge)] at hmutex
    cases hmutex
  refine h.writes hl.reg hp (fun q hqp => ?_) ?_
  · simpa [hqp] using hl.lockers q
  · have hone := h.lockers p
    rw [h.mutex (by omega), if_pos rfl] at hone
    omega

theorem Locked.handles (h : Locked s) (hborn : Phased s) {v : View} (hs : Section s s' p v) :
    Locked s' := by
  refine h.writes hs.reg (hborn.born p (inUse_of_running hs.running)) (fun q hqp => ?_) ?_
  · simpa [hqp] using hs.lockers q
  · have hzero := h.lockers p
    rw [hs.free, if_neg (by simp)] at hzero
    have hle := hs.lockers p
    simp only [true_and] at hle
    omega

theorem Locked.shrinks (h : Locked s) (hreg : s.reg.Shrinks s'.reg)
    (hlockers : ∀ q, s'.lockers q ≤ s.lockers q) : Locked s' where
  lockers := fun q => by
    rw [hreg.view]
    exact Nat.le_trans (hlockers q) (h.lockers q)
  unborn := fun q hq => by
    rw [hreg.view]
    exact h.unborn q (hreg.created ▸ hq)
  addr_lt := fun q hq => hreg.created ▸ h.addr_lt q (hreg.addr q hq)
  vpn_lt := fun q hq => hreg.created ▸ h.vpn_lt q (hreg.vpn q hq)

theorem Locked.opened (h : Locked s) {state : ClientType} {e : SockaddrIn} {v : InAddr}
    (hreg : s.reg.Opens s'.reg state e v) (hlockers : ∀ q, s'.lockers q ≤ s.lockers q) :
    Locked s' := by
  obtain ⟨answer, hview⟩ := hreg.view
  refine ⟨fun q => ?_, fun q hq => ?_, fun q hq => ?_, fun q hq => ?_⟩
  · rw [hview]
    by_cases hqp : q = s.reg.created
    · subst hqp
      rw [Function.update_self]
      have hzero := h.lockers s.reg.created
      rw [h.unborn _ (Nat.le_refl _)] at hzero
      exact Nat.le_trans (hlockers _) hzero
    · rw [Function.update_of_ne hqp]
      exact Nat.le_trans (hlockers q) (h.lockers q)
  · have hlt : s.reg.created + 1 ≤ q := hreg.created ▸ hq
    rw [hview, Function.update_of_ne (Nat.ne_of_gt hlt)]
    exact h.unborn q (Nat.le_of_lt hlt)
  · rw [hreg.created]
    rcases hreg.addr q hq with hq | ⟨rfl, -⟩
    · exact Nat.lt_succ_of_lt (h.addr_lt q hq)
    · exact Nat.lt_succ_self _
  · rw [hreg.created]
    rcases hreg.vpn q hq with hq | rfl
    · exact Nat.lt_succ_of_lt (h.vpn_lt q hq)
    · exact Nat.lt_succ_self _

theorem Locked.effect {o : Heard} (h : Locked s) (hborn : Phased s) (he : Effect s o s') :
    Locked s' := by
  cases he with
  | quiet hreg hlockers => exact h.shrinks hreg hlockers
  | opened state e v hreg _ hlockers => exact h.opened hreg hlockers
  | takes p ht => exact h.takes ht
  | leaves p hl => exact h.leaves hl
  | handles p v hs => exact h.handles hborn hs
  | hearsPunch p src ht => exact h.takes ht
  | passesPunch p hpc hl => exact h.leaves hl
  | hearsAnswer p msg ht => exact h.takes ht
  | storesAnswer p v hl => exact h.leaves hl
  | passesAnswer p hpc hreg hlockers =>
    exact h.shrinks (hreg ▸ shrinks_refl _) hlockers

end Mutex

/-! ## Signals -/

/-- A signal wakes up the thread of `p`, from the wait it is in. -/
theorem handler_conditionSignal (s : State) (p q : Ptr) :
    (s.conditionSignal p).handler q = s.handler q ∨ q = p ∧
      ((s.handler q = .waitAnswer .asleep ∧
          (s.conditionSignal p).handler q = .waitAnswer .signalled) ∨
        s.handler q = .waitPunch .asleep ∧
          (s.conditionSignal p).handler q = .waitPunch .signalled) := by
  by_cases hqp : q = p
  · subst hqp
    cases hpc : s.handler q with
    | waitAnswer w =>
      cases w with
      | asleep => exact .inr ⟨rfl, .inl ⟨rfl, by simp [State.conditionSignal, hpc, State.goto]⟩⟩
      | _ => simp [State.conditionSignal, hpc]
    | waitPunch w =>
      cases w with
      | asleep => exact .inr ⟨rfl, .inr ⟨rfl, by simp [State.conditionSignal, hpc, State.goto]⟩⟩
      | _ => simp [State.conditionSignal, hpc]
    | _ => simp [State.conditionSignal, hpc]
  · exact .inl ((signalled_conditionSignal s p).frame q hqp)

/-! ## Changes of the state of a peer -/

/-- The endpoint, and what the RDV server has said about it. -/
structure Answer where
  rdvAnswer : MsgType
  clientaddr : SockaddrIn
  vpnIP : InAddr

/-- What a peer has stored of the answers of the RDV server. -/
def View.answer (v : View) : Answer := ⟨v.rdvAnswer, v.clientaddr, v.vpnIP⟩

section Changes
variable {s s' : State} {p : Ptr} {o : Heard}

/-- Only the `peer_handling` thread changes the state of a peer. -/
theorem Effect.state_cases (he : Effect s o s') (hp : p < s.reg.created) :
    (s'.reg.view p).state = (s.reg.view p).state ∨ Section s s' p (s'.reg.view p) := by
  have hwrites : ∀ q v, s.reg.Writes s'.reg q v → v.state = (s.reg.view q).state →
      (s'.reg.view p).state = (s.reg.view p).state := fun _ _ hreg hstate =>
    hreg.view_field View.state hstate p
  cases he with
  | quiet hreg => exact .inl (by rw [hreg.view])
  | opened state e v hreg =>
    obtain ⟨answer, hview⟩ := hreg.view
    left
    rw [hview, Function.update_of_ne (Nat.ne_of_lt hp)]
  | takes q ht => exact .inl (hwrites q _ ht.reg rfl)
  | leaves q hl => exact .inl (hwrites q _ hl.reg hl.state)
  | handles q v hs =>
    by_cases hpq : p = q
    · subst hpq
      have hv : s'.reg.view p = v := by rw [hs.reg.view, Function.update_self]
      exact .inr (hv ▸ hs)
    · left
      rw [hs.reg.view, Function.update_of_ne hpq]
  | hearsPunch q src ht => exact .inl (hwrites q _ ht.reg rfl)
  | passesPunch q hpc hl => exact .inl (hwrites q _ hl.reg hl.state)
  | hearsAnswer q msg ht => exact .inl (hwrites q _ ht.reg rfl)
  | storesAnswer q v hl => exact .inl (hwrites q _ hl.reg hl.state)
  | passesAnswer q hpc hreg => exact .inl (by rw [hreg])

/-- The state of a peer does not change while another thread holds its mutex. -/
theorem Locked.state_eq (hl : Locked s) (he : Effect s o s') (hp : 0 < s.lockers p) :
    (s'.reg.view p).state = (s.reg.view p).state := by
  have hmutex := hl.mutex hp
  have hlt : p < s.reg.created := by
    by_contra hge
    rw [hl.unborn p (Nat.le_of_not_lt hge)] at hmutex
    cases hmutex
  rcases he.state_cases hlt with hsame | hsection
  · exact hsame
  · rw [hsection.free] at hmutex
    cases hmutex

end Changes

/-! ## Runs -/

section Runs
variable {config : Configuration} {s s' : State} {a : Act}

/-- What the mutexes and the threads keep in every run without spurious wake-ups. -/
structure Sound (s : State) : Prop where
  phased : Phased s
  locked : Locked s

theorem sound_init : Sound .init := ⟨phased_init, locked_init⟩

theorem Sound.step (h : Sound s) (ha : NotSpurious a) (hs : step config s a = some s') :
    Sound s' :=
  ⟨h.phased.roleChange (transition_of_step hs).roleChange,
    h.locked.effect h.phased (effect_of_step ha hs)⟩

end Runs

end Client
end Campagnol
