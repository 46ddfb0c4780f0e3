import Campagnol.Client.Invariants
import Campagnol.Client.Mutex

/-!
# The consent of the RDV server

A peer that `comm_tun` creates starts punching only after the RDV server has answered with its
endpoint. The field `rdv_answer` is not initialised, and the wait for the answer does not test what
has woken it up, but a punch cannot: the peer is not in `clients_address_root` yet.
-/

namespace Campagnol
namespace Client

open SearchTree

/-! ## The answer of the RDV server -/

/-- The answer for `p` among what is heard. -/
def Heard.answerFor (p : Ptr) : Heard → Option Message
  | .answer q msg => if q = p then some msg else none
  | _ => none

/-- The last answer of the RDV server, ANS_CONNECTION or REJ_CONNECTION, that has been processed
for the peer `p`. -/
def lastAnswer (p : Ptr) (tr : List (State × Act)) : Option Message :=
  (tr.filterMap fun e => (heard e.1 e.2).answerFor p).getLast?

theorem lastAnswer_snoc (p : Ptr) (tr : List (State × Act)) (e : State × Act) :
    lastAnswer p (tr ++ [e]) = ((heard e.1 e.2).answerFor p).or (lastAnswer p tr) := by
  unfold lastAnswer
  rw [List.filterMap_append]
  cases hanswer : (heard e.1 e.2).answerFor p with
  | none => simp [hanswer]
  | some msg => simp [hanswer]

/-- The peer that `rdv_handling` processes an answer for. -/
def RdvPc.about : RdvPc → Option Ptr
  | .rej p | .ans p _ | .signal p => some p
  | _ => none

/-- What the peer `q` has stored once `rdv_handling` has written the answer it holds. -/
def RdvPc.stored (q : Ptr) (x : Answer) : RdvPc → Answer
  | .rej p => if q = p then { x with rdvAnswer := .rejConnection } else x
  | .ans p e => if q = p then { x with rdvAnswer := .ansConnection, clientaddr := e } else x
  | _ => x

theorem RdvPc.about_tells (pc : RdvPc) : pc.tells.about = pc.about := by
  cases pc <;> rfl

theorem RdvPc.stored_tells (q : Ptr) (x : Answer) (pc : RdvPc) :
    pc.tells.stored q x = pc.stored q x := by
  cases pc <;> rfl

@[inherit_doc RdvPc.stored]
def State.stored (s : State) (q : Ptr) : Answer := s.rdv.stored q (s.reg.view q).answer

/-- The message is what the peer has stored. -/
structure Matches (msg : Message) (x : Answer) : Prop where
  rdvAnswer : x.rdvAnswer = msg.type
  accepts : msg.type = .rejConnection ∨
    msg.type = .ansConnection ∧ msg.ip2 = x.vpnIP ∧ x.clientaddr = ⟨msg.ip1, msg.port⟩

/-- The last answer is the one that is stored, and a wait for an answer ends after one only: a
punch does not reach a peer in the state NEW. -/
structure Consent (last : Ptr → Option Message) (s : State) : Prop where
  stored : ∀ p msg, last p = some msg → Matches msg (s.stored p)
  unborn : ∀ p, s.reg.created ≤ p → last p = none
  about : ∀ p, s.rdv.about = some p → last p ≠ none
  woken : ∀ p, s.handler p = .waitAnswer .signalled → last p ≠ none
  registered : ∀ p ∈ s.reg.clientsAddressRoot, (s.reg.view p).state ≠ .new
  punch : ∀ p, s.socket.tells = .foundPunch p → (s.reg.view p).state ≠ .new

/-- While the mutex of a peer is free, no answer is about to be stored. -/
theorem Locked.stored_of_free {s : State} {p : Ptr} (h : Locked s)
    (hfree : (s.reg.view p).mutex = false) : s.stored p = (s.reg.view p).answer := by
  have hlocked : s.rdv.locked ≠ some p := by
    intro hlocked
    have hmutex := h.mutex (p := p) (by
      simp only [State.lockers, hlocked, refCell_some, if_true]
      omega)
    rw [hfree] at hmutex
    cases hmutex
  unfold State.stored
  cases hpc : s.rdv with
  | rej q =>
    rw [hpc] at hlocked
    have hpq : p ≠ q := by
      rintro rfl
      exact hlocked rfl
    exact if_neg hpq
  | ans q e =>
    rw [hpc] at hlocked
    have hpq : p ≠ q := by
      rintro rfl
      exact hlocked rfl
    exact if_neg hpq
  | _ => rfl

section Consent
variable {last : Ptr → Option Message} {s s' : State} {p : Ptr} {o : Heard}

/-- A step that neither hears an answer nor creates a peer. -/
theorem Consent.keep (h : Consent last s) (hcreated : s'.reg.created = s.reg.created)
    (hstored : ∀ q, s'.stored q = s.stored q) (habout : s'.rdv.about = s.rdv.about ∨
      s'.rdv.about = none)
    (hwoken : ∀ q, s'.handler q = .waitAnswer .signalled →
      s.handler q = .waitAnswer .signalled ∨ last q ≠ none)
    (hnew : ∀ q, (s'.reg.view q).state = .new → (s.reg.view q).state = .new)
    (haddr : ∀ q ∈ s'.reg.clientsAddressRoot, q ∈ s.reg.clientsAddressRoot ∨
      (s'.reg.view q).state ≠ .new)
    (hpunch : ∀ q, s'.socket.tells = .foundPunch q → (s.reg.view q).state ≠ .new) :
    Consent last s' where
  stored := fun q msg hq => hstored q ▸ h.stored q msg hq
  unborn := fun q hq => h.unborn q (hcreated ▸ hq)
  about := fun q hq => by
    rcases habout with hsame | hnone
    · exact h.about q (hsame ▸ hq)
    · rw [hnone] at hq
      cases hq
  woken := fun q hq => (hwoken q hq).elim (h.woken q) id
  registered := fun q hq => by
    rcases haddr q hq with hold | hst
    · exact fun hst => h.registered q hold (hnew q hst)
    · exact hst
  punch := fun q hq hst => hpunch q hq (hnew q hst)

/-- The protected fields of `p` change, but not what is stored in them. -/
theorem Consent.writes (h : Consent last s) {v : View} (hreg : s.reg.Writes s'.reg p v)
    (hanswer : v.answer = (s.reg.view p).answer)
    (hnew : v.state = .new → (s.reg.view p).state = .new)
    (hrdv : s'.rdv.tells = s.rdv.tells)
    (hwoken : ∀ q, s'.handler q = .waitAnswer .signalled →
      s.handler q = .waitAnswer .signalled ∨ last q ≠ none)
    (hpunch : ∀ q, s'.socket.tells = .foundPunch q → (s.reg.view q).state ≠ .new) :
    Consent last s' := by
  refine h.keep hreg.created (fun q => ?_) (.inl ?_) hwoken (fun q => ?_) (fun q hq => ?_) hpunch
  · rw [State.stored, State.stored, ← RdvPc.stored_tells, hrdv, RdvPc.stored_tells,
      hreg.view_field View.answer hanswer]
  · rw [← RdvPc.about_tells, hrdv, RdvPc.about_tells]
  · rw [hreg.view]
    by_cases hqp : q = p
    · subst hqp
      rw [Function.update_self]
      exact hnew
    · rw [Function.update_of_ne hqp]
      exact id
  · rcases hreg.addr q hq with hold | ⟨rfl, hst⟩
    · exact .inl hold
    · right
      rw [hreg.view, Function.update_self, hst]
      simp

/-- A peer is created. -/
theorem Consent.opened (h : Consent last s) (hl : Locked s) {state : ClientType} {e : SockaddrIn}
    {v : InAddr} (hreg : s.reg.Opens s'.reg state e v) (hnew : state = .new → e.sinPort = 0)
    (hsocket : s'.socket.tells = s.socket.tells) (hrdv : s'.rdv.tells = s.rdv.tells)
    (hhandler : s'.handler = s.handler) : Consent last s' := by
  obtain ⟨answer, hview⟩ := hreg.view
  have hother : ∀ q, q ≠ s.reg.created → s'.reg.view q = s.reg.view q := fun q hq => by
    rw [hview, Function.update_of_ne hq]
  have habout : s'.rdv.about = s.rdv.about := by
    rw [← RdvPc.about_tells, hrdv, RdvPc.about_tells]
  -- nothing has been heard of the new peer, and nobody has found it
  have hnone := h.unborn s.reg.created (Nat.le_refl _)
  refine ⟨fun q msg hq => ?_, fun q hq => ?_, fun q hq => h.about q (habout ▸ hq),
    fun q hq => h.woken q (hhandler ▸ hq), fun q hq => ?_, fun q hq => ?_⟩
  · have hne : q ≠ s.reg.created := by
      rintro rfl
      rw [hnone] at hq
      cases hq
    rw [State.stored, ← RdvPc.stored_tells, hrdv, RdvPc.stored_tells, hother q hne]
    exact h.stored q msg hq
  · have hle : s.reg.created + 1 ≤ q := hreg.created ▸ hq
    exact h.unborn q (Nat.le_of_succ_le hle)
  · rcases hreg.addr q hq with hold | ⟨rfl, hport⟩
    · rw [hother q (Nat.ne_of_lt (hl.addr_lt q hold))]
      exact h.registered q hold
    · rw [hview, Function.update_self]
      exact fun hst => hport (hnew hst)
  · rw [hsocket] at hq
    have hmutex := hl.mutex (lockers_of_punch hq)
    have hne : q ≠ s.reg.created := by
      rintro rfl
      rw [hl.unborn _ (Nat.le_refl _)] at hmutex
      cases hmutex
    rw [hother q hne]
    exact h.punch q hq

/-- `rdv_handling` takes an answer for `p`. -/
theorem Consent.hearsAnswer (h : Consent last s) (hl : Locked s) {msg : Message}
    (ht : Takes s s' p) (hpc : s.rdv = .idle) (hsocket : s'.socket = s.socket)
    (hrdv : (msg.type = .rejConnection ∧ s.reg.findByVPN msg.ip1 = some p ∧ s'.rdv = .rej p) ∨
      msg.type = .ansConnection ∧ s.reg.findByVPN msg.ip2 = some p ∧
        s'.rdv = .ans p ⟨msg.ip1, msg.port⟩) :
    Consent (fun q => ((Heard.answer p msg).answerFor q).or (last q)) s' := by
  have hlast : ∀ q, q ≠ p → ((Heard.answer p msg).answerFor q).or (last q) = last q := by
    intro q hqp
    simp [Heard.answerFor, Ne.symm hqp]
  have hlast_p : ((Heard.answer p msg).answerFor p).or (last p) = some msg := by
    simp [Heard.answerFor]
  have hanswer := ht.reg.view_field View.answer rfl
  have hstate := ht.reg.view_field View.state rfl
  refine ⟨fun q m hq => ?_, fun q hq => ?_, fun q hq => ?_, fun q hq => ?_, fun q hq => ?_,
    fun q hq => ?_⟩
  · by_cases hqp : q = p
    -- the answer is the last one from now on
    · subst hqp
      obtain rfl : msg = m := Option.some.inj (hlast_p.symm.trans hq)
      rcases hrdv with ⟨htype, -, hrdv⟩ | ⟨htype, hfound, hrdv⟩
      · simp only [State.stored, hrdv, RdvPc.stored, if_true]
        exact ⟨htype.symm, .inl htype⟩
      · simp only [State.stored, hrdv, RdvPc.stored, if_true]
        have hvpn : msg.ip2 = (s.reg.view q).answer.vpnIP :=
          (mem_of_tfind hfound).2.symm
        exact ⟨htype.symm, .inr ⟨htype, hvpn.trans (congrArg Answer.vpnIP (hanswer q)).symm, rfl⟩⟩
    · rw [hlast q hqp] at hq
      have hold := h.stored q m hq
      rw [State.stored, hpc] at hold
      rcases hrdv with ⟨-, -, hrdv⟩ | ⟨-, -, hrdv⟩
      · rw [State.stored, hrdv, RdvPc.stored, if_neg hqp, hanswer]
        exact hold
      · rw [State.stored, hrdv, RdvPc.stored, if_neg hqp, hanswer]
        exact hold
  · have hlt := hl.known ht.known
    rw [ht.reg.created] at hq
    rw [hlast q (Nat.ne_of_gt (Nat.lt_of_lt_of_le hlt hq))]
    exact h.unborn q hq
  · have hqp : q = p := by
      rcases hrdv with ⟨-, -, hrdv⟩ | ⟨-, -, hrdv⟩
      · rw [hrdv] at hq
        exact (Option.some.inj hq).symm
      · rw [hrdv] at hq
        exact (Option.some.inj hq).symm
    rw [hqp, hlast_p]
    simp
  · by_cases hqp : q = p
    · rw [hqp, hlast_p]
      simp
    · rw [hlast q hqp]
      exact h.woken q (ht.handler ▸ hq)
  · rw [hstate]
    rcases ht.reg.addr q hq with hold | ⟨rfl, hpunching⟩
    · exact h.registered q hold
    · exact fun hnew => by cases hnew.symm.trans hpunching
  · rw [hstate]
    exact h.punch q (hsocket ▸ hq)

/-- `rdv_handling` stores an answer in the structure of `p`. -/
theorem Consent.storesAnswer (h : Consent last s) {v : View} (hv : Leaves s s' p v)
    (hrdv : (s.rdv = .rej p ∧ v.rdvAnswer = .rejConnection ∧
        v.clientaddr = (s.reg.view p).clientaddr) ∨
      ∃ e, s.rdv = .ans p e ∧ v.rdvAnswer = .ansConnection ∧ v.clientaddr = e)
    (hrdv' : s'.rdv = .signal p) (hsocket : s'.socket = s.socket)
    (hhandler : s'.handler = s.handler) : Consent last s' := by
  have hself : v.answer = s.rdv.stored p (s.reg.view p).answer := by
    rcases hrdv with ⟨hpc, hanswer, haddr⟩ | ⟨e, hpc, hanswer, haddr⟩
    · simp only [hpc, RdvPc.stored, if_true, View.answer, hanswer, haddr, hv.vpnIP]
    · simp only [hpc, RdvPc.stored, if_true, View.answer, hanswer, haddr, hv.vpnIP]
  have habout : s.rdv.about = some p := by
    rcases hrdv with ⟨hpc, -⟩ | ⟨e, hpc, -⟩ <;> rw [hpc] <;> rfl
  have hother : ∀ q, q ≠ p → s.rdv.stored q (s.reg.view q).answer = (s.reg.view q).answer := by
    intro q hqp
    rcases hrdv with ⟨hpc, -⟩ | ⟨e, hpc, -⟩ <;> rw [hpc] <;> exact if_neg hqp
  refine h.keep hv.reg.created (fun q => ?_) (.inl ?_) (fun q hq => .inl (hhandler ▸ hq))
    (fun q => ?_) (fun q hq => ?_) fun q hq => h.punch q (hsocket ▸ hq)
  · rw [State.stored, State.stored, hrdv', hv.reg.view]
    by_cases hqp : q = p
    · subst hqp
      rw [Function.update_self]
      exact hself
    · rw [Function.update_of_ne hqp, hother q hqp]
      rfl
  · rw [hrdv', habout]
    rfl
  · rw [hv.reg.view_field View.state hv.state]
    exact id
  · rcases hv.reg.addr q hq with hold | ⟨rfl, hst⟩
    · exact .inl hold
    · right
      rw [hv.reg.view, Function.update_self, hst]
      simp

theorem Consent.effect (h : Consent last s) (hl : Locked s) (hp : Phased s)
    (he : Effect s o s') : Consent (fun q => (o.answerFor q).or (last q)) s' := by
  cases he with
  | quiet hreg _ hsocket hrdv hhandler =>
    refine h.keep hreg.created (fun q => ?_) (.inl ?_) (fun q hq => .inl ?_) (fun q => ?_)
      (fun q hq => .inl (hreg.addr q hq)) fun q hq => h.punch q (hsocket ▸ hq)
    · rw [State.stored, State.stored, ← RdvPc.stored_tells, hrdv, RdvPc.stored_tells, hreg.view]
    · rw [← RdvPc.about_tells, hrdv, RdvPc.about_tells]
    · rw [← hhandler q (hq ▸ trivial)]
      exact hq
    · rw [hreg.view]
      exact id
  | opened state e v hreg hnew _ hsocket hrdv hhandler =>
    exact h.opened hl hreg hnew hsocket hrdv hhandler
  | takes p ht hsocket hrdv =>
    exact h.writes ht.reg rfl id hrdv (fun q hq => .inl (ht.handler ▸ hq))
      fun q hq => h.punch q (hsocket ▸ hq)
  | leaves p hv hsocket hrdv hhandler =>
    refine h.writes hv.reg rfl id hrdv (fun q hq => .inl ?_) fun q hq => h.punch q (hsocket ▸ hq)
    rw [← hhandler q (hq ▸ trivial)]
    exact hq
  | handles p v hs hsocket hrdv =>
    refine h.writes hs.reg ?_ hs.new hrdv (fun q hq => .inl ?_) fun q hq => h.punch q (hsocket ▸ hq)
    · rw [View.answer, View.answer, hs.rdvAnswer, hs.clientaddr, hs.vpnIP]
    · rw [← hs.handler q (hq ▸ trivial)]
      exact hq
  | hearsPunch p src ht hfound hsocket hrdv =>
    refine h.writes ht.reg rfl id (by rw [hrdv]) (fun q hq => .inl (ht.handler ▸ hq)) fun q hq => ?_
    rw [hsocket] at hq
    cases hq
    exact h.registered p (mem_of_tfind hfound).1
  | passesPunch p hpc hv hsocket hrdv hhandler =>
    refine h.writes hv.reg rfl id (by rw [hrdv]) (fun q hq => .inl ?_) fun q hq => ?_
    · rw [hhandler] at hq
      rcases handler_conditionSignal s p q with hsame | ⟨rfl, ⟨hasleep, -⟩ | ⟨-, hwoken⟩⟩
      · rwa [hsame] at hq
      -- a peer in the state NEW is not in `clients_address_root`
      · have hagrees := hp.agrees q
        rw [hasleep] at hagrees
        exact absurd hagrees (h.punch q (by rw [hpc]; rfl))
      · cases hwoken.symm.trans hq
    · rw [hsocket] at hq
      cases hq
  | hearsAnswer p msg ht hpc hsocket hrdv => exact h.hearsAnswer hl ht hpc hsocket hrdv
  | storesAnswer p v hv hrdv hrdv' hsocket hhandler =>
    exact h.storesAnswer hv hrdv hrdv' hsocket hhandler
  | passesAnswer p hpc hreg _ hsocket hrdv hhandler =>
    refine h.keep (by rw [hreg]) (fun q => ?_) (.inr ?_) (fun q hq => ?_)
      (fun q => by rw [hreg]; exact id) (fun q hq => .inl (hreg ▸ hq))
      fun q hq => h.punch q (hsocket ▸ hq)
    · rw [State.stored, State.stored, ← RdvPc.stored_tells, hrdv, hpc, hreg]
      rfl
    · rw [← RdvPc.about_tells, hrdv]
      rfl
    · rw [hhandler] at hq
      rcases handler_conditionSignal s p q with hsame | ⟨rfl, -⟩
      · exact .inl (hsame ▸ hq)
      · exact .inr (h.about q (by rw [hpc]; rfl))

end Consent

/-! ### Runs -/

section Runs
variable {config : Configuration} {s s' : State} {tr : List (State × Act)} {a : Act} {p : Ptr}

theorem consent_init : Consent (fun _ => none) .init where
  stored := fun _ _ h => by cases h
  unborn := fun _ _ => rfl
  about := fun _ h => by cases h
  woken := fun _ h => by cases h
  registered := fun _ h => h.elim
  punch := fun _ h => by cases h

theorem consent_of_steps
    (h : Steps (recorded (step config)) (fun _ => NotSpurious) (.init, []) (s, tr)) :
    Sound s ∧ Consent (lastAnswer · tr) s := by
  refine Steps.recorded_invariant (P := fun s tr => Sound s ∧ Consent (lastAnswer · tr) s) h
    ⟨sound_init, consent_init⟩ ?_
  intro t tr a u ht ha hu
  obtain ⟨hsound, hconsent⟩ := ht
  have heffect := effect_of_step ha hu
  refine ⟨hsound.step ha hu, ?_⟩
  simp only [lastAnswer_snoc]
  exact hconsent.effect hsound.locked hsound.phased heffect

/-- A peer that was created in the state NEW enters PUNCHING only with the consent of the RDV
server: the last answer that has been processed for it is an ANS_CONNECTION for its VPN IP, and
its endpoint is the one of this answer. -/
theorem punching_after_answer
    (h : Steps (recorded (step config)) (fun _ => NotSpurious) (.init, []) (s, tr))
    (ha : NotSpurious a) (hs : step config s a = some s') (hp : p < s.reg.created)
    (hnew : (s.reg.peer p).state = .new) (hpunching : (s'.reg.peer p).state = .punching) :
    ∃ msg, lastAnswer p tr = some msg ∧ msg.type = .ansConnection ∧
      msg.ip2 = (s'.reg.peer p).vpnIP ∧ (s'.reg.peer p).clientaddr = ⟨msg.ip1, msg.port⟩ := by
  obtain ⟨hsound, hconsent⟩ := consent_of_steps h
  have hnew' : (s.reg.view p).state = .new := hnew
  have hpunching' : (s'.reg.view p).state = .punching := hpunching
  rcases (effect_of_step ha hs).state_cases hp with hsame | hsection
  · rw [hsame, hnew'] at hpunching'
    cases hpunching'
  · rcases hsection.punching hpunching' with hold | ⟨hwoken, haccept⟩
    · rw [hnew'] at hold
      cases hold
    obtain ⟨msg, hmsg⟩ := Option.ne_none_iff_exists'.mp (hconsent.woken p hwoken)
    have hmatch := hconsent.stored p msg hmsg
    rw [hsound.locked.stored_of_free hsection.free] at hmatch
    rcases hmatch.accepts with hrej | ⟨hans, hvpn, haddr⟩
    · exact absurd (hmatch.rdvAnswer.trans hrej) haccept
    · exact ⟨msg, hmsg, hans, hvpn.trans hsection.vpnIP.symm, hsection.clientaddr.trans haddr⟩

/-- The RDV server rejects the request for 101, then accepts it twice, with another endpoint the
second time, before the thread of the peer resumes. -/
def twoAnswers : List Act :=
  request 101 0 ++ [.rdvMessage ⟨.rejConnection, 0, 101, 0⟩, .rdvStep 0 allocOk,
    .rdvStep 0 allocOk, .rdvStep 0 allocOk] ++ answer 101 ⟨10, 7⟩ ++ answer 101 ⟨20, 7⟩

theorem punching_after_answer_twoAnswers :
    ∃ s tr s', Steps (recorded (step client100)) (fun _ => NotSpurious) (.init, []) (s, tr) ∧
      step client100 s (.handlerStep 0 0 true .again) = some s' ∧
      (s.reg.peer 0).state = .new ∧ (s'.reg.peer 0).state = .punching ∧
      (s'.reg.peer 0).clientaddr = ⟨20, 7⟩ ∧
      ∃ msg, lastAnswer 0 tr = some msg ∧ msg.type = .ansConnection ∧
        msg.ip2 = (s'.reg.peer 0).vpnIP ∧ (s'.reg.peer 0).clientaddr = ⟨msg.ip1, msg.port⟩ := by
  have hrun : ((runOk (recorded (step client100)) (fun _ => NotSpurious) twoAnswers
      (.init, [])).bind fun s => (step client100 s.1 (.handlerStep 0 0 true .again)).map fun s' =>
        (s.1.reg.created, (s.1.reg.peer 0).state, (s'.reg.peer 0).state,
          (s'.reg.peer 0).clientaddr)) = some (1, .new, .punching, ⟨20, 7⟩) := by decide +kernel
  obtain ⟨⟨s, tr⟩, hs, hrun⟩ := Option.bind_eq_some_iff.mp hrun
  obtain ⟨s', hs', heq⟩ := Option.map_eq_some_iff.mp hrun
  simp only [Prod.mk.injEq] at heq
  obtain ⟨hcreated, hnew, hpunching, haddr⟩ := heq
  have hsteps := Steps.of_runOk .refl hs
  exact ⟨s, tr, s', hsteps, hs', hnew, hpunching, haddr,
    punching_after_answer (a := .handlerStep 0 0 true .again) hsteps trivial hs'
      (hcreated ▸ Nat.zero_lt_one) hnew hpunching⟩

end Runs

end Client
end Campagnol
