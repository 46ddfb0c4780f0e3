import Campagnol.Rdv.Invariants

/-!
# A live registration cannot be disturbed from outside

A registered client whose activity is recent enough at every reading of the clock, and
that does not say BYE, keeps its entry whatever the server receives; two such clients
keep a session between them until one of the two closes it.
-/

namespace Campagnol
namespace Rdv

open SearchTree

/-- The event is a datagram of the given type from the given endpoint. -/
def SentFrom (type : MsgType) (a : SockaddrIn) : Event → Prop
  | .packet rmsg src _ => rmsg.type = type ∧ src = a
  | _ => False

/-- At every reading of the clock during the step `e`, `c` is not timed out, and the step
is not a BYE of `c`. -/
def Undisturbed (config : Configuration) (clock : ℕ → Int) (c : Ptr) (s : Server)
    (e : Event) : Prop :=
  (∀ s', step config clock s e = some s' → ∀ k, s.ticks ≤ k → k < s'.ticks →
    clock k - (s.reg.clientAt c).time ≤ peerTimeout) ∧
  ¬SentFrom .bye (s.reg.addrOf c) e

/-- The allocations of the step succeed: `malloc` does not fail while no more blocks are
in use than before the step, and neither does `tsearch`. -/
def AllocOk (s : Server) : Event → Prop
  | .packet _ _ env =>
    (∀ inUse : Ptr → Bool, (∀ x, inUse x = true → s.reg.client.inUse x = true) →
      (env.client.malloc.malloc inUse).isSome) ∧
    env.client.tsearchAddress = true ∧ env.client.tsearchVpn = true ∧
    (∀ inUse : Ptr → Bool, (∀ x, inUse x = true → s.tab.session.inUse x = true) →
      (env.session.malloc.malloc inUse).isSome) ∧
    env.session.tsearch = true
  | _ => True

/-- There is a session between `c` and `d`, in one of the two directions. -/
def SessionBetween (s : Server) (c d : Ptr) : Prop :=
  (s.tab.getSession c d).isSome ∨ (s.tab.getSession d c).isSome

/-- `c` is in the list of clients. -/
def Listed (s : Server) (c : Ptr) : Prop := ∃ cl, s.reg.clients.IsList cl ∧ c ∈ cl

/-- What a client has registered with: all its data but the time stamp. -/
def registration (s : Server) (c : Ptr) : SockaddrIn × InAddr × SockaddrIn :=
  (s.reg.addrOf c, s.reg.vpnOf c, (s.reg.clientAt c).localaddr)

variable {config : Configuration} {clock : ℕ → Int} {s₀ s s' : Server} {e : Event} {c d : Ptr}

theorem Server.Ok.listed_iff (h : s.Ok config) : Listed s c ↔ s.Live c := by
  obtain ⟨cl, _, hr, _⟩ := h
  constructor
  · rintro ⟨cl', hl, hc⟩
    obtain rfl := hl.unique hr.clients_list
    exact (hr.heap_iff c).mpr hc
  · intro hc
    exact ⟨cl, hr.clients_list, (hr.heap_iff c).mp hc⟩

/-! ## The entry -/

/-- `c` is still allocated, and registered as in `s₀`. -/
def Kept (s₀ : Server) (c : Ptr) (s : Server) : Prop :=
  s.Live c ∧ registration s c = registration s₀ c

theorem registration_congr (h : s'.reg.clientAt c = s.reg.clientAt c) :
    registration s' c = registration s c := by
  have h' : clientOf s'.reg.client c = clientOf s.reg.client c := h
  simp only [registration, Registry.addrOf, Registry.vpnOf, addrKey, vpnKey, h, h']

/-- `c` is not removed by the step, for it has neither expired nor said BYE. -/
theorem not_dropReason (hread : ∀ k, s₀.ticks ≤ k → k < s'.ticks →
      clock k - (s₀.reg.clientAt c).time ≤ peerTimeout)
    (hbye : ¬SentFrom .bye (s₀.reg.addrOf c) e) : ¬DropReason clock s₀ e s' c := by
  rintro (⟨k, h₀, h', ht⟩ | ⟨rmsg, src, env, he, ht, hs⟩)
  · have := hread k h₀ h'
    omega
  · rw [he] at hbye
    exact hbye ⟨ht, hs.symm⟩

theorem Kept.change (hk : Kept s₀ c s) (hok : s.Ok config)
    (hno : ¬DropReason clock s₀ e s' c) (hc : Change config clock s₀ e s s') : Kept s₀ c s' := by
  obtain ⟨hlive, hreg₀⟩ := hk
  have hsame : s'.reg = s.reg → Kept s₀ c s' := fun hreg =>
    ⟨by rw [Server.Live, hreg]; exact hlive,
      (registration_congr (by rw [hreg])).trans hreg₀⟩
  cases hc with
  | quiet hreg _ _ => exact hsame hreg
  | updateTime p t hp hreg _ _ =>
    refine ⟨?_, ?_⟩
    · rw [Server.Live, hreg, Registry.clientUpdateTime, Heap.modify_inUse]
      exact hlive
    · rw [← hreg₀]
      by_cases hcp : c = p
      · subst hcp
        obtain ⟨cl, _, hr, _⟩ := hok
        obtain ⟨ha, hv⟩ := Registry.clientUpdateTime_keys (r := s.reg) t c c
        simp only [registration, hreg, ha, hv,
          hr.clientUpdateTime_clientAt_self t ((hr.heap_iff c).mp hlive)]
      · refine registration_congr ?_
        rw [hreg, Registry.clientUpdateTime_clientAt_of_ne t hcp]
  | drop p _ hdrop hreg _ _ =>
    have hcp : c ≠ p := fun h => hno (h ▸ hdrop)
    refine ⟨?_, ?_⟩
    · rw [Server.Live, hreg]
      exact Heap.inUse_free.mpr ⟨hcp, hlive⟩
    · rw [← hreg₀]
      refine registration_congr ?_
      rw [hreg, Registry.removeClient_clientAt_of_ne hcp]
  | add rmsg _ env t localaddr _ _ hnew _ hreg _ _ =>
    obtain ⟨cl, _, hr, _⟩ := hok
    rcases hr.addClient_cases env.client t rmsg.ip1 localaddr hnew with
      hfail | ⟨p, r', hadd, hadded⟩
    · rw [hfail] at hreg
      exact hsame hreg
    · rw [hadd] at hreg
      have hcl := (hr.heap_iff c).mp hlive
      refine ⟨?_, ?_⟩
      · rw [Server.Live, hreg]
        exact (hadded.inv.heap_iff c).mpr (List.mem_cons_of_mem _ hcl)
      · rw [← hreg₀]
        refine registration_congr ?_
        rw [hreg, hadded.get_other c hcl]
  | close _ _ _ _ _ _ _ _ hreg _ _ => exact hsame hreg
  | openSession _ _ _ _ _ _ _ _ _ _ _ hreg _ _ => exact hsame hreg
  | touchSession _ _ hreg _ _ => exact hsame hreg

/-- Along a step that does not disturb `c`, its entry is kept. -/
theorem kept_of_changes (hok : s₀.Ok config) (hlive : s₀.Live c)
    (hread : ∀ k, s₀.ticks ≤ k → k < s'.ticks →
      clock k - (s₀.reg.clientAt c).time ≤ peerTimeout)
    (hbye : ¬SentFrom .bye (s₀.reg.addrOf c) e) (hc : Changes config clock s₀ e s₀ s') :
    Kept s₀ c s' := by
  induction hc with
  | refl => exact ⟨hlive, rfl⟩
  | tail hcs hc ih =>
    refine (ih fun k h₀ h => hread k h₀ (Nat.lt_of_lt_of_le h hc.ticks_le)).change
      (hok.changes hcs) (not_dropReason hread hbye) hc

/-! ## The sessions -/

theorem Server.Ok.sessionBetween_iff {cl sl : List Ptr} (hw : s.tab.Inv cl sl) :
    SessionBetween s c d ↔
      ∃ x ∈ sl, s.tab.peersOf x = (c, d) ∨ s.tab.peersOf x = (d, c) := by
  simp only [SessionBetween, Option.isSome_iff_exists, hw.getSession_eq_some]
  constructor
  · rintro (⟨x, hx, hp⟩ | ⟨x, hx, hp⟩)
    · exact ⟨x, hx, .inl hp⟩
    · exact ⟨x, hx, .inr hp⟩
  · rintro ⟨x, hx, hp | hp⟩
    · exact .inl ⟨x, hx, hp⟩
    · exact .inr ⟨x, hx, hp⟩

/-- A session that survives `remove_session` of another pair. -/
theorem SessionBetween.removeSessionBetween {cl sl : List Ptr} {w : SessionTable} {p q x : Ptr}
    (hw : w.Inv cl sl) (hx : x ∈ sl) (hne : w.peersOf x ≠ (p, q)) :
    ∃ sl', (w.removeSessionBetween p q).Inv cl sl' ∧ x ∈ sl' ∧
      (w.removeSessionBetween p q).peersOf x = w.peersOf x := by
  obtain ⟨sl', hw', hmem, hdata⟩ := hw.removeSessionBetween p q
  have hx' : x ∈ sl' := (hmem x).mpr ⟨hx, hne⟩
  exact ⟨sl', hw', hx', SessionTable.peersOf_congr (hdata x hx')⟩

/-- The session of an ASK_CONNECTION is allocated. -/
theorem AllocOk.addSession_isSome {rmsg : Message} {src : SockaddrIn} {env : Env} {cl sl : List Ptr}
    (halloc : AllocOk s₀ (.packet rmsg src env)) (hw : s.tab.Inv cl sl) (htab : s.tab = s₀.tab)
    (p q : Ptr) (t : Int) :
    ((s.tab.removeSessionBetween q p).addSession env.session p q t).1.isSome := by
  obtain ⟨sl₁, hw₁, hmem, _⟩ := hw.removeSessionBetween q p
  refine SessionTable.addSession_isSome _ _ _ _ (halloc.2.2.2.1 _ fun y hy => ?_) halloc.2.2.2.2
  rw [← htab, hw.heap_iff]
  exact ((hmem y).mp ((hw₁.heap_iff y).mp hy)).1

/-- A session between `c` and `d` survives the removal of another client. -/
theorem SessionBetween.drop (hb : SessionBetween s c d) (hok : s.Ok config) {p : Ptr}
    (hcp : c ≠ p) (hdp : d ≠ p) (htab : s'.tab = s.tab.removeSessionsWithClient p) :
    SessionBetween s' c d := by
  obtain ⟨cl, sl, -, hw⟩ := hok
  obtain ⟨x, hx, hpeers⟩ := (Server.Ok.sessionBetween_iff hw).mp hb
  obtain ⟨hw', hdata⟩ := hw.removeSessionsWithClient p
  have hx' : x ∈ sl.filter fun x => !s.tab.involves p x := by
    rw [List.mem_filter]
    refine ⟨hx, ?_⟩
    rw [Bool.not_eq_true', ← Bool.not_eq_true, SessionTable.involves_eq_true]
    rcases hpeers with h | h <;> simp [h, hcp, hdp]
  rw [← htab] at hw' hdata
  refine (Server.Ok.sessionBetween_iff hw').mpr ⟨x, hx', ?_⟩
  rw [SessionTable.peersOf_congr (hdata x hx')]
  exact hpeers

/-- It survives a CLOSE_CONNECTION of another client, whichever session that one names. -/
theorem SessionBetween.close (hb : SessionBetween s c d) (hok : s.Ok config) {p q : Ptr}
    (hpc : p ≠ c) (hpd : p ≠ d)
    (htab : s'.tab = (s.tab.removeSessionBetween p q).removeSessionBetween q p) :
    SessionBetween s' c d := by
  obtain ⟨cl, sl, -, hw⟩ := hok
  obtain ⟨x, hx, hpeers⟩ := (Server.Ok.sessionBetween_iff hw).mp hb
  have hne : s.tab.peersOf x ≠ (p, q) ∧ s.tab.peersOf x ≠ (q, p) := by
    rcases hpeers with h | h <;> rw [h] <;> constructor <;> intro he <;>
      simp only [Prod.mk.injEq] at he
    · exact hpc he.1.symm
    · exact hpd he.2.symm
    · exact hpd he.1.symm
    · exact hpc he.2.symm
  obtain ⟨sl₁, hw₁, hx₁, hp₁⟩ := SessionBetween.removeSessionBetween hw hx hne.1
  obtain ⟨sl₂, hw₂, hx₂, hp₂⟩ :=
    SessionBetween.removeSessionBetween hw₁ hx₁ (by rw [hp₁]; exact hne.2)
  rw [← htab] at hw₂ hp₂
  refine (Server.Ok.sessionBetween_iff hw₂).mpr ⟨x, hx₂, ?_⟩
  rw [hp₂, hp₁]
  exact hpeers

/-- It survives the opening of a session, or is turned round by it. -/
theorem SessionBetween.openSession (hb : SessionBetween s c d) (hok : s.Ok config)
    {env : SessionAlloc} {p q : Ptr} {t : Int} (hp : s.Live p) (hq : s.Live q)
    (hnone : s.tab.getSession p q = none)
    (hsome : ((s.tab.removeSessionBetween q p).addSession env p q t).1.isSome)
    (htab : s'.tab = ((s.tab.removeSessionBetween q p).addSession env p q t).2) :
    SessionBetween s' c d := by
  obtain ⟨cl, sl, hr, hw⟩ := hok
  obtain ⟨x, hx, hpeers⟩ := (Server.Ok.sessionBetween_iff hw).mp hb
  obtain ⟨sl', hmem, ⟨w', hadd, _⟩ | ⟨y, w', hadd, hw', hself, hother⟩⟩ :=
    hw.openSession_cases env t ((hr.heap_iff p).mp hp) ((hr.heap_iff q).mp hq) hnone
  · rw [hadd] at hsome
    cases hsome
  · have htab' : s'.tab = w' := by rw [htab, hadd]
    rw [← htab'] at hw' hself hother
    refine (Server.Ok.sessionBetween_iff hw').mpr ?_
    by_cases hxq : s.tab.peersOf x = (q, p)
    · -- the session of `c` and `d` is the one turned round
      refine ⟨y, List.mem_cons_self .., ?_⟩
      rw [hself]
      rcases hpeers with h | h <;> rw [hxq] at h <;>
        simp only [Prod.mk.injEq] at h <;> obtain ⟨rfl, rfl⟩ := h
      · exact .inr rfl
      · exact .inl rfl
    · have hx' : x ∈ sl' := (hmem x).mpr ⟨hx, hxq⟩
      refine ⟨x, List.mem_cons_of_mem _ hx', ?_⟩
      rw [hother x hx']
      exact hpeers

/-- A CLOSE_CONNECTION that does not come from the endpoint of `c` is not one of `c`. -/
theorem Kept.ne_of_close (hk : Kept s₀ c s) {rmsg : Message} {src : SockaddrIn} {env : Env}
    {p : Ptr} (hcc : ¬SentFrom .closeConnection (s₀.reg.addrOf c) (.packet rmsg src env))
    (htype : rmsg.type = .closeConnection) (hsrc : s.reg.addrOf p = src) : p ≠ c := by
  rintro rfl
  refine hcc ⟨htype, ?_⟩
  rw [← hsrc]
  exact congrArg Prod.fst hk.2

/-- A session between `c` and `d` survives every change that neither removes one of the
two nor is a CLOSE of one of them. -/
theorem SessionBetween.change (hb : SessionBetween s c d) (hok : s.Ok config)
    (halloc : AllocOk s₀ e) (hkc : Kept s₀ c s) (hkd : Kept s₀ d s)
    (hnc : ¬DropReason clock s₀ e s' c) (hnd : ¬DropReason clock s₀ e s' d)
    (hcc : ¬SentFrom .closeConnection (s₀.reg.addrOf c) e)
    (hcd : ¬SentFrom .closeConnection (s₀.reg.addrOf d) e)
    (hc : Change config clock s₀ e s s') : SessionBetween s' c d := by
  have hsame : s'.tab = s.tab → SessionBetween s' c d := fun htab => by
    rw [SessionBetween, htab]
    exact hb
  cases hc with
  | quiet _ htab _ => exact hsame htab
  | updateTime _ _ _ _ htab _ => exact hsame htab
  | drop p _ hdrop _ htab _ =>
    exact hb.drop hok (fun h => hnc (h ▸ hdrop)) (fun h => hnd (h ▸ hdrop)) htab
  | add _ _ _ _ _ _ _ _ _ _ htab _ => exact hsame htab
  | close rmsg src env p q he htype hsrc _ htab _ =>
    rw [he] at hcc hcd
    exact hb.close hok (hkc.ne_of_close hcc htype hsrc) (hkd.ne_of_close hcd htype hsrc) htab
  | openSession rmsg src env p q t he hp hq htab₀ hnone _ htab _ =>
    obtain ⟨cl, sl, hr, hw⟩ := hok
    rw [he] at halloc
    exact hb.openSession ⟨cl, sl, hr, hw⟩ hp hq hnone (halloc.addSession_isSome hw htab₀ p q t) htab
  | touchSession y t _ htab _ =>
    obtain ⟨cl, sl, hr, hw⟩ := hok
    obtain ⟨x, hx, hpeers⟩ := (Server.Ok.sessionBetween_iff hw).mp hb
    have hw' := hw.sessionUpdateTime t y
    rw [← htab] at hw'
    refine (Server.Ok.sessionBetween_iff hw').mpr ⟨x, hx, ?_⟩
    rw [htab, SessionTable.sessionUpdateTime_peersOf]
    exact hpeers

/-- Along a step that disturbs neither `c` nor `d`, and that is no CLOSE of one of them,
a session between them is kept. -/
theorem sessionBetween_of_changes (hok : s₀.Ok config) (hb : SessionBetween s₀ c d)
    (halloc : AllocOk s₀ e) (hlc : s₀.Live c) (hld : s₀.Live d)
    (hrc : ∀ k, s₀.ticks ≤ k → k < s'.ticks →
      clock k - (s₀.reg.clientAt c).time ≤ peerTimeout)
    (hrd : ∀ k, s₀.ticks ≤ k → k < s'.ticks →
      clock k - (s₀.reg.clientAt d).time ≤ peerTimeout)
    (hbc : ¬SentFrom .bye (s₀.reg.addrOf c) e) (hbd : ¬SentFrom .bye (s₀.reg.addrOf d) e)
    (hcc : ¬SentFrom .closeConnection (s₀.reg.addrOf c) e)
    (hcd : ¬SentFrom .closeConnection (s₀.reg.addrOf d) e)
    (hc : Changes config clock s₀ e s₀ s') : SessionBetween s' c d := by
  induction hc with
  | refl => exact hb
  | tail hcs hc ih =>
    have hrc' := fun k h₀ h => hrc k h₀ (Nat.lt_of_lt_of_le h hc.ticks_le)
    have hrd' := fun k h₀ h => hrd k h₀ (Nat.lt_of_lt_of_le h hc.ticks_le)
    exact (ih hrc' hrd').change (hok.changes hcs) halloc
      (kept_of_changes hok hlc hrc' hbc hcs) (kept_of_changes hok hld hrd' hbd hcs)
      (not_dropReason hrc hbc) (not_dropReason hrd hbd) hcc hcd hc

/-! ## Whole runs -/

/-- In every run from a reachable state in which `c` is listed, and whose steps do not
disturb it, `c` stays listed with the same data and is found under its endpoint. If there
is a session between `c` and `d`, there is one until the two are disturbed or close it. -/
theorem live_registration_undisturbed (hreach : Steps (step config clock) AnyStep .init s)
    (hc : Listed s c) :
    (∀ s', Steps (step config clock) (fun t e => AllocOk t e ∧ Undisturbed config clock c t e)
        s s' →
      Listed s' c ∧ registration s' c = registration s c ∧
        s'.reg.getClientReal (s.reg.addrOf c) = some c) ∧
    ∀ d, Listed s d → SessionBetween s c d →
      ∀ s', Steps (step config clock) (fun t e => AllocOk t e ∧
          Undisturbed config clock c t e ∧ Undisturbed config clock d t e ∧
          ¬SentFrom .closeConnection (t.reg.addrOf c) e ∧
          ¬SentFrom .closeConnection (t.reg.addrOf d) e) s s' →
        SessionBetween s' c d := by
  have hok := ok_of_steps hreach
  -- one step
  have hstep : ∀ (x : Ptr) (t : Server) (e : Event) (u : Server), t.Ok config → t.Live x →
      Undisturbed config clock x t e → step config clock t e = some u → Kept t x u :=
    fun x t e u hok hlive hund hs =>
      kept_of_changes hok hlive (hund.1 u hs) hund.2 (step_changes hok hs)
  refine ⟨fun s' hsteps => ?_, fun d hd hb s' hsteps => ?_⟩
  · have key : s'.Ok config ∧ Kept s c s' := by
      refine hsteps.invariant (P := fun t => t.Ok config ∧ Kept s c t)
        ⟨hok, hok.listed_iff.mp hc, rfl⟩ ?_
      rintro t e u ⟨hok, hlive, hreg⟩ ⟨_, hund⟩ hs
      obtain ⟨hlive', hreg'⟩ := hstep c t e u hok hlive hund hs
      exact ⟨hok.changes (step_changes hok hs), hlive', hreg'.trans hreg⟩
    obtain ⟨hok', hlive, hreg⟩ := key
    refine ⟨hok'.listed_iff.mpr hlive, hreg, ?_⟩
    obtain ⟨cl, _, hr, _⟩ := hok'
    exact hr.getClientReal_eq_some.mpr ⟨(hr.heap_iff c).mp hlive, congrArg Prod.fst hreg⟩
  · have key : s'.Ok config ∧ s'.Live c ∧ s'.Live d ∧ SessionBetween s' c d := by
      refine hsteps.invariant (P := fun t => t.Ok config ∧ t.Live c ∧ t.Live d ∧
        SessionBetween t c d) ⟨hok, hok.listed_iff.mp hc, hok.listed_iff.mp hd, hb⟩ ?_
      rintro t e u ⟨hok, hlc, hld, hb⟩ ⟨halloc, hundc, hundd, hcc, hcd⟩ hs
      refine ⟨hok.changes (step_changes hok hs), (hstep c t e u hok hlc hundc hs).1,
        (hstep d t e u hok hld hundd hs).1, ?_⟩
      exact sessionBetween_of_changes hok hb halloc hlc hld (hundc.1 u hs) (hundd.1 u hs)
        hundc.2 hundd.2 hcc hcd (step_changes hok hs)
    exact key.2.2.2

/-- The address `p` is free in both heaps, and stays so while nothing is allocated. -/
theorem allocOk_allocAt {rmsg : Message} {src : SockaddrIn} {p : Ptr}
    (hclient : s.reg.client.inUse p = false) (hsession : s.tab.session.inUse p = false) :
    AllocOk s (.packet rmsg src (allocAt p)) := by
  have hfree : ∀ used inUse : Ptr → Bool, used p = false →
      (∀ x, inUse x = true → used x = true) → inUse p = false := by
    intro used inUse hp hle
    cases h : inUse p with
    | false => rfl
    | true => rw [hle p h] at hp; cases hp
  refine ⟨fun inUse hle => ?_, rfl, rfl, fun inUse hle => ?_, rfl⟩
  · simp [allocAt, Malloc.at, hfree _ _ hclient hle]
  · simp [allocAt, Malloc.at, hfree _ _ hsession hle]

/-- A HELLO from a third endpoint that claims the VPN IP of the first client, on a full
server. -/
def intrusion : Event := .packet (hello 101) (endpoint 3) (allocAt 2)

theorem live_registration_undisturbed_intrusion :
    ∃ s s', Steps (step twoClients (fun _ => 0)) AnyStep .init s ∧
      step twoClients (fun _ => 0) s intrusion = some s' ∧
      Listed s' 0 ∧ s'.reg.getClientReal (endpoint 1) = some 0 ∧ SessionBetween s' 0 1 := by
  have hrun : (run (step twoClients (fun _ => 0)) crossingAsks .init).any (fun s =>
      s.reg.client.inUse 0 ∧ s.reg.client.inUse 1 ∧ s.reg.client.inUse 2 = false ∧
        s.tab.session.inUse 2 = false ∧ (s.reg.clientAt 0).time = 0 ∧
        (s.reg.clientAt 1).time = 0 ∧ s.reg.addrOf 0 = endpoint 1 ∧
        (s.tab.getSession 1 0).isSome) = true := by decide +kernel
  obtain ⟨s, hs, hobs⟩ := (Option.any_eq_true ..).mp hrun
  obtain ⟨h₀, h₁, h₂, hsess₂, ht₀, ht₁, ha₀, hsess⟩ := of_decide_eq_true hobs
  have hreach := Steps.of_run .refl hs
  have hok := ok_of_steps hreach
  obtain ⟨s', hs'⟩ : ∃ s', step twoClients (fun _ => 0) s intrusion = some s' := ⟨_, rfl⟩
  have halloc : AllocOk s intrusion := allocOk_allocAt h₂ hsess₂
  have hund : ∀ c, (s.reg.clientAt c).time = 0 →
      Undisturbed twoClients (fun _ => 0) c s intrusion := by
    intro c htime
    refine ⟨fun _ _ _ _ _ => by simp [htime, peerTimeout], ?_⟩
    rintro ⟨h, _⟩
    cases h
  have hclose : ∀ c, ¬SentFrom .closeConnection (s.reg.addrOf c) intrusion := by
    rintro c ⟨h, _⟩
    cases h
  obtain ⟨hentry, hsession⟩ := live_registration_undisturbed hreach (hok.listed_iff.mpr h₀)
  obtain ⟨hl, _, hget⟩ := hentry s' (.tail .refl ⟨halloc, hund 0 ht₀⟩ hs')
  refine ⟨s, s', hreach, hs', hl, by rw [← ha₀]; exact hget, ?_⟩
  exact hsession 1 (hok.listed_iff.mpr h₁) (.inr hsess) s'
    (.tail .refl ⟨halloc, hund 0 ht₀, hund 1 ht₁, hclose 0, hclose 1⟩ hs')

end Rdv
end Campagnol
