import Campagnol.Rdv.Hello
import Campagnol.Rdv.Invariants

/-!
# Cleaning is a filter

`clean_dead_clients` walks over the clients, and for every dead one over the sessions. `Without`
says what is left when some clients are gone: the other ones, and the sessions between them, as they
were and in their order. The walk adds the dead clients to those that are gone one by one
(`Without.dropClient`, `Without.foldl_cleanOne`).

A server that answers NOK to a new client although its VPN IP is free is therefore full of clients
that are not dead (`clean_exact`).
-/

namespace Campagnol
namespace Rdv

open Server

variable {config : Configuration} {s t : Server} {cl sl : List Ptr} {gone : Ptr → Bool} {p : Ptr}
  {now : Int}

/-- Neither of the clients of the session `x` is gone. -/
def bothStay (s : Server) (gone : Ptr → Bool) (x : Ptr) : Bool :=
  !gone (s.tab.sessionAt x).peer1 && !gone (s.tab.sessionAt x).peer2

/-- The server `t` is `s`, which has the clients `cl` and the sessions `sl`, without the clients
that are gone and their sessions. -/
structure Without (config : Configuration) (s : Server) (cl sl : List Ptr) (gone : Ptr → Bool)
    (t : Server) : Prop where
  reg : t.reg.Inv config (cl.filter fun p => !gone p)
  tab : t.tab.Inv (cl.filter fun p => !gone p) (sl.filter (bothStay s gone))
  clientAt : ∀ p ∈ cl, gone p = false → t.reg.clientAt p = s.reg.clientAt p
  sessionAt : ∀ x ∈ sl, bothStay s gone x = true → t.tab.sessionAt x = s.tab.sessionAt x

namespace Without

/-- Nobody is gone. -/
theorem refl (hr : s.reg.Inv config cl) (hw : s.tab.Inv cl sl) :
    Without config s cl sl (fun _ => false) s := by
  have hcl : cl.filter (fun _ => !false) = cl := List.filter_eq_self.mpr fun _ _ => rfl
  have hsl : sl.filter (bothStay s fun _ => false) = sl := List.filter_eq_self.mpr fun _ _ => rfl
  refine ⟨?_, ?_, fun _ _ _ => rfl, fun _ _ _ => rfl⟩
  · rw [hcl]
    exact hr
  · rw [hcl, hsl]
    exact hw

/-- Only what is said about the clients of `cl` matters. -/
theorem congr (h : Without config s cl sl gone t) (hw : s.tab.Inv cl sl) {gone' : Ptr → Bool}
    (hgone : ∀ p ∈ cl, gone' p = gone p) : Without config s cl sl gone' t := by
  have hcl : (cl.filter fun p => !gone' p) = cl.filter fun p => !gone p :=
    List.filter_congr fun p hp => by rw [hgone p hp]
  have hboth : ∀ x ∈ sl, bothStay s gone' x = bothStay s gone x := by
    intro x hx
    obtain ⟨h1, h2⟩ := hw.peers_mem x hx
    have hpeer1 : gone' (s.tab.sessionAt x).peer1 = gone (s.tab.sessionAt x).peer1 := hgone _ h1
    have hpeer2 : gone' (s.tab.sessionAt x).peer2 = gone (s.tab.sessionAt x).peer2 := hgone _ h2
    rw [bothStay, bothStay, hpeer1, hpeer2]
  have hsl : sl.filter (bothStay s gone') = sl.filter (bothStay s gone) :=
    List.filter_congr hboth
  refine ⟨hcl ▸ h.reg, ?_, fun p hp hstay => ?_, fun x hx hstay => ?_⟩
  · rw [hcl, hsl]
    exact h.tab
  · exact h.clientAt p hp (hgone p hp ▸ hstay)
  · exact h.sessionAt x hx (hboth x hx ▸ hstay)

theorem tick (h : Without config s cl sl gone t) : Without config s cl sl gone t.tick :=
  ⟨h.reg, h.tab, h.clientAt, h.sessionAt⟩

/-- One more client goes. -/
theorem dropClient (h : Without config s cl sl gone t) (hp : p ∈ cl) (hstay : gone p = false) :
    Without config s cl sl (fun q => gone q || q == p) (t.dropClient p) := by
  have hmem : p ∈ cl.filter fun q => !gone q := List.mem_filter.mpr ⟨hp, by rw [hstay]; rfl⟩
  have hcl : (cl.filter fun q => !gone q).erase p = cl.filter fun q => !(gone q || q == p) := by
    rw [h.reg.clients_list.nodup.erase_eq_filter, List.filter_filter]
    refine List.filter_congr fun q _ => ?_
    rw [Bool.not_or, Bool.and_comm]
    rfl
  -- a session that is still there has its old clients
  have hinvolves : ∀ x ∈ sl, bothStay s gone x = true →
      (!t.tab.involves p x) = (!((s.tab.sessionAt x).peer1 == p) &&
        !((s.tab.sessionAt x).peer2 == p)) := by
    intro x hx hboth
    rw [SessionTable.involves, h.sessionAt x hx hboth, Bool.decide_or, Bool.not_or]
    rfl
  have hboth : ∀ x, bothStay s (fun q => gone q || q == p) x =
      (bothStay s gone x && (!((s.tab.sessionAt x).peer1 == p) &&
        !((s.tab.sessionAt x).peer2 == p))) := by
    intro x
    simp only [bothStay, Bool.not_or]
    ac_rfl
  have hsl : (sl.filter (bothStay s gone)).filter (fun x => !t.tab.involves p x) =
      sl.filter (bothStay s fun q => gone q || q == p) := by
    rw [List.filter_filter]
    refine List.filter_congr fun x hx => ?_
    rw [hboth, Bool.and_comm]
    cases hstay : bothStay s gone x with
    | false => rfl
    | true => rw [hinvolves x hx hstay]
  have hr := h.reg.removeClient hmem
  obtain ⟨hw, hdata⟩ := h.tab.removeSessionsWithClient p
  rw [hcl] at hr hw
  rw [hsl] at hw hdata
  refine ⟨hr, hw, fun q hq hqstay => ?_, fun x hx hxstay => ?_⟩
  · obtain ⟨hqgone, hne⟩ : gone q = false ∧ q ≠ p := by simpa using hqstay
    exact (Registry.removeClient_clientAt_of_ne hne).trans (h.clientAt q hq hqgone)
  · have hx' := hdata x (List.mem_filter.mpr ⟨hx, hxstay⟩)
    rw [hboth, Bool.and_eq_true] at hxstay
    exact hx'.trans (h.sessionAt x hx hxstay.1)

/-- The walk over the clients `r`, which are all still there. -/
theorem foldl_cleanOne (hw : s.tab.Inv cl sl) (now : Int) :
    ∀ (r : List Ptr) {gone : Ptr → Bool} {t : Server}, Without config s cl sl gone t → r.Nodup →
      (∀ p ∈ r, p ∈ cl ∧ gone p = false) →
        Without config s cl sl (fun q => gone q || (r.contains q && s.reg.clientIsDead now q))
          (r.foldl (cleanOne fun _ => now) t) := by
  intro r
  induction r with
  | nil =>
    intro gone t h _ _
    exact h.congr hw fun q _ => Bool.or_false _
  | cons p r ih =>
    intro gone t h hnd hr
    obtain ⟨hpr, hnd⟩ := List.nodup_cons.mp hnd
    obtain ⟨hp, hstay⟩ := hr p (List.mem_cons_self ..)
    have hdead : t.clientIsDead (fun _ => now) p = s.reg.clientIsDead now p := by
      rw [Server.clientIsDead, Registry.clientIsDead, Registry.clientIsDead, h.clientAt p hp hstay]
      rfl
    rw [List.foldl_cons, cleanOne, hdead]
    cases hpdead : s.reg.clientIsDead now p with
    | false =>
      have h' := ih h.tick hnd fun q hq => hr q (List.mem_cons_of_mem _ hq)
      refine h'.congr hw fun q _ => ?_
      by_cases hqp : q = p
      · subst hqp
        simp [hpdead]
      · simp [hqp]
    | true =>
      have hgone : ∀ q ∈ r, q ∈ cl ∧ (gone q || q == p) = false := by
        intro q hq
        obtain ⟨hqcl, hqstay⟩ := hr q (List.mem_cons_of_mem _ hq)
        refine ⟨hqcl, ?_⟩
        rw [hqstay, Bool.false_or, beq_eq_false_iff_ne]
        exact fun e => hpr (e ▸ hq)
      have h' := ih (h.tick.dropClient hp hstay) hnd hgone
      refine h'.congr hw fun q _ => ?_
      by_cases hqp : q = p
      · subst hqp
        simp [hpdead]
      · have hbeq : (q == p) = false := beq_eq_false_iff_ne.mpr hqp
        simp [hqp, hbeq]

end Without

/-- The cleaning removes the clients that are dead. -/
theorem without_cleanDeadClients (hr : s.reg.Inv config cl) (hw : s.tab.Inv cl sl) (now : Int) :
    Without config s cl sl (s.reg.clientIsDead now) (s.cleanDeadClients fun _ => now) := by
  rw [cleanDeadClients_eq hr hw]
  have h := Without.foldl_cleanOne hw now cl (.refl hr hw) hr.clients_list.nodup
    fun p hp => ⟨hp, rfl⟩
  refine h.congr hw fun p hp => ?_
  simp [hp]

/-! ## A full server -/

/-- `max_clients` clients are registered, and none of them is dead. -/
def FullOfLiving (config : Configuration) (now : Int) (s : Server) : Prop :=
  ∃ cl, s.reg.clients.IsList cl ∧ s.reg.nClients = config.maxClients ∧
    (cl.length : Int) = config.maxClients ∧ ∀ p ∈ cl, s.reg.clientIsDead now p = false

/-- A cleaning leaves no dead client. -/
theorem Without.not_dead (h : Without config s cl sl (s.reg.clientIsDead now) t) :
    ∀ p ∈ cl.filter (fun p => !s.reg.clientIsDead now p), t.reg.clientIsDead now p = false := by
  intro p hp
  obtain ⟨hmem, halive⟩ := List.mem_filter.mp hp
  have halive : s.reg.clientIsDead now p = false := by simpa using halive
  rw [← halive, Registry.clientIsDead, Registry.clientIsDead, h.clientAt p hmem halive]

theorem not_answers_nok_of_register {clock : ℕ → Int} {env : Env} {rmsg : Message}
    {src : SockaddrIn} (hsent : t.sent = s.sent) :
    ¬ Answers .nok src s (t.register config clock env rmsg src) := by
  intro hnok
  unfold Server.register at hnok
  split at hnok
  · have hok : (t.sent ++ [answer .ok src] : List Datagram) = s.sent ++ [answer .nok src] := hnok
    rw [hsent, List.append_cancel_left_eq] at hok
    simp [answer] at hok
  · have hnone : t.sent = s.sent ++ [answer .nok src] := hnok
    rw [hsent] at hnone
    simp at hnone

/-- A new client with a free VPN IP is refused by a full server only. -/
theorem fullOfLiving_of_nok {env : Env} {rmsg : Message} {src : SockaddrIn} (hok : s.Ok config)
    (htype : rmsg.type = .hello) (hnew : s.reg.getClientReal src = none)
    (hvpn : s.reg.getClientVPN rmsg.ip1 = none)
    (hnok : Answers .nok src s (s.handlePacket config (fun _ => now) env rmsg src)) :
    FullOfLiving config now (s.handlePacket config (fun _ => now) env rmsg src) := by
  have heq : s.handlePacket config (fun _ => now) env rmsg src =
      s.helloFree config (fun _ => now) env rmsg src := by
    simp only [Server.handlePacket, hnew, htype, Server.helloUnknown, hvpn]
  rw [heq] at hnok ⊢
  unfold Server.helloFree at hnok ⊢
  split at hnok
  · rename_i hfull
    rw [if_pos hfull]
    dsimp only at hnok ⊢
    split at hnok
    · rename_i hstill
      obtain ⟨cl, sl, hr, hw⟩ := hok
      have hclean := without_cleanDeadClients hr hw now
      rw [if_pos hstill]
      exact ⟨_, hclean.reg.clients_list, hstill, hclean.reg.n_clients.symm.trans hstill,
        hclean.not_dead⟩
    · exact absurd hnok (not_answers_nok_of_register (cleanDeadClients_sent hok))
  · exact absurd hnok (not_answers_nok_of_register rfl)

/-- At the time `now` a cleaning keeps the clients that are not dead and the sessions between them,
and nothing else. A new client with a free VPN IP is refused only when there are as many clients as
there may be, none of them dead. -/
theorem clean_exact (hok : s.Ok config) (now : Int) :
    (∃ cl sl, s.reg.clients.IsList cl ∧ s.tab.sessions.IsList sl ∧
      Without config s cl sl (s.reg.clientIsDead now) (s.cleanDeadClients fun _ => now)) ∧
    ∀ env rmsg src, rmsg.type = .hello → s.reg.getClientReal src = none →
      s.reg.getClientVPN rmsg.ip1 = none →
        Answers .nok src s (s.handlePacket config (fun _ => now) env rmsg src) →
          FullOfLiving config now (s.handlePacket config (fun _ => now) env rmsg src) := by
  refine ⟨?_, fun env rmsg src => fullOfLiving_of_nok hok⟩
  obtain ⟨cl, sl, hr, hw⟩ := hok
  exact ⟨cl, sl, hr.clients_list, hw.sessions_list, without_cleanDeadClients hr hw now⟩

/-- The first client registers at the time 0, all that follows happens at 5. -/
def laterClock (k : ℕ) : Int := if k = 0 then 0 else 5

/-- At 11 the first of two clients is dead. It goes with the session of the two. At 5 it is not, and
a third client is refused. -/
theorem clean_exact_crossingAsks :
    ∃ s, Steps (step twoClients laterClock) AnyStep .init s ∧
      (s.reg.nClients = 2 ∧ s.tab.session.size = 1 ∧
        (s.cleanDeadClients fun _ => 11).reg.nClients = 1 ∧
        (s.cleanDeadClients fun _ => 11).tab.session.size = 0 ∧
        ∃ cl sl, s.reg.clients.IsList cl ∧ s.tab.sessions.IsList sl ∧
          Without twoClients s cl sl (s.reg.clientIsDead 11) (s.cleanDeadClients fun _ => 11)) ∧
      s.reg.getClientReal (endpoint 3) = none ∧ s.reg.getClientVPN 103 = none ∧
        FullOfLiving twoClients 5
          (s.handlePacket twoClients (fun _ => 5) (allocAt 2) (hello 103) (endpoint 3)) := by
  have hrun : (run (step twoClients laterClock) crossingAsks .init).map (fun s =>
      (s.reg.nClients, s.tab.session.size, (s.cleanDeadClients fun _ => 11).reg.nClients,
        (s.cleanDeadClients fun _ => 11).tab.session.size)) = some (2, 1, 1, 0) := by decide +kernel
  have hrefused : ((run (step twoClients laterClock) crossingAsks .init).map fun s =>
      (s.reg.getClientReal (endpoint 3), s.reg.getClientVPN 103,
        decide ((s.handlePacket twoClients (fun _ => 5) (allocAt 2) (hello 103) (endpoint 3)).sent =
          s.sent ++ [answer .nok (endpoint 3)]))) = some (none, none, true) := by decide +kernel
  obtain ⟨s, hs, heq⟩ := Option.map_eq_some_iff.mp hrun
  rw [hs, Option.map_some, Option.some.injEq] at hrefused
  simp only [Prod.mk.injEq] at heq hrefused
  obtain ⟨hn, hsize, hn', hsize'⟩ := heq
  obtain ⟨hreal, hvpn, hsent⟩ := hrefused
  have hsteps := Steps.of_run .refl hs
  have hok := ok_of_steps hsteps
  have hnok := of_decide_eq_true hsent
  refine ⟨s, hsteps, ⟨hn, hsize, hn', hsize', (clean_exact hok 11).1⟩, hreal, hvpn, ?_⟩
  exact (clean_exact hok 5).2 (allocAt 2) (hello 103) (endpoint 3) rfl hreal hvpn hnok

end Rdv
end Campagnol
