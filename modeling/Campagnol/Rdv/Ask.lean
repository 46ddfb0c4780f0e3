import Campagnol.Rdv.Invariants

/-!
# Answers to ASK_CONNECTION

An ASK_CONNECTION from a registered client is answered with one REJ_CONNECTION, or with
an ANS_CONNECTION to the asking client and a FWD_CONNECTION to the one asked for. The two
carry matching addresses, and leave a session from the first to the second.
-/

namespace Campagnol
namespace Rdv

open SearchTree

/-- The address of `q` that `p` is told, and the other way round: the local ones when both
clients gave a local port and have the same public IP, the public ones otherwise. -/
def toldAddress (s : Server) (p q : Ptr) : SockaddrIn :=
  if (s.reg.clientAt p).localaddr.sinPort ≠ 0 ∧ (s.reg.clientAt q).localaddr.sinPort ≠ 0 ∧
      (s.reg.addrOf p).sinAddr = (s.reg.addrOf q).sinAddr then
    (s.reg.clientAt q).localaddr
  else s.reg.addrOf q

/-- `add_session` is called, that is no session from `p` to `q` exists, and fails. It is
called after the second reading of the clock, and after a session from `q` to `p` has been
removed. -/
def AddSessionFails (clock : ℕ → Int) (env : Env) (s : Server) (p q : Ptr) : Prop :=
  s.tab.getSession p q = none ∧
    ((s.tab.removeSessionBetween q p).addSession env.session p q (clock (s.ticks + 1))).1 = none

/-- The REJ_CONNECTION for the VPN IP `v`. -/
def rejection (v : InAddr) (dst : SockaddrIn) : Datagram := ⟨⟨.rejConnection, 0, v, .empty⟩, dst⟩

/-- The message of type `type` that tells `p` about `q`. -/
def introduction (s : Server) (type : MsgType) (p q : Ptr) : Datagram :=
  ⟨⟨type, (toldAddress s p q).sinPort, (toldAddress s p q).sinAddr, s.reg.vpnOf q⟩, s.reg.addrOf p⟩

variable {config : Configuration} {clock : ℕ → Int} {s t : Server} {rmsg : Message}
  {src : SockaddrIn} {env : Env} {p q : Ptr}

/-! ## What is sent -/

/-- The condition on the two clients is symmetric. -/
theorem sendLocalIp_comm (s : Server) (p q : Ptr) : s.sendLocalIp p q = s.sendLocalIp q p := by
  simp only [Server.sendLocalIp, decide_eq_decide]
  constructor
  · rintro ⟨h₁, h₂, h₃⟩
    exact ⟨h₂, h₁, h₃.symm⟩
  · rintro ⟨h₁, h₂, h₃⟩
    exact ⟨h₂, h₁, h₃.symm⟩

theorem toldAddress_eq (s : Server) (p q : Ptr) :
    toldAddress s p q = if s.sendLocalIp p q then (s.reg.clientAt q).localaddr
      else s.reg.addrOf q := by
  simp only [toldAddress, Server.sendLocalIp, decide_eq_true_eq]

/-- `send_ANS` and `send_FWD` with the flag computed for the two clients. -/
theorem sendEndpoint_sent (type : MsgType) {b : Bool} (hreg : t.reg = s.reg)
    (hb : b = s.sendLocalIp p q) :
    (t.sendEndpoint type p q b).sent = t.sent ++ [introduction s type p q] := by
  have haddr : ∀ x, (s.reg.clientAt x).clientaddr = s.reg.addrOf x := fun _ => rfl
  have hvpn : ∀ x, (s.reg.clientAt x).vpnIP = s.reg.vpnOf x := fun _ => rfl
  subst hb
  simp only [Server.sendEndpoint, introduction, toldAddress_eq, hreg, haddr, hvpn]
  cases s.sendLocalIp p q <;> rfl

/-- The two introductions, when the server still has the registry of `s`. -/
theorem sendANS_sendFWD_sent {b : Bool} (hreg : t.reg = s.reg) (hb : b = s.sendLocalIp p q) :
    ((t.sendANS p q b).sendFWD q p b).sent = t.sent ++
      [introduction s .ansConnection p q, introduction s .fwdConnection q p] := by
  rw [Server.sendFWD, Server.sendANS, sendEndpoint_sent .fwdConnection
    (by rw [Server.sendEndpoint_reg, hreg]) (hb.trans (sendLocalIp_comm s p q)),
    sendEndpoint_sent .ansConnection hreg hb, List.append_assoc]
  rfl

/-! ## The answers -/

theorem handlePacket_ask (hp : s.reg.getClientReal src = some p)
    (ht : rmsg.type = .askConnection) :
    s.handlePacket config clock env rmsg src = s.handleAsk clock env rmsg src p := by
  simp only [Server.handlePacket, hp, ht]

/-- ASK_CONNECTION without a session: `add_session` decides between the two answers. -/
theorem askNewSession_sent (hreg : t.reg = s.reg) (b : Bool) (hb : b = s.sendLocalIp p q) :
    (t.askNewSession clock env rmsg src p q b).sent = t.sent ++
      if ((t.tab.removeSessionBetween q p).addSession env.session p q (t.now clock)).1 = none
      then [rejection rmsg.ip1 src]
      else [introduction s .ansConnection p q, introduction s .fwdConnection q p] := by
  unfold Server.askNewSession
  cases (t.tab.removeSessionBetween q p).addSession env.session p q (t.now clock) with
  | mk res tab =>
    cases res with
    | none => rfl
    | some x => exact sendANS_sendFWD_sent (t := { t.tick with tab := tab }) hreg hb

/-- ASK_CONNECTION with a session: it is announced to its two clients. -/
theorem askOldSession_sent {x : Ptr} (hreg : t.reg = s.reg) (hx : t.tab.peersOf x = (p, q)) :
    (t.askOldSession clock x (s.sendLocalIp p q)).sent = t.sent ++
      [introduction s .ansConnection p q, introduction s .fwdConnection q p] := by
  have h₁ : (t.tab.sessionAt x).peer1 = p := congrArg Prod.fst hx
  have h₂ : (t.tab.sessionAt x).peer2 = q := congrArg Prod.snd hx
  simp only [Server.askOldSession, h₁, h₂]
  exact sendANS_sendFWD_sent hreg rfl

/-- The rejections: nobody has the VPN IP, its client is timed out, or `add_session` fails. -/
theorem handleAsk_rejects (h : s.reg.getClientVPN rmsg.ip1 = none ∨
    ∃ q, s.reg.getClientVPN rmsg.ip1 = some q ∧
      (s.clientIsTimeout clock q = true ∨ AddSessionFails clock env s p q)) :
    (s.handleAsk clock env rmsg src p).sent = s.sent ++ [rejection rmsg.ip1 src] := by
  unfold Server.handleAsk
  rcases h with hnone | ⟨q, hq, hto | ⟨hnone, hfail⟩⟩
  · rw [hnone]
    rfl
  · simp only [hq, hto]
    rfl
  · cases hto : s.clientIsTimeout clock q with
    | true =>
      simp only [hq, hto]
      rfl
    | false =>
      simp only [hq, hto, hnone, Bool.false_eq_true, if_false]
      rw [askNewSession_sent (s := s) (t := s.tick) rfl _ rfl]
      exact congrArg (s.sent ++ ·) (if_pos hfail)

/-- The introductions, in both of the other cases. -/
theorem handleAsk_introduces {cl sl : List Ptr} (hw : s.tab.Inv cl sl)
    (hq : s.reg.getClientVPN rmsg.ip1 = some q) (hto : s.clientIsTimeout clock q = false)
    (hok : ¬AddSessionFails clock env s p q) :
    (s.handleAsk clock env rmsg src p).sent = s.sent ++
      [introduction s .ansConnection p q, introduction s .fwdConnection q p] := by
  unfold Server.handleAsk
  simp only [hq, hto, Bool.false_eq_true, if_false]
  cases hsess : s.tab.getSession p q with
  | none =>
    simp only
    rw [askNewSession_sent (s := s) (t := s.tick) rfl _ rfl]
    exact congrArg (s.sent ++ ·) (if_neg fun hfail => hok ⟨hsess, hfail⟩)
  | some x =>
    -- the recipients are taken from the stored session, which is the one from `p` to `q`
    exact askOldSession_sent (t := s.tick) rfl (hw.getSession_eq_some.mp hsess).2

/-! ## The session after them -/

/-- There is a session from `p` to `q`, and none back unless they are one. -/
def OneWay (w : SessionTable) (p q : Ptr) : Prop :=
  (w.getSession p q).isSome ∧ (p ≠ q → w.getSession q p = none)

/-- A new session goes from `p` to `q`, and the one from `q` to `p` was removed before. -/
theorem SessionTable.Inv.oneWay_opened {w : SessionTable} {cl sl : List Ptr} (hw : w.Inv cl sl)
    (hp : p ∈ cl) (hq : q ∈ cl) (hnone : w.getSession p q = none) {m : SessionAlloc} {now : Int}
    (hok : ((w.removeSessionBetween q p).addSession m p q now).1 ≠ none) :
    OneWay ((w.removeSessionBetween q p).addSession m p q now).2 p q := by
  obtain ⟨sl', hmem, ⟨w', hadd, _⟩ | ⟨x, w', hadd, hw', hself, hother⟩⟩ :=
    hw.openSession_cases m now hp hq hnone
  · rw [hadd] at hok
    exact absurd rfl hok
  · rw [hadd]
    have hsome : w'.getSession p q = some x :=
      hw'.getSession_eq_some.mpr ⟨List.mem_cons_self .., hself⟩
    refine ⟨Option.isSome_iff_exists.mpr ⟨x, hsome⟩, fun hpq => ?_⟩
    rw [hw'.getSession_eq_none]
    intro y hy
    rcases List.mem_cons.mp hy with rfl | hy
    · rw [hself]
      simp [hpq]
    · rw [hother y hy]
      exact ((hmem y).mp hy).2

/-- A stored session stays where it is when its time is updated. -/
theorem SessionTable.Inv.oneWay_updated {w : SessionTable} {cl sl : List Ptr} {x : Ptr}
    (hw : w.Inv cl sl) (hx : w.getSession p q = some x) (now : Int) :
    OneWay (w.sessionUpdateTime now x) p q := by
  obtain ⟨hxsl, hpeers⟩ := hw.getSession_eq_some.mp hx
  have hw' := hw.sessionUpdateTime now x
  have hsome : (w.sessionUpdateTime now x).getSession p q = some x :=
    hw'.getSession_eq_some.mpr ⟨hxsl, by rw [SessionTable.sessionUpdateTime_peersOf, hpeers]⟩
  refine ⟨Option.isSome_iff_exists.mpr ⟨x, hsome⟩, fun hpq => ?_⟩
  rw [hw'.getSession_eq_none]
  intro y hy
  rw [SessionTable.sessionUpdateTime_peersOf]
  intro hrev
  -- a session back would be this one
  obtain rfl := hw.one_way x hxsl y hy (by rw [hrev, hpeers]; rfl)
  rw [hpeers] at hrev
  exact hpq (congrArg Prod.fst hrev)

theorem handleAsk_oneWay {cl sl : List Ptr} (hw : s.tab.Inv cl sl) (hp : p ∈ cl) (hqcl : q ∈ cl)
    (hq : s.reg.getClientVPN rmsg.ip1 = some q) (hto : s.clientIsTimeout clock q = false)
    (hok : ¬AddSessionFails clock env s p q) :
    OneWay (s.handleAsk clock env rmsg src p).tab p q := by
  unfold Server.handleAsk
  simp only [hq, hto, Bool.false_eq_true, if_false]
  cases hsess : s.tab.getSession p q with
  | none =>
    simp only
    rw [(Server.askNewSession_fields clock env s.tick rmsg src p q _).2.1]
    exact hw.oneWay_opened hp hqcl hsess fun hfail => hok ⟨hsess, hfail⟩
  | some x =>
    simp only
    rw [(Server.askOldSession_fields clock s.tick x _).2.1, Server.tick_tab]
    exact hw.oneWay_updated hsess (s.tick.now clock)

/-- The answers to an ASK_CONNECTION for the VPN IP `v` from the endpoint of the client
`p`, in every reachable state. With `q` the client found under `v`: if there is none, if
it is timed out, or if `add_session` fails, exactly one REJ_CONNECTION is sent to `p`.
Otherwise exactly one ANS_CONNECTION about `q` is sent to `p` and one FWD_CONNECTION about
`p` to `q`; then there is a session from `p` to `q`, and none back unless they are one. -/
theorem ask_answers (hreach : Steps (step config clock) AnyStep .init s)
    (hp : s.reg.getClientReal src = some p) (ht : rmsg.type = .askConnection) :
    let s' := s.handlePacket config clock env rmsg src
    ((s.reg.getClientVPN rmsg.ip1 = none ∨ ∃ q, s.reg.getClientVPN rmsg.ip1 = some q ∧
        (s.clientIsTimeout clock q = true ∨ AddSessionFails clock env s p q)) →
      s'.sent = s.sent ++ [rejection rmsg.ip1 (s.reg.addrOf p)]) ∧
    ∀ q, s.reg.getClientVPN rmsg.ip1 = some q → s.clientIsTimeout clock q = false →
      ¬AddSessionFails clock env s p q →
      s.reg.vpnOf q = rmsg.ip1 ∧
      s'.sent = s.sent ++
        [introduction s .ansConnection p q, introduction s .fwdConnection q p] ∧
      (s'.tab.getSession p q).isSome ∧ (p ≠ q → s'.tab.getSession q p = none) := by
  obtain ⟨cl, sl, hr, hw⟩ := ok_of_steps hreach
  obtain ⟨hpcl, haddr⟩ := hr.getClientReal_eq_some.mp hp
  simp only
  rw [handlePacket_ask hp ht, haddr]
  refine ⟨handleAsk_rejects, fun q hq hto hok => ?_⟩
  obtain ⟨hqcl, hvpn⟩ := hr.getClientVPN_mem hq
  exact ⟨hvpn, handleAsk_introduces hw hq hto hok, handleAsk_oneWay hw hpcl hqcl hq hto hok⟩

/-- The first client asks for the second, which has asked for it before: the session is
turned round. -/
theorem ask_answers_crossing :
    ∃ s, Steps (step twoClients (fun _ => 0)) AnyStep .init s ∧
      (s.tab.getSession 1 0).isSome ∧
      let s' := s.handlePacket twoClients (fun _ => 0) (allocAt 2) ⟨.askConnection, 0, 102, 0⟩
        (endpoint 1)
      s'.sent = s.sent ++
        [introduction s .ansConnection 0 1, introduction s .fwdConnection 1 0] ∧
      (s'.tab.getSession 0 1).isSome ∧ s'.tab.getSession 1 0 = none := by
  have hrun : (run (step twoClients (fun _ => 0)) crossingAsks .init).any (fun s =>
      s.reg.getClientReal (endpoint 1) = some 0 ∧ s.reg.getClientVPN 102 = some 1 ∧
        s.clientIsTimeout (fun _ => 0) 1 = false ∧ (s.tab.getSession 1 0).isSome ∧
        ((s.tab.removeSessionBetween 1 0).addSession (allocAt 2).session 0 1 0).1 = some 2)
      = true := by decide +kernel
  obtain ⟨s, hs, hobs⟩ := (Option.any_eq_true ..).mp hrun
  obtain ⟨hreal, hvpn, hto, hsess, hadd⟩ := of_decide_eq_true hobs
  have hreach := Steps.of_run .refl hs
  have hok : ¬AddSessionFails (fun _ => 0) (allocAt 2) s 0 1 := by
    rintro ⟨_, hfail⟩
    rw [hadd] at hfail
    cases hfail
  have ht : (⟨.askConnection, 0, 102, 0⟩ : Message).type = .askConnection := rfl
  obtain ⟨_, hsent, hnew, hold⟩ := (ask_answers hreach hreal ht).2 1 hvpn hto hok
  exact ⟨s, hreach, hsess, hsent, hnew, hold (by decide)⟩

end Rdv
end Campagnol
