import Campagnol.Rdv.Ask

/-!
# The messages of the RDV server

What one step of the server sends (`step_sent`), and who can be registered
(`Registered.step`). A FWD_CONNECTION is sent for an ASK_CONNECTION only, to the client that is
asked for.
-/

namespace Campagnol
namespace Rdv

/-- A message to the client that a packet came from. -/
def IsReply (type : MsgType) : Prop :=
  type = .ok ∨ type = .nok ∨ type = .pong ∨ type = .reconnect ∨ type = .rejConnection ∨
    type = .ansConnection

/-- The FWD_CONNECTION for the packet of the step `e`, an ASK_CONNECTION from `p` for `q`. -/
def Forwarded (s : Server) (e : Event) (d : Datagram) : Prop :=
  ∃ rmsg src env p q, e = .packet rmsg src env ∧ rmsg.type = .askConnection ∧
    s.Live p ∧ s.reg.addrOf p = src ∧ s.Live q ∧ s.reg.vpnOf q = rmsg.ip1 ∧
    d = introduction s .fwdConnection q p

/-- From `s` to `s'` only messages that satisfy `P` have been sent. -/
def Sends (P : Datagram → Prop) (s s' : Server) : Prop :=
  ∃ msgs, s'.sent = s.sent ++ msgs ∧ ∀ d ∈ msgs, P d

/-- All clients have an endpoint and a VPN IP related by `R`. -/
def Registered (R : SockaddrIn → InAddr → Prop) (s : Server) : Prop :=
  ∀ p, s.Live p → R (s.reg.addrOf p) (s.reg.vpnOf p)

variable {config : Configuration} {clock : ℕ → Int} {s₀ s s' s'' : Server} {e : Event}
  {rmsg : Message} {src : SockaddrIn} {env : Env} {p : Ptr} {P : Datagram → Prop}

/-! ## What is sent -/

theorem Sends.of_eq (h : s'.sent = s.sent) : Sends P s s' :=
  ⟨[], h.trans (List.append_nil _).symm, List.forall_mem_nil _⟩

theorem Sends.one {d : Datagram} (h : s'.sent = s.sent ++ [d]) (hd : P d) : Sends P s s' :=
  ⟨[d], h, fun _ hmem => List.mem_singleton.mp hmem ▸ hd⟩

theorem Sends.trans (h : Sends P s s') (h' : Sends P s' s'') : Sends P s s'' := by
  obtain ⟨msgs, hsent, hmsgs⟩ := h
  obtain ⟨msgs', hsent', hmsgs'⟩ := h'
  refine ⟨msgs ++ msgs', by rw [hsent', hsent, List.append_assoc], fun d hd => ?_⟩
  rcases List.mem_append.mp hd with hd | hd
  · exact hmsgs d hd
  · exact hmsgs' d hd

/-- The messages of the step `e` from `s`. -/
def SentBy (s : Server) (e : Event) (d : Datagram) : Prop :=
  IsReply d.msg.type ∨ Forwarded s e d

theorem cleanDeadClients_sent (hok : s.Ok config) : (s.cleanDeadClients clock).sent = s.sent :=
  hok.cleanDeadClients_induction (M := fun t => t.sent = s.sent) rfl
    (fun _ _ ht => ht) (fun _ _ _ ht _ _ => ht)

theorem register_sends : Sends (SentBy s₀ e) s (s.register config clock env rmsg src) := by
  unfold Server.register
  split
  · exact .one rfl (.inl (.inl rfl))
  · exact .of_eq rfl

theorem helloFree_sends (hok : s.Ok config) :
    Sends (SentBy s₀ e) s (s.helloFree config clock env rmsg src) := by
  unfold Server.helloFree
  split
  · have hclean : Sends (SentBy s₀ e) s (s.cleanDeadClients clock) :=
      .of_eq (cleanDeadClients_sent hok)
    dsimp only
    split
    · exact hclean.trans (.one rfl (.inl (.inr (.inl rfl))))
    · exact hclean.trans register_sends
  · exact register_sends

theorem helloUnknown_sends (hok : s.Ok config) :
    Sends (SentBy s₀ e) s (s.helloUnknown config clock env rmsg src) := by
  unfold Server.helloUnknown
  split
  · rename_i q hq
    split
    · have hok' := hok.tick.dropClient (hok.live_of_getClientVPN hq).1
      have hdrop : Sends (SentBy s₀ e) s (s.tick.dropClient q) := .of_eq rfl
      exact hdrop.trans (helloFree_sends hok')
    · exact .one rfl (.inl (.inr (.inl rfl)))
  · exact helloFree_sends hok

theorem helloKnown_sends : Sends (SentBy s₀ e) s (s.helloKnown config clock env rmsg src p) := by
  unfold Server.helloKnown
  split
  · dsimp only
    split
    · exact .one rfl (.inl (.inl rfl))
    · have hdrop : Sends (SentBy s₀ e) s (s.tick.dropClient p) := .of_eq rfl
      exact hdrop.trans register_sends
  · exact .one rfl (.inl (.inr (.inl rfl)))

/-- The introductions of the two clients of a session. -/
theorem sends_introductions {q : Ptr} (hsent : s'.sent = s.sent ++
    [introduction s .ansConnection p q, introduction s .fwdConnection q p])
    (hfwd : Forwarded s e (introduction s .fwdConnection q p)) : Sends (SentBy s e) s s' := by
  refine ⟨_, hsent, fun d hd => ?_⟩
  rcases List.mem_cons.mp hd with rfl | hd
  · exact .inl (.inr (.inr (.inr (.inr (.inr rfl)))))
  · exact List.mem_singleton.mp hd ▸ .inr hfwd

theorem handleAsk_sends (hok : s.Ok config) (ht : rmsg.type = .askConnection) (hp : s.Live p)
    (hsrc : s.reg.addrOf p = src) :
    Sends (SentBy s (.packet rmsg src env)) s (s.handleAsk clock env rmsg src p) := by
  have hrej : IsReply .rejConnection := .inr (.inr (.inr (.inr (.inl rfl))))
  unfold Server.handleAsk
  split
  · exact .one rfl (.inl hrej)
  · rename_i q hq
    obtain ⟨hlive, hvpn⟩ := hok.live_of_getClientVPN hq
    have hfwd : Forwarded s (.packet rmsg src env) (introduction s .fwdConnection q p) :=
      ⟨rmsg, src, env, p, q, rfl, ht, hp, hsrc, hlive, hvpn, rfl⟩
    split
    · exact .one rfl (.inl hrej)
    · dsimp only
      split
      · have hsent : (s.tick.askNewSession clock env rmsg src p q (s.sendLocalIp p q)).sent = _ :=
          @askNewSession_sent clock s s.tick rmsg src env p q rfl _ rfl
        split at hsent
        · exact .one hsent (.inl hrej)
        · exact sends_introductions hsent hfwd
      · rename_i x hx
        obtain ⟨cl, sl, -, hw⟩ := hok
        exact sends_introductions
          (askOldSession_sent (t := s.tick) rfl (hw.getSession_eq_some.mp hx).2) hfwd

theorem handlePacket_sends (hok : s.Ok config) : Sends (SentBy s (.packet rmsg src env)) s
    (s.handlePacket config clock env rmsg src) := by
  unfold Server.handlePacket
  split
  · split
    · exact helloUnknown_sends hok
    · exact .one rfl (.inl (.inr (.inr (.inr (.inl rfl)))))
  · rename_i p hp
    obtain ⟨hlive, haddr⟩ := hok.live_of_getClientReal hp
    split
    · exact helloKnown_sends
    · exact .of_eq rfl
    · exact .one rfl (.inl (.inr (.inr (.inl rfl))))
    · rename_i ht
      exact handleAsk_sends hok ht hlive haddr
    · unfold Server.handleClose
      split <;> exact .of_eq rfl
    · exact .of_eq rfl

/-- What a step sends. -/
theorem step_sent (hok : s.Ok config) (hs : step config clock s e = some s') :
    Sends (SentBy s e) s s' := by
  cases e with
  | packet rmsg src env =>
    obtain rfl : s.handlePacket config clock env rmsg src = s' := by simpa [step] using hs
    exact handlePacket_sends hok
  | clean =>
    obtain rfl : s.cleanDeadClients clock = s' := by simpa [step] using hs
    exact .of_eq (cleanDeadClients_sent hok)
  | time =>
    obtain rfl : s.tick = s' := by simpa [step] using hs
    exact .of_eq rfl

/-! ## Who is registered -/

variable {R : SockaddrIn → InAddr → Prop}

theorem Registered.of_clientAt (h : Registered R s) (hp : s.Live p)
    (hdata : s'.reg.clientAt p = s.reg.clientAt p) : R (s'.reg.addrOf p) (s'.reg.vpnOf p) := by
  have haddr : s'.reg.addrOf p = s.reg.addrOf p := congrArg Client.clientaddr hdata
  have hvpn : s'.reg.vpnOf p = s.reg.vpnOf p := congrArg Client.vpnIP hdata
  rw [haddr, hvpn]
  exact h p hp

theorem Registered.of_reg (h : Registered R s) (hreg : s'.reg = s.reg) : Registered R s' := by
  intro p hp
  rw [Server.Live, hreg] at hp
  rw [hreg]
  exact h p hp

/-- Only a HELLO registers a client. -/
theorem Registered.change (h : Registered R s) (hok : s.Ok config)
    (hhello : ∀ rmsg src env, e = .packet rmsg src env → rmsg.type = .hello → R src rmsg.ip1)
    (hc : Change config clock s₀ e s s') : Registered R s' := by
  cases hc with
  | quiet hreg _ _ => exact h.of_reg hreg
  | updateTime q t _ hreg _ _ =>
    obtain ⟨cl, _, hr, _⟩ := hok
    have hkeys : ∀ p, s'.reg.addrOf p = s.reg.addrOf p ∧ s'.reg.vpnOf p = s.reg.vpnOf p := by
      intro p
      rw [hreg]
      exact Registry.clientUpdateTime_keys t q p
    intro p hp
    rw [(hkeys p).1, (hkeys p).2]
    refine h p ((hr.heap_iff p).mpr (((hr.clientUpdateTime t q).heap_iff p).mp ?_))
    rwa [Server.Live, hreg] at hp
  | drop q _ _ hreg _ _ =>
    intro p hp
    rw [Server.Live, hreg] at hp
    obtain ⟨hne, hlive⟩ := Server.dropClient_live (s := s) hp
    refine h.of_clientAt hlive ?_
    rw [hreg, Registry.removeClient_clientAt_of_ne hne]
  | add rmsg src env t localaddr he htype hnew _ hreg _ _ =>
    obtain ⟨cl, _, hr, _⟩ := hok
    rcases hr.addClient_cases env.client t rmsg.ip1 localaddr hnew with
      hfail | ⟨q, r', hadd, hadded⟩
    · rw [hfail] at hreg
      exact h.of_reg hreg
    · rw [hadd] at hreg
      intro p hp
      rw [Server.Live, hreg] at hp
      rcases List.mem_cons.mp ((hadded.inv.heap_iff p).mp hp) with rfl | hmem
      · have haddr : s'.reg.addrOf p = src := by
          rw [hreg]
          exact congrArg Client.clientaddr hadded.get_self
        have hvpn : s'.reg.vpnOf p = rmsg.ip1 := by
          rw [hreg]
          exact congrArg Client.vpnIP hadded.get_self
        rw [haddr, hvpn]
        exact hhello rmsg src env he htype
      · refine h.of_clientAt ((hr.heap_iff p).mpr hmem) ?_
        rw [hreg]
        exact hadded.get_other p hmem
  | close _ _ _ _ _ _ _ _ hreg _ _ => exact h.of_reg hreg
  | openSession _ _ _ _ _ _ _ _ _ _ _ hreg _ _ => exact h.of_reg hreg
  | touchSession _ _ hreg _ _ => exact h.of_reg hreg

theorem Registered.step (h : Registered R s) (hok : s.Ok config)
    (hhello : ∀ rmsg src env, e = .packet rmsg src env → rmsg.type = .hello → R src rmsg.ip1)
    (hs : step config clock s e = some s') : Registered R s' := by
  have hc := step_changes hok hs
  clear hs
  have key : s'.Ok config ∧ Registered R s' := by
    induction hc with
    | refl => exact ⟨hok, h⟩
    | tail _ hc ih => exact ⟨ih.1.change hc, ih.2.change ih.1 hhello hc⟩
  exact key.2

end Rdv
end Campagnol
