import Campagnol.Lib.Run
import Campagnol.Rdv.PeerTheorems
import Campagnol.Rdv.Server
import Campagnol.Rdv.SessionTheorems
import Mathlib.Logic.Relation

/-!
# What one step of the RDV server can do

`Change` lists the elementary changes a step is made of, each with the reason the code
has for it, and `step_changes` says that every step is a sequence of them. The results
about whole runs are proved by cases on `Change`; only this file looks at the branches
of `handle_packet`.
-/

namespace Campagnol
namespace Rdv

open SearchTree

/-- The registry and the session table are consistent. -/
def Server.Ok (config : Configuration) (s : Server) : Prop :=
  ∃ cl sl, s.reg.Inv config cl ∧ s.tab.Inv cl sl

/-- The client `p` is allocated. -/
abbrev Server.Live (s : Server) (p : Ptr) : Prop := s.reg.client.inUse p = true

/-- A HELLO that takes over a VPN IP: it comes from the endpoint of a registered client
that is timed out and had another VPN IP, and the VPN IP it claims is in use. -/
def Hijack (clock : ℕ → Int) (s : Server) : Event → Prop
  | .packet rmsg src _ =>
    rmsg.type = .hello ∧ (s.reg.getClientVPN rmsg.ip1).isSome ∧
      ∃ p ∈ s.reg.getClientReal src, s.clientIsTimeout clock p ∧ s.reg.vpnOf p ≠ rmsg.ip1
  | _ => False

instance (clock : ℕ → Int) (s : Server) (e : Event) : Decidable (Hijack clock s e) :=
  match e with
  | .packet rmsg src _ =>
    inferInstanceAs (Decidable (rmsg.type = .hello ∧ (s.reg.getClientVPN rmsg.ip1).isSome ∧
      ∃ p ∈ s.reg.getClientReal src, s.clientIsTimeout clock p ∧ s.reg.vpnOf p ≠ rmsg.ip1))
  | .clean => isFalse id
  | .time => isFalse id

section changes
variable (config : Configuration) (clock : ℕ → Int) (s₀ : Server) (e : Event)

/-- The reasons to remove a client during a step that began in `s₀`: the step read the
clock and found it timed out, or it said BYE. -/
inductive DropReason (s' : Server) (p : Ptr) : Prop
  | expired (k : ℕ) (h₀ : s₀.ticks ≤ k) (h' : k < s'.ticks)
      (ht : clock k - (s₀.reg.clientAt p).time > peerTimeout)
  | bye (rmsg : Message) (src : SockaddrIn) (env : Env) (he : e = .packet rmsg src env)
      (ht : rmsg.type = .bye) (hs : s₀.reg.addrOf p = src)

/-- The elementary changes made by the step `e` that began in `s₀`. -/
inductive Change : Server → Server → Prop
  /-- Only the clock is read or messages are sent. -/
  | quiet {s s' : Server} (hreg : s'.reg = s.reg) (htab : s'.tab = s.tab)
      (hticks : s.ticks ≤ s'.ticks) : Change s s'
  /-- `client_update_time`. -/
  | updateTime {s s' : Server} (p : Ptr) (t : Int) (hlive : s.Live p)
      (hreg : s'.reg = s.reg.clientUpdateTime t p) (htab : s'.tab = s.tab)
      (hticks : s.ticks ≤ s'.ticks) : Change s s'
  /-- `remove_sessions_with_client; remove_client`. -/
  | drop {s s' : Server} (p : Ptr) (hlive : s.Live p) (hdrop : DropReason clock s₀ e s' p)
      (hreg : s'.reg = s.reg.removeClient p) (htab : s'.tab = s.tab.removeSessionsWithClient p)
      (hticks : s.ticks ≤ s'.ticks) : Change s s'
  /-- `add_client` for a HELLO, whose endpoint is not registered. -/
  | add {s s' : Server} (rmsg : Message) (src : SockaddrIn) (env : Env) (t : Int)
      (localaddr : SockaddrIn) (he : e = .packet rmsg src env) (htype : rmsg.type = .hello)
      (hnew : s.reg.getClientReal src = none)
      (hvpn : s.reg.getClientVPN rmsg.ip1 = none ∨ Hijack clock s₀ e)
      (hreg : s'.reg = (s.reg.addClient config env.client t src rmsg.ip1 localaddr).2)
      (htab : s'.tab = s.tab) (hticks : s.ticks ≤ s'.ticks) : Change s s'
  /-- CLOSE_CONNECTION from `p`. -/
  | close {s s' : Server} (rmsg : Message) (src : SockaddrIn) (env : Env) (p q : Ptr)
      (he : e = .packet rmsg src env) (htype : rmsg.type = .closeConnection)
      (hsrc : s.reg.addrOf p = src) (hreg : s'.reg = s.reg)
      (htab : s'.tab = (s.tab.removeSessionBetween p q).removeSessionBetween q p)
      (hticks : s.ticks ≤ s'.ticks) : Change s s'
  /-- A session from `p` to `q` is asked for, and there is none. -/
  | openSession {s s' : Server} (rmsg : Message) (src : SockaddrIn) (env : Env) (p q : Ptr)
      (t : Int) (he : e = .packet rmsg src env) (hp : s.Live p) (hq : s.Live q)
      (htab₀ : s.tab = s₀.tab) (hnone : s.tab.getSession p q = none) (hreg : s'.reg = s.reg)
      (htab : s'.tab = ((s.tab.removeSessionBetween q p).addSession env.session p q t).2)
      (hticks : s.ticks ≤ s'.ticks) : Change s s'
  /-- `session_update_time`. -/
  | touchSession {s s' : Server} (x : Ptr) (t : Int) (hreg : s'.reg = s.reg)
      (htab : s'.tab = s.tab.sessionUpdateTime t x) (hticks : s.ticks ≤ s'.ticks) : Change s s'

/-- A sequence of elementary changes. -/
abbrev Changes : Server → Server → Prop := Relation.ReflTransGen (Change config clock s₀ e)

end changes

variable {config : Configuration} {clock : ℕ → Int} {s₀ s s' : Server} {e : Event}

theorem Change.ticks_le (h : Change config clock s₀ e s s') : s.ticks ≤ s'.ticks := by
  cases h <;> assumption

/-! ## Consistency -/

namespace Server

theorem ok_init (config : Configuration) : init.Ok config :=
  ⟨[], [], Registry.inv_init config, SessionTable.inv_init⟩

theorem Ok.of_eq (h : s.Ok config) (hreg : s'.reg = s.reg) (htab : s'.tab = s.tab) :
    s'.Ok config := by
  rw [Ok, hreg, htab]
  exact h

theorem Ok.dropClient (h : s.Ok config) {p : Ptr} (hp : s.Live p) : (s.dropClient p).Ok config := by
  obtain ⟨cl, sl, hr, hw⟩ := h
  exact ⟨cl.erase p, _, hr.removeClient ((hr.heap_iff p).mp hp),
    (hw.removeSessionsWithClient p).1⟩

/-- Every elementary change keeps the server consistent. -/
theorem Ok.change (h : s.Ok config) (hc : Change config clock s₀ e s s') : s'.Ok config := by
  cases hc with
  | quiet hreg htab _ => exact h.of_eq hreg htab
  | updateTime p t _ hreg htab _ =>
    obtain ⟨cl, sl, hr, hw⟩ := h
    exact ⟨cl, sl, hreg ▸ hr.clientUpdateTime t p, htab ▸ hw⟩
  | drop p hlive _ hreg htab _ =>
    exact (h.dropClient hlive).of_eq hreg htab
  | add rmsg _ env t localaddr _ _ hnew _ hreg htab _ =>
    obtain ⟨cl, sl, hr, hw⟩ := h
    rcases hr.addClient_cases env.client t rmsg.ip1 localaddr hnew with
      hfail | ⟨p, r', hadd, hadded⟩
    · rw [hfail] at hreg
      exact ⟨cl, sl, hreg ▸ hr, htab ▸ hw⟩
    · rw [hadd] at hreg
      refine ⟨p :: cl, sl, hreg ▸ hadded.inv, htab ▸ hw.mono fun q hq => ?_⟩
      exact List.mem_cons_of_mem _ hq
  | close _ _ _ p q _ _ _ hreg htab _ =>
    obtain ⟨cl, sl, hr, hw⟩ := h
    obtain ⟨sl₁, hw₁, _, _⟩ := hw.removeSessionBetween p q
    obtain ⟨sl₂, hw₂, _, _⟩ := hw₁.removeSessionBetween q p
    exact ⟨cl, sl₂, hreg ▸ hr, htab ▸ hw₂⟩
  | openSession _ _ env p q t _ hp hq _ hnone hreg htab _ =>
    obtain ⟨cl, sl, hr, hw⟩ := h
    obtain ⟨sl', _, ⟨w', hadd, hinv⟩ | ⟨x, w', hadd, hinv, _⟩⟩ := hw.openSession_cases env.session t
      ((hr.heap_iff p).mp hp) ((hr.heap_iff q).mp hq) hnone
    · rw [hadd] at htab
      exact ⟨cl, sl', hreg ▸ hr, htab ▸ hinv⟩
    · rw [hadd] at htab
      exact ⟨cl, x :: sl', hreg ▸ hr, htab ▸ hinv⟩
  | touchSession x t hreg htab _ =>
    obtain ⟨cl, sl, hr, hw⟩ := h
    exact ⟨cl, sl, hreg ▸ hr, htab ▸ hw.sessionUpdateTime t x⟩

theorem Ok.changes (h : s.Ok config) (hc : Changes config clock s₀ e s s') : s'.Ok config := by
  induction hc with
  | refl => exact h
  | tail _ hc ih => exact ih.change hc

/-! ## Lookups in a consistent server -/

theorem Ok.live_of_getClientReal (h : s.Ok config) {a : SockaddrIn} {p : Ptr}
    (hp : s.reg.getClientReal a = some p) : s.Live p ∧ s.reg.addrOf p = a := by
  obtain ⟨cl, _, hr, _⟩ := h
  obtain ⟨hmem, ha⟩ := hr.getClientReal_eq_some.mp hp
  exact ⟨(hr.heap_iff p).mpr hmem, ha⟩

theorem Ok.live_of_getClientVPN (h : s.Ok config) {v : InAddr} {p : Ptr}
    (hp : s.reg.getClientVPN v = some p) : s.Live p ∧ s.reg.vpnOf p = v := by
  obtain ⟨cl, _, hr, _⟩ := h
  obtain ⟨hmem, hv⟩ := hr.getClientVPN_mem hp
  exact ⟨(hr.heap_iff p).mpr hmem, hv⟩

/-! ## Only removals so far -/

/-- Since `s₀` clients may have been removed, and nothing else happened to them: what is
left has its old data, and no lookup finds what it did not find before. -/
structure Shrunk (s₀ s : Server) : Prop where
  live : ∀ p, s.Live p → s₀.Live p ∧ s.reg.clientAt p = s₀.reg.clientAt p
  real_none : ∀ a, s₀.reg.getClientReal a = none → s.reg.getClientReal a = none
  vpn_none : ∀ v, s₀.reg.getClientVPN v = none → s.reg.getClientVPN v = none
  ticks_le : s₀.ticks ≤ s.ticks

theorem Shrunk.refl (s : Server) : Shrunk s s :=
  ⟨fun _ h => ⟨h, rfl⟩, fun _ h => h, fun _ h => h, Nat.le_refl _⟩

theorem Shrunk.of_eq (h : Shrunk s₀ s) (hreg : s'.reg = s.reg) (hticks : s.ticks ≤ s'.ticks) :
    Shrunk s₀ s' := by
  refine ⟨fun p hp => ?_, fun a ha => ?_, fun v hv => ?_, Nat.le_trans h.ticks_le hticks⟩
  · rw [Live, hreg] at hp
    rw [hreg]
    exact h.live p hp
  · rw [hreg]
    exact h.real_none a ha
  · rw [hreg]
    exact h.vpn_none v hv

theorem Shrunk.tick (h : Shrunk s₀ s) : Shrunk s₀ s.tick := h.of_eq rfl (Nat.le_succ _)

theorem dropClient_live {p q : Ptr} (h : (s.dropClient p).Live q) : q ≠ p ∧ s.Live q :=
  Heap.inUse_free.mp h

theorem Shrunk.dropClient (h : Shrunk s₀ s) (hok : s.Ok config) {p : Ptr} (hp : s.Live p) :
    Shrunk s₀ (s.dropClient p) := by
  have hok' := hok.dropClient hp
  obtain ⟨cl, _, hr, _⟩ := hok
  obtain ⟨cl', _, hr', _⟩ := hok'
  have hkey : ∀ q, (s.dropClient p).Live q →
      s.Live q ∧ (s.dropClient p).reg.clientAt q = s.reg.clientAt q := fun q hq =>
    ⟨(dropClient_live hq).2, Registry.removeClient_clientAt_of_ne (dropClient_live hq).1⟩
  refine ⟨fun q hq => ?_, fun a ha => ?_, fun v hv => ?_, h.ticks_le⟩
  · obtain ⟨hlive, hdata⟩ := hkey q hq
    exact ⟨(h.live q hlive).1, hdata.trans (h.live q hlive).2⟩
  · rw [hr'.getClientReal_eq_none]
    intro q hq
    obtain ⟨hlive, hdata⟩ := hkey q ((hr'.heap_iff q).mpr hq)
    have := hr.getClientReal_eq_none.mp (h.real_none a ha) q ((hr.heap_iff q).mp hlive)
    rwa [show (s.dropClient p).reg.addrOf q = s.reg.addrOf q from
      congrArg Client.clientaddr hdata]
  · rw [Registry.getClientVPN, tfind_eq_none_iff hr'.vpn_ordered]
    intro q hq
    obtain ⟨hlive, hdata⟩ := hkey q ((hr'.heap_iff q).mpr (hr'.vpn_mem q hq))
    have := (tfind_eq_none_iff hr.vpn_ordered).mp (h.vpn_none v hv) q
      (hr.mem_vpnRoot_removeClient.mp hq).1
    rwa [show vpnKey (s.dropClient p).reg.client q = vpnKey s.reg.client q from
      congrArg Client.vpnIP hdata]

/-! ## `clean_dead_clients` -/

/-- The body of the walk over the clients. -/
def cleanOne (clock : ℕ → Int) (s : Server) (p : Ptr) : Server :=
  if s.clientIsDead clock p then s.tick.dropClient p else s.tick

theorem Ok.tick (h : s.Ok config) : s.tick.Ok config := h.of_eq rfl rfl

/-- The walk is a fold over the clients that are listed when it starts. -/
theorem cleanDeadClients_eq {cl sl : List Ptr} (hr : s.reg.Inv config cl)
    (hw : s.tab.Inv cl sl) : s.cleanDeadClients clock = cl.foldl (cleanOne clock) s := by
  rw [cleanDeadClients, hr.clients_list.head_eq]
  refine Links.walk_eq_foldl _ _
    (fun s r => ∃ pre sl, s.reg.Inv config (pre ++ r) ∧ s.tab.Inv (pre ++ r) sl) ?_ cl _ s
    ⟨[], sl, hr, hw⟩ (Nat.le_of_eq hr.heap_size.symm)
  rintro s p r ⟨pre, sl, hr, hw⟩
  refine ⟨(hr.clients_list.links pre p r rfl).2, ?_⟩
  have hsplit := Links.nodup_split hr.clients_list.nodup
  by_cases hp : s.clientIsDead clock p = true
  · have hr' := hr.removeClient (p := p) (by simp)
    have hw' := (hw.removeSessionsWithClient p).1
    rw [List.erase_append_right _ hsplit.1, List.erase_cons_head] at hr' hw'
    rw [if_pos hp]
    exact ⟨pre, _, hr', hw'⟩
  · rw [if_neg hp]
    exact ⟨pre ++ [p], sl, by simpa using hr, by simpa using hw⟩

/-- What holds at the start of a cleaning and survives each visit holds at the end. -/
theorem Ok.cleanDeadClients_induction (h : s.Ok config) {M : Server → Prop} (h0 : M s)
    (hkeep : ∀ t, t.Ok config → M t → M t.tick)
    (hdrop : ∀ t p, t.Ok config → M t → t.Live p → t.clientIsDead clock p = true →
      M (t.tick.dropClient p)) :
    M (s.cleanDeadClients clock) := by
  obtain ⟨cl, sl, hr, hw⟩ := h
  rw [cleanDeadClients_eq hr hw]
  -- `r` is what is left of the list, `pre` the clients visited and kept
  have key : ∀ (r pre : List Ptr) (t : Server), (∃ sl, t.reg.Inv config (pre ++ r) ∧
      t.tab.Inv (pre ++ r) sl) → M t → M (r.foldl (cleanOne clock) t) := by
    intro r
    induction r with
    | nil => intro _ t _ ht; exact ht
    | cons p r ih =>
      rintro pre t ⟨sl, hr, hw⟩ ht
      have hok : t.Ok config := ⟨_, sl, hr, hw⟩
      simp only [List.foldl_cons, cleanOne]
      by_cases hp : t.clientIsDead clock p = true
      · rw [if_pos hp]
        have hr' := hr.removeClient (p := p) (by simp)
        have hw' := (hw.removeSessionsWithClient p).1
        rw [List.erase_append_right _ (Links.nodup_split hr.clients_list.nodup).1,
          List.erase_cons_head] at hr' hw'
        exact ih pre _ ⟨_, hr', hw'⟩
          (hdrop t p hok ht ((hr.heap_iff p).mpr (by simp)) hp)
      · rw [if_neg hp]
        exact ih (pre ++ [p]) _ ⟨sl, by simpa using hr, by simpa using hw⟩ (hkeep t hok ht)
  exact key cl [] s ⟨sl, hr, hw⟩ h0

theorem Shrunk.cleanDeadClients (h : Shrunk s₀ s) (hok : s.Ok config) :
    Shrunk s₀ (s.cleanDeadClients clock) :=
  hok.cleanDeadClients_induction h
    (fun _ _ ht => ht.tick)
    (fun _ _ hok ht hp _ => ht.tick.dropClient hok.tick hp)

/-- A cleaning is a sequence of removals, each after a reading of the clock. -/
theorem Ok.clean_changes (hok : s.Ok config) (h : Shrunk s₀ s) :
    Changes config clock s₀ e s (s.cleanDeadClients clock) := by
  refine (hok.cleanDeadClients_induction (M := fun t => Shrunk s₀ t ∧
    Changes config clock s₀ e s t) ⟨h, .refl⟩ ?_ ?_).2
  · rintro t _ ⟨hsh, hc⟩
    exact ⟨hsh.tick, hc.tail (.quiet rfl rfl (Nat.le_succ _))⟩
  · rintro t p hok ⟨hsh, hc⟩ hp hdead
    refine ⟨hsh.tick.dropClient hok.tick hp, hc.tail ?_⟩
    have hdead : clock t.ticks - (s₀.reg.clientAt p).time > 2 * peerTimeout := by
      rw [← (hsh.live p hp).2]
      simpa [clientIsDead, Registry.clientIsDead, now] using hdead
    have hexp : clock t.ticks - (s₀.reg.clientAt p).time > peerTimeout := by
      simp only [peerTimeout] at hdead ⊢
      omega
    exact .drop p hp (.expired t.ticks hsh.ticks_le (Nat.lt_succ_self _) hexp) rfl rfl
      (Nat.le_succ _)

/-! ## `handle_packet`, branch by branch -/

section packet
variable {rmsg : Message} {src : SockaddrIn} {env : Env} {p : Ptr}

theorem register_fields (config : Configuration) (clock : ℕ → Int) (env : Env) (s : Server)
    (rmsg : Message) (src : SockaddrIn) :
    (register config clock env s rmsg src).reg = (s.reg.addClient config env.client
        (s.now clock) src rmsg.ip1 (localaddrOf rmsg)).2 ∧
      (register config clock env s rmsg src).tab = s.tab ∧
      (register config clock env s rmsg src).ticks = s.ticks + 1 := by
  unfold register
  cases s.reg.addClient config env.client (s.now clock) src rmsg.ip1 (localaddrOf rmsg) with
  | mk res reg => cases res <;> exact ⟨rfl, rfl, rfl⟩

theorem register_changes (htype : rmsg.type = .hello) (hnew : s.reg.getClientReal src = none)
    (hvpn : s.reg.getClientVPN rmsg.ip1 = none ∨ Hijack clock s₀ (.packet rmsg src env)) :
    Changes config clock s₀ (.packet rmsg src env) s (register config clock env s rmsg src) := by
  obtain ⟨hreg, htab, hticks⟩ := register_fields config clock env s rmsg src
  exact .single (.add rmsg src env _ _ rfl htype hnew hvpn hreg htab (by omega))

theorem helloFree_changes (hok : s.Ok config) (h : Shrunk s₀ s) (htype : rmsg.type = .hello)
    (hnew : s.reg.getClientReal src = none) (hvpn : s.reg.getClientVPN rmsg.ip1 = none) :
    Changes config clock s₀ (.packet rmsg src env) s
      (helloFree config clock env s rmsg src) := by
  unfold helloFree
  split
  · have hclean : Changes config clock s₀ (.packet rmsg src env) s (s.cleanDeadClients clock) :=
      hok.clean_changes h
    have hsh : Shrunk s (s.cleanDeadClients clock) := (Shrunk.refl s).cleanDeadClients hok
    simp only
    split
    · exact hclean.tail (.quiet rfl rfl (Nat.le_refl _))
    · exact hclean.trans
        (register_changes htype (hsh.real_none _ hnew) (.inl (hsh.vpn_none _ hvpn)))
  · exact register_changes htype hnew (.inl hvpn)

/-- Removing the client found under a VPN IP makes that VPN IP free. -/
theorem Ok.getClientVPN_dropClient (hok : s.Ok config) {v : InAddr}
    (hp : s.reg.getClientVPN v = some p) : (s.dropClient p).reg.getClientVPN v = none := by
  obtain ⟨hlive, hv⟩ := hok.live_of_getClientVPN hp
  have hok' := hok.dropClient hlive
  obtain ⟨cl, _, hr, _⟩ := hok
  obtain ⟨cl', _, hr', _⟩ := hok'
  rw [Registry.getClientVPN, tfind_eq_none_iff hr'.vpn_ordered]
  intro q hq
  have hne := (hr.mem_vpnRoot_removeClient.mp hq).2
  have hqp : q ≠ p := fun e => hne (by rw [e])
  rw [show vpnKey (s.dropClient p).reg.client q = s.reg.vpnOf q from
    congrArg Client.vpnIP (Registry.removeClient_clientAt_of_ne hqp), ← hv]
  exact hne

theorem helloUnknown_changes (hok : s.Ok config) (htype : rmsg.type = .hello)
    (hnew : s.reg.getClientReal src = none) :
    Changes config clock s (.packet rmsg src env) s
      (helloUnknown config clock env s rmsg src) := by
  unfold helloUnknown
  split
  · rename_i q hq
    obtain ⟨hlive, _⟩ := hok.live_of_getClientVPN hq
    split
    · rename_i hto
      have hto : clock s.ticks - (s.reg.clientAt q).time > peerTimeout := by
        simpa [clientIsTimeout, Registry.clientIsTimeout, now] using hto
      have hsh : Shrunk s (s.tick.dropClient q) :=
        (Shrunk.refl s).tick.dropClient hok.tick hlive
      have hdrop : Change config clock s (.packet rmsg src env) s (s.tick.dropClient q) :=
        .drop q hlive (.expired s.ticks (Nat.le_refl _) (Nat.lt_succ_self _) hto) rfl rfl
          (Nat.le_succ _)
      exact .head hdrop (helloFree_changes (hok.tick.dropClient hlive) hsh htype
        (hsh.real_none _ hnew) (hok.tick.getClientVPN_dropClient hq))
    · exact .single (.quiet rfl rfl (Nat.le_succ _))
  · rename_i hnone
    exact helloFree_changes hok (.refl s) htype hnew hnone

/-- The endpoint of a removed client is free, since no other client has it. -/
theorem Ok.getClientReal_dropClient (hok : s.Ok config) (hp : s.reg.getClientReal src = some p) :
    (s.dropClient p).reg.getClientReal src = none := by
  obtain ⟨hlive, haddr⟩ := hok.live_of_getClientReal hp
  have hok' := hok.dropClient hlive
  obtain ⟨cl', _, hr', _⟩ := hok'
  obtain ⟨cl, _, hr, _⟩ := hok
  rw [hr'.getClientReal_eq_none]
  intro q hq ha
  obtain ⟨hqp, hqlive⟩ := dropClient_live ((hr'.heap_iff q).mpr hq)
  have hqa : s.reg.addrOf q = src := by
    rw [← ha]
    exact (congrArg Client.clientaddr (Registry.removeClient_clientAt_of_ne hqp)).symm
  exact hqp (hr.addrOf_inj ((hr.heap_iff q).mp hqlive) ((hr.heap_iff p).mp hlive)
    (hqa.trans haddr.symm))

theorem helloKnown_changes (hok : s.Ok config) (hp : s.reg.getClientReal src = some p)
    (htype : rmsg.type = .hello) :
    Changes config clock s (.packet rmsg src env) s
      (helloKnown config clock env s rmsg src p) := by
  obtain ⟨hlive, haddr⟩ := hok.live_of_getClientReal hp
  unfold helloKnown
  split
  · rename_i hto
    simp only
    split
    · exact .single (.updateTime p _ hlive rfl rfl (Nat.le_add_right _ 2))
    · rename_i hvpn
      have hexp : clock s.ticks - (s.reg.clientAt p).time > peerTimeout := by
        simpa [clientIsTimeout, Registry.clientIsTimeout, now] using hto
      have hsh : Shrunk s (s.tick.dropClient p) :=
        (Shrunk.refl s).tick.dropClient hok.tick hlive
      have hdrop : Change config clock s (.packet rmsg src env) s (s.tick.dropClient p) :=
        .drop p hlive (.expired s.ticks (Nat.le_refl _) (Nat.lt_succ_self _) hexp) rfl rfl
          (Nat.le_succ _)
      have hnew : (s.tick.dropClient p).reg.getClientReal src = none :=
        hok.tick.getClientReal_dropClient hp
      have hfree : (s.tick.dropClient p).reg.getClientVPN rmsg.ip1 = none ∨
          Hijack clock s (.packet rmsg src env) := by
        cases hv : s.reg.getClientVPN rmsg.ip1 with
        | none => exact .inl (hsh.vpn_none _ hv)
        | some q => exact .inr ⟨htype, by rw [hv]; rfl, p, hp, hto, hvpn⟩
      exact .head hdrop (register_changes htype hnew hfree)
  · exact .single (.quiet rfl rfl (Nat.le_succ _))

theorem askNewSession_fields (clock : ℕ → Int) (env : Env) (s : Server) (rmsg : Message)
    (src : SockaddrIn) (p q : Ptr) (b : Bool) :
    (askNewSession clock env s rmsg src p q b).reg = s.reg ∧
      (askNewSession clock env s rmsg src p q b).tab
        = ((s.tab.removeSessionBetween q p).addSession env.session p q (s.now clock)).2 ∧
      (askNewSession clock env s rmsg src p q b).ticks = s.ticks + 1 := by
  unfold askNewSession
  cases (s.tab.removeSessionBetween q p).addSession env.session p q (s.now clock) with
  | mk res tab =>
    cases res with
    | none => exact ⟨rfl, rfl, rfl⟩
    | some x => simp [sendFWD, sendANS]

theorem askNewSession_changes {q : Ptr} (hp : s.Live p) (hq : s.Live q) (htab₀ : s.tab = s₀.tab)
    (hnone : s.tab.getSession p q = none) (b : Bool) :
    Changes config clock s₀ (.packet rmsg src env) s
      (askNewSession clock env s rmsg src p q b) := by
  obtain ⟨hreg, htab, hticks⟩ := askNewSession_fields clock env s rmsg src p q b
  exact .single (.openSession rmsg src env p q _ rfl hp hq htab₀ hnone hreg htab (by omega))

theorem askOldSession_fields (clock : ℕ → Int) (s : Server) (x : Ptr) (b : Bool) :
    (askOldSession clock s x b).reg = s.reg ∧
      (askOldSession clock s x b).tab = s.tab.sessionUpdateTime (s.now clock) x ∧
      (askOldSession clock s x b).ticks = s.ticks + 1 := by
  simp [askOldSession, sessionUpdateTime, sendFWD, sendANS, now]

theorem handleAsk_changes (hok : s.Ok config) (hp : s.Live p) :
    Changes config clock s (.packet rmsg src env) s (handleAsk clock env s rmsg src p) := by
  unfold handleAsk
  split
  · exact .single (.quiet rfl rfl (Nat.le_refl _))
  · rename_i q hq
    obtain ⟨hlive, _⟩ := hok.live_of_getClientVPN hq
    split
    · rename_i hto
      have hexp : clock s.ticks - (s.reg.clientAt q).time > peerTimeout := by
        simpa [clientIsTimeout, Registry.clientIsTimeout, now] using hto
      exact .single (.drop q hlive (.expired s.ticks (Nat.le_refl _) (Nat.lt_succ_self _) hexp)
        rfl rfl (Nat.le_succ _))
    · have hquiet : Change config clock s (.packet rmsg src env) s s.tick :=
        .quiet rfl rfl (Nat.le_succ _)
      simp only
      split
      · rename_i hnone
        exact .head hquiet (askNewSession_changes (s := s.tick) hp hlive (tick_tab s) hnone _)
      · rename_i x hx
        obtain ⟨hreg, htab, hticks⟩ := askOldSession_fields clock s.tick x (s.sendLocalIp p q)
        exact .head hquiet (.single (.touchSession x _ hreg htab (by omega)))

theorem handleClose_changes (hp : s.reg.addrOf p = src) (htype : rmsg.type = .closeConnection) :
    Changes config clock s₀ (.packet rmsg src env) s (handleClose s rmsg p) := by
  unfold handleClose
  split
  · rename_i q _
    exact .single (.close rmsg src env p q rfl htype hp rfl rfl (Nat.le_refl _))
  · exact .refl

theorem handlePacket_changes (hok : s.Ok config) :
    Changes config clock s (.packet rmsg src env) s
      (s.handlePacket config clock env rmsg src) := by
  unfold handlePacket
  split
  · rename_i hnone
    split
    · rename_i htype
      exact helloUnknown_changes hok htype hnone
    · exact .single (.quiet rfl rfl (Nat.le_refl _))
  · rename_i p hp
    obtain ⟨hlive, haddr⟩ := hok.live_of_getClientReal hp
    split
    · rename_i htype
      exact helloKnown_changes hok hp htype
    · rename_i htype
      exact .single (.drop p hlive (.bye rmsg src env rfl htype haddr) rfl rfl (Nat.le_refl _))
    · exact .single (.updateTime p _ hlive rfl rfl (Nat.le_succ _))
    · exact handleAsk_changes hok hlive
    · rename_i htype
      exact handleClose_changes haddr htype
    · exact .refl

end packet
end Server

/-- Every step is a sequence of elementary changes. -/
theorem step_changes (hok : s.Ok config) (hs : step config clock s e = some s') :
    Changes config clock s e s s' := by
  cases e with
  | packet rmsg src env =>
    obtain rfl : s.handlePacket config clock env rmsg src = s' := by simpa [step] using hs
    exact Server.handlePacket_changes hok
  | clean =>
    obtain rfl : s.cleanDeadClients clock = s' := by simpa [step] using hs
    exact hok.clean_changes (.refl s)
  | time =>
    obtain rfl : s.tick = s' := by simpa [step] using hs
    exact .single (.quiet rfl rfl (Nat.le_succ _))

/-- Every reachable state is consistent. -/
theorem ok_of_steps {good : Server → Event → Prop}
    (h : Steps (step config clock) good .init s) : s.Ok config :=
  h.invariant (Server.ok_init config) fun _ _ _ hok _ hs => hok.changes (step_changes hok hs)

end Rdv
end Campagnol
