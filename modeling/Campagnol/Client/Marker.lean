import Campagnol.Client.WritingTheorems
import Campagnol.Fifo.Wakeups

/-!
# The end of the outgoing packets

`end_SSL_writing` ends the `SSL_writing` thread of a peer with a packet of length 0 in its queue.
This packet gets into the queue (`marker_placed`) unless the queue is full and `SSL_writing` has not
run yet, so that the queue still drops packets, or `SSL_writing` has returned after an error of
`SSL_write`, so that nobody makes room.

The proof that `end_SSL_writing` does return measures what the threads can still do before that
(`State.work`), and finds a thread that can do something in each state (`Ending.enabled`).
-/

namespace Campagnol
namespace Client
namespace Writing

open Fifo (Bytes Bio FifoItem Env Obs Thread)

section Marker
variable {tunMtu fifoSize : ℕ} {hsize : 0 < fifoSize ∧ fifoSize < 0x80000000} {mallocs : ℕ → Bool}
  {junk : ℕ → FifoItem} {out out' : Bio} {s₀ s s' : State tunMtu} {a : Act tunMtu} {env : Env}
  {rd t : Thread} {buf : Bytes}

/-! ## The condition -/

/-- When `peer_handling` calls `end_SSL_writing`, the `SSL_writing` thread has run its first
statement, or the queue is not full. -/
def EndsInTime (s : State tunMtu) : Act tunMtu → Prop
  | .handlerStep _ _ _ _ => s.handler = .ending → s.out.pc peerHandling = .idle →
      s.writing ≠ .created ∨ s.out.d.nelem ≠ s.out.d.size
  | _ => True

instance (s : State tunMtu) : DecidablePred (EndsInTime s)
  | .handlerStep _ _ _ _ => inferInstanceAs (Decidable (_ → _ → _ ∨ _))
  | .tunPacket _ | .tunBroadcast _ | .tunStep _ | .writingStep _ _ =>
    inferInstanceAs (Decidable True)

/-- The step does not lose the packet of length 0: `end_SSL_writing` is called in time, and
`SSL_writing` does not end with an error of `SSL_write`. -/
def EndsWell (s : State tunMtu) (a : Act tunMtu) : Prop := EndsInTime s a ∧ NoSslFailure a

instance (s : State tunMtu) (a : Act tunMtu) : Decidable (EndsWell s a) :=
  inferInstanceAs (Decidable (_ ∧ _))

/-! ## The packet -/

theorem Ok.not_creates (h : Ok s) (hpc : s.handler = .ending) : s.tun.creates = false := by
  by_contra hc
  have hborn := h.born (Bool.not_eq_false _ ▸ hc)
  rw [hpc] at hborn
  cases hborn

/-- `end_SSL_writing` returns only in a step of `peer_handling`. -/
theorem Ok.ends (h : Ok s) (hs : Writing.step s a = some s') (hpc : s.handler = .ending)
    (hpc' : s'.handler ≠ .ending) :
    (∃ env ok endCampagnol read, a = .handlerStep env ok endCampagnol read) ∧
      Written peerHandling [] s.out s'.out true := by
  have hcreates := h.not_creates hpc
  cases a with
  | handlerStep env ok endCampagnol read =>
    refine ⟨⟨env, ok, endCampagnol, read, rfl⟩, ?_⟩
    simp only [Writing.step, State.handlerStep, hpc] at hs
    obtain ⟨⟨out, returned⟩, hw, rfl⟩ := Option.map_eq_some_iff.mp hs
    obtain ⟨-, hwritten⟩ := h.endWriting hpc hw
    cases returned with
    | true => exact hwritten
    | false => exact absurd rfl hpc'
  | tunPacket packet => cases tunBegins_of_tunPacket hs <;> exact absurd hpc hpc'
  | tunBroadcast packet => cases tunBegins_of_tunBroadcast hs <;> exact absurd hpc hpc'
  | tunStep env =>
    cases tunMoves_of_tunStep hs with
    | starts htun =>
      rw [htun] at hcreates
      cases hcreates
    | writes => exact absurd hpc hpc'
  | writingStep env result =>
    simp only [Writing.step, State.writingStep] at hs
    split at hs
    · cases hs
    · cases hs
    · cases hs
      exact absurd hpc hpc'
    · obtain ⟨r, -, rfl⟩ := Option.map_eq_some_iff.mp hs
      exact absurd hpc hpc'
    · cases hs
      exact absurd hpc hpc'

/-- When `end_SSL_writing` is called in time, the queue does not drop its packet. -/
theorem Ok.not_full (h : Ok s) {ok endCampagnol : Bool} {read : SslRead}
    (ha : EndsInTime s (.handlerStep env ok endCampagnol read)) (hpc : s.handler = .ending)
    (hidle : s.out.pc peerHandling = .idle) (hdrop : s.out.d.droptail ≠ 0) :
    ¬ s.out.queue.Full := by
  have hagrees := h.agrees
  rw [hpc] at hagrees
  -- the queue drops packets, so `SSL_writing` has not run
  have hcreated : s.writing = .created := by
    have hearly := h.droptail
    cases hw : s.writing with
    | created => rfl
    | notStarted =>
      rw [hw] at hagrees
      cases hagrees.2
    | _ =>
      rw [hw] at hearly
      exact absurd hearly hdrop
  rcases ha hpc hidle with hne | hroom
  · exact absurd hcreated hne
  · exact fun hfull => hroom (Fifo.Bio.full_iff.mp hfull)

/-- When `end_SSL_writing` returns, its packet is in the queue. -/
theorem Ok.placed (h : Ok s) (ha : EndsInTime s a) (hs : Writing.step s a = some s')
    (hpc : s.handler = .ending) (hpc' : s'.handler ≠ .ending) :
    s'.out.queue.items = s.out.queue.items ++ [[]] := by
  obtain ⟨⟨env, ok, endCampagnol, read, rfl⟩, hwritten⟩ := h.ends hs hpc hpc'
  cases hwritten with
  | dropped hout hfull hdrop hidle =>
    exact absurd hfull (h.not_full ha hpc hidle hdrop)
  | stored hqueue hreturns => rw [hqueue]

/-! ## The BIO -/

/-- A step of a `BIO_write` is a step of the BIO. -/
theorem bioWrite_live {returned : Bool} (h : out.Live rd)
    (hw : State.bioWrite out t buf env = some (out', returned)) : out'.Live rd := by
  unfold State.bioWrite at hw
  obtain ⟨⟨b, o⟩, hstep, hr⟩ := Option.map_eq_some_iff.mp hw
  have hout : b = out' := by
    cases o <;> cases hr <;> rfl
  subst hout
  split at hstep
  · exact h.step (a := .write t (some buf) env) trivial hstep
  · exact h.step (a := .resume t env) trivial hstep

theorem bioRead_live {outl : ℕ} {packet : Option Bytes} (h : out.Live t)
    (hr : State.bioRead out t outl env = some (out', packet)) : out'.Live t := by
  unfold State.bioRead at hr
  obtain ⟨⟨b, o⟩, hstep, hr⟩ := Option.map_eq_some_iff.mp hr
  have hout : b = out' := by
    cases o <;> cases hr <;> rfl
  subst hout
  split at hstep
  · exact h.step (a := .read t (some outl) env) rfl hstep
  · exact h.step (a := .resume t env) trivial hstep

theorem fifoSetDroptail_live (h : out.Live rd) (num : ℤ) :
    (out.fifoCtrl (.fifoSetDroptail num)).1.Live rd := by
  have hcmd : Fifo.OnlySignals rd (.ctrl (.fifoSetDroptail num)) := by
    simp [Fifo.OnlySignals]
  exact h.step hcmd rfl

/-- In no step does a thread miss a signal of the BIO. -/
theorem live_step (h : s.out.Live sslWriting) (hs : step s a = some s') :
    s'.out.Live sslWriting := by
  cases a with
  | tunPacket packet => cases tunBegins_of_tunPacket hs <;> exact h
  | tunBroadcast packet => cases tunBegins_of_tunBroadcast hs <;> exact h
  | tunStep env =>
    cases tunMoves_of_tunStep hs with
    | starts => exact h
    | writes packet out returned tun _ _ hw => exact bioWrite_live h hw
  | handlerStep env ok endCampagnol read =>
    simp only [step, State.handlerStep] at hs
    split at hs
    · cases hs
    · cases hs
    · cases hs
      exact h
    · obtain ⟨⟨out, returned⟩, hw, rfl⟩ := Option.map_eq_some_iff.mp hs
      exact bioWrite_live h hw
    · split at hs
      · cases hs
      · split at hs <;> cases hs
        · unfold State.handlerTop
          split
          · split <;> exact h
          · split <;> exact h
          · split <;> exact h
          · exact h
          · exact h
        · exact h
        · exact h
        · exact h
        · unfold State.handlerRead
          split <;> exact h
  | writingStep env result =>
    simp only [step, State.writingStep] at hs
    split at hs
    · cases hs
    · cases hs
    · cases hs
      exact fifoSetDroptail_live h 0
    · obtain ⟨⟨out, packet⟩, hr, rfl⟩ := Option.map_eq_some_iff.mp hs
      exact bioRead_live h hr
    · cases hs
      exact h

theorem live_initial (h₀ : outFifo tunMtu fifoSize hsize mallocs junk = some out)
    (hi : Initial out s₀) : s₀.out.Live sslWriting := by
  obtain ⟨b, hb, rfl⟩ := Option.map_eq_some_iff.mp h₀
  have hlive := fifoSetDroptail_live (Fifo.fifoAllocate_live sslWriting hb) 1
  cases hi <;> exact hlive

theorem live_of_steps {ok : State tunMtu → Act tunMtu → Prop}
    (h₀ : outFifo tunMtu fifoSize hsize mallocs junk = some out) (hi : Initial out s₀)
    (h : Steps step ok s₀ s) : s.out.Live sslWriting :=
  Steps.invariant (P := fun s => s.out.Live sslWriting) h (live_initial h₀ hi)
    fun _ _ _ ht _ hu => live_step ht hu

/-! ## What is left to do -/

/-- What a thread can still do in its call before it sleeps. -/
def callWork : Fifo.Pc → ℕ
  | .idle => 2
  | .readReady _ _ | .writeReady _ => 1
  | .readSleep _ _ | .writeSleep _ => 0

theorem callWork_le (pc : Fifo.Pc) : callWork pc ≤ 2 := by
  cases pc <;> simp [callWork]

theorem callWork_pos {pc : Fifo.Pc} (h : pc.sleeps = false) : 0 < callWork pc := by
  cases pc <;> first | exact Nat.succ_pos _ | cases h

theorem callWork_wake (pc : Fifo.Pc) : callWork (pc.wake false) ≤ callWork pc + 1 := by
  cases pc <;> simp [callWork, Fifo.Pc.wake]

/-- What `comm_tun` can still do with its packet. -/
def TunPc.work : TunPc tunMtu → Fifo.Pc → ℕ
  | .first _, pc | .forward _, pc | .broadcast _, pc => 9 + callWork pc
  | _, _ => 0

theorem TunPc.work_of_pending {tun : TunPc tunMtu} (h : tun.pending = 1) (pc : Fifo.Pc) :
    tun.work pc = 9 + callWork pc := by
  cases tun <;> first | rfl | cases h

theorem TunPc.work_of_idle {tun : TunPc tunMtu} (h : tun.pending = 0) (pc : Fifo.Pc) :
    tun.work pc = 0 := by
  cases tun <;> first | rfl | cases h

theorem TunPc.work_le (tun : TunPc tunMtu) {pc pc' : Fifo.Pc} (h : callWork pc' ≤ callWork pc + 1) :
    tun.work pc' ≤ tun.work pc + 1 := by
  cases tun <;> simp only [TunPc.work] <;> omega

/-- What `SSL_writing` can still do with the packet it has, and before it sleeps. -/
def WritingPc.work : WritingPc → Fifo.Pc → ℕ
  | .created, _ | .got _, _ => 3
  | .top, pc => callWork pc
  | .notStarted, _ | .done, _ => 0

theorem WritingPc.work_le (w : WritingPc) {pc pc' : Fifo.Pc} (h : callWork pc' ≤ callWork pc + 1) :
    w.work pc' ≤ w.work pc + 1 := by
  cases w <;> simp only [WritingPc.work] <;> omega

theorem WritingPc.work_le_three (w : WritingPc) (pc : Fifo.Pc) : w.work pc ≤ 3 := by
  have hle := callWork_le pc
  cases w <;> simp only [WritingPc.work] <;> omega

/-- What the threads can still do while `peer_handling` is in `end_SSL_writing`. A packet that is
put into the queue or taken out of it may wake up the other threads. -/
def State.work (s : State tunMtu) : ℕ :=
  s.tun.work (s.out.pc commTun) + callWork (s.out.pc peerHandling) +
    6 * s.out.queue.items.length + s.writing.work (s.out.pc sslWriting)

theorem callWork_of_returns (h : Fifo.Returns t out out') {u : Thread} (hu : u ≠ t) :
    callWork (out'.pc u) ≤ callWork (out.pc u) + 1 := by
  rcases h.other u hu with hpc | hpc
  · rw [hpc]
    exact Nat.le_succ _
  · rw [hpc]
    exact callWork_wake _

theorem bioWrite_awake {r : Bio × Bool} (h : State.bioWrite out t buf env = some r) :
    (out.pc t).sleeps = false := by
  cases hpc : out.pc t with
  | readSleep outl deadline => simp [State.bioWrite, hpc, Fifo.step] at h
  | writeSleep buf' => simp [State.bioWrite, hpc, Fifo.step] at h
  | _ => rfl

theorem bioRead_awake {outl : ℕ} {r : Bio × Option Bytes}
    (h : State.bioRead out t outl env = some r) : (out.pc t).sleeps = false := by
  cases hpc : out.pc t with
  | readSleep outl' deadline => simp [State.bioRead, hpc, Fifo.step] at h
  | writeSleep buf => simp [State.bioRead, hpc, Fifo.step] at h
  | _ => rfl

/-- `comm_tun` gets on with its packet. -/
theorem work_tunStep (hok : Ok s) (hcreates : s.tun.creates = false)
    (hs : s.tunStep env = some s') : s'.work < s.work := by
  cases tunMoves_of_tunStep hs with
  | starts hpc =>
    rw [hpc] at hcreates
    cases hcreates
  | writes packet out returned tun hcall hpending hw hwaits hreturns hcreates' =>
    have hpos := callWork_pos (bioWrite_awake hw)
    have hbefore := TunPc.work_of_pending hpending (s.out.pc commTun)
    obtain ⟨-, hwritten⟩ := hok.tunWrite hcall hw hwaits hcreates'
    cases hwritten with
    | dropped hout =>
      have hafter := TunPc.work_of_idle (hreturns rfl) (s.out.pc commTun)
      simp only [State.work, hafter, hbefore, hout]
      omega
    | waits hqueue hpc =>
      have htun : tun = s.tun := hwaits rfl
      have hasleep : callWork (out.pc commTun) = 0 := by rw [hpc, Function.update_self]; rfl
      have hafter := TunPc.work_of_pending hpending (out.pc commTun)
      have hhandler : out.pc peerHandling = s.out.pc peerHandling := by
        rw [hpc, Function.update_of_ne (by decide)]
      have hwriting : out.pc sslWriting = s.out.pc sslWriting := by
        rw [hpc, Function.update_of_ne (by decide)]
      simp only [State.work, htun, hafter, hbefore, hqueue, hhandler, hwriting]
      omega
    | stored hqueue hr =>
      have hafter := TunPc.work_of_idle (hreturns rfl) (out.pc commTun)
      have hhandler := callWork_of_returns hr (u := peerHandling) (by decide)
      have hwriting := s.writing.work_le (callWork_of_returns hr (u := sslWriting) (by decide))
      simp only [State.work, hafter, hbefore, hqueue, List.length_append, List.length_singleton]
      omega

/-- `peer_handling` waits for room. -/
theorem work_endWriting (hout : Written peerHandling [] s.out out false)
    (hawake : (s.out.pc peerHandling).sleeps = false) :
    State.work { s with out := out, handler := .ending } < s.work := by
  have hpos := callWork_pos hawake
  cases hout with
  | waits hqueue hpc =>
    have hasleep : callWork (out.pc peerHandling) = 0 := by rw [hpc, Function.update_self]; rfl
    have htun : out.pc commTun = s.out.pc commTun := by
      rw [hpc, Function.update_of_ne (by decide)]
    have hwriting : out.pc sslWriting = s.out.pc sslWriting := by
      rw [hpc, Function.update_of_ne (by decide)]
    simp only [State.work, hqueue, hasleep, htun, hwriting]
    omega

/-- `SSL_writing` takes a packet or waits for one. -/
theorem work_bioRead {packet : Option Bytes} {w : WritingPc} (hpc : s.writing = .top)
    (hr : Read sslWriting (messageMaxLength tunMtu) s.out out packet)
    (hawake : (s.out.pc sslWriting).sleeps = false) (hw : packet = none → w = .top) :
    State.work { s with out := out, writing := w } < s.work := by
  have hpos := callWork_pos hawake
  have hbefore : s.writing.work (s.out.pc sslWriting) = callWork (s.out.pc sslWriting) := by
    rw [hpc]
    rfl
  cases hr with
  | waits deadline hqueue hp =>
    have hafter : w.work (out.pc sslWriting) = 0 := by
      rw [hw rfl, hp, Function.update_self]
      rfl
    have htun : out.pc commTun = s.out.pc commTun := by
      rw [hp, Function.update_of_ne (by decide)]
    have hhandler : out.pc peerHandling = s.out.pc peerHandling := by
      rw [hp, Function.update_of_ne (by decide)]
    simp only [State.work, hqueue, hbefore, hafter, htun, hhandler]
    omega
  | taken p hitems hdrop hreturns =>
    have hafter := w.work_le_three (out.pc sslWriting)
    have htun := s.tun.work_le (callWork_of_returns hreturns (u := commTun) (by decide))
    have hhandler := callWork_of_returns hreturns (u := peerHandling) (by decide)
    have hlen : s.out.queue.items.length = out.queue.items.length + 1 := by
      rw [hitems, List.length_cons]
    simp only [State.work, hbefore, hlen]
    omega

/-! ## `end_SSL_writing` returns -/

/-- `peer_handling` is in `end_SSL_writing`, in a run that has ended well so far. -/
structure Ending (s : State tunMtu) : Prop where
  ok : Ok s
  live : s.out.Live sslWriting
  marked : Marked s
  pc : s.handler = .ending

/-- `end_SSL_writing` has returned, and its packet is the last one in the queue. -/
def Placed (s : State tunMtu) : Prop :=
  s.handler ≠ .ending ∧ s.out.queue.items.getLast? = some []

/-- The steps that change nothing while `peer_handling` is in `end_SSL_writing`: the peer is closed
for `comm_tun`, or `SSL_write` is tried again. -/
inductive Idles (s : State tunMtu) : Act tunMtu → Prop where
  | tunPacket (packet : TunPacket tunMtu) : Idles s (.tunPacket packet)
  | tunBroadcast (packet : TunPacket tunMtu) : Idles s (.tunBroadcast packet)
  | retry (env : Env) (packet : Bytes) (hpc : s.writing = .got packet) :
      Idles s (.writingStep env .retry)

theorem Ending.agrees (h : Ending s) : s.state = .closed ∧ s.writing.started = true := by
  have hagrees := h.ok.agrees
  rw [h.pc] at hagrees
  exact hagrees

/-- The packet of length 0 is not in the queue yet, so `SSL_writing` has not taken it. -/
theorem Ending.not_done (h : Ending s) : s.writing ≠ .done := by
  cases h.marked with
  | unmarked hw => exact hw
  | marked he => exact absurd he (not_ended h.pc)
  | taken he => exact absurd he (not_ended h.pc)

theorem Ending.same_of_idles (h : Ending s) (hidles : Idles s a) (hs : step s a = some s') :
    s' = s := by
  cases hidles with
  | tunPacket packet =>
    cases tunBegins_of_tunPacket hs with
    | ignored => rfl
    | begins tun _ hopen => exact absurd h.agrees.1 hopen
  | tunBroadcast packet =>
    cases tunBegins_of_tunBroadcast hs with
    | ignored => rfl
    | begins tun _ hopen => exact absurd h.agrees.1 hopen
  | retry env packet hpc =>
    simp only [step, State.writingStep, hpc, Option.some.injEq] at hs
    rw [← hs, ← hpc]

theorem Ending.work_writingStep (h : Ending s) {result : SslWrite}
    (hmoves : ¬ Idles s (.writingStep env result)) (hs : s.writingStep env result = some s') :
    s'.work < s.work := by
  unfold State.writingStep at hs
  split at hs
  · cases hs
  · cases hs
  · rename_i hpc
    cases hs
    have hle := callWork_le (s.out.pc sslWriting)
    show s.tun.work (s.out.pc commTun) + callWork (s.out.pc peerHandling) +
      6 * s.out.queue.items.length + callWork (s.out.pc sslWriting) < s.work
    simp only [State.work, hpc, WritingPc.work]
    omega
  · rename_i hpc
    obtain ⟨⟨out, packet⟩, hr, rfl⟩ := Option.map_eq_some_iff.mp hs
    have hfits := h.ok.fits sslWriting
    rw [call_sslWriting, hpc] at hfits
    obtain ⟨-, -, hread⟩ := bioRead_cases h.ok.inv h.ok.sized hfits hr
    exact work_bioRead hpc hread (bioRead_awake hr) fun hnone => by rw [hnone]
  · rename_i packet hpc
    cases hs
    have hle := callWork_le (s.out.pc sslWriting)
    cases result with
    | retry => exact absurd (.retry env packet hpc) hmoves
    | sslError shutdown =>
      cases shutdown <;> simp only [State.work, hpc, WritingPc.work] <;> omega
    | _ =>
      simp only [State.work, hpc, WritingPc.work]
      omega

/-- Each other step before the return of `end_SSL_writing` leaves less to do. -/
theorem Ending.work_lt (h : Ending s) (ha : EndsInTime s a) (hs : step s a = some s')
    (hmoves : ¬ Idles s a) (hpc' : s'.handler = .ending) : s'.work < s.work := by
  cases a with
  | tunPacket packet => exact absurd (.tunPacket packet) hmoves
  | tunBroadcast packet => exact absurd (.tunBroadcast packet) hmoves
  | tunStep env => exact work_tunStep h.ok (h.ok.not_creates h.pc) hs
  | handlerStep env ok endCampagnol read =>
    simp only [step, State.handlerStep, h.pc] at hs
    obtain ⟨⟨out, returned⟩, hw, rfl⟩ := Option.map_eq_some_iff.mp hs
    cases returned with
    | true => cases hpc'
    | false => exact work_endWriting (h.ok.endWriting h.pc hw).2 (bioWrite_awake hw)
  | writingStep env result => exact h.work_writingStep hmoves hs

theorem Ending.keeps (h : Ending s) (ha : EndsWell s a) (hs : Writing.step s a = some s')
    (hpc' : s'.handler = .ending) : Ending s' :=
  ⟨h.ok.step hs, live_step h.live hs, h.marked.step h.ok ha.2 hs, hpc'⟩

/-- One step: it gets to the return of `end_SSL_writing`, or nearer to it. -/
theorem Ending.nearer (h : Ending s) (ha : EndsWell s a) (hs : Writing.step s a = some s')
    (hmoves : ¬ Idles s a) : Placed s' ∨ Ending s' ∧ s'.work < s.work := by
  by_cases hpc' : s'.handler = .ending
  · exact .inr ⟨h.keeps ha hs hpc', h.work_lt ha.1 hs hmoves hpc'⟩
  · refine .inl ⟨hpc', ?_⟩
    rw [h.ok.placed ha.1 hs h.pc hpc', List.getLast?_concat]

theorem Ending.ne (h : Ending s) (ha : EndsWell s a) (hs : Writing.step s a = some s')
    (hmoves : ¬ Idles s a) : s' ≠ s := by
  rintro rfl
  rcases h.nearer ha hs hmoves with hplaced | hless
  · exact hplaced.1 h.pc
  · exact absurd hless.2 (Nat.lt_irrefl _)

/-! ### Somebody can move -/

/-- A writer that does not sleep takes its next step. -/
theorem bioWrite_enabled (env : Env) (h : out.pc t = .idle ∨ out.pc t = .writeReady buf) :
    ∃ r, State.bioWrite out t buf env = some r := by
  rcases h with hpc | hpc
  · obtain ⟨b, o, hs⟩ := Fifo.step_write_enabled buf env hpc
    simp only [State.bioWrite, hpc, hs, Option.map_some]
    exact ⟨_, rfl⟩
  · obtain ⟨b, o, hs⟩ := Fifo.step_resumeWrite_enabled env hpc
    simp only [State.bioWrite, hpc, hs, Option.map_some]
    exact ⟨_, rfl⟩

theorem bioRead_enabled {outl : ℕ} (env : Env)
    (h : out.pc t = .idle ∨ out.pc t = .readReady outl false) :
    ∃ r, State.bioRead out t outl env = some r := by
  rcases h with hpc | hpc
  · obtain ⟨b, o, hs⟩ := Fifo.step_read_enabled outl env hpc
    simp only [State.bioRead, hpc, hs, Option.map_some]
    exact ⟨_, rfl⟩
  · obtain ⟨b, o, hs⟩ := Fifo.step_resumeRead_enabled env hpc
    simp only [State.bioRead, hpc, hs, Option.map_some]
    exact ⟨_, rfl⟩

/-- Some step ends well and changes the state. -/
def Moves (s : State tunMtu) : Prop :=
  ∃ a s', EndsWell s a ∧ ¬ Idles s a ∧ step s a = some s'

/-- `SSL_writing` can move unless it sleeps. -/
theorem Ending.writing_moves (h : Ending s)
    (hawake : s.writing = .top → (s.out.pc sslWriting).sleepsRead = false) : Moves s := by
  have hends : EndsWell s (.writingStep Fifo.env₀ .written) := ⟨trivial, by simp, by simp⟩
  have hmoves : ¬ Idles s (.writingStep Fifo.env₀ .written) := by
    rintro ⟨⟩
  suffices hs : ∃ s', s.writingStep Fifo.env₀ .written = some s' by
    obtain ⟨s', hs⟩ := hs
    exact ⟨_, s', hends, hmoves, hs⟩
  unfold State.writingStep
  cases hw : s.writing with
  | notStarted =>
    have hstarted := h.agrees.2
    rw [hw] at hstarted
    cases hstarted
  | done => exact absurd hw h.not_done
  | created => exact ⟨_, rfl⟩
  | got packet => exact ⟨_, rfl⟩
  | top =>
    have hfits := h.ok.fits sslWriting
    rw [call_sslWriting, hw] at hfits
    have hready : s.out.pc sslWriting = .idle ∨
        s.out.pc sslWriting = .readReady (messageMaxLength tunMtu) false := by
      have hnot := hawake hw
      cases hpc : s.out.pc sslWriting with
      | idle => exact .inl rfl
      | readReady outl timedOut =>
        rw [hpc] at hfits
        obtain ⟨rfl, rfl⟩ := hfits
        exact .inr rfl
      | readSleep outl deadline =>
        rw [hpc] at hnot
        cases hnot
      | _ =>
        rw [hpc] at hfits
        exact hfits.elim
    obtain ⟨r, hr⟩ := bioRead_enabled Fifo.env₀ hready
    rw [hr]
    exact ⟨_, rfl⟩

theorem Ending.handler_moves (h : Ending s)
    (hready : s.out.pc peerHandling = .idle ∨ s.out.pc peerHandling = .writeReady [])
    (ha : EndsInTime s (.handlerStep Fifo.env₀ true false .again)) : Moves s := by
  have hmoves : ¬ Idles s (.handlerStep Fifo.env₀ true false .again) := by
    rintro ⟨⟩
  obtain ⟨r, hr⟩ := bioWrite_enabled Fifo.env₀ hready
  have hs : s.handlerStep Fifo.env₀ true false .again =
      some { s with out := r.1, handler := if r.2 then .top else .ending } := by
    simp only [State.handlerStep, h.pc, hr, Option.map_some]
  exact ⟨_, _, ⟨ha, trivial⟩, hmoves, hs⟩

/-- `comm_tun` has been woken up. -/
theorem Ending.tun_moves (h : Ending s) (hready : (s.out.pc commTun).readyWrite = true) :
    Moves s := by
  have hfits := h.ok.fits commTun
  rw [call_commTun] at hfits
  have hcreates := h.ok.not_creates h.pc
  have hends : EndsWell s (.tunStep Fifo.env₀) := ⟨trivial, trivial⟩
  have hmoves : ¬ Idles s (.tunStep Fifo.env₀) := by
    rintro ⟨⟩
  suffices hs : ∃ s', s.tunStep Fifo.env₀ = some s' by
    obtain ⟨s', hs⟩ := hs
    exact ⟨_, s', hends, hmoves, hs⟩
  unfold State.tunStep
  cases hpc : s.out.pc commTun with
  | writeReady buf =>
    cases htun : s.tun with
    | forward packet =>
      rw [hpc, htun] at hfits
      obtain rfl : buf = packet.bytes := hfits
      obtain ⟨r, hr⟩ := bioWrite_enabled Fifo.env₀ (.inr hpc)
      dsimp only
      rw [hr]
      exact ⟨_, rfl⟩
    | broadcast packet =>
      rw [hpc, htun] at hfits
      obtain rfl : buf = packet.bytes := hfits
      obtain ⟨r, hr⟩ := bioWrite_enabled Fifo.env₀ (.inr hpc)
      dsimp only
      rw [hr]
      exact ⟨_, rfl⟩
    | idle =>
      rw [hpc, htun] at hfits
      exact hfits.elim
    | _ => rw [htun] at hcreates; cases hcreates
  | _ => rw [hpc] at hready; cases hready

/-- A writer that has been woken up is `comm_tun` or `peer_handling`. -/
theorem Ok.ready_cases (h : Ok s) {u : Thread} (hu : (s.out.pc u).readyWrite = true) :
    u = commTun ∨ u = peerHandling := by
  have hfits := h.fits u
  by_contra hne
  obtain ⟨htun, hhandler⟩ := not_or.mp hne
  rw [State.call, if_neg htun, if_neg hhandler] at hfits
  cases hpc : s.out.pc u with
  | writeReady buf =>
    rw [hpc] at hfits
    split at hfits
    · cases hw : s.writing <;> rw [hw] at hfits <;> exact hfits.elim
    · exact hfits.elim
  | _ => rw [hpc] at hu; cases hu

/-- While `peer_handling` waits for room, `SSL_writing` can take a packet, or `comm_tun` has been
woken up to put one into the empty queue. -/
theorem Ending.moves (h : Ending s) : Moves s := by
  have hfits := h.ok.fits peerHandling
  rw [call_peerHandling, h.pc] at hfits
  cases hpc : s.out.pc peerHandling with
  | idle =>
    by_cases hlost : s.writing = .created ∧ s.out.d.nelem = s.out.d.size
    · refine h.writing_moves fun htop => ?_
      rw [hlost.1] at htop
      cases htop
    · exact h.handler_moves (.inl hpc) fun _ _ => not_and_or.mp hlost
  | writeReady buf =>
    rw [hpc] at hfits
    obtain rfl : buf = [] := hfits
    refine h.handler_moves (.inr hpc) fun _ hidle => ?_
    rw [hpc] at hidle
    cases hidle
  | writeSleep buf =>
    have hasleep : (s.out.pc peerHandling).sleepsWrite = true := by rw [hpc]; rfl
    by_cases hempty : s.out.d.nelem = 0
    · obtain ⟨u, hu⟩ := h.live.wakeful.pending hempty peerHandling hasleep
      rcases h.ok.ready_cases hu with rfl | rfl
      · exact h.tun_moves hu
      · rw [hpc] at hu
        cases hu
    · refine h.writing_moves fun _ => ?_
      by_contra hsleeps
      exact hempty (h.live.wakeful.empty sslWriting (Bool.not_eq_false _ ▸ hsleeps))
  | _ =>
    rw [hpc] at hfits
    exact hfits.elim

/-- From each state of `end_SSL_writing` it returns, and its packet is in the queue. -/
theorem Ending.inevitable (h : Ending s) : Inevitable step EndsWell Placed s := by
  refine Inevitable.of_measure (I := Ending) State.work ?_ ?_ h
  · intro s hs
    obtain ⟨a, s', ha, hmoves, hstep⟩ := hs.moves
    exact ⟨a, s', ha, hstep, hs.ne ha hstep hmoves⟩
  · intro s a s' hs ha hstep hne
    exact hs.nearer ha hstep fun hidles => hne (hs.same_of_idles hidles hstep)

/-! ## Runs -/

/-- In every run in which `end_SSL_writing` is not called on a full queue before `SSL_writing` has
run, and no `SSL_write` of `SSL_writing` fails with SSL_ERROR_ZERO_RETURN or, without a shutdown,
with SSL_ERROR_SSL: the packet of length 0 is in the queue when `end_SSL_writing` returns, and
`end_SSL_writing` does return, whatever the threads do, unless they try the same `SSL_write` for
ever. -/
theorem marker_placed (h₀ : outFifo tunMtu fifoSize hsize mallocs junk = some out)
    (hi : Initial out s₀) (h : Steps step EndsWell s₀ s) (hpc : s.handler = .ending) :
    (∀ a s', EndsWell s a → step s a = some s' → s'.handler ≠ .ending →
      s'.out.queue.items = s.out.queue.items ++ [[]]) ∧
    Inevitable step EndsWell
      (fun t => t.handler ≠ .ending ∧ t.out.queue.items.getLast? = some []) s := by
  obtain ⟨hok, hmarked⟩ := marked_of_steps h₀ hi (fun _ _ ha => ha.2) h
  have hending : Ending s := ⟨hok, live_of_steps h₀ hi h, hmarked, hpc⟩
  exact ⟨fun a s' ha hs hpc' => hok.placed ha.1 hs hpc hpc', hending.inevitable⟩

/-- The queue is full again, and `peer_handling` sleeps in `end_SSL_writing`. -/
def endsOnFullQueue : List (Act 1419) :=
  opened ++ [send .written, send .written, send .written, .tunPacket header,
    .tunStep Fifo.env₀, handle .failed, handle .again]

theorem marker_placed_running :
    ∃ out s, outFifo₁ = some out ∧ Steps step EndsWell (.requested out header) s ∧
      s.handler = .ending ∧ s.out.d.nelem = s.out.d.size ∧
      (s.out.pc peerHandling).sleepsWrite = true ∧
      (∀ a s', EndsWell s a → step s a = some s' → s'.handler ≠ .ending →
        s'.out.queue.items = s.out.queue.items ++ [[]]) ∧
      Inevitable step EndsWell
        (fun t => t.handler ≠ .ending ∧ t.out.queue.items.getLast? = some []) s := by
  have hrun : (outFifo₁.bind fun out =>
      (runOk step EndsWell endsOnFullQueue (.requested out header)).map fun s =>
        (s.handler, s.out.d.nelem, s.out.d.size, (s.out.pc peerHandling).sleepsWrite)) =
          some (.ending, 1, 1, true) := by decide +kernel
  obtain ⟨out, hout, hrun⟩ := Option.bind_eq_some_iff.mp hrun
  obtain ⟨s, hs, heq⟩ := Option.map_eq_some_iff.mp hrun
  simp only [Prod.mk.injEq] at heq
  obtain ⟨hpc, hnelem, hsize, hasleep⟩ := heq
  have hsteps := Steps.of_runOk .refl hs
  exact ⟨out, s, hout, hsteps, hpc, hnelem.trans hsize.symm, hasleep,
    marker_placed hout (.requested header) hsteps hpc⟩

/-- The session is closed before `SSL_writing` runs: the queue is full and still drops packets. -/
theorem marker_lost_before_start :
    ∃ out s s', outFifo₁ = some out ∧
      Steps step (fun _ _ => True) (.requested out header) s ∧
      step s (handle .again) = some s' ∧ s.handler = .ending ∧ s'.handler ≠ .ending ∧
      s.out.queue.items = [header.bytes] ∧ s'.out.queue.items = [header.bytes] := by
  have hrun : (outFifo₁.bind fun out =>
      (run step (opened ++ [handle .failed]) (.requested out header)).bind fun s =>
        (step s (handle .again)).map fun s' =>
          (s.handler, s'.handler, s.out.queue.items, s'.out.queue.items)) =
            some (.ending, .top, [header.bytes], [header.bytes]) := by decide +kernel
  obtain ⟨out, hout, hrun⟩ := Option.bind_eq_some_iff.mp hrun
  obtain ⟨s, hs, hrun⟩ := Option.bind_eq_some_iff.mp hrun
  obtain ⟨s', hs', heq⟩ := Option.map_eq_some_iff.mp hrun
  simp only [Prod.mk.injEq] at heq
  obtain ⟨hpc, htop, hitems, hitems'⟩ := heq
  refine ⟨out, s, s', hout, Steps.of_run .refl hs, hs', hpc, ?_, hitems, hitems'⟩
  rw [htop]
  simp

end Marker

end Writing
end Client
end Campagnol
