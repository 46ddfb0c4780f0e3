import Campagnol.Fifo.Calls

/-!
# The FIFO BIO is a bounded queue

With one reader, without spurious wake-ups and with memory for large packets, what the
callers of the BIO see is what the callers of a bounded queue see.
-/

namespace Campagnol
namespace Fifo

/-- The steps of any number of writers and the one reader `rd`: waits end by a signal or by
their timeout, and nobody resets the BIO. -/
def OnlySignals (rd : Thread) : Act → Prop
  | .read t _ _ => t = rd
  | .spurious _ => False
  | .ctrl cmd => cmd ≠ .reset
  | _ => True

instance (rd : Thread) : ∀ a, Decidable (OnlySignals rd a)
  | .read t _ _ => inferInstanceAs (Decidable (t = rd))
  | .write _ _ _ => inferInstanceAs (Decidable True)
  | .resume _ _ => inferInstanceAs (Decidable True)
  | .expire _ => inferInstanceAs (Decidable True)
  | .spurious _ => inferInstanceAs (Decidable False)
  | .ctrl cmd => inferInstanceAs (Decidable (cmd ≠ .reset))

/-- The steps of any number of writers and the one reader `rd`: waits end by a signal or
by their timeout, allocations succeed, and nobody resets the BIO. -/
def OneReader (rd : Thread) : Act → Prop
  | .read t _ _ => t = rd
  | .write _ _ env => env.malloc = true
  | .resume _ env => env.malloc = true
  | .expire _ => True
  | .spurious _ => False
  | .ctrl cmd => cmd ≠ .reset

instance (rd : Thread) : ∀ a, Decidable (OneReader rd a)
  | .read t _ _ => inferInstanceAs (Decidable (t = rd))
  | .write _ _ env => inferInstanceAs (Decidable (env.malloc = true))
  | .resume _ env => inferInstanceAs (Decidable (env.malloc = true))
  | .expire _ => inferInstanceAs (Decidable True)
  | .spurious _ => inferInstanceAs (Decidable False)
  | .ctrl cmd => inferInstanceAs (Decidable (cmd ≠ .reset))

theorem OneReader.onlySignals {rd : Thread} {a : Act} (h : OneReader rd a) : OnlySignals rd a := by
  cases a with
  | write t buf env => trivial
  | resume t env => trivial
  | _ => exact h

section Steps
variable {rd t : Thread} {b b' : Bio} {outl : ℕ} {buf : Bytes} {env : Env} {pick : ℕ} {o : Obs}
  {a : Act}

/-! ## What a step keeps -/

theorem Bio.Inv.takeItem (h : b.Inv t) (ht : (b.pc t).sleeps = false)
    (hpos : 0 < b.d.core.nelem) : (b.takeItem t).Inv t := by
  have hidle : Fifo.Inv t b.d.core b.d.condRead b.d.condWrite (Function.update b.pc t .idle) :=
    h.move ht rfl trivial
  exact ⟨h.core.pop hpos, hidle.readers.of_idle (Function.update_self ..), hidle.condRead,
    hidle.condWrite⟩

theorem Bio.Inv.putItem (h : b.Inv rd) (ht : (b.pc t).sleeps = false)
    (hlt : b.d.core.nelem < b.d.core.size) {item : FifoItem}
    (hfilled : item.size ≤ item.data.length) : (b.putItem t item).Inv rd := by
  have hidle : Fifo.Inv rd b.d.core b.d.condRead b.d.condWrite (Function.update b.pc t .idle) :=
    h.move ht rfl trivial
  have hnelem : (b.putItem t item).d.core.nelem = b.d.core.nelem + 1 := h.core.nelem_push
  refine ⟨h.core.push hlt hfilled, hidle.readers.mono ?_, hidle.condRead, hidle.condWrite⟩
  rw [hnelem]
  exact Nat.le_succ _

/-- The end of a read. -/
theorem readFinish_inv {timedOut : Bool} (h : b.Inv t) (ht : (b.pc t).sleeps = false)
    (hn : timedOut = false → 0 < b.d.nelem) : (b.readFinish t outl timedOut pick).1.Inv t := by
  cases timedOut with
  | true => exact Inv.move h ht rfl trivial
  | false =>
    have hpop := h.takeItem ht (hn rfl)
    simp only [Bio.readFinish, Bool.false_eq_true, if_false]
    split
    · exact hpop.conditionSignal (.inl rfl)
    · exact hpop

/-- The end of a write. -/
theorem writeFinish_inv (h : b.Inv rd) (ht : (b.pc t).sleeps = false)
    (hroom : b.d.nelem ≠ b.d.size) : (b.writeFinish t buf env).1.Inv rd := by
  have hlt : b.d.core.nelem < b.d.core.size := Nat.lt_of_le_of_ne h.core.nelem_le hroom
  have hpush := h.putItem ht hlt (packet_store (b.d.fifo b.d.indexWrite) buf env.malloc).2
  simp only [Bio.writeFinish]
  split
  · refine hpush.conditionSignal (.inr ?_)
    rw [core_putItem, h.core.nelem_push]
    exact Nat.succ_pos _
  · exact hpush

/-- A call of `fifo_read`. -/
theorem fifoRead_inv (h : b.Inv t) (ht : (b.pc t).sleeps = false) :
    (b.fifoRead t outl env).1.Inv t := by
  unfold Bio.fifoRead
  split
  · obtain ⟨rcv, curr, hadjust⟩ := adjustRcvTimeout_eq
      { b.d with waitingRead := b.d.waitingRead + 1 } env.now
    rw [hadjust]
    exact Inv.sleepRead h ht _
  · rename_i hnelem
    exact readFinish_inv h ht fun _ => Nat.pos_of_ne_zero hnelem

/-- `fifo_read` after its wait. -/
theorem fifoReadResume_inv {timedOut : Bool} (h : b.Inv rd)
    (ht : b.pc t = .readReady outl timedOut) :
    (b.fifoReadResume t outl timedOut pick).1.Inv rd := by
  -- the reader has been signalled for a packet, or it has timed out
  have hready := h.readers t
  rw [ht] at hready
  obtain ⟨rfl, hn⟩ := hready
  have hawake : (b.pc t).sleeps = false := by rw [ht]; rfl
  obtain ⟨curr, hreset⟩ := resetRcvTimeout_eq b.d
  unfold Bio.fifoReadResume
  rw [hreset]
  exact readFinish_inv h hawake hn

/-- A call of `fifo_write`. -/
theorem fifoWrite_inv (h : b.Inv rd) (ht : (b.pc t).sleeps = false) :
    (b.fifoWrite t buf env).1.Inv rd := by
  unfold Bio.fifoWrite
  split
  · exact h
  · split
    · exact Inv.sleepWrite h ht
    · rename_i hroom
      exact writeFinish_inv h ht hroom

/-- `fifo_write` after a wait. -/
theorem fifoWriteResume_inv (h : b.Inv rd) (ht : b.pc t = .writeReady buf) :
    (b.fifoWriteResume t buf env).1.Inv rd := by
  have hawake : (b.pc t).sleeps = false := by rw [ht]; rfl
  unfold Bio.fifoWriteResume
  dsimp only
  split
  · exact Inv.sleepWrite h hawake
  · rename_i hroom
    exact writeFinish_inv h hawake hroom

/-- The commands, `BIO_CTRL_RESET` excepted. -/
theorem fifoCtrl_inv (h : b.Inv rd) {cmd : Ctrl} (hcmd : cmd ≠ .reset) :
    (b.fifoCtrl cmd).1.Inv rd := by
  cases cmd with
  | reset => exact absurd rfl hcmd
  | fifoSetDroptail num =>
    have hcore : Core.Ok { b.d.core with droptail := num } :=
      ⟨h.core.size_pos, h.core.size_lt, h.core.nelem_le, h.core.read_lt, h.core.write_eq,
        h.core.filled⟩
    exact ⟨hcore, h.readers, h.condRead, h.condWrite⟩
  | _ => exact h

/-- One step of the BIO and its threads keeps the invariant. -/
theorem step_inv {r : Bio × Obs} (h : b.Inv rd) (hok : OnlySignals rd a) (hs : step b a = some r) :
    r.1.Inv rd := by
  cases a with
  | read t out env =>
    obtain rfl : t = rd := hok
    simp only [step] at hs
    split at hs
    · rename_i hidle
      have hawake : (b.pc t).sleeps = false := by rw [hidle]; rfl
      cases out with
      | none =>
        cases hs
        exact h
      | some outl =>
        cases hs
        exact fifoRead_inv h hawake
    · cases hs
  | write t buf env =>
    simp only [step] at hs
    split at hs
    · rename_i hidle
      have hawake : (b.pc t).sleeps = false := by rw [hidle]; rfl
      cases buf with
      | none =>
        cases hs
        exact h
      | some buf =>
        cases hs
        exact fifoWrite_inv h hawake
    · cases hs
  | resume t env =>
    simp only [step] at hs
    split at hs
    · rename_i hpc
      cases hs
      exact fifoReadResume_inv h hpc
    · rename_i hpc
      cases hs
      exact fifoWriteResume_inv h hpc
    · cases hs
  | expire t =>
    simp only [step] at hs
    split at hs
    · cases hs
      exact h.leave (.inr (by simp))
    · cases hs
  | spurious t => exact hok.elim
  | ctrl cmd =>
    cases hs
    exact fifoCtrl_inv h hok

/-! ## What a step shows -/

/-- The call of a thread. -/
def Pc.call : Pc → Call
  | .idle => .none
  | .readSleep outl _ => .reading outl
  | .readReady outl timedOut => if timedOut then .expired outl else .reading outl
  | .writeSleep buf | .writeReady buf => .writing buf

/-- The queue in a BIO and the calls of its threads. -/
def Bio.usage (b : Bio) : Usage := ⟨b.queue, fun t => (b.pc t).call⟩

/-- A signal does not end the call of the thread that it wakes up. -/
@[simp]
theorem Pc.call_wake (pc : Pc) : (pc.wake false).call = pc.call := by
  cases pc <;> rfl

/-- The thread `t` moves on to `p`. -/
theorem usage_goto {p : Pc} (hqueue : b'.queue = b.queue)
    (hpc : b'.pc = Function.update b.pc t p) : b'.usage = b.usage.goto t p.call := by
  have hcall : (fun u => (b'.pc u).call) = Function.update (fun u => (b.pc u).call) t p.call := by
    rw [hpc]
    exact Function.comp_update Pc.call b.pc t p
  simp only [Bio.usage, Usage.goto, hqueue, hcall]

/-- The call of `t` returns. -/
theorem usage_returns {items : List Bytes} (hqueue : b'.queue = { b.queue with items := items })
    (h : Returns t b b') : b'.usage = b.usage.returns t items := by
  have hcall : (fun u => (b'.pc u).call) = Function.update (fun u => (b.pc u).call) t .none := by
    funext u
    by_cases hu : u = t
    · subst hu
      rw [Function.update_self, h.self]
      rfl
    · rw [Function.update_of_ne hu]
      rcases h.other u hu with hpc | hpc
      · rw [hpc]
      · rw [hpc, Pc.call_wake]
  simp only [Bio.usage, Usage.returns, hqueue, hcall]

theorem Stores.step (h : Stores t buf b b' o)
    (hcall : (b.pc t).call = .none ∨ (b.pc t).call = .writing buf) :
    Usage.Step b.usage o b'.usage := by
  rw [h.obs, usage_returns h.queue h.returns]
  exact .accepted t buf hcall h.room

theorem Takes.step {p : Bytes} (h : Takes t outl p b b' o)
    (hcall : (b.pc t).call = .none ∨ (b.pc t).call = .reading outl) :
    Usage.Step b.usage o b'.usage := by
  rw [h.obs, usage_returns h.queue h.returns]
  exact .delivered t outl hcall h.items

/-- A call of `fifo_read`. -/
theorem read_step (h : b.Inv rd) (ht : b.pc t = .idle)
    (hs : step b (.read t (some outl) env) = some (b', o)) : Usage.Step b.usage o b'.usage := by
  have hcall : (b.pc t).call = .none := by rw [ht]; rfl
  rcases read_cases h hs with ⟨deadline, rfl, hempty, hqueue, hpc⟩ | ⟨p, htakes⟩
  · rw [usage_goto hqueue hpc]
    exact .readWaits t outl hcall hempty
  · exact htakes.step (.inl hcall)

/-- A call of `fifo_write`. -/
theorem write_step (h : b.Inv rd) (hmalloc : env.malloc = true) (ht : b.pc t = .idle)
    (hs : step b (.write t (some buf) env) = some (b', o)) : Usage.Step b.usage o b'.usage := by
  have hcall : (b.pc t).call = .none := by rw [ht]; rfl
  rcases write_cases h (b.holds_of_malloc buf hmalloc) hs with
    ⟨rfl, rfl, hfull, hdrop⟩ | ⟨rfl, hdrop, hsleeps⟩ | hstores
  · exact .discarded t buf hcall hfull hdrop
  · rw [usage_goto hsleeps.queue hsleeps.pc]
    exact .writeWaits t buf hcall hsleeps.full hdrop
  · exact hstores.step (.inl hcall)

/-- A call after its wait. -/
theorem resume_step (h : b.Inv rd) (hmalloc : env.malloc = true)
    (hs : step b (.resume t env) = some (b', o)) : Usage.Step b.usage o b'.usage := by
  cases hpc : b.pc t with
  | readReady outl timedOut =>
    cases timedOut with
    | true =>
      have hcall : (b.pc t).call = .expired outl := by rw [hpc]; rfl
      obtain ⟨rfl, hqueue, hidle⟩ := resumeRead_timedOut hpc hs
      rw [usage_goto hqueue hidle]
      exact .timedOut t hcall
    | false =>
      have hcall : (b.pc t).call = .reading outl := by rw [hpc]; rfl
      obtain ⟨p, htakes⟩ := resumeRead_cases h hpc hs
      exact htakes.step (.inr hcall)
  | writeReady buf =>
    have hcall : (b.pc t).call = .writing buf := by rw [hpc]; rfl
    rcases resumeWrite_cases h (b.holds_of_malloc buf hmalloc) hpc hs with
      ⟨rfl, hsleeps⟩ | hstores
    · rw [usage_goto hsleeps.queue hsleeps.pc]
      have hsame : b.usage.goto t (Pc.writeSleep buf).call = b.usage := Usage.goto_self hcall
      rw [hsame]
      exact .writeStillWaits t hcall hsleeps.full
    · exact hstores.step (.inr hcall)
  | _ => simp [step, hpc] at hs

/-- The commands, `BIO_CTRL_RESET` excepted. -/
theorem ctrl_step (h : b.Inv rd) {cmd : Ctrl} (hcmd : cmd ≠ .reset) :
    Usage.Step b.usage (b.fifoCtrl cmd).2 (b.fifoCtrl cmd).1.usage := by
  cases cmd with
  | reset => exact absurd rfl hcmd
  | eof =>
    refine .ctrl .eof hcmd none ?_
    show _ = _
    simp only [Bio.usage, Bio.items_eq_nil]
  | pending =>
    refine .ctrl .pending hcmd none ?_
    show (b.d.pending : ℤ) = b.queue.bytes
    rw [FifoData.pending_eq h.core]
    rfl
  | fifoGetDroptail => exact .ctrl .fifoGetDroptail hcmd none rfl
  | _ => exact .ctrl _ hcmd _ trivial

/-- One step of the BIO and its threads is a step of the queue and its callers. -/
theorem step_sim (h : b.Inv rd) (hok : OneReader rd a) (hs : step b a = some (b', o)) :
    Usage.Step b.usage o b'.usage := by
  cases a with
  | read t out env =>
    have hidle : b.pc t = .idle := by
      by_contra hne
      simp [step, hne] at hs
    cases out with
    | none =>
      simp only [step, hidle, if_true] at hs
      cases hs
      exact .noBuffer t (by simp only [Bio.usage, hidle, Pc.call])
    | some outl => exact read_step h hidle hs
  | write t buf env =>
    have hidle : b.pc t = .idle := by
      by_contra hne
      simp [step, hne] at hs
    cases buf with
    | none =>
      simp only [step, hidle, if_true] at hs
      cases hs
      exact .noBuffer t (by simp only [Bio.usage, hidle, Pc.call])
    | some buf => exact write_step h hok hidle hs
  | resume t env => exact resume_step h hok hs
  | expire t =>
    cases hpc : b.pc t with
    | readSleep outl deadline =>
      have hcall : (b.pc t).call = .reading outl := by rw [hpc]; rfl
      have hready : (b.pc t).wake true = .readReady outl true := by rw [hpc]; rfl
      cases deadline with
      | none => simp [step, hpc] at hs
      | some at' =>
        simp only [step, hpc] at hs
        cases hs
        have hgoto : (b.leave t true).usage = b.usage.goto t ((b.pc t).wake true).call :=
          usage_goto rfl rfl
        rw [hgoto, hready]
        exact .expires t hcall
    | _ => simp [step, hpc] at hs
  | spurious t => exact hok.elim
  | ctrl cmd =>
    have hctrl : b.fifoCtrl cmd = (b', o) := Option.some.inj hs
    have hstep := ctrl_step h hok
    rw [hctrl] at hstep
    exact hstep

end Steps

/-! ## Whole runs -/

/-- What a `fifo_read` does in the state `b`. -/
structure ReadsAsQueue (b : Bio) : Prop where
  /-- A call of `fifo_read` takes the first packet. -/
  take : ∀ t outl env p ps, b.pc t = .idle → b.queue.items = p :: ps →
    ∃ b', step b (.read t (some outl) env) = some (b', .delivered t outl (p.take outl)) ∧
      b'.pc t = .idle ∧ b'.queue = { b.queue with items := ps }
  /-- On an empty queue it waits. -/
  wait : ∀ t outl env, b.pc t = .idle → b.queue.items = [] →
    ∃ b' deadline, step b (.read t (some outl) env) = some (b', .readWaits t) ∧
      b'.pc t = .readSleep outl deadline ∧ b'.queue = b.queue
  /-- A reader that has been woken up by a signal finds a packet, and takes the first one. -/
  resume : ∀ t outl env, b.pc t = .readReady outl false →
    ∃ b' p ps, b.queue.items = p :: ps ∧
      step b (.resume t env) = some (b', .delivered t outl (p.take outl)) ∧
      b'.pc t = .idle ∧ b'.queue = { b.queue with items := ps }
  /-- A read that has timed out changes nothing. -/
  timeout : ∀ t outl env, b.pc t = .readReady outl true →
    ∃ b', step b (.resume t env) = some (b', .timedOut t) ∧ b'.pc t = .idle ∧ b'.queue = b.queue

/-- What a `fifo_write` does in the state `b`. -/
structure WritesAsQueue (b : Bio) : Prop where
  /-- A call of `fifo_write` on a full queue drops the packet when `droptail` is set. -/
  drop : ∀ t buf env, b.pc t = .idle → b.queue.Full → b.d.droptail ≠ 0 →
    step b (.write t (some buf) env) = some (b, .discarded t buf)
  /-- Otherwise it waits. -/
  wait : ∀ t buf env, b.pc t = .idle → b.queue.Full → b.d.droptail = 0 →
    ∃ b', step b (.write t (some buf) env) = some (b', .writeWaits t) ∧
      b'.pc t = .writeSleep buf ∧ b'.queue = b.queue
  /-- With room in the queue it appends the packet. -/
  room : ∀ t buf env, b.pc t = .idle → ¬ b.queue.Full → env.malloc = true →
    ∃ b', step b (.write t (some buf) env) = some (b', .accepted t buf) ∧
      b'.pc t = .idle ∧ b'.queue = { b.queue with items := b.queue.items ++ [buf] }
  /-- A writer that has been woken up waits on while the queue is full, -/
  resume_wait : ∀ t buf env, b.pc t = .writeReady buf → b.queue.Full →
    ∃ b', step b (.resume t env) = some (b', .writeStillWaits t) ∧
      b'.pc t = .writeSleep buf ∧ b'.queue = b.queue
  /-- and appends its packet when there is room. -/
  resume_room : ∀ t buf env, b.pc t = .writeReady buf → ¬ b.queue.Full → env.malloc = true →
    ∃ b', step b (.resume t env) = some (b', .accepted t buf) ∧
      b'.pc t = .idle ∧ b'.queue = { b.queue with items := b.queue.items ++ [buf] }

/-- The BIO of size `len` behaves as a bounded queue: `b` is the state after a run that has
shown `tr`. -/
structure BehavesAsQueue (len : ℕ) (b : Bio) (tr : List Obs) : Prop where
  size_eq : b.d.size = len
  nelem_le : b.d.nelem ≤ b.d.size
  index_write : b.d.indexWrite = (b.d.indexRead + b.d.nelem) % b.d.size
  /-- A bounded queue and its callers, all idle at first, can show the same. -/
  refines : LabelledRun Usage.Step (.init len) tr b.usage
  /-- The `k`-th successful read returns the beginning of the `k`-th accepted packet. -/
  reads : ∀ (k : ℕ) outl out, (deliveries tr)[k]? = some (outl, out) →
    ∃ p : Bytes, (acceptedPackets tr)[k]? = some p ∧ out = p.take (min outl p.length)
  /-- The other accepted packets are in the queue. -/
  queued : (acceptedPackets tr).drop (deliveries tr).length = b.queue.items
  counted : (deliveries tr).length + b.d.nelem = (acceptedPackets tr).length
  reading : ReadsAsQueue b
  writing : WritesAsQueue b
  pending : step b (.ctrl .pending) = some (b, .ctrl .pending b.queue.bytes none)
  eof : step b (.ctrl .eof) = some (b, .ctrl .eof (if b.queue.items = [] then 1 else 0) none)

section Runs
variable {rd t : Thread} {b : Bio} {buf : Bytes} {env : Env} {tr : List Obs} {len : ℕ}

/-- A call begins in an idle thread, -/
theorem step_read_enabled (outl : ℕ) (env : Env) (ht : b.pc t = .idle) :
    ∃ b' o, step b (.read t (some outl) env) = some (b', o) := by
  refine ⟨(b.fifoRead t outl env).1, (b.fifoRead t outl env).2, ?_⟩
  simp only [step, ht, if_true]

theorem step_write_enabled (buf : Bytes) (env : Env) (ht : b.pc t = .idle) :
    ∃ b' o, step b (.write t (some buf) env) = some (b', o) := by
  refine ⟨(b.fifoWrite t buf env).1, (b.fifoWrite t buf env).2, ?_⟩
  simp only [step, ht, if_true]

/-- and goes on when the thread has been woken up. -/
theorem step_resumeRead_enabled {outl : ℕ} {timedOut : Bool} (env : Env)
    (ht : b.pc t = .readReady outl timedOut) : ∃ b' o, step b (.resume t env) = some (b', o) := by
  refine ⟨(b.fifoReadResume t outl timedOut env.pick).1,
    (b.fifoReadResume t outl timedOut env.pick).2, ?_⟩
  simp only [step, ht]

theorem step_resumeWrite_enabled (env : Env) (ht : b.pc t = .writeReady buf) :
    ∃ b' o, step b (.resume t env) = some (b', o) := by
  refine ⟨(b.fifoWriteResume t buf env).1, (b.fifoWriteResume t buf env).2, ?_⟩
  simp only [step, ht]

theorem readsAsQueue (h : b.Inv rd) : ReadsAsQueue b where
  take := by
    intro t outl env p ps ht hitems
    obtain ⟨b', o, hs⟩ := step_read_enabled outl env ht
    rcases read_cases h hs with ⟨_, _, hempty, _⟩ | ⟨q, rfl, hq, hqueue, hreturns⟩
    · simp [hempty] at hitems
    · obtain ⟨rfl, hps⟩ := List.cons.inj (hitems.symm.trans hq)
      rw [← hps] at hqueue
      exact ⟨b', hs, hreturns.self, hqueue⟩
  wait := by
    intro t outl env ht hempty
    obtain ⟨b', o, hs⟩ := step_read_enabled outl env ht
    rcases read_cases h hs with ⟨deadline, rfl, _, hqueue, hpc⟩ | ⟨q, _, hq, _, _⟩
    · refine ⟨b', deadline, hs, ?_, hqueue⟩
      rw [hpc, Function.update_self]
    · simp [hempty] at hq
  resume := by
    intro t outl env ht
    obtain ⟨b', o, hs⟩ := step_resumeRead_enabled env ht
    obtain ⟨p, rfl, hitems, hqueue, hreturns⟩ := resumeRead_cases h ht hs
    exact ⟨b', p, _, hitems, hs, hreturns.self, hqueue⟩
  timeout := by
    intro t outl env ht
    obtain ⟨b', o, hs⟩ := step_resumeRead_enabled env ht
    obtain ⟨rfl, hqueue, hpc⟩ := resumeRead_timedOut ht hs
    refine ⟨b', hs, ?_, hqueue⟩
    rw [hpc, Function.update_self]

theorem writesAsQueue (h : b.Inv rd) : WritesAsQueue b where
  drop := by
    intro t buf env ht hfull hdrop
    simp only [step, ht, if_true, Bio.fifoWrite, Bio.full_iff.mp hfull, true_and, hdrop,
      ne_eq, not_false_eq_true]
  wait := by
    intro t buf env ht hfull hdrop
    refine ⟨b.writeWait t buf, ?_, Function.update_self .., rfl⟩
    simp only [step, ht, if_true, Bio.fifoWrite, Bio.full_iff.mp hfull, true_and, hdrop,
      ne_eq, not_true_eq_false, if_false]
  room := by
    intro t buf env ht hroom hmalloc
    obtain ⟨b', o, hs⟩ := step_write_enabled buf env ht
    rcases write_cases h (b.holds_of_malloc buf hmalloc) hs with
      ⟨_, _, hfull, _⟩ | ⟨_, _, hsleeps⟩ | ⟨rfl, _, hqueue, hreturns⟩
    · exact absurd hfull hroom
    · exact absurd hsleeps.full hroom
    · exact ⟨b', hs, hreturns.self, hqueue⟩
  resume_wait := by
    intro t buf env ht hfull
    have hresume : b.fifoWriteResume t buf env =
        (Bio.writeWait { b with d := { b.d with waitingWrite := b.d.waitingWrite - 1 } } t buf,
          .writeStillWaits t) := if_pos (Bio.full_iff.mp hfull)
    refine ⟨(b.fifoWriteResume t buf env).1, ?_, ?_, ?_⟩
    · simp only [step, ht, hresume]
    · rw [hresume]
      exact Function.update_self ..
    · rw [hresume]
      rfl
  resume_room := by
    intro t buf env ht hroom hmalloc
    obtain ⟨b', o, hs⟩ := step_resumeWrite_enabled env ht
    rcases resumeWrite_cases h (b.holds_of_malloc buf hmalloc) ht hs with
      ⟨_, hsleeps⟩ | ⟨rfl, _, hqueue, hreturns⟩
    · exact absurd hsleeps.full hroom
    · exact ⟨b', hs, hreturns.self, hqueue⟩

/-- The invariant and the abstract run give the behaviour. -/
theorem behavesAsQueue (h : b.Inv rd) (hrun : LabelledRun Usage.Step (.init len) tr b.usage) :
    BehavesAsQueue len b tr := by
  obtain ⟨taken, hin, hout⟩ := Usage.deliveries_of_run rfl hrun
  have hlen : (deliveries tr).length = taken.length := hout.length_eq
  have hitems : b.queue.items.length = b.d.nelem := Core.items_length
  have hqueued : b.usage.queue = b.queue := rfl
  rw [hqueued] at hin
  exact {
    size_eq := Usage.bound_of_run hrun
    nelem_le := h.core.nelem_le
    index_write := h.core.write_eq
    refines := hrun
    reads := by
      intro k outl out hk
      obtain ⟨p, hp, hd⟩ := delivers_getElem hout hk
      refine ⟨p, ?_, ?_⟩
      · rw [hin, List.getElem?_append_left (List.getElem?_eq_some_iff.mp hp).1]
        exact hp
      · rw [← List.take_eq_take_min]
        exact hd
    queued := by
      rw [hin, hlen, List.drop_left]
    counted := by
      rw [hin, hlen, List.length_append, hitems]
    reading := readsAsQueue h
    writing := writesAsQueue h
    pending := by
      simp only [step, Bio.fifoCtrl, FifoData.pending_eq h.core]
      rfl
    eof := by
      simp only [step, Bio.fifoCtrl, Bio.items_eq_nil] }

/-- A new BIO satisfies the invariant, its queue is empty, and nobody waits. -/
theorem fifoAllocate_inv (rd : Thread) {dataSize : ℕ} {hlen : 0 < len ∧ len < 0x80000000}
    {mallocs : ℕ → Bool} {junk : ℕ → FifoItem}
    (h : fifoAllocate len dataSize hlen mallocs junk = some b) :
    b.Inv rd ∧ b.usage = .init len := by
  unfold fifoAllocate at h
  split at h
  · cases h
    refine ⟨⟨⟨hlen.1, hlen.2, Nat.zero_le _, hlen.1, ?_, List.forall_mem_nil _⟩, fun _ => trivial,
      ⟨List.nodup_nil, by simp [Pc.sleepsRead]⟩, ⟨List.nodup_nil, by simp [Pc.sleepsWrite]⟩⟩, rfl⟩
    exact (Nat.zero_mod _).symm
  · cases h

/-- In every run of any number of writers and one reader the BIO behaves as a bounded
queue. -/
theorem fifo_behaves_as_queue {dataSize : ℕ} {hlen : 0 < len ∧ len < 0x80000000}
    {mallocs : ℕ → Bool} {junk : ℕ → FifoItem} {b₀ : Bio} {s : Bio × List Obs}
    (h₀ : fifoAllocate len dataSize hlen mallocs junk = some b₀)
    (h : Steps (traced step) (fun _ => OneReader rd) (b₀, []) s) : BehavesAsQueue len s.1 s.2 := by
  obtain ⟨hinv, husage⟩ := fifoAllocate_inv rd h₀
  have hsim : s.1.Inv rd ∧ LabelledRun Usage.Step b₀.usage s.2 s.1.usage :=
    h.simulates Bio.usage (Bio.Inv rd) hinv fun b _ a b' o hb hok hs =>
      ⟨step_inv hb hok.onlySignals hs, step_sim hb hok hs⟩
  rw [husage] at hsim
  exact behavesAsQueue hsim.1 hsim.2

end Runs

/-! ### A run with two writers -/

/-- The environment of the steps below. -/
def env₀ : Env := ⟨.zero, .zero, true, 0⟩

/-- A queue of one packet. The reader 0 waits and is woken up by the writer 1, whose second
packet gets ahead of the waiting writer 2; its third packet is dropped. At the end a packet
arrives after the reader's timeout. -/
def twoWriters : List Act :=
  [.read 0 (some 2) env₀, .write 1 (some [1, 2, 3]) env₀, .write 2 (some [4]) env₀,
    .resume 0 env₀, .write 1 (some []) env₀, .resume 2 env₀, .ctrl (.fifoSetDroptail 1),
    .write 1 (some [9]) env₀, .ctrl (.dgramSetRecvTimeout ⟨1, 0⟩), .read 0 (some 5) env₀,
    .read 0 (some 5) env₀, .expire 0, .resume 2 env₀, .resume 0 env₀]

/-- What the callers see. -/
def twoWritersShow : List Obs :=
  [.readWaits 0, .accepted 1 [1, 2, 3], .writeWaits 2, .delivered 0 2 [1, 2], .accepted 1 [],
    .writeStillWaits 2, .ctrl (.fifoSetDroptail 1) 1 none, .discarded 1 [9],
    .ctrl (.dgramSetRecvTimeout ⟨1, 0⟩) 1 none, .delivered 0 5 [], .readWaits 0, .unslept 0,
    .accepted 2 [4], .timedOut 0]

theorem fifo_behaves_as_queue_twoWriters :
    ∃ b₀ b, fifoAllocate 1 2 (by decide) (fun _ => true) (fun _ => ⟨0, 0, [0, 0]⟩) = some b₀ ∧
      Steps (traced step) (fun _ => OneReader 0) (b₀, []) (b, twoWritersShow) ∧
      BehavesAsQueue 1 b twoWritersShow := by
  have hrun : ((fifoAllocate 1 2 (by decide) (fun _ => true) (fun _ => ⟨0, 0, [0, 0]⟩)).bind
      fun b => runOk (traced step) (fun _ => OneReader 0) twoWriters (b, [])).map (·.2)
        = some twoWritersShow := by decide +kernel
  obtain ⟨⟨b, tr⟩, hs, htr⟩ := Option.map_eq_some_iff.mp hrun
  obtain ⟨b₀, hb₀, hs⟩ := Option.bind_eq_some_iff.mp hs
  obtain rfl : tr = twoWritersShow := htr
  have hsteps := Steps.of_runOk .refl hs
  exact ⟨b₀, b, hb₀, hsteps, fifo_behaves_as_queue hb₀ hsteps⟩

end Fifo
end Campagnol
