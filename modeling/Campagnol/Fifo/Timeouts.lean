import Campagnol.Fifo.BioTheorems
import Mathlib.Data.Int.Order.Basic
import Mathlib.Order.WithBot

/-!
# Receive timeouts of the FIFO BIO

A reader of an empty queue waits at most for the receive timeout, and not longer than until the next
timer of OpenSSL expires. A zero `timeval` stands for "no timeout".

* `fifoRead_timed_iff`: the wait is bounded unless the timer expires at the very microsecond in
  which it is looked at, which leaves a remaining time of zero;
* `fifo_timeouts`: the deadline of the wait, and that the receive timeout is what it was once a read
  has returned.
-/

namespace Campagnol
namespace Fifo

/-! ## Time -/

/-- A `timeval` in microseconds. -/
def Timeval.usec (tv : Timeval) : ℤ := tv.tvSec * 1000000 + tv.tvUsec

/-- A `timespec` in nanoseconds. -/
def Timespec.nsec (ts : Timespec) : ℤ := ts.tvSec * 1000000000 + ts.tvNsec

/-- A normalised `timeval`. -/
structure Timeval.Normalised (tv : Timeval) : Prop where
  sec : 0 ≤ tv.tvSec
  low : 0 ≤ tv.tvUsec
  high : tv.tvUsec < 1000000

section Time
variable {a b now next rcv : Timeval}

theorem Timeval.Normalised.eq_of_usec (ha : a.Normalised) (hb : b.Normalised)
    (h : a.usec = b.usec) : a = b := by
  obtain ⟨asec, ausec⟩ := a
  obtain ⟨bsec, busec⟩ := b
  obtain ⟨-, halow, hahigh⟩ := ha
  obtain ⟨-, hblow, hbhigh⟩ := hb
  simp only [Timeval.usec] at *
  have hsec : asec = bsec := by omega
  have husec : ausec = busec := by omega
  rw [hsec, husec]

theorem Timeval.usec_zero : Timeval.zero.usec = 0 := rfl

theorem Timeval.normalised_zero : Timeval.zero.Normalised := ⟨by decide, by decide, by decide⟩

theorem Timeval.Normalised.usec_eq_zero (h : a.Normalised) : a.usec = 0 ↔ a = .zero := by
  constructor
  · exact fun h0 => h.eq_of_usec Timeval.normalised_zero h0
  · rintro rfl
    rfl

theorem Timeval.Normalised.usec_nonneg (h : a.Normalised) : 0 ≤ a.usec := by
  obtain ⟨hsec, hlow, -⟩ := h
  simp only [Timeval.usec]
  omega

/-- The time left is the difference, or a microsecond when the timer has expired. -/
theorem timeLeft_spec (hnow : now.Normalised) (hnext : next.Normalised) :
    (timeLeft next now).Normalised ∧
      (timeLeft next now).usec = if now.usec ≤ next.usec then next.usec - now.usec else 1 := by
  obtain ⟨hn, hnlow, hnhigh⟩ := hnow
  obtain ⟨hx, hxlow, hxhigh⟩ := hnext
  -- the difference with the borrow
  obtain ⟨left, hleft⟩ : ∃ left : Timeval, left =
      if next.tvUsec - now.tvUsec < 0 then
        ⟨next.tvSec - now.tvSec - 1, next.tvUsec - now.tvUsec + 1000000⟩
      else ⟨next.tvSec - now.tvSec, next.tvUsec - now.tvUsec⟩ := ⟨_, rfl⟩
  have hdiff : left.usec = next.usec - now.usec ∧ 0 ≤ left.tvUsec ∧ left.tvUsec < 1000000 := by
    rw [hleft]
    split
    · simp only [Timeval.usec]
      omega
    · simp only [Timeval.usec]
      omega
  obtain ⟨hdiff, hlow, hhigh⟩ := hdiff
  have hleq : timeLeft next now = if left.tvSec < 0 then ⟨0, 1⟩ else left := by
    rw [hleft]
    rfl
  rw [hleq]
  simp only [Timeval.usec] at hdiff
  split
  · rename_i hneg
    refine ⟨⟨by decide, by decide, by decide⟩, ?_⟩
    rw [if_neg (by simp only [Timeval.usec]; omega)]
    rfl
  · rename_i hpos
    refine ⟨⟨by omega, hlow, hhigh⟩, ?_⟩
    rw [if_pos (by simp only [Timeval.usec]; omega)]
    simp only [Timeval.usec]
    omega

/-- The deadline of a wait is normalised. -/
theorem setTimeout_spec (hnow : now.Normalised) (hrcv : rcv.Normalised) :
    0 ≤ (setTimeout now rcv).tvNsec ∧ (setTimeout now rcv).tvNsec < 1000000000 ∧
      (setTimeout now rcv).nsec = 1000 * (now.usec + rcv.usec) := by
  obtain ⟨-, hnlow, hnhigh⟩ := hnow
  obtain ⟨-, hrlow, hrhigh⟩ := hrcv
  simp only [setTimeout]
  split
  · simp only [Timespec.nsec, Timeval.usec]
    omega
  · simp only [Timespec.nsec, Timeval.usec]
    omega

/-- The receive timeout as `fifo_adjust_rcv_timeout` leaves it. -/
def adjusted (rcv next now : Timeval) : Timeval :=
  if next.tvSec > 0 ∨ next.tvUsec > 0 then
    if (rcv.tvSec = 0 ∧ rcv.tvUsec = 0) ∨ rcv.tvSec > (timeLeft next now).tvSec ∨
        (rcv.tvSec = (timeLeft next now).tvSec ∧ rcv.tvUsec ≥ (timeLeft next now).tvUsec) then
      timeLeft next now
    else rcv
  else rcv

theorem currRcvTimeout_adjust (d : FifoData) (now : Timeval) :
    (d.adjustRcvTimeout now).currRcvTimeout = adjusted d.currRcvTimeout d.nextRcvTimeout now := by
  have hactive : d.timerActive = true ↔
      d.nextRcvTimeout.tvSec > 0 ∨ d.nextRcvTimeout.tvUsec > 0 := by
    simp [FifoData.timerActive]
  unfold FifoData.adjustRcvTimeout adjusted
  simp only [hactive]
  split
  · split <;> rfl
  · rfl

/-- Without a timer the receive timeout stays as it is. -/
theorem adjusted_zero (rcv now : Timeval) : adjusted rcv .zero now = rcv := by
  rw [adjusted, if_neg (by decide)]

/-- With a timer it is the time left, unless the receive timeout is shorter. -/
theorem adjusted_of_ne_zero (hnow : now.Normalised) (hnext : next.Normalised)
    (hrcv : rcv.Normalised) (hne : next ≠ .zero) :
    adjusted rcv next now =
      if rcv = .zero ∨ (timeLeft next now).usec ≤ rcv.usec then timeLeft next now else rcv := by
  obtain ⟨hleft, -⟩ := timeLeft_spec hnow hnext
  have hactive : next.tvSec > 0 ∨ next.tvUsec > 0 := by
    have hpos : next.usec ≠ 0 := fun h0 => hne (hnext.usec_eq_zero.mp h0)
    have hsec := hnext.sec
    have hlow := hnext.low
    simp only [Timeval.usec] at hpos
    omega
  have hzero : rcv.tvSec = 0 ∧ rcv.tvUsec = 0 ↔ rcv = .zero := by
    rw [← hrcv.usec_eq_zero]
    obtain ⟨hsec, hlow, -⟩ := hrcv
    simp only [Timeval.usec]
    omega
  have hle : rcv.tvSec > (timeLeft next now).tvSec ∨
      (rcv.tvSec = (timeLeft next now).tvSec ∧ rcv.tvUsec ≥ (timeLeft next now).tvUsec) ↔
        (timeLeft next now).usec ≤ rcv.usec := by
    obtain ⟨-, hllow, hlhigh⟩ := hleft
    obtain ⟨-, hrlow, hrhigh⟩ := hrcv
    simp only [Timeval.usec]
    omega
  rw [adjusted, if_pos hactive]
  simp only [hzero, hle]

/-- The time left is zero only when the timer expires now. -/
theorem timeLeft_eq_zero_iff (hnow : now.Normalised) (hnext : next.Normalised) :
    timeLeft next now = .zero ↔ next = now := by
  obtain ⟨hleft, husec⟩ := timeLeft_spec hnow hnext
  rw [← hleft.usec_eq_zero, husec]
  constructor
  · intro h0
    refine hnext.eq_of_usec hnow ?_
    split at h0 <;> omega
  · rintro rfl
    simp

/-- Something is left to wait for, unless the timer expires now. -/
theorem adjusted_ne_zero_iff (hnow : now.Normalised) (hnext : next.Normalised)
    (hrcv : rcv.Normalised) (hset : rcv ≠ .zero ∨ next ≠ .zero) :
    adjusted rcv next now ≠ .zero ↔ ¬ (next ≠ .zero ∧ next = now) := by
  by_cases hne : next = .zero
  · have hrcv0 : rcv ≠ .zero := hset.resolve_right (not_not.mpr hne)
    simp [hne, adjusted_zero, hrcv0]
  · have hzero := timeLeft_eq_zero_iff hnow hnext
    rw [adjusted_of_ne_zero hnow hnext hrcv hne]
    split
    · rw [Ne, hzero]
      simp [hne]
    · rename_i hshort
      obtain ⟨hrcv0, hlt⟩ := not_or.mp hshort
      have hnonneg := hrcv.usec_nonneg
      have hleft0 : timeLeft next now ≠ .zero := fun h0 => by
        rw [h0, Timeval.usec_zero] at hlt
        omega
      have hnot : next ≠ now := fun heq => hleft0 (hzero.mpr heq)
      simp [hrcv0, hnot]

end Time

/-! ## The wait -/

section Wait
variable {b : Bio} {t : Thread} {outl : ℕ} {env : Env}

/-- The receive timeout that a read waits for. -/
def Bio.waitTimeout (b : Bio) (now : Timeval) : Timeval :=
  adjusted b.d.currRcvTimeout b.d.nextRcvTimeout now

/-- A read of an empty queue waits without a deadline if and only if the timeout is zero. -/
theorem pc_fifoRead (hempty : b.d.nelem = 0) :
    (b.fifoRead t outl env).1.pc t = .readSleep outl
      (if b.waitTimeout env.now = .zero then none
        else some (setTimeout env.now' (b.waitTimeout env.now))) := by
  have hne : (b.waitTimeout env.now).tvSec ≠ 0 ∨ (b.waitTimeout env.now).tvUsec ≠ 0 ↔
      ¬ b.waitTimeout env.now = .zero := by
    obtain ⟨sec, usec⟩ := b.waitTimeout env.now
    simp only [Timeval.zero, Timeval.mk.injEq]
    omega
  rw [Bio.fifoRead, if_pos hempty]
  simp only [Function.update_self, currRcvTimeout_adjust]
  show Pc.readSleep outl (if (b.waitTimeout env.now).tvSec ≠ 0 ∨
    (b.waitTimeout env.now).tvUsec ≠ 0 then some (setTimeout env.now' (b.waitTimeout env.now))
      else none) = _
  simp only [hne, ite_not]

/-- The read uses `conditionTimedwait`. -/
def TimedWait (b : Bio) (t : Thread) (outl : ℕ) (env : Env) : Prop :=
  ∃ deadline, (b.fifoRead t outl env).1.pc t = .readSleep outl (some deadline)

theorem timedWait_iff (hempty : b.d.nelem = 0) :
    TimedWait b t outl env ↔ b.waitTimeout env.now ≠ .zero := by
  rw [TimedWait, pc_fifoRead hempty]
  split
  · rename_i hzero
    simp [hzero]
  · rename_i hne
    simp [hne]

/-- With a receive timeout or a timer, a read of an empty queue has a deadline if and only if it is
not the microsecond in which the timer expires. -/
theorem fifoRead_timed_iff (b : Bio) (t : Thread) (outl : ℕ) (env : Env) (hempty : b.d.nelem = 0)
    (hnow : env.now.Normalised) (hrcv : b.d.currRcvTimeout.Normalised)
    (hnext : b.d.nextRcvTimeout.Normalised)
    (hset : b.d.currRcvTimeout ≠ .zero ∨ b.d.nextRcvTimeout ≠ .zero) :
    TimedWait b t outl env ↔ ¬ (b.d.nextRcvTimeout ≠ .zero ∧ b.d.nextRcvTimeout = env.now) := by
  rw [timedWait_iff hempty]
  exact adjusted_ne_zero_iff hnow hnext hrcv hset

theorem size_one : 0 < 1 ∧ 1 < 0x80000000 := by decide

/-- A new BIO for one packet of 10 bytes, with a receive timeout and a timer. -/
def withTimeouts (rcv next : Timeval) : Option Bio :=
  (fifoAllocate 1 10 size_one (fun _ => true) (fun _ => ⟨0, 0, []⟩)).map fun b =>
    ((b.fifoCtrl (.dgramSetRecvTimeout rcv)).1.fifoCtrl (.dgramSetNextTimeout next)).1

/-- A read at the time `now`. -/
def envAt (now : Timeval) : Env := ⟨now, now, true, 0⟩

theorem fifoRead_timed_iff_later :
    ∃ b, withTimeouts ⟨1, 0⟩ ⟨100, 7⟩ = some b ∧ TimedWait b 0 10 (envAt ⟨100, 5⟩) := by
  refine ⟨_, rfl, (fifoRead_timed_iff _ 0 10 (envAt ⟨100, 5⟩) rfl ?_ ?_ ?_ ?_).mpr ?_⟩
  · exact ⟨by decide, by decide, by decide⟩
  · exact ⟨by decide, by decide, by decide⟩
  · exact ⟨by decide, by decide, by decide⟩
  · exact .inl (by decide)
  · decide

/-- The timer expires at the time of the read: the read waits without a deadline, although there is
a receive timeout of one second too. -/
theorem fifoRead_waits_forever :
    ∃ b, withTimeouts ⟨1, 0⟩ ⟨100, 5⟩ = some b ∧
      (b.fifoRead 0 10 (envAt ⟨100, 5⟩)).1.pc 0 = .readSleep 10 none ∧
        ¬ TimedWait b 0 10 (envAt ⟨100, 5⟩) := by
  have hwait : ((withTimeouts ⟨1, 0⟩ ⟨100, 5⟩).map fun b =>
      (b.fifoRead 0 10 (envAt ⟨100, 5⟩)).1.pc 0) = some (.readSleep 10 none) := by decide
  obtain ⟨b, hb, hpc⟩ := Option.map_eq_some_iff.mp hwait
  refine ⟨b, hb, hpc, ?_⟩
  rintro ⟨deadline, hdeadline⟩
  rw [hpc] at hdeadline
  cases hdeadline

end Wait

/-! ## The deadline -/

/-- The receive timeout in microseconds, infinite if there is none. -/
def rcvUsec (rcv : Timeval) : WithTop ℤ := if rcv = .zero then ⊤ else (rcv.usec : ℤ)

/-- The time until the timer expires, infinite if there is none. -/
def leftUsec (next now : Timeval) : WithTop ℤ :=
  if next = .zero then ⊤
  else if now.usec < next.usec then ((next.usec - now.usec : ℤ) : WithTop ℤ)
  else ((1 : ℤ) : WithTop ℤ)

section Deadline
variable {now next rcv : Timeval}

theorem rcvUsec_of_ne (h : rcv ≠ .zero) : rcvUsec rcv = (rcv.usec : ℤ) := if_neg h

theorem leftUsec_eq (hnow : now.Normalised) (hnext : next.Normalised) (hne : next ≠ .zero)
    (hnot : next ≠ now) : leftUsec next now = ((timeLeft next now).usec : ℤ) := by
  obtain ⟨-, husec⟩ := timeLeft_spec hnow hnext
  have hdiff : now.usec ≠ next.usec := fun heq => hnot (hnext.eq_of_usec hnow heq.symm)
  rw [leftUsec, if_neg hne, husec]
  by_cases hlt : now.usec < next.usec
  · rw [if_pos hlt, if_pos (Int.le_of_lt hlt)]
  · rw [if_neg hlt, if_neg (by omega)]

/-- The timeout of the wait is the smaller one of the two. -/
theorem adjusted_usec (hnow : now.Normalised) (hnext : next.Normalised) (hrcv : rcv.Normalised)
    (hset : rcv ≠ .zero ∨ next ≠ .zero) (hnot : next = .zero ∨ next ≠ now) :
    (adjusted rcv next now).Normalised ∧
      ((adjusted rcv next now).usec : WithTop ℤ) = min (rcvUsec rcv) (leftUsec next now) := by
  by_cases hne : next = .zero
  · subst hne
    have hrcv0 : rcv ≠ .zero := hset.resolve_right (not_not.mpr rfl)
    rw [adjusted_zero, rcvUsec_of_ne hrcv0, leftUsec, if_pos rfl, min_top_right]
    exact ⟨hrcv, rfl⟩
  · obtain ⟨hleft, -⟩ := timeLeft_spec hnow hnext
    rw [adjusted_of_ne_zero hnow hnext hrcv hne,
      leftUsec_eq hnow hnext hne (hnot.resolve_left hne)]
    by_cases hrcv0 : rcv = .zero
    · rw [if_pos (.inl hrcv0), rcvUsec, if_pos hrcv0, min_top_left]
      exact ⟨hleft, rfl⟩
    · rw [rcvUsec_of_ne hrcv0]
      by_cases hle : (timeLeft next now).usec ≤ rcv.usec
      · rw [if_pos (.inr hle), min_eq_right (WithTop.coe_le_coe.mpr hle)]
        exact ⟨hleft, rfl⟩
      · rw [if_neg (not_or.mpr ⟨hrcv0, hle⟩),
          min_eq_left (WithTop.coe_le_coe.mpr (Int.le_of_lt (Int.not_le.mp hle)))]
        exact ⟨hrcv, rfl⟩

/-- The thread `t` waits until the timeout or the timer expires, whichever comes first. -/
def WaitsUntil (b : Bio) (t : Thread) (outl : ℕ) (env : Env) : Prop :=
  ∃ deadline w, (b.fifoRead t outl env).1.pc t = .readSleep outl (some deadline) ∧
    0 ≤ deadline.tvNsec ∧ deadline.tvNsec < 1000000000 ∧
    ((w : ℤ) : WithTop ℤ) =
      min (rcvUsec b.d.currRcvTimeout) (leftUsec b.d.nextRcvTimeout env.now) ∧
    deadline.nsec = 1000 * (env.now.usec + w)

theorem waitsUntil_of_empty {b : Bio} {t : Thread} {outl : ℕ} {env : Env} (hempty : b.d.nelem = 0)
    (hclock : env.now' = env.now) (hnow : env.now.Normalised)
    (hrcv : b.d.currRcvTimeout.Normalised) (hnext : b.d.nextRcvTimeout.Normalised)
    (hset : b.d.currRcvTimeout ≠ .zero ∨ b.d.nextRcvTimeout ≠ .zero)
    (hnot : b.d.nextRcvTimeout = .zero ∨ b.d.nextRcvTimeout ≠ env.now) :
    WaitsUntil b t outl env := by
  obtain ⟨hnorm, husec⟩ := adjusted_usec hnow hnext hrcv hset hnot
  have htimed : b.waitTimeout env.now ≠ .zero := by
    refine (adjusted_ne_zero_iff hnow hnext hrcv hset).mpr ?_
    rintro ⟨hne, heq⟩
    exact hnot.elim hne fun h => h heq
  obtain ⟨hlow, hhigh, hnsec⟩ := setTimeout_spec hnow hnorm
  refine ⟨_, _, ?_, hlow, hhigh, husec, hnsec⟩
  rw [pc_fifoRead hempty, if_neg htimed, hclock]
  rfl

end Deadline

/-! ## Runs -/

/-- The thread is inside of `fifo_read`. -/
def Pc.inRead : Pc → Bool
  | .readSleep _ _ | .readReady _ _ => true
  | _ => false

/-- No call of `fifo_read` is in progress. -/
def NoReader (b : Bio) : Prop := ∀ t, (b.pc t).inRead = false

/-- Reads and changes of the timeouts come one after the other. Nothing is asked of the writers. -/
def OneAtATime (b : Bio) : Act → Prop
  | .read _ _ _ => NoReader b
  | .ctrl (.dgramSetNextTimeout _) => NoReader b
  | .ctrl (.dgramSetRecvTimeout _) => NoReader b
  | _ => True

/-- The receive timeout that a step sets. -/
def Obs.setsTimeout : Obs → Option Timeval
  | .ctrl (.dgramSetRecvTimeout tv) _ _ => some tv
  | _ => none

/-- The receive timeout set last; a new BIO has none. -/
def lastTimeout (tr : List Obs) : Timeval := (tr.filterMap Obs.setsTimeout).getLast?.getD .zero

/-- The timeouts are the same, and the same threads are inside of `fifo_read`. -/
structure SameTimeouts (b b' : Bio) : Prop where
  curr : b'.d.currRcvTimeout = b.d.currRcvTimeout
  rcv : b'.d.rcvTimeout = b.d.rcvTimeout
  next : b'.d.nextRcvTimeout = b.d.nextRcvTimeout
  inRead : ∀ t, (b'.pc t).inRead = (b.pc t).inRead

section Same
variable {b b' b'' : Bio} {t : Thread} {buf : Bytes} {env : Env} {pick : ℕ} {outl : ℕ}

theorem sameTimeouts_refl (b : Bio) : SameTimeouts b b := ⟨rfl, rfl, rfl, fun _ => rfl⟩

theorem SameTimeouts.trans (h : SameTimeouts b b') (h' : SameTimeouts b' b'') :
    SameTimeouts b b'' :=
  ⟨h'.curr.trans h.curr, h'.rcv.trans h.rcv, h'.next.trans h.next,
    fun t => (h'.inRead t).trans (h.inRead t)⟩

theorem inRead_update {pc : Thread → Pc} {p : Pc} (h : p.inRead = (pc t).inRead) (u : Thread) :
    (Function.update pc t p u).inRead = (pc u).inRead := by
  by_cases hu : u = t
  · subst hu
    rw [Function.update_self, h]
  · rw [Function.update_of_ne hu]

theorem sameTimeouts_leave (b : Bio) (t : Thread) (timedOut : Bool) :
    SameTimeouts b (b.leave t timedOut) := by
  refine ⟨rfl, rfl, rfl, inRead_update ?_⟩
  cases b.pc t <;> rfl

theorem sameTimeouts_conditionSignal (b : Bio) (cond : List Thread) (pick : ℕ) :
    SameTimeouts b (b.conditionSignal cond pick) := by
  unfold Bio.conditionSignal
  split
  · exact sameTimeouts_leave b _ false
  · exact sameTimeouts_refl b

theorem sameTimeouts_writeWait (h : (b.pc t).inRead = false) :
    SameTimeouts b (b.writeWait t buf) :=
  ⟨rfl, rfl, rfl, inRead_update h.symm⟩

theorem sameTimeouts_writeFinish (h : (b.pc t).inRead = false) :
    SameTimeouts b (b.writeFinish t buf env).1 := by
  have hput : ∀ item, SameTimeouts b (b.putItem t item) := fun item =>
    ⟨rfl, rfl, rfl, inRead_update h.symm⟩
  simp only [Bio.writeFinish]
  split
  · exact (hput _).trans (sameTimeouts_conditionSignal _ _ _)
  · exact hput _

theorem sameTimeouts_fifoWrite (h : (b.pc t).inRead = false) :
    SameTimeouts b (b.fifoWrite t buf env).1 := by
  unfold Bio.fifoWrite
  split
  · exact sameTimeouts_refl b
  · split
    · exact sameTimeouts_writeWait h
    · exact sameTimeouts_writeFinish h

theorem sameTimeouts_fifoWriteResume (h : (b.pc t).inRead = false) :
    SameTimeouts b (b.fifoWriteResume t buf env).1 := by
  unfold Bio.fifoWriteResume
  dsimp only
  split
  · exact ⟨rfl, rfl, rfl, inRead_update h.symm⟩
  · have hsame : SameTimeouts b { b with
        d := { b.d with waitingWrite := b.d.waitingWrite - 1 } } :=
      ⟨rfl, rfl, rfl, fun _ => rfl⟩
    exact hsame.trans (sameTimeouts_writeFinish h)

/-- The threads inside of `fifo_read` are the same but for `t`, which is there or not. -/
structure Reads (b b' : Bio) (t : Thread) (inside : Bool) : Prop where
  self : (b'.pc t).inRead = inside
  others : ∀ u, u ≠ t → (b'.pc u).inRead = (b.pc u).inRead

/-- `t` returns from `fifo_read`. -/
theorem readFinish_timeouts (b : Bio) (t : Thread) (outl : ℕ) (timedOut : Bool) (pick : ℕ) :
    (b.readFinish t outl timedOut pick).1.d.currRcvTimeout = b.d.currRcvTimeout ∧
      (b.readFinish t outl timedOut pick).1.d.rcvTimeout = b.d.rcvTimeout ∧
      (b.readFinish t outl timedOut pick).1.d.nextRcvTimeout = b.d.nextRcvTimeout ∧
      Reads b (b.readFinish t outl timedOut pick).1 t false := by
  have hidle : ∀ b' : Bio, b'.pc = Function.update b.pc t .idle → Reads b b' t false := by
    intro b' hpc
    refine ⟨?_, fun u hu => ?_⟩
    · rw [hpc, Function.update_self]
      rfl
    · rw [hpc, Function.update_of_ne hu]
  cases timedOut with
  | true => exact ⟨rfl, rfl, rfl, hidle _ rfl⟩
  | false =>
    have htake := hidle (b.takeItem t) rfl
    simp only [Bio.readFinish, Bool.false_eq_true, if_false]
    split
    · obtain ⟨hcurr, hrcv, hnext, hin⟩ :=
        sameTimeouts_conditionSignal (b.takeItem t) (b.takeItem t).d.condWrite pick
      refine ⟨hcurr, hrcv, hnext, (hin t).trans htake.self, fun u hu => ?_⟩
      exact (hin u).trans (htake.others u hu)
    · exact ⟨rfl, rfl, rfl, htake⟩

end Same

/-- The receive timeout after `fifo_reset_rcv_timeout`. -/
def FifoData.restored (d : FifoData) : Timeval := d.resetRcvTimeout.currRcvTimeout

theorem restored_eq (d : FifoData) :
    d.restored = if d.timerActive then d.rcvTimeout else d.currRcvTimeout := by
  rw [FifoData.restored, FifoData.resetRcvTimeout]
  split <;> rfl

/-- Adjusting the receive timeout can be undone. -/
theorem restored_adjustRcvTimeout (d : FifoData) (now : Timeval) :
    (d.adjustRcvTimeout now).restored = d.currRcvTimeout := by
  rw [restored_eq]
  unfold FifoData.adjustRcvTimeout
  by_cases hactive : d.timerActive = true
  · have hsaved : ∀ d' : FifoData, d'.nextRcvTimeout = d.nextRcvTimeout →
        d'.rcvTimeout = d.currRcvTimeout →
          (if d'.timerActive then d'.rcvTimeout else d'.currRcvTimeout) = d.currRcvTimeout := by
      intro d' hnext hrcv
      have hactive' : d'.timerActive = true := by
        rw [FifoData.timerActive, hnext]
        exact hactive
      rw [if_pos hactive', hrcv]
    rw [if_pos hactive]
    dsimp only
    split
    · exact hsaved _ rfl rfl
    · exact hsaved _ rfl rfl
  · rw [if_neg hactive, if_neg hactive]

/-- The receive timeout is `last`, or will be when the reader returns. -/
structure TimeoutOk (b : Bio) (last : Timeval) : Prop where
  curr : NoReader b → b.d.currRcvTimeout = last
  restored : ∀ t, (b.pc t).inRead = true → b.d.restored = last
  one : ∀ t u, (b.pc t).inRead = true → (b.pc u).inRead = true → u = t

section Steps
variable {b b' : Bio} {last : Timeval} {t : Thread} {outl : ℕ} {env : Env} {a : Act} {o : Obs}

theorem TimeoutOk.same (h : TimeoutOk b last) (hs : SameTimeouts b b') : TimeoutOk b' last := by
  refine ⟨fun hno => ?_, fun t ht => ?_, fun t u ht hu => ?_⟩
  · rw [hs.curr]
    exact h.curr fun t => (hs.inRead t).symm.trans (hno t)
  · rw [hs.inRead] at ht
    rw [← h.restored t ht, restored_eq, restored_eq, FifoData.timerActive, FifoData.timerActive,
      hs.next, hs.rcv, hs.curr]
  · rw [hs.inRead] at ht hu
    exact h.one t u ht hu

theorem timeoutOk_of_noReader (hno : NoReader b) (hcurr : b.d.currRcvTimeout = last) :
    TimeoutOk b last := by
  refine ⟨fun _ => hcurr, fun t ht => ?_, fun t u ht _ => ?_⟩
  · rw [hno t] at ht
    cases ht
  · rw [hno t] at ht
    cases ht

/-- `t` goes to sleep in `fifo_read`. -/
theorem timeoutOk_of_sleep (hno : NoReader b) (hreads : Reads b b' t true)
    (hrestored : b'.d.restored = last) : TimeoutOk b' last := by
  have hself : ∀ u, (b'.pc u).inRead = true → u = t := by
    intro u hu
    by_contra hne
    rw [hreads.others u hne, hno u] at hu
    cases hu
  refine ⟨fun hno' => ?_, fun _ _ => hrestored,
    fun u v hu hv => (hself v hv).trans (hself u hu).symm⟩
  have hin := hno' t
  rw [hreads.self] at hin
  cases hin

/-- `t` returns from `fifo_read`. -/
theorem timeoutOk_of_return (hothers : ∀ u, u ≠ t → (b.pc u).inRead = false)
    (hreads : Reads b b' t false) (hcurr : b'.d.currRcvTimeout = last) : TimeoutOk b' last := by
  refine timeoutOk_of_noReader (fun u => ?_) hcurr
  by_cases hu : u = t
  · rw [hu, hreads.self]
  · rw [hreads.others u hu, hothers u hu]

/-- A call of `fifo_read`, without another one in progress. -/
theorem TimeoutOk.fifoRead (h : TimeoutOk b last) (hno : NoReader b) :
    TimeoutOk (b.fifoRead t outl env).1 last := by
  unfold Bio.fifoRead
  split
  · refine timeoutOk_of_sleep hno (t := t) ⟨?_, fun u hu => ?_⟩ ?_
    · simp only [Function.update_self]
      rfl
    · simp only [Function.update_of_ne hu]
    · have hrestored := restored_adjustRcvTimeout
        { b.d with waitingRead := b.d.waitingRead + 1 } env.now
      rw [restored_eq] at hrestored ⊢
      exact hrestored.trans (h.curr hno)
  · obtain ⟨hcurr, -, -, hreads⟩ := readFinish_timeouts b t outl false env.pick
    exact timeoutOk_of_return (fun u _ => hno u) hreads (hcurr.trans (h.curr hno))

/-- `fifo_read` after its wait. -/
theorem TimeoutOk.fifoReadResume {timedOut : Bool} {pick : ℕ} (h : TimeoutOk b last)
    (ht : (b.pc t).inRead = true) : TimeoutOk (b.fifoReadResume t outl timedOut pick).1 last := by
  have hothers : ∀ u, u ≠ t → (b.pc u).inRead = false := by
    intro u hu
    by_contra hin
    exact hu (h.one t u ht (Bool.not_eq_false _ ▸ hin))
  obtain ⟨hcurr, -, -, hreads⟩ := readFinish_timeouts { b with
    d := { b.d.resetRcvTimeout with waitingRead := b.d.resetRcvTimeout.waitingRead - 1 } }
    t outl timedOut pick
  refine timeoutOk_of_return hothers ⟨hreads.self, hreads.others⟩ ?_
  exact hcurr.trans (h.restored t ht)

theorem TimeoutOk.fifoCtrl (h : TimeoutOk b last) {cmd : Ctrl} (hok : OneAtATime b (.ctrl cmd)) :
    TimeoutOk (b.fifoCtrl cmd).1 ((b.fifoCtrl cmd).2.setsTimeout.getD last) := by
  cases cmd with
  | dgramSetNextTimeout tv => exact timeoutOk_of_noReader hok (h.curr hok)
  | dgramSetRecvTimeout tv => exact timeoutOk_of_noReader hok rfl
  | _ => exact h.same ⟨rfl, rfl, rfl, fun _ => rfl⟩

theorem setsTimeout_readFinish (b : Bio) (t : Thread) (outl : ℕ) (timedOut : Bool) (pick : ℕ) :
    (b.readFinish t outl timedOut pick).2.setsTimeout = none := by
  cases timedOut <;> rfl

theorem setsTimeout_fifoRead : (b.fifoRead t outl env).2.setsTimeout = none := by
  unfold Bio.fifoRead
  split
  · rfl
  · exact setsTimeout_readFinish b t outl false env.pick

theorem setsTimeout_fifoWrite {buf : Bytes} : (b.fifoWrite t buf env).2.setsTimeout = none := by
  unfold Bio.fifoWrite
  split
  · rfl
  · split <;> rfl

theorem setsTimeout_fifoWriteResume {buf : Bytes} :
    (b.fifoWriteResume t buf env).2.setsTimeout = none := by
  unfold Bio.fifoWriteResume
  dsimp only
  split <;> rfl

/-- What one step does to the timeouts. -/
theorem TimeoutOk.step (h : TimeoutOk b last) (hok : OneAtATime b a)
    (hs : step b a = some (b', o)) : TimeoutOk b' (o.setsTimeout.getD last) := by
  have hnone : ∀ {r : Bio × Obs}, TimeoutOk r.1 last → r.2.setsTimeout = none →
      some r = some (b', o) → TimeoutOk b' (o.setsTimeout.getD last) := by
    rintro r hr hset heq
    cases heq
    rw [hset]
    exact hr
  cases a with
  | read t out env =>
    simp only [Fifo.step] at hs
    split at hs
    · cases out with
      | none => exact hnone (r := (b, _)) h rfl hs
      | some outl => exact hnone (h.fifoRead hok) setsTimeout_fifoRead hs
    · cases hs
  | write t buf env =>
    simp only [Fifo.step] at hs
    split at hs
    · rename_i hidle
      have hin : (b.pc t).inRead = false := by rw [hidle]; rfl
      cases buf with
      | none => exact hnone (r := (b, _)) h rfl hs
      | some buf => exact hnone (h.same (sameTimeouts_fifoWrite hin)) setsTimeout_fifoWrite hs
    · cases hs
  | resume t env =>
    simp only [Fifo.step] at hs
    split at hs
    · rename_i hpc
      exact hnone (h.fifoReadResume (by rw [hpc]; rfl)) (setsTimeout_readFinish _ _ _ _ _) hs
    · rename_i hpc
      have hin : (b.pc t).inRead = false := by rw [hpc]; rfl
      exact hnone (h.same (sameTimeouts_fifoWriteResume hin)) setsTimeout_fifoWriteResume hs
    · cases hs
  | expire t =>
    simp only [Fifo.step] at hs
    split at hs
    · exact hnone (r := (b.leave t true, _)) (h.same (sameTimeouts_leave b t true)) rfl hs
    · cases hs
  | spurious t =>
    simp only [Fifo.step] at hs
    split at hs
    · exact hnone (r := (b.leave t false, _)) (h.same (sameTimeouts_leave b t false)) rfl hs
    · exact hnone (r := (b.leave t false, _)) (h.same (sameTimeouts_leave b t false)) rfl hs
    · cases hs
  | ctrl cmd =>
    have heq : b.fifoCtrl cmd = (b', o) := Option.some.inj hs
    have hctrl := h.fifoCtrl hok
    rw [heq] at hctrl
    exact hctrl

end Steps

theorem lastTimeout_snoc (tr : List Obs) (o : Obs) :
    lastTimeout (tr ++ [o]) = o.setsTimeout.getD (lastTimeout tr) := by
  simp only [lastTimeout, List.filterMap_append, List.filterMap_cons, List.filterMap_nil]
  cases o.setsTimeout <;> simp

section Runs
variable {len dataSize : ℕ} {hlen : 0 < len ∧ len < 0x80000000} {mallocs : ℕ → Bool}
  {junk : ℕ → FifoItem} {b₀ : Bio} {s : Bio × List Obs}

/-- What every run keeps. -/
theorem timeoutOk_of_steps (h₀ : fifoAllocate len dataSize hlen mallocs junk = some b₀)
    (h : Steps (traced step) (fun s => OneAtATime s.1) (b₀, []) s) :
    TimeoutOk s.1 (lastTimeout s.2) := by
  have hinit : TimeoutOk b₀ .zero := by
    unfold fifoAllocate at h₀
    split at h₀
    · cases h₀
      exact timeoutOk_of_noReader (fun _ => rfl) rfl
    · cases h₀
  refine Steps.invariant (P := fun s => TimeoutOk s.1 (lastTimeout s.2)) h hinit ?_
  intro t e u ht hok hu
  obtain ⟨⟨b', o⟩, hs, rfl⟩ := Option.map_eq_some_iff.mp hu
  dsimp only
  rw [lastTimeout_snoc]
  exact ht.step hok hs

end Runs

/-- The timeouts of the FIFO. With one reading of the clock for each read, and unless the timer
expires in that microsecond, a read of an empty queue waits until the receive timeout or the timer
expires; and after any reads, one after the other, and any changes of the timeouts between them, the
receive timeout is the one that has been set last. -/
theorem fifo_timeouts :
    (∀ (b : Bio) (t : Thread) (outl : ℕ) (env : Env), b.d.nelem = 0 → env.now' = env.now →
      env.now.Normalised → b.d.currRcvTimeout.Normalised → b.d.nextRcvTimeout.Normalised →
        b.d.currRcvTimeout ≠ .zero ∨ b.d.nextRcvTimeout ≠ .zero →
          b.d.nextRcvTimeout = .zero ∨ b.d.nextRcvTimeout ≠ env.now → WaitsUntil b t outl env) ∧
    ∀ (len dataSize : ℕ) (hlen : 0 < len ∧ len < 0x80000000) (mallocs : ℕ → Bool)
      (junk : ℕ → FifoItem) (b₀ : Bio) (s : Bio × List Obs),
        fifoAllocate len dataSize hlen mallocs junk = some b₀ →
          Steps (traced step) (fun s => OneAtATime s.1) (b₀, []) s → NoReader s.1 →
            (s.1.fifoCtrl .dgramGetRecvTimeout).2 =
              .ctrl .dgramGetRecvTimeout 1 (some (lastTimeout s.2)) := by
  constructor
  · intro b t outl env hempty hclock hnow hrcv hnext hset hnot
    exact waitsUntil_of_empty hempty hclock hnow hrcv hnext hset hnot
  · intro len dataSize hlen mallocs junk b₀ s h₀ hsteps hno
    rw [← (timeoutOk_of_steps h₀ hsteps).curr hno]
    rfl

/-- A receive timeout of one second and a timer that expires in two microseconds: the read times
out, and after that the receive timeout is one second again. -/
def timedRead : List Act :=
  [.ctrl (.dgramSetRecvTimeout ⟨1, 0⟩), .ctrl (.dgramSetNextTimeout ⟨100, 7⟩),
    .read 0 (some 10) (envAt ⟨100, 5⟩), .expire 0, .resume 0 (envAt ⟨100, 7⟩),
    .ctrl (.dgramSetNextTimeout ⟨0, 0⟩)]

theorem fifo_timeouts_timedRead :
    (∃ b, withTimeouts ⟨1, 0⟩ ⟨100, 7⟩ = some b ∧ WaitsUntil b 0 10 (envAt ⟨100, 5⟩)) ∧
      ∃ b₀ s, fifoAllocate 1 10 (by decide) (fun _ => true) (fun _ => ⟨0, 0, []⟩) = some b₀ ∧
        run (traced step) timedRead (b₀, []) = some s ∧
          (s.1.fifoCtrl .dgramGetRecvTimeout).2 =
            .ctrl .dgramGetRecvTimeout 1 (some ⟨1, 0⟩) := by
  constructor
  · refine ⟨_, rfl, fifo_timeouts.1 _ 0 10 (envAt ⟨100, 5⟩) rfl rfl ?_ ?_ ?_ ?_ ?_⟩
    · exact ⟨by decide, by decide, by decide⟩
    · exact ⟨by decide, by decide, by decide⟩
    · exact ⟨by decide, by decide, by decide⟩
    · exact .inl (by decide)
    · exact .inr (by decide)
  · refine ⟨_, _, rfl, rfl, ?_⟩
    refine fifo_timeouts.2 1 10 (by decide) (fun _ => true) (fun _ => ⟨0, 0, []⟩) _ _ rfl ?_ ?_
    · refine .tail (e := .ctrl (.dgramSetNextTimeout ⟨0, 0⟩)) (.tail
        (e := .resume 0 (envAt ⟨100, 7⟩)) (.tail (e := .expire 0) (.tail
          (e := .read 0 (some 10) (envAt ⟨100, 5⟩)) (.tail
            (e := .ctrl (.dgramSetNextTimeout ⟨100, 7⟩)) (.tail
              (e := .ctrl (.dgramSetRecvTimeout ⟨1, 0⟩)) .refl ?_ rfl) ?_ rfl) ?_ rfl) trivial rfl)
                trivial rfl) ?_ rfl
      · exact fun _ => rfl
      · exact fun _ => rfl
      · exact fun _ => rfl
      · intro u
        cases u <;> rfl
    · intro u
      cases u <;> rfl

end Fifo
end Campagnol
