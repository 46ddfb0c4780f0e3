import Campagnol.Fifo.Bio
import Campagnol.Lib.Run
import Campagnol.Lib.Window
import Mathlib.Algebra.Order.Round
import Mathlib.Data.Rat.Floor
import Mathlib.Tactic.FieldSimp

/-!
# The rate limiters

The token bucket of `client/rate_limiter.c`. `tb_count` holds the mutex of its bucket from the first
line to the last one, so the calls come one after the other. A `double` is a rational number. What
is available wraps around at `2 ^ 64`, which loses tokens; a packet and its overhead do not get
there.

A call refills the bucket and takes the packet from it. When there is not enough, it sleeps, refills
the bucket once more and takes the packet then, and only after that is the bucket cut to its size.
A call that sleeps too long can so leave a full bucket behind it (`tbCount_conforms`,
`tbCount_oversleeps`).
-/

namespace Campagnol
namespace Client

open Fifo (Timespec)

/-! ## Times -/

/-- A time in milliseconds. -/
def inMs (t : Timespec) : ℚ := t.tvSec * 1000 + t.tvNsec / 1000000

/-- `timespecsub`. -/
def timespecsub (a b : Timespec) : Timespec :=
  let sec := a.tvSec - b.tvSec
  let nsec := a.tvNsec - b.tvNsec
  if nsec < 0 then ⟨sec - 1, nsec + 1000000000⟩ else ⟨sec, nsec⟩

/-! ## The bucket -/

/-- `struct tb_state`, less the mutex. The rate is in bytes per millisecond. -/
structure TbState where
  bucketSize : ℕ
  bucketRate : ℚ
  bucketAvailable : ℕ
  lastArrivalTime : Timespec
  packetOverhead : ℕ
deriving DecidableEq

/-- A call of `tb_count`: what it reads from the clock, and what it reads after it has slept. -/
structure Count where
  packetSize : ℕ
  now : Timespec
  wake : Timespec
deriving DecidableEq

/-- A packet that has been counted, with its overhead, and when the call returned. -/
structure Admission where
  bytes : ℕ
  time : Timespec
deriving DecidableEq

/-- `tb_init`. -/
def tbInit (size : ℕ) (rate : ℚ) (overhead : ℕ) (now : Timespec) : TbState :=
  ⟨size, rate, size, now, overhead⟩

/-- The tokens that arrive between two times. -/
def tokens (rate : ℚ) (last now : Timespec) : ℕ :=
  (round (inMs (timespecsub now last) * rate)).toNat

/-- Addition in `size_t`. -/
def addSizeT (a b : ℕ) : ℕ := (a + b) % 0x10000000000000000

theorem addSizeT_le (a b : ℕ) : addSizeT a b ≤ a + b := Nat.mod_le _ _

namespace TbState

/-- Cut what is available to the size of the bucket. -/
def clamp (tb : TbState) (available : ℕ) : ℕ :=
  if available > tb.bucketSize then tb.bucketSize else available

/-- `refill the bucket with the number of tokens added since the last call` -/
def refill (tb : TbState) (now : Timespec) : TbState :=
  { tb with
    bucketAvailable :=
      tb.clamp (addSizeT tb.bucketAvailable (tokens tb.bucketRate tb.lastArrivalTime now))
    lastArrivalTime := now }

/-- How long to wait for the tokens that are missing. -/
def sleepMs (tb : TbState) (packetSize : ℕ) : ℚ :=
  ((packetSize - tb.bucketAvailable : ℕ) : ℚ) / tb.bucketRate

/-- `req_sleep` -/
def reqSleep (tb : TbState) (packetSize : ℕ) : Timespec :=
  let sec := ⌊tb.sleepMs packetSize / 1000⌋
  ⟨sec, ⌊(tb.sleepMs packetSize - 1000 * sec) * 1000000⌋⟩

/-- What follows `nanosleep`. -/
def wakeUp (tb : TbState) (packetSize : ℕ) (now : Timespec) : TbState :=
  let available := addSizeT tb.bucketAvailable (tokens tb.bucketRate tb.lastArrivalTime now)
  -- the packet is taken before the bucket is cut to its size
  let available := if available < packetSize then 0 else available - packetSize
  { tb with bucketAvailable := tb.clamp available, lastArrivalTime := now }

end TbState

/-- `tb_count`. The assertion can fail. -/
def tbCount (tb : TbState) (c : Count) : Option (TbState × Admission) :=
  let packetSize := c.packetSize + tb.packetOverhead
  if packetSize ≤ tb.bucketSize then
    let tb := tb.refill c.now
    if packetSize ≤ tb.bucketAvailable then
      some ({ tb with bucketAvailable := tb.bucketAvailable - packetSize }, ⟨packetSize, c.now⟩)
    else
      some (tb.wakeUp packetSize c.wake, ⟨packetSize, c.wake⟩)
  else none

/-! ## What is assumed and what is expected -/

/-- The call finds too few tokens. -/
def Sleeps (tb : TbState) (c : Count) : Prop :=
  addSizeT tb.bucketAvailable (tokens tb.bucketRate tb.lastArrivalTime c.now) <
    c.packetSize + tb.packetOverhead

instance (tb : TbState) (c : Count) : Decidable (Sleeps tb c) :=
  inferInstanceAs (Decidable (_ < _))

/-- The packet fits in the bucket, the clock does not go back and `nanosleep` sleeps at least as
long as it is asked to. -/
def Admissible (tb : TbState) (c : Count) : Prop :=
  c.packetSize + tb.packetOverhead ≤ tb.bucketSize ∧ inMs tb.lastArrivalTime ≤ inMs c.now ∧
    (Sleeps tb c → inMs c.now +
      inMs ((tb.refill c.now).reqSleep (c.packetSize + tb.packetOverhead)) ≤ inMs c.wake)

instance (tb : TbState) (c : Count) : Decidable (Admissible tb c) :=
  inferInstanceAs (Decidable (_ ∧ _ ∧ (_ → _)))

/-- A call that sleeps wakes up before the bucket overflows. -/
def NoOverflow (tb : TbState) (c : Count) : Prop :=
  Sleeps tb c → tb.bucketAvailable + tokens tb.bucketRate tb.lastArrivalTime c.now +
    tokens tb.bucketRate c.now c.wake ≤ tb.bucketSize + 1

instance (tb : TbState) (c : Count) : Decidable (NoOverflow tb c) :=
  inferInstanceAs (Decidable (_ → _))

/-- A call that sleeps wakes up with enough for its packet, but for a byte. -/
def Covered (tb : TbState) (c : Count) : Prop :=
  Sleeps tb c → (c.packetSize + tb.packetOverhead : ℚ) ≤
    tb.bucketAvailable + tb.bucketRate * (inMs c.wake - inMs tb.lastArrivalTime) + 1

instance (tb : TbState) (c : Count) : Decidable (Covered tb c) :=
  inferInstanceAs (Decidable (_ → _))

/-- Between any two packets no more bytes are admitted than the bucket holds and than arrive from
the first to the second, but for a byte a packet. -/
def Conforms (size : ℕ) (rate : ℚ) (tr : List Admission) : Prop :=
  ∀ w, w <:+: tr →
    WithinBound (size : ℚ) rate 1 (fun a : Admission => (a.bytes : ℚ)) (fun a => inMs a.time) w

/-! ## Rounding -/

theorem inMs_timespecsub (a b : Timespec) : inMs (timespecsub a b) = inMs a - inMs b := by
  simp only [timespecsub]
  split
  · simp only [inMs]
    push_cast
    ring
  · simp only [inMs]
    push_cast
    ring

theorem tokens_le {rate : ℚ} {last now : Timespec} (hrate : 0 < rate)
    (h : inMs last ≤ inMs now) :
    (tokens rate last now : ℚ) ≤ rate * (inMs now - inMs last) + 1 / 2 := by
  have hround := round_le_add_half ((inMs now - inMs last) * rate)
  have hnonneg : 0 ≤ (inMs now - inMs last) * rate := mul_nonneg (by linarith) hrate.le
  rw [tokens, inMs_timespecsub]
  rcases Int.le_total 0 (round ((inMs now - inMs last) * rate)) with hle | hle
  · rw [← Int.cast_natCast, Int.toNat_of_nonneg hle]
    linarith
  · rw [Int.toNat_of_nonpos hle]
    push_cast
    linarith

/-- The request is at most a nanosecond short. -/
theorem le_inMs_reqSleep (tb : TbState) (packetSize : ℕ) :
    tb.sleepMs packetSize - 1 / 1000000 ≤ inMs (tb.reqSleep packetSize) := by
  have hfloor := Int.lt_floor_add_one
    ((tb.sleepMs packetSize - 1000 * ⌊tb.sleepMs packetSize / 1000⌋) * 1000000)
  simp only [TbState.reqSleep, inMs]
  linarith

theorem inMs_reqSleep_nonneg (tb : TbState) (packetSize : ℕ) (hrate : 0 < tb.bucketRate) :
    0 ≤ inMs (tb.reqSleep packetSize) := by
  have hsleep : 0 ≤ tb.sleepMs packetSize := div_nonneg (Nat.cast_nonneg _) hrate.le
  have hsec : 0 ≤ ⌊tb.sleepMs packetSize / 1000⌋ := Int.floor_nonneg.mpr (by linarith)
  have hfloor := Int.floor_le (tb.sleepMs packetSize / 1000)
  have hnsec : 0 ≤ ⌊(tb.sleepMs packetSize - 1000 * ⌊tb.sleepMs packetSize / 1000⌋) * 1000000⌋ :=
    Int.floor_nonneg.mpr (by linarith)
  have hsec' : (0 : ℚ) ≤ ⌊tb.sleepMs packetSize / 1000⌋ := by exact_mod_cast hsec
  have hnsec' : (0 : ℚ) ≤
      ⌊(tb.sleepMs packetSize - 1000 * ⌊tb.sleepMs packetSize / 1000⌋) * 1000000⌋ := by
    exact_mod_cast hnsec
  simp only [TbState.reqSleep, inMs]
  linarith

/-! ## One call -/

/-- What a call does. -/
structure Charged (tb : TbState) (c : Count) (tb' : TbState) (a : Admission) : Prop where
  size : tb'.bucketSize = tb.bucketSize
  rate : tb'.bucketRate = tb.bucketRate
  bytes : a.bytes = c.packetSize + tb.packetOverhead
  time : tb'.lastArrivalTime = a.time
  paid : (¬ Sleeps tb c ∧ a.time = c.now ∧ a.bytes + tb'.bucketAvailable ≤ tb.bucketSize ∧
      a.bytes + tb'.bucketAvailable ≤
        tb.bucketAvailable + tokens tb.bucketRate tb.lastArrivalTime c.now) ∨
    (Sleeps tb c ∧ a.time = c.wake ∧ (tb'.bucketAvailable = 0 ∨
      a.bytes + tb'.bucketAvailable ≤
        tb.bucketAvailable + tokens tb.bucketRate tb.lastArrivalTime c.now +
          tokens tb.bucketRate c.now c.wake))

namespace TbState
variable {tb : TbState}

theorem clamp_le (available : ℕ) : tb.clamp available ≤ available := by
  rw [clamp]
  split
  · omega
  · exact le_rfl

theorem clamp_le_size (available : ℕ) : tb.clamp available ≤ tb.bucketSize := by
  rw [clamp]
  split
  · exact le_rfl
  · omega

theorem refill_le (now : Timespec) : (tb.refill now).bucketAvailable ≤
    tb.bucketAvailable + tokens tb.bucketRate tb.lastArrivalTime now :=
  (clamp_le _).trans (addSizeT_le _ _)

/-- Some time after a refill, the packet is paid for, or the bucket is empty. -/
theorem wakeUp_le (packetSize : ℕ) (now : Timespec) :
    (tb.wakeUp packetSize now).bucketAvailable = 0 ∨
      packetSize + (tb.wakeUp packetSize now).bucketAvailable ≤
        tb.bucketAvailable + tokens tb.bucketRate tb.lastArrivalTime now := by
  simp only [wakeUp]
  split
  · exact .inl (Nat.le_zero.mp (clamp_le 0))
  · rename_i hge
    refine .inr ?_
    have hsum := addSizeT_le tb.bucketAvailable (tokens tb.bucketRate tb.lastArrivalTime now)
    have hle := tb.clamp_le
      (addSizeT tb.bucketAvailable (tokens tb.bucketRate tb.lastArrivalTime now) - packetSize)
    omega

end TbState

variable {tb tb' : TbState} {c : Count} {a : Admission}

theorem sleeps_iff (h : c.packetSize + tb.packetOverhead ≤ tb.bucketSize) :
    Sleeps tb c ↔
      (tb.refill c.now).bucketAvailable < c.packetSize + tb.packetOverhead := by
  simp only [Sleeps, TbState.refill, TbState.clamp]
  split <;> omega

theorem charged_of_tbCount (h : tbCount tb c = some (tb', a)) : Charged tb c tb' a := by
  simp only [tbCount] at h
  split at h
  · rename_i hfits
    split at h
    · rename_i henough
      simp only [Option.some.injEq, Prod.mk.injEq] at h
      obtain ⟨rfl, rfl⟩ := h
      have hsleep : ¬ Sleeps tb c := by
        rw [sleeps_iff hfits]
        omega
      have hsize : (tb.refill c.now).bucketAvailable ≤ tb.bucketSize := tb.clamp_le_size _
      have hle := tb.refill_le c.now
      refine ⟨rfl, rfl, rfl, rfl, .inl ⟨hsleep, rfl, ?_, ?_⟩⟩
      · dsimp only
        omega
      · dsimp only
        omega
    · rename_i hmissing
      simp only [Option.some.injEq, Prod.mk.injEq] at h
      obtain ⟨rfl, rfl⟩ := h
      have hsleep : Sleeps tb c := by
        rw [sleeps_iff hfits]
        omega
      refine ⟨rfl, rfl, rfl, rfl, .inr ⟨hsleep, rfl, ?_⟩⟩
      have hle := tb.refill_le c.now
      refine ((tb.refill c.now).wakeUp_le _ c.wake).imp id fun hpaid => ?_
      exact hpaid.trans (Nat.add_le_add_right hle _)
  · cases h

theorem wake_ge (hrate : 0 < tb.bucketRate) (h : Admissible tb c) (hsleep : Sleeps tb c) :
    inMs c.now ≤ inMs c.wake := by
  have hreq := inMs_reqSleep_nonneg (tb.refill c.now) (c.packetSize + tb.packetOverhead) hrate
  have hwake := h.2.2 hsleep
  linarith

/-- A call is paid for by what was in the bucket and what has arrived since. -/
theorem Charged.paid_by_arrivals (h : Charged tb c tb' a) (hrate : 0 < tb.bucketRate)
    (hok : Admissible tb c) (hcov : Covered tb c) :
    (a.bytes + tb'.bucketAvailable : ℚ) ≤
      tb.bucketAvailable + tb.bucketRate * (inMs a.time - inMs tb.lastArrivalTime) + 1 := by
  have htokens := tokens_le hrate hok.2.1
  rcases h.paid with ⟨-, htime, -, hpaid⟩ | ⟨hsleep, htime, hpaid | hpaid⟩
  · have hpaid' : (a.bytes + tb'.bucketAvailable : ℚ) ≤
        tb.bucketAvailable + tokens tb.bucketRate tb.lastArrivalTime c.now := by
      exact_mod_cast hpaid
    rw [htime]
    linarith
  · have hcov' := hcov hsleep
    rw [htime, hpaid, h.bytes]
    push_cast
    linarith
  · have hslept := tokens_le hrate (wake_ge hrate hok hsleep)
    have hpaid' : (a.bytes + tb'.bucketAvailable : ℚ) ≤
        tb.bucketAvailable + tokens tb.bucketRate tb.lastArrivalTime c.now +
          tokens tb.bucketRate c.now c.wake := by
      exact_mod_cast hpaid
    rw [htime]
    linarith

/-- A call is paid for by a full bucket. -/
theorem Charged.paid_by_bucket (h : Charged tb c tb' a) (hok : Admissible tb c)
    (hflow : NoOverflow tb c) : a.bytes + tb'.bucketAvailable ≤ tb.bucketSize + 1 := by
  rcases h.paid with ⟨-, -, hpaid, -⟩ | ⟨hsleep, -, hpaid | hpaid⟩
  · omega
  · have hfits := hok.1
    have hbytes := h.bytes
    omega
  · exact hpaid.trans (hflow hsleep)

/-! ## Runs -/

/-- The bucket after some calls. -/
structure Metered (size : ℕ) (rate : ℚ) (s : TbState × List Admission) : Prop where
  bucketSize : s.1.bucketSize = size
  bucketRate : s.1.bucketRate = rate
  window : Window (size : ℚ) rate 1 (fun a : Admission => (a.bytes : ℚ)) (fun a => inMs a.time)
    s.2 s.1.bucketAvailable (inMs s.1.lastArrivalTime)

theorem Metered.step {size : ℕ} {rate : ℚ} {s s' : TbState × List Admission} (hrate : 0 < rate)
    (h : Metered size rate s) (hok : Admissible s.1 c) (hflow : NoOverflow s.1 c)
    (hcov : Covered s.1 c) (hs : traced tbCount s c = some s') : Metered size rate s' := by
  obtain ⟨tb, tr⟩ := s
  obtain ⟨⟨tb', a⟩, hcount, rfl⟩ := Option.map_eq_some_iff.mp hs
  obtain ⟨rfl, rfl, hwindow⟩ := h
  have hc := charged_of_tbCount hcount
  refine ⟨hc.size, hc.rate, ?_⟩
  dsimp only
  rw [hc.time]
  refine hwindow.snoc (Nat.cast_nonneg _) ?_ ?_
  · have hle := hc.paid_by_bucket hok hflow
    exact_mod_cast hle
  · exact hc.paid_by_arrivals hrate hok hcov

theorem metered_of_steps {size overhead : ℕ} {rate : ℚ} {start : Timespec}
    {s : TbState × List Admission} {ok : TbState × List Admission → Count → Prop} (hrate : 0 < rate)
    (h : Steps (traced tbCount) ok (tbInit size rate overhead start, []) s)
    (hok : ∀ s c, s.1.bucketRate = rate → ok s c →
      Admissible s.1 c ∧ NoOverflow s.1 c ∧ Covered s.1 c) : Metered size rate s := by
  refine Steps.invariant h ⟨rfl, rfl, .nil⟩ ?_
  intro t c u ht hc hu
  obtain ⟨hadm, hflow, hcov⟩ := hok t c ht.bucketRate hc
  exact ht.step hrate hadm hflow hcov hu

/-- In a run in which no call sleeps until the bucket overflows, or too short, the bytes that are
admitted conform to the size and the rate of the bucket. -/
theorem tbCount_conforms {size overhead : ℕ} {rate : ℚ} {start : Timespec}
    {s : TbState × List Admission} (hrate : 0 < rate)
    (h : Steps (traced tbCount)
      (fun s c => Admissible s.1 c ∧ NoOverflow s.1 c ∧ Covered s.1 c)
      (tbInit size rate overhead start, []) s) : Conforms size rate s.2 :=
  (metered_of_steps hrate h fun _ _ _ hok => hok).window.all

/-- Three packets go through at once, the fourth one waits for 775 ms. -/
def shortSleep : List Count :=
  [⟨1400, ⟨0, 0⟩, ⟨0, 0⟩⟩, ⟨1400, ⟨0, 0⟩, ⟨0, 0⟩⟩, ⟨1400, ⟨0, 0⟩, ⟨0, 0⟩⟩,
    ⟨1400, ⟨0, 0⟩, ⟨0, 775000000⟩⟩]

def shortSleepShow : List Admission :=
  [⟨1408, ⟨0, 0⟩⟩, ⟨1408, ⟨0, 0⟩⟩, ⟨1408, ⟨0, 0⟩⟩, ⟨1408, ⟨0, 775000000⟩⟩]

theorem tbCount_conforms_shortSleep :
    ∃ tb, Steps (traced tbCount)
        (fun s c => Admissible s.1 c ∧ NoOverflow s.1 c ∧ Covered s.1 c)
        (tbInit 4857 1 8 ⟨0, 0⟩, []) (tb, shortSleepShow) ∧
      tb.bucketAvailable = 0 ∧ Conforms 4857 1 shortSleepShow := by
  have hrun : runOk (traced tbCount)
      (fun s c => Admissible s.1 c ∧ NoOverflow s.1 c ∧ Covered s.1 c) shortSleep
      (tbInit 4857 1 8 ⟨0, 0⟩, []) = some (⟨4857, 1, 0, ⟨0, 775000000⟩, 8⟩, shortSleepShow) := by
    decide +kernel
  have hsteps := Steps.of_runOk .refl hrun
  exact ⟨_, hsteps, rfl, tbCount_conforms (by norm_num) hsteps⟩

/-- The fourth packet waits for 10 s. The bucket is full after it has been taken, and three more
packets go through at once. -/
def longSleep : List Count :=
  [⟨1400, ⟨0, 0⟩, ⟨0, 0⟩⟩, ⟨1400, ⟨0, 0⟩, ⟨0, 0⟩⟩, ⟨1400, ⟨0, 0⟩, ⟨0, 0⟩⟩,
    ⟨1400, ⟨0, 0⟩, ⟨10, 0⟩⟩, ⟨1400, ⟨10, 0⟩, ⟨10, 0⟩⟩, ⟨1400, ⟨10, 0⟩, ⟨10, 0⟩⟩,
    ⟨1400, ⟨10, 0⟩, ⟨10, 0⟩⟩]

def longSleepShow : List Admission :=
  [⟨1408, ⟨0, 0⟩⟩, ⟨1408, ⟨0, 0⟩⟩, ⟨1408, ⟨0, 0⟩⟩, ⟨1408, ⟨10, 0⟩⟩, ⟨1408, ⟨10, 0⟩⟩,
    ⟨1408, ⟨10, 0⟩⟩, ⟨1408, ⟨10, 0⟩⟩]

/-- The last four packets are admitted at the same time and have 5632 bytes. -/
theorem tbCount_oversleeps :
    ∃ tb, Steps (traced tbCount) (fun s c => Admissible s.1 c) (tbInit 4857 1 8 ⟨0, 0⟩, [])
        (tb, longSleepShow) ∧ ¬ Conforms 4857 1 longSleepShow := by
  have hrun : runOk (traced tbCount) (fun s c => Admissible s.1 c) longSleep
      (tbInit 4857 1 8 ⟨0, 0⟩, []) = some (⟨4857, 1, 633, ⟨10, 0⟩, 8⟩, longSleepShow) := by
    decide +kernel
  refine ⟨_, Steps.of_runOk .refl hrun, fun hconf => ?_⟩
  have hle := hconf (longSleepShow.drop 3) (List.drop_suffix 3 _).isInfix ⟨1408, ⟨10, 0⟩⟩
    ⟨1408, ⟨10, 0⟩⟩ rfl rfl
  simp only [longSleepShow, List.drop_succ_cons, List.drop_zero, windowCost, inMs] at hle
  norm_num at hle

/-! ## Slow buckets -/

/-- At half a gigabyte a second and below, a nanosecond is worth half a byte. -/
theorem covered_of_rate_le (hrate : 0 < tb.bucketRate) (hle : tb.bucketRate ≤ 500000)
    (h : Admissible tb c) : Covered tb c := by
  intro hsleep
  have hwake := h.2.2 hsleep
  have hreq := le_inMs_reqSleep (tb.refill c.now) (c.packetSize + tb.packetOverhead)
  have htokens := tokens_le hrate h.2.1
  have hlevel : ((tb.refill c.now).bucketAvailable : ℚ) ≤
      tb.bucketAvailable + tokens tb.bucketRate tb.lastArrivalTime c.now := by
    exact_mod_cast tb.refill_le c.now
  have hmissing : (tb.refill c.now).bucketAvailable ≤ c.packetSize + tb.packetOverhead :=
    ((sleeps_iff h.1).mp hsleep).le
  have hsleepMs : tb.bucketRate *
      (tb.refill c.now).sleepMs (c.packetSize + tb.packetOverhead) =
        c.packetSize + tb.packetOverhead - (tb.refill c.now).bucketAvailable := by
    rw [TbState.sleepMs, Nat.cast_sub hmissing]
    push_cast
    exact mul_div_cancel₀ _ hrate.ne'
  have hslept := mul_le_mul_of_nonneg_left
    (show (tb.refill c.now).sleepMs (c.packetSize + tb.packetOverhead) - 1 / 1000000 ≤
      inMs c.wake - inMs c.now by linarith) hrate.le
  rw [mul_sub, hsleepMs] at hslept
  linarith

/-- A slow bucket conforms as long as no call sleeps until the bucket overflows. -/
theorem conforms_of_noOverflow {size overhead : ℕ} {rate : ℚ} {start : Timespec}
    {s : TbState × List Admission} (hrate : 0 < rate) (hle : rate ≤ 500000)
    (h : Steps (traced tbCount) (fun s c => Admissible s.1 c ∧ NoOverflow s.1 c)
      (tbInit size rate overhead start, []) s) : Conforms size rate s.2 := by
  have hm : Metered size rate s := by
    refine metered_of_steps hrate h fun t c ht hok => ?_
    subst ht
    exact ⟨hok.1, hok.2, covered_of_rate_le hrate hle hok.1⟩
  exact hm.window.all

end Client
end Campagnol
