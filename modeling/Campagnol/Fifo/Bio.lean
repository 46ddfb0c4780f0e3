import Mathlib.Data.Int.Notation
import Mathlib.Logic.Function.Basic
import Mathlib.Tactic.Common

/-!
# The FIFO BIO

The blocking packet queue between the client's threads (`common/bss_fifo.c`). Threads are
numbered. Every section of code between two operations on the mutex (taking it, releasing
it, waiting on a condition) is one atomic step, so a call of `fifo_read` or `fifo_write` is
one step when it does not block, and a step for each wait otherwise.

A `pthread_cond_t` is the list of the threads asleep on it. `conditionSignal` removes one
of them, whichever the scheduler picks, and does nothing when there is none.

The unsigned counters wrap at `2 ^ 32`.
-/

namespace Campagnol
namespace Fifo

/-! ## Data -/

/-- A thread. -/
abbrev Thread := ℕ

/-- The contents of a packet. -/
abbrev Bytes := List UInt8

/-- `struct timeval`. -/
structure Timeval where
  tvSec : ℤ
  tvUsec : ℤ
deriving DecidableEq, Repr

/-- `struct timespec`. -/
structure Timespec where
  tvSec : ℤ
  tvNsec : ℤ
deriving DecidableEq, Repr

/-- The zero `timeval`. -/
def Timeval.zero : Timeval := ⟨0, 0⟩

/-- `struct fifo_item`: a packet in a buffer of `dataSize` bytes. -/
structure FifoItem where
  size : ℕ
  dataSize : ℕ
  data : Bytes
deriving DecidableEq, Repr

/-- The packet stored in an item. -/
def FifoItem.packet (item : FifoItem) : Bytes := item.data.take item.size

/-- `struct fifo_data`, less the mutex. `size` comes from a positive `int`. -/
structure FifoData where
  size : ℕ
  size_pos : 0 < size
  size_lt : size < 0x80000000
  threshold : ℕ
  fifo : ℕ → FifoItem
  indexRead : ℕ
  indexWrite : ℕ
  condRead : List Thread
  condWrite : List Thread
  nelem : ℕ
  waitingRead : ℤ
  waitingWrite : ℤ
  rcvTimeout : Timeval
  nextRcvTimeout : Timeval
  currRcvTimeout : Timeval
  rcvTimerExp : Bool
  droptail : ℤ

/-- Where a thread stands. A sleeping thread waits for a condition without the mutex, a
ready one has left the condition and waits for the mutex. -/
inductive Pc
  | idle
  | readSleep (outl : ℕ) (deadline : Option Timespec)
  | readReady (outl : ℕ) (timedOut : Bool)
  | writeSleep (buf : Bytes)
  | writeReady (buf : Bytes)
deriving DecidableEq, Repr

/-- The BIO and the threads that use it. -/
structure Bio where
  d : FifoData
  shutdown : ℤ
  retryRead : Bool
  pc : Thread → Pc

/-- What a step takes from outside: the two clock readings of a blocking read, whether
`malloc` succeeds, and the waiter that a signal wakes. -/
structure Env where
  now : Timeval
  now' : Timeval
  malloc : Bool
  pick : ℕ
deriving DecidableEq, Repr

/-! ## Unsigned arithmetic -/

/-- Addition of unsigned integers. -/
def uadd (a b : ℕ) : ℕ := (a + b) % 0x100000000

/-- Subtraction of unsigned integers. -/
def usub (a b : ℕ) : ℕ := (a + 0x100000000 - b) % 0x100000000

/-! ## Creation -/

/-- `fifo_allocate`: `mallocs` says which of its allocations succeed, `junk` is what the
memory of the items holds before it is written. -/
def fifoAllocate (len dataSize : ℕ) (hlen : 0 < len ∧ len < 0x80000000) (mallocs : ℕ → Bool)
    (junk : ℕ → FifoItem) : Option Bio :=
  if (List.range (len + 2)).all mallocs then
    some {
      d := {
        size := len, size_pos := hlen.1, size_lt := hlen.2, threshold := len / 10,
        fifo := fun i => { junk i with dataSize := dataSize },
        indexRead := 0, indexWrite := 0, condRead := [], condWrite := [], nelem := 0,
        waitingRead := 0, waitingWrite := 0, rcvTimeout := .zero, nextRcvTimeout := .zero,
        currRcvTimeout := .zero, rcvTimerExp := false, droptail := 0 },
      shutdown := 1, retryRead := false, pc := fun _ => .idle }
  else none

/-! ## Conditions -/

/-- The thread that a signal on a condition wakes. -/
def signalled (cond : List Thread) (pick : ℕ) : Option Thread := cond[pick % cond.length]?

/-- A sleeping thread leaves its condition. -/
def Pc.wake (timedOut : Bool) : Pc → Pc
  | .readSleep outl _ => .readReady outl timedOut
  | .writeSleep buf => .writeReady buf
  | pc => pc

/-- The thread `t` leaves the condition it sleeps on. -/
def Bio.leave (b : Bio) (t : Thread) (timedOut : Bool) : Bio :=
  { b with
    d := { b.d with condRead := b.d.condRead.erase t, condWrite := b.d.condWrite.erase t }
    pc := Function.update b.pc t ((b.pc t).wake timedOut) }

/-- `conditionSignal`: wake one thread, if there is any. -/
def Bio.conditionSignal (b : Bio) (cond : List Thread) (pick : ℕ) : Bio :=
  match signalled cond pick with
  | some t => b.leave t false
  | none => b

/-! ## Receive timeouts -/

/-- `set_timeout`. -/
def setTimeout (now timeout : Timeval) : Timespec :=
  let nsec := (now.tvUsec + timeout.tvUsec) * 1000
  let sec := now.tvSec + timeout.tvSec
  if nsec ≥ 1000000000 then ⟨sec + 1, nsec - 1000000000⟩ else ⟨sec, nsec⟩

/-- Is a timer active? -/
def FifoData.timerActive (d : FifoData) : Bool :=
  d.nextRcvTimeout.tvSec > 0 || d.nextRcvTimeout.tvUsec > 0

/-- The time left until the timer `next` expires. -/
def timeLeft (next now : Timeval) : Timeval :=
  let sec := next.tvSec - now.tvSec
  let usec := next.tvUsec - now.tvUsec
  let left : Timeval := if usec < 0 then ⟨sec - 1, usec + 1000000⟩ else ⟨sec, usec⟩
  if left.tvSec < 0 then ⟨0, 1⟩ else left

/-- `fifo_adjust_rcv_timeout`. -/
def FifoData.adjustRcvTimeout (d : FifoData) (now : Timeval) : FifoData :=
  if d.timerActive then
    let rcv := d.currRcvTimeout
    let left := timeLeft d.nextRcvTimeout now
    if (rcv.tvSec = 0 ∧ rcv.tvUsec = 0) ∨ rcv.tvSec > left.tvSec ∨
        (rcv.tvSec = left.tvSec ∧ rcv.tvUsec ≥ left.tvUsec) then
      { d with rcvTimeout := rcv, currRcvTimeout := left }
    else { d with rcvTimeout := rcv }
  else d

/-- `fifo_reset_rcv_timeout`. -/
def FifoData.resetRcvTimeout (d : FifoData) : FifoData :=
  if d.timerActive then { d with currRcvTimeout := d.rcvTimeout } else d

/-! ## Steps -/

/-- `BIO_ctrl` commands. -/
inductive Ctrl
  | reset
  | eof
  | getClose
  | setClose (num : ℤ)
  | wpending
  | pending
  | dup
  | flush
  | dgramSetNextTimeout (tv : Timeval)
  | dgramSetRecvTimeout (tv : Timeval)
  | dgramGetRecvTimeout
  | dgramGetRecvTimerExp
  | fifoSetDroptail (num : ℤ)
  | fifoGetDroptail
  | push
  | pop
  | other
deriving DecidableEq, Repr

/-- What a step shows to the callers. -/
inductive Obs
  /-- `fifo_write` stores a packet and returns its length. -/
  | accepted (t : Thread) (packet : Bytes)
  /-- `fifo_write` drops a packet and returns its length. -/
  | discarded (t : Thread) (packet : Bytes)
  /-- `fifo_write` finds the queue full and goes to sleep. -/
  | writeWaits (t : Thread)
  /-- A writer has been woken up, finds the queue full and sleeps on. -/
  | writeStillWaits (t : Thread)
  /-- `fifo_read` with a buffer of `outl` bytes fills it with `out` and returns its length. -/
  | delivered (t : Thread) (outl : ℕ) (out : Bytes)
  /-- `fifo_read` finds the queue empty and goes to sleep. -/
  | readWaits (t : Thread)
  /-- `fifo_read` returns -1 after a timeout. -/
  | timedOut (t : Thread)
  /-- A call without a buffer returns at once. -/
  | noBuffer (t : Thread)
  /-- A sleeping thread leaves its condition without a signal. -/
  | unslept (t : Thread)
  /-- `fifo_ctrl` returns `ret`, and `tv` through its pointer. -/
  | ctrl (cmd : Ctrl) (ret : ℤ) (tv : Option Timeval)
deriving DecidableEq, Repr

/-- The queue moves on by one item, and the thread `t` is done. -/
def Bio.takeItem (b : Bio) (t : Thread) : Bio :=
  { b with
    d := { b.d with
      indexRead := if b.d.indexRead = usub b.d.size 1 then 0 else uadd b.d.indexRead 1
      nelem := usub b.d.nelem 1 }
    retryRead := false
    pc := Function.update b.pc t .idle }

/-- The second part of `fifo_read`: take the packet, or report the timeout. -/
def Bio.readFinish (b : Bio) (t : Thread) (outl : ℕ) (timedOut : Bool) (pick : ℕ) : Bio × Obs :=
  if timedOut then
    ({ b with
        d := { b.d with rcvTimerExp := true }
        retryRead := true
        pc := Function.update b.pc t .idle }, .timedOut t)
  else
    let item := b.d.fifo b.d.indexRead
    let ret := if outl ≥ item.size then item.size else outl
    let b := b.takeItem t
    (if b.d.waitingWrite ≠ 0 ∧ usub b.d.size b.d.nelem ≥ b.d.threshold then
        b.conditionSignal b.d.condWrite pick
      else b, .delivered t outl (item.data.take ret))

/-- `fifo_read`, up to its end or to the wait. -/
def Bio.fifoRead (b : Bio) (t : Thread) (outl : ℕ) (env : Env) : Bio × Obs :=
  if b.d.nelem = 0 then
    let d := ({ b.d with waitingRead := b.d.waitingRead + 1 }).adjustRcvTimeout env.now
    let deadline :=
      if d.currRcvTimeout.tvSec ≠ 0 ∨ d.currRcvTimeout.tvUsec ≠ 0 then
        some (setTimeout env.now' d.currRcvTimeout)
      else none
    ({ b with
        d := { d with condRead := d.condRead ++ [t] }
        pc := Function.update b.pc t (.readSleep outl deadline) }, .readWaits t)
  else b.readFinish t outl false env.pick

/-- `fifo_read` after its wait. -/
def Bio.fifoReadResume (b : Bio) (t : Thread) (outl : ℕ) (timedOut : Bool) (pick : ℕ) :
    Bio × Obs :=
  let d := b.d.resetRcvTimeout
  Bio.readFinish { b with d := { d with waitingRead := d.waitingRead - 1 } } t outl timedOut pick

/-- Copy a packet into an item, in a new block when the old one is too small. Without
memory for it the packet is cut. -/
def FifoItem.store (item : FifoItem) (buf : Bytes) (malloc : Bool) : FifoItem :=
  if buf.length > item.dataSize then
    if malloc then ⟨buf.length, buf.length, buf⟩
    else ⟨item.dataSize, item.dataSize, buf.take item.dataSize⟩
  else { item with size := buf.length, data := buf ++ item.data.drop buf.length }

/-- A packet has been stored in `item`, and the thread `t` is done. -/
def Bio.putItem (b : Bio) (t : Thread) (item : FifoItem) : Bio :=
  { b with
    d := { b.d with
      fifo := Function.update b.d.fifo b.d.indexWrite item
      indexWrite := if b.d.indexWrite = usub b.d.size 1 then 0 else uadd b.d.indexWrite 1
      nelem := uadd b.d.nelem 1 }
    retryRead := false
    pc := Function.update b.pc t .idle }

/-- The second part of `fifo_write`: store the packet. -/
def Bio.writeFinish (b : Bio) (t : Thread) (buf : Bytes) (env : Env) : Bio × Obs :=
  let item := (b.d.fifo b.d.indexWrite).store buf env.malloc
  let b := b.putItem t item
  (if b.d.waitingRead ≠ 0 then b.conditionSignal b.d.condRead env.pick else b,
    .accepted t (buf.take item.size))

/-- A writer goes to sleep. -/
def Bio.writeWait (b : Bio) (t : Thread) (buf : Bytes) : Bio :=
  { b with
    d := { b.d with waitingWrite := b.d.waitingWrite + 1, condWrite := b.d.condWrite ++ [t] }
    pc := Function.update b.pc t (.writeSleep buf) }

/-- `fifo_write`, up to its end or to the wait. -/
def Bio.fifoWrite (b : Bio) (t : Thread) (buf : Bytes) (env : Env) : Bio × Obs :=
  if b.d.nelem = b.d.size ∧ b.d.droptail ≠ 0 then (b, .discarded t buf)
  else if b.d.nelem = b.d.size then (b.writeWait t buf, .writeWaits t)
  else b.writeFinish t buf env

/-- `fifo_write` after a wait: the loop tests the queue again, but not `droptail`. -/
def Bio.fifoWriteResume (b : Bio) (t : Thread) (buf : Bytes) (env : Env) : Bio × Obs :=
  let b := { b with d := { b.d with waitingWrite := b.d.waitingWrite - 1 } }
  if b.d.nelem = b.d.size then (b.writeWait t buf, .writeStillWaits t)
  else b.writeFinish t buf env

/-- The number of bytes in the queue, as `BIO_CTRL_PENDING` adds them up. -/
def FifoData.pending (d : FifoData) : ℕ :=
  let stop := uadd d.indexRead d.nelem
  (List.range' d.indexRead (stop - d.indexRead)).foldl
    (fun ret i => ret + (d.fifo (if i < d.size then i else i - d.size)).size) 0

/-- `fifo_ctrl`. -/
def Bio.fifoCtrl (b : Bio) (cmd : Ctrl) : Bio × Obs :=
  match cmd with
  | .reset => ({ b with d := { b.d with indexRead := 0, indexWrite := 0, nelem := 0 } },
      .ctrl cmd 1 none)
  | .eof => (b, .ctrl cmd (if b.d.nelem = 0 then 1 else 0) none)
  | .getClose => (b, .ctrl cmd b.shutdown none)
  | .setClose num => ({ b with shutdown := num }, .ctrl cmd 1 none)
  | .wpending => (b, .ctrl cmd 0 none)
  | .pending => (b, .ctrl cmd b.d.pending none)
  | .dup | .flush => (b, .ctrl cmd 1 none)
  | .dgramSetNextTimeout tv => ({ b with d := { b.d with nextRcvTimeout := tv } },
      .ctrl cmd 1 none)
  | .dgramSetRecvTimeout tv => ({ b with d := { b.d with currRcvTimeout := tv } },
      .ctrl cmd 1 none)
  | .dgramGetRecvTimeout => (b, .ctrl cmd 1 (some b.d.currRcvTimeout))
  | .dgramGetRecvTimerExp => ({ b with d := { b.d with rcvTimerExp := false } },
      .ctrl cmd (if b.d.rcvTimerExp then 1 else 0) none)
  | .fifoSetDroptail num => ({ b with d := { b.d with droptail := num } }, .ctrl cmd 1 none)
  | .fifoGetDroptail => (b, .ctrl cmd b.d.droptail none)
  | .push | .pop | .other => (b, .ctrl cmd 0 none)

/-- The steps of the threads. A buffer is `none` when the caller passes `NULL`. -/
inductive Act
  | read (t : Thread) (out : Option ℕ) (env : Env)
  | write (t : Thread) (buf : Option Bytes) (env : Env)
  /-- A ready thread gets the mutex. -/
  | resume (t : Thread) (env : Env)
  /-- The timeout of a sleeping reader expires. -/
  | expire (t : Thread)
  /-- A wait returns for no reason. -/
  | spurious (t : Thread)
  | ctrl (cmd : Ctrl)
deriving DecidableEq, Repr

/-- One step of the BIO and its threads, `none` when it cannot be taken. -/
def step (b : Bio) : Act → Option (Bio × Obs)
  | .read t out env =>
    if b.pc t = .idle then
      match out with
      | none => some (b, .noBuffer t)
      | some outl => some (b.fifoRead t outl env)
    else none
  | .write t buf env =>
    if b.pc t = .idle then
      match buf with
      | none => some (b, .noBuffer t)
      | some buf => some (b.fifoWrite t buf env)
    else none
  | .resume t env =>
    match b.pc t with
    | .readReady outl timedOut => some (b.fifoReadResume t outl timedOut env.pick)
    | .writeReady buf => some (b.fifoWriteResume t buf env)
    | _ => none
  | .expire t =>
    match b.pc t with
    | .readSleep _ (some _) => some (b.leave t true, .unslept t)
    | _ => none
  | .spurious t =>
    match b.pc t with
    | .readSleep _ _ | .writeSleep _ => some (b.leave t false, .unslept t)
    | _ => none
  | .ctrl cmd => some (b.fifoCtrl cmd)

end Fifo
end Campagnol
