import Campagnol.Fifo.Queue
import Campagnol.Lib.Ring

/-!
# Lemmas about the FIFO BIO

`Core` is the part of `struct fifo_data` that stores the packets. The steps of the BIO
leave it alone, append a packet (`Core.push`) or take one (`Core.pop`), and `Core.Ok` is
what they keep. A signal is the reason why a reader that wakes up without a timeout finds
a packet (`Pc.ReaderOk`); the condition is tested once only, so this needs that there is
one reader and that waits do not end by themselves.
-/

namespace Campagnol
namespace Fifo

/-! ## The stored packets -/

/-- The ring buffer and the drop mode. -/
structure Core where
  size : ℕ
  fifo : ℕ → FifoItem
  indexRead : ℕ
  indexWrite : ℕ
  nelem : ℕ
  droptail : ℤ

/-- The ring buffer of a FIFO. -/
def FifoData.core (d : FifoData) : Core :=
  ⟨d.size, d.fifo, d.indexRead, d.indexWrite, d.nelem, d.droptail⟩

namespace Core
variable {c : Core} {it : FifoItem}

/-- The items in the queue. -/
def stored (c : Core) : List FifoItem := Ring.contents c.fifo c.size c.indexRead c.nelem

/-- The queue in the ring buffer. -/
def queue (c : Core) : Queue := ⟨c.size, c.stored.map FifoItem.packet, c.droptail⟩

/-- The indices and the counter agree, and an item holds as many bytes as it says. -/
structure Ok (c : Core) : Prop where
  size_pos : 0 < c.size
  size_lt : c.size < 0x80000000
  nelem_le : c.nelem ≤ c.size
  read_lt : c.indexRead < c.size
  write_eq : c.indexWrite = (c.indexRead + c.nelem) % c.size
  filled : ∀ it ∈ c.stored, it.size ≤ it.data.length

/-- The ring buffer after an item has been written. -/
def push (c : Core) (it : FifoItem) : Core :=
  { c with
    fifo := Function.update c.fifo c.indexWrite it
    indexWrite := if c.indexWrite = usub c.size 1 then 0 else uadd c.indexWrite 1
    nelem := uadd c.nelem 1 }

/-- The ring buffer after an item has been read. -/
def pop (c : Core) : Core :=
  { c with
    indexRead := if c.indexRead = usub c.size 1 then 0 else uadd c.indexRead 1
    nelem := usub c.nelem 1 }

theorem items_length : c.queue.items.length = c.nelem := by
  simp [queue, stored]

/-- An index moves on by one slot, without an overflow. -/
theorem Ok.next (h : c.Ok) {i : ℕ} (hi : i < c.size) :
    (if i = usub c.size 1 then 0 else uadd i 1) = (i + 1) % c.size := by
  have hpos := h.size_pos
  have hlt := h.size_lt
  have hlast : usub c.size 1 = c.size - 1 := by
    unfold usub
    omega
  have hadd : uadd i 1 = i + 1 := by
    unfold uadd
    omega
  rw [hlast, hadd]
  exact Ring.next_index hpos hi

theorem Ok.nelem_push (h : c.Ok) : (c.push it).nelem = c.nelem + 1 := by
  have hle := h.nelem_le
  have hlt := h.size_lt
  simp only [push, uadd]
  omega

theorem Ok.nelem_pop (h : c.Ok) (hpos : 0 < c.nelem) : c.pop.nelem + 1 = c.nelem := by
  have hle := h.nelem_le
  have hlt := h.size_lt
  simp only [pop, usub]
  omega

theorem Ok.stored_push (h : c.Ok) (hroom : c.nelem < c.size) :
    (c.push it).stored = c.stored ++ [it] := by
  have hn : (c.push it).nelem = c.nelem + 1 := h.nelem_push
  simp only [stored, hn]
  simp only [push, h.write_eq]
  exact Ring.contents_push hroom it

theorem Ok.stored_pop (h : c.Ok) (hpos : 0 < c.nelem) :
    c.stored = c.fifo c.indexRead :: c.pop.stored := by
  have hn := h.nelem_pop hpos
  have hread : c.pop.indexRead = (c.indexRead + 1) % c.size := h.next h.read_lt
  simp only [stored, ← hn, hread]
  exact Ring.contents_pop h.read_lt

theorem Ok.push (h : c.Ok) (hroom : c.nelem < c.size) (hit : it.size ≤ it.data.length) :
    (c.push it).Ok := by
  have hwrite : c.indexWrite < c.size := by
    rw [h.write_eq]
    exact Nat.mod_lt _ h.size_pos
  refine ⟨h.size_pos, h.size_lt, ?_, h.read_lt, ?_, ?_⟩
  · rw [h.nelem_push]
    exact hroom
  · calc (c.push it).indexWrite = (c.indexWrite + 1) % c.size := h.next hwrite
      _ = (c.indexRead + (c.nelem + 1)) % c.size := by
        rw [h.write_eq, Nat.mod_add_mod, Nat.add_assoc]
      _ = ((c.push it).indexRead + (c.push it).nelem) % (c.push it).size := by
        rw [h.nelem_push]
        rfl
  · intro it' hit'
    rw [h.stored_push hroom, List.mem_append, List.mem_singleton] at hit'
    rcases hit' with hit' | rfl
    · exact h.filled it' hit'
    · exact hit

theorem Ok.pop (h : c.Ok) (hpos : 0 < c.nelem) : c.pop.Ok := by
  have hn := h.nelem_pop hpos
  have hread : c.pop.indexRead = (c.indexRead + 1) % c.size := h.next h.read_lt
  refine ⟨h.size_pos, h.size_lt, ?_, ?_, ?_, ?_⟩
  · have hle := h.nelem_le
    show c.pop.nelem ≤ c.size
    omega
  · rw [hread]
    exact Nat.mod_lt _ h.size_pos
  · show c.indexWrite = (c.pop.indexRead + c.pop.nelem) % c.size
    have hsum : c.indexRead + c.nelem = c.indexRead + 1 + c.pop.nelem := by omega
    rw [h.write_eq, hread, Nat.mod_add_mod, hsum]
  · intro it hit
    refine h.filled it ?_
    rw [h.stored_pop hpos]
    exact List.mem_cons_of_mem _ hit

/-- Storing a packet appends it to the queue. -/
theorem Ok.queue_push (h : c.Ok) (hroom : c.nelem < c.size) :
    (c.push it).queue = { c.queue with items := c.queue.items ++ [it.packet] } := by
  simp only [queue, h.stored_push hroom, List.map_append, List.map_cons, List.map_nil]
  rfl

/-- Taking a packet removes the first one of the queue. -/
theorem Ok.queue_pop (h : c.Ok) (hpos : 0 < c.nelem) :
    ∃ ps, c.queue.items = (c.fifo c.indexRead).packet :: ps ∧
      c.pop.queue = { c.queue with items := ps } := by
  refine ⟨c.pop.stored.map FifoItem.packet, ?_, rfl⟩
  simp only [queue, h.stored_pop hpos, List.map_cons]

end Core

/-- `BIO_CTRL_PENDING` adds up the lengths of the queued packets. -/
theorem FifoData.pending_eq {d : FifoData} (h : d.core.Ok) : d.pending = d.core.queue.bytes := by
  have hle : d.nelem ≤ d.size := h.nelem_le
  have hread : d.indexRead < d.size := h.read_lt
  have hsize := d.size_lt
  have hstop : uadd d.indexRead d.nelem - d.indexRead = d.nelem := by
    unfold uadd
    omega
  have hitems : (List.range' d.indexRead d.nelem).map
      (fun i => d.fifo (if i < d.size then i else i - d.size)) = d.core.stored := by
    rw [List.range'_eq_map_range, List.map_map]
    refine List.map_congr_left fun i hi => ?_
    have hi' : i < d.nelem := List.mem_range.mp hi
    simp only [Function.comp_apply, Ring.wrapped_index hread (Nat.le_of_lt (by omega : i < d.size))]
    rfl
  have hlen : d.core.stored.map (fun it => it.packet.length) =
      d.core.stored.map (fun it => it.size) := by
    refine List.map_congr_left fun it hit => ?_
    simp [FifoItem.packet, Nat.min_eq_left (h.filled it hit)]
  calc d.pending
      = (d.core.stored.map fun it => it.size).sum := by
        rw [FifoData.pending, hstop, ← hitems, List.map_map, List.sum_eq_foldl_nat, List.foldl_map]
        rfl
    _ = d.core.queue.bytes := by
        rw [Queue.bytes, List.length_flatten, Core.queue, List.map_map, ← hlen]
        rfl

/-! ## What the operations do to the ring buffer -/

section Operations
variable {b : Bio} {t : Thread} {pick : ℕ}

@[simp]
theorem core_conditionSignal (cond : List Thread) :
    (b.conditionSignal cond pick).d.core = b.d.core := by
  unfold Bio.conditionSignal
  split <;> rfl

/-- Only the timeouts are adjusted. -/
theorem adjustRcvTimeout_eq (d : FifoData) (now : Timeval) :
    ∃ rcv curr, d.adjustRcvTimeout now = { d with rcvTimeout := rcv, currRcvTimeout := curr } := by
  unfold FifoData.adjustRcvTimeout
  split
  · dsimp only
    split
    · exact ⟨_, _, rfl⟩
    · exact ⟨_, d.currRcvTimeout, rfl⟩
  · exact ⟨d.rcvTimeout, d.currRcvTimeout, rfl⟩

/-- Only the current timeout is reset. -/
theorem resetRcvTimeout_eq (d : FifoData) :
    ∃ curr, d.resetRcvTimeout = { d with currRcvTimeout := curr } := by
  unfold FifoData.resetRcvTimeout
  split
  · exact ⟨_, rfl⟩
  · exact ⟨d.currRcvTimeout, rfl⟩

theorem core_takeItem : (b.takeItem t).d.core = b.d.core.pop := rfl

theorem core_putItem (item : FifoItem) : (b.putItem t item).d.core = b.d.core.push item := rfl

/-- A successful read copies the beginning of the packet. -/
theorem readFinish_delivered (b : Bio) (t : Thread) (outl pick : ℕ) :
    (b.readFinish t outl false pick).1.d.core = b.d.core.pop ∧
      (b.readFinish t outl false pick).2 =
        .delivered t outl ((b.d.fifo b.d.indexRead).packet.take outl) := by
  constructor
  · simp only [Bio.readFinish, Bool.false_eq_true, if_false]
    split
    · rw [core_conditionSignal, core_takeItem]
    · exact core_takeItem
  · simp only [Bio.readFinish, Bool.false_eq_true, if_false, FifoItem.packet, List.take_take]
    congr 2
    split <;> omega

/-- What is copied into an item is the beginning of the packet. -/
theorem packet_store (item : FifoItem) (buf : Bytes) (malloc : Bool) :
    (item.store buf malloc).packet = buf.take (item.store buf malloc).size ∧
      (item.store buf malloc).size ≤ (item.store buf malloc).data.length := by
  unfold FifoItem.store FifoItem.packet
  split
  · rename_i hlarge
    split
    · simp
    · simp [List.take_take, Nat.le_of_lt hlarge]
  · simp

/-- With memory for it, that is the whole packet. -/
theorem size_store (item : FifoItem) (buf : Bytes) : (item.store buf true).size = buf.length := by
  unfold FifoItem.store
  split <;> rfl

end Operations

/-! ## The reader -/

/-- In the state `pc` of the thread `t`, with `n` packets in the queue: only the thread
`rd` reads, and when it has been woken up by a signal there is a packet for it. -/
def Pc.ReaderOk (rd : Thread) (n : ℕ) (t : Thread) : Pc → Prop
  | .readSleep _ _ => t = rd
  | .readReady _ timedOut => t = rd ∧ (timedOut = false → 0 < n)
  | _ => True

/-- All threads are as `Pc.ReaderOk` says. -/
def ReadersOk (rd : Thread) (n : ℕ) (pc : Thread → Pc) : Prop :=
  ∀ t, (pc t).ReaderOk rd n t

section Readers
variable {rd t : Thread} {n m : ℕ} {pc : Thread → Pc}

theorem ReadersOk.update (h : ReadersOk rd n pc) {p : Pc} (hp : p.ReaderOk rd n t) :
    ReadersOk rd n (Function.update pc t p) := by
  intro u
  by_cases hu : u = t
  · subst hu
    rwa [Function.update_self]
  · rw [Function.update_of_ne hu]
    exact h u

/-- A thread may leave its condition by a timeout, or when there is a packet. -/
theorem ReadersOk.wake (h : ReadersOk rd n pc) {r : Bool} (hr : r = false → 0 < n) :
    ReadersOk rd n (Function.update pc t ((pc t).wake r)) := by
  apply h.update
  have ht := h t
  cases hpc : pc t with
  | readSleep outl deadline =>
    rw [hpc] at ht
    exact ⟨ht, hr⟩
  | readReady outl timedOut =>
    rw [hpc] at ht
    exact ht
  | _ => trivial

/-- A writer may always leave its condition. -/
theorem ReadersOk.wake_writer (h : ReadersOk rd n pc) {buf : Bytes} (ht : pc t = .writeSleep buf)
    (r : Bool) : ReadersOk rd n (Function.update pc t ((pc t).wake r)) := by
  apply h.update
  rw [ht]
  trivial

theorem ReadersOk.mono (h : ReadersOk rd n pc) (hle : n ≤ m) : ReadersOk rd m pc := by
  intro t
  have ht := h t
  cases hpc : pc t with
  | readReady outl timedOut =>
    rw [hpc] at ht
    exact ⟨ht.1, fun hr => Nat.lt_of_lt_of_le (ht.2 hr) hle⟩
  | _ => rw [hpc] at ht; exact ht

/-- When the reader itself is idle, nobody relies on the packets. -/
theorem ReadersOk.of_idle (h : ReadersOk rd n pc) (hidle : pc rd = .idle) : ReadersOk rd m pc := by
  intro t
  have ht := h t
  cases hpc : pc t with
  | readReady outl timedOut =>
    rw [hpc] at ht
    rw [ht.1, hidle] at hpc
    cases hpc
  | _ => rw [hpc] at ht; exact ht

end Readers

/-! ## The conditions -/

/-- The thread sleeps on `cond_read`. -/
def Pc.sleepsRead : Pc → Bool
  | .readSleep _ _ => true
  | _ => false

/-- The thread sleeps on `cond_write`. -/
def Pc.sleepsWrite : Pc → Bool
  | .writeSleep _ => true
  | _ => false

theorem Pc.sleepsWrite_iff {pc : Pc} : pc.sleepsWrite = true ↔ ∃ buf, pc = .writeSleep buf := by
  cases pc <;> simp [Pc.sleepsWrite]

@[simp]
theorem Pc.sleepsRead_wake (pc : Pc) (r : Bool) : (pc.wake r).sleepsRead = false := by
  cases pc <;> rfl

@[simp]
theorem Pc.sleepsWrite_wake (pc : Pc) (r : Bool) : (pc.wake r).sleepsWrite = false := by
  cases pc <;> rfl

/-- The threads on a condition are those that sleep on it. -/
structure CondOk (sleeps : Pc → Bool) (cond : List Thread) (pc : Thread → Pc) : Prop where
  nodup : cond.Nodup
  mem_iff : ∀ t, t ∈ cond ↔ sleeps (pc t) = true

section Conditions
variable {sleeps : Pc → Bool} {cond : List Thread} {pc : Thread → Pc} {t : Thread} {p : Pc}

/-- A thread leaves the condition. -/
theorem CondOk.leave (h : CondOk sleeps cond pc) (hp : sleeps p = false) :
    CondOk sleeps (cond.erase t) (Function.update pc t p) := by
  refine ⟨h.nodup.erase t, fun u => ?_⟩
  by_cases hu : u = t
  · subst hu
    simp [h.nodup.mem_erase_iff, hp]
  · rw [h.nodup.mem_erase_iff, Function.update_of_ne hu, h.mem_iff]
    simp [hu]

/-- A thread goes to sleep on the condition. -/
theorem CondOk.sleep (h : CondOk sleeps cond pc) (ht : sleeps (pc t) = false)
    (hp : sleeps p = true) : CondOk sleeps (cond ++ [t]) (Function.update pc t p) := by
  have hnot : t ∉ cond := by simp [h.mem_iff, ht]
  refine ⟨?_, fun u => ?_⟩
  · rw [List.nodup_append]
    exact ⟨h.nodup, by simp, by simpa using fun u hu (hut : u = t) => hnot (hut ▸ hu)⟩
  · by_cases hu : u = t
    · subst hu
      simp [hp]
    · rw [Function.update_of_ne hu, ← h.mem_iff]
      simp [hu]

/-- A thread moves on without touching the condition. -/
theorem CondOk.move (h : CondOk sleeps cond pc) (hp : sleeps p = sleeps (pc t)) :
    CondOk sleeps cond (Function.update pc t p) := by
  refine ⟨h.nodup, fun u => ?_⟩
  by_cases hu : u = t
  · subst hu
    rw [Function.update_self, hp, h.mem_iff]
  · rw [Function.update_of_ne hu, h.mem_iff]

end Conditions

/-! ## The invariant -/

/-- What every step keeps, for the reader `rd`. -/
structure Inv (rd : Thread) (c : Core) (condRead condWrite : List Thread)
    (pc : Thread → Pc) : Prop where
  core : c.Ok
  readers : ReadersOk rd c.nelem pc
  condRead : CondOk Pc.sleepsRead condRead pc
  condWrite : CondOk Pc.sleepsWrite condWrite pc

/-- The invariant of a BIO. -/
def Bio.Inv (rd : Thread) (b : Bio) : Prop :=
  Fifo.Inv rd b.d.core b.d.condRead b.d.condWrite b.pc

/-- The thread sleeps. -/
def Pc.sleeps (pc : Pc) : Bool := pc.sleepsRead || pc.sleepsWrite

section Steps
variable {rd t : Thread} {b b' : Bio} {outl : ℕ} {buf : Bytes} {env : Env} {pick : ℕ} {o : Obs}
  {c : Core} {cr cw : List Thread} {pc : Thread → Pc} {p : Pc}

/-- Only `rd` sleeps on `cond_read`. -/
theorem Bio.Inv.reader_eq (h : b.Inv rd) (ht : (b.pc t).sleepsRead = true) : t = rd := by
  have hok := h.readers t
  cases hpc : b.pc t with
  | readSleep outl deadline =>
    rw [hpc] at hok
    exact hok
  | _ => rw [hpc] at ht; cases ht

/-- A thread that is awake moves on to `p` and stays awake. -/
theorem Inv.move (h : Inv rd c cr cw pc) (ht : (pc t).sleeps = false) (hp : p.sleeps = false)
    (hr : p.ReaderOk rd c.nelem t) : Inv rd c cr cw (Function.update pc t p) := by
  simp only [Pc.sleeps, Bool.or_eq_false_iff] at ht hp
  exact ⟨h.core, h.readers.update hr, h.condRead.move (hp.1.trans ht.1.symm),
    h.condWrite.move (hp.2.trans ht.2.symm)⟩

/-- A thread leaves its condition: a writer, a reader with a packet, or by a timeout. -/
theorem Bio.Inv.leave (h : b.Inv rd) {r : Bool}
    (hr : (∃ buf, b.pc t = .writeSleep buf) ∨ (r = false → 0 < b.d.core.nelem)) :
    (b.leave t r).Inv rd := by
  refine ⟨h.core, ?_, h.condRead.leave (Pc.sleepsRead_wake _ _),
    h.condWrite.leave (Pc.sleepsWrite_wake _ _)⟩
  rcases hr with ⟨buf, hbuf⟩ | hr
  · exact h.readers.wake_writer hbuf r
  · exact h.readers.wake hr

/-- A thread goes to sleep on `cond_read`. -/
theorem Inv.sleepRead (h : Inv rd c cr cw pc) (ht : (pc rd).sleeps = false)
    (deadline : Option Timespec) :
    Inv rd c (cr ++ [rd]) cw (Function.update pc rd (.readSleep outl deadline)) := by
  simp only [Pc.sleeps, Bool.or_eq_false_iff] at ht
  exact ⟨h.core, h.readers.update rfl, h.condRead.sleep ht.1 rfl, h.condWrite.move ht.2.symm⟩

/-- A thread goes to sleep on `cond_write`. -/
theorem Inv.sleepWrite (h : Inv rd c cr cw pc) (ht : (pc t).sleeps = false) :
    Inv rd c cr (cw ++ [t]) (Function.update pc t (.writeSleep buf)) := by
  simp only [Pc.sleeps, Bool.or_eq_false_iff] at ht
  exact ⟨h.core, h.readers.update trivial, h.condRead.move ht.1.symm, h.condWrite.sleep ht.2 rfl⟩

/-- A signal is for writers, or there is a packet. -/
theorem Bio.Inv.conditionSignal (h : b.Inv rd) {cond : List Thread}
    (hr : cond = b.d.condWrite ∨ 0 < b.d.core.nelem) : (b.conditionSignal cond pick).Inv rd := by
  unfold Bio.conditionSignal
  split
  · rename_i u hu
    apply h.leave
    rcases hr with rfl | hr
    · left
      exact Pc.sleepsWrite_iff.mp ((h.condWrite.mem_iff u).mp (List.mem_of_getElem? hu))
    · exact .inr fun _ => hr
  · exact h

end Steps

/-! ## The queue -/

/-- The queue in a BIO. -/
def Bio.queue (b : Bio) : Queue := b.d.core.queue

section Contents
variable {b : Bio}

theorem Bio.items_eq_nil : b.queue.items = [] ↔ b.d.nelem = 0 := by
  rw [← List.length_eq_zero_iff, Bio.queue, Core.items_length]
  rfl

theorem Bio.full_iff : b.queue.Full ↔ b.d.nelem = b.d.size := by
  unfold Queue.Full
  rw [Bio.queue, Core.items_length]
  rfl

end Contents

end Fifo
end Campagnol
