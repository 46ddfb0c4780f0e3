import Campagnol.Fifo.BioTheorems

/-!
# Calls of the FIFO BIO

What one step of a `fifo_read` or a `fifo_write` does, as their callers use it: to the packets in
the queue, to the calling thread and to the threads that it wakes up.
-/

namespace Campagnol
namespace Fifo

/-- The blocks of all items have at least `m` bytes. -/
def Bio.Sized (m : ℕ) (b : Bio) : Prop := ∀ i, m ≤ (b.d.fifo i).dataSize

/-- A step of the thread `t` that ends its call: it may have woken up another thread. -/
structure Returns (t : Thread) (b b' : Bio) : Prop where
  self : b'.pc t = .idle
  other : ∀ u, u ≠ t → b'.pc u = b.pc u ∨ b'.pc u = (b.pc u).wake false

section Calls
variable {rd t : Thread} {b b' : Bio} {buf : Bytes} {env : Env} {o : Obs} {m outl pick : ℕ}

/-! ## Threads -/

theorem pc_conditionSignal (b : Bio) (cond : List Thread) (pick : ℕ) (u : Thread) :
    (b.conditionSignal cond pick).pc u = b.pc u ∨
      (b.conditionSignal cond pick).pc u = (b.pc u).wake false := by
  unfold Bio.conditionSignal
  split
  · rename_i v _
    by_cases huv : u = v
    · subst huv
      exact .inr (Function.update_self ..)
    · exact .inl (Function.update_of_ne huv ..)
  · exact .inl rfl

/-- The calling thread is idle, so a signal does not change it. -/
theorem returns_conditionSignal (cond : List Thread) (hpc : b'.pc = Function.update b.pc t .idle) :
    Returns t b (b'.conditionSignal cond pick) := by
  constructor
  · have hself : b'.pc t = .idle := by rw [hpc, Function.update_self]
    rcases pc_conditionSignal b' cond pick t with h | h
    · rw [h, hself]
    · rw [h, hself]
      rfl
  · intro u hut
    have hother : b'.pc u = b.pc u := by rw [hpc, Function.update_of_ne hut]
    rw [← hother]
    exact pc_conditionSignal b' cond pick u

theorem returns_of_idle (hpc : b'.pc = Function.update b.pc t .idle) : Returns t b b' :=
  ⟨by rw [hpc, Function.update_self], fun u hut => .inl (by rw [hpc, Function.update_of_ne hut])⟩

theorem readFinish_returns : Returns t b (b.readFinish t outl false pick).1 := by
  simp only [Bio.readFinish, Bool.false_eq_true, if_false]
  split
  · exact returns_conditionSignal _ rfl
  · exact returns_of_idle rfl

theorem writeFinish_returns : Returns t b (b.writeFinish t buf env).1 := by
  simp only [Bio.writeFinish]
  split
  · exact returns_conditionSignal _ rfl
  · exact returns_of_idle rfl

/-! ## The blocks -/

theorem fifo_conditionSignal (cond : List Thread) :
    (b.conditionSignal cond pick).d.fifo = b.d.fifo :=
  congrArg Core.fifo (core_conditionSignal cond)

theorem Bio.Sized.readFinish (h : b.Sized m) {timedOut : Bool} :
    (b.readFinish t outl timedOut pick).1.Sized m := by
  unfold Bio.readFinish
  split
  · exact h
  · dsimp only
    split
    · unfold Bio.Sized
      rw [fifo_conditionSignal]
      exact h
    · exact h

theorem dataSize_store (item : FifoItem) (buf : Bytes) (malloc : Bool) :
    item.dataSize ≤ (item.store buf malloc).dataSize := by
  unfold FifoItem.store
  split
  · rename_i hlarge
    split
    · exact Nat.le_of_lt hlarge
    · exact Nat.le_refl _
  · exact Nat.le_refl _

theorem Bio.Sized.writeFinish (h : b.Sized m) : (b.writeFinish t buf env).1.Sized m := by
  have hput : (b.putItem t ((b.d.fifo b.d.indexWrite).store buf env.malloc)).Sized m := by
    intro i
    simp only [Bio.putItem]
    by_cases hi : i = b.d.indexWrite
    · subst hi
      rw [Function.update_self]
      exact Nat.le_trans (h _) (dataSize_store _ _ _)
    · rw [Function.update_of_ne hi]
      exact h i
  simp only [Bio.writeFinish]
  split
  · unfold Bio.Sized
    rw [fifo_conditionSignal]
    exact hput
  · exact hput

/-- The slot that is written next takes the packet `buf` as a whole. -/
def Bio.Holds (b : Bio) (buf : Bytes) (env : Env) : Prop :=
  ((b.d.fifo b.d.indexWrite).store buf env.malloc).size = buf.length

theorem Bio.holds_of_malloc (b : Bio) (buf : Bytes) (hmalloc : env.malloc = true) :
    b.Holds buf env := by
  unfold Bio.Holds
  rw [hmalloc, size_store]

/-- A packet that fits into the blocks needs no memory. -/
theorem Bio.Sized.holds (h : b.Sized m) (hlen : buf.length ≤ m) : b.Holds buf env := by
  have hfits : ¬ buf.length > (b.d.fifo b.d.indexWrite).dataSize :=
    Nat.not_lt.mpr (Nat.le_trans hlen (h _))
  simp only [Bio.Holds, FifoItem.store, if_neg hfits]

/-! ## Writing -/

/-- A step in which `t` stores the packet `buf` and returns. -/
structure Stores (t : Thread) (buf : Bytes) (b b' : Bio) (o : Obs) : Prop where
  obs : o = .accepted t buf
  room : b.queue.items.length < b.queue.bound
  queue : b'.queue = { b.queue with items := b.queue.items ++ [buf] }
  returns : Returns t b b'

/-- A step in which `t` finds the queue full and sleeps. -/
structure Sleeps (t : Thread) (buf : Bytes) (b b' : Bio) : Prop where
  full : b.queue.Full
  queue : b'.queue = b.queue
  pc : b'.pc = Function.update b.pc t (.writeSleep buf)

/-- The end of a write. -/
theorem writeFinish_stores (t : Thread) (h : b.Inv rd) (hholds : b.Holds buf env)
    (hroom : b.d.nelem ≠ b.d.size) :
    Stores t buf b (b.writeFinish t buf env).1 (b.writeFinish t buf env).2 := by
  have hlt : b.d.core.nelem < b.d.core.size := Nat.lt_of_le_of_ne h.core.nelem_le hroom
  have hwhole : buf.take ((b.d.fifo b.d.indexWrite).store buf env.malloc).size = buf := by
    rw [hholds, List.take_length]
  have hpush : (b.putItem t ((b.d.fifo b.d.indexWrite).store buf env.malloc)).queue =
      { b.queue with items := b.queue.items ++ [buf] } := by
    rw [Bio.queue, Bio.queue, core_putItem, h.core.queue_push hlt, (packet_store _ _ _).1, hwhole]
  refine ⟨?_, ?_, ?_, writeFinish_returns⟩
  · simp only [Bio.writeFinish, hwhole]
  · rw [Bio.queue, Core.items_length]
    exact hlt
  · simp only [Bio.writeFinish]
    split
    · rw [Bio.queue, core_conditionSignal]
      exact hpush
    · exact hpush

/-- A call of `fifo_write`. -/
theorem write_cases (h : b.Inv rd) (hholds : b.Holds buf env)
    (hs : step b (.write t (some buf) env) = some (b', o)) :
    (o = .discarded t buf ∧ b' = b ∧ b.queue.Full ∧ b.d.droptail ≠ 0) ∨
      (o = .writeWaits t ∧ b.d.droptail = 0 ∧ Sleeps t buf b b') ∨ Stores t buf b b' o := by
  simp only [step] at hs
  split at hs
  · have hs' := Option.some.inj hs
    unfold Bio.fifoWrite at hs'
    split at hs'
    · rename_i hfull
      cases hs'
      exact .inl ⟨rfl, rfl, Bio.full_iff.mpr hfull.1, hfull.2⟩
    · rename_i hdrop
      split at hs'
      · rename_i hfull
        cases hs'
        refine .inr (.inl ⟨rfl, ?_, Bio.full_iff.mpr hfull, rfl, rfl⟩)
        by_contra hne
        exact hdrop ⟨hfull, hne⟩
      · rename_i hroom
        have hstores := writeFinish_stores t h hholds hroom
        rw [hs'] at hstores
        exact .inr (.inr hstores)
  · cases hs

/-- `fifo_write` after a wait. -/
theorem resumeWrite_cases (h : b.Inv rd) (hholds : b.Holds buf env)
    (ht : b.pc t = .writeReady buf) (hs : step b (.resume t env) = some (b', o)) :
    (o = .writeStillWaits t ∧ Sleeps t buf b b') ∨ Stores t buf b b' o := by
  simp only [step, ht] at hs
  have hs' := Option.some.inj hs
  unfold Bio.fifoWriteResume at hs'
  dsimp only at hs'
  split at hs'
  · rename_i hfull
    cases hs'
    exact .inl ⟨rfl, Bio.full_iff.mpr hfull, rfl, rfl⟩
  · rename_i hroom
    have hstores := writeFinish_stores t
      (b := { b with d := { b.d with waitingWrite := b.d.waitingWrite - 1 } }) h hholds hroom
    rw [hs'] at hstores
    exact .inr ⟨hstores.obs, hstores.room, hstores.queue, hstores.returns.self,
      hstores.returns.other⟩

/-! ## Reading -/

/-- A step in which `t` takes the first packet and returns. -/
structure Takes (t : Thread) (outl : ℕ) (p : Bytes) (b b' : Bio) (o : Obs) : Prop where
  obs : o = .delivered t outl (p.take outl)
  items : b.queue.items = p :: b'.queue.items
  queue : b'.queue = { b.queue with items := b'.queue.items }
  returns : Returns t b b'

/-- The end of a read that has not timed out. -/
theorem readFinish_takes (t : Thread) (outl pick : ℕ) (h : b.Inv rd) (hn : 0 < b.d.core.nelem) :
    ∃ p, Takes t outl p b (b.readFinish t outl false pick).1
      (b.readFinish t outl false pick).2 := by
  obtain ⟨hcore, hobs⟩ := readFinish_delivered b t outl pick
  obtain ⟨ps, hitems, hqueue⟩ := h.core.queue_pop hn
  refine ⟨_, hobs, ?_, ?_, readFinish_returns⟩
  · rw [Bio.queue, Bio.queue, hcore, hqueue]
    exact hitems
  · rw [Bio.queue, Bio.queue, hcore, hqueue]

/-- A call of `fifo_read`. -/
theorem read_cases (h : b.Inv rd) (hs : step b (.read t (some outl) env) = some (b', o)) :
    (∃ deadline, o = .readWaits t ∧ b.queue.items = [] ∧ b'.queue = b.queue ∧
      b'.pc = Function.update b.pc t (.readSleep outl deadline)) ∨ ∃ p, Takes t outl p b b' o := by
  simp only [step] at hs
  split at hs
  · have hs' := Option.some.inj hs
    unfold Bio.fifoRead at hs'
    split at hs'
    · rename_i hempty
      obtain ⟨rcv, curr, hadjust⟩ := adjustRcvTimeout_eq
        { b.d with waitingRead := b.d.waitingRead + 1 } env.now
      rw [hadjust] at hs'
      cases hs'
      exact .inl ⟨_, rfl, Bio.items_eq_nil.mpr hempty, rfl, rfl⟩
    · rename_i hnelem
      obtain ⟨p, htakes⟩ := readFinish_takes t outl env.pick h (Nat.pos_of_ne_zero hnelem)
      rw [hs'] at htakes
      exact .inr ⟨p, htakes⟩
  · cases hs

/-- `fifo_read` after its wait: the reader has been signalled for a packet. -/
theorem resumeRead_cases (h : b.Inv rd) (ht : b.pc t = .readReady outl false)
    (hs : step b (.resume t env) = some (b', o)) : ∃ p, Takes t outl p b b' o := by
  have hready := h.readers t
  rw [ht] at hready
  simp only [step, ht] at hs
  have hs' := Option.some.inj hs
  obtain ⟨curr, hreset⟩ := resetRcvTimeout_eq b.d
  unfold Bio.fifoReadResume at hs'
  rw [hreset] at hs'
  dsimp only at hs'
  obtain ⟨p, htakes⟩ := readFinish_takes t (b := { b with d := { b.d with
    currRcvTimeout := curr, waitingRead := b.d.waitingRead - 1 } }) outl env.pick h (hready.2 rfl)
  rw [hs'] at htakes
  exact ⟨p, htakes.obs, htakes.items, htakes.queue, htakes.returns.self, htakes.returns.other⟩

/-- `fifo_read` after its timeout. -/
theorem resumeRead_timedOut (ht : b.pc t = .readReady outl true)
    (hs : step b (.resume t env) = some (b', o)) :
    o = .timedOut t ∧ b'.queue = b.queue ∧ b'.pc = Function.update b.pc t .idle := by
  simp only [step, ht] at hs
  have hs' := Option.some.inj hs
  obtain ⟨curr, hreset⟩ := resetRcvTimeout_eq b.d
  unfold Bio.fifoReadResume at hs'
  rw [hreset] at hs'
  cases hs'
  exact ⟨rfl, rfl, rfl⟩

/-! ## All steps -/

theorem Bio.Sized.fifoRead (h : b.Sized m) : (b.fifoRead t outl env).1.Sized m := by
  unfold Bio.fifoRead
  split
  · obtain ⟨rcv, curr, hadjust⟩ := adjustRcvTimeout_eq
      { b.d with waitingRead := b.d.waitingRead + 1 } env.now
    rw [hadjust]
    exact h
  · exact h.readFinish

theorem Bio.Sized.fifoReadResume (h : b.Sized m) {timedOut : Bool} :
    (b.fifoReadResume t outl timedOut pick).1.Sized m := by
  obtain ⟨curr, hreset⟩ := resetRcvTimeout_eq b.d
  unfold Bio.fifoReadResume
  rw [hreset]
  apply Bio.Sized.readFinish
  exact h

theorem Bio.Sized.fifoWrite (h : b.Sized m) : (b.fifoWrite t buf env).1.Sized m := by
  unfold Bio.fifoWrite
  split
  · exact h
  · split
    · exact h
    · exact h.writeFinish

theorem Bio.Sized.fifoWriteResume (h : b.Sized m) : (b.fifoWriteResume t buf env).1.Sized m := by
  unfold Bio.fifoWriteResume
  dsimp only
  split
  · exact h
  · exact Bio.Sized.writeFinish h

theorem Bio.Sized.step (h : b.Sized m) {a : Act} {r : Bio × Obs} (hs : Fifo.step b a = some r) :
    r.1.Sized m := by
  cases a with
  | read t out env =>
    simp only [Fifo.step] at hs
    split at hs
    · cases out <;> cases hs
      · exact h
      · exact h.fifoRead
    · cases hs
  | write t buf env =>
    simp only [Fifo.step] at hs
    split at hs
    · cases buf <;> cases hs
      · exact h
      · exact h.fifoWrite
    · cases hs
  | resume t env =>
    simp only [Fifo.step] at hs
    split at hs <;> cases hs
    · exact h.fifoReadResume
    · exact h.fifoWriteResume
  | expire t =>
    simp only [Fifo.step] at hs
    split at hs <;> cases hs
    exact h
  | spurious t =>
    simp only [Fifo.step] at hs
    split at hs <;> cases hs <;> exact h
  | ctrl cmd =>
    cases hs
    cases cmd <;> exact h

end Calls

end Fifo
end Campagnol
