import Campagnol.Fifo.Refinement

/-!
# No lost wake-up in the FIFO

The counters `waiting_read` and `waiting_write` count the threads that are in a wait, whether
they are still asleep or have been signalled. A writer signals the reader whenever it waits, and
the read that empties the queue signals a writer if one waits. So nobody sleeps through the event
it waits for (`Wakeful`), and the BIO never stops with everybody asleep.
-/

namespace Campagnol
namespace Fifo

/-- The thread is in the wait of `fifo_read`, asleep or not. -/
def Pc.waitsRead : Pc → Bool
  | .readSleep _ _ | .readReady _ _ => true
  | _ => false

/-- The thread is in the wait of `fifo_write`, asleep or not. -/
def Pc.waitsWrite : Pc → Bool
  | .writeSleep _ | .writeReady _ => true
  | _ => false

/-- The thread has been signalled in `fifo_write`, and has not resumed yet. -/
def Pc.readyWrite : Pc → Bool
  | .writeReady _ => true
  | _ => false

@[simp]
theorem Pc.waitsRead_wake (pc : Pc) (r : Bool) : (pc.wake r).waitsRead = pc.waitsRead := by
  cases pc <;> rfl

@[simp]
theorem Pc.waitsWrite_wake (pc : Pc) (r : Bool) : (pc.wake r).waitsWrite = pc.waitsWrite := by
  cases pc <;> rfl

theorem Pc.waitsRead_of_sleepsRead {pc : Pc} (h : pc.sleepsRead = true) : pc.waitsRead = true := by
  cases pc <;> first | rfl | cases h

theorem Pc.waitsWrite_of_sleepsWrite {pc : Pc} (h : pc.sleepsWrite = true) :
    pc.waitsWrite = true := by
  cases pc <;> first | rfl | cases h

/-! ## Counting the waiting threads -/

/-- `w` threads satisfy `waits`. -/
def WaitCount (waits : Pc → Bool) (w : ℤ) (pc : Thread → Pc) : Prop :=
  ∃ ts, CondOk waits ts pc ∧ w = ts.length

section Counting
variable {waits : Pc → Bool} {w : ℤ} {pc : Thread → Pc} {t : Thread} {p : Pc}

theorem WaitCount.enter (h : WaitCount waits w pc) (ht : waits (pc t) = false)
    (hp : waits p = true) : WaitCount waits (w + 1) (Function.update pc t p) := by
  obtain ⟨ts, hts, rfl⟩ := h
  exact ⟨ts ++ [t], hts.sleep ht hp, by simp⟩

theorem WaitCount.exit (h : WaitCount waits w pc) (ht : waits (pc t) = true)
    (hp : waits p = false) : WaitCount waits (w - 1) (Function.update pc t p) := by
  obtain ⟨ts, hts, rfl⟩ := h
  have hmem : t ∈ ts := (hts.mem_iff t).mpr ht
  have hpos := List.length_pos_of_mem hmem
  refine ⟨ts.erase t, hts.leave hp, ?_⟩
  rw [List.length_erase_of_mem hmem]
  omega

theorem WaitCount.move (h : WaitCount waits w pc) (hp : waits p = waits (pc t)) :
    WaitCount waits w (Function.update pc t p) := by
  obtain ⟨ts, hts, rfl⟩ := h
  exact ⟨ts, hts.move hp, rfl⟩

theorem WaitCount.ne_zero (h : WaitCount waits w pc) (ht : waits (pc t) = true) : w ≠ 0 := by
  obtain ⟨ts, hts, rfl⟩ := h
  have hpos := List.length_pos_of_mem ((hts.mem_iff t).mpr ht)
  omega

end Counting

/-! ## The invariant -/

/-- The counters are right. A reader sleeps on an empty queue only, and a writer sleeps on an
empty queue only while another one has been signalled. -/
structure Wakeful (wr ww : ℤ) (n : ℕ) (pc : Thread → Pc) : Prop where
  readers : WaitCount Pc.waitsRead wr pc
  writers : WaitCount Pc.waitsWrite ww pc
  empty : ∀ t, (pc t).sleepsRead = true → n = 0
  pending : n = 0 → ∀ t, (pc t).sleepsWrite = true → ∃ u, (pc u).readyWrite = true

/-- The invariant of a BIO. -/
def Bio.Wakeful (b : Bio) : Prop :=
  Fifo.Wakeful b.d.waitingRead b.d.waitingWrite b.d.nelem b.pc

section Steps
variable {rd t : Thread} {b : Bio} {outl : ℕ} {buf : Bytes} {env : Env} {pick : ℕ} {a : Act}
  {wr ww : ℤ} {n : ℕ} {pc : Thread → Pc} {p : Pc}

@[simp] theorem leave_pc (r : Bool) :
    (b.leave t r).pc = Function.update b.pc t ((b.pc t).wake r) := rfl

@[simp] theorem takeItem_pc : (b.takeItem t).pc = Function.update b.pc t .idle := rfl

/-! ### Signals -/

/-- A thread that wakes up is still counted. -/
theorem WaitCount.wake {waits : Pc → Bool} {w : ℤ} (h : WaitCount waits w pc)
    (hwaits : ∀ p r, waits (Pc.wake r p) = waits p) (t : Thread) (r : Bool) :
    WaitCount waits w (Function.update pc t ((pc t).wake r)) :=
  h.move (hwaits _ _)

/-- Nobody falls asleep when a thread wakes up. -/
theorem sleepsRead_of_wake {u : Thread} {r : Bool}
    (h : (Function.update pc t ((pc t).wake r) u).sleepsRead = true) :
    u ≠ t ∧ (pc u).sleepsRead = true := by
  by_cases hut : u = t
  · subst hut
    simp at h
  · rw [Function.update_of_ne hut] at h
    exact ⟨hut, h⟩

theorem sleepsWrite_of_wake {u : Thread} {r : Bool}
    (h : (Function.update pc t ((pc t).wake r) u).sleepsWrite = true) :
    u ≠ t ∧ (pc u).sleepsWrite = true := by
  by_cases hut : u = t
  · subst hut
    simp at h
  · rw [Function.update_of_ne hut] at h
    exact ⟨hut, h⟩

/-- A thread that is ready stays so when a thread wakes up. -/
theorem readyWrite_wake {u : Thread} (r : Bool) (h : (pc u).readyWrite = true) :
    (Function.update pc t ((pc t).wake r) u).readyWrite = true := by
  by_cases hut : u = t
  · subst hut
    rw [Function.update_self]
    cases hpc : pc u with
    | writeReady buf => rfl
    | _ => rw [hpc] at h; cases h
  · rwa [Function.update_of_ne hut]

theorem Wakeful.wake (h : Wakeful wr ww n pc) (t : Thread) (r : Bool) :
    Wakeful wr ww n (Function.update pc t ((pc t).wake r)) where
  readers := h.readers.wake Pc.waitsRead_wake t r
  writers := h.writers.wake Pc.waitsWrite_wake t r
  empty := fun u hu => h.empty u (sleepsRead_of_wake hu).2
  pending := fun hn u hu => by
    obtain ⟨v, hv⟩ := h.pending hn u (sleepsWrite_of_wake hu).2
    exact ⟨v, readyWrite_wake r hv⟩

theorem WaitCount.conditionSignal {waits : Pc → Bool} {w : ℤ} (h : WaitCount waits w b.pc)
    (hwaits : ∀ p r, waits (Pc.wake r p) = waits p) (cond : List Thread) (pick : ℕ) :
    WaitCount waits w (b.conditionSignal cond pick).pc := by
  unfold Bio.conditionSignal
  split
  · exact h.wake hwaits _ _
  · exact h

theorem sleepsRead_of_conditionSignal {cond : List Thread} {u : Thread}
    (h : ((b.conditionSignal cond pick).pc u).sleepsRead = true) : (b.pc u).sleepsRead = true := by
  unfold Bio.conditionSignal at h
  split at h
  · exact (sleepsRead_of_wake h).2
  · exact h

theorem sleepsWrite_of_conditionSignal {cond : List Thread} {u : Thread}
    (h : ((b.conditionSignal cond pick).pc u).sleepsWrite = true) :
    (b.pc u).sleepsWrite = true := by
  unfold Bio.conditionSignal at h
  split at h
  · exact (sleepsWrite_of_wake h).2
  · exact h

theorem waitingRead_conditionSignal (cond : List Thread) :
    (b.conditionSignal cond pick).d.waitingRead = b.d.waitingRead := by
  unfold Bio.conditionSignal
  split <;> rfl

theorem waitingWrite_conditionSignal (cond : List Thread) :
    (b.conditionSignal cond pick).d.waitingWrite = b.d.waitingWrite := by
  unfold Bio.conditionSignal
  split <;> rfl

theorem nelem_conditionSignal (cond : List Thread) :
    (b.conditionSignal cond pick).d.nelem = b.d.nelem :=
  congrArg Core.nelem (core_conditionSignal cond)

/-- A signal on a condition with waiters wakes one of them. -/
theorem signalled_of_mem {cond : List Thread} (ht : t ∈ cond) (pick : ℕ) :
    ∃ u ∈ cond, signalled cond pick = some u := by
  have hpos := List.length_pos_of_mem ht
  have hlt : pick % cond.length < cond.length := Nat.mod_lt _ hpos
  exact ⟨cond.get ⟨_, hlt⟩, List.get_mem _ _, List.getElem?_eq_getElem hlt⟩

/-- After a signal on `cond_read` no reader is asleep: there is one reader only. -/
theorem sleepsRead_conditionSignal (h : b.Inv rd) (pick : ℕ) (u : Thread) :
    ((b.conditionSignal b.d.condRead pick).pc u).sleepsRead = false := by
  have hreader : ∀ v ∈ b.d.condRead, v = rd := fun v hv =>
    h.reader_eq ((h.condRead.mem_iff v).mp hv)
  by_contra hu
  rw [Bool.not_eq_false] at hu
  unfold Bio.conditionSignal at hu
  split at hu
  · rename_i v hv
    obtain ⟨huv, hu⟩ := sleepsRead_of_wake hu
    have hmem := (h.condRead.mem_iff u).mpr hu
    exact huv ((hreader u hmem).trans (hreader v (List.mem_of_getElem? hv)).symm)
  · rename_i hnone
    obtain ⟨v, _, hv⟩ := signalled_of_mem ((h.condRead.mem_iff u).mpr hu) pick
    rw [hv] at hnone
    cases hnone

/-- A signal on `cond_write` reaches a writer if one is asleep. -/
theorem readyWrite_conditionSignal (h : b.Inv rd) (pick : ℕ) (ht : (b.pc t).sleepsWrite = true) :
    ∃ u, ((b.conditionSignal b.d.condWrite pick).pc u).readyWrite = true := by
  obtain ⟨u, hu, hsig⟩ := signalled_of_mem ((h.condWrite.mem_iff t).mpr ht) pick
  obtain ⟨buf, hpc⟩ := Pc.sleepsWrite_iff.mp ((h.condWrite.mem_iff u).mp hu)
  refine ⟨u, ?_⟩
  rw [Bio.conditionSignal, hsig]
  simp only [leave_pc, Function.update_self, hpc]
  rfl

/-! ### Threads that move on -/

/-- The thread `t` moves on, by itself. It may fall asleep on `cond_read` when the queue is empty,
and on `cond_write` when it is not; a writer with a signal does not drop it on an empty queue. -/
theorem Wakeful.move (h : Wakeful wr ww n pc) {wr' ww' : ℤ}
    (hreaders : WaitCount Pc.waitsRead wr' (Function.update pc t p))
    (hwriters : WaitCount Pc.waitsWrite ww' (Function.update pc t p))
    (hread : p.sleepsRead = true → n = 0) (hwrite : p.sleepsWrite = true → n ≠ 0)
    (ht : n = 0 → (pc t).readyWrite = false) :
    Wakeful wr' ww' n (Function.update pc t p) := by
  refine ⟨hreaders, hwriters, fun u hu => ?_, fun hn u hu => ?_⟩
  · by_cases hut : u = t
    · subst hut
      rw [Function.update_self] at hu
      exact hread hu
    · rw [Function.update_of_ne hut] at hu
      exact h.empty u hu
  · by_cases hut : u = t
    · subst hut
      rw [Function.update_self] at hu
      exact absurd hn (hwrite hu)
    · rw [Function.update_of_ne hut] at hu
      obtain ⟨v, hv⟩ := h.pending hn u hu
      have hvt : v ≠ t := by
        rintro rfl
        rw [ht hn] at hv
        cases hv
      exact ⟨v, by rwa [Function.update_of_ne hvt]⟩

/-- A thread in no wait is counted nowhere. -/
theorem Wakeful.idle (h : Wakeful wr ww n pc) (ht : pc t = .idle) :
    Wakeful wr ww n (Function.update pc t .idle) := by
  rw [← ht, Function.update_eq_self]
  exact h

/-! ### The ends of the calls -/

theorem usub_zero (d : FifoData) : usub d.size 0 = d.size := by
  have hlt := d.size_lt
  unfold usub
  omega

/-- The end of a read. The read that empties the queue signals a writer. -/
theorem readFinish_wakeful {timedOut : Bool} (h : b.Inv t) (hthreshold : b.d.threshold ≤ b.d.size)
    (ht : (b.pc t).sleeps = false) (hn : timedOut = false → 0 < b.d.nelem)
    (hw : Fifo.Wakeful b.d.waitingRead b.d.waitingWrite b.d.nelem (Function.update b.pc t .idle)) :
    (b.readFinish t outl timedOut pick).1.Wakeful := by
  cases timedOut with
  | true => exact hw
  | false =>
    have hinv := h.takeItem ht (hn rfl)
    -- the only reader is `t`, which is idle
    have hawake : ∀ u, ((b.takeItem t).pc u).sleepsRead ≠ true := by
      intro u hu
      rw [hinv.reader_eq hu, takeItem_pc, Function.update_self] at hu
      cases hu
    simp only [Bio.readFinish, Bool.false_eq_true, if_false]
    split
    · refine ⟨?_, ?_, fun u hu => ?_, fun _ u hu => ?_⟩
      · rw [waitingRead_conditionSignal]
        exact WaitCount.conditionSignal hw.readers Pc.waitsRead_wake _ _
      · rw [waitingWrite_conditionSignal]
        exact WaitCount.conditionSignal hw.writers Pc.waitsWrite_wake _ _
      · exact absurd (sleepsRead_of_conditionSignal hu) (hawake u)
      · exact readyWrite_conditionSignal hinv pick (sleepsWrite_of_conditionSignal hu)
    · rename_i hquiet
      refine ⟨hw.readers, hw.writers, fun u hu => absurd hu (hawake u), fun hempty u hu => ?_⟩
      -- an empty queue has room enough for a signal, so no writer waits
      refine absurd ⟨hw.writers.ne_zero (Pc.waitsWrite_of_sleepsWrite hu), ?_⟩ hquiet
      rw [hempty, usub_zero]
      exact hthreshold

/-- The end of a write. It wakes up the reader if it waits. -/
theorem writeFinish_wakeful (h : b.Inv rd) (ht : (b.pc t).sleeps = false)
    (hroom : b.d.nelem ≠ b.d.size)
    (hreaders : WaitCount Pc.waitsRead b.d.waitingRead (Function.update b.pc t .idle))
    (hwriters : WaitCount Pc.waitsWrite b.d.waitingWrite (Function.update b.pc t .idle)) :
    (b.writeFinish t buf env).1.Wakeful := by
  have hlt : b.d.core.nelem < b.d.core.size := Nat.lt_of_le_of_ne h.core.nelem_le hroom
  obtain ⟨_, hfilled⟩ := packet_store (b.d.fifo b.d.indexWrite) buf env.malloc
  simp only [Bio.writeFinish]
  generalize (b.d.fifo b.d.indexWrite).store buf env.malloc = item at hfilled
  have hinv := h.putItem ht hlt hfilled
  have hnelem : (b.putItem t item).d.core.nelem = b.d.core.nelem + 1 := h.core.nelem_push
  have hne : (b.putItem t item).d.nelem ≠ 0 := hnelem.trans_ne (Nat.succ_ne_zero _)
  split
  · refine ⟨?_, ?_, fun u hu => ?_, fun hempty => ?_⟩
    · rw [waitingRead_conditionSignal]
      exact WaitCount.conditionSignal hreaders Pc.waitsRead_wake _ _
    · rw [waitingWrite_conditionSignal]
      exact WaitCount.conditionSignal hwriters Pc.waitsWrite_wake _ _
    · rw [sleepsRead_conditionSignal hinv] at hu
      cases hu
    · rw [nelem_conditionSignal] at hempty
      exact absurd hempty hne
  · rename_i hquiet
    refine ⟨hreaders, hwriters, fun u hu => ?_, fun hempty => absurd hempty hne⟩
    exact absurd (hreaders.ne_zero (Pc.waitsRead_of_sleepsRead hu)) hquiet

/-! ### The calls -/

/-- A call of `fifo_read`. -/
theorem fifoRead_wakeful (h : b.Inv t) (hthreshold : b.d.threshold ≤ b.d.size) (hw : b.Wakeful)
    (ht : b.pc t = .idle) : (b.fifoRead t outl env).1.Wakeful := by
  have hawake : (b.pc t).sleeps = false := by rw [ht]; rfl
  unfold Bio.fifoRead
  split
  · rename_i hempty
    obtain ⟨rcv, curr, hadjust⟩ := adjustRcvTimeout_eq
      { b.d with waitingRead := b.d.waitingRead + 1 } env.now
    rw [hadjust]
    exact hw.move (hw.readers.enter (by rw [ht]; rfl) rfl) (hw.writers.move (by rw [ht]; rfl))
      (fun _ => hempty) (fun hp => by cases hp) fun _ => by rw [ht]; rfl
  · rename_i hnelem
    exact readFinish_wakeful h hthreshold hawake (fun _ => Nat.pos_of_ne_zero hnelem) (hw.idle ht)

/-- `fifo_read` after its wait. -/
theorem fifoReadResume_wakeful {timedOut : Bool} (h : b.Inv rd)
    (hthreshold : b.d.threshold ≤ b.d.size) (hw : b.Wakeful)
    (ht : b.pc t = .readReady outl timedOut) :
    (b.fifoReadResume t outl timedOut pick).1.Wakeful := by
  have hready := h.readers t
  rw [ht] at hready
  obtain ⟨rfl, hn⟩ := hready
  have hawake : (b.pc t).sleeps = false := by rw [ht]; rfl
  have hidle : Fifo.Wakeful (b.d.waitingRead - 1) b.d.waitingWrite b.d.nelem
      (Function.update b.pc t .idle) :=
    hw.move (hw.readers.exit (by rw [ht]; rfl) rfl) (hw.writers.move (by rw [ht]; rfl))
      (fun hp => by cases hp) (fun hp => by cases hp) fun _ => by rw [ht]; rfl
  obtain ⟨curr, hreset⟩ := resetRcvTimeout_eq b.d
  unfold Bio.fifoReadResume
  rw [hreset]
  exact readFinish_wakeful h hthreshold hawake hn hidle

/-- A call of `fifo_write`. -/
theorem fifoWrite_wakeful (h : b.Inv rd) (hw : b.Wakeful) (ht : b.pc t = .idle) :
    (b.fifoWrite t buf env).1.Wakeful := by
  have hawake : (b.pc t).sleeps = false := by rw [ht]; rfl
  unfold Bio.fifoWrite
  split
  · exact hw
  · split
    · rename_i hfull
      exact hw.move (hw.readers.move (by rw [ht]; rfl)) (hw.writers.enter (by rw [ht]; rfl) rfl)
        (fun hp => by cases hp) (fun _ => hfull.trans_ne b.d.size_pos.ne') fun _ => by rw [ht]; rfl
    · rename_i hroom
      exact writeFinish_wakeful h hawake hroom (hw.idle ht).readers (hw.idle ht).writers

/-- `fifo_write` after a wait. -/
theorem fifoWriteResume_wakeful (h : b.Inv rd) (hw : b.Wakeful) (ht : b.pc t = .writeReady buf) :
    (b.fifoWriteResume t buf env).1.Wakeful := by
  have hawake : (b.pc t).sleeps = false := by rw [ht]; rfl
  unfold Bio.fifoWriteResume
  dsimp only
  split
  · rename_i hfull
    have hne : b.d.nelem ≠ 0 := hfull.trans_ne b.d.size_pos.ne'
    have hwriters : WaitCount Pc.waitsWrite (b.d.waitingWrite - 1 + 1)
        (Function.update b.pc t (.writeSleep buf)) := by
      rw [sub_add_cancel]
      exact hw.writers.move (by rw [ht]; rfl)
    exact hw.move (hw.readers.move (by rw [ht]; rfl)) hwriters (fun hp => by cases hp)
      (fun _ => hne) fun hn => absurd hn hne
  · rename_i hroom
    exact writeFinish_wakeful h hawake hroom (hw.readers.move (by rw [ht]; rfl))
      (hw.writers.exit (by rw [ht]; rfl) rfl)

/-- The commands, `BIO_CTRL_RESET` excepted, wake up nobody. -/
theorem fifoCtrl_wakeful (hw : b.Wakeful) {cmd : Ctrl} (hcmd : cmd ≠ .reset) :
    (b.fifoCtrl cmd).1.Wakeful := by
  cases cmd with
  | reset => exact absurd rfl hcmd
  | _ => exact hw

/-- One step of the BIO and its threads. -/
theorem step_wakeful {r : Bio × Obs} (h : b.Inv rd) (hthreshold : b.d.threshold ≤ b.d.size)
    (hw : b.Wakeful) (hok : OnlySignals rd a) (hs : step b a = some r) : r.1.Wakeful := by
  cases a with
  | read t out env =>
    obtain rfl : t = rd := hok
    simp only [step] at hs
    split at hs
    · rename_i hidle
      cases out with
      | none =>
        cases hs
        exact hw
      | some outl =>
        cases hs
        exact fifoRead_wakeful h hthreshold hw hidle
    · cases hs
  | write t buf env =>
    simp only [step] at hs
    split at hs
    · rename_i hidle
      cases buf with
      | none =>
        cases hs
        exact hw
      | some buf =>
        cases hs
        exact fifoWrite_wakeful h hw hidle
    · cases hs
  | resume t env =>
    simp only [step] at hs
    split at hs
    · rename_i hpc
      cases hs
      exact fifoReadResume_wakeful h hthreshold hw hpc
    · rename_i hpc
      cases hs
      exact fifoWriteResume_wakeful h hw hpc
    · cases hs
  | expire t =>
    simp only [step] at hs
    split at hs
    · cases hs
      exact hw.wake t true
    · cases hs
  | spurious t => exact hok.elim
  | ctrl cmd =>
    cases hs
    exact fifoCtrl_wakeful hw hok

/-! ### The size and the threshold -/

/-- The fields that are set once. -/
def FifoData.limits (d : FifoData) : ℕ × ℕ := (d.threshold, d.size)

theorem limits_conditionSignal (cond : List Thread) :
    (b.conditionSignal cond pick).d.limits = b.d.limits := by
  unfold Bio.conditionSignal
  split <;> rfl

theorem limits_readFinish {timedOut : Bool} :
    (b.readFinish t outl timedOut pick).1.d.limits = b.d.limits := by
  unfold Bio.readFinish
  split
  · rfl
  · dsimp only
    split
    · exact limits_conditionSignal _
    · rfl

theorem limits_writeFinish : (b.writeFinish t buf env).1.d.limits = b.d.limits := by
  unfold Bio.writeFinish
  dsimp only
  split
  · exact limits_conditionSignal _
  · rfl

theorem limits_fifoRead : (b.fifoRead t outl env).1.d.limits = b.d.limits := by
  unfold Bio.fifoRead
  split
  · obtain ⟨rcv, curr, hadjust⟩ := adjustRcvTimeout_eq
      { b.d with waitingRead := b.d.waitingRead + 1 } env.now
    rw [hadjust]
    rfl
  · exact limits_readFinish

theorem limits_fifoReadResume {timedOut : Bool} :
    (b.fifoReadResume t outl timedOut pick).1.d.limits = b.d.limits := by
  obtain ⟨curr, hreset⟩ := resetRcvTimeout_eq b.d
  unfold Bio.fifoReadResume
  rw [hreset]
  exact limits_readFinish

theorem limits_fifoWrite : (b.fifoWrite t buf env).1.d.limits = b.d.limits := by
  unfold Bio.fifoWrite
  split
  · rfl
  · split
    · rfl
    · exact limits_writeFinish

theorem limits_fifoWriteResume : (b.fifoWriteResume t buf env).1.d.limits = b.d.limits := by
  unfold Bio.fifoWriteResume
  dsimp only
  split
  · rfl
  · exact limits_writeFinish

theorem limits_step {r : Bio × Obs} (hs : step b a = some r) : r.1.d.limits = b.d.limits := by
  cases a with
  | read t out env =>
    simp only [step] at hs
    split at hs
    · cases out <;> cases hs
      · rfl
      · exact limits_fifoRead
    · cases hs
  | write t buf env =>
    simp only [step] at hs
    split at hs
    · cases buf <;> cases hs
      · rfl
      · exact limits_fifoWrite
    · cases hs
  | resume t env =>
    simp only [step] at hs
    split at hs <;> cases hs
    · exact limits_fifoReadResume
    · exact limits_fifoWriteResume
  | expire t =>
    simp only [step] at hs
    split at hs <;> cases hs
    rfl
  | spurious t =>
    simp only [step] at hs
    split at hs <;> cases hs <;> rfl
  | ctrl cmd =>
    cases hs
    cases cmd <;> rfl

end Steps

/-! ## Whole runs -/

/-- The reader `rd` and the writers do not miss what they wait for. -/
structure NoLostWakeup (rd : Thread) (b : Bio) : Prop where
  /-- The reader sleeps on an empty queue only. -/
  reader : (b.pc rd).sleepsRead = true → b.d.nelem = 0
  /-- A writer that sleeps on an empty queue is not alone: another one has been signalled. -/
  writer : b.d.nelem = 0 → ∀ t, (b.pc t).sleepsWrite = true → ∃ u, (b.pc u).readyWrite = true
  /-- The reader and the writers in a wait are not all asleep. -/
  not_stuck : ¬ ((b.pc rd).sleepsRead = true ∧ (∃ t, (b.pc t).sleepsWrite = true) ∧
    ∀ t, (b.pc t).waitsWrite = true → (b.pc t).sleepsWrite = true)

/-- What the runs keep. -/
structure Bio.Live (rd : Thread) (b : Bio) : Prop where
  inv : b.Inv rd
  threshold : b.d.threshold ≤ b.d.size
  wakeful : b.Wakeful

section Runs
variable {rd : Thread} {b : Bio} {len : ℕ}

theorem Bio.Live.noLostWakeup (h : b.Live rd) : NoLostWakeup rd b where
  reader := h.wakeful.empty rd
  writer := h.wakeful.pending
  not_stuck := by
    rintro ⟨hrd, ⟨t, ht⟩, hall⟩
    obtain ⟨u, hu⟩ := h.wakeful.pending (h.wakeful.empty rd hrd) t ht
    cases hpc : b.pc u with
    | writeReady buf =>
      have hasleep := hall u (by rw [hpc]; rfl)
      rw [hpc] at hasleep
      cases hasleep
    | _ => rw [hpc] at hu; cases hu

theorem Bio.Live.step {a : Act} {r : Bio × Obs} (h : b.Live rd) (hok : OnlySignals rd a)
    (hs : Fifo.step b a = some r) : r.1.Live rd := by
  obtain ⟨hthreshold, hsize⟩ := Prod.mk.inj (limits_step hs)
  refine ⟨step_inv h.inv hok hs, ?_, step_wakeful h.inv h.threshold h.wakeful hok hs⟩
  rw [hthreshold, hsize]
  exact h.threshold

/-- Nobody waits at first. -/
theorem wakeful_idle : Wakeful 0 0 0 fun _ => .idle where
  readers := ⟨[], ⟨List.nodup_nil, by simp [Pc.waitsRead]⟩, rfl⟩
  writers := ⟨[], ⟨List.nodup_nil, by simp [Pc.waitsWrite]⟩, rfl⟩
  empty := fun _ _ => rfl
  pending := fun _ _ ht => by cases ht

theorem fifoAllocate_live (rd : Thread) {dataSize : ℕ} {hlen : 0 < len ∧ len < 0x80000000}
    {mallocs : ℕ → Bool} {junk : ℕ → FifoItem}
    (h : fifoAllocate len dataSize hlen mallocs junk = some b) : b.Live rd := by
  have hinv := (fifoAllocate_inv rd h).1
  unfold fifoAllocate at h
  split at h
  · cases h
    exact ⟨hinv, Nat.div_le_self len 10, wakeful_idle⟩
  · cases h

/-- In every run of any number of writers and one reader nobody sleeps through the event it waits
for. -/
theorem fifo_no_lost_wakeup {dataSize : ℕ} {hlen : 0 < len ∧ len < 0x80000000}
    {mallocs : ℕ → Bool} {junk : ℕ → FifoItem} {b₀ : Bio} {s : Bio × List Obs}
    (h₀ : fifoAllocate len dataSize hlen mallocs junk = some b₀)
    (h : Steps (traced step) (fun _ => OnlySignals rd) (b₀, []) s) : NoLostWakeup rd s.1 := by
  have hlive : s.1.Live rd := by
    refine Steps.invariant (P := fun s => s.1.Live rd) h (fifoAllocate_live rd h₀) ?_
    intro s a s' hs hok hstep
    obtain ⟨r, hr, rfl⟩ := Option.map_eq_some_iff.mp hstep
    exact hs.step hok hr
  exact hlive.noLostWakeup

end Runs

/-- A queue of one packet with three writers. The read that empties it wakes up the writer 2, and
the reader and the writer 3 are asleep. -/
def threeWriters : List Act :=
  [.write 1 (some [1]) env₀, .write 2 (some [2]) env₀, .write 3 (some [3]) env₀,
    .read 0 (some 5) env₀, .read 0 (some 5) env₀]

theorem fifo_no_lost_wakeup_threeWriters :
    ∃ b₀ b tr, fifoAllocate 1 2 (by decide) (fun _ => true) (fun _ => ⟨0, 0, [0, 0]⟩) = some b₀ ∧
      Steps (traced step) (fun _ => OnlySignals 0) (b₀, []) (b, tr) ∧
      [0, 1, 2, 3].map b.pc = [.readSleep 5 none, .idle, .writeReady [2], .writeSleep [3]] ∧
      NoLostWakeup 0 b := by
  have hrun : ((fifoAllocate 1 2 (by decide) (fun _ => true) (fun _ => ⟨0, 0, [0, 0]⟩)).bind
      fun b => runOk (traced step) (fun _ => OnlySignals 0) threeWriters (b, [])).map
        (fun s => [0, 1, 2, 3].map s.1.pc)
        = some [.readSleep 5 none, .idle, .writeReady [2], .writeSleep [3]] := by decide +kernel
  obtain ⟨⟨b, tr⟩, hs, hpc⟩ := Option.map_eq_some_iff.mp hrun
  obtain ⟨b₀, hb₀, hs⟩ := Option.bind_eq_some_iff.mp hs
  have hsteps := Steps.of_runOk .refl hs
  exact ⟨b₀, b, tr, hb₀, hsteps, hpc, fifo_no_lost_wakeup hb₀ hsteps⟩

end Fifo
end Campagnol
