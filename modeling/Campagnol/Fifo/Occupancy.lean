import Campagnol.Fifo.Refinement

/-!
# The occupancy of the FIFO BIO

A reader tests the queue once and waits once. When its wait ends without a timeout it takes a
packet, whether there is one or not: after a spurious wake-up, or when another reader was faster,
the counter of the packets wraps around (`occupancy_broken`). In every run in which that does not
happen the counter is right and every packet that is returned has been written, and is returned once
(`occupancy_of_steps`): with any number of readers and writers, with spurious wake-ups, and with
resets of the BIO.
-/

namespace Campagnol
namespace Fifo

/-- A reader whose wait has ended without a timeout finds a packet. -/
def FindsPacket (b : Bio) : Act → Prop
  | .resume t _ =>
    match b.pc t with
    | .readReady _ false => 0 < b.d.nelem
    | _ => True
  | _ => True

instance (b : Bio) : ∀ a, Decidable (FindsPacket b a)
  | .resume t _ =>
    match h : b.pc t with
    | .readReady _ false =>
      decidable_of_iff (0 < b.d.nelem) (by simp only [FindsPacket, h])
    | .readReady _ true => .isTrue (by simp only [FindsPacket, h])
    | .idle | .readSleep _ _ | .writeSleep _ | .writeReady _ =>
      .isTrue (by simp only [FindsPacket, h])
  | .read _ _ _ | .write _ _ _ | .expire _ | .spurious _ | .ctrl _ => .isTrue trivial

/-- What a step does to the ring buffer, and what it shows. -/
inductive CoreChange (c : Core) (o : Obs) (c' : Core) : Prop where
  | same (droptail : ℤ) (hin : o.packetIn = none) (hout : o.packetOut = none)
      (hc : c' = { c with droptail := droptail })
  | push (item : FifoItem) (hroom : c.nelem ≠ c.size) (hitem : item.size ≤ item.data.length)
      (hin : o.packetIn = some item.packet) (hout : o.packetOut = none) (hc : c' = c.push item)
  | pop (outl : ℕ) (hpos : 0 < c.nelem) (hin : o.packetIn = none)
      (hout : o.packetOut = some (outl, (c.fifo c.indexRead).packet.take outl)) (hc : c' = c.pop)
  | reset (hin : o.packetIn = none) (hout : o.packetOut = none)
      (hc : c' = { c with indexRead := 0, indexWrite := 0, nelem := 0 })

/-- The result of a step from a ring buffer `c`. -/
def Changes (c : Core) (r : Bio × Obs) : Prop := CoreChange c r.2 r.1.d.core

section Steps
variable {b b' : Bio} {c : Core} {t : Thread} {outl : ℕ} {buf : Bytes} {env : Env} {pick : ℕ}
  {a : Act} {r : Bio × Obs}

theorem changes_readFinish {timedOut : Bool} (hc : b.d.core = c)
    (h : timedOut = false → 0 < c.nelem) : Changes c (b.readFinish t outl timedOut pick) := by
  subst hc
  cases timedOut with
  | true => exact .same b.d.droptail rfl rfl rfl
  | false =>
    obtain ⟨hcore, hobs⟩ := readFinish_delivered b t outl pick
    refine .pop outl (h rfl) ?_ ?_ hcore
    · rw [hobs]
      rfl
    · rw [hobs]
      rfl

theorem changes_writeFinish (hc : b.d.core = c) (hroom : c.nelem ≠ c.size) :
    Changes c (b.writeFinish t buf env) := by
  subst hc
  obtain ⟨hpacket, hfilled⟩ := packet_store (b.d.fifo b.d.indexWrite) buf env.malloc
  refine .push ((b.d.fifo b.d.indexWrite).store buf env.malloc) hroom hfilled ?_ rfl ?_
  · rw [hpacket]
    rfl
  · simp only [Bio.writeFinish]
    split
    · rw [core_conditionSignal, core_putItem]
    · exact core_putItem _

theorem changes_fifoRead : Changes b.d.core (b.fifoRead t outl env) := by
  unfold Bio.fifoRead
  split
  · obtain ⟨rcv, curr, hadjust⟩ := adjustRcvTimeout_eq
      { b.d with waitingRead := b.d.waitingRead + 1 } env.now
    rw [hadjust]
    exact .same b.d.droptail rfl rfl rfl
  · rename_i hne
    exact changes_readFinish rfl fun _ => Nat.pos_of_ne_zero hne

theorem changes_fifoReadResume {timedOut : Bool} (h : timedOut = false → 0 < b.d.nelem) :
    Changes b.d.core (b.fifoReadResume t outl timedOut pick) := by
  obtain ⟨curr, hreset⟩ := resetRcvTimeout_eq b.d
  unfold Bio.fifoReadResume
  rw [hreset]
  exact changes_readFinish rfl h

theorem changes_fifoWrite : Changes b.d.core (b.fifoWrite t buf env) := by
  unfold Bio.fifoWrite
  split
  · exact .same b.d.droptail rfl rfl rfl
  · split
    · exact .same b.d.droptail rfl rfl rfl
    · rename_i hroom
      exact changes_writeFinish rfl hroom

theorem changes_fifoWriteResume : Changes b.d.core (b.fifoWriteResume t buf env) := by
  unfold Bio.fifoWriteResume
  dsimp only
  split
  · exact .same b.d.droptail rfl rfl rfl
  · rename_i hroom
    exact changes_writeFinish rfl hroom

theorem changes_fifoCtrl (cmd : Ctrl) : Changes b.d.core (b.fifoCtrl cmd) := by
  cases cmd with
  | reset => exact .reset rfl rfl rfl
  | fifoSetDroptail num => exact .same num rfl rfl rfl
  | _ => exact .same b.d.droptail rfl rfl rfl

/-- One step of the BIO and its threads. -/
theorem changes_of_step (hok : FindsPacket b a) (hs : step b a = some r) :
    Changes b.d.core r := by
  cases a with
  | read t out env =>
    simp only [step] at hs
    split at hs
    · cases out with
      | none =>
        cases hs
        exact .same b.d.droptail rfl rfl rfl
      | some outl =>
        cases hs
        exact changes_fifoRead
    · cases hs
  | write t buf env =>
    simp only [step] at hs
    split at hs
    · cases buf with
      | none =>
        cases hs
        exact .same b.d.droptail rfl rfl rfl
      | some buf =>
        cases hs
        exact changes_fifoWrite
    · cases hs
  | resume t env =>
    simp only [step] at hs
    simp only [FindsPacket] at hok
    split at hs
    · rename_i outl timedOut hpc
      cases hs
      refine changes_fifoReadResume ?_
      rintro rfl
      rw [hpc] at hok
      exact hok
    · cases hs
      exact changes_fifoWriteResume
    · cases hs
  | expire t =>
    simp only [step] at hs
    split at hs
    · cases hs
      exact .same b.d.droptail rfl rfl rfl
    · cases hs
  | spurious t =>
    simp only [step] at hs
    split at hs
    · cases hs
      exact .same b.d.droptail rfl rfl rfl
    · cases hs
      exact .same b.d.droptail rfl rfl rfl
    · cases hs
  | ctrl cmd =>
    cases hs
    exact changes_fifoCtrl cmd

end Steps

/-! ## Runs -/

/-- The counter is right, and the packets that have been returned or are in the queue have been
written, each for itself and in this order. -/
structure Occupancy (b : Bio) (tr : List Obs) : Prop where
  nelem_le : b.d.nelem ≤ b.d.size
  returned : ∃ taken, (taken ++ b.queue.items).Sublist (acceptedPackets tr) ∧
    List.Forall₂ Delivers (deliveries tr) taken

section Runs
variable {c c' : Core} {o : Obs} {tr : List Obs} {taken : List Bytes}

theorem CoreChange.ok (h : CoreChange c o c') (hc : c.Ok) : c'.Ok := by
  cases h with
  | same droptail hin hout heq =>
    subst heq
    exact ⟨hc.size_pos, hc.size_lt, hc.nelem_le, hc.read_lt, hc.write_eq, hc.filled⟩
  | push item hroom hitem hin hout heq =>
    subst heq
    exact hc.push (Nat.lt_of_le_of_ne hc.nelem_le hroom) hitem
  | pop outl hpos hin hout heq =>
    subst heq
    exact hc.pop hpos
  | reset hin hout heq =>
    subst heq
    exact ⟨hc.size_pos, hc.size_lt, Nat.zero_le _, hc.size_pos, (Nat.zero_mod _).symm, by
      simp [Core.stored, Ring.contents]⟩

/-- A step keeps the account of the packets. -/
theorem CoreChange.returned (h : CoreChange c o c') (hc : c.Ok)
    (hr : ∃ taken, (taken ++ c.queue.items).Sublist (acceptedPackets tr) ∧
      List.Forall₂ Delivers (deliveries tr) taken) :
    ∃ taken, (taken ++ c'.queue.items).Sublist (acceptedPackets (tr ++ [o])) ∧
      List.Forall₂ Delivers (deliveries (tr ++ [o])) taken := by
  obtain ⟨taken, hsub, hdel⟩ := hr
  simp only [acceptedPackets, deliveries, List.filterMap_append, List.filterMap_cons,
    List.filterMap_nil] at hsub hdel ⊢
  cases h with
  | same droptail hin hout heq =>
    subst heq
    rw [hin, hout]
    refine ⟨taken, ?_, ?_⟩
    · rw [List.append_nil]
      exact hsub
    · rw [List.append_nil]
      exact hdel
  | push item hroom hitem hin hout heq =>
    subst heq
    have hqueue : (c.push item).queue = { c.queue with items := c.queue.items ++ [item.packet] } :=
      hc.queue_push (Nat.lt_of_le_of_ne hc.nelem_le hroom)
    rw [hin, hout, hqueue]
    refine ⟨taken, ?_, ?_⟩
    · rw [← List.append_assoc]
      exact hsub.append (List.Sublist.refl _)
    · rw [List.append_nil]
      exact hdel
  | pop outl hpos hin hout heq =>
    subst heq
    obtain ⟨ps, hitems, hqueue⟩ := hc.queue_pop hpos
    rw [hin, hout, hqueue]
    refine ⟨taken ++ [(c.fifo c.indexRead).packet], ?_, ?_⟩
    · rw [hitems] at hsub
      simpa using hsub
    · exact List.rel_append hdel (.cons rfl .nil)
  | reset hin hout heq =>
    subst heq
    rw [hin, hout]
    refine ⟨taken, ?_, ?_⟩
    · have hempty :
          ({ c with indexRead := 0, indexWrite := 0, nelem := 0 } : Core).queue.items = [] := by
        rw [← List.length_eq_zero_iff, Core.items_length]
      rw [hempty, List.append_nil, List.append_nil]
      exact (List.sublist_append_left _ _).trans hsub
    · rw [List.append_nil]
      exact hdel

/-- In every run of any number of readers and writers in which no reader takes a packet from an
empty queue, the counter stays between 0 and the size, and only packets that have been written and
not yet returned are returned. -/
theorem occupancy_of_steps {len dataSize : ℕ} {hlen : 0 < len ∧ len < 0x80000000}
    {mallocs : ℕ → Bool} {junk : ℕ → FifoItem} {b₀ : Bio} {s : Bio × List Obs}
    (h₀ : fifoAllocate len dataSize hlen mallocs junk = some b₀)
    (h : Steps (traced step) (fun s => FindsPacket s.1) (b₀, []) s) : Occupancy s.1 s.2 := by
  obtain ⟨hinv, husage⟩ := fifoAllocate_inv 0 h₀
  have hqueue : b₀.queue = ⟨len, [], 0⟩ := congrArg Usage.queue husage
  have hrun : s.1.d.core.Ok ∧ ∃ taken, (taken ++ s.1.queue.items).Sublist (acceptedPackets s.2) ∧
      List.Forall₂ Delivers (deliveries s.2) taken := by
    refine Steps.invariant (P := fun s => s.1.d.core.Ok ∧
      ∃ taken, (taken ++ s.1.queue.items).Sublist (acceptedPackets s.2) ∧
        List.Forall₂ Delivers (deliveries s.2) taken) h ⟨hinv.core, [], ?_, .nil⟩ ?_
    · rw [hqueue]
      exact List.Sublist.refl _
    · intro t e u ht hok hu
      obtain ⟨r, hs, rfl⟩ := Option.map_eq_some_iff.mp hu
      have hchange := changes_of_step hok hs
      exact ⟨CoreChange.ok hchange ht.1, CoreChange.returned hchange ht.1 ht.2⟩
  exact ⟨hrun.1.nelem_le, hrun.2⟩

end Runs

/-- Two readers and a queue of one packet. The wait of the reader 0 ends by itself, and the packet
it finds has been written in the meantime. The reader 1 is signalled. -/
def twoReaders : List Act :=
  [.read 0 (some 5) env₀, .spurious 0, .write 2 (some [1, 2]) env₀, .resume 0 env₀,
    .read 1 (some 5) env₀, .write 2 (some [3]) env₀, .resume 1 env₀]

def twoReadersShow : List Obs :=
  [.readWaits 0, .unslept 0, .accepted 2 [1, 2], .delivered 0 5 [1, 2], .readWaits 1,
    .accepted 2 [3], .delivered 1 5 [3]]

theorem occupancy_of_steps_twoReaders :
    ∃ b₀ b, fifoAllocate 1 2 (by decide) (fun _ => true) (fun _ => ⟨0, 0, [0, 0]⟩) = some b₀ ∧
      Steps (traced step) (fun s => FindsPacket s.1) (b₀, []) (b, twoReadersShow) ∧
      Occupancy b twoReadersShow := by
  have hrun : ((fifoAllocate 1 2 (by decide) (fun _ => true) (fun _ => ⟨0, 0, [0, 0]⟩)).bind
      fun b => runOk (traced step) (fun s => FindsPacket s.1) twoReaders (b, [])).map (·.2)
        = some twoReadersShow := by decide +kernel
  obtain ⟨⟨b, tr⟩, hs, htr⟩ := Option.map_eq_some_iff.mp hrun
  obtain ⟨b₀, hb₀, hs⟩ := Option.bind_eq_some_iff.mp hs
  obtain rfl : tr = twoReadersShow := htr
  have hsteps := Steps.of_runOk .refl hs
  exact ⟨b₀, b, hb₀, hsteps, occupancy_of_steps hb₀ hsteps⟩

/-- The step is a spurious wake-up. -/
def Act.isSpurious : Act → Bool
  | .spurious _ => true
  | _ => false

/-- The wait of the reader 0 ends by itself while the queue is empty. -/
def spuriousRead : List Act := [.read 0 (some 5) env₀, .spurious 0, .resume 0 env₀]

/-- The reader 0 is signalled for a packet, and the reader 1 takes it. -/
def stolenPacket : List Act :=
  [.read 0 (some 5) env₀, .write 2 (some [1]) env₀, .read 1 (some 5) env₀, .resume 0 env₀]

theorem broken_of_runOk {ok : Bio × List Obs → Act → Prop} [∀ s a, Decidable (ok s a)]
    (acts : List Act) {b₀ : Bio} {tr : List Obs}
    (h : (runOk (traced step) ok acts (b₀, [])).map (fun s => (s.2, s.1.d.nelem, s.1.d.size)) =
      some (tr, 0xFFFFFFFF, 1)) :
    ∃ b, Steps (traced step) ok (b₀, []) (b, tr) ∧ b.d.nelem = 0xFFFFFFFF ∧ ¬ Occupancy b tr := by
  obtain ⟨⟨b, tr'⟩, hs, heq⟩ := Option.map_eq_some_iff.mp h
  simp only [Prod.mk.injEq] at heq
  obtain ⟨rfl, hnelem, hsize⟩ := heq
  refine ⟨b, Steps.of_runOk .refl hs, hnelem, fun hok => ?_⟩
  have hle := hok.nelem_le
  omega

/-- A reader returns a packet that nobody has written, or one that has been returned before, and
there are `2 ^ 32 - 1` packets in a queue of one: after a spurious wake-up, and without one. -/
theorem occupancy_broken :
    ∃ b₀, fifoAllocate 1 2 (by decide) (fun _ => true) (fun _ => ⟨0, 0, [0, 0]⟩) = some b₀ ∧
      (∃ b, Steps (traced step) (fun _ _ => True) (b₀, [])
          (b, [.readWaits 0, .unslept 0, .delivered 0 5 []]) ∧ b.d.nelem = 0xFFFFFFFF ∧
        ¬ Occupancy b [.readWaits 0, .unslept 0, .delivered 0 5 []]) ∧
      ∃ b, Steps (traced step) (fun _ a => a.isSpurious = false) (b₀, [])
          (b, [.readWaits 0, .accepted 2 [1], .delivered 1 5 [1], .delivered 0 5 [1]]) ∧
        b.d.nelem = 0xFFFFFFFF ∧
        ¬ Occupancy b [.readWaits 0, .accepted 2 [1], .delivered 1 5 [1], .delivered 0 5 [1]] := by
  refine ⟨_, rfl, ?_, ?_⟩
  · exact broken_of_runOk spuriousRead (by decide +kernel)
  · exact broken_of_runOk stolenPacket (by decide +kernel)

end Fifo
end Campagnol
