import Campagnol.Fifo.Bio
import Campagnol.Lib.Run
import Mathlib.Data.List.Forall2

/-!
# Bounded queues

What the FIFO BIO is for: a queue of at most `bound` packets between writers and a reader.
`Usage.Step` says which results a caller can see in which state of the queue and of its call, and
`Usage.deliveries_of_run` what follows for a whole run: packets come out as they went in.
-/

namespace Campagnol
namespace Fifo

/-- A queue of packets. -/
structure Queue where
  bound : ℕ
  items : List Bytes
  droptail : ℤ

namespace Queue

/-- No room for another packet. -/
def Full (q : Queue) : Prop := q.items.length = q.bound

/-- The number of bytes in the queue. -/
def bytes (q : Queue) : ℕ := q.items.flatten.length

/-- The answers to the commands that look at the queue. -/
def Answers (q : Queue) : Ctrl → ℤ → Prop
  | .eof, ret => ret = if q.items = [] then 1 else 0
  | .pending, ret => ret = q.bytes
  | .fifoGetDroptail, ret => ret = q.droptail
  | _, _ => True

/-- The queue after a command. -/
def ctrl (q : Queue) : Ctrl → Queue
  | .fifoSetDroptail num => { q with droptail := num }
  | .reset => { q with items := [] }
  | _ => q

end Queue

/-! ## The queue and its callers -/

/-- Where a thread stands in its call. -/
inductive Call
  | none
  | reading (outl : ℕ)
  /-- The timeout of the read has expired. -/
  | expired (outl : ℕ)
  | writing (buf : Bytes)

/-- A queue and the calls that wait for it. -/
structure Usage where
  queue : Queue
  call : Thread → Call

namespace Usage

/-- The queue is empty, and nobody waits. -/
def init (bound : ℕ) : Usage := ⟨⟨bound, [], 0⟩, fun _ => .none⟩

/-- The thread `t` goes on to `c`. -/
def goto (u : Usage) (t : Thread) (c : Call) : Usage :=
  { u with call := Function.update u.call t c }

/-- The call of `t` returns, and the packets are `items`. -/
def returns (u : Usage) (t : Thread) (items : List Bytes) : Usage :=
  ⟨{ u.queue with items := items }, Function.update u.call t .none⟩

/-- One step of the queue and what it shows. A read waits on an empty queue only, and returns with
the first packet, or without one after its timeout has expired in the wait. -/
inductive Step : Usage → Obs → Usage → Prop
  | accepted {u : Usage} (t : Thread) (p : Bytes) (hcall : u.call t = .none ∨ u.call t = .writing p)
      (hroom : u.queue.items.length < u.queue.bound) :
      Step u (.accepted t p) (u.returns t (u.queue.items ++ [p]))
  | discarded {u : Usage} (t : Thread) (p : Bytes) (hcall : u.call t = .none) (hfull : u.queue.Full)
      (hdrop : u.queue.droptail ≠ 0) : Step u (.discarded t p) u
  | writeWaits {u : Usage} (t : Thread) (p : Bytes) (hcall : u.call t = .none)
      (hfull : u.queue.Full) (hdrop : u.queue.droptail = 0) :
      Step u (.writeWaits t) (u.goto t (.writing p))
  | writeStillWaits {u : Usage} (t : Thread) {p : Bytes} (hcall : u.call t = .writing p)
      (hfull : u.queue.Full) : Step u (.writeStillWaits t) u
  | delivered {u : Usage} (t : Thread) (outl : ℕ) {p : Bytes} {ps : List Bytes}
      (hcall : u.call t = .none ∨ u.call t = .reading outl) (hitems : u.queue.items = p :: ps) :
      Step u (.delivered t outl (p.take outl)) (u.returns t ps)
  | readWaits {u : Usage} (t : Thread) (outl : ℕ) (hcall : u.call t = .none)
      (hempty : u.queue.items = []) : Step u (.readWaits t) (u.goto t (.reading outl))
  | expires {u : Usage} (t : Thread) {outl : ℕ} (hcall : u.call t = .reading outl) :
      Step u (.unslept t) (u.goto t (.expired outl))
  | timedOut {u : Usage} (t : Thread) {outl : ℕ} (hcall : u.call t = .expired outl) :
      Step u (.timedOut t) (u.goto t .none)
  | noBuffer {u : Usage} (t : Thread) (hcall : u.call t = .none) : Step u (.noBuffer t) u
  | ctrl {u : Usage} (cmd : Ctrl) (hcmd : cmd ≠ .reset) {ret : ℤ} (tv : Option Timeval)
      (h : u.queue.Answers cmd ret) :
      Step u (.ctrl cmd ret tv) { u with queue := u.queue.ctrl cmd }

end Usage

/-- The packet a step stores, if it does. -/
def Obs.packetIn : Obs → Option Bytes
  | .accepted _ p => some p
  | _ => none

/-- The buffer size and the bytes of a successful read. -/
def Obs.packetOut : Obs → Option (ℕ × Bytes)
  | .delivered _ outl out => some (outl, out)
  | _ => none

/-- The packets stored in a run, in order. -/
def acceptedPackets (tr : List Obs) : List Bytes := tr.filterMap Obs.packetIn

/-- The successful reads of a run, in order. -/
def deliveries (tr : List Obs) : List (ℕ × Bytes) := tr.filterMap Obs.packetOut

/-- A read with a buffer of `d.1` bytes that returns `d.2` has been given the packet `p`. -/
def Delivers (d : ℕ × Bytes) (p : Bytes) : Prop := d.2 = p.take d.1

/-- The packet behind the `k`-th read. -/
theorem delivers_getElem {ds : List (ℕ × Bytes)} {ps : List Bytes} {d : ℕ × Bytes} {k : ℕ}
    (h : List.Forall₂ Delivers ds ps) (hk : ds[k]? = some d) :
    ∃ p, ps[k]? = some p ∧ Delivers d p := by
  induction h generalizing k with
  | nil => simp at hk
  | cons hd _ ih =>
    cases k with
    | zero =>
      obtain rfl : _ = d := by simpa using hk
      exact ⟨_, rfl, hd⟩
    | succ k => exact ih (by simpa using hk)

namespace Usage
variable {u u' : Usage} {o : Obs} {tr : List Obs}

theorem goto_self {t : Thread} {c : Call} (h : u.call t = c) : u.goto t c = u := by
  subst h
  simp only [goto, Function.update_eq_self]

/-- One step: either a packet is appended, or the first packet is taken, or the packets
stay as they are. -/
theorem Step.packets (h : Step u o u') :
    (∃ p, o.packetIn = some p ∧ o.packetOut = none ∧ u'.queue.items = u.queue.items ++ [p]) ∨
    (∃ d p, o.packetIn = none ∧ o.packetOut = some d ∧ Delivers d p ∧
      u.queue.items = p :: u'.queue.items) ∨
    (o.packetIn = none ∧ o.packetOut = none ∧ u'.queue.items = u.queue.items) := by
  cases h with
  | accepted t p => exact .inl ⟨p, rfl, rfl, rfl⟩
  | delivered t outl _ h => exact .inr (.inl ⟨_, _, rfl, rfl, rfl, h⟩)
  | ctrl cmd hcmd =>
    refine .inr (.inr ⟨rfl, rfl, ?_⟩)
    cases cmd <;> first | rfl | exact absurd rfl hcmd
  | _ => exact .inr (.inr ⟨rfl, rfl, rfl⟩)

theorem bound_of_run (h : LabelledRun Step u tr u') : u'.queue.bound = u.queue.bound := by
  induction h with
  | nil => rfl
  | snoc _ hstep ih =>
    rw [← ih]
    cases hstep with
    | ctrl cmd => cases cmd <;> rfl
    | _ => rfl

/-- Whatever has been stored has been delivered, in order, or is still in the queue. -/
theorem deliveries_of_run (hu : u.queue.items = []) (h : LabelledRun Step u tr u') :
    ∃ taken, acceptedPackets tr = taken ++ u'.queue.items ∧
      List.Forall₂ Delivers (deliveries tr) taken := by
  induction h with
  | nil => exact ⟨[], by simp [acceptedPackets, hu], .nil⟩
  | snoc _ hstep ih =>
    obtain ⟨taken, hin, hout⟩ := ih
    simp only [acceptedPackets, deliveries, List.filterMap_append, List.filterMap_cons,
      List.filterMap_nil] at hin hout ⊢
    obtain ⟨p, hi, ho, hitems⟩ | ⟨d, p, hi, ho, hd, hitems⟩ | ⟨hi, ho, hitems⟩ := hstep.packets
    · refine ⟨taken, ?_, ?_⟩
      · simp [hi, hin, hitems]
      · simpa [ho] using hout
    · refine ⟨taken ++ [p], ?_, ?_⟩
      · simp [hi, hin, hitems]
      · simpa [ho] using List.rel_append hout (.cons hd .nil)
    · refine ⟨taken, ?_, ?_⟩
      · simp [hi, hin, hitems]
      · simpa [ho] using hout

end Usage
end Fifo
end Campagnol
