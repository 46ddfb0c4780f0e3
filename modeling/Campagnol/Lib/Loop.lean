import Mathlib.Tactic.Common

/-!
# Loops with a bound

A loop that is given the number of times it may go round. Where every time round makes a measure
smaller, or is the last one, a bound above the measure is no bound at all.

* `IsLoop.stops`: the loop ends by its test;
* `IsLoop.ends`: so does the loop without the bound;
* `IsLoop.eq_of_lt`: the bound does not matter;
* `IsLoop.simulates`: two loops whose bodies keep a relation end in related states;
* `IsLoop.simulates_while`: the bodies keep it only while a property holds.
-/

namespace Campagnol

variable {σ τ : Type}

/-- `loop n` goes round at most `n` times, with the body `body`, until `stop`. -/
structure IsLoop (loop : ℕ → σ → σ) (stop : σ → Prop) (body : σ → σ) (size : σ → ℕ) : Prop where
  zero : ∀ v, loop 0 v = v
  stopped : ∀ n v, stop v → loop n v = v
  round : ∀ n v, ¬ stop v → loop (n + 1) v = loop n (body v)
  decreases : ∀ v, ¬ stop v → stop (body v) ∨ size (body v) < size v

/-- A loop without a bound: with the body `body` it comes from `v` to its end `w`. -/
inductive Ends (stop : σ → Prop) (body : σ → σ) : σ → σ → Prop where
  | stop {v : σ} : stop v → Ends stop body v v
  | round {v w : σ} : ¬ stop v → Ends stop body (body v) w → Ends stop body v w

namespace IsLoop
variable {loop : ℕ → σ → σ} {stop : σ → Prop} {body : σ → σ} {size : σ → ℕ} {n m : ℕ} {v : σ}

/-- A loop with its test at the start. -/
theorem of_ite [DecidablePred stop] (hzero : ∀ v, loop 0 v = v)
    (hsucc : ∀ n v, loop (n + 1) v = if stop v then v else loop n (body v))
    (hsize : ∀ v, stop (body v) ∨ size (body v) < size v) : IsLoop loop stop body size where
  zero := hzero
  stopped := fun n v hv => by
    cases n with
    | zero => exact hzero v
    | succ n => rw [hsucc, if_pos hv]
  round := fun n v hv => by rw [hsucc, if_neg hv]
  decreases := fun v _ => hsize v

theorem stops (h : IsLoop loop stop body size) (hn : size v < n) : stop (loop n v) := by
  induction n generalizing v with
  | zero => omega
  | succ n ih =>
    by_cases hv : stop v
    · rw [h.stopped _ _ hv]
      exact hv
    · rw [h.round n v hv]
      rcases h.decreases v hv with hstop | hlt
      · rw [h.stopped _ _ hstop]
        exact hstop
      · exact ih (by omega)

/-- With a bound above the measure, the loop does what it does without a bound. -/
theorem ends (h : IsLoop loop stop body size) (hn : size v < n) : Ends stop body v (loop n v) := by
  induction n generalizing v with
  | zero => omega
  | succ n ih =>
    by_cases hv : stop v
    · rw [h.stopped _ _ hv]
      exact .stop hv
    · rw [h.round n v hv]
      refine .round hv ?_
      rcases h.decreases v hv with hstop | hlt
      · rw [h.stopped _ _ hstop]
        exact .stop hstop
      · exact ih (by omega)

/-- What the body keeps holds at the end. -/
theorem invariant {P : σ → Prop} (h : IsLoop loop stop body size) (hv : P v)
    (hbody : ∀ v, ¬ stop v → P v → P (body v)) : P (loop n v) := by
  induction n generalizing v with
  | zero =>
    rw [h.zero]
    exact hv
  | succ n ih =>
    by_cases hstop : stop v
    · rw [h.stopped _ _ hstop]
      exact hv
    · rw [h.round n v hstop]
      exact ih (hbody v hstop hv)

/-- Two loops whose bodies keep a relation. -/
theorem simulates {loop' : ℕ → τ → τ} {stop' : τ → Prop} {body' : τ → τ} {size' : τ → ℕ} {w : τ}
    {R : σ → τ → Prop} (h : IsLoop loop stop body size) (h' : IsLoop loop' stop' body' size')
    (hstop : ∀ v w, R v w → (stop v ↔ stop' w))
    (hbody : ∀ v w, R v w → ¬ stop v → R (body v) (body' w)) (hR : R v w) (hn : size v < n)
    (hm : size' w < m) : R (loop n v) (loop' m w) := by
  induction n generalizing v w m with
  | zero => omega
  | succ n ih =>
    obtain ⟨m, rfl⟩ := Nat.exists_eq_succ_of_ne_zero (Nat.ne_zero_of_lt hm)
    by_cases hv : stop v
    · have hw : stop' w := (hstop v w hR).mp hv
      rw [h.stopped _ _ hv, h'.stopped _ _ hw]
      exact hR
    · have hw : ¬ stop' w := fun hw => hv ((hstop v w hR).mpr hw)
      have hR' := hbody v w hR hv
      rw [h.round n v hv, h'.round m w hw]
      -- both go on, or both have gone round for the last time
      by_cases hv' : stop (body v)
      · have hw' : stop' (body' w) := (hstop _ _ hR').mp hv'
        rw [h.stopped _ _ hv', h'.stopped _ _ hw']
        exact hR'
      · have hw' : ¬ stop' (body' w) := fun hw' => hv' ((hstop _ _ hR').mpr hw')
        have hlt := (h.decreases v hv).resolve_left hv'
        have hlt' := (h'.decreases w hw).resolve_left hw'
        exact ih hR' (by omega) (by omega)

/-- What the body cannot bring back holds at the start when it holds at the end. -/
theorem of_loop {P : σ → Prop} (h : IsLoop loop stop body size)
    (hback : ∀ v, ¬ stop v → P (body v) → P v) (hP : P (loop n v)) : P v := by
  induction n generalizing v with
  | zero =>
    rw [h.zero] at hP
    exact hP
  | succ n ih =>
    by_cases hv : stop v
    · rw [h.stopped _ _ hv] at hP
      exact hP
    · rw [h.round n v hv] at hP
      exact hback v hv (ih hP)

/-- Two loops whose bodies keep a relation as long as `P` holds, which cannot come back. -/
theorem simulates_while {loop' : ℕ → τ → τ} {stop' : τ → Prop} {body' : τ → τ} {size' : τ → ℕ}
    {w : τ} {R : σ → τ → Prop} {P : σ → Prop} (h : IsLoop loop stop body size)
    (h' : IsLoop loop' stop' body' size') (hstop : ∀ v w, R v w → (stop v ↔ stop' w))
    (hback : ∀ v, ¬ stop v → P (body v) → P v)
    (hbody : ∀ v w, R v w → ¬ stop v → P (body v) → R (body v) (body' w)) (hR : R v w)
    (hP : P (loop n v)) : R (loop n v) (loop' n w) := by
  induction n generalizing v w with
  | zero =>
    rw [h.zero, h'.zero]
    exact hR
  | succ n ih =>
    by_cases hv : stop v
    · rw [h.stopped _ _ hv, h'.stopped _ _ ((hstop v w hR).mp hv)]
      exact hR
    · have hw : ¬ stop' w := fun hw => hv ((hstop v w hR).mpr hw)
      rw [h.round n v hv] at hP ⊢
      rw [h'.round n w hw]
      exact ih (hbody v w hR hv (h.of_loop hback hP)) hP

theorem eq_of_lt (h : IsLoop loop stop body size) (hn : size v < n) (hm : size v < m) :
    loop n v = loop m v := by
  refine h.simulates (R := Eq) h ?_ ?_ rfl hn hm
  · rintro v w rfl
    rfl
  · rintro v w rfl _
    rfl

/-- One time round. -/
theorem eq_body (h : IsLoop loop stop body size) (hv : ¬ stop v) (hn : size v < n)
    (hm : size (body v) < m) : loop n v = loop m (body v) := by
  obtain ⟨n, rfl⟩ := Nat.exists_eq_succ_of_ne_zero (Nat.ne_zero_of_lt hn)
  rw [h.round n v hv]
  rcases h.decreases v hv with hstop | hlt
  · rw [h.stopped _ _ hstop, h.stopped _ _ hstop]
  · exact h.eq_of_lt (by omega) hm

end IsLoop
end Campagnol
