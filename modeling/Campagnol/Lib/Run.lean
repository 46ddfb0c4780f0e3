import Mathlib.Tactic.Common

/-!
# Runs of a state machine

A machine is a partial step function: `step s e = none` when the event `e` cannot happen
in `s`. `Steps step ok s t` says that some run leads from `s` to `t` in which every step
is taken in a state and by an event that satisfy `ok`.
-/

namespace Campagnol

variable {σ ε : Type}

/-- A run whose steps all satisfy `ok`. -/
inductive Steps (step : σ → ε → Option σ) (ok : σ → ε → Prop) (s : σ) : σ → Prop
  | refl : Steps step ok s s
  | tail {t u : σ} {e : ε} : Steps step ok s t → ok t e → step t e = some u → Steps step ok s u

namespace Steps
variable {step : σ → ε → Option σ} {ok : σ → ε → Prop} {s t u : σ}

/-- The invariant rule: what every step keeps holds after every run. -/
theorem invariant {P : σ → Prop} (h : Steps step ok s t) (h0 : P s)
    (hstep : ∀ t e u, P t → ok t e → step t e = some u → P u) : P t := by
  induction h with
  | refl => exact h0
  | tail _ hok hs ih => exact hstep _ _ _ ih hok hs

/-- Runs by some of the events, and under a stronger condition, are runs. -/
theorem of_events {δ : Type} {ok' : σ → δ → Prop} (f : δ → ε)
    (h : Steps (fun s d => step s (f d)) ok' s t) (hok : ∀ s d, ok' s d → ok s (f d)) :
    Steps step ok s t := by
  induction h with
  | refl => exact .refl
  | tail _ hd hs ih => exact ih.tail (hok _ _ hd) hs

end Steps

/-- Run a list of events. -/
def run (step : σ → ε → Option σ) : List ε → σ → Option σ
  | [], s => some s
  | e :: es, s =>
    match step s e with
    | some t => run step es t
    | none => none

/-- Run a list of events, checking `ok` before each of them. -/
def runOk (step : σ → ε → Option σ) (ok : σ → ε → Prop) [∀ s e, Decidable (ok s e)] :
    List ε → σ → Option σ
  | [], s => some s
  | e :: es, s =>
    if ok s e then
      match step s e with
      | some t => runOk step ok es t
      | none => none
    else none

theorem Steps.of_runOk {step : σ → ε → Option σ} {ok : σ → ε → Prop}
    [∀ s e, Decidable (ok s e)] {es : List ε} {s₀ s t : σ} (h₀ : Steps step ok s₀ s)
    (h : runOk step ok es s = some t) : Steps step ok s₀ t := by
  induction es generalizing s with
  | nil =>
    obtain rfl : s = t := by simpa [runOk] using h
    exact h₀
  | cons e es ih =>
    simp only [runOk] at h
    split at h
    · rename_i hok
      split at h
      · rename_i u hu
        exact ih (h₀.tail hok hu) h
      · cases h
    · cases h

/-- A list of events that can be run is a run. -/
theorem Steps.of_run {step : σ → ε → Option σ} {es : List ε} {s₀ s t : σ}
    (h₀ : Steps step (fun _ _ => True) s₀ s) (h : run step es s = some t) :
    Steps step (fun _ _ => True) s₀ t := by
  induction es generalizing s with
  | nil =>
    obtain rfl : s = t := by simpa [run] using h
    exact h₀
  | cons e es ih =>
    simp only [run] at h
    split at h
    · rename_i u hu
      exact ih (h₀.tail trivial hu) h
    · cases h

/-! ## Progress -/

/-- Every run from `s` whose steps satisfy `ok` and change the state gets to `P`, and until then
there is such a step. -/
inductive Inevitable (step : σ → ε → Option σ) (ok : σ → ε → Prop) (P : σ → Prop) : σ → Prop
  | here {s : σ} (h : P s) : Inevitable step ok P s
  | ahead {s : σ} (hmoves : ∃ e t, ok s e ∧ step s e = some t ∧ t ≠ s)
      (h : ∀ e t, ok s e → step s e = some t → t ≠ s → Inevitable step ok P t) :
      Inevitable step ok P s

/-- The measure rule: where `I` holds some step changes the state, and every such step gets to `P`
or keeps `I` with a smaller measure. -/
theorem Inevitable.of_measure {step : σ → ε → Option σ} {ok : σ → ε → Prop} {P I : σ → Prop}
    (μ : σ → ℕ) (hmoves : ∀ s, I s → ∃ e t, ok s e ∧ step s e = some t ∧ t ≠ s)
    (hless : ∀ s e t, I s → ok s e → step s e = some t → t ≠ s → P t ∨ I t ∧ μ t < μ s)
    {s : σ} (hs : I s) : Inevitable step ok P s := by
  induction hn : μ s using Nat.strongRecOn generalizing s with
  | ind n ih =>
    refine .ahead (hmoves s hs) fun e t hok hstep hne => ?_
    rcases hless s e t hs hok hstep hne with hP | ⟨ht, hlt⟩
    · exact .here hP
    · exact ih (μ t) (hn ▸ hlt) ht rfl

/-! ## History -/

/-- A machine with the steps it has taken so far in its state: every event, with the state it
was taken in. -/
def recorded (step : σ → ε → Option σ) (s : σ × List (σ × ε)) (e : ε) :
    Option (σ × List (σ × ε)) :=
  (step s.1 e).map fun t => (t, s.2 ++ [(s.1, e)])

/-- The invariant rule for a state and its history. -/
theorem Steps.recorded_invariant {step : σ → ε → Option σ} {ok : σ × List (σ × ε) → ε → Prop}
    {s₀ : σ} {s : σ × List (σ × ε)} {P : σ → List (σ × ε) → Prop}
    (h : Steps (recorded step) ok (s₀, []) s) (h₀ : P s₀ [])
    (hstep : ∀ t tr e u, P t tr → ok (t, tr) e → step t e = some u → P u (tr ++ [(t, e)])) :
    P s.1 s.2 := by
  refine Steps.invariant (P := fun s => P s.1 s.2) h h₀ ?_
  intro t e u ht hok hu
  obtain ⟨v, hv, rfl⟩ := Option.map_eq_some_iff.mp hu
  exact hstep _ _ _ _ ht hok hv

/-! ## Outputs -/

variable {τ ω : Type}

/-- A machine with outputs, with all that it has shown so far in its state. -/
def traced (step : σ → ε → Option (σ × ω)) (s : σ × List ω) (e : ε) : Option (σ × List ω) :=
  (step s.1 e).map fun r => (r.1, s.2 ++ [r.2])

/-- A run of a labelled transition relation, with its labels. -/
inductive LabelledRun (next : τ → ω → τ → Prop) (q : τ) : List ω → τ → Prop
  | nil : LabelledRun next q [] q
  | snoc {tr : List ω} {o : ω} {q₁ q₂ : τ} :
      LabelledRun next q tr q₁ → next q₁ o q₂ → LabelledRun next q (tr ++ [o]) q₂

/-- The simulation rule: when every step of a machine shows what a step of the abstract
system shows, every run of the machine shows what a run of the abstract system shows. -/
theorem Steps.simulates {step : σ → ε → Option (σ × ω)} {ok : σ × List ω → ε → Prop}
    {next : τ → ω → τ → Prop} {s₀ : σ} {s : σ × List ω}
    (h : Steps (traced step) ok (s₀, []) s) (abs : σ → τ) (inv : σ → Prop) (h₀ : inv s₀)
    (hstep : ∀ s tr e t o, inv s → ok (s, tr) e → step s e = some (t, o) →
      inv t ∧ next (abs s) o (abs t)) :
    inv s.1 ∧ LabelledRun next (abs s₀) s.2 (abs s.1) := by
  refine Steps.invariant (P := fun s => inv s.1 ∧ LabelledRun next (abs s₀) s.2 (abs s.1)) h
    ⟨h₀, .nil⟩ ?_
  intro t e u ht hok hu
  obtain ⟨t, tr⟩ := t
  simp only [traced, Option.map_eq_some_iff] at hu
  obtain ⟨⟨v, o⟩, hv, rfl⟩ := hu
  obtain ⟨hinv, hnext⟩ := hstep t tr e v o ht.1 hok hv
  exact ⟨hinv, ht.2.snoc hnext⟩

end Campagnol
