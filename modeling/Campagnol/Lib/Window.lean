import Mathlib.Algebra.BigOperators.Group.List.Basic
import Mathlib.Algebra.Order.Ring.Defs
import Mathlib.Tactic.Linarith

/-!
# Sums over windows

A sequence of items with a cost and a time, and a store that pays for them. When every item is paid
from what the store held before and what has come in since the last one, and the store never holds
more than `cap`, then the cost of any run of consecutive items is at most `cap` and what comes in
between the first and the last one (`Window.snoc`). Each item may be off by `slack`.
-/

namespace Campagnol

variable {ι K : Type} [CommRing K]

/-- The cost of some items. -/
def windowCost (cost : ι → K) (w : List ι) : K := (w.map cost).sum

@[simp] theorem windowCost_append (cost : ι → K) (w w' : List ι) :
    windowCost cost (w ++ w') = windowCost cost w + windowCost cost w' := by
  simp [windowCost]

@[simp] theorem windowCost_singleton (cost : ι → K) (a : ι) : windowCost cost [a] = cost a := by
  simp [windowCost]

variable [LinearOrder K]

/-- The cost of the items `w` is within the bound. -/
def WithinBound (cap rate slack : K) (cost time : ι → K) (w : List ι) : Prop :=
  ∀ first last, w.head? = some first → w.getLast? = some last →
    windowCost cost w ≤ cap + rate * (time last - time first) + slack * w.length

/-- All windows of `tr` are within the bound; those that end with `tr` even with what the store
holds, which is `level` at the time `now`. -/
structure Window (cap rate slack : K) (cost time : ι → K) (tr : List ι) (level now : K) : Prop where
  all : ∀ w, w <:+: tr → WithinBound cap rate slack cost time w
  ending : ∀ w first, w <:+ tr → w.head? = some first →
    windowCost cost w + level ≤ cap + rate * (now - time first) + slack * w.length

namespace Window
variable {cap rate slack level level' now : K} {cost time : ι → K} {tr : List ι} {a : ι}

theorem nil : Window cap rate slack cost time [] level now := by
  refine ⟨fun w hw first last hfirst _ => ?_, fun w first hw hfirst => ?_⟩
  · rw [List.infix_nil.mp hw] at hfirst
    cases hfirst
  · rw [List.suffix_nil.mp hw] at hfirst
    cases hfirst

variable [IsStrictOrderedRing K]

/-- Another item: it is paid from the store and what has come in, and from a full store at most. -/
theorem snoc (h : Window cap rate slack cost time tr level now) (hlevel : 0 ≤ level')
    (hcap : cost a + level' ≤ cap + slack)
    (hstep : cost a + level' ≤ level + rate * (time a - now) + slack) :
    Window cap rate slack cost time (tr ++ [a]) level' (time a) := by
  have hending : ∀ w first, w <:+ tr ++ [a] → w.head? = some first →
      windowCost cost w + level' ≤ cap + rate * (time a - time first) + slack * w.length := by
    intro w first hw hfirst
    obtain rfl | ⟨t, rfl, ht⟩ := List.suffix_concat_iff.mp hw
    · cases hfirst
    · cases t with
      | nil =>
        obtain rfl : a = first := by simpa using hfirst
        rw [List.nil_append, windowCost_singleton]
        simp only [List.length_singleton, Nat.cast_one]
        linarith
      | cons b t =>
        have hle := h.ending (b :: t) first ht (by simpa using hfirst)
        rw [windowCost_append, windowCost_singleton, List.length_append, Nat.cast_add]
        simp only [List.length_singleton, Nat.cast_one]
        linarith
  refine ⟨fun w hw first last hfirst hlast => ?_, hending⟩
  rcases List.infix_concat_iff.mp hw with hw | hw
  · have hle := hending w first hw hfirst
    -- the window ends with the new item
    obtain rfl : a = last := by
      obtain rfl | ⟨t, rfl, -⟩ := List.suffix_concat_iff.mp hw
      · cases hfirst
      · simpa using hlast
    linarith
  · exact h.all w hw first last hfirst hlast

end Window
end Campagnol
