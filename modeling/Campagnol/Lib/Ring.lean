import Mathlib.Data.Nat.ModEq
import Mathlib.Logic.Function.Basic
import Mathlib.Tactic.Common

/-!
# Ring buffers

A ring buffer stores a queue in `cap` slots: `n` entries from the slot `head` on, with
wrap-around. `contents` reads the queue back. Slots are a function of the index; only the
indices below `cap` are ever used.
-/

namespace Campagnol
namespace Ring

variable {α : Type} {slot : ℕ → α} {cap head n : ℕ}

/-- The queue stored in the ring. -/
def contents (slot : ℕ → α) (cap head n : ℕ) : List α :=
  (List.range n).map fun i => slot ((head + i) % cap)

@[simp]
theorem length_contents : (contents slot cap head n).length = n := by
  simp [contents]

/-- The next index, as it is computed without a division. -/
theorem next_index (hcap : 0 < cap) (hhead : head < cap) :
    (if head = cap - 1 then 0 else head + 1) = (head + 1) % cap := by
  split
  · have h : head + 1 = cap := by omega
    rw [h, Nat.mod_self]
  · rw [Nat.mod_eq_of_lt (by omega)]

/-- The index `i` places after `head`, as it is computed without a division. -/
theorem wrapped_index {i : ℕ} (hhead : head < cap) (hi : i ≤ cap) :
    (if head + i < cap then head + i else head + i - cap) = (head + i) % cap := by
  split
  · rw [Nat.mod_eq_of_lt ‹_›]
  · rw [Nat.mod_eq_sub_mod (by omega), Nat.mod_eq_of_lt (by omega)]

/-- Different places of the queue are different slots. -/
theorem index_ne {i : ℕ} (hi : i < n) (hn : n < cap) : (head + i) % cap ≠ (head + n) % cap := by
  intro h
  have hmod : i % cap = n % cap := Nat.ModEq.add_left_cancel' head h
  rw [Nat.mod_eq_of_lt (Nat.lt_trans hi hn), Nat.mod_eq_of_lt hn] at hmod
  exact Nat.ne_of_lt hi hmod

/-- Filling the slot after the last entry appends to the queue. -/
theorem contents_push (hn : n < cap) (x : α) :
    contents (Function.update slot ((head + n) % cap) x) cap head (n + 1) =
      contents slot cap head n ++ [x] := by
  have hold : ∀ i ∈ List.range n,
      Function.update slot ((head + n) % cap) x ((head + i) % cap) = slot ((head + i) % cap) := by
    intro i hi
    exact Function.update_of_ne (index_ne (List.mem_range.mp hi) hn) _ _
  simp only [contents, List.range_succ, List.map_append, List.map_cons, List.map_nil,
    Function.update_self, List.map_congr_left hold]

/-- Advancing the head takes the first entry off the queue. -/
theorem contents_pop (hhead : head < cap) :
    contents slot cap head (n + 1) =
      slot head :: contents slot cap ((head + 1) % cap) n := by
  simp only [contents, List.range_succ_eq_map, List.map_cons, List.map_map, Nat.add_zero,
    Nat.mod_eq_of_lt hhead, List.cons.injEq, true_and]
  refine List.map_congr_left fun i _ => ?_
  simp only [Function.comp_apply, Nat.mod_add_mod]
  congr 2
  omega

end Ring
end Campagnol
