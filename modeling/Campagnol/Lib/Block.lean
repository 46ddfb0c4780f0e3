import Mathlib.Data.List.Basic
import Mathlib.Tactic.Common

/-!
# Blocks of memory

An allocated block as the list of its cells. A write outside of the block fails.

* `exists_write`: a write after a prefix that stays;
* `prefix_realloc`: a larger block keeps the cells of the old one.
-/

namespace Campagnol
namespace Block

variable {α : Type} {a b x : List α} {n : ℕ} {junk : ℕ → α}

/-- Write the cells `x` from the place `i` on. -/
def write (b : List α) (i : ℕ) (x : List α) : Option (List α) :=
  if i + x.length ≤ b.length then some (b.take i ++ (x ++ b.drop (i + x.length))) else none

/-- The block with a new size. What is in the new cells is arbitrary. -/
def realloc (junk : ℕ → α) (b : List α) (n : ℕ) : List α :=
  b.take n ++ (List.range' b.length (n - b.length)).map junk

@[simp] theorem length_realloc : (realloc junk b n).length = n := by
  simp only [realloc, List.length_append, List.length_take, List.length_map, List.length_range']
  omega

theorem prefix_realloc (h : b.length ≤ n) : b <+: realloc junk b n := by
  rw [realloc, List.take_of_length_le h]
  exact List.prefix_append _ _

/-- A write after a prefix of the block, which stays. -/
theorem exists_write (ha : a <+: b) (h : a.length + x.length ≤ b.length) :
    ∃ y, write b a.length x = some y ∧ a ++ x <+: y ∧ y.length = b.length := by
  obtain ⟨t, rfl⟩ := ha
  rw [write, if_pos h, List.take_left]
  refine ⟨_, rfl, ?_, ?_⟩
  · rw [← List.append_assoc]
    exact List.prefix_append _ _
  · simp only [List.length_append, List.length_drop] at h ⊢
    omega

end Block
end Campagnol
