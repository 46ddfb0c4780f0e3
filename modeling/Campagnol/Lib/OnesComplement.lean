import Mathlib.Algebra.BigOperators.Group.List.Basic
import Mathlib.Data.Nat.ModEq
import Mathlib.Tactic.Common

/-!
# One's complement sums

Addition of `w`-bit words with the carry out of the top bit added at the bottom. The sum of a
list of words is their sum modulo `2 ^ w - 1`, with the two zeros told apart: it is 0 only when
all words are 0, and all ones for the other multiples of `2 ^ w - 1` (`toNat_sum`).
-/

namespace Campagnol
namespace OnesComplement

variable {w : ℕ}

/-- One's complement addition. -/
def add (a b : BitVec w) : BitVec w :=
  if a.toNat + b.toNat < 2 ^ w then a + b else a + b + 1

/-- The one's complement sum of some words. -/
def sum (ws : List (BitVec w)) : BitVec w := ws.foldl add 0

/-- The sum of the words as numbers. -/
def total (ws : List (BitVec w)) : ℕ := (ws.map BitVec.toNat).sum

/-- The word that stands for the number `s`. -/
def reduce (w s : ℕ) : ℕ := if s = 0 then 0 else (s - 1) % (2 ^ w - 1) + 1

/-! ## Totals -/

@[simp] theorem total_nil : total ([] : List (BitVec w)) = 0 := rfl

@[simp] theorem total_cons (a : BitVec w) (ws : List (BitVec w)) :
    total (a :: ws) = a.toNat + total ws := by
  simp [total]

@[simp] theorem total_append (ws ws' : List (BitVec w)) :
    total (ws ++ ws') = total ws + total ws' := by
  simp [total]

theorem total_le (ws : List (BitVec w)) : total ws ≤ ws.length * (2 ^ w - 1) := by
  induction ws with
  | nil => simp
  | cons a ws ih =>
    have ha := a.isLt
    rw [total_cons, List.length_cons, Nat.add_mul, Nat.one_mul]
    omega

/-- Writing over a zero adds what is written. -/
theorem total_set {ws : List (BitVec w)} {k : ℕ} (h : ws[k]? = some 0) (a : BitVec w) :
    total (ws.set k a) = total ws + a.toNat := by
  induction ws generalizing k with
  | nil => simp at h
  | cons b ws ih =>
    cases k with
    | zero =>
      obtain rfl : b = 0 := by simpa using h
      simp [Nat.add_comm]
    | succ k =>
      rw [List.set_cons_succ, total_cons, total_cons, ih (by simpa using h), Nat.add_assoc]

/-! ## Sums -/

theorem reduce_of_lt {s : ℕ} (h : s < 2 ^ w) : reduce w s = s := by
  unfold reduce
  split
  · rename_i hs
    exact hs.symm
  · rw [Nat.mod_eq_of_lt (by omega)]
    omega

theorem reduce_of_pos {s : ℕ} (h : 0 < s) : reduce w s = (s - 1) % (2 ^ w - 1) + 1 :=
  if_neg (Nat.ne_of_gt h)

theorem reduce_reduce_add (a b : ℕ) : reduce w (reduce w a + b) = reduce w (a + b) := by
  rcases Nat.eq_zero_or_pos a with rfl | ha
  · rfl
  · have hsub : (a - 1) % (2 ^ w - 1) + 1 + b - 1 = (a - 1) % (2 ^ w - 1) + b := by omega
    have hsub' : a + b - 1 = a - 1 + b := by omega
    rw [reduce_of_pos (by omega : 0 < a + b), reduce_of_pos ha, reduce_of_pos (by omega), hsub,
      hsub', Nat.mod_add_mod]

theorem toNat_add (hw : 0 < w) (a b : BitVec w) :
    (add a b).toNat = reduce w (a.toNat + b.toNat) := by
  have ha := a.isLt
  have hb := b.isLt
  unfold add
  split
  · rename_i hlt
    rw [BitVec.toNat_add_of_lt hlt, reduce_of_lt hlt]
  · rename_i hge
    -- there is a carry: the low bits are the sum less `2 ^ w`, and adding 1 cannot carry again
    have hlow : (a + b).toNat = a.toNat + b.toNat - 2 ^ w := by
      rw [BitVec.toNat_add, Nat.mod_eq_sub_mod (by omega), Nat.mod_eq_of_lt (by omega)]
    have hone : (1 : BitVec w).toNat = 1 := BitVec.toNat_one hw
    have hinc : (a + b).toNat + (1 : BitVec w).toNat < 2 ^ w := by omega
    have hmod : a.toNat + b.toNat - 1 = a.toNat + b.toNat - 2 ^ w + (2 ^ w - 1) := by omega
    rw [BitVec.toNat_add_of_lt hinc, hlow, hone, reduce_of_pos (by omega), hmod,
      Nat.add_mod_right, Nat.mod_eq_of_lt (by omega)]

/-- The one's complement sum is the sum modulo `2 ^ w - 1`. -/
theorem toNat_sum (hw : 0 < w) (ws : List (BitVec w)) : (sum ws).toNat = reduce w (total ws) := by
  have hfold : ∀ acc : BitVec w, (ws.foldl add acc).toNat = reduce w (acc.toNat + total ws) := by
    induction ws with
    | nil =>
      intro acc
      exact (reduce_of_lt acc.isLt).symm
    | cons a ws ih =>
      intro acc
      rw [List.foldl_cons, ih, toNat_add hw, reduce_reduce_add, total_cons, Nat.add_assoc]
  rw [sum, hfold, show (0 : BitVec w).toNat = 0 from rfl, Nat.zero_add]

/-- Words that sum to a multiple of `2 ^ w - 1` do not change a sum other than 0, and no others
do. -/
theorem reduce_add_eq_iff {s s' : ℕ} (hs : 0 < s) :
    reduce w (s + s') = reduce w s ↔ s' % (2 ^ w - 1) = 0 := by
  have hsub : s + s' - 1 = s - 1 + s' := by omega
  rw [reduce_of_pos (by omega), reduce_of_pos hs, hsub, Nat.add_right_cancel_iff]
  constructor
  · intro h
    have hzero : s' ≡ 0 [MOD 2 ^ w - 1] := Nat.ModEq.add_left_cancel' (s - 1) h
    exact Eq.trans hzero (Nat.zero_mod _)
  · intro h
    rw [Nat.add_mod, h, Nat.add_zero, Nat.mod_mod]

end OnesComplement
end Campagnol
