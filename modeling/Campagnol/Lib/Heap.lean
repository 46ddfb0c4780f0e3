import Mathlib.Logic.Function.Basic
import Mathlib.Tactic.Common

/-!
# A heap of blocks of one type

`malloc` and `free` for blocks of one C structure. Addresses are natural numbers and
are reused: an allocator may hand out any address that is not allocated at that moment.
-/

namespace Campagnol

/-- An address returned by `malloc`. -/
abbrev Ptr := ℕ

/-- The allocated blocks, and how many there are. -/
structure Heap (α : Type) where
  get : Ptr → Option α
  size : ℕ

/-- One call of `malloc`: it fails (`none`) or returns an address not in use. -/
structure Malloc where
  malloc : (Ptr → Bool) → Option Ptr
  fresh : ∀ inUse p, malloc inUse = some p → inUse p = false

/-- The call of `malloc` that returns `p` unless that address is in use. -/
def Malloc.at (p : Ptr) : Malloc :=
  ⟨fun inUse => if inUse p then none else some p, fun inUse q h => by
    split at h
    · cases h
    · rename_i hp
      obtain rfl : p = q := by simpa using h
      simpa using hp⟩

namespace Heap
variable {α : Type}

/-- The heap with no block. -/
def empty : Heap α := ⟨fun _ => none, 0⟩

def inUse (h : Heap α) (p : Ptr) : Bool := (h.get p).isSome

/-- Give the block at `p` the contents `v`; the block is new. -/
def alloc (h : Heap α) (p : Ptr) (v : α) : Heap α :=
  ⟨Function.update h.get p (some v), h.size + 1⟩

def free (h : Heap α) (p : Ptr) : Heap α :=
  ⟨Function.update h.get p none, h.size - 1⟩

/-- Overwrite an allocated block. -/
def modify (h : Heap α) (p : Ptr) (f : α → α) : Heap α :=
  ⟨Function.update h.get p ((h.get p).map f), h.size⟩

@[simp] theorem empty_get (p : Ptr) : (empty : Heap α).get p = none := rfl
@[simp] theorem empty_size : (empty : Heap α).size = 0 := rfl
@[simp] theorem alloc_size (h : Heap α) (p : Ptr) (v : α) : (h.alloc p v).size = h.size + 1 := rfl
@[simp] theorem free_size (h : Heap α) (p : Ptr) : (h.free p).size = h.size - 1 := rfl
@[simp] theorem modify_size (h : Heap α) (p : Ptr) (f : α → α) :
    (h.modify p f).size = h.size := rfl

@[simp] theorem alloc_get_self (h : Heap α) (p : Ptr) (v : α) : (h.alloc p v).get p = some v := by
  simp [alloc]

theorem alloc_get_of_ne (h : Heap α) {p q : Ptr} (v : α) (hq : q ≠ p) :
    (h.alloc p v).get q = h.get q := by
  simp [alloc, hq]

@[simp] theorem free_get_self (h : Heap α) (p : Ptr) : (h.free p).get p = none := by
  simp [free]

theorem free_get_of_ne (h : Heap α) {p q : Ptr} (hq : q ≠ p) : (h.free p).get q = h.get q := by
  simp [free, hq]

@[simp] theorem modify_get_self (h : Heap α) (p : Ptr) (f : α → α) :
    (h.modify p f).get p = (h.get p).map f := by
  simp [modify]

theorem modify_get_of_ne (h : Heap α) {p q : Ptr} (f : α → α) (hq : q ≠ p) :
    (h.modify p f).get q = h.get q := by
  simp [modify, hq]

/-- Overwriting blocks allocates and frees nothing. -/
@[simp] theorem modify_inUse (h : Heap α) (p : Ptr) (f : α → α) :
    (h.modify p f).inUse = h.inUse := by
  funext q
  by_cases hq : q = p
  · subst hq
    simp [inUse]
  · simp [inUse, modify_get_of_ne h f hq]

theorem inUse_alloc {h : Heap α} {p q : Ptr} {v : α} :
    (h.alloc p v).inUse q = true ↔ q = p ∨ h.inUse q = true := by
  by_cases hq : q = p
  · subst hq
    simp [inUse]
  · simp [inUse, alloc_get_of_ne h v hq, hq]

theorem inUse_free {h : Heap α} {p q : Ptr} :
    (h.free p).inUse q = true ↔ q ≠ p ∧ h.inUse q = true := by
  by_cases hq : q = p
  · subst hq
    simp [inUse]
  · simp [inUse, free_get_of_ne h hq, hq]

/-- The block that `malloc` returns is not in use. -/
theorem get_of_malloc {h : Heap α} {m : Malloc} {p : Ptr} (hm : m.malloc h.inUse = some p) :
    h.get p = none := by
  have hunused := m.fresh _ _ hm
  simpa [inUse] using hunused

theorem notMem_of_malloc {h : Heap α} {m : Malloc} {p : Ptr} {l : List Ptr}
    (hl : ∀ q, h.inUse q = true ↔ q ∈ l) (hm : m.malloc h.inUse = some p) : p ∉ l := by
  intro hp
  have hunused := m.fresh _ _ hm
  rw [(hl p).mpr hp] at hunused
  cases hunused

/-- Freeing the block just allocated gives the heap back. -/
theorem free_alloc (h : Heap α) {p : Ptr} (v : α) (hp : h.get p = none) :
    (h.alloc p v).free p = h := by
  cases h with
  | mk get size =>
    simp only [alloc, free, Function.update_idem, Nat.add_sub_cancel, mk.injEq, and_true]
    funext q
    by_cases hq : q = p
    · subst hq
      simpa using hp.symm
    · simp [hq]

end Heap
end Campagnol
