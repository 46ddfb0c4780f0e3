import Mathlib.Tactic.Common

/-!
# Binary search trees with an explicit comparison routine

The tree behind `tsearch`, `tfind` and `tdelete` of `<search.h>`. A tree stores
*items*; the comparison routine sees an item only through its key, which is read
afresh on every operation. Nothing here assumes that the keys of stored items stay
what they were at insertion time: all operations are total on any tree, and the
results about them take the order of the tree (`Ordered`) as a hypothesis.

* `mem_of_tfind` and `tfind_of_mem` characterise a lookup;
* `mem_insert`, `mem_tdelete` say which items an update keeps;
* `ordered_insert`, `ordered_tdelete` say that an ordered tree stays ordered;
* `Ordered.congr` moves the order from one key function to another.
-/

namespace Campagnol
namespace SearchTree

/-- A binary tree of items. -/
inductive Tree (α : Type) where
  | leaf : Tree α
  | node (l : Tree α) (x : α) (r : Tree α) : Tree α
deriving Repr, DecidableEq

variable {α κ : Type}

/-! ## Membership and order -/

/-- The item `x` is stored in the tree. -/
def Tree.Mem (x : α) : Tree α → Prop
  | .leaf => False
  | .node l y r => Tree.Mem x l ∨ x = y ∨ Tree.Mem x r

instance : Membership α (Tree α) := ⟨fun t x => t.Mem x⟩

instance decidableMem [DecidableEq α] (x : α) : (t : Tree α) → Decidable (x ∈ t)
  | .leaf => isFalse id
  | .node l y r =>
    have : Decidable (x ∈ l) := decidableMem x l
    have : Decidable (x ∈ r) := decidableMem x r
    inferInstanceAs (Decidable (x ∈ l ∨ x = y ∨ x ∈ r))

@[simp] theorem not_mem_leaf (x : α) : x ∉ (Tree.leaf : Tree α) := id

@[simp] theorem mem_node {x y : α} {l r : Tree α} :
    x ∈ Tree.node l y r ↔ x ∈ l ∨ x = y ∨ x ∈ r := Iff.rfl

section operations
variable (cmp : κ → κ → Ordering) (key : α → κ)

/-- Every item on the left of a node compares below it, every item on the right above. -/
def Ordered : Tree α → Prop
  | .leaf => True
  | .node l x r => (∀ y ∈ l, cmp (key y) (key x) = .lt) ∧ (∀ y ∈ r, cmp (key x) (key y) = .lt) ∧
      Ordered l ∧ Ordered r

/-! ## The operations of `<search.h>` -/

/-- `tfind`: the item whose key compares equal to `k`, if any. -/
def tfind (k : κ) : Tree α → Option α
  | .leaf => none
  | .node l x r =>
    match cmp k (key x) with
    | .lt => tfind k l
    | .eq => some x
    | .gt => tfind k r

/-- Hang a new node for `x` below the leaf its key leads to. -/
def insert (x : α) : Tree α → Tree α
  | .leaf => .node .leaf x .leaf
  | .node l y r =>
    match cmp (key x) (key y) with
    | .lt => .node (insert x l) y r
    | .eq => .node l y r
    | .gt => .node l y (insert x r)

/-- `tsearch`: an equal item already stored is left as it is (and its node returned);
otherwise a node for `x` is allocated. `alloc` is the outcome of that allocation, and
`none` the `NULL` result. -/
def tsearch (alloc : Bool) (x : α) (t : Tree α) : Option (Tree α) :=
  match tfind cmp key (key x) t with
  | some _ => some t
  | none => if alloc then some (insert cmp key x t) else none

end operations

/-- Detach the leftmost item. -/
def popMin : Tree α → Option (α × Tree α)
  | .leaf => none
  | .node l x r =>
    match popMin l with
    | none => some (x, r)
    | some (m, l') => some (m, .node l' x r)

/-- Join two subtrees under the leftmost item of the right one. -/
def join (l r : Tree α) : Tree α :=
  match popMin r with
  | none => l
  | some (m, r') => .node l m r'

/-- `tdelete`: remove the node whose item compares equal to `k`; nothing happens when
there is none. -/
def tdelete (cmp : κ → κ → Ordering) (key : α → κ) (k : κ) : Tree α → Tree α
  | .leaf => .leaf
  | .node l x r =>
    match cmp k (key x) with
    | .lt => .node (tdelete cmp key k l) x r
    | .eq => join l r
    | .gt => .node l x (tdelete cmp key k r)

/-! ## Joining subtrees -/

theorem popMin_eq_none {t : Tree α} (h : popMin t = none) : t = .leaf := by
  cases t with
  | leaf => rfl
  | node l x r =>
    simp only [popMin] at h
    split at h <;> simp at h

theorem mem_popMin {t t' : Tree α} {m : α} (h : popMin t = some (m, t')) (y : α) :
    y ∈ t ↔ y = m ∨ y ∈ t' := by
  induction t generalizing t' m with
  | leaf => simp [popMin] at h
  | node l x r ihl _ =>
    simp only [popMin] at h
    split at h
    · rename_i hl
      obtain ⟨rfl, rfl⟩ : x = m ∧ r = t' := by simpa using h
      simp [popMin_eq_none hl]
    · rename_i m' l' hl
      obtain ⟨rfl, rfl⟩ : m' = m ∧ Tree.node l' x r = t' := by simpa using h
      rw [mem_node, ihl hl, mem_node, or_assoc]

theorem mem_join {l r : Tree α} (y : α) : y ∈ join l r ↔ y ∈ l ∨ y ∈ r := by
  unfold join
  split
  · rename_i hr
    simp [popMin_eq_none hr]
  · rename_i m r' hr
    rw [mem_node, mem_popMin hr]

section lemmas
variable {cmp : κ → κ → Ordering} {key key' : α → κ}

/-- The order of a tree only depends on the keys of the items in it. -/
theorem Ordered.congr {t : Tree α} (h : Ordered cmp key t) (hk : ∀ x ∈ t, key' x = key x) :
    Ordered cmp key' t := by
  induction t with
  | leaf => trivial
  | node l x r ihl ihr =>
    obtain ⟨hl, hr, hol, hor⟩ := h
    have hx : key' x = key x := hk x (by simp)
    refine ⟨fun y hy => ?_, fun y hy => ?_, ihl hol fun y hy => hk y (by simp [hy]),
      ihr hor fun y hy => hk y (by simp [hy])⟩
    · rw [hk y (by simp [hy]), hx]; exact hl y hy
    · rw [hk y (by simp [hy]), hx]; exact hr y hy

theorem tfind_congr {t : Tree α} (k : κ) (hk : ∀ x ∈ t, key' x = key x) :
    tfind cmp key' k t = tfind cmp key k t := by
  induction t with
  | leaf => rfl
  | node l x r ihl ihr =>
    have hx : key' x = key x := hk x (by simp)
    simp only [tfind, hx, ihl fun y hy => hk y (by simp [hy]), ihr fun y hy => hk y (by simp [hy])]

theorem mem_of_mem_tdelete {t : Tree α} {k : κ} {y : α} (h : y ∈ tdelete cmp key k t) : y ∈ t := by
  induction t with
  | leaf => exact h
  | node l x r ihl ihr =>
    simp only [tdelete] at h
    split at h
    · rcases h with h | h | h
      · exact .inl (ihl h)
      · exact .inr (.inl h)
      · exact .inr (.inr h)
    · rcases (mem_join y).mp h with h | h
      · exact .inl h
      · exact .inr (.inr h)
    · rcases h with h | h | h
      · exact .inl h
      · exact .inr (.inl h)
      · exact .inr (.inr (ihr h))

/-- Deleting a key that is not found changes nothing. -/
theorem tdelete_of_tfind_none {t : Tree α} {k : κ} (h : tfind cmp key k t = none) :
    tdelete cmp key k t = t := by
  induction t with
  | leaf => rfl
  | node l x r ihl ihr =>
    simp only [tfind, tdelete] at h ⊢
    split at h
    · rw [ihl h]
    · cases h
    · rw [ihr h]

theorem mem_insert_subset {t : Tree α} {x y : α} (h : y ∈ insert cmp key x t) : y = x ∨ y ∈ t := by
  induction t with
  | leaf => simpa [insert] using h
  | node l z r ihl ihr =>
    simp only [insert] at h
    split at h
    · rcases h with h | h | h
      · exact (ihl h).imp_right .inl
      · exact .inr (.inr (.inl h))
      · exact .inr (.inr (.inr h))
    · exact .inr h
    · rcases h with h | h | h
      · exact .inr (.inl h)
      · exact .inr (.inr (.inl h))
      · exact (ihr h).imp_right fun h => .inr (.inr h)

/-- An insertion that does not meet an equal key adds exactly the new item. -/
theorem mem_insert {t : Tree α} {x : α} (h : tfind cmp key (key x) t = none) (y : α) :
    y ∈ insert cmp key x t ↔ y = x ∨ y ∈ t := by
  induction t with
  | leaf => simp [insert]
  | node l z r ihl ihr =>
    simp only [tfind, insert] at h ⊢
    split at h
    · rw [mem_node, mem_node, ihl h, or_assoc]
    · simp at h
    · rw [mem_node, mem_node, ihr h, @or_left_comm (y = z) (y = x), or_left_comm]

/-! ## `tsearch` -/

/-- `tsearch` either leaves the tree alone because an equal item is stored, or adds the
item. -/
theorem tsearch_cases {t t' : Tree α} {alloc : Bool} {x : α}
    (h : tsearch cmp key alloc x t = some t') :
    (∃ y, tfind cmp key (key x) t = some y ∧ t' = t) ∨
      (tfind cmp key (key x) t = none ∧ t' = insert cmp key x t) := by
  unfold tsearch at h
  split at h
  · rename_i y hy
    exact .inl ⟨y, hy, by simpa using h.symm⟩
  · rename_i hn
    split at h
    · exact .inr ⟨hn, by simpa using h.symm⟩
    · cases h

theorem tsearch_eq_none_iff {t : Tree α} {alloc : Bool} {x : α} :
    tsearch cmp key alloc x t = none ↔ tfind cmp key (key x) t = none ∧ alloc = false := by
  unfold tsearch
  split
  · rename_i hy
    simp [hy]
  · rename_i hn
    simp [hn]

/-- `tsearch` fails only if it has to allocate. -/
theorem tsearch_isSome {t : Tree α} (x : α) : (tsearch cmp key true x t).isSome := by
  unfold tsearch
  split <;> rfl

/-- With no equal item stored, a successful `tsearch` adds exactly the item. -/
theorem mem_tsearch_of_none {t t' : Tree α} {alloc : Bool} {x : α}
    (hn : tfind cmp key (key x) t = none) (h : tsearch cmp key alloc x t = some t') (y : α) :
    y ∈ t' ↔ y = x ∨ y ∈ t := by
  rcases tsearch_cases h with ⟨z, hz, _⟩ | ⟨_, rfl⟩
  · rw [hn] at hz; cases hz
  · exact mem_insert hn y

theorem mem_tsearch_subset {t t' : Tree α} {alloc : Bool} {x y : α}
    (h : tsearch cmp key alloc x t = some t') (hy : y ∈ t') : y = x ∨ y ∈ t := by
  rcases tsearch_cases h with ⟨_, _, rfl⟩ | ⟨_, rfl⟩
  · exact .inr hy
  · exact mem_insert_subset hy

theorem subset_mem_tsearch {t t' : Tree α} {alloc : Bool} {x y : α}
    (h : tsearch cmp key alloc x t = some t') (hy : y ∈ t) : y ∈ t' := by
  rcases tsearch_cases h with ⟨_, _, rfl⟩ | ⟨hn, rfl⟩
  · exact hy
  · exact (mem_insert hn y).mpr (.inr hy)

variable [Std.TransCmp cmp]

theorem ordered_popMin {t t' : Tree α} {m : α} (h : Ordered cmp key t)
    (hm : popMin t = some (m, t')) :
    Ordered cmp key t' ∧ ∀ y ∈ t', cmp (key m) (key y) = .lt := by
  induction t generalizing t' m with
  | leaf => simp [popMin] at hm
  | node l x r ihl _ =>
    obtain ⟨hl, hr, hol, hor⟩ := h
    simp only [popMin] at hm
    split at hm
    · obtain ⟨rfl, rfl⟩ : x = m ∧ r = t' := by simpa using hm
      exact ⟨hor, hr⟩
    · rename_i m' l' hpop
      obtain ⟨rfl, rfl⟩ : m' = m ∧ Tree.node l' x r = t' := by simpa using hm
      obtain ⟨hol', hml'⟩ := ihl hol hpop
      have hmx : cmp (key m') (key x) = .lt := hl m' ((mem_popMin hpop m').mpr (.inl rfl))
      refine ⟨⟨fun y hy => hl y ((mem_popMin hpop y).mpr (.inr hy)), hr, hol', hor⟩, ?_⟩
      rintro y (hy | rfl | hy)
      · exact hml' y hy
      · exact hmx
      · exact Std.TransCmp.lt_trans hmx (hr y hy)

theorem ordered_join {l r : Tree α} (hl : Ordered cmp key l) (hr : Ordered cmp key r)
    (h : ∀ y ∈ l, ∀ z ∈ r, cmp (key y) (key z) = .lt) : Ordered cmp key (join l r) := by
  unfold join
  split
  · exact hl
  · rename_i m r' hpop
    obtain ⟨hor', hm⟩ := ordered_popMin hr hpop
    have hmem : m ∈ r := (mem_popMin hpop m).mpr (.inl rfl)
    exact ⟨fun y hy => h y hy m hmem, hm, hl, hor'⟩

/-- Deleting the item just inserted gives the tree back. -/
theorem tdelete_insert {t : Tree α} {x : α} (h : tfind cmp key (key x) t = none) :
    tdelete cmp key (key x) (insert cmp key x t) = t := by
  have hxx : cmp (key x) (key x) = .eq := Std.ReflCmp.compare_self
  induction t with
  | leaf => simp [insert, tdelete, hxx, join, popMin]
  | node l y r ihl ihr =>
    simp only [tfind, insert] at h ⊢
    split at h <;> rename_i hc
    · simp only [tdelete, hc, ihl h]
    · cases h
    · simp only [tdelete, hc, ihr h]

/-- Deleting keeps the order. -/
theorem ordered_tdelete {t : Tree α} (k : κ) (h : Ordered cmp key t) :
    Ordered cmp key (tdelete cmp key k t) := by
  induction t with
  | leaf => trivial
  | node l x r ihl ihr =>
    obtain ⟨hl, hr, hol, hor⟩ := h
    simp only [tdelete]
    split
    · exact ⟨fun y hy => hl y (mem_of_mem_tdelete hy), hr, ihl hol, hor⟩
    · exact ordered_join hol hor fun y hy z hz => Std.TransCmp.lt_trans (hl y hy) (hr z hz)
    · exact ⟨hl, fun y hy => hr y (mem_of_mem_tdelete hy), hol, ihr hor⟩

/-- Inserting keeps the order. -/
theorem ordered_insert {t : Tree α} (x : α) (h : Ordered cmp key t) :
    Ordered cmp key (insert cmp key x t) := by
  induction t with
  | leaf => exact ⟨fun _ hy => hy.elim, fun _ hy => hy.elim, trivial, trivial⟩
  | node l z r ihl ihr =>
    obtain ⟨hl, hr, hol, hor⟩ := h
    simp only [insert]
    split <;> rename_i hc
    · refine ⟨fun y hy => ?_, hr, ihl hol, hor⟩
      rcases mem_insert_subset hy with rfl | hy
      · exact hc
      · exact hl y hy
    · exact ⟨hl, hr, hol, hor⟩
    · refine ⟨hl, fun y hy => ?_, hol, ihr hor⟩
      rcases mem_insert_subset hy with rfl | hy
      · exact Std.OrientedCmp.gt_iff_lt.mp hc
      · exact hr y hy

theorem ordered_tsearch {t t' : Tree α} {alloc : Bool} {x : α} (ho : Ordered cmp key t)
    (h : tsearch cmp key alloc x t = some t') : Ordered cmp key t' := by
  rcases tsearch_cases h with ⟨_, _, rfl⟩ | ⟨_, rfl⟩
  · exact ho
  · exact ordered_insert x ho

variable [Std.LawfulEqCmp cmp]

/-! ## Lookups -/

omit [Std.TransCmp cmp] in
/-- A lookup only returns stored items with the key asked for. -/
theorem mem_of_tfind {t : Tree α} {k : κ} {x : α} (h : tfind cmp key k t = some x) :
    x ∈ t ∧ key x = k := by
  induction t with
  | leaf => simp [tfind] at h
  | node l y r ihl ihr =>
    simp only [tfind] at h
    split at h <;> rename_i hc
    · exact (ihl h).imp_left .inl
    · obtain rfl : y = x := by simpa using h
      exact ⟨.inr (.inl rfl), (Std.LawfulEqCmp.eq_of_compare hc).symm⟩
    · exact (ihr h).imp_left fun h => .inr (.inr h)

/-- In an ordered tree every stored item is found under its own key. -/
theorem tfind_of_mem {t : Tree α} {x : α} (h : Ordered cmp key t) (hx : x ∈ t) :
    tfind cmp key (key x) t = some x := by
  induction t with
  | leaf => exact hx.elim
  | node l y r ihl ihr =>
    obtain ⟨hl, hr, hol, hor⟩ := h
    simp only [tfind]
    rcases hx with hx | rfl | hx
    · rw [hl x hx]
      exact ihl hol hx
    · rw [show cmp (key x) (key x) = .eq from Std.ReflCmp.compare_self]
    · rw [Std.OrientedCmp.gt_iff_lt.mpr (hr x hx)]
      exact ihr hor hx

/-- The items of an ordered tree have distinct keys. -/
theorem Ordered.key_inj {t : Tree α} {x y : α} (h : Ordered cmp key t) (hx : x ∈ t) (hy : y ∈ t)
    (hk : key x = key y) : x = y := by
  have hfx := tfind_of_mem h hx
  rw [hk, tfind_of_mem h hy] at hfx
  exact (Option.some.inj hfx).symm

theorem tfind_eq_some_iff {t : Tree α} {k : κ} {x : α} (h : Ordered cmp key t) :
    tfind cmp key k t = some x ↔ x ∈ t ∧ key x = k := by
  refine ⟨mem_of_tfind, ?_⟩
  rintro ⟨hx, rfl⟩
  exact tfind_of_mem h hx

theorem tfind_eq_none_iff {t : Tree α} {k : κ} (h : Ordered cmp key t) :
    tfind cmp key k t = none ↔ ∀ x ∈ t, key x ≠ k := by
  constructor
  · rintro hf x hx rfl
    rw [tfind_of_mem h hx] at hf
    cases hf
  · intro hne
    cases hf : tfind cmp key k t with
    | none => rfl
    | some x => exact absurd (mem_of_tfind hf).2 (hne x (mem_of_tfind hf).1)

/-- Deleting a key removes exactly the items with that key. -/
theorem mem_tdelete {t : Tree α} {k : κ} (h : Ordered cmp key t) (y : α) :
    y ∈ tdelete cmp key k t ↔ y ∈ t ∧ key y ≠ k := by
  induction t with
  | leaf => simp [tdelete]
  | node l x r ihl ihr =>
    obtain ⟨hl, hr, hol, hor⟩ := h
    -- an item on the other side of `x`, or `x` itself, cannot have the key `k`
    have hlt : ∀ a b : κ, cmp a b = .lt → a ≠ b := by
      rintro a _ hab rfl
      rw [show cmp a a = .eq from Std.ReflCmp.compare_self] at hab
      cases hab
    simp only [tdelete]
    split <;> rename_i hc
    · have hx : key x ≠ k := (hlt _ _ hc).symm
      have hr' : ∀ y ∈ r, key y ≠ k := fun y hy =>
        (hlt _ _ (Std.TransCmp.lt_trans hc (hr y hy))).symm
      simp only [mem_node, ihl hol]
      constructor
      · rintro (⟨h, hk⟩ | rfl | h)
        · exact ⟨.inl h, hk⟩
        · exact ⟨.inr (.inl rfl), hx⟩
        · exact ⟨.inr (.inr h), hr' y h⟩
      · rintro ⟨h | h | h, hk⟩
        · exact .inl ⟨h, hk⟩
        · exact .inr (.inl h)
        · exact .inr (.inr h)
    · obtain rfl : k = key x := Std.LawfulEqCmp.eq_of_compare hc
      rw [mem_join, mem_node]
      constructor
      · rintro (h | h)
        · exact ⟨.inl h, hlt _ _ (hl y h)⟩
        · exact ⟨.inr (.inr h), (hlt _ _ (hr y h)).symm⟩
      · rintro ⟨h | rfl | h, hk⟩
        · exact .inl h
        · exact absurd rfl hk
        · exact .inr h
    · have hxk : cmp (key x) k = .lt := Std.OrientedCmp.gt_iff_lt.mp hc
      have hx : key x ≠ k := hlt _ _ hxk
      have hl' : ∀ y ∈ l, key y ≠ k := fun y hy =>
        hlt _ _ (Std.TransCmp.lt_trans (hl y hy) hxk)
      simp only [mem_node, ihr hor]
      constructor
      · rintro (h | rfl | ⟨h, hk⟩)
        · exact ⟨.inl h, hl' y h⟩
        · exact ⟨.inr (.inl rfl), hx⟩
        · exact ⟨.inr (.inr h), hk⟩
      · rintro ⟨h | h | h, hk⟩
        · exact .inl h
        · exact .inr (.inl h)
        · exact .inr (.inr ⟨h, hk⟩)

end lemmas

end SearchTree
end Campagnol
