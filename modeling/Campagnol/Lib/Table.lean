import Campagnol.Lib.SearchTree
import Mathlib.Data.List.Nodup
import Mathlib.Logic.Function.Basic

/-!
# Tail queues with an index

Items that a tail queue keeps in the order of their insertion and a search tree finds by name. An
item is known by the number of its creation, as a pointer to it.

* `upsert`: what adding means for the list of the names with their contents;
* `upsert_of_add`: finding or adding an item and then changing it is an `upsert`;
* `foldl_upsert`: a list is rebuilt by adding its contents one after the other;
* `Holds`: what the operations keep, for any property of the items.
-/

namespace Campagnol

open SearchTree

/-! ## Association lists -/

section Upsert
variable {κ β ε : Type} [DecidableEq κ]

/-- Change the entry of the name `k` with `f`. Without an entry, a new one with `b` is put at the
end first. -/
def upsert (k : κ) (b : β) (f : β → β) : List (κ × β) → List (κ × β)
  | [] => [(k, f b)]
  | x :: l => if x.1 = k then (x.1, f x.2) :: l else x :: upsert k b f l

variable {k : κ} {b : β} {f : β → β} {l : List (κ × β)}

theorem upsert_ne_nil : upsert k b f l ≠ [] := by
  cases l with
  | nil => simp [upsert]
  | cons x l =>
    rw [upsert]
    split <;> simp

theorem upsert_of_notMem (h : k ∉ l.map Prod.fst) : upsert k b f l = l ++ [(k, f b)] := by
  induction l with
  | nil => rfl
  | cons x l ih =>
    rw [List.map_cons, List.mem_cons, not_or] at h
    rw [upsert, if_neg (Ne.symm h.1), ih h.2, List.cons_append]

theorem upsert_append_self (h : k ∉ l.map Prod.fst) (c : β) :
    upsert k b f (l ++ [(k, c)]) = l ++ [(k, f c)] := by
  induction l with
  | nil => simp [upsert]
  | cons x l ih =>
    rw [List.map_cons, List.mem_cons, not_or] at h
    rw [List.cons_append, upsert, if_neg (Ne.symm h.1), ih h.2, List.cons_append]

theorem forall_upsert {P : κ × β → Prop} (h : ∀ x ∈ l, P x) (hnew : P (k, f b))
    (hf : ∀ c, P (k, c) → P (k, f c)) : ∀ x ∈ upsert k b f l, P x := by
  induction l with
  | nil => simpa [upsert] using hnew
  | cons x l ih =>
    intro y hy
    have hx := h x List.mem_cons_self
    have hl : ∀ z ∈ l, P z := fun z hz => h z (List.mem_cons_of_mem _ hz)
    rw [upsert] at hy
    split at hy
    · rename_i hk
      rcases List.mem_cons.mp hy with rfl | hy
      · subst hk
        exact hf x.2 hx
      · exact hl y hy
    · rcases List.mem_cons.mp hy with rfl | hy
      · exact hx
      · exact ih hl y hy

theorem mem_keys_upsert {k' : κ} (h : k' ∈ (upsert k b f l).map Prod.fst) :
    k' = k ∨ k' ∈ l.map Prod.fst := by
  obtain ⟨x, hx, rfl⟩ := List.mem_map.mp h
  refine forall_upsert (P := fun x => x.1 = k ∨ x.1 ∈ l.map Prod.fst) (fun y hy => ?_) (.inl rfl)
    (fun c _ => .inl rfl) x hx
  exact .inr (List.mem_map_of_mem hy)

theorem nodup_upsert (h : (l.map Prod.fst).Nodup) : ((upsert k b f l).map Prod.fst).Nodup := by
  induction l with
  | nil => simp [upsert]
  | cons x l ih =>
    rw [List.map_cons, List.nodup_cons] at h
    rw [upsert]
    split
    · rw [List.map_cons, List.nodup_cons]
      exact h
    · rename_i hk
      rw [List.map_cons, List.nodup_cons]
      refine ⟨fun hm => ?_, ih h.2⟩
      rcases mem_keys_upsert hm with heq | hm
      · exact hk heq
      · exact h.1 hm

/-- Several changes of a new entry. -/
theorem foldl_upsert {g : ε → β → β} {es : List ε} (hes : es ≠ []) (h : k ∉ l.map Prod.fst) :
    es.foldl (fun l e => upsert k b (g e) l) l = l ++ [(k, es.foldl (fun c e => g e c) b)] := by
  cases es with
  | nil => exact absurd rfl hes
  | cons e es =>
    rw [List.foldl_cons, List.foldl_cons, upsert_of_notMem h]
    generalize g e b = c
    induction es generalizing c with
    | nil => rfl
    | cons e' es ih =>
      rw [List.foldl_cons, List.foldl_cons, upsert_append_self h]
      exact ih (by simp) (g e' c)

/-- The entries of a list, each with its name. -/
def flatten (split : β → List ε) (l : List (κ × β)) : List (κ × ε) :=
  l.flatMap fun x => (split x.2).map fun e => (x.1, e)

omit [DecidableEq κ] in
theorem mem_flatten {split : β → List ε} {l : List (κ × β)} {k : κ} {e : ε} :
    (k, e) ∈ flatten split l ↔ ∃ b, (k, b) ∈ l ∧ e ∈ split b := by
  simp [flatten]

/-- A change that adds an entry to the one of a name. -/
theorem length_flatten_upsert {split : β → List ε} (hb : split b = [])
    (hf : ∀ c, (split (f c)).length = (split c).length + 1) :
    (flatten split (upsert k b f l)).length = (flatten split l).length + 1 := by
  induction l with
  | nil => simp [upsert, flatten, hf, hb]
  | cons x l ih =>
    rw [upsert]
    split
    · simp only [flatten, List.flatMap_cons, List.length_append, List.length_map, hf]
      omega
    · simp only [flatten, List.flatMap_cons, List.length_append, List.length_map] at ih ⊢
      omega

/-- A list is rebuilt from its entries. -/
theorem foldl_flatten {g : ε → β → β} {b : β} {split : β → List ε} {l : List (κ × β)}
    (hnodup : (l.map Prod.fst).Nodup)
    (hsplit : ∀ x ∈ l, split x.2 ≠ [] ∧ (split x.2).foldl (fun c e => g e c) b = x.2) :
    (flatten split l).foldl (fun acc x => upsert x.1 b (g x.2) acc) [] = l := by
  have key : ∀ pre, (pre.map Prod.fst ++ l.map Prod.fst).Nodup →
      (flatten split l).foldl (fun acc x => upsert x.1 b (g x.2) acc) pre = pre ++ l := by
    clear hnodup
    induction l with
    | nil =>
      intro pre _
      simp [flatten]
    | cons x l ih =>
      intro pre hnodup
      obtain ⟨hne, hx⟩ := hsplit x List.mem_cons_self
      have hnot : x.1 ∉ pre.map Prod.fst := fun hm => by
        have hdisj := (List.nodup_append.mp hnodup).2.2
        exact hdisj x.1 hm x.1 (by simp) rfl
      have hnodup' : ((pre ++ [x]).map Prod.fst ++ l.map Prod.fst).Nodup := by
        simpa using hnodup
      have hrest := ih (fun y hy => hsplit y (List.mem_cons_of_mem _ hy)) (pre ++ [x]) hnodup'
      rw [flatten, List.flatMap_cons, List.foldl_append, List.foldl_map,
        foldl_upsert hne hnot, hx]
      simpa [flatten] using hrest
  exact key [] (by simpa using hnodup)

end Upsert

/-! ## Tables -/

/-- A tail queue of items with a search tree over it. -/
structure Table (α : Type) where
  created : ℕ
  item : ℕ → α
  queue : List ℕ
  tree : SearchTree.Tree ℕ

namespace Table
variable {α κ : Type} (cmp : κ → κ → Ordering) (name : α → κ)

/-- No items. -/
def empty [Inhabited α] : Table α := ⟨0, fun _ => default, [], .leaf⟩

/-- The items in their order. -/
def toList (T : Table α) : List α := T.queue.map T.item

/-- The name of an item. -/
def key (T : Table α) (p : ℕ) : κ := name (T.item p)

/-- The item with the name `k`. -/
def find (T : Table α) (k : κ) : Option ℕ := tfind cmp (T.key name) k T.tree

/-- A new item at the end of the queue. -/
def push (T : Table α) (x : α) : Table α where
  created := T.created + 1
  item := Function.update T.item T.created x
  queue := T.queue ++ [T.created]
  tree :=
    SearchTree.insert cmp (fun p => name (Function.update T.item T.created x p)) T.created T.tree

/-- The item with the name `k`, which is the new item `x` if there was none. -/
def add (T : Table α) (k : κ) (x : α) : ℕ × Table α :=
  match T.find cmp name k with
  | some p => (p, T)
  | none => (T.created, T.push cmp name x)

/-- Change the item `p`. -/
def modify (T : Table α) (p : ℕ) (f : α → α) : Table α :=
  { T with item := Function.update T.item p (f (T.item p)) }

/-- Take the item `p` away. The tree finds it by its name. -/
def remove (T : Table α) (p : ℕ) : Table α :=
  { T with queue := T.queue.erase p, tree := tdelete cmp (T.key name) (T.key name p) T.tree }

/-- The queue and the tree hold the same items, with different names. -/
structure Inv (T : Table α) : Prop where
  ordered : Ordered cmp (T.key name) T.tree
  mem_iff : ∀ p, p ∈ T.tree ↔ p ∈ T.queue
  nodup : T.queue.Nodup
  lt : ∀ p ∈ T.queue, p < T.created

theorem inv_empty [Inhabited α] : (empty : Table α).Inv cmp name where
  ordered := trivial
  mem_iff := fun p => ⟨(fun h => h.elim), fun h => by cases h⟩
  nodup := List.nodup_nil
  lt := fun p h => by cases h

section Operations
variable {cmp : κ → κ → Ordering} {name : α → κ} {T : Table α} {k : κ} {x : α} {p : ℕ} {f : α → α}

theorem toList_push (h : T.Inv cmp name) : (T.push cmp name x).toList = T.toList ++ [x] := by
  have hold : T.queue.map (Function.update T.item T.created x) = T.queue.map T.item := by
    refine List.map_congr_left fun q hq => ?_
    have hlt := h.lt q hq
    rw [Function.update_of_ne (by omega)]
  simp [toList, push, hold]

theorem toList_modify_subset {y : α} (hy : y ∈ (T.modify p f).toList) :
    y ∈ T.toList ∨ y = f (T.item p) := by
  obtain ⟨q, hq, rfl⟩ := List.mem_map.mp hy
  by_cases hqp : q = p
  · subst hqp
    exact .inr (by simp [modify])
  · left
    simpa [modify, hqp, toList] using List.mem_map_of_mem hq

theorem Inv.modify (h : T.Inv cmp name) (hf : name (f (T.item p)) = name (T.item p)) :
    (T.modify p f).Inv cmp name where
  ordered := by
    refine h.ordered.congr fun q _ => ?_
    by_cases hqp : q = p
    · subst hqp
      simpa [key, Table.modify] using hf
    · simp [key, Table.modify, hqp]
  mem_iff := h.mem_iff
  nodup := h.nodup
  lt := h.lt

variable [Std.TransCmp cmp]

theorem Inv.push (h : T.Inv cmp name) (hx : T.find cmp name (name x) = none) :
    (T.push cmp name x).Inv cmp name := by
  -- the names of the other items stay
  have hkey : ∀ q ∈ T.tree, name (Function.update T.item T.created x q) = T.key name q := by
    intro q hq
    have hlt := h.lt q ((h.mem_iff q).mp hq)
    rw [Function.update_of_ne (by omega)]
    rfl
  have hnone : tfind cmp (fun p => name (Function.update T.item T.created x p))
      (name (Function.update T.item T.created x T.created)) T.tree = none := by
    rw [Function.update_self, tfind_congr _ hkey]
    exact hx
  refine ⟨ordered_insert _ (h.ordered.congr hkey), fun q => ?_, ?_, fun q hq => ?_⟩
  · refine (mem_insert hnone q).trans ?_
    simp [Table.push, h.mem_iff, or_comm]
  · refine List.nodup_append.mpr ⟨h.nodup, List.nodup_singleton _, fun q hq r hr => ?_⟩
    have hlt := h.lt q hq
    rw [List.mem_singleton.mp hr]
    omega
  · rcases List.mem_append.mp hq with hq | hq
    · have hlt := h.lt q hq
      exact Nat.lt_succ_of_lt hlt
    · rw [List.mem_singleton.mp hq]
      exact Nat.lt_succ_self _

variable [Std.LawfulEqCmp cmp]

omit [Std.TransCmp cmp] in
theorem Inv.mem_of_find (h : T.Inv cmp name) (hp : T.find cmp name k = some p) :
    p ∈ T.queue ∧ name (T.item p) = k := by
  obtain ⟨hm, hk⟩ := mem_of_tfind hp
  exact ⟨(h.mem_iff p).mp hm, hk⟩

theorem Inv.name_inj (h : T.Inv cmp name) {q : ℕ} (hp : p ∈ T.queue) (hq : q ∈ T.queue)
    (hk : name (T.item p) = name (T.item q)) : p = q :=
  h.ordered.key_inj ((h.mem_iff p).mpr hp) ((h.mem_iff q).mpr hq) hk

/-- What `add` can do. -/
theorem Inv.add_cases (h : T.Inv cmp name) (hx : name x = k) :
    (∃ p ∈ T.queue, name (T.item p) = k ∧ T.add cmp name k x = (p, T)) ∨
      (k ∉ T.toList.map name ∧ T.add cmp name k x = (T.created, T.push cmp name x) ∧
        (T.push cmp name x).Inv cmp name) := by
  cases hf : T.find cmp name k with
  | some p =>
    obtain ⟨hp, hk⟩ := h.mem_of_find hf
    exact .inl ⟨p, hp, hk, by rw [add, hf]⟩
  | none =>
    refine .inr ⟨fun hm => ?_, by rw [add, hf], h.push (by rw [hx]; exact hf)⟩
    obtain ⟨y, hy, hk⟩ := List.mem_map.mp hm
    obtain ⟨q, hq, rfl⟩ := List.mem_map.mp hy
    exact (tfind_eq_none_iff h.ordered).mp hf q ((h.mem_iff q).mpr hq) hk

theorem Inv.add (h : T.Inv cmp name) (hx : name x = k) : (T.add cmp name k x).2.Inv cmp name := by
  rcases h.add_cases hx with ⟨p, -, -, hadd⟩ | ⟨-, hadd, hinv⟩
  · rw [hadd]
    exact h
  · rw [hadd]
    exact hinv

/-- The item that `add` returns. -/
theorem Inv.item_add (h : T.Inv cmp name) (hx : name x = k) :
    let r := T.add cmp name k x
    name (r.2.item r.1) = k ∧ (r.2.item r.1 ∈ T.toList ∨ r.2.item r.1 = x) := by
  rcases h.add_cases hx with ⟨p, hp, hk, hadd⟩ | ⟨-, hadd, -⟩
  · rw [hadd]
    exact ⟨hk, .inl (List.mem_map_of_mem hp)⟩
  · rw [hadd]
    simp [Table.push, hx]

theorem Inv.mem_add (h : T.Inv cmp name) (hx : name x = k) {y : α}
    (hy : y ∈ (T.add cmp name k x).2.toList) : y ∈ T.toList ∨ y = x := by
  rcases h.add_cases hx with ⟨p, -, -, hadd⟩ | ⟨-, hadd, -⟩
  · rw [hadd] at hy
    exact .inl hy
  · rw [hadd, toList_push h] at hy
    simpa using hy

variable [DecidableEq κ] {β : Type} {view : α → β} {g : β → β}

/-- A change of the item with the name `k`, in the list of the names and contents. -/
theorem Inv.upsert_of_modify (h : T.Inv cmp name) (hp : p ∈ T.queue) (hk : name (T.item p) = k)
    (hf : name (f (T.item p)) = k) (hview : view (f (T.item p)) = g (view (T.item p))) (b : β) :
    (T.modify p f).toList.map (fun y => (name y, view y)) =
      upsert k b g (T.toList.map fun y => (name y, view y)) := by
  have hinj : ∀ q ∈ T.queue, name (T.item q) = k → q = p := fun q hq hqk =>
    h.name_inj hq hp (hqk.trans hk.symm)
  have hnodup := h.nodup
  simp only [toList, Table.modify]
  revert hp hinj hnodup
  induction T.queue with
  | nil => exact fun hp => by cases hp
  | cons q l ih =>
    intro hp hinj hnodup
    obtain ⟨hq, hnodup⟩ := List.nodup_cons.mp hnodup
    simp only [List.map_cons]
    by_cases hqp : q = p
    · subst hqp
      -- the rest of the queue does not hold the item again
      have hrest : l.map (Function.update T.item q (f (T.item q))) = l.map T.item := by
        refine List.map_congr_left fun r hr => ?_
        have hne : r ≠ q := by
          rintro rfl
          exact hq hr
        rw [Function.update_of_ne hne]
      rw [upsert, if_pos hk, Function.update_self, hrest, hf, hview, hk]
    · have hne : name (T.item q) ≠ k := fun hqk => hqp (hinj q List.mem_cons_self hqk)
      have hpl : p ∈ l := (List.mem_cons.mp hp).resolve_left (Ne.symm hqp)
      rw [upsert, if_neg hne, Function.update_of_ne hqp,
        ih hpl (fun r hr => hinj r (List.mem_cons_of_mem _ hr)) hnodup]

/-- Finding or adding the item with the name `k` and then changing it. -/
theorem Inv.upsert_of_add (h : T.Inv cmp name) (hx : name x = k)
    (hname : ∀ y, name (f y) = name y)
    (hview : ∀ y, y ∈ T.toList ∨ y = x → view (f y) = g (view y)) :
    let r := T.add cmp name k x
    (r.2.modify r.1 f).toList.map (fun y => (name y, view y)) =
      upsert k (view x) g (T.toList.map fun y => (name y, view y)) := by
  rcases h.add_cases hx with ⟨p, hp, hk, hadd⟩ | ⟨hk, hadd, hinv⟩
  · rw [hadd]
    exact h.upsert_of_modify hp hk ((hname _).trans hk) (hview _ (.inl (List.mem_map_of_mem hp))) _
  · have hitem : (T.push cmp name x).item T.created = x := by simp [Table.push]
    have hlast : T.created ∈ (T.push cmp name x).queue := by simp [Table.push]
    have hnot : k ∉ (T.toList.map fun y => (name y, view y)).map Prod.fst := by
      rw [List.map_map]
      exact hk
    rw [hadd]
    dsimp only
    rw [hinv.upsert_of_modify (b := view x) (g := g) hlast (by rw [hitem, hx])
      (by rw [hname, hitem, hx]) (by rw [hitem]; exact hview x (.inr rfl)), toList_push h,
      List.map_append, List.map_cons, List.map_nil, hx, upsert_append_self hnot,
      upsert_of_notMem hnot]

end Operations

/-! ## Tables whose items satisfy a property -/

/-- A table that is in order, in the order of the insertions, and whose items satisfy `P`. -/
structure Holds (P : α → Prop) (T : Table α) : Prop where
  inv : T.Inv cmp name
  sorted : T.queue.Pairwise (· < ·)
  all : ∀ x ∈ T.toList, P x

theorem holds_empty [Inhabited α] (P : α → Prop) : (empty : Table α).Holds cmp name P :=
  ⟨inv_empty _ _, .nil, fun _ h => by cases h⟩

section Holds
variable {cmp : κ → κ → Ordering} {name : α → κ} {P : α → Prop} {T : Table α} {k : κ} {x : α}
  {p : ℕ} {f : α → α}

theorem Holds.of_mem (h : T.Holds cmp name P) (hp : p ∈ T.queue) : P (T.item p) :=
  h.all _ (List.mem_map_of_mem hp)

theorem Holds.modify (h : T.Holds cmp name P) (hname : name (f (T.item p)) = name (T.item p))
    (hf : P (f (T.item p))) : (T.modify p f).Holds cmp name P where
  inv := h.inv.modify hname
  sorted := h.sorted
  all := by
    intro y hy
    rcases toList_modify_subset hy with hy | rfl
    · exact h.all y hy
    · exact hf

variable [Std.TransCmp cmp] [Std.LawfulEqCmp cmp]

/-- The names are different. -/
theorem Inv.nodup_names (h : T.Inv cmp name) : (T.toList.map name).Nodup := by
  rw [toList, List.map_map]
  exact h.nodup.map_on fun p hp q hq => h.name_inj hp hq

theorem Inv.remove (h : T.Inv cmp name) (hp : p ∈ T.queue) :
    (T.remove cmp name p).Inv cmp name where
  ordered := ordered_tdelete _ h.ordered
  mem_iff := by
    intro q
    refine (mem_tdelete h.ordered q).trans ?_
    rw [h.mem_iff, Table.remove, h.nodup.mem_erase_iff, and_comm]
    refine and_congr_left fun hq => not_congr ⟨fun hk => h.name_inj hq hp hk, ?_⟩
    rintro rfl
    rfl
  nodup := h.nodup.erase p
  lt := fun q hq => h.lt q (List.mem_of_mem_erase hq)

theorem Holds.remove (h : T.Holds cmp name P) (hp : p ∈ T.queue) :
    (T.remove cmp name p).Holds cmp name P where
  inv := h.inv.remove hp
  sorted := h.sorted.sublist List.erase_sublist
  all := by
    intro y hy
    obtain ⟨q, hq, rfl⟩ := List.mem_map.mp hy
    exact h.of_mem (List.mem_of_mem_erase hq)

theorem Holds.add (h : T.Holds cmp name P) (hx : name x = k) (hP : P x) :
    (T.add cmp name k x).2.Holds cmp name P where
  inv := h.inv.add hx
  sorted := by
    rcases h.inv.add_cases hx with ⟨p, -, -, hadd⟩ | ⟨-, hadd, -⟩
    · rw [hadd]
      exact h.sorted
    · rw [hadd]
      refine List.pairwise_append.mpr ⟨h.sorted, List.pairwise_singleton _ _, fun q hq r hr => ?_⟩
      rw [List.mem_singleton.mp hr]
      exact h.inv.lt q hq
  all := by
    intro y hy
    rcases h.inv.mem_add hx hy with hy | rfl
    · exact h.all y hy
    · exact hP

/-- Finding or adding an item and then changing it. -/
theorem Holds.modify_add (h : T.Holds cmp name P) (hx : name x = k) (hP : P x)
    (hname : ∀ y, name (f y) = name y) (hf : ∀ y, P y → P (f y)) :
    let r := T.add cmp name k x
    (r.2.modify r.1 f).Holds cmp name P := by
  refine (h.add hx hP).modify (hname _) (hf _ ?_)
  rcases (h.inv.item_add hx).2 with hy | hy
  · exact h.all _ hy
  · rw [hy]
    exact hP

end Holds
end Table
end Campagnol
