import Mathlib.Data.List.Nodup
import Mathlib.Logic.Function.Basic
import Mathlib.Tactic.Common

/-!
# Intrusive doubly linked lists

The `next` and `prev` fields of the nodes of a doubly linked list, with its head. The
links are raw pointers: `IsList` says that they form the list `l`, and `pushFront`,
`unlink` and `walk` are the three pieces of code every such list is handled with.

* `IsList.pushFront`, `IsList.unlink`: the two updates, on the list they represent;
* `walk_eq_foldl`: a traversal that reads `next` before it runs its body visits the
  nodes of the list in order, even when the body unlinks the node it is run on.
-/

namespace Campagnol

/-- Head and link fields of a doubly linked list. -/
structure Links (α : Type) where
  head : Option α
  next : α → Option α
  prev : α → Option α

namespace Links
variable {α : Type} [DecidableEq α]

/-- The list with no node. -/
def empty : Links α := ⟨none, fun _ => none, fun _ => none⟩

/-- Link `p` in front of the head. -/
def pushFront (L : Links α) (p : α) : Links α :=
  let L₁ : Links α :=
    { L with next := Function.update L.next p L.head, prev := Function.update L.prev p none }
  let L₂ : Links α :=
    match L₁.next p with
    | some n => { L₁ with prev := Function.update L₁.prev n (some p) }
    | none => L₁
  { L₂ with head := some p }

/-- Take `p` out of the list. Its own fields are left as they are. -/
def unlink (L : Links α) (p : α) : Links α :=
  let L₁ : Links α :=
    match L.next p with
    | some n => { L with prev := Function.update L.prev n (L.prev p) }
    | none => L
  match L₁.prev p with
  | some q => { L₁ with next := Function.update L₁.next q (L₁.next p) }
  | none => { L₁ with head := L₁.next p }

/-- The links form the doubly linked list `l`: the head is its first node, and around
every node `prev` and `next` are the neighbours. -/
structure IsList (L : Links α) (l : List α) : Prop where
  nodup : l.Nodup
  head_eq : L.head = l.head?
  links : ∀ l₁ x l₂, l = l₁ ++ x :: l₂ → L.prev x = l₁.getLast? ∧ L.next x = l₂.head?

omit [DecidableEq α] in
theorem isList_empty : (empty : Links α).IsList [] :=
  ⟨List.nodup_nil, rfl, fun l₁ _ _ h => by simp at h⟩

omit [DecidableEq α] in
/-- The links determine the list. -/
theorem IsList.unique {L : Links α} {l l' : List α} (h : L.IsList l) (h' : L.IsList l') :
    l = l' := by
  -- the two lists share the prefix `a`; one more node at a time
  have key : ∀ (b b' a : List α), l = a ++ b → l' = a ++ b' → b.head? = b'.head? → b = b' := by
    intro b
    induction b with
    | nil => intro b' a _ _ hh; cases b' <;> simp_all
    | cons x b ih =>
      intro b' a hl hl' hh
      obtain ⟨b', rfl⟩ : ∃ c, b' = x :: c := by
        cases b' with
        | nil => simp at hh
        | cons y c => exact ⟨c, by simp at hh; rw [hh]⟩
      have hn : b.head? = b'.head? :=
        (h.links a x b hl).2.symm.trans (h'.links a x b' hl').2
      rw [ih b' (a ++ [x]) (by simp [hl]) (by simp [hl']) hn]
  exact key l l' [] rfl rfl (h.head_eq.symm.trans h'.head_eq)

/-- Linking a node that is not in the list puts it in front. -/
theorem IsList.pushFront {L : Links α} {l : List α} {p : α} (h : L.IsList l) (hp : p ∉ l) :
    (L.pushFront p).IsList (p :: l) := by
  have hnext : (L.pushFront p).next = Function.update L.next p L.head := by
    simp only [Links.pushFront]
    split <;> rfl
  have hprev : ∀ x ∈ l, ∀ l₁ l₂, l = l₁ ++ x :: l₂ →
      (L.pushFront p).prev x = (p :: l₁).getLast? := by
    intro x hx l₁ l₂ hl
    have hxp : x ≠ p := fun hxp => hp (hxp ▸ hx)
    have hnd := h.nodup
    simp only [Links.pushFront, Function.update_self, h.head_eq]
    cases l₁ with
    | nil => simp [hl]
    | cons y l₁ =>
      have hxy : x ≠ y := by
        rintro rfl
        rw [hl] at hnd
        simp at hnd
      have hold := (h.links (y :: l₁) x l₂ hl).1
      simp only [hl, List.cons_append, List.head?_cons]
      rw [Function.update_of_ne hxy, Function.update_of_ne hxp, hold, List.getLast?_cons_cons]
  have hprevp : (L.pushFront p).prev p = none := by
    simp only [Links.pushFront, Function.update_self, h.head_eq]
    split
    · rename_i n hn
      have hne : p ≠ n := by
        rintro rfl
        exact hp (List.mem_of_mem_head? (by simp [hn]))
      simp [hne]
    · simp
  refine ⟨List.nodup_cons.mpr ⟨hp, h.nodup⟩, rfl, ?_⟩
  intro l₁ x l₂ hl
  cases l₁ with
  | nil =>
    obtain ⟨rfl, rfl⟩ : p = x ∧ l = l₂ := by simpa using hl
    rw [hnext, Function.update_self]
    exact ⟨hprevp, h.head_eq⟩
  | cons y l₁ =>
    obtain ⟨rfl, hl'⟩ : p = y ∧ l = l₁ ++ x :: l₂ := by simpa using hl
    have hx : x ∈ l := by simp [hl']
    have hxp : x ≠ p := fun hxp => hp (hxp ▸ hx)
    rw [hnext, Function.update_of_ne hxp]
    exact ⟨hprev x hx l₁ l₂ hl', (h.links l₁ x l₂ hl').2⟩

/-! ## Unlinking -/

/-- `unlink` changes `prev` at the successor only. -/
theorem unlink_prev {L : Links α} {p : α} (hp : L.next p ≠ some p) (x : α) :
    (L.unlink p).prev x = if L.next p = some x then L.prev p else L.prev x := by
  simp only [Links.unlink]
  cases hn : L.next p with
  | none => simp only; split <;> simp
  | some n =>
    have hpn : p ≠ n := fun e => hp (e ▸ hn)
    simp only [Function.update_of_ne hpn, Option.some.injEq]
    by_cases hx : n = x
    · subst hx
      split <;> simp
    · have hx' : x ≠ n := fun e => hx e.symm
      split <;> simp [hx, hx']

/-- `unlink` changes `next` at the predecessor only. -/
theorem unlink_next {L : Links α} {p : α} (hp : L.next p ≠ some p) (x : α) :
    (L.unlink p).next x = if L.prev p = some x then L.next p else L.next x := by
  have hL : ∀ M : Links α, M.next = L.next → M.prev p = L.prev p →
      (match M.prev p with
        | some q => { M with next := Function.update M.next q (M.next p) }
        | none => { M with head := M.next p }).next x
        = if L.prev p = some x then L.next p else L.next x := by
    intro M hM hMp
    rw [hMp]
    cases L.prev p with
    | none => simp [hM]
    | some q =>
      by_cases hx : q = x
      · subst hx
        simp [hM]
      · have hx' : x ≠ q := fun e => hx e.symm
        simp [hM, hx, hx']
  simp only [Links.unlink]
  cases hn : L.next p with
  | none => simpa only [hn] using hL L rfl rfl
  | some n =>
    have hpn : p ≠ n := fun e => hp (e ▸ hn)
    have := hL { L with prev := Function.update L.prev n (L.prev p) } rfl (by simp [hpn])
    simpa only [hn] using this

/-- `unlink` moves the head when the node is the first one. -/
theorem unlink_head {L : Links α} {p : α} (hp : L.next p ≠ some p) :
    (L.unlink p).head = if L.prev p = none then L.next p else L.head := by
  simp only [Links.unlink]
  cases hn : L.next p with
  | none => simp only [hn]; split <;> rename_i hq <;> simp [hq]
  | some n =>
    have hpn : p ≠ n := fun e => hp (e ▸ hn)
    simp only [Function.update_of_ne hpn, hn]
    split <;> rename_i hq <;> simp [hq]

omit [DecidableEq α] in
/-- Around a node of a list, its three parts have no node in common. -/
theorem nodup_split {a b : List α} {p : α} (h : (a ++ p :: b).Nodup) :
    p ∉ a ∧ p ∉ b ∧ ∀ x ∈ a, x ∉ b := by
  rw [List.nodup_append, List.nodup_cons] at h
  obtain ⟨_, ⟨hpb, _⟩, hab⟩ := h
  refine ⟨fun hm => hab p hm p (by simp) rfl, hpb, fun x hx hb => ?_⟩
  exact hab x hx x (List.mem_cons_of_mem _ hb) rfl

/-- Unlinking a node of the list removes it from the list. -/
theorem IsList.unlink {L : Links α} {l : List α} {p : α} (h : L.IsList l) (hp : p ∈ l) :
    (L.unlink p).IsList (l.erase p) := by
  obtain ⟨a, b, rfl⟩ := List.append_of_mem hp
  obtain ⟨hpa, hpb, hab⟩ := nodup_split h.nodup
  obtain ⟨hprevp, hnextp⟩ := h.links a p b rfl
  have hself : L.next p ≠ some p := fun e =>
    hpb (List.mem_of_mem_head? (by rw [← hnextp, e]; rfl))
  rw [List.erase_append_right _ hpa, List.erase_cons_head]
  refine ⟨h.nodup.sublist ((List.Sublist.refl a).append (List.sublist_cons_self p b)), ?_, ?_⟩
  · rw [unlink_head hself, hprevp, hnextp, h.head_eq]
    cases a with
    | nil => simp
    | cons y a => simp [List.getLast?_cons]
  intro l₁ x l₂ hsplit
  rw [unlink_prev hself, unlink_next hself, hprevp, hnextp]
  -- `x` is a node of `a` or of `b`; only the node next to `p` has a new neighbour
  have hcase : (∃ c, b = c ++ x :: l₂ ∧ l₁ = a ++ c) ∨ (∃ c, a = l₁ ++ x :: c ∧ l₂ = c ++ b) := by
    rcases List.append_eq_append_iff.mp hsplit with ⟨c, hl₁, hb⟩ | ⟨c, ha, hc⟩
    · exact .inl ⟨c, hb, hl₁⟩
    · cases c with
      | nil => exact .inl ⟨[], by simpa using hc.symm, by simpa using ha.symm⟩
      | cons y c =>
        obtain ⟨rfl, rfl⟩ : x = y ∧ l₂ = c ++ b := by simpa using hc
        exact .inr ⟨c, ha, rfl⟩
  rcases hcase with ⟨c, rfl, rfl⟩ | ⟨c, rfl, rfl⟩
  · obtain ⟨hprev, hnext⟩ := h.links (a ++ p :: c) x l₂ (by simp)
    have hxa : a.getLast? ≠ some x := fun e => hab x (List.mem_of_getLast? e) (by simp)
    rw [if_neg hxa, hprev, hnext]
    refine ⟨?_, rfl⟩
    cases c with
    | nil => simp
    | cons y c =>
      have hyx : y ≠ x := by
        rintro rfl
        have := (nodup_split (b := (c ++ y :: l₂)) (a := a ++ [p]) (p := y)
          (by simpa using h.nodup)).2.1
        simp at this
      rw [if_neg (by simp [hyx])]
      simp [List.getLast?_append, List.getLast?_cons]
  · obtain ⟨hprev, hnext⟩ := h.links l₁ x (c ++ p :: b) (by simp)
    have hxb : b.head? ≠ some x := fun e =>
      hab x (by simp) (List.mem_of_mem_head? (by simp [e]))
    rw [if_neg hxb, hprev, hnext]
    refine ⟨rfl, ?_⟩
    cases c with
    | nil => simp
    | cons y c =>
      have hlast : (l₁ ++ x :: y :: c).getLast? ≠ some x := by
        intro e
        have hm : (l₁ ++ x :: y :: c).getLast? = (y :: c).getLast? := by
          simp [List.getLast?_append, List.getLast?_cons]
        rw [hm] at e
        have hx := (nodup_split (a := l₁) (b := y :: c ++ p :: b) (p := x)
          (by simpa using h.nodup)).2.1
        exact hx (List.mem_append_left _ (List.mem_of_getLast? e))
      rw [if_neg hlast]
      simp

/-! ## Traversals -/

section walk
omit [DecidableEq α]
variable {σ : Type} (next : σ → α → Option α) (body : α → σ → σ)

/-- `while (x != NULL) { next = x->next; body(x); x = next; }`, at most `n` times round. -/
def walk : ℕ → Option α → σ → σ
  | 0, _, s => s
  | _ + 1, none, s => s
  | n + 1, some x, s => walk n (next s x) (body x s)

/-- A traversal is a fold over the nodes, provided some invariant `P` of the state and
of the nodes still to come says what `next` is and survives the body. -/
theorem walk_eq_foldl (P : σ → List α → Prop)
    (hP : ∀ s x r, P s (x :: r) → next s x = r.head? ∧ P (body x s) r) :
    ∀ (l : List α) (n : ℕ) (s : σ), P s l → l.length ≤ n →
      walk next body n l.head? s = l.foldl (fun s x => body x s) s := by
  intro l
  induction l with
  | nil => intro n s _ _; cases n <;> rfl
  | cons x l ih =>
    intro n s hs hn
    obtain ⟨hnext, hbody⟩ := hP s x l hs
    cases n with
    | zero => simp at hn
    | succ n =>
      simp only [List.head?_cons, walk, List.foldl_cons, hnext]
      exact ih n (body x s) hbody (by simpa using hn)

/-- Two traversals that do the same to what `f` shows of their states. -/
theorem walk_map {τ : Type} {next : σ → α → Option α} {body : α → σ → σ} (f : σ → τ)
    (next' : τ → α → Option α) (body' : α → τ → τ)
    (hnext : ∀ s x, next' (f s) x = next s x) (hbody : ∀ s x, f (body x s) = body' x (f s)) :
    ∀ (n : ℕ) (o : Option α) (s : σ), f (walk next body n o s) = walk next' body' n o (f s) := by
  intro n
  induction n with
  | zero => intro o s; rfl
  | succ n ih =>
    intro o s
    cases o with
    | none => rfl
    | some x => rw [walk, walk, ih, hnext, hbody]

end walk

end Links
end Campagnol
