import Mathlib.Data.Finset.Card
import Mathlib.Logic.Relation

/-!
# Texts with references

Nodes whose texts refer to other nodes. To unfold a node is to put the unfolded texts of the nodes
in the places of the references.

* `Unfolds`: what the text of a node unfolds to, if anything;
* `expand`: unfolding with a set of the nodes that are being unfolded, a reference to one of which
  gives `err`;
* `expand_of_lt`: the bound on the depth of `expand` does not matter;
* `expand_of_acyclic`: `expand` unfolds the nodes of an acyclic graph;
* `visits_of_reflTransGen`: `expand` comes to all nodes that it can reach.
-/

namespace Campagnol
namespace Unfold

variable {ν α : Type}

/-- A part of a text. -/
inductive Part (ν α : Type) where
  | text (t : List α)
  | ref (q : ν)

/-- The node `p` refers to `q`. -/
def Refers (parts : ν → List (Part ν α)) (p q : ν) : Prop := .ref q ∈ parts p

/-- The text whose references are replaced by `f`. -/
def fill (f : ν → List α) (l : List (Part ν α)) : List α :=
  l.flatMap fun part =>
    match part with
    | .text t => t
    | .ref q => f q

/-- What the text of a node unfolds to. A node on a cycle unfolds to nothing. -/
inductive Unfolds (parts : ν → List (Part ν α)) : ν → List α → Prop where
  | intro {p : ν} (f : ν → List α) (h : ∀ q, Refers parts p q → Unfolds parts q (f q)) :
      Unfolds parts p (fill f (parts p))

/-- Unfold the text of a node that is not among the nodes `busy`, at most `d` deep. -/
def expand [DecidableEq ν] (parts : ν → List (Part ν α)) (err : List α) :
    ℕ → Finset ν → ν → Option (List α)
  | 0, _, _ => none
  | d + 1, busy, p =>
    if p ∈ busy then none
    else some (fill (fun q => (expand parts err d (insert p busy) q).getD err) (parts p))

/-- The nodes that are unfolded for `p`, outside of `busy`. -/
inductive Visits [DecidableEq ν] (parts : ν → List (Part ν α)) : Finset ν → ν → ν → Prop where
  | self {busy : Finset ν} {p : ν} (h : p ∉ busy) : Visits parts busy p p
  | step {busy : Finset ν} {p q r : ν} (h : p ∉ busy) (hq : Refers parts p q)
      (hr : Visits parts (insert p busy) q r) : Visits parts busy p r

section Lemmas
variable {parts : ν → List (Part ν α)} {f g : ν → List α} {l : List (Part ν α)} {p : ν}
  {t t' : List α}

theorem fill_congr (h : ∀ q, .ref q ∈ l → f q = g q) : fill f l = fill g l := by
  induction l with
  | nil => rfl
  | cons part l ih =>
    have hl := ih fun q hq => h q (List.mem_cons_of_mem _ hq)
    rw [fill] at hl
    rw [fill, List.flatMap_cons, hl]
    cases part with
    | text t => rfl
    | ref q =>
      dsimp only
      rw [h q List.mem_cons_self]
      rfl

@[simp] theorem fill_nil : fill f [] = [] := rfl

@[simp] theorem fill_text (t : List α) : fill f (.text t :: l) = t ++ fill f l := List.flatMap_cons

@[simp] theorem fill_ref (q : ν) : fill f (.ref q :: l) = f q ++ fill f l := List.flatMap_cons

theorem fill_append (l' : List (Part ν α)) : fill f (l ++ l') = fill f l ++ fill f l' :=
  List.flatMap_append

/-- What holds of the parts holds of the text. -/
theorem forall_fill {P : α → Prop} (htext : ∀ t, .text t ∈ l → ∀ a ∈ t, P a)
    (hf : ∀ q, .ref q ∈ l → ∀ a ∈ f q, P a) : ∀ a ∈ fill f l, P a := by
  intro a ha
  obtain ⟨part, hpart, ha⟩ := List.mem_flatMap.mp ha
  cases part with
  | text t => exact htext t hpart a ha
  | ref q => exact hf q hpart a ha

/-- Nodes with the same parts unfold alike. -/
theorem Unfolds.congr {parts' : ν → List (Part ν α)} {V : ν → Prop}
    (hV : ∀ p q, V p → Refers parts p q → V q) (heq : ∀ p, V p → parts p = parts' p)
    (h : Unfolds parts p t) (hp : V p) : Unfolds parts' p t := by
  induction h with
  | @intro p f _ ih =>
    have hparts := heq p hp
    rw [hparts]
    refine .intro f fun q hq => ?_
    rw [Refers, ← hparts] at hq
    exact ih q hq (hV p q hp hq)

theorem Unfolds.unique (h : Unfolds parts p t) (h' : Unfolds parts p t') : t = t' := by
  induction h generalizing t' with
  | intro f _ ih =>
    obtain ⟨g, hg⟩ := h'
    exact fill_congr fun q hq => ih q hq (hg q hq)

variable [DecidableEq ν] {err : List α} {d d' : ℕ} {busy V : Finset ν}

/-- Fewer nodes are left for the references of a node. -/
theorem card_sdiff_insert_lt (hp : p ∈ V) (hbusy : p ∉ busy) :
    (V \ insert p busy).card < (V \ busy).card := by
  refine Finset.card_lt_card ⟨fun q hq => ?_, fun hsub => ?_⟩
  · rw [Finset.mem_sdiff, Finset.mem_insert, not_or] at hq
    exact Finset.mem_sdiff.mpr ⟨hq.1, hq.2.2⟩
  · have hmem := hsub (Finset.mem_sdiff.mpr ⟨hp, hbusy⟩)
    exact (Finset.mem_sdiff.mp hmem).2 (Finset.mem_insert_self p busy)

/-- A depth above the number of the nodes that are left is no bound. -/
theorem expand_of_lt (hV : ∀ p q, p ∈ V → Refers parts p q → q ∈ V) (hp : p ∈ V)
    (hd : (V \ busy).card < d) (hd' : (V \ busy).card < d') :
    expand parts err d busy p = expand parts err d' busy p := by
  induction d generalizing d' busy p with
  | zero => omega
  | succ d ih =>
    obtain ⟨d', rfl⟩ := Nat.exists_eq_succ_of_ne_zero (Nat.ne_zero_of_lt hd')
    simp only [expand]
    split
    · rfl
    · rename_i hbusy
      have hlt := card_sdiff_insert_lt hp hbusy
      refine congrArg some (fill_congr fun q hq => ?_)
      have hrec : expand parts err d (insert p busy) q = expand parts err d' (insert p busy) q :=
        ih (hV p q hp hq) (by omega) (by omega)
      rw [hrec]

/-- Nodes with the same parts are unfolded alike. -/
theorem expand_congr {parts' : ν → List (Part ν α)}
    (hV : ∀ p q, p ∈ V → Refers parts p q → q ∈ V) (heq : ∀ p ∈ V, parts p = parts' p)
    (hp : p ∈ V) : expand parts err d busy p = expand parts' err d busy p := by
  induction d generalizing busy p with
  | zero => rfl
  | succ d ih =>
    simp only [expand]
    split
    · rfl
    · rw [← heq p hp]
      refine congrArg some (fill_congr fun q hq => ?_)
      rw [ih (hV p q hp hq)]

/-- What holds of all texts holds of the unfolded ones. -/
theorem forall_expand {P : α → Prop} (htext : ∀ p t, .text t ∈ parts p → ∀ a ∈ t, P a)
    (herr : ∀ a ∈ err, P a) (h : expand parts err d busy p = some t) : ∀ a ∈ t, P a := by
  induction d generalizing busy p t with
  | zero => cases h
  | succ d ih =>
    rw [expand] at h
    split at h
    · cases h
    · cases h
      refine forall_fill (htext p) fun q _ => ?_
      cases hq : expand parts err d (insert p busy) q with
      | none => exact herr
      | some u => exact ih hq

/-- Without cycles, no reference leads to a node that is being unfolded. -/
theorem expand_of_acyclic (hV : ∀ p q, p ∈ V → Refers parts p q → q ∈ V) (hp : p ∈ V)
    (hacyclic : ∀ q ∈ V, ¬ Relation.TransGen (Refers parts) q q)
    (hbusy : ∀ b ∈ busy, Relation.TransGen (Refers parts) b p) (hd : (V \ busy).card < d) :
    ∃ t, expand parts err d busy p = some t ∧ Unfolds parts p t := by
  induction d generalizing busy p with
  | zero => omega
  | succ d ih =>
    have hnot : p ∉ busy := fun hmem => hacyclic p hp (hbusy p hmem)
    have hlt := card_sdiff_insert_lt hp hnot
    refine ⟨_, by rw [expand, if_neg hnot], .intro _ fun q hq => ?_⟩
    have hbusy' : ∀ b ∈ insert p busy, Relation.TransGen (Refers parts) b q := by
      intro b hb
      rcases Finset.mem_insert.mp hb with rfl | hb
      · exact .single hq
      · exact (hbusy b hb).tail hq
    obtain ⟨t, ht, hunfolds⟩ := ih (hV p q hp hq) hbusy' (by omega)
    rw [ht]
    exact hunfolds

omit [DecidableEq ν] in
/-- A path that does not come back to where it starts. -/
theorem exists_step_of_reflTransGen {R : ν → ν → Prop} {r : ν} (h : Relation.ReflTransGen R p r)
    (hr : r ≠ p) :
    ∃ q, R p q ∧ q ≠ p ∧ Relation.ReflTransGen (fun a b => R a b ∧ b ≠ p) q r := by
  induction h with
  | refl => exact absurd rfl hr
  | @tail b c _ hbc ih =>
    by_cases hb : b = p
    · rw [hb] at hbc
      exact ⟨c, hbc, hr, .refl⟩
    · obtain ⟨q, hq, hqp, hpath⟩ := ih hb
      exact ⟨q, hq, hqp, hpath.tail ⟨hbc, hr⟩⟩

/-- Every node that can be reached outside of `busy` is unfolded. -/
theorem visits_of_reflTransGen (hV : ∀ p q, p ∈ V → Refers parts p q → q ∈ V) {r : ν} (hp : p ∈ V)
    (hbusy : p ∉ busy)
    (h : Relation.ReflTransGen (fun a b => Refers parts a b ∧ b ∉ busy) p r) :
    Visits parts busy p r := by
  induction hn : (V \ busy).card using Nat.strong_induction_on generalizing busy p with
  | _ n ih =>
    by_cases hr : r = p
    · rw [hr]
      exact .self hbusy
    · obtain ⟨q, hq, hqp, hpath⟩ := exists_step_of_reflTransGen h hr
      have hlt := card_sdiff_insert_lt hp hbusy
      refine .step hbusy hq.1 (ih _ (by omega) (hV p q hp hq.1) ?_
        (Relation.ReflTransGen.mono ?_ _ _ hpath) rfl)
      · rw [Finset.mem_insert, not_or]
        exact ⟨hqp, hq.2⟩
      · rintro a b ⟨⟨hab, hb⟩, hbp⟩
        rw [Finset.mem_insert, not_or]
        exact ⟨hab, hbp, hb⟩

end Lemmas
end Unfold
end Campagnol
