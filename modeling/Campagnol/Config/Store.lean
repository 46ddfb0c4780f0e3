import Campagnol.Config.Parser
import Campagnol.Lib.Run

/-!
# The store of the parser

A context under any calls of the functions that change it.

* `Call`, `ParserContext.step`: the calls, with pointers to items that are in the context;
* `consistent_of_steps`: without a call of `parser_value_remove`, the trees, the lists and the
  counters of every context that can be reached agree;
* `ParserContext.Holds.step_ok`: what every call keeps.
-/

namespace Campagnol
namespace Config

/-! ## Calls -/

/-- A call of a function of `config_parser.h` that changes the context. A section and a key are
given by the number of their creation, a value by its place. -/
inductive Call where
  | sectionAdd (name : CString)
  | sectionRemove (p : Option ℕ)
  | keyAdd (p : ℕ) (name : CString)
  | keyRemove (p : ℕ) (q : Option ℕ)
  | valueAdd (p q : ℕ) (value : CString) (nline : ℕ)
  | valueRemove (p q : ℕ) (i : ℕ)
  | set (sectionName key value : CString) (nline : ℕ)
deriving DecidableEq, Repr

/-- The call is one of `parser_value_remove`. -/
def Call.isValueRemove : Call → Bool
  | .valueRemove _ _ _ => true
  | _ => false

/-- Change the section `p`, which has to be in the context. -/
def ParserContext.inSection (parser : ParserContext) (p : ℕ)
    (f : ItemSection → Option ItemSection) : Option ParserContext :=
  if p ∈ parser.sections.queue then
    (f (parser.sections.item p)).map fun item =>
      { parser with sections := parser.sections.modify p fun _ => item }
  else none

/-- Change the key `q`, which has to be in the section. -/
def ItemSection.inKey (item : ItemSection) (q : ℕ) (f : ItemKey → Option ItemKey) :
    Option ItemSection :=
  if q ∈ item.keys.queue then
    (f (item.keys.item q)).map fun key => { item with keys := item.keys.modify q fun _ => key }
  else none

/-- The context after a call, whose pointers are NULL or point to items of the context. -/
def ParserContext.step (parser : ParserContext) : Call → Option ParserContext
  | .sectionAdd name => some (parserSectionAdd name parser).2
  | .sectionRemove p =>
    if ∀ p' ∈ p, p' ∈ parser.sections.queue then some (parserSectionRemove p parser) else none
  | .keyAdd p name => parser.inSection p fun item => some (parserKeyAdd name item).2
  | .keyRemove p q => parser.inSection p fun item =>
    if ∀ q' ∈ q, q' ∈ item.keys.queue then some (parserKeyRemove q item) else none
  | .valueAdd p q value nline => parser.inSection p fun item => item.inKey q fun key =>
    some (parserValueAdd value nline key)
  | .valueRemove p q i => parser.inSection p fun item => item.inKey q fun key =>
    if i < key.valuesList.length then some (parserValueRemove i key) else none
  | .set sectionName key value nline => some (parserSet sectionName key value nline parser)

/-! ## What the calls keep -/

/-- Every key of every section satisfies `P`, and the tables are in order. -/
def ItemSection.Holds (P : ItemKey → Prop) (item : ItemSection) : Prop :=
  item.keys.Holds strcmp ItemKey.name P

def ParserContext.Holds (P : ItemKey → Prop) (parser : ParserContext) : Prop :=
  parser.sections.Holds strcmp ItemSection.name (ItemSection.Holds P)

section Holds
variable {P : ItemKey → Prop} {parser parser' : ParserContext} {item item' : ItemSection}

theorem holds_parserInit (allowDefault allowEmptyValue : Bool) :
    (parserInit allowDefault allowEmptyValue).Holds P := Table.holds_empty _ _ _

theorem ParserContext.Holds.inSection (h : parser.Holds P) {p : ℕ}
    {f : ItemSection → Option ItemSection}
    (hf : ∀ item item', item.Holds P → f item = some item' →
      item'.Holds P ∧ item'.name = item.name)
    (hstep : parser.inSection p f = some parser') : parser'.Holds P := by
  unfold ParserContext.inSection at hstep
  split at hstep
  · rename_i hp
    obtain ⟨item, hitem, rfl⟩ := Option.map_eq_some_iff.mp hstep
    obtain ⟨hholds, hname⟩ := hf _ _ (Table.Holds.of_mem h hp) hitem
    exact Table.Holds.modify (f := fun _ => item) h hname hholds
  · cases hstep

theorem ItemSection.Holds.inKey (h : item.Holds P) {q : ℕ} {f : ItemKey → Option ItemKey}
    (hf : ∀ key key', P key → f key = some key' → P key' ∧ key'.name = key.name)
    (hstep : item.inKey q f = some item') : item'.Holds P ∧ item'.name = item.name := by
  unfold ItemSection.inKey at hstep
  split at hstep
  · rename_i hq
    obtain ⟨key, hkey, rfl⟩ := Option.map_eq_some_iff.mp hstep
    obtain ⟨hP, hname⟩ := hf _ _ (Table.Holds.of_mem h hq) hkey
    exact ⟨Table.Holds.modify (f := fun _ => key) h hname hP, rfl⟩
  · cases hstep

theorem ItemSection.Holds.set (h : item.Holds P) (hnew : ∀ name, P ⟨name, 0, []⟩)
    (hadd : ∀ value nline key, P key → P (parserValueAdd value nline key)) (key value : CString)
    (nline : ℕ) : (parserSetKey key value nline item).Holds P :=
  Table.Holds.modify_add h rfl (hnew key) (fun _ => rfl) fun y hy => hadd value nline y hy

/-- A call keeps what new keys and added values satisfy, and removed values keep, if it removes
one. -/
theorem ParserContext.Holds.step (h : parser.Holds P) (hnew : ∀ name, P ⟨name, 0, []⟩)
    (hadd : ∀ value nline key, P key → P (parserValueAdd value nline key)) {call : Call}
    (hremove : call.isValueRemove = true → ∀ i key, P key → P (parserValueRemove i key))
    (hstep : parser.step call = some parser') : parser'.Holds P := by
  cases call with
  | sectionAdd name =>
    cases hstep
    exact Table.Holds.add h rfl (Table.holds_empty _ _ _)
  | sectionRemove p =>
    simp only [ParserContext.step] at hstep
    split at hstep <;> cases hstep
    rename_i hp
    cases p with
    | none => exact h
    | some p => exact Table.Holds.remove h (hp p rfl)
  | keyAdd p name =>
    rw [ParserContext.step] at hstep
    refine h.inSection (fun item item' hitem heq => ?_) hstep
    cases heq
    exact ⟨Table.Holds.add hitem rfl (hnew name), rfl⟩
  | keyRemove p q =>
    rw [ParserContext.step] at hstep
    refine h.inSection (fun item item' hitem heq => ?_) hstep
    split at heq <;> cases heq
    rename_i hq
    cases q with
    | none => exact ⟨hitem, rfl⟩
    | some q => exact ⟨Table.Holds.remove hitem (hq q rfl), rfl⟩
  | valueAdd p q value nline =>
    rw [ParserContext.step] at hstep
    refine h.inSection (fun item item' hitem heq => hitem.inKey (fun key key' hkey heq => ?_) heq)
      hstep
    cases heq
    exact ⟨hadd value nline key hkey, rfl⟩
  | valueRemove p q i =>
    rw [ParserContext.step] at hstep
    refine h.inSection (fun item item' hitem heq => hitem.inKey (fun key key' hkey heq => ?_) heq)
      hstep
    split at heq <;> cases heq
    exact ⟨hremove rfl i key hkey, rfl⟩
  | set sectionName key value nline =>
    cases hstep
    exact Table.Holds.modify_add h rfl (Table.holds_empty _ _ _) (fun _ => rfl) fun item hitem =>
      hitem.set hnew hadd key value nline

end Holds

/-! ## Reachable contexts -/

/-- The tree and the list of a table hold the same items, with different names, in the order in
which they were inserted. -/
structure Listed {α : Type} (name : α → CString) (T : Table α) : Prop where
  ordered : SearchTree.Ordered strcmp (T.key name) T.tree
  mem_iff : ∀ p, p ∈ T.tree ↔ p ∈ T.queue
  names : (T.toList.map name).Nodup
  sorted : T.queue.Pairwise (· < ·)

theorem listed_of_holds {α : Type} {name : α → CString} {P : α → Prop} {T : Table α}
    (h : T.Holds strcmp name P) : Listed name T :=
  ⟨h.inv.ordered, h.inv.mem_iff, h.inv.nodup_names, h.sorted⟩

/-- The trees, the lists and the counters of a context agree. -/
structure ParserContext.Consistent (parser : ParserContext) : Prop where
  sections : Listed ItemSection.name parser.sections
  keys : ∀ item ∈ parser.sections.toList, Listed ItemKey.name item.keys
  nValues : ∀ item ∈ parser.sections.toList, ∀ key ∈ item.keys.toList,
    parserKeyGetNvalues key = key.valuesList.length

/-- In every context that calls without `parser_value_remove` can reach, the trees, the lists and
the counters agree. -/
theorem consistent_of_steps (allowDefault allowEmptyValue : Bool) (parser : ParserContext)
    (h : Steps ParserContext.step (fun _ call => call.isValueRemove = false)
      (parserInit allowDefault allowEmptyValue) parser) : parser.Consistent := by
  have hholds : parser.Holds fun key => key.nValues = key.valuesList.length := by
    refine h.invariant (P := ParserContext.Holds _) (holds_parserInit _ _) ?_
    intro parser call parser' hparser hcall hstep
    refine hparser.step (fun _ => rfl) (fun value nline key hkey => ?_) (fun hremove => ?_) hstep
    · simp [parserValueAdd, hkey]
    · rw [hcall] at hremove
      cases hremove
  exact ⟨listed_of_holds hholds, fun item hitem => listed_of_holds (hholds.all item hitem),
    fun item hitem key hkey => (hholds.all item hitem).all key hkey⟩

/-- Two sections `V` and `C` with two keys each, and one key with two values. The second key of `V`
is removed, then the section `C`, which is added again. -/
def edits : List Call :=
  [.set (cstr [86]) (cstr [109]) (cstr [49]) 1, .valueAdd 0 0 (cstr [50]) 2,
    .set (cstr [86]) (cstr [112]) (cstr [50]) 3, .set (cstr [67]) (cstr [109]) (cstr [49]) 5,
    .set (cstr [67]) (cstr [112]) (cstr [50]) 6, .keyRemove 0 (some 1), .sectionRemove (some 1),
    .set (cstr [67]) (cstr [112]) (cstr [49]) 8, .keyAdd 0 (cstr [112])]

/-- The keys with the names of their sections, `n_values` and the values. -/
def ParserContext.summary (parser : ParserContext) :
    List (CString × CString × Int × List CString) :=
  parser.sections.toList.flatMap fun item => item.keys.toList.map fun key =>
    (item.name, key.name, key.nValues, key.valuesList.map ItemValue.s)

/-- The keys after `edits`. -/
def edited : List (CString × CString × Int × List CString) :=
  [(cstr [86], cstr [109], 2, [cstr [49], cstr [50]]), (cstr [86], cstr [112], 0, []),
    (cstr [67], cstr [112], 1, [cstr [49]])]

theorem consistent_of_edits :
    ∃ parser, Steps ParserContext.step (fun _ call => call.isValueRemove = false)
        (parserInit true true) parser ∧ parser.summary = edited ∧ parser.Consistent := by
  have hrun : (runOk ParserContext.step (fun _ call => call.isValueRemove = false) edits
      (parserInit true true)).map ParserContext.summary = some edited := by decide +kernel
  obtain ⟨parser, hs, hsummary⟩ := Option.map_eq_some_iff.mp hrun
  have hsteps := Steps.of_runOk .refl hs
  exact ⟨parser, hsteps, hsummary, consistent_of_steps true true parser hsteps⟩

/-- `parser_value_remove` does not count down: after `parser_set` and `parser_value_remove` there is
a key without values whose `n_values` is 1. -/
theorem not_consistent_of_valueRemove :
    ¬ ∀ (allowDefault allowEmptyValue : Bool) (parser : ParserContext),
      Steps ParserContext.step (fun _ _ => True) (parserInit allowDefault allowEmptyValue) parser →
        parser.Consistent := by
  intro h
  have hsteps : Steps ParserContext.step (fun _ _ => True) (parserInit true true) _ :=
    .tail (e := .valueRemove 0 0 0)
      (.tail (e := .set default default default 1) .refl trivial rfl) trivial rfl
  have hnValues := (h true true _ hsteps).nValues _ List.mem_cons_self _ List.mem_cons_self
  exact absurd hnValues (by decide)

/-- A key between two calls: the counter is not too small, and no value is being expanded. -/
structure ItemKey.Ok (key : ItemKey) : Prop where
  length_le : key.valuesList.length ≤ key.nValues
  expanding : ∀ value ∈ key.valuesList, value.expanding = false

theorem ok_new (name : CString) : ItemKey.Ok ⟨name, 0, []⟩ := ⟨by simp, by simp⟩

theorem ItemKey.Ok.valueAdd (value : CString) (nline : ℕ) (key : ItemKey) (h : key.Ok) :
    (parserValueAdd value nline key).Ok := by
  refine ⟨?_, fun v hv => ?_⟩
  · have hle := h.length_le
    simp only [parserValueAdd, List.length_append, List.length_singleton]
    omega
  · rcases List.mem_append.mp hv with hv | hv
    · exact h.expanding v hv
    · rw [List.mem_singleton.mp hv]

theorem ItemKey.Ok.valueRemove (i : ℕ) (key : ItemKey) (h : key.Ok) :
    (parserValueRemove i key).Ok := by
  have hsublist : (key.valuesList.eraseIdx i).Sublist key.valuesList := List.eraseIdx_sublist _ _
  refine ⟨?_, fun v hv => h.expanding v (hsublist.subset hv)⟩
  have hle := h.length_le
  have hle' := hsublist.length_le
  simp only [parserValueRemove]
  omega

/-- Every call keeps the keys and the tables in order. -/
theorem ParserContext.Holds.step_ok {parser parser' : ParserContext} {call : Call}
    (h : parser.Holds ItemKey.Ok) (hstep : parser.step call = some parser') :
    parser'.Holds ItemKey.Ok :=
  h.step ok_new ItemKey.Ok.valueAdd (fun _ => ItemKey.Ok.valueRemove) hstep

end Config
end Campagnol
