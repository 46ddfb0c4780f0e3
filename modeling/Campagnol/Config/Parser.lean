import Campagnol.Config.Strlib
import Campagnol.Lib.Table

/-!
# The configuration

Sections with keys with values, as `common/config_parser.c` stores them. The sections of a context
and the keys of a section are in a tail queue and in a search tree ordered by name; the values of a
key are in a tail queue. A failed allocation ends the program and is left out.
-/

namespace Campagnol
namespace Config

/-! ## Data -/

/-- `item_value_t`. -/
structure ItemValue where
  s : CString
  nline : ℕ
  expanded : StrBuf
  expanding : Bool

/-- `item_key_t`. -/
structure ItemKey where
  name : CString
  nValues : Int
  valuesList : List ItemValue
deriving Inhabited

/-- `item_section_t`. `keys` are `keys_tree` and `keys_list`. -/
structure ItemSection where
  name : CString
  keys : Table ItemKey

instance : Inhabited ItemSection := ⟨⟨default, .empty⟩⟩

/-- `parser_context_t`. `sections` are `sections_tree` and `sections_list`. -/
structure ParserContext where
  allowDefault : Bool
  allowEmptyValue : Bool
  sections : Table ItemSection

/-! ## Operations -/

/-- `parser_init`. -/
def parserInit (allowDefault allowEmptyValue : Bool) : ParserContext :=
  ⟨allowDefault, allowEmptyValue, .empty⟩

/-- `parser_section_add`. -/
def parserSectionAdd (name : CString) (parser : ParserContext) : ℕ × ParserContext :=
  let r := parser.sections.add strcmp ItemSection.name name ⟨name, .empty⟩
  (r.1, { parser with sections := r.2 })

/-- `parser_key_add`. -/
def parserKeyAdd (name : CString) (item : ItemSection) : ℕ × ItemSection :=
  let r := item.keys.add strcmp ItemKey.name name ⟨name, 0, []⟩
  (r.1, { item with keys := r.2 })

/-- `parser_value_add`. -/
def parserValueAdd (value : CString) (nline : ℕ) (item : ItemKey) : ItemKey :=
  { item with
    nValues := item.nValues + 1
    valuesList := item.valuesList ++ [⟨value, nline, .reset, false⟩] }

/-- The part of `parser_set` inside of a section. -/
def parserSetKey (key value : CString) (nline : ℕ) (item : ItemSection) : ItemSection :=
  let r := parserKeyAdd key item
  { r.2 with keys := r.2.keys.modify r.1 (parserValueAdd value nline) }

/-- `parser_set`. -/
def parserSet (sectionName key value : CString) (nline : ℕ) (parser : ParserContext) :
    ParserContext :=
  let r := parserSectionAdd sectionName parser
  { r.2 with sections := r.2.sections.modify r.1 (parserSetKey key value nline) }

/-- `parser_section_get`. -/
def parserSectionGet (name : CString) (parser : ParserContext) : Option ℕ :=
  parser.sections.find strcmp ItemSection.name name

/-- `parser_section_remove`. -/
def parserSectionRemove (p : Option ℕ) (parser : ParserContext) : ParserContext :=
  match p with
  | none => parser
  | some p => { parser with sections := parser.sections.remove strcmp ItemSection.name p }

/-- `parser_key_get`. -/
def parserKeyGet (name : CString) (item : ItemSection) : Option ℕ :=
  item.keys.find strcmp ItemKey.name name

/-- `parser_key_remove`. -/
def parserKeyRemove (p : Option ℕ) (item : ItemSection) : ItemSection :=
  match p with
  | none => item
  | some p => { item with keys := item.keys.remove strcmp ItemKey.name p }

/-- `parser_key_get_nvalues`. -/
def parserKeyGetNvalues (item : ItemKey) : Int := item.nValues

/-- `parser_value_get`, for a key that exists: the place of the value in `values_list`. -/
def parserValueGet (n : Int) (item : ItemKey) : Option ℕ :=
  if item.nValues = 0 ∨ n > item.nValues then none
  else if n = -1 then
    -- `TAILQ_LAST`, which is NULL for an empty queue
    if item.valuesList.length = 0 then none else some (item.valuesList.length - 1)
  else if 0 ≤ n ∧ n.toNat < item.valuesList.length then some n.toNat
  else none

/-- `parser_value_remove`, for the value at the place `i`. -/
def parserValueRemove (i : ℕ) (item : ItemKey) : ItemKey :=
  { item with valuesList := item.valuesList.eraseIdx i }

/-! ## Contents -/

/-- The names and the values of a configuration, in their order. -/
abbrev Content := List (CString × List (CString × List CString))

/-- The values of a key. -/
def ItemKey.content (item : ItemKey) : List CString := item.valuesList.map ItemValue.s

/-- The keys of a section with their values. -/
def ItemSection.content (item : ItemSection) : List (CString × List CString) :=
  item.keys.toList.map fun key => (key.name, key.content)

/-- The sections of a context with their keys. -/
def ParserContext.content (parser : ParserContext) : Content :=
  parser.sections.toList.map fun item => (item.name, item.content)

/-- What `parser_set` does to the contents. -/
def Content.set (c : Content) (sectionName key value : CString) : Content :=
  upsert sectionName [] (upsert key [] (· ++ [value])) c

/-! ## Invariants -/

/-- The queue and the tree of every table hold the same items. -/
structure ParserContext.Inv (parser : ParserContext) : Prop where
  sections : parser.sections.Inv strcmp ItemSection.name
  keys : ∀ item ∈ parser.sections.toList, item.keys.Inv strcmp ItemKey.name

theorem inv_parserInit (allowDefault allowEmptyValue : Bool) :
    (parserInit allowDefault allowEmptyValue).Inv where
  sections := Table.inv_empty _ _
  keys := fun _ h => by cases h

theorem content_parserInit (allowDefault allowEmptyValue : Bool) :
    (parserInit allowDefault allowEmptyValue).content = [] := rfl

section Set
variable {sectionName key value : CString} {nline : ℕ} {item : ItemSection} {parser : ParserContext}

theorem content_parserValueAdd (item : ItemKey) :
    (parserValueAdd value nline item).content = item.content ++ [value] := by
  simp [ItemKey.content, parserValueAdd]

theorem inv_parserSetKey (h : item.keys.Inv strcmp ItemKey.name) :
    (parserSetKey key value nline item).keys.Inv strcmp ItemKey.name := by
  have hadd := h.add (x := ⟨key, 0, []⟩) (k := key) rfl
  exact hadd.modify (f := parserValueAdd value nline) rfl

theorem content_parserSetKey (h : item.keys.Inv strcmp ItemKey.name) :
    (parserSetKey key value nline item).content = upsert key [] (· ++ [value]) item.content :=
  h.upsert_of_add rfl (fun _ => rfl) fun y _ => content_parserValueAdd y

theorem ParserContext.Inv.set (h : parser.Inv) (sectionName key value : CString) (nline : ℕ) :
    (parserSet sectionName key value nline parser).Inv where
  sections := by
    have hadd := h.sections.add (x := ⟨sectionName, .empty⟩) (k := sectionName) rfl
    exact hadd.modify (f := parserSetKey key value nline) rfl
  keys := by
    -- the section that is changed was there, or is new and has no keys
    have hkeys : ∀ item, item ∈ parser.sections.toList ∨ item = ⟨sectionName, .empty⟩ →
        item.keys.Inv strcmp ItemKey.name := by
      rintro item (hitem | rfl)
      · exact h.keys item hitem
      · exact Table.inv_empty _ _
    intro item hitem
    rcases Table.toList_modify_subset hitem with hold | rfl
    · exact hkeys item (h.sections.mem_add rfl hold)
    · have hadded := h.sections.item_add (x := ⟨sectionName, .empty⟩) (k := sectionName) rfl
      exact inv_parserSetKey (hkeys _ hadded.2)

theorem ParserContext.Inv.content_set (h : parser.Inv) :
    (parserSet sectionName key value nline parser).content =
      parser.content.set sectionName key value := by
  refine h.sections.upsert_of_add rfl (fun _ => rfl) fun item hitem => content_parserSetKey ?_
  rcases hitem with hitem | rfl
  · exact h.keys item hitem
  · exact Table.inv_empty _ _

end Set
end Config
end Campagnol
