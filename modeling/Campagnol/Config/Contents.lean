import Campagnol.Config.Parser

/-!
# The contents of a configuration

What calls of `parser_set` build: lists with different names and without empty sections and keys.

* `wellFormed_of_sets`: the contents after any calls;
* `set_entries`: setting the entries of such contents one after the other builds them again.
-/

namespace Campagnol
namespace Config

/-- A call of `parser_set`: section, key and value. -/
abbrev Entry := CString × CString × CString

/-- The calls of `parser_set` one after the other. -/
def Content.sets (c : Content) (es : List Entry) : Content :=
  es.foldl (fun c e => c.set e.1 e.2.1 e.2.2) c

/-- The calls of `parser_set` one after the other, each with a line number. -/
def parserSets (es : List (Entry × ℕ)) (parser : ParserContext) : ParserContext :=
  es.foldl (fun parser e => parserSet e.1.1 e.1.2.1 e.1.2.2 e.2 parser) parser

theorem ParserContext.Inv.sets {parser : ParserContext} (h : parser.Inv) (es : List (Entry × ℕ)) :
    (parserSets es parser).Inv ∧
      (parserSets es parser).content = parser.content.sets (es.map Prod.fst) := by
  induction es generalizing parser with
  | nil => exact ⟨h, rfl⟩
  | cons e es ih =>
    obtain ⟨hinv, hcontent⟩ := ih (h.set e.1.1 e.1.2.1 e.1.2.2 e.2)
    refine ⟨hinv, hcontent.trans ?_⟩
    rw [h.content_set]
    rfl

/-! ## Well-formed contents -/

/-- The keys of a section have different names and values. -/
structure KeysWellFormed (ks : List (CString × List CString)) : Prop where
  ne_nil : ks ≠ []
  nodup : (ks.map Prod.fst).Nodup
  values : ∀ x ∈ ks, x.2 ≠ []

/-- The sections have different names and well-formed keys. -/
structure Content.WellFormed (c : Content) : Prop where
  nodup : (c.map Prod.fst).Nodup
  keys : ∀ x ∈ c, KeysWellFormed x.2

theorem wellFormed_nil : Content.WellFormed [] := ⟨List.nodup_nil, by simp⟩

theorem keysWellFormed_upsert {ks : List (CString × List CString)} (key value : CString)
    (hnodup : (ks.map Prod.fst).Nodup) (hvalues : ∀ x ∈ ks, x.2 ≠ []) :
    KeysWellFormed (upsert key [] (· ++ [value]) ks) where
  ne_nil := upsert_ne_nil
  nodup := nodup_upsert hnodup
  values := forall_upsert (P := fun x => x.2 ≠ []) hvalues (by simp) (by simp)

theorem Content.WellFormed.set {c : Content} (h : c.WellFormed) (sectionName key value : CString) :
    (c.set sectionName key value).WellFormed where
  nodup := nodup_upsert h.nodup
  keys := by
    refine forall_upsert (P := fun x => KeysWellFormed x.2) h.keys ?_ fun ks hks => ?_
    · exact keysWellFormed_upsert key value List.nodup_nil (by simp)
    · exact keysWellFormed_upsert key value hks.nodup hks.values

theorem wellFormed_of_sets {c : Content} (h : c.WellFormed) (es : List Entry) :
    (c.sets es).WellFormed := by
  induction es generalizing c with
  | nil => exact h
  | cons e es ih => exact ih (h.set e.1 e.2.1 e.2.2)

/-! ## Entries -/

/-- The values of a section, each with its key. -/
def keyEntries (ks : List (CString × List CString)) : List (CString × CString) := flatten id ks

/-- The values of a configuration, each with its section and its key. -/
def Content.entries (c : Content) : List Entry := flatten keyEntries c

theorem KeysWellFormed.entries_ne_nil {ks : List (CString × List CString)}
    (h : KeysWellFormed ks) : keyEntries ks ≠ [] := by
  obtain ⟨x, ks', rfl⟩ := List.exists_cons_of_ne_nil h.ne_nil
  have hx := h.values x List.mem_cons_self
  simp [keyEntries, flatten, hx]

theorem foldl_snoc {α : Type} (l acc : List α) : l.foldl (fun c v => c ++ [v]) acc = acc ++ l := by
  induction l generalizing acc with
  | nil => simp
  | cons v l ih =>
    rw [List.foldl_cons, ih]
    simp

theorem KeysWellFormed.set_entries {ks : List (CString × List CString)} (h : KeysWellFormed ks) :
    (keyEntries ks).foldl (fun c e => upsert e.1 [] (· ++ [e.2]) c) [] = ks := by
  refine foldl_flatten (g := fun v => (· ++ [v])) h.nodup fun x hx => ⟨h.values x hx, ?_⟩
  exact foldl_snoc x.2 []

/-- Setting all entries builds the contents again. -/
theorem Content.WellFormed.set_entries {c : Content} (h : c.WellFormed) :
    Content.sets [] c.entries = c := by
  refine foldl_flatten (g := fun e : CString × CString => upsert e.1 [] (· ++ [e.2])) h.nodup
    fun x hx => ?_
  exact ⟨(h.keys x hx).entries_ne_nil, (h.keys x hx).set_entries⟩

theorem mem_keyEntries_upsert {ks : List (CString × List CString)} {key value : CString}
    {e : CString × CString} (he : e ∈ keyEntries (upsert key [] (· ++ [value]) ks)) :
    e = (key, value) ∨ e ∈ keyEntries ks := by
  obtain ⟨vs, hvs, hv⟩ := mem_flatten.mp he
  refine forall_upsert (P := fun x => ∀ v ∈ x.2, (x.1, v) = (key, value) ∨ (x.1, v) ∈ keyEntries ks)
    (fun x hx v hv => ?_) ?_ (fun vs hvs v hv => ?_) _ hvs e.2 hv
  · exact .inr (mem_flatten.mpr ⟨x.2, hx, hv⟩)
  · intro v hv
    rw [List.nil_append, List.mem_singleton] at hv
    exact .inl (by rw [hv])
  · rcases List.mem_append.mp hv with hv | hv
    · exact hvs v hv
    · exact .inl (by rw [List.mem_singleton.mp hv])

theorem mem_entries_set {c : Content} {sectionName key value : CString} {e : Entry}
    (he : e ∈ (c.set sectionName key value).entries) :
    e = (sectionName, key, value) ∨ e ∈ c.entries := by
  obtain ⟨ks, hks, hk⟩ := mem_flatten.mp he
  refine forall_upsert
    (P := fun x => ∀ k ∈ keyEntries x.2,
      (x.1, k) = (sectionName, key, value) ∨ (x.1, k) ∈ c.entries)
    (fun x hx k hk => ?_) ?_ (fun ks hks k hk => ?_) _ hks e.2 hk
  · exact .inr (mem_flatten.mpr ⟨x.2, hx, hk⟩)
  · intro k hk
    rcases mem_keyEntries_upsert hk with rfl | hk
    · exact .inl rfl
    · cases hk
  · rcases mem_keyEntries_upsert hk with rfl | hk
    · exact .inl rfl
    · exact hks k hk

/-- The entries come from the calls. -/
theorem mem_entries_sets {c : Content} {es : List Entry} {e : Entry}
    (he : e ∈ (c.sets es).entries) : e ∈ es ∨ e ∈ c.entries := by
  induction es generalizing c with
  | nil => exact .inr he
  | cons e' es ih =>
    rcases ih he with hmem | hmem
    · exact .inl (List.mem_cons_of_mem _ hmem)
    · rcases mem_entries_set hmem with rfl | hmem
      · exact .inl List.mem_cons_self
      · exact .inr hmem

end Config
end Campagnol
