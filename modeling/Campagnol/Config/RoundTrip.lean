import Campagnol.Config.Contents
import Campagnol.Config.Names
import Campagnol.Config.Simulation

/-!
# Writing and reading a configuration

* `config_round_trip`: `parser_read` on the file of `parser_write` builds the same sections, keys
  and values.

The two halves meet in the lines of the file: `parserWrite_eq` says what the lines are, and
`idt_of_sectionLine`, `idt_of_valueLine` and `value_of_valueLine` say how each is read.
-/

namespace Campagnol
namespace Config

/-! ## Identifiers -/

namespace Idt
variable {r : IdtResult} {sb : StrBuf} {rb : ReadBuf} {c : UInt8} {rest : Bytes}

/-- A blank line is skipped. -/
theorem run_newlines {k : ℕ} (h : rb.input = List.replicate k newline ++ rest) :
    run ⟨.start, r, sb, rb⟩ = run ⟨.start, r, sb, rb.skips (List.replicate k newline)⟩ := by
  induction k generalizing rb with
  | zero => rfl
  | succ k ih =>
    rw [List.replicate_succ] at h
    rw [run_step ⟨.start, _, _, _⟩ (by simp) h (by decide) rfl]
    exact ih (input_skip h)

end Idt

/-- A name that is not empty, neither starts nor ends with a blank, and starts with a character that
`char_escape` leaves unchanged. -/
structure NameOk (name : CString) : Prop where
  ne_nil : name.bytes ≠ []
  first : ∀ c ∈ name.bytes.head?, isblank c = false ∧ escaped c = [c]
  last : ∀ c ∈ name.bytes.getLast?, isblank c = false

instance (name : CString) : Decidable (NameOk name) :=
  decidable_of_iff (name.bytes ≠ [] ∧
    name.bytes.head?.all (fun c => !isblank c && escaped c = [c]) = true ∧
    name.bytes.getLast?.all (fun c => !isblank c) = true) <| by
      simp only [Option.all_eq_true, Bool.and_eq_true, Bool.not_eq_true', decide_eq_true_eq]
      exact ⟨fun h => ⟨h.1, h.2.1, h.2.2⟩, fun h => ⟨h.ne_nil, h.first, h.last⟩⟩

theorem NameOk.recovered {name : CString} (h : NameOk name) : Recovered name.bytes := by
  obtain ⟨c, t, hname⟩ := List.exists_cons_of_ne_nil h.ne_nil
  rw [hname]
  exact .inl (h.first c (by simp [hname])).2

/-- The line of a section, after blank lines. -/
theorem idt_of_sectionLine {name : CString} (hname : NameOk name) {rb : ReadBuf} {k : ℕ}
    {rest : Bytes} (h : rb.input = List.replicate k newline ++ (sectionLine name ++ rest)) :
    ∃ rb', nparserGetNextIdt rb = (.sectionName, ⟨name.bytes, 0⟩, rb') ∧ rb'.input = rest := by
  have h₀ := input_skips h
  simp only [sectionLine_eq, List.cons_append, List.append_assoc, List.nil_append] at h₀
  have h₁ := input_skip h₀
  obtain ⟨rb', hrun, hrest⟩ := Idt.kind_section.run_of_recovered .eof .reset
    hname.recovered (fun c hc => (hname.first c hc).1) (input_skip h₁)
  refine ⟨rb', ?_, hrest⟩
  -- `[`, a blank, and the name up to the end of the line
  rw [nparserGetNextIdt_eq, Idt.init, Idt.run_newlines h,
    Idt.run_step ⟨.beginSection, _, _, _⟩ (by simp) h₀ (by decide) rfl,
    Idt.run_step ⟨.beginSection, _, _, _⟩ (by simp) h₁ (by decide) rfl, hrun]
  simp [rstrip_name hname.last]

/-- The start of the line of a value. -/
theorem idt_of_valueLine {key : CString} (hkey : NameOk key) {rb : ReadBuf} {rest : Bytes}
    (h : rb.input = space :: space :: escapedText key.bytes ++ space :: equals :: rest) :
    ∃ rb', nparserGetNextIdt rb = (.keyName, ⟨key.bytes, 0⟩, rb') ∧ rb'.input = rest := by
  have h₁ := input_skip h
  obtain ⟨rb', hrun, hrest⟩ := Idt.kind_key.run_of_recovered .eof .reset
    hkey.recovered (fun c hc => (hkey.first c hc).1) (input_skip h₁)
  refine ⟨rb', ?_, hrest⟩
  -- two blanks, and the key up to `=`
  rw [nparserGetNextIdt_eq, Idt.init,
    Idt.run_step ⟨.start, _, _, _⟩ (by simp) h (by decide) rfl,
    Idt.run_step ⟨.start, _, _, _⟩ (by simp) h₁ (by decide) rfl, hrun]
  simp [rstrip_name hkey.last]

/-- The end of the file, after blank lines. -/
theorem idt_of_newlines {rb : ReadBuf} {k : ℕ} (h : rb.input = List.replicate k newline) :
    ∃ sb rb', nparserGetNextIdt rb = (.eof, sb, rb') := by
  have h₀ : rb.input = List.replicate k newline ++ [] := by
    rw [List.append_nil]
    exact h
  refine ⟨.reset, rb.skips (List.replicate k newline), ?_⟩
  rw [nparserGetNextIdt_eq, Idt.init, Idt.run_newlines h₀, Idt.run_body (by simp), Idt.body,
    next_of_nil (input_skips h₀), Idt.run_stop rfl]
  rfl

/-! ## Values -/

/-- The rest of the line of a value. -/
theorem value_of_valueLine {value : CString} {rb : ReadBuf} {rest : Bytes}
    (h : rb.input = space :: quote :: escapedText value.bytes ++ quote :: newline :: rest) :
    ∃ sb rb', nparserGetNextValue rb = (true, sb, rb') ∧ sb.s = value.bytes ∧
      rb'.input = rest := by
  have h₁ := input_skip h
  have h₂ := input_skip h₁
  have h₃ := input_skips h₂
  have h₄ := input_skip h₃
  refine ⟨(StrBuf.reset.append value.bytes).setmark value.bytes.length, _, ?_, ?_, input_skip h₄⟩
  · -- a blank, the quoted value and the end of the line
    rw [nparserGetNextValue_eq, Val.init,
      Val.run_step ⟨.start, _, _, _⟩ (by simp) h (by decide) rfl,
      Val.run_step ⟨.inQuote, _, _, _⟩ (by simp) h₁ (by decide) rfl, Val.readBack h₂,
      Val.run_step ⟨.start, _, _, _⟩ (by simp) h₃ (by decide) rfl,
      Val.run_step ⟨.stop, _, _, _⟩ (by simp) h₄ (by decide) rfl, Val.run_stop rfl]
    simp [StrBuf.append, StrBuf.reset]
  · simp [StrBuf.setmark, StrBuf.append, StrBuf.reset]

/-! ## The file -/

/-- The lines of the values of a section. -/
def valueLines (es : List (CString × CString)) : Bytes := es.flatMap fun e => valueLine e.1 e.2

/-- The lines of a configuration. -/
def Content.file (c : Content) : Bytes :=
  c.flatMap fun x => sectionLine x.1 ++ valueLines (keyEntries x.2) ++ [newline]

theorem parserWrite_eq (parser : ParserContext) : parserWrite parser = parser.content.file := by
  simp only [parserWrite, Content.file, ParserContext.content, List.flatMap_map]
  refine congrArg (fun f => List.flatMap f _) (funext fun item => ?_)
  simp only [writeSection, valueLines, keyEntries, flatten, ItemSection.content, ItemKey.content,
    List.flatMap_map, List.flatMap_assoc, id]

/-- Where `parser_read` stands: what is left of the file, the section, and what it has built. -/
structure Reading.At (v : Reading) (input : Bytes) (name : Bytes) (c : Content)
    (allowEmptyValue : Bool) : Prop where
  input_eq : v.rb.input = input
  section_eq : v.sbSection.s = name
  inv : v.parser.Inv
  content_eq : v.parser.content = c
  allowEmptyValue_eq : v.parser.allowEmptyValue = allowEmptyValue

/-- What the values of the file have to fulfil for the reader. -/
def ValueOk (allowEmptyValue : Bool) (value : CString) : Prop :=
  allowEmptyValue = false → value.bytes ≠ []

section Reading
variable {v : Reading} {rest name : Bytes} {c : Content} {allowEmptyValue : Bool}

/-- The line of a section. -/
theorem Reading.At.sectionLine {newName : CString} {k : ℕ} (hname : NameOk newName)
    (h : v.At (List.replicate k newline ++ (sectionLine newName ++ rest)) name c allowEmptyValue) :
    ∃ v' : Reading, v.result = v'.result ∧ v'.At rest newName.bytes c allowEmptyValue := by
  obtain ⟨rb', hidt, hrest⟩ := idt_of_sectionLine hname h.input_eq
  refine ⟨{ v with rb := rb', sbSection := StrBuf.reset.append newName.bytes },
    Reading.result_of_round_eq_some ?_, hrest, rfl, h.inv, h.content_eq, h.allowEmptyValue_eq⟩
  rw [Reading.round, hidt]

/-- The line of a value. -/
theorem Reading.At.valueLine {sectionName key value : CString} (hsection : NameOk sectionName)
    (hkey : NameOk key) (hvalue : ValueOk allowEmptyValue value)
    (h : v.At (valueLine key value ++ rest) sectionName.bytes c allowEmptyValue) :
    ∃ v' : Reading, v.result = v'.result ∧
      v'.At rest sectionName.bytes (c.set sectionName key value) allowEmptyValue := by
  have hinput := h.input_eq
  rw [valueLine_eq] at hinput
  simp only [List.cons_append, List.append_assoc, List.nil_append] at hinput
  obtain ⟨rb₁, hidt, hrest₁⟩ := idt_of_valueLine hkey hinput
  obtain ⟨sb, rb₂, hval, hsb, hrest₂⟩ := value_of_valueLine hrest₁
  -- the value is accepted, and the section is not the default one
  have hkept : (!v.parser.allowEmptyValue && decide (value.bytes.length = 0)) = false := by
    rw [h.allowEmptyValue_eq]
    cases allowEmptyValue with
    | true => rfl
    | false => simpa using hvalue rfl
  have hread : v.readKey rb₁ ⟨key.bytes, 0⟩ =
      ⟨rb₂, v.sbSection, parserSet sectionName key value rb₁.pos.line v.parser⟩ := by
    simp only [Reading.readKey, hval, hsb, h.section_eq, cstr_of_notMem key.nul_free,
      cstr_of_notMem value.nul_free, hkept, Bool.not_true, Bool.false_eq_true, if_false]
    simp [hsection.ne_nil, h.section_eq, cstr_of_notMem sectionName.nul_free]
  refine ⟨⟨rb₂, v.sbSection, parserSet sectionName key value rb₁.pos.line v.parser⟩,
    Reading.result_of_round_eq_some ?_, hrest₂, h.section_eq, h.inv.set _ _ _ _, ?_,
    h.allowEmptyValue_eq⟩
  · rw [Reading.round, hidt]
    dsimp only
    rw [hread]
  · rw [h.inv.content_set, h.content_eq]

/-- The lines of the values of a section. -/
theorem Reading.At.valueLines {sectionName : CString} {es : List (CString × CString)}
    (hsection : NameOk sectionName)
    (hes : ∀ e ∈ es, NameOk e.1 ∧ ValueOk allowEmptyValue e.2)
    (h : v.At (valueLines es ++ rest) sectionName.bytes c allowEmptyValue) :
    ∃ v' : Reading, v.result = v'.result ∧
      v'.At rest sectionName.bytes (c.sets (es.map fun e => (sectionName, e))) allowEmptyValue := by
  induction es generalizing v c with
  | nil => exact ⟨v, rfl, h⟩
  | cons e es ih =>
    rw [Config.valueLines, List.flatMap_cons, List.append_assoc] at h
    obtain ⟨hkey, hvalue⟩ := hes e List.mem_cons_self
    obtain ⟨v₁, hresult₁, h₁⟩ := h.valueLine hsection hkey hvalue
    obtain ⟨v₂, hresult₂, h₂⟩ := ih (fun e' he' => hes e' (List.mem_cons_of_mem _ he')) h₁
    exact ⟨v₂, hresult₁.trans hresult₂, h₂⟩

/-- A configuration, after blank lines. -/
theorem Reading.At.file {d : Content} {k : ℕ}
    (hd : ∀ x ∈ d, NameOk x.1 ∧ ∀ e ∈ keyEntries x.2, NameOk e.1 ∧ ValueOk allowEmptyValue e.2)
    (h : v.At (List.replicate k newline ++ d.file) name c allowEmptyValue) :
    v.result.content = c.sets d.entries := by
  induction d generalizing v c k name with
  | nil =>
    have hinput := h.input_eq
    simp only [Content.file, List.flatMap_nil, List.append_nil] at hinput
    obtain ⟨sb, rb', hidt⟩ := idt_of_newlines hinput
    have hround : v.round = none := by rw [Reading.round, hidt]
    rw [Reading.result_of_round_eq_none hround]
    exact h.content_eq
  | cons x d ih =>
    obtain ⟨hname, hes⟩ := hd x List.mem_cons_self
    have hfile : Content.file (x :: d) = Config.sectionLine x.1 ++
        (Config.valueLines (keyEntries x.2) ++ (List.replicate 1 newline ++ Content.file d)) := by
      simp [Content.file]
    rw [hfile] at h
    obtain ⟨v₁, hresult₁, h₁⟩ := h.sectionLine hname
    obtain ⟨v₂, hresult₂, h₂⟩ := h₁.valueLines hname hes
    rw [hresult₁, hresult₂, ih (fun y hy => hd y (List.mem_cons_of_mem _ hy)) h₂]
    simp [Content.sets, Content.entries, flatten]

end Reading

/-! ## The round trip -/

/-- `parser_read`, in a new context, of the file that `parser_write` makes of a context built by
calls of `parser_set`. -/
theorem config_round_trip (calls : List (Entry × ℕ))
    (hnames : ∀ e ∈ calls, NameOk e.1.1 ∧ NameOk e.1.2.1) (allowDefault allowEmptyValue : Bool)
    (hvalues : allowEmptyValue = false → ∀ e ∈ calls, e.1.2.2.bytes ≠ [])
    (allowDefault₀ allowEmptyValue₀ : Bool) :
    let parser := parserSets calls (parserInit allowDefault₀ allowEmptyValue₀)
    (parserRead (parserWrite parser) (parserInit allowDefault allowEmptyValue)).content =
      parser.content := by
  intro parser
  obtain ⟨-, hcontent⟩ := (inv_parserInit allowDefault₀ allowEmptyValue₀).sets calls
  rw [content_parserInit] at hcontent
  have hwf : parser.content.WellFormed := by
    rw [hcontent]
    exact wellFormed_of_sets wellFormed_nil _
  -- the names and the values are those of the calls
  have hentries : ∀ e ∈ parser.content.entries,
      NameOk e.1 ∧ NameOk e.2.1 ∧ ValueOk allowEmptyValue e.2.2 := by
    intro e he
    rw [hcontent] at he
    rcases mem_entries_sets he with he | he
    · obtain ⟨call, hcall, rfl⟩ := List.mem_map.mp he
      exact ⟨(hnames call hcall).1, (hnames call hcall).2, fun hf => hvalues hf call hcall⟩
    · cases he
  have hd : ∀ x ∈ parser.content,
      NameOk x.1 ∧ ∀ e ∈ keyEntries x.2, NameOk e.1 ∧ ValueOk allowEmptyValue e.2 := by
    intro x hx
    have hmem : ∀ e ∈ keyEntries x.2, (x.1, e) ∈ parser.content.entries := fun e he =>
      mem_flatten.mpr ⟨x.2, hx, he⟩
    obtain ⟨e, he⟩ := List.exists_mem_of_ne_nil _ (hwf.keys x hx).entries_ne_nil
    exact ⟨(hentries _ (hmem e he)).1, fun e he => (hentries _ (hmem e he)).2⟩
  have hstart : Reading.At ⟨.init parser.content.file, .reset,
      parserInit allowDefault allowEmptyValue⟩ (List.replicate 0 newline ++ parser.content.file) []
      [] allowEmptyValue :=
    ⟨rfl, rfl, inv_parserInit _ _, rfl, rfl⟩
  rw [parserRead, parserWrite_eq]
  exact (hstart.file hd).trans hwf.set_entries

/-- Names and values with characters that have a meaning in the file: a section `A ]\x41`, a key
`k= #` and values with quotes, line ends and a byte above 127. -/
def specials : List (Entry × ℕ) :=
  let sectionName : CString := ⟨[65, 32, 93, 92, 120, 52, 49], by decide⟩
  let key : CString := ⟨[107, 61, 32, 35], by decide⟩
  [((sectionName, key, ⟨[34, 13, 10, 92], by decide⟩), 1),
    ((⟨[66], by decide⟩, key, ⟨[32, 200, 9], by decide⟩), 2),
    ((sectionName, key, ⟨[59, 34], by decide⟩), 3)]

theorem config_round_trip_specials :
    let parser := parserSets specials (parserInit false false)
    (parserRead (parserWrite parser) (parserInit true false)).content = parser.content := by
  refine config_round_trip specials ?_ true false ?_ false false
  · intro e he
    simp only [specials, List.mem_cons, List.not_mem_nil, or_false] at he
    rcases he with rfl | rfl | rfl <;> decide
  · intro _ e he
    simp only [specials, List.mem_cons, List.not_mem_nil, or_false] at he
    rcases he with rfl | rfl | rfl <;> decide

end Config
end Campagnol
