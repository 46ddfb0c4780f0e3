import Campagnol.Config.Contents
import Campagnol.Config.Simulation
import Mathlib.Logic.Relation

/-!
# The end of the reader

Every loop of `common/config_io.c` ends, whatever the file is.

* `Idt.Passed`: where the result of `nparser_get_next_idt` comes from. The end of the file is the
  only way to the result 0, and a key takes an `=`;
* `Reading.Round.stored`: every value that `parser_read` stores has taken an `=` of its own;
* `reader_ends`: the reader ends, and stores at most as many values as there are `=` in the file.
-/

namespace Campagnol
namespace Config

/-! ## Identifiers -/

theorem count_next {rb rb' : ReadBuf} (h : rb.next = (some equals, rb')) :
    rb'.input.count equals + 1 = rb.input.count equals := by
  rcases next_cases rb with ⟨-, hnext⟩ | ⟨c, rest, hinput, -, hnext⟩ | ⟨rest, -, hnext⟩
  · rw [hnext] at h
    cases h
  · rw [hnext] at h
    cases h
    rw [input_skip hinput, hinput, List.count_cons_self]
  · rw [hnext] at h
    exact absurd (Option.some.inj (congrArg Prod.fst h)) (by decide)

/-- The states in which the result is known. -/
def IdtState.settled : IdtState → Bool
  | .afterSection | .afterComment | .skip | .stop => true
  | _ => false

namespace Idt

/-- The result of the loop. -/
def result (v : Idt) : IdtResult × StrBuf × ReadBuf :=
  (v.r, if v.r = .sectionName ∨ v.r = .keyName then v.sb.rstrip else v.sb, v.rb)

/-- Where the result comes from. -/
inductive Step (v : Idt) (c : Option UInt8) (v' : Idt) : Prop where
  | kept (hr : v'.r = v.r) (hsettled : v'.state.settled = true → v.state.settled = true ∨ c = none)
  | error (hr : v'.r = .error)
  | sectionName (hr : v'.r = .sectionName)
  | keyName (hr : v'.r = .keyName) (hc : c = some equals)

theorem switch_step (v : Idt) (c : Option UInt8) : Step v c (v.switch c) := by
  obtain ⟨st, r, sb, rb⟩ := v
  cases c with
  | none =>
    -- every state ends the loop, with its result or with an error
    cases st <;> simp only [switch]
    all_goals first
      | exact .kept rfl fun _ => .inr rfl
      | exact .error rfl
  | some c =>
    cases st <;> simp only [switch]
    all_goals first
      | exact .kept rfl .inl
      | split_ifs
        all_goals first
          | exact .error rfl
          | exact .sectionName rfl
          | exact .keyName rfl (by simp_all)
          | exact .kept rfl .inl

/-- What is left of the file `file` when some of it has been read. -/
structure Passed (file : Bytes) (v : Idt) : Prop where
  suffix : v.rb.input <:+ file
  eof : v.state.settled = true → v.r = .eof → v.rb.input = []
  keyName : v.r = .keyName → v.rb.input.count equals < file.count equals

theorem Passed.body {file : Bytes} {v : Idt} (h : Passed file v) : Passed file v.body where
  suffix := (body_suffix v).trans h.suffix
  eof := by
    intro hsettled hr
    have hsuffix := body_suffix v
    have hstep := switch_step { v with rb := v.rb.next.2 } v.rb.next.1
    cases hstep with
    | kept hr' hsettled' =>
      have hnil : v.rb.input = [] := by
        rcases hsettled' hsettled with hv | hc
        · exact h.eof hv (hr'.symm.trans hr)
        · exact (next_eq_none (Prod.ext hc rfl)).1
      rw [hnil] at hsuffix
      exact List.suffix_nil.mp hsuffix
    | error hr' => cases hr'.symm.trans hr
    | sectionName hr' => cases hr'.symm.trans hr
    | keyName hr' => cases hr'.symm.trans hr
  keyName := by
    intro hr
    have hle : v.body.rb.input.count equals ≤ v.rb.next.2.input.count equals :=
      (switch_suffix { v with rb := v.rb.next.2 } v.rb.next.1).sublist.count_le equals
    have hnext := (next_suffix v.rb).sublist.count_le equals
    have hstep := switch_step { v with rb := v.rb.next.2 } v.rb.next.1
    cases hstep with
    | kept hr' =>
      have hlt := h.keyName (hr'.symm.trans hr)
      omega
    | error hr' => cases hr'.symm.trans hr
    | sectionName hr' => cases hr'.symm.trans hr
    | keyName _ hc =>
      -- the `=` has just been taken
      have hcount : v.rb.next.2.input.count equals + 1 = v.rb.input.count equals :=
        count_next (Prod.ext hc rfl)
      have hfile := h.suffix.sublist.count_le equals
      omega

theorem passed_run (rb : ReadBuf) : Passed rb.input (run (init rb)) := by
  refine isLoop.invariant (P := Passed rb.input) ⟨List.suffix_refl _, ?_, ?_⟩ fun v _ hv => hv.body
  · intro h
    cases h
  · intro h
    cases h

end Idt

/-- `nparser_get_next_idt` returns, from any position. -/
theorem nparserGetNextIdt_ends (rb : ReadBuf) :
    ∃ v, Ends (fun v : Idt => v.state = .stop) Idt.body (Idt.init rb) v ∧
      nparserGetNextIdt rb = v.result :=
  ⟨_, Idt.isLoop.ends (Nat.lt_succ_self _), rfl⟩

/-- It returns 0 at the end of the file only. -/
theorem nparserGetNextIdt_eof {rb : ReadBuf} (h : (nparserGetNextIdt rb).1 = .eof) :
    (nparserGetNextIdt rb).2.2.input = [] :=
  (Idt.passed_run rb).eof (by rw [Idt.run_stops]; rfl) h

/-- A key takes an `=`. -/
theorem nparserGetNextIdt_keyName {rb rb' : ReadBuf} {sb : StrBuf}
    (h : nparserGetNextIdt rb = (.keyName, sb, rb')) :
    rb'.input.count equals < rb.input.count equals := by
  have hpassed := Idt.passed_run rb
  rw [nparserGetNextIdt_eq] at h
  simp only [Prod.mk.injEq] at h
  obtain ⟨hr, -, rfl⟩ := h
  exact hpassed.keyName hr

theorem nparserGetNextIdt_suffix (rb : ReadBuf) :
    (nparserGetNextIdt rb).2.2.input <:+ rb.input := (Idt.passed_run rb).suffix

/-! ## Values -/

/-- The result of the loop. -/
def Val.result (v : Val) : Bool × StrBuf × ReadBuf :=
  (v.ok, v.sb, if v.ok then v.rb else v.rb.logMessage "Syntax error: unexpected end of file")

/-- `nparser_get_next_value` returns, from any position. -/
theorem nparserGetNextValue_ends (rb : ReadBuf) :
    ∃ v, Ends (fun v : Val => v.state = .stop) Val.body (Val.init rb) v ∧
      nparserGetNextValue rb = v.result :=
  ⟨_, Val.isLoop.ends (Nat.lt_succ_self _), rfl⟩

/-! ## `parser_read` -/

/-- The number of the values in a context. -/
def ParserContext.stored (parser : ParserContext) : ℕ := parser.content.entries.length

theorem ParserContext.Inv.stored_set {parser : ParserContext} (h : parser.Inv)
    (sectionName key value : CString) (nline : ℕ) :
    (parserSet sectionName key value nline parser).stored = parser.stored + 1 := by
  rw [stored, stored, h.content_set]
  refine length_flatten_upsert rfl fun ks => length_flatten_upsert rfl fun vs => ?_
  simp

namespace Reading

/-- One time round the loop. -/
def Round (v w : Reading) : Prop := v.round = some w

/-- A key stores one value at most. -/
theorem stored_readKey {v : Reading} {rb : ReadBuf} {sbIdt : StrBuf} (hv : v.parser.Inv)
    (hlt : rb.input.count equals < v.rb.input.count equals) :
    (v.readKey rb sbIdt).parser.Inv ∧
      (v.readKey rb sbIdt).parser.stored + (v.readKey rb sbIdt).rb.input.count equals ≤
        v.parser.stored + v.rb.input.count equals := by
  have hle := (readKey_suffix v rb sbIdt).sublist.count_le equals
  have hparser : (v.readKey rb sbIdt).parser = v.parser ∨ ∃ sectionName key value nline,
      (v.readKey rb sbIdt).parser = parserSet sectionName key value nline v.parser := by
    unfold readKey
    dsimp only
    split_ifs
    all_goals first
      | exact .inl rfl
      | exact .inr ⟨_, _, _, _, rfl⟩
  rcases hparser with heq | ⟨sectionName, key, value, nline, heq⟩
  · rw [heq]
    exact ⟨hv, by omega⟩
  · rw [heq, hv.stored_set]
    exact ⟨hv.set _ _ _ _, by omega⟩

/-- Every value that is stored has taken an `=` of its own. -/
theorem Round.stored {v w : Reading} (h : Round v w) (hv : v.parser.Inv) :
    w.parser.Inv ∧ w.parser.stored + w.rb.input.count equals ≤
      v.parser.stored + v.rb.input.count equals := by
  have hle : ∀ {r sb rb}, nparserGetNextIdt v.rb = (r, sb, rb) →
      rb.input.count equals ≤ v.rb.input.count equals := by
    intro r sb rb heq
    have hsuffix := nparserGetNextIdt_suffix v.rb
    rw [heq] at hsuffix
    exact hsuffix.sublist.count_le equals
  rw [Round, round] at h
  split at h
  · cases h
  · rename_i heq
    cases h
    exact ⟨hv, Nat.add_le_add_left (hle heq) _⟩
  · rename_i rb heq
    cases h
    exact stored_readKey hv (nparserGetNextIdt_keyName heq)
  · rename_i heq
    cases h
    exact ⟨hv, Nat.add_le_add_left (hle heq) _⟩

/-- The loop without a bound. -/
theorem loop_ends {n : ℕ} {v : Reading} (hn : v.rb.input.length < n) :
    ∃ w, Relation.ReflTransGen Round v w ∧ w.round = none ∧ (loop n v).parser = w.parser := by
  induction n generalizing v with
  | zero => omega
  | succ n ih =>
    cases hround : v.round with
    | none => exact ⟨v, .refl, hround, loop_of_round_eq_none hround⟩
    | some v' =>
      have hlt := round_length hround
      obtain ⟨w, hw, hnone, hparser⟩ := ih (v := v') (by omega)
      refine ⟨w, .head hround hw, hnone, ?_⟩
      rw [loop_of_round_eq_some hround]
      exact hparser

theorem stored_of_rounds {v w : Reading} (h : Relation.ReflTransGen Round v w)
    (hv : v.parser.Inv) :
    w.parser.Inv ∧ w.parser.stored + w.rb.input.count equals ≤
      v.parser.stored + v.rb.input.count equals := by
  induction h with
  | refl => exact ⟨hv, Nat.le_refl _⟩
  | tail _ hround ih =>
    obtain ⟨hinv, hle⟩ := ih
    obtain ⟨hinv', hle'⟩ := hround.stored hinv
    exact ⟨hinv', Nat.le_trans hle' hle⟩

end Reading

/-- The variables at the start of `parser_read`. -/
def Reading.init (file : Bytes) (parser : ParserContext) : Reading := ⟨.init file, .reset, parser⟩

/-- The reader ends on every file. -/
theorem reader_ends (file : Bytes) :
    (∀ rb : ReadBuf,
      (∃ v, Ends (fun v : Idt => v.state = .stop) Idt.body (Idt.init rb) v ∧
        nparserGetNextIdt rb = v.result) ∧
      (∃ v, Ends (fun v : Val => v.state = .stop) Val.body (Val.init rb) v ∧
        nparserGetNextValue rb = v.result) ∧
      ((nparserGetNextIdt rb).1 ≠ .eof →
        (nparserGetNextIdt rb).2.2.input.length < rb.input.length) ∧
      ((nparserGetNextIdt rb).1 = .eof → (nparserGetNextIdt rb).2.2.input = [])) ∧
    (∀ parser, ∃ w, Relation.ReflTransGen Reading.Round (.init file parser) w ∧ w.round = none ∧
      parserRead file parser = w.parser) ∧
    ∀ allowDefault allowEmptyValue w,
      Relation.ReflTransGen Reading.Round (.init file (parserInit allowDefault allowEmptyValue)) w →
        w.parser.stored ≤ file.count equals := by
  refine ⟨fun rb => ⟨nparserGetNextIdt_ends rb, nparserGetNextValue_ends rb,
    fun h => nparserGetNextIdt_length rfl h, nparserGetNextIdt_eof⟩, fun parser => ?_, ?_⟩
  · exact Reading.loop_ends (Nat.lt_succ_self _)
  · -- there is no value at the start, and all `=` are still to be read
    intro allowDefault allowEmptyValue w hw
    have hle := (Reading.stored_of_rounds hw (inv_parserInit _ _)).2
    have hzero : (parserInit allowDefault allowEmptyValue).stored = 0 := rfl
    simp only [Reading.init, ReadBuf.init, hzero] at hle
    omega

end Config
end Campagnol
