import Campagnol.Config.Simulation

/-!
# Line endings

* `parserRead_crlf`: the line endings do not matter.
-/

namespace Campagnol
namespace Config

/-- The file with CR LF for every newline. -/
def crlf (file : Bytes) : Bytes :=
  file.flatMap fun c => if c = newline then [carriageReturn, newline] else [c]

theorem crlf_newline (rest : Bytes) :
    crlf (newline :: rest) = carriageReturn :: newline :: crlf rest := rfl

theorem crlf_cons {c : UInt8} (hc : c ≠ newline) (rest : Bytes) :
    crlf (c :: rest) = c :: crlf rest := by
  rw [crlf, List.flatMap_cons, if_neg hc]
  rfl

/-- The readers of a file and of the file with the other line endings, at the same character. -/
structure Converted (rb rb' : ReadBuf) : Prop where
  input_eq : rb'.input = crlf rb.input
  notMem : carriageReturn ∉ rb.input
  pos_eq : rb.pos = rb'.pos

theorem converted_next {rb rb' : ReadBuf} (h : Converted rb rb') :
    rb.next.1 = rb'.next.1 ∧ Converted rb.next.2 rb'.next.2 := by
  obtain ⟨hinput, hnot, hpos⟩ := h
  cases hrb : rb.input with
  | nil =>
    rw [hrb] at hinput
    rw [next_of_nil hrb, next_of_nil hinput]
    exact ⟨rfl, by rw [hinput, hrb], hnot, hpos⟩
  | cons c rest =>
    rw [hrb, List.mem_cons, not_or] at hnot
    obtain ⟨hc, hrest⟩ := hnot
    rw [hrb] at hinput
    rw [next_of_cons hrb (Ne.symm hc)]
    by_cases hnewline : c = newline
    · -- the two bytes CR LF are one character
      subst hnewline
      rw [crlf_newline] at hinput
      have hnext : rb'.next =
          (some newline, { rb' with input := crlf rest, pos := rb'.pos.inc newline }) := by
        simp [ReadBuf.next, hinput]
      rw [hnext]
      refine ⟨rfl, ?_, ?_, ?_⟩
      · rw [input_skip hrb]
      · rwa [input_skip hrb]
      · simp only [ReadBuf.skip, hpos]
    · rw [crlf_cons hnewline] at hinput
      rw [next_of_cons hinput (Ne.symm hc)]
      refine ⟨rfl, ?_, ?_, ?_⟩
      · rw [input_skip hrb, input_skip hinput]
      · rwa [input_skip hrb]
      · simp only [ReadBuf.skip, hpos]

theorem readSim_converted : ReadSim Converted where
  next := converted_next
  peek := by
    intro rb rb' h
    rw [ReadBuf.peek, ReadBuf.peek, h.input_eq]
    cases rb.input with
    | nil => rfl
    | cons c rest =>
      by_cases hc : c = newline
      · -- neither a newline nor CR is a digit
        subst hc
        rfl
      · rw [crlf_cons hc]
        rfl
  log := fun _ _ h => ⟨h.input_eq, h.notMem, h.pos_eq⟩

theorem buildSim_converted : BuildSim Converted Eq where
  read := readSim_converted
  flags := by
    rintro p p' rfl
    exact ⟨rfl, rfl⟩
  set := by
    rintro p p' rb rb' sectionName key value hrb rfl
    rw [hrb.pos_eq]

/-- `parser_read` builds the same context, with the same line numbers, when every newline of the
file is replaced by CR LF. -/
theorem parserRead_crlf (file : Bytes) (h : carriageReturn ∉ file) (parser : ParserContext) :
    parserRead (crlf file) parser = parserRead file parser :=
  (buildSim_converted.loop (v := ⟨.init file, .reset, parser⟩)
    (w := ⟨.init (crlf file), .reset, parser⟩) ⟨⟨rfl, h, rfl⟩, rfl, rfl⟩ (Nat.lt_succ_self _)
    (Nat.lt_succ_self _)).symm

/-- A file of two lines, with an escape before a line end: `[a]` and `b = \4`. -/
def shortFile : Bytes := [91, 97, 93, 10, 98, 32, 61, 32, 92, 52, 10]

theorem parserRead_crlf_shortFile :
    crlf shortFile ≠ shortFile ∧ parserRead (crlf shortFile) (parserInit false false) =
      parserRead shortFile (parserInit false false) :=
  ⟨by decide, parserRead_crlf shortFile (by decide) _⟩

end Config
end Campagnol
