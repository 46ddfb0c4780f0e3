import Campagnol.Config.Reader

/-!
# Escapes

How `char_escape` writes a text and how the two state machines of the reader take it back.

* `Idt.Text.readBack`: the characters of a name after the first one;
* `Val.readBack`: the characters between quotes.
-/

namespace Campagnol
namespace Config

/-! ## Characters -/

/-- The text of a string in the file. -/
def escapedText (s : Bytes) : Bytes := s.flatMap escaped

/-- A character that has no meaning of its own inside of a name or a quoted value. -/
structure Plain (c : UInt8) : Prop where
  newline : c ≠ newline
  carriageReturn : c ≠ carriageReturn
  backslash : c ≠ backslash
  quote : c ≠ quote
  equals : c ≠ equals
  leftBracket : c ≠ leftBracket
  rightBracket : c ≠ rightBracket
  comment : isComment c = false

/-- How a character is written: as it is, or by an escape that `char_unescape` turns back into it
without looking ahead. -/
inductive Written (c : UInt8) : Prop where
  | plain (h : escaped c = [c]) (hc : Plain c)
  | escape (e : UInt8) (h : escaped c = [backslash, e]) (hnewline : e ≠ newline)
      (hreturn : e ≠ carriageReturn) (hu : ∀ sb rb, charUnescape sb e rb = (sb.push c, rb))

theorem written (c : UInt8) : Written c := by
  by_cases h : c ∈ [92, 34, 10, 13, 8, 9, 12, 7, 11, 35, 59, 91, 93, 61]
  · simp only [List.mem_cons, List.not_mem_nil, or_false] at h
    rcases h with rfl | rfl | rfl | rfl | rfl | rfl | rfl | rfl | rfl | rfl | rfl | rfl | rfl | rfl
    all_goals exact .escape _ rfl (by decide) (by decide) fun _ _ => rfl
  · simp only [List.mem_cons, List.not_mem_nil, or_false, not_or] at h
    obtain ⟨h92, h34, h10, h13, h8, h9, h12, h7, h11, h35, h59, h91, h93, h61⟩ := h
    refine .plain ?_ ⟨h10, h13, h92, h34, h61, h91, h93, by simp [isComment, h35, h59]⟩
    unfold escaped
    split <;> first | rfl | contradiction

/-- A character that `char_escape` leaves unchanged is plain. -/
theorem plain_of_escaped {c : UInt8} (h : escaped c = [c]) : Plain c := by
  cases written c with
  | plain _ hc => exact hc
  | escape e he =>
    rw [h] at he
    cases he

/-! ## Lines -/

theorem escapeInto_eq (sb : StrBuf) (s : CString) :
    escapeInto sb s = sb.append (escapedText s.bytes) := by
  unfold escapeInto escapedText
  induction s.bytes generalizing sb with
  | nil => simp
  | cons c s ih =>
    rw [List.foldl_cons, ih, charEscape, StrBuf.append_append, List.flatMap_cons]

theorem sectionLine_eq (name : CString) :
    sectionLine name = leftBracket :: space :: escapedText name.bytes ++
      [space, rightBracket, newline] := by
  simp [sectionLine, escapeInto_eq, StrBuf.append, StrBuf.reset]

theorem valueLine_eq (key value : CString) :
    valueLine key value = space :: space :: escapedText key.bytes ++
      space :: equals :: space :: quote :: escapedText value.bytes ++ [quote, newline] := by
  simp [valueLine, escapeInto_eq, StrBuf.append, StrBuf.reset]

/-! ## The characters of a text -/

/-- A loop that reads the characters of a text into its buffer: a plain one in one time round, an
escape in two. -/
structure ReadsText {α : Type} (loop : ℕ → StrBuf → ReadBuf → α) : Prop where
  plain : ∀ {n sb rb c rest}, rb.input = c :: rest → Plain c →
    loop (n + 1) sb rb = loop n (sb.push c) (rb.skip c)
  escape : ∀ {n sb rb e c rest}, rb.input = backslash :: e :: rest → e ≠ newline →
    e ≠ carriageReturn → (∀ sb rb, charUnescape sb e rb = (sb.push c, rb)) →
    loop (n + 1 + 1) sb rb = loop n (sb.push c) ((rb.skip backslash).skip e)

/-- An escaped text is read back. -/
theorem ReadsText.readBack {α : Type} {loop : ℕ → StrBuf → ReadBuf → α} (hl : ReadsText loop)
    {n : ℕ} {sb : StrBuf} {rb : ReadBuf} {s rest : Bytes}
    (h : rb.input = escapedText s ++ rest) :
    loop ((escapedText s).length + n) sb rb =
      loop n (sb.append s) (rb.skips (escapedText s)) := by
  induction s generalizing sb rb with
  | nil => simp [escapedText, ReadBuf.skips]
  | cons c s ih =>
    have hcons : escapedText (c :: s) = escaped c ++ escapedText s := List.flatMap_cons
    rw [hcons] at h ⊢
    cases written c with
    | plain hc hplain =>
      rw [hc] at h ⊢
      have hlen : ([c] ++ escapedText s).length + n = ((escapedText s).length + n) + 1 := by
        rw [List.length_append, List.length_singleton]
        omega
      rw [hlen, hl.plain h hplain, ih (input_skip h), StrBuf.push_append]
      rfl
    | escape e hc hnewline hreturn hu =>
      rw [hc] at h ⊢
      have hlen : ([backslash, e] ++ escapedText s).length + n =
          ((escapedText s).length + n) + 1 + 1 := by
        rw [List.length_append, List.length_cons, List.length_singleton]
        omega
      rw [hlen, hl.escape h hnewline hreturn hu, ih (input_skip (input_skip h)),
        StrBuf.push_append]
      rfl

/-! ## Names -/

namespace Idt
variable {st esc : IdtState} {r : IdtResult} {sb : StrBuf} {rb : ReadBuf} {c : UInt8}
  {s rest : Bytes}

/-- A state in which the characters of a name are read, with its state after a backslash. -/
structure Text (st esc : IdtState) : Prop where
  ne_stop : st ≠ .stop
  esc_ne_stop : esc ≠ .stop
  plain : ∀ r sb rb c, Plain c → switch ⟨st, r, sb, rb⟩ (some c) = ⟨st, r, sb.push c, rb⟩
  backslash : ∀ r sb rb, switch ⟨st, r, sb, rb⟩ (some backslash) = ⟨esc, r, sb, rb⟩
  escape : ∀ r sb rb c, c ≠ newline →
    switch ⟨esc, r, sb, rb⟩ (some c) = unescape ⟨esc, r, sb, rb⟩ c st

theorem text_readSection : Text .readSection .readSectionEsc where
  ne_stop := by simp
  esc_ne_stop := by simp
  plain := by
    intro r sb rb c hc
    simp [switch, push, hc.newline, hc.backslash, hc.comment, hc.rightBracket]
  backslash := fun _ _ _ => rfl
  escape := by
    intro r sb rb c hc
    simp [switch, hc]

theorem text_readName : Text .readName .readNameEsc where
  ne_stop := by simp
  esc_ne_stop := by simp
  plain := by
    intro r sb rb c hc
    simp [switch, push, hc.newline, hc.backslash, hc.comment, hc.equals]
  backslash := fun _ _ _ => rfl
  escape := by
    intro r sb rb c hc
    simp [switch, hc]

theorem Text.readsText (ht : Text st esc) :
    ReadsText fun _ sb rb => run ⟨st, r, sb, rb⟩ where
  plain := by
    intro n sb rb c rest h hc
    exact run_step _ ht.ne_stop h hc.carriageReturn (ht.plain _ _ _ c hc)
  escape := by
    intro n sb rb e c rest h hnewline hreturn hu
    rw [run_step _ ht.ne_stop h (by decide) (ht.backslash _ _ _),
      run_step _ ht.esc_ne_stop (input_skip h) hreturn (ht.escape _ _ _ e hnewline)]
    simp only [unescape, hu]

/-- The rest of a name is read back. -/
theorem Text.readBack (ht : Text st esc) (h : rb.input = escapedText s ++ rest) :
    run ⟨st, r, sb, rb⟩ = run ⟨st, r, sb.append s, rb.skips (escapedText s)⟩ :=
  ht.readsText.readBack (n := 0) h

end Idt

/-! ## Quoted texts -/

namespace Val
variable {ok : Bool} {sb : StrBuf} {rb : ReadBuf} {c : UInt8} {s rest : Bytes}

theorem switch_inQuote (hc : Plain c) :
    switch ⟨.inQuote, ok, sb, rb⟩ (some c) = ⟨.inQuote, ok, sb.push c, rb⟩ := by
  simp [switch, push, hc.newline, hc.quote, hc.backslash]

theorem switch_inQuoteEsc (hc : c ≠ newline) :
    switch ⟨.inQuoteEsc, ok, sb, rb⟩ (some c) = unescape ⟨.inQuoteEsc, ok, sb, rb⟩ c .inQuote := by
  simp [switch, hc]

theorem readsText_inQuote : ReadsText fun _ sb rb => run ⟨.inQuote, ok, sb, rb⟩ where
  plain := by
    intro n sb rb c rest h hc
    exact run_step _ (by simp) h hc.carriageReturn (switch_inQuote hc)
  escape := by
    intro n sb rb e c rest h hnewline hreturn hu
    rw [run_step ⟨.inQuoteEsc, _, _, _⟩ (by simp) h (by decide) rfl,
      run_step _ (by simp) (input_skip h) hreturn (switch_inQuoteEsc hnewline)]
    simp only [unescape, hu]

/-- A text between quotes is read back. -/
theorem readBack (h : rb.input = escapedText s ++ rest) :
    run ⟨.inQuote, ok, sb, rb⟩ = run ⟨.inQuote, ok, sb.append s, rb.skips (escapedText s)⟩ :=
  readsText_inQuote.readBack (n := 0) h

end Val
end Config
end Campagnol
