import Campagnol.Config.Escapes

/-!
# Names

How the names of sections and keys are read. The first character of a name is read in a state that
knows no escapes.

* `Idt.Kind.run_of_recovered`, `Idt.Kind.recovered_of_run`: the names that are read back from their
  escaped text;
* `reads_name_iff`: both for sections and for keys.
-/

namespace Campagnol
namespace Config

/-! ## Names that are read back -/

/-- Backslashes, and then `'` or `?`. -/
def quotedAfterBackslashes : Bytes → Bool
  | [] => false
  | c :: s => if c = backslash then quotedAfterBackslashes s else c = 39 || c = 63

/-- The name starts with a character that `char_escape` leaves unchanged, or with backslashes before
`'` or `?`. -/
def Recovered : Bytes → Prop
  | [] => False
  | c :: s => escaped c = [c] ∨ (c = backslash ∧ quotedAfterBackslashes s = true)

instance (n : Bytes) : Decidable (Recovered n) :=
  match n with
  | [] => inferInstanceAs (Decidable False)
  | c :: s =>
    inferInstanceAs
      (Decidable (escaped c = [c] ∨ (c = backslash ∧ quotedAfterBackslashes s = true)))

theorem Plain.quoted_of_mem {c : UInt8} (h : Plain c) (hmem : c ∈ selfEscapes) :
    (c = 39 || c = 63) = true := by
  simp only [selfEscapes, List.mem_cons, List.not_mem_nil, or_false] at hmem
  rcases hmem with rfl | rfl | rfl | rfl | rfl | rfl | rfl | rfl | rfl
  · exact absurd rfl h.backslash
  · exact absurd rfl h.quote
  · rfl
  · rfl
  · exact absurd h.comment (by decide)
  · exact absurd h.comment (by decide)
  · exact absurd rfl h.leftBracket
  · exact absurd rfl h.rightBracket
  · exact absurd rfl h.equals

theorem escapedText_cons (c : UInt8) (s : Bytes) :
    escapedText (c :: s) = escaped c ++ escapedText s := List.flatMap_cons

/-- Digits are written as they are. -/
theorem escapedText_digits {ds t X : Bytes} (hdigits : ∀ d ∈ ds, isxdigit d = true)
    (h : ds <+: escapedText t ++ space :: X) :
    ∃ t', t = ds ++ t' ∧ escapedText t = ds ++ escapedText t' := by
  induction ds generalizing t with
  | nil => exact ⟨t, rfl, rfl⟩
  | cons d ds ih =>
    have hd := hdigits d List.mem_cons_self
    cases t with
    | nil =>
      obtain ⟨rfl, -⟩ := List.cons_prefix_cons.mp h
      cases hd
    | cons c t =>
      rw [escapedText_cons] at h ⊢
      cases written c with
      | plain hc _ =>
        rw [hc, List.append_assoc] at h
        obtain ⟨rfl, hds⟩ := List.cons_prefix_cons.mp h
        obtain ⟨t', rfl, ht⟩ := ih (fun e he => hdigits e (List.mem_cons_of_mem _ he)) hds
        rw [hc]
        exact ⟨t', rfl, by rw [ht]; rfl⟩
      | escape e hc =>
        rw [hc] at h
        obtain ⟨rfl, -⟩ := List.cons_prefix_cons.mp h
        cases hd

namespace Idt

/-- A kind of names: the states before the first character, inside of the name and after a
backslash, the result, and what follows the name and a blank. -/
structure Kind (opening st esc : IdtState) (r : IdtResult) (ending : Bytes) : Prop
    extends Text st esc where
  opening_ne_stop : opening ≠ .stop
  first : ∀ r₀ sb rb c, isblank c = false → Plain c ∨ c = Config.backslash →
    switch ⟨opening, r₀, sb, rb⟩ (some c) = ⟨st, r₀, sb.push c, rb⟩
  close : ∀ r₀ sb (rb : ReadBuf) rest, rb.input = space :: (ending ++ rest) →
    ∃ rb', run ⟨st, r₀, sb, rb⟩ = ⟨.stop, r, sb.push space, rb'⟩ ∧ rb'.input = rest

theorem kind_section :
    Kind .beginSection .readSection .readSectionEsc .sectionName [rightBracket, newline] where
  toText := text_readSection
  opening_ne_stop := by simp
  first := by
    rintro r₀ sb rb c hb (hc | rfl)
    · simp [switch, push, hc.newline, hc.comment, hc.rightBracket, hb]
    · rfl
  close := by
    intro r₀ sb rb rest h
    have h₁ := input_skip h
    refine ⟨_, ?_, input_skip (input_skip h₁)⟩
    rw [run_step ⟨.readSection, _, _, _⟩ (by simp) h (by decide) rfl,
      run_step ⟨.afterSection, _, _, _⟩ (by simp) h₁ (by decide) rfl,
      run_step ⟨.stop, _, _, _⟩ (by simp) (input_skip h₁) (by decide) rfl, run_stop rfl]

theorem kind_key : Kind .start .readName .readNameEsc .keyName [equals] where
  toText := text_readName
  opening_ne_stop := by simp
  first := by
    rintro r₀ sb rb c hb (hc | rfl)
    · simp [switch, push, hc.newline, hc.comment, hc.leftBracket, hc.rightBracket, hc.equals, hb]
    · rfl
  close := by
    intro r₀ sb rb rest h
    refine ⟨_, ?_, input_skip (input_skip h)⟩
    rw [run_step ⟨.readName, _, _, _⟩ (by simp) h (by decide) rfl,
      run_step ⟨.stop, _, _, _⟩ (by simp) (input_skip h) (by decide) rfl, run_stop rfl]

/-! ## The rest of a name -/

section Kind
variable {opening st esc : IdtState} {r r₀ : IdtResult} {ending : Bytes} {sb : StrBuf}
  {rb : ReadBuf} {n s t P rest : Bytes} {c : UInt8} {v : Idt}

theorem Kind.run_rest (hk : Kind opening st esc r ending) (r₀ : IdtResult) (sb : StrBuf)
    (h : rb.input = escapedText s ++ space :: (ending ++ rest)) :
    ∃ rb', run ⟨st, r₀, sb, rb⟩ = ⟨.stop, r, (sb.append s).push space, rb'⟩ ∧
      rb'.input = rest := by
  rw [hk.toText.readBack h]
  exact hk.close _ _ _ _ (input_skips h)

/-- An escape that follows a backslash. -/
theorem Kind.run_esc (hk : Kind opening st esc r ending) (h : rb.input = c :: rest)
    (hnewline : c ≠ newline) (hcr : c ≠ carriageReturn) :
    run ⟨esc, r₀, sb, rb⟩ =
      run ⟨st, r₀, (charUnescape sb c (rb.skip c)).1, (charUnescape sb c (rb.skip c)).2⟩ :=
  run_step _ hk.esc_ne_stop h hcr (hk.escape _ _ _ c hnewline)

theorem prefix_switch (h : P <+: v.sb.s) (c : Option UInt8) : P <+: (v.switch c).sb.s := by
  obtain ⟨st, r, sb, rb⟩ := v
  have hpush : ∀ c, P <+: (sb.push c).s := fun c => h.trans (List.prefix_append _ _)
  have hunescape : ∀ c, P <+: (charUnescape sb c rb).1.s := by
    intro c
    obtain ⟨s, ds, heq, -⟩ := charUnescape_spec sb c rb
    rw [heq]
    exact h.trans (List.prefix_append _ _)
  cases st <;> cases c <;> simp only [switch]
  all_goals first
    | exact h
    | split_ifs
      all_goals first
        | exact h
        | exact hpush _
        | exact hunescape _

/-- What a name starts with stays. -/
theorem prefix_run (h : P <+: v.sb.s) : P <+: (run v).sb.s :=
  isLoop.invariant (P := fun v => P <+: v.sb.s) h fun v _ hv =>
    prefix_switch (v := { v with rb := v.rb.next.2 }) hv _

/-- The name ends as it was read: a character in it that differs cannot be made good. -/
theorem eq_of_run (sb : StrBuf) {d : UInt8} (h : sb.s ++ [c] <+: v.sb.s)
    (hrun : (run v).sb.rstrip.s = sb.s ++ d :: t) : c = d := by
  obtain ⟨u, hu⟩ := prefix_run h
  obtain ⟨w, hw⟩ := (run v).sb.rstrip_prefix
  rw [hrun, ← hu, List.append_assoc, List.append_assoc] at hw
  exact (List.cons.inj (List.append_cancel_left hw)).1.symm

/-! ## Names after a backslash -/

theorem Kind.run_of_quoted (hk : Kind opening st esc r ending)
    (ht : quotedAfterBackslashes t = true)
    (h : rb.input = escapedText t ++ space :: (ending ++ rest)) :
    ∃ rb', run ⟨esc, r₀, sb, rb⟩ = ⟨.stop, r, (sb.append t).push space, rb'⟩ ∧
      rb'.input = rest := by
  induction t generalizing sb rb with
  | nil => cases ht
  | cons c t ih =>
    rw [escapedText_cons, List.append_assoc] at h
    rw [quotedAfterBackslashes] at ht
    rw [← StrBuf.push_append]
    split at ht
    · -- a backslash is escaped by the one before, and escapes the next character
      rename_i hc
      subst hc
      rw [hk.run_esc h (by decide) (by decide)]
      change ∃ rb', run ⟨st, r₀, sb.push backslash, rb.skip backslash⟩ = _ ∧ _
      rw [run_step _ hk.ne_stop (input_skip h) (by decide) (hk.backslash _ _ _)]
      exact ih ht (input_skip (input_skip h))
    · have hc : charUnescape sb c (rb.skip c) = (sb.push c, rb.skip c) ∧ escaped c = [c] ∧
          c ≠ newline ∧ c ≠ carriageReturn := by
        simp only [Bool.or_eq_true, decide_eq_true_eq] at ht
        rcases ht with rfl | rfl <;> exact ⟨rfl, rfl, by decide, by decide⟩
      obtain ⟨hu, hescaped, hnewline, hcr⟩ := hc
      rw [hescaped] at h
      rw [hk.run_esc h hnewline hcr, hu]
      exact hk.run_rest _ _ (input_skip h)

theorem Kind.quoted_of_run (hk : Kind opening st esc r ending) (hmark : sb.mark = 0)
    (h : rb.input = escapedText t ++ space :: (ending ++ rest))
    (hrun : (run ⟨esc, r₀, sb, rb⟩).sb.rstrip.s = sb.s ++ t) :
    quotedAfterBackslashes t = true := by
  induction t generalizing sb rb with
  | nil =>
    -- the blank after the name is escaped
    rw [hk.run_esc h (by decide) (by decide)] at hrun
    have hprefix : sb.s ++ [backslash] <+:
        (run ⟨st, r₀, (charUnescape sb space (rb.skip space)).1,
          (charUnescape sb space (rb.skip space)).2⟩).sb.rstrip.s := by
      refine StrBuf.prefix_rstrip (prefix_run (List.prefix_append _ _)) fun c hc => ?_
      rw [List.getLast?_concat] at hc
      cases hc
      rfl
    rw [hrun] at hprefix
    have hlen := hprefix.length_le
    simp only [List.length_append, List.length_singleton, List.length_nil] at hlen
    omega
  | cons d t ih =>
    rw [escapedText_cons, List.append_assoc] at h
    rw [quotedAfterBackslashes]
    cases written d with
    | plain hd hplain =>
      rw [hd] at h
      have h₁ := input_skip h
      rw [hk.run_esc h hplain.newline hplain.carriageReturn] at hrun
      obtain ⟨s, ds, heq, hds, hdigits, -, hne, hself⟩ := charUnescape_spec sb d (rb.skip d)
      rw [h₁] at hds
      obtain ⟨t', rfl, ht'⟩ := escapedText_digits hdigits hds
      rw [ht', List.append_assoc] at h₁
      obtain ⟨rb', hrest, -⟩ := hk.run_rest r₀ (sb.append s) (input_skips h₁)
      rw [heq, hrest] at hrun
      -- the blank after the name is stripped
      have hstrip : (((sb.append s).append t').push space).rstrip =
          ((sb.append s).append t').rstrip := by
        rw [StrBuf.rstrip_push, if_pos]
        exact ⟨by simp [StrBuf.append, hmark], rfl⟩
      rw [hstrip] at hrun
      have hprefix := StrBuf.rstrip_prefix ((sb.append s).append t')
      rw [hrun] at hprefix
      have hprefix' : d :: (ds ++ t') <+: s ++ t' := by
        refine (List.prefix_append_right_inj sb.s).mp ?_
        simpa [StrBuf.append] using hprefix
      have hlen := hprefix'.length_le
      simp only [List.length_cons, List.length_append] at hlen
      have hhead : s.head? = some d := by
        obtain ⟨a, s, rfl⟩ := List.exists_cons_of_ne_nil hne
        rw [List.cons_append, List.cons_prefix_cons] at hprefix'
        rw [hprefix'.1]
        rfl
      rw [if_neg hplain.backslash]
      exact hplain.quoted_of_mem (hself hhead (by omega))
    | escape e hd =>
      rw [hd] at h
      rw [hk.run_esc h (by decide) (by decide)] at hrun
      have hd' : backslash = d := eq_of_run sb (List.prefix_refl _) hrun
      subst hd'
      cases hd
      rw [if_pos rfl]
      have hrun' : run ⟨st, r₀, sb.push backslash, rb.skip backslash⟩ =
          run ⟨esc, r₀, sb.push backslash, (rb.skip backslash).skip backslash⟩ :=
        run_step _ hk.ne_stop (input_skip h) (by decide) (hk.backslash _ _ _)
      have hmark' : (sb.push backslash).mark = 0 := hmark
      refine ih hmark' (input_skip (input_skip h)) ?_
      rw [← hrun']
      refine hrun.trans ?_
      simp [StrBuf.push]

theorem Kind.run_of_recovered (hk : Kind opening st esc r ending) (r₀ : IdtResult) (sb : StrBuf)
    (hn : Recovered n) (hfirst : ∀ c ∈ n.head?, isblank c = false)
    (h : rb.input = escapedText n ++ space :: (ending ++ rest)) :
    ∃ rb', run ⟨opening, r₀, sb, rb⟩ = ⟨.stop, r, (sb.append n).push space, rb'⟩ ∧
      rb'.input = rest := by
  cases n with
  | nil => exact hn.elim
  | cons c t =>
    have hblank := hfirst c rfl
    rw [escapedText_cons, List.append_assoc] at h
    rw [← StrBuf.push_append]
    rcases hn with hc | ⟨rfl, ht⟩
    · have hplain := plain_of_escaped hc
      rw [hc] at h
      rw [run_step _ hk.opening_ne_stop h hplain.carriageReturn
        (hk.first _ _ _ c hblank (.inl hplain))]
      exact hk.run_rest _ _ (input_skip h)
    · rw [run_step _ hk.opening_ne_stop h (by decide) (hk.first _ _ _ _ hblank (.inr rfl)),
        run_step _ hk.ne_stop (input_skip h) (by decide) (hk.backslash _ _ _)]
      exact hk.run_of_quoted ht (input_skip (input_skip h))

theorem Kind.recovered_of_run (hk : Kind opening st esc r ending) (hne : n ≠ [])
    (h : rb.input = escapedText n ++ space :: (ending ++ rest))
    (hrun : (run ⟨opening, r₀, .reset, rb⟩).sb.rstrip.s = n) : Recovered n := by
  obtain ⟨c, t, rfl⟩ := List.exists_cons_of_ne_nil hne
  cases written c with
  | plain hc _ => exact .inl hc
  | escape e hc =>
    rw [escapedText_cons, hc, List.append_assoc] at h
    rw [run_step _ hk.opening_ne_stop h (by decide) (hk.first _ _ _ _ rfl (.inr rfl))] at hrun
    have hc' : backslash = c := eq_of_run .reset (List.prefix_refl _) hrun
    subst hc'
    cases hc
    rw [run_step _ hk.ne_stop (input_skip h) (by decide) (hk.backslash _ _ _)] at hrun
    exact .inr ⟨rfl, hk.quoted_of_run rfl (input_skip (input_skip h)) hrun⟩

end Kind
end Idt

/-! ## Sections and keys -/

/-- `nparser_get_next_idt` returns `r` with `name` in the buffer. -/
def ReadsAs (rb : ReadBuf) (r : IdtResult) (name : Bytes) : Prop :=
  (nparserGetNextIdt rb).1 = r ∧ (nparserGetNextIdt rb).2.1.s = name

/-- The blank after a name is stripped. -/
theorem rstrip_name {n : Bytes} (hlast : ∀ c ∈ n.getLast?, isblank c = false) :
    ((StrBuf.reset.append n).push space).rstrip = ⟨n, 0⟩ := by
  have hstripped : (⟨n, 0⟩ : StrBuf).Stripped := ⟨Nat.zero_le _, .inr hlast⟩
  exact hstripped.rstrip_append (b := [space]) (by simp [isblank])

/-- A name between its blanks is read back exactly if it is `Recovered`. -/
theorem Idt.Kind.readsAs_iff {opening st esc : IdtState} {r : IdtResult} {ending : Bytes}
    {rb₁ : ReadBuf} {n rest : Bytes} (hk : Idt.Kind opening st esc r ending) (rb : ReadBuf)
    (hr : r = .sectionName ∨ r = .keyName) (hne : n ≠ [])
    (hfirst : ∀ c ∈ n.head?, isblank c = false) (hlast : ∀ c ∈ n.getLast?, isblank c = false)
    (hopen : Idt.run (Idt.init rb) = Idt.run ⟨opening, .eof, .reset, rb₁⟩)
    (h : rb₁.input = escapedText n ++ space :: (ending ++ rest)) :
    ReadsAs rb r n ↔ Recovered n := by
  rw [ReadsAs, nparserGetNextIdt_eq, hopen]
  constructor
  · rintro ⟨hr', hrun⟩
    dsimp only at hr' hrun
    rw [hr', if_pos hr] at hrun
    exact hk.recovered_of_run hne h hrun
  · intro hn
    obtain ⟨rb', hrun, -⟩ := hk.run_of_recovered _ _ hn hfirst h
    rw [hrun]
    dsimp only
    rw [if_pos hr, rstrip_name hlast]
    exact ⟨rfl, rfl⟩

/-- The escaped text of a name, in the line of a section and before `=`, is read back for the names
that are `Recovered` and for no others. -/
theorem reads_name_iff (name : CString) (hne : name.bytes ≠ [])
    (hfirst : ∀ c ∈ name.bytes.head?, isblank c = false)
    (hlast : ∀ c ∈ name.bytes.getLast?, isblank c = false) (rb rb' : ReadBuf) (rest rest' : Bytes)
    (hsection : rb.input = leftBracket :: space :: escapedText name.bytes ++
      space :: rightBracket :: newline :: rest)
    (hkey : rb'.input = escapedText name.bytes ++ space :: equals :: rest') :
    (ReadsAs rb .sectionName name.bytes ∧ ReadsAs rb' .keyName name.bytes) ↔
      Recovered name.bytes := by
  have hopen : Idt.run (Idt.init rb) =
      Idt.run ⟨.beginSection, .eof, .reset, (rb.skip leftBracket).skip space⟩ := by
    rw [Idt.init, Idt.run_step ⟨.beginSection, _, _, _⟩ (by simp) hsection (by decide) rfl,
      Idt.run_step ⟨.beginSection, _, _, _⟩ (by simp) (input_skip hsection) (by decide) rfl]
  rw [Idt.kind_section.readsAs_iff rb (.inl rfl) hne hfirst hlast hopen
      (input_skip (input_skip hsection)),
    Idt.kind_key.readsAs_iff rb' (.inr rfl) hne hfirst hlast rfl hkey, and_self]

/-- The name `\'[`. -/
theorem reads_name_backslash :
    ReadsAs (.init [91, 32, 92, 92, 39, 92, 91, 32, 93, 10]) .sectionName [92, 39, 91] ∧
      ReadsAs (.init [92, 92, 39, 92, 91, 32, 61]) .keyName [92, 39, 91] :=
  (reads_name_iff ⟨[92, 39, 91], by decide⟩ (by decide) (by rintro _ ⟨⟩; rfl)
    (by rintro _ ⟨⟩; rfl) _ _ [] [] rfl rfl).mpr (by decide)

/-- Not every name is read back: `#` is written as `\#`, whose backslash becomes the first
character of the name, and whose `#` starts a comment. -/
theorem not_reads_name_hash :
    ¬ ∀ (name : CString), name.bytes ≠ [] → (∀ c ∈ name.bytes.head?, isblank c = false) →
      (∀ c ∈ name.bytes.getLast?, isblank c = false) → ∀ (rb rb' : ReadBuf) (rest rest' : Bytes),
        rb.input = leftBracket :: space :: escapedText name.bytes ++
          space :: rightBracket :: newline :: rest →
        rb'.input = escapedText name.bytes ++ space :: equals :: rest' →
        ReadsAs rb .sectionName name.bytes ∧ ReadsAs rb' .keyName name.bytes := by
  intro h
  obtain ⟨⟨hsection, -⟩, -⟩ := h ⟨[hash], by decide⟩ (by decide) (by rintro _ ⟨⟩; rfl)
    (by rintro _ ⟨⟩; rfl) (.init [91, 32, 92, 35, 32, 93, 10]) (.init [92, 35, 32, 61]) [] [] rfl
    rfl
  have hread : (nparserGetNextIdt (.init [91, 32, 92, 35, 32, 93, 10])).1 = .error := by decide
  rw [hread] at hsection
  cases hsection

end Config
end Campagnol
