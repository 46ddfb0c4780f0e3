import Campagnol.Config.Io
import Campagnol.Lib.Loop

/-!
# The loops of the reader

What one time round of the loops of `nparser_get_next_idt` and `nparser_get_next_value` can do. It
takes a byte or is the last one, so that the loops end by themselves: `Idt.run` and `Val.run` go
round as often as it takes.
-/

namespace Campagnol
namespace Config

/-! ## The read buffer -/

/-- The buffer after the character `c`. -/
def ReadBuf.skip (rb : ReadBuf) (c : UInt8) : ReadBuf :=
  { rb with input := rb.input.tail, pos := rb.pos.inc c }

/-- The buffer after some characters. -/
def ReadBuf.skips (rb : ReadBuf) (s : Bytes) : ReadBuf := s.foldl ReadBuf.skip rb

section ReadBuf
variable {rb : ReadBuf} {c : UInt8} {s rest : Bytes}

/-- A character that is not the CR of CR LF. -/
theorem next_eq_skip (h : rb.input = c :: rest)
    (hc : ¬ (c = carriageReturn ∧ rest.head? = some newline)) : rb.next = (some c, rb.skip c) := by
  simp only [ReadBuf.next, h, if_neg hc, ReadBuf.skip, List.tail_cons]

theorem next_of_cons (h : rb.input = c :: rest) (hc : c ≠ carriageReturn) :
    rb.next = (some c, rb.skip c) := next_eq_skip h fun hcr => hc hcr.1

theorem next_of_nil (h : rb.input = []) : rb.next = (none, rb) := by
  simp [ReadBuf.next, h]

theorem input_skip (h : rb.input = c :: rest) : (rb.skip c).input = rest := by
  simp [ReadBuf.skip, h]

theorem input_skips (h : rb.input = s ++ rest) : (rb.skips s).input = rest := by
  induction s generalizing rb with
  | nil => exact h
  | cons c s ih => exact ih (input_skip h)

/-- What `read_buf_next` can do. -/
theorem next_cases (rb : ReadBuf) :
    (rb.input = [] ∧ rb.next = (none, rb)) ∨
      (∃ c rest, rb.input = c :: rest ∧ ¬ (c = carriageReturn ∧ rest.head? = some newline) ∧
        rb.next = (some c, rb.skip c)) ∨
      ∃ rest, rb.input = carriageReturn :: newline :: rest ∧
        rb.next = (some newline, { rb with input := rest, pos := rb.pos.inc newline }) := by
  cases h : rb.input with
  | nil => exact .inl ⟨rfl, next_of_nil h⟩
  | cons c rest =>
    by_cases hc : c = carriageReturn ∧ rest.head? = some newline
    · obtain ⟨rfl, hrest⟩ := hc
      obtain ⟨rest, rfl⟩ := List.head?_eq_some_iff.mp hrest
      exact .inr (.inr ⟨rest, rfl, by simp [ReadBuf.next, h]⟩)
    · exact .inr (.inl ⟨c, rest, rfl, hc, next_eq_skip h hc⟩)

/-- A character is taken off the input. -/
theorem next_length {rb' : ReadBuf} (h : rb.next = (some c, rb')) :
    rb'.input <:+ rb.input ∧ rb'.input.length < rb.input.length := by
  rcases next_cases rb with ⟨-, hnext⟩ | ⟨d, rest, hinput, -, hnext⟩ | ⟨rest, hinput, hnext⟩
  · rw [hnext] at h
    cases h
  · rw [hnext] at h
    cases h
    rw [input_skip hinput, hinput]
    exact ⟨List.suffix_cons _ _, Nat.lt_succ_self _⟩
  · rw [hnext] at h
    cases h
    rw [hinput]
    refine ⟨⟨[carriageReturn, newline], rfl⟩, ?_⟩
    simp only [List.length_cons]
    omega

theorem next_suffix (rb : ReadBuf) : rb.next.2.input <:+ rb.input := by
  cases h : rb.next with
  | mk c rb' =>
    cases c with
    | some c => exact (next_length h).1
    | none =>
      rcases next_cases rb with ⟨-, hnext⟩ | ⟨d, rest, -, -, hnext⟩ | ⟨rest, -, hnext⟩ <;>
        rw [hnext] at h <;> cases h
      exact List.suffix_refl _

theorem next_eq_none {rb' : ReadBuf} (h : rb.next = (none, rb')) : rb.input = [] ∧ rb' = rb := by
  rcases next_cases rb with ⟨hinput, hnext⟩ | ⟨d, rest, -, -, hnext⟩ | ⟨rest, -, hnext⟩ <;>
    rw [hnext] at h <;> cases h
  exact ⟨hinput, rfl⟩

end ReadBuf

/-! ## Escapes -/

/-- The characters that stand for themselves after a backslash. -/
def selfEscapes : Bytes := [92, 34, 39, 63, 35, 59, 91, 93, 61]

/-- An escape is a fixed text, or is followed by digits. -/
theorem charUnescape_cases (c : UInt8) :
    (∃ s, (∀ sb rb, charUnescape sb c rb = (StrBuf.append sb s, rb)) ∧ s ≠ [] ∧
        (s.head? = some c → c ∈ selfEscapes)) ∨
      (c = 120 ∧ ∀ sb rb, charUnescape sb c rb = unescapeHex sb rb) ∨
      (isoctdigit c = true ∧ ∀ sb rb, charUnescape sb c rb = unescapeOct sb c rb) := by
  by_cases hx : c = 120
  · subst hx
    exact .inr (.inl ⟨rfl, fun _ _ => rfl⟩)
  by_cases h : c ∈ [92, 34, 39, 63, 110, 114, 98, 116, 102, 97, 118, 35, 59, 91, 93, 61]
  · left
    simp only [List.mem_cons, List.not_mem_nil, or_false] at h
    rcases h with rfl | rfl | rfl | rfl | rfl | rfl | rfl | rfl | rfl | rfl | rfl | rfl | rfl |
      rfl | rfl | rfl <;> exact ⟨_, fun _ _ => rfl, by simp, by decide⟩
  · have hdefault : ∀ sb rb, charUnescape sb c rb =
        if isoctdigit c then unescapeOct sb c rb else ((sb.push backslash).push c, rb) := by
      intro sb rb
      simp only [List.mem_cons, List.not_mem_nil, or_false, not_or] at h
      obtain ⟨h1, h2, h3, h4, h5, h6, h7, h8, h9, h10, h11, h12, h13, h14, h15, h16⟩ := h
      unfold charUnescape
      split <;> first | rfl | contradiction
    cases hoct : isoctdigit c with
    | true => exact .inr (.inr ⟨rfl, fun sb rb => by rw [hdefault, hoct]; rfl⟩)
    | false =>
      refine .inl ⟨[backslash, c], fun sb rb => ?_, by simp, fun hs => ?_⟩
      · rw [hdefault, hoct]
        simp [StrBuf.push, StrBuf.append]
      · rw [← Option.some.inj hs]
        exact List.mem_cons_self

/-- An octal digit does not stand for itself. -/
theorem octtoint_ne {c : UInt8} (h : isoctdigit c = true) : UInt8.ofNat (octtoint c) ≠ c := by
  intro heq
  simp only [isoctdigit, Bool.and_eq_true, decide_eq_true_eq, UInt8.le_iff_toNat_le] at h
  have hnat := congrArg UInt8.toNat heq
  simp only [octtoint, UInt8.toNat_ofNat'] at hnat
  have hlow : 48 ≤ c.toNat := h.1
  have hhigh : c.toNat ≤ 55 := h.2
  omega

theorem isxdigit_of_isoctdigit {c : UInt8} (h : isoctdigit c = true) : isxdigit c = true := by
  simp only [isoctdigit, Bool.and_eq_true, decide_eq_true_eq] at h
  have h57 : c ≤ 57 := UInt8.le_trans h.2 (by decide)
  simp [isxdigit, isdigit, h.1, h57]

/-- An escape with up to two more digits: what is read without one, with one and with two. -/
def upToTwo (digit : UInt8 → Bool) (rb : ReadBuf) (none' : StrBuf) (one : UInt8 → StrBuf)
    (two : UInt8 → UInt8 → StrBuf) : StrBuf × ReadBuf :=
  match rb.peek.filter digit with
  | none => (none', rb)
  | some c =>
    match rb.next.2.peek.filter digit with
    | none => (one c, rb.next.2)
    | some c' => (two c c', rb.next.2.next.2)

theorem unescapeHex_eq (sb : StrBuf) (rb : ReadBuf) :
    unescapeHex sb rb = upToTwo isxdigit rb (sb.append [backslash, 120])
      (fun c => sb.append [UInt8.ofNat (hextoint c)])
      fun c c' => sb.append [UInt8.ofNat (hextoint c * 16 + hextoint c')] := by
  rw [← StrBuf.push_append, ← StrBuf.push_append, StrBuf.append_nil]
  rfl

theorem unescapeOct_eq (sb : StrBuf) (c : UInt8) (rb : ReadBuf) :
    unescapeOct sb c rb = upToTwo isoctdigit rb (sb.append [UInt8.ofNat (octtoint c)])
      (fun c' => sb.append [UInt8.ofNat (octtoint c * 8 + octtoint c')])
      fun c' c'' =>
        sb.append [UInt8.ofNat ((octtoint c * 8 + octtoint c') * 8 + octtoint c'')] := rfl

section UpToTwo
variable {digit : UInt8 → Bool} {rb : ReadBuf} {none' : StrBuf} {one : UInt8 → StrBuf}
  {two : UInt8 → UInt8 → StrBuf} {d d' : UInt8} {rest : Bytes}

theorem upToTwo_none (h : rb.input.head?.filter digit = none) :
    upToTwo digit rb none' one two = (none', rb) := by
  simp only [upToTwo, ReadBuf.peek, h]

theorem upToTwo_one (h : rb.input = d :: rest) (hcr : d ≠ carriageReturn) (hd : digit d = true)
    (hrest : rest.head?.filter digit = none) :
    upToTwo digit rb none' one two = (one d, rb.skip d) := by
  have hpeek : rb.peek.filter digit = some d := by
    rw [ReadBuf.peek, h]
    exact Option.filter_some_pos hd
  have hpeek' : (rb.skip d).peek.filter digit = none := by
    rw [ReadBuf.peek, input_skip h]
    exact hrest
  simp only [upToTwo, hpeek, next_of_cons h hcr, hpeek']

theorem upToTwo_two (h : rb.input = d :: d' :: rest) (hcr : d ≠ carriageReturn)
    (hcr' : d' ≠ carriageReturn) (hd : digit d = true) (hd' : digit d' = true) :
    upToTwo digit rb none' one two = (two d d', (rb.skip d).skip d') := by
  have hpeek : rb.peek.filter digit = some d := by
    rw [ReadBuf.peek, h]
    exact Option.filter_some_pos hd
  have hpeek' : (rb.skip d).peek.filter digit = some d' := by
    rw [ReadBuf.peek, input_skip h]
    exact Option.filter_some_pos hd'
  have hnext' := next_of_cons (input_skip h) hcr'
  simp only [upToTwo, hpeek, next_of_cons h hcr, hpeek', hnext']

/-- The digits are taken off the input, and the byte after them decides that there are no more. -/
theorem upToTwo_spec (hdigit : ∀ c, digit c = true → isxdigit c = true) (rb : ReadBuf)
    (none' : StrBuf) (one : UInt8 → StrBuf) (two : UInt8 → UInt8 → StrBuf) :
    ∃ sb' ds, upToTwo digit rb none' one two = (sb', rb.skips ds) ∧ ds <+: rb.input ∧
      (∀ d ∈ ds, isxdigit d = true) ∧
      (∀ e rest rb' rest', rb.input = ds ++ e :: rest → rb'.input = ds ++ e :: rest' →
        upToTwo digit rb' none' one two = (sb', rb'.skips ds)) ∧
      ((ds = [] ∧ sb' = none') ∨ (ds ≠ [] ∧ ((∃ c, sb' = one c) ∨ ∃ c c', sb' = two c c'))) := by
  have hcr : ∀ d, digit d = true → d ≠ carriageReturn := by
    rintro _ hd rfl
    cases hdigit _ hd
  cases hd : rb.input.head?.filter digit with
  | none =>
    refine ⟨_, [], upToTwo_none hd, List.nil_prefix, by simp, ?_, .inl ⟨rfl, rfl⟩⟩
    intro e rest rb' rest' h h'
    rw [h] at hd
    refine upToTwo_none ?_
    rw [h']
    exact hd
  | some d =>
    obtain ⟨hhead, hdigit₁⟩ := Option.filter_eq_some_iff.mp hd
    obtain ⟨rest, hinput⟩ := List.head?_eq_some_iff.mp hhead
    cases hd' : rest.head?.filter digit with
    | none =>
      refine ⟨_, [d], upToTwo_one hinput (hcr d hdigit₁) hdigit₁ hd', ?_, ?_, ?_,
        .inr ⟨by simp, .inl ⟨d, rfl⟩⟩⟩
      · rw [hinput]
        exact List.prefix_append [d] rest
      · simpa using hdigit d hdigit₁
      · intro e rest₂ rb' rest' h h'
        rw [hinput] at h
        obtain rfl := (List.cons.inj h).2
        exact upToTwo_one h' (hcr d hdigit₁) hdigit₁ hd'
    | some d' =>
      obtain ⟨hhead', hdigit₂⟩ := Option.filter_eq_some_iff.mp hd'
      obtain ⟨rest', rfl⟩ := List.head?_eq_some_iff.mp hhead'
      have htwo : ∀ (rb' : ReadBuf) rest₂, rb'.input = d :: d' :: rest₂ →
          upToTwo digit rb' none' one two = (two d d', rb'.skips [d, d']) := fun _ _ h =>
        upToTwo_two h (hcr d hdigit₁) (hcr d' hdigit₂) hdigit₁ hdigit₂
      refine ⟨_, [d, d'], htwo rb rest' hinput, ?_, ?_, fun e _ rb' rest₂ _ h' => htwo rb' _ h',
        .inr ⟨by simp, .inr ⟨d, d', rfl⟩⟩⟩
      · rw [hinput]
        exact List.prefix_append [d, d'] rest'
      · simpa using ⟨hdigit d hdigit₁, hdigit d' hdigit₂⟩

end UpToTwo

/-- `char_unescape` pushes some characters, and takes digits only off the input. It looks at one
more byte at most. Where it takes fewer bytes than it pushes, and pushes its character first, the
character stands for itself. -/
theorem charUnescape_spec (sb : StrBuf) (c : UInt8) (rb : ReadBuf) :
    ∃ s ds, charUnescape sb c rb = (sb.append s, rb.skips ds) ∧ ds <+: rb.input ∧
      (∀ d ∈ ds, isxdigit d = true) ∧
      (∀ e rest rb' rest', rb.input = ds ++ e :: rest → rb'.input = ds ++ e :: rest' →
        charUnescape sb c rb' = (sb.append s, rb'.skips ds)) ∧
      s ≠ [] ∧ (s.head? = some c → ds.length < s.length → c ∈ selfEscapes) := by
  rcases charUnescape_cases c with ⟨s, h, hne, hself⟩ | ⟨hc, h⟩ | ⟨hc, h⟩
  · exact ⟨s, [], h sb rb, List.nil_prefix, by simp, fun _ _ rb' _ _ _ => h sb rb', hne,
      fun hs _ => hself hs⟩
  · simp only [h, unescapeHex_eq]
    obtain ⟨sb', ds, heq, hds, hdigits, hlocal, hsb⟩ := upToTwo_spec (fun _ => id) rb _ _ _
    rcases hsb with ⟨-, rfl⟩ | ⟨hne, ⟨d, rfl⟩ | ⟨d, d', rfl⟩⟩
    · refine ⟨_, ds, heq, hds, hdigits, hlocal, by simp, fun hs _ => ?_⟩
      rw [hc] at hs
      cases hs
    all_goals
      refine ⟨_, ds, heq, hds, hdigits, hlocal, by simp, fun _ hlt => ?_⟩
      exact absurd hlt (by simpa using hne)
  · simp only [h, unescapeOct_eq]
    obtain ⟨sb', ds, heq, hds, hdigits, hlocal, hsb⟩ :=
      upToTwo_spec (fun _ => isxdigit_of_isoctdigit) rb _ _ _
    rcases hsb with ⟨-, rfl⟩ | ⟨hne, ⟨d, rfl⟩ | ⟨d, d', rfl⟩⟩
    · refine ⟨_, ds, heq, hds, hdigits, hlocal, by simp, fun hs _ => ?_⟩
      exact absurd (Option.some.inj hs) (octtoint_ne hc)
    all_goals
      refine ⟨_, ds, heq, hds, hdigits, hlocal, by simp, fun _ hlt => ?_⟩
      exact absurd hlt (by simpa using hne)

theorem charUnescape_suffix (sb : StrBuf) (c : UInt8) (rb : ReadBuf) :
    (charUnescape sb c rb).2.input <:+ rb.input := by
  obtain ⟨s, ds, h, ⟨rest, hrest⟩, -⟩ := charUnescape_spec sb c rb
  rw [h, input_skips hrest.symm]
  exact ⟨ds, hrest⟩

/-! ## Reading on -/

section Next
variable {f : Option UInt8 → ReadBuf → ReadBuf} {rb : ReadBuf}

/-- What follows `read_buf_next` reads on from there. -/
theorem length_of_next (hf : ∀ c rb, (f c rb).input <:+ rb.input) (h : rb.input ≠ []) :
    (f rb.next.1 rb.next.2).input.length < rb.input.length := by
  cases hnext : rb.next with
  | mk c rb₁ =>
    cases c with
    | none => exact absurd (next_eq_none hnext).1 h
    | some c =>
      have hlen := (next_length hnext).2
      have hle := (hf (some c) rb₁).length_le
      exact Nat.lt_of_le_of_lt hle hlen

theorem lt_of_next (hf : ∀ c rb, (f c rb).input <:+ rb.input) {n : ℕ} (hn : 0 < n)
    (h : n ≤ (f rb.next.1 rb.next.2).input.length) : n < rb.input.length := by
  have hsuffix := ((hf rb.next.1 rb.next.2).trans (next_suffix rb)).length_le
  have hne : rb.input ≠ [] := by
    intro hnil
    rw [hnil, List.length_nil] at hsuffix
    omega
  exact Nat.lt_of_le_of_lt h (length_of_next hf hne)

end Next

/-! ## Identifiers -/

namespace Idt

/-- One time round the loop. -/
def body (v : Idt) : Idt := { v with rb := v.rb.next.2 }.switch v.rb.next.1

/-- What the `switch` does with two read buffers: the same, and it looks at them for an escape
only. -/
inductive Alike (st : IdtState) (r : IdtResult) (sb : StrBuf) (rb rb' : ReadBuf) :
    Idt → Idt → Prop where
  | plain (st' : IdtState) (r' : IdtResult) (sb' : StrBuf) :
      Alike st r sb rb rb' ⟨st', r', sb', rb⟩ ⟨st', r', sb', rb'⟩
  | logged (st' : IdtState) (r' : IdtResult) (sb' : StrBuf) (text : String) :
      Alike st r sb rb rb' ⟨st', r', sb', rb.logMessage text⟩ ⟨st', r', sb', rb'.logMessage text⟩
  | unescaped (c : UInt8) (st' : IdtState) (hst' : st' = .readSection ∨ st' = .readName) :
      Alike st r sb rb rb' (unescape ⟨st, r, sb, rb⟩ c st') (unescape ⟨st, r, sb, rb'⟩ c st')

theorem switch_alike (st : IdtState) (r : IdtResult) (sb : StrBuf) (rb rb' : ReadBuf)
    (c : Option UInt8) :
    Alike st r sb rb rb' (switch ⟨st, r, sb, rb⟩ c) (switch ⟨st, r, sb, rb'⟩ c) := by
  cases st <;> cases c <;> simp only [switch]
  all_goals first
    | exact .plain _ _ _
    | exact .logged _ _ _ _
    | split_ifs
      all_goals first
        | exact .plain _ _ _
        | exact .logged _ _ _ _
        | exact .unescaped _ _ (by simp)

theorem switch_suffix (v : Idt) (c : Option UInt8) : (v.switch c).rb.input <:+ v.rb.input := by
  have halike := switch_alike v.state v.r v.sb v.rb v.rb c
  generalize switch ⟨v.state, v.r, v.sb, v.rb⟩ c = v' at halike
  cases halike with
  | plain st' r' sb' => exact List.suffix_refl _
  | logged st' r' sb' text => exact List.suffix_refl _
  | unescaped c st' hst' => exact charUnescape_suffix v.sb c v.rb

/-- At the end of the file the loop ends. -/
theorem switch_none (v : Idt) : (v.switch none).state = .stop := by
  unfold switch
  split <;> first | rfl | (rename_i h; cases h) | assumption

theorem body_suffix (v : Idt) : v.body.rb.input <:+ v.rb.input :=
  (switch_suffix _ _).trans (next_suffix v.rb)

theorem body_length {v : Idt} (h : v.rb.input ≠ []) :
    v.body.rb.input.length < v.rb.input.length := by
  exact length_of_next (f := fun c rb => ({ v with rb := rb }.switch c).rb)
    (fun _ _ => switch_suffix _ _) h

theorem body_cases (v : Idt) :
    v.body.state = .stop ∨ v.body.rb.input.length < v.rb.input.length := by
  by_cases hinput : v.rb.input = []
  · left
    rw [body, next_of_nil hinput]
    exact switch_none _
  · exact .inr (body_length hinput)

theorem isLoop : IsLoop loop (fun v => v.state = .stop) body fun v => v.rb.input.length :=
  .of_ite (fun _ => rfl) (fun _ _ => rfl) body_cases

/-- The loop, as often round as it takes. -/
def run (v : Idt) : Idt := loop (v.rb.input.length + 1) v

theorem run_eq_loop {n : ℕ} {v : Idt} (h : v.rb.input.length < n) : run v = loop n v :=
  isLoop.eq_of_lt (Nat.lt_succ_self _) h

theorem run_body {v : Idt} (h : v.state ≠ .stop) : run v = run v.body :=
  isLoop.eq_body h (Nat.lt_succ_self _) (Nat.lt_succ_self _)

theorem run_stop {v : Idt} (h : v.state = .stop) : run v = v := isLoop.stopped _ v h

theorem run_stops (v : Idt) : (run v).state = .stop := isLoop.stops (Nat.lt_succ_self _)

theorem loop_suffix (k : ℕ) (v : Idt) : (loop k v).rb.input <:+ v.rb.input :=
  isLoop.invariant (P := fun w => w.rb.input <:+ v.rb.input) (List.suffix_refl _)
    fun w _ hw => (body_suffix w).trans hw

theorem run_suffix (v : Idt) : (run v).rb.input <:+ v.rb.input := loop_suffix _ v

/-- A part of the loop does not matter for its result. -/
theorem run_loop (k : ℕ) (v : Idt) : run (loop k v) = run v := by
  induction k generalizing v with
  | zero => rfl
  | succ k ih =>
    by_cases hv : v.state = .stop
    · rw [isLoop.stopped _ v hv]
    · rw [isLoop.round k v hv, ih, ← run_body hv]

/-- Nothing is found at the end of the file. -/
theorem run_start_of_nil {v : Idt} (hst : v.state = .start) (h : v.rb.input = []) :
    (run v).r = v.r := by
  obtain ⟨st, r, sb, rb⟩ := v
  obtain rfl : st = .start := hst
  rw [run_body (by simp), body, next_of_nil h, run_stop rfl]
  rfl

variable {st : IdtState} {r : IdtResult} {sb : StrBuf} {rb : ReadBuf} {c : UInt8} {rest : Bytes}

/-- One character, after which the loop goes on from `v`. -/
theorem run_step (v : Idt) (hst : st ≠ .stop) (h : rb.input = c :: rest)
    (hc : c ≠ carriageReturn) (hv : switch ⟨st, r, sb, rb.skip c⟩ (some c) = v) :
    run ⟨st, r, sb, rb⟩ = run v := by
  rw [run_body hst, body, next_of_cons h hc]
  exact congrArg run hv

end Idt

/-- The variables at the start of `nparser_get_next_idt`. -/
def Idt.init (rb : ReadBuf) : Idt := ⟨.start, .eof, .reset, rb⟩

theorem nparserGetNextIdt_eq (rb : ReadBuf) :
    nparserGetNextIdt rb =
      let v := Idt.run (Idt.init rb)
      (v.r, if v.r = .sectionName ∨ v.r = .keyName then v.sb.rstrip else v.sb, v.rb) := rfl

/-- An identifier takes a byte at least. -/
theorem nparserGetNextIdt_length {rb rb' : ReadBuf} {r : IdtResult} {sb : StrBuf}
    (h : nparserGetNextIdt rb = (r, sb, rb')) (hr : r ≠ .eof) :
    rb'.input.length < rb.input.length := by
  rw [nparserGetNextIdt_eq] at h
  simp only [Prod.mk.injEq] at h
  obtain ⟨rfl, -, rfl⟩ := h
  cases hinput : rb.input with
  | nil => exact absurd (Idt.run_start_of_nil (v := Idt.init rb) rfl hinput) hr
  | cons c rest =>
    -- the first time round takes a byte
    have hlt := Idt.body_length (v := Idt.init rb) (by simp [Idt.init, hinput])
    have hle := (Idt.run_suffix (Idt.init rb).body).length_le
    rw [Idt.run_body (by simp [Idt.init]), ← hinput]
    exact Nat.lt_of_le_of_lt hle hlt

/-! ## Values -/

namespace Val

/-- One time round the loop. -/
def body (v : Val) : Val := { v with rb := v.rb.next.2 }.switch v.rb.next.1

/-- What the `switch` does with two read buffers: the same, and it looks at them for an escape
only. -/
inductive Alike (st : ValState) (ok : Bool) (sb : StrBuf) (rb rb' : ReadBuf) :
    Val → Val → Prop where
  | plain (st' : ValState) (ok' : Bool) (sb' : StrBuf) :
      Alike st ok sb rb rb' ⟨st', ok', sb', rb⟩ ⟨st', ok', sb', rb'⟩
  | unescaped (c : UInt8) (st' : ValState) (hst' : st' = .inQuote ∨ st' = .inUnquoted) :
      Alike st ok sb rb rb' (unescape ⟨st, ok, sb, rb⟩ c st') (unescape ⟨st, ok, sb, rb'⟩ c st')

theorem switch_alike (st : ValState) (ok : Bool) (sb : StrBuf) (rb rb' : ReadBuf)
    (c : Option UInt8) :
    Alike st ok sb rb rb' (switch ⟨st, ok, sb, rb⟩ c) (switch ⟨st, ok, sb, rb'⟩ c) := by
  cases st <;> cases c <;> simp only [switch]
  all_goals first
    | exact .plain _ _ _
    | split_ifs
      all_goals first
        | exact .plain _ _ _
        | exact .unescaped _ _ (by simp)

theorem switch_suffix (v : Val) (c : Option UInt8) : (v.switch c).rb.input <:+ v.rb.input := by
  have halike := switch_alike v.state v.ok v.sb v.rb v.rb c
  generalize switch ⟨v.state, v.ok, v.sb, v.rb⟩ c = v' at halike
  cases halike with
  | plain st' ok' sb' => exact List.suffix_refl _
  | unescaped c st' hst' => exact charUnescape_suffix v.sb c v.rb

/-- At the end of the file the loop ends. -/
theorem switch_none (v : Val) : (v.switch none).state = .stop := by
  unfold switch
  split <;> first | rfl | (rename_i h; cases h) | assumption

theorem body_suffix (v : Val) : v.body.rb.input <:+ v.rb.input :=
  (switch_suffix _ _).trans (next_suffix v.rb)

theorem body_length {v : Val} (h : v.rb.input ≠ []) :
    v.body.rb.input.length < v.rb.input.length := by
  exact length_of_next (f := fun c rb => ({ v with rb := rb }.switch c).rb)
    (fun _ _ => switch_suffix _ _) h

theorem body_cases (v : Val) :
    v.body.state = .stop ∨ v.body.rb.input.length < v.rb.input.length := by
  by_cases hinput : v.rb.input = []
  · left
    rw [body, next_of_nil hinput]
    exact switch_none _
  · exact .inr (body_length hinput)

theorem isLoop : IsLoop loop (fun v => v.state = .stop) body fun v => v.rb.input.length :=
  .of_ite (fun _ => rfl) (fun _ _ => rfl) body_cases

/-- The loop, as often round as it takes. -/
def run (v : Val) : Val := loop (v.rb.input.length + 1) v

theorem run_eq_loop {n : ℕ} {v : Val} (h : v.rb.input.length < n) : run v = loop n v :=
  isLoop.eq_of_lt (Nat.lt_succ_self _) h

theorem run_body {v : Val} (h : v.state ≠ .stop) : run v = run v.body :=
  isLoop.eq_body h (Nat.lt_succ_self _) (Nat.lt_succ_self _)

theorem run_stop {v : Val} (h : v.state = .stop) : run v = v := isLoop.stopped _ v h

theorem run_stops (v : Val) : (run v).state = .stop := isLoop.stops (Nat.lt_succ_self _)

theorem run_suffix (v : Val) : (run v).rb.input <:+ v.rb.input :=
  isLoop.invariant (P := fun w => w.rb.input <:+ v.rb.input) (List.suffix_refl _)
    fun w _ hw => (body_suffix w).trans hw

variable {st : ValState} {ok : Bool} {sb : StrBuf} {rb : ReadBuf} {c : UInt8} {rest : Bytes}

/-- One character, after which the loop goes on from `v`. -/
theorem run_step (v : Val) (hst : st ≠ .stop) (h : rb.input = c :: rest)
    (hc : c ≠ carriageReturn) (hv : switch ⟨st, ok, sb, rb.skip c⟩ (some c) = v) :
    run ⟨st, ok, sb, rb⟩ = run v := by
  rw [run_body hst, body, next_of_cons h hc]
  exact congrArg run hv

end Val

/-- The variables at the start of `nparser_get_next_value`. -/
def Val.init (rb : ReadBuf) : Val := ⟨.start, true, .reset, rb⟩

theorem nparserGetNextValue_eq (rb : ReadBuf) :
    nparserGetNextValue rb =
      let v := Val.run (Val.init rb)
      (v.ok, v.sb, if v.ok then v.rb else v.rb.logMessage "Syntax error: unexpected end of file") :=
  rfl

theorem nparserGetNextValue_suffix (rb : ReadBuf) :
    (nparserGetNextValue rb).2.2.input <:+ rb.input := by
  have hsuffix := Val.run_suffix (Val.init rb)
  rw [nparserGetNextValue_eq]
  dsimp only
  split <;> exact hsuffix

end Config
end Campagnol
